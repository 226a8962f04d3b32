import EnvSettings.Shell

namespace EnvSettings.Shell

/-- The characters that open and close a single-quoted string: the straight quote, and four curved
ones. -/
def isQuote (c : Char) : Bool :=
  c == '\'' || '\u2018' ≤ c && c ≤ '\u201b'

/-- The content of a single-quoted string that has been opened, and what follows the string. -/
def closeQuote? : List Char → Option (List Char × List Char)
  | [] => none
  | [c] => if isQuote c then some ([], []) else none
  | c :: next :: s =>
    if isQuote c then
      if isQuote next then (closeQuote? s).map fun (content, rest) => (c :: content, rest)
      else some ([], next :: s)
    else (closeQuote? (next :: s)).map fun (content, rest) => (c :: content, rest)

/-- The content of the single-quoted string at the beginning of a text, and what follows it. -/
def readString? : List Char → Option (List Char × List Char)
  | [] => none
  | c :: s => if isQuote c then closeQuote? s else none

/-- The characters of a string between its quotes: a straight quote is written twice. -/
def doubled (c : Char) : List Char :=
  if c = '\'' then ['\'', '\''] else [c]

/-- The string of a value, with its apostrophes doubled. -/
theorem powerShellString_eq (value : List Char) :
    powerShellString value = '\'' :: (value.flatMap doubled ++ ['\'']) :=
  rfl

/-- A character that is no quote stands for itself. -/
theorem closeQuote?_of_not_isQuote {c : Char} (hc : isQuote c = false) (s : List Char) :
    closeQuote? (c :: s) = (closeQuote? s).map fun (content, rest) => (c :: content, rest) := by
  cases s with
  | nil => simp [closeQuote?, hc]
  | cons next s => simp [closeQuote?, hc]

/-- A value without other quotes than the apostrophe is read back. -/
theorem closeQuote?_doubled {value : List Char} (hvalue : ∀ c ∈ value, isQuote c → c = '\'') :
    closeQuote? (value.flatMap doubled ++ ['\'']) = some (value, []) := by
  induction value with
  | nil => rfl
  | cons c value ih =>
    rw [List.forall_mem_cons] at hvalue
    rw [List.flatMap_cons, List.append_assoc]
    by_cases hquote : c = '\''
    · have hisQuote : isQuote '\'' := by decide
      rw [doubled, if_pos hquote, List.cons_append, List.cons_append, List.nil_append, closeQuote?,
        if_pos hisQuote, if_pos hisQuote, ih hvalue.2, hquote]
      rfl
    · have hc : isQuote c = false := Bool.eq_false_iff.2 fun hc => hquote (hvalue.1 hc)
      rw [doubled, if_neg hquote, List.singleton_append, closeQuote?_of_not_isQuote hc,
        ih hvalue.2]
      rfl

/-- Each quote in the content of a string takes two characters, every other one takes one, and one
more closes the string. -/
theorem length_of_closeQuote? {s content rest : List Char}
    (hclose : closeQuote? s = some (content, rest)) :
    s.length = content.length + content.countP isQuote + 1 + rest.length := by
  fun_induction closeQuote? s generalizing content with
  | case1 => cases hclose
  | case2 c hc =>
    cases hclose
    rfl
  | case3 c hc => cases hclose
  | case4 c next s hc hnext ih =>
    obtain ⟨⟨content', rest'⟩, hinner, heq⟩ := Option.map_eq_some_iff.1 hclose
    cases heq
    have := ih hinner
    simp only [List.length_cons, List.countP_cons_of_pos hc]
    omega
  | case5 c next s hc hnext =>
    cases hclose
    simp
    omega
  | case6 c next s hc ih =>
    obtain ⟨⟨content', rest'⟩, hinner, heq⟩ := Option.map_eq_some_iff.1 hclose
    cases heq
    have := ih hinner
    simp only [List.length_cons, List.countP_cons_of_neg hc] at this ⊢
    omega

/-- Doubling adds one character for each apostrophe. -/
theorem length_flatMap_doubled (value : List Char) :
    (value.flatMap doubled).length = value.length + value.count '\'' := by
  induction value with
  | nil => rfl
  | cons c value ih =>
    rw [List.flatMap_cons, List.length_append, ih, List.length_cons, List.count_cons, doubled]
    by_cases hquote : c = '\''
    · simp [hquote]
      omega
    · simp [hquote]
      omega

/-- A string of which nothing is left over has the right length only if every quote in it is the
straight one. -/
theorem eq_quote_of_closeQuote? {value : List Char}
    (hclose : closeQuote? (value.flatMap doubled ++ ['\'']) = some (value, [])) :
    ∀ c ∈ value, isQuote c → c = '\'' := by
  have hlength := length_of_closeQuote? hclose
  rw [List.length_append, length_flatMap_doubled, List.length_singleton, List.length_nil] at hlength
  have hstraight : (fun c => c == '\'' && isQuote c) = (· == '\'') := by
    funext c
    by_cases hquote : c = '\''
    · rw [hquote]
      decide
    · simp [hquote]
  have hcount : (value.filter isQuote).countP (· == '\'') = (value.filter isQuote).length := by
    rw [List.countP_filter, hstraight, ← List.countP_eq_length_filter]
    have : value.countP (· == '\'') = value.count '\'' := rfl
    omega
  intro c hmem hc
  exact beq_iff_eq.1 (List.countP_eq_length.1 hcount c (List.mem_filter.2 ⟨hmem, hc⟩))

/-- What PowerShell gets behind the equals sign is one complete string with the value as its content
exactly when the value holds no quote but the straight one. -/
theorem readString?_assignment_iff (name value : List Char) :
    ∃ literal, assignment .powerShell name value = "$env:".toList ++ name ++ '=' :: literal ∧
      (readString? literal = some (value, []) ↔ ∀ c ∈ value, isQuote c → c = '\'') := by
  refine ⟨powerShellString value, rfl, ?_⟩
  have hopen : isQuote '\'' := by decide
  rw [powerShellString_eq, readString?, if_pos hopen]
  exact ⟨eq_quote_of_closeQuote?, closeQuote?_doubled⟩

/-- A curved apostrophe ends the string, and PowerShell goes on with the rest of the value as
code. -/
theorem readString?_assignment_curved :
    ∃ literal, assignment .powerShell "MSG".toList "it\u2019s".toList =
        "$env:MSG=".toList ++ literal ∧
      readString? literal = some ("it".toList, "s'".toList) ∧
      readString? literal ≠ some ("it\u2019s".toList, []) :=
  ⟨powerShellString "it\u2019s".toList, by decide, by decide, by decide⟩

end EnvSettings.Shell
