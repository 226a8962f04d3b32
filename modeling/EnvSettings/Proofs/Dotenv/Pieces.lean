import EnvSettings.Dotenv.Reference
import EnvSettings.Proofs.Text.Split

namespace EnvSettings.Dotenv

/-- Somewhere in the text stands `${name}`, with a variable name between the braces. -/
def Mentions (s name : List Char) : Prop :=
  isName name = true ∧ '$' :: '{' :: (name ++ ['}']) <:+: s

/-- Letters, digits and underscores are none of the signs that surround a name. -/
theorem not_isNameChar_of_mem_signs {c : Char}
    (hmem : c ∈ ['$', '{', '}', '=', '#', ' ', '\n', '\r']) :
    isNameChar c = false := by
  simp only [List.mem_cons, List.not_mem_nil, or_false] at hmem
  rcases hmem with rfl | rfl | rfl | rfl | rfl | rfl | rfl | rfl <;> decide

/-- A first character of names may also stand later. -/
theorem isNameChar_of_isNameStart {c : Char} (hstart : isNameStart c = true) :
    isNameChar c = true := by
  unfold isNameStart at hstart
  unfold isNameChar Char.isAlphanum
  cases halpha : c.isAlpha <;> simp_all

theorem isNameChar_of_mem_isName {name : List Char} {c : Char} (hname : isName name = true)
    (hmem : c ∈ name) : isNameChar c = true := by
  cases name with
  | nil => cases hmem
  | cons first rest =>
    simp only [isName, Bool.and_eq_true, List.all_eq_true] at hname
    obtain ⟨hstart, hrest⟩ := hname
    rcases List.mem_cons.1 hmem with rfl | hmem
    · exact isNameChar_of_isNameStart hstart
    · exact hrest c hmem

/-- No sign of the syntax is a character of names. -/
theorem not_mem_isName {name : List Char} {c : Char} (hname : isName name = true)
    (hsign : c ∈ ['$', '{', '}', '=', '#', ' ', '\n', '\r']) : c ∉ name := by
  intro hmem
  have hchar := isNameChar_of_mem_isName hname hmem
  rw [not_isNameChar_of_mem_signs hsign] at hchar
  cases hchar

/-- A brace opens a reference exactly when a name and the closing brace follow it. -/
theorem braced?_eq_some_iff {s name : List Char} :
    braced? s = some name ↔ isName name = true ∧ ∃ rest, s = '{' :: (name ++ '}' :: rest) := by
  unfold braced?
  split
  · rename_i s
    cases hcut : Text.cutAt? '}' s with
    | none =>
      simp only [reduceCtorEq, List.cons.injEq, true_and, false_iff]
      rintro ⟨hname, rest, rfl⟩
      rw [Text.cutAt?_append (not_mem_isName hname (by decide))] at hcut
      cases hcut
    | some parts =>
      obtain ⟨before, after⟩ := parts
      obtain ⟨rfl, hbefore⟩ := Text.cutAt?_eq_some_iff.1 hcut
      constructor
      · intro h
        simp only [Option.ite_none_right_eq_some, Option.some.injEq] at h
        obtain ⟨hname, rfl⟩ := h
        exact ⟨hname, after, rfl⟩
      · rintro ⟨hname, rest, heq⟩
        rw [(List.cons.inj heq).2, Text.cutAt?_append (not_mem_isName hname (by decide))] at hcut
        cases hcut
        simp [hname]
  · rename_i hnot
    simp only [reduceCtorEq, false_iff]
    rintro ⟨_, rest, rfl⟩
    exact hnot _ rfl

/-- The course of the scan: a reference is taken whole, and any other character by itself. -/
inductive Scanned : List Char → List Piece → Prop where
  | nil : Scanned [] []
  | reference {name rest : List Char} {ps : List Piece} (hname : isName name = true)
      (hrest : Scanned rest ps) :
      Scanned ('$' :: '{' :: (name ++ '}' :: rest)) (.reference (String.ofList name) :: ps)
  | char {c : Char} {s : List Char} {ps : List Piece} (hnone : c = '$' → braced? s = none)
      (hrest : Scanned s ps) : Scanned (c :: s) (.char c :: ps)

/-- Characters of an earlier reference are skipped. -/
theorem piecesFrom_eq_pieces_drop (skip : Nat) (s : List Char) :
    piecesFrom skip s = pieces (s.drop skip) := by
  induction s generalizing skip with
  | nil => cases skip <;> rfl
  | cons c s ih =>
    cases skip with
    | zero => rfl
    | succ skip => simpa [piecesFrom] using ih skip

/-- The pieces of a text are what a scan finds in it. -/
theorem scanned_pieces (s : List Char) : Scanned s (pieces s) := by
  induction hlength : s.length using Nat.strongRecOn generalizing s with
  | ind length ih =>
    cases s with
    | nil => exact .nil
    | cons c s =>
      simp only [List.length_cons] at hlength
      cases hbraced : (if c = '$' then braced? s else none) with
      | none =>
        have hpieces : pieces (c :: s) = .char c :: pieces s := by
          simp [pieces, piecesFrom, hbraced]
        rw [hpieces]
        refine .char (fun hc => ?_) (ih s.length (by omega) s rfl)
        simpa [hc] using hbraced
      | some name =>
        have hpieces : pieces (c :: s) =
            .reference (String.ofList name) :: pieces (s.drop (name.length + 2)) := by
          rw [← piecesFrom_eq_pieces_drop]
          simp [pieces, piecesFrom, hbraced]
        rw [hpieces]
        split at hbraced
        · rename_i hc
          obtain ⟨hname, rest, rfl⟩ := braced?_eq_some_iff.1 hbraced
          have hdrop : ('{' :: (name ++ '}' :: rest)).drop (name.length + 2) = rest := by
            simp [List.drop_append]
          rw [hc, hdrop]
          refine .reference hname (ih rest.length ?_ rest rfl)
          simp only [List.length_cons, List.length_append] at hlength
          omega
        · cases hbraced

/-- An occurrence that begins with `c` does not begin inside a text without `c`. -/
theorem infix_of_infix_append {c : Char} {part before after : List Char} (hbefore : c ∉ before)
    (hocc : c :: part <:+: before ++ after) : c :: part <:+: after := by
  induction before with
  | nil => exact hocc
  | cons b before ih =>
    rw [List.mem_cons, not_or] at hbefore
    rcases List.infix_cons_iff.1 hocc with hprefix | hocc
    · rw [List.cons_prefix_cons] at hprefix
      exact absurd hprefix.1 hbefore.1
    · exact ih hbefore.2 hocc

/-- A text that begins with a reference mentions its name, and what the rest mentions. -/
theorem mentions_reference_iff {name rest other : List Char} (hname : isName name = true) :
    Mentions ('$' :: '{' :: (name ++ '}' :: rest)) other ↔ other = name ∨ Mentions rest other := by
  constructor
  · rintro ⟨hother, hocc⟩
    rcases List.infix_cons_iff.1 hocc with hprefix | hocc
    · left
      simp only [List.cons_prefix_cons, true_and] at hprefix
      obtain ⟨tail, htail⟩ := hprefix
      have hcut := Text.cutAt?_append (not_mem_isName hname (c := '}') (by decide)) rest
      rw [← htail, List.append_assoc, List.singleton_append,
        Text.cutAt?_append (not_mem_isName hother (by decide))] at hcut
      exact congrArg Prod.fst (Option.some.inj hcut)
    · right
      have hbefore : '$' ∉ '{' :: (name ++ ['}']) := by
        have := not_mem_isName hname (c := '$') (by decide)
        simp [this]
      exact ⟨hother, infix_of_infix_append hbefore (by simpa using hocc)⟩
  · rintro (rfl | ⟨hother, hocc⟩)
    · refine ⟨hname, [], rest, ?_⟩
      simp
    · refine ⟨hother, hocc.trans ⟨'$' :: '{' :: (name ++ ['}']), [], ?_⟩⟩
      simp

/-- A character that opens no reference adds nothing to what a text mentions. -/
theorem mentions_cons_iff {c : Char} {s other : List Char} (hnone : c = '$' → braced? s = none) :
    Mentions (c :: s) other ↔ Mentions s other := by
  constructor
  · rintro ⟨hother, hocc⟩
    refine ⟨hother, ?_⟩
    rcases List.infix_cons_iff.1 hocc with hprefix | hocc
    · rw [List.cons_prefix_cons] at hprefix
      obtain ⟨hc, tail, rfl⟩ := hprefix
      have hsome := braced?_eq_some_iff.2 ⟨hother, tail, rfl⟩
      have heq : '{' :: (other ++ '}' :: tail) = '{' :: (other ++ ['}']) ++ tail := by simp
      rw [heq, hnone hc.symm] at hsome
      cases hsome
    · exact hocc
  · rintro ⟨hother, hocc⟩
    exact ⟨hother, hocc.trans (List.suffix_cons c s).isInfix⟩

/-- Along the scan, references are taken for exactly the names that the text mentions. -/
theorem Scanned.mem_iff {s : List Char} {ps : List Piece} (hscanned : Scanned s ps)
    (name : String) :
    .reference name ∈ ps ↔ Mentions s name.toList := by
  induction hscanned with
  | nil => simp [Mentions]
  | reference hname _ ih =>
    rw [mentions_reference_iff hname, List.mem_cons, ih, Piece.reference.injEq]
    constructor
    · rintro (rfl | h)
      · exact .inl String.toList_ofList
      · exact .inr h
    · rintro (rfl | h)
      · exact .inl String.ofList_toList.symm
      · exact .inr h
  | char hnone _ ih =>
    rw [mentions_cons_iff hnone, List.mem_cons, ih]
    simp

/-- A text that mentions no name has no references. -/
theorem Scanned.eq_map_char {s : List Char} {ps : List Piece} (hscanned : Scanned s ps)
    (hnone : ∀ name, ¬ Mentions s name) : ps = s.map .char := by
  induction hscanned with
  | nil => rfl
  | reference hname _ _ => exact absurd ((mentions_reference_iff hname).2 (.inl rfl)) (hnone _)
  | char hplain _ ih =>
    rw [ih fun name hrest => hnone name ((mentions_cons_iff hplain).2 hrest), List.map_cons]

/-- The scan finds exactly the names that the text mentions. -/
theorem mem_pieces_iff {s : List Char} {name : String} :
    .reference name ∈ pieces s ↔ Mentions s name.toList :=
  (scanned_pieces s).mem_iff name

/-- A text that mentions no name consists of characters only. -/
theorem pieces_of_not_mentions {s : List Char} (hnone : ∀ name, ¬ Mentions s name) :
    pieces s = s.map .char :=
  (scanned_pieces s).eq_map_char hnone

end EnvSettings.Dotenv
