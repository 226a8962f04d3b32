import EnvSettings.Proofs.Dotenv.Declarations
import EnvSettings.Proofs.Dotenv.Opening
import EnvSettings.Proofs.Dotenv.Protection

namespace EnvSettings.Dotenv

namespace Quote

/-- A character between quotes. It stands behind a backslash if it is a backslash or the quote. -/
def shield (q : Quote) (c : Char) : List Char :=
  if c = '\\' ∨ c = q.char then ['\\', c] else [c]

/-- A value between quotes. Its line breaks stay as they are. -/
def enclose (q : Quote) (value : List Char) : List Char :=
  q.char :: (value.flatMap q.shield ++ [q.char])

variable {q : Quote} {c : Char}

/-- A backslash and the quote itself are protected. -/
theorem shield_of_sign (hsign : c = '\\' ∨ c = q.char) : q.shield c = ['\\', c] :=
  if_pos hsign

theorem shield_of_not_sign (hsign : ¬ (c = '\\' ∨ c = q.char)) : q.shield c = [c] :=
  if_neg hsign

/-- What is protected does not end the value and is read back. -/
theorem protects_shield (q : Quote) : q.Protects q.shield := by
  intro c
  by_cases hsign : c = '\\' ∨ c = q.char
  · refine .inr ⟨c, shield_of_sign hsign, ?_⟩
    obtain rfl | rfl := hsign <;> cases q <;> rfl
  · exact .inl ⟨shield_of_not_sign hsign, not_or.1 hsign⟩

theorem isSpace_char (q : Quote) : Text.isSpace q.char = false := by
  cases q <;> decide

theorem newline_ne_char (q : Quote) : '\n' ≠ q.char := by
  cases q <;> decide

theorem ofChar?_char (q : Quote) : ofChar? q.char = some q := by
  cases q <;> decide

theorem not_sign_of_isSpace (q : Quote) (hspace : Text.isSpace c = true) :
    ¬ (c = '\\' ∨ c = q.char) := by
  rintro (rfl | rfl)
  · exact absurd hspace (by decide)
  · rw [isSpace_char] at hspace
    cases hspace

theorem shield_newline (q : Quote) : q.shield '\n' = ['\n'] :=
  shield_of_not_sign (not_sign_of_isSpace q (by decide))

theorem newline_not_mem_shielded {value : List Char} (hvalue : '\n' ∉ value) :
    '\n' ∉ value.flatMap q.shield := by
  rw [List.mem_flatMap]
  rintro ⟨c, hc, hmem⟩
  by_cases hsign : c = '\\' ∨ c = q.char
  · rw [shield_of_sign hsign] at hmem
    simp only [List.mem_cons, List.not_mem_nil, or_false] at hmem
    obtain hslash | rfl := hmem
    · exact absurd hslash (by decide)
    · exact hvalue hc
  · rw [shield_of_not_sign hsign, List.mem_singleton] at hmem
    exact hvalue (hmem ▸ hc)

theorem getLast?_shielded (q : Quote) (value : List Char) :
    (value.flatMap q.shield).getLast? = value.getLast? := by
  induction value using List.reverseRecOn with
  | nil => rfl
  | append_singleton value c _ =>
    have hlast : (q.shield c).getLast? = some c := by
      unfold shield
      split <;> rfl
    rw [List.flatMap_append, List.flatMap_singleton, List.getLast?_append, hlast,
      List.getLast?_concat]
    rfl

/-- White space is not shielded, so it goes from the end of a value before or after. -/
theorem trimRight_shielded (q : Quote) (value : List Char) :
    Text.trimRight (value.flatMap q.shield) = (Text.trimRight value).flatMap q.shield := by
  induction value using List.reverseRecOn with
  | nil => rfl
  | append_singleton value c ih =>
    rw [Text.trimRight_concat]
    by_cases hspace : Text.isSpace c = true
    · rw [List.flatMap_append, List.flatMap_singleton,
        shield_of_not_sign (not_sign_of_isSpace q hspace), Text.trimRight_concat, if_pos hspace,
        if_pos hspace, ih]
    · rw [if_neg hspace, Text.trimRight_eq_self_iff, getLast?_shielded]
      simpa using hspace

end Quote

/-- What is read of a value that is written with its line breaks as they are: of several lines the
first one loses the white space at its end. -/
def clipFirstLine (value : List Char) : List Char :=
  match Text.cutAt? '\n' value with
  | none => value
  | some (first, rest) => Text.trimRight first ++ '\n' :: rest

theorem clipFirstLine_of_not_mem {value : List Char} (hvalue : '\n' ∉ value) :
    clipFirstLine value = value := by
  unfold clipFirstLine
  split
  · rfl
  · rename_i hcut
    rw [(Text.cutAt?_eq_some_iff.1 hcut).1] at hvalue
    simp at hvalue

/-- Blanks go before the first line feed, and all other characters stay. -/
theorem clipFirstLine_append {first : List Char} (hfirst : '\n' ∉ first) (rest : List Char) :
    clipFirstLine (first ++ '\n' :: rest) = Text.trimRight first ++ '\n' :: rest := by
  rw [clipFirstLine, Text.cutAt?_append hfirst]

/-- Nothing is lost exactly if no white space stands before the first line break. -/
theorem clipFirstLine_eq_self_iff {value : List Char} :
    clipFirstLine value = value ↔ ∀ first rest, value = first ++ '\n' :: rest → '\n' ∉ first →
      ∀ c ∈ first.getLast?, Text.isSpace c = false := by
  have hclip : ∀ first rest, value = first ++ '\n' :: rest → '\n' ∉ first →
      (clipFirstLine value = value ↔ ∀ c ∈ first.getLast?, Text.isSpace c = false) := by
    rintro first rest rfl hfirst
    rw [clipFirstLine_append hfirst, List.append_left_inj, Text.trimRight_eq_self_iff]
  by_cases hvalue : '\n' ∈ value
  · obtain ⟨first, rest, hsplit, hfirst⟩ := List.eq_append_cons_of_mem hvalue
    refine ⟨fun heq first rest hsplit hfirst => (hclip first rest hsplit hfirst).1 heq, fun h => ?_⟩
    exact (hclip first rest hsplit hfirst).2 (h first rest hsplit hfirst)
  · refine iff_of_true (clipFirstLine_of_not_mem hvalue) ?_
    rintro first rest rfl
    simp at hvalue

namespace Scan

variable {origin : String} {mode : Mode} {scan : Scan}

/-- Inside a quoted value, lines go on with it up to the closing quote. -/
theorem lines_enclosed {o : OpenQuote} {above : List Char} (hpending : scan.pending = some o)
    (hbody : o.body = above.flatMap o.quote.shield) (n : Nat) (parts : List (List Char))
    (last : List Char) :
    scan.lines origin mode n (parts.map (·.flatMap o.quote.shield) ++
        [last.flatMap o.quote.shield ++ [o.quote.char]]) =
      .ok (scan.declare o.key (above ++ '\n' :: (parts.flatMap (· ++ ['\n']) ++ last)) o.line) := by
  -- The text so far is always the shielded value so far, so no line but the last one closes it.
  induction parts generalizing scan o above n with
  | nil =>
    have hcloses : Closes mode o.quote
        (o.body ++ '\n' :: (last.flatMap o.quote.shield ++ [o.quote.char]))
        (above ++ '\n' :: last) := by
      refine ⟨(above ++ '\n' :: last).flatMap o.quote.shield, [], ?_,
        o.quote.protects_shield.unescape_eq _, fun _ => .inl rfl⟩
      rw [← o.quote.protects_shield.cut?_append, hbody]
      simp [o.quote.shield_newline]
    rw [List.map_nil, List.nil_append, lines_cons, line_of_step (.closed hpending hcloses)]
    rfl
  | cons part parts ih =>
    have hbelow : o.body ++ '\n' :: part.flatMap o.quote.shield =
        (above ++ '\n' :: part).flatMap o.quote.shield := by
      simp [hbody, o.quote.shield_newline]
    have hopen : o.quote.cut? (o.body ++ '\n' :: part.flatMap o.quote.shield) = none := by
      rw [hbelow]
      exact o.quote.protects_shield.cut?_eq_none _
    rw [List.map_cons, List.cons_append, lines_cons, line_of_step (.continued hpending hopen)]
    have hrest := @ih
      { scan with pending := some { o with body := o.body ++ '\n' :: part.flatMap o.quote.shield } }
      { o with body := o.body ++ '\n' :: part.flatMap o.quote.shield } _ rfl hbelow (n + 1)
    refine hrest.trans ?_
    simp [declare]

end Scan

variable {origin : String} {mode : Mode} {key value : List Char}

/-- A line that opens a quote assigns what stands from the quote on, without white space at the end
of the line. -/
theorem ofTrimmed_opening (hname : isName key = true) (q : Quote) (s : List Char) :
    Statement.ofTrimmed (Text.trim (key ++ '=' :: q.char :: s)) =
      .assign key (q.char :: Text.trimRight s) := by
  rw [(Names.self key).ofTrimmed hname, Text.trimRight_cons q.isSpace_char,
    Text.trimLeft_cons q.isSpace_char]

/-- A value without line breaks stays on the line of its name. -/
theorem lines_enclose (hname : isName key = true) (q : Quote) (hvalue : '\n' ∉ value) :
    Text.lines (key ++ '=' :: q.enclose value) =
      [key ++ '=' :: q.char :: (value.flatMap q.shield ++ [q.char])] := by
  have hkey : '\n' ∉ key := not_mem_isName hname (by decide)
  have hshielded : '\n' ∉ value.flatMap q.shield := Quote.newline_not_mem_shielded hvalue
  refine Text.lines_of_not_mem ?_ (by simp)
  simp [Quote.enclose, hkey, hshielded, q.newline_ne_char]

/-- The lines of a value are shielded one by one. The name stands on the first of them, and the
closing quote on the last. -/
theorem lines_enclose_cons (hname : isName key = true) (q : Quote) {first last : List Char}
    {parts : List (List Char)} (hparts : ∀ part ∈ first :: parts, '\n' ∉ part) (hlast : '\n' ∉ last)
    (hreturn : ∀ part ∈ first :: parts, part.getLast? ≠ some '\r') :
    Text.lines (key ++ '=' :: q.enclose ((first :: parts).flatMap (· ++ ['\n']) ++ last)) =
      (key ++ '=' :: q.char :: first.flatMap q.shield) ::
        (parts.map (·.flatMap q.shield) ++ [last.flatMap q.shield ++ [q.char]]) := by
  have hkey : '\n' ∉ key := not_mem_isName hname (by decide)
  obtain ⟨hfirst, hparts⟩ := List.forall_mem_cons.1 hparts
  obtain ⟨hfirstReturn, hreturn⟩ := List.forall_mem_cons.1 hreturn
  have htext : key ++ '=' :: q.enclose ((first :: parts).flatMap (· ++ ['\n']) ++ last) =
      ((key ++ '=' :: q.char :: first.flatMap q.shield) ::
        parts.map (·.flatMap q.shield)).flatMap (· ++ ['\n']) ++
        (last.flatMap q.shield ++ [q.char]) := by
    simp [Quote.enclose, List.flatMap_assoc, List.flatMap_map, q.shield_newline]
  rw [htext, ← List.cons_append]
  apply Text.lines_flatMap_append
  · refine List.forall_mem_cons.2 ⟨?_, List.forall_mem_map.2 fun part hpart => ?_⟩
    · simp [hkey, q.newline_ne_char, Quote.newline_not_mem_shielded hfirst]
    · exact Quote.newline_not_mem_shielded (hparts part hpart)
  · refine List.forall_mem_cons.2 ⟨?_, List.forall_mem_map.2 fun part hpart => ?_⟩
    · rw [List.getLast?_append, List.getLast?_cons, List.getLast?_cons, q.getLast?_shielded]
      cases hlastChar : first.getLast? with
      | none => cases q <;> simp [Quote.char]
      | some c => simpa [hlastChar] using hfirstReturn
    · rw [q.getLast?_shielded]
      exact hreturn part hpart
  · simpa [q.newline_ne_char] using Quote.newline_not_mem_shielded hlast
  · simp

namespace Scan

/-- A value that is closed on the line of its name is assigned at once. -/
theorem line_enclosed (origin : String) (mode : Mode) (hname : isName key = true) (q : Quote)
    (value : List Char) (n : Nat) :
    Scan.line origin mode {} n (key ++ '=' :: q.char :: (value.flatMap q.shield ++ [q.char])) =
      .ok (Scan.declare {} key value n) := by
  have htrim : Text.trimRight (value.flatMap q.shield ++ [q.char]) =
      value.flatMap q.shield ++ [q.char] :=
    Text.trimRight_append_cons q.isSpace_char _ []
  have hline := ofTrimmed_opening hname q (value.flatMap q.shield ++ [q.char])
  rw [htrim] at hline
  have hcloses : Closes mode q (value.flatMap q.shield ++ [q.char]) value :=
    ⟨_, [], q.protects_shield.cut?_append value [], q.protects_shield.unescape_eq value,
      fun _ => .inl rfl⟩
  exact line_of_step (.quoted rfl hline (fun _ => rfl) q.ofChar?_char hcloses)

/-- A value that is not closed on the line of its name stays open, without the white space at the
end of the line. -/
theorem line_opened (origin : String) (mode : Mode) (hname : isName key = true) (q : Quote)
    (first : List Char) (n : Nat) :
    Scan.line origin mode {} n (key ++ '=' :: q.char :: first.flatMap q.shield) =
      .ok { pending := some ⟨key, n, q.char :: (Text.trimRight first).flatMap q.shield, q,
        (Text.trimRight first).flatMap q.shield⟩ } := by
  have hline := ofTrimmed_opening hname q (first.flatMap q.shield)
  rw [q.trimRight_shielded] at hline
  exact line_of_step (.opened rfl hline (fun _ => rfl) q.ofChar?_char
    (q.protects_shield.cut?_eq_none _))

end Scan

/-- An enclosed value is read over all of its lines, and nothing else is. -/
theorem declarations_enclosed (origin : String) (mode : Mode) (hname : isName key = true)
    (q : Quote) (hreturn : ¬ ['\r', '\n'] <:+: value) :
    declarations origin mode (Text.lines (key ++ '=' :: q.enclose value)) =
      .ok { declarations := [⟨String.ofList key, String.ofList (clipFirstLine value), 1⟩] } := by
  obtain ⟨parts, last, hparts, hlast, rfl⟩ := Text.exists_parts '\n' value
  rw [declarations_eq_ok_iff]
  cases parts with
  | nil =>
    refine ⟨Scan.declare {} key last 1, ?_, ?_⟩
    · rw [List.flatMap_nil, List.nil_append, lines_enclose hname q hlast, Scan.lines_cons,
        Scan.line_enclosed origin mode hname]
      rfl
    · rw [List.flatMap_nil, List.nil_append, clipFirstLine_of_not_mem hlast]
      rfl
  | cons first parts =>
    have hends : ∀ part ∈ first :: parts, part.getLast? ≠ some '\r' :=
      Text.getLast?_ne_of_not_infix hreturn
    have hfirst : '\n' ∉ first := hparts first List.mem_cons_self
    have hvalue : (first :: parts).flatMap (· ++ ['\n']) ++ last =
        first ++ '\n' :: (parts.flatMap (· ++ ['\n']) ++ last) := by
      simp
    refine ⟨Scan.declare {} key
      (Text.trimRight first ++ '\n' :: (parts.flatMap (· ++ ['\n']) ++ last)) 1, ?_, ?_⟩
    · rw [lines_enclose_cons hname q hparts hlast hends, Scan.lines_cons,
        Scan.line_opened origin mode hname]
      exact Scan.lines_enclosed (o := ⟨key, 1, q.char :: (Text.trimRight first).flatMap q.shield, q,
        (Text.trimRight first).flatMap q.shield⟩) rfl rfl 2 parts last
    · rw [hvalue, clipFirstLine_append hfirst]
      rfl

/-- An enclosed value comes back, up to the white space at the end of the first of several lines: it
comes back unchanged exactly if no white space stands there. -/
theorem declarations_enclosed_iff (origin : String) (hname : isName key = true) (q : Quote)
    (hreturn : ¬ ['\r', '\n'] <:+: value) :
    declarations origin .strict (Text.lines (key ++ '=' :: q.enclose value)) =
        .ok { declarations := [⟨String.ofList key, String.ofList (clipFirstLine value), 1⟩] } ∧
      (declarations origin .strict (Text.lines (key ++ '=' :: q.enclose value)) =
          .ok { declarations := [⟨String.ofList key, String.ofList value, 1⟩] } ↔
        ∀ first rest, value = first ++ '\n' :: rest → '\n' ∉ first →
          ∀ c ∈ first.getLast?, Text.isSpace c = false) := by
  have hread := declarations_enclosed origin .strict hname q hreturn
  refine ⟨hread, ?_⟩
  rw [hread, ← clipFirstLine_eq_self_iff]
  simp [String.ofList_inj]

/-- Escapes and a backslash at the ends of lines come back, and so does white space around all line
breaks but the first. -/
theorem declarations_enclosed_certificate :
    let value := "say \"hi\" \\\n  # no comment \n\n\tend ".toList
    isName "CERT".toList = true ∧ ¬ ['\r', '\n'] <:+: value ∧
      declarations ".env" .strict (Text.lines
          "CERT=\"say \\\"hi\\\" \\\\\n  # no comment \n\n\tend \"".toList) =
        .ok { declarations := [⟨"CERT", "say \"hi\" \\\n  # no comment \n\n\tend ", 1⟩] } := by
  intro value
  have hname : isName "CERT".toList = true := by decide
  have hreturn : ¬ ['\r', '\n'] <:+: value := by decide
  have hkept : clipFirstLine value = value := by decide
  exact ⟨hname, hreturn, (declarations_enclosed_iff ".env" hname .double hreturn).2.2
    (clipFirstLine_eq_self_iff.1 hkept)⟩

/-- A value over two lines does not come back if its first line ends with a space: the space is
lost. -/
theorem declarations_enclosed_clipped :
    let value := "a \nb".toList
    isName "A".toList = true ∧ '\r' ∉ value ∧
      "A".toList ++ '=' :: Quote.double.enclose value = "A=\"a \nb\"".toList ∧
      declarations ".env" .strict (Text.lines "A=\"a \nb\"".toList) =
        .ok { declarations := [⟨"A", "a\nb", 1⟩] } ∧
      declarations ".env" .strict (Text.lines "A=\"a \nb\"".toList) ≠
        .ok { declarations := [⟨"A", "a \nb", 1⟩] } := by
  intro value
  have hread : declarations ".env" .strict (Text.lines "A=\"a \nb\"".toList) =
      .ok { declarations := [⟨"A", "a\nb", 1⟩] } := by
    cbv
  refine ⟨by decide, by decide, by decide, hread, fun heq => ?_⟩
  rw [hread] at heq
  exact absurd heq (by simp)

end EnvSettings.Dotenv
