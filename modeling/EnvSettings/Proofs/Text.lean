import Mathlib
import EnvSettings.Proofs.Text.Trim
import EnvSettings.Proofs.Text.Split

namespace EnvSettings.Text

/-- No visible ASCII character is white space. -/
theorem isSpace_eq_false {c : Char} (hlow : 0x21 ≤ c.toNat) (hhigh : c.toNat ≤ 0x7e) :
    isSpace c = false := by
  unfold isSpace
  simp only [Bool.or_eq_false_iff, Bool.and_eq_false_iff, decide_eq_false_iff_not,
    beq_eq_false_iff_ne]
  omega

/-- Letters and digits of ASCII are visible characters. -/
theorem toNat_of_isAlphanum {c : Char} (halnum : c.isAlphanum = true) :
    0x30 ≤ c.toNat ∧ c.toNat ≤ 0x7a := by
  have hval : c.toNat = c.val.toNat := rfl
  simp only [Char.isAlphanum, Char.isAlpha, Char.isUpper, Char.isLower, Char.isDigit,
    Bool.or_eq_true, Bool.and_eq_true, decide_eq_true_eq, ge_iff_le,
    UInt32.le_iff_toNat_le] at halnum
  simp at halnum
  omega

/-- A text with a visible first character has no white space in front. -/
theorem trimLeft_eq_self {s : List Char} (hfirst : ∀ c ∈ s.head?, isSpace c = false) :
    trimLeft s = s := by
  cases s with
  | nil => rfl
  | cons c s => simp [trimLeft, hfirst c rfl]

/-- A text with a visible last character has no white space behind. -/
theorem trimRight_eq_self {s : List Char} (hlast : ∀ c ∈ s.getLast?, isSpace c = false) :
    trimRight s = s :=
  trimRight_eq_self_iff.2 hlast

/-- A text with visible characters at its ends is trimmed. -/
theorem trim_eq_self {s : List Char} (hfirst : ∀ c ∈ s.head?, isSpace c = false)
    (hlast : ∀ c ∈ s.getLast?, isSpace c = false) : trim s = s := by
  rw [trim, trimLeft_eq_self hfirst, trimRight_eq_self hlast]

/-- A text with a visible character at each end. -/
structure Tight (s : List Char) : Prop where
  first : ∃ c, s.head? = some c ∧ isSpace c = false
  last : ∃ c, s.getLast? = some c ∧ isSpace c = false

theorem Tight.trim_eq {s : List Char} (hs : Tight s) : trim s = s := by
  obtain ⟨first, hfirst, hfirst'⟩ := hs.first
  obtain ⟨last, hlast, hlast'⟩ := hs.last
  refine trim_eq_self ?_ ?_
  · rw [hfirst]
    exact fun c hc => Option.some.inj hc ▸ hfirst'
  · rw [hlast]
    exact fun c hc => Option.some.inj hc ▸ hlast'

/-- What stands between two tight texts does not matter. -/
theorem Tight.append {s t : List Char} (hs : Tight s) (between : List Char) (ht : Tight t) :
    Tight (s ++ between ++ t) := by
  obtain ⟨first, hfirst, hfirst'⟩ := hs.first
  obtain ⟨last, hlast, hlast'⟩ := ht.last
  refine ⟨⟨first, ?_, hfirst'⟩, last, ?_, hlast'⟩
  · rw [List.append_assoc, List.head?_append, hfirst, Option.some_or]
  · rw [List.getLast?_append, hlast, Option.some_or]

theorem Tight.intercalate {join : List Char} {parts : List (List Char)} (hne : parts ≠ [])
    (hparts : ∀ part ∈ parts, Tight part) : Tight (join.intercalate parts) := by
  induction parts with
  | nil => exact absurd rfl hne
  | cons part parts ih =>
    obtain ⟨hpart, hparts⟩ := List.forall_mem_cons.1 hparts
    cases parts with
    | nil => rwa [List.intercalate_singleton]
    | cons next parts =>
      rw [List.intercalate_cons_cons]
      exact hpart.append join (ih (List.cons_ne_nil next parts) hparts)

/-- A line goes up to the separator that ends it. -/
theorem splitAtChar_append {sep : Char} {line : List Char} (hline : sep ∉ line) (rest : List Char) :
    splitAtChar sep (line ++ sep :: rest) = line :: splitAtChar sep rest := by
  induction line with
  | nil => simp [splitAtChar]
  | cons c line ih =>
    rw [List.mem_cons, not_or] at hline
    simp [splitAtChar, Ne.symm hline.1, ih hline.2, consFirst]

theorem splitAtChar_of_not_mem {sep : Char} {s : List Char} (hs : sep ∉ s) :
    splitAtChar sep s = [s] := by
  induction s with
  | nil => rfl
  | cons c s ih =>
    rw [List.mem_cons, not_or] at hs
    simp [splitAtChar, Ne.symm hs.1, ih hs.2, consFirst]

/-- Parts that are each ended by the separator split back into the parts and the rest. -/
theorem splitAtChar_flatMap_append {sep : Char} {parts : List (List Char)} {last : List Char}
    (hparts : ∀ part ∈ parts, sep ∉ part) (hlast : sep ∉ last) :
    splitAtChar sep (parts.flatMap (· ++ [sep]) ++ last) = parts ++ [last] := by
  induction parts with
  | nil => exact splitAtChar_of_not_mem hlast
  | cons part parts ih =>
    rw [List.flatMap_cons, List.append_assoc, List.append_assoc, List.singleton_append,
      splitAtChar_append (hparts part List.mem_cons_self),
      ih fun p hmem => hparts p (List.mem_cons_of_mem part hmem), List.cons_append]

/-- Every text is a run of parts that the separator ends, and a rest. -/
theorem exists_parts (sep : Char) (s : List Char) :
    ∃ (parts : List (List Char)) (last : List Char), (∀ part ∈ parts, sep ∉ part) ∧ sep ∉ last ∧
      s = parts.flatMap (· ++ [sep]) ++ last := by
  induction s with
  | nil => exact ⟨[], [], by simp, by simp, rfl⟩
  | cons c s ih =>
    obtain ⟨parts, last, hparts, hlast, rfl⟩ := ih
    by_cases hc : c = sep
    · exact ⟨[] :: parts, last, by simpa using hparts, hlast, by simp [hc]⟩
    · cases parts with
      | nil => exact ⟨[], c :: last, by simp, by simp [hlast, Ne.symm hc], by simp⟩
      | cons part parts =>
        obtain ⟨hpart, hparts⟩ := List.forall_mem_cons.1 hparts
        refine ⟨(c :: part) :: parts, last, List.forall_mem_cons.2 ⟨?_, hparts⟩, hlast, by simp⟩
        simp [hpart, Ne.symm hc]

/-- Parts do not end in a character that nowhere stands right before the separator. -/
theorem getLast?_ne_of_not_infix {c sep : Char} {parts : List (List Char)} {last : List Char}
    (hnot : ¬ [c, sep] <:+: parts.flatMap (· ++ [sep]) ++ last) :
    ∀ part ∈ parts, part.getLast? ≠ some c := by
  intro part hpart hlast
  obtain ⟨front, rfl⟩ := List.getLast?_eq_some_iff.1 hlast
  have hended : front ++ [c] ++ [sep] <:+: parts.flatMap (· ++ [sep]) := by
    rw [List.flatMap_def]
    exact List.infix_of_mem_flatten (List.mem_map_of_mem hpart)
  have hpair : [c, sep] <:+: front ++ [c] ++ [sep] := ⟨front, [], by simp⟩
  exact hnot (hpair.trans (hended.trans (List.prefix_append _ last).isInfix))

theorem not_mem_splitAtChar (sep : Char) (s : List Char) :
    ∀ part ∈ splitAtChar sep s, sep ∉ part := by
  induction s with
  | nil => simp [splitAtChar]
  | cons c s ih =>
    rw [splitAtChar]
    by_cases hsep : c = sep
    · rw [if_pos hsep]
      exact List.forall_mem_cons.2 ⟨List.not_mem_nil, ih⟩
    · rw [if_neg hsep]
      obtain ⟨first, rest, hparts⟩ := List.exists_cons_of_ne_nil (splitAtChar_ne_nil sep s)
      rw [hparts] at ih ⊢
      obtain ⟨hfirst, hrest⟩ := List.forall_mem_cons.1 ih
      refine List.forall_mem_cons.2 ⟨fun hmem => ?_, hrest⟩
      obtain hmem | hmem := List.mem_cons.1 hmem
      · exact hsep hmem.symm
      · exact hfirst hmem

/-- A line without its carriage return has no other characters. -/
theorem dropCarriageReturn_subset (s : List Char) : dropCarriageReturn s ⊆ s := by
  rw [dropCarriageReturn]
  split
  · exact List.dropLast_subset s
  · exact List.Subset.refl s

/-- No line of a text has a line feed. -/
theorem newline_not_mem_lines {s l : List Char} (hl : l ∈ lines s) : '\n' ∉ l := by
  have hparts := not_mem_splitAtChar '\n' s
  have hended : l ∈ (splitAtChar '\n' s).dropLast.map dropCarriageReturn → '\n' ∉ l := by
    intro hmem
    obtain ⟨part, hpart, rfl⟩ := List.mem_map.1 hmem
    exact fun hfeed => hparts part (List.dropLast_subset _ hpart)
      (dropCarriageReturn_subset part hfeed)
  unfold lines at hl
  dsimp only at hl
  split at hl
  · exact hended hl
  · exact hended hl
  · rename_i last _ hlast
    obtain hl | hl := List.mem_append.1 hl
    · exact hended hl
    · rw [List.mem_singleton.1 hl]
      exact hparts last (List.mem_of_getLast? hlast)

/-- Texts that are each ended by a line feed are the lines of the whole, up to a carriage return at
the end of one. -/
theorem lines_flatMap_eq_map {ls : List (List Char)} (hfeed : ∀ l ∈ ls, '\n' ∉ l) :
    lines (ls.flatMap (· ++ ['\n'])) = ls.map dropCarriageReturn := by
  have hsplit : splitAtChar '\n' (ls.flatMap (· ++ ['\n']) ++ []) = ls ++ [[]] :=
    splitAtChar_flatMap_append hfeed List.not_mem_nil
  rw [List.append_nil] at hsplit
  simp [lines, hsplit]

/-- Lines without carriage returns at their ends stay as they are. -/
theorem map_dropCarriageReturn {ls : List (List Char)}
    (hreturn : ∀ l ∈ ls, l.getLast? ≠ some '\r') : ls.map dropCarriageReturn = ls := by
  refine (List.map_congr_left fun l hmem => ?_).trans (List.map_id ls)
  simp [dropCarriageReturn, hreturn l hmem]

/-- Lines without line breaks of their own, each ended by a line feed, are the lines of their
text. -/
theorem lines_flatMap {ls : List (List Char)} (hfeed : ∀ l ∈ ls, '\n' ∉ l)
    (hreturn : ∀ l ∈ ls, l.getLast? ≠ some '\r') : lines (ls.flatMap (· ++ ['\n'])) = ls := by
  rw [lines_flatMap_eq_map hfeed, map_dropCarriageReturn hreturn]

/-- The last line needs no line feed. -/
theorem lines_flatMap_append {ls : List (List Char)} {last : List Char}
    (hfeed : ∀ l ∈ ls, '\n' ∉ l) (hreturn : ∀ l ∈ ls, l.getLast? ≠ some '\r')
    (hlast : '\n' ∉ last) (hne : last ≠ []) :
    lines (ls.flatMap (· ++ ['\n']) ++ last) = ls ++ [last] := by
  cases last with
  | nil => exact absurd rfl hne
  | cons c last =>
    simp [lines, splitAtChar_flatMap_append hfeed hlast, map_dropCarriageReturn hreturn]

theorem lines_of_not_mem {s : List Char} (hs : '\n' ∉ s) (hne : s ≠ []) : lines s = [s] := by
  cases s with
  | nil => exact absurd rfl hne
  | cons c s => simp [lines, splitAtChar_of_not_mem hs]

/-- Trimming keeps a first character that is visible. -/
theorem head?_trim_cons {c : Char} (hvisible : isSpace c = false) (s : List Char) :
    (trim (c :: s)).head? = some c := by
  rw [trim, trimLeft_cons hvisible, trimRight_cons hvisible, List.head?_cons]

end EnvSettings.Text
