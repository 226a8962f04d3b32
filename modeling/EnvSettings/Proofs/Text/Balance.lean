import Mathlib
import EnvSettings.Proofs.Text.Bracket

namespace EnvSettings.Text

variable {sep c : Char} {depth depth' : Nat} {s part : List Char} {parts : List (List Char)}

/-- With `depth` brackets open in front of it, a text closes these and all that it opens, and
nowhere closes more than are open. -/
@[mk_iff]
structure Closes (depth : Nat) (s : List Char) : Prop where
  covered : ∀ t, t <+: s → t.count ']' ≤ depth + t.count '['
  settled : s.count ']' = depth + s.count '['

/-- The brackets of a text are balanced. -/
abbrev Balanced (s : List Char) : Prop :=
  Closes 0 s

/-- With `depth` brackets open in front of it, a text has `sep` at a place where no bracket is
open. -/
def Exposed (sep : Char) (depth : Nat) (s : List Char) : Prop :=
  ∃ before, before ++ [sep] <+: s ∧ before.count ']' = depth + before.count '['

instance (depth : Nat) (s : List Char) : Decidable (Closes depth s) :=
  decidable_of_iff ((∀ t ∈ s.inits, t.count ']' ≤ depth + t.count '[') ∧
    s.count ']' = depth + s.count '[') (by simp [closes_iff])

instance (sep : Char) (depth : Nat) (s : List Char) : Decidable (Exposed sep depth s) :=
  decidable_of_iff (∃ before ∈ s.inits, before ++ [sep] <+: s ∧
    before.count ']' = depth + before.count '[') <| by
      simp only [List.mem_inits]
      exact exists_congr fun _ =>
        and_iff_right_of_imp fun h => (List.prefix_append _ [sep]).trans h.1

/-- Brackets are unbalanced if some beginning closes more than it opens, or if not all are
closed. -/
theorem not_balanced_iff : ¬ Balanced s ↔
    (∃ t, t <+: s ∧ t.count '[' < t.count ']') ∨ s.count '[' ≠ s.count ']' := by
  simp only [closes_iff, Nat.zero_add, not_and_or, not_forall, exists_prop, not_le, ne_comm]

/-- Reading a character leads from `depth` open brackets to `depth'`. -/
inductive Step : Nat → Char → Nat → Prop
  | opening (depth : Nat) : Step depth '[' (depth + 1)
  | closing (depth : Nat) : Step (depth + 1) ']' depth
  | other {c : Char} (hopen : c ≠ '[') (hclose : c ≠ ']') (depth : Nat) : Step depth c depth

/-- A character closes a bracket that is not open, ends a part, or goes to the part that is read. -/
theorem step_cases (hsep : sep ≠ '[' ∧ sep ≠ ']') (depth : Nat) (c : Char) :
    (depth = 0 ∧ c = ']') ∨ (depth = 0 ∧ c = sep) ∨
      ∃ depth', Step depth c depth' ∧ ¬ (c = sep ∧ depth = 0) := by
  by_cases hopen : c = '['
  · subst hopen
    exact .inr (.inr ⟨depth + 1, .opening depth, fun h => hsep.1 h.1.symm⟩)
  by_cases hclose : c = ']'
  · subst hclose
    cases depth with
    | zero => exact .inl ⟨rfl, rfl⟩
    | succ depth => exact .inr (.inr ⟨depth, .closing depth, fun h => hsep.2 h.1.symm⟩)
  by_cases hcut : c = sep ∧ depth = 0
  · exact .inr (.inl hcut.symm)
  · exact .inr (.inr ⟨depth, .other hopen hclose depth, hcut⟩)

/-- A step moves one bracket from the text to the depth. -/
theorem Step.count_cons (hstep : Step depth c depth') (t : List Char) :
    (c :: t).count ']' + (depth' + t.count '[') = t.count ']' + (depth + (c :: t).count '[') := by
  cases hstep with
  | opening =>
    rw [List.count_cons_self, List.count_cons_of_ne (by decide)]
    omega
  | closing =>
    rw [List.count_cons_self, List.count_cons_of_ne (by decide)]
    omega
  | other hopen hclose => rw [List.count_cons_of_ne hopen, List.count_cons_of_ne hclose]

/-- A step keeps whether all brackets are closed in the end. -/
theorem Step.count_eq_iff (hstep : Step depth c depth') (t : List Char) :
    (c :: t).count ']' = depth + (c :: t).count '[' ↔ t.count ']' = depth' + t.count '[' := by
  have hcount := hstep.count_cons t
  omega

/-- A step keeps whether the brackets so far suffice. -/
theorem Step.count_le_iff (hstep : Step depth c depth') (t : List Char) :
    (c :: t).count ']' ≤ depth + (c :: t).count '[' ↔ t.count ']' ≤ depth' + t.count '[' := by
  have hcount := hstep.count_cons t
  omega

/-- What holds of all beginnings holds of the empty one and of those behind the first character. -/
theorem forall_isPrefix_cons {P : List Char → Prop} :
    (∀ t, t <+: c :: s → P t) ↔ P [] ∧ ∀ t, t <+: s → P (c :: t) := by
  constructor
  · intro h
    exact ⟨h [] List.nil_prefix, fun t ht => h (c :: t) (List.cons_prefix_cons.2 ⟨rfl, ht⟩)⟩
  · rintro ⟨hnil, hcons⟩ t ht
    obtain rfl | ⟨rest, rfl, hrest⟩ := List.prefix_cons_iff.1 ht
    · exact hnil
    · exact hcons rest hrest

theorem closes_nil : Closes depth [] ↔ depth = 0 := by
  simp [closes_iff, eq_comm]

/-- A text closes what is open exactly if its rest does after the step. -/
theorem Step.closes_cons (hstep : Step depth c depth') :
    Closes depth (c :: s) ↔ Closes depth' s := by
  rw [closes_iff, closes_iff, forall_isPrefix_cons, hstep.count_eq_iff]
  simp only [hstep.count_le_iff, List.count_nil, Nat.zero_le, true_and]

/-- A text that begins with a closing bracket has none to close. -/
theorem not_closes_stray (s : List Char) : ¬ Closes 0 (']' :: s) :=
  fun h => absurd (h.covered [']'] ⟨s, rfl⟩) (by decide)

theorem not_exposed_nil (sep : Char) (depth : Nat) : ¬ Exposed sep depth [] := by
  rintro ⟨before, hbefore, -⟩
  exact List.append_ne_nil_of_right_ne_nil before (List.cons_ne_nil sep [])
    (List.prefix_nil.1 hbefore)

theorem exposed_sep (sep : Char) (s : List Char) : Exposed sep 0 (sep :: s) :=
  ⟨[], ⟨s, rfl⟩, rfl⟩

/-- A separator is exposed in a text exactly if it is in the rest after the step. -/
theorem Step.exposed_cons (hstep : Step depth c depth') (hkept : ¬ (c = sep ∧ depth = 0)) :
    Exposed sep depth (c :: s) ↔ Exposed sep depth' s := by
  constructor
  · rintro ⟨before, hbefore, hclosed⟩
    cases before with
    | nil =>
      obtain ⟨hc, -⟩ := List.cons_prefix_cons.1 hbefore
      exact absurd ⟨hc.symm, hclosed.symm⟩ hkept
    | cons b before =>
      obtain ⟨rfl, hrest⟩ := List.cons_prefix_cons.1 hbefore
      exact ⟨before, hrest, (hstep.count_eq_iff before).1 hclosed⟩
  · rintro ⟨before, hbefore, hclosed⟩
    exact ⟨c :: before, List.cons_prefix_cons.2 ⟨rfl, hbefore⟩,
      (hstep.count_eq_iff before).2 hclosed⟩

/-- With `depth` brackets open in front of it, a text is the rest of one part: it closes them all,
and no separator stands outside of brackets in it. -/
def IsPart (sep : Char) (depth : Nat) (part : List Char) : Prop :=
  Closes depth part ∧ ¬ Exposed sep depth part

/-- The empty text is a part where no bracket is open. -/
theorem isPart_nil : IsPart sep depth [] ↔ depth = 0 := by
  rw [IsPart, closes_nil, and_iff_left (not_exposed_nil sep depth)]

/-- A text is a part exactly if its rest is after the step. -/
theorem Step.isPart_cons (hstep : Step depth c depth') (hkept : ¬ (c = sep ∧ depth = 0)) :
    IsPart sep depth (c :: part) ↔ IsPart sep depth' part := by
  rw [IsPart, IsPart, hstep.closes_cons, hstep.exposed_cons hkept]

/-- A closing bracket without an open one ends the scan. -/
theorem splitOutsideFrom_stray (sep : Char) (s : List Char) :
    splitOutsideFrom sep 0 (']' :: s) = none :=
  rfl

/-- A character that is kept goes to the first part. -/
theorem Step.splitOutsideFrom_cons (hstep : Step depth c depth')
    (hkept : ¬ (c = sep ∧ depth = 0)) (s : List Char) :
    splitOutsideFrom sep depth (c :: s) = (splitOutsideFrom sep depth' s).map (consFirst c) := by
  cases hstep with
  | opening => exact splitOutsideFrom_open sep depth s
  | closing => exact splitOutsideFrom_close sep depth' s
  | other hopen hclose => exact splitOutsideFrom_plain ⟨hopen, hclose, hkept⟩ s

/-- Joined parts begin with what the first part begins with. -/
theorem intercalate_cons_part (join : List Char) (c : Char) (part : List Char)
    (parts : List (List Char)) :
    join.intercalate ((c :: part) :: parts) = c :: join.intercalate (part :: parts) := by
  cases parts with
  | nil => rw [List.intercalate_singleton, List.intercalate_singleton]
  | cons next parts =>
    rw [List.intercalate_cons_cons, List.intercalate_cons_cons, List.cons_append, List.cons_append]

section Scan

variable (hsep : sep ≠ '[' ∧ sep ≠ ']')
include hsep

theorem splitOutsideFrom_sep (s : List Char) :
    splitOutsideFrom sep 0 (sep :: s) = (splitOutsideFrom sep 0 s).map ([] :: ·) :=
  splitOutside_uncut_append hsep (uncut_nil sep 0) s

/-- The scan fails exactly if the text does not close all brackets, or closes one too many. -/
theorem splitOutsideFrom_eq_none_iff :
    splitOutsideFrom sep depth s = none ↔ ¬ Closes depth s := by
  induction s generalizing depth with
  | nil => rw [splitOutsideFrom, closes_nil, ite_eq_right_iff, imp_iff_not (Option.some_ne_none _)]
  | cons c s ih =>
    obtain ⟨rfl, rfl⟩ | ⟨rfl, rfl⟩ | ⟨depth', hstep, hkept⟩ := step_cases hsep depth c
    · exact iff_of_true (splitOutsideFrom_stray sep s) (not_closes_stray s)
    · rw [splitOutsideFrom_sep hsep, Option.map_eq_none_iff, ih,
        (Step.other hsep.1 hsep.2 0).closes_cons]
    · rw [hstep.splitOutsideFrom_cons hkept, Option.map_eq_none_iff, ih, hstep.closes_cons]

/-- The parts that the scan finds join to the text. The part that is read when it starts closes the
brackets that are open there, and those after it are balanced. -/
theorem exists_parts_of_splitOutsideFrom (hsplit : splitOutsideFrom sep depth s = some parts) :
    ∃ first rest, parts = first :: rest ∧ [sep].intercalate (first :: rest) = s ∧
      IsPart sep depth first ∧ ∀ part ∈ rest, IsPart sep 0 part := by
  induction s generalizing depth parts with
  | nil =>
    obtain ⟨hdepth, hparts⟩ := Option.ite_none_right_eq_some.1 hsplit
    exact ⟨[], [], (Option.some.inj hparts).symm, rfl, isPart_nil.2 hdepth, nofun⟩
  | cons c s ih =>
    obtain ⟨rfl, rfl⟩ | ⟨rfl, rfl⟩ | ⟨depth', hstep, hkept⟩ := step_cases hsep depth c
    · cases hsplit
    · -- The part that is read ends here, and the next one starts without open brackets.
      rw [splitOutsideFrom_sep hsep] at hsplit
      obtain ⟨inner, hinner, rfl⟩ := Option.map_eq_some_iff.1 hsplit
      obtain ⟨first, rest, rfl, hjoin, hfirst, hrest⟩ := ih hinner
      refine ⟨[], first :: rest, rfl, ?_, isPart_nil.2 rfl, List.forall_mem_cons.2 ⟨hfirst, hrest⟩⟩
      rw [List.intercalate_cons_cons, hjoin, List.nil_append, List.singleton_append]
    · rw [hstep.splitOutsideFrom_cons hkept] at hsplit
      obtain ⟨inner, hinner, rfl⟩ := Option.map_eq_some_iff.1 hsplit
      obtain ⟨first, rest, rfl, hjoin, hfirst, hrest⟩ := ih hinner
      refine ⟨c :: first, rest, rfl, ?_, (hstep.isPart_cons hkept).2 hfirst, hrest⟩
      rw [intercalate_cons_part, hjoin]

/-- The scan takes a part as a whole, whatever follows it. -/
theorem IsPart.splitOutsideFrom_append (hpart : IsPart sep depth part) (rest : List Char) :
    splitOutsideFrom sep depth (part ++ rest) =
      (splitOutsideFrom sep 0 rest).map (part.foldr consFirst) := by
  induction part generalizing depth with
  | nil =>
    rw [isPart_nil.1 hpart]
    exact uncut_nil sep 0 rest
  | cons c part ih =>
    obtain ⟨rfl, rfl⟩ | ⟨rfl, rfl⟩ | ⟨depth', hstep, hkept⟩ := step_cases hsep depth c
    · exact absurd hpart.1 (not_closes_stray part)
    · exact absurd (exposed_sep c part) hpart.2
    · rw [List.cons_append, hstep.splitOutsideFrom_cons hkept,
        ih ((hstep.isPart_cons hkept).1 hpart), Option.map_map]
      rfl

/-- Texts that are not cut split back after they were joined. -/
theorem splitOutside_intercalate (hne : parts ≠ []) (hparts : ∀ part ∈ parts, Uncut sep 0 part) :
    splitOutside sep ([sep].intercalate parts) = some parts := by
  induction parts with
  | nil => exact absurd rfl hne
  | cons part parts ih =>
    obtain ⟨hpart, hparts⟩ := List.forall_mem_cons.1 hparts
    cases parts with
    | nil => rw [List.intercalate_singleton, splitOutside_uncut hpart]
    | cons next parts =>
      rw [List.intercalate_cons_cons, List.append_assoc, List.singleton_append,
        splitOutside_uncut_append hsep hpart, ih (List.cons_ne_nil next parts) hparts,
        Option.map_some]

end Scan

/-- A text has no parts exactly if some prefix closes more brackets than it opens or the whole does
not close as many as it opens. Its parts are the balanced texts, with no separator outside of their
brackets, that join to it with the separator; there is only one such way to cut it. -/
theorem splitOutside_parts (hsep : sep ≠ '[' ∧ sep ≠ ']') (s : List Char) :
    (splitOutside sep s = none ↔
      (∃ t, t <+: s ∧ t.count '[' < t.count ']') ∨ s.count '[' ≠ s.count ']') ∧
    ∀ parts, splitOutside sep s = some parts ↔
      parts ≠ [] ∧ [sep].intercalate parts = s ∧
        ∀ part ∈ parts, Balanced part ∧ ¬ Exposed sep 0 part := by
  refine ⟨(splitOutsideFrom_eq_none_iff hsep).trans not_balanced_iff, fun parts => ⟨?_, ?_⟩⟩
  · intro hsplit
    obtain ⟨first, rest, rfl, hjoin, hfirst, hrest⟩ := exists_parts_of_splitOutsideFrom hsep hsplit
    exact ⟨List.cons_ne_nil first rest, hjoin, List.forall_mem_cons.2 ⟨hfirst, hrest⟩⟩
  · rintro ⟨hne, rfl, hparts⟩
    exact splitOutside_intercalate hsep hne fun part hpart =>
      IsPart.splitOutsideFrom_append hsep (hparts part hpart)

/-- Bars hidden in brackets stay in their parts, and a stray bracket leaves a text without parts. -/
theorem splitOutside_parts_members :
    ('|' ≠ '[' ∧ '|' ≠ ']') ∧
      splitOutside '|' "tuple[int|é, str]| list[a|b] |".toList =
        some ["tuple[int|é, str]".toList, " list[a|b] ".toList, []] ∧
      splitOutside '|' "int]|[str".toList = none := by
  have hsep : '|' ≠ '[' ∧ '|' ≠ ']' := by decide
  refine ⟨hsep, ?_, ?_⟩
  · exact ((splitOutside_parts hsep _).2 _).2 ⟨by decide, by decide, by decide⟩
  · exact (splitOutside_parts hsep _).1.2 (.inl ⟨"int]".toList, by decide, by decide⟩)

end EnvSettings.Text
