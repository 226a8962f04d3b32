import Mathlib
import EnvSettings.Proofs.Text.Trim
import EnvSettings.Text.Bracket

namespace EnvSettings.Text

variable {sep c : Char} {depth : Nat} {s t : List Char}

/-- With `depth` brackets open, a text goes as a whole to the part that is read. -/
def Uncut (sep : Char) (depth : Nat) (s : List Char) : Prop :=
  ∀ rest, splitOutsideFrom sep depth (s ++ rest) =
    (splitOutsideFrom sep depth rest).map (s.foldr consFirst)

theorem uncut_nil (sep : Char) (depth : Nat) : Uncut sep depth [] :=
  fun _ => Option.map_id'.symm

/-- Texts that are not cut are not cut when they are joined. -/
theorem Uncut.append (hs : Uncut sep depth s) (ht : Uncut sep depth t) :
    Uncut sep depth (s ++ t) := by
  intro rest
  rw [List.append_assoc, hs, ht, Option.map_map]
  simp [Function.comp_def]

/-- A character that neither opens nor closes a bracket nor ends a part. -/
def Plain (sep : Char) (depth : Nat) (c : Char) : Prop :=
  c ≠ '[' ∧ c ≠ ']' ∧ ¬ (c = sep ∧ depth = 0)

theorem splitOutsideFrom_plain (hc : Plain sep depth c) (s : List Char) :
    splitOutsideFrom sep depth (c :: s) = (splitOutsideFrom sep depth s).map (consFirst c) := by
  rw [splitOutsideFrom.eq_def]
  dsimp only
  rw [if_neg hc.1, if_neg hc.2.1, if_neg hc.2.2]

/-- What follows an opening bracket stands one level deeper. -/
theorem splitOutsideFrom_open (sep : Char) (depth : Nat) (s : List Char) :
    splitOutsideFrom sep depth ('[' :: s) =
      (splitOutsideFrom sep (depth + 1) s).map (consFirst '[') := by
  rw [splitOutsideFrom.eq_def]
  exact if_pos rfl

theorem splitOutsideFrom_close (sep : Char) (depth : Nat) (s : List Char) :
    splitOutsideFrom sep (depth + 1) (']' :: s) =
      (splitOutsideFrom sep depth s).map (consFirst ']') := by
  rw [splitOutsideFrom.eq_def]
  exact (if_neg (by decide)).trans (if_pos rfl)

theorem uncut_of_plain (hs : ∀ c ∈ s, Plain sep depth c) : Uncut sep depth s := by
  induction s with
  | nil => exact uncut_nil sep depth
  | cons c s ih =>
    obtain ⟨hc, hs⟩ := List.forall_mem_cons.1 hs
    intro rest
    rw [List.cons_append, splitOutsideFrom_plain hc, ih hs, Option.map_map]
    rfl

/-- Brackets hide what stands between them. -/
theorem Uncut.bracket (hs : Uncut sep (depth + 1) s) :
    Uncut sep depth ('[' :: (s ++ [']'])) := by
  intro rest
  rw [List.cons_append, splitOutsideFrom_open, List.append_assoc, hs, List.singleton_append,
    splitOutsideFrom_close, Option.map_map, Option.map_map]
  simp [Function.comp_def]

/-- Texts that are not cut are not cut when they are joined by one that is not. -/
theorem Uncut.intercalate {join : List Char} {parts : List (List Char)}
    (hjoin : Uncut sep depth join) (hparts : ∀ part ∈ parts, Uncut sep depth part) :
    Uncut sep depth (join.intercalate parts) := by
  induction parts with
  | nil => exact uncut_nil sep depth
  | cons part parts ih =>
    obtain ⟨hpart, hparts⟩ := List.forall_mem_cons.1 hparts
    cases parts with
    | nil => rwa [List.intercalate_singleton]
    | cons next parts =>
      rw [List.intercalate_cons_cons]
      exact (hpart.append hjoin).append (ih hparts)

/-- Characters go to the first part in their order. -/
theorem foldr_consFirst (s part : List Char) (parts : List (List Char)) :
    s.foldr consFirst (part :: parts) = (s ++ part) :: parts := by
  induction s with
  | nil => rfl
  | cons c s ih => rw [List.foldr_cons, ih, consFirst, List.cons_append]

theorem splitOutside_uncut (hs : Uncut sep 0 s) : splitOutside sep s = some [s] := by
  have hsplit := hs []
  rwa [List.append_nil, splitOutsideFrom, if_pos rfl, Option.map_some, foldr_consFirst,
    List.append_nil] at hsplit

/-- A text that is not cut ends at the separator behind it. -/
theorem splitOutside_uncut_append (hsep : sep ≠ '[' ∧ sep ≠ ']') (hs : Uncut sep 0 s)
    (rest : List Char) :
    splitOutside sep (s ++ sep :: rest) = (splitOutside sep rest).map (s :: ·) := by
  rw [splitOutside, hs, splitOutsideFrom, if_neg hsep.1, if_neg hsep.2, if_pos ⟨rfl, rfl⟩,
    Option.map_map]
  refine congrArg (Option.map · _) (funext fun parts => ?_)
  rw [Function.comp_apply, foldr_consFirst, List.append_nil]

/-- Parts that are joined with a separator and blanks around it split back into themselves, up to
these blanks. -/
theorem exists_splitOutside_intercalate {before after : List Char} {parts : List (List Char)}
    (hsep : sep ≠ '[' ∧ sep ≠ ']') (hbefore : Uncut sep 0 before ∧ Blank before)
    (hafter : Uncut sep 0 after ∧ Blank after) (hne : parts ≠ [])
    (hparts : ∀ part ∈ parts, Uncut sep 0 part) :
    ∃ padded, splitOutside sep ((before ++ sep :: after).intercalate parts) = some padded ∧
      padded.map trim = parts.map trim := by
  -- All parts but the first one begin with the blanks after the separator.
  suffices hlead : ∀ lead, Uncut sep 0 lead ∧ Blank lead → ∃ padded,
      splitOutside sep (lead ++ (before ++ sep :: after).intercalate parts) = some padded ∧
        padded.map trim = parts.map trim from
    hlead [] ⟨uncut_nil sep 0, blank_nil⟩
  induction parts with
  | nil => exact absurd rfl hne
  | cons part parts ih =>
    intro lead hlead
    obtain ⟨hpart, hparts⟩ := List.forall_mem_cons.1 hparts
    cases parts with
    | nil =>
      refine ⟨[lead ++ part], ?_, ?_⟩
      · rw [List.intercalate_singleton, splitOutside_uncut (hlead.1.append hpart)]
      · rw [List.map_singleton, List.map_singleton, trim_blank_append hlead.2]
    | cons next parts =>
      obtain ⟨padded, hsplit, htrim⟩ := ih (List.cons_ne_nil next parts) hparts after hafter
      refine ⟨(lead ++ part ++ before) :: padded, ?_, ?_⟩
      · have hshape : lead ++ (before ++ sep :: after).intercalate (part :: next :: parts) =
            (lead ++ part ++ before) ++ sep :: (after ++
              (before ++ sep :: after).intercalate (next :: parts)) := by
          rw [List.intercalate_cons_cons]
          simp only [List.append_assoc, List.cons_append]
        rw [hshape, splitOutside_uncut_append hsep ((hlead.1.append hpart).append hbefore.1),
          hsplit, Option.map_some]
      · rw [List.map_cons, List.map_cons, htrim, trim_append_blank _ hbefore.2,
          trim_blank_append hlead.2]

end EnvSettings.Text
