import Mathlib
import EnvSettings.Text.Split

namespace EnvSettings.Text

variable {sep part : List Char} {c : Char}

/-- In a part with the separator behind it, the separator begins nowhere before the end of the
part. -/
def Clear (sep part : List Char) : Prop :=
  ∀ rest, rest <:+ part → rest ≠ [] → ¬ sep <+: rest ++ sep

instance (sep part : List Char) : Decidable (Clear sep part) :=
  decidable_of_iff (∀ rest ∈ part.tails, rest ≠ [] → ¬ sep <+: rest ++ sep) (by simp [Clear])

theorem clear_nil (sep : List Char) : Clear sep [] :=
  fun _ hsuffix hne => absurd (List.suffix_nil.1 hsuffix) hne

/-- A part is clear if the separator does not begin at its first character nor later. -/
theorem clear_cons : Clear sep (c :: part) ↔ ¬ sep <+: c :: part ++ sep ∧ Clear sep part := by
  constructor
  · intro hclear
    exact ⟨hclear _ (List.suffix_refl _) (List.cons_ne_nil c part),
      fun rest hsuffix => hclear rest (hsuffix.trans (List.suffix_cons c part))⟩
  · rintro ⟨hhead, htail⟩ rest hsuffix
    obtain rfl | hsuffix := List.suffix_cons_iff.1 hsuffix
    · exact fun _ => hhead
    · exact htail rest hsuffix

/-- The separator does not begin at a clear part that another one follows. -/
theorem Clear.not_isPrefix (hclear : Clear sep (c :: part)) (rest : List Char) :
    ¬ sep <+: c :: part ++ (sep ++ rest) := by
  intro h
  rw [← List.append_assoc] at h
  refine (clear_cons.1 hclear).1 (List.prefix_of_prefix_length_le h (List.prefix_append _ _) ?_)
  rw [List.length_append]
  exact Nat.le_add_left _ _

/-- The separator does not begin at a clear part. -/
theorem Clear.not_isPrefix_self (hclear : Clear sep (c :: part)) : ¬ sep <+: c :: part :=
  fun h => (clear_cons.1 hclear).1 (h.trans (List.prefix_append _ _))

/-- A character at which no separator begins goes to the first part. -/
theorem splitOn_cons_of_not_isPrefix {s : List Char} (h : ¬ sep <+: c :: s) :
    splitOn sep (c :: s) = consFirst c (splitOn sep s) := by
  rw [splitOn, splitOnFrom, if_neg (mt List.isPrefixOf_iff_prefix.1 h)]
  rfl

theorem splitOnFrom_length_append (sep skipped s : List Char) :
    splitOnFrom sep skipped.length (skipped ++ s) = splitOn sep s := by
  induction skipped with
  | nil => rfl
  | cons c skipped ih => exact ih

theorem splitOn_sep_append (hsep : sep ≠ []) (s : List Char) :
    splitOn sep (sep ++ s) = [] :: splitOn sep s := by
  obtain ⟨c, rest, rfl⟩ := List.exists_cons_of_ne_nil hsep
  have hhead : (c :: rest).isPrefixOf (c :: (rest ++ s)) :=
    List.isPrefixOf_iff_prefix.2 (List.prefix_append (c :: rest) s)
  rw [splitOn, List.cons_append, splitOnFrom, if_pos hhead, List.length_cons,
    Nat.add_sub_cancel, splitOnFrom_length_append]

/-- A clear part ends at the separator behind it. -/
theorem splitOn_append (hsep : sep ≠ []) (hclear : Clear sep part) (s : List Char) :
    splitOn sep (part ++ (sep ++ s)) = part :: splitOn sep s := by
  induction part with
  | nil => exact splitOn_sep_append hsep s
  | cons c part ih =>
    have hnext := hclear.not_isPrefix s
    rw [List.cons_append] at hnext ⊢
    rw [splitOn_cons_of_not_isPrefix hnext, ih (clear_cons.1 hclear).2]
    rfl

theorem splitOn_of_clear (hclear : Clear sep part) : splitOn sep part = [part] := by
  induction part with
  | nil => rfl
  | cons c part ih =>
    rw [splitOn_cons_of_not_isPrefix hclear.not_isPrefix_self, ih (clear_cons.1 hclear).2]
    rfl

/-- Clear parts split back after they were joined. -/
theorem splitOn_intercalate (hsep : sep ≠ []) {parts : List (List Char)} (hparts : parts ≠ [])
    (hclear : ∀ part ∈ parts, Clear sep part) :
    splitOn sep (sep.intercalate parts) = parts := by
  induction parts with
  | nil => exact absurd rfl hparts
  | cons part rest ih =>
    obtain ⟨hpart, hrest⟩ := List.forall_mem_cons.1 hclear
    cases rest with
    | nil => rw [List.intercalate_singleton, splitOn_of_clear hpart]
    | cons next rest =>
      rw [List.intercalate_cons_cons, List.append_assoc, splitOn_append hsep hpart,
        ih (List.cons_ne_nil next rest) hrest]

/-- A part that comes back as the first one is clear. -/
theorem clear_of_splitOn {next : List Char} {s : List Char} {parts : List (List Char)}
    (hsplit : splitOn sep (part ++ (sep ++ s)) = part :: next :: parts) : Clear sep part := by
  induction part generalizing next parts with
  | nil => exact clear_nil sep
  | cons c part ih =>
    by_cases hhead : sep <+: c :: (part ++ (sep ++ s))
    · rw [List.cons_append, splitOn, splitOnFrom,
        if_pos (List.isPrefixOf_iff_prefix.2 hhead)] at hsplit
      simp at hsplit
    · rw [List.cons_append, splitOn_cons_of_not_isPrefix hhead] at hsplit
      refine clear_cons.2 ⟨fun h => hhead ?_, ?_⟩
      · rw [← List.append_assoc, ← List.cons_append]
        exact h.trans (List.prefix_append _ s)
      · cases hrest : splitOn sep (part ++ (sep ++ s)) with
        | nil => simp [hrest, consFirst] at hsplit
        | cons first others =>
          rw [hrest, consFirst, List.cons.injEq, List.cons.injEq] at hsplit
          obtain ⟨⟨-, rfl⟩, rfl⟩ := hsplit
          exact ih hrest

theorem occursIn_iff {s : List Char} : occursIn part s = true ↔ part <:+: s := by
  induction s with
  | nil => simp [occursIn]
  | cons c s ih => rw [occursIn, Bool.or_eq_true, List.isPrefixOf_iff_prefix, ih,
      List.infix_cons_iff]

theorem occursIn_intercalate (sep part next : List Char) (rest : List (List Char)) :
    occursIn sep (sep.intercalate (part :: next :: rest)) = true := by
  rw [occursIn_iff, List.intercalate_cons_cons]
  exact ⟨part, sep.intercalate (next :: rest), rfl⟩

/-- The separator does not occur in a clear part. -/
theorem occursIn_of_clear (hsep : sep ≠ []) (hclear : Clear sep part) :
    occursIn sep part = false := by
  rw [← Bool.not_eq_true, occursIn_iff]
  rintro ⟨before, after, rfl⟩
  refine hclear (sep ++ after) ?_ (by simp [hsep]) ?_
  · rw [List.append_assoc]
    exact List.suffix_append before (sep ++ after)
  · rw [List.append_assoc]
    exact List.prefix_append sep (after ++ sep)

end EnvSettings.Text
