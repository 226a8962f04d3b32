import EnvSettings.Text.Split

namespace EnvSettings.Text

/-- There is a part before the first separator, if only the empty one. -/
theorem splitAtChar_ne_nil (sep : Char) (s : List Char) : splitAtChar sep s ≠ [] := by
  cases s with
  | nil => simp [splitAtChar]
  | cons c s =>
    simp only [splitAtChar]
    split
    · simp
    · cases splitAtChar sep s <;> simp [consFirst]

/-- A text is cut behind its lead. -/
theorem dropLead?_eq_some_iff {lead s rest : List Char} :
    dropLead? lead s = some rest ↔ s = lead ++ rest := by
  induction lead generalizing s with
  | nil => simp [dropLead?]
  | cons l lead ih =>
    cases s with
    | nil => simp [dropLead?]
    | cons c s =>
      by_cases h : l = c
      · subst h
        simp [dropLead?, ih]
      · simp [dropLead?, h, Ne.symm h]

/-- A text is cut at the first separator in it. -/
theorem cutAt?_eq_some_iff {sep : Char} {s before after : List Char} :
    cutAt? sep s = some (before, after) ↔ s = before ++ sep :: after ∧ sep ∉ before := by
  induction s generalizing before with
  | nil => simp [cutAt?]
  | cons c s ih =>
    by_cases h : c = sep
    · subst h
      cases before with
      | nil => simp [cutAt?]
      | cons b before => simp [cutAt?]; grind
    · cases before with
      | nil => simp [cutAt?, h]
      | cons b before =>
        simp only [cutAt?, h, if_false, Option.map_eq_some_iff, Prod.mk.injEq, Prod.exists,
          List.cons.injEq, List.cons_append, List.mem_cons, not_or]
        constructor
        · rintro ⟨x, y, hxy, ⟨rfl, rfl⟩, rfl⟩
          have := ih.1 hxy
          exact ⟨⟨rfl, this.1⟩, Ne.symm h, this.2⟩
        · rintro ⟨⟨rfl, hs⟩, hne, hmem⟩
          exact ⟨_, _, ih.2 ⟨hs, hmem⟩, ⟨rfl, rfl⟩, rfl⟩

theorem cutAt?_append {sep : Char} {before : List Char} (hbefore : sep ∉ before)
    (after : List Char) : cutAt? sep (before ++ sep :: after) = some (before, after) :=
  cutAt?_eq_some_iff.2 ⟨rfl, hbefore⟩

end EnvSettings.Text
