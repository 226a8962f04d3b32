namespace EnvSettings

variable {ε ε' α β : Type} {x : Except ε α}

/-- Two steps succeed if the first one does and the second one does with its result. -/
theorem bind_eq_ok_iff {k : α → Except ε β} {b : β} :
    x >>= k = .ok b ↔ ∃ a, x = .ok a ∧ k a = .ok b := by
  cases x with
  | error e => simp [bind, Except.bind]
  | ok a => simp [bind, Except.bind]

/-- Two steps fail with an error if one of them does. -/
theorem bind_eq_error_iff {k : α → Except ε β} {e : ε} :
    x >>= k = .error e ↔ x = .error e ∨ ∃ a, x = .ok a ∧ k a = .error e := by
  cases x with
  | error e' => simp [bind, Except.bind]
  | ok a => simp [bind, Except.bind]

theorem bind_ok_eq_error_iff {f : α → β} {e : ε} :
    (x >>= fun a => .ok (f a)) = .error e ↔ x = .error e := by
  rw [bind_eq_error_iff]
  exact ⟨fun h => h.resolve_right nofun, .inl⟩

theorem map_eq_ok_iff {f : α → β} {b : β} : x.map f = .ok b ↔ ∃ a, x = .ok a ∧ f a = b := by
  cases x <;> simp [Except.map]

/-- The wording of errors does not change results. -/
theorem mapError_eq_ok_iff {message : ε → ε'} {a : α} :
    x.mapError message = .ok a ↔ x = .ok a := by
  cases x with
  | error e => exact iff_of_false nofun nofun
  | ok a' => exact ⟨fun h => congrArg _ (Except.ok.inj h), fun h => congrArg _ (Except.ok.inj h)⟩

theorem mapError_eq_error_iff {message : ε → ε'} {e' : ε'} :
    x.mapError message = .error e' ↔ ∃ e, x = .error e ∧ message e = e' := by
  cases x with
  | error e =>
    constructor
    · exact fun h => ⟨e, rfl, Except.error.inj h⟩
    · rintro ⟨_, ⟨⟩, rfl⟩
      rfl
  | ok a => exact iff_of_false nofun nofun

/-- A check of all elements succeeds if each check does. -/
theorem forM_eq_ok_iff {f : α → Except ε Unit} {xs : List α} :
    xs.forM f = .ok () ↔ ∀ a ∈ xs, f a = .ok () := by
  induction xs with
  | nil => exact iff_of_true rfl (List.forall_mem_nil _)
  | cons a xs ih =>
    rw [List.forM, bind_eq_ok_iff, List.forall_mem_cons]
    exact ⟨fun ⟨_, ha, hxs⟩ => ⟨ha, ih.1 hxs⟩, fun ⟨ha, hxs⟩ => ⟨(), ha, ih.2 hxs⟩⟩

/-- A step for all elements gives a result for each. -/
theorem exists_of_mapM_eq_ok {f : α → Except ε β} {as : List α} {bs : List β}
    (hmap : as.mapM f = .ok bs) : ∀ a ∈ as, ∃ b ∈ bs, f a = .ok b := by
  induction as generalizing bs with
  | nil => exact List.forall_mem_nil _
  | cons a as ih =>
    rw [List.mapM_cons] at hmap
    obtain ⟨b, hb, hmap⟩ := bind_eq_ok_iff.1 hmap
    obtain ⟨rest, hrest, hpure⟩ := bind_eq_ok_iff.1 hmap
    obtain rfl := Except.ok.inj hpure
    refine List.forall_mem_cons.2 ⟨⟨b, List.mem_cons_self, hb⟩, fun a' ha' => ?_⟩
    obtain ⟨b', hb', hf⟩ := ih hrest a' ha'
    exact ⟨b', List.mem_cons_of_mem b hb', hf⟩

theorem toOption_eq_some_iff {a : α} : x.toOption = some a ↔ x = .ok a := by
  cases x <;> simp [Except.toOption]

end EnvSettings
