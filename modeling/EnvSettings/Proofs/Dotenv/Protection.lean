import EnvSettings.Dotenv.Quote

namespace EnvSettings.Dotenv.Quote

variable {q : Quote}

/-- A character that is no sign of the quote is passed over. -/
theorem cut?_of_ne {c : Char} {s : List Char} (hslash : c ≠ '\\') (hquote : c ≠ q.char) :
    q.cut? (c :: s) = (q.cut? s).map fun (before, after) => (c :: before, after) := by
  rw [cut?.eq_4]
  · simp [hquote]
  · simp [hslash]
  · simp [hslash]

/-- A character that is no backslash stands for itself. -/
theorem unescape_of_ne {c : Char} {s : List Char} (hslash : c ≠ '\\') :
    q.unescape (c :: s) = c :: q.unescape s := by
  rw [unescape.eq_4]
  · simp [hslash]
  · simp [hslash]

/-- Characters are written so that they mean themselves between the quotes: as they are if they are
no sign there, and else as an escape. -/
def Protects (q : Quote) (write : Char → List Char) : Prop :=
  ∀ c, (write c = [c] ∧ c ≠ '\\' ∧ c ≠ q.char) ∨
    ∃ code, write c = ['\\', code] ∧ q.escaped code = c

namespace Protects

variable {write : Char → List Char}

/-- No quote among protected characters closes them. -/
theorem cut?_eq_none (hwrite : q.Protects write) (value : List Char) :
    q.cut? (value.flatMap write) = none := by
  induction value with
  | nil => rfl
  | cons c value ih =>
    rw [List.flatMap_cons]
    obtain ⟨hself, hslash, hquote⟩ | ⟨code, hcode, -⟩ := hwrite c
    · simp [hself, cut?_of_ne hslash hquote, ih]
    · simp [hcode, cut?, ih]

/-- The closing quote is found behind the protected characters. -/
theorem cut?_append (hwrite : q.Protects write) (value rest : List Char) :
    q.cut? (value.flatMap write ++ q.char :: rest) = some (value.flatMap write, rest) := by
  induction value with
  | nil => cases q <;> rfl
  | cons c value ih =>
    rw [List.flatMap_cons, List.append_assoc]
    obtain ⟨hself, hslash, hquote⟩ | ⟨code, hcode, -⟩ := hwrite c
    · simp [hself, cut?_of_ne hslash hquote, ih]
    · simp [hcode, cut?, ih]

/-- A protected value is read back. -/
theorem unescape_eq (hwrite : q.Protects write) (value : List Char) :
    q.unescape (value.flatMap write) = value := by
  induction value with
  | nil => rfl
  | cons c value ih =>
    rw [List.flatMap_cons]
    obtain ⟨hself, hslash, -⟩ | ⟨code, hcode, hescaped⟩ := hwrite c
    · simp [hself, unescape_of_ne hslash, ih]
    · simp [hcode, unescape, hescaped, ih]

end Protects

end EnvSettings.Dotenv.Quote
