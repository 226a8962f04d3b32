import Mathlib.Data.List.DropRight
import EnvSettings.Text.Space

namespace EnvSettings.Text

variable {s pad : List Char} {c : Char}

/-- A text of white space, possibly empty. -/
def Blank (s : List Char) : Prop :=
  ∀ c ∈ s, isSpace c = true

instance (s : List Char) : Decidable (Blank s) :=
  List.decidableBAll (fun c => isSpace c = true) s

theorem blank_nil : Blank [] :=
  List.forall_mem_nil _

theorem trimLeft_blank_append (hpad : Blank pad) (s : List Char) :
    trimLeft (pad ++ s) = trimLeft s :=
  List.dropWhile_append_of_pos hpad

theorem trimLeft_cons (hvisible : isSpace c = false) (s : List Char) :
    trimLeft (c :: s) = c :: s := by
  simp [trimLeft, hvisible]

/-- White space at the end goes, and a visible character stays. -/
theorem trimRight_concat (s : List Char) (c : Char) :
    trimRight (s ++ [c]) = if isSpace c then trimRight s else s ++ [c] :=
  List.rdropWhile_concat isSpace s c

theorem trimRight_append_blank (s : List Char) (hpad : Blank pad) :
    trimRight (s ++ pad) = trimRight s := by
  induction pad using List.reverseRecOn with
  | nil => rw [List.append_nil]
  | append_singleton pad c ih =>
    have hc : isSpace c = true := hpad c (by simp)
    rw [← List.append_assoc, trimRight_concat, if_pos hc]
    exact ih fun b hmem => hpad b (List.mem_append_left [c] hmem)

theorem trim_append_blank (s : List Char) (hpad : Blank pad) :
    trim (s ++ pad) = trim s := by
  rw [trim, trim, trimLeft, trimLeft, List.dropWhile_append]
  split
  · rename_i hblank
    rw [List.isEmpty_iff.1 hblank, List.dropWhile_eq_nil_iff.2 hpad]
  · exact trimRight_append_blank _ hpad

theorem trim_blank_append (hpad : Blank pad) (s : List Char) :
    trim (pad ++ s) = trim s := by
  rw [trim, trimLeft_blank_append hpad, ← trim]

theorem trimRight_blank (hpad : Blank pad) : trimRight pad = [] :=
  trimRight_append_blank [] hpad

/-- What stands before a visible character stays. -/
theorem trimRight_append_cons (hvisible : isSpace c = false) (s t : List Char) :
    trimRight (s ++ c :: t) = s ++ c :: trimRight t := by
  induction t using List.reverseRecOn with
  | nil => simp [hvisible, trimRight]
  | append_singleton t b ih =>
    rw [← List.cons_append, ← List.append_assoc, trimRight_concat, trimRight_concat]
    split
    · exact ih
    · simp

/-- A visible character keeps its place in front of what is trimmed. -/
theorem trimRight_cons (hvisible : isSpace c = false) (s : List Char) :
    trimRight (c :: s) = c :: trimRight s :=
  trimRight_append_cons hvisible [] s

/-- A text stays as it is if its last character is visible. -/
theorem trimRight_eq_self_iff : trimRight s = s ↔ ∀ c ∈ s.getLast?, isSpace c = false := by
  rw [trimRight, ← List.rdropWhile, List.rdropWhile_eq_self_iff]
  cases s with
  | nil => simp
  | cons c s => simp [List.getLast?_cons, List.getLast_eq_getLastD]

theorem mem_dropWhile_of_neg {p : Char → Bool} (hc : p c = false) (hmem : c ∈ s) :
    c ∈ s.dropWhile p := by
  have hsplit := List.takeWhile_append_dropWhile (p := p) (l := s)
  rw [← hsplit, List.mem_append] at hmem
  refine hmem.resolve_left fun htake => ?_
  rw [List.mem_takeWhile_imp htake] at hc
  cases hc

/-- Trimming keeps the visible characters. -/
theorem mem_trim_of_mem (hvisible : isSpace c = false) (hmem : c ∈ s) : c ∈ trim s := by
  rw [trim, trimRight, List.mem_reverse]
  exact mem_dropWhile_of_neg hvisible
    (List.mem_reverse.2 (mem_dropWhile_of_neg hvisible hmem))

end EnvSettings.Text
