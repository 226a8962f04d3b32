import Mathlib.Data.List.Nodup
import Mathlib.Data.List.Perm.Subperm

namespace EnvSettings

/-- A walk has entered different ones of the names, and the room counts those that it can still
enter. -/
structure HasRoom (names : List String) (room : Nat) (walk : List String) : Prop where
  distinct : walk.Nodup
  named : walk ⊆ names
  room : names.length < room + walk.length

namespace HasRoom

variable {names walk : List String} {name : String} {room : Nat}

theorem nil (hroom : names.length < room) : HasRoom names room [] :=
  ⟨List.nodup_nil, List.nil_subset names, hroom⟩

/-- There is room left after every walk. -/
theorem exists_succ (hroom : HasRoom names room walk) : ∃ less, room = less + 1 := by
  have hlength := (List.subperm_of_subset hroom.distinct hroom.named).length_le
  have := hroom.room
  exact ⟨room - 1, by omega⟩

theorem push (hroom : HasRoom names (room + 1) walk) (hnew : name ∉ walk) (hname : name ∈ names) :
    HasRoom names room (walk ++ [name]) := by
  refine ⟨?_, ?_, ?_⟩
  · rw [← List.concat_eq_append]
    exact hroom.distinct.concat hnew
  · exact List.append_subset.2 ⟨hroom.named, List.cons_subset.2 ⟨hname, List.nil_subset names⟩⟩
  · have := hroom.room
    rw [List.length_append, List.length_singleton]
    omega

end HasRoom

end EnvSettings
