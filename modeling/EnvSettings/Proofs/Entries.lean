import Mathlib.Data.List.Nodup
import EnvSettings.Entries

namespace EnvSettings

variable {α : Type}

/-- What alone has a property is what is found by it. -/
theorem find?_eq_some_of_unique {p : α → Bool} {as : List α} {a : α} (hmem : a ∈ as)
    (ha : p a = true) (hunique : ∀ b ∈ as, p b = true → b = a) : as.find? p = some a := by
  cases hfind : as.find? p with
  | none => exact absurd ha (List.find?_eq_none.1 hfind a hmem)
  | some b => rw [hunique b (List.mem_of_find?_eq_some hfind) (List.find?_some hfind)]

namespace Entries

/-- Looking up in a list with an entry in front, by equality of the names. -/
theorem lookup_cons_eq (name : String) (e : String × α) (es : List (String × α)) :
    (e :: es).lookup name = if name = e.1 then some e.2 else es.lookup name := by
  by_cases hname : name = e.1
  · rw [List.lookup_cons, beq_iff_eq.2 hname, if_pos hname]
  · rw [List.lookup_cons, beq_eq_false_iff_ne.2 hname, if_neg hname]

/-- What is found under a name is an entry. -/
theorem mem_of_lookup {es : List (String × α)} {name : String} {x : α}
    (hlookup : es.lookup name = some x) : (name, x) ∈ es := by
  obtain ⟨before, after, rfl, -⟩ := List.lookup_eq_some_iff.1 hlookup
  exact List.mem_append_right before List.mem_cons_self

/-- With distinct names every entry is the one that is found under its name. -/
theorem lookup_eq_some_iff_mem {es : List (String × α)} (hnodup : (es.map Prod.fst).Nodup)
    {name : String} {x : α} : es.lookup name = some x ↔ (name, x) ∈ es := by
  induction es with
  | nil => simp
  | cons e es ih =>
    rw [List.map_cons, List.nodup_cons] at hnodup
    obtain ⟨hfresh, hnodup⟩ := hnodup
    rw [List.lookup_cons, List.mem_cons]
    by_cases hname : name = e.1
    · have hnot : (name, x) ∉ es := fun h => hfresh (hname ▸ List.mem_map_of_mem (f := Prod.fst) h)
      simp [hname, Prod.ext_iff, eq_comm, hname ▸ hnot]
    · have hne : (name, x) ≠ e := fun h => hname (congrArg Prod.fst h)
      simpa [beq_eq_false_iff_ne.2 hname, hne] using ih hnodup

/-- What is found in a list after an insertion. -/
theorem lookup_put (name other : String) (x : α) (es : List (String × α)) :
    (put name x es).lookup other = if other = name then some x else es.lookup other := by
  induction es with
  | nil => rw [put, lookup_cons_eq]
  | cons e es ih =>
    rw [put]
    split
    · rename_i hname
      rw [lookup_cons_eq, lookup_cons_eq, hname]
      split <;> rfl
    · rename_i hname
      rw [lookup_cons_eq, lookup_cons_eq, ih]
      split
      · rename_i hother
        rw [if_neg fun h => hname (hother.symm.trans h)]
      · rfl

/-- What is found in an ascending list after an insertion. -/
theorem lookup_putSorted (name other : String) (x : α) (es : List (String × α)) :
    (putSorted name x es).lookup other = if other = name then some x else es.lookup other := by
  induction es with
  | nil => simp [putSorted, lookup_cons_eq]
  | cons e es ih =>
    rw [lookup_cons_eq, putSorted]
    split
    · rename_i hname
      rw [lookup_cons_eq, hname]
      split <;> rfl
    · rename_i hname
      split
      · rw [lookup_cons_eq, lookup_cons_eq]
      · rw [lookup_cons_eq, ih]
        split
        · rename_i hother
          rw [if_neg fun h => hname (hother.symm.trans h)]
        · rfl

/-- After a run of insertions the last one of a name counts; without one the old entry stays. -/
theorem lookup_foldl_putSorted (os es : List (String × α)) (name : String) :
    (os.foldl (fun es o => putSorted o.1 o.2 es) es).lookup name =
      ((os.filter (·.1 = name)).getLast?.map Prod.snd).or (es.lookup name) := by
  induction os generalizing es with
  | nil => rfl
  | cons o os ih =>
    rw [List.foldl_cons, ih, lookup_putSorted]
    by_cases hname : name = o.1
    · rw [if_pos hname, List.filter_cons_of_pos (by simpa using hname.symm), List.getLast?_cons]
      cases (os.filter (·.1 = name)).getLast? <;> rfl
    · rw [if_neg hname, List.filter_cons_of_neg (by simpa using Ne.symm hname)]

/-- Keeping entries by their names keeps what is found under the names that are kept. -/
theorem lookup_filter {keep : String → Bool} {name : String} (hkeep : keep name)
    (es : List (String × α)) : (es.filter fun e => keep e.1).lookup name = es.lookup name := by
  induction es with
  | nil => rfl
  | cons e es ih =>
    by_cases he : keep e.1
    · rw [List.filter_cons_of_pos (by simpa using he), lookup_cons_eq, lookup_cons_eq, ih]
    · have hname : name ≠ e.1 := fun heq => he (heq ▸ hkeep)
      rw [List.filter_cons_of_neg (by simpa using he), lookup_cons_eq, if_neg hname, ih]

/-- The names ascend, as those of a map do. -/
def Ascending (es : List (String × α)) : Prop :=
  es.Pairwise fun e e' => e.1 < e'.1

theorem mem_putSorted {name : String} {x : α} {es : List (String × α)} {e : String × α}
    (hmem : e ∈ putSorted name x es) : e = (name, x) ∨ e ∈ es := by
  induction es with
  | nil => simpa [putSorted] using hmem
  | cons e' es ih =>
    simp only [putSorted] at hmem
    split at hmem
    · rw [List.mem_cons] at hmem
      exact hmem.imp_right (List.mem_cons_of_mem e')
    · split at hmem
      · exact List.mem_cons.1 hmem
      · obtain rfl | hmem := List.mem_cons.1 hmem
        · exact .inr List.mem_cons_self
        · exact (ih hmem).imp_right (List.mem_cons_of_mem e')

theorem Ascending.putSorted {es : List (String × α)} (hasc : Ascending es) (name : String)
    (x : α) : Ascending (putSorted name x es) := by
  induction es with
  | nil => simp [Ascending, Entries.putSorted]
  | cons e es ih =>
    obtain ⟨hhead, htail⟩ := List.pairwise_cons.1 hasc
    simp only [Entries.putSorted]
    split
    · rename_i hname
      exact List.pairwise_cons.2 ⟨fun e' hmem => hname ▸ hhead e' hmem, htail⟩
    · rename_i hname
      split
      · rename_i hlt
        refine List.pairwise_cons.2 ⟨fun e' hmem => ?_, hasc⟩
        obtain rfl | hmem := List.mem_cons.1 hmem
        · exact hlt
        · exact String.lt_trans hlt (hhead e' hmem)
      · rename_i hlt
        refine List.pairwise_cons.2 ⟨fun e' hmem => ?_, ih htail⟩
        obtain rfl | hmem := mem_putSorted hmem
        · exact Decidable.by_contra fun hge =>
            hname (String.le_antisymm (String.not_lt.1 hlt) (String.not_lt.1 hge))
        · exact hhead e' hmem

theorem Ascending.nodup {es : List (String × α)} (hasc : Ascending es) :
    (es.map Prod.fst).Nodup := by
  rw [List.nodup_iff_pairwise_ne, List.pairwise_map]
  refine hasc.imp fun hlt heq => ?_
  exact String.lt_irrefl _ (heq ▸ hlt)

/-- Maps are equal when they hold the same under every name. -/
theorem Ascending.ext {es es' : List (String × α)} (hasc : Ascending es) (hasc' : Ascending es')
    (hlookup : ∀ name, es.lookup name = es'.lookup name) : es = es' := by
  have hperm : es.Perm es' := by
    refine (List.perm_ext_iff_of_nodup ?_ ?_).2 fun e => ?_
    · exact List.Nodup.of_map Prod.fst hasc.nodup
    · exact List.Nodup.of_map Prod.fst hasc'.nodup
    · obtain ⟨name, x⟩ := e
      rw [← lookup_eq_some_iff_mem hasc.nodup, ← lookup_eq_some_iff_mem hasc'.nodup, hlookup]
  refine hperm.eq_of_pairwise (fun e e' _ _ hlt hgt => ?_) hasc hasc'
  exact absurd hgt (String.lt_asymm hlt)

/-- Storing what is there already changes nothing. -/
theorem Ascending.putSorted_eq_self {es : List (String × α)} (hasc : Ascending es) {name : String}
    {x : α} (hlookup : es.lookup name = some x) : Entries.putSorted name x es = es := by
  refine (hasc.putSorted name x).ext hasc fun other => ?_
  rw [lookup_putSorted]
  split
  · rename_i hname
    rw [hname, hlookup]
  · rfl

end Entries

end EnvSettings
