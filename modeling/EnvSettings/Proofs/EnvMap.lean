import Mathlib
import EnvSettings.EnvMap
import EnvSettings.Proofs.Entries

namespace EnvSettings.EnvMap

variable {m : EnvMap} {es : List (String × String)} {name other text : String}

@[simp]
theorem toList_empty : empty.toList = [] := rfl

/-- Maps with the same entries are the same, for the entries determine the index. -/
theorem toList_inj {m m' : EnvMap} : m.toList = m'.toList ↔ m = m' := by
  constructor
  · intro h
    have he : m.entries = m'.entries := Array.toList_inj.1 h
    have hp : m.positions = m'.positions := by
      apply Std.ExtHashMap.ext_getElem?
      intro k
      apply Option.ext
      intro i
      rw [m.positions_eq_some_iff, m'.positions_eq_some_iff, he]
    cases m; cases m'
    simp_all
  · rintro rfl
    rfl

/-- The index has the position of every entry. -/
theorem exists_position {e : String × String} (hmem : e ∈ m.toList) :
    ∃ i, m.positions[e.1]? = some i ∧ m.toList[i]? = some e := by
  obtain ⟨i, hi⟩ := List.getElem?_of_mem hmem
  refine ⟨i, (m.positions_eq_some_iff e.1 i).2 ?_, hi⟩
  rw [← Array.getElem?_toList]
  exact Option.map_eq_some_iff.2 ⟨e, hi, rfl⟩

/-- A position of the index is that of an entry with the name. -/
theorem exists_entry {i : Nat} (hposition : m.positions[name]? = some i) :
    ∃ e, m.toList[i]? = some e ∧ e.1 = name := by
  have hi := (m.positions_eq_some_iff name i).1 hposition
  rwa [← Array.getElem?_toList, Option.map_eq_some_iff] at hi

/-- No name stands at two positions. -/
theorem nodup_keys (m : EnvMap) : m.keys.Nodup := by
  rw [List.nodup_iff_pairwise_ne, List.pairwise_iff_getElem]
  intro i j hi hj hij heq
  have hposition : ∀ (l : Nat) (hl : l < m.keys.length), m.positions[m.keys[l]]? = some l := by
    intro l hl
    rw [m.positions_eq_some_iff]
    have hsize : l < m.entries.size := by simpa [keys, toList] using hl
    simp [keys, toList, hsize]
  have hi' := hposition i hi
  have hj' := hposition j hj
  rw [heq, hj'] at hi'
  simp at hi'
  omega

/-- A text is found by the index as it is by a search through the entries. -/
theorem get?_eq_lookup (m : EnvMap) (name : String) : m.get? name = m.toList.lookup name := by
  rcases hposition : m.positions[name]? with _ | i
  · rw [get?, hposition, Option.bind_none, eq_comm, List.lookup_eq_none_iff]
    intro e hmem
    rw [bne_iff_ne]
    rintro rfl
    obtain ⟨i, hi, -⟩ := exists_position hmem
    simp [hposition] at hi
  · obtain ⟨e, hi, rfl⟩ := exists_entry hposition
    rw [get?, hposition, Option.bind_some, ← Array.getElem?_toList]
    change (m.toList[i]?).map Prod.snd = _
    rw [hi, (Entries.lookup_eq_some_iff_mem m.nodup_keys).2 (List.mem_of_getElem? hi)]
    rfl

/-- The index has the names of the entries and no others. -/
theorem contains_eq (m : EnvMap) (name : String) : m.contains name = m.keys.contains name := by
  rw [Bool.eq_iff_iff, contains, Std.ExtHashMap.contains_eq_isSome_getElem?,
    Option.isSome_iff_exists, List.contains_iff_mem, keys, List.mem_map]
  constructor
  · rintro ⟨i, hposition⟩
    obtain ⟨e, hi, rfl⟩ := exists_entry hposition
    exact ⟨e, List.mem_of_getElem? hi, rfl⟩
  · rintro ⟨e, hmem, rfl⟩
    obtain ⟨i, hposition, -⟩ := exists_position hmem
    exact ⟨i, hposition⟩

/-- A name that is not there is stored at the end. -/
theorem insertEntry_of_not_mem (hfresh : name ∉ es.map Prod.fst) :
    insertEntry name text es = es ++ [(name, text)] := by
  induction es with
  | nil => rfl
  | cons e es ih =>
    simp only [List.map_cons, List.mem_cons, not_or] at hfresh
    simp [insertEntry, Ne.symm hfresh.1, ih hfresh.2]

/-- A name that is there is stored where it stands. -/
theorem insertEntry_of_getElem? {i : Nat} (hnodup : (es.map Prod.fst).Nodup)
    (hi : es[i]?.map Prod.fst = some name) :
    insertEntry name text es = es.set i (name, text) := by
  induction es generalizing i with
  | nil => simp at hi
  | cons e es ih =>
    simp only [List.map_cons, List.nodup_cons] at hnodup
    cases i with
    | zero =>
      simp only [List.getElem?_cons_zero, Option.map_some, Option.some.injEq] at hi
      simp [insertEntry, hi]
    | succ i =>
      simp only [List.getElem?_cons_succ] at hi
      have hne : e.1 ≠ name := by
        rintro rfl
        apply hnodup.1
        obtain ⟨x, hx, hxe⟩ := Option.map_eq_some_iff.1 hi
        exact List.mem_map.2 ⟨x, List.mem_of_getElem? hx, hxe⟩
      simp [insertEntry, hne, ih hnodup.2 hi]

/-- To store a text is to store it in the list of the entries. -/
@[simp]
theorem toList_insert (m : EnvMap) (name text : String) :
    (m.insert name text).toList = insertEntry name text m.toList := by
  unfold insert exchange
  split
  · rename_i i hposition
    obtain ⟨e, hi, hname⟩ := exists_entry hposition
    rw [insertEntry_of_getElem? (i := i) m.nodup_keys (by rw [hi, Option.map_some, hname])]
    simp [toList]
  · rename_i hposition
    rw [insertEntry_of_not_mem]
    · simp [toList]
    · intro hmem
      obtain ⟨e, he, rfl⟩ := List.mem_map.1 hmem
      obtain ⟨i, hi, -⟩ := exists_position he
      simp [hposition] at hi

/-- Storing a text gives the one that was found under the name before. -/
theorem exchange_fst (m : EnvMap) (name text : String) :
    (m.exchange name text).1 = m.get? name := by
  unfold exchange
  split <;> rename_i hposition <;>
    exact (congrArg (·.bind fun i => m.entries[i]?.map Prod.snd) hposition).symm

/-- A text is found under a name exactly if the two are an entry. -/
theorem get?_eq_some_iff {m : EnvMap} {name text : String} :
    m.get? name = some text ↔ (name, text) ∈ m.toList := by
  rw [get?_eq_lookup]
  exact Entries.lookup_eq_some_iff_mem m.nodup_keys

/-- Nothing is found under the names that are not there. -/
theorem get?_eq_none_iff {m : EnvMap} {name : String} : m.get? name = none ↔ name ∉ m.keys := by
  rw [get?_eq_lookup, List.lookup_eq_none_iff, keys, List.mem_map]
  constructor
  · rintro h ⟨e, hmem, rfl⟩
    simpa using h e hmem
  · intro h e hmem
    rw [bne_iff_ne]
    rintro rfl
    exact h ⟨e, hmem, rfl⟩

/-- A fresh name is stored at the end. -/
theorem toList_insert_of_not_mem {m : EnvMap} {name text : String} (hfresh : name ∉ m.keys) :
    (m.insert name text).toList = m.toList ++ [(name, text)] := by
  rw [toList_insert, insertEntry_of_not_mem hfresh]

theorem keys_insert_of_not_mem {m : EnvMap} {name text : String} (hfresh : name ∉ m.keys) :
    (m.insert name text).keys = m.keys ++ [name] := by
  simp [keys, toList_insert_of_not_mem hfresh]

/-- A name that is there keeps its place, and so do all others. -/
theorem keys_insert_of_mem {m : EnvMap} {name text : String} (hmem : name ∈ m.keys) :
    (m.insert name text).keys = m.keys := by
  rw [keys, keys, toList_insert]
  rw [keys] at hmem
  generalize m.toList = es at hmem ⊢
  induction es with
  | nil => cases hmem
  | cons e es ih =>
    by_cases hname : e.1 = name
    · simp [insertEntry, hname]
    · have htail : name ∈ es.map Prod.fst := by simpa [Ne.symm hname] using hmem
      simp [insertEntry, hname, ih htail]

/-- The entries are the names with what is found under them. -/
theorem toList_eq_map_keys (m : EnvMap) :
    m.toList = m.keys.map fun name => (name, (m.get? name).getD "") := by
  rw [keys, List.map_map]
  refine (List.map_id _).symm.trans (List.map_congr_left fun e hmem => ?_)
  have hget : m.get? e.1 = some e.2 := get?_eq_some_iff.2 hmem
  simp [hget]

/-- A map is known by the order of its names and what it stores under each. -/
theorem ext_keys_get? {m m' : EnvMap} (hkeys : m.keys = m'.keys)
    (hget : ∀ name ∈ m'.keys, m.get? name = m'.get? name) : m = m' := by
  rw [← toList_inj, toList_eq_map_keys m, toList_eq_map_keys m', hkeys]
  exact List.map_congr_left fun name hmem => by rw [hget name hmem]

/-- Texts are stored as any entries are. -/
theorem insertEntry_eq_put (name text : String) (es : List (String × String)) :
    insertEntry name text es = Entries.put name text es := by
  induction es with
  | nil => rfl
  | cons e es ih => rw [insertEntry, Entries.put, ih]

/-- What is found after an insertion. -/
theorem get?_insert (m : EnvMap) (name text other : String) :
    (m.insert name text).get? other = if other = name then some text else m.get? other := by
  rw [get?_eq_lookup, toList_insert, insertEntry_eq_put, Entries.lookup_put, ← get?_eq_lookup]

/-- The names are those under which a text is found. -/
theorem mem_keys_iff : name ∈ m.keys ↔ m.get? name ≠ none := by
  rw [Ne, get?_eq_none_iff, not_not]

/-- After a run of insertions the names are the old ones and those of the entries. -/
theorem mem_keys_insertAll :
    name ∈ (m.insertAll es).keys ↔ name ∈ m.keys ∨ name ∈ es.map Prod.fst := by
  induction es generalizing m with
  | nil => simp [insertAll]
  | cons e es ih =>
    have hstep : name ∈ (m.insert e.1 e.2).keys ↔ name = e.1 ∨ name ∈ m.keys := by
      rw [mem_keys_iff, mem_keys_iff, get?_insert]
      by_cases hname : name = e.1 <;> simp [hname]
    change name ∈ ((m.insert e.1 e.2).insertAll es).keys ↔ _
    rw [ih, hstep, List.map_cons, List.mem_cons]
    tauto

/-- A name for which all entries hold the same text holds that text in the end. -/
theorem get?_insertAll (htext : ∀ e ∈ es, e.1 = name → e.2 = text)
    (hmem : m.get? name = some text ∨ name ∈ es.map Prod.fst) :
    (m.insertAll es).get? name = some text := by
  induction es generalizing m with
  | nil => simpa [insertAll] using hmem
  | cons e es ih =>
    obtain ⟨hhead, htail⟩ := List.forall_mem_cons.1 htext
    refine ih htail (m := m.insert e.1 e.2) ?_
    rw [get?_insert]
    by_cases hname : name = e.1
    · left
      rw [if_pos hname, hhead hname.symm]
    · rw [if_neg hname]
      simpa [hname] using hmem

/-- The last entry of a name counts; without one the old text stays. -/
theorem get?_insertAll_eq_or (m : EnvMap) (es : List (String × String)) (name : String) :
    (m.insertAll es).get? name =
      ((es.filter (·.1 = name)).getLast?.map Prod.snd).or (m.get? name) := by
  induction es generalizing m with
  | nil => rfl
  | cons e es ih =>
    change ((m.insert e.1 e.2).insertAll es).get? name = _
    rw [ih, get?_insert]
    by_cases hname : name = e.1
    · rw [if_pos hname, List.filter_cons_of_pos (by simpa using hname.symm), List.getLast?_cons]
      cases (es.filter (·.1 = name)).getLast? <;> rfl
    · rw [if_neg hname, List.filter_cons_of_neg (by simpa using Ne.symm hname)]

/-- Old names keep their places, and new ones follow in their order. -/
theorem keys_insertAll (hnodup : (es.map Prod.fst).Nodup) :
    (m.insertAll es).keys = m.keys ++ (es.map Prod.fst).filter (· ∉ m.keys) := by
  induction es generalizing m with
  | nil => simp [insertAll]
  | cons e es ih =>
    rw [List.map_cons, List.nodup_cons] at hnodup
    obtain ⟨hhead, htail⟩ := hnodup
    change ((m.insert e.1 e.2).insertAll es).keys = _
    rw [ih htail, List.map_cons]
    by_cases hmem : e.1 ∈ m.keys
    · rw [keys_insert_of_mem hmem, List.filter_cons_of_neg (by simpa using hmem)]
    · have hrest : (es.map Prod.fst).filter (· ∉ m.keys ++ [e.1]) =
          (es.map Prod.fst).filter (· ∉ m.keys) := by
        refine List.filter_congr fun name hname => ?_
        have hne : name ≠ e.1 := fun heq => hhead (heq ▸ hname)
        simp [hne]
      rw [keys_insert_of_not_mem hmem, List.filter_cons_of_pos (by simpa using hmem), hrest,
        List.append_assoc, List.singleton_append]

/-- Keeping entries by their names commutes with one insertion. -/
theorem filter_insertEntry (keep : String → Bool) (name text : String)
    (es : List (String × String)) :
    (insertEntry name text es).filter (fun e => keep e.1) =
      if keep name then insertEntry name text (es.filter fun e => keep e.1)
      else es.filter fun e => keep e.1 := by
  induction es with
  | nil => cases hkeep : keep name <;> simp [insertEntry, hkeep]
  | cons e es ih =>
    by_cases hname : e.1 = name
    · cases hkeep : keep name <;> simp [insertEntry, hname, hkeep]
    · cases hkeep : keep name <;> cases he : keep e.1 <;>
        simp [insertEntry, hname, hkeep, he, ih]

/-- Keeping entries by their names commutes with insertion. -/
theorem filter_insertAll (keep : String → Bool) (m : EnvMap) (es : List (String × String)) :
    (m.insertAll es).toList.filter (fun e => keep e.1) =
      (es.filter fun e => keep e.1).foldl (fun kept e => insertEntry e.1 e.2 kept)
        (m.toList.filter fun e => keep e.1) := by
  induction es generalizing m with
  | nil => rfl
  | cons e es ih =>
    have hhead := filter_insertEntry keep e.1 e.2 m.toList
    change ((m.insert e.1 e.2).insertAll es).toList.filter (fun e => keep e.1) = _
    rw [ih, toList_insert, hhead, List.filter_cons]
    by_cases hkeep : keep e.1
    · rw [if_pos hkeep, if_pos hkeep, List.foldl_cons]
    · rw [if_neg hkeep, if_neg hkeep]

/-- Fresh names are stored at the end, in their order. -/
theorem toList_insertAll (hnodup : (m.keys ++ es.map Prod.fst).Nodup) :
    (m.insertAll es).toList = m.toList ++ es := by
  induction es generalizing m with
  | nil => simp [insertAll]
  | cons e es ih =>
    have hfresh : e.1 ∉ m.keys := fun hmem =>
      List.disjoint_of_nodup_append hnodup hmem List.mem_cons_self
    change ((m.insert e.1 e.2).insertAll es).toList = _
    rw [ih, toList_insert_of_not_mem hfresh, List.append_assoc, List.singleton_append]
    rwa [keys_insert_of_not_mem hfresh, List.append_assoc, List.singleton_append]

/-- A map is what its entries make. -/
theorem ofList_toList (m : EnvMap) : ofList m.toList = m :=
  toList_inj.1 (toList_insertAll m.nodup_keys)

/-- A map has all entries of a list, at any places, and otherwise those of another map. -/
structure Adds (rest : EnvMap) (added : List (String × String)) (given : EnvMap) : Prop where
  mem : ∀ e ∈ added, e ∈ given.toList
  rest : given.toList.filter (fun e => e.1 ∉ added.map Prod.fst) =
    rest.toList.filter (fun e => e.1 ∉ added.map Prod.fst)

namespace Adds

variable {rest given : EnvMap} {added : List (String × String)}

/-- A list adds entries to another one if it has them and agrees with it under all other names. -/
theorem ofList {es fs : List (String × String)} (hes : (es.map Prod.fst).Nodup)
    (hfs : (fs.map Prod.fst).Nodup) (hmem : ∀ e ∈ added, e ∈ fs)
    (hrest : fs.filter (fun e => e.1 ∉ added.map Prod.fst) =
      es.filter (fun e => e.1 ∉ added.map Prod.fst)) :
    Adds (.ofList es) added (.ofList fs) := by
  have hfs : (EnvMap.ofList fs).toList = fs := toList_insertAll hfs
  have hes : (EnvMap.ofList es).toList = es := toList_insertAll hes
  constructor
  · rwa [hfs]
  · rw [hfs, hes, hrest]

/-- Under the other names the maps have the same entries. -/
theorem mem_iff_mem_rest (hadds : Adds rest added given) {e : String × String}
    (hname : e.1 ∉ added.map Prod.fst) : e ∈ given.toList ↔ e ∈ rest.toList := by
  have hmem : e ∈ given.toList.filter (fun e => e.1 ∉ added.map Prod.fst) ↔
      e ∈ rest.toList.filter (fun e => e.1 ∉ added.map Prod.fst) := by
    rw [hadds.rest]
  rw [List.mem_filter, List.mem_filter] at hmem
  simpa only [decide_eq_true hname, and_true] using hmem

/-- Under other names the maps have the same texts. -/
theorem get?_of_not_mem (hadds : Adds rest added given) {name : String}
    (hname : name ∉ added.map Prod.fst) : given.get? name = rest.get? name := by
  apply Option.ext
  intro text
  rw [get?_eq_some_iff, get?_eq_some_iff]
  exact hadds.mem_iff_mem_rest hname

theorem get?_of_mem (hadds : Adds rest added given) {e : String × String} (hmem : e ∈ added) :
    given.get? e.1 = some e.2 :=
  get?_eq_some_iff.2 (hadds.mem e hmem)

theorem mem_keys_rest (hadds : Adds rest added given) {name : String}
    (hname : name ∉ added.map Prod.fst) (hmem : name ∈ given.keys) : name ∈ rest.keys := by
  rw [mem_keys_iff] at hmem ⊢
  rwa [← hadds.get?_of_not_mem hname]

/-- No name of the rest is gone. -/
theorem mem_keys_given (hadds : Adds rest added given) {name : String} (hmem : name ∈ rest.keys) :
    name ∈ given.keys := by
  by_cases hname : name ∈ added.map Prod.fst
  · obtain ⟨e, hadded, rfl⟩ := List.mem_map.1 hname
    exact List.mem_map_of_mem (hadds.mem e hadded)
  · rw [mem_keys_iff] at hmem ⊢
    rwa [hadds.get?_of_not_mem hname]

/-- An entry is one of the rest or an added one. -/
theorem mem_rest_or_mem (hadds : Adds rest added given) {e : String × String}
    (hmem : e ∈ given.toList) : e ∈ rest.toList ∨ e ∈ added := by
  by_cases hname : e.1 ∈ added.map Prod.fst
  · right
    obtain ⟨e', hmem', heq⟩ := List.mem_map.1 hname
    have hget := get?_eq_some_iff.2 hmem
    rw [← heq, hadds.get?_of_mem hmem', Option.some.injEq] at hget
    exact Prod.ext heq hget ▸ hmem'
  · exact .inl ((hadds.mem_iff_mem_rest hname).1 hmem)

end Adds

end EnvSettings.EnvMap
