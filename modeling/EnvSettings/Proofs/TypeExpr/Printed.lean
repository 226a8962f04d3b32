import Mathlib
import EnvSettings.Proofs.Dotenv.Opening
import EnvSettings.Proofs.Text.Bracket
import EnvSettings.Proofs.TypeExpr

namespace EnvSettings

namespace FieldType

/-- Whether a type needs neither a declaration nor other types. -/
def isSimple : FieldType → Bool
  | enum _ | list _ | set _ | map _ | tuple _ | nested _ | union _ => false
  | _ => true

/-- Whether a type is a union, which is not written as a member of another one. -/
def isUnion : FieldType → Bool
  | union _ => true
  | _ => false

/-- Types whose text says all of them, given the enums and schemas that may stand in it: tuples have
members, and unions at least two, none of which is a union. -/
inductive Expressible (enums : EnumSpec → Prop) (schemas : SchemaId → Prop) : FieldType → Prop
  | simple {type : FieldType} (hsimple : type.isSimple = true) : Expressible enums schemas type
  | enum {spec : EnumSpec} (hspec : enums spec) : Expressible enums schemas (.enum spec)
  | nested {id : SchemaId} (hid : schemas id) : Expressible enums schemas (.nested id)
  | list {item : FieldType} (hitem : Expressible enums schemas item) :
      Expressible enums schemas (.list item)
  | set {item : FieldType} (hitem : Expressible enums schemas item) :
      Expressible enums schemas (.set item)
  | map {value : FieldType} (hvalue : Expressible enums schemas value) :
      Expressible enums schemas (.map value)
  | tuple {members : List FieldType} (hne : members ≠ [])
      (hmembers : ∀ t ∈ members, Expressible enums schemas t) :
      Expressible enums schemas (.tuple members)
  | union {members : List FieldType} (htwo : 2 ≤ members.length)
      (hflat : ∀ t ∈ members, t.isUnion = false)
      (hmembers : ∀ t ∈ members, Expressible enums schemas t) :
      Expressible enums schemas (.union members)

/-- A type that can be written with some enums and schemas can be with more. -/
theorem Expressible.mono {enums enums' : EnumSpec → Prop} {schemas schemas' : SchemaId → Prop}
    {type : FieldType} (henums : ∀ spec, enums spec → enums' spec)
    (hschemas : ∀ id, schemas id → schemas' id) (htype : Expressible enums schemas type) :
    Expressible enums' schemas' type := by
  induction htype with
  | simple hsimple => exact .simple hsimple
  | enum hspec => exact .enum (henums _ hspec)
  | nested hid => exact .nested (hschemas _ hid)
  | list _ ih => exact .list ih
  | set _ ih => exact .set ih
  | map _ ih => exact .map ih
  | tuple hne _ ih => exact .tuple hne ih
  | union htwo hflat _ ih => exact .union htwo hflat ih

variable (nameOf : SchemaId → String)

theorem printAll_eq (types : List FieldType) :
    printAll nameOf types = types.map (print nameOf) := by
  induction types with
  | nil => rfl
  | cons type types ih => rw [printAll, ih, List.map_cons]

/-- The characters of the text of a type. -/
def chars (type : FieldType) : List Char :=
  (type.print nameOf).toList

/-- A list type is written as a head and its item between brackets. -/
theorem chars_list (item : FieldType) :
    (list item).chars nameOf = "list".toList ++ '[' :: (item.chars nameOf ++ [']']) := by
  simp [chars, print]

theorem chars_set (item : FieldType) :
    (set item).chars nameOf = "set".toList ++ '[' :: (item.chars nameOf ++ [']']) := by
  simp [chars, print]

/-- A map type is written with the key type that all maps have. -/
theorem chars_map (value : FieldType) :
    (map value).chars nameOf =
      "dict".toList ++ '[' :: (", ".toList.intercalate ["str".toList, value.chars nameOf] ++ [']'])
        := by
  simp [chars, print]

/-- A tuple is written as a head and its members between brackets. -/
theorem chars_tuple (members : List FieldType) :
    (tuple members).chars nameOf =
      "tuple".toList ++ '[' :: (", ".toList.intercalate (members.map (chars nameOf)) ++ [']']) := by
  have hmembers : (members.map (print nameOf)).map String.toList = members.map (chars nameOf) :=
    List.map_map
  simp [chars, print, printAll_eq, ← hmembers]

/-- A union is its members with bars between them. -/
theorem chars_union (members : List FieldType) :
    (union members).chars nameOf = " | ".toList.intercalate (members.map (chars nameOf)) := by
  rw [chars, print, String.toList_intercalate, printAll_eq, List.map_map]
  rfl

end FieldType

namespace TypeExpr

open Text (Uncut Tight Plain)

section Names

variable {name : String} {sep : Char}

/-- A character of names is no bracket and no separator. -/
theorem plain_of_isNameChar {c : Char} (hsep : Dotenv.isNameChar sep = false)
    (hc : Dotenv.isNameChar c = true) (depth : Nat) : Plain sep depth c := by
  refine ⟨?_, ?_, ?_⟩
  · rintro rfl
    exact absurd hc (by decide)
  · rintro rfl
    exact absurd hc (by decide)
  · rintro ⟨rfl, -⟩
    rw [hsep] at hc
    cases hc

theorem uncut_of_validName (hsep : Dotenv.isNameChar sep = false)
    (hname : Dotenv.validName name = true) (depth : Nat) : Uncut sep depth name.toList :=
  Text.uncut_of_plain fun _ hc =>
    plain_of_isNameChar hsep (Dotenv.isNameChar_of_mem_isName hname hc) depth

theorem tight_of_validName (hname : Dotenv.validName name = true) : Tight name.toList := by
  have hne : name.toList ≠ [] := by
    intro hnil
    rw [Dotenv.validName, hnil] at hname
    cases hname
  exact ⟨⟨_, List.head?_eq_some_head hne, Dotenv.isSpace_of_mem_isName hname (List.head_mem hne)⟩,
    ⟨_, List.getLast?_eq_some_getLast hne,
      Dotenv.isSpace_of_mem_isName hname (List.getLast_mem hne)⟩⟩

/-- A name without brackets is applied to nothing, with whatever blanks around it. -/
theorem parseChars_name {s : List Char} (hs : Text.trim s = name.toList)
    (hname : Dotenv.validName name = true) : parseChars s = applied parseChars name name [] := by
  have hbracket : Text.cutAt? '[' name.toList = none := by
    rw [Option.eq_none_iff_forall_ne_some]
    rintro ⟨before, after⟩ hcut
    obtain ⟨hshape, -⟩ := Text.cutAt?_eq_some_iff.1 hcut
    have hmem : '[' ∈ name.toList := by simp [hshape]
    exact absurd (Dotenv.isNameChar_of_mem_isName hname hmem) (by decide)
  have hsplit : Text.splitOutside '|' (Text.trim s) = some [name.toList] := by
    rw [hs]
    exact Text.splitOutside_uncut (uncut_of_validName rfl hname 0)
  rw [parseChars_whole hsplit, hs]
  simp only [single, hbracket, String.ofList_toList]

end Names

/-- A name that an expression can refer to: it has the form of one and means nothing else. -/
structure Referable (name : String) : Prop where
  form : Dotenv.validName name = true
  free : isBuiltin name = false

/-- A name that a type may be referred to by is not empty. -/
theorem Referable.ne_empty {name : String} (hname : Referable name) : name ≠ "" := by
  rintro rfl
  exact absurd hname.form (by decide)

/-- A name means nothing without a declaration if it is neither of the two kinds of words. -/
theorem isBuiltin_eq_false_iff {name : String} :
    isBuiltin name = false ↔
      Text.lower name ∉ genericWords ∧ builtinWords.lookup (Text.lower name) = none := by
  have hwords : builtinWords.any (·.1 == Text.lower name) = false ↔
      builtinWords.lookup (Text.lower name) = none := by
    rw [List.lookup_eq_none_iff, List.any_eq_false]
    exact forall₂_congr fun p _ => by rw [bne_iff_ne, beq_iff_eq, ne_comm]
  rw [isBuiltin, Bool.or_eq_false_iff, hwords, List.contains_eq_mem, decide_eq_false_iff_not]

/-- A word that is no builtin is a name, if nothing follows in brackets. -/
theorem applied_of_not_isBuiltin (read : List Char → TypeExpr) {name : String} (expr : String)
    (hfree : isBuiltin name = false) : applied read name expr [] = named name := by
  obtain ⟨hgeneric, hlookup⟩ := isBuiltin_eq_false_iff.1 hfree
  simp only [genericWords, List.mem_cons, List.not_mem_nil, or_false, not_or] at hgeneric
  simp [applied, word, hlookup, hgeneric]

/-- A name is read as a reference, with white space around it or without. -/
theorem Referable.parseChars {name : String} (hname : Referable name) {s : List Char}
    (hs : Text.trim s = name.toList) : parseChars s = named name := by
  rw [parseChars_name hs hname.form, applied_of_not_isBuiltin _ _ hname.free]

section Brackets

variable {head : String} {inner : List Char} {sep : Char} {depth : Nat}

/-- What stands in brackets behind a head is not cut where its inner text is not cut one level
deeper. -/
theorem uncut_bracket (hsep : Dotenv.isNameChar sep = false) (hhead : Dotenv.validName head = true)
    (hinner : Uncut sep (depth + 1) inner) :
    Uncut sep depth (head.toList ++ '[' :: (inner ++ [']'])) :=
  (uncut_of_validName hsep hhead depth).append hinner.bracket

/-- A head with brackets has no white space at its ends. -/
theorem tight_bracket (hhead : Dotenv.validName head = true) (inner : List Char) :
    Tight (head.toList ++ '[' :: (inner ++ [']'])) := by
  have hclose : Tight [']'] := ⟨⟨_, rfl, by decide⟩, _, rfl, by decide⟩
  have htight := (tight_of_validName hhead).append ('[' :: inner) hclose
  rwa [List.append_assoc, List.cons_append] at htight

/-- A name in front of brackets is applied to what stands between the commas in them. -/
theorem parseChars_bracket {args : List (List Char)} (hhead : Dotenv.validName head = true)
    (hinner : Uncut '|' 1 inner) (hargs : Text.splitOutside ',' inner = some args) :
    parseChars (head.toList ++ '[' :: (inner ++ [']'])) =
      applied parseChars head (String.ofList (head.toList ++ '[' :: (inner ++ [']']))) args := by
  have htrim := (tight_bracket hhead inner).trim_eq
  have hsplit := Text.splitOutside_uncut (uncut_bracket (by decide) hhead hinner)
  have hopen : '[' ∉ head.toList := fun hmem =>
    absurd (Dotenv.isNameChar_of_mem_isName hhead hmem) (by decide)
  rw [parseChars_whole (by rw [htrim, hsplit]), htrim, single_bracket hopen hargs,
    (tight_of_validName hhead).trim_eq, String.ofList_toList]

end Brackets

section Printed

variable {nameOf : SchemaId → String} {type item : FieldType} {members : List FieldType}

/-- Types whose enums and schemas have names that an expression can refer to. -/
abbrev Printable (nameOf : SchemaId → String) : FieldType → Prop :=
  FieldType.Expressible (fun spec => Referable spec.name) fun id => Referable (nameOf id)

theorem validName_print (hsimple : type.isSimple = true) :
    Dotenv.validName (type.print nameOf) = true := by
  cases type <;> first
    | exact absurd hsimple Bool.false_ne_true
    | rw [FieldType.print]; rfl

theorem uncut_comma (sep : Char) (depth : Nat) : Uncut sep (depth + 1) ", ".toList :=
  Text.uncut_of_plain fun c hc => by
    have hc : c = ',' ∨ c = ' ' := by simpa using hc
    refine ⟨?_, ?_, fun h => Nat.succ_ne_zero depth h.2⟩ <;> rcases hc with rfl | rfl <;> decide

/-- The text of a type is not cut, except for that of a union at the bars between its members. -/
theorem uncut_chars {sep : Char} (hsep : sep = '|' ∨ sep = ',') (htype : Printable nameOf type) :
    ∀ depth, (sep = '|' → depth = 0 → type.isUnion = false) →
      Uncut sep depth (type.chars nameOf) := by
  have hname : Dotenv.isNameChar sep = false := by
    rcases hsep with rfl | rfl <;> decide
  induction htype with
  | simple hsimple => exact fun depth _ => uncut_of_validName hname (validName_print hsimple) depth
  | enum hspec => exact fun depth _ => uncut_of_validName hname hspec.form depth
  | nested hid => exact fun depth _ => uncut_of_validName hname hid.form depth
  | list _ ih =>
    intro depth _
    rw [FieldType.chars_list]
    exact uncut_bracket hname rfl (ih (depth + 1) nofun)
  | set _ ih =>
    intro depth _
    rw [FieldType.chars_set]
    exact uncut_bracket hname rfl (ih (depth + 1) nofun)
  | map _ ih =>
    intro depth _
    rw [FieldType.chars_map]
    refine uncut_bracket hname rfl ((uncut_comma sep depth).intercalate ?_)
    refine List.forall_mem_cons.2 ⟨?_, ?_⟩
    · exact uncut_of_validName hname rfl (depth + 1)
    · exact List.forall_mem_singleton.2 (ih (depth + 1) nofun)
  | tuple _ _ ih =>
    intro depth _
    rw [FieldType.chars_tuple]
    refine uncut_bracket hname rfl ((uncut_comma sep depth).intercalate (List.forall_mem_map.2 ?_))
    exact fun t ht => ih t ht (depth + 1) nofun
  | union _ hflat _ ih =>
    intro depth hunion
    rw [FieldType.chars_union]
    refine Uncut.intercalate ?_ (List.forall_mem_map.2 fun t ht => ?_)
    swap
    · exact ih t ht depth fun _ _ => hflat t ht
    refine Text.uncut_of_plain fun c hc => ?_
    have hc : c = ' ' ∨ c = '|' := by
      simpa [or_comm, or_assoc] using hc
    refine ⟨?_, ?_, ?_⟩
    · rcases hc with rfl | rfl <;> decide
    · rcases hc with rfl | rfl <;> decide
    · rintro ⟨rfl, hdepth⟩
      rcases hsep with rfl | rfl
      · cases hunion rfl hdepth
      · exact absurd hc (by decide)

/-- A type is written without white space at its ends. -/
theorem tight_chars (htype : Printable nameOf type) : Tight (type.chars nameOf) := by
  induction htype with
  | simple hsimple => exact tight_of_validName (validName_print hsimple)
  | enum hspec => exact tight_of_validName hspec.form
  | nested hid => exact tight_of_validName hid.form
  | list => exact FieldType.chars_list nameOf _ ▸ tight_bracket rfl _
  | set => exact FieldType.chars_set nameOf _ ▸ tight_bracket rfl _
  | map => exact FieldType.chars_map nameOf _ ▸ tight_bracket rfl _
  | tuple => exact FieldType.chars_tuple nameOf _ ▸ tight_bracket rfl _
  | @union members htwo _ _ ih =>
    rw [FieldType.chars_union]
    refine Tight.intercalate ?_ (List.forall_mem_map.2 ih)
    rintro hnil
    rw [List.map_eq_nil_iff.1 hnil] at htwo
    cases htwo

/-- A builtin without parts is read from its word. -/
theorem parseChars_simple (hsimple : type.isSimple = true) :
    parseChars (type.chars nameOf) = builtin type := by
  rw [FieldType.chars, parseChars_name (tight_of_validName (validName_print hsimple)).trim_eq
    (validName_print hsimple)]
  cases type <;> first
    | exact absurd hsimple Bool.false_ne_true
    | rw [FieldType.print]; rfl

theorem parseChars_list (hitem : Printable nameOf item) :
    parseChars ((FieldType.list item).chars nameOf) = list (parseChars (item.chars nameOf)) := by
  have hargs := Text.splitOutside_uncut (uncut_chars (.inr rfl) hitem 0 nofun)
  rw [FieldType.chars_list, parseChars_bracket rfl (uncut_chars (.inl rfl) hitem 1 nofun) hargs]
  rfl

theorem parseChars_set (hitem : Printable nameOf item) :
    parseChars ((FieldType.set item).chars nameOf) = set (parseChars (item.chars nameOf)) := by
  have hargs := Text.splitOutside_uncut (uncut_chars (.inr rfl) hitem 0 nofun)
  rw [FieldType.chars_set, parseChars_bracket rfl (uncut_chars (.inl rfl) hitem 1 nofun) hargs]
  rfl

/-- White space around the parts of a type does not matter. -/
theorem map_parseChars_congr {parts parts' : List (List Char)}
    (htrim : parts.map Text.trim = parts'.map Text.trim) :
    parts.map parseChars = parts'.map parseChars := by
  have hmap (parts : List (List Char)) : parts.map parseChars =
      (parts.map Text.trim).map fun s => parseWithin (s.length + 1) s := by
    rw [List.map_map]
    rfl
  rw [hmap, hmap, htrim]

/-- Arguments that are printed after each other are told apart. -/
theorem parseChars_args (head : String) {args : List (List Char)}
    (hhead : Dotenv.validName head = true) (hne : args ≠ [])
    (hargs : ∀ arg ∈ args, Uncut ',' 0 arg ∧ Uncut '|' 1 arg) :
    ∃ expr padded, padded.map Text.trim = args.map Text.trim ∧
      parseChars (head.toList ++ '[' :: (", ".toList.intercalate args ++ [']'])) =
        applied parseChars head expr padded := by
  have hblank : Uncut ',' 0 [' '] :=
    Text.uncut_of_plain (List.forall_mem_singleton.2 (by unfold Plain; decide))
  obtain ⟨padded, hsplit, htrim⟩ := Text.exists_splitOutside_intercalate (by decide)
    ⟨Text.uncut_nil ',' 0, Text.blank_nil⟩ ⟨hblank, by decide⟩ hne
    fun arg harg => (hargs arg harg).1
  have hinner := (uncut_comma '|' 0).intercalate fun arg harg => (hargs arg harg).2
  exact ⟨_, padded, htrim, parseChars_bracket hhead hinner hsplit⟩

/-- No comma of a type stands outside of brackets, and no bar of it outside of brackets once it is
an argument. -/
theorem uncut_arg (htype : Printable nameOf type) :
    Uncut ',' 0 (type.chars nameOf) ∧ Uncut '|' 1 (type.chars nameOf) :=
  ⟨uncut_chars (.inr rfl) htype 0 nofun, uncut_chars (.inl rfl) htype 1 nofun⟩

theorem parseChars_map (hitem : Printable nameOf item) :
    parseChars ((FieldType.map item).chars nameOf) = map (parseChars (item.chars nameOf)) := by
  have hstr : Dotenv.validName "str" = true := rfl
  have hkey : Uncut ',' 0 "str".toList ∧ Uncut '|' 1 "str".toList :=
    ⟨uncut_of_validName rfl hstr 0, uncut_of_validName rfl hstr 1⟩
  have hargs : ∀ arg ∈ ["str".toList, item.chars nameOf], Uncut ',' 0 arg ∧ Uncut '|' 1 arg :=
    List.forall_mem_cons.2 ⟨hkey, List.forall_mem_singleton.2 (uncut_arg hitem)⟩
  obtain ⟨expr, padded, htrim, hparse⟩ :=
    parseChars_args "dict" rfl (List.cons_ne_nil _ _) hargs
  obtain ⟨key, value, rfl⟩ :=
    List.length_eq_two.1 ((List.length_map Text.trim).symm.trans (congrArg List.length htrim))
  simp only [List.map_cons, List.map_nil, List.cons.injEq, and_true] at htrim
  obtain ⟨hkey, hvalue⟩ := htrim
  rw [FieldType.chars_map, hparse, ← parseChars_congr hvalue]
  exact if_pos (hkey.trans (tight_of_validName hstr).trim_eq)

/-- A tuple is read from its brackets, member by member. -/
theorem parseChars_tuple (hne : members ≠ []) (hmembers : ∀ t ∈ members, Printable nameOf t) :
    parseChars ((FieldType.tuple members).chars nameOf) =
      tuple (members.map fun t => parseChars (t.chars nameOf)) := by
  obtain ⟨expr, padded, htrim, hparse⟩ := parseChars_args "tuple" rfl
    (mt List.map_eq_nil_iff.1 hne) (List.forall_mem_map.2 fun t ht => uncut_arg (hmembers t ht))
  have hpadded : padded.isEmpty = false := by
    rw [List.isEmpty_eq_false_iff]
    rintro rfl
    exact hne (List.map_eq_nil_iff.1 (List.map_eq_nil_iff.1 htrim.symm))
  rw [FieldType.chars_tuple, hparse, ← Function.comp_def parseChars, ← List.map_map,
    ← map_parseChars_congr htrim]
  exact if_neg (ne_true_of_eq_false hpadded)

/-- A union of two members or more, none of them a union itself, is read member by member. -/
theorem parseChars_union (htwo : 2 ≤ members.length) (hflat : ∀ t ∈ members, t.isUnion = false)
    (hmembers : ∀ t ∈ members, Printable nameOf t) :
    parseChars ((FieldType.union members).chars nameOf) =
      union (members.map fun t => parseChars (t.chars nameOf)) := by
  have hne : members ≠ [] := List.ne_nil_of_length_pos (Nat.lt_of_lt_of_le Nat.zero_lt_two htwo)
  have hblank : Uncut '|' 0 [' '] :=
    Text.uncut_of_plain (List.forall_mem_singleton.2 (by unfold Plain; decide))
  have huncut : ∀ part ∈ members.map (FieldType.chars nameOf), Uncut '|' 0 part :=
    List.forall_mem_map.2 fun t ht => uncut_chars (.inl rfl) (hmembers t ht) 0 fun _ _ => hflat t ht
  obtain ⟨padded, hsplit, htrim⟩ := Text.exists_splitOutside_intercalate (by decide)
    ⟨hblank, by decide⟩ ⟨hblank, by decide⟩ (mt List.map_eq_nil_iff.1 hne) huncut
  have htight := tight_chars (.union htwo hflat hmembers)
  have hlength : padded.length = members.length := by
    simpa using congrArg List.length htrim
  rw [FieldType.chars_union] at htight ⊢
  rw [parseChars_members (by rw [htight.trim_eq]; exact hsplit) (hlength ▸ htwo),
    map_parseChars_congr htrim, List.map_map]
  rfl

end Printed

end TypeExpr

end EnvSettings
