import Mathlib
import EnvSettings.Document.Reader
import EnvSettings.Proofs.Document.RoundTrip
import EnvSettings.Proofs.Schema.WellFormed

namespace EnvSettings

namespace FieldType

/-- The types that a type is made of. -/
def parts : FieldType → List FieldType
  | list t | set t | map t => [t]
  | tuple ts | union ts => ts
  | _ => []

/-- The type that stands at a path of positions in a type. -/
def at? (t : FieldType) : List Nat → Option FieldType
  | [] => some t
  | i :: path => (t.parts[i]?).bind (·.at? path)

end FieldType

namespace TypeExpr

/-- A text stands in an expression: as a member of a union, as an argument, or as the type of the
values of a map, whose keys have no type. -/
inductive PartAt (s : List Char) : Nat → List Char → Prop
  | member {members : List (List Char)} {i : Nat} {part : List Char}
      (hmembers : Text.splitOutside '|' s = some members) (htwo : 2 ≤ members.length)
      (hpart : members[i]? = some part) : PartAt s i part
  | argument {whole head inner part : List Char} {args : List (List Char)} {i : Nat}
      (hwhole : Text.splitOutside '|' s = some [whole]) (hhead : '[' ∉ head)
      (hs : s = head ++ '[' :: (inner ++ [']'])) (hargs : Text.splitOutside ',' inner = some args)
      (hform : Text.lower (String.ofList (Text.trim head)) ∉ ["dict", "map"])
      (hpart : args[i]? = some part) : PartAt s i part
  | value {whole head inner part : List Char} {args : List (List Char)}
      (hwhole : Text.splitOutside '|' s = some [whole]) (hhead : '[' ∉ head)
      (hs : s = head ++ '[' :: (inner ++ [']'])) (hargs : Text.splitOutside ',' inner = some args)
      (hform : Text.lower (String.ofList (Text.trim head)) ∈ ["dict", "map"])
      (hpart : args.getLast? = some part) : PartAt s 0 part

/-- A text stands at a path of positions in an expression, up to white space around it. -/
inductive Stands : List Char → List Nat → List Char → Prop
  | alone {s q : List Char} (htrim : Text.trim s = Text.trim q) : Stands s [] q
  | within {s part q : List Char} {i : Nat} {path : List Nat} (hpart : PartAt (Text.trim s) i part)
      (hstands : Stands part path q) : Stands s (i :: path) q

end TypeExpr

namespace Document

open Build (Gives)
open TypeExpr (PartAt Stands)

section Parts

variable {enum? : String → Option EnumSpec} {refer : String → Build SchemaId} {t : FieldType}
  {read : List Char → TypeExpr} {head expr : String} {args : List (List Char)} {part : List Char}
  {i : Nat}

/-- What is made of one type has this type as its only part that is read. -/
theorem gives_withOne {form : TypeExpr → TypeExpr} {make : FieldType → FieldType}
    (hform : ∀ e, typeOf enum? refer (form e) = make <$> typeOf enum? refer e)
    (hmake : ∀ u, (make u).parts[0]? = some u)
    (hgives : Gives (typeOf enum? refer (TypeExpr.withOne form head expr (args.map read))) t)
    (hpart : args[i]? = some part) :
    ∃ u, t.parts[i]? = some u ∧ Gives (typeOf enum? refer (read part)) u := by
  match args, hpart with
  | [arg], hpart =>
    obtain ⟨rfl, rfl⟩ : i = 0 ∧ arg = part := by
      cases i with
      | zero => exact ⟨rfl, Option.some.inj hpart⟩
      | succ i => cases hpart
    rw [List.map_singleton, TypeExpr.withOne, hform] at hgives
    obtain ⟨u, hu, rfl⟩ := hgives.map
    exact ⟨u, hmake u, hu⟩
  | _ :: _ :: _, _ => exact absurd hgives Gives.not_faulty

/-- An argument of a generic type gives the part of the type at its place. -/
theorem gives_applied (hform : Text.lower head ∉ ["dict", "map"])
    (hgives : Gives (typeOf enum? refer (TypeExpr.applied read head expr args)) t)
    (hpart : args[i]? = some part) :
    ∃ u, t.parts[i]? = some u ∧ Gives (typeOf enum? refer (read part)) u := by
  have hargs : args.isEmpty = false := by
    rw [List.isEmpty_eq_false_iff]
    rintro rfl
    cases hpart
  unfold TypeExpr.applied at hgives
  simp only [hargs, Bool.false_eq_true, if_false] at hgives
  split_ifs at hgives with hlist hset hoptional hmap htuple
  · exact gives_withOne (fun _ => by rw [typeOf]) (fun _ => rfl) hgives hpart
  · exact gives_withOne (fun _ => by rw [typeOf]) (fun _ => rfl) hgives hpart
  · exact gives_withOne (fun _ => by rw [typeOf]) (fun _ => rfl) hgives hpart
  · exact absurd (by simpa using hmap) hform
  · rw [typeOf] at hgives
    obtain ⟨us, hus, rfl⟩ := hgives.map
    exact hus.typesOf_getElem? (by rw [List.getElem?_map, hpart, Option.map_some])
  · exact absurd hgives Gives.not_faulty

/-- The last argument of a map gives the type of its values. -/
theorem gives_mapOf (hform : Text.lower head ∈ ["dict", "map"])
    (hgives : Gives (typeOf enum? refer (TypeExpr.applied read head expr args)) t)
    (hpart : args.getLast? = some part) :
    ∃ u, t.parts[0]? = some u ∧ Gives (typeOf enum? refer (read part)) u := by
  have happlied : TypeExpr.applied read head expr args = TypeExpr.mapOf head expr read args := by
    have hform : Text.lower head = "dict" ∨ Text.lower head = "map" := by simpa using hform
    unfold TypeExpr.applied
    rcases hform with hform | hform <;> simp [hform]
  have hvalue (hgives : Gives (typeOf enum? refer (.map (read part))) t) :
      ∃ u, t.parts[0]? = some u ∧ Gives (typeOf enum? refer (read part)) u := by
    rw [typeOf] at hgives
    obtain ⟨u, hu, rfl⟩ := hgives.map
    exact ⟨u, rfl, hu⟩
  rw [happlied] at hgives
  match args, hpart with
  | [value], hpart =>
    obtain rfl := Option.some.inj hpart
    exact hvalue hgives
  | [key, value], hpart =>
    obtain rfl := Option.some.inj hpart
    rw [TypeExpr.mapOf] at hgives
    split_ifs at hgives
    · exact hvalue hgives
    · exact absurd hgives Gives.not_faulty
  | _ :: _ :: _ :: _, _ => exact absurd hgives Gives.not_faulty

/-- What is in front of brackets is applied to what stands in them. -/
theorem parseChars_applied {s whole inner : List Char} {before : List Char}
    (hwhole : Text.splitOutside '|' (Text.trim s) = some [whole]) (hbefore : '[' ∉ before)
    (hs : Text.trim s = before ++ '[' :: (inner ++ [']']))
    (hargs : Text.splitOutside ',' inner = some args) :
    TypeExpr.parseChars s = TypeExpr.applied TypeExpr.parseChars
      (String.ofList (Text.trim before)) (String.ofList (Text.trim s)) args := by
  rw [TypeExpr.parseChars_whole hwhole, hs, TypeExpr.single_bracket hbefore hargs]

/-- A part of an expression gives the part of the type at its position. -/
theorem gives_part {s : List Char} (hpart : PartAt (Text.trim s) i part)
    (hgives : Gives (typeOf enum? refer (TypeExpr.parseChars s)) t) :
    ∃ u, t.parts[i]? = some u ∧ Gives (typeOf enum? refer (TypeExpr.parseChars part)) u := by
  cases hpart with
  | member hmembers htwo hpart =>
    rw [TypeExpr.parseChars_members hmembers htwo, typeOf] at hgives
    obtain ⟨us, hus, rfl⟩ := hgives.map
    exact hus.typesOf_getElem? (by rw [List.getElem?_map, hpart, Option.map_some])
  | argument hwhole hhead hs hargs hform hpart =>
    rw [parseChars_applied hwhole hhead hs hargs] at hgives
    exact gives_applied hform hgives hpart
  | value hwhole hhead hs hargs hform hpart =>
    rw [parseChars_applied hwhole hhead hs hargs] at hgives
    exact gives_mapOf hform hgives hpart

/-- A text that stands in a type expression gives the part of the type that stands there. -/
theorem gives_stands {s q : List Char} {path : List Nat} (hstands : Stands s path q)
    (hgives : Gives (typeOf enum? refer (TypeExpr.parseChars s)) t) :
    ∃ u, t.at? path = some u ∧ Gives (typeOf enum? refer (TypeExpr.parseChars q)) u := by
  induction hstands generalizing t with
  | alone htrim => exact ⟨t, rfl, TypeExpr.parseChars_congr htrim ▸ hgives⟩
  | within hpart _ ih =>
    obtain ⟨u, hu, hgives⟩ := gives_part hpart hgives
    obtain ⟨v, hv, hgives⟩ := ih hgives
    exact ⟨v, by rw [FieldType.at?, hu, Option.bind_some, hv], hgives⟩

end Parts

section Words

variable {enum? : String → Option EnumSpec} {refer : String → Build SchemaId} {t : FieldType}

/-- Without arguments only a word gives a type that does not ask for any. -/
theorem gives_word {read : List Char → TypeExpr} {head expr : String}
    (hgives : Gives (typeOf enum? refer (TypeExpr.applied read head expr [])) t) :
    Text.lower head ∉ TypeExpr.genericWords ∧
      Gives (typeOf enum? refer (TypeExpr.word head)) t := by
  unfold TypeExpr.applied at hgives
  simp only [List.isEmpty_nil, if_true] at hgives
  split_ifs at hgives with hlist hset hoptional hmap htuple
  iterate 5 exact absurd hgives Gives.not_faulty
  refine ⟨?_, hgives⟩
  simp only [TypeExpr.genericWords, List.mem_cons, List.not_mem_nil, or_false]
  tauto

end Words

namespace Declarations

variable {d : Declarations} {visit : String → Build Schema} {name : String} {t : FieldType}

/-- What a name alone is read as. -/
def meaning (d : Declarations) (name : String) : FieldType :=
  match TypeExpr.builtinWords.lookup (Text.lower name) with
  | some type => type
  | none =>
    match d.enum? name with
    | some spec => .enum spec
    | none => .nested (d.idOf name)

/-- A name gives what is declared under it, unless it is a generic word. -/
theorem gives_name (hname : Dotenv.validName name = true)
    (hgives : Gives (typeOf d.enum? (d.refer visit) (TypeExpr.parseChars name.toList)) t) :
    Text.lower name ∉ TypeExpr.genericWords ∧ t = d.meaning name := by
  rw [TypeExpr.parseChars_name (TypeExpr.tight_of_validName hname).trim_eq hname] at hgives
  obtain ⟨hgeneric, hgives⟩ := gives_word hgives
  refine ⟨hgeneric, ?_⟩
  unfold TypeExpr.word at hgives
  unfold meaning
  cases hlookup : TypeExpr.builtinWords.lookup (Text.lower name) with
  | some type =>
    rw [hlookup] at hgives
    dsimp only at hgives
    rw [typeOf] at hgives
    exact hgives.pure
  | none =>
    rw [hlookup] at hgives
    obtain ⟨spec, henum, rfl⟩ | ⟨henum, id, hid, rfl⟩ := hgives.named
    · rw [henum]
    · obtain ⟨s, -, rfl⟩ := hid.map
      rw [henum]

/-- A declared schema is what its name means. -/
theorem meaning_of_mem_names (hd : d.Proper) (hname : name ∈ d.names) :
    d.meaning name = .nested (d.idOf name) := by
  obtain ⟨-, hlookup⟩ := TypeExpr.isBuiltin_eq_false_iff.1 (hd.not_isBuiltin hname)
  unfold meaning
  rw [hlookup, hd.enum?_eq_none name hname]

/-- A declared enum is what its name means, unless the name is a word for another type. -/
theorem meaning_enum_iff (hd : d.Proper) {spec : EnumSpec} (hspec : spec ∈ d.enums)
    (hgeneric : Text.lower spec.name ∉ TypeExpr.genericWords) :
    d.meaning spec.name = .enum spec ↔ TypeExpr.isBuiltin spec.name = false := by
  rw [TypeExpr.isBuiltin_eq_false_iff, and_iff_right hgeneric]
  unfold meaning
  cases hlookup : TypeExpr.builtinWords.lookup (Text.lower spec.name) with
  | none => rw [hd.enum?_eq_some hspec, eq_self, eq_self]
  | some type =>
    have hsimple : ∀ p ∈ TypeExpr.builtinWords, p.2.isSimple = true := by decide
    have htype := hsimple _ (Entries.mem_of_lookup hlookup)
    refine iff_of_false ?_ nofun
    rintro rfl
    cases htype

/-- A word for a type without a declaration means this type. -/
theorem lookup_builtinWords_of_isBuiltin (d : Declarations)
    (hgeneric : Text.lower name ∉ TypeExpr.genericWords)
    (hbuiltin : TypeExpr.isBuiltin name = true) :
    TypeExpr.builtinWords.lookup (Text.lower name) = some (d.meaning name) := by
  unfold meaning
  cases hlookup : TypeExpr.builtinWords.lookup (Text.lower name) with
  | none =>
    rw [TypeExpr.isBuiltin_eq_false_iff.2 ⟨hgeneric, hlookup⟩] at hbuiltin
    cases hbuiltin
  | some type => rfl

theorem declared_foldl_withField (fields : List FieldDecl) (b : SchemaBuilder) :
    (fields.foldl SchemaBuilder.withField b).declared = b.declared ++ fields := by
  induction fields generalizing b with
  | nil => rw [List.foldl_nil, List.append_nil]
  | cons f fields ih =>
    rw [List.foldl_cons, ih, SchemaBuilder.withField, List.append_assoc, List.singleton_append]

/-- Every field that is declared is one of the schema, with its type. -/
theorem exists_field_of_complete {outline : SchemaOutline} {b : SchemaBuilder} {s : Schema}
    {fields : List FieldDecl} (hcomplete : d.complete outline b fields = .ok s) :
    ∀ f ∈ fields, ∃ field ∈ s.fields, field.name = f.name ∧ field.type = f.type := by
  intro f hf
  refine SchemaBuilder.exists_field_of_build hcomplete f ?_
  rw [declared_foldl_withField]
  exact List.mem_append_right _ hf

/-- The fields of a schema have the types that their expressions give. -/
theorem Means.exists_field {s : Schema} (hmeans : d.Means name s) {outline : SchemaOutline}
    (houtline : d.schema? name = some outline) {f : FieldOutline} (hf : f ∈ outline.fields) :
    ∃ field ∈ s.fields, field.name = f.name ∧
      ∃ visit, Gives (d.readType visit f.type) field.type := by
  obtain @⟨_, outline', known, _, houtline', -, hassemble⟩ := hmeans
  obtain rfl := Option.some.inj (houtline.symm.trans houtline')
  have hgives : Gives (d.assemble (consult known) outline) s := ⟨[], [], hassemble⟩
  rw [assemble_eq] at hgives
  obtain ⟨b, -, hgives⟩ := hgives.bind
  obtain ⟨fields, hfields, hcomplete⟩ := hgives.bind
  obtain ⟨decl, hdecl, hgives⟩ := hfields.mapM f hf
  rw [field_eq] at hgives
  obtain ⟨type, htype, hpure⟩ := hgives.bind
  obtain rfl := hpure.pure
  obtain ⟨field, hfield, hname, htype'⟩ := exists_field_of_complete hcomplete.lift _ hdecl
  exact ⟨field, hfield, hname, consult known, htype' ▸ htype.atField⟩

end Declarations

variable {outline? : String → Option Outline} {text : String} {document : Document}

/-- A document that is read is built from the declarations of its outline. -/
theorem exists_of_parse (hparse : Document.parse outline? text = .ok document) :
    ∃ o d built, outline? text = some o ∧ o.declare = .ok d ∧
      d.buildAll d.names = .ok built ∧ document = ofBuilt d built := by
  unfold Document.parse at hparse
  cases hread : outline? text with
  | none =>
    rw [hread] at hparse
    cases hparse
  | some o =>
    rw [hread] at hparse
    dsimp only at hparse
    obtain ⟨d, hdeclare, hparse⟩ := bind_eq_ok_iff.1 hparse
    obtain ⟨built, hbuild, hpure⟩ := bind_eq_ok_iff.1 hparse
    exact ⟨o, d, built, rfl, mapError_eq_ok_iff.1 hdeclare, hbuild, (Except.ok.inj hpure).symm⟩

theorem schema_ofBuilt {d : Declarations} {built : Built} {name : String} {s : Schema}
    (hname : name ∈ d.names) (hlookup : built.lookup name = some s) :
    (ofBuilt d built).catalog.schema (d.idOf name) = s := by
  have hid : d.names[d.idOf name]? = some name := List.getElem?_idxOf hname
  simp [ofBuilt, Catalog.schema, hid, hlookup]

/-- A name that stands anywhere in the type of a field means the same as alone. -/
theorem exists_meaning_of_parse (hparse : Document.parse outline? text = .ok document) :
    ∃ o d, outline? text = some o ∧ o.declare = .ok d ∧
      ∀ s ∈ d.schemas, ∀ f ∈ s.fields,
        ∃ field ∈ (document.catalog.schema (d.idOf s.name)).fields, field.name = f.name ∧
          ∀ path name, Dotenv.validName name = true → Stands f.type.toList path name.toList →
            Text.lower name ∉ TypeExpr.genericWords ∧
              field.type.at? path = some (d.meaning name) := by
  obtain ⟨o, d, built, hread, hdeclare, hbuild, rfl⟩ := exists_of_parse hparse
  have hd := (Declarations.proper_of_declare hdeclare).1
  obtain ⟨hsound, hlookup⟩ := Declarations.sound_of_buildAll hbuild
  refine ⟨o, d, hread, hdeclare, fun s hs f hf => ?_⟩
  have hname : s.name ∈ d.names := List.mem_map_of_mem hs
  obtain ⟨schema, hschema⟩ := hlookup s.name hname
  obtain ⟨field, hfield, hfieldName, visit, hgives⟩ :=
    (hsound _ _ hschema).exists_field (hd.schema?_eq_some hs) hf
  refine ⟨field, by rwa [schema_ofBuilt hname hschema], hfieldName, ?_⟩
  intro path name hvalid hstands
  rw [Declarations.readType, TypeExpr.parse_eq] at hgives
  obtain ⟨t, ht, hgives⟩ := gives_stands hstands hgives
  obtain ⟨hgeneric, rfl⟩ := Declarations.gives_name hvalid hgives
  exact ⟨hgeneric, ht⟩

/-- However texts are read into outlines: in a document that is accepted, a name that stands
anywhere in the type of a field is read as what is declared under it. For schemas this is so for
every name; for enums it is so exactly for the names that are not words for types without a
declaration in any letter case, which are read as these types. -/
theorem parse_declared_iff (hparse : Document.parse outline? text = .ok document) :
    ∃ o d, outline? text = some o ∧ o.declare = .ok d ∧
      ∀ s ∈ d.schemas, ∀ f ∈ s.fields,
        ∃ field ∈ (document.catalog.schema (d.idOf s.name)).fields, field.name = f.name ∧
          ∀ path name, Dotenv.validName name = true → Stands f.type.toList path name.toList →
            ∃ t, field.type.at? path = some t ∧
              (name ∈ d.names → t = .nested (d.idOf name)) ∧
              (∀ spec ∈ d.enums, spec.name = name →
                (t = .enum spec ↔ TypeExpr.isBuiltin name = false)) ∧
              (TypeExpr.isBuiltin name = true →
                TypeExpr.builtinWords.lookup (Text.lower name) = some t) := by
  obtain ⟨o, d, hread, hdeclare, hfields⟩ := exists_meaning_of_parse hparse
  have hd := (Declarations.proper_of_declare hdeclare).1
  refine ⟨o, d, hread, hdeclare, fun s hs f hf => ?_⟩
  obtain ⟨field, hfield, hname, hmeaning⟩ := hfields s hs f hf
  refine ⟨field, hfield, hname, fun path name hvalid hstands => ?_⟩
  obtain ⟨hgeneric, ht⟩ := hmeaning path name hvalid hstands
  refine ⟨d.meaning name, ht, Declarations.meaning_of_mem_names hd, ?_,
    d.lookup_builtinWords_of_isBuiltin hgeneric⟩
  rintro spec hspec rfl
  exact Declarations.meaning_enum_iff hd hspec hgeneric

/-- An enum with a name of its own. -/
def season : EnumSpec := ⟨"Season", [("spring", "spring")]⟩

/-- An enum that is named like a type without a declaration. -/
def date : EnumSpec := ⟨"Date", [("early", "early")]⟩

/-- A document with two enums, one of them named like a builtin type. -/
def planText : String :=
  "enums:\n- name: Season\n  members: [spring]\n- name: Date\n  members: [early]\n" ++
    "schemas:\n- name: Plan\n  fields:\n  - name: start\n    type: list[Season]\n" ++
    "  - name: due\n    type: optional[Date]\n"

/-- The document is accepted. -/
theorem exists_parse_planText :
    ∃ document, Document.parse Outline.parse? planText = .ok document := by
  have hok : (Document.parse Outline.parse? planText).isOk = true := by decide +kernel
  cases hparse : Document.parse Outline.parse? planText with
  | error e =>
    rw [hparse] at hok
    cases hok
  | ok document => exact ⟨document, rfl⟩

theorem outline_planText {o : Outline} (hread : Outline.parse? planText = some o) :
    o.enums = [season, date] ∧ ∃ s start due, o.schemas = [s] ∧ s.fields = [start, due] ∧
      (start.name, start.type) = ("start", "list[Season]") ∧
      (due.name, due.type) = ("due", "optional[Date]") := by
  have houtline : (Outline.parse? planText).map (fun o =>
      (o.enums, o.schemas.map fun s => s.fields.map fun f => (f.name, f.type))) =
        some ([season, date], [[("start", "list[Season]"), ("due", "optional[Date]")]]) := by
    decide +kernel
  rw [hread, Option.map_some, Option.some.injEq, Prod.mk.injEq,
    List.map_eq_singleton_iff] at houtline
  obtain ⟨henums, s, hschemas, hfields⟩ := houtline
  obtain ⟨start, rest, hrest, hstart, hmap⟩ := List.map_eq_cons_iff.1 hfields
  obtain ⟨due, rfl, hdue⟩ := List.map_eq_singleton_iff.1 hmap
  exact ⟨henums, s, start, due, hschemas, hrest, hstart, hdue⟩

/-- A name can be the only argument. -/
theorem stands_argument (head name : String) (hhead : Dotenv.validName head = true)
    (hname : Dotenv.validName name = true) (hform : Text.lower head ∉ ["dict", "map"]) :
    Stands (head.toList ++ '[' :: (name.toList ++ [']'])) [0] name.toList := by
  have hopen : '[' ∉ head.toList := fun hmem =>
    absurd (Dotenv.isNameChar_of_mem_isName hhead hmem) (by decide)
  have huncut {sep : Char} (hsep : Dotenv.isNameChar sep = false) (depth : Nat) :
      Text.Uncut sep depth name.toList := TypeExpr.uncut_of_validName hsep hname depth
  have hwhole : Text.splitOutside '|' (head.toList ++ '[' :: (name.toList ++ [']'])) = some [_] :=
    Text.splitOutside_uncut (TypeExpr.uncut_bracket rfl hhead (huncut rfl 1))
  have hargs : Text.splitOutside ',' name.toList = some [name.toList] :=
    Text.splitOutside_uncut (huncut rfl 0)
  refine .within ?_ (.alone rfl)
  rw [(TypeExpr.tight_bracket hhead name.toList).trim_eq]
  refine .argument hwhole hopen rfl hargs ?_ rfl
  rwa [(TypeExpr.tight_of_validName hhead).trim_eq, String.ofList_toList]

theorem stands_season : Stands "list[Season]".toList [0] "Season".toList :=
  stands_argument "list" "Season" (by decide) (by decide) (by decide +kernel)

theorem stands_date : Stands "optional[Date]".toList [0] "Date".toList :=
  stands_argument "optional" "Date" (by decide) (by decide) (by decide +kernel)

/-- What the plan declares. -/
theorem declare_planText {o : Outline} {d : Declarations}
    (hread : Outline.parse? planText = some o) (hdeclare : o.declare = .ok d) :
    d.enums = [season, date] ∧ ∃ s ∈ d.schemas, d.idOf s.name = 0 ∧ ∃ start due,
      s.fields = [start, due] ∧ (start.name, start.type) = ("start", "list[Season]") ∧
        (due.name, due.type) = ("due", "optional[Date]") := by
  obtain ⟨-, henums, hschemas⟩ := Declarations.proper_of_declare hdeclare
  obtain ⟨houtline, s, start, due, hsingle, hfields, hstart, hdue⟩ := outline_planText hread
  rw [hsingle] at hschemas
  have hid : d.idOf s.name = 0 := by
    rw [Declarations.idOf, Declarations.names, hschemas]
    exact List.idxOf_cons_self
  exact ⟨henums.trans houtline, s, hschemas ▸ List.mem_singleton.2 rfl, hid, start, due, hfields,
    hstart, hdue⟩

/-- The plan starts in a season, and is due at a date. -/
theorem parse_declared_iff_plan :
    ∃ document, Document.parse Outline.parse? planText = .ok document ∧
      (∃ field ∈ (document.catalog.schema 0).fields,
        field.name = "start" ∧ field.type.at? [0] = some (.enum season)) ∧
      ∃ field ∈ (document.catalog.schema 0).fields,
        field.name = "due" ∧ field.type.at? [0] = some .date := by
  obtain ⟨document, hparse⟩ := exists_parse_planText
  obtain ⟨o, d, hread, hdeclare, hfields⟩ := parse_declared_iff hparse
  obtain ⟨henums, s, hmem, hid, start, due, hs, hstart, hdue⟩ := declare_planText hread hdeclare
  simp only [Prod.mk.injEq] at hstart hdue
  refine ⟨document, hparse, ?_, ?_⟩
  · obtain ⟨field, hfield, hfieldName, hmeaning⟩ := hfields s hmem start (by simp [hs])
    obtain ⟨t, ht, -, henum, -⟩ :=
      hmeaning [0] "Season" (by decide) (hstart.2 ▸ stands_season)
    refine ⟨field, hid ▸ hfield, hfieldName.trans hstart.1, ?_⟩
    rw [ht, (henum season (by simp [henums]) rfl).2 (by decide +kernel)]
  · obtain ⟨field, hfield, hfieldName, hmeaning⟩ := hfields s hmem due (by simp [hs])
    obtain ⟨t, ht, -, -, hbuiltin⟩ := hmeaning [0] "Date" (by decide) (hdue.2 ▸ stands_date)
    refine ⟨field, hid ▸ hfield, hfieldName.trans hdue.1, ?_⟩
    have hdate : TypeExpr.builtinWords.lookup (Text.lower "Date") = some .date := rfl
    rw [ht, ← hbuiltin (by decide +kernel), hdate]

/-- The declared date is nowhere a type of the plan. -/
theorem parse_shadowed :
    ∃ document o d, Document.parse Outline.parse? planText = .ok document ∧
      Outline.parse? planText = some o ∧ o.declare = .ok d ∧ date ∈ d.enums ∧
      Dotenv.validName date.name = true ∧
      ∃ s ∈ d.schemas, ∃ f ∈ s.fields, Stands f.type.toList [0] date.name.toList ∧
        ∃ field ∈ (document.catalog.schema (d.idOf s.name)).fields, field.name = f.name ∧
          field.type.at? [0] = some .date ∧ field.type.at? [0] ≠ some (.enum date) := by
  obtain ⟨document, hparse⟩ := exists_parse_planText
  obtain ⟨o, d, hread, hdeclare, hfields⟩ := exists_meaning_of_parse hparse
  obtain ⟨henums, s, hmem, -, start, due, hs, -, hdue⟩ := declare_planText hread hdeclare
  have hstands : Stands due.type.toList [0] date.name.toList := by
    rw [(Prod.mk.inj hdue).2]
    exact stands_date
  have hvalid : Dotenv.validName date.name = true := by decide
  obtain ⟨field, hfield, hname, hmeaning⟩ := hfields s hmem due (by simp [hs])
  obtain ⟨-, ht⟩ := hmeaning [0] date.name hvalid hstands
  have hdate : d.meaning date.name = .date := rfl
  refine ⟨document, o, d, hparse, hread, hdeclare, by simp [henums], hvalid, s, hmem, due,
    by simp [hs], hstands, field, hfield, hname, by rw [ht, hdate], ?_⟩
  rw [ht, hdate]
  exact nofun

end Document

end EnvSettings
