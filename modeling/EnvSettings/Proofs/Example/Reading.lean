import EnvSettings.Proofs.Dotenv.Declarations
import EnvSettings.Proofs.Dotenv.RoundTrip
import EnvSettings.Proofs.Example.Chains
import EnvSettings.Proofs.Example.Paths

namespace EnvSettings.Example

open Dotenv (Mode Scan Statement declarations dropByteOrderMark isName validName)
open Projection (Fits)

variable {c : Catalog} {config : Config} {root : SchemaId} {origin : String} {mode : Mode}
  {scan : Scan} {n : Nat} {e : Entry} {es : List Entry} {text : String}

/-- The description of an entry, each line as a comment. -/
def Entry.comments (e : Entry) : List (List Char) :=
  match e.description with
  | some text => (Text.lines text.toList).map fun line => '#' :: ' ' :: line
  | none => []

/-- The line with the key of an entry. -/
def Entry.assignment (e : Entry) : List Char :=
  e.key.toList ++ ['=']

/-- The comments and the assignment of an entry. -/
def Entry.lines (e : Entry) : List (List Char) :=
  e.comments ++ [e.assignment]

/-- The lines of entries, with an empty one between two of them. -/
def linesOf (es : List Entry) : List (List Char) :=
  [[]].intercalate (es.map Entry.lines)

theorem linesOf_cons_cons (e e' : Entry) (es : List Entry) :
    linesOf (e :: e' :: es) = e.lines ++ [] :: linesOf (e' :: es) := by
  simp [linesOf]

theorem Entry.block_append (e : Entry) :
    e.block ++ ['\n'] = e.lines.flatMap (· ++ ['\n']) := by
  cases hdescription : e.description with
  | none => simp [Entry.block, Entry.lines, Entry.comments, Entry.assignment, hdescription]
  | some text =>
    simp [Entry.block, Entry.lines, Entry.comments, Entry.assignment, hdescription,
      List.flatMap_map]

/-- Blocks with empty lines in between are the lines of the entries. -/
theorem intercalate_block (e : Entry) (es : List Entry) :
    ['\n', '\n'].intercalate ((e :: es).map Entry.block) ++ ['\n'] =
      (linesOf (e :: es)).flatMap (· ++ ['\n']) := by
  induction es generalizing e with
  | nil => simp [linesOf, Entry.block_append]
  | cons e' es ih =>
    rw [linesOf_cons_cons, List.flatMap_append, ← Entry.block_append, List.flatMap_cons, ← ih e']
    simp

/-- A text is the lines of the entries, each ended by a line feed. -/
theorem toList_renderWith (hes : entries c root config = .ok es)
    (hrender : renderWith c root config = .ok text) :
    text.toList = (linesOf es).flatMap (· ++ ['\n']) := by
  rw [renderWith, hes] at hrender
  cases es with
  | nil =>
    obtain rfl := Except.ok.inj hrender
    rfl
  | cons e es =>
    obtain rfl := Except.ok.inj hrender
    rw [String.toList_ofList, intercalate_block]

theorem exists_renderWith_iff :
    (∃ text, renderWith c root config = .ok text) ↔ ∃ es, entries c root config = .ok es := by
  constructor
  · rintro ⟨text, hrender⟩
    exact exists_entries_of_renderWith hrender
  · rintro ⟨es, hes⟩
    rw [renderWith, hes]
    cases es with
    | nil => exact ⟨"", rfl⟩
    | cons e es => exact ⟨_, rfl⟩

/-- What keeps the listing from its end keeps the text from being written. -/
theorem renderWith_eq_error_iff {fault : Error} :
    renderWith c root config = .error fault ↔ entries c root config = .error fault := by
  rw [renderWith]
  cases entries c root config with
  | error fault' => simp [bind, Except.bind]
  | ok es => cases es <;> simp [bind, Except.bind]

/-- A comment is a number sign, a space and the rest of a line. -/
theorem mem_comments {l : List Char} (hl : l ∈ e.comments) :
    ∃ line, '\n' ∉ line ∧ l = '#' :: ' ' :: line := by
  rw [Entry.comments] at hl
  split at hl
  · obtain ⟨line, hline, rfl⟩ := List.mem_map.1 hl
    exact ⟨line, Text.newline_not_mem_lines hline, rfl⟩
  · cases hl

theorem newline_not_mem_lines (hkey : validName e.key = true) :
    ∀ l ∈ e.lines, '\n' ∉ l := by
  refine List.forall_mem_append.2 ⟨fun l hl => ?_, List.forall_mem_singleton.2 ?_⟩
  · obtain ⟨line, hfeed, rfl⟩ := mem_comments hl
    simpa using hfeed
  · have hname : '\n' ∉ e.key.toList := Dotenv.not_mem_isName hkey (by decide)
    simpa [Entry.assignment] using hname

theorem newline_not_mem_linesOf (hkeys : ∀ e ∈ es, validName e.key = true) :
    ∀ l ∈ linesOf es, '\n' ∉ l := by
  induction es with
  | nil => simp [linesOf]
  | cons e es ih =>
    obtain ⟨hkey, hkeys⟩ := List.forall_mem_cons.1 hkeys
    cases es with
    | nil => simpa [linesOf] using newline_not_mem_lines hkey
    | cons e' es =>
      rw [linesOf_cons_cons]
      exact List.forall_mem_append.2
        ⟨newline_not_mem_lines hkey, List.forall_mem_cons.2 ⟨List.not_mem_nil, ih hkeys⟩⟩

/-- A comment stays one without a carriage return at its end. -/
theorem ofTrimmed_comment {l : List Char} (hl : l ∈ e.comments) :
    Statement.ofTrimmed (Text.trim (Text.dropCarriageReturn l)) = .blank := by
  obtain ⟨line, -, rfl⟩ := mem_comments hl
  have hrest : ∃ rest, Text.dropCarriageReturn ('#' :: ' ' :: line) = '#' :: rest := by
    rw [Text.dropCarriageReturn]
    split
    · exact ⟨_, List.dropLast_cons_of_ne_nil (List.cons_ne_nil _ _)⟩
    · exact ⟨_, rfl⟩
  obtain ⟨rest, hrest⟩ := hrest
  have hsign := Text.head?_trim_cons (c := '#') (by decide) rest
  rw [hrest, Statement.ofTrimmed, hsign]
  simp

/-- An assignment ends with an equals sign and not with a carriage return. -/
theorem dropCarriageReturn_assignment (e : Entry) :
    Text.dropCarriageReturn e.assignment = e.assignment := by
  simp [Text.dropCarriageReturn, Entry.assignment]

theorem Scan.lines_of_blank {ls : List (List Char)} (hpending : scan.pending = none)
    (hblank : ∀ l ∈ ls, Statement.ofTrimmed (Text.trim l) = .blank) :
    scan.lines origin mode n ls = .ok scan := by
  induction ls generalizing n with
  | nil => rfl
  | cons l ls ih =>
    obtain ⟨hl, hblank⟩ := List.forall_mem_cons.1 hblank
    exact Scan.lines_cons_eq_ok_iff.2 ⟨scan, .blank hpending hl, ih hblank⟩

/-- The reading holds these entries behind those of an earlier one, none of them with a value, and
no quoted value is open. -/
structure Declares (scan : Scan) (es : List Entry) (scan' : Scan) : Prop where
  declared : scan'.declarations.map (fun d => (d.key, d.raw)) =
    scan.declarations.map (fun d => (d.key, d.raw)) ++ es.map (·.key, "")
  pending : scan'.pending = none
  warnings : scan'.warnings = scan.warnings

/-- Entries are declared one run after the other. -/
theorem Declares.trans {scan₁ scan₂ scan₃ : Scan} {es₁ es₂ : List Entry}
    (hfirst : Declares scan₁ es₁ scan₂) (hsecond : Declares scan₂ es₂ scan₃) :
    Declares scan₁ (es₁ ++ es₂) scan₃ := by
  refine ⟨?_, hsecond.pending, hsecond.warnings.trans hfirst.warnings⟩
  rw [hsecond.declared, hfirst.declared, List.append_assoc, List.map_append]

/-- The keys are those from before and those of the entries. -/
theorem Declares.keys {scan' : Scan} (hdeclares : Declares scan es scan') :
    scan'.keys = scan.keys ++ es.map (·.key) := by
  have hkeys := congrArg (List.map Prod.fst) hdeclares.declared
  simpa [Dotenv.Scan.keys, Function.comp_def] using hkeys

/-- The lines of an entry declare its key. -/
theorem lines_entry (n : Nat) (hkey : validName e.key = true) (hfresh : e.key ∉ scan.keys)
    (hpending : scan.pending = none) :
    ∃ scan', scan.lines origin mode n (e.lines.map Text.dropCarriageReturn) = .ok scan' ∧
      Declares scan [e] scan' := by
  have hcomments : ∀ l ∈ e.comments.map Text.dropCarriageReturn,
      Statement.ofTrimmed (Text.trim l) = .blank := by
    intro l hl
    obtain ⟨comment, hcomment, rfl⟩ := List.mem_map.1 hl
    exact ofTrimmed_comment hcomment
  have hdeclares : scan.declares e.key.toList = false := by
    rw [← Bool.not_eq_true, Dotenv.Scan.declares_iff, String.ofList_toList]
    exact hfresh
  have hkeys : ∀ d ∈ scan.declarations, d.key ≠ e.key :=
    fun d hd heq => hfresh (List.mem_map.2 ⟨d, hd, heq⟩)
  have hassign (n : Nat) : scan.lines origin mode n [e.assignment] =
      .ok (scan.declare e.key.toList [] n) := by
    have hstatement : scan.statement origin mode n e.assignment =
        .ok (scan.declare e.key.toList [] n) :=
      @Dotenv.Scan.statement_entry origin mode scan n e.key.toList [] hkey hdeclares
    rw [Dotenv.Scan.lines_cons, Dotenv.Scan.line_of_not_pending hpending, hstatement]
    rfl
  refine ⟨scan.declare e.key.toList [] (n + (e.comments.map Text.dropCarriageReturn).length),
    ?_, ?_, rfl, rfl⟩
  · rw [Entry.lines, List.map_append, List.map_singleton, dropCarriageReturn_assignment,
      Dotenv.Scan.lines_append, Scan.lines_of_blank hpending hcomments]
    exact hassign _
  · rw [Dotenv.Scan.declare, String.ofList_toList, Dotenv.Scan.declareIn_of_fresh hkeys]
    simp

/-- The lines of entries declare each of them, with an empty value. -/
theorem lines_linesOf (scan : Scan) (n : Nat) (hkeys : ∀ e ∈ es, validName e.key = true)
    (hnodup : (scan.keys ++ es.map (·.key)).Nodup) (hpending : scan.pending = none) :
    ∃ scan', scan.lines origin mode n ((linesOf es).map Text.dropCarriageReturn) = .ok scan' ∧
      Declares scan es scan' := by
  induction es generalizing scan n with
  | nil => exact ⟨scan, rfl, by simp, hpending, rfl⟩
  | cons e es ih =>
    obtain ⟨hkey, hkeys⟩ := List.forall_mem_cons.1 hkeys
    have hfresh : e.key ∉ scan.keys := fun hmem =>
      List.disjoint_of_nodup_append hnodup hmem List.mem_cons_self
    obtain ⟨next, hnext, hdeclares⟩ := lines_entry n hkey hfresh hpending
    cases es with
    | nil => exact ⟨next, by simpa [linesOf] using hnext, hdeclares⟩
    | cons e' es =>
      have hnodup' : (next.keys ++ (e' :: es).map (·.key)).Nodup := by
        rw [hdeclares.keys]
        simpa using hnodup
      obtain ⟨last, hlast, hrest⟩ :=
        ih next (n + (e.lines.map Text.dropCarriageReturn).length + 1) hkeys hnodup'
          hdeclares.pending
      have hempty : Statement.ofTrimmed (Text.trim (Text.dropCarriageReturn [])) = .blank := rfl
      refine ⟨last, ?_, hdeclares.trans hrest⟩
      rw [linesOf_cons_cons, List.map_append, Dotenv.Scan.lines_append, hnext]
      exact Dotenv.Scan.lines_cons_eq_ok_iff.2 ⟨next, .blank hdeclares.pending hempty, hlast⟩

/-- An entry begins with a comment sign or with its key. -/
theorem exists_lines_eq_cons (hkey : validName e.key = true) :
    ∃ c l ls, e.lines = (c :: l) :: ls ∧ c.toNat < 0xfeff := by
  rw [Entry.lines]
  cases hcomments : e.comments with
  | cons l ls =>
    obtain ⟨line, -, rfl⟩ := mem_comments (hcomments ▸ List.mem_cons_self)
    exact ⟨_, _, _, rfl, by decide⟩
  | nil =>
    rw [validName] at hkey
    cases hname : e.key.toList with
    | nil =>
      rw [hname] at hkey
      cases hkey
    | cons c l =>
      have hvisible := Dotenv.isNameChar_visible
        (Dotenv.isNameChar_of_mem_isName hkey (hname ▸ List.mem_cons_self))
      refine ⟨c, l ++ ['='], [], ?_, by omega⟩
      rw [Entry.assignment, hname]
      rfl

/-- The text of entries does not begin with a byte order mark. -/
theorem dropByteOrderMark_linesOf (hkeys : ∀ e ∈ es, validName e.key = true) :
    dropByteOrderMark ((linesOf es).flatMap (· ++ ['\n'])) =
      (linesOf es).flatMap (· ++ ['\n']) := by
  cases es with
  | nil => rfl
  | cons e es =>
    obtain ⟨c, l, ls, hlines, hlow⟩ := exists_lines_eq_cons (hkeys e List.mem_cons_self)
    have hfirst : ∃ rest, linesOf (e :: es) = (c :: l) :: rest := by
      cases es with
      | nil => exact ⟨ls, by simp [linesOf, hlines]⟩
      | cons e' es => exact ⟨ls ++ [] :: linesOf (e' :: es), by simp [linesOf_cons_cons, hlines]⟩
    obtain ⟨rest, hrest⟩ := hfirst
    simp [hrest, dropByteOrderMark, hlow.ne]

/-- A strict reading of a text declares the entries, if their keys are different variable names. -/
theorem declarations_of_renderWith (hes : entries c root config = .ok es)
    (hrender : renderWith c root config = .ok text) (hkeys : ∀ e ∈ es, validName e.key = true)
    (hnodup : (es.map (·.key)).Nodup) (origin : String) :
    ∃ scan, declarations origin .strict (Text.lines (dropByteOrderMark text.toList)) = .ok scan ∧
      Declares {} es scan := by
  obtain ⟨scan, hscan, hdeclares⟩ := lines_linesOf {} 1 hkeys hnodup rfl
  rw [toList_renderWith hes hrender, dropByteOrderMark_linesOf hkeys,
    Text.lines_flatMap_eq_map (newline_not_mem_linesOf hkeys)]
  refine ⟨scan, Dotenv.declarations_eq_ok_iff.2 ⟨scan, hscan, ?_⟩, hdeclares⟩
  exact Dotenv.Scan.finish_of_not_pending hdeclares.pending

/-- The leaves that an example lists: those below the fields where names can be nested, and
otherwise the fields alone. -/
def Listed (c : Catalog) (config : Config) (fs : List Field) (paths : List (List Field)) : Prop :=
  match config.delimiter? with
  | some _ => c.Unfolds fs paths
  | none => paths = fs.map fun f => [f]

/-- The key of the leaf at a path of fields. -/
def keyOf (config : Config) (path : List Field) : String :=
  (entryAt config (config.delimiter?.getD "") [] path).key

/-- The keys of the entries are those of the paths that the catalog lists. -/
theorem exists_listed {bound : Option Nat} (hbound : config.maxDepth = .ok bound)
    (hes : entries c root config = .ok es) :
    ∃ paths, Listed c config (c.schema root).fields paths ∧
      es.map (·.key) = paths.map (keyOf config) := by
  unfold Listed keyOf
  cases hdelimiter : config.delimiter? with
  | none =>
    rw [entries_of_no_delimiter hbound hdelimiter] at hes
    refine ⟨_, rfl, ?_⟩
    rw [← Except.ok.inj hes, List.map_map, List.map_map]
    refine List.map_congr_left fun f _ => ?_
    simp [leaf, entryAt, hdelimiter]
  | some delimiter =>
    obtain ⟨_, _, paths, hunfolds, rfl, -⟩ := lists_entries hdelimiter hes
    exact ⟨paths, hunfolds, List.map_map⟩

/-- An example is always answered, and its text is an env file. More room than there are schemas
makes no difference to the listing. There is a text if nothing is nested in names, and otherwise
exactly if the schemas on every chain of nested fields have different names and no chain is longer
than the bound; there is an error only for a chain that is not so. If the keys of the leaves, in the
order of declaration, are different variable names, a strict reading of the text declares just these
keys in this order, each with the empty value. -/
theorem renderWith_reads {bound : Option Nat} (hbound : config.maxDepth = .ok bound) :
    (∀ room, c.schemas.size + 2 ≤ room →
      ofSchema c config bound room root [] [c.schemaName root] = entries c root config) ∧
    ((∃ text, renderWith c root config = .ok text) ↔ config.delimiter? = none ∨
      ∀ ids, c.Leads (c.schema root).fields ids →
        ((root :: ids).map c.schemaName).Nodup ∧ Fits bound ids.length) ∧
    (∀ fault, renderWith c root config = .error fault → ∃ ids,
      c.Leads (c.schema root).fields ids ∧
        Refused c bound [c.schemaName root] 0 ids fault) ∧
    ∀ text, renderWith c root config = .ok text →
      ∃ paths, Listed c config (c.schema root).fields paths ∧
        ((∀ path ∈ paths, validName (keyOf config path) = true) →
          (paths.map (keyOf config)).Nodup → ∀ origin, ∃ scan,
            declarations origin .strict (Text.lines (dropByteOrderMark text.toList)) = .ok scan ∧
              scan.declarations.map (fun d => (d.key, d.raw)) =
                paths.map fun path => (keyOf config path, "")) := by
  refine ⟨fun room hroom => ?_, ?_, fun fault hfault => ?_, fun text hrender => ?_⟩
  · rw [entries_eq hbound]
    exact ofSchema_room (hasRoom_root root hroom) (hasRoom_root root (Nat.le_refl _)) root
  · rw [exists_renderWith_iff, exists_entries_iff hbound]
    refine or_congr_right (forall_congr' fun ids => imp_congr_right fun _ => ?_)
    constructor
    · rintro ⟨hdistinct, hfits⟩
      exact ⟨hdistinct, Nat.zero_add ids.length ▸ hfits⟩
    · rintro ⟨hdistinct, hfits⟩
      exact ⟨hdistinct, (Nat.zero_add ids.length).symm ▸ hfits⟩
  · rw [renderWith_eq_error_iff] at hfault
    cases hdelimiter : config.delimiter? with
    | none =>
      rw [entries_of_no_delimiter hbound hdelimiter] at hfault
      cases hfault
    | some delimiter => exact (follows_entries hbound hdelimiter).refused fault hfault
  · obtain ⟨es, hes⟩ := exists_entries_of_renderWith hrender
    obtain ⟨paths, hlisted, hkeys⟩ := exists_listed hbound hes
    refine ⟨paths, hlisted, fun hvalid hnodup origin => ?_⟩
    have hnames : ∀ e ∈ es, validName e.key = true := by
      intro e he
      have hkey : e.key ∈ paths.map (keyOf config) := hkeys ▸ List.mem_map_of_mem he
      obtain ⟨path, hpath, hkey⟩ := List.mem_map.1 hkey
      exact hkey ▸ hvalid path hpath
    obtain ⟨scan, hscan, hdeclares⟩ :=
      declarations_of_renderWith hes hrender hnames (hkeys ▸ hnodup) origin
    refine ⟨scan, hscan, ?_⟩
    rw [hdeclares.declared]
    have hpairs := congrArg (List.map fun key => (key, "")) hkeys
    simpa [Function.comp_def] using hpairs

/-- A host whose description reads like an entry with an open quote. -/
def notedHost : Field :=
  { name := "host", type := .str, info := { description := some "HOST=\"\r\r\n\n#\r" } }

/-- A service with a database, and a person and a team that contain each other. -/
def notedCatalog : Catalog :=
  ⟨#[{ name := "Database", fields := [notedHost] },
    { name := "Service", fields := [{ name := "debug", type := .bool },
      { name := "db", type := .nested 0 }] },
    { name := "Person", fields := [{ name := "team", type := .nested 3 }] },
    { name := "Team", fields := [{ name := "lead", type := .nested 2 }] }]⟩

/-- A delimiter, and a bound of two levels. -/
def notedConfig : Config :=
  { nestedDelimiter := some "__", nestingBound := some 2 }

/-- A description adds nothing to the keys, and schemas that contain each other have no example. -/
theorem renderWith_reads_notes :
    notedConfig.maxDepth = .ok (some 2) ∧
    (∃ text scan, renderWith notedCatalog 1 notedConfig = .ok text ∧
      declarations ".env" .strict (Text.lines (dropByteOrderMark text.toList)) = .ok scan ∧
      scan.declarations.map (fun d => (d.key, d.raw)) = [("DEBUG", ""), ("DB__HOST", "")]) ∧
    ¬ ∃ text, renderWith notedCatalog 2 notedConfig = .ok text := by
  have hbound : notedConfig.maxDepth = .ok (some 2) := rfl
  refine ⟨hbound, ?_, fun htext => ?_⟩
  · have hrender : ∃ text, renderWith notedCatalog 1 notedConfig = .ok text := ⟨_, by cbv⟩
    obtain ⟨text, hrender⟩ := hrender
    obtain ⟨paths, hlisted, hread⟩ := (renderWith_reads hbound).2.2.2 text hrender
    have hpaths := Catalog.Unfolds.unique hlisted (.leaf rfl (.nested rfl (.leaf rfl .nil) .nil))
    have hkeys : paths.map (keyOf notedConfig) = ["DEBUG", "DB__HOST"] := by
      rw [hpaths]
      decide +kernel
    have hvalid : ∀ key ∈ paths.map (keyOf notedConfig), validName key = true := by
      rw [hkeys]
      decide
    rw [List.forall_mem_map] at hvalid
    obtain ⟨scan, hscan, hdeclared⟩ := hread hvalid (by rw [hkeys]; decide) ".env"
    refine ⟨text, scan, hrender, hscan, ?_⟩
    have hpairs := congrArg (List.map fun key => (key, "")) hkeys
    rw [hdeclared]
    simpa [Function.comp_def] using hpairs
  · obtain hnone | hchains := (renderWith_reads hbound).2.1.1 htext
    · cases hnone
    · have hchain : notedCatalog.Leads (notedCatalog.schema 2).fields [3, 2] :=
        .cons (.head _) rfl (.cons (.head _) rfl .nil)
      exact absurd (hchains [3, 2] hchain).1 (by decide)

end EnvSettings.Example
