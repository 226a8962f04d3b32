import Mathlib
import EnvSettings.Proofs.Except
import EnvSettings.Proofs.Merge

namespace EnvSettings.Merge

variable {before es : List (String × String)} {first second form : String}

/-- Two names of one form, the second of which stands leftmost of all names whose form was met
before. Of the names in front of it the first is the only one with the form. -/
inductive Clashes : List (String × String) → String → String → Prop
  | intro {before after : List (String × String)} {first second text : String}
      (hclear : (before.map fun e => Text.upper e.1).Nodup) (hfirst : first ∈ before.map Prod.fst)
      (honly : ∀ name ∈ before.map Prod.fst,
        Text.upper name = Text.upper second ↔ name = first) :
      Clashes (before ++ (second, text) :: after) first second

/-- The names of entries under their forms, the last one in front. -/
def formsOf (es : List (String × String)) : List (String × String) :=
  (es.map fun e => (Text.upper e.1, e.1)).reverse

theorem formsOf_concat (es : List (String × String)) (e : String × String) :
    formsOf (es ++ [e]) = (Text.upper e.1, e.1) :: formsOf es := by
  simp [formsOf]

/-- Where no two forms are the same, the name under a form is the one that has it. -/
theorem lookup_formsOf_eq_some_iff (hclear : (es.map fun e => Text.upper e.1).Nodup) :
    (formsOf es).lookup form = some first ↔
      first ∈ es.map Prod.fst ∧ Text.upper first = form := by
  have hnodup : ((formsOf es).map Prod.fst).Nodup := by
    rw [formsOf, List.map_reverse, List.nodup_reverse, List.map_map]
    exact hclear
  rw [Entries.lookup_eq_some_iff_mem hnodup, formsOf, List.mem_reverse]
  constructor
  · intro hmem
    obtain ⟨e, he, heq⟩ := List.mem_map.1 hmem
    obtain ⟨rfl, rfl⟩ := Prod.mk.inj heq
    exact ⟨List.mem_map_of_mem he, rfl⟩
  · rintro ⟨hmem, rfl⟩
    obtain ⟨e, he, rfl⟩ := List.mem_map.1 hmem
    exact List.mem_map_of_mem he

theorem lookup_formsOf_eq_none_iff :
    (formsOf es).lookup form = none ↔ form ∉ es.map fun e => Text.upper e.1 := by
  rw [List.lookup_eq_none_iff, formsOf]
  constructor
  · intro hnone hmem
    obtain ⟨e, he, rfl⟩ := List.mem_map.1 hmem
    simpa using hnone _ (List.mem_reverse.2 (List.mem_map_of_mem he))
  · intro hfresh p hp
    obtain ⟨e, he, rfl⟩ := List.mem_map.1 (List.mem_reverse.1 hp)
    rw [bne_iff_ne]
    rintro rfl
    exact hfresh (List.mem_map_of_mem he)

/-- A name whose form was met before clashes with the name under the form. -/
theorem clashes_of_lookup (hclear : (before.map fun e => Text.upper e.1).Nodup)
    (hlookup : (formsOf before).lookup (Text.upper second) = some first) (text : String)
    (after : List (String × String)) :
    Clashes (before ++ (second, text) :: after) first second := by
  have hfirst := (lookup_formsOf_eq_some_iff hclear).1 hlookup
  refine .intro hclear hfirst.1 fun name hname => ⟨fun hform => ?_, fun heq => heq ▸ hfirst.2⟩
  rw [(lookup_formsOf_eq_some_iff hclear).2 ⟨hname, hform⟩] at hlookup
  exact Option.some.inj hlookup

/-- As long as no form comes a second time, the names go into the table one after the other: it
holds just the names in front of the entry that comes next. -/
theorem upperKeysFrom_append {normalized : EnvMap} {rest : List (String × String)}
    (hclear : ((before ++ es).map fun e => Text.upper e.1).Nodup) :
    upperKeysFrom (formsOf before) normalized (es ++ rest) =
      upperKeysFrom (formsOf (before ++ es))
        (normalized.insertAll (es.map fun e => (Text.upper e.1, e.2))) rest := by
  induction es generalizing before normalized with
  | nil => rw [List.append_nil]; rfl
  | cons e es ih =>
    obtain ⟨key, text⟩ := e
    have hlookup : (formsOf before).lookup (Text.upper key) = none := by
      rw [List.map_append] at hclear
      exact lookup_formsOf_eq_none_iff.2 fun hmem =>
        List.disjoint_of_nodup_append hclear hmem List.mem_cons_self
    have hsplit : before ++ (key, text) :: es = before ++ [(key, text)] ++ es := by simp
    rw [hsplit] at hclear ⊢
    rw [List.cons_append, upperKeysFrom]
    simp only [hlookup, ← formsOf_concat before (key, text)]
    exact ih hclear

theorem Clashes.append (hclashes : Clashes es first second) (rest : List (String × String)) :
    Clashes (es ++ rest) first second := by
  obtain ⟨hclear, hfirst, honly⟩ := hclashes
  rw [List.append_assoc, List.cons_append]
  exact .intro hclear hfirst honly

/-- Where two forms are the same, names clash. -/
theorem exists_clashes (hclash : ¬ (es.map fun e => Text.upper e.1).Nodup) :
    ∃ first second, Clashes es first second := by
  induction es using List.reverseRecOn with
  | nil => exact absurd List.nodup_nil hclash
  | append_singleton es e ih =>
    by_cases hclear : (es.map fun e => Text.upper e.1).Nodup
    · obtain ⟨key, text⟩ := e
      cases hlookup : (formsOf es).lookup (Text.upper key) with
      | some first => exact ⟨first, key, clashes_of_lookup hclear hlookup text []⟩
      | none =>
        have hfresh := lookup_formsOf_eq_none_iff.1 hlookup
        rw [List.map_append, List.map_singleton, ← List.concat_eq_append] at hclash
        exact absurd (hclear.concat hfresh) hclash
    · obtain ⟨first, second, hclashes⟩ := ih hclear
      exact ⟨first, second, hclashes.append [e]⟩

/-- The first name that is refused clashes, and its partner is told with it. -/
theorem upperKeysFrom_of_clashes (hkeys : (es.map Prod.fst).Nodup)
    (hclashes : Clashes es first second) :
    upperKeysFrom [] EnvMap.empty es =
      .error { problem := .envKeyConflict (Text.upper second) first second } := by
  obtain @⟨before, after, _, _, text, hclear, hfirst, honly⟩ := hclashes
  have hlookup : (formsOf before).lookup (Text.upper second) = some first :=
    (lookup_formsOf_eq_some_iff hclear).2 ⟨hfirst, (honly first hfirst).2 rfl⟩
  have hne : first ≠ second := by
    rintro rfl
    rw [List.map_append] at hkeys
    exact List.disjoint_of_nodup_append hkeys hfirst List.mem_cons_self
  have hrun : upperKeysFrom (formsOf []) EnvMap.empty (before ++ (second, text) :: after) =
      upperKeysFrom (formsOf before) _ ((second, text) :: after) := upperKeysFrom_append hclear
  refine hrun.trans ?_
  rw [upperKeysFrom]
  simp only [hlookup, hne, if_false]

variable {host : Host} {runtime : Option EnvMap} {given merged : EnvMap} {envFile : Option String}
  {file : Dotenv.Reading}

/-- Once the file is read, the case policy decides. -/
theorem build_eq_map {caseSensitive : Bool} {mode : Dotenv.Mode}
    (hfile : readEnvFile host mode envFile = .ok file) :
    build host runtime envFile caseSensitive mode =
      (applyCase caseSensitive mode (overlay file.env (runtime.getD host.environment))).map
        fun env => ⟨env, file.warnings⟩ := by
  have hbuild : build host runtime envFile caseSensitive mode =
      (readEnvFile host mode envFile).bind fun file =>
        (applyCase caseSensitive mode (overlay file.env (runtime.getD host.environment))).bind
          fun env => .ok ⟨env, file.warnings⟩ := by
    cases envFile <;> rfl
  rw [hbuild, hfile]
  cases hcase : applyCase caseSensitive mode
      (overlay file.env (runtime.getD host.environment)) <;>
    simp [Except.bind, Except.map, hcase]

/-- The forms of a map differ if and only if no two of its names share one. -/
theorem nodup_forms_iff :
    (merged.toList.map fun e => Text.upper e.1).Nodup ↔
      ∀ name ∈ merged.keys, ∀ other ∈ merged.keys,
        Text.upper name = Text.upper other → name = other := by
  have hforms : (merged.toList.map fun e => Text.upper e.1) = merged.keys.map Text.upper := by
    rw [EnvMap.keys, List.map_map]
    rfl
  rw [hforms]
  exact List.nodup_map_iff_inj_on merged.nodup_keys

/-- Names without clashes are stored in their order. -/
theorem toList_spellAll (hclear : (merged.toList.map fun e => Text.upper e.1).Nodup) :
    (spellAll false merged).toList = merged.toList.map fun e => (Text.upper e.1, e.2) := by
  refine (EnvMap.toList_insertAll ?_).trans (List.nil_append _)
  rw [map_fst_map_spellEntry, List.map_map]
  exact hclear

/-- The strict policy refuses a map just for its leftmost clash. -/
theorem applyCase_strict_eq_error_iff {error : Error} :
    applyCase false .strict merged = .error error ↔
      ∃ first second, Clashes merged.toList first second ∧
        error = { problem := .envKeyConflict (Text.upper second) first second } := by
  have hrefused : ∀ {first second : String}, Clashes merged.toList first second →
      applyCase false .strict merged =
        .error { problem := .envKeyConflict (Text.upper second) first second } :=
    fun hclashes => upperKeysFrom_of_clashes merged.nodup_keys hclashes
  constructor
  · intro herror
    have hclash : ¬ (merged.toList.map fun e => Text.upper e.1).Nodup := by
      intro hclear
      have hok : applyCase false .strict merged = .ok (spellAll false merged) :=
        applyCase_eq_ok_iff.2
          ⟨fun _ => (List.nodup_map_iff_inj_on merged.nodup_keys).2 (nodup_forms_iff.1 hclear), rfl⟩
      cases herror.symm.trans hok
    obtain ⟨first, second, hclashes⟩ := exists_clashes hclash
    exact ⟨first, second, hclashes, Except.error.inj (herror.symm.trans (hrefused hclashes))⟩
  · rintro ⟨first, second, hclashes, rfl⟩
    exact hrefused hclashes

/-- A strict merge that folds names succeeds exactly when no two names have one form. It keeps the
order and the texts of all entries. Otherwise it tells of the leftmost clash. -/
theorem build_strict (hfile : readEnvFile host .strict envFile = .ok file) :
    let merged := overlay file.env given
    let result := build host (some given) envFile false .strict
    ((∃ reading, result = .ok reading) ↔
      ∀ name ∈ merged.keys, ∀ other ∈ merged.keys,
        Text.upper name = Text.upper other → name = other) ∧
    (∀ reading, result = .ok reading →
      reading.env.toList = merged.toList.map fun e => (Text.upper e.1, e.2)) ∧
    ∀ error, result = .error error ↔ ∃ first second, Clashes merged.toList first second ∧
      error = { problem := .envKeyConflict (Text.upper second) first second } := by
  intro merged result
  have hresult : result = (applyCase false .strict merged).map fun env => ⟨env, file.warnings⟩ :=
    build_eq_map hfile
  have hok : ∀ reading, result = .ok reading →
      (merged.toList.map fun e => Text.upper e.1).Nodup ∧ spellAll false merged = reading.env := by
    intro reading hreading
    obtain ⟨env, henv, rfl⟩ := map_eq_ok_iff.1 (hresult.symm.trans hreading)
    obtain ⟨hnodup, hspell⟩ := applyCase_eq_ok_iff.1 henv
    exact ⟨nodup_forms_iff.2 ((List.nodup_map_iff_inj_on merged.nodup_keys).1 (hnodup rfl)), hspell⟩
  refine ⟨⟨?_, fun hapart => ?_⟩, ?_, fun error => ?_⟩
  · rintro ⟨reading, hreading⟩
    exact nodup_forms_iff.1 (hok reading hreading).1
  · have henv : applyCase false .strict merged = .ok (spellAll false merged) :=
      applyCase_eq_ok_iff.2 ⟨fun _ => (List.nodup_map_iff_inj_on merged.nodup_keys).2 hapart, rfl⟩
    exact ⟨_, hresult.trans (map_eq_ok_iff.2 ⟨_, henv, rfl⟩)⟩
  · intro reading hreading
    obtain ⟨hclear, hspell⟩ := hok reading hreading
    rw [← hspell, toList_spellAll hclear]
  · rw [← applyCase_strict_eq_error_iff, hresult]
    cases applyCase false .strict merged <;> simp [Except.map]

/-- A file with a host and a token. -/
def tokenHost : Host where
  files := ⟨[([".env"], .file "host=file\nToken=a\n".toUTF8)]⟩

def tokenFile : EnvMap :=
  .ofList [("host", "file"), ("Token", "a")]

/-- Runtime entries that spell both names of the file in other cases. -/
def tokenGiven : EnvMap :=
  .ofList [("PORT", "1"), ("token", "b"), ("HOST", "runtime")]

/-- The token is refused: its pair is complete before that of the host. -/
theorem build_strict_token :
    readEnvFile tokenHost .strict (some ".env") = .ok ⟨tokenFile, []⟩ ∧
      build tokenHost (some tokenGiven) (some ".env") false .strict =
        .error { problem := .envKeyConflict "TOKEN" "Token" "token" } := by
  have hfile : readEnvFile tokenHost .strict (some ".env") = .ok ⟨tokenFile, []⟩ := by cbv
  obtain ⟨hhost, hToken, hPORT, htoken⟩ : Text.upper "host" = "HOST" ∧
      Text.upper "Token" = "TOKEN" ∧ Text.upper "PORT" = "PORT" ∧ Text.upper "token" = "TOKEN" :=
    ⟨by cbv, by cbv, by cbv, by cbv⟩
  have hmerged : (overlay tokenFile tokenGiven).toList =
      [("host", "file"), ("Token", "a"), ("PORT", "1")] ++
        ("token", "b") :: [("HOST", "runtime")] := by
    simp [overlay, tokenFile, tokenGiven, EnvMap.ofList, EnvMap.insertAll, EnvMap.insertEntry]
  have hclashes : Clashes (overlay tokenFile tokenGiven).toList "Token" "token" := by
    rw [hmerged]
    refine .intro ?_ (by simp) ?_
    · simp [hhost, hToken, hPORT]
    · simp [hhost, hToken, hPORT, htoken]
  exact ⟨hfile, ((build_strict hfile).2.2 _).2 ⟨_, _, hclashes, by rw [htoken]⟩⟩

end EnvSettings.Merge
