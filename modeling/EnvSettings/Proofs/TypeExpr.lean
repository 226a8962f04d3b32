import Mathlib
import EnvSettings.Proofs.Text.Split
import EnvSettings.TypeExpr

namespace EnvSettings

namespace Text

theorem length_trim_le (s : List Char) : (trim s).length ≤ s.length := by
  have hleft : (trimLeft s).length ≤ s.length := (List.dropWhile_sublist isSpace).length_le
  have hright : ((trimLeft s).reverse.dropWhile isSpace).length ≤ (trimLeft s).length := by
    simpa using (List.dropWhile_sublist isSpace (l := (trimLeft s).reverse)).length_le
  rw [trim, trimRight, List.length_reverse]
  exact hright.trans hleft

theorem length_dropTail? {tail s rest : List Char} (hdrop : dropTail? tail s = some rest) :
    s.length = rest.length + tail.length := by
  obtain ⟨before, hbefore, rfl⟩ := Option.map_eq_some_iff.1 hdrop
  have hlength := congrArg List.length (dropLead?_eq_some_iff.1 hbefore)
  rw [List.length_append, List.length_reverse, List.length_reverse] at hlength
  rw [hlength, List.length_reverse, Nat.add_comm]

theorem length_consFirst (c : Char) {parts : List (List Char)} (hparts : parts ≠ []) :
    (consFirst c parts).flatten.length + (consFirst c parts).length =
      parts.flatten.length + parts.length + 1 := by
  obtain ⟨first, rest, rfl⟩ := List.exists_cons_of_ne_nil hparts
  simp only [consFirst, List.flatten_cons, List.length_append, List.length_cons]
  omega

/-- The parts have all characters but the separators, of which there is one between two parts. -/
theorem length_splitOutsideFrom {sep : Char} {depth : Nat} {s : List Char}
    {parts : List (List Char)} (hsplit : splitOutsideFrom sep depth s = some parts) :
    parts.flatten.length + parts.length = s.length + 1 := by
  induction s generalizing depth parts with
  | nil =>
    rw [splitOutsideFrom, Option.ite_none_right_eq_some] at hsplit
    obtain ⟨-, hparts⟩ := hsplit
    rw [← Option.some.inj hparts]
    rfl
  | cons c s ih =>
    have hcons (depth : Nat)
        (hmap : (splitOutsideFrom sep depth s).map (consFirst c) = some parts) :
        parts.flatten.length + parts.length = (c :: s).length + 1 := by
      obtain ⟨inner, hinner, rfl⟩ := Option.map_eq_some_iff.1 hmap
      have hlength := ih hinner
      have hne : inner ≠ [] := by
        rintro rfl
        cases hlength
      rw [length_consFirst c hne, hlength, List.length_cons]
    unfold splitOutsideFrom at hsplit
    by_cases hopen : c = '['
    · rw [if_pos hopen] at hsplit
      exact hcons _ hsplit
    rw [if_neg hopen] at hsplit
    by_cases hclose : c = ']'
    · rw [if_pos hclose] at hsplit
      cases depth with
      | zero => cases hsplit
      | succ depth => exact hcons _ hsplit
    rw [if_neg hclose] at hsplit
    by_cases hsep : c = sep ∧ depth = 0
    · rw [if_pos hsep] at hsplit
      obtain ⟨inner, hinner, rfl⟩ := Option.map_eq_some_iff.1 hsplit
      have hlength := ih hinner
      simp only [List.flatten_cons, List.nil_append, List.length_cons]
      omega
    · rw [if_neg hsep] at hsplit
      exact hcons _ hsplit

/-- A part is shorter than the text if there are others. -/
theorem length_of_mem_splitOutside {sep : Char} {s part : List Char} {parts : List (List Char)}
    (hsplit : splitOutside sep s = some parts) (hpart : part ∈ parts) :
    part.length + parts.length ≤ s.length + 1 := by
  have hlength := length_splitOutsideFrom hsplit
  have hle := (List.sublist_flatten_of_mem hpart).length_le
  omega

end Text

namespace TypeExpr

variable {read read' : List Char → TypeExpr}

/-- What is applied to arguments reads nothing but the arguments. -/
theorem applied_congr {head expr : String} {args : List (List Char)}
    (hread : ∀ arg ∈ args, read arg = read' arg) :
    applied read head expr args = applied read' head expr args := by
  have hmap : args.map read = args.map read' := List.map_congr_left hread
  have hmapOf : mapOf head expr read args = mapOf head expr read' args := by
    match args, hread with
    | [], _ => rfl
    | [value], hread =>
      rw [mapOf, mapOf, hread value List.mem_cons_self]
    | [key, value], hread =>
      rw [mapOf, mapOf, hread value (List.mem_cons_of_mem key List.mem_cons_self)]
    | _ :: _ :: _ :: _, _ => rfl
  unfold applied
  rw [hmap, hmapOf]

/-- What is no union reads nothing but shorter texts. -/
theorem single_congr {s : List Char}
    (hread : ∀ part : List Char, part.length < s.length → read part = read' part) :
    single read s = single read' s := by
  unfold single
  dsimp only
  cases hcut : Text.cutAt? '[' s with
  | none => exact applied_congr fun _ harg => nomatch harg
  | some cut =>
    obtain ⟨head, rest⟩ := cut
    obtain ⟨rfl, -⟩ := Text.cutAt?_eq_some_iff.1 hcut
    dsimp only
    cases hdrop : Text.dropTail? [']'] rest with
    | none => rfl
    | some inner =>
      dsimp only
      cases hsplit : Text.splitOutside ',' inner with
      | none => rfl
      | some args =>
        refine applied_congr fun arg harg => hread arg ?_
        have hinner : rest.length = inner.length + 1 := Text.length_dropTail? hdrop
        have hargs := List.length_pos_of_mem harg
        have harg := Text.length_of_mem_splitOutside hsplit harg
        rw [List.length_append, List.length_cons]
        omega

/-- A text is read in the same way with every depth above its length. -/
theorem parseWithin_eq {depth depth' : Nat} {s : List Char} (hdepth : s.length < depth)
    (hdepth' : s.length < depth') : parseWithin depth s = parseWithin depth' s := by
  induction depth generalizing depth' s with
  | zero => exact absurd hdepth (Nat.not_lt_zero _)
  | succ depth ih =>
    obtain ⟨depth', rfl⟩ : ∃ less, depth' = less + 1 := ⟨depth' - 1, by omega⟩
    have hread (part : List Char) (hpart : part.length < s.length) :
        parseWithin depth (Text.trim part) = parseWithin depth' (Text.trim part) := by
      have hlength := Text.length_trim_le part
      exact ih (by omega) (by omega)
    rw [parseWithin, parseWithin]
    cases hsplit : Text.splitOutside '|' s with
    | none => rfl
    | some parts =>
      match parts, hsplit with
      | [], _ | [_], _ => exact single_congr hread
      | first :: second :: more, hsplit =>
        refine congrArg union (List.map_congr_left fun part hpart => hread part ?_)
        have hlength := Text.length_of_mem_splitOutside hsplit hpart
        simp only [List.length_cons] at hlength
        omega

/-- What stands in front of brackets is applied to what the commas in them separate. -/
theorem single_bracket {before inner : List Char} {args : List (List Char)}
    (hbefore : '[' ∉ before) (hargs : Text.splitOutside ',' inner = some args) :
    single read (before ++ '[' :: (inner ++ [']'])) =
      applied read (String.ofList (Text.trim before))
        (String.ofList (before ++ '[' :: (inner ++ [']']))) args := by
  have hclose : Text.dropTail? [']'] (inner ++ [']']) = some inner := by
    have hrest : Text.dropLead? [']'] (']' :: inner.reverse) = some inner.reverse :=
      Text.dropLead?_eq_some_iff.2 rfl
    simp [Text.dropTail?, hrest]
  simp only [single, Text.cutAt?_append hbefore, hclose, hargs]

/-- Reads an expression from characters. -/
def parseChars (s : List Char) : TypeExpr :=
  parseWithin ((Text.trim s).length + 1) (Text.trim s)

theorem parse_eq (text : String) : parse text = parseChars text.toList :=
  rfl

/-- White space around an expression does not matter. -/
theorem parseChars_congr {s s' : List Char} (htrim : Text.trim s = Text.trim s') :
    parseChars s = parseChars s' := by
  rw [parseChars, parseChars, htrim]

/-- Arguments and members are read in the way in which the whole is. -/
theorem parseChars_eq (s : List Char) :
    parseChars s =
      match Text.splitOutside '|' (Text.trim s) with
      | none => faulty (.unbalanced (String.ofList (Text.trim s)))
      | some (first :: second :: more) => union ((first :: second :: more).map parseChars)
      | some _ => single parseChars (Text.trim s) := by
  have hread (part : List Char) (hpart : part.length < (Text.trim s).length) :
      parseWithin (Text.trim s).length (Text.trim part) = parseChars part := by
    have hlength := Text.length_trim_le part
    exact parseWithin_eq (by omega) (Nat.lt_succ_self _)
  rw [parseChars, parseWithin]
  cases hsplit : Text.splitOutside '|' (Text.trim s) with
  | none => rfl
  | some parts =>
    match parts, hsplit with
    | [], _ | [_], _ => exact single_congr hread
    | first :: second :: more, hsplit =>
      refine congrArg union (List.map_congr_left fun part hpart => hread part ?_)
      have hlength := Text.length_of_mem_splitOutside hsplit hpart
      simp only [List.length_cons] at hlength
      omega

/-- An expression with bars outside of brackets is a union. -/
theorem parseChars_members {s : List Char} {parts : List (List Char)}
    (hsplit : Text.splitOutside '|' (Text.trim s) = some parts) (htwo : 2 ≤ parts.length) :
    parseChars s = union (parts.map parseChars) := by
  match parts, htwo with
  | _ :: _ :: _, _ => rw [parseChars_eq, hsplit]

/-- An expression without bars outside of brackets is a single type. -/
theorem parseChars_whole {s part : List Char}
    (hsplit : Text.splitOutside '|' (Text.trim s) = some [part]) :
    parseChars s = single parseChars (Text.trim s) := by
  rw [parseChars_eq, hsplit]

end TypeExpr

end EnvSettings
