import Mathlib
import EnvSettings.Proofs.Document.Building

namespace EnvSettings.Document.Declarations

open Relation (ReflTransGen)

variable {d : Declarations} {name : String} {s : Schema} {built : Built} {room : Nat}
  {pending : List String} {result : Schema × Built}

/-- What is known at each visit: the pending schemas are declared, different and not built, there is
room for the others, and what is built means what it should and needs nothing else. -/
structure Underway (d : Declarations) (room : Nat) (pending : List String) (built : Built) :
    Prop where
  room : HasRoom d.names room pending
  sound : d.Sound built
  closed : ∀ a b, (∃ s, built.lookup a = some s) → d.Needs a b → ∃ t, built.lookup b = some t
  unbuilt : ∀ a ∈ pending, built.lookup a = none

theorem Underway.start (hroom : d.schemas.length < room) : d.Underway room [] [] where
  room := hasRoom_of_lt hroom
  sound := sound_nil d
  closed _ _ hbuilt := nomatch hbuilt
  unbuilt := List.forall_mem_nil _

theorem Underway.push (h : d.Underway (room + 1) pending built) (hnew : name ∉ pending)
    (hname : name ∈ d.names) (hlookup : built.lookup name = none) :
    d.Underway room (pending ++ [name]) built where
  room := h.room.push hnew hname
  sound := h.sound
  closed := h.closed
  unbuilt := List.forall_mem_append.2 ⟨h.unbuilt, List.forall_mem_singleton.2 hlookup⟩

/-- What a schema that is built needs is built. -/
theorem Underway.exists_lookup {a : String} (h : d.Underway room pending built)
    (hname : ∃ s, built.lookup name = some s) (hreach : ReflTransGen d.Needs name a) :
    ∃ t, built.lookup a = some t := by
  induction hreach with
  | refl => exact hname
  | tail _ hneeds ih => exact h.closed _ _ ih hneeds

/-- A built schema needs no pending one. -/
theorem Underway.apart (h : d.Underway room pending built) (hname : built.lookup name = some s) :
    ∀ a ∈ pending, ¬ ReflTransGen d.Needs name a := by
  intro a ha hreach
  obtain ⟨t, ht⟩ := h.exists_lookup ⟨s, hname⟩ hreach
  cases (h.unbuilt a ha).symm.trans ht

/-- A step keeps what is known. -/
def Keeps (P : Built → Prop) {α : Type} (m _ : Build α) : Prop :=
  ∀ built result, P built → m built = .ok result → P result.2

/-- Steps that keep a property are put together to one that does. -/
theorem compositional_keeps (P : Built → Prop) : Compositional (@Keeps P) where
  lift x built result hbuilt hresult := (Build.lift_eq_ok_iff.1 hresult).2 ▸ hbuilt
  bind hm hk built result hbuilt hresult := by
    obtain ⟨next, hnext, hresult⟩ := Build.bind_eq_ok_iff.1 hresult
    exact hk next.1 next.2 result (hm built next hbuilt hnext) hresult
  atField schema field m m' hm built result hbuilt hresult :=
    hm built result hbuilt (Build.atField_eq_ok_iff.1 hresult)

/-- A visit keeps what is known. -/
theorem Underway.visit (hnames : ∀ b ∈ d.names, d.enum? b = none)
    (h : d.Underway room pending built) (hvisit : d.visit room pending name built = .ok result) :
    d.Underway room pending result.2 := by
  induction room generalizing pending name built result with
  | zero => cases hvisit
  | succ room ih =>
    obtain ⟨-, rfl⟩ | ⟨hlookup, hnew, outline, between, houtline, hassemble, hbuilt⟩ :=
      visit_eq_ok_iff.1 hvisit
    · exact h
    · have hkeeps : Keeps (d.Underway room (pending ++ [name]))
          (d.assemble (d.visit room (pending ++ [name])) outline)
          (d.assemble (d.visit room (pending ++ [name])) outline) :=
        related_assemble (compositional_keeps _) fun _ _ _ _ => ih
      have hbetween := hkeeps _ _ (h.push hnew (mem_names_of_schema? houtline) hlookup) hassemble
      obtain ⟨-, -, htable⟩ := traces_assemble (fun _ _ _ => sound_of_visit) h.sound hassemble
      have hsound := (sound_of_visit h.sound hvisit).1
      rw [← hbuilt] at hsound ⊢
      refine ⟨h.room, hsound, fun a b hbuilt hneeds => ?_, ?_⟩
      · have hneed : ∃ t, between.lookup b = some t := by
          by_cases ha : a = name
          · obtain ⟨hb, outline', houtline', hmentions⟩ := hneeds
            obtain rfl := Option.some.inj (houtline.symm.trans (ha ▸ houtline'))
            exact lookup_of_assemble htable hmentions (hnames b hb)
          · rw [List.lookup_cons, beq_eq_false_iff_ne.2 ha] at hbuilt
            exact hbetween.closed a b hbuilt hneeds
        rw [List.lookup_cons]
        cases b == name with
        | true => exact ⟨_, rfl⟩
        | false => exact hneed
      · intro a ha
        have hne : a ≠ name := fun heq => hnew (heq ▸ ha)
        rw [List.lookup_cons, beq_eq_false_iff_ne.2 hne]
        exact hbetween.unbuilt a (List.mem_append_left [name] ha)

end EnvSettings.Document.Declarations
