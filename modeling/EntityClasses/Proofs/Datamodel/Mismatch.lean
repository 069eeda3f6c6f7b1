import EntityClasses.Proofs.Datamodel.Loading

/-! Objects whose member `datamodel` is no datamodel. They are taken for bare documents: a member
`datamodel` is then ignored, as every member is that a bare document does not know, and whether the object
is refused depends on its own enums and models alone. -/

namespace EntityClasses

namespace Document

open Json

/-- The members of an object. -/
def members? : Value → Option (List (String × Value))
  | .object members => some members
  | _ => none

/-- Whether a key has a value that is no list of what `read` reads, or repeats. -/
def Misfits {α : Type} (read : Value → Option α) (members : List (String × Value)) (key : String) :
    Prop :=
  (member? members key).bind (optional? [] (list? read)) = none

theorem member?_of_notMem {members : List (String × Value)} {key : String}
    (hkey : key ∉ members.map (·.1)) : member? members key = some none := by
  have hfilter : members.filter (·.1 = key) = [] := by
    rw [List.filter_eq_nil_iff]
    intro member hmember
    simpa using fun heq => hkey (List.mem_map.mpr ⟨member, hmember, heq⟩)
  rw [member?, hfilter]

theorem mem_of_member? {members : List (String × Value)} {key : String} {value : Value}
    (hvalue : member? members key = some (some value)) : (key, value) ∈ members := by
  rw [member?] at hvalue
  split at hvalue
  · cases hvalue
  · next member hfilter =>
      have hmem : member ∈ members.filter (·.1 = key) := hfilter ▸ List.mem_singleton_self member
      obtain ⟨hmem, hkey⟩ := List.mem_filter.mp hmem
      obtain ⟨name, held⟩ := member
      cases hvalue
      simp only [decide_eq_true_eq] at hkey
      rwa [← hkey]
  · cases hvalue

/-- An object is a bare document unless its own enums or its own models misfit. -/
theorem bare?_object_eq_none_iff (members : List (String × Value)) :
    bare? (.object members) = none ↔
      Misfits enum? members "enums" ∨ Misfits model? members "models" := by
  have hslots : slots? ["enums", "models"] (.object members) =
      (member? members "enums").bind fun enums =>
        (member? members "models").map fun models => [enums, models] := by
    simp only [slots?, List.mapM_cons, List.mapM_nil]
    rcases member? members "enums" with _ | enums <;> rcases member? members "models" with _ | models <;>
      rfl
  rw [bare?, hslots, Misfits, Misfits]
  rcases member? members "enums" with _ | enums
  · simp
  · rcases member? members "models" with _ | models
    · simp
    · rcases henums : optional? [] (list? enum?) enums <;>
        rcases hmodels : optional? [] (list? model?) models <;> simp [henums, hmodels]

theorem bare?_of_notMem {members : List (String × Value)} (henums : "enums" ∉ members.map (·.1))
    (hmodels : "models" ∉ members.map (·.1)) : bare? (.object members) = some ⟨[], []⟩ := by
  rw [bare?, slots?]
  simp [member?_of_notMem henums, member?_of_notMem hmodels, optional?]

end Document

namespace Datamodel

/-- A text of an object that has a member `datamodel`, with a value that is no datamodel. -/
structure Mismatched (source : SourceText) (members : List (String × Json.Value)) : Prop where
  parse : Json.parse source.chars = .ok (.object members)
  present : "datamodel" ∈ members.map (·.1)
  mismatch : ∀ value, ("datamodel", value) ∈ members → Document.bare? value = none

variable {source : SourceText} {members : List (String × Json.Value)}

theorem Mismatched.wrapped? (hmismatched : Mismatched source members) :
    Document.wrapped? (.object members) = none := by
  rw [Document.wrapped?]
  rcases hmember : Document.member? members "datamodel" with _ | _ | value
  · rfl
  · rfl
  · exact hmismatched.mismatch value (Document.mem_of_member? hmember)

/-- The fallback: the object itself is taken for the datamodel. -/
theorem Mismatched.load (hmismatched : Mismatched source members) :
    load source =
      match Document.bare? (.object members) with
      | none => .error (.badDatamodel source .wrongShape)
      | some datamodel => datamodel.validate source := by
  have hload := load_of_parse hmismatched.parse
  rw [Document.datamodel?, hmismatched.wrapped?, Option.none_or] at hload
  exact hload

theorem validate_ne_badDatamodel (source : SourceText) (datamodel : Datamodel)
    (fault : DatamodelFault) : datamodel.validate source ≠ .error (.badDatamodel source fault) := by
  rcases validate_cases source datamodel with ⟨-, hvalidate⟩ | ⟨-, kind, name, hvalidate⟩ <;>
    rw [hvalidate] <;> simp

/-- **A wrapped datamodel of the wrong shape** is refused exactly when the object around it has enums or
models of its own that misfit. Otherwise the enums and models of the object are loaded in its place, and
none if it has none. -/
theorem load_of_mismatched (hmismatched : Mismatched source members) :
    ((∃ fault, load source = .error (.badDatamodel source fault)) ↔
      Document.Misfits Document.enum? members "enums" ∨
        Document.Misfits Document.model? members "models") ∧
    (∀ datamodel, Document.bare? (.object members) = some datamodel →
      load source = datamodel.validate source) ∧
    ("enums" ∉ members.map (·.1) → "models" ∉ members.map (·.1) → load source = .ok ⟨[], []⟩) := by
  rw [← Document.bare?_object_eq_none_iff, hmismatched.load]
  refine ⟨?_, ?_, ?_⟩
  · rcases Document.bare? (.object members) with _ | datamodel
    · simp
    · simp [validate_ne_badDatamodel]
  · intro datamodel hbare
    rw [hbare]
  · intro henums hmodels
    rw [Document.bare?_of_notMem henums hmodels]
    rfl

/-- A wrapped datamodel in which a model has no fields. -/
def modelWithoutFields : SourceText :=
  ⟨"dmmf.json", "\x7b\"datamodel\":\x7b\"models\":[\x7b\"name\":\"User\"\x7d]\x7d\x7d"⟩

theorem modelWithoutFields_mismatched : ∃ members, Mismatched modelWithoutFields members ∧
    "enums" ∉ members.map (·.1) ∧ "models" ∉ members.map (·.1) := by
  have hread : ((Json.parse modelWithoutFields.chars).toOption.bind Document.members?).any
      (fun members => decide (members.map (·.1) = ["datamodel"]) &&
        members.all fun member => (Document.bare? member.2).isNone) = true := by
    decide +kernel
  rcases hparse : Json.parse modelWithoutFields.chars with error | value
  · rw [hparse] at hread
    cases hread
  · rw [hparse] at hread
    cases value with
    | object members =>
        obtain ⟨hkeys, hvalues⟩ := Bool.and_eq_true_iff.mp hread
        have hkeys : members.map (·.1) = ["datamodel"] := of_decide_eq_true hkeys
        refine ⟨members, ⟨hparse, by simp [hkeys], ?_⟩, by simp [hkeys], by simp [hkeys]⟩
        intro value hvalue
        simpa using List.all_eq_true.mp hvalues _ hvalue
    | _ => cases hread

theorem load_of_mismatched_modelWithoutFields : ∃ members,
    Mismatched modelWithoutFields members ∧ load modelWithoutFields = .ok ⟨[], []⟩ := by
  obtain ⟨members, hmismatched, henums, hmodels⟩ := modelWithoutFields_mismatched
  exact ⟨members, hmismatched, (load_of_mismatched hmismatched).2.2 henums hmodels⟩

/-- The model without fields is not refused: the text is loaded as a datamodel with nothing in it. -/
theorem mismatched_not_always_refused : ¬ ∀ source members, Mismatched source members →
    ∃ fault, load source = .error (.badDatamodel source fault) := by
  intro hrefused
  obtain ⟨members, hmismatched, henums, hmodels⟩ := modelWithoutFields_mismatched
  obtain ⟨fault, hload⟩ := hrefused _ _ hmismatched
  rw [hmismatched.load, Document.bare?_of_notMem henums hmodels] at hload
  cases hload

end Datamodel

end EntityClasses
