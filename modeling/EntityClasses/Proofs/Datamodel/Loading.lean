import EntityClasses.Datamodel.Load

/-! Loading a datamodel. Looking for a repeated name finds none exactly when the names are distinct, so a
datamodel passes its validation, as it is, exactly when its enums and its models have distinct names. -/

namespace EntityClasses

theorem firstRepeatedAfter_eq_none_iff (names seen : List String) :
    firstRepeatedAfter seen names = none ↔ names.Nodup ∧ ∀ name ∈ names, name ∉ seen := by
  induction names generalizing seen with
  | nil => simp [firstRepeatedAfter]
  | cons name names ih =>
      rw [firstRepeatedAfter, List.nodup_cons]
      by_cases hseen : name ∈ seen
      · simp [hseen]
      · rw [if_neg hseen, ih]
        simp only [List.mem_cons, not_or, forall_eq_or_imp]
        constructor
        · rintro ⟨hnodup, hnew⟩
          exact ⟨⟨fun hmem => (hnew name hmem).1 rfl, hnodup⟩, hseen, fun other hmem => (hnew other hmem).2⟩
        · rintro ⟨⟨hname, hnodup⟩, -, hnew⟩
          refine ⟨hnodup, fun other hmem => ⟨?_, hnew other hmem⟩⟩
          rintro rfl
          exact hname hmem

theorem firstRepeated_eq_none_iff (names : List String) :
    firstRepeated names = none ↔ names.Nodup := by
  simp [firstRepeated, firstRepeatedAfter_eq_none_iff]

namespace Document

open Json

/-- A record of a name and a list, neither of which can be left out. Enums and models are such records. -/
def namedList? {α β : Type} (listKey : String) (item : Value → Option α) (make : String → List α → β)
    (value : Value) : Option β :=
  match slots? ["name", listKey] value with
  | some [name, list] => do
    pure (make (← required? string? name) (← required? (list? item) list))
  | _ => none

theorem enum?_eq_namedList? : enum? = namedList? "values" enumValue? EnumDefinition.mk :=
  rfl

theorem model?_eq_namedList? : model? = namedList? "fields" field? Model.mk :=
  rfl

end Document

namespace Datamodel

/-- No two enums and no two models have one name. -/
structure Distinct (datamodel : Datamodel) : Prop where
  enums : (datamodel.enums.map (·.name)).Nodup
  models : (datamodel.models.map (·.name)).Nodup

theorem checkNames_cases (source : SourceText) (kind : String) (names : List String) :
    (names.Nodup ∧ checkNames source kind names = .ok ()) ∨
    (¬ names.Nodup ∧ ∃ name, checkNames source kind names = .error (.duplicateName source kind name)) := by
  rw [checkNames, ← firstRepeated_eq_none_iff]
  rcases firstRepeated names with _ | name
  · exact Or.inl ⟨rfl, rfl⟩
  · exact Or.inr ⟨by simp, name, rfl⟩

/-- Validation refuses nothing but repeated names. -/
theorem validate_cases (source : SourceText) (datamodel : Datamodel) :
    (datamodel.Distinct ∧ datamodel.validate source = .ok datamodel) ∨
    (¬ datamodel.Distinct ∧
      ∃ kind name, datamodel.validate source = .error (.duplicateName source kind name)) := by
  rw [validate]
  rcases checkNames_cases source "enum" (datamodel.enums.map (·.name)) with
    ⟨henums, hchecked⟩ | ⟨henums, name, hrefused⟩
  · rw [hchecked]
    rcases checkNames_cases source "model" (datamodel.models.map (·.name)) with
      ⟨hmodels, hchecked⟩ | ⟨hmodels, name, hrefused⟩
    · rw [hchecked]
      exact Or.inl ⟨⟨henums, hmodels⟩, rfl⟩
    · rw [hrefused]
      exact Or.inr ⟨fun hdistinct => hmodels hdistinct.models, "model", name, rfl⟩
  · rw [hrefused]
    exact Or.inr ⟨fun hdistinct => henums hdistinct.enums, "enum", name, rfl⟩

theorem validate_of_distinct (source : SourceText) {datamodel : Datamodel}
    (hdistinct : datamodel.Distinct) : datamodel.validate source = .ok datamodel := by
  rcases validate_cases source datamodel with ⟨-, hvalidate⟩ | ⟨hrepeats, -⟩
  · exact hvalidate
  · exact absurd hdistinct hrepeats

theorem distinct_of_validate {source : SourceText} {datamodel validated : Datamodel}
    (hvalidate : datamodel.validate source = .ok validated) : validated.Distinct := by
  rcases validate_cases source datamodel with ⟨hdistinct, hok⟩ | ⟨-, kind, name, hrefused⟩
  · rw [hok] at hvalidate
    cases hvalidate
    exact hdistinct
  · rw [hrefused] at hvalidate
    cases hvalidate

/-- What is loaded has passed the validation. -/
theorem distinct_of_load {source : SourceText} {datamodel : Datamodel}
    (hload : load source = .ok datamodel) : datamodel.Distinct := by
  rw [load] at hload
  split at hload
  · cases hload
  · split at hload
    · cases hload
    · split at hload
      · cases hload
      · exact distinct_of_validate hload

theorem distinct_of_loadFile {path : Path} {tree : FileTree} {datamodel : Datamodel}
    (hload : ((loadFile path : StateM FileTree _).run tree).1 = .ok datamodel) :
    datamodel.Distinct := by
  rcases htext : tree.readText path with fault | text
  · have hread : (Storage.readText path : StateM FileTree _).run tree = (.error fault, tree) :=
      congrArg (·, tree) htext
    rw [loadFile, StateT.run_bind, hread] at hload
    cases hload
  · have hread : (Storage.readText path : StateM FileTree _).run tree = (.ok text, tree) :=
      congrArg (·, tree) htext
    rw [loadFile, StateT.run_bind, hread] at hload
    exact distinct_of_load hload

/-- What a text of a JSON value is loaded as depends on the value alone. -/
theorem load_of_parse {source : SourceText} {value : Json.Value}
    (hparse : Json.parse source.chars = .ok value) :
    load source =
      match Document.datamodel? value with
      | none => .error (.badDatamodel source .wrongShape)
      | some datamodel => datamodel.validate source := by
  rw [load]
  rw [Json.parse] at hparse
  rcases hread : Json.readFirst source.chars with error | ⟨first, rest⟩
  · rw [hread] at hparse
    cases hparse
  · rw [hread] at hparse
    rcases hend : Json.expectEnd rest with error | _
    · simp [bind, Except.bind, hend] at hparse
    · simp only [bind, Except.bind, hend, pure, Except.pure, Except.ok.injEq] at hparse
      subst hparse
      cases hshape : Document.datamodel? first <;> simp [hshape, hend]

/-- A value stands at the front of a text that is no datamodel. -/
def OpensWithOtherShape (source : SourceText) : Prop :=
  ∃ value rest, Json.readFirst source.chars = .ok (value, rest) ∧ Document.datamodel? value = none

/-- A text that is no JSON is refused for the shape of the value at its front if that is no datamodel, and for
its syntax otherwise. -/
theorem load_of_parse_error {source : SourceText} {error : Json.SyntaxError}
    (hparse : Json.parse source.chars = .error error) :
    (OpensWithOtherShape source ∧ load source = .error (.badDatamodel source .wrongShape)) ∨
    (¬ OpensWithOtherShape source ∧ load source = .error (.badDatamodel source (.notJson error))) := by
  rw [load, OpensWithOtherShape]
  rw [Json.parse] at hparse
  rcases hread : Json.readFirst source.chars with cause | ⟨first, rest⟩
  · rw [hread] at hparse
    cases hparse
    exact Or.inr ⟨nofun, rfl⟩
  · rw [hread] at hparse
    dsimp only
    rcases hshape : Document.datamodel? first with _ | datamodel
    · exact Or.inl ⟨⟨first, rest, rfl, hshape⟩, rfl⟩
    · refine Or.inr ⟨?_, ?_⟩
      · rintro ⟨value, behind, hvalue, hother⟩
        cases hvalue
        rw [hshape] at hother
        cases hother
      · rcases hend : Json.expectEnd rest with cause | _
        · simp only [bind, Except.bind, hend] at hparse
          cases hparse
          rfl
        · simp [bind, Except.bind, hend, pure, Except.pure] at hparse

end Datamodel

end EntityClasses
