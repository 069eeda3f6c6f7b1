import EntityClasses.Proofs.Datamodel.Mismatch
import EntityClasses.Proofs.Datamodel.RepeatedNames
import EntityClasses.Proofs.Schema.NameMembers

/-! The label of a repeated name and the declaration it is meant for. The declaration has a place of its own,
found by following the structure of the document; the label is put at the second member of any object that has
the name, whatever the object is. -/

namespace EntityClasses

namespace Datamodel

/-- The names of the declarations of a kind. -/
def namesOfKind (datamodel : Datamodel) : String → List String
  | "enum" => datamodel.enumNames
  | "model" => datamodel.modelNames
  | _ => []

end Datamodel

namespace Document

open Json

/-- The index of the part of a record under a key, or at an index if the record is an array. -/
def partIndex? (key : String) (index : Nat) : Value → Option Nat
  | .object members => members.findIdx? (·.1 = key)
  | .array _ => some index
  | _ => none

/-- The key of the declarations of a kind in a datamodel, and their index. -/
def declarations? : String → Option (String × Nat)
  | "enum" => some ("enums", 0)
  | "model" => some ("models", 1)
  | _ => none

/-- The path to the datamodel of a document. -/
def datamodelPath? (value : Value) : Option (List Nat) :=
  if (wrapped? value).isSome then (partIndex? "datamodel" 0 value).map ([·]) else some []

/-- The path to the name of the declaration of a kind at a position. -/
def namePath? (kind : String) (position : Nat) (value : Value) : Option (List Nat) := do
  let (key, index) ← declarations? kind
  let front ← datamodelPath? value
  let datamodel ← value.at? front
  let list ← partIndex? key index datamodel
  let declaration ← datamodel.at? [list, position]
  let name ← partIndex? "name" 0 declaration
  pure (front ++ [list, position, name])

section Parts

variable {members : List (String × Value)} {key : String} {value part : Value}

theorem getElem?_of_mapM {α β : Type} {f : α → Option β} {as : List α} {bs : List β}
    (hmap : as.mapM f = some bs) (index : Nat) : bs[index]? = as[index]?.bind f := by
  induction as generalizing bs index with
  | nil =>
      cases hmap
      rfl
  | cons a as ih =>
      rw [List.mapM_cons] at hmap
      obtain ⟨b, hb, hmap⟩ := Option.bind_eq_some_iff.mp hmap
      obtain ⟨others, hothers, hmap⟩ := Option.bind_eq_some_iff.mp hmap
      cases hmap
      cases index with
      | zero => exact hb.symm
      | succ index => exact ih hothers index

/-- A key that does not repeat has its value at the index of the first member with the key. -/
theorem findIdx?_of_member? (hmember : member? members key = some (some part)) :
    ∃ index, members.findIdx? (·.1 = key) = some index ∧ members[index]?.map (·.2) = some part := by
  rw [member?] at hmember
  split at hmember
  · cases hmember
  · next member hfilter =>
      obtain rfl : member.2 = part := Option.some.inj (Option.some.inj hmember)
      have hmem : member ∈ members.filter (·.1 = key) := hfilter ▸ List.mem_singleton_self member
      obtain ⟨hmember, hkey⟩ := List.mem_filter.mp hmem
      have hsome : (members.findIdx? (·.1 = key)).isSome = true := by
        rw [List.findIdx?_isSome]
        exact List.any_eq_true.mpr ⟨member, hmember, hkey⟩
      obtain ⟨index, hindex⟩ := Option.isSome_iff_exists.mp hsome
      obtain ⟨hlt, hkey, -⟩ := List.findIdx?_eq_some_iff_getElem.mp hindex
      have hfirst : members[index] ∈ members.filter (·.1 = key) :=
        List.mem_filter.mpr ⟨List.getElem_mem hlt, hkey⟩
      rw [hfilter, List.mem_singleton] at hfirst
      refine ⟨index, hindex, ?_⟩
      rw [List.getElem?_eq_getElem hlt, hfirst, Option.map_some]
  · cases hmember

/-- The part of a record that is read under a key stands at the index of the key. -/
theorem partIndex?_of_slots? {keys : List String} {slots : List (Option Value)} {index : Nat}
    (hslots : slots? keys value = some slots) (hkey : keys[index]? = some key)
    (hpart : slots[index]? = some (some part)) :
    ∃ i, partIndex? key index value = some i ∧ value.part? i = some part := by
  cases value with
  | object members =>
      have hmember : member? members key = some (some part) := by
        have hslot := getElem?_of_mapM hslots index
        rwa [hkey, hpart, Option.bind_some, eq_comm] at hslot
      exact findIdx?_of_member? hmember
  | array items =>
      refine ⟨index, rfl, ?_⟩
      rw [slots?] at hslots
      split at hslots
      · cases hslots
        rw [List.getElem?_map] at hpart
        obtain ⟨i, hi, hpart⟩ := Option.map_eq_some_iff.mp hpart
        obtain ⟨hlt, rfl⟩ := List.getElem?_eq_some_iff.mp hi
        rwa [List.getElem_range] at hpart
      · cases hslots
  | _ => cases hslots

theorem required?_string?_eq_some {slot : Option Value} {name : String}
    (hread : required? string? slot = some name) : slot = some (.string name) := by
  cases slot with
  | none => cases hread
  | some value =>
      cases value with
      | string text => rw [Option.some.inj hread]
      | _ => cases hread

/-- Whatever this reader reads has its name at the first part of the record. -/
def ReadsName {β : Type} (read : Value → Option β) (nameOf : β → String) : Prop :=
  ∀ value b, read value = some b →
    ∃ i, partIndex? "name" 0 value = some i ∧ value.part? i = some (.string (nameOf b))

theorem readsName_namedList? {α β : Type} (listKey : String) (item : Value → Option α)
    {make : String → List α → β} {nameOf : β → String} (hname : ∀ name as, nameOf (make name as) = name) :
    ReadsName (namedList? listKey item make) nameOf := by
  intro value b hb
  unfold namedList? at hb
  split at hb
  · next name list hslots =>
      obtain ⟨text, htext, hb⟩ := Option.bind_eq_some_iff.mp hb
      obtain ⟨as, -, hb⟩ := Option.bind_eq_some_iff.mp hb
      cases hb
      rw [hname]
      refine partIndex?_of_slots? hslots rfl ?_
      rw [required?_string?_eq_some htext]
      rfl
  · cases hb

theorem readsName_enum? : ReadsName enum? (·.name) :=
  readsName_namedList? "values" enumValue? fun _ _ => rfl

theorem readsName_model? : ReadsName model? (·.name) :=
  readsName_namedList? "fields" field? fun _ _ => rfl

/-- A declaration that is read stands in the list of its kind. -/
theorem exists_item_of_optional? {α : Type} {read : Value → Option α} {slot : Option Value} {as : List α}
    {position : Nat} {a : α} (hread : optional? [] (list? read) slot = some as)
    (hposition : as[position]? = some a) :
    ∃ items item, slot = some (.array items) ∧ items[position]? = some item ∧ read item = some a := by
  cases slot with
  | none =>
      cases hread
      cases hposition
  | some value =>
      cases value with
      | array items =>
          have hitem := getElem?_of_mapM hread position
          rw [hposition] at hitem
          obtain ⟨item, hitem, hread⟩ := Option.bind_eq_some_iff.mp hitem.symm
          exact ⟨items, item, rfl, hitem, hread⟩
      | _ => cases hread

/-- The path of two steps from a datamodel to the item of a list. -/
theorem at?_of_part? {list position : Nat} {items : List Value} {item : Value}
    (hlist : value.part? list = some (.array items)) (hitem : items[position]? = some item) :
    value.at? [list, position] = some item := by
  unfold Value.at?
  rw [hlist, Option.bind_some]
  unfold Value.at?
  rw [Value.part?, hitem]
  rfl

/-- Where the name of a declaration of a list stands. -/
theorem exists_declaration_of_slots? {β : Type} {keys : List String} {slots : List (Option Value)}
    {index position : Nat} {slot : Option Value} {read : Value → Option β} {nameOf : β → String}
    {bs : List β} {name : String} (hslots : slots? keys value = some slots)
    (hkey : keys[index]? = some key) (hslot : slots[index]? = some slot)
    (hread : optional? [] (list? read) slot = some bs) (hreads : ReadsName read nameOf)
    (hname : (bs.map nameOf)[position]? = some name) :
    ∃ list item i, partIndex? key index value = some list ∧ value.at? [list, position] = some item ∧
      partIndex? "name" 0 item = some i ∧ item.part? i = some (.string name) := by
  rw [List.getElem?_map] at hname
  obtain ⟨b, hb, rfl⟩ := Option.map_eq_some_iff.mp hname
  obtain ⟨items, item, rfl, hitem, hread⟩ := exists_item_of_optional? hread hb
  obtain ⟨list, hlist, hitems⟩ := partIndex?_of_slots? hslots hkey hslot
  obtain ⟨i, hi, hpart⟩ := hreads item b hread
  exact ⟨list, item, i, hlist, at?_of_part? hitems hitem, hi, hpart⟩

/-- Where the name of a declaration of a datamodel stands. -/
theorem exists_declaration_of_bare? {datamodel : Datamodel} {kind name : String} {position : Nat}
    (hread : bare? value = some datamodel) (hname : (datamodel.namesOfKind kind)[position]? = some name) :
    ∃ key index list item i, declarations? kind = some (key, index) ∧
      partIndex? key index value = some list ∧ value.at? [list, position] = some item ∧
      partIndex? "name" 0 item = some i ∧ item.part? i = some (.string name) := by
  unfold bare? at hread
  split at hread
  · next enums models hslots =>
      obtain ⟨definitions, henums, hread⟩ := Option.bind_eq_some_iff.mp hread
      obtain ⟨classes, hmodels, hread⟩ := Option.bind_eq_some_iff.mp hread
      cases hread
      unfold Datamodel.namesOfKind at hname
      split at hname
      · have hkey : ["enums", "models"][0]? = some "enums" := rfl
        obtain ⟨list, item, i, hplace⟩ :=
          exists_declaration_of_slots? hslots hkey rfl henums readsName_enum? hname
        exact ⟨"enums", 0, list, item, i, rfl, hplace⟩
      · have hkey : ["enums", "models"][1]? = some "models" := rfl
        obtain ⟨list, item, i, hplace⟩ :=
          exists_declaration_of_slots? hslots hkey rfl hmodels readsName_model? hname
        exact ⟨"models", 1, list, item, i, rfl, hplace⟩
      · cases hname
  · cases hread

theorem exists_datamodelPath? {datamodel : Datamodel} (hread : datamodel? value = some datamodel) :
    ∃ path bare, datamodelPath? value = some path ∧ value.at? path = some bare ∧
      bare? bare = some datamodel := by
  unfold datamodelPath?
  unfold datamodel? at hread
  cases hwrapped : wrapped? value with
  | none =>
      rw [hwrapped, Option.none_or] at hread
      exact ⟨[], value, rfl, rfl, hread⟩
  | some wrapped =>
      rw [hwrapped, Option.some_or] at hread
      obtain rfl : wrapped = datamodel := Option.some.inj hread
      cases value with
      | object members =>
          obtain ⟨slot, hmember, hread⟩ := Option.bind_eq_some_iff.mp hwrapped
          cases slot with
          | none => cases hread
          | some bare =>
              obtain ⟨index, hindex, hpart⟩ := findIdx?_of_member? hmember
              refine ⟨[index], bare, ?_, ?_, hread⟩
              · rw [Option.isSome_some, if_pos rfl, partIndex?, hindex]
                rfl
              · unfold Value.at?
                rw [Value.part?, hpart]
                rfl
      | _ => cases hwrapped

/-- The path leads to the name of the declaration. -/
theorem exists_namePath? {datamodel : Datamodel} {kind name : String} {position : Nat}
    (hread : datamodel? value = some datamodel)
    (hname : (datamodel.namesOfKind kind)[position]? = some name) :
    ∃ path, namePath? kind position value = some path ∧ value.at? path = some (.string name) := by
  obtain ⟨front, bare, hfront, hbare, hread⟩ := exists_datamodelPath? hread
  obtain ⟨key, index, list, item, i, hkind, hlist, hitem, hi, hpart⟩ :=
    exists_declaration_of_bare? hread hname
  refine ⟨front ++ [list, position, i], ?_, ?_⟩
  · unfold namePath?
    simp only [hkind, hfront, hbare, hlist, hitem, hi, bind, Option.bind_some, pure]
  · calc value.at? (front ++ [list, position, i])
        = (value.at? front).bind (·.at? ([list, position] ++ [i])) := value.at?_append front _
      _ = (bare.at? [list, position]).bind (·.at? [i]) := by
          rw [hbare, Option.bind_some, bare.at?_append]
      _ = (item.part? i).bind (·.at? []) := by
          rw [hitem, Option.bind_some]
          rfl
      _ = some (.string name) := by
          rw [hpart]
          rfl

end Parts

end Document

namespace SourceText

open Json Text

/-- The place of the name of the declaration of a kind at a position. -/
def declaredNamePlace? (source : SourceText) (kind : String) (position : Nat) : Option Span := do
  let value ← (parse source.chars).toOption
  let path ← Document.namePath? kind position value
  source.stringPlaceAt? path

end SourceText

namespace Datamodel

open Text

/-- Whether the declaration of a kind at a position is the second one with its name. -/
inductive SecondDeclaration (source : SourceText) (kind name : String) (position : Nat) : Prop where
  | read {value : Json.Value} {datamodel : Datamodel} : Json.parse source.chars = .ok value →
      Document.datamodel? value = some datamodel → (datamodel.namesOfKind kind)[position]? = some name →
      ((datamodel.namesOfKind kind).take position).count name = 1 →
      SecondDeclaration source kind name position

section Labels

variable {source : SourceText} {kind name : String}

/-- A repeated name is reported of a document that is read. -/
theorem refusedFor_of_load (hload : load source = .error (.duplicateName source kind name)) :
    ∃ value datamodel, Json.parse source.chars = .ok value ∧
      Document.datamodel? value = some datamodel ∧ datamodel.RefusedFor kind name := by
  cases hparse : Json.parse source.chars with
  | error error =>
      rcases load_of_parse_error hparse with ⟨-, hfails⟩ | ⟨-, hfails⟩ <;>
        (rw [hfails] at hload; cases hload)
  | ok value =>
      rw [load_of_parse hparse] at hload
      cases hshape : Document.datamodel? value with
      | none =>
          rw [hshape] at hload
          cases hload
      | some datamodel =>
          rw [hshape] at hload
          have hload : datamodel.validate source = .error (.duplicateName source kind name) := hload
          have hrepeats : ¬ datamodel.Distinct := by
            intro hdistinct
            rw [validate_of_distinct source hdistinct] at hload
            cases hload
          obtain ⟨other, first, hrefused⟩ := exists_refusedFor hrepeats
          rw [validate_of_refusedFor source hrefused] at hload
          cases hload
          exact ⟨value, datamodel, rfl, hshape, hrefused⟩

theorem RefusedFor.exists_position {datamodel : Datamodel} (hrefused : datamodel.RefusedFor kind name) :
    ∃ position, FirstRepeat (datamodel.namesOfKind kind) position name := by
  cases hrefused with
  | enum hrepeat => exact ⟨_, hrepeat⟩
  | model _ hrepeat => exact ⟨_, hrepeat⟩

theorem exists_secondDeclaration (hload : load source = .error (.duplicateName source kind name)) :
    ∃ position, SecondDeclaration source kind name position := by
  obtain ⟨value, datamodel, hparse, hshape, hrefused⟩ := refusedFor_of_load hload
  obtain ⟨position, hrepeat⟩ := hrefused.exists_position
  refine ⟨position, .read hparse hshape hrepeat.here ?_⟩
  exact List.count_eq_one_of_mem hrepeat.nodup_take hrepeat.before

theorem SecondDeclaration.exists_place {position : Nat}
    (hsecond : SecondDeclaration source kind name position) :
    ∃ place, source.declaredNamePlace? kind position = some place ∧ source.HoldsString name place := by
  obtain ⟨hparse, hshape, hname, -⟩ := hsecond
  obtain ⟨path, hpath, hpart⟩ := Document.exists_namePath? hshape hname
  obtain ⟨place, hplace, hholds⟩ := SourceText.exists_stringPlaceAt? hparse hpart
  refine ⟨place, ?_, hholds⟩
  unfold SourceText.declaredNamePlace?
  simp only [hparse, Except.toOption, hpath, hplace, bind, Option.bind_some]

/-- **The label of a repeated name marks its second declaration** exactly when the declaration writes its name
as it is, under a key that is written as it is, and exactly one member in front of it does so as well. That
member may be one of any object of the document: of a declaration of either kind, of a field, of an enum
value, or of an object that nothing reads. -/
theorem label_marks_second_iff {span : Span}
    (hload : load source = .error (.duplicateName source kind name))
    (hlabel : (SchemaError.duplicateName source kind name).span? = some span) :
    (∃ position, SecondDeclaration source kind name position) ∧
    ∀ position, SecondDeclaration source kind name position → ∃ place,
      source.declaredNamePlace? kind position = some place ∧ source.HoldsString name place ∧
      (span = place ↔ source.NameMember name place ∧
        ∃! earlier, source.NameMember name earlier ∧ earlier.offset < place.offset) := by
  refine ⟨exists_secondDeclaration hload, ?_⟩
  intro position hsecond
  obtain ⟨place, hplace, hholds⟩ := hsecond.exists_place
  refine ⟨place, hplace, hholds, ?_⟩
  obtain ⟨hparse, -⟩ := hsecond
  have hlabel : source.secondNamePlace? name = some span := hlabel
  by_cases hname : '"' ∉ name.toList ∧ '\\' ∉ name.toList
  · obtain ⟨hquote, hbackslash⟩ := hname
    simp only [SourceText.nameMember_iff_readsName hparse hquote hbackslash]
    rw [← SourceText.secondNamePlace?_eq_some_iff hquote, hlabel, Option.some.injEq]
  · -- a name with a quote or a backslash is never written as it is
    have hescaped : ∀ front, OccursBehind (betweenQuotes name.toList) source.chars front →
        place ≠ ⟨Text.size front + 1, Text.size name.toList⟩ :=
      fun front hoccurs heq => hname (hholds.plain hoccurs heq)
    constructor
    · rintro rfl
      obtain ⟨front, hoccurs, hspan⟩ :=
        SourceText.occursBehind_of_mem_namePlaces (List.mem_of_getElem? hlabel)
      exact absurd hspan (hescaped front hoccurs)
    · rintro ⟨⟨-, -, -, -, -, front, gap, -, -, hoccurs, heq⟩, -⟩
      exact absurd heq (hescaped front hoccurs)

/-- Whatever it marks, the label marks the name in some member of the document. -/
theorem nameMember_of_label {span : Span} (hquote : '"' ∉ name.toList) (hbackslash : '\\' ∉ name.toList)
    (hload : load source = .error (.duplicateName source kind name))
    (hlabel : (SchemaError.duplicateName source kind name).span? = some span) :
    source.NameMember name span := by
  obtain ⟨value, datamodel, hparse, -⟩ := refusedFor_of_load hload
  obtain ⟨hreads, -⟩ := (SourceText.secondNamePlace?_eq_some_iff hquote).mp hlabel
  exact hreads.nameMember hparse hquote hbackslash

end Labels

/-- Two models of one name. -/
def twoModels : SourceText :=
  ⟨"dmmf.json", "\x7b\"models\":[\x7b\"name\":\"A\",\"fields\":[]\x7d," ++
    "\x7b\"name\":\"A\",\"fields\":[]\x7d]\x7d"⟩

theorem twoModels_secondDeclaration : SecondDeclaration twoModels "model" "A" 1 := by
  have hread : (Json.parse twoModels.chars).toOption.bind Document.datamodel? =
      some ⟨[], [⟨"A", []⟩, ⟨"A", []⟩]⟩ := by
    decide +kernel
  obtain ⟨value, hparse, hshape⟩ := exists_parse_of_toOption hread
  exact .read hparse hshape rfl (by decide)

/-- The label marks the second of them, in front of which the first one reads `A` as well. -/
theorem label_marks_second_twoModels :
    load twoModels = .error (.duplicateName twoModels "model" "A") ∧
    ∃ place, (SchemaError.duplicateName twoModels "model" "A").span? = some place ∧
      twoModels.declaredNamePlace? "model" 1 = some place ∧ twoModels.NameMember "A" place := by
  have hload : load twoModels = .error (.duplicateName twoModels "model" "A") := by decide +kernel
  have hlabel : (SchemaError.duplicateName twoModels "model" "A").span? = some ⟨45, 1⟩ := by decide +kernel
  have hdeclared : twoModels.declaredNamePlace? "model" 1 = some ⟨45, 1⟩ := by decide +kernel
  obtain ⟨place, hplace, -, hmarks⟩ := (label_marks_second_iff hload hlabel).2 1 twoModels_secondDeclaration
  obtain rfl : ⟨45, 1⟩ = place := Option.some.inj (hdeclared.symm.trans hplace)
  exact ⟨hload, ⟨45, 1⟩, hlabel, hdeclared, (hmarks.mp rfl).1⟩

/-- A model with a field of its own name, and a second model of that name. -/
def fieldInFront : SourceText :=
  ⟨"dmmf.json", "\x7b\"models\":[\x7b\"name\":\"A\",\"fields\":[\x7b\"name\":\"A\",\"kind\":\"scalar\"," ++
    "\"type\":\"Int\"\x7d]\x7d,\x7b\"name\":\"A\",\"fields\":[]\x7d]\x7d"⟩

/-- The label marks the field. -/
theorem label_not_always_marks_second : ¬ ∀ (source : SourceText) (kind name : String) (position : Nat)
    (span : Span), load source = .error (.duplicateName source kind name) →
    (SchemaError.duplicateName source kind name).span? = some span →
    SecondDeclaration source kind name position →
    source.declaredNamePlace? kind position = some span := by
  intro hmarks
  have hread : (Json.parse fieldInFront.chars).toOption.bind Document.datamodel? =
      some ⟨[], [⟨"A", [⟨"A", .int, false, false⟩]⟩, ⟨"A", []⟩]⟩ := by
    decide +kernel
  obtain ⟨value, hparse, hshape⟩ := exists_parse_of_toOption hread
  have hload : load fieldInFront = .error (.duplicateName fieldInFront "model" "A") := by decide +kernel
  have hlabel : (SchemaError.duplicateName fieldInFront "model" "A").span? = some ⟨42, 1⟩ := by
    decide +kernel
  have hplace := hmarks fieldInFront "model" "A" 1 ⟨42, 1⟩ hload hlabel
    (.read hparse hshape rfl (by decide))
  have hdeclared : fieldInFront.declaredNamePlace? "model" 1 = some ⟨86, 1⟩ := by decide +kernel
  rw [hdeclared] at hplace
  cases hplace

end Datamodel

end EntityClasses
