import Mathlib.Data.List.Forall2
import EntityClasses.Proofs.Datamodel.Loading
import EntityClasses.Proofs.Json.Spelling

/-! The JSON documents that describe a datamodel. A record is an object with its members in any order. A
flag that is not set may be left out, a value of an enum is a name or an object with a name, and the whole
may be wrapped. Every such document is read as the datamodel that it describes. -/

namespace EntityClasses

namespace FieldType

/-- The kind under which a type is declared. -/
def kind : FieldType → Document.Kind
  | enum _ => .enum
  | relation _ => .object
  | other _ => .unsupported
  | int | float | string | boolean | dateTime | decimal | json => .scalar

theorem fieldType_kind (type : FieldType) : type.kind.fieldType type.name = type := by
  cases type <;> rfl

end FieldType

namespace Document

open Json

def Kind.name : Kind → String
  | scalar => "scalar"
  | enum => "enum"
  | object => "object"
  | unsupported => "unsupported"

theorem Kind.ofName?_name (kind : Kind) : ofName? kind.name = some kind := by
  cases kind <;> rfl

/-- An object with these members, in some order. -/
inductive IsRecord (members : List (String × Value)) : Value → Prop where
  | object {others : List (String × Value)} : others.Perm members →
      IsRecord members (.object others)

inductive DescribesEnumValue (name : String) : Value → Prop where
  | name : DescribesEnumValue name (.string name)
  | object : DescribesEnumValue name (.object [("name", .string name)])

def DescribesEnum (definition : EnumDefinition) (value : Value) : Prop :=
  ∃ values, List.Forall₂ DescribesEnumValue definition.values values ∧
    IsRecord [("name", .string definition.name), ("values", .array values)] value

/-- The members that give a flag. -/
inductive DescribesFlag (key : String) : Bool → List (String × Value) → Prop where
  | given (flag : Bool) : DescribesFlag key flag [(key, .bool flag)]
  | omitted : DescribesFlag key false []

def DescribesField (field : Field) (value : Value) : Prop :=
  ∃ required list, DescribesFlag "isRequired" field.isRequired required ∧
    DescribesFlag "isList" field.isList list ∧
    IsRecord ([("name", .string field.name), ("kind", .string field.type.kind.name),
      ("type", .string field.type.name)] ++ required ++ list) value

def DescribesModel (model : Model) (value : Value) : Prop :=
  ∃ fields, List.Forall₂ DescribesField model.fields fields ∧
    IsRecord [("name", .string model.name), ("fields", .array fields)] value

/-- A document that is a datamodel. -/
def DescribesBare (datamodel : Datamodel) (value : Value) : Prop :=
  ∃ enums models, List.Forall₂ DescribesEnum datamodel.enums enums ∧
    List.Forall₂ DescribesModel datamodel.models models ∧
    IsRecord [("enums", .array enums), ("models", .array models)] value

/-- A document that is a datamodel or wraps one. -/
inductive Describes (datamodel : Datamodel) : Value → Prop where
  | bare {value : Value} : DescribesBare datamodel value → Describes datamodel value
  | wrapped {value : Value} : DescribesBare datamodel value →
      Describes datamodel (.object [("datamodel", value)])

section Reading

/-- The value of a key does not depend on the order of the members. -/
theorem member?_perm {members others : List (String × Value)} (hperm : others.Perm members)
    (key : String) : member? others key = member? members key := by
  have hfilter : (others.filter (·.1 = key)).Perm (members.filter (·.1 = key)) := hperm.filter _
  rw [member?, member?]
  rcases hmembers : members.filter (·.1 = key) with _ | ⟨member, _ | ⟨next, rest⟩⟩
  · rw [hmembers] at hfilter ⊢
    rw [hfilter.eq_nil]
  · rw [hmembers] at hfilter ⊢
    rw [List.perm_singleton.mp hfilter]
  · rw [hmembers] at hfilter ⊢
    rcases hothers : others.filter (·.1 = key) with _ | ⟨first, _ | ⟨second, behind⟩⟩
    · simpa [hothers] using hfilter.length_eq
    · simpa [hothers] using hfilter.length_eq
    · rw [hothers]

theorem IsRecord.slots? {members : List (String × Value)} {value : Value}
    (hrecord : IsRecord members value) (keys : List String) :
    slots? keys value = keys.mapM (member? members) := by
  obtain ⟨hperm⟩ := hrecord
  rw [Document.slots?]
  congr 1
  funext key
  exact member?_perm hperm key

theorem list?_array {α : Type} {describes : α → Value → Prop} {read : Value → Option α}
    (hread : ∀ a value, describes a value → read value = some a) {as : List α} {values : List Value}
    (hvalues : List.Forall₂ describes as values) : list? read (.array values) = some as := by
  change values.mapM read = some as
  induction hvalues with
  | nil => rfl
  | cons hvalue _ ih => simp [hread _ _ hvalue, ih]

theorem namedList?_of_isRecord {α β : Type} {describes : α → Value → Prop} {read : Value → Option α}
    (hread : ∀ a value, describes a value → read value = some a) (make : String → List α → β)
    {listKey name : String} {as : List α} {values : List Value} {value : Value} (hkey : listKey ≠ "name")
    (hvalues : List.Forall₂ describes as values)
    (hrecord : IsRecord [("name", .string name), (listKey, .array values)] value) :
    namedList? listKey read make value = some (make name as) := by
  have hslots : slots? ["name", listKey] value = some [some (.string name), some (.array values)] := by
    rw [hrecord.slots?]
    simp [member?, hkey, hkey.symm]
  rw [namedList?, hslots]
  simp [required?, string?, list?_array hread hvalues]

theorem enumValue?_of_describes (name : String) (value : Value)
    (hdescribes : DescribesEnumValue name value) : enumValue? value = some name := by
  cases hdescribes <;> rfl

theorem enum?_of_describes (definition : EnumDefinition) (value : Value)
    (hdescribes : DescribesEnum definition value) : enum? value = some definition := by
  obtain ⟨values, hvalues, hrecord⟩ := hdescribes
  rw [enum?_eq_namedList?]
  exact namedList?_of_isRecord enumValue?_of_describes EnumDefinition.mk (by decide) hvalues hrecord

theorem field?_of_describes (field : Field) (value : Value)
    (hdescribes : DescribesField field value) : field? value = some field := by
  obtain ⟨required, list, hrequired, hlist, hrecord⟩ := hdescribes
  have hflags : ∃ requiredFlag listFlag, slots? ["name", "kind", "type", "isRequired", "isList"] value =
        some [some (.string field.name), some (.string field.type.kind.name),
          some (.string field.type.name), requiredFlag, listFlag] ∧
      optional? false bool? requiredFlag = some field.isRequired ∧
      optional? false bool? listFlag = some field.isList := by
    rw [hrecord.slots?]
    obtain ⟨name, type, isRequired, isList⟩ := field
    cases hrequired <;> cases hlist <;> exact ⟨_, _, rfl, rfl, rfl⟩
  obtain ⟨requiredFlag, listFlag, hslots, hisRequired, hisList⟩ := hflags
  rw [field?, hslots]
  simp [required?, string?, kind?, Kind.ofName?_name, FieldType.fieldType_kind, hisRequired, hisList]

theorem model?_of_describes (model : Model) (value : Value) (hdescribes : DescribesModel model value) :
    model? value = some model := by
  obtain ⟨fields, hfields, hrecord⟩ := hdescribes
  rw [model?_eq_namedList?]
  exact namedList?_of_isRecord field?_of_describes Model.mk (by decide) hfields hrecord

theorem bare?_of_describes {datamodel : Datamodel} {value : Value}
    (hdescribes : DescribesBare datamodel value) : bare? value = some datamodel := by
  obtain ⟨enums, models, henums, hmodels, hrecord⟩ := hdescribes
  have hslots : slots? ["enums", "models"] value =
      some [some (.array enums), some (.array models)] := hrecord.slots? _
  rw [bare?, hslots]
  simp [optional?, list?_array enum?_of_describes henums, list?_array model?_of_describes hmodels]

/-- A datamodel that is not wrapped has no member `datamodel`. -/
theorem wrapped?_of_describesBare {datamodel : Datamodel} {value : Value}
    (hdescribes : DescribesBare datamodel value) : wrapped? value = none := by
  obtain ⟨enums, models, -, -, hrecord⟩ := hdescribes
  obtain ⟨hperm⟩ := hrecord
  rw [wrapped?, member?_perm hperm]
  rfl

/-- Reading a document undoes describing a datamodel. -/
theorem datamodel?_of_describes {datamodel : Datamodel} {value : Value}
    (hdescribes : Describes datamodel value) : datamodel? value = some datamodel := by
  cases hdescribes with
  | bare hbare =>
      rw [datamodel?, wrapped?_of_describesBare hbare, bare?_of_describes hbare]
      rfl
  | @wrapped value hbare =>
      have hwrapped : wrapped? (.object [("datamodel", value)]) = bare? value := rfl
      rw [datamodel?, hwrapped, bare?_of_describes hbare]
      rfl

end Reading

/-! Every datamodel is described by a document, and every document that describes one can be written. -/

section Existence

theorem IsRecord.self (members : List (String × Value)) : IsRecord members (.object members) :=
  .object (.refl members)

theorem exists_forall₂ {α β : Type} {R : α → β → Prop} (hR : ∀ a, ∃ b, R a b) (as : List α) :
    ∃ bs, List.Forall₂ R as bs := by
  induction as with
  | nil => exact ⟨[], .nil⟩
  | cons a as ih =>
      obtain ⟨b, hb⟩ := hR a
      obtain ⟨bs, hbs⟩ := ih
      exact ⟨b :: bs, .cons hb hbs⟩

theorem exists_describesEnum (definition : EnumDefinition) :
    ∃ value, DescribesEnum definition value := by
  obtain ⟨values, hvalues⟩ := exists_forall₂ (R := DescribesEnumValue) (fun _ => ⟨_, .name⟩)
    definition.values
  exact ⟨_, values, hvalues, .self _⟩

theorem exists_describesModel (model : Model) : ∃ value, DescribesModel model value := by
  obtain ⟨fields, hfields⟩ := exists_forall₂ (R := DescribesField)
    (fun field => ⟨_, _, _, .given _, .given _, .self _⟩) model.fields
  exact ⟨_, fields, hfields, .self _⟩

theorem exists_describesBare (datamodel : Datamodel) : ∃ value, DescribesBare datamodel value := by
  obtain ⟨enums, henums⟩ := exists_forall₂ exists_describesEnum datamodel.enums
  obtain ⟨models, hmodels⟩ := exists_forall₂ exists_describesModel datamodel.models
  exact ⟨_, enums, models, henums, hmodels, .self _⟩

variable {depth : Nat}

theorem exists_spelled_of_isRecord {members : List (String × Value)} {value : Value}
    (hrecord : IsRecord members value)
    (hmembers : ∀ member ∈ members, ∃ s, Spelled depth member.2 s) :
    ∃ s, Spelled (depth + 1) value s := by
  obtain ⟨hperm⟩ := hrecord
  exact exists_spelled_object fun member hmember => hmembers member (hperm.mem_iff.mp hmember)

theorem exists_spelled_of_forall₂ {α : Type} {describes : α → Value → Prop}
    (hspelled : ∀ a value, describes a value → ∃ s, Spelled depth value s) {as : List α}
    {values : List Value} (hvalues : List.Forall₂ describes as values) :
    ∃ s, Spelled (depth + 1) (.array values) s := by
  apply exists_spelled_array
  induction hvalues with
  | nil => simp
  | cons hvalue _ ih =>
      rw [List.forall_mem_cons]
      exact ⟨hspelled _ _ hvalue, ih⟩

theorem exists_spelled_enumValue (name : String) (value : Value)
    (hdescribes : DescribesEnumValue name value) : ∃ s, Spelled (depth + 1) value s := by
  cases hdescribes with
  | name => exact exists_spelled_string _ _
  | object => exact exists_spelled_object (by simp [exists_spelled_string])

theorem exists_spelled_enum (definition : EnumDefinition) (value : Value)
    (hdescribes : DescribesEnum definition value) : ∃ s, Spelled (depth + 3) value s := by
  obtain ⟨values, hvalues, hrecord⟩ := hdescribes
  refine exists_spelled_of_isRecord hrecord ?_
  simp [exists_spelled_string, exists_spelled_of_forall₂ exists_spelled_enumValue hvalues]

theorem exists_spelled_flag {key : String} {flag : Bool} {members : List (String × Value)}
    (hdescribes : DescribesFlag key flag members) :
    ∀ member ∈ members, ∃ s, Spelled depth member.2 s := by
  cases hdescribes <;> simp [exists_spelled_bool]

theorem exists_spelled_field (field : Field) (value : Value)
    (hdescribes : DescribesField field value) : ∃ s, Spelled (depth + 1) value s := by
  obtain ⟨required, list, hrequired, hlist, hrecord⟩ := hdescribes
  refine exists_spelled_of_isRecord hrecord ?_
  intro member hmember
  rcases List.mem_append.mp hmember with hfront | hlast
  · rcases List.mem_append.mp hfront with hnames | hmiddle
    · simp only [List.mem_cons, List.not_mem_nil, or_false] at hnames
      rcases hnames with rfl | rfl | rfl <;> exact exists_spelled_string _ _
    · exact exists_spelled_flag hrequired member hmiddle
  · exact exists_spelled_flag hlist member hlast

theorem exists_spelled_model (model : Model) (value : Value)
    (hdescribes : DescribesModel model value) : ∃ s, Spelled (depth + 3) value s := by
  obtain ⟨fields, hfields, hrecord⟩ := hdescribes
  refine exists_spelled_of_isRecord hrecord ?_
  simp [exists_spelled_string, exists_spelled_of_forall₂ exists_spelled_field hfields]

theorem exists_spelled_bare {datamodel : Datamodel} {value : Value}
    (hdescribes : DescribesBare datamodel value) : ∃ s, Spelled (depth + 5) value s := by
  obtain ⟨enums, models, henums, hmodels, hrecord⟩ := hdescribes
  refine exists_spelled_of_isRecord hrecord ?_
  simp [exists_spelled_of_forall₂ exists_spelled_enum henums,
    exists_spelled_of_forall₂ exists_spelled_model hmodels]

/-- A document nests six levels at most, which leaves room below the greatest depth. -/
theorem exists_isText_of_describes {datamodel : Datamodel} {value : Value}
    (hdescribes : Describes datamodel value) : ∃ s, IsText value s := by
  have hspelled : ∃ s, Spelled (121 + 6) value s := by
    cases hdescribes with
    | bare hbare => exact exists_spelled_bare hbare
    | wrapped hbare => exact exists_spelled_object (by simp [exists_spelled_bare hbare])
  obtain ⟨s, hs⟩ := hspelled
  exact ⟨s, .of_spelled hs⟩

end Existence

end Document

namespace Datamodel

/-- **Loading undoes writing.** A datamodel with distinct names is described by some document, every
document that describes it can be written, and each of its texts is loaded as that datamodel. -/
theorem load_of_isText (datamodel : Datamodel) (hdistinct : datamodel.Distinct) :
    (∃ value, Document.DescribesBare datamodel value) ∧
    ∀ value, Document.Describes datamodel value →
      (∃ s, Json.IsText value s) ∧
      ∀ source : SourceText, Json.IsText value source.chars → load source = .ok datamodel := by
  refine ⟨Document.exists_describesBare datamodel, fun value hdescribes =>
    ⟨Document.exists_isText_of_describes hdescribes, fun source htext => ?_⟩⟩
  rw [load_of_parse htext.parse, Document.datamodel?_of_describes hdescribes]
  exact validate_of_distinct source hdistinct

/-- A datamodel in which a type without support has the name of a scalar. -/
def unsupportedInt : Datamodel :=
  ⟨[⟨"Role", ["ADMIN", "USER"]⟩],
    [⟨"User", [⟨"id", .int, true, false⟩, ⟨"code", .other "Int", false, true⟩]⟩]⟩

theorem load_of_isText_unsupportedInt : unsupportedInt.Distinct ∧
    ∃ value s, Document.Describes unsupportedInt value ∧
      load ⟨"dmmf.json", String.ofList s⟩ = .ok unsupportedInt := by
  have hdistinct : unsupportedInt.Distinct := ⟨by decide, by decide⟩
  obtain ⟨⟨value, hbare⟩, hload⟩ := load_of_isText unsupportedInt hdistinct
  have hwrapped := Document.Describes.wrapped hbare
  obtain ⟨⟨s, hs⟩, hsource⟩ := hload _ hwrapped
  refine ⟨hdistinct, _, s, hwrapped, hsource _ ?_⟩
  rwa [SourceText.chars, String.toList_ofList]

end Datamodel

end EntityClasses
