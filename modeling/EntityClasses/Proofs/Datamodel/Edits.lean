import Mathlib.Data.List.Forall2
import Mathlib.Logic.Relation
import EntityClasses.Proofs.Datamodel.Describing
import EntityClasses.Proofs.Datamodel.RepeatedNames

/-! Edits of a document that loading does not see: the members of any object may change places, and a record
may be given members that it does not know. What a value is read as depends on where it stands, so an edit is
made in a role; values that an edit relates have the same reading in their role, whether they can be read or
not. Roles are kept apart from the reading itself: whether a wrapped datamodel or the document around it is
loaded is decided at the very end, and no edit may change that choice. -/

namespace EntityClasses

namespace Document

open Json

/-- What a value is read as. -/
inductive Role where
  | document
  | datamodel
  | enum
  | enumValue
  | model
  | field
  | list (items : Role)
  | text
  | kind
  | flag
  | unread

namespace Role

/-- What a record is read from, by key. A document may be a datamodel itself. -/
def parts : Role → List (String × Role)
  | document => [("datamodel", datamodel), ("enums", list enum), ("models", list model)]
  | datamodel => [("enums", list enum), ("models", list model)]
  | enum => [("name", text), ("values", list enumValue)]
  | enumValue => [("name", text)]
  | model => [("name", text), ("fields", list field)]
  | field => [("name", text), ("kind", kind), ("type", text), ("isRequired", flag), ("isList", flag)]
  | list _ | text | kind | flag | unread => []

/-- The role of the value of a key. -/
def member (role : Role) (key : String) : Role :=
  (role.parts.lookup key).getD unread

/-- The role of an item. The items of a record stand in the order of its parts, and a document that is an
array is a datamodel. -/
def item : Role → Nat → Role
  | list items, _ => items
  | document, index => (datamodel.parts.map (·.2)).getD index unread
  | role, index => (role.parts.map (·.2)).getD index unread

theorem member_of_mem {role : Role} {part : String × Role} (hpart : part ∈ role.parts) :
    role.member part.1 = part.2 := by
  cases role <;> simp only [parts, List.mem_cons, List.not_mem_nil, or_false] at hpart
  case document => rcases hpart with rfl | rfl | rfl <;> rfl
  case datamodel => rcases hpart with rfl | rfl <;> rfl
  case enum => rcases hpart with rfl | rfl <;> rfl
  case enumValue => rw [hpart]; rfl
  case model => rcases hpart with rfl | rfl <;> rfl
  case field => rcases hpart with rfl | rfl | rfl | rfl | rfl <;> rfl

end Role

/-- One edit of a value in its role: the members of an object change places, a record is given a member
that it does not know, or one of the values inside is edited. -/
inductive Edit : Role → Value → Value → Prop where
  | permute {role : Role} {members others : List (String × Value)} : others.Perm members →
      Edit role (.object members) (.object others)
  | insert {role : Role} {front back : List (String × Value)} {key : String} (value : Value) :
      role.parts ≠ [] → key ∉ role.parts.map (·.1) →
      Edit role (.object (front ++ back)) (.object (front ++ (key, value) :: back))
  | member {role : Role} {front back : List (String × Value)} {key : String} {value edited : Value} :
      Edit (role.member key) value edited →
      Edit role (.object (front ++ (key, value) :: back)) (.object (front ++ (key, edited) :: back))
  | item {role : Role} {front back : List Value} {value edited : Value} :
      Edit (role.item front.length) value edited →
      Edit role (.array (front ++ value :: back)) (.array (front ++ edited :: back))

/-- Any number of edits of a document, one after the other. -/
def Edits : Value → Value → Prop :=
  Relation.ReflTransGen (Edit .document)

def items? : Value → Option (List Value)
  | .array items => some items
  | _ => none

/-- Whether two values have the same reading in a role. -/
def Alike : Role → Value → Value → Prop
  | .document, value, other => wrapped? value = wrapped? other ∧ bare? value = bare? other
  | .datamodel, value, other => bare? value = bare? other
  | .enum, value, other => enum? value = enum? other
  | .enumValue, value, other => enumValue? value = enumValue? other
  | .model, value, other => model? value = model? other
  | .field, value, other => field? value = field? other
  | .list items, value, other =>
    Option.Rel (List.Forall₂ (Alike items)) (items? value) (items? other)
  | .text, value, other => string? value = string? other
  | .kind, value, other => kind? value = kind? other
  | .flag, value, other => bool? value = bool? other
  | .unread, _, _ => True

theorem Alike.refl (role : Role) (value : Value) : Alike role value value := by
  induction role generalizing value with
  | document => exact ⟨rfl, rfl⟩
  | list items ih =>
      unfold Alike
      cases items? value with
      | none => exact .none
      | some values => exact .some (List.forall₂_same.mpr fun value _ => ih value)
  | unread => trivial
  | _ => rfl

theorem rel_refl (role : Role) (slot : Option Value) : Option.Rel (Alike role) slot slot := by
  cases slot with
  | none => exact .none
  | some value => exact .some (Alike.refl role value)

section Readers

variable {α : Type} {read : Value → Option α} (role : Role)
  (hread : ∀ value other, Alike role value other → read value = read other)
include hread

theorem required?_congr {slot other : Option Value} (halike : Option.Rel (Alike role) slot other) :
    required? read slot = required? read other := by
  cases halike with
  | some halike => exact hread _ _ halike
  | none => rfl

theorem optional?_congr (default : α) {slot other : Option Value}
    (halike : Option.Rel (Alike role) slot other) :
    optional? default read slot = optional? default read other := by
  cases halike with
  | some halike => exact hread _ _ halike
  | none => rfl

theorem list?_congr (value other : Value) (halike : Alike (.list role) value other) :
    list? read value = list? read other := by
  have hlist : ∀ value, list? read value = (items? value).bind fun items => items.mapM read := by
    intro value
    cases value <;> rfl
  unfold Alike at halike
  rw [hlist, hlist]
  generalize items? value = items, items? other = others at halike
  cases halike with
  | none => rfl
  | @some items others hitems =>
      change items.mapM read = others.mapM read
      induction hitems with
      | nil => rfl
      | cons hitem _ ih => rw [List.mapM_cons, List.mapM_cons, hread _ _ hitem, ih]

end Readers

/-- The values of a record, part by part. -/
inductive SlotsAlike : List (String × Role) → List (Option Value) → List (Option Value) → Prop where
  | nil : SlotsAlike [] [] []
  | cons {part : String × Role} {parts : List (String × Role)} {slot other : Option Value}
      {slots others : List (Option Value)} : Option.Rel (Alike part.2) slot other →
      SlotsAlike parts slots others → SlotsAlike (part :: parts) (slot :: slots) (other :: others)

/-- Two objects, or two arrays, whose parts are alike. -/
inductive PartsAlike (role : Role) : Value → Value → Prop where
  | object {members others : List (String × Value)} :
      (∀ part ∈ role.parts, Option.Rel (Option.Rel (Alike part.2)) (member? members part.1)
        (member? others part.1)) →
      PartsAlike role (.object members) (.object others)
  | array {items others : List Value} : items.length = others.length →
      (∀ index, Option.Rel (Alike (role.item index)) items[index]? others[index]?) →
      PartsAlike role (.array items) (.array others)

section Slots

theorem slotsAlike_mapM {members others : List (String × Value)} {parts : List (String × Role)}
    (hparts : ∀ part ∈ parts, Option.Rel (Option.Rel (Alike part.2)) (member? members part.1)
      (member? others part.1)) :
    Option.Rel (SlotsAlike parts) ((parts.map (·.1)).mapM (member? members))
      ((parts.map (·.1)).mapM (member? others)) := by
  induction parts with
  | nil => exact .some .nil
  | cons part parts ih =>
      rw [List.forall_mem_cons] at hparts
      obtain ⟨hpart, hparts⟩ := hparts
      have hrest := ih hparts
      rw [List.map_cons, List.mapM_cons, List.mapM_cons]
      generalize member? members part.1 = slot, member? others part.1 = other at hpart
      generalize (parts.map (·.1)).mapM (member? members) = slots,
        (parts.map (·.1)).mapM (member? others) = otherSlots at hrest
      cases hpart with
      | none => exact .none
      | some hslot =>
          cases hrest with
          | none => exact .none
          | some hslots => exact .some (.cons hslot hslots)

theorem slotsAlike_map_range {slotAt otherAt : Nat → Option Value} {parts : List (String × Role)}
    (hparts : ∀ index part, parts[index]? = some part →
      Option.Rel (Alike part.2) (slotAt index) (otherAt index)) :
    SlotsAlike parts ((List.range parts.length).map slotAt)
      ((List.range parts.length).map otherAt) := by
  induction parts generalizing slotAt otherAt with
  | nil => exact .nil
  | cons part parts ih =>
      rw [List.length_cons, List.range_succ_eq_map, List.map_cons, List.map_cons, List.map_map,
        List.map_map]
      refine .cons (hparts 0 part rfl) (ih fun index part hpart => ?_)
      exact hparts (index + 1) part (by rwa [List.getElem?_cons_succ])

variable {role : Role} {value other : Value}

/-- The values of two records with parts that are alike, as far as both have the form of the record. -/
theorem PartsAlike.slots? {keys : List String} (halike : PartsAlike role value other)
    (hkeys : keys = role.parts.map (·.1))
    (hitem : ∀ index, role.item index = (role.parts.map (·.2)).getD index .unread) :
    Option.Rel (SlotsAlike role.parts) (slots? keys value) (slots? keys other) := by
  subst hkeys
  cases halike with
  | object hparts => exact slotsAlike_mapM hparts
  | array hlength hitems =>
      dsimp only [Document.slots?]
      rw [hlength]
      split_ifs with hlong
      · refine .some ?_
        rw [List.length_map]
        refine slotsAlike_map_range fun index part hpart => ?_
        have hrole : role.item index = part.2 := by
          rw [hitem, List.getD_eq_getElem?_getD, List.getElem?_map, hpart]
          rfl
        rw [← hrole]
        exact hitems index
      · exact .none

/-- The values of two records with two parts. -/
theorem slotsAlike_two_cases {first second : String × Role} {slots others : Option (List (Option Value))}
    (hslots : Option.Rel (SlotsAlike [first, second]) slots others) :
    (∃ a b c d, slots = some [a, b] ∧ others = some [c, d] ∧
      Option.Rel (Alike first.2) a c ∧ Option.Rel (Alike second.2) b d) ∨
    (slots = none ∧ others = none) := by
  cases hslots with
  | none => exact Or.inr ⟨rfl, rfl⟩
  | some hslots =>
      obtain _ | ⟨hfirst, _ | ⟨hsecond, _ | _⟩⟩ := hslots
      exact Or.inl ⟨_, _, _, _, rfl, rfl, hfirst, hsecond⟩

end Slots

section Records

variable {value other : Value}

theorem string?_congr (value other : Value) (halike : Alike .text value other) :
    string? value = string? other :=
  halike

theorem bool?_congr (value other : Value) (halike : Alike .flag value other) :
    bool? value = bool? other :=
  halike

theorem enumValue?_congr (halike : PartsAlike .enumValue value other) :
    enumValue? value = enumValue? other := by
  cases halike with
  | array => rfl
  | @object members others hparts =>
      change (member? members "name").bind _ = (member? others "name").bind _
      have hname := hparts ("name", .text) List.mem_cons_self
      dsimp only at hname
      generalize member? members "name" = slot, member? others "name" = otherSlot at hname
      cases hname with
      | none => rfl
      | some hname => exact required?_congr .text string?_congr hname

theorem namedList?_congr {α β : Type} {role item : Role} {listKey : String} {read : Value → Option α}
    (make : String → List α → β) (hparts : role.parts = [("name", .text), (listKey, .list item)])
    (hitem : ∀ index, role.item index = (role.parts.map (·.2)).getD index .unread)
    (hread : ∀ value other, Alike item value other → read value = read other)
    (halike : PartsAlike role value other) :
    namedList? listKey read make value = namedList? listKey read make other := by
  have hslots : Option.Rel _ (slots? ["name", listKey] value) (slots? ["name", listKey] other) :=
    halike.slots? (by rw [hparts]; rfl) hitem
  rw [hparts] at hslots
  unfold namedList?
  rcases slotsAlike_two_cases hslots with ⟨_, _, _, _, hvalue, hother, hname, hlist⟩ | ⟨hvalue, hother⟩
  · have hnames := required?_congr .text string?_congr hname
    have hlists := required?_congr _ (list?_congr item hread) hlist
    rw [hvalue, hother]
    simp only [hnames, hlists]
  · rw [hvalue, hother]

theorem enum?_congr (halike : PartsAlike .enum value other) : enum? value = enum? other := by
  rw [enum?_eq_namedList?]
  exact namedList?_congr EnumDefinition.mk rfl (fun _ => rfl) (fun _ _ => id) halike

theorem model?_congr (halike : PartsAlike .model value other) : model? value = model? other := by
  rw [model?_eq_namedList?]
  exact namedList?_congr Model.mk rfl (fun _ => rfl) (fun _ _ => id) halike

theorem bare?_congr (halike : PartsAlike .datamodel value other) : bare? value = bare? other := by
  have hslots : Option.Rel _ (slots? ["enums", "models"] value) (slots? ["enums", "models"] other) :=
    halike.slots? rfl fun _ => rfl
  unfold bare?
  rcases slotsAlike_two_cases hslots with ⟨_, _, _, _, hvalue, hother, henums, hmodels⟩ | ⟨hvalue, hother⟩
  · have henumLists := optional?_congr _ (list?_congr .enum fun _ _ => id) [] henums
    have hmodelLists := optional?_congr _ (list?_congr .model fun _ _ => id) [] hmodels
    rw [hvalue, hother]
    simp only [henumLists, hmodelLists]
  · rw [hvalue, hother]

theorem field?_congr (halike : PartsAlike .field value other) : field? value = field? other := by
  have hslots : Option.Rel _ (slots? ["name", "kind", "type", "isRequired", "isList"] value)
      (slots? ["name", "kind", "type", "isRequired", "isList"] other) := halike.slots? rfl fun _ => rfl
  unfold field?
  generalize slots? ["name", "kind", "type", "isRequired", "isList"] value = slots,
    slots? ["name", "kind", "type", "isRequired", "isList"] other = others at hslots
  cases hslots with
  | none => rfl
  | some hslots =>
      obtain _ | ⟨hname, _ | ⟨hkind, _ | ⟨htype, _ | ⟨hrequired, _ | ⟨hlist, _ | _⟩⟩⟩⟩⟩ := hslots
      have hnames := required?_congr .text string?_congr hname
      have hkinds := required?_congr .kind (fun _ _ heq => heq) hkind
      have htypes := required?_congr .text string?_congr htype
      have hflags := optional?_congr .flag bool?_congr false hrequired
      have hlists := optional?_congr .flag bool?_congr false hlist
      simp only [hnames, hkinds, htypes, hflags, hlists]

/-- A document is a datamodel as well, and what it wraps is only looked for in an object. -/
theorem PartsAlike.datamodel (halike : PartsAlike .document value other) :
    PartsAlike .datamodel value other := by
  cases halike with
  | object hparts => exact .object fun part hpart => hparts part (List.mem_cons_of_mem _ hpart)
  | array hlength hitems => exact .array hlength hitems

theorem wrapped?_congr (halike : PartsAlike .document value other) :
    wrapped? value = wrapped? other := by
  cases halike with
  | array => rfl
  | @object members others hparts =>
      change (member? members "datamodel").bind _ = (member? others "datamodel").bind _
      have hwrapped := hparts ("datamodel", .datamodel) List.mem_cons_self
      dsimp only at hwrapped
      generalize member? members "datamodel" = slot, member? others "datamodel" = otherSlot at hwrapped
      cases hwrapped with
      | none => rfl
      | some hwrapped => exact required?_congr .datamodel (fun _ _ heq => heq) hwrapped

/-- Objects and arrays with parts that are alike are alike. Kinds are no records: an object that names a
kind has a member of any key. -/
theorem PartsAlike.alike {role : Role} (halike : PartsAlike role value other)
    (hkind : role = .kind → kind? value = kind? other) : Alike role value other := by
  cases role with
  | document => exact ⟨wrapped?_congr halike, bare?_congr halike.datamodel⟩
  | datamodel => exact bare?_congr halike
  | enum => exact enum?_congr halike
  | enumValue => exact enumValue?_congr halike
  | model => exact model?_congr halike
  | field => exact field?_congr halike
  | list items =>
      cases halike with
      | object => exact .none
      | array hlength hitems =>
          refine .some (List.forall₂_iff_get.mpr ⟨hlength, fun index hindex hother => ?_⟩)
          have hitem := hitems index
          rw [List.getElem?_eq_getElem hindex, List.getElem?_eq_getElem hother] at hitem
          cases hitem with
          | some hitem => exact hitem
  | text => cases halike <;> rfl
  | kind => exact hkind rfl
  | flag => cases halike <;> rfl
  | unread => trivial

end Records

/-! What an edit does to the parts. -/

section Edits

theorem member?_insert {front back : List (String × Value)} {key other : String} (value : Value)
    (hkey : key ≠ other) :
    member? (front ++ (key, value) :: back) other = member? (front ++ back) other := by
  rw [member?, member?, List.filter_append, List.filter_cons_of_neg (by simpa using hkey),
    List.filter_append]

/-- A key that repeats has no value, whatever its values are. -/
theorem member?_replace {role : Role} (front back : List (String × Value)) {key other : String}
    {value edited : Value} (halike : key = other → Alike role value edited) :
    Option.Rel (Option.Rel (Alike role)) (member? (front ++ (key, value) :: back) other)
      (member? (front ++ (key, edited) :: back) other) := by
  rw [member?, member?, List.filter_append, List.filter_append]
  by_cases hkey : key = other
  · rw [List.filter_cons_of_pos (by simpa using hkey), List.filter_cons_of_pos (by simpa using hkey)]
    generalize front.filter (·.1 = other) = before, back.filter (·.1 = other) = behind
    rcases before with _ | ⟨first, _ | ⟨second, rest⟩⟩
    · rcases behind with _ | ⟨next, rest⟩
      · exact .some (.some (halike hkey))
      · exact .none
    · exact .none
    · exact .none
  · rw [List.filter_cons_of_neg (by simpa using hkey), List.filter_cons_of_neg (by simpa using hkey)]
    split
    · exact .some .none
    · exact .some (rel_refl role _)
    · exact .none

theorem rel_member?_of_eq (role : Role) {slot other : Option (Option Value)} (heq : slot = other) :
    Option.Rel (Option.Rel (Alike role)) slot other := by
  subst heq
  cases slot with
  | none => exact .none
  | some slot => exact .some (rel_refl role slot)

theorem getElem?_replace {role : Nat → Role} (front back : List Value) {value edited : Value}
    (halike : Alike (role front.length) value edited) (index : Nat) :
    Option.Rel (Alike (role index)) (front ++ value :: back)[index]?
      (front ++ edited :: back)[index]? := by
  rcases Nat.lt_trichotomy index front.length with hlt | rfl | hgt
  · rw [List.getElem?_append_left hlt, List.getElem?_append_left hlt]
    exact rel_refl _ _
  · simpa using Option.Rel.some halike
  · obtain ⟨offset, rfl⟩ := Nat.exists_eq_add_of_lt hgt
    have hbehind : ∀ value, (front ++ value :: back)[front.length + offset + 1]? = back[offset]? := by
      intro value
      rw [List.getElem?_append_right (by omega)]
      have hindex : front.length + offset + 1 - front.length = offset + 1 := by omega
      rw [hindex, List.getElem?_cons_succ]
    rw [hbehind, hbehind]
    exact rel_refl _ _

theorem Edit.ne_null {role : Role} {value edited : Value} (hedit : Edit role value edited) :
    value ≠ .null ∧ edited ≠ .null := by
  cases hedit <;> simp

theorem kind?_eq_none {members : List (String × Value)}
    (hmembers : ∀ name, members ≠ [(name, .null)]) : kind? (.object members) = none := by
  unfold kind?
  split
  · next heq => cases heq
  · next name heq => exact absurd (Value.object.inj heq) (hmembers name)
  · rfl

theorem kind?_of_ne_null (front back : List (String × Value)) (key : String) {value : Value}
    (hvalue : value ≠ .null) : kind? (.object (front ++ (key, value) :: back)) = none := by
  refine kind?_eq_none fun name hmembers => hvalue ?_
  have hmember : (key, value) ∈ [(name, Value.null)] := by
    rw [← hmembers]
    exact List.mem_append_right front List.mem_cons_self
  exact (Prod.mk.inj (List.mem_singleton.mp hmember)).2

theorem kind?_perm {members others : List (String × Value)} (hperm : others.Perm members) :
    kind? (.object members) = kind? (.object others) := by
  by_cases hname : ∃ name, members = [(name, .null)]
  · obtain ⟨name, rfl⟩ := hname
    rw [List.perm_singleton.mp hperm]
  · have hmembers : ∀ name, members ≠ [(name, .null)] := fun name heq => hname ⟨name, heq⟩
    have hothers : ∀ name, others ≠ [(name, .null)] := by
      rintro name rfl
      exact hmembers name (List.perm_singleton.mp hperm.symm)
    rw [kind?_eq_none hmembers, kind?_eq_none hothers]

variable {role : Role} {value edited : Value}

/-- Values that one edit relates have the same reading. The induction follows the edit inwards; at every
level the parts of a value stay alike, and with them the value itself. -/
theorem Edit.alike (hedit : Edit role value edited) : Alike role value edited := by
  induction hedit with
  | permute hperm =>
      refine PartsAlike.alike (.object fun part _ => ?_) fun _ => kind?_perm hperm
      exact rel_member?_of_eq part.2 (member?_perm hperm part.1).symm
  | insert value hrecord hkey =>
      refine PartsAlike.alike (.object fun part hpart => ?_) ?_
      · refine rel_member?_of_eq part.2 (member?_insert value ?_).symm
        rintro rfl
        exact hkey (List.mem_map_of_mem hpart)
      · rintro rfl
        exact absurd rfl hrecord
  | @member role front back key value edited hinner ih =>
      refine PartsAlike.alike (.object fun part hpart => member?_replace front back ?_) fun _ => ?_
      · rintro rfl
        rwa [← Role.member_of_mem hpart]
      · rw [kind?_of_ne_null _ _ _ hinner.ne_null.1, kind?_of_ne_null _ _ _ hinner.ne_null.2]
  | item _ ih =>
      exact PartsAlike.alike (.array (by simp) (getElem?_replace _ _ ih)) fun _ => rfl

/-- No number of edits changes the datamodel that a document is read as, or makes it one that can be read. -/
theorem Edits.datamodel?_eq (hedits : Edits value edited) : datamodel? value = datamodel? edited := by
  induction hedits with
  | refl => rfl
  | tail _ hedit ih =>
      obtain ⟨hwrapped, hbare⟩ : wrapped? _ = wrapped? _ ∧ bare? _ = bare? _ := hedit.alike
      rw [ih, datamodel?, datamodel?, hwrapped, hbare]

end Edits

end Document

namespace Datamodel

/-- Whether two texts are loaded as the same datamodel or refused for the same reason: the wrong shape, or
a name that repeats among the declarations of one kind. -/
inductive SameOutcome (source other : SourceText) :
    Except SchemaError Datamodel → Except SchemaError Datamodel → Prop where
  | loaded (datamodel : Datamodel) : SameOutcome source other (.ok datamodel) (.ok datamodel)
  | wrongShape : SameOutcome source other (.error (.badDatamodel source .wrongShape))
      (.error (.badDatamodel other .wrongShape))
  | repeatedName (kind name : String) : SameOutcome source other
      (.error (.duplicateName source kind name)) (.error (.duplicateName other kind name))

/-- Validation looks at the datamodel alone. -/
theorem sameOutcome_validate (source other : SourceText) (datamodel : Datamodel) :
    SameOutcome source other (datamodel.validate source) (datamodel.validate other) := by
  by_cases hdistinct : datamodel.Distinct
  · rw [validate_of_distinct source hdistinct, validate_of_distinct other hdistinct]
    exact .loaded datamodel
  · obtain ⟨kind, name, hrefused⟩ := exists_refusedFor hdistinct
    rw [validate_of_refusedFor source hrefused, validate_of_refusedFor other hrefused]
    exact .repeatedName kind name

/-- **Loading does not see the order of members, nor members that no record knows.** The edited document
may hold anything in these members that can be written at all. -/
theorem load_of_edits {source other : SourceText} {value edited : Json.Value}
    (hparse : Json.parse source.chars = .ok value) (hother : Json.parse other.chars = .ok edited)
    (hedits : Document.Edits value edited) : SameOutcome source other (load source) (load other) := by
  rw [load_of_parse hparse, load_of_parse hother, hedits.datamodel?_eq]
  cases Document.datamodel? edited with
  | none => exact .wrongShape
  | some datamodel => exact sameOutcome_validate source other datamodel

/-- A document with one model, which has these members. -/
def oneModel (before members : List (String × Json.Value)) : Json.Value :=
  .object (before ++ [("models", .array [.object members])])

/-- A model without fields. -/
def plainUser : SourceText :=
  ⟨"dmmf.json", "\x7b\"models\":[\x7b\"name\":\"User\",\"fields\":[]\x7d]\x7d"⟩

/-- The same model behind an unknown member, with its own members turned round and one more of them. -/
def editedUser : SourceText :=
  ⟨"dmmf.json", "\x7b\"types\":[],\"models\":[\x7b\"id\":null,\"fields\":[],\"name\":\"User\"\x7d]\x7d"⟩

theorem load_of_edits_user : ∃ value edited, Json.parse plainUser.chars = .ok value ∧
    Json.parse editedUser.chars = .ok edited ∧ Document.Edits value edited ∧
    SameOutcome plainUser editedUser (load plainUser) (load editedUser) := by
  have hparse : Json.parse plainUser.chars =
      .ok (oneModel [] [("name", .string "User"), ("fields", .array [])]) := by
    simp only [plainUser, SourceText.chars, String.reduceToList]
    rfl
  have hother : Json.parse editedUser.chars = .ok (oneModel [("types", .array [])]
      [("id", .null), ("fields", .array []), ("name", .string "User")]) := by
    simp only [editedUser, SourceText.chars, String.reduceToList]
    rfl
  have hmodel : ∀ {before members others}, Document.Edit .model (.object members) (.object others) →
      Document.Edit .document (oneModel before members) (oneModel before others) := by
    intro before members others hedit
    have hitem : Document.Edit (.list .model) (.array ([] ++ .object members :: []))
        (.array ([] ++ .object others :: [])) := .item hedit
    exact .member hitem
  have hfirst : Document.Edit .document (oneModel [] [("name", .string "User"), ("fields", .array [])])
      (oneModel [("types", .array [])] [("name", .string "User"), ("fields", .array [])]) :=
    @Document.Edit.insert .document [] _ "types" _ (by simp [Document.Role.parts])
      (by simp [Document.Role.parts])
  have hlast : Document.Edit .model (.object [("fields", .array []), ("name", .string "User")])
      (.object [("id", .null), ("fields", .array []), ("name", .string "User")]) :=
    @Document.Edit.insert .model [] _ "id" _ (by simp [Document.Role.parts])
      (by simp [Document.Role.parts])
  have hedits : Document.Edits (oneModel [] [("name", .string "User"), ("fields", .array [])])
      (oneModel [("types", .array [])]
        [("id", .null), ("fields", .array []), ("name", .string "User")]) :=
    ((Relation.ReflTransGen.single hfirst).tail (hmodel (.permute (.swap _ _ _)))).tail (hmodel hlast)
  exact ⟨_, _, hparse, hother, hedits, load_of_edits hparse hother hedits⟩

end Datamodel

end EntityClasses
