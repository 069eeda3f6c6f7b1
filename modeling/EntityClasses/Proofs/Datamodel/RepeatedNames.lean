import Mathlib.Data.List.Nodup
import EntityClasses.Proofs.Datamodel.Loading

/-! Which repeated name is reported. While names are looked through, the names seen so far are a front of the
list without repetitions; the search ends at the first name that this front already has. Enums are looked
through before models, and an enum and a model may share a name. -/

namespace EntityClasses

/-- The least position at which a name stands that stands in front of it as well. -/
structure FirstRepeat (names : List String) (position : Nat) (name : String) : Prop where
  here : names[position]? = some name
  before : name ∈ names.take position
  least : ∀ earlier < position, ∀ other, names[earlier]? = some other → other ∉ names.take earlier

section Search

variable {names : List String} {name : String}

/-- The search behind a front without repetitions, when the names of the front are those seen. -/
theorem firstRepeatedAfter_eq_some_iff {front seen : List String} (hfront : front.Nodup)
    (hseen : ∀ other, other ∈ seen ↔ other ∈ front) (names : List String) :
    firstRepeatedAfter seen names = some name ↔ ∃ between back, names = between ++ name :: back ∧
      (front ++ between).Nodup ∧ name ∈ front ++ between := by
  induction names generalizing front seen with
  | nil => simp [firstRepeatedAfter]
  | cons other names ih =>
      rw [firstRepeatedAfter]
      by_cases hother : other ∈ seen
      · rw [if_pos hother, Option.some.injEq]
        have hfrontOther := (hseen other).mp hother
        constructor
        · rintro rfl
          exact ⟨[], names, rfl, by simpa using hfront, by simpa using hfrontOther⟩
        · rintro ⟨between, back, hnames, hnodup, -⟩
          cases between with
          | nil => exact (List.cons.inj hnames).1
          | cons first between =>
              obtain rfl : other = first := (List.cons.inj hnames).1
              exact absurd rfl ((List.nodup_append.mp hnodup).2.2 other hfrontOther other
                List.mem_cons_self)
      · have hnew : other ∉ front := mt (hseen other).mpr hother
        have hlonger : (front ++ [other]).Nodup := by
          rw [← List.concat_eq_append]
          exact hfront.concat hnew
        have hseenLonger : ∀ third, third ∈ other :: seen ↔ third ∈ front ++ [other] := by
          intro third
          rw [List.mem_cons, List.mem_append, List.mem_singleton, hseen]
          exact or_comm
        rw [if_neg hother, ih hlonger hseenLonger]
        constructor
        · rintro ⟨between, back, rfl, hnodup, hname⟩
          rw [List.append_assoc] at hnodup hname
          exact ⟨other :: between, back, rfl, hnodup, hname⟩
        · rintro ⟨between, back, hnames, hnodup, hname⟩
          cases between with
          | nil =>
              obtain rfl : other = name := (List.cons.inj hnames).1
              rw [List.append_nil] at hname
              exact absurd hname hnew
          | cons first between =>
              obtain ⟨rfl, rfl⟩ := List.cons.inj hnames
              refine ⟨between, back, rfl, ?_, ?_⟩
              · rwa [List.append_assoc]
              · rwa [List.append_assoc]

theorem nodup_take_of_least {position : Nat}
    (hleast : ∀ earlier < position, ∀ other, names[earlier]? = some other →
      other ∉ names.take earlier) : (names.take position).Nodup := by
  induction position with
  | zero => simp
  | succ position ih =>
      have hnodup := ih fun earlier hearlier => hleast earlier (Nat.lt_succ_of_lt hearlier)
      rw [List.take_add_one]
      cases hname : names[position]? with
      | none => simpa using hnodup
      | some other =>
          rw [Option.toList_some, ← List.concat_eq_append]
          exact hnodup.concat (hleast position (Nat.lt_succ_self position) other hname)

/-- What stands in front of the first repeat is free of repetitions. -/
theorem FirstRepeat.nodup_take {position : Nat} (hrepeat : FirstRepeat names position name) :
    (names.take position).Nodup :=
  nodup_take_of_least hrepeat.least

theorem firstRepeat_of_append {front back : List String} (hnodup : front.Nodup) (hname : name ∈ front) :
    FirstRepeat (front ++ name :: back) front.length name where
  here := by simp
  before := by simpa using hname
  least := by
    intro earlier hearlier other hother
    rw [List.getElem?_append_left hearlier] at hother
    rw [List.take_append_of_le_length (Nat.le_of_lt hearlier)]
    have hfront : front = front.take earlier ++ other :: front.drop (earlier + 1) := by
      obtain ⟨hlt, hget⟩ := List.getElem?_eq_some_iff.mp hother
      rw [← hget, ← List.drop_eq_getElem_cons hlt, List.take_append_drop]
    intro hmem
    rw [hfront] at hnodup
    exact (List.nodup_append.mp hnodup).2.2 other hmem other List.mem_cons_self rfl

/-- The search finds the name at the first repeat. -/
theorem firstRepeated_eq_some_iff :
    firstRepeated names = some name ↔ ∃ position, FirstRepeat names position name := by
  have hsearch : firstRepeatedAfter [] names = some name ↔ ∃ front back,
      names = front ++ name :: back ∧ ([] ++ front).Nodup ∧ name ∈ [] ++ front :=
    firstRepeatedAfter_eq_some_iff List.nodup_nil (fun _ => Iff.rfl) names
  rw [firstRepeated, hsearch]
  constructor
  · rintro ⟨front, back, rfl, hnodup, hname⟩
    exact ⟨front.length, firstRepeat_of_append hnodup hname⟩
  · rintro ⟨position, hrepeat⟩
    obtain ⟨hlt, hget⟩ := List.getElem?_eq_some_iff.mp hrepeat.here
    refine ⟨names.take position, names.drop (position + 1), ?_, hrepeat.nodup_take, hrepeat.before⟩
    rw [← hget, ← List.drop_eq_getElem_cons hlt, List.take_append_drop]

theorem exists_firstRepeat_of_not_nodup (hrepeats : ¬ names.Nodup) :
    ∃ position name, FirstRepeat names position name := by
  rw [← firstRepeated_eq_none_iff] at hrepeats
  obtain ⟨name, hname⟩ := Option.ne_none_iff_exists'.mp hrepeats
  obtain ⟨position, hrepeat⟩ := firstRepeated_eq_some_iff.mp hname
  exact ⟨position, name, hrepeat⟩

end Search

namespace Datamodel

def enumNames (datamodel : Datamodel) : List String :=
  datamodel.enums.map (·.name)

def modelNames (datamodel : Datamodel) : List String :=
  datamodel.models.map (·.name)

/-- The repeated name for which a datamodel is refused: of enums if one of theirs repeats, else of models. -/
inductive RefusedFor (datamodel : Datamodel) : (kind name : String) → Prop where
  | enum {position : Nat} {name : String} : FirstRepeat datamodel.enumNames position name →
      RefusedFor datamodel "enum" name
  | model {position : Nat} {name : String} : datamodel.enumNames.Nodup →
      FirstRepeat datamodel.modelNames position name → RefusedFor datamodel "model" name

theorem checkNames_of_nodup (source : SourceText) (kind : String) {names : List String}
    (hnodup : names.Nodup) : checkNames source kind names = .ok () := by
  rw [checkNames, (firstRepeated_eq_none_iff names).mpr hnodup]

theorem checkNames_of_firstRepeat (source : SourceText) (kind : String) {names : List String}
    {position : Nat} {name : String} (hrepeat : FirstRepeat names position name) :
    checkNames source kind names = .error (.duplicateName source kind name) := by
  rw [checkNames, firstRepeated_eq_some_iff.mpr ⟨position, hrepeat⟩]

theorem validate_of_refusedFor (source : SourceText) {datamodel : Datamodel} {kind name : String}
    (hrefused : datamodel.RefusedFor kind name) :
    datamodel.validate source = .error (.duplicateName source kind name) := by
  unfold validate
  cases hrefused with
  | enum hrepeat =>
      change (checkNames source "enum" datamodel.enumNames >>= fun _ => _) = _
      rw [checkNames_of_firstRepeat source "enum" hrepeat]
      rfl
  | model henums hrepeat =>
      change (checkNames source "enum" datamodel.enumNames >>= fun _ =>
        checkNames source "model" datamodel.modelNames >>= fun _ => _) = _
      rw [checkNames_of_nodup source "enum" henums, checkNames_of_firstRepeat source "model" hrepeat]
      rfl

theorem exists_refusedFor {datamodel : Datamodel} (hrepeats : ¬ datamodel.Distinct) :
    ∃ kind name, datamodel.RefusedFor kind name := by
  by_cases henums : datamodel.enumNames.Nodup
  · have hmodels : ¬ datamodel.modelNames.Nodup := fun hmodels => hrepeats ⟨henums, hmodels⟩
    obtain ⟨position, name, hrepeat⟩ := exists_firstRepeat_of_not_nodup hmodels
    exact ⟨"model", name, .model henums hrepeat⟩
  · obtain ⟨position, name, hrepeat⟩ := exists_firstRepeat_of_not_nodup henums
    exact ⟨"enum", name, .enum hrepeat⟩

/-- **Loading refuses repeated names and nothing else of a document of the right shape**: one of enums
before one of models, and the first of its kind that repeats. -/
theorem load_of_shape {source : SourceText} {value : Json.Value} {datamodel : Datamodel}
    (hparse : Json.parse source.chars = .ok value)
    (hshape : Document.datamodel? value = some datamodel) :
    ((∃ loaded, load source = .ok loaded) ↔
      datamodel.enumNames.Nodup ∧ datamodel.modelNames.Nodup) ∧
    (datamodel.enumNames.Nodup ∧ datamodel.modelNames.Nodup → load source = .ok datamodel) ∧
    (¬ (datamodel.enumNames.Nodup ∧ datamodel.modelNames.Nodup) → ∃ kind name,
      load source = .error (.duplicateName source kind name) ∧ datamodel.RefusedFor kind name) := by
  have hload : load source = datamodel.validate source := by
    rw [load_of_parse hparse, hshape]
  have hdistinct : datamodel.Distinct ↔ datamodel.enumNames.Nodup ∧ datamodel.modelNames.Nodup :=
    ⟨fun hdistinct => ⟨hdistinct.enums, hdistinct.models⟩,
      fun hnodup => ⟨hnodup.1, hnodup.2⟩⟩
  rw [hload, ← hdistinct]
  refine ⟨?_, validate_of_distinct source, ?_⟩
  · constructor
    · rintro ⟨loaded, hloaded⟩
      by_contra hrepeats
      obtain ⟨kind, name, hrefused⟩ := exists_refusedFor hrepeats
      rw [validate_of_refusedFor source hrefused] at hloaded
      cases hloaded
    · exact fun hnodup => ⟨datamodel, validate_of_distinct source hnodup⟩
  · intro hrepeats
    obtain ⟨kind, name, hrefused⟩ := exists_refusedFor hrepeats
    exact ⟨kind, name, validate_of_refusedFor source hrefused, hrefused⟩

theorem exists_parse_of_toOption {source : SourceText} {datamodel : Datamodel}
    (hread : (Json.parse source.chars).toOption.bind Document.datamodel? = some datamodel) :
    ∃ value, Json.parse source.chars = .ok value ∧ Document.datamodel? value = some datamodel := by
  obtain ⟨value, hvalue, hshape⟩ := Option.bind_eq_some_iff.mp hread
  cases hparse : Json.parse source.chars with
  | error error => simp [hparse, Except.toOption] at hvalue
  | ok parsed =>
      simp only [hparse, Except.toOption, Option.some.injEq] at hvalue
      exact ⟨value, by rw [hvalue], hshape⟩

/-- Enums that repeat two names, behind models that repeat one. -/
def threeRepeats : SourceText :=
  ⟨"dmmf.json", "\x7b\"models\":[\x7b\"name\":\"A\",\"fields\":[]\x7d,\x7b\"name\":\"A\",\"fields\":[]\x7d]," ++
    "\"enums\":[\x7b\"name\":\"B\",\"values\":[]\x7d,\x7b\"name\":\"C\",\"values\":[]\x7d," ++
    "\x7b\"name\":\"C\",\"values\":[]\x7d,\x7b\"name\":\"B\",\"values\":[]\x7d]\x7d"⟩

/-- The second `C` is reported, which stands in front of the second `B`. -/
theorem load_of_shape_threeRepeats : ∃ value datamodel, Json.parse threeRepeats.chars = .ok value ∧
    Document.datamodel? value = some datamodel ∧
    load threeRepeats = .error (.duplicateName threeRepeats "enum" "C") := by
  have hread : (Json.parse threeRepeats.chars).toOption.bind Document.datamodel? =
      some ⟨[⟨"B", []⟩, ⟨"C", []⟩, ⟨"C", []⟩, ⟨"B", []⟩], [⟨"A", []⟩, ⟨"A", []⟩]⟩ := by
    decide +kernel
  obtain ⟨value, hparse, hshape⟩ := exists_parse_of_toOption hread
  obtain ⟨-, -, hrefuses⟩ := load_of_shape hparse hshape
  obtain ⟨kind, name, hload, hrefused⟩ := hrefuses (by decide)
  refine ⟨value, _, hparse, hshape, ?_⟩
  cases hrefused with
  | enum hrepeat =>
      have hname := firstRepeated_eq_some_iff.mpr ⟨_, hrepeat⟩
      obtain rfl : "C" = name := Option.some.inj hname
      exact hload
  | model henums hrepeat => exact absurd henums (by decide)

end Datamodel

end EntityClasses
