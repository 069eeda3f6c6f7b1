import EntityClasses.Proofs.Toml.Changes

/-! Values without the places where they stand. Tables are built from names alone: whether a table can be
built, and which entries it then has, does not depend on any place. -/

namespace EntityClasses.Toml

open Text

/-- The place of everything that has none. -/
def nowhere : Span :=
  ⟨0, 0⟩

def Key.unplaced (key : Key) : Key :=
  ⟨key.name, nowhere⟩

namespace Value

mutual

def unplaced : Value → Value
  | .string _ text => .string nowhere text
  | .integer _ value => .integer nowhere value
  | .float _ value => .float nowhere value
  | .boolean _ value => .boolean nowhere value
  | .date _ => .date nowhere
  | .array _ isOfTables items => .array nowhere isOfTables (unplacedItems items)
  | .table _ origin entries => .table nowhere origin (unplacedEntries entries)

def unplacedItems : List Value → List Value
  | [] => []
  | value :: values => unplaced value :: unplacedItems values

def unplacedEntries : List (Key × Value) → List (Key × Value)
  | [] => []
  | (key, value) :: entries => (key.unplaced, unplaced value) :: unplacedEntries entries

end

end Value

def Entries.unplaced (entries : Entries) : Entries :=
  entries.map fun entry => (entry.1.unplaced, entry.2.unplaced)

def Assignment.unplaced (assignment : Assignment) : Assignment :=
  ⟨assignment.path.map Key.unplaced, assignment.key.unplaced, assignment.value.unplaced⟩

def Section.unplaced (part : Section) : Section :=
  ⟨part.path.map Key.unplaced, part.key.unplaced, part.isRepeated, nowhere,
    part.assignments.map Assignment.unplaced⟩

namespace Value

theorem unplacedItems_eq_map (items : List Value) : unplacedItems items = items.map unplaced := by
  induction items with
  | nil => rfl
  | cons value values ih => rw [unplacedItems, List.map_cons, ih]

theorem unplacedEntries_eq (entries : Entries) : unplacedEntries entries = Entries.unplaced entries := by
  induction entries with
  | nil => rfl
  | cons entry entries ih =>
      rw [unplacedEntries, ih]
      rfl

theorem unplaced_array (span : Span) (isOfTables : Bool) (items : List Value) :
    (array span isOfTables items).unplaced = .array nowhere isOfTables (items.map unplaced) := by
  rw [unplaced, unplacedItems_eq_map]

theorem unplaced_table (span : Span) (origin : Origin) (entries : Entries) :
    (table span origin entries).unplaced = .table nowhere origin entries.unplaced := by
  rw [unplaced, unplacedEntries_eq]

theorem unplaced_eq_string {value : Value} {text : String} (hvalue : value.unplaced = .string nowhere text) :
    ∃ span, value = .string span text := by
  cases value with
  | string span other =>
      rw [unplaced] at hvalue
      exact ⟨span, by rw [(string.inj hvalue).2]⟩
  | _ => cases hvalue

theorem unplaced_eq_table {value : Value} {origin : Origin} {entries : Entries}
    (hvalue : value.unplaced = .table nowhere origin entries) :
    ∃ span inner, value = .table span origin inner ∧ Entries.unplaced inner = entries := by
  cases value with
  | table span other inner =>
      rw [unplaced_table] at hvalue
      obtain ⟨-, rfl, hentries⟩ := table.inj hvalue
      exact ⟨span, inner, rfl, hentries⟩
  | _ => cases hvalue

end Value

theorem splitLast?_map {α β : Type} (f : α → β) (items : List α) :
    splitLast? (items.map f) = (splitLast? items).map (Prod.map (List.map f) f) := by
  simp [splitLast?, Function.comp_def]

namespace Entries

theorem unplaced_append (entries others : Entries) :
    unplaced (entries ++ others) = unplaced entries ++ unplaced others :=
  List.map_append

theorem unplaced_mem {entries : Entries} {entry : Key × Value} (hentry : entry ∈ entries) :
    (entry.1.unplaced, entry.2.unplaced) ∈ entries.unplaced :=
  List.mem_map_of_mem hentry

theorem find?_unplaced (entries : Entries) (name : String) :
    find? entries.unplaced name = (find? entries name).map Value.unplaced := by
  rw [find?, unplaced, List.find?_map, Option.map_map, find?, Option.map_map]
  rfl

theorem has_unplaced {entries : Entries} {name : String} : Has entries.unplaced name ↔ Has entries name := by
  rw [has_iff_isSome, has_iff_isSome, find?_unplaced, Option.isSome_map]

theorem named_unplaced (p : String → Bool) (entries : Entries) :
    named p entries.unplaced = unplaced (named p entries) :=
  List.filter_map

theorem put_unplaced (key : Key) (value : Value) (entries : Entries) :
    (put key value entries).unplaced = put key.unplaced value.unplaced entries.unplaced := by
  induction entries with
  | nil => rfl
  | cons entry entries ih =>
      by_cases hname : entry.1.name = key.name
      · simp [put, unplaced, Key.unplaced, hname]
      · simpa [put, unplaced, Key.unplaced, hname] using ih

theorem replace_unplaced (key : Key) (value : Value) (entries : Entries) :
    (replace key value entries).unplaced = replace key.unplaced value.unplaced entries.unplaced := by
  rw [replace_eq, replace_eq, unplaced_append, ← named_unplaced]
  rfl

theorem add?_unplaced (key : Key) (value : Value) (entries : Entries) :
    (add? key value entries).map unplaced = add? key.unplaced value.unplaced entries.unplaced := by
  rw [add?, add?, find?_unplaced, Key.unplaced]
  cases find? entries key.name with
  | none => simp [unplaced, Key.unplaced]
  | some found => rfl

end Entries

/-- A change of entries with places and the same change of entries without them. -/
def Alike (change other : Origin → Entries → Option Entries) : Prop :=
  ∀ origin entries, (change origin entries).map Entries.unplaced = other origin entries.unplaced

section Changes

variable {missing : Origin} {isOpen : Origin → Bool} {change other : Origin → Entries → Option Entries}

theorem changeWithin_unplaced (halike : Alike change other) (key : Key) (value : Option Value) :
    (changeWithin missing isOpen change key value).map Value.unplaced =
      changeWithin missing isOpen other key.unplaced (value.map Value.unplaced) := by
  have htable : ∀ (place : Span) (origin : Origin) (inner : Entries),
      ((change origin inner).map (Value.table place origin)).map Value.unplaced =
        (other origin inner.unplaced).map (Value.table nowhere origin) := by
    intro place origin inner
    rw [← halike, Option.map_map, Option.map_map]
    exact congrArg (Option.map · _) (funext fun inner => Value.unplaced_table _ _ inner)
  rcases value with _ | value
  · exact htable key.span missing []
  cases value with
  | table span origin inner =>
      rw [Option.map_some, Value.unplaced_table, changeWithin, changeWithin]
      split
      · exact htable span origin inner
      · rfl
  | array span isOfTables items =>
      rw [Option.map_some, Value.unplaced_array]
      cases isOfTables with
      | false => rfl
      | true =>
          rw [changeWithin, changeWithin, splitLast?_map]
          rcases splitLast? items with _ | ⟨before, last⟩
          · rfl
          cases last with
          | table last origin inner =>
              simp only [Option.map_some, Prod.map, Value.unplaced_table]
              rw [← halike, Option.map_map, Option.map_map]
              refine congrArg (Option.map · _) (funext fun inner => ?_)
              simp [Value.unplaced_array, Value.unplaced_table]
          | array last isOfTables items => simp [Value.unplaced_array]
          | _ => rfl
  | _ => rfl

theorem changeAt_unplaced (halike : Alike change other) (path : List Key) :
    Alike (changeAt missing isOpen change path)
      (changeAt missing isOpen other (path.map Key.unplaced)) := by
  induction path with
  | nil => exact halike
  | cons key path ih =>
      intro origin entries
      rw [List.map_cons, changeAt_cons, changeAt_cons, Entries.find?_unplaced,
        ← changeWithin_unplaced ih, Option.map_map, Option.map_map]
      exact congrArg (Option.map · _) (funext fun value => Entries.put_unplaced key value entries)

end Changes

theorem apply_unplaced (made : Origin) (isOpen : Origin → Bool) (assignment : Assignment) :
    Alike (assignment.apply made isOpen) (assignment.unplaced.apply made isOpen) := by
  refine changeAt_unplaced (fun origin entries => ?_) _
  have hpath : assignment.unplaced.path ≠ [] ↔ assignment.path ≠ [] := by
    simp [Assignment.unplaced]
  simp only [hpath]
  split
  · exact Entries.add?_unplaced _ _ _
  · rfl

/-- Changes that see no places, one after the other. -/
theorem foldlM_unplaced {α : Type} {step : Entries → α → Option Entries} {unplaced : α → α}
    (hstep : ∀ entries a, (step entries a).map Entries.unplaced = step entries.unplaced (unplaced a))
    (as : List α) (entries : Entries) :
    (as.foldlM step entries).map Entries.unplaced =
      (as.map unplaced).foldlM step entries.unplaced := by
  induction as generalizing entries with
  | nil => rfl
  | cons a as ih =>
      rw [List.map_cons, List.foldlM_cons, List.foldlM_cons, ← hstep]
      cases step entries a with
      | none => rfl
      | some changed => exact ih changed

theorem inlineTable?_unplaced (assignments : List Assignment) :
    (inlineTable? assignments).map Entries.unplaced =
      inlineTable? (assignments.map Assignment.unplaced) :=
  foldlM_unplaced (fun entries assignment => apply_unplaced _ _ assignment _ entries) assignments []

theorem assign?_unplaced (assignments : List Assignment) (origin : Origin) (entries : Entries) :
    (assign? assignments origin entries).map Entries.unplaced =
      assign? (assignments.map Assignment.unplaced) origin entries.unplaced :=
  foldlM_unplaced (fun entries assignment => apply_unplaced _ _ assignment _ entries) assignments entries

theorem Section.addTo_unplaced (part : Section) (entries : Entries) :
    (part.addTo entries).map Entries.unplaced = part.unplaced.addTo entries.unplaced := by
  obtain ⟨path, key, isRepeated, span, assignments⟩ := part
  have hassign := assign?_unplaced assignments .header
  have hempty : _ = assign? _ .header [] := hassign []
  have hfind : entries.unplaced.find? key.unplaced.name = _ := entries.find?_unplaced key.name
  rw [addTo, addTo, unplaced]
  simp only [hfind, bind_pure_comp, Option.map_eq_map, Option.bind_eq_bind]
  rcases entries.find? key.name with _ | value
  · cases isRepeated with
    | false =>
        simp only [Option.map_none, ← hempty, Option.map_bind, Option.bind_map, Function.comp_def,
          Entries.add?_unplaced, Value.unplaced_table]
    | true =>
        simp only [Option.map_none, ← hempty, Option.map_bind, Option.bind_map, Function.comp_def,
          Entries.add?_unplaced, Value.unplaced_table, Value.unplaced_array, List.map_cons, List.map_nil]
  · cases value with
    | table place origin inner =>
        rw [Option.map_some, Value.unplaced_table]
        cases isRepeated <;> cases origin <;>
          simp only [Option.map_none, ← hassign inner, Option.map_map, Function.comp_def,
            Entries.replace_unplaced, Value.unplaced_table]
    | array place isOfTables items =>
        rw [Option.map_some, Value.unplaced_array]
        cases isRepeated <;> cases isOfTables <;>
          simp only [Option.map_none, ← hempty, Option.map_map, Function.comp_def,
            Entries.put_unplaced, Value.unplaced_array, Value.unplaced_table, List.map_append,
            List.map_cons, List.map_nil]
    | _ => cases isRepeated <;> rfl

theorem Section.apply_unplaced (part : Section) (entries : Entries) :
    (part.apply entries).map Entries.unplaced = part.unplaced.apply entries.unplaced :=
  changeAt_unplaced (fun _ entries => part.addTo_unplaced entries) part.path .header entries

theorem document?_unplaced (assignments : List Assignment) (sections : List Section) :
    (document? assignments sections).map Entries.unplaced =
      document? (assignments.map Assignment.unplaced) (sections.map Section.unplaced) := by
  rw [document?, document?]
  have hassign := assign?_unplaced assignments .header []
  change _ = Option.bind (assign? (assignments.map Assignment.unplaced) .header (Entries.unplaced [])) _
  rw [← hassign]
  cases assign? assignments .header [] with
  | none => rfl
  | some entries => exact foldlM_unplaced (fun entries part => part.apply_unplaced entries) sections entries

end EntityClasses.Toml
