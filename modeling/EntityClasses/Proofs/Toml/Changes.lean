import EntityClasses.Toml.Table

/-! What building a table does to its entries. Each step changes the entries of one name and keeps all
others, in their order; no name is ever lost. So a section stands in a document as if the sections of other
names were not there. -/

namespace EntityClasses.Toml

namespace Entries

def Has (entries : Entries) (name : String) : Prop :=
  ∃ entry ∈ entries, entry.1.name = name

/-- The entries of some names. -/
def named (p : String → Bool) (entries : Entries) : Entries :=
  entries.filter fun entry => p entry.1.name

variable {p : String → Bool} {entries others : Entries} {name : String} {key : Key} {value : Value}

section Find

theorem find?_cons (entry : Key × Value) (entries : Entries) (name : String) :
    find? (entry :: entries) name =
      if entry.1.name = name then some entry.2 else find? entries name := by
  by_cases hname : entry.1.name = name
  · simp [find?, hname]
  · simp [find?, hname]

theorem find?_append (entries others : Entries) (name : String) :
    find? (entries ++ others) name = (find? entries name).or (find? others name) := by
  rw [find?, List.find?_append, Option.map_or]
  rfl

theorem find?_named (p : String → Bool) (entries : Entries) (name : String) :
    find? (named p entries) name = if p name then find? entries name else none := by
  induction entries with
  | nil => simp [named, find?]
  | cons entry entries ih =>
      rw [find?_cons]
      by_cases hentry : p entry.1.name = true
      · rw [named, List.filter_cons_of_pos (by exact hentry), find?_cons, ← named, ih]
        by_cases hname : entry.1.name = name
        · rw [if_pos hname, if_pos hname, if_pos (hname ▸ hentry)]
        · rw [if_neg hname, if_neg hname]
      · rw [named, List.filter_cons_of_neg (by exact hentry), ← named, ih]
        by_cases hname : entry.1.name = name
        · rw [if_neg (hname ▸ hentry), if_neg (hname ▸ hentry)]
        · rw [if_neg hname]

theorem find?_put (key : Key) (value : Value) (entries : Entries) (name : String) :
    find? (put key value entries) name =
      if key.name = name then some value else find? entries name := by
  induction entries with
  | nil => rw [put, find?_cons]
  | cons entry entries ih =>
      rw [put]
      by_cases hkey : entry.1.name = key.name
      · rw [if_pos hkey, find?_cons, find?_cons, hkey]
        by_cases hname : key.name = name
        · rw [if_pos hname, if_pos hname]
        · rw [if_neg hname, if_neg hname, if_neg hname]
      · rw [if_neg hkey, find?_cons, find?_cons, ih]
        by_cases hname : key.name = name
        · rw [if_neg (hname ▸ hkey), if_pos hname, if_pos hname]
        · rw [if_neg hname, if_neg hname]

theorem replace_eq (key : Key) (value : Value) (entries : Entries) :
    replace key value entries = named (fun name => name ≠ key.name) entries ++ [(key, value)] :=
  rfl

theorem find?_replace (key : Key) (value : Value) (entries : Entries) (name : String) :
    find? (replace key value entries) name =
      if key.name = name then some value else find? entries name := by
  rw [replace_eq, find?_append, find?_named, find?_cons]
  by_cases hname : key.name = name
  · simp [hname]
  · have hother : name ≠ key.name := Ne.symm hname
    simp [hname, hother, find?]

theorem add?_eq_some_iff :
    add? key value entries = some others ↔
      find? entries key.name = none ∧ others = entries ++ [(key, value)] := by
  rw [add?]
  cases find? entries key.name with
  | none => simp [eq_comm]
  | some found => simp

end Find

section Has

theorem has_iff_isSome : Has entries name ↔ (find? entries name).isSome := by
  simp [find?, Has]

theorem find?_eq_none_iff : find? entries name = none ↔ ¬ Has entries name := by
  simp [has_iff_isSome]

theorem exists_mem_of_find? (hfind : find? entries name = some value) :
    ∃ key, (key, value) ∈ entries ∧ key.name = name := by
  obtain ⟨entry, hentry, rfl⟩ := Option.map_eq_some_iff.mp hfind
  exact ⟨entry.1, List.mem_of_find?_eq_some hentry, by simpa using List.find?_some hentry⟩

theorem has_cons {entry : Key × Value} :
    Has (entry :: entries) name ↔ entry.1.name = name ∨ Has entries name := by
  simp [Has]

theorem has_append : Has (entries ++ others) name ↔ Has entries name ∨ Has others name := by
  simp [Has, or_and_right, exists_or]

theorem has_put : Has (put key value entries) name ↔ key.name = name ∨ Has entries name := by
  rw [has_iff_isSome, has_iff_isSome, find?_put]
  split <;> simp_all

theorem has_replace : Has (replace key value entries) name ↔ key.name = name ∨ Has entries name := by
  rw [has_iff_isSome, has_iff_isSome, find?_replace]
  split <;> simp_all

end Has

section Named

theorem named_append (p : String → Bool) (entries others : Entries) :
    named p (entries ++ others) = named p entries ++ named p others :=
  List.filter_append ..

theorem named_singleton (p : String → Bool) (key : Key) (value : Value) :
    named p [(key, value)] = if p key.name then [(key, value)] else [] := by
  rw [named, List.filter_cons, List.filter_nil]

theorem named_ne_of_not_has (hname : ¬ Has entries name) : named (· ≠ name) entries = entries := by
  rw [named, List.filter_eq_self]
  exact fun entry hentry => decide_eq_true fun heq => hname ⟨entry, hentry, heq⟩

theorem named_eq_of_not_has (hname : ¬ Has entries name) : named (· = name) entries = [] := by
  rw [named, List.filter_eq_nil_iff]
  exact fun entry hentry => by simpa using fun heq => hname ⟨entry, hentry, heq⟩

/-- Choosing names twice. -/
theorem named_named (p q : String → Bool) (entries : Entries) :
    named p (named q entries) = named (fun name => p name && q name) entries := by
  rw [named, named, named, List.filter_filter]

theorem named_put (hp : p key.name = true) :
    named p (put key value entries) = put key value (named p entries) := by
  induction entries with
  | nil => rw [put, named_singleton, if_pos hp]; rfl
  | cons entry entries ih =>
      by_cases hkey : entry.1.name = key.name
      · simp [named, put, hkey, hp]
      · by_cases hentry : p entry.1.name = true
        · simpa [named, put, hkey, hentry] using ih
        · simpa [named, put, hkey, hentry] using ih

theorem named_put_of_not (hp : p key.name = false) :
    named p (put key value entries) = named p entries := by
  induction entries with
  | nil => simp [named, put, hp]
  | cons entry entries ih =>
      by_cases hkey : entry.1.name = key.name
      · simp [named, put, hkey, hp]
      · by_cases hentry : p entry.1.name = true
        · simpa [named, put, hkey, hentry] using ih
        · simpa [named, put, hkey, hentry] using ih

theorem named_replace (hp : p key.name = true) :
    named p (replace key value entries) = replace key value (named p entries) := by
  simp [replace_eq, named_append, named_named, named_singleton, hp, Bool.and_comm]

theorem named_replace_of_not (hp : p key.name = false) :
    named p (replace key value entries) = named p entries := by
  have hnames : (fun name => p name && decide (name ≠ key.name)) = p := by
    funext name
    by_cases hname : name = key.name
    · simp [hname, hp]
    · simp [hname]
  rw [replace_eq, named_append, named_named, hnames, named_singleton, if_neg (by simp [hp]),
    List.append_nil]

theorem named_add? (hp : p key.name = true) :
    (add? key value entries).map (named p) = add? key value (named p entries) := by
  rw [add?, add?, find?_named, if_pos hp]
  cases find? entries key.name with
  | none => simp [named_append, named_singleton, hp]
  | some found => rfl

end Named

end Entries

/-- A change that loses no name. -/
def KeepsNames (change : Origin → Entries → Option Entries) : Prop :=
  ∀ origin entries changed, change origin entries = some changed →
    ∀ name, entries.Has name → changed.Has name

section Changes

variable {missing : Origin} {isOpen : Origin → Bool} {change : Origin → Entries → Option Entries}
  {origin : Origin} {entries changed : Entries} {key : Key} {path : List Key} {p : String → Bool}

/-- The value under the first key of a path, with the table changed that the rest of the path starts from. -/
def changeWithin (missing : Origin) (isOpen : Origin → Bool)
    (change : Origin → Entries → Option Entries) (key : Key) : Option Value → Option Value
  | none => (change missing []).map (.table key.span missing)
  | some (.table span origin inner) =>
    if isOpen origin then (change origin inner).map (.table span origin) else none
  | some (.array span true items) =>
    match splitLast? items with
    | some (before, .table last origin inner) =>
      (change origin inner).map fun inner => .array span true (before ++ [.table last origin inner])
    | _ => none
  | some _ => none

/-- Along a path only the value under its first key changes. -/
theorem changeAt_cons (missing : Origin) (isOpen : Origin → Bool)
    (change : Origin → Entries → Option Entries) (key : Key) (path : List Key) (origin : Origin)
    (entries : Entries) :
    changeAt missing isOpen change (key :: path) origin entries =
      (changeWithin missing isOpen (changeAt missing isOpen change path) key
        (entries.find? key.name)).map fun value => entries.put key value := by
  rw [changeAt]
  simp only [bind_pure_comp, Option.map_eq_map]
  rcases entries.find? key.name with _ | value
  · simp only [changeWithin, Option.map_map, Function.comp_def]
  · cases value with
    | table span origin inner =>
        simp only [changeWithin]
        split
        · simp only [Option.map_map, Function.comp_def]
        · rfl
    | array span isOfTables items =>
        cases isOfTables with
        | false => rfl
        | true =>
            rcases hlast : splitLast? items with _ | ⟨before, last⟩
            · simp only [changeWithin, hlast, Option.map_none]
            · cases last with
              | table last origin inner =>
                  simp only [changeWithin, hlast, Option.map_map, Function.comp_def]
              | _ => simp only [changeWithin, hlast, Option.map_none]
    | _ => rfl

theorem keepsNames_changeAt (hchange : KeepsNames change) (path : List Key) :
    KeepsNames (changeAt missing isOpen change path) := by
  intro origin entries changed hchanged name hname
  cases path with
  | nil => exact hchange origin entries changed hchanged name hname
  | cons key path =>
      rw [changeAt_cons] at hchanged
      obtain ⟨value, _, rfl⟩ := Option.map_eq_some_iff.mp hchanged
      exact Entries.has_put.mpr (Or.inr hname)

theorem has_changeAt_cons (hchanged : changeAt missing isOpen change (key :: path) origin entries = some changed) :
    changed.Has key.name := by
  rw [changeAt_cons] at hchanged
  obtain ⟨value, _, rfl⟩ := Option.map_eq_some_iff.mp hchanged
  exact Entries.has_put.mpr (Or.inl rfl)

theorem named_changeAt_cons (hp : p key.name = true) :
    (changeAt missing isOpen change (key :: path) origin entries).map (Entries.named p) =
      changeAt missing isOpen change (key :: path) origin (Entries.named p entries) := by
  rw [changeAt_cons, changeAt_cons, Entries.find?_named, if_pos hp, Option.map_map]
  exact congrArg (Option.map · _) (funext fun value => Entries.named_put hp)

theorem named_changeAt_cons_of_not (hp : p key.name = false)
    (hchanged : changeAt missing isOpen change (key :: path) origin entries = some changed) :
    Entries.named p changed = Entries.named p entries := by
  rw [changeAt_cons] at hchanged
  obtain ⟨value, _, rfl⟩ := Option.map_eq_some_iff.mp hchanged
  exact Entries.named_put_of_not hp

end Changes

/-- The first name on the way to a value. -/
def Assignment.topName (assignment : Assignment) : String :=
  (assignment.path.headD assignment.key).name

theorem keepsNames_apply (made : Origin) (isOpen : Origin → Bool) (assignment : Assignment) :
    KeepsNames (assignment.apply made isOpen) := by
  refine keepsNames_changeAt (fun origin entries changed hchanged name hname => ?_) _
  split at hchanged
  · obtain ⟨_, rfl⟩ := Entries.add?_eq_some_iff.mp hchanged
    exact Entries.has_append.mpr (Or.inl hname)
  · cases hchanged

theorem has_apply {made : Origin} {isOpen : Origin → Bool} {assignment : Assignment} {origin : Origin}
    {entries changed : Entries} (hchanged : assignment.apply made isOpen origin entries = some changed) :
    changed.Has assignment.topName := by
  obtain ⟨path, key, value⟩ := assignment
  cases path with
  | nil =>
      simp only [Assignment.apply, changeAt] at hchanged
      split at hchanged
      · obtain ⟨_, rfl⟩ := Entries.add?_eq_some_iff.mp hchanged
        exact Entries.has_append.mpr (Or.inr ⟨_, List.mem_singleton_self _, rfl⟩)
      · cases hchanged
  | cons first path => exact has_changeAt_cons hchanged

/-- Every assignment of a table leaves a name in it, and every name stays. -/
theorem has_assign? {assignments : List Assignment} {origin : Origin} {entries changed : Entries}
    (hchanged : assign? assignments origin entries = some changed) :
    (∀ name, entries.Has name → changed.Has name) ∧
      ∀ assignment ∈ assignments, changed.Has assignment.topName := by
  induction assignments generalizing entries with
  | nil =>
      obtain rfl := Option.some.inj hchanged
      exact ⟨fun name hname => hname, by simp⟩
  | cons assignment assignments ih =>
      rw [assign?, List.foldlM_cons] at hchanged
      obtain ⟨between, hfirst, hrest⟩ := Option.bind_eq_some_iff.mp hchanged
      obtain ⟨hkept, hothers⟩ := ih hrest
      refine ⟨fun name hname => hkept name (keepsNames_apply _ _ _ _ _ _ hfirst name hname), ?_⟩
      exact List.forall_mem_cons.mpr ⟨hkept _ (has_apply hfirst), hothers⟩

namespace Section

/-- The first name on the way to the table of a section. -/
def topName (part : Section) : String :=
  (part.path.headD part.key).name

variable {part : Section} {entries changed : Entries} {p : String → Bool}

/-- The table of a section takes the place of the entries of its name. -/
theorem addTo_cases (hchanged : part.addTo entries = some changed) :
    ∃ value, changed = entries.put part.key value ∨ changed = entries.replace part.key value ∨
      changed = entries ++ [(part.key, value)] := by
  rw [addTo] at hchanged
  simp only [bind_pure_comp, Option.map_eq_map, Option.bind_eq_bind] at hchanged
  split at hchanged
  · obtain ⟨inner, _, hadded⟩ := Option.bind_eq_some_iff.mp hchanged
    exact ⟨_, Or.inr (Or.inr (Entries.add?_eq_some_iff.mp hadded).2)⟩
  · obtain ⟨inner, _, rfl⟩ := Option.map_eq_some_iff.mp hchanged
    exact ⟨_, Or.inr (Or.inl rfl)⟩
  · obtain ⟨inner, _, hadded⟩ := Option.bind_eq_some_iff.mp hchanged
    exact ⟨_, Or.inr (Or.inr (Entries.add?_eq_some_iff.mp hadded).2)⟩
  · obtain ⟨inner, _, rfl⟩ := Option.map_eq_some_iff.mp hchanged
    exact ⟨_, Or.inl rfl⟩
  · cases hchanged

theorem has_addTo (hchanged : part.addTo entries = some changed) {name : String} :
    changed.Has name ↔ part.key.name = name ∨ entries.Has name := by
  obtain ⟨value, rfl | rfl | rfl⟩ := addTo_cases hchanged
  · exact Entries.has_put
  · exact Entries.has_replace
  · rw [Entries.has_append, or_comm]
    simp [Entries.Has]

theorem named_addTo_of_not (hp : p part.key.name = false) (hchanged : part.addTo entries = some changed) :
    changed.named p = entries.named p := by
  obtain ⟨value, rfl | rfl | rfl⟩ := addTo_cases hchanged
  · exact Entries.named_put_of_not hp
  · exact Entries.named_replace_of_not hp
  · rw [Entries.named_append, Entries.named_singleton, if_neg (by simp [hp]), List.append_nil]

theorem named_addTo (hp : p part.key.name = true) :
    (part.addTo entries).map (Entries.named p) = part.addTo (entries.named p) := by
  rw [addTo, addTo, Entries.find?_named, if_pos hp]
  simp only [bind_pure_comp, Option.map_eq_map, Option.bind_eq_bind]
  split
  · rw [Option.map_bind]
    exact congrArg (Option.bind _) (funext fun inner => Entries.named_add? hp)
  · rw [Option.map_map]
    exact congrArg (Option.map · _) (funext fun inner => Entries.named_replace hp)
  · rw [Option.map_bind]
    exact congrArg (Option.bind _) (funext fun inner => Entries.named_add? hp)
  · rw [Option.map_map]
    exact congrArg (Option.map · _) (funext fun inner => Entries.named_put hp)
  · rfl

theorem keepsNames_addTo (part : Section) : KeepsNames fun _ entries => part.addTo entries :=
  fun _ _ _ hadded _ hname => (has_addTo hadded).mpr (Or.inr hname)

theorem has_apply (hchanged : part.apply entries = some changed) :
    (∀ name, entries.Has name → changed.Has name) ∧ changed.Has part.topName := by
  refine ⟨keepsNames_changeAt part.keepsNames_addTo _ _ _ _ hchanged, ?_⟩
  obtain ⟨path, key, isRepeated, span, assignments⟩ := part
  cases path with
  | nil => exact (has_addTo hchanged).mpr (Or.inl rfl)
  | cons first path => exact has_changeAt_cons hchanged

theorem named_apply (hp : p part.topName = true) :
    (part.apply entries).map (Entries.named p) = part.apply (entries.named p) := by
  obtain ⟨path, key, isRepeated, span, assignments⟩ := part
  cases path with
  | nil => exact named_addTo hp
  | cons first path => exact named_changeAt_cons hp

theorem named_apply_of_not (hp : p part.topName = false) (hchanged : part.apply entries = some changed) :
    changed.named p = entries.named p := by
  obtain ⟨path, key, isRepeated, span, assignments⟩ := part
  cases path with
  | nil => exact named_addTo_of_not hp hchanged
  | cons first path => exact named_changeAt_cons_of_not hp hchanged

end Section

end EntityClasses.Toml
