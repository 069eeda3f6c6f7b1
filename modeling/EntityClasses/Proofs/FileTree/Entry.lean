import Mathlib.Data.List.Infix
import EntityClasses.FileTree

/-! A file tree seen from outside: at each location there is a file with its bytes, a directory, or
nothing. Two trees that agree at every location are the same tree to every operation, and each change
to a tree is described here by what it does to this view. -/

namespace EntityClasses

/-- What stands at a location, without what is below it. -/
inductive Entry where
  | file (content : ByteArray)
  | directory

namespace FileTree

def entry : FileTree → Entry
  | .file content => .file content
  | .directory _ => .directory

def entryAt (tree : FileTree) (location : Location) : Option Entry :=
  (tree.find? location).map entry

theorem find?_append (tree : FileTree) (front rest : Location) :
    tree.find? (front ++ rest) = (tree.find? front).bind (·.find? rest) := by
  induction front generalizing tree with
  | nil => simp [find?]
  | cons name front ih =>
      cases tree with
      | file content => simp [find?]
      | directory entries =>
          rw [List.cons_append, find?, find?]
          cases entries.lookup name with
          | none => rfl
          | some node => exact ih node

theorem entryAt_eq_directory_iff (tree : FileTree) (location : Location) :
    tree.entryAt location = some .directory ↔
      ∃ entries, tree.find? location = some (.directory entries) := by
  rw [entryAt, Option.map_eq_some_iff]
  constructor
  · rintro ⟨node, hfind, hentry⟩
    cases node with
    | file content => cases hentry
    | directory entries => exact ⟨entries, hfind⟩
  · rintro ⟨entries, hfind⟩
    exact ⟨_, hfind, rfl⟩

theorem entryAt_eq_file_iff (tree : FileTree) (location : Location) (content : ByteArray) :
    tree.entryAt location = some (.file content) ↔
      tree.find? location = some (.file content) := by
  rw [entryAt, Option.map_eq_some_iff]
  constructor
  · rintro ⟨node, hfind, hentry⟩
    cases node with
    | file other => cases hentry; exact hfind
    | directory entries => cases hentry
  · intro hfind
    exact ⟨_, hfind, rfl⟩

theorem entryAt_eq_none_iff (tree : FileTree) (location : Location) :
    tree.entryAt location = none ↔ tree.find? location = none := by
  rw [entryAt, Option.map_eq_none_iff]

/-- Whatever has something below it is a directory. -/
theorem entryAt_of_below {tree : FileTree} {front rest : Location}
    (hbelow : tree.entryAt (front ++ rest) ≠ none) (hrest : rest ≠ []) :
    tree.entryAt front = some .directory := by
  rw [Ne, entryAt_eq_none_iff, find?_append] at hbelow
  rw [entryAt_eq_directory_iff]
  cases hfind : tree.find? front with
  | none => simp [hfind] at hbelow
  | some node =>
      cases node with
      | directory entries => exact ⟨entries, rfl⟩
      | file content =>
          obtain ⟨name, names, rfl⟩ := List.exists_cons_of_ne_nil hrest
          simp [hfind, find?] at hbelow

theorem entryAt_of_above {tree : FileTree} {front location : Location}
    (hfront : front <+: location) (hne : front ≠ location) (hlocation : tree.entryAt location ≠ none) :
    tree.entryAt front = some .directory := by
  obtain ⟨rest, rfl⟩ := hfront
  exact entryAt_of_below hlocation fun hrest => hne (by rw [hrest, List.append_nil])

theorem entryAt_eq_none_of_above {tree : FileTree} {front location : Location}
    (hfront : front <+: location) (hnone : tree.entryAt front = none) :
    tree.entryAt location = none := by
  by_contra hsome
  by_cases heq : front = location
  · exact hsome (heq ▸ hnone)
  · rw [entryAt_of_above hfront heq hsome] at hnone
    cases hnone

theorem not_below_of_below {front location : Location} (hbelow : front <+: location)
    (hne : location ≠ front) : ¬ location <+: front :=
  fun h => hne (h.eq_of_length_le hbelow.length_le)

theorem not_above_of_concat {front location : Location} {name : String}
    (hbelow : front ++ [name] <+: location) : ¬ location <+: front := by
  intro h
  have hlength := (hbelow.trans h).length_le
  rw [List.length_append, List.length_singleton] at hlength
  omega

theorem entryAt_concat {tree : FileTree} {location : Location} {entries : List (String × FileTree)}
    (hfind : tree.find? location = some (.directory entries)) (name : String) :
    tree.entryAt (location ++ [name]) = (entries.lookup name).map entry := by
  rw [entryAt, find?_append, hfind]
  cases hlookup : entries.lookup name <;> simp [find?, hlookup]

theorem isSome_lookup {tree : FileTree} {location : Location} {entries : List (String × FileTree)}
    (hfind : tree.find? location = some (.directory entries)) (name : String) :
    (entries.lookup name).isSome = (tree.entryAt (location ++ [name])).isSome := by
  rw [entryAt_concat hfind, Option.isSome_map]

theorem lookup_cons_eq_ite (key other : String) (node : FileTree)
    (entries : List (String × FileTree)) :
    ((key, node) :: entries).lookup other =
      if other = key then some node else entries.lookup other := by
  rw [List.lookup_cons]
  by_cases hother : other = key
  · simp [hother]
  · simp [hother, beq_false_of_ne hother]

theorem lookup_putEntry (name other : String) (node : FileTree)
    (entries : List (String × FileTree)) :
    (putEntry name node entries).lookup other =
      if other = name then some node else entries.lookup other := by
  induction entries with
  | nil => exact lookup_cons_eq_ite name other node []
  | cons entry entries ih =>
      obtain ⟨key, inner⟩ := entry
      rw [putEntry]
      by_cases hkey : key = name
      · rw [if_pos hkey, lookup_cons_eq_ite, lookup_cons_eq_ite, hkey]
        by_cases hother : other = name
        · rw [if_pos hother, if_pos hother]
        · rw [if_neg hother, if_neg hother, if_neg hother]
      · rw [if_neg hkey, lookup_cons_eq_ite, lookup_cons_eq_ite, ih]
        by_cases hother : other = key
        · rw [if_pos hother, if_pos hother, if_neg (hother ▸ hkey)]
        · rw [if_neg hother, if_neg hother]

theorem lookup_dropEntry (name other : String) (entries : List (String × FileTree)) :
    (dropEntry name entries).lookup other =
      if other = name then none else entries.lookup other := by
  induction entries with
  | nil => simp [dropEntry]
  | cons entry entries ih =>
      obtain ⟨key, inner⟩ := entry
      rw [dropEntry] at ih ⊢
      rw [lookup_cons_eq_ite]
      by_cases hkey : key = name
      · rw [List.filter_cons_of_neg (by simpa using hkey), ih, hkey]
        by_cases hother : other = name
        · rw [if_pos hother, if_pos hother]
        · rw [if_neg hother, if_neg hother, if_neg hother]
      · rw [List.filter_cons_of_pos (by simpa using hkey), lookup_cons_eq_ite, ih]
        by_cases hother : other = key
        · rw [if_pos hother, if_pos hother, if_neg (hother ▸ hkey)]
        · rw [if_neg hother, if_neg hother]

section Modify

variable (change : FileTree → FileTree) (tree : FileTree) (location : Location)

theorem find?_modify_append {node : FileTree} (hfind : tree.find? location = some node)
    (rest : Location) :
    (tree.modify change location).find? (location ++ rest) = (change node).find? rest := by
  induction location generalizing tree with
  | nil =>
      simp only [find?, Option.some.injEq] at hfind
      rw [modify, List.nil_append, hfind]
  | cons name names ih =>
      cases tree with
      | file content => simp [find?] at hfind
      | directory entries =>
          rw [find?] at hfind
          cases hlookup : entries.lookup name with
          | none => simp [hlookup] at hfind
          | some inner =>
              rw [hlookup] at hfind
              rw [modify, hlookup, List.cons_append, find?, lookup_putEntry, if_pos rfl]
              exact ih inner hfind

theorem entryAt_modify_of_outside {other : Location} (hother : ¬ location <+: other) :
    (tree.modify change location).entryAt other = tree.entryAt other := by
  induction location generalizing tree other with
  | nil => exact absurd List.nil_prefix hother
  | cons name names ih =>
      cases tree with
      | file content => rw [modify]
      | directory entries =>
          rw [modify]
          cases hlookup : entries.lookup name with
          | none => rfl
          | some inner =>
              cases other with
              | nil => rfl
              | cons first rest =>
                  dsimp only
                  rw [entryAt, entryAt, find?, find?, lookup_putEntry]
                  by_cases hfirst : first = name
                  · have hrest : ¬ names <+: rest := fun h =>
                      hother (by rw [hfirst]; exact (List.prefix_cons_inj name).mpr h)
                    rw [if_pos hfirst, hfirst, hlookup]
                    exact ih inner hrest
                  · rw [if_neg hfirst]

end Modify

section Change

variable {tree : FileTree} {location : Location}

theorem entryAt_insert_below (hdirectory : tree.entryAt location = some .directory) (name : String)
    (node : FileTree) (rest : Location) :
    (tree.insert location name node).entryAt (location ++ name :: rest) = node.entryAt rest := by
  obtain ⟨entries, hfind⟩ := (entryAt_eq_directory_iff tree location).mp hdirectory
  rw [entryAt, insert, find?_modify_append _ _ _ hfind, find?, lookup_putEntry, if_pos rfl]
  rfl

theorem entryAt_insert_other (hdirectory : tree.entryAt location = some .directory) (name : String)
    (node : FileTree) {other : Location} (hother : ¬ location ++ [name] <+: other) :
    (tree.insert location name node).entryAt other = tree.entryAt other := by
  obtain ⟨entries, hfind⟩ := (entryAt_eq_directory_iff tree location).mp hdirectory
  by_cases hfront : location <+: other
  · obtain ⟨rest, rfl⟩ := hfront
    rw [entryAt, insert, find?_modify_append _ _ _ hfind]
    cases rest with
    | nil => rw [List.append_nil, hdirectory]; rfl
    | cons first rest =>
        have hfirst : first ≠ name := fun h =>
          hother ⟨rest, by rw [h, List.append_assoc, List.singleton_append]⟩
        rw [find?, lookup_putEntry, if_neg hfirst, entryAt, find?_append, hfind]
        rfl
  · rw [insert, entryAt_modify_of_outside _ _ _ hfront]

/-- A file or an empty directory in a place where no directory is changes that place alone. -/
theorem entryAt_insert (hdirectory : tree.entryAt location = some .directory) {name : String}
    (hplace : tree.entryAt (location ++ [name]) ≠ some .directory) {node : FileTree}
    (hleaf : ∀ first rest, node.entryAt (first :: rest) = none) (other : Location) :
    (tree.insert location name node).entryAt other =
      if other = location ++ [name] then node.entryAt [] else tree.entryAt other := by
  by_cases hfront : location ++ [name] <+: other
  · obtain ⟨rest, rfl⟩ := hfront
    rw [List.append_assoc, List.singleton_append, entryAt_insert_below hdirectory]
    cases rest with
    | nil => rw [if_pos rfl]
    | cons first rest =>
        have hbelow : tree.entryAt (location ++ [name] ++ first :: rest) = none := by
          by_contra hsome
          exact hplace (entryAt_of_below hsome (by simp))
        rw [hleaf, if_neg (by simp), ← hbelow, List.append_assoc, List.singleton_append]
  · rw [entryAt_insert_other hdirectory name node hfront, if_neg]
    rintro rfl
    exact hfront List.prefix_rfl

theorem entryAt_erase (hdirectory : tree.entryAt location = some .directory) (name : String)
    (other : Location) :
    (tree.erase location name).entryAt other =
      if location ++ [name] <+: other then none else tree.entryAt other := by
  obtain ⟨entries, hfind⟩ := (entryAt_eq_directory_iff tree location).mp hdirectory
  by_cases hfront : location <+: other
  · obtain ⟨rest, rfl⟩ := hfront
    rw [entryAt, erase, find?_modify_append _ _ _ hfind]
    cases rest with
    | nil =>
        have hlonger : ¬ location ++ [name] <+: location := fun h =>
          not_above_of_concat List.prefix_rfl h
        rw [List.append_nil, if_neg hlonger, hdirectory]
        rfl
    | cons first rest =>
        rw [find?, lookup_dropEntry]
        by_cases hfirst : first = name
        · simp [hfirst]
        · simp [entryAt, hfirst, Ne.symm hfirst, find?_append, hfind, find?]
  · have hname : ¬ location ++ [name] <+: other := fun h =>
      hfront ((List.prefix_append _ _).trans h)
    rw [if_neg hname, erase, entryAt_modify_of_outside _ _ _ hfront]

theorem entryAt_emptied (hdirectory : tree.entryAt location = some .directory) (other : Location) :
    (tree.modify (fun _ => .directory []) location).entryAt other =
      if other = location then some .directory
      else if location <+: other then none else tree.entryAt other := by
  obtain ⟨entries, hfind⟩ := (entryAt_eq_directory_iff tree location).mp hdirectory
  by_cases hfront : location <+: other
  · obtain ⟨rest, rfl⟩ := hfront
    rw [entryAt, find?_modify_append _ _ _ hfind]
    cases rest with
    | nil => simp [find?, entry]
    | cons first rest => simp [find?]
  · have hne : other ≠ location := fun h => hfront (h ▸ List.prefix_rfl)
    rw [if_neg hne, if_neg hfront, entryAt_modify_of_outside _ _ _ hfront]

end Change

end FileTree

end EntityClasses
