import EntityClasses.Proofs.FileTree.Walk

/-! What a change that succeeded has done, for any path however it is spelled: making a directory adds
that directory, writing puts a file at the target of its path, and whatever happens while directories
are made, nothing that was there is lost. -/

namespace EntityClasses

namespace FileTree

theorem lookUpParent_ok {tree : FileTree} {steps : List String} {last name : String}
    {location : Location} {entries : List (String × FileTree)}
    (hparent : tree.lookUpParent steps last = .ok (location, entries, name)) :
    tree.walk [] steps = .ok location ∧ tree.find? location = some (.directory entries) ∧
      name = last := by
  rw [lookUpParent] at hparent
  rcases hwalk : tree.walk [] steps with fault | reached
  · rw [hwalk] at hparent
    cases hparent
  · rw [hwalk] at hparent
    dsimp only at hparent
    rcases hfind : tree.find? reached with _ | content | inner
    · rw [hfind] at hparent
      cases hparent
    · rw [hfind] at hparent
      cases hparent
    · rw [hfind] at hparent
      cases hparent
      exact ⟨rfl, hfind, rfl⟩

/-- A change of the last name of a path, in the directory around it. Making a directory and writing a file
are such changes. -/
def inParent (tree : FileTree) (p : Path) (atRoot : Fault)
    (change : Location → List (String × FileTree) → String → Except Fault FileTree) :
    Except Fault FileTree :=
  match p.fault?, p.steps.getLast? with
  | some fault, _ => .error fault
  | none, none => .error atRoot
  | none, some last =>
    match tree.lookUpParent p.steps.dropLast last with
    | .error fault => .error fault
    | .ok (location, entries, name) => change location entries name

/-- What a change of the last name has gone through when it is done. -/
theorem inParent_ok {tree after : FileTree} {p : Path} {atRoot : Fault}
    {change : Location → List (String × FileTree) → String → Except Fault FileTree}
    (hresult : tree.inParent p atRoot change = .ok after) :
    ∃ location entries name, p.fault? = none ∧ p.steps.getLast? = some name ∧
      tree.walk [] p.steps.dropLast = .ok location ∧
      tree.find? location = some (.directory entries) ∧ change location entries name = .ok after := by
  rw [inParent] at hresult
  split at hresult
  · cases hresult
  · cases hresult
  · rename_i last hfault hlast
    rcases hparent : tree.lookUpParent p.steps.dropLast last with fault | ⟨location, entries, name⟩
    · rw [hparent] at hresult
      cases hresult
    · rw [hparent] at hresult
      obtain ⟨hwalk, hfind, rfl⟩ := lookUpParent_ok hparent
      exact ⟨location, entries, name, hfault, hlast, hwalk, hfind, hresult⟩

/-- The last step of a walk into a directory. -/
theorem walk_concat {tree : FileTree} {start location : Location} {front : List String}
    {last : String} (hfront : tree.walk start front = .ok location)
    (hdirectory : tree.entryAt location = some .directory) (hdot : last ≠ ".") (hdots : last ≠ "..")
    (hlong : isTooLong last = false) (hlast : tree.entryAt (location ++ [last]) ≠ none) :
    tree.walk start (front ++ [last]) = .ok (location ++ [last]) := by
  rw [walk_append, hfront]
  exact (walk_cons_eq_ok_iff _ _ _ _ _).mpr
    ⟨hdirectory, Or.inr (Or.inr ⟨hdot, hdots, hlong, hlast, rfl⟩)⟩

/-- Where a change of the last part of a path takes place: in a directory that can be walked to, with
these entries, under this name. -/
structure Place (tree : FileTree) (p : Path) (location : Location)
    (entries : List (String × FileTree)) (name : String) : Prop where
  fault : p.fault? = none
  last : p.steps.getLast? = some name
  walk : tree.walk [] p.steps.dropLast = .ok location
  find : tree.find? location = some (.directory entries)
  dot : name ≠ "."
  dots : name ≠ ".."
  short : isTooLong name = false

namespace Place

variable {tree : FileTree} {p : Path} {location : Location} {entries : List (String × FileTree)}
  {name : String} (hplace : Place tree p location entries name)
include hplace

theorem directory : tree.entryAt location = some .directory :=
  (entryAt_eq_directory_iff tree location).mpr ⟨entries, hplace.find⟩

theorem target_eq : p.target = location ++ [name] := by
  rw [p.target_eq_concat hplace.last hplace.dot hplace.dots, ← eq_resolve_of_walk hplace.walk]

theorem walk_steps {later : FileTree} (hgrows : Grows tree later)
    (hname : later.entryAt (location ++ [name]) ≠ none) :
    later.walk [] p.steps = .ok (location ++ [name]) := by
  have hwalk := walk_of_grows hgrows hplace.walk
  obtain ⟨front, hsteps⟩ := List.getLast?_eq_some_iff.mp hplace.last
  rw [hsteps, List.dropLast_concat] at hwalk
  rw [hsteps]
  exact walk_concat hwalk ((hgrows location).1 hplace.directory) hplace.dot hplace.dots hplace.short
    hname

end Place

theorem place_of_write {tree written : FileTree} {p : Path} {content : ByteArray}
    (hwrite : tree.write p content = .ok written) :
    ∃ location entries name, Place tree p location entries name ∧ p.endsInSlash = false ∧
      tree.entryAt (location ++ [name]) ≠ some .directory ∧
      written = tree.insert location name (.file content) := by
  obtain ⟨location, entries, name, hfault, hlast, hwalk, hfind, hchange⟩ := inParent_ok hwrite
  split_ifs at hchange with hname hlong
  simp only [Bool.or_eq_true, decide_eq_true_eq, not_or] at hname
  obtain ⟨⟨hdot, hdots⟩, hslash⟩ := hname
  refine ⟨location, entries, name, ⟨hfault, hlast, hwalk, hfind, hdot, hdots, by simpa using hlong⟩,
    by simpa using hslash, ?_⟩
  rw [entryAt_concat hfind]
  rcases hlookup : entries.lookup name with _ | content | inner
  · rw [hlookup] at hchange
    cases hchange
    simp
  · rw [hlookup] at hchange
    cases hchange
    simp [entry]
  · rw [hlookup] at hchange
    cases hchange

theorem place_of_makeDirectory {tree made : FileTree} {p : Path}
    (hmake : tree.makeDirectory p = .ok made) :
    ∃ location entries name, Place tree p location entries name ∧
      tree.entryAt (location ++ [name]) = none ∧ made = tree.insert location name (.directory []) := by
  obtain ⟨location, entries, name, hfault, hlast, hwalk, hfind, hchange⟩ := inParent_ok hmake
  split_ifs at hchange with hname hlong hsome
  cases hchange
  simp only [Bool.or_eq_true, decide_eq_true_eq, not_or] at hname
  refine ⟨location, entries, name, ⟨hfault, hlast, hwalk, hfind, hname.1, hname.2,
    by simpa using hlong⟩, ?_, rfl⟩
  rw [isSome_lookup hfind] at hsome
  exact Option.not_isSome_iff_eq_none.mp hsome

theorem write_ok {tree written : FileTree} {p : Path} {content : ByteArray}
    (hwrite : tree.write p content = .ok written) :
    tree.entryAt p.target ≠ some .directory ∧
    (∀ other, written.entryAt other =
      if other = p.target then some (.file content) else tree.entryAt other) ∧
    written.locate p = .ok p.target := by
  obtain ⟨location, entries, name, hplace, hslash, hnoDirectory, rfl⟩ := place_of_write hwrite
  rw [hplace.target_eq]
  have hentry : ∀ other, (tree.insert location name (.file content)).entryAt other =
      if other = location ++ [name] then some (.file content) else tree.entryAt other := by
    intro other
    rw [entryAt_insert hplace.directory hnoDirectory fun _ _ => rfl]
    rfl
  have hgrows : Grows tree (tree.insert location name (.file content)) := by
    intro other
    rw [hentry]
    split_ifs with hother
    · rw [hother]
      exact ⟨fun h => absurd h hnoDirectory, fun _ => Option.some_ne_none _⟩
    · exact ⟨id, id⟩
  refine ⟨hnoDirectory, hentry, (locate_eq_ok_iff _ _ _).mpr ⟨hplace.fault, ?_⟩⟩
  rw [if_neg (by simp [hslash])]
  refine hplace.walk_steps hgrows ?_
  rw [hentry, if_pos rfl]
  exact Option.some_ne_none _

theorem makeDirectory_ok {tree made : FileTree} {p : Path}
    (hmake : tree.makeDirectory p = .ok made) :
    tree.entryAt p.target = none ∧
    ∀ other, made.entryAt other =
      if other = p.target then some .directory else tree.entryAt other := by
  obtain ⟨location, entries, name, hplace, hnone, rfl⟩ := place_of_makeDirectory hmake
  rw [hplace.target_eq]
  refine ⟨hnone, ?_⟩
  intro other
  rw [entryAt_insert hplace.directory (by simp [hnone]) fun _ _ => rfl]
  rfl

theorem makeDirectory_keeps {tree made : FileTree} {p : Path}
    (hmake : tree.makeDirectory p = .ok made) : Keeps tree made := by
  obtain ⟨hnone, hentry⟩ := makeDirectory_ok hmake
  intro location entry hlocation
  rw [hentry, if_neg, hlocation]
  rintro rfl
  rw [hnone] at hlocation
  cases hlocation

section CreateAll

variable {tree : FileTree} {p : Path} (above : List Path)

theorem createAll_of_made {made : FileTree} (hmake : tree.makeDirectory p = .ok made) :
    createAll (p :: above) tree = (.ok (), made) := by
  rw [createAll, hmake]

/-- Only a missing parent makes the later paths of the list matter. -/
theorem createAll_of_fault {fault : Fault} (hmake : tree.makeDirectory p = .error fault)
    (hfault : fault ≠ .notFound) :
    createAll (p :: above) tree =
      if tree.isDirectory p then (.ok (), tree) else (.error fault, tree) := by
  rw [createAll, hmake]
  cases fault <;> first | rfl | exact absurd rfl hfault

variable {ready : FileTree} {fault : Fault} (hmissing : tree.makeDirectory p = .error .notFound)
include hmissing

theorem createAll_of_missing_error (habove : createAll above tree = (.error fault, ready)) :
    createAll (p :: above) tree = (.error fault, ready) := by
  simp only [createAll, hmissing, habove]

theorem createAll_of_missing_made {made : FileTree} (habove : createAll above tree = (.ok (), ready))
    (hmake : ready.makeDirectory p = .ok made) : createAll (p :: above) tree = (.ok (), made) := by
  simp only [createAll, hmissing, habove, hmake]

theorem createAll_of_missing_fault (habove : createAll above tree = (.ok (), ready))
    (hmake : ready.makeDirectory p = .error fault) :
    createAll (p :: above) tree =
      if ready.isDirectory p then (.ok (), ready) else (.error fault, ready) := by
  simp only [createAll, hmissing, habove, hmake]

end CreateAll

theorem createAll_keeps (paths : List Path) (tree : FileTree) :
    Keeps tree (createAll paths tree).2 := by
  induction paths generalizing tree with
  | nil => exact Keeps.refl tree
  | cons p above ih =>
      rcases hmake : tree.makeDirectory p with fault | made
      · by_cases hmissing : fault = .notFound
        · rw [hmissing] at hmake
          have hkeeps := ih tree
          rcases habove : createAll above tree with ⟨fault | _, ready⟩
          · rw [habove] at hkeeps
            rw [createAll_of_missing_error above hmake habove]
            exact hkeeps
          · rw [habove] at hkeeps
            rcases hagain : ready.makeDirectory p with fault | made
            · rw [createAll_of_missing_fault above hmake habove hagain]
              split_ifs <;> exact hkeeps
            · rw [createAll_of_missing_made above hmake habove hagain]
              exact hkeeps.trans (makeDirectory_keeps hagain)
        · rw [createAll_of_fault above hmake hmissing]
          split_ifs <;> exact Keeps.refl tree
      · rw [createAll_of_made above hmake]
        exact makeDirectory_keeps hmake

theorem createDirectories_keeps (p : Path) (tree : FileTree) :
    Keeps tree (tree.createDirectories p).2 :=
  createAll_keeps p.ancestors tree

end FileTree

end EntityClasses
