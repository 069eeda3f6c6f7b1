import EntityClasses.Proofs.FileTree.Entry

/-! Where paths lead. A walk over the parts of a path can fail, but where it arrives is decided by the
parts alone: a dot stays, two dots go back, and every other part goes down. So a path has one target
in all trees, two paths that look different can have the same target, and a tree that only grows never
loses a place that could be reached. -/

namespace EntityClasses

namespace FileTree

/-- The location that parts lead to from a location, if nothing is in the way. -/
def resolve : Location → List String → Location
  | location, [] => location
  | location, part :: parts =>
    if part = "." then resolve location parts
    else if part = ".." then resolve location.dropLast parts
    else resolve (location ++ [part]) parts

theorem resolve_append (location : Location) (front rest : List String) :
    resolve location (front ++ rest) = resolve (resolve location front) rest := by
  induction front generalizing location with
  | nil => rfl
  | cons part parts ih =>
      rw [List.cons_append, resolve, resolve, ih, ih, ih]
      split_ifs <;> rfl

/-- Without double dots, parts lead down. -/
theorem resolve_of_notMem (location : Location) {parts : List String} (hdots : ".." ∉ parts) :
    resolve location parts = location ++ parts.filter (· ≠ ".") := by
  induction parts generalizing location with
  | nil => rw [resolve, List.filter_nil, List.append_nil]
  | cons part parts ih =>
      rw [List.mem_cons, not_or] at hdots
      rw [resolve]
      by_cases hdot : part = "."
      · rw [if_pos hdot, ih location hdots.2, List.filter_cons_of_neg (by simpa using hdot)]
      · rw [if_neg hdot, if_neg (Ne.symm hdots.1), ih _ hdots.2,
          List.filter_cons_of_pos (by simpa using hdot), List.append_assoc, List.singleton_append]

end FileTree

namespace Path

/-- The location that a path leads to from the root. -/
def target (p : Path) : FileTree.Location :=
  FileTree.resolve [] p.steps

theorem target_eq_concat (p : Path) {last : String} (hlast : p.steps.getLast? = some last)
    (hdot : last ≠ ".") (hdots : last ≠ "..") :
    p.target = FileTree.resolve [] p.steps.dropLast ++ [last] := by
  obtain ⟨front, hsteps⟩ := List.getLast?_eq_some_iff.mp hlast
  rw [target, hsteps, FileTree.resolve_append, List.dropLast_concat, FileTree.resolve, if_neg hdot,
    if_neg hdots, FileTree.resolve]

end Path

namespace FileTree

theorem walk_cons (tree : FileTree) (location : Location) (part : String) (parts : List String) :
    tree.walk location (part :: parts) =
      match tree.entryAt location with
      | some .directory =>
        if part = "." then tree.walk location parts
        else if part = ".." then tree.walk location.dropLast parts
        else if isTooLong part then .error .nameTooLong
        else if (tree.entryAt (location ++ [part])).isSome then tree.walk (location ++ [part]) parts
        else .error .notFound
      | some (.file _) => .error .notADirectory
      | none => .error .notFound := by
  rw [walk]
  cases hfind : tree.find? location with
  | none => rw [(entryAt_eq_none_iff tree location).mpr hfind]
  | some node =>
      cases node with
      | file content => rw [(entryAt_eq_file_iff tree location content).mpr hfind]
      | directory entries =>
          rw [(entryAt_eq_directory_iff tree location).mpr ⟨entries, hfind⟩]
          dsimp only
          rw [isSome_lookup hfind]

theorem walk_append (tree : FileTree) (location : Location) (front rest : List String) :
    tree.walk location (front ++ rest) =
      (tree.walk location front).bind fun reached => tree.walk reached rest := by
  induction front generalizing location with
  | nil => rfl
  | cons part parts ih =>
      rw [List.cons_append, walk_cons, walk_cons]
      rcases tree.entryAt location with _ | content | _
      · rfl
      · rfl
      · dsimp only
        rw [ih, ih, ih]
        split_ifs <;> rfl

theorem walk_dot (tree : FileTree) {location : Location}
    (hdirectory : tree.entryAt location = some .directory) :
    tree.walk location ["."] = .ok location := by
  rw [walk_cons, hdirectory]
  rfl

/-- What the first step of a successful walk has found. -/
theorem walk_cons_eq_ok_iff (tree : FileTree) (location reached : Location) (part : String)
    (parts : List String) :
    tree.walk location (part :: parts) = .ok reached ↔
      tree.entryAt location = some .directory ∧
      ((part = "." ∧ tree.walk location parts = .ok reached) ∨
      (part = ".." ∧ tree.walk location.dropLast parts = .ok reached) ∨
      (part ≠ "." ∧ part ≠ ".." ∧ isTooLong part = false ∧
        tree.entryAt (location ++ [part]) ≠ none ∧
        tree.walk (location ++ [part]) parts = .ok reached)) := by
  rw [walk_cons]
  rcases tree.entryAt location with _ | content | _
  · simp
  · simp
  · by_cases hdot : part = "."
    · simp [hdot]
    · by_cases hdots : part = ".."
      · simp [hdots]
      · by_cases hlong : isTooLong part = true
        · simp [hdot, hdots, hlong]
        · by_cases hsome : (tree.entryAt (location ++ [part])).isSome
          · simp [hdot, hdots, hlong, hsome, Option.isSome_iff_ne_none.mp hsome]
          · simp [hdot, hdots, hlong, Option.not_isSome_iff_eq_none.mp hsome]

theorem eq_resolve_of_walk {tree : FileTree} {location reached : Location} {parts : List String}
    (hwalk : tree.walk location parts = .ok reached) : reached = resolve location parts := by
  induction parts generalizing location with
  | nil =>
      rw [walk] at hwalk
      cases hwalk
      rfl
  | cons part parts ih =>
      obtain ⟨-, ⟨hdot, hrest⟩ | ⟨hdots, hrest⟩ | ⟨hdot, hdots, -, -, hrest⟩⟩ :=
        (walk_cons_eq_ok_iff tree location reached part parts).mp hwalk
      · rw [resolve, if_pos hdot]
        exact ih hrest
      · rw [resolve, if_neg (by rw [hdots]; decide), if_pos hdots]
        exact ih hrest
      · rw [resolve, if_neg hdot, if_neg hdots]
        exact ih hrest

/-- Where a walk arrives, something stands. -/
theorem entryAt_of_walk {tree : FileTree} {location reached : Location} {parts : List String}
    (hstart : tree.entryAt location ≠ none) (hwalk : tree.walk location parts = .ok reached) :
    tree.entryAt reached ≠ none := by
  induction parts generalizing location with
  | nil =>
      rw [walk] at hwalk
      cases hwalk
      exact hstart
  | cons part parts ih =>
      obtain ⟨-, ⟨-, hrest⟩ | ⟨-, hrest⟩ | ⟨-, -, -, hnext, hrest⟩⟩ :=
        (walk_cons_eq_ok_iff tree location reached part parts).mp hwalk
      · exact ih hstart hrest
      · refine ih (fun hnone => ?_) hrest
        rcases List.eq_nil_or_concat' location with rfl | ⟨front, name, rfl⟩
        · exact hstart hnone
        · rw [List.dropLast_concat, entryAt_of_below hstart (by simp)] at hnone
          cases hnone
      · exact ih hnext hrest

/-- Everything that could be reached or gone through before still can. -/
def Grows (tree later : FileTree) : Prop :=
  ∀ location, (tree.entryAt location = some .directory → later.entryAt location = some .directory) ∧
    (tree.entryAt location ≠ none → later.entryAt location ≠ none)

theorem Grows.trans {tree later last : FileTree} (hfirst : Grows tree later)
    (hsecond : Grows later last) : Grows tree last :=
  fun location => ⟨(hsecond location).1 ∘ (hfirst location).1,
    (hsecond location).2 ∘ (hfirst location).2⟩

/-- Every file and every directory is still there as it was. -/
def Keeps (tree later : FileTree) : Prop :=
  ∀ location entry, tree.entryAt location = some entry → later.entryAt location = some entry

theorem Keeps.refl (tree : FileTree) : Keeps tree tree :=
  fun _ _ => id

theorem Keeps.trans {tree later last : FileTree} (hfirst : Keeps tree later)
    (hsecond : Keeps later last) : Keeps tree last :=
  fun location entry => hsecond location entry ∘ hfirst location entry

theorem Keeps.grows {tree later : FileTree} (hkeeps : Keeps tree later) : Grows tree later := by
  refine fun location => ⟨hkeeps location .directory, fun hne => ?_⟩
  obtain ⟨entry, hentry⟩ := Option.ne_none_iff_exists'.mp hne
  rw [hkeeps location entry hentry]
  exact Option.some_ne_none entry

theorem walk_of_grows {tree later : FileTree} (hgrows : Grows tree later)
    {location reached : Location} {parts : List String}
    (hwalk : tree.walk location parts = .ok reached) : later.walk location parts = .ok reached := by
  induction parts generalizing location with
  | nil => exact hwalk
  | cons part parts ih =>
      rw [walk_cons_eq_ok_iff] at hwalk ⊢
      obtain ⟨hdirectory, ⟨hdot, hrest⟩ | ⟨hdots, hrest⟩ | ⟨hdot, hdots, hlong, hnext, hrest⟩⟩ := hwalk
      · exact ⟨(hgrows location).1 hdirectory, Or.inl ⟨hdot, ih hrest⟩⟩
      · exact ⟨(hgrows location).1 hdirectory, Or.inr (Or.inl ⟨hdots, ih hrest⟩)⟩
      · exact ⟨(hgrows location).1 hdirectory, Or.inr (Or.inr ⟨hdot, hdots, hlong,
          (hgrows (location ++ [part])).2 hnext, ih hrest⟩)⟩

theorem locate_eq_ok_iff (tree : FileTree) (p : Path) (location : Location) :
    tree.locate p = .ok location ↔
      p.fault? = none ∧ tree.walk [] (if p.endsInSlash then p.steps ++ ["."] else p.steps) =
        .ok location := by
  rw [locate]
  cases p.fault? <;> simp

theorem eq_target_of_locate {tree : FileTree} {p : Path} {location : Location}
    (hlocate : tree.locate p = .ok location) : location = p.target := by
  obtain ⟨-, hwalk⟩ := (locate_eq_ok_iff tree p location).mp hlocate
  rw [eq_resolve_of_walk hwalk, Path.target]
  split_ifs with hslash
  · rw [resolve_append]
    rfl
  · rfl

theorem locate_of_grows {tree later : FileTree} (hgrows : Grows tree later) {p : Path}
    {location : Location} (hlocate : tree.locate p = .ok location) :
    later.locate p = .ok location := by
  rw [locate_eq_ok_iff] at hlocate ⊢
  exact ⟨hlocate.1, walk_of_grows hgrows hlocate.2⟩

theorem isDirectory_iff (tree : FileTree) (p : Path) :
    tree.isDirectory p = true ↔
      ∃ location, tree.locate p = .ok location ∧ tree.entryAt location = some .directory := by
  rw [isDirectory]
  rcases tree.locate p with fault | location
  · simp
  · cases hfind : tree.find? location with
    | none => simp [entryAt, hfind]
    | some node => cases node <;> simp [entryAt, hfind, entry]

/-- A path that can be walked to a directory names it, also with a slash behind it. -/
theorem isDirectory_of_walk {tree : FileTree} {p : Path} {location : Location}
    (hfault : p.fault? = none) (hwalk : tree.walk [] p.steps = .ok location)
    (hdirectory : tree.entryAt location = some .directory) : tree.isDirectory p = true := by
  rw [isDirectory_iff]
  refine ⟨location, (locate_eq_ok_iff tree p location).mpr ⟨hfault, ?_⟩, hdirectory⟩
  by_cases hslash : p.endsInSlash = true
  · rw [if_pos hslash, walk_append, hwalk]
    exact walk_dot tree hdirectory
  · rw [if_neg hslash, hwalk]

theorem readText_eq_of_entryAt {tree : FileTree} {p : Path} {location : Location} {text : String}
    (hlocate : tree.locate p = .ok location)
    (hentry : tree.entryAt location = some (.file text.toUTF8)) : tree.readText p = .ok text := by
  rw [entryAt_eq_file_iff] at hentry
  have hdecode : String.fromUTF8? text.toUTF8 = some text := by
    rw [String.toUTF8_eq_toByteArray, String.fromUTF8?, dif_pos text.isValidUTF8]
    rfl
  rw [readText, read, hlocate]
  dsimp only
  rw [hentry]
  dsimp only
  rw [hdecode]

end FileTree

end EntityClasses
