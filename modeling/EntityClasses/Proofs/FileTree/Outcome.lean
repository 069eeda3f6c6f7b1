import EntityClasses.Failure
import EntityClasses.Proofs.FileTree.Change
import EntityClasses.Proofs.Path.Plain

/-! What comes of a change along a plain path. Either it is done, and then no file stood on the way; or
a file on the way blocks it; or it is refused for a reason that the entries of the tree do not give, such
as a name that is too long. A look-up has the same ends, and one more where nothing stands. -/

namespace EntityClasses

/-- Whether a fault comes from an entry: one is missing, or is a file, or is a directory. -/
def Fault.isAboutEntries : Fault → Bool
  | .notFound | .notADirectory | .isADirectory | .alreadyExists => true
  | _ => false

/-- Whether a failure comes from an entry, if it comes from the file system at all. -/
def Failure.isAboutEntries (failure : Failure) : Bool :=
  failure.fault?.all Fault.isAboutEntries

namespace FileTree

/-- A change is done, which takes that it is free to be done, or it is blocked, or it is refused. -/
inductive Outcome {ε : Type} (isAboutEntries : ε → Bool) (free : Prop) (result : FileTree → Prop) :
    Except ε Unit × FileTree → Prop where
  | done {after : FileTree} : free → result after →
      Outcome isAboutEntries free result (.ok (), after)
  | blocked {error : ε} {after : FileTree} : ¬ free →
      Outcome isAboutEntries free result (.error error, after)
  | refused {error : ε} {after : FileTree} : isAboutEntries error = false →
      Outcome isAboutEntries free result (.error error, after)

/-- A change that is free to be done is done, or refused. -/
theorem Outcome.of_free {ε : Type} {isAboutEntries : ε → Bool} {free : Prop}
    {result : FileTree → Prop} {ending : Except ε Unit × FileTree}
    (houtcome : Outcome isAboutEntries free result ending) (hfree : free) :
    (∃ after, ending = (.ok (), after) ∧ result after) ∨
      ∃ error after, ending = (.error error, after) ∧ isAboutEntries error = false := by
  cases houtcome with
  | done _ hresult => exact Or.inl ⟨_, rfl, hresult⟩
  | blocked hblocked => exact absurd hfree hblocked
  | refused habout => exact Or.inr ⟨_, _, rfl, habout⟩

/-- No file stands on the way to a location, or at it. -/
def NoFileOn (tree : FileTree) (location : Location) : Prop :=
  ∀ front, front ≠ [] → front <+: location → ∀ content, tree.entryAt front ≠ some (.file content)

section NoFileOn

variable {tree : FileTree}

theorem directory_above {front location : Location} (hfront : front <+: location)
    (hdirectory : tree.entryAt location = some .directory) :
    tree.entryAt front = some .directory := by
  by_cases heq : front = location
  · rw [heq, hdirectory]
  · exact entryAt_of_above hfront heq (by rw [hdirectory]; exact Option.some_ne_none _)

theorem noFileOn_of_directory {location : Location}
    (hdirectory : tree.entryAt location = some .directory) : tree.NoFileOn location := by
  intro front _ hfront content hfile
  rw [directory_above hfront hdirectory] at hfile
  cases hfile

/-- Where nothing stands, nothing stands below, so the way is as free as it is up to there. -/
theorem noFileOn_of_none {front : Location} {name : String} (hfree : tree.NoFileOn front)
    (hnone : tree.entryAt (front ++ [name]) = none) (rest : List String) :
    tree.NoFileOn (front ++ name :: rest) := by
  intro above hne habove content hfile
  have hnext : front ++ [name] <+: front ++ name :: rest :=
    (List.prefix_append_right_inj front).mpr ⟨rest, rfl⟩
  rcases List.prefix_or_prefix_of_prefix habove hnext with hupper | hlower
  · rcases List.prefix_concat_iff.mp hupper with rfl | hupper
    · rw [hnone] at hfile
      cases hfile
    · exact hfree above hne hupper content hfile
  · rw [entryAt_eq_none_of_above hlower hnone] at hfile
    cases hfile

theorem NoFileOn.above {front location : Location} (hfree : tree.NoFileOn location)
    (hfront : front <+: location) : tree.NoFileOn front :=
  fun above hne habove => hfree above hne (habove.trans hfront)

end NoFileOn

/-- Where a walk down from a directory can end: at its target, in front of a place where nothing
stands, at a file, or at a name that is too long. -/
theorem walk_cases {tree : FileTree} {location : Location} {parts : List String}
    (hdots : ".." ∉ parts) (hstart : tree.entryAt location = some .directory) :
    tree.walk location parts = .ok (location ++ parts.filter (· ≠ ".")) ∨
    (tree.walk location parts = .error .notFound ∧
      tree.entryAt (location ++ parts.filter (· ≠ ".")) = none ∧
      tree.NoFileOn (location ++ parts.filter (· ≠ "."))) ∨
    (tree.walk location parts = .error .notADirectory ∧
      ¬ tree.NoFileOn (location ++ parts.filter (· ≠ "."))) ∨
    tree.walk location parts = .error .nameTooLong := by
  induction parts generalizing location with
  | nil =>
      rw [walk, List.filter_nil, List.append_nil]
      exact Or.inl rfl
  | cons part parts ih =>
      rw [List.mem_cons, not_or] at hdots
      rw [walk_cons, hstart]
      dsimp only
      by_cases hdot : part = "."
      · rw [if_pos hdot, List.filter_cons_of_neg (by simpa using hdot)]
        exact ih hdots.2 hstart
      · rw [if_neg hdot, if_neg (Ne.symm hdots.1), List.filter_cons_of_pos (by simpa using hdot)]
        by_cases hlong : isTooLong part = true
        · rw [if_pos hlong]
          exact Or.inr (Or.inr (Or.inr rfl))
        · rw [if_neg hlong]
          have hnext : location ++ [part] <+: location ++ part :: parts.filter (· ≠ ".") :=
            (List.prefix_append_right_inj location).mpr ⟨_, rfl⟩
          rcases hentry : tree.entryAt (location ++ [part]) with _ | content | _
          · refine Or.inr (Or.inl ⟨rfl, ?_, ?_⟩)
            · exact entryAt_eq_none_of_above hnext hentry
            · exact noFileOn_of_none (noFileOn_of_directory hstart) hentry _
          · cases parts with
            | nil => exact Or.inl rfl
            | cons next parts =>
                refine Or.inr (Or.inr (Or.inl ⟨?_, fun hfree => ?_⟩))
                · rw [walk_cons, hentry]
                  rfl
                · exact hfree (location ++ [part]) (by simp) hnext content hentry
          · have hrest := ih hdots.2 hentry
            rw [List.append_assoc, List.singleton_append] at hrest
            exact hrest

/-- The same for the directory around the last component of a plain path. -/
theorem lookUpParent_cases {tree : FileTree} {p : Path} {front : List String} {last : String}
    (hroot : tree.entryAt [] = some .directory) (hplain : p.Plain)
    (hcomponents : p.components = front ++ [last]) :
    (∃ entries, tree.lookUpParent p.steps.dropLast last = .ok (front, entries, last) ∧
      tree.find? front = some (.directory entries)) ∨
    (tree.lookUpParent p.steps.dropLast last = .error .notFound ∧ tree.entryAt front = none ∧
      tree.NoFileOn front) ∨
    (tree.lookUpParent p.steps.dropLast last = .error .notADirectory ∧ ¬ tree.NoFileOn front) ∨
    tree.lookUpParent p.steps.dropLast last = .error .nameTooLong := by
  obtain ⟨before, hsteps, hbefore⟩ := hplain.steps_eq_concat hcomponents
  have hdots : ".." ∉ before := by
    intro hmem
    exact hplain.notMem_steps (by simp [hsteps, hmem])
  have hwalk := walk_cases hdots hroot
  rw [List.nil_append, hbefore] at hwalk
  rw [hsteps, List.dropLast_concat, lookUpParent]
  rcases hwalk with hwalk | ⟨hwalk, hnone⟩ | ⟨hwalk, hfile⟩ | hwalk
  · have hsome := entryAt_of_walk (by rw [hroot]; exact Option.some_ne_none _) hwalk
    rw [hwalk]
    dsimp only
    rcases hfind : tree.find? front with _ | content | entries
    · exact absurd ((entryAt_eq_none_iff tree front).mpr hfind) hsome
    · have hfile := (entryAt_eq_file_iff tree front content).mpr hfind
      refine Or.inr (Or.inr (Or.inl ⟨rfl, fun hfree => ?_⟩))
      refine hfree front ?_ List.prefix_rfl content hfile
      rintro rfl
      rw [hroot] at hfile
      cases hfile
    · exact Or.inl ⟨entries, rfl, rfl⟩
  · rw [hwalk]
    exact Or.inr (Or.inl ⟨rfl, hnone⟩)
  · rw [hwalk]
    exact Or.inr (Or.inr (Or.inl ⟨rfl, hfile⟩))
  · rw [hwalk]
    exact Or.inr (Or.inr (Or.inr rfl))

end FileTree

end EntityClasses
