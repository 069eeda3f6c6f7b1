import EntityClasses.Proofs.FileTree.Outcome
import EntityClasses.Proofs.Path.Spelled

/-! What an operation along names depends on. A tree is looked at on the way to a location and at the
location, and nowhere else, so two trees that agree there cannot be told apart: an operation has the same
outcome in both, and afterwards they agree as before. -/

namespace EntityClasses

namespace FileTree

/-- Two trees with the same entries on the way to a location, and at it. -/
def AgreeTo (location : Location) (tree other : FileTree) : Prop :=
  ∀ front, front <+: location → tree.entryAt front = other.entryAt front

/-- A change with the same outcome in two trees, which agree to a location if it is done. -/
inductive SameChange (location : Location) : Except Fault FileTree → Except Fault FileTree → Prop where
  | done {after otherAfter : FileTree} : AgreeTo location after otherAfter →
      SameChange location (.ok after) (.ok otherAfter)
  | failed {fault : Fault} : SameChange location (.error fault) (.error fault)

theorem entryAt_concat_eq_directory_iff {tree : FileTree} {location : Location}
    {entries : List (String × FileTree)} (hfind : tree.find? location = some (.directory entries))
    (name : String) :
    tree.entryAt (location ++ [name]) = some .directory ↔
      ∃ inner, entries.lookup name = some (.directory inner) := by
  rw [entryAt_concat hfind, Option.map_eq_some_iff]
  constructor
  · rintro ⟨_ | inner, hlookup, hentry⟩
    · cases hentry
    · exact ⟨inner, hlookup⟩
  · rintro ⟨inner, hlookup⟩
    exact ⟨_, hlookup, rfl⟩

/-- Names lead down. -/
theorem resolve_names (start : Location) {names : List String}
    (hnames : ∀ name ∈ names, Path.IsName name) : resolve start names = start ++ names := by
  rw [resolve_of_notMem start fun hdots => (hnames ".." hdots).ne_dots rfl, List.filter_eq_self.mpr]
  intro name hname
  simpa using (hnames name hname).ne_dot

theorem SameChange.of_error {location : Location} {fault : Fault} {result : Except Fault FileTree}
    (hsame : SameChange location (.error fault) result) : result = .error fault := by
  cases hsame
  rfl

theorem SameChange.of_ok {location : Location} {after : FileTree} {result : Except Fault FileTree}
    (hsame : SameChange location (.ok after) result) :
    ∃ otherAfter, result = .ok otherAfter ∧ AgreeTo location after otherAfter := by
  cases hsame with
  | done hagree => exact ⟨_, rfl, hagree⟩

section Agreeing

variable {location : Location} {tree other : FileTree} (hagree : AgreeTo location tree other)
include hagree

/-- A file or an empty directory put into the same place of both trees. -/
theorem AgreeTo.insert {front : Location} {name : String} (hbelow : front ++ [name] <+: location)
    (hdirectory : tree.entryAt front = some .directory)
    (hplace : tree.entryAt (front ++ [name]) ≠ some .directory) {node : FileTree}
    (hleaf : ∀ first rest, node.entryAt (first :: rest) = none) :
    AgreeTo location (tree.insert front name node) (other.insert front name node) := by
  have hfront := hagree front ((List.prefix_append front [name]).trans hbelow)
  have hlast := hagree (front ++ [name]) hbelow
  intro above habove
  rw [entryAt_insert hdirectory hplace hleaf, entryAt_insert (hfront ▸ hdirectory) (hlast ▸ hplace) hleaf,
    hagree above habove]

theorem walk_agrees {start : Location} {names : List String}
    (hnames : ∀ name ∈ names, Path.IsName name) (hbelow : start ++ names <+: location) :
    tree.walk start names = other.walk start names := by
  induction names generalizing start with
  | nil => rw [walk, walk]
  | cons name names ih =>
      have hname := hnames name List.mem_cons_self
      have hnext : start ++ [name] ++ names <+: location := by
        rw [List.append_assoc, List.singleton_append]
        exact hbelow
      have hrest := ih (fun later hlater => hnames later (List.mem_cons_of_mem _ hlater)) hnext
      rw [walk_cons, walk_cons, hagree start ((List.prefix_append _ _).trans hbelow),
        hagree (start ++ [name]) ((List.prefix_append _ _).trans hnext), if_neg hname.ne_dot,
        if_neg hname.ne_dots, if_neg hname.ne_dot, if_neg hname.ne_dots, hrest]

variable {p : Path} {names : List String} (hspelled : p.Spelled names) (hbelow : names <+: location)
include hspelled hbelow

theorem locate_agrees : tree.locate p = other.locate p := by
  have hwalk := walk_agrees hagree hspelled.isName (by rwa [List.nil_append])
  rw [locate, locate, hspelled.endsInSlash, hspelled.steps_eq]
  cases p.fault? with
  | some fault => rfl
  | none => exact hwalk

theorem isDirectory_agrees : tree.isDirectory p = other.isDirectory p := by
  rw [Bool.eq_iff_iff, isDirectory_iff, isDirectory_iff, locate_agrees hagree hspelled hbelow]
  refine exists_congr fun reached => and_congr_right fun hlocate => ?_
  rw [eq_target_of_locate hlocate, hspelled.target_eq, hagree names hbelow]

/-- The directory around the last name: it is missing from both trees for one reason, or it is in both. -/
theorem lookUpParent_agrees {front : List String} {last : String} (hnames : names = front ++ [last]) :
    (∃ fault, tree.lookUpParent p.steps.dropLast last = .error fault ∧
      other.lookUpParent p.steps.dropLast last = .error fault) ∨
    ∃ entries otherEntries,
      tree.lookUpParent p.steps.dropLast last = .ok (front, entries, last) ∧
      other.lookUpParent p.steps.dropLast last = .ok (front, otherEntries, last) ∧
      tree.find? front = some (.directory entries) ∧
      other.find? front = some (.directory otherEntries) := by
  have hfront : front <+: names := hnames ▸ List.prefix_append front [last]
  have hsteps : p.steps.dropLast = front := by
    rw [hspelled.steps_eq, hnames, List.dropLast_concat]
  have hisName := fun name (hname : name ∈ front) => hspelled.isName name (hfront.subset hname)
  have hwalk : tree.walk [] front = other.walk [] front :=
    walk_agrees hagree hisName (hfront.trans hbelow)
  have hentry := hagree front (hfront.trans hbelow)
  rw [hsteps, lookUpParent, lookUpParent, ← hwalk]
  rcases hreached : tree.walk [] front with fault | reached
  · exact Or.inl ⟨fault, rfl, rfl⟩
  · have hreachedFront : reached = front := by
      rw [eq_resolve_of_walk hreached]
      exact resolve_names [] hisName
    rw [hreachedFront]
    dsimp only
    rcases hfind : tree.find? front with _ | content | entries
    · rw [(entryAt_eq_none_iff tree front).mpr hfind] at hentry
      rw [(entryAt_eq_none_iff other front).mp hentry.symm]
      exact Or.inl ⟨_, rfl, rfl⟩
    · rw [(entryAt_eq_file_iff tree front content).mpr hfind] at hentry
      rw [(entryAt_eq_file_iff other front content).mp hentry.symm]
      exact Or.inl ⟨_, rfl, rfl⟩
    · rw [(entryAt_eq_directory_iff tree front).mpr ⟨entries, hfind⟩] at hentry
      obtain ⟨otherEntries, hotherFind⟩ := (entryAt_eq_directory_iff other front).mp hentry.symm
      rw [hotherFind]
      exact Or.inr ⟨entries, otherEntries, rfl, rfl, rfl, rfl⟩

/-- A change of the last name goes on in both trees or in none. -/
theorem inParent_agrees {atRoot : Fault}
    {change otherChange : Location → List (String × FileTree) → String → Except Fault FileTree}
    (hchange : ∀ front last entries otherEntries, names = front ++ [last] →
      tree.find? front = some (.directory entries) → other.find? front = some (.directory otherEntries) →
      SameChange location (change front entries last) (otherChange front otherEntries last)) :
    SameChange location (tree.inParent p atRoot change) (other.inParent p atRoot otherChange) := by
  obtain ⟨front, last, hnames⟩ := (List.eq_nil_or_concat' names).resolve_left hspelled.ne_nil
  have hlast : p.steps.getLast? = some last := by
    rw [hspelled.steps_eq, hnames, List.getLast?_concat]
  rw [inParent, inParent, hlast]
  rcases p.fault? with _ | fault
  · dsimp only
    rcases lookUpParent_agrees hagree hspelled hbelow hnames with
      ⟨fault, hparent, hotherParent⟩ | ⟨entries, otherEntries, hparent, hotherParent, hfind, hotherFind⟩
    · rw [hparent, hotherParent]
      exact .failed
    · rw [hparent, hotherParent]
      exact hchange front last entries otherEntries hnames hfind hotherFind
  · exact .failed

theorem makeDirectory_agrees : SameChange location (tree.makeDirectory p) (other.makeDirectory p) := by
  refine inParent_agrees hagree hspelled hbelow
    fun front last entries otherEntries hnames hfind hother => ?_
  have hname := hspelled.isName last (by simp [hnames])
  have hordinary : ¬ (last = "." || last = "..") = true := by simp [hname.ne_dot, hname.ne_dots]
  rw [hnames] at hbelow
  rw [if_neg hordinary, if_neg hordinary, isSome_lookup hfind, isSome_lookup hother, ← hagree _ hbelow]
  split_ifs with hlong hsome
  · exact .failed
  · exact .failed
  · have hdirectory := (entryAt_eq_directory_iff tree front).mpr ⟨entries, hfind⟩
    have hnone := Option.not_isSome_iff_eq_none.mp hsome
    exact .done (hagree.insert hbelow hdirectory (by simp [hnone]) fun _ _ => rfl)

theorem write_agrees (content : ByteArray) :
    SameChange location (tree.write p content) (other.write p content) := by
  refine inParent_agrees hagree hspelled hbelow
    fun front last entries otherEntries hnames hfind hother => ?_
  have hname := hspelled.isName last (by simp [hnames])
  have hordinary : ¬ (last = "." || last = ".." || p.endsInSlash) = true := by
    simp [hname.ne_dot, hname.ne_dots, hspelled.endsInSlash]
  rw [hnames] at hbelow
  have hentry := hagree _ hbelow
  rw [if_neg hordinary, if_neg hordinary]
  split_ifs with hlong
  · exact .failed
  · split
    · rename_i inner hlookup
      have hplace := (entryAt_concat_eq_directory_iff hfind last).mpr ⟨inner, hlookup⟩
      obtain ⟨otherInner, hotherLookup⟩ :=
        (entryAt_concat_eq_directory_iff hother last).mp (hentry.symm.trans hplace)
      rw [hotherLookup]
      exact .failed
    · rename_i hlookup
      have hplace : tree.entryAt (front ++ [last]) ≠ some .directory := by
        intro h
        obtain ⟨inner, hinner⟩ := (entryAt_concat_eq_directory_iff hfind last).mp h
        exact hlookup inner hinner
      split
      · rename_i inner hotherLookup
        exact absurd (hentry.trans ((entryAt_concat_eq_directory_iff hother last).mpr ⟨inner, hotherLookup⟩))
          hplace
      · have hdirectory := (entryAt_eq_directory_iff tree front).mpr ⟨entries, hfind⟩
        exact .done (hagree.insert hbelow hdirectory hplace fun _ _ => rfl)

end Agreeing

section CreateAll

variable {location : Location} {tree other : FileTree} (hagree : AgreeTo location tree other)

theorem createAll_agrees_of_missing {q : Path} {front : List String} (hspelled : q.Spelled front)
    (hbelow : front <+: location) {paths : List Path} (hmissing : tree.makeDirectory q = .error .notFound)
    (hotherMissing : other.makeDirectory q = .error .notFound)
    (habove : (createAll paths tree).1 = (createAll paths other).1 ∧
      AgreeTo location (createAll paths tree).2 (createAll paths other).2) :
    (createAll (q :: paths) tree).1 = (createAll (q :: paths) other).1 ∧
      AgreeTo location (createAll (q :: paths) tree).2 (createAll (q :: paths) other).2 := by
  rcases hcreate : createAll paths tree with ⟨result, ready⟩
  rcases hotherCreate : createAll paths other with ⟨otherResult, otherReady⟩
  rw [hcreate, hotherCreate] at habove
  obtain ⟨rfl, hready⟩ := habove
  cases result with
  | error fault =>
      rw [createAll_of_missing_error _ hmissing hcreate,
        createAll_of_missing_error _ hotherMissing hotherCreate]
      exact ⟨rfl, hready⟩
  | ok =>
      have hagain := makeDirectory_agrees hready hspelled hbelow
      rcases hmake : ready.makeDirectory q with fault | made
      · rw [hmake] at hagain
        rw [createAll_of_missing_fault _ hmissing hcreate hmake,
          createAll_of_missing_fault _ hotherMissing hotherCreate hagain.of_error,
          isDirectory_agrees hready hspelled hbelow]
        split_ifs <;> exact ⟨rfl, hready⟩
      · rw [hmake] at hagain
        obtain ⟨otherMade, hotherMake, hmade⟩ := hagain.of_ok
        rw [createAll_of_missing_made _ hmissing hcreate hmake,
          createAll_of_missing_made _ hotherMissing hotherCreate hotherMake]
        exact ⟨rfl, hmade⟩

include hagree in
/-- Making directories that are all written with names on the way to the location. -/
theorem createAll_agrees {paths : List Path}
    (hpaths : ∀ q ∈ paths, ∃ front, front <+: location ∧ q.Spelled front) :
    (createAll paths tree).1 = (createAll paths other).1 ∧
      AgreeTo location (createAll paths tree).2 (createAll paths other).2 := by
  induction paths with
  | nil => exact ⟨rfl, hagree⟩
  | cons q paths ih =>
      obtain ⟨front, hbelow, hspelled⟩ := hpaths q List.mem_cons_self
      have hfirst := makeDirectory_agrees hagree hspelled hbelow
      rcases hmake : tree.makeDirectory q with fault | made
      · rw [hmake] at hfirst
        have hotherMake := hfirst.of_error
        by_cases hmissing : fault = .notFound
        · subst hmissing
          exact createAll_agrees_of_missing hspelled hbelow hmake hotherMake
            (ih fun later hlater => hpaths later (List.mem_cons_of_mem _ hlater))
        · rw [createAll_of_fault _ hmake hmissing, createAll_of_fault _ hotherMake hmissing,
            isDirectory_agrees hagree hspelled hbelow]
          split_ifs <;> exact ⟨rfl, hagree⟩
      · rw [hmake] at hfirst
        obtain ⟨otherMade, hotherMake, hmade⟩ := hfirst.of_ok
        rw [createAll_of_made _ hmake, createAll_of_made _ hotherMake]
        exact ⟨rfl, hmade⟩

end CreateAll

end FileTree

end EntityClasses
