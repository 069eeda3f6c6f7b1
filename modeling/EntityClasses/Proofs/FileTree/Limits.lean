import EntityClasses.Proofs.FileTree.Change
import EntityClasses.Proofs.FileTree.Outcome
import EntityClasses.Proofs.Path.Spelled

/-! Paths within the limits of a file system. A tree refuses a path for its text alone if a null character
is in it, or if it or one of its names is too long. All other faults are about entries, and a path that has
been found once in one tree is never refused in another. -/

namespace EntityClasses

namespace Path

/-- A path that no tree refuses for its text. -/
structure WithinLimits (p : Path) : Prop where
  fault : p.fault? = none
  short : ∀ step ∈ p.steps, FileTree.isTooLong step = false

theorem fault?_eq_none_iff (p : Path) :
    p.fault? = none ↔ '\x00' ∉ p.text.toList ∧ p.text ≠ "" ∧ p.text.utf8ByteSize ≤ maxSize := by
  rw [fault?]
  split_ifs with hnull hempty hsize
  · simp [hnull]
  · simp [hempty]
  · simp [Nat.not_le.mpr hsize]
  · simp [hnull, hempty, Nat.not_lt.mp hsize]

/-- The ancestors of a path are shorter, so they are within the limits too. -/
theorem Spelled.withinLimits_above {p above : Path} {names front : List String}
    (hspelled : p.Spelled names) (habove : above.Spelled front) (hfront : front <+: names)
    (hlimits : p.WithinLimits) : above.WithinLimits := by
  obtain ⟨hnull, -, hsize⟩ := (fault?_eq_none_iff p).mp hlimits.fault
  obtain ⟨behind, hbehind⟩ := hspelled.exists_text_append habove hfront
  rw [hbehind] at hnull hsize
  refine ⟨(fault?_eq_none_iff above).mpr ⟨?_, ?_, ?_⟩, ?_⟩
  · intro hmem
    exact hnull (by simp [hmem])
  · exact habove.plain.text_ne_empty (by rw [habove.components_eq]; exact habove.ne_nil)
  · rw [String.utf8ByteSize_append] at hsize
    omega
  · intro step hstep
    rw [habove.steps_eq] at hstep
    exact hlimits.short step (by rw [hspelled.steps_eq]; exact hfront.subset hstep)

end Path

namespace FileTree

section Refusal

variable {tree after : FileTree} {fault : Fault}

theorem walk_fault {location : Location} {parts : List String}
    (hshort : ∀ part ∈ parts, isTooLong part = false)
    (hwalk : tree.walk location parts = .error fault) : fault.isAboutEntries = true := by
  induction parts generalizing location with
  | nil =>
      rw [walk] at hwalk
      cases hwalk
  | cons part parts ih =>
      have hrest := fun later (hlater : later ∈ parts) => hshort later (List.mem_cons_of_mem _ hlater)
      rw [walk_cons] at hwalk
      rcases hentry : tree.entryAt location with _ | content | _
      · rw [hentry] at hwalk
        cases hwalk
        rfl
      · rw [hentry] at hwalk
        cases hwalk
        rfl
      · rw [hentry] at hwalk
        dsimp only at hwalk
        rw [if_neg (by simp [hshort part List.mem_cons_self] : ¬ isTooLong part = true)] at hwalk
        split_ifs at hwalk
        · exact ih hrest hwalk
        · exact ih hrest hwalk
        · exact ih hrest hwalk
        · cases hwalk
          rfl

theorem lookUpParent_fault {steps : List String} {last : String}
    (hshort : ∀ step ∈ steps, isTooLong step = false)
    (hparent : tree.lookUpParent steps last = .error fault) : fault.isAboutEntries = true := by
  rw [lookUpParent] at hparent
  rcases hwalk : tree.walk [] steps with refusal | location
  · rw [hwalk] at hparent
    cases hparent
    exact walk_fault hshort hwalk
  · rw [hwalk] at hparent
    dsimp only at hparent
    split at hparent <;> cases hparent <;> rfl

variable {p : Path} (hlimits : p.WithinLimits)
include hlimits

/-- A change of the last name fails for an entry on the way, or in the directory around that name. -/
theorem inParent_fault {atRoot : Fault} (hroot : atRoot.isAboutEntries = true)
    {change : Location → List (String × FileTree) → String → Except Fault FileTree}
    (hchange : ∀ location entries name, isTooLong name = false →
      change location entries name = .error fault → fault.isAboutEntries = true)
    (hresult : tree.inParent p atRoot change = .error fault) : fault.isAboutEntries = true := by
  rw [inParent, hlimits.fault] at hresult
  rcases hlast : p.steps.getLast? with _ | last
  · rw [hlast] at hresult
    cases hresult
    exact hroot
  · rw [hlast] at hresult
    dsimp only at hresult
    rcases hparent : tree.lookUpParent p.steps.dropLast last with refusal | ⟨location, entries, name⟩
    · rw [hparent] at hresult
      cases hresult
      exact lookUpParent_fault (fun step hstep => hlimits.short step (List.mem_of_mem_dropLast hstep))
        hparent
    · obtain ⟨-, -, rfl⟩ := lookUpParent_ok hparent
      rw [hparent] at hresult
      exact hchange location entries name (hlimits.short name (List.mem_of_getLast? hlast)) hresult

theorem makeDirectory_fault (hmake : tree.makeDirectory p = .error fault) :
    fault.isAboutEntries = true := by
  refine inParent_fault hlimits rfl (fun location entries name hshort hresult => ?_) hmake
  rw [if_neg (by simp [hshort] : ¬ isTooLong name = true)] at hresult
  split_ifs at hresult <;> cases hresult <;> rfl

theorem write_fault {content : ByteArray} (hwrite : tree.write p content = .error fault) :
    fault.isAboutEntries = true := by
  refine inParent_fault hlimits rfl (fun location entries name hshort hresult => ?_) hwrite
  rw [if_neg (by simp [hshort] : ¬ isTooLong name = true)] at hresult
  split_ifs at hresult
  · cases hresult
    rfl
  · split at hresult <;> cases hresult
    rfl

end Refusal

theorem createAll_fault {paths : List Path} {tree after : FileTree} {fault : Fault}
    (hlimits : ∀ q ∈ paths, q.WithinLimits) (hcreate : createAll paths tree = (.error fault, after)) :
    fault.isAboutEntries = true := by
  induction paths generalizing fault after with
  | nil => cases hcreate
  | cons q paths ih =>
      have hfirst := hlimits q List.mem_cons_self
      have hrest := fun later (hlater : later ∈ paths) => hlimits later (List.mem_cons_of_mem _ hlater)
      rcases hmake : tree.makeDirectory q with refusal | made
      · by_cases hmissing : refusal = .notFound
        · subst hmissing
          rcases habove : createAll paths tree with ⟨stop | _, ready⟩
          · rw [createAll_of_missing_error _ hmake habove] at hcreate
            cases hcreate
            exact ih hrest habove
          · rcases hagain : ready.makeDirectory q with refusal | made
            · rw [createAll_of_missing_fault _ hmake habove hagain] at hcreate
              split_ifs at hcreate
              · cases hcreate
              · cases hcreate
                exact makeDirectory_fault hfirst hagain
            · rw [createAll_of_missing_made _ hmake habove hagain] at hcreate
              cases hcreate
        · rw [createAll_of_fault _ hmake hmissing] at hcreate
          split_ifs at hcreate
          · cases hcreate
          · cases hcreate
            exact makeDirectory_fault hfirst hmake
      · rw [createAll_of_made _ hmake] at hcreate
        cases hcreate

/-- Where names lead, none of them is too long. -/
theorem short_of_walk {tree : FileTree} {start reached : Location} {names : List String}
    (hnames : ∀ name ∈ names, Path.IsName name) (hwalk : tree.walk start names = .ok reached) :
    ∀ name ∈ names, isTooLong name = false := by
  induction names generalizing start with
  | nil => simp
  | cons name names ih =>
      have hname := hnames name List.mem_cons_self
      obtain ⟨-, ⟨hdot, -⟩ | ⟨hdots, -⟩ | ⟨-, -, hshort, -, hrest⟩⟩ :=
        (walk_cons_eq_ok_iff tree start reached name names).mp hwalk
      · exact absurd hdot hname.ne_dot
      · exact absurd hdots hname.ne_dots
      · exact List.forall_mem_cons.mpr
          ⟨hshort, ih (fun later hlater => hnames later (List.mem_cons_of_mem _ hlater)) hrest⟩

theorem withinLimits_of_locate {tree : FileTree} {p : Path} {names : List String} {location : Location}
    (hspelled : p.Spelled names) (hlocate : tree.locate p = .ok location) : p.WithinLimits := by
  obtain ⟨hfault, hwalk⟩ := (locate_eq_ok_iff tree p location).mp hlocate
  rw [hspelled.endsInSlash, if_neg Bool.false_ne_true, hspelled.steps_eq] at hwalk
  exact ⟨hfault, hspelled.steps_eq ▸ short_of_walk hspelled.isName hwalk⟩

end FileTree

end EntityClasses
