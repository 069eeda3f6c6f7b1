import Mathlib.Data.List.DropRight
import EntityClasses.Proofs.FileTree.Walk
import EntityClasses.Proofs.Path.Parts

/-! Paths that consist of names. Such a path leads down, one directory for each component, so its
components are its target, its parent lacks the last of them, and joining appends them. A dot between
two names is no component and is passed over; a final dot is left out here, since a directory that is
spelled so can be neither made nor removed. -/

namespace EntityClasses

namespace Path

/-- No root, no double dots, and no dot in front or at the end. -/
structure Plain (p : Path) : Prop where
  names : ∀ component ∈ p.components, component ≠ "/" ∧ component ≠ "." ∧ component ≠ ".."
  last : p.steps.getLast? ≠ some "."

instance (p : Path) : Decidable p.Plain :=
  decidable_of_iff ((∀ component ∈ p.components,
      component ≠ "/" ∧ component ≠ "." ∧ component ≠ "..") ∧ p.steps.getLast? ≠ some ".")
    ⟨fun h => ⟨h.1, h.2⟩, fun h => ⟨h.names, h.last⟩⟩

theorem components_eq_filter {p : Path} (habsolute : p.isAbsolute = false)
    (hfirst : p.steps.head? ≠ some ".") : p.components = p.parts.filter (!isVoid ·) := by
  rw [components]
  rcases hparts : p.parts with _ | ⟨first, rest⟩
  · rfl
  · dsimp only
    rw [steps, hparts] at hfirst
    rw [if_neg (by simp [habsolute])]
    by_cases hempty : first = ""
    · rw [if_pos hempty, List.filter_cons_of_neg (by simp [hempty, isVoid])]
    · have hdot : first ≠ "." := by
        intro h
        simp [h] at hfirst
      rw [if_neg hempty, List.filter_cons_of_pos (by simp [hempty, hdot, isVoid])]

theorem plain_of_filter {p : Path} (habsolute : p.isAbsolute = false)
    (hfirst : p.steps.head? ≠ some ".") (hlast : p.steps.getLast? ≠ some ".")
    (hdots : ".." ∉ p.steps) : p.Plain := by
  refine ⟨?_, hlast⟩
  intro component hcomponent
  rw [components_eq_filter habsolute hfirst, List.mem_filter] at hcomponent
  obtain ⟨hpart, hvoid⟩ := hcomponent
  simp only [isVoid, Bool.not_eq_true', Bool.or_eq_false_iff, decide_eq_false_iff_not] at hvoid
  refine ⟨?_, hvoid.2, ?_⟩
  · rintro rfl
    exact slash_notMem_of_mem_parts hpart (by decide)
  · rintro rfl
    exact hdots (List.mem_filter.mpr ⟨hpart, by decide⟩)

theorem filter_trimParts (parts : List String) :
    (trimParts parts).filter (!isVoid ·) = parts.filter (!isVoid ·) := by
  have hsplit : parts.rdropWhile isVoid ++ parts.rtakeWhile isVoid = parts :=
    List.rdropWhile_append_rtakeWhile
  have hvoid : (parts.rtakeWhile isVoid).filter (!isVoid ·) = [] := by
    rw [List.filter_eq_nil_iff]
    intro part hpart
    simpa using List.mem_rtakeWhile_imp hpart
  calc (trimParts parts).filter (!isVoid ·)
      = (parts.rdropWhile isVoid ++ parts.rtakeWhile isVoid).filter (!isVoid ·) := by
        rw [List.filter_append, hvoid, List.append_nil]
        rfl
    _ = parts.filter (!isVoid ·) := by rw [hsplit]

/-- Where something is left after trimming, it ends in a name. -/
theorem trimParts_eq_concat {parts : List String} (hne : trimParts parts ≠ []) :
    ∃ before last, trimParts parts = before ++ [last] ∧ isVoid last = false := by
  obtain ⟨before, last, htrimmed⟩ := (List.eq_nil_or_concat' _).resolve_left hne
  have hlast := List.rdropWhile_last_not isVoid parts hne
  refine ⟨before, last, htrimmed, ?_⟩
  simpa [show parts.rdropWhile isVoid = before ++ [last] from htrimmed] using hlast

/-- The path and its ancestors are the path and the ancestors of its parent. -/
theorem ancestors_eq {p parent : Path} {front : List String} {last : String}
    (hcomponents : p.components = front ++ [last]) (hparent : p.parent? = some parent)
    (hfront : parent.components = front) : p.ancestors = p :: parent.ancestors := by
  rw [ancestors, ancestors, hcomponents, hfront, List.length_append, List.length_singleton,
    lineage, hparent]

namespace Plain

variable {p : Path} (hplain : p.Plain)
include hplain

theorem isAbsolute : p.isAbsolute = false := by
  by_contra habsolute
  obtain ⟨first, rest, hparts⟩ := List.exists_cons_of_ne_nil p.parts_ne_nil
  have hroot : "/" ∈ p.components := by
    rw [components, hparts]
    dsimp only
    rw [if_pos (by simpa using habsolute)]
    exact List.mem_cons_self
  exact (hplain.names "/" hroot).1 rfl

theorem head?_steps : p.steps.head? ≠ some "." := by
  intro hhead
  obtain ⟨first, rest, hparts⟩ := List.exists_cons_of_ne_nil p.parts_ne_nil
  by_cases hempty : first = ""
  · -- an empty first part without a root is the whole path
    have htext : p.text = "" := by
      have := (head?_parts_eq_empty_iff p).mp (by rw [hparts, hempty]; rfl)
      simpa [hplain.isAbsolute] using this
    have hsteps : p.steps = [] := by simp [steps, parts, htext, Text.partsAt]
    simp [hsteps] at hhead
  · have hfirst : first = "." := by simpa [steps, hparts, hempty] using hhead
    have hdot : "." ∈ p.components := by
      rw [components, hparts]
      simp [hplain.isAbsolute, hfirst]
    exact (hplain.names "." hdot).2.1 rfl

theorem components_eq : p.components = p.parts.filter (!isVoid ·) :=
  components_eq_filter hplain.isAbsolute hplain.head?_steps

theorem components_eq_steps : p.components = p.steps.filter (· ≠ ".") := by
  rw [hplain.components_eq, steps, List.filter_filter]
  congr 1
  funext part
  simp [isVoid, Bool.and_comm]

theorem notMem_steps : ".." ∉ p.steps := by
  intro hmem
  have hcomponent : ".." ∈ p.components := by
    rw [hplain.components_eq_steps, List.mem_filter]
    exact ⟨hmem, by decide⟩
  exact (hplain.names ".." hcomponent).2.2 rfl

/-- The first part of a plain path is a name. -/
theorem exists_first (htext : p.text ≠ "") :
    ∃ first rest, p.parts = first :: rest ∧ first ≠ "" ∧ first ≠ "." := by
  obtain ⟨first, rest, hparts⟩ := List.exists_cons_of_ne_nil p.parts_ne_nil
  have hempty : first ≠ "" := by
    rintro rfl
    have := (head?_parts_eq_empty_iff p).mp (by rw [hparts]; rfl)
    simp [htext, hplain.isAbsolute] at this
  refine ⟨first, rest, hparts, hempty, ?_⟩
  rintro rfl
  exact hplain.head?_steps (by simp [steps, hparts])

theorem components_ne_nil (htext : p.text ≠ "") : p.components ≠ [] := by
  obtain ⟨first, rest, hparts, hempty, hdot⟩ := hplain.exists_first htext
  rw [hplain.components_eq, hparts, List.filter_cons_of_pos (by simp [isVoid, hempty, hdot])]
  exact List.cons_ne_nil _ _

theorem text_ne_empty (hcomponents : p.components ≠ []) : p.text ≠ "" := by
  intro htext
  exact hcomponents (by simp [hplain.components_eq, parts, htext, Text.partsAt, isVoid])

/-- The steps of a plain path end in its last component. -/
theorem steps_eq_concat {front : List String} {last : String}
    (hcomponents : p.components = front ++ [last]) :
    ∃ before, p.steps = before ++ [last] ∧ before.filter (· ≠ ".") = front := by
  have hfilter := hplain.components_eq_steps
  rcases List.eq_nil_or_concat' p.steps with hnil | ⟨before, step, hsteps⟩
  · rw [hcomponents, hnil] at hfilter
    simp at hfilter
  · have hstep : step ≠ "." := by
      rintro rfl
      exact hplain.last (by rw [hsteps, List.getLast?_concat])
    rw [hcomponents, hsteps, List.filter_append,
      List.filter_cons_of_pos (by simpa using hstep), List.filter_nil] at hfilter
    obtain ⟨hfront, hlast⟩ := List.append_inj' hfilter rfl
    cases hlast
    exact ⟨before, hsteps, hfront.symm⟩

theorem target_eq : p.target = p.components := by
  rw [target, FileTree.resolve_of_notMem _ hplain.notMem_steps, List.nil_append,
    hplain.components_eq_steps]

/-- Joining appends the components of a path to those of the path in front. -/
theorem join {base : Path} (hbase : base.Plain) (hcomponents : p.components ≠ []) :
    (base.join p).Plain ∧ (base.join p).components = base.components ++ p.components := by
  by_cases htext : base.text = ""
  · rw [join_of_text_empty htext, components_of_text_empty htext, List.nil_append]
    exact ⟨hplain, rfl⟩
  have habsolute : (base.join p).isAbsolute = false := by
    rw [isAbsolute_join htext hplain.isAbsolute, hbase.isAbsolute]
  have hsteps : (base.join p).steps = base.steps ++ p.steps :=
    filter_parts_join htext hplain.isAbsolute (by decide)
  have hfirst : (base.join p).steps.head? ≠ some "." := by
    have hne : base.steps ≠ [] := by
      intro hnil
      exact hbase.components_ne_nil htext (by simp [hbase.components_eq_steps, hnil])
    rw [hsteps, List.head?_append_of_ne_nil _ hne]
    exact hbase.head?_steps
  have hlast : (base.join p).steps.getLast? ≠ some "." := by
    have hne : p.steps ≠ [] := by
      intro hnil
      exact hcomponents (by simp [hplain.components_eq_steps, hnil])
    rw [hsteps, List.getLast?_append_of_ne_nil _ hne]
    exact hplain.last
  have hdots : ".." ∉ (base.join p).steps := by
    rw [hsteps, List.mem_append, not_or]
    exact ⟨hbase.notMem_steps, hplain.notMem_steps⟩
  refine ⟨plain_of_filter habsolute hfirst hlast hdots, ?_⟩
  rw [components_eq_filter habsolute hfirst, hbase.components_eq, hplain.components_eq]
  exact filter_parts_join htext hplain.isAbsolute (by decide)

/-- What is left of a plain path after trimming it at any part is plain again. -/
theorem trimmed {front : List String} (htext : p.text ≠ "") (hfront : front <+: p.parts) :
    (⟨"/".intercalate (trimParts front)⟩ : Path).Plain ∧
      (⟨"/".intercalate (trimParts front)⟩ : Path).components = front.filter (!isVoid ·) := by
  obtain ⟨first, rest, hparts, hempty, hdot⟩ := hplain.exists_first htext
  have htrimmed : trimParts front <+: p.parts :=
    List.IsPrefix.trans (List.rdropWhile_prefix isVoid front) hfront
  rw [← filter_trimParts]
  rcases hcases : trimParts front with _ | ⟨part, parts⟩
  · rw [String.intercalate_nil]
    have hnone : (⟨""⟩ : Path).components = [] := by decide
    exact ⟨⟨by simp [hnone], by decide⟩, hnone⟩
  · rw [hcases, hparts, List.cons_prefix_cons] at htrimmed
    obtain ⟨rfl, hrest⟩ := htrimmed
    have hmem : ∀ other ∈ part :: parts, other ∈ p.parts := by
      intro other hother
      rw [hparts]
      exact ((List.cons_prefix_cons.mpr ⟨rfl, hrest⟩).subset) hother
    have hparent := parts_intercalate part parts fun other hother =>
      slash_notMem_of_mem_parts (hmem other hother)
    have habsolute : (⟨"/".intercalate (part :: parts)⟩ : Path).isAbsolute = false := by
      by_contra h
      have hhead := (head?_parts_eq_empty_iff _).mpr (Or.inr (by simpa using h))
      rw [hparent] at hhead
      exact hempty (Option.some.inj hhead)
    have hfirst : (⟨"/".intercalate (part :: parts)⟩ : Path).steps.head? ≠ some "." := by
      simp [steps, hparent, hempty, hdot]
    have hlast : (⟨"/".intercalate (part :: parts)⟩ : Path).steps.getLast? ≠ some "." := by
      obtain ⟨before, last, hconcat, hvoid⟩ :=
        trimParts_eq_concat (hcases ▸ List.cons_ne_nil part parts)
      rw [hcases] at hconcat
      simp only [isVoid, Bool.or_eq_false_iff, decide_eq_false_iff_not] at hvoid
      rw [steps, hparent, hconcat]
      simp [hvoid.1, hvoid.2]
    have hdots : ".." ∉ (⟨"/".intercalate (part :: parts)⟩ : Path).steps := by
      intro hdots
      rw [steps, hparent, List.mem_filter] at hdots
      exact hplain.notMem_steps (List.mem_filter.mpr ⟨hmem _ hdots.1, by decide⟩)
    refine ⟨plain_of_filter habsolute hfirst hlast hdots, ?_⟩
    rw [components_eq_filter habsolute hfirst, hparent]

/-- The parent of a plain path is plain, and lacks the last component. -/
theorem exists_parent {front : List String} {last : String}
    (hcomponents : p.components = front ++ [last]) :
    ∃ parent, p.parent? = some parent ∧ parent.Plain ∧ parent.components = front := by
  have htext : p.text ≠ "" := hplain.text_ne_empty (by simp [hcomponents])
  obtain ⟨first, rest, hparts, -, hdot⟩ := hplain.exists_first htext
  have hnames : (trimParts p.parts).filter (!isVoid ·) = front ++ [last] := by
    rw [filter_trimParts, ← hplain.components_eq, hcomponents]
  have hne : trimParts p.parts ≠ [] := by
    intro hnil
    simp [hnil] at hnames
  obtain ⟨before, name, hnamed, hvoid⟩ := trimParts_eq_concat hne
  have hparent : p.parent? = some ⟨"/".intercalate (trimParts before)⟩ := by
    rw [parent?, hparts]
    dsimp only
    rw [if_neg (by simp [hplain.isAbsolute]), if_neg hdot, ← hparts]
    obtain ⟨head, tail, hcons⟩ := List.exists_cons_of_ne_nil hne
    rw [hcons]
    dsimp only
    rw [← hcons, hnamed, List.dropLast_concat]
  have hbefore : before <+: p.parts := by
    have htrimmed : trimParts p.parts <+: p.parts := List.rdropWhile_prefix isVoid p.parts
    rw [hnamed] at htrimmed
    exact (List.prefix_append before [name]).trans htrimmed
  obtain ⟨hplainParent, hfront⟩ := hplain.trimmed htext hbefore
  refine ⟨_, hparent, hplainParent, ?_⟩
  rw [hnamed, List.filter_append, List.filter_cons_of_pos (by simp [hvoid]), List.filter_nil]
    at hnames
  rw [hfront, (List.append_inj' hnames rfl).1]

end Plain

end Path

end EntityClasses
