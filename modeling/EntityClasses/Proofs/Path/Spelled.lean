import EntityClasses.Proofs.Path.Plain

/-! Paths that are written as names with single slashes between them. The parts, the steps and the
components of such a path are its names, and each ancestor is written with some of the names in front, so
that its text is a front of the text of the path. -/

namespace EntityClasses

namespace Path

/-- A part that names an entry of a directory. -/
structure IsName (part : String) : Prop where
  ne_empty : part ≠ ""
  ne_dot : part ≠ "."
  ne_dots : part ≠ ".."
  slash_notMem : '/' ∉ part.toList

instance (part : String) : Decidable (IsName part) :=
  decidable_of_iff (part ≠ "" ∧ part ≠ "." ∧ part ≠ ".." ∧ '/' ∉ part.toList)
    ⟨fun ⟨hempty, hdot, hdots, hslash⟩ => ⟨hempty, hdot, hdots, hslash⟩,
      fun h => ⟨h.ne_empty, h.ne_dot, h.ne_dots, h.slash_notMem⟩⟩

theorem IsName.isVoid {part : String} (hname : IsName part) : isVoid part = false := by
  simp [Path.isVoid, hname.ne_empty, hname.ne_dot]

/-- A path whose text is these names, at least one, with single slashes between them. -/
structure Spelled (p : Path) (names : List String) : Prop where
  ne_nil : names ≠ []
  isName : ∀ name ∈ names, IsName name
  text : p.text = "/".intercalate names

instance (p : Path) (names : List String) : Decidable (p.Spelled names) :=
  decidable_of_iff (names ≠ [] ∧ (∀ name ∈ names, IsName name) ∧ p.text = "/".intercalate names)
    ⟨fun ⟨hne, hnames, htext⟩ => ⟨hne, hnames, htext⟩, fun h => ⟨h.ne_nil, h.isName, h.text⟩⟩

/-- The names in front are written in front. -/
theorem exists_intercalate_append (front rest : List String) :
    ∃ behind, "/".intercalate (front ++ rest) = "/".intercalate front ++ behind := by
  induction front with
  | nil => exact ⟨"/".intercalate rest, by simp⟩
  | cons name front ih =>
      cases front with
      | nil =>
          cases rest with
          | nil => exact ⟨"", by simp⟩
          | cons next rest =>
              refine ⟨"/" ++ "/".intercalate (next :: rest), ?_⟩
              rw [List.singleton_append, String.intercalate_cons_cons, String.intercalate_singleton,
                String.append_assoc]
      | cons next front =>
          obtain ⟨behind, hbehind⟩ := ih
          refine ⟨behind, ?_⟩
          rw [List.cons_append, List.cons_append, String.intercalate_cons_cons, ← List.cons_append,
            hbehind, String.intercalate_cons_cons, ← String.append_assoc]

namespace Spelled

variable {p : Path} {names : List String} (hspelled : p.Spelled names)
include hspelled

theorem parts_eq : p.parts = names := by
  obtain ⟨first, rest, hnames⟩ := List.exists_cons_of_ne_nil hspelled.ne_nil
  rw [show p = ⟨"/".intercalate names⟩ from congrArg Path.mk hspelled.text, hnames]
  refine parts_intercalate first rest fun name hname => ?_
  exact (hspelled.isName name (hnames ▸ hname)).slash_notMem

theorem steps_eq : p.steps = names := by
  rw [steps, hspelled.parts_eq, List.filter_eq_self]
  intro name hname
  simpa using (hspelled.isName name hname).ne_empty

theorem isAbsolute : p.isAbsolute = false := by
  by_contra habsolute
  have hempty := (head?_parts_eq_empty_iff p).mpr (Or.inr (by simpa using habsolute))
  rw [hspelled.parts_eq] at hempty
  exact (hspelled.isName "" (List.mem_of_head? hempty)).ne_empty rfl

theorem plain : p.Plain := by
  have hnotMem : ∀ part, ¬ IsName part → part ∉ p.steps := by
    intro part hpart hmem
    rw [hspelled.steps_eq] at hmem
    exact hpart (hspelled.isName part hmem)
  have hdot : "." ∉ p.steps := hnotMem "." fun h => h.ne_dot rfl
  exact plain_of_filter hspelled.isAbsolute (fun h => hdot (List.mem_of_head? h))
    (fun h => hdot (List.mem_of_getLast? h)) (hnotMem ".." fun h => h.ne_dots rfl)

theorem components_eq : p.components = names := by
  rw [hspelled.plain.components_eq, hspelled.parts_eq, List.filter_eq_self]
  intro name hname
  simpa using (hspelled.isName name hname).isVoid

theorem target_eq : p.target = names := by
  rw [hspelled.plain.target_eq, hspelled.components_eq]

/-- A final slash would leave an empty part behind it. -/
theorem endsInSlash : p.endsInSlash = false := by
  by_contra hslash
  have hlast : p.text.toList.getLast? = some '/' := by simpa [Path.endsInSlash] using hslash
  obtain ⟨front, hfront⟩ := List.getLast?_eq_some_iff.mp hlast
  have hempty : "" ∈ p.parts := by
    rw [parts, hfront, Text.partsAt_append, List.map_append]
    exact List.mem_append_right _ List.mem_cons_self
  rw [hspelled.parts_eq] at hempty
  exact (hspelled.isName "" hempty).ne_empty rfl

theorem exists_text_append {above : Path} {front : List String} (habove : above.Spelled front)
    (hfront : front <+: names) : ∃ behind, p.text = above.text ++ behind := by
  obtain ⟨rest, rfl⟩ := hfront
  rw [hspelled.text, habove.text]
  exact exists_intercalate_append front rest

/-- Nothing is trimmed where all parts are names. -/
theorem trimParts_eq {front : List String} (hfront : front <+: names) : trimParts front = front := by
  refine List.rdropWhile_eq_self_iff.mpr fun hne => ?_
  have hlast := hspelled.isName _ (hfront.subset (List.getLast_mem hne))
  simp [hlast.isVoid]

theorem parent?_eq {front : List String} {last : String} (hnames : names = front ++ [last]) :
    p.parent? = some ⟨"/".intercalate front⟩ := by
  have htrimmed := hspelled.trimParts_eq List.prefix_rfl
  have hfront : trimParts front = front := hspelled.trimParts_eq (hnames ▸ List.prefix_append _ _)
  obtain ⟨first, rest, hcons⟩ := List.exists_cons_of_ne_nil hspelled.ne_nil
  have hfirst := hspelled.isName first (by simp [hcons])
  rw [parent?, hspelled.parts_eq, hcons]
  dsimp only
  rw [if_neg (by simp [hspelled.isAbsolute]), if_neg hfirst.ne_dot, ← hcons, htrimmed, hcons]
  dsimp only
  rw [← hcons, hnames, List.dropLast_concat, hfront]

end Spelled

/-- The empty path is written with no names. -/
theorem components_intercalate {names : List String} (hnames : ∀ name ∈ names, IsName name) :
    (⟨"/".intercalate names⟩ : Path).components = names := by
  by_cases hempty : names = []
  · rw [hempty]
    exact components_of_text_empty rfl
  · exact Spelled.components_eq ⟨hempty, hnames, rfl⟩

/-- The ancestors of names are written with the names in front. -/
theorem spelled_of_mem_ancestors {names : List String} (hnames : ∀ name ∈ names, IsName name)
    {above : Path} (habove : above ∈ (⟨"/".intercalate names⟩ : Path).ancestors) :
    ∃ front, front <+: names ∧ above.Spelled front := by
  induction names using List.reverseRecOn with
  | nil =>
      rw [ancestors, components_intercalate hnames] at habove
      cases habove
  | append_singleton front last ih =>
      have hfront : front <+: front ++ [last] := List.prefix_append front [last]
      have hspelled : (⟨"/".intercalate (front ++ [last])⟩ : Path).Spelled (front ++ [last]) :=
        ⟨by simp, hnames, rfl⟩
      have hnamesFront := fun name (hname : name ∈ front) => hnames name (hfront.subset hname)
      rw [ancestors_eq hspelled.components_eq (hspelled.parent?_eq rfl)
        (components_intercalate hnamesFront), List.mem_cons] at habove
      rcases habove with rfl | habove
      · exact ⟨front ++ [last], List.prefix_rfl, hspelled⟩
      · obtain ⟨upper, hupper, hspelledUpper⟩ := ih hnamesFront habove
        exact ⟨upper, hupper.trans hfront, hspelledUpper⟩

theorem Spelled.of_mem_ancestors_parent {p above : Path} {front : List String} {last : String}
    (hspelled : p.Spelled (front ++ [last]))
    (habove : above ∈ (⟨"/".intercalate front⟩ : Path).ancestors) :
    ∃ upper, upper <+: front ++ [last] ∧ above.Spelled upper := by
  have hfront : front <+: front ++ [last] := List.prefix_append front [last]
  obtain ⟨upper, hupper, hspelledUpper⟩ := spelled_of_mem_ancestors
    (fun name hname => hspelled.isName name (hfront.subset hname)) habove
  exact ⟨upper, hupper.trans hfront, hspelledUpper⟩

end Path

end EntityClasses
