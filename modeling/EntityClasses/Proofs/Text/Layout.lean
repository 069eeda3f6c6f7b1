import Mathlib.Data.List.Chain
import Mathlib.Data.List.Basic
import EntityClasses.Proofs.Text.Lines

/-! The layout of a text: how its empty lines stand, and that no line ends in a space. Texts that are laid out
can be put below each other, with or without an empty line between them. -/

namespace EntityClasses.Text

/-- A line that ends in something that can be seen. -/
structure IsFull (line : String) : Prop where
  newline : '\n' ∉ line.toList
  ending : line.toList.getLast? ∉ [none, some ' ', some '\t']

instance (line : String) : Decidable (IsFull line) :=
  decidable_of_iff ('\n' ∉ line.toList ∧ line.toList.getLast? ∉ [none, some ' ', some '\t'])
    ⟨fun h => ⟨h.1, h.2⟩, fun h => ⟨h.newline, h.ending⟩⟩

/-- Lines that neither begin nor end with an empty one, no two neighbours of which are empty and none of which
ends in a space or a tab. -/
structure LaidOut (written : List String) : Prop where
  newline : ∀ line ∈ written, '\n' ∉ line.toList
  first : ∃ line ∈ written.head?, line ≠ ""
  last : ∃ line ∈ written.getLast?, line ≠ ""
  neighbours : written.IsChain fun line next => line ≠ "" ∨ next ≠ ""
  ending : ∀ line ∈ written, line.toList.getLast? ∉ [some ' ', some '\t']

/-- A text of lines, each with its newline, that are laid out. -/
def IsLaidOut (content : String) : Prop :=
  ∃ written, content = unlines written ∧ LaidOut written

theorem IsFull.of_append {front rest : String} (hnewline : '\n' ∉ (front ++ rest).toList)
    (hending : rest.toList.getLast? ∉ [none, some ' ', some '\t']) : IsFull (front ++ rest) := by
  refine ⟨hnewline, ?_⟩
  have hne : rest.toList ≠ [] := by
    intro hempty
    simp [hempty] at hending
  rwa [String.toList_append, List.getLast?_append_of_ne_nil _ hne]

theorem IsFull.ne_empty {line : String} (hfull : IsFull line) : line ≠ "" := by
  rintro rfl
  exact hfull.ending (by decide)

namespace LaidOut

theorem singleton {line : String} (hfull : IsFull line) : LaidOut [line] where
  newline := by simpa using hfull.newline
  first := ⟨line, rfl, hfull.ne_empty⟩
  last := ⟨line, rfl, hfull.ne_empty⟩
  neighbours := List.isChain_singleton line
  ending := by
    rw [List.forall_mem_singleton]
    exact fun hmem => hfull.ending (List.mem_cons_of_mem _ hmem)

variable {written others : List String}

theorem append (hwritten : LaidOut written) (hothers : LaidOut others) : LaidOut (written ++ others) := by
  obtain ⟨first, hfirst, hfirstNe⟩ := hwritten.first
  obtain ⟨last, hlast, hlastNe⟩ := hothers.last
  refine ⟨List.forall_mem_append.mpr ⟨hwritten.newline, hothers.newline⟩, ⟨first, ?_, hfirstNe⟩,
    ⟨last, ?_, hlastNe⟩, hwritten.neighbours.append hothers.neighbours ?_,
    List.forall_mem_append.mpr ⟨hwritten.ending, hothers.ending⟩⟩
  · rw [List.head?_append, Option.mem_def.mp hfirst]
    rfl
  · rw [List.getLast?_append, Option.mem_def.mp hlast]
    rfl
  · intro line hline next _
    obtain ⟨other, hother, hne⟩ := hwritten.last
    rw [Option.mem_unique hline hother]
    exact Or.inl hne

/-- An empty line stands between two texts that are laid out. -/
theorem separated (hwritten : LaidOut written) (hothers : LaidOut others) :
    LaidOut (written ++ "" :: others) := by
  obtain ⟨first, hfirst, hfirstNe⟩ := hwritten.first
  obtain ⟨last, hlast, hlastNe⟩ := hothers.last
  refine ⟨?_, ⟨first, ?_, hfirstNe⟩, ⟨last, ?_, hlastNe⟩, ?_, ?_⟩
  · exact List.forall_mem_append.mpr
      ⟨hwritten.newline, List.forall_mem_cons.mpr ⟨by decide, hothers.newline⟩⟩
  · rw [List.head?_append, Option.mem_def.mp hfirst]
    rfl
  · rw [List.getLast?_append, List.getLast?_cons, Option.mem_def.mp hlast]
    rfl
  · refine hwritten.neighbours.append (hothers.neighbours.cons ?_) ?_
    · intro next hnext
      obtain ⟨other, hother, hne⟩ := hothers.first
      rw [Option.mem_unique hnext hother]
      exact Or.inr hne
    · intro line hline next _
      obtain ⟨other, hother, hne⟩ := hwritten.last
      rw [Option.mem_unique hline hother]
      exact Or.inl hne
  · exact List.forall_mem_append.mpr
      ⟨hwritten.ending, List.forall_mem_cons.mpr ⟨by decide, hothers.ending⟩⟩

theorem of_full (hne : written ≠ []) (hfull : ∀ line ∈ written, IsFull line) : LaidOut written := by
  induction written with
  | nil => exact absurd rfl hne
  | cons line written ih =>
      rw [List.forall_mem_cons] at hfull
      rcases List.eq_nil_or_concat' written with rfl | ⟨_, _, rfl⟩
      · exact singleton hfull.1
      · exact (singleton hfull.1).append (ih (by simp) hfull.2)

theorem intercalate {groups : List (List String)} (hne : groups ≠ [])
    (hgroups : ∀ group ∈ groups, LaidOut group) : LaidOut ([""].intercalate groups) := by
  induction groups with
  | nil => exact absurd rfl hne
  | cons group groups ih =>
      rw [List.forall_mem_cons] at hgroups
      cases groups with
      | nil => simpa using hgroups.1
      | cons next groups =>
          rw [List.intercalate_cons_cons, List.append_assoc]
          exact hgroups.1.separated (ih (List.cons_ne_nil next groups) hgroups.2)

end LaidOut

end EntityClasses.Text
