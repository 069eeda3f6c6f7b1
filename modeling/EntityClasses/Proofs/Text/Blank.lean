import Mathlib.Data.List.Basic
import Mathlib.Data.List.TakeWhile
import EntityClasses.Proofs.Text.Search

/-! What is left of a text without the blanks at its ends, and without a word at its end. -/

namespace EntityClasses.Text

/-- A text of blanks only. -/
def IsBlankText (s : List Char) : Prop :=
  ∀ c ∈ s, isBlank c = true

instance (s : List Char) : Decidable (IsBlankText s) :=
  inferInstanceAs (Decidable (∀ c ∈ s, isBlank c = true))

theorem isBlankText_reverse_iff {s : List Char} : IsBlankText s.reverse ↔ IsBlankText s := by
  simp [IsBlankText]

theorem trimStart_append {blank : List Char} (hblank : ∀ c ∈ blank, isBlank c = true) (s : List Char) :
    trimStart (blank ++ s) = trimStart s :=
  List.dropWhile_append_of_pos hblank

theorem trimStart_cons {c : Char} (hc : isBlank c = false) (s : List Char) : trimStart (c :: s) = c :: s := by
  rw [trimStart, List.dropWhile_cons_of_neg (by simp [hc])]

theorem exists_append_trimStart (s : List Char) :
    ∃ blank, s = blank ++ trimStart s ∧ ∀ c ∈ blank, isBlank c = true := by
  refine ⟨s.takeWhile isBlank, ?_, fun c hc => List.mem_takeWhile_imp hc⟩
  exact List.takeWhile_append_dropWhile.symm

/-- Only blanks go with trimming. -/
theorem exists_append_trim (s : List Char) :
    ∃ before after, IsBlankText before ∧ IsBlankText after ∧ s = before ++ (trim s ++ after) := by
  obtain ⟨before, hstart, hbefore⟩ := exists_append_trimStart s
  obtain ⟨blank, hend, hblank⟩ := exists_append_trimStart (trimStart s).reverse
  refine ⟨before, blank.reverse, hbefore, isBlankText_reverse_iff.mpr hblank, ?_⟩
  have htrim : trimStart s = trim s ++ blank.reverse := by
    rw [trim, trimEnd, ← List.reverse_append, ← hend, List.reverse_reverse]
  rw [← htrim]
  exact hstart

/-- Trimming stops at the first and at the last character that is no blank. -/
theorem trim_between {before after : List Char} {first last : Char} (hbefore : IsBlankText before)
    (hafter : IsBlankText after) (hfirst : isBlank first = false) (hlast : isBlank last = false)
    (middle : List Char) :
    trim (before ++ (first :: (middle ++ [last]) ++ after)) = first :: (middle ++ [last]) := by
  have hreverse : (first :: (middle ++ [last]) ++ after).reverse =
      after.reverse ++ last :: (first :: middle).reverse := by simp
  rw [trim, trimEnd, trimStart_append hbefore, List.cons_append, trimStart_cons hfirst,
    ← List.cons_append, hreverse, trimStart_append (isBlankText_reverse_iff.mpr hafter),
    trimStart_cons hlast]
  simp

theorem dropEnd?_eq_some_iff {ending s front : List Char} :
    dropEnd? ending s = some front ↔ s = front ++ ending := by
  rw [dropEnd?, Option.map_eq_some_iff]
  constructor
  · rintro ⟨rest, hdrop, rfl⟩
    rw [dropStart?_eq_some_iff] at hdrop
    rw [← List.reverse_inj, List.reverse_append, List.reverse_reverse, hdrop]
  · rintro rfl
    exact ⟨front.reverse, by rw [List.reverse_append, dropStart?_append], List.reverse_reverse front⟩

end EntityClasses.Text
