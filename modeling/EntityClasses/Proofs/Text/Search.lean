import Mathlib.Data.List.Pairwise
import Mathlib.Tactic.SplitIfs
import EntityClasses.Text.Search

/-! What a search finds. Every place that is found is an occurrence, and an occurrence is passed over only
where it overlaps one that is found in front of it. -/

namespace EntityClasses.Text

/-- A text cut at two of its characters: they are the same one, or one stands in front of the other. -/
theorem append_cons_cases {front back other behind : List Char} {c d : Char}
    (htext : front ++ c :: back = other ++ d :: behind) :
    (front = other ∧ c = d ∧ back = behind) ∨
    (∃ between, other = front ++ c :: between ∧ back = between ++ d :: behind) ∨
    (∃ between, front = other ++ d :: between ∧ behind = between ++ c :: back) := by
  rcases List.append_eq_append_iff.mp htext with ⟨between, rfl, hcut⟩ | ⟨between, rfl, hcut⟩
  · cases between with
    | nil =>
        obtain ⟨rfl, rfl⟩ := List.cons.inj hcut
        exact Or.inl ⟨(List.append_nil front).symm, rfl, rfl⟩
    | cons e between =>
        obtain ⟨rfl, rfl⟩ := List.cons.inj hcut
        exact Or.inr (Or.inl ⟨between, rfl, rfl⟩)
  · cases between with
    | nil =>
        obtain ⟨rfl, rfl⟩ := List.cons.inj hcut
        exact Or.inl ⟨List.append_nil other, rfl, rfl⟩
    | cons e between =>
        obtain ⟨rfl, rfl⟩ := List.cons.inj hcut
        exact Or.inr (Or.inr ⟨between, rfl, rfl⟩)

section Starts

variable {word s rest : List Char}

theorem dropStart?_append (word rest : List Char) : dropStart? word (word ++ rest) = some rest := by
  induction word with
  | nil => rfl
  | cons c word ih => rw [List.cons_append, dropStart?, if_pos rfl, ih]

theorem dropStart?_eq_some_iff : dropStart? word s = some rest ↔ s = word ++ rest := by
  constructor
  · intro hdrop
    induction word generalizing s with
    | nil => exact Option.some.inj hdrop
    | cons c word ih =>
        cases s with
        | nil => cases hdrop
        | cons d s =>
            rw [dropStart?] at hdrop
            split at hdrop
            · next heq => rw [heq, List.cons_append, ih hdrop]
            · cases hdrop
  · rintro rfl
    exact dropStart?_append word rest

theorem isSome_dropStart?_iff : (dropStart? word s).isSome = true ↔ ∃ rest, s = word ++ rest := by
  rw [Option.isSome_iff_exists]
  exact exists_congr fun _ => dropStart?_eq_some_iff

end Starts

/-- Whether a word stands behind this front of a text. -/
def OccursBehind (word s front : List Char) : Prop :=
  ∃ back, s = front ++ (word ++ back)

section Occurrences

variable {word before s front found : List Char} {skip : Nat}

theorem occursBehind_cons_iff {c : Char} :
    OccursBehind word (c :: s) (c :: front) ↔ OccursBehind word s front := by
  simp [OccursBehind]

theorem occursBehind_nil_iff : OccursBehind word s [] ↔ (dropStart? word s).isSome = true := by
  rw [isSome_dropStart?_iff]
  rfl

theorem mem_occurrencesFrom (hfound : found ∈ occurrencesFrom word before skip s) :
    ∃ front, found = front.reverse ++ before ∧ skip ≤ front.length ∧ OccursBehind word s front := by
  induction s generalizing before skip with
  | nil => cases skip <;> cases hfound
  | cons c s ih =>
      have hlater : ∀ {skip}, found ∈ occurrencesFrom word (c :: before) skip s →
          ∃ front, found = front.reverse ++ before ∧ skip + 1 ≤ front.length ∧
            OccursBehind word (c :: s) front := by
        intro skip hfound
        obtain ⟨front, rfl, hskip, hoccurs⟩ := ih hfound
        refine ⟨c :: front, by simp, ?_, occursBehind_cons_iff.mpr hoccurs⟩
        rw [List.length_cons]
        omega
      cases skip with
      | succ skip => exact hlater hfound
      | zero =>
          rw [occurrencesFrom] at hfound
          split at hfound
          · next hword =>
              rcases List.mem_cons.mp hfound with rfl | hfound
              · exact ⟨[], rfl, Nat.zero_le _, occursBehind_nil_iff.mpr hword⟩
              · obtain ⟨front, hfront, -, hoccurs⟩ := hlater hfound
                exact ⟨front, hfront, Nat.zero_le _, hoccurs⟩
          · obtain ⟨front, hfront, -, hoccurs⟩ := hlater hfound
            exact ⟨front, hfront, Nat.zero_le _, hoccurs⟩

/-- An occurrence is found unless it overlaps one that is found in front of it. -/
theorem mem_occurrencesFrom_or_overlaps (hword : word ≠ []) (hskip : skip ≤ front.length)
    (hoccurs : OccursBehind word s front) :
    front.reverse ++ before ∈ occurrencesFrom word before skip s ∨
    ∃ earlier : List Char, earlier.reverse ++ before ∈ occurrencesFrom word before skip s ∧
      earlier.length < front.length ∧ front.length < earlier.length + word.length := by
  induction s generalizing before skip front with
  | nil =>
      obtain ⟨back, htext⟩ := hoccurs
      exact absurd (List.append_eq_nil_iff.mp (List.append_eq_nil_iff.mp htext.symm).2).1 hword
  | cons c s ih =>
      have hlength : 1 ≤ word.length := List.length_pos_iff.mpr hword
      -- what the search behind the first character finds is found behind it here
      have hlater : ∀ {skip : Nat} {front : List Char}, skip ≤ front.length → OccursBehind word s front →
          (c :: front).reverse ++ before ∈ occurrencesFrom word (c :: before) skip s ∨
          ∃ earlier : List Char, earlier.reverse ++ before ∈ occurrencesFrom word (c :: before) skip s ∧
            earlier.length < (c :: front).length ∧
            (c :: front).length < earlier.length + word.length := by
        intro skip front hskip hoccurs
        rcases @ih (c :: before) front skip hskip hoccurs with hfound | ⟨earlier, hfound, hlt, hoverlaps⟩
        · left
          simpa using hfound
        · refine Or.inr ⟨c :: earlier, by simpa using hfound, Nat.succ_lt_succ hlt, ?_⟩
          rw [List.length_cons, List.length_cons, Nat.succ_add]
          exact Nat.succ_lt_succ hoverlaps
      cases front with
      | nil =>
          obtain rfl : skip = 0 := Nat.le_zero.mp hskip
          left
          rw [occurrencesFrom, if_pos (occursBehind_nil_iff.mp hoccurs)]
          exact List.mem_cons_self
      | cons d front =>
          obtain ⟨back, htext⟩ := hoccurs
          obtain ⟨rfl, hbehind⟩ := List.cons.inj htext
          have hbehind : OccursBehind word s front := ⟨back, hbehind⟩
          cases skip with
          | succ skip => exact hlater (Nat.le_of_succ_le_succ hskip) hbehind
          | zero =>
              by_cases hfirst : (dropStart? word (c :: s)).isSome = true
              · rw [occurrencesFrom, if_pos hfirst]
                by_cases hoverlaps : front.length < word.length - 1
                · refine Or.inr ⟨[], List.mem_cons_self, ?_, ?_⟩ <;>
                    rw [List.length_cons, List.length_nil] <;> omega
                · rcases hlater (Nat.le_of_not_lt hoverlaps) hbehind with
                    hfound | ⟨earlier, hfound, hlt, hover⟩
                  · exact Or.inl (List.mem_cons_of_mem _ hfound)
                  · exact Or.inr ⟨earlier, List.mem_cons_of_mem _ hfound, hlt, hover⟩
              · rw [occurrencesFrom, if_neg hfirst]
                exact hlater (Nat.zero_le front.length) hbehind

/-- Places that are found follow each other at the distance of the word at least. -/
theorem pairwise_occurrencesFrom (hword : word ≠ []) :
    (occurrencesFrom word before skip s).Pairwise fun earlier later =>
      earlier.length + word.length ≤ later.length := by
  induction s generalizing before skip with
  | nil => cases skip <;> exact .nil
  | cons c s ih =>
      cases skip with
      | succ skip => exact ih
      | zero =>
          rw [occurrencesFrom]
          split_ifs with hfirst
          · refine .cons ?_ ih
            intro later hlater
            obtain ⟨front, rfl, hskip, -⟩ := mem_occurrencesFrom hlater
            have hlength : 1 ≤ word.length := List.length_pos_iff.mpr hword
            rw [List.length_append, List.length_reverse, List.length_cons]
            omega
          · exact ih

theorem occursBehind_of_mem (hfound : found ∈ occurrences word s) :
    OccursBehind word s found.reverse := by
  obtain ⟨front, rfl, -, hoccurs⟩ := mem_occurrencesFrom hfound
  simpa using hoccurs

theorem occursBehind_of_reverse_mem (hfound : front.reverse ∈ occurrences word s) :
    OccursBehind word s front := by
  have hoccurs := occursBehind_of_mem hfound
  rwa [List.reverse_reverse] at hoccurs

theorem mem_occurrences_or_overlaps (hword : word ≠ []) (hoccurs : OccursBehind word s front) :
    front.reverse ∈ occurrences word s ∨
    ∃ earlier : List Char, earlier.reverse ∈ occurrences word s ∧
      earlier.length < front.length ∧ front.length < earlier.length + word.length := by
  unfold occurrences
  have hfound := @mem_occurrencesFrom_or_overlaps word [] s front 0 hword (Nat.zero_le _) hoccurs
  simpa only [List.append_nil] using hfound

theorem pairwise_occurrences (hword : word ≠ []) (s : List Char) :
    (occurrences word s).Pairwise fun earlier later => earlier.length + word.length ≤ later.length :=
  pairwise_occurrencesFrom hword

/-- Of two places that are found, the later one is behind the word at the earlier one. -/
theorem length_add_le_of_mem (hword : word ≠ []) {earlier later : List Char}
    (hearlier : earlier ∈ occurrences word s) (hlater : later ∈ occurrences word s)
    (hlt : earlier.length < later.length) : earlier.length + word.length ≤ later.length := by
  have happart : (occurrences word s).Pairwise fun first second =>
      first.length + word.length ≤ second.length ∨ second.length + word.length ≤ first.length :=
    (pairwise_occurrences hword s).imp Or.inl
  have hsymm : Std.Symm fun first second : List Char =>
      first.length + word.length ≤ second.length ∨ second.length + word.length ≤ first.length :=
    ⟨fun _ _ => Or.symm⟩
  have hne : earlier ≠ later := by
    rintro rfl
    exact Nat.lt_irrefl _ hlt
  rcases happart.forall hearlier hlater hne with hle | hle
  · exact hle
  · omega

end Occurrences

end EntityClasses.Text
