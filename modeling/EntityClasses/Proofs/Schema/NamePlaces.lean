import Mathlib.Data.List.Basic
import Mathlib.Data.List.Pairwise
import EntityClasses.Proofs.Text.Blank
import EntityClasses.Proofs.Text.Position
import EntityClasses.Proofs.Text.Search
import EntityClasses.Schema.Source

/-! The places at which a text says that something has a name. The search finds those at which the name
stands in quotes behind the key `name` and a colon, whatever it is that has the name. -/

namespace EntityClasses

namespace Text

/-- What stands behind the last `c` of a text. -/
theorem behind_inj {c : Char} {front other back behind : List Char} (hback : c ∉ back) (hbehind : c ∉ behind)
    (htext : front ++ c :: back = other ++ c :: behind) : back = behind := by
  rcases append_cons_cases htext with ⟨-, -, rfl⟩ | ⟨between, -, rfl⟩ | ⟨between, -, rfl⟩
  · rfl
  · exact absurd (List.mem_append_right between List.mem_cons_self) hback
  · exact absurd (List.mem_append_right between List.mem_cons_self) hbehind

/-- A colon, and blanks around it. -/
inductive IsColon : List Char → Prop where
  | blanks {before after : List Char} : (∀ c ∈ before, isBlank c = true) →
      (∀ c ∈ after, isBlank c = true) → IsColon (before ++ ':' :: after)

theorem IsColon.notMem {gap : List Char} (hgap : IsColon gap) {c : Char} (hcolon : c ≠ ':')
    (hblank : isBlank c = false) : c ∉ gap := by
  obtain ⟨hbefore, hafter⟩ := hgap
  intro hmem
  have hnone : ¬ isBlank c = true := by simp [hblank]
  rcases List.mem_append.mp hmem with hmem | hmem
  · exact hnone (hbefore c hmem)
  · rcases List.mem_cons.mp hmem with heq | hmem
    · exact hcolon heq
    · exact hnone (hafter c hmem)

theorem IsColon.quote_notMem {gap : List Char} (hgap : IsColon gap) : '"' ∉ gap :=
  hgap.notMem (by decide) (by decide)

/-- A name in quotes. -/
def betweenQuotes (name : List Char) : List Char :=
  '"' :: name ++ ['"']

theorem occursBehind_betweenQuotes_iff {name s front : List Char} :
    OccursBehind (betweenQuotes name) s front ↔ ∃ back, s = front ++ '"' :: (name ++ '"' :: back) := by
  simp [OccursBehind, betweenQuotes]

/-- Two occurrences of a name in quotes that overlap share one quote only. -/
theorem eq_append_of_overlaps {name s earlier later : List Char} (hname : '"' ∉ name)
    (hearlier : OccursBehind (betweenQuotes name) s earlier)
    (hlater : OccursBehind (betweenQuotes name) s later) (hlt : earlier.length < later.length)
    (hoverlaps : later.length < earlier.length + (betweenQuotes name).length) :
    later = earlier ++ '"' :: name := by
  obtain ⟨back, rfl⟩ := occursBehind_betweenQuotes_iff.mp hearlier
  obtain ⟨behind, htext⟩ := occursBehind_betweenQuotes_iff.mp hlater
  rcases append_cons_cases htext with ⟨rfl, -⟩ | ⟨between, rfl, hcut⟩ | ⟨between, rfl, -⟩
  · exact absurd hlt (Nat.lt_irrefl _)
  · rcases append_cons_cases hcut with ⟨rfl, -⟩ | ⟨more, rfl, -⟩ | ⟨more, rfl, -⟩
    · rfl
    · simp only [betweenQuotes, List.length_append, List.length_cons, List.length_nil] at hoverlaps
      omega
    · exact absurd (List.mem_append_right between List.mem_cons_self) hname
  · rw [List.length_append] at hlt
    omega

end Text

namespace SourceText

open Text

/-- The key `name` in quotes. -/
def nameKey : List Char :=
  ['"', 'n', 'a', 'm', 'e', '"']

/-- A text that ends in the key `name` and a colon. -/
def BehindNameKey (front gap : List Char) : Prop :=
  IsColon gap ∧ ∃ before, front = before ++ (nameKey ++ gap)

theorem endsInNameKey_reverse_iff {front : List Char} :
    endsInNameKey front.reverse = true ↔ ∃ gap, BehindNameKey front gap := by
  constructor
  · intro hends
    unfold endsInNameKey at hends
    split at hends
    · next rest hcolon =>
        obtain ⟨before, hkey⟩ := isSome_dropStart?_iff.mp hends
        obtain ⟨after, hafter, hafterBlank⟩ := exists_append_trimStart front.reverse
        obtain ⟨between, hbetween, hbetweenBlank⟩ := exists_append_trimStart rest
        refine ⟨between.reverse ++ ':' :: after.reverse, .blanks ?_ ?_, before.reverse, ?_⟩
        · simpa using hbetweenBlank
        · simpa using hafterBlank
        · rw [hcolon, hbetween, hkey] at hafter
          have hfront := congrArg List.reverse hafter
          simpa [nameKey] using hfront
    · cases hends
  · rintro ⟨gap, ⟨hbetween, hafter⟩, before, rfl⟩
    rename_i between after
    have htext : (before ++ (nameKey ++ (between ++ ':' :: after))).reverse =
        after.reverse ++ ':' :: (between.reverse ++ (nameKey.reverse ++ before.reverse)) := by
      simp
    have hbetween : ∀ c ∈ between.reverse, isBlank c = true := by simpa using hbetween
    have hafter : ∀ c ∈ after.reverse, isBlank c = true := by simpa using hafter
    rw [htext, endsInNameKey, trimStart_append hafter, trimStart_cons (by decide)]
    show (dropStart? nameKey.reverse (trimStart (between.reverse ++ _))).isSome = true
    rw [trimStart_append hbetween]
    exact isSome_dropStart?_iff.mpr ⟨before.reverse, rfl⟩

/-- An occurrence behind the key overlaps an earlier one only if the name stands between it and the key. -/
theorem BehindNameKey.eq_of_overlaps {name gap s front earlier : List Char} (hname : '"' ∉ name)
    (hbehind : BehindNameKey front gap) (hearlier : OccursBehind (betweenQuotes name) s earlier)
    (hoccurs : OccursBehind (betweenQuotes name) s front) (hlt : earlier.length < front.length)
    (hoverlaps : front.length < earlier.length + (betweenQuotes name).length) : gap = name := by
  have hcut := eq_append_of_overlaps hname hearlier hoccurs hlt hoverlaps
  obtain ⟨hcolon, before, rfl⟩ := hbehind
  have hquote : (before ++ ['"', 'n', 'a', 'm', 'e']) ++ '"' :: gap = earlier ++ '"' :: name := by
    rw [← hcut]
    simp [nameKey]
  exact behind_inj hcolon.quote_notMem hname hquote

/-- A name that stands between the key and itself is passed over: the quotes around what stands between are
taken for those of the name. -/
theorem BehindNameKey.reverse_notMem {gap s front : List Char} (hbehind : BehindNameKey front gap)
    (hoccurs : OccursBehind (betweenQuotes gap) s front) :
    front.reverse ∉ occurrences (betweenQuotes gap) s := by
  intro hfound
  obtain ⟨hcolon, before, rfl⟩ := hbehind
  have hword : betweenQuotes gap ≠ [] := nofun
  have hlength : (betweenQuotes gap).length = gap.length + 2 := by simp [betweenQuotes]
  -- the name between the closing quote of the key and its own opening quote
  have hkey : OccursBehind (betweenQuotes gap) s (before ++ ['"', 'n', 'a', 'm', 'e']) := by
    obtain ⟨back, rfl⟩ := occursBehind_betweenQuotes_iff.mp hoccurs
    exact occursBehind_betweenQuotes_iff.mpr ⟨gap ++ '"' :: back, by simp [nameKey]⟩
  have hfront : (before ++ (nameKey ++ gap)).length =
      (before ++ ['"', 'n', 'a', 'm', 'e']).length + gap.length + 1 := by
    simp [nameKey]
    omega
  rcases mem_occurrences_or_overlaps hword hkey with hkeyFound | ⟨earlier, hearlier, hlt, hoverlaps⟩
  · have hapart := length_add_le_of_mem hword hkeyFound hfound
      (by rw [List.length_reverse, List.length_reverse]; omega)
    rw [List.length_reverse, List.length_reverse] at hapart
    omega
  · have hcut := eq_append_of_overlaps hcolon.quote_notMem (occursBehind_of_reverse_mem hearlier) hkey
      hlt hoverlaps
    -- an earlier occurrence would end in the last letter of the key
    have hlast : 'e' ∈ '"' :: gap := by
      apply List.mem_of_getLast?
      have hlast := congrArg List.getLast? hcut
      rw [List.getLast?_append_cons, List.getLast?_append_cons] at hlast
      exact hlast.symm
    rcases List.mem_cons.mp hlast with heq | hmem
    · cases heq
    · exact hcolon.notMem (by decide) (by decide) hmem

/-- What the search keeps of the occurrences of a name without quotes: those behind the key `name`, unless
the name is what stands between the key and the name. -/
theorem mem_filter_occurrences_iff {name s front : List Char} (hname : '"' ∉ name) :
    front.reverse ∈ (occurrences (betweenQuotes name) s).filter endsInNameKey ↔
      ∃ gap, BehindNameKey front gap ∧ gap ≠ name ∧ OccursBehind (betweenQuotes name) s front := by
  rw [List.mem_filter, endsInNameKey_reverse_iff]
  constructor
  · rintro ⟨hfound, gap, hbehind⟩
    have hoccurs := occursBehind_of_reverse_mem hfound
    refine ⟨gap, hbehind, ?_, hoccurs⟩
    rintro rfl
    exact hbehind.reverse_notMem hoccurs hfound
  · rintro ⟨gap, hbehind, hgap, hoccurs⟩
    refine ⟨?_, gap, hbehind⟩
    have hword : betweenQuotes name ≠ [] := nofun
    rcases mem_occurrences_or_overlaps hword hoccurs with hfound | ⟨earlier, hearlier, hlt, hoverlaps⟩
    · exact hfound
    · exact absurd (hbehind.eq_of_overlaps hname (occursBehind_of_reverse_mem hearlier) hoccurs
        hlt hoverlaps) hgap

/-- Whether a name stands in quotes at a place, behind the key `name` and a colon. What stands between the
key and the name is not the name once more. -/
def ReadsName (source : SourceText) (name : String) (place : Span) : Prop :=
  ∃ front gap, BehindNameKey front gap ∧ gap ≠ name.toList ∧
    OccursBehind (betweenQuotes name.toList) source.chars front ∧
    place = ⟨Text.size front + 1, Text.size name.toList⟩

section Places

variable {source : SourceText} {name : String} {place : Span}

/-- Every place that is found is one where the name stands in quotes. -/
theorem occursBehind_of_mem_namePlaces (hplace : place ∈ source.namePlaces name) :
    ∃ front, OccursBehind (betweenQuotes name.toList) source.chars front ∧
      place = ⟨Text.size front + 1, Text.size name.toList⟩ := by
  obtain ⟨found, hfound, rfl⟩ := List.mem_map.mp hplace
  refine ⟨found.reverse, occursBehind_of_mem (List.mem_filter.mp hfound).1, ?_⟩
  rw [size_reverse]

theorem mem_namePlaces_iff (hname : '"' ∉ name.toList) :
    place ∈ source.namePlaces name ↔ source.ReadsName name place := by
  unfold namePlaces
  rw [List.mem_map]
  constructor
  · rintro ⟨found, hfound, rfl⟩
    rw [← List.reverse_reverse found] at hfound
    obtain ⟨gap, hbehind, hgap, hoccurs⟩ := (mem_filter_occurrences_iff hname).mp hfound
    refine ⟨found.reverse, gap, hbehind, hgap, hoccurs, ?_⟩
    rw [size_reverse]
  · rintro ⟨front, gap, hbehind, hgap, hoccurs, rfl⟩
    refine ⟨front.reverse, (mem_filter_occurrences_iff hname).mpr ⟨gap, hbehind, hgap, hoccurs⟩, ?_⟩
    rw [size_reverse]

/-- The places are found in the order of the text. -/
theorem pairwise_namePlaces (source : SourceText) (name : String) :
    (source.namePlaces name).Pairwise fun earlier later => earlier.offset < later.offset := by
  have hword : betweenQuotes name.toList ≠ [] := nofun
  unfold namePlaces
  refine List.Pairwise.map _ (fun _ _ => id) (List.Pairwise.filter _ ?_)
  refine (pairwise_occurrences hword source.chars).imp_of_mem ?_
  intro earlier later hearlier hlater hapart
  obtain ⟨back, htext⟩ := occursBehind_of_mem hearlier
  obtain ⟨behind, htext'⟩ := occursBehind_of_mem hlater
  have hlength : earlier.reverse.length < later.reverse.length := by
    rw [List.length_reverse, List.length_reverse]
    simp only [betweenQuotes, List.length_append, List.length_cons] at hapart
    omega
  have hsize := size_lt_of_length_lt (htext.symm.trans htext') hlength
  rw [size_reverse, size_reverse] at hsize
  exact Nat.succ_lt_succ hsize

end Places

/-- The second of ascending elements is the one in front of which there is exactly one. -/
theorem getElem?_one_eq_some_iff {α : Type} {key : α → Nat} {l : List α} {a : α}
    (hascending : l.Pairwise fun earlier later => key earlier < key later) :
    l[1]? = some a ↔ a ∈ l ∧ ∃! earlier, earlier ∈ l ∧ key earlier < key a := by
  match l, hascending with
  | [], _ => simp
  | [b], _ =>
      simp only [List.mem_singleton]
      constructor
      · rintro ⟨⟩
      · rintro ⟨rfl, earlier, ⟨rfl, hlt⟩, -⟩
        exact absurd hlt (Nat.lt_irrefl _)
  | b :: c :: l, hascending =>
      obtain ⟨hb, hc⟩ := List.pairwise_cons.mp hascending
      have hbc : key b < key c := hb c List.mem_cons_self
      have hbehind : ∀ d ∈ l, key c < key d := (List.pairwise_cons.mp hc).1
      constructor
      · rintro ⟨⟩
        refine ⟨List.mem_cons_of_mem b List.mem_cons_self, b, ⟨List.mem_cons_self, hbc⟩, ?_⟩
        rintro d ⟨hd, hlt⟩
        rcases List.mem_cons.mp hd with rfl | hd
        · rfl
        · rcases List.mem_cons.mp hd with rfl | hd
          · exact absurd hlt (Nat.lt_irrefl _)
          · exact absurd (hbehind d hd) (Nat.not_lt_of_lt hlt)
      · rintro ⟨ha, earlier, ⟨hearlier, hlt⟩, hunique⟩
        rcases List.mem_cons.mp ha with rfl | ha
        · rcases List.mem_cons.mp hearlier with rfl | hearlier
          · exact absurd hlt (Nat.lt_irrefl _)
          · exact absurd (hb earlier hearlier) (Nat.not_lt_of_lt hlt)
        · rcases List.mem_cons.mp ha with rfl | ha
          · rfl
          · have hca := hbehind a ha
            have hfirst := hunique b ⟨List.mem_cons_self, Nat.lt_trans hbc hca⟩
            have hsecond := hunique c ⟨List.mem_cons_of_mem b List.mem_cons_self, hca⟩
            rw [hfirst, hsecond] at hbc
            exact absurd hbc (Nat.lt_irrefl _)

/-- **What the search takes for the second declaration of a name**: the place at which the name reads with
exactly one place in front of it at which it reads as well. -/
theorem secondNamePlace?_eq_some_iff {source : SourceText} {name : String} {place : Span}
    (hname : '"' ∉ name.toList) :
    source.secondNamePlace? name = some place ↔ source.ReadsName name place ∧
      ∃! earlier, source.ReadsName name earlier ∧ earlier.offset < place.offset := by
  unfold secondNamePlace?
  rw [getElem?_one_eq_some_iff (pairwise_namePlaces source name)]
  simp only [mem_namePlaces_iff hname]

end SourceText

end EntityClasses
