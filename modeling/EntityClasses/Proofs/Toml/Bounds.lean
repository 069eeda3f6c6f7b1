import Mathlib.Data.List.Basic
import EntityClasses.Toml.Reader

/-! Texts that end with a line, and what is read off them if more text follows. The newline ends whatever
stands in front of it, so no reader looks behind it, and none takes anything else off the longer text. -/

namespace EntityClasses.Toml

/-- A text that `more` can follow: it ends with a newline, or nothing follows. -/
def Bounded (more s : List Char) : Prop :=
  more = [] ∨ s.getLast? = some '\n'

variable {more s rest cs : List Char} {c : Char}

namespace Bounded

theorem nil_iff : Bounded more [] ↔ more = [] := by
  simp [Bounded]

/-- What is left of the text is bounded as long as there is something left. -/
theorem behind (front : List Char) (hbounded : Bounded more (front ++ rest)) (hrest : rest ≠ []) :
    Bounded more rest := by
  rcases hbounded with hmore | hlast
  · exact Or.inl hmore
  · rw [List.getLast?_append_of_ne_nil _ hrest] at hlast
    exact Or.inr hlast

theorem tail (hbounded : Bounded more (c :: cs)) (hrest : cs ≠ []) : Bounded more cs :=
  behind [c] hbounded hrest

/-- Something is left behind a character that is no newline. -/
theorem of_cons (hbounded : Bounded more (c :: cs)) (hc : c ≠ '\n') : Bounded more cs := by
  rcases hbounded with hmore | hlast
  · exact Or.inl hmore
  · cases cs with
    | nil => exact absurd (Option.some.inj hlast) hc
    | cons d ds => exact Or.inr (by rwa [List.getLast?_cons_cons] at hlast)

theorem head?_append (hbounded : Bounded more s) : (s ++ more).head? = s.head? := by
  cases s with
  | nil => rw [nil_iff.mp hbounded, List.nil_append]
  | cons c cs => rfl

/-- A carriage return that ends no line does not end one if more text follows either. -/
theorem no_break (hbounded : Bounded more (c :: cs))
    (hbreak : ∀ ds, c = '\r' → cs = '\n' :: ds → False) :
    ∀ ds, c = '\r' → cs ++ more = '\n' :: ds → False := by
  rintro ds rfl hcs
  have hhead := (hbounded.of_cons (by decide)).head?_append
  rw [hcs] at hhead
  obtain ⟨es, hes⟩ := List.head?_eq_some_iff.mp hhead.symm
  exact hbreak es rfl hes

/-- What a longer text starts with within a line, the text starts with. -/
theorem isPrefix {front : List Char} (hfront : '\n' ∉ front) (hbounded : Bounded more s)
    (hstarts : front <+: s ++ more) : front <+: s := by
  induction front generalizing s with
  | nil => exact List.nil_prefix
  | cons a front ih =>
      rw [List.mem_cons, not_or] at hfront
      cases s with
      | nil =>
          rw [nil_iff.mp hbounded] at hstarts
          exact hstarts
      | cons c cs =>
          obtain ⟨rfl, hcs⟩ := List.cons_prefix_cons.mp hstarts
          exact List.cons_prefix_cons.mpr ⟨rfl, ih hfront.2 (hbounded.of_cons (Ne.symm hfront.1)) hcs⟩

theorem not_starts (front : List Char) (hfront : '\n' ∉ front) (hbounded : Bounded more s)
    (hs : ∀ cs, s = front ++ cs → False) : ∀ cs, s ++ more = front ++ cs → False := by
  intro cs hcs
  obtain ⟨ds, hds⟩ := hbounded.isPrefix hfront ⟨cs, hcs.symm⟩
  exact hs ds hds.symm

/-- A newline is not passed over by a reader that stops at newlines. -/
theorem dropWhile {p : Char → Bool} (hp : p '\n' = false) (hbounded : Bounded more s) :
    (s ++ more).dropWhile p = s.dropWhile p ++ more ∧ Bounded more (s.dropWhile p) := by
  induction s with
  | nil =>
      obtain rfl := nil_iff.mp hbounded
      exact ⟨rfl, hbounded⟩
  | cons c cs ih =>
      by_cases hc : p c = true
      · have hnewline : c ≠ '\n' := by
          rintro rfl
          simp [hp] at hc
        rw [List.cons_append, List.dropWhile_cons_of_pos hc, List.dropWhile_cons_of_pos hc]
        exact ih (hbounded.of_cons hnewline)
      · rw [List.cons_append, List.dropWhile_cons_of_neg hc, List.dropWhile_cons_of_neg hc]
        exact ⟨rfl, hbounded⟩

theorem takeWhile {p : Char → Bool} (hp : p '\n' = false) (hbounded : Bounded more s) :
    (s ++ more).takeWhile p = s.takeWhile p := by
  induction s with
  | nil =>
      obtain rfl := nil_iff.mp hbounded
      rfl
  | cons c cs ih =>
      by_cases hc : p c = true
      · have hnewline : c ≠ '\n' := by
          rintro rfl
          simp [hp] at hc
        rw [List.cons_append, List.takeWhile_cons_of_pos hc, List.takeWhile_cons_of_pos hc,
          ih (hbounded.of_cons hnewline)]
      · rw [List.cons_append, List.takeWhile_cons_of_neg hc, List.takeWhile_cons_of_neg hc]

theorem skipSpace (hbounded : Bounded more s) :
    skipSpace (s ++ more) = Toml.skipSpace s ++ more ∧ Bounded more (Toml.skipSpace s) :=
  dropWhile (by decide) hbounded

end Bounded

section Filler

theorem skipFiller_nil (inComment : Bool) : skipFiller inComment [] = [] := by
  rw [skipFiller]

theorem skipFiller_cons (inComment : Bool) (hbreak : ∀ ds, c = '\r' → cs = '\n' :: ds → False) :
    skipFiller inComment (c :: cs) =
      if c = '\n' then skipFiller false cs
      else if inComment then (if isControl c then c :: cs else skipFiller true cs)
      else if isSpace c then skipFiller false cs
      else if c = '#' then skipFiller true cs
      else c :: cs := by
  rw [skipFiller]
  exact hbreak

/-- Whether a character is passed over does not depend on what follows a bounded text. -/
theorem skipFiller_step (inComment : Bool) (hbounded : Bounded more (c :: cs)) :
    (∃ next, (next = true → c ≠ '\n') ∧ skipFiller inComment (c :: cs) = skipFiller next cs ∧
      skipFiller inComment (c :: (cs ++ more)) = skipFiller next (cs ++ more)) ∨
    (skipFiller inComment (c :: cs) = c :: cs ∧
      skipFiller inComment (c :: (cs ++ more)) = c :: (cs ++ more)) := by
  by_cases hreturn : ∃ ds, c = '\r' ∧ cs = '\n' :: ds
  · obtain ⟨ds, rfl, rfl⟩ := hreturn
    have hnewline : ∀ ds, skipFiller false ('\n' :: ds) = skipFiller false ds := fun ds => by
      rw [skipFiller_cons _ fun _ h => absurd h (by decide), if_pos rfl]
    refine Or.inl ⟨false, by simp, ?_, ?_⟩
    · rw [skipFiller, hnewline]
    · rw [List.cons_append, skipFiller, hnewline]
  · have hbreak : ∀ ds, c = '\r' → cs = '\n' :: ds → False := fun ds hc hcs => hreturn ⟨ds, hc, hcs⟩
    rw [skipFiller_cons _ hbreak, skipFiller_cons _ (hbounded.no_break hbreak)]
    by_cases hnewline : c = '\n'
    · exact Or.inl ⟨false, by simp, by rw [if_pos hnewline], by rw [if_pos hnewline]⟩
    rw [if_neg hnewline, if_neg hnewline]
    cases inComment with
    | true =>
        by_cases hcontrol : isControl c = true
        · exact Or.inr ⟨by simp [hcontrol], by simp [hcontrol]⟩
        · exact Or.inl ⟨true, fun _ => hnewline, by simp [hcontrol], by simp [hcontrol]⟩
    | false =>
        by_cases hspace : isSpace c = true
        · exact Or.inl ⟨false, by simp, by simp [hspace], by simp [hspace]⟩
        by_cases hcomment : c = '#'
        · subst hcomment
          exact Or.inl ⟨true, fun _ => hnewline, by simp [hspace], by simp [hspace]⟩
        · exact Or.inr ⟨by simp [hspace, hcomment], by simp [hspace, hcomment]⟩

theorem Bounded.skipFiller {inComment : Bool} (hbounded : Bounded more s)
    (hsome : skipFiller inComment s ≠ []) :
    Toml.skipFiller inComment (s ++ more) = Toml.skipFiller inComment s ++ more ∧
      Bounded more (Toml.skipFiller inComment s) := by
  induction s generalizing inComment with
  | nil => exact absurd (skipFiller_nil inComment) hsome
  | cons c cs ih =>
      rcases skipFiller_step inComment hbounded with ⟨next, _, hs, happend⟩ | ⟨hs, happend⟩
      · rw [hs] at hsome
        have hcs : cs ≠ [] := by
          rintro rfl
          exact hsome (skipFiller_nil next)
        rw [List.cons_append, hs, happend]
        exact ih (hbounded.tail hcs) hsome
      · rw [List.cons_append, hs, happend]
        exact ⟨rfl, hbounded⟩

/-- Behind a text that says nothing the next one starts anew. -/
theorem Bounded.skipFiller_of_nil {inComment : Bool} (hbounded : Bounded more s)
    (hnone : Toml.skipFiller inComment s = []) :
    Toml.skipFiller inComment (s ++ more) = Toml.skipFiller false more := by
  induction s generalizing inComment with
  | nil =>
      obtain rfl := nil_iff.mp hbounded
      rw [List.append_nil, skipFiller_nil, skipFiller_nil]
  | cons c cs ih =>
      rcases skipFiller_step inComment hbounded with ⟨next, hnext, hs, happend⟩ | ⟨hs, _⟩
      · rw [List.cons_append, happend]
        rw [hs] at hnone
        by_cases hcs : cs = []
        · subst hcs
          rcases hbounded with rfl | hlast
          · rw [List.append_nil, skipFiller_nil, skipFiller_nil]
          · cases next with
            | true => exact absurd (Option.some.inj hlast) (hnext rfl)
            | false => rw [List.nil_append]
        · exact ih (hbounded.tail hcs) hnone
      · rw [hs] at hnone
        cases hnone

end Filler

/-- What is read off a text and what is read off a longer one: up to `image` the same, and as much. -/
def Longer {α β : Type} (more : List Char) (image : α → β) (read longer : Option (α × List Char)) :
    Prop :=
  ∀ a rest, read = some (a, rest) →
    ∃ other, longer = some (other, rest ++ more) ∧ image other = image a ∧ Bounded more rest

namespace Longer

variable {α β γ δ : Type} {image : α → β} {read longer : Option (α × List Char)} {a other : α}

theorem none : Longer more image none longer := by
  intro a rest hread
  cases hread

theorem some (hbounded : Bounded more rest) (himage : image other = image a) :
    Longer more image (some (a, rest)) (some (other, rest ++ more)) := by
  intro b left hread
  obtain ⟨rfl, rfl⟩ := Prod.mk.inj (Option.some.inj hread)
  exact ⟨other, rfl, himage, hbounded⟩

theorem bind {further : γ → δ} {next after : α × List Char → Option (γ × List Char)}
    (hread : Longer more image read longer)
    (hnext : ∀ a other rest, image other = image a → Bounded more rest →
      Longer more further (next (a, rest)) (after (other, rest ++ more))) :
    Longer more further (read >>= next) (longer >>= after) := by
  intro c left hc
  obtain ⟨⟨a, rest⟩, ha, hc⟩ := Option.bind_eq_some_iff.mp hc
  obtain ⟨other, hother, himage, hbounded⟩ := hread a rest ha
  obtain ⟨d, hd, hsame, hleft⟩ := hnext a other rest himage hbounded c left hc
  exact ⟨d, Option.bind_eq_some_iff.mpr ⟨_, hother, hd⟩, hsame, hleft⟩

theorem ite {p : Prop} [Decidable p] {read' longer' : Option (α × List Char)}
    (hpos : p → Longer more image read longer) (hneg : ¬ p → Longer more image read' longer') :
    Longer more image (if p then read else read') (if p then longer else longer') := by
  by_cases hp : p
  · rw [if_pos hp, if_pos hp]
    exact hpos hp
  · rw [if_neg hp, if_neg hp]
    exact hneg hp

/-- One more character in front of what is read. -/
theorem cons {read longer : Option (List Char × List Char)} (c : Char) (hread : Longer more id read longer) :
    Longer more id (do let (text, rest) ← read; pure (c :: text, rest))
      (do let (text, rest) ← longer; pure (c :: text, rest)) :=
  hread.bind fun _ _ _ himage hbounded => some hbounded (congrArg (c :: ·) himage)

end Longer

end EntityClasses.Toml
