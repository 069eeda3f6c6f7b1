import EntityClasses.Proofs.Toml.Bounds

/-! Strings read off a text that more text follows. All quotes that end a string stand in front of the
newline, and so does the character for which the blanks behind a backslash are left out. -/

namespace EntityClasses.Toml

variable {more s rest cs text : List Char} {c : Char}

theorem code?_append {count : Nat} (hcode : code? count s = some c) (more : List Char) :
    code? count (s ++ more) = some c := by
  have hlength : count ≤ s.length := by
    rw [code?] at hcode
    split at hcode
    · cases hcode
    · next hcount =>
        rw [List.length_take] at hcount
        omega
  rw [code?, List.take_append_of_le_length hlength]
  exact hcode

/-- An escape is read as a whole. -/
theorem readEscape_append {count : Nat} (hread : readEscape s = some (c, count)) (more : List Char) :
    readEscape (s ++ more) = some (c, count) := by
  rw [readEscape.eq_def] at hread
  split at hread
  all_goals try exact hread
  all_goals
    first
    | (obtain ⟨code, hcode, heq⟩ := Option.map_eq_some_iff.mp hread
       rw [List.cons_append, readEscape, code?_append hcode, ← heq]
       rfl)
    | cases hread

/-- Behind an escape that can be read the same is read. -/
theorem Longer.readEscape {next : Char × Nat → Option (List Char × List Char)}
    {after : Char × Nat → Option (List Char × List Char)}
    (hnext : ∀ escape, Longer more id (next escape) (after escape)) :
    Longer more id (Toml.readEscape s >>= next) (Toml.readEscape (s ++ more) >>= after) := by
  intro text rest hread
  obtain ⟨escape, hescape, hread⟩ := Option.bind_eq_some_iff.mp hread
  rw [readEscape_append hescape more]
  exact hnext escape text rest hread

theorem readBasic_append (skip : Nat) (hbounded : Bounded more s) :
    Longer more id (readBasic skip s) (readBasic skip (s ++ more)) := by
  induction s generalizing skip with
  | nil =>
      rw [readBasic]
      exact .none
  | cons c cs ih =>
      have htail : ∀ skip, Longer more id (readBasic skip cs) (readBasic skip (cs ++ more)) := by
        intro skip
        by_cases hcs : cs = []
        · rw [hcs, readBasic]
          exact .none
        · exact ih skip (hbounded.tail hcs)
      cases skip with
      | succ skip =>
          rw [List.cons_append, readBasic, readBasic]
          exact htail skip
      | zero =>
          rw [List.cons_append, readBasic, readBasic]
          refine .ite (fun hquote => ?_) fun _ => .ite (fun _ => ?_) fun _ => .ite (fun _ => .none) fun _ => ?_
          · exact .some (hbounded.of_cons (by rw [hquote]; decide)) rfl
          · exact .readEscape fun escape => (htail _).cons _
          · exact (htail 0).cons c

theorem readLiteral_append (hbounded : Bounded more s) :
    Longer more id (readLiteral s) (readLiteral (s ++ more)) := by
  induction s with
  | nil => exact .none
  | cons c cs ih =>
      rw [List.cons_append, readLiteral, readLiteral]
      refine .ite (fun hquote => ?_) fun _ => .ite (fun _ => .none) fun hcontrol => ?_
      · exact .some (hbounded.of_cons (by rw [hquote]; decide)) rfl
      · refine (ih (hbounded.of_cons ?_)).cons c
        rintro rfl
        exact hcontrol (by decide)

/-- Three quotes and those that belong to the string are all there before the text ends. -/
theorem closing?_append {quote : Char} (hquote : quote ≠ '\n') (hbounded : Bounded more s) :
    closing? quote (s ++ more) = (closing? quote s).map fun ending => (ending.1, ending.2 ++ more) := by
  rcases hbounded with rfl | hlast
  · simp
  -- No more than five characters are looked at. If there are fewer, the last is a newline and ends the quotes.
  match s with
  | [] => cases hlast
  | [a] =>
      obtain rfl := Option.some.inj hlast
      rcases more with _ | ⟨b, _ | ⟨c, more⟩⟩ <;> simp [closing?, hquote.symm]
  | [a, b] =>
      obtain rfl := Option.some.inj hlast
      rcases more with _ | ⟨c, more⟩ <;> simp [closing?, hquote.symm]
  | [a, b, c] =>
      obtain rfl := Option.some.inj hlast
      simp [closing?, hquote.symm]
  | [a, b, c, d] =>
      obtain rfl := Option.some.inj hlast
      by_cases hopen : a = quote ∧ b = quote ∧ c = quote
      · rcases more with _ | ⟨e, more⟩ <;> simp [closing?, hopen, hquote.symm]
      · simp [closing?, and_assoc, hopen]
  | a :: b :: c :: d :: e :: unread =>
      by_cases hopen : a = quote ∧ b = quote ∧ c = quote
      · by_cases hd : d = quote
        · by_cases he : e = quote <;> simp [closing?, hopen, hd, he]
        · simp [closing?, hopen, hd]
      · simp [closing?, and_assoc, hopen]

/-- What is left behind the closing quotes. -/
theorem exists_of_closing? {quote : Char} (hclosing : closing? quote s = some (text, rest)) :
    ∃ front, s = front ++ quote :: rest := by
  match s with
  | [] | [_] | [_, _] => simp [closing?] at hclosing
  | a :: b :: c :: unread =>
      by_cases hopen : a = quote ∧ b = quote ∧ c = quote
      · obtain ⟨rfl, rfl, rfl⟩ := hopen
        rcases unread with _ | ⟨d, _ | ⟨e, unread⟩⟩
        · simp [closing?] at hclosing
          exact ⟨[c, c], by simp [hclosing.2]⟩
        · by_cases hd : d = c
          · simp [closing?, hd] at hclosing
            exact ⟨[c, c, c], by simp [hd, hclosing.2]⟩
          · simp [closing?, hd] at hclosing
            exact ⟨[c, c], by simp [hclosing.2]⟩
        · by_cases hd : d = c
          · by_cases he : e = c
            · simp [closing?, hd, he] at hclosing
              exact ⟨[c, c, c, c], by simp [hd, he, hclosing.2]⟩
            · simp [closing?, hd, he] at hclosing
              exact ⟨[c, c, c], by simp [hd, hclosing.2]⟩
          · simp [closing?, hd] at hclosing
            exact ⟨[c, c], by simp [hclosing.2]⟩
      · simp [closing?, and_assoc, hopen] at hclosing

/-- The end of a string on several lines, or what is read where it does not end. -/
theorem Longer.closing? {quote : Char} {read longer : Option (List Char × List Char)} (hquote : quote ≠ '\n')
    (hbounded : Bounded more s) (hread : Toml.closing? quote s = Option.none → Longer more id read longer) :
    Longer more id
      (match Toml.closing? quote s with
        | Option.some ending => Option.some ending
        | Option.none => read)
      (match Toml.closing? quote (s ++ more) with
        | Option.some ending => Option.some ending
        | Option.none => longer) := by
  rw [closing?_append hquote hbounded]
  cases hclosing : Toml.closing? quote s with
  | none => exact hread hclosing
  | some ending =>
      obtain ⟨front, rfl⟩ := exists_of_closing? hclosing
      exact .some ((hbounded.behind _ (List.cons_ne_nil _ _)).of_cons hquote) rfl

theorem blankRun_append (hbounded : Bounded more s) (hblanks : blankRun s ≠ s) :
    blankRun (s ++ more) = blankRun s := by
  have hnil : ∀ {cs}, blankRun cs ≠ cs → cs ≠ [] := by
    rintro cs hcs rfl
    exact hcs rfl
  induction s using blankRun.induct with
  | case1 => exact absurd rfl hblanks
  | case2 cs ih =>
      have hcs : blankRun cs ≠ cs := fun heq => hblanks (by rw [blankRun, heq])
      rw [List.cons_append, List.cons_append, blankRun, blankRun,
        ih (hbounded.behind ['\r', '\n'] (hnil hcs)) hcs]
  | case3 c cs hbreak hblank ih =>
      have hcs : blankRun cs ≠ cs := fun heq => hblanks (by rw [blankRun.eq_3 _ _ hbreak, if_pos hblank, heq])
      rw [List.cons_append, blankRun.eq_3 _ _ hbreak, if_pos hblank,
        blankRun.eq_3 _ _ (hbounded.no_break hbreak), if_pos hblank, ih (hbounded.tail (hnil hcs)) hcs]
  | case4 c cs hbreak hblank =>
      rw [List.cons_append, blankRun.eq_3 _ _ hbreak, if_neg hblank,
        blankRun.eq_3 _ _ (hbounded.no_break hbreak), if_neg hblank]

/-- Blanks without a newline end in front of the newline that ends the text. -/
theorem blankRun_append_of_notMem (hbounded : Bounded more s) (hblanks : '\n' ∉ blankRun s) :
    blankRun (s ++ more) = blankRun s := by
  rcases hbounded with rfl | hlast
  · rw [List.append_nil]
  · refine blankRun_append (Or.inr hlast) fun heq => hblanks ?_
    rw [heq]
    exact List.mem_of_getLast? hlast

theorem isAllowedBefore_append (hbounded : Bounded more (c :: cs)) :
    isAllowedBefore c (cs ++ more) = isAllowedBefore c cs := by
  by_cases hc : c = '\n'
  · simp [isAllowedBefore, hc]
  · rw [isAllowedBefore, isAllowedBefore, (hbounded.of_cons hc).head?_append]

/-- Nothing is read if everything is left out. -/
theorem readMultiBasic_length (s : List Char) : readMultiBasic s.length s = none := by
  induction s with
  | nil => rw [readMultiBasic]
  | cons c cs ih => rw [List.length_cons, readMultiBasic, ih]

theorem readMultiBasic_append (skip : Nat) (hbounded : Bounded more s) :
    Longer more id (readMultiBasic skip s) (readMultiBasic skip (s ++ more)) := by
  induction s generalizing skip with
  | nil =>
      rw [readMultiBasic]
      exact .none
  | cons c cs ih =>
      have htail : ∀ skip, Longer more id (readMultiBasic skip cs) (readMultiBasic skip (cs ++ more)) := by
        intro skip
        by_cases hcs : cs = []
        · rw [hcs, readMultiBasic]
          exact .none
        · exact ih skip (hbounded.tail hcs)
      cases skip with
      | succ skip =>
          rw [List.cons_append, readMultiBasic, readMultiBasic]
          exact htail skip
      | zero =>
          rw [List.cons_append, readMultiBasic, readMultiBasic, ← List.cons_append]
          refine .closing? (by decide) hbounded fun _ => .ite (fun hbackslash => ?_) fun _ => ?_
          · have hcs := hbounded.of_cons (by rw [hbackslash]; decide)
            by_cases hblanks : '\n' ∈ blankRun cs
            -- If all that is left is blank, the string does not end here, and may end behind it.
            · by_cases hall : blankRun cs = cs
              · rw [hall] at hblanks
                simp only [hall, hblanks, if_true, readMultiBasic_length]
                exact .none
              · simp only [blankRun_append hcs hall, hblanks, if_true]
                exact htail _
            · simp only [blankRun_append_of_notMem hcs hblanks, hblanks, if_false]
              exact .readEscape fun escape => (htail _).cons _
          · rw [isAllowedBefore_append hbounded]
            exact .ite (fun _ => (htail 0).cons c) fun _ => .none

theorem readMultiLiteral_append (hbounded : Bounded more s) :
    Longer more id (readMultiLiteral s) (readMultiLiteral (s ++ more)) := by
  induction s with
  | nil => exact .none
  | cons c cs ih =>
      rw [List.cons_append, readMultiLiteral, readMultiLiteral, ← List.cons_append]
      refine .closing? (by decide) hbounded fun _ => ?_
      rw [isAllowedBefore_append hbounded]
      refine .ite (fun _ => ?_) fun _ => .none
      by_cases hcs : cs = []
      · rw [hcs]
        exact .none
      · exact (ih (hbounded.tail hcs)).cons c

theorem skipNewline_append (hbounded : Bounded more s) :
    skipNewline (s ++ more) = skipNewline s ++ more ∧
      (skipNewline s ≠ [] → Bounded more (skipNewline s)) := by
  rw [skipNewline.eq_def s]
  split
  · next cs => exact ⟨by rw [List.cons_append, skipNewline], hbounded.tail⟩
  · next cs =>
      exact ⟨by rw [List.cons_append, List.cons_append, skipNewline], hbounded.behind ['\r', '\n']⟩
  · next hnewline hreturn =>
      refine ⟨?_, fun _ => hbounded⟩
      cases s with
      | nil =>
          rw [Bounded.nil_iff.mp hbounded]
          rfl
      | cons c cs =>
          have hbreak : ∀ ds, c = '\r' → cs = '\n' :: ds → False := by
            rintro ds rfl rfl
            exact hreturn ds rfl
          rw [List.cons_append, skipNewline.eq_3]
          · rintro ds hds
            exact hnewline cs (by rw [(List.cons.inj hds).1])
          · rintro ds hds
            obtain ⟨hc, hcs⟩ := List.cons.inj hds
            exact hbounded.no_break hbreak ds hc hcs

/-- Reading behind opening quotes, from which a newline is left out. -/
theorem Longer.skipNewline {reader : List Char → Option (List Char × List Char)}
    (hnil : reader [] = Option.none)
    (hreader : ∀ s, Bounded more s → Longer more id (reader s) (reader (s ++ more)))
    (hbounded : Bounded more s) :
    Longer more id (reader (Toml.skipNewline s)) (reader (Toml.skipNewline (s ++ more))) := by
  obtain ⟨happend, hskipped⟩ := skipNewline_append hbounded
  rw [happend]
  by_cases hs : Toml.skipNewline s = []
  · rw [hs, hnil]
    exact .none
  · exact hreader _ (hskipped hs)

theorem readString_append (hbounded : Bounded more s) :
    Longer more id (readString s) (readString (s ++ more)) := by
  rw [readString.eq_def s]
  split
  · next cs =>
      have hcs := ((hbounded.of_cons (by decide)).of_cons (by decide)).of_cons (by decide)
      exact .skipNewline (by rw [readMultiBasic]) (fun _ => readMultiBasic_append 0) hcs
  · next cs hmulti =>
      have hcs := hbounded.of_cons (by decide)
      have hmore := hcs.not_starts ['"', '"'] (by decide) hmulti
      rw [List.cons_append, readString.eq_2 _ hmore]
      exact readBasic_append 0 hcs
  · next cs =>
      have hcs := ((hbounded.of_cons (by decide)).of_cons (by decide)).of_cons (by decide)
      exact .skipNewline rfl (fun _ => readMultiLiteral_append) hcs
  · next cs hmulti =>
      have hcs := hbounded.of_cons (by decide)
      have hmore := hcs.not_starts ['\'', '\''] (by decide) hmulti
      rw [List.cons_append, readString.eq_4 _ hmore]
      exact readLiteral_append hcs
  · exact .none

end EntityClasses.Toml
