import EntityClasses.Proofs.Text.Search
import EntityClasses.Proofs.Toml.BoundedStrings
import EntityClasses.Proofs.Toml.Unplaced

/-! What stands in front of more text is read as if it stood alone. Only the places of keys and values change,
and room for more items does no harm. -/

namespace EntityClasses.Toml

open Text

variable {more s rest cs : List Char} {c : Char}

/-- Readers that read the same, up to places, off a text and off one that is longer. -/
def Agrees {α β : Type} (more : List Char) (image : α → β) (reader other : Reader α) : Prop :=
  ∀ s, Bounded more s → Longer more image (reader s) (other (s ++ more))

/-- The name in one part of a key. -/
def readName : Reader (List Char)
  | '"' :: cs => readBasic 0 cs
  | '\'' :: cs => readLiteral cs
  | s =>
    match s.takeWhile isBare with
    | [] => none
    | name => some (name, s.dropWhile isBare)

theorem readKey_eq (total : Nat) (s : List Char) :
    readKey total s = (readName s).map fun read =>
      (⟨String.ofList read.1, Span.between total s read.2⟩, read.2) := by
  rw [readKey.eq_def]
  split
  · rw [readName, Option.map_eq_bind]
    rfl
  · rw [readName, Option.map_eq_bind]
    rfl
  · next hbasic hliteral =>
      rw [readName.eq_3 s hbasic hliteral]
      cases s.takeWhile isBare <;> rfl

section Keys

theorem readName_agrees : Agrees more id readName readName := by
  intro s hbounded
  rw [readName.eq_def s]
  split
  · next cs => exact readBasic_append 0 (hbounded.of_cons (by decide))
  · next cs => exact readLiteral_append (hbounded.of_cons (by decide))
  · next hbasic hliteral =>
      rw [readName.eq_3 _ (hbounded.not_starts ['"'] (by decide) hbasic)
          (hbounded.not_starts ['\''] (by decide) hliteral), hbounded.takeWhile (by decide),
        (hbounded.dropWhile (by decide)).1]
      split
      · exact .none
      · exact .some (hbounded.dropWhile (by decide)).2 rfl

theorem readKey_agrees (total total' : Nat) :
    Agrees more Key.unplaced (readKey total) (readKey total') := by
  intro s hbounded
  rw [readKey_eq, readKey_eq, Option.map_eq_bind, Option.map_eq_bind]
  refine (readName_agrees s hbounded).bind fun name other rest himage hrest => ?_
  obtain rfl : other = name := himage
  exact .some hrest rfl

theorem readPath_agrees (total total' limit : Nat) :
    Agrees more (Prod.map (List.map Key.unplaced) Key.unplaced) (readPath total limit)
      (readPath total' limit) := by
  induction limit with
  | zero => exact fun s _ => .none
  | succ limit ih =>
      intro s hbounded
      rw [readPath, readPath]
      refine (readKey_agrees total total' s hbounded).bind fun key other rest hkey hrest => ?_
      obtain ⟨happend, hspace⟩ := hrest.skipSpace
      simp only [happend]
      cases hs : skipSpace rest with
      | nil =>
          -- Nothing follows a text without a newline.
          rw [hs, Bounded.nil_iff] at hspace
          subst hspace
          exact .some (Or.inl rfl : Bounded [] []) (congrArg (Prod.mk []) hkey)
      | cons d ds =>
          rw [hs] at hspace
          by_cases hdot : d = '.'
          · subst hdot
            obtain ⟨hmore, hskipped⟩ := (hspace.of_cons (by decide)).skipSpace
            simp only [List.cons_append, hmore]
            refine (ih _ hskipped).bind fun path otherPath rest himage hrest => ?_
            obtain ⟨hfront, hlast⟩ := Prod.mk.inj himage
            refine .some hrest ?_
            simp [hkey, hfront, hlast]
          · simp only [List.cons_append]
            split
            · next heq => exact absurd (List.cons.inj heq).1 hdot
            · split
              · next heq => exact absurd (List.cons.inj heq).1 hdot
              · exact Longer.some hspace (congrArg (Prod.mk []) hkey)

end Keys

section Leaves

theorem startsWord_append (hbounded : Bounded more s) : startsWord (s ++ more) = startsWord s := by
  cases s with
  | nil => rw [Bounded.nil_iff.mp hbounded, List.append_nil]
  | cons c cs => rfl

theorem takeWords_append (hbounded : Bounded more s) :
    takeWords (s ++ more) = ((takeWords s).1, (takeWords s).2 ++ more) ∧
      Bounded more (takeWords s).2 := by
  induction s with
  | nil =>
      obtain rfl := Bounded.nil_iff.mp hbounded
      exact ⟨rfl, hbounded⟩
  | cons c cs ih =>
      rw [List.cons_append, takeWords, takeWords]
      by_cases hc : c = '\n'
      · have hstops : ∀ cs, (isWordChar c || (isSpace c && startsWord (skipSpace cs))) = false := by
          intro cs
          rw [hc]
          rfl
        rw [hstops, hstops]
        exact ⟨rfl, hbounded⟩
      · have hcs := hbounded.of_cons hc
        rw [hcs.skipSpace.1, startsWord_append hcs.skipSpace.2]
        split
        · obtain ⟨hmore, hrest⟩ := ih hcs
          rw [hmore]
          exact ⟨rfl, hrest⟩
        · exact ⟨rfl, hbounded⟩

theorem scalar?_unplaced (span place : Span) (s : List Char) :
    (scalar? span s).map Value.unplaced = (scalar? place s).map Value.unplaced := by
  rw [scalar?, scalar?]
  repeat' split
  all_goals rfl

theorem readScalar_agrees (total total' : Nat) :
    Agrees more Value.unplaced (readScalar total) (readScalar total') := by
  intro s hbounded value rest hread
  obtain ⟨hmore, hrest⟩ := takeWords_append hbounded
  rw [readScalar] at hread
  obtain ⟨read, hvalue, heq⟩ := Option.map_eq_some_iff.mp hread
  obtain ⟨rfl, rfl⟩ := Prod.mk.inj heq
  have hsame := scalar?_unplaced (Span.between total s (takeWords s).2)
    (Span.between total' (s ++ more) ((takeWords s).2 ++ more)) (takeWords s).1
  rw [hvalue, Option.map_some] at hsame
  obtain ⟨other, hother, himage⟩ := Option.map_eq_some_iff.mp hsame.symm
  refine ⟨other, ?_, himage, hrest⟩
  rw [readScalar, hmore]
  exact Option.map_eq_some_iff.mpr ⟨other, hother, rfl⟩

theorem readLeaf_agrees (total total' : Nat) :
    Agrees more Value.unplaced (readLeaf total) (readLeaf total') := by
  intro s hbounded
  rw [readLeaf, readLeaf, hbounded.head?_append]
  refine .ite (fun _ => ?_) fun _ => readScalar_agrees total total' s hbounded
  refine (readString_append hbounded).bind fun text other rest himage hrest => ?_
  obtain rfl : other = text := himage
  exact .some hrest rfl

end Leaves

section Entries

/-- Reads entries with commas between them up to a closing bracket, at most `fuel` of them. -/
def readEntries {α : Type} (closing : Char) (entry : Reader α) (fuel : Nat) (s : List Char) :
    Option (List α × List Char) :=
  match skipFiller false s with
  | [] => none
  | c :: cs =>
    if c = closing then some ([], cs)
    else
      match fuel with
      | 0 => none
      | fuel + 1 => do
        let (a, rest) ← entry (c :: cs)
        match skipFiller false rest with
        | [] => none
        | c :: cs =>
          if c = ',' then do
            let (as, rest) ← readEntries closing entry fuel cs
            pure (a :: as, rest)
          else if c = closing then some ([a], cs)
          else none

theorem readItems_eq {item : Reader Value} (hnil : item [] = none) (fuel : Nat) (s : List Char) :
    readItems item fuel s = readEntries ']' item fuel s := by
  induction fuel generalizing s with
  | zero =>
      rw [readItems.eq_def, readEntries.eq_def]
      rcases skipFiller false s with _ | ⟨c, cs⟩
      · rfl
      by_cases hc : c = ']' <;> simp [hc]
  | succ fuel ih =>
      rw [readItems.eq_def, readEntries.eq_def]
      rcases skipFiller false s with _ | ⟨c, cs⟩
      · simp [hnil]
      by_cases hc : c = ']'
      · simp [hc]
      simp only [hc, if_false, List.cons.injEq, false_and, false_implies, implies_true]
      refine congrArg (item (c :: cs) >>= ·) (funext fun read => ?_)
      rcases skipFiller false read.2 with _ | ⟨d, ds⟩
      · rfl
      by_cases hcomma : d = ','
      · simp [hcomma, ih]
      · by_cases hd : d = ']' <;> simp [hcomma, hd]

theorem readAssignments_eq {total : Nat} {item : Reader Value} (fuel : Nat) (s : List Char) :
    readAssignments total item fuel s =
      readEntries '\x7d' (readAssignment total item (skipFiller false)) fuel s := by
  induction fuel generalizing s with
  | zero =>
      rw [readAssignments.eq_def, readEntries.eq_def]
      rcases skipFiller false s with _ | ⟨c, cs⟩
      · rfl
      by_cases hc : c = '\x7d' <;> simp [hc]
  | succ fuel ih =>
      rw [readAssignments.eq_def, readEntries.eq_def]
      rcases skipFiller false s with _ | ⟨c, cs⟩
      · rfl
      by_cases hc : c = '\x7d'
      · simp [hc]
      simp only [hc, if_false, List.cons.injEq, false_and, false_implies, implies_true]
      refine congrArg (readAssignment total item (skipFiller false) (c :: cs) >>= ·)
        (funext fun read => ?_)
      rcases skipFiller false read.2 with _ | ⟨d, ds⟩
      · rfl
      by_cases hcomma : d = ','
      · simp [hcomma, ih]
      · by_cases hd : d = '\x7d' <;> simp [hcomma, hd]

/-- Reading on behind what says nothing, where something must follow. -/
theorem Longer.skipFiller {α β : Type} {image : α → β}
    {next after : Char → List Char → Option (α × List Char)} (hbounded : Bounded more s)
    (hnext : ∀ c cs, Bounded more (c :: cs) → Longer more image (next c cs) (after c (cs ++ more))) :
    Longer more image
      (match Toml.skipFiller false s with
        | [] => Option.none
        | c :: cs => next c cs)
      (match Toml.skipFiller false (s ++ more) with
        | [] => Option.none
        | c :: cs => after c cs) := by
  cases hs : Toml.skipFiller false s with
  | nil => exact .none
  | cons c cs =>
      obtain ⟨happend, hrest⟩ := hbounded.skipFiller (by rw [hs]; exact List.cons_ne_nil c cs)
      rw [hs] at happend hrest
      rw [happend]
      exact hnext c cs hrest

theorem readEntries_agrees {α β : Type} {image : α → β} {closing : Char} {entry other : Reader α}
    (hclosing : closing ≠ '\n') (hentry : Agrees more image entry other) {fuel fuel' : Nat}
    (hfuel : fuel ≤ fuel') :
    Agrees more (List.map image) (readEntries closing entry fuel) (readEntries closing other fuel') := by
  have hends : ∀ {c cs}, c = closing → Bounded more (c :: cs) → Bounded more cs :=
    fun hc hcs => hcs.of_cons (hc ▸ hclosing)
  induction fuel generalizing fuel' with
  | zero =>
      intro s hbounded
      rw [readEntries.eq_def, readEntries.eq_def]
      exact .skipFiller hbounded fun c cs hcs => .ite (fun hc => .some (hends hc hcs) rfl) fun _ => .none
  | succ fuel ih =>
      obtain ⟨fuel', rfl⟩ := Nat.exists_eq_succ_of_ne_zero (Nat.ne_zero_of_lt hfuel)
      intro s hbounded
      rw [readEntries.eq_def, readEntries.eq_def]
      refine .skipFiller hbounded fun c cs hcs => .ite (fun hc => .some (hends hc hcs) rfl) fun _ => ?_
      refine (hentry _ hcs).bind fun a b rest ha hrest => .skipFiller hrest fun c cs hcs => ?_
      refine .ite (fun hc => ?_) fun _ => .ite (fun hc => ?_) fun _ => .none
      · refine (ih (Nat.le_of_succ_le_succ hfuel) cs (hcs.of_cons ?_)).bind fun as bs rest has hrest => ?_
        · rw [hc]
          decide
        · exact .some hrest (by rw [List.map_cons, List.map_cons, ha, has])
      · exact .some (hends hc hcs) (by rw [List.map_singleton, List.map_singleton, ha])

end Entries

section Values

/-- What is passed over leaves the same behind it, if it leaves anything. -/
def Skips (more : List Char) (skip : List Char → List Char) : Prop :=
  ∀ s, Bounded more s → skip s ≠ [] → skip (s ++ more) = skip s ++ more ∧ Bounded more (skip s)

theorem skips_skipSpace : Skips more skipSpace :=
  fun _ hbounded _ => hbounded.skipSpace

theorem skips_skipFiller : Skips more (skipFiller false) :=
  fun _ hbounded hsome => hbounded.skipFiller hsome

theorem Longer.skip? {α β : Type} {image : α → β} {next after : List Char → Option (α × List Char)}
    (hc : c ≠ '\n') (hbounded : Bounded more s)
    (hnext : ∀ rest, Bounded more rest → Longer more image (next rest) (after (rest ++ more))) :
    Longer more image (Toml.skip? c s >>= next) (Toml.skip? c (s ++ more) >>= after) := by
  cases s with
  | nil => exact .none
  | cons d ds =>
      by_cases hd : d = c
      · simp only [List.cons_append, Toml.skip?, hd, if_true]
        exact hnext ds (hbounded.of_cons (hd ▸ hc))
      · simp only [List.cons_append, Toml.skip?, hd, if_false]
        exact .none

variable {item other : Reader Value}

theorem readAssignment_agrees (total total' : Nat) (hnil : item [] = none)
    (hitem : Agrees more Value.unplaced item other) {skip : List Char → List Char}
    (hskip : Skips more skip) :
    Agrees more Assignment.unplaced (readAssignment total item skip) (readAssignment total' other skip) := by
  intro s hbounded
  rw [readAssignment, readAssignment]
  refine (readPath_agrees total total' maxDepth s hbounded).bind fun path otherPath rest hpath hrest => ?_
  obtain ⟨front, key⟩ := path
  obtain ⟨otherFront, otherKey⟩ := otherPath
  obtain ⟨hfront, hkey⟩ := Prod.mk.inj hpath
  dsimp only
  by_cases hsign : skip rest = []
  · rw [hsign]
    exact .none
  obtain ⟨happend, hskipped⟩ := hskip rest hrest hsign
  rw [happend]
  refine .skip? (by decide) hskipped fun rest hrest => ?_
  by_cases hvalue : skip rest = []
  · rw [hvalue, hnil]
    exact .none
  obtain ⟨happend, hskipped⟩ := hskip rest hrest hvalue
  rw [happend]
  refine (hitem _ hskipped).bind fun value otherValue rest hvalue hrest => ?_
  exact .some hrest (by simp [Assignment.unplaced, hfront, hkey, hvalue])

theorem readValue_nil (total fuel depth : Nat) : readValue total fuel depth [] = none := by
  cases depth <;> rfl

theorem readValue_agrees (total total' : Nat) {fuel fuel' : Nat} (hfuel : fuel ≤ fuel') (depth : Nat) :
    Agrees more Value.unplaced (readValue total fuel depth) (readValue total' fuel' depth) := by
  induction depth with
  | zero =>
      intro s hbounded
      rw [readValue, readValue, hbounded.head?_append]
      exact .ite (fun _ => .none) fun _ => readLeaf_agrees total total' s hbounded
  | succ depth ih =>
      intro s hbounded
      rw [readValue.eq_def]
      dsimp only
      split
      · next cs =>
          rw [List.cons_append, readValue.eq_2, readItems_eq (readValue_nil total fuel depth),
            readItems_eq (readValue_nil total' fuel' depth)]
          refine (readEntries_agrees (by decide) ih hfuel cs (hbounded.of_cons (by decide))).bind
            fun items others rest hitems hrest => .some hrest ?_
          rw [Value.unplaced_array, Value.unplaced_array, hitems]
      · next cs =>
          rw [List.cons_append, readValue.eq_3, readAssignments_eq, readAssignments_eq]
          have hassignment := readAssignment_agrees total total' (readValue_nil total fuel depth) ih
            skips_skipFiller
          refine (readEntries_agrees (by decide) hassignment hfuel cs (hbounded.of_cons (by decide))).bind
            fun assignments others rest hassignments hrest => ?_
          intro value left hread
          obtain ⟨entries, hentries, heq⟩ := Option.bind_eq_some_iff.mp hread
          obtain ⟨rfl, rfl⟩ := Prod.mk.inj (Option.some.inj heq)
          have htable := inlineTable?_unplaced others
          rw [hassignments, ← inlineTable?_unplaced, hentries] at htable
          obtain ⟨otherEntries, hother, hsame⟩ := Option.map_eq_some_iff.mp htable
          refine ⟨_, Option.bind_eq_some_iff.mpr ⟨otherEntries, hother, rfl⟩, ?_, hrest⟩
          rw [Value.unplaced_table, Value.unplaced_table, hsame]
      · next harray htable =>
          rw [readValue.eq_4 _ _ _ _ (hbounded.not_starts ['['] (by decide) harray)
            (hbounded.not_starts ['\x7b'] (by decide) htable)]
          exact readLeaf_agrees total total' s hbounded

end Values

section Lines

/-- What ends a line behind its spaces and its comment. -/
def lineEnd (s : List Char) : List Char :=
  match skipSpace s with
  | '#' :: cs => cs.dropWhile (!isControl ·)
  | rest => rest

theorem endLine_eq (s : List Char) :
    endLine s =
      match lineEnd s with
      | [] => some []
      | '\n' :: rest => some rest
      | '\r' :: '\n' :: rest => some rest
      | _ => none :=
  rfl

theorem lineEnd_append (hbounded : Bounded more s) :
    lineEnd (s ++ more) = lineEnd s ++ more ∧ Bounded more (lineEnd s) := by
  obtain ⟨happend, hspace⟩ := hbounded.skipSpace
  rw [lineEnd, lineEnd, happend]
  generalize skipSpace s = line at hspace
  rcases line with _ | ⟨c, cs⟩
  · obtain rfl := Bounded.nil_iff.mp hspace
    exact ⟨rfl, hspace⟩
  by_cases hc : c = '#'
  · subst hc
    exact (hspace.of_cons (by decide)).dropWhile (by decide)
  · simp only [List.cons_append, List.cons.injEq, hc, false_and, false_implies, implies_true]
    exact ⟨trivial, hspace⟩

/-- The rest of a line ends with its newline, behind which there need not be anything. -/
theorem endLine_append (hbounded : Bounded more s) (hend : endLine s = some rest) :
    endLine (s ++ more) = some (rest ++ more) ∧ (rest = [] ∨ Bounded more rest) := by
  obtain ⟨happend, hends⟩ := lineEnd_append hbounded
  rw [endLine_eq] at hend ⊢
  rw [happend]
  split at hend
  · next hnil =>
      rw [hnil, Bounded.nil_iff] at hends
      obtain rfl := Option.some.inj hend
      rw [hnil, hends]
      exact ⟨rfl, Or.inl rfl⟩
  · next cs hcs =>
      obtain rfl := Option.some.inj hend
      rw [hcs] at hends ⊢
      exact ⟨rfl, or_iff_not_imp_left.mpr hends.tail⟩
  · next cs hcs =>
      obtain rfl := Option.some.inj hend
      rw [hcs] at hends ⊢
      exact ⟨rfl, or_iff_not_imp_left.mpr (hends.behind ['\r', '\n'])⟩
  · cases hend

/-- Reads a header without the rest of its line. -/
def readHeading (total : Nat) (s : List Char) : Option (Section × List Char) := do
  let isRepeated := (dropStart? ['[', '['] s).isSome
  let ((path, key), rest) ← readPath total maxDepth (skipSpace (s.drop (if isRepeated then 2 else 1)))
  let rest ← skip? ']' rest
  if isRepeated then do
    let rest ← skip? ']' rest
    pure (⟨path, key, isRepeated, Span.between total s rest, []⟩, rest)
  else pure (⟨path, key, isRepeated, Span.between total s rest, []⟩, rest)

theorem readHeader_eq (total : Nat) (s : List Char) :
    readHeader total s = readHeading total s >>= fun read => (endLine read.2).map (read.1, ·) := by
  rw [readHeader, readHeading]
  simp only [bind_assoc]
  refine congrArg (readPath total maxDepth _ >>= ·) (funext fun path => ?_)
  refine congrArg (skip? ']' path.2 >>= ·) (funext fun rest => ?_)
  split
  · simp only [bind_assoc, pure_bind]
    refine congrArg (skip? ']' rest >>= ·) (funext fun rest => ?_)
    rw [Option.map_eq_bind]
    rfl
  · rw [pure_bind, Option.map_eq_bind]
    rfl

theorem isSome_dropStart?_append {word : List Char} (hword : '\n' ∉ word) (hbounded : Bounded more s) :
    (dropStart? word (s ++ more)).isSome = (dropStart? word s).isSome := by
  have hstarts : ∀ s, (dropStart? word s).isSome ↔ word <+: s := by
    intro s
    simp [Option.isSome_iff_exists, dropStart?_eq_some_iff, List.prefix_iff_exists_eq_append]
  rw [Bool.eq_iff_iff, hstarts, hstarts]
  exact ⟨hbounded.isPrefix hword, fun hstarts => hstarts.trans (List.prefix_append s more)⟩

/-- The brackets that open a header are all there before the text ends. -/
theorem drop_brackets (hbounded : Bounded more ('[' :: s)) :
    ∃ body, Bounded more body ∧
      ('[' :: s).drop (if (dropStart? ['[', '['] ('[' :: s)).isSome then 2 else 1) = body ∧
      ('[' :: s ++ more).drop (if (dropStart? ['[', '['] ('[' :: s)).isSome then 2 else 1) =
        body ++ more := by
  have hs := hbounded.of_cons (by decide)
  cases hrepeated : dropStart? ['[', '['] ('[' :: s) with
  | none => exact ⟨s, hs, rfl, rfl⟩
  | some body =>
      obtain rfl : s = '[' :: body := (List.cons.inj (dropStart?_eq_some_iff.mp hrepeated)).2
      exact ⟨body, hs.of_cons (by decide), rfl, rfl⟩

theorem readHeading_agrees (total total' : Nat) (hbounded : Bounded more ('[' :: s)) :
    Longer more Section.unplaced (readHeading total ('[' :: s)) (readHeading total' ('[' :: s ++ more)) := by
  obtain ⟨body, hbody, hdrop, hdropMore⟩ := drop_brackets hbounded
  obtain ⟨hmore, hspace⟩ := hbody.skipSpace
  rw [readHeading, readHeading, isSome_dropStart?_append (by decide) hbounded, hdrop, hdropMore, hmore]
  refine (readPath_agrees total total' maxDepth _ hspace).bind fun path other rest hpath hrest => ?_
  obtain ⟨front, key⟩ := path
  obtain ⟨otherFront, otherKey⟩ := other
  obtain ⟨hfront, hkey⟩ := Prod.mk.inj hpath
  refine .skip? (by decide) hrest fun rest hrest => .ite (fun _ => ?_) fun _ => ?_
  · refine .skip? (by decide) hrest fun rest hrest => .some hrest ?_
    simp [Section.unplaced, hfront, hkey]
  · refine .some hrest ?_
    simp [Section.unplaced, hfront, hkey]

theorem readHeader_agrees (total total' : Nat) {part : Section}
    (hbounded : Bounded more ('[' :: s)) (hread : readHeader total ('[' :: s) = some (part, rest)) :
    ∃ other, readHeader total' ('[' :: (s ++ more)) = some (other, rest ++ more) ∧
      other.unplaced = part.unplaced ∧ (rest = [] ∨ Bounded more rest) := by
  rw [readHeader_eq] at hread
  obtain ⟨⟨header, line⟩, hheader, hline⟩ := Option.bind_eq_some_iff.mp hread
  obtain ⟨behind, hend, heq⟩ := Option.map_eq_some_iff.mp hline
  obtain ⟨rfl, rfl⟩ := Prod.mk.inj heq
  obtain ⟨other, hother, himage, hbehind⟩ := readHeading_agrees total total' hbounded header line hheader
  obtain ⟨hmore, hrest⟩ := endLine_append hbehind hend
  refine ⟨other, ?_, himage, hrest⟩
  rw [readHeader_eq, ← List.cons_append, hother, Option.bind_eq_bind, Option.bind_some, hmore]
  rfl

/-- What is read of a text: the assignments in front of the first header, and the sections. -/
abbrev Lines := List Assignment × List Section

def Lines.unplaced (lines : Lines) : Lines :=
  (lines.1.map Assignment.unplaced, lines.2.map Section.unplaced)

/-- The first thing that a text says, if it says anything, is a header. -/
def StartsTable (s : List Char) : Prop :=
  ∀ c ∈ (skipFiller false s).head?, c = '['

instance (s : List Char) : Decidable (StartsTable s) :=
  decidable_of_iff ((skipFiller false s).head?.all (· = '[') = true) (by simp [StartsTable, Option.all_eq_true])

variable {item other : Reader Value} {lines : Lines} {fuel : Nat}

/-- What says nothing in front of a text does not matter. -/
theorem readLines_congr (total : Nat) (item : Reader Value) (fuel : Nat) {t : List Char}
    (hfiller : skipFiller false s = skipFiller false t) :
    readLines total item fuel s = readLines total item fuel t := by
  rw [readLines.eq_def, readLines.eq_def total item fuel t, hfiller]

theorem StartsTable.fst_eq_nil {total : Nat} (hstarts : StartsTable s)
    (hread : readLines total item fuel s = some lines) : lines.1 = [] := by
  rw [StartsTable] at hstarts
  cases hs : skipFiller false s with
  | nil =>
      rw [readLines.eq_1 _ _ _ _ hs] at hread
      exact (Option.some.inj hread) ▸ rfl
  | cons c cs =>
      obtain rfl : c = '[' := by simpa [hs] using hstarts
      cases fuel with
      | zero =>
          rw [readLines.eq_2 _ _ _ (by simp [hs])] at hread
          cases hread
      | succ fuel =>
          rw [readLines.eq_3 _ _ _ _ _ hs] at hread
          obtain ⟨_, _, hread⟩ := Option.bind_eq_some_iff.mp hread
          obtain ⟨_, _, hread⟩ := Option.bind_eq_some_iff.mp hread
          exact (Option.some.inj hread) ▸ rfl

theorem StartsTable.map_snd (total : Nat) (hstarts : StartsTable s) (item : Reader Value) (fuel : Nat) :
    (readLines total item fuel s).map (fun lines => ([], lines.2)) = readLines total item fuel s := by
  cases hread : readLines total item fuel s with
  | none => rfl
  | some lines => rw [Option.map_some, ← hstarts.fst_eq_nil hread]

/-- In `steps` steps these lines are read off a text, whatever table follows it: the same lines up to their
places, and then what follows, with the room that is left. -/
def ReadsBefore (item : Reader Value) (lines : Lines) (steps : Nat) (s : List Char) : Prop :=
  ∀ (more : List Char) (total : Nat) (other : Reader Value), Agrees more Value.unplaced item other →
    StartsTable more → (s = [] ∨ Bounded more s) →
    ∃ front : Lines, front.unplaced = lines.unplaced ∧ ∀ room,
      readLines total other (steps + room) (s ++ more) =
        (readLines total other room more).map fun back => (front.1, front.2 ++ back.2)

theorem readsBefore_nothing (item : Reader Value) (hs : skipFiller false s = []) :
    ReadsBefore item ([], []) 0 s := by
  intro more total other _ hmore hbounded
  have hskipped : skipFiller false (s ++ more) = skipFiller false more := by
    rcases hbounded with rfl | hbounded
    · rw [List.nil_append]
    · exact hbounded.skipFiller_of_nil hs
  refine ⟨([], []), rfl, fun room => ?_⟩
  rw [Nat.zero_add, readLines_congr _ _ _ hskipped]
  exact (hmore.map_snd total other room).symm

/-- What is left in front of more text once the filler is gone. -/
theorem skipFiller_of_bounded (hbounded : s = [] ∨ Bounded more s)
    (hs : skipFiller false s = c :: cs) :
    skipFiller false (s ++ more) = c :: (cs ++ more) ∧ Bounded more (c :: cs) := by
  have hsome : skipFiller false s ≠ [] := by
    rw [hs]
    exact List.cons_ne_nil c cs
  have hbounded : Bounded more s := hbounded.resolve_left fun hnil => hsome (hnil ▸ skipFiller_nil false)
  have hfiller := hbounded.skipFiller hsome
  rwa [hs] at hfiller

theorem ReadsBefore.header {total steps : Nat} {part : Section}
    (hs : skipFiller false s = '[' :: cs) (hread : readHeader total ('[' :: cs) = some (part, rest))
    (hrest : ReadsBefore item lines steps rest) :
    ReadsBefore item ([], { part with assignments := lines.1 } :: lines.2) (steps + 1) s := by
  intro more total' other hitem hmore hbounded
  obtain ⟨happend, hheader⟩ := skipFiller_of_bounded hbounded hs
  obtain ⟨otherPart, hother, himage, hline⟩ := readHeader_agrees total total' hheader hread
  obtain ⟨front, hfront, hroom⟩ := hrest more total' other hitem hmore hline
  obtain ⟨hassignments, hsections⟩ := Prod.mk.inj hfront
  refine ⟨([], { otherPart with assignments := front.1 } :: front.2), ?_, fun room => ?_⟩
  · obtain ⟨hpath, hkey, hrepeated, _, _⟩ := Section.mk.inj himage
    simp [Lines.unplaced, Section.unplaced, hpath, hkey, hrepeated, hassignments, hsections]
  · rw [Nat.add_right_comm, readLines.eq_3 _ _ _ _ _ happend, hother, Option.bind_eq_bind,
      Option.bind_some]
    dsimp only
    rw [hroom, Option.bind_eq_bind, Option.bind_map, Option.map_eq_bind]
    rfl

theorem ReadsBefore.assignment {total steps : Nat} {assignment : Assignment} {line : List Char}
    (hnil : item [] = none) (hs : skipFiller false s = c :: cs) (hc : c ≠ '[')
    (hread : readAssignment total item skipSpace (c :: cs) = some (assignment, line))
    (hline : endLine line = some rest) (hrest : ReadsBefore item lines steps rest) :
    ReadsBefore item (assignment :: lines.1, lines.2) (steps + 1) s := by
  intro more total' other hitem hmore hbounded
  obtain ⟨happend, hassignment⟩ := skipFiller_of_bounded hbounded hs
  obtain ⟨otherAssignment, hother, himage, hbehind⟩ :=
    readAssignment_agrees total total' hnil hitem skips_skipSpace _ hassignment assignment line hread
  obtain ⟨hend, hbehind⟩ := endLine_append hbehind hline
  obtain ⟨front, hfront, hroom⟩ := hrest more total' other hitem hmore hbehind
  obtain ⟨hassignments, hsections⟩ := Prod.mk.inj hfront
  refine ⟨(otherAssignment :: front.1, front.2), ?_, fun room => ?_⟩
  · simp [Lines.unplaced, himage, hassignments, hsections]
  · have hnotHeader : ∀ ds, skipFiller false (s ++ more) = '[' :: ds → False := fun ds hds =>
      hc (List.cons.inj (happend.symm.trans hds)).1
    rw [Nat.add_right_comm, readLines.eq_4 _ _ _ _ (by simp [happend]) hnotHeader, happend,
      ← List.cons_append, hother, Option.bind_eq_bind, Option.bind_some]
    dsimp only
    rw [hend, Option.bind_eq_bind, Option.bind_some, hroom, Option.bind_eq_bind, Option.bind_map,
      Option.map_eq_bind]
    rfl

/-- A document in front of a table is read as if it stood alone. -/
theorem exists_readsBefore {total : Nat} (hnil : item [] = none)
    (hread : readLines total item fuel s = some lines) :
    ∃ steps ≤ fuel, ReadsBefore item lines steps s := by
  -- Along the recursion of the reader: one step for each line that says something.
  induction fuel generalizing s lines with
  | zero =>
      by_cases hs : skipFiller false s = []
      · rw [readLines.eq_1 _ _ _ _ hs] at hread
        exact ⟨0, Nat.le_refl 0, Option.some.inj hread ▸ readsBefore_nothing item hs⟩
      · rw [readLines.eq_2 _ _ _ hs] at hread
        cases hread
  | succ fuel ih =>
      rcases hs : skipFiller false s with _ | ⟨c, cs⟩
      · rw [readLines.eq_1 _ _ _ _ hs] at hread
        exact ⟨0, Nat.zero_le _, Option.some.inj hread ▸ readsBefore_nothing item hs⟩
      by_cases hc : c = '['
      · subst hc
        rw [readLines.eq_3 _ _ _ _ _ hs] at hread
        obtain ⟨⟨part, rest⟩, hpart, hread⟩ := Option.bind_eq_some_iff.mp hread
        obtain ⟨lines, hlines, hread⟩ := Option.bind_eq_some_iff.mp hread
        obtain rfl := Option.some.inj hread
        obtain ⟨steps, hsteps, hrest⟩ := ih hlines
        exact ⟨steps + 1, Nat.succ_le_succ hsteps, hrest.header hs hpart⟩
      · have hnotHeader : ∀ ds, skipFiller false s = '[' :: ds → False := fun ds hds =>
          hc (List.cons.inj (hs.symm.trans hds)).1
        rw [readLines.eq_4 _ _ _ _ (by simp [hs]) hnotHeader, hs] at hread
        obtain ⟨⟨assignment, line⟩, hassignment, hread⟩ := Option.bind_eq_some_iff.mp hread
        obtain ⟨rest, hline, hread⟩ := Option.bind_eq_some_iff.mp hread
        obtain ⟨lines, hlines, hread⟩ := Option.bind_eq_some_iff.mp hread
        obtain rfl := Option.some.inj hread
        obtain ⟨steps, hsteps, hrest⟩ := ih hlines
        exact ⟨steps + 1, Nat.succ_le_succ hsteps, hrest.assignment hnil hs hc hassignment hline⟩

end Lines

end EntityClasses.Toml
