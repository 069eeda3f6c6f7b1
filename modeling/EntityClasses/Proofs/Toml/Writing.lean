import Mathlib.Data.Bool.AllAny
import Mathlib.Data.List.Forall2
import Mathlib.Data.List.TakeWhile
import EntityClasses.Proofs.Toml.Quoting

/-! The ways of writing a table whose entries are strings: a header, and a line for each entry, with spaces,
empty lines and comments as anyone likes. Reading such a table gives back its entries. -/

namespace EntityClasses.Toml

open Text

/-- Spaces within a line. -/
def IsSpaceText (s : List Char) : Prop :=
  ∀ c ∈ s, isSpace c = true

instance (s : List Char) : Decidable (IsSpaceText s) :=
  decidable_of_iff (s.all isSpace = true) List.all_eq_true

/-- The ways to end a line. -/
def lineBreaks : List (List Char) :=
  [['\n'], ['\r', '\n']]

/-- Text that says nothing: spaces, ends of lines, and comments. -/
inductive Filler : List Char → Prop where
  | nil : Filler []
  | space {c : Char} {s : List Char} : isSpace c = true → Filler s → Filler (c :: s)
  | lineBreak {ending s : List Char} : ending ∈ lineBreaks → Filler s → Filler (ending ++ s)
  | comment {text ending s : List Char} : (∀ c ∈ text, isControl c = false) → ending ∈ lineBreaks →
      Filler s → Filler ('#' :: (text ++ (ending ++ s)))

/-- What stands between two lines: the rest of the first one, and whatever says nothing. -/
structure IsGap (s : List Char) : Prop where
  filler : Filler s
  newline : '\n' ∈ s

/-- A key with a string, with spaces around the sign between them. -/
inductive SpelledEntry (entry : String × String) : List Char → Prop where
  | assign {key before after value : List Char} : SpelledKey entry.1 key → IsSpaceText before →
      IsSpaceText after → SpelledString entry.2 value →
      SpelledEntry entry (key ++ (before ++ '=' :: (after ++ value)))

/-- A header with one name, in brackets. -/
inductive SpelledHeader (name : String) : List Char → Prop where
  | brackets {indent before key after : List Char} : IsSpaceText indent → IsSpaceText before →
      SpelledKey name key → IsSpaceText after →
      SpelledHeader name (indent ++ '[' :: (before ++ (key ++ (after ++ [']']))))

/-- A line behind another one. -/
inductive NextLine (spelled : List Char → Prop) : List Char → Prop where
  | behind {gap s : List Char} : IsGap gap → spelled s → NextLine spelled (gap ++ s)

/-- A table of this name: its header, and behind it a line for each of its entries. -/
inductive SpelledTable (name : String) (entries : List (String × String)) : List Char → Prop where
  | lines {header : List Char} {parts : List (List Char)} : SpelledHeader name header →
      List.Forall₂ (fun entry => NextLine (SpelledEntry entry)) entries parts →
      SpelledTable name entries (header ++ parts.flatten)

variable {s t rest gap key value : List Char} {c : Char} {name text : String}

section Gaps

theorem skipSpace_append (hs : IsSpaceText s) (rest : List Char) : skipSpace (s ++ rest) = skipSpace rest :=
  List.dropWhile_append_of_pos hs

theorem skipSpace_cons (hc : isSpace c = false) (s : List Char) : skipSpace (c :: s) = c :: s := by
  rw [skipSpace, List.dropWhile_cons_of_neg (by simp [hc])]

theorem skipFiller_space (hc : isSpace c = true) (s : List Char) :
    skipFiller false (c :: s) = skipFiller false s := by
  have hspace : ∀ d, isSpace d = false → c ≠ d := by
    rintro d hd rfl
    simp [hd] at hc
  rw [skipFiller_cons false fun _ hreturn => absurd hreturn (hspace '\r' (by decide)),
    if_neg (hspace '\n' (by decide)), if_neg Bool.false_ne_true, if_pos hc]

theorem skipFiller_spaces (hs : IsSpaceText s) (rest : List Char) :
    skipFiller false (s ++ rest) = skipFiller false rest := by
  induction s with
  | nil => rfl
  | cons c s ih =>
      obtain ⟨hc, hs⟩ := List.forall_mem_cons.mp hs
      rw [List.cons_append, skipFiller_space hc, ih hs]

theorem skipFiller_lineBreak (ending : List Char) (inComment : Bool) (hending : ending ∈ lineBreaks)
    (s : List Char) : skipFiller inComment (ending ++ s) = skipFiller false s := by
  simp only [lineBreaks, List.mem_cons, List.not_mem_nil, or_false] at hending
  rcases hending with rfl | rfl
  · rw [List.singleton_append, skipFiller_cons _ fun _ h => absurd h (by decide), if_pos rfl]
  · rw [List.cons_append, List.singleton_append, skipFiller]

theorem skipFiller_comment {text : List Char} (htext : ∀ c ∈ text, isControl c = false) (s : List Char) :
    skipFiller true (text ++ s) = skipFiller true s := by
  induction text with
  | nil => rfl
  | cons c text ih =>
      obtain ⟨hc, htext⟩ := List.forall_mem_cons.mp htext
      have hcontrol : ∀ d, isControl d = true → c ≠ d := by
        rintro d hd rfl
        simp [hd] at hc
      rw [List.cons_append, skipFiller_cons true fun _ hreturn => absurd hreturn (hcontrol '\r' (by decide)),
        if_neg (hcontrol '\n' (by decide)), if_pos rfl, if_neg (by simp [hc]), ih htext]

theorem skipFiller_sharp (s : List Char) : skipFiller false ('#' :: s) = skipFiller true s := by
  rw [skipFiller_cons false fun _ h => absurd h (by decide), if_neg (by decide),
    if_neg Bool.false_ne_true, if_neg (by decide), if_pos rfl]

theorem Filler.skipFiller_append (hfiller : Filler s) (rest : List Char) :
    skipFiller false (s ++ rest) = skipFiller false rest := by
  induction hfiller with
  | nil => rfl
  | space hc _ ih => rw [List.cons_append, skipFiller_space hc, ih]
  | lineBreak hending _ ih => rw [List.append_assoc, skipFiller_lineBreak _ false hending, ih]
  | comment htext hending _ ih =>
      rw [List.cons_append, skipFiller_sharp, List.append_assoc, skipFiller_comment htext,
        List.append_assoc, skipFiller_lineBreak _ true hending, ih]

/-- Nothing is said in front of the end of a line. -/
theorem skipFiller_lineEnd (s : List Char) :
    ∃ inComment, skipFiller false s = skipFiller inComment (lineEnd s) := by
  have hspaces : skipFiller false s = skipFiller false (skipSpace s) := by
    have hsplit : s.takeWhile isSpace ++ skipSpace s = s := List.takeWhile_append_dropWhile
    have htake : IsSpaceText (s.takeWhile isSpace) := fun c hc => List.mem_takeWhile_imp hc
    rw [← skipFiller_spaces htake (skipSpace s), hsplit]
  rw [hspaces, lineEnd]
  split
  · next cs hcs =>
      refine ⟨true, ?_⟩
      have htake : ∀ c ∈ cs.takeWhile (!isControl ·), isControl c = false := by
        intro c hc
        simpa using List.mem_takeWhile_imp hc
      rw [hcs, skipFiller_sharp, ← skipFiller_comment htake (cs.dropWhile _),
        List.takeWhile_append_dropWhile]
  · exact ⟨false, rfl⟩

/-- The rest of a line says nothing. -/
theorem skipFiller_of_endLine (hend : endLine s = some rest) :
    skipFiller false s = skipFiller false rest := by
  obtain ⟨inComment, hs⟩ := skipFiller_lineEnd s
  rw [hs]
  rw [endLine_eq] at hend
  split at hend
  · next hnil => rw [hnil, ← Option.some.inj hend, skipFiller_nil, skipFiller_nil]
  · next cs hcs =>
      obtain rfl := Option.some.inj hend
      rw [hcs]
      exact skipFiller_lineBreak ['\n'] inComment (by decide) cs
  · next cs hcs =>
      obtain rfl := Option.some.inj hend
      rw [hcs]
      exact skipFiller_lineBreak ['\r', '\n'] inComment (by decide) cs
  · cases hend

theorem isGap_newline : IsGap ['\n'] := by
  have hfiller : Filler (['\n'] ++ []) := .lineBreak (by decide) .nil
  exact ⟨hfiller, by decide⟩

/-- A gap ends the line in front of it. -/
theorem IsGap.endLine_append (hgap : IsGap gap) (rest : List Char) : (endLine (gap ++ rest)).isSome := by
  obtain ⟨hfiller, hnewline⟩ := hgap
  induction hfiller with
  | nil => cases hnewline
  | @space c s hc _ ih =>
      have hs : '\n' ∈ s := by
        refine (List.mem_cons.mp hnewline).resolve_left ?_
        rintro rfl
        cases hc
      have hspace : IsSpaceText [c] := by simpa [IsSpaceText] using hc
      have hskip : endLine (c :: (s ++ rest)) = endLine (s ++ rest) := by
        rw [endLine, endLine, ← List.singleton_append, skipSpace_append hspace]
      rw [List.cons_append, hskip]
      exact ih hs
  | @lineBreak ending s hending _ _ =>
      simp only [lineBreaks, List.mem_cons, List.not_mem_nil, or_false] at hending
      rcases hending with rfl | rfl <;> rfl
  | @comment text ending s htext hending _ _ =>
      have hpast : lineEnd ('#' :: (text ++ (ending ++ (s ++ rest)))) = ending ++ (s ++ rest) := by
        change List.dropWhile (!isControl ·) (text ++ (ending ++ (s ++ rest))) = _
        rw [List.dropWhile_append_of_pos fun c hc => by simp [htext c hc]]
        simp only [lineBreaks, List.mem_cons, List.not_mem_nil, or_false] at hending
        rcases hending with rfl | rfl <;> rfl
      simp only [List.cons_append, List.append_assoc, endLine_eq, hpast]
      simp only [lineBreaks, List.mem_cons, List.not_mem_nil, or_false] at hending
      rcases hending with rfl | rfl <;> rfl

/-- The rest of a line does not start with anything that is read. -/
theorem head?_of_endLine (hend : (endLine s).isSome) :
    ∀ c ∈ s.head?, c ∈ [' ', '\t', '#', '\n', '\r'] := by
  intro c hc
  obtain ⟨cs, rfl⟩ := List.head?_eq_some_iff.mp hc
  by_contra hother
  simp only [List.mem_cons, List.not_mem_nil, or_false, not_or] at hother
  obtain ⟨hspace, htab, hsharp, hnewline, hreturn⟩ := hother
  have hskip : skipSpace (c :: cs) = c :: cs := skipSpace_cons (by simp [isSpace, hspace, htab]) cs
  simp [endLine, hskip, hsharp, hnewline, hreturn] at hend

end Gaps

/-- The assignment that an entry makes. -/
def entryAssignment (entry : String × String) : Assignment :=
  ⟨[], ⟨entry.1, nowhere⟩, .string nowhere entry.2⟩

/-- The section that a table of strings makes. -/
def tableSection (name : String) (entries : List (String × String)) : Section :=
  ⟨[], ⟨name, nowhere⟩, false, nowhere, entries.map entryAssignment⟩

section Reading

variable {more header : List Char} {entry : String × String} {entries : List (String × String)}

/-- Characters that start no key. -/
def keyStops : List Char :=
  [' ', '\t', '\r', '\n', '#', '.', '[']

theorem SpelledKey.exists_cons (hkey : SpelledKey name key) : ∃ c cs, key = c :: cs ∧ c ∉ keyStops := by
  cases hkey with
  | bare hname hbare =>
      obtain ⟨c, cs, hcs⟩ := List.exists_cons_of_ne_nil hname
      refine ⟨c, cs, hcs, fun hc => ?_⟩
      have hstops : ∀ c ∈ keyStops, isBare c = false := List.all_iff_forall_prop.mp (by decide)
      have htrue := hbare c (by simp [hcs])
      rw [hstops c hc] at htrue
      cases htrue
  | quoted hstring =>
      cases hstring with
      | basic _ => exact ⟨_, _, rfl, by decide⟩
      | literal _ => exact ⟨_, _, rfl, by decide⟩

theorem isSpace_eq_false (hc : c ∉ keyStops) : isSpace c = false := by
  simp only [keyStops, List.mem_cons, List.not_mem_nil, or_false, not_or] at hc
  simp [isSpace, hc]

/-- A key is what comes next. -/
theorem SpelledKey.skipFiller_append (hkey : SpelledKey name key) (rest : List Char) :
    skipFiller false (key ++ rest) = key ++ rest := by
  obtain ⟨c, cs, rfl, hc⟩ := hkey.exists_cons
  have hspace := isSpace_eq_false hc
  simp only [keyStops, List.mem_cons, List.not_mem_nil, or_false, not_or] at hc
  obtain ⟨_, _, hreturn, hnewline, hsharp, _, _⟩ := hc
  rw [List.cons_append, skipFiller_cons false fun _ h => absurd h hreturn, if_neg hnewline,
    if_neg Bool.false_ne_true, if_neg (by simp [hspace]), if_neg hsharp]

theorem SpelledKey.skipSpace_append (hkey : SpelledKey name key) (rest : List Char) :
    skipSpace (key ++ rest) = key ++ rest := by
  obtain ⟨c, cs, rfl, hc⟩ := hkey.exists_cons
  exact skipSpace_cons (isSpace_eq_false hc) _

/-- A name ends in front of a space and in front of a sign. -/
theorem not_isBare_head? {after : List Char} {mark : Char} (hafter : IsSpaceText after)
    (hmark : isBare mark = false) (rest : List Char) :
    ∀ c ∈ (after ++ mark :: rest).head?, isBare c = false := by
  intro c hc
  cases after with
  | nil => exact Option.some.inj hc ▸ hmark
  | cons d ds =>
      obtain rfl : d = c := Option.some.inj hc
      have hd : isSpace d = true := hafter d (List.mem_cons_self ..)
      simp only [isSpace, Bool.or_eq_true, decide_eq_true_eq] at hd
      rcases hd with rfl | rfl <;> rfl

/-- A key of one part, in front of a sign. -/
theorem SpelledKey.readPath_append {after : List Char} {mark : Char} (total limit : Nat)
    (hkey : SpelledKey name key) (hafter : IsSpaceText after) (hmark : mark ∈ ['=', ']'])
    (rest : List Char) :
    ∃ span, readPath total (limit + 1) (key ++ (after ++ mark :: rest)) =
      some (([], ⟨name, span⟩), mark :: rest) := by
  have hmarks : ∀ mark ∈ ['=', ']'], isBare mark = false ∧ isSpace mark = false ∧ mark ≠ '.' :=
    List.all_iff_forall_prop.mp (by decide)
  obtain ⟨hbare, hspace, hdot⟩ := hmarks mark hmark
  have hskip : skipSpace (after ++ mark :: rest) = mark :: rest := by
    rw [Toml.skipSpace_append hafter, skipSpace_cons hspace]
  obtain ⟨span, hread⟩ := hkey.readKey_append total (not_isBare_head? hafter hbare rest)
  refine ⟨span, ?_⟩
  rw [readPath, hread, Option.bind_eq_bind, Option.bind_some]
  simp only [hskip]
  split
  · next heq => exact absurd (List.cons.inj heq).1 hdot
  · rfl

theorem readHeader_append (total : Nat) {before after : List Char} (hbefore : IsSpaceText before)
    (hkey : SpelledKey name key) (hafter : IsSpaceText after) (hend : endLine more = some rest) :
    ∃ span place, readHeader total ('[' :: (before ++ (key ++ (after ++ ']' :: more)))) =
      some (⟨[], ⟨name, place⟩, false, span, []⟩, rest) := by
  have hskip : skipSpace (before ++ (key ++ (after ++ ']' :: more))) = key ++ (after ++ ']' :: more) := by
    rw [Toml.skipSpace_append hbefore, hkey.skipSpace_append]
  have hsingle : dropStart? ['[', '['] ('[' :: (before ++ (key ++ (after ++ ']' :: more)))) = none := by
    rw [Option.eq_none_iff_forall_ne_some]
    intro body hbody
    have hsecond : before ++ (key ++ (after ++ ']' :: more)) = '[' :: body :=
      (List.cons.inj (dropStart?_eq_some_iff.mp hbody)).2
    obtain ⟨c, cs, rfl, hc⟩ := hkey.exists_cons
    rw [hsecond, skipSpace_cons (by decide)] at hskip
    rw [← (List.cons.inj hskip).1] at hc
    exact hc (by decide)
  obtain ⟨place, hpath⟩ := hkey.readPath_append total 79 hafter (show ']' ∈ ['=', ']'] by decide) more
  refine ⟨Span.between total ('[' :: (before ++ (key ++ (after ++ ']' :: more)))) more, place, ?_⟩
  rw [readHeader, hsingle]
  simp only [Option.isSome_none, Bool.false_eq_true, if_false, List.drop_succ_cons, List.drop_zero, hskip]
  rw [show maxDepth = 79 + 1 from rfl, hpath]
  simp [skip?, hend]

theorem SpelledString.readValue_append (total fuel depth : Nat) (hvalue : SpelledString text value)
    (hmore : (endLine more).isSome) :
    ∃ span, readValue total fuel depth (value ++ more) = some (.string span text, more) := by
  have hread : readString (value ++ more) = some (text.toList, more) := hvalue.readString_append fun c hc => by
    have hends := head?_of_endLine hmore c hc
    constructor <;> rintro rfl <;> exact absurd hends (by decide)
  have hquote : ∃ c cs, value = c :: cs ∧ (c = '"' ∨ c = '\'') := by
    cases hvalue with
    | basic _ => exact ⟨_, _, rfl, Or.inl rfl⟩
    | literal _ => exact ⟨_, _, rfl, Or.inr rfl⟩
  obtain ⟨c, cs, rfl, hc⟩ := hquote
  have hleaf : readLeaf total (c :: cs ++ more) =
      some (.string (Span.between total (c :: cs ++ more) more) text, more) := by
    rw [readLeaf, if_pos (by simpa using hc), hread]
    simp
  refine ⟨Span.between total (c :: cs ++ more) more, ?_⟩
  rw [← hleaf]
  cases depth with
  | zero => rcases hc with rfl | rfl <;> rfl
  | succ depth => rcases hc with rfl | rfl <;> rfl

theorem SpelledEntry.readAssignment_append (total fuel depth : Nat) (hentry : SpelledEntry entry s)
    (hmore : (endLine more).isSome) :
    ∃ assignment, assignment.unplaced = entryAssignment entry ∧
      readAssignment total (readValue total fuel depth) skipSpace (s ++ more) = some (assignment, more) := by
  cases hentry with
  | @assign key before after value hkey hbefore hafter hvalue =>
      obtain ⟨place, hpath⟩ := hkey.readPath_append total 79 hbefore (show '=' ∈ ['=', ']'] by decide)
        (after ++ (value ++ more))
      obtain ⟨span, hread⟩ := hvalue.readValue_append total fuel depth hmore
      refine ⟨⟨[], ⟨entry.1, place⟩, .string span entry.2⟩, rfl, ?_⟩
      have hsign : skipSpace ('=' :: (after ++ (value ++ more))) = '=' :: (after ++ (value ++ more)) :=
        skipSpace_cons (by decide) _
      have hskip : skipSpace (after ++ (value ++ more)) = value ++ more := by
        rw [Toml.skipSpace_append hafter, (SpelledKey.quoted hvalue).skipSpace_append]
      simp only [List.append_assoc, List.cons_append]
      rw [readAssignment, show maxDepth = 79 + 1 from rfl, hpath]
      simp [skip?, hsign, hskip, hread]

theorem SpelledEntry.skipFiller_append (hentry : SpelledEntry entry s) (more : List Char) :
    skipFiller false (s ++ more) = s ++ more := by
  cases hentry with
  | assign hkey _ _ _ => rw [List.append_assoc, hkey.skipFiller_append]

theorem SpelledEntry.exists_cons (hentry : SpelledEntry entry s) :
    ∃ c cs, s = c :: cs ∧ c ∉ keyStops := by
  cases hentry with
  | assign hkey _ _ _ =>
      obtain ⟨c, cs, rfl, hc⟩ := hkey.exists_cons
      exact ⟨c, _, List.cons_append, hc⟩

/-- Behind the end of a line each entry is read off its own line. -/
theorem readLines_entries (total fuel depth : Nat) {parts : List (List Char)}
    (hparts : List.Forall₂ (fun entry => NextLine (SpelledEntry entry)) entries parts)
    (hmore : endLine more = some rest) :
    ∃ first assignments, endLine (parts.flatten ++ more) = some first ∧
      assignments.map Assignment.unplaced = entries.map entryAssignment ∧ ∀ room,
        readLines total (readValue total fuel depth) (entries.length + room) first =
          (readLines total (readValue total fuel depth) room rest).map fun lines =>
            (assignments ++ lines.1, lines.2) := by
  induction hparts with
  | nil =>
      refine ⟨rest, [], hmore, rfl, fun room => ?_⟩
      simp
  | @cons entry part entries parts hpart _ ih =>
      obtain ⟨next, assignments, hnext, himage, hroom⟩ := ih
      cases hpart with
      | @behind gap s hgap hentry =>
          obtain ⟨first, hfirst⟩ := Option.isSome_iff_exists.mp
            (hgap.endLine_append (s ++ (parts.flatten ++ more)))
          obtain ⟨assignment, hassignment, hread⟩ :=
            hentry.readAssignment_append total fuel depth
              (show (endLine (parts.flatten ++ more)).isSome by rw [hnext]; rfl)
          have hskip : skipFiller false first = s ++ (parts.flatten ++ more) := by
            rw [← skipFiller_of_endLine hfirst, hgap.filler.skipFiller_append,
              hentry.skipFiller_append]
          obtain ⟨c, cs, hs, hc⟩ := hentry.exists_cons
          refine ⟨first, assignment :: assignments, ?_, ?_, fun room => ?_⟩
          · rw [List.flatten_cons, List.append_assoc, List.append_assoc]
            exact hfirst
          · rw [List.map_cons, List.map_cons, hassignment, himage]
          · have hheader : ∀ ds, skipFiller false first = '[' :: ds → False := by
              intro ds hds
              rw [hskip, hs] at hds
              exact hc ((List.cons.inj hds).1 ▸ by decide)
            rw [List.length_cons, Nat.add_right_comm,
              readLines.eq_4 _ _ _ _ (by rw [hskip, hs]; simp) hheader, hskip, hread]
            simp only [Option.bind_eq_bind, Option.bind_some, hnext, hroom, Option.bind_map]
            rw [Option.map_eq_bind]
            rfl

theorem skipFiller_bracket {indent : List Char} (hindent : IsSpaceText indent) (s : List Char) :
    skipFiller false (indent ++ '[' :: s) = '[' :: s := by
  rw [skipFiller_spaces hindent, skipFiller_cons false fun _ h => absurd h (by decide)]
  rfl

theorem SpelledTable.startsTable {table : List Char} (htable : SpelledTable name entries table)
    (more : List Char) : StartsTable (table ++ more) := by
  cases htable with
  | lines hheader _ =>
      cases hheader with
      | brackets hindent _ _ _ =>
          rw [StartsTable]
          simp only [List.append_assoc, List.cons_append, skipFiller_bracket hindent]
          simp

/-- A table is read as its section, to which whatever assignments come next belong too. -/
theorem SpelledTable.readLines_append (total fuel depth : Nat) {table : List Char}
    (htable : SpelledTable name entries table) (hmore : endLine more = some rest) :
    ∃ part : Section, part.unplaced = tableSection name entries ∧ ∀ room,
      readLines total (readValue total fuel depth) (entries.length + room + 1) (table ++ more) =
        (readLines total (readValue total fuel depth) room rest).map fun lines =>
          ([], { part with assignments := part.assignments ++ lines.1 } :: lines.2) := by
  cases htable with
  | @lines header parts hheader hparts =>
      cases hheader with
      | @brackets indent before key after hindent hbefore hkey hafter =>
          obtain ⟨first, assignments, hfirst, himage, hroom⟩ := readLines_entries total fuel depth hparts hmore
          obtain ⟨span, place, hread⟩ := readHeader_append total hbefore hkey hafter hfirst
          refine ⟨⟨[], ⟨name, place⟩, false, span, assignments⟩, ?_, fun room => ?_⟩
          · rw [Section.unplaced, himage]
            rfl
          · have hskip : skipFiller false (indent ++ '[' :: (before ++ (key ++ (after ++ [']']))) ++
                parts.flatten ++ more) =
                '[' :: (before ++ (key ++ (after ++ ']' :: (parts.flatten ++ more)))) := by
              simp only [List.append_assoc, List.cons_append, skipFiller_bracket hindent, List.nil_append]
            rw [readLines.eq_3 _ _ _ _ _ hskip, hread]
            simp only [Option.bind_eq_bind, Option.bind_some, hroom, Option.bind_map]
            rw [Option.map_eq_bind]
            rfl

end Reading

/-- Every list of entries can be written as a table. -/
theorem exists_spelledTable (name : String) (entries : List (String × String)) :
    ∃ s, SpelledTable name entries s := by
  have hkey : ∀ name, ∃ s, SpelledKey name s := fun name =>
    (exists_spelledString name).imp fun _ => .quoted
  have hspaces : IsSpaceText [] := fun _ hc => absurd hc List.not_mem_nil
  have hparts : ∃ parts, List.Forall₂ (fun entry => NextLine (SpelledEntry entry)) entries parts := by
    induction entries with
    | nil => exact ⟨[], .nil⟩
    | cons entry entries ih =>
        obtain ⟨parts, hparts⟩ := ih
        obtain ⟨key, hkey⟩ := hkey entry.1
        obtain ⟨value, hvalue⟩ := exists_spelledString entry.2
        exact ⟨_, .cons (.behind isGap_newline (.assign hkey hspaces hspaces hvalue)) hparts⟩
  obtain ⟨key, hname⟩ := hkey name
  obtain ⟨parts, hparts⟩ := hparts
  exact ⟨_, .lines (.brackets hspaces hspaces hname hspaces) hparts⟩

end EntityClasses.Toml
