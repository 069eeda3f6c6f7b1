import EntityClasses.Proofs.Toml.Insertion
import EntityClasses.Proofs.Toml.Writing

/-! A table written between two parts of a document. The document with the table has the entries that it had
without, and the table; and a name that is given in the table is in it, whatever the rest of the document
says. -/

namespace EntityClasses.Toml

open Text

/-- A document up to the start of a line. -/
structure EndsLine (before : List Char) : Prop where
  document : (parse before).isSome
  line : (skipMark before).getLast? ∈ [none, some '\n']

/-- What may follow a table: the rest of its last line, and then nothing or another table. -/
structure FollowsTable (after : List Char) : Prop where
  line : (endLine after).isSome
  table : StartsTable after

/-- The entries of a table of strings. -/
def stringEntries (entries : List (String × String)) : Entries :=
  entries.map fun entry => (⟨entry.1, nowhere⟩, .string nowhere entry.2)

variable {before after more table : List Char} {name : String} {entries : List (String × String)}

theorem assign?_entryAssignments {start : Entries}
    (hnames : (entries.map Prod.fst).Nodup) (hstart : ∀ name ∈ entries.map Prod.fst, ¬ start.Has name) :
    assign? (entries.map entryAssignment) .header start = some (start ++ stringEntries entries) := by
  induction entries generalizing start with
  | nil => simp [assign?, stringEntries]
  | cons entry entries ih =>
      rw [List.map_cons, List.nodup_cons] at hnames
      rw [List.map_cons, List.forall_mem_cons] at hstart
      have hadded : (entryAssignment entry).apply .dotted
          (fun origin => origin = .dotted || origin = .implied) .header start =
            some (start ++ [(⟨entry.1, nowhere⟩, .string nowhere entry.2)]) := by
        simp [Assignment.apply, entryAssignment, changeAt, Entries.add?,
          Entries.find?_eq_none_iff.mpr hstart.1]
      rw [List.map_cons, assign?, List.foldlM_cons, hadded]
      have hnew : ∀ name ∈ entries.map Prod.fst,
          ¬ Entries.Has (start ++ [(⟨entry.1, nowhere⟩, .string nowhere entry.2)]) name := by
        intro name hname hhas
        rcases Entries.has_append.mp hhas with hold | ⟨_, hmem, rfl⟩
        · exact hstart.2 name hname hold
        · rw [List.mem_singleton.mp hmem] at hname
          exact hnames.1 hname
      have hothers := ih hnames.2 hnew
      rw [assign?] at hothers
      simp [hothers, stringEntries]

/-- How a document is read. -/
theorem parse_eq (s : List Char) :
    parse s = (readLines (size s) (readValue (size s) s.length maxDepth) s.length (skipMark s)).bind
      fun lines => document? lines.1 lines.2 :=
  rfl

/-- The mark at the front of a document is not one of the characters that start a table. -/
theorem StartsTable.skipMark_append (hmore : StartsTable more) (before : List Char) :
    skipMark (before ++ more) = skipMark before ++ more := by
  have hmark : ∀ s, more = '\uFEFF' :: s → False := by
    rintro s rfl
    have hskip : skipFiller false ('\uFEFF' :: s) = '\uFEFF' :: s := by
      rw [skipFiller_cons false fun _ h => absurd h (by decide)]
      rfl
    exact absurd (hmore '\uFEFF' (by rw [hskip]; rfl)) (by decide)
  cases before with
  | nil => exact skipMark.eq_2 more hmark
  | cons c cs =>
      by_cases hc : c = '\uFEFF'
      · subst hc
        rfl
      · have hother : ∀ ds s, c :: ds = '\uFEFF' :: s → False := fun _ _ h => hc (List.cons.inj h).1
        rw [List.cons_append, skipMark.eq_2 _ (hother _), skipMark.eq_2 _ (hother _), List.cons_append]

/-- The front of a document is read first, in `steps` steps and as these lines up to their places, whatever
table follows it. -/
def ReadsFirst (before : List Char) (lines : Lines) (steps : Nat) : Prop :=
  ∀ more, StartsTable more → ∃ front : Lines, front.unplaced = lines.unplaced ∧
    parse (before ++ more) =
      (readLines (size (before ++ more)) (readValue (size (before ++ more)) (before ++ more).length maxDepth)
        ((before ++ more).length - steps) more).bind
      fun back => document? front.1 (front.2 ++ back.2)

theorem EndsLine.exists_readsFirst (hbefore : EndsLine before) :
    ∃ lines, ∃ steps ≤ before.length, ReadsFirst before lines steps := by
  obtain ⟨hdocument, hline⟩ := hbefore
  obtain ⟨entries, hentries⟩ := Option.isSome_iff_exists.mp hdocument
  rw [parse_eq] at hentries
  obtain ⟨lines, hlines, _⟩ := Option.bind_eq_some_iff.mp hentries
  obtain ⟨steps, hsteps, hreads⟩ := exists_readsBefore (readValue_nil _ _ _) hlines
  refine ⟨lines, steps, hsteps, fun more hmore => ?_⟩
  have hlength : before.length ≤ (before ++ more).length := by simp
  have hbounded : skipMark before = [] ∨ Bounded more (skipMark before) := by
    rcases List.mem_cons.mp hline with hnone | hnewline
    · exact Or.inl (List.getLast?_eq_none_iff.mp hnone)
    · exact Or.inr (Or.inr (List.mem_singleton.mp hnewline))
  obtain ⟨front, hfront, hroom⟩ := hreads more (size (before ++ more)) _
    (readValue_agrees _ (size (before ++ more)) hlength maxDepth) hmore hbounded
  refine ⟨front, hfront, ?_⟩
  have hread := hroom ((before ++ more).length - steps)
  rw [Nat.add_sub_cancel' (Nat.le_trans hsteps hlength)] at hread
  rw [parse_eq, hmore.skipMark_append, hread, Option.bind_map]
  rfl

theorem SpelledTable.length_le (htable : SpelledTable name entries table) :
    entries.length + 1 ≤ table.length := by
  cases htable with
  | @lines header parts hheader hparts =>
      have hlines : entries.length ≤ parts.flatten.length := by
        induction hparts with
        | nil => exact Nat.le_refl 0
        | cons hpart _ ih =>
            cases hpart with
            | behind hgap _ =>
                have hgapLength := List.length_pos_of_mem hgap.newline
                simp only [List.length_cons, List.flatten_cons, List.length_append]
                omega
      cases hheader
      simp only [List.length_append, List.length_cons]
      omega

/-- Behind the front a table is read as its section, to which whatever assignments come next belong too. What
is behind the table has at least as much room as it has without the table. -/
theorem ReadsFirst.parse_table {lines : Lines} {steps : Nat} {rest next : List Char}
    (hfirst : ReadsFirst before lines steps) (hsteps : steps ≤ before.length)
    (htable : SpelledTable name entries table) (hend : endLine rest = some next) :
    ∃ front : Lines, ∃ part : Section, ∃ room, front.unplaced = lines.unplaced ∧
      part.unplaced = tableSection name entries ∧ (before ++ rest).length - steps ≤ room ∧
      parse (before ++ (table ++ rest)) =
        (readLines (size (before ++ (table ++ rest)))
          (readValue (size (before ++ (table ++ rest))) (before ++ (table ++ rest)).length maxDepth)
          room next).bind
        fun back => document? front.1
          (front.2 ++ { part with assignments := part.assignments ++ back.1 } :: back.2) := by
  obtain ⟨front, hfront, hparse⟩ := hfirst _ (htable.startsTable rest)
  obtain ⟨part, hpart, hread⟩ := htable.readLines_append (size (before ++ (table ++ rest)))
    (before ++ (table ++ rest)).length maxDepth hend
  obtain ⟨room, hroom, hle⟩ : ∃ room,
      (before ++ (table ++ rest)).length - steps = entries.length + room + 1 ∧
        (before ++ rest).length - steps ≤ room := by
    have hlength := htable.length_le
    simp only [List.length_append]
    exact ⟨before.length + table.length + rest.length - steps - (entries.length + 1), by omega, by omega⟩
  refine ⟨front, part, room, hfront, hpart, hle, ?_⟩
  rw [hparse, hroom, hread, Option.bind_map]
  rfl

/-- What follows a table is read the same wherever it stands. -/
theorem FollowsTable.exists_reads (hafter : FollowsTable after) (total' : Nat) {total fuel fuel' room room' : Nat}
    {back : Lines} (hfuel : fuel ≤ fuel') (hroom : room ≤ room')
    (hread : readLines total (readValue total fuel maxDepth) room after = some back) :
    ∃ sections : List Section,
      readLines total' (readValue total' fuel' maxDepth) room' after = some ([], sections) ∧
      sections.map Section.unplaced = back.2.map Section.unplaced := by
  obtain ⟨steps, hsteps, hreads⟩ := exists_readsBefore (readValue_nil _ _ _) hread
  have hnothing : StartsTable [] := by simp [StartsTable, skipFiller_nil]
  obtain ⟨front, hfront, hrun⟩ := hreads [] total' _ (readValue_agrees _ total' hfuel maxDepth) hnothing
    (Or.inr (Or.inl rfl))
  have hrun := hrun (room' - steps)
  rw [Nat.add_sub_cancel' (Nat.le_trans hsteps hroom), List.append_nil,
    readLines.eq_1 _ _ _ _ (skipFiller_nil false), Option.map_some, List.append_nil] at hrun
  refine ⟨front.2, ?_, (Prod.mk.inj hfront).2⟩
  have hnil : front.1 = [] := hafter.table.fst_eq_nil hrun
  rw [hrun, hnil]

/-- The lines of a document with a table, up to their places. -/
theorem parse_insertTable {others : Entries} (hbefore : EndsLine before) (hafter : FollowsTable after)
    (hothers : parse (before ++ after) = some others) (htable : SpelledTable name entries table) :
    ∃ assignments front back, document? assignments (front ++ back) = some others.unplaced ∧
      (parse (before ++ (table ++ after))).map Entries.unplaced =
        document? assignments (front ++ tableSection name entries :: back) := by
  obtain ⟨lines, steps, hsteps, hfirst⟩ := hbefore.exists_readsFirst
  obtain ⟨front, himage, hparse⟩ := hfirst after hafter.table
  rw [hparse] at hothers
  obtain ⟨back, hback, hdocument⟩ := Option.bind_eq_some_iff.mp hothers
  obtain ⟨rest, hrest⟩ := Option.isSome_iff_exists.mp hafter.line
  obtain ⟨frontWith, part, room, himageWith, hpart, hroom, hparseWith⟩ :=
    hfirst.parse_table hsteps htable hrest
  have hfuel : (before ++ after).length ≤ (before ++ (table ++ after)).length := by
    simp only [List.length_append]
    omega
  obtain ⟨sections, hsections, hsame⟩ := hafter.exists_reads (size (before ++ (table ++ after)))
    hfuel hroom hback
  rw [readLines_congr _ _ _ (skipFiller_of_endLine hrest)] at hsections
  obtain ⟨hassignmentsWith, hsectionsWith⟩ := Prod.mk.inj (himageWith.trans himage.symm)
  refine ⟨front.1.map Assignment.unplaced, front.2.map Section.unplaced, back.2.map Section.unplaced, ?_, ?_⟩
  · rw [← List.map_append, ← document?_unplaced, hdocument, Option.map_some]
  · rw [hparseWith, hsections, Option.bind_some]
    dsimp only
    rw [document?_unplaced, List.append_nil, List.map_append, List.map_cons, hpart, hassignmentsWith,
      hsectionsWith, hsame]

/-- **A table can be written into every document that does not have it.** All other entries are what they
were, and the new one holds what is written in the table. -/
theorem parse_addTable {others : Entries} (hbefore : EndsLine before) (hafter : FollowsTable after)
    (hothers : parse (before ++ after) = some others) (hnew : ¬ others.Has name)
    (hnames : (entries.map Prod.fst).Nodup) (htable : SpelledTable name entries table) :
    ∃ all, parse (before ++ (table ++ after)) = some all ∧
      (all.named (· ≠ name)).unplaced = others.unplaced ∧
      (all.named (· = name)).unplaced =
        [(⟨name, nowhere⟩, .table nowhere .header (stringEntries entries))] := by
  obtain ⟨assignments, front, back, hdocument, hparse⟩ := parse_insertTable hbefore hafter hothers htable
  have hinner : assign? (tableSection name entries).assignments .header [] = some (stringEntries entries) :=
    assign?_entryAssignments hnames fun _ _ hhas => by simp [Entries.Has] at hhas
  obtain ⟨result, hresult, hkept, hadded⟩ := document?_insert (tableSection name entries)
    hdocument (fun hhas => hnew (Entries.has_unplaced.mp hhas)) rfl rfl hinner
  rw [hresult] at hparse
  obtain ⟨all, hall, rfl⟩ := Option.map_eq_some_iff.mp hparse
  rw [Entries.named_unplaced] at hkept hadded
  exact ⟨all, hall, hkept, hadded⟩

section MoreNames

variable {gap key spaces rest : List Char} {inner : String} {mark : Char}

/-- The first part of a key, whether more parts follow or not. -/
theorem topName_of_readPath {total limit : Nat} {s : List Char} {path : List Key} {last first : Key}
    {behind more : List Char} (hpath : readPath total limit s = some ((path, last), behind))
    (hkey : readKey total s = some (first, more)) : path.headD last = first := by
  cases limit with
  | zero => cases hpath
  | succ limit =>
      rw [readPath, hkey, Option.bind_eq_bind, Option.bind_some] at hpath
      dsimp only at hpath
      split at hpath
      · obtain ⟨⟨⟨front, final⟩, left⟩, _, heq⟩ := Option.bind_eq_some_iff.mp hpath
        rw [← (Prod.mk.inj (Prod.mk.inj (Option.some.inj heq)).1).1]
        rfl
      · rw [← (Prod.mk.inj (Prod.mk.inj (Option.some.inj hpath)).1).1,
          ← (Prod.mk.inj (Prod.mk.inj (Option.some.inj hpath)).1).2]
        rfl

/-- A line that starts with a key gives its name in the table, whatever comes behind the key. -/
theorem exists_topName {total room : Nat} {item : Reader Value} {first : List Char} {lines : Lines}
    (hkey : SpelledKey inner key) (hspaces : IsSpaceText spaces) (hmark : mark ∈ ['=', '.'])
    (hfirst : skipFiller false first = key ++ (spaces ++ mark :: rest))
    (hread : readLines total item room first = some lines) :
    ∃ assignment ∈ lines.1, assignment.topName = inner := by
  have hmarks : ∀ mark ∈ ['=', '.'], isBare mark = false := List.all_iff_forall_prop.mp (by decide)
  obtain ⟨c, cs, hcs, hc⟩ := hkey.exists_cons
  have hsome : skipFiller false first ≠ [] := by simp [hfirst, hcs]
  have hheader : ∀ ds, skipFiller false first = '[' :: ds → False := by
    intro ds hds
    rw [hfirst, hcs] at hds
    exact hc ((List.cons.inj hds).1 ▸ by decide)
  cases room with
  | zero =>
      rw [readLines.eq_2 _ _ _ hsome] at hread
      cases hread
  | succ room =>
      rw [readLines.eq_4 _ _ _ _ hsome hheader, hfirst] at hread
      obtain ⟨⟨assignment, line⟩, hassignment, hread⟩ := Option.bind_eq_some_iff.mp hread
      obtain ⟨behind, _, hread⟩ := Option.bind_eq_some_iff.mp hread
      obtain ⟨others, _, hread⟩ := Option.bind_eq_some_iff.mp hread
      refine ⟨assignment, Option.some.inj hread ▸ List.mem_cons_self .., ?_⟩
      obtain ⟨⟨⟨path, last⟩, afterPath⟩, hpath, hassignment⟩ := Option.bind_eq_some_iff.mp hassignment
      obtain ⟨afterSign, _, hassignment⟩ := Option.bind_eq_some_iff.mp hassignment
      obtain ⟨value, _, hassignment⟩ := Option.bind_eq_some_iff.mp hassignment
      rw [← (Prod.mk.inj (Option.some.inj hassignment)).1]
      obtain ⟨span, hname⟩ := hkey.readKey_append total (not_isBare_head? hspaces (hmarks mark hmark) rest)
      rw [Assignment.topName, topName_of_readPath hpath hname]

/-- **A name that is given in a table is in it.** Nothing that is written behind the name takes it out
again, as long as the document can be read at all. -/
theorem hasWithin_of_parse {all : Entries} (hbefore : EndsLine before)
    (htable : SpelledTable name entries table) (hgap : IsGap gap) (hkey : SpelledKey inner key)
    (hspaces : IsSpaceText spaces) (hmark : mark ∈ ['=', '.'])
    (hparse : parse (before ++ (table ++ (gap ++ (key ++ (spaces ++ mark :: rest))))) = some all) :
    all.HasWithin name inner := by
  obtain ⟨lines, steps, hsteps, hreads⟩ := hbefore.exists_readsFirst
  obtain ⟨first, hfirst⟩ := Option.isSome_iff_exists.mp
    (hgap.endLine_append (key ++ (spaces ++ mark :: rest)))
  obtain ⟨front, part, room, -, hpart, -, hparseTable⟩ := hreads.parse_table hsteps htable hfirst
  rw [hparseTable] at hparse
  obtain ⟨back, hback, hdocument⟩ := Option.bind_eq_some_iff.mp hparse
  have hskip : skipFiller false first = key ++ (spaces ++ mark :: rest) := by
    rw [← skipFiller_of_endLine hfirst, hgap.filler.skipFiller_append, hkey.skipFiller_append]
  obtain ⟨assignment, hassignment, htop⟩ := exists_topName hkey hspaces hmark hskip hback
  obtain ⟨hpath, hname, hplain, -, -⟩ := Section.mk.inj hpart
  rw [document?_eq] at hdocument
  obtain ⟨start, -, hdocument⟩ := Option.bind_eq_some_iff.mp hdocument
  rw [addSections_append] at hdocument
  obtain ⟨between, -, hdocument⟩ := Option.bind_eq_some_iff.mp hdocument
  rw [addSections_cons] at hdocument
  obtain ⟨changed, hchanged, hdocument⟩ := Option.bind_eq_some_iff.mp hdocument
  have hwithin := hasWithin_of_header { part with assignments := part.assignments ++ back.1 }
    (List.map_eq_nil_iff.mp hpath) hplain (List.mem_append_right _ hassignment) hchanged
  rw [htop, show part.key.name = name from (Key.mk.inj hname).1] at hwithin
  exact hasWithin_addSections hwithin hdocument

end MoreNames

end EntityClasses.Toml
