import EntityClasses.Proofs.TypeScript.ImportTable

/-! Filling import tables by any mix of additions and merges. All that counts is which symbols were inserted
with which sources, in which order: every table is the one that these insertions make one by one. A merge
replays the other table source by source and not in the order of its insertions. That makes no difference,
since a table keeps the order of first occurrences only, among its sources and among the symbols of each of
them, and both orders survive the replay. -/

namespace EntityClasses.TypeScript

section FirstOccurrences

variable {α : Type} [DecidableEq α]

theorem eraseDups_append_congr {as bs cs ds : List α} (hfront : as.eraseDups = cs.eraseDups)
    (hback : bs.eraseDups = ds.eraseDups) : (as ++ bs).eraseDups = (cs ++ ds).eraseDups := by
  calc (as ++ bs).eraseDups = (as.eraseDups ++ bs.eraseDups).eraseDups :=
        (eraseDups_append_eraseDups as bs).symm
    _ = (cs.eraseDups ++ ds.eraseDups).eraseDups := by rw [hfront, hback]
    _ = (cs ++ ds).eraseDups := eraseDups_append_eraseDups cs ds

theorem eraseDups_append_self (as : List α) : (as ++ as).eraseDups = as.eraseDups := by
  have hgone : as.removeAll as = [] := by simp [List.removeAll]
  rw [List.eraseDups_append, hgone, List.eraseDups_nil, List.append_nil]

/-- The names of groups, each written once for every member of its group. -/
theorem eraseDups_flatMap_names {β : Type} {groups : List (α × List β)}
    (hgroups : ∀ group ∈ groups, group.2 ≠ []) :
    (groups.flatMap fun group => group.2.map fun _ => group.1).eraseDups =
      (groups.map (·.1)).eraseDups := by
  induction groups with
  | nil => rfl
  | cons group groups ih =>
      rw [List.forall_mem_cons] at hgroups
      obtain ⟨hgroup, hgroups⟩ := hgroups
      have hname : (group.2.map fun _ => group.1).eraseDups = [group.1].eraseDups := by
        obtain ⟨member, members, hmembers⟩ := List.exists_cons_of_ne_nil hgroup
        simp [hmembers, List.eraseDups_cons]
      rw [List.flatMap_cons, List.map_cons, ← List.singleton_append]
      exact eraseDups_append_congr hname (ih hgroups)

end FirstOccurrences

namespace ImportTable

variable {pairs others : List (String × String)}

/-- Two lists of insertions in which the sources, and the symbols of every source, first occur in the same
order. -/
structure SameFirsts (pairs others : List (String × String)) : Prop where
  sources : (pairs.map (·.1)).eraseDups = (others.map (·.1)).eraseDups
  symbols : ∀ source, symbolsFrom source pairs = symbolsFrom source others

/-- A table does not tell such lists apart. -/
theorem SameFirsts.ofPairs_eq (hfirsts : SameFirsts pairs others) : ofPairs pairs = ofPairs others := by
  have hentries : (ofPairs pairs).entries = (ofPairs others).entries := by
    rw [entries_ofPairs, entries_ofPairs, hfirsts.sources]
    exact List.map_congr_left fun source _ => by rw [hfirsts.symbols]
  exact congrArg ImportTable.mk hentries

theorem SameFirsts.append_left (hfirsts : SameFirsts pairs others) (front : List (String × String)) :
    SameFirsts (front ++ pairs) (front ++ others) where
  sources := by
    rw [List.map_append, List.map_append]
    exact eraseDups_append_congr rfl hfirsts.sources
  symbols source := by
    unfold symbolsFrom
    rw [List.filter_append, List.filter_append, List.map_append, List.map_append]
    exact eraseDups_append_congr rfl (hfirsts.symbols source)

theorem sameFirsts_append_self (pairs : List (String × String)) : SameFirsts (pairs ++ pairs) pairs where
  sources := by
    rw [List.map_append]
    exact eraseDups_append_self _
  symbols source := by
    unfold symbolsFrom
    rw [List.filter_append, List.map_append]
    exact eraseDups_append_self _

/-- The symbols of a table, source by source, each with its source. -/
def toPairs (table : ImportTable) : List (String × String) :=
  pairsOf (·.1) (·.2) table.entries

theorem flatMap_symbols_of_source (source : String) (pairs : List (String × String)) :
    ((ofPairs pairs).entries.filter (·.1 = source)).flatMap (·.2) = symbolsFrom source pairs := by
  have hentries : (ofPairs pairs).entries.filter (·.1 = source) =
      ((pairs.map (·.1)).eraseDups.filter (· = source)).map
        fun source => (source, symbolsFrom source pairs) := by
    rw [entries_ofPairs, List.filter_map]
    rfl
  rw [hentries, List.filter_eq, (nodup_eraseDups _).count]
  split_ifs with hsource
  · simp
  · have hnone : symbolsFrom source pairs = [] := by
      rw [List.eq_nil_iff_forall_not_mem]
      intro symbol hsymbol
      apply hsource
      rw [List.mem_eraseDups]
      exact List.mem_map_of_mem (mem_symbolsFrom_iff.mp hsymbol)
    simp [hnone]

/-- Listing a table source by source keeps all that a table keeps. -/
theorem sameFirsts_toPairs (pairs : List (String × String)) : SameFirsts (ofPairs pairs).toPairs pairs where
  sources := by
    have hnonempty : ∀ entry ∈ (ofPairs pairs).entries, entry.2 ≠ [] :=
      fun entry hentry => (mem_entries_ofPairs_iff.mp hentry).2
    have hnames : (ofPairs pairs).toPairs.map (·.1) =
        (ofPairs pairs).entries.flatMap fun entry => entry.2.map fun _ => entry.1 := by
      rw [toPairs, pairsOf, List.map_flatMap]
      simp only [List.map_map, Function.comp_def]
    rw [hnames, eraseDups_flatMap_names hnonempty, sources_ofPairs,
      eraseDups_of_nodup (nodup_eraseDups _)]
  symbols source := by
    rw [toPairs, symbolsFrom_pairsOf, flatMap_symbols_of_source]
    exact eraseDups_of_nodup (nodup_eraseDups _)

theorem foldl_addAll_entries (pairs : List (String × String)) (entries : List (String × List String)) :
    entries.foldl (fun table entry => table.addAll entry.1 entry.2) (ofPairs pairs) =
      ofPairs (pairs ++ pairsOf (·.1) (·.2) entries) := by
  induction entries generalizing pairs with
  | nil => rw [List.foldl_nil, pairsOf, List.flatMap_nil, List.append_nil]
  | cons entry entries ih =>
      rw [List.foldl_cons, addAll_ofPairs, ih, pairsOf, pairsOf, List.flatMap_cons, List.append_assoc]

/-- Merging appends the insertions. -/
theorem merge_ofPairs (pairs others : List (String × String)) :
    (ofPairs pairs).merge (ofPairs others) = ofPairs (pairs ++ others) := by
  calc (ofPairs pairs).merge (ofPairs others) = ofPairs (pairs ++ (ofPairs others).toPairs) :=
        foldl_addAll_entries pairs _
    _ = ofPairs (pairs ++ others) := ((sameFirsts_toPairs others).append_left pairs).ofPairs_eq

/-- A way of filling a table: symbols are added, one at a time or many from one source, and tables are
merged that have been filled in such a way. -/
inductive Filling where
  | start
  | add (filling : Filling) (source symbol : String)
  | addAll (filling : Filling) (source : String) (symbols : List String)
  | merge (filling other : Filling)

namespace Filling

def table : Filling → ImportTable
  | start => empty
  | add filling source symbol => filling.table.add source symbol
  | addAll filling source symbols => filling.table.addAll source symbols
  | merge filling other => filling.table.merge other.table

/-- The symbols that have been inserted, each with its source, the earliest first. -/
def insertions : Filling → List (String × String)
  | start => []
  | add filling source symbol => filling.insertions ++ [(source, symbol)]
  | addAll filling source symbols => filling.insertions ++ symbols.map (source, ·)
  | merge filling other => filling.insertions ++ other.insertions

theorem table_eq_ofPairs (filling : Filling) : filling.table = ofPairs filling.insertions := by
  induction filling with
  | start => rfl
  | add filling source symbol ih =>
      rw [table, ih]
      exact addAll_ofPairs filling.insertions source [symbol]
  | addAll filling source symbols ih => rw [table, ih, addAll_ofPairs, insertions]
  | merge filling other ih ihOther => rw [table, ih, ihOther, merge_ofPairs, insertions]

end Filling

/-- What a table keeps of the insertions: every source once and every symbol of it once, both in the order
in which they were first inserted. -/
structure KeepsFirsts (table : ImportTable) (pairs : List (String × String)) : Prop where
  nodup_sources : (table.entries.map (·.1)).Nodup
  nodup_symbols : ∀ entry ∈ table.entries, entry.2.Nodup
  symbols_ne_nil : ∀ entry ∈ table.entries, entry.2 ≠ []
  sources : table.entries.map (·.1) = (pairs.map (·.1)).eraseDups
  symbols : ∀ entry ∈ table.entries,
    entry.2 = ((pairs.filter (·.1 = entry.1)).map (·.2)).eraseDups

theorem keepsFirsts_ofPairs (pairs : List (String × String)) : (ofPairs pairs).KeepsFirsts pairs where
  nodup_sources := nodup_sources_ofPairs pairs
  nodup_symbols _ hentry := nodup_of_mem_entries_ofPairs hentry
  symbols_ne_nil _ hentry := (mem_entries_ofPairs_iff.mp hentry).2
  sources := sources_ofPairs pairs
  symbols _ hentry := (mem_entries_ofPairs_iff.mp hentry).1

/-- The questions to a table are answered by its entries. -/
structure AnswersByEntries (table : ImportTable) : Prop where
  hasSource_iff : ∀ source, table.hasSource source = true ↔
    ∃ symbols, (source, symbols) ∈ table.entries
  hasSymbol_iff : ∀ source symbol, table.hasSymbol source symbol = true ↔
    ∃ symbols, (source, symbols) ∈ table.entries ∧ symbol ∈ symbols
  size_eq : table.size = table.entries.length
  isEmpty_iff : table.isEmpty = true ↔ table.entries = []

theorem symbols?_eq_some_iff {table : ImportTable} (hsources : (table.entries.map (·.1)).Nodup)
    (source : String) (symbols : List String) :
    table.symbols? source = some symbols ↔ (source, symbols) ∈ table.entries := by
  rw [symbols?, List.lookup_eq_some_iff]
  constructor
  · rintro ⟨front, back, hentries, -⟩
    rw [hentries]
    exact List.mem_append_right front List.mem_cons_self
  · intro hentry
    obtain ⟨front, back, hentries⟩ := List.append_of_mem hentry
    refine ⟨front, back, hentries, ?_⟩
    intro other hother
    rw [hentries, List.map_append, List.map_cons, List.nodup_append] at hsources
    simpa using Ne.symm (hsources.2.2 other.1 (List.mem_map_of_mem hother) source List.mem_cons_self)

theorem answersByEntries {table : ImportTable} (hsources : (table.entries.map (·.1)).Nodup) :
    table.AnswersByEntries where
  hasSource_iff source := by
    rw [hasSource, Option.isSome_iff_exists]
    simp only [symbols?_eq_some_iff hsources]
  hasSymbol_iff source symbol := by
    simp only [← symbols?_eq_some_iff hsources]
    unfold hasSymbol
    cases table.symbols? source <;> simp
  size_eq := rfl
  isEmpty_iff := List.isEmpty_iff

/-- **A table is made by its insertions alone**, however they are grouped: merging appends them, so it is
associative, empty tables do not matter to it, and a table gains nothing from itself. -/
theorem table_of_insertions :
    (∀ pairs others, (ofPairs pairs).merge (ofPairs others) = ofPairs (pairs ++ others)) ∧
    (∀ a b c : Filling, (a.table.merge b.table).merge c.table =
      a.table.merge (b.table.merge c.table)) ∧
    (∀ a : Filling, a.table.merge empty = a.table ∧ empty.merge a.table = a.table ∧
      a.table.merge a.table = a.table) ∧
    ∀ filling : Filling, filling.table = ofPairs filling.insertions ∧
      filling.table.KeepsFirsts filling.insertions ∧ filling.table.AnswersByEntries := by
  refine ⟨merge_ofPairs, ?_, ?_, ?_⟩
  · intro a b c
    simp only [Filling.table_eq_ofPairs, merge_ofPairs, List.append_assoc]
  · intro a
    have hempty : empty = ofPairs [] := rfl
    rw [a.table_eq_ofPairs, hempty]
    refine ⟨?_, ?_, ?_⟩
    · rw [merge_ofPairs, List.append_nil]
    · rw [merge_ofPairs, List.nil_append]
    · rw [merge_ofPairs]
      exact (sameFirsts_append_self a.insertions).ofPairs_eq
  · intro filling
    have htable := filling.table_eq_ofPairs
    refine ⟨htable, ?_, ?_⟩
    · rw [htable]
      exact keepsFirsts_ofPairs filling.insertions
    · rw [htable]
      exact answersByEntries (nodup_sources_ofPairs filling.insertions)

/-- A symbol from a source that is there already goes behind the symbols of that source. -/
example : (((Filling.start.add "b" "Zed").add "a" "Alpha").merge
    (((Filling.start.add "a" "Omega").add "c" "Last").add "a" "Alpha")).table.entries =
    [("b", ["Zed"]), ("a", ["Alpha", "Omega"]), ("c", ["Last"])] := by decide

end ImportTable

end EntityClasses.TypeScript
