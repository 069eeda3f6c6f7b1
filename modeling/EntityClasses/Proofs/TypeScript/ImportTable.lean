import Mathlib.Data.List.Induction
import Mathlib.Data.List.Nodup
import Mathlib.Data.List.Pairwise
import EntityClasses.TypeScript.ImportTable

/-! Filling an import table. What is entered is a list of symbols, each with its source. The table then has
one entry for each source, in the order in which the sources first occur, and every entry has the symbols
that were entered with its source, in the order in which these first occur. -/

namespace EntityClasses.TypeScript

section FirstOccurrences

variable {α : Type} [DecidableEq α]

theorem eraseDups_concat (as : List α) (a : α) :
    (as ++ [a]).eraseDups = if a ∈ as then as.eraseDups else as.eraseDups ++ [a] := by
  rw [List.eraseDups_append]
  by_cases ha : a ∈ as <;> simp [List.removeAll, ha, List.eraseDups_cons]

theorem nodup_eraseDups (as : List α) : as.eraseDups.Nodup := by
  induction as using List.reverseRecOn with
  | nil => simp
  | append_singleton as a ih =>
      rw [eraseDups_concat]
      split_ifs with ha
      · exact ih
      · rw [← List.concat_eq_append]
        exact ih.concat (mt List.mem_eraseDups.mp ha)

theorem eraseDups_of_nodup {as : List α} (has : as.Nodup) : as.eraseDups = as := by
  induction as using List.reverseRecOn with
  | nil => simp
  | append_singleton as a ih =>
      obtain ⟨hfront, -, happart⟩ := List.nodup_append.mp has
      have ha : a ∉ as := fun hmem => happart a hmem a List.mem_cons_self rfl
      rw [eraseDups_concat, if_neg ha, ih hfront]

theorem eraseDups_filter (keep : α → Bool) (as : List α) :
    (as.filter keep).eraseDups = as.eraseDups.filter keep := by
  induction as using List.reverseRecOn with
  | nil => simp
  | append_singleton as a ih =>
      rw [List.filter_append, eraseDups_concat]
      cases hkeep : keep a with
      | true =>
          rw [List.filter_cons_of_pos hkeep, List.filter_nil, eraseDups_concat, ih]
          by_cases ha : a ∈ as <;> simp [ha, hkeep]
      | false =>
          rw [List.filter_cons_of_neg (by simp [hkeep]), List.filter_nil, List.append_nil, ih]
          by_cases ha : a ∈ as <;> simp [ha, hkeep]

theorem eraseDups_append_eraseDups (as bs : List α) :
    (as.eraseDups ++ bs.eraseDups).eraseDups = (as ++ bs).eraseDups := by
  rw [List.eraseDups_append, List.eraseDups_append, eraseDups_of_nodup (nodup_eraseDups as)]
  congr 1
  rw [List.removeAll, List.removeAll, eraseDups_filter, eraseDups_filter,
    eraseDups_of_nodup (nodup_eraseDups bs)]
  simp

theorem insertOnce_of_mem {as : List String} {a : String} (ha : a ∈ as) : insertOnce as a = as := by
  rw [insertOnce, if_pos ha]

theorem insertOnce_of_notMem {as : List String} {a : String} (ha : a ∉ as) :
    insertOnce as a = as ++ [a] := by
  rw [insertOnce, if_neg ha]

theorem insertOnce_eraseDups (as : List String) (a : String) :
    insertOnce as.eraseDups a = (as ++ [a]).eraseDups := by
  rw [eraseDups_concat]
  by_cases ha : a ∈ as
  · rw [if_pos ha, insertOnce_of_mem (List.mem_eraseDups.mpr ha)]
  · rw [if_neg ha, insertOnce_of_notMem (mt List.mem_eraseDups.mp ha)]

theorem foldl_insertOnce (symbols : List String) : symbols.foldl insertOnce [] = symbols.eraseDups := by
  induction symbols using List.reverseRecOn with
  | nil => simp
  | append_singleton symbols symbol ih =>
      rw [List.foldl_append, ih]
      exact insertOnce_eraseDups symbols symbol

end FirstOccurrences

namespace ImportTable

/-- The table in which symbols are entered with their sources, one after the other. -/
def ofPairs (pairs : List (String × String)) : ImportTable :=
  pairs.foldl (fun table pair => table.add pair.1 pair.2) empty

/-- The symbols of one source, in the order of their first occurrences. -/
def symbolsFrom (source : String) (pairs : List (String × String)) : List String :=
  ((pairs.filter (·.1 = source)).map (·.2)).eraseDups

variable {source : String}

theorem mem_symbolsFrom_iff {symbol : String} {pairs : List (String × String)} :
    symbol ∈ symbolsFrom source pairs ↔ (source, symbol) ∈ pairs := by
  rw [symbolsFrom, List.mem_eraseDups]
  simp

theorem addEntry_map (symbol : String) (held : String → List String) {sources : List String}
    (hsources : sources.Nodup) (hnew : source ∉ sources → held source = []) :
    addEntry source symbol (sources.map fun other => (other, held other)) =
      (insertOnce sources source).map fun other =>
        (other, if other = source then insertOnce (held other) symbol else held other) := by
  induction sources with
  | nil => simp [addEntry, insertOnce, hnew]
  | cons first sources ih =>
      rw [List.nodup_cons] at hsources
      rw [List.map_cons, addEntry]
      by_cases hfirst : first = source
      · subst hfirst
        rw [if_pos rfl, insertOnce_of_mem List.mem_cons_self, List.map_cons, if_pos rfl]
        congr 1
        refine List.map_congr_left fun other hother => ?_
        rw [if_neg]
        rintro rfl
        exact hsources.1 hother
      · rw [if_neg hfirst, ih hsources.2 fun hother => hnew (by simp [hother, Ne.symm hfirst])]
        have hinsert : insertOnce (first :: sources) source = first :: insertOnce sources source := by
          by_cases hmem : source ∈ sources <;> simp [insertOnce, hmem, Ne.symm hfirst]
        rw [hinsert, List.map_cons, if_neg hfirst]

theorem symbolsFrom_concat (other source symbol : String) (pairs : List (String × String)) :
    symbolsFrom other (pairs ++ [(source, symbol)]) =
      if other = source then insertOnce (symbolsFrom other pairs) symbol
      else symbolsFrom other pairs := by
  rw [symbolsFrom, symbolsFrom, List.filter_append]
  split_ifs with hother
  · subst hother
    rw [List.filter_cons_of_pos (by simp), List.filter_nil, List.map_append, List.map_singleton,
      insertOnce_eraseDups]
  · rw [List.filter_cons_of_neg (by simp [Ne.symm hother]), List.filter_nil, List.append_nil]

/-- The entries of a table in the terms of what was entered. -/
theorem entries_ofPairs (pairs : List (String × String)) :
    (ofPairs pairs).entries =
      (pairs.map (·.1)).eraseDups.map fun source => (source, symbolsFrom source pairs) := by
  induction pairs using List.reverseRecOn with
  | nil => rfl
  | append_singleton pairs pair ih =>
      obtain ⟨source, symbol⟩ := pair
      have hofPairs : ofPairs (pairs ++ [(source, symbol)]) = (ofPairs pairs).add source symbol := by
        rw [ofPairs, List.foldl_append]
        rfl
      have hnew : source ∉ (pairs.map (·.1)).eraseDups → symbolsFrom source pairs = [] := by
        intro hsource
        rw [List.mem_eraseDups] at hsource
        rw [List.eq_nil_iff_forall_not_mem]
        intro other hother
        exact hsource (List.mem_map_of_mem (mem_symbolsFrom_iff.mp hother))
      have hsources : ((pairs ++ [(source, symbol)]).map (·.1)).eraseDups =
          insertOnce (pairs.map (·.1)).eraseDups source := by
        rw [List.map_append, List.map_singleton, insertOnce_eraseDups]
      rw [hofPairs, add, ih, addEntry_map symbol _ (nodup_eraseDups _) hnew, hsources]
      exact List.map_congr_left fun other _ => by rw [symbolsFrom_concat]

theorem addAll_ofPairs (pairs : List (String × String)) (source : String) (symbols : List String) :
    (ofPairs pairs).addAll source symbols = ofPairs (pairs ++ symbols.map (source, ·)) := by
  rw [ofPairs, ofPairs, List.foldl_append, List.foldl_map]
  rfl

theorem mem_entries_ofPairs_iff {pairs : List (String × String)} {symbols : List String} :
    (source, symbols) ∈ (ofPairs pairs).entries ↔ symbols = symbolsFrom source pairs ∧ symbols ≠ [] := by
  rw [entries_ofPairs]
  simp only [List.mem_map, List.mem_eraseDups, Prod.mk.injEq]
  constructor
  · rintro ⟨_, ⟨pair, hpair, rfl⟩, rfl, rfl⟩
    exact ⟨rfl, List.ne_nil_of_mem (mem_symbolsFrom_iff.mpr hpair)⟩
  · rintro ⟨rfl, hsymbols⟩
    obtain ⟨symbol, hsymbol⟩ := List.exists_mem_of_ne_nil _ hsymbols
    exact ⟨source, ⟨(source, symbol), mem_symbolsFrom_iff.mp hsymbol, rfl⟩, rfl, rfl⟩

theorem sources_ofPairs (pairs : List (String × String)) :
    (ofPairs pairs).entries.map (·.1) = (pairs.map (·.1)).eraseDups := by
  rw [entries_ofPairs, List.map_map]
  exact List.map_id _

theorem nodup_sources_ofPairs (pairs : List (String × String)) :
    ((ofPairs pairs).entries.map (·.1)).Nodup := by
  rw [sources_ofPairs]
  exact nodup_eraseDups _

theorem nodup_of_mem_entries_ofPairs {pairs : List (String × String)} {entry : String × List String}
    (hentry : entry ∈ (ofPairs pairs).entries) : entry.2.Nodup := by
  rw [(mem_entries_ofPairs_iff.mp hentry).1]
  exact nodup_eraseDups _

theorem mem_imports_iff (table : ImportTable) (source : String) (names : List String) :
    ⟨source, names⟩ ∈ table.imports ↔ (source, names) ∈ table.entries ∧ names ≠ [] := by
  simp [imports]

section Groups

variable {γ : Type} (sourceOf : γ → String) (symbolsOf : γ → List String)

/-- The symbols of groups, a group after the other, each with the source of its group. -/
def pairsOf (groups : List γ) : List (String × String) :=
  groups.flatMap fun group => (symbolsOf group).map (sourceOf group, ·)

theorem mem_pairsOf_iff (groups : List γ) (source symbol : String) :
    (source, symbol) ∈ pairsOf sourceOf symbolsOf groups ↔
      ∃ group ∈ groups, sourceOf group = source ∧ symbol ∈ symbolsOf group := by
  simp only [pairsOf, List.mem_flatMap, List.mem_map, Prod.mk.injEq]
  constructor
  · rintro ⟨group, hgroup, _, hsymbol, hsource, rfl⟩
    exact ⟨group, hgroup, hsource, hsymbol⟩
  · rintro ⟨group, hgroup, hsource, hsymbol⟩
    exact ⟨group, hgroup, symbol, hsymbol, hsource, rfl⟩

theorem symbolsFrom_pairsOf (groups : List γ) (source : String) :
    symbolsFrom source (pairsOf sourceOf symbolsOf groups) =
      ((groups.filter (sourceOf · = source)).flatMap symbolsOf).eraseDups := by
  have hpairs : ((pairsOf sourceOf symbolsOf groups).filter (·.1 = source)).map (·.2) =
      (groups.filter (sourceOf · = source)).flatMap symbolsOf := by
    induction groups with
    | nil => rfl
    | cons group groups ih =>
        rw [pairsOf, List.flatMap_cons, List.filter_append, List.map_append, ← pairsOf, ih]
        by_cases hgroup : sourceOf group = source
        · rw [List.filter_cons_of_pos (by simpa using hgroup), List.flatMap_cons]
          simp [hgroup, List.filter_map, Function.comp_def]
        · rw [List.filter_cons_of_neg (by simpa using hgroup)]
          simp [hgroup]
  rw [symbolsFrom, hpairs]

/-- The sources stand in the order of the groups. -/
theorem sources_ofPairs_sublist (groups : List γ) :
    ((ofPairs (pairsOf sourceOf symbolsOf groups)).entries.map (·.1)).Sublist
      (groups.map sourceOf) := by
  rw [sources_ofPairs]
  induction groups with
  | nil => simp [pairsOf]
  | cons group groups ih =>
      have hfirst : ((symbolsOf group).map fun _ => sourceOf group).eraseDups.Sublist
          [sourceOf group] := by
        cases symbolsOf group with
        | nil => simp
        | cons symbol symbols => simp [List.eraseDups_cons]
      rw [pairsOf, List.flatMap_cons, List.map_append, List.map_map, List.eraseDups_append,
        List.map_cons, ← List.singleton_append]
      refine List.Sublist.append hfirst (List.Sublist.trans ?_ ih)
      rw [List.removeAll, eraseDups_filter]
      exact List.filter_sublist

end Groups

section Names

variable (table : ImportTable)

/-- The names that the statements of a table bind, a statement after the other. -/
def boundNames : List String :=
  table.imports.flatMap (·.names)

theorem boundNames_eq : table.boundNames = table.entries.flatMap (·.2) := by
  rw [boundNames, imports]
  induction table.entries with
  | nil => rfl
  | cons entry entries ih =>
      rw [List.flatMap_cons, ← ih]
      cases hsymbols : entry.2 <;> simp [hsymbols]

/-- No name is bound twice exactly when none has two sources. -/
theorem nodup_boundNames_iff {table : ImportTable} (hsources : (table.entries.map (·.1)).Nodup)
    (hsymbols : ∀ entry ∈ table.entries, entry.2.Nodup) :
    table.boundNames.Nodup ↔ ∀ entry ∈ table.entries, ∀ other ∈ table.entries,
      ∀ symbol ∈ entry.2, symbol ∈ other.2 → entry.1 = other.1 := by
  rw [boundNames_eq, List.nodup_flatMap]
  constructor
  · rintro ⟨-, hdisjoint⟩ entry hentry other hother symbol hsymbol hsymbolOther
    have hsymm : Std.Symm (Function.onFun List.Disjoint fun entry : String × List String => entry.2) :=
      ⟨fun _ _ hapart _ hleft hright => hapart hright hleft⟩
    by_contra hne
    exact hdisjoint.forall hentry hother (fun heq => hne (congrArg Prod.fst heq)) hsymbol hsymbolOther
  · intro hone
    refine ⟨hsymbols, (List.pairwise_map.mp hsources).imp_of_mem ?_⟩
    intro entry other hentry hother hne symbol hsymbol hsymbolOther
    exact hne (hone entry hentry other hother symbol hsymbol hsymbolOther)

end Names

end ImportTable

end EntityClasses.TypeScript
