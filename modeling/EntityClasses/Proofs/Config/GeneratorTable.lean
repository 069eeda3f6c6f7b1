import EntityClasses.Config
import EntityClasses.Proofs.Toml.AddedTable

/-! Configurations that are written as a table `generator` of strings. Every choice of options comes back
from it, whatever other tables stand around it, in whichever order and spelling its entries are written; and
with a name that belongs to no option it is no configuration. -/

namespace EntityClasses.Config

open Text Toml

section Places

mutual

/-- Whether numbers can be held does not depend on where they stand. -/
theorem isReadable_unplaced : ∀ value : Value, isReadable value.unplaced = isReadable value
  | .array _ _ items => by
      rw [Value.unplaced, isReadable, isReadable, areReadable_unplaced items]
  | .table _ _ entries => by
      rw [Value.unplaced, isReadable, isReadable, entriesAreReadable_unplaced entries]
  | .string _ _ | .integer _ _ | .float _ _ | .boolean _ _ | .date _ => by
      simp only [Value.unplaced, isReadable]

theorem areReadable_unplaced : ∀ items : List Value,
    areReadable (Value.unplacedItems items) = areReadable items
  | [] => rfl
  | value :: values => by
      rw [Value.unplacedItems, areReadable, areReadable, isReadable_unplaced value,
        areReadable_unplaced values]

theorem entriesAreReadable_unplaced : ∀ entries : List (Key × Value),
    entriesAreReadable (Value.unplacedEntries entries) = entriesAreReadable entries
  | [] => rfl
  | (_, value) :: entries => by
      rw [Value.unplacedEntries, entriesAreReadable, entriesAreReadable, isReadable_unplaced value,
        entriesAreReadable_unplaced entries]

end

end Places

namespace RawSettings

def get (settings : RawSettings) : ConfigKey → Option String
  | .output => settings.output
  | .enumDir => settings.enumDir
  | .modelDir => settings.modelDir
  | .schema => settings.schema

def set (settings : RawSettings) (key : ConfigKey) (text : String) : RawSettings :=
  match key with
  | .output => { settings with output := some text }
  | .enumDir => { settings with enumDir := some text }
  | .modelDir => { settings with modelDir := some text }
  | .schema => { settings with schema := some text }

@[simp] theorem get_set (settings : RawSettings) (key other : ConfigKey) (text : String) :
    (settings.set key text).get other = if key = other then some text else settings.get other := by
  cases key <;> cases other <;> rfl

end RawSettings

section Options

variable {entries : Entries} {entry : Key × Value} {texts : ConfigKey → Option String}

/-- No two options have the same name. -/
theorem key_eq_of_name_eq {key other : ConfigKey} (hname : key.name = other.name) : key = other := by
  revert hname
  cases key <;> cases other <;> decide

/-- An entry with the name of an option sets that option. -/
theorem addEntry_of_string {key : ConfigKey} {span : Span} {text : String} (hname : entry.1.name = key.name)
    (hvalue : entry.2 = .string span text) (settings : RawSettings) :
    settings.addEntry entry = .ok (settings.set key text) := by
  obtain ⟨⟨name, place⟩, value⟩ := entry
  obtain rfl : name = key.name := hname
  obtain rfl : value = .string span text := hvalue
  cases key <;> rfl

theorem addEntry_of_unknown (hname : ∀ key : ConfigKey, key.name ≠ entry.1.name) (settings : RawSettings) :
    settings.addEntry entry = .error (.unknownField entry.1.name entry.1.span) := by
  rw [RawSettings.addEntry]
  split
  · next h => exact absurd h.symm (hname .output)
  · next h => exact absurd h.symm (hname .enumDir)
  · next h => exact absurd h.symm (hname .modelDir)
  · next h => exact absurd h.symm (hname .schema)
  · rfl

/-- The entry of an option, as a string with the text that the option has. -/
def Sets (texts : ConfigKey → Option String) (entry : Key × Value) : Prop :=
  ∃ key span text, entry.1.name = key.name ∧ entry.2 = .string span text ∧ texts key = some text

/-- Options are set by their own entries, in whichever order these are looked at. -/
theorem foldlM_addEntry (hentries : ∀ entry ∈ entries, Sets texts entry) (start : RawSettings) :
    ∃ settings, entries.foldlM RawSettings.addEntry start = .ok settings ∧
      ∀ key, (entries.Has key.name → settings.get key = texts key) ∧
        (¬ entries.Has key.name → settings.get key = start.get key) := by
  induction entries generalizing start with
  | nil =>
      refine ⟨start, rfl, fun key => ⟨?_, fun _ => rfl⟩⟩
      rintro ⟨_, hmem, _⟩
      cases hmem
  | cons entry entries ih =>
      obtain ⟨⟨key, span, text, hname, hvalue, htext⟩, hentries⟩ := List.forall_mem_cons.mp hentries
      obtain ⟨settings, hsettings, hget⟩ := ih hentries (start.set key text)
      refine ⟨settings, ?_, fun other => ?_⟩
      · rw [List.foldlM_cons, addEntry_of_string hname hvalue]
        exact hsettings
      have hcons : Entries.Has (entry :: entries) other.name ↔
          key = other ∨ Entries.Has entries other.name := by
        rw [Entries.has_cons, hname]
        exact or_congr_left ⟨key_eq_of_name_eq, congrArg ConfigKey.name⟩
      rw [hcons]
      -- A later entry of the same option sets the same text once more.
      by_cases hlater : Entries.Has entries other.name
      · exact ⟨fun _ => (hget other).1 hlater, fun hnone => absurd (Or.inr hlater) hnone⟩
      · rw [(hget other).2 hlater, RawSettings.get_set]
        by_cases hkey : key = other
        · simp [hkey, ← htext]
        · simp [hkey, hlater]

end Options

section Folds

variable {α : Type} {step : RawSettings → α → Except ConfigFault RawSettings} {items : List α} {item : α}

/-- One entry that is a fault in any case is a fault of the whole. -/
theorem foldlM_of_fault (hmem : item ∈ items)
    (hfault : ∀ settings, ∃ fault, step settings item = .error fault) (start : RawSettings) :
    ∃ fault, items.foldlM step start = .error fault := by
  induction items generalizing start with
  | nil => cases hmem
  | cons first items ih =>
      rw [List.foldlM_cons]
      cases hfirst : step start first with
      | error fault => exact ⟨fault, rfl⟩
      | ok settings =>
          rcases List.mem_cons.mp hmem with rfl | hmem
          · obtain ⟨fault, hfault⟩ := hfault start
            rw [hfirst] at hfault
            cases hfault
          · exact ih hmem settings

end Folds

section Documents

/-- A text loads as the configuration with these texts in its options. -/
def Carries (source : SourceText) (texts : ConfigKey → Option String) : Prop :=
  ∃ config, load source = .ok config ∧ config.baseDir = none ∧
    ∀ key, config.get key = (texts key).map fun text => .file (EnvValue.parse text)

/-- A text is no configuration. -/
def IsRejected (source : SourceText) : Prop :=
  ∃ fault, load source = .error (.badConfig source fault)

variable {entries : Entries} {settings : RawSettings} {name : String}

theorem mem_byName {entry : Key × Value} : entry ∈ byName entries ↔ entry ∈ entries :=
  (List.mergeSort_perm entries _).mem_iff

theorem has_byName : (byName entries).Has name ↔ entries.Has name := by
  simp only [Entries.Has, mem_byName]

/-- The other entries of a document leave the settings of its table `generator` as they are. -/
theorem foldlM_addTopEntry
    (hothers : ∀ entry ∈ entries, entry.1.name ≠ "generator" → isReadable entry.2 = true)
    (hgenerator : ∀ entry ∈ entries, entry.1.name = "generator" →
      generatorSettings entry.2 = .ok settings)
    (start : RawSettings) (hstart : entries.Has "generator" ∨ start = settings) :
    entries.foldlM addTopEntry start = .ok settings := by
  induction entries generalizing start with
  | nil =>
      rcases hstart with ⟨_, hmem, _⟩ | rfl
      · cases hmem
      · rfl
  | cons entry entries ih =>
      obtain ⟨hother, hothers⟩ := List.forall_mem_cons.mp hothers
      obtain ⟨hentry, hgenerator⟩ := List.forall_mem_cons.mp hgenerator
      rw [List.foldlM_cons, addTopEntry]
      by_cases hname : entry.1.name = "generator"
      · rw [if_pos hname, hentry hname]
        exact ih hothers hgenerator settings (Or.inr rfl)
      · rw [if_neg hname, if_pos (hother hname)]
        exact ih hothers hgenerator start (hstart.imp_left fun hhas =>
          (Entries.has_cons.mp hhas).resolve_left hname)

/-- The settings of a table in which each option that has a text has it as a string. -/
theorem generatorSettings_table {texts : ConfigKey → Option String} (span : Span) (origin : Origin)
    (hentries : ∀ entry ∈ entries, Sets texts entry)
    (hgiven : ∀ key, (texts key).isSome → entries.Has key.name) :
    ∃ settings, generatorSettings (.table span origin entries) = .ok settings ∧
      ∀ key, settings.get key = texts key := by
  have hsets : ∀ entry ∈ byName entries, Sets texts entry := fun entry hentry =>
    hentries entry (mem_byName.mp hentry)
  obtain ⟨settings, hsettings, hget⟩ := foldlM_addEntry hsets {}
  refine ⟨settings, hsettings, fun key => ?_⟩
  by_cases hhas : entries.Has key.name
  · exact (hget key).1 (has_byName.mpr hhas)
  · have hnone : texts key = none := Option.not_isSome_iff_eq_none.mp (mt (hgiven key) hhas)
    rw [(hget key).2 (mt has_byName.mp hhas), hnone]
    cases key <;> rfl

/-- A name that belongs to no option is a fault wherever it stands in the table. -/
theorem generatorSettings_of_unknown (span : Span) (origin : Origin) (hhas : entries.Has name)
    (hname : ∀ key : ConfigKey, key.name ≠ name) :
    ∃ fault, generatorSettings (.table span origin entries) = .error fault := by
  obtain ⟨entry, hentry, rfl⟩ := has_byName.mpr hhas
  exact foldlM_of_fault hentry (fun settings => ⟨_, addEntry_of_unknown hname settings⟩) {}

theorem chars_ofList (file : String) (s : List Char) : (SourceText.mk file (.ofList s)).chars = s :=
  String.toList_ofList

theorem carries_of_readSettings {source : SourceText} {texts : ConfigKey → Option String}
    (hread : readSettings source.chars = .ok settings) (hget : ∀ key, settings.get key = texts key) :
    Carries source texts := by
  rw [Carries, load, hread]
  refine ⟨_, rfl, rfl, fun key => ?_⟩
  rw [← hget]
  cases key <;> rfl

/-- A name in the table `generator` that belongs to no option, whatever else the document has. -/
theorem isRejected_of_unknown {source : SourceText} (hparse : parse source.chars = some entries)
    (hwithin : entries.HasWithin "generator" name) (hname : ∀ key : ConfigKey, key.name ≠ name) :
    IsRejected source := by
  obtain ⟨span, origin, inner, hfind, hinner⟩ := hwithin
  obtain ⟨key, hmem, hkey⟩ := Entries.exists_mem_of_find? hfind
  obtain ⟨fault, hfault⟩ := generatorSettings_of_unknown span origin hinner hname
  have hentry : ∀ settings, ∃ fault, addTopEntry settings (key, .table span origin inner) = .error fault :=
    fun settings => ⟨fault, by rw [addTopEntry, if_pos hkey, hfault]⟩
  obtain ⟨first, hfirst⟩ := foldlM_of_fault (mem_byName.mpr hmem) hentry {}
  refine ⟨first, ?_⟩
  rw [load, readSettings, hparse]
  dsimp only
  rw [hfirst]

end Documents

section Written

/-- The entries that give these texts, in some order of the options. -/
def givenEntries (texts : ConfigKey → Option String) (order : List ConfigKey) : List (String × String) :=
  order.filterMap fun key => (texts key).map fun text => (key.name, text)

/-- A document in two parts, between which a table `generator` may stand. The first part ends a line, and
the second goes on with a table; neither gives a `generator` of its own, or a number that cannot be held. -/
structure LeavesGenerator (before after : List Char) : Prop where
  endsLine : EndsLine before
  followsTable : FollowsTable after
  others : ∃ others ∈ parse (before ++ after),
    ∀ entry ∈ others, entry.1.name ≠ "generator" ∧ isReadable entry.2 = true

variable {before after table : List Char} {texts : ConfigKey → Option String} {order : List ConfigKey}

theorem mem_givenEntries {entry : String × String} :
    entry ∈ givenEntries texts order ↔
      ∃ key ∈ order, texts key = some entry.2 ∧ key.name = entry.1 := by
  obtain ⟨name, text⟩ := entry
  simp only [givenEntries, List.mem_filterMap, Option.map_eq_some_iff, Prod.mk.injEq]
  constructor
  · rintro ⟨key, hkey, _, htext, rfl, rfl⟩
    exact ⟨key, hkey, htext, rfl⟩
  · rintro ⟨key, hkey, htext, rfl⟩
    exact ⟨key, hkey, text, htext, rfl, rfl⟩

theorem nodup_givenEntries (horder : order.Nodup) : ((givenEntries texts order).map Prod.fst).Nodup := by
  induction order with
  | nil => exact List.nodup_nil
  | cons key order ih =>
      obtain ⟨hkey, horder⟩ := List.nodup_cons.mp horder
      cases htext : texts key with
      | none => simpa [givenEntries, htext] using ih horder
      | some text =>
          have hcons : givenEntries texts (key :: order) = (key.name, text) :: givenEntries texts order := by
            simp [givenEntries, htext]
          rw [hcons, List.map_cons, List.nodup_cons]
          refine ⟨fun hmem => ?_, ih horder⟩
          obtain ⟨entry, hentry, hname⟩ := List.mem_map.mp hmem
          obtain ⟨other, hother, -, hsame⟩ := mem_givenEntries.mp hentry
          exact hkey (key_eq_of_name_eq (hsame.trans hname) ▸ hother)

/-- A table with these entries has the texts as the settings of their options. -/
theorem sets_of_unplaced {inner : Entries} (hinner : inner.unplaced = stringEntries (givenEntries texts order)) :
    ∀ entry ∈ inner, Sets texts entry := by
  intro entry hentry
  have himage := hinner ▸ Entries.unplaced_mem hentry
  obtain ⟨given, hgiven, heq⟩ := List.mem_map.mp himage
  obtain ⟨key, -, htext, hname⟩ := mem_givenEntries.mp hgiven
  obtain ⟨hkey, hvalue⟩ := Prod.mk.inj heq
  obtain ⟨span, hstring⟩ := Value.unplaced_eq_string hvalue.symm
  exact ⟨key, span, given.2, (Key.mk.inj hkey).1.symm.trans hname.symm, hstring, htext⟩

theorem has_of_unplaced {inner : Entries} (hinner : inner.unplaced = stringEntries (givenEntries texts order))
    (hall : ∀ key, key ∈ order) (key : ConfigKey) (hgiven : (texts key).isSome) : inner.Has key.name := by
  obtain ⟨text, htext⟩ := Option.isSome_iff_exists.mp hgiven
  rw [← Entries.has_unplaced, hinner]
  have hmem : (key.name, text) ∈ givenEntries texts order :=
    mem_givenEntries.mpr ⟨key, hall key, htext, rfl⟩
  exact ⟨_, List.mem_map_of_mem hmem, rfl⟩

/-- The settings of a table that stands between two parts of a document. -/
theorem readSettings_of_generatorTable (hdocument : LeavesGenerator before after) (horder : order.Nodup)
    (hall : ∀ key, key ∈ order) (htable : SpelledTable "generator" (givenEntries texts order) table) :
    ∃ settings, readSettings (before ++ (table ++ after)) = .ok settings ∧
      ∀ key, settings.get key = texts key := by
  obtain ⟨hbefore, hafter, others, hothers, hreadable⟩ := hdocument
  have hnew : ¬ others.Has "generator" := fun ⟨entry, hmem, hname⟩ => (hreadable entry hmem).1 hname
  obtain ⟨all, hparse, hkept, hadded⟩ :=
    parse_addTable hbefore hafter hothers hnew (nodup_givenEntries horder) htable
  obtain ⟨⟨place, value⟩, hgenerator, himage⟩ := List.map_eq_singleton_iff.mp hadded
  obtain ⟨span, inner, rfl, hinner⟩ := Value.unplaced_eq_table (Prod.mk.inj himage).2
  obtain ⟨settings, hsettings, hget⟩ :=
    generatorSettings_table span .header (sets_of_unplaced hinner) (has_of_unplaced hinner hall)
  refine ⟨settings, ?_, hget⟩
  have hothersRead : ∀ entry ∈ byName all, entry.1.name ≠ "generator" → isReadable entry.2 = true := by
    intro entry hentry hname
    have hmem : entry ∈ all.named (· ≠ "generator") :=
      List.mem_filter.mpr ⟨mem_byName.mp hentry, decide_eq_true hname⟩
    obtain ⟨other, hother, heq⟩ := List.mem_map.mp (hkept ▸ Entries.unplaced_mem hmem)
    rw [← isReadable_unplaced, ← (Prod.mk.inj heq).2, isReadable_unplaced]
    exact (hreadable other hother).2
  have hgeneratorRead : ∀ entry ∈ byName all, entry.1.name = "generator" →
      generatorSettings entry.2 = .ok settings := by
    intro entry hentry hname
    have hmem : entry ∈ all.named (· = "generator") :=
      List.mem_filter.mpr ⟨mem_byName.mp hentry, decide_eq_true hname⟩
    rw [hgenerator] at hmem
    rw [List.mem_singleton.mp hmem, hsettings]
  have hhas : all.Has "generator" := by
    have hmem : (place, Value.table span .header inner) ∈ all.named (· = "generator") := by
      rw [hgenerator]
      exact List.mem_singleton_self _
    exact ⟨_, (List.mem_filter.mp hmem).1, of_decide_eq_true (List.mem_filter.mp hmem).2⟩
  rw [readSettings, hparse]
  exact foldlM_addTopEntry hothersRead hgeneratorRead {} (Or.inl (has_byName.mpr hhas))

/-- **A configuration file carries its options faithfully.** Around a table `generator` there may be any
other tables. Every choice of texts can be written as such a table, in every order of the options and every
spelling of the names and texts, and loads as a configuration in which an option is absent exactly when it
has no text, and otherwise is the value that its own text stands for. A document in which the table has a
name that belongs to no option does not load; and such a name in the table is enough for that, whatever
comes behind it. -/
theorem load_of_generatorTable (hdocument : LeavesGenerator before after) (file : String) :
    (∀ (texts : ConfigKey → Option String) (order : List ConfigKey), order.Nodup → (∀ key, key ∈ order) →
      (∃ table, SpelledTable "generator" (givenEntries texts order) table) ∧
      ∀ table, SpelledTable "generator" (givenEntries texts order) table →
        Carries ⟨file, .ofList (before ++ (table ++ after))⟩ texts) ∧
    ∀ name, (∀ option : ConfigKey, option.name ≠ name) →
      (∀ source : SourceText, ∀ entries ∈ parse source.chars, entries.HasWithin "generator" name →
        IsRejected source) ∧
      ∀ entries table gap key spaces mark rest, SpelledTable "generator" entries table → IsGap gap →
        SpelledKey name key → IsSpaceText spaces → mark ∈ ['=', '.'] →
        IsRejected ⟨file, .ofList (before ++ (table ++ (gap ++ (key ++ (spaces ++ mark :: rest)))))⟩ := by
  refine ⟨fun texts order horder hall => ⟨exists_spelledTable _ _, fun table htable => ?_⟩,
    fun name hname => ⟨fun source entries hparse hwithin => isRejected_of_unknown hparse hwithin hname, ?_⟩⟩
  · obtain ⟨settings, hsettings, hget⟩ := readSettings_of_generatorTable hdocument horder hall htable
    exact carries_of_readSettings (by rw [chars_ofList, hsettings]) hget
  · intro entries table gap key spaces mark rest htable hgap hkey hspaces hmark
    cases hparse : parse (before ++ (table ++ (gap ++ (key ++ (spaces ++ mark :: rest))))) with
    | none => exact ⟨.malformed, by rw [load, readSettings, chars_ofList, hparse]⟩
    | some all =>
        have hwithin := hasWithin_of_parse hdocument.endsLine htable hgap hkey hspaces hmark hparse
        exact isRejected_of_unknown (by rw [chars_ofList, hparse]) hwithin hname

/-- The front of a document, up to the line where a table may start. -/
def titledFront : List Char :=
  "title = 'demo'\n\n[other]\noutput = 3\n".toList

/-- The rest of that document, with the end of the line where a table may stop. -/
def lastTable : List Char :=
  " # from outside\n\n[[last]]\nname = \"z\"\n".toList

/-- Two of the options, not in their usual order. -/
def schemaAndOutput : List Char :=
  "[generator]\nschema = \"a\\tb\"\n'output'='env(\"OUT\")'".toList

theorem spelledTable_schemaAndOutput :
    SpelledTable "generator" [("schema", "a\tb"), ("output", "env(\"OUT\")")] schemaAndOutput := by
  have hfirst : SpelledChar 'a' ['a'] := .plain (by decide) (by decide) (by decide)
  have hlast : SpelledChar 'b' ['b'] := .plain (by decide) (by decide) (by decide)
  have hschema : SpelledEntry ("schema", "a\tb") "schema = \"a\\tb\"".toList := by
    have hwritten : "schema = \"a\\tb\"".toList =
        "schema".toList ++ ([' '] ++ '=' :: ([' '] ++
          '"' :: ((['a'] ++ (['\\', 't'] ++ (['b'] ++ []))) ++ ['"']))) := by
      decide +kernel
    have htext : "a\tb".toList = ['a', '\t', 'b'] := by decide +kernel
    rw [hwritten]
    refine .assign (.bare (by decide +kernel) (List.all_eq_true.mp (by decide +kernel))) (by decide)
      (by decide) (.basic ?_)
    rw [htext]
    exact .cons hfirst (.cons (.letter (by decide)) (.cons hlast .nil))
  have houtput : SpelledEntry ("output", "env(\"OUT\")") "'output'='env(\"OUT\")'".toList := by
    have hwritten : "'output'='env(\"OUT\")'".toList = '\'' :: ("output".toList ++ ['\'']) ++
        ([] ++ '=' :: ([] ++ '\'' :: ("env(\"OUT\")".toList ++ ['\'']))) := by
      decide +kernel
    rw [hwritten]
    exact .assign (.quoted (.literal (List.all_iff_forall_prop.mp (by decide +kernel)))) (by decide)
      (by decide) (.literal (List.all_iff_forall_prop.mp (by decide +kernel)))
  have hwritten : schemaAndOutput = [] ++ '[' :: ([] ++ ("generator".toList ++ ([] ++ [']']))) ++
      [['\n'] ++ "schema = \"a\\tb\"".toList, ['\n'] ++ "'output'='env(\"OUT\")'".toList].flatten := by
    decide +kernel
  rw [hwritten]
  have hname : SpelledKey "generator" "generator".toList :=
    .bare (by decide +kernel) (List.all_eq_true.mp (by decide +kernel))
  exact .lines (.brackets (by decide) (by decide) hname (by decide))
    (.cons (.behind isGap_newline hschema) (.cons (.behind isGap_newline houtput) .nil))

theorem load_of_generatorTable_schemaAndOutput :
    LeavesGenerator titledFront lastTable ∧
      Carries ⟨"classgen.toml", .ofList (titledFront ++ (schemaAndOutput ++ lastTable))⟩ (fun key =>
        match key with
        | .output => some "env(\"OUT\")"
        | .schema => some "a\tb"
        | .enumDir | .modelDir => none) ∧
      IsRejected ⟨"classgen.toml", .ofList (titledFront ++ (schemaAndOutput ++ (['\n'] ++
        ("outptu".toList ++ ([' '] ++ '=' :: " 'typo'".toList)))))⟩ := by
  have hdocument : LeavesGenerator titledFront lastTable :=
    ⟨⟨by decide +kernel, by decide +kernel⟩, ⟨by decide +kernel, by decide +kernel⟩, by decide +kernel⟩
  obtain ⟨hcarried, hrejected⟩ := load_of_generatorTable hdocument "classgen.toml"
  refine ⟨hdocument, ?_, ?_⟩
  · have hall : ∀ key, key ∈ [ConfigKey.schema, .enumDir, .output, .modelDir] := by
      intro key
      cases key <;> decide
    exact (hcarried _ _ (by decide) hall).2 _ spelledTable_schemaAndOutput
  · have hunknown : ∀ option : ConfigKey, option.name ≠ "outptu" := by
      intro option
      cases option <;> decide
    exact (hrejected "outptu" hunknown).2 _ _ _ _ _ _ _ spelledTable_schemaAndOutput isGap_newline
      (.bare (by decide +kernel) (List.all_eq_true.mp (by decide +kernel))) (by decide) (by decide)

end Written

end EntityClasses.Config
