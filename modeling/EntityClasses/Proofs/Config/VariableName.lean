import Mathlib.Data.Bool.AllAny
import EntityClasses.Config.EnvValue
import EntityClasses.Proofs.Text.Blank

/-! The written form of a value that names a variable. A text either has this form, with one name that can
be read off it, or it stands for itself; and what a value is shown as is read back as the value. -/

namespace EntityClasses.EnvValue

open Text

/-- A text that names a variable: its name in quotes of one kind, in the brackets of `env(…)`, with any
blanks around the quotes and around the whole. The name is anything, quotes and brackets included. -/
def NamesVariable (raw name : String) : Prop :=
  ∃ before opening closing after : String, ∃ quote ∈ ['"', '\''],
    (∀ blanks ∈ [before, opening, closing, after], IsBlankText blanks.toList) ∧
    raw = before ++ "env(" ++ opening ++ String.singleton quote ++ name ++ String.singleton quote ++
      closing ++ ")" ++ after

theorem unquoted?_eq_some_iff {quote : Char} {s name : List Char} :
    unquoted? quote s = some name ↔ s = quote :: (name ++ [quote]) := by
  simp only [unquoted?, Option.bind_eq_some_iff, dropStart?_eq_some_iff, dropEnd?_eq_some_iff]
  simp

/-- A text stands in quotes of one kind only, whichever is tried first. -/
theorem unquoted?_either_iff {s name : List Char} :
    (unquoted? '"' s).or (unquoted? '\'' s) = some name ↔
      ∃ quote ∈ ['"', '\''], s = quote :: (name ++ [quote]) := by
  have hother : ∀ other, unquoted? '"' s = some other → unquoted? '\'' s = none := by
    intro other hdouble
    rw [Option.eq_none_iff_forall_ne_some]
    intro next hsingle
    rw [unquoted?_eq_some_iff] at hdouble hsingle
    rw [hdouble] at hsingle
    exact absurd (List.cons.inj hsingle).1 (by decide)
  simp only [List.mem_cons, List.not_mem_nil, or_false, exists_eq_or_imp, exists_eq_left,
    ← unquoted?_eq_some_iff]
  cases hdouble : unquoted? '"' s with
  | none => simp
  | some other => simp [hother other hdouble]

/-- What is left of a call without the blanks around it. -/
theorem variableName?_eq_some_iff {s name : List Char} :
    variableName? s = some name ↔
      ∃ inner, trim s = 'e' :: ('n' :: 'v' :: '(' :: inner ++ [')']) ∧
        ∃ quote ∈ ['"', '\''], trim inner = quote :: (name ++ [quote]) := by
  simp only [variableName?, Option.bind_eq_bind, Option.bind_eq_some_iff, dropStart?_eq_some_iff,
    dropEnd?_eq_some_iff, unquoted?_either_iff]
  simp

theorem variableName?_of_namesVariable {raw name : String} (hnames : NamesVariable raw name) :
    variableName? raw.toList = some name.toList := by
  obtain ⟨before, opening, closing, after, quote, hquote, hblanks, rfl⟩ := hnames
  simp only [List.forall_mem_cons, List.not_mem_nil, false_implies, implies_true, and_true] at hblanks
  obtain ⟨hbefore, hopening, hclosing, hafter⟩ := hblanks
  have hquotes : ∀ quote ∈ ['"', '\''], isBlank quote = false := List.all_iff_forall_prop.mp (by decide)
  have hquoteBlank := hquotes quote hquote
  have hinner : trim (opening.toList ++ (quote :: (name.toList ++ [quote]) ++ closing.toList)) =
      quote :: (name.toList ++ [quote]) :=
    trim_between hopening hclosing hquoteBlank hquoteBlank name.toList
  refine variableName?_eq_some_iff.mpr ⟨_, ?_, quote, hquote, hinner⟩
  have hcall := trim_between hbefore hafter (show isBlank 'e' = false by decide)
    (show isBlank ')' = false by decide)
    ('n' :: 'v' :: '(' :: (opening.toList ++ (quote :: (name.toList ++ [quote]) ++ closing.toList)))
  simpa using hcall

theorem namesVariable_of_variableName? {raw : String} {name : List Char}
    (hname : variableName? raw.toList = some name) : NamesVariable raw (String.ofList name) := by
  obtain ⟨inner, hcall, quote, hquote, hinner⟩ := variableName?_eq_some_iff.mp hname
  obtain ⟨before, after, hbefore, hafter, hraw⟩ := exists_append_trim raw.toList
  obtain ⟨opening, closing, hopening, hclosing, hinnerText⟩ := exists_append_trim inner
  refine ⟨.ofList before, .ofList opening, .ofList closing, .ofList after, quote, hquote, ?_, ?_⟩
  · simpa using ⟨hbefore, hopening, hclosing, hafter⟩
  · rw [← String.toList_inj, hraw, hcall, hinnerText, hinner]
    simp

theorem parse_eq_lookup_iff (raw name : String) :
    parse raw = .lookup name ↔ NamesVariable raw name := by
  constructor
  · intro hparse
    rw [parse] at hparse
    split at hparse
    · next chars hname =>
        rw [← EnvValue.lookup.inj hparse]
        exact namesVariable_of_variableName? hname
    · cases hparse
  · intro hnames
    simp [parse, variableName?_of_namesVariable hnames]

theorem parse_eq_literal_or_lookup (raw : String) :
    parse raw = .literal raw ∨ ∃ name, parse raw = .lookup name := by
  rw [parse]
  split
  · exact Or.inr ⟨_, rfl⟩
  · exact Or.inl rfl

theorem namesVariable_display (name : String) : NamesVariable (display (.lookup name)) name := by
  refine ⟨"", "", "", "", '"', by decide, by simp [IsBlankText], ?_⟩
  rw [display, ← String.toList_inj]
  simp

theorem parse_display_parse (raw : String) : parse (display (parse raw)) = parse raw := by
  rcases parse_eq_literal_or_lookup raw with hliteral | ⟨name, hlookup⟩
  · rw [hliteral, display, hliteral]
  · rw [hlookup]
    exact (parse_eq_lookup_iff _ name).mpr (namesVariable_display name)

/-- **A text is read as a variable exactly if it names one.** There is one name that it names, and any other
text is taken as it is; and every value is read back from what it is shown as. -/
theorem parse_reads_written_form :
    (∀ raw name, parse raw = .lookup name ↔ NamesVariable raw name) ∧
    (∀ raw, (∃! name, NamesVariable raw name) ∨
      (∀ name, ¬ NamesVariable raw name) ∧ parse raw = .literal raw) ∧
    (∀ name, parse (display (.lookup name)) = .lookup name) ∧
    ∀ raw, parse (display (parse raw)) = parse raw := by
  refine ⟨parse_eq_lookup_iff, ?_, ?_, parse_display_parse⟩
  · intro raw
    rcases parse_eq_literal_or_lookup raw with hliteral | ⟨name, hlookup⟩
    · refine Or.inr ⟨fun name hnames => ?_, hliteral⟩
      rw [← parse_eq_lookup_iff, hliteral] at hnames
      cases hnames
    · refine Or.inl ⟨name, (parse_eq_lookup_iff raw name).mp hlookup, fun other hnames => ?_⟩
      have hother := (parse_eq_lookup_iff raw other).mpr hnames
      rw [hlookup] at hother
      exact (EnvValue.lookup.inj hother).symm
  · exact fun name => (parse_eq_lookup_iff _ name).mpr (namesVariable_display name)

/-- The outermost quotes of one kind count; a quote alone is no name. -/
example : (parse " env( '\"a')\u00a0", parse "env(\"\")", parse "env(\")", parse "env('a\")") =
    (.lookup "\"a", .lookup "", .literal "env(\")", .literal "env('a\")") := by
  decide

end EntityClasses.EnvValue
