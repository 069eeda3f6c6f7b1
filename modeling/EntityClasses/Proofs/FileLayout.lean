import EntityClasses.Proofs.Barrel
import EntityClasses.Proofs.Entity.ClassLines
import EntityClasses.Proofs.Registration
import EntityClasses.Proofs.Text.Layout
import EntityClasses.Proofs.TypeScript.RawText

/-! How the generated files are laid out. Empty lines stand between the groups of a file and between the
properties of a class and nowhere else, and every line that is not empty ends in a sign of its own, so the
texts of the groups only have to be put together. A barrel of no names is the one file without lines. -/

namespace EntityClasses

open Code Text TypeScript

/-- The strings of a datamodel: its names, the values of its enums, and the names of the types. -/
def Datamodel.texts (datamodel : Datamodel) : List String :=
  (datamodel.enums.flatMap fun definition => definition.name :: definition.values) ++
    datamodel.models.flatMap fun model =>
      model.name :: model.fields.flatMap fun field => [field.name, field.type.name]

/-- A line that imports something. -/
def IsImportLine (line : String) : Prop :=
  "import ".toList <+: line.toList

/-- A line that declares a class. -/
def IsClassLine (line : String) : Prop :=
  "export class ".toList <+: line.toList

/-- The import lines of a text come first, and one empty line stands between them, if there are any, and the
class, which is all that follows. -/
def ImportsComeFirst (content : String) : Prop :=
  ∃ imports declaration, LaidOut (imports ++ (if imports = [] then [] else [""]) ++ declaration) ∧
    content = unlines (imports ++ (if imports = [] then [] else [""]) ++ declaration) ∧
    (∀ line ∈ imports, IsImportLine line) ∧ (∀ line ∈ declaration, ¬ IsImportLine line) ∧
    ∃ line ∈ declaration.head?, IsClassLine line

theorem not_isImportLine_of_head? {line : String} (hhead : line.toList.head? ≠ some 'i') :
    ¬ IsImportLine line := by
  rintro ⟨rest, hline⟩
  rw [← hline] at hhead
  exact hhead rfl

/-! ### The groups of a file -/

theorem laidOut_imports {imports : List Import} (hne : imports ≠ [])
    (hlines : ∀ imported ∈ imports, IsLine imported.statement) :
    LaidOut (imports.map Import.statement) := by
  refine .of_full (by simpa using hne) ?_
  rw [List.forall_mem_map]
  intro imported himported
  have hnewline := (hlines imported himported).newline
  rw [Import.statement] at hnewline ⊢
  split_ifs at hnewline ⊢ <;> exact .of_append hnewline (by decide)

theorem isImportLine_statement (imported : Import) : IsImportLine imported.statement := by
  rw [IsImportLine, Import.statement]
  split_ifs <;> simp

theorem laidOut_enum {definition : EnumDefinition} (hname : '\n' ∉ definition.name.toList)
    (hvalues : ∀ value ∈ definition.values, '\n' ∉ value.toList) :
    LaidOut (Fragment.linesOf .standard 0
      (EnumDeclaration.fragments ⟨definition.name, definition.values⟩)) := by
  have hheader : '\n' ∉ (EnumDeclaration.header definition.name).toList := by
    simp [EnumDeclaration.header, hname]
  rw [EnumDeclaration.fragments]
  split_ifs with hempty
  · have hlines : Fragment.linesOf .standard 0
        [.line (EnumDeclaration.header definition.name ++ "\x7d")] =
        [EnumDeclaration.header definition.name ++ "\x7d"] := by
      simp [Fragment.linesOf, Fragment.lines, Writer.margin]
    rw [hlines]
    exact .singleton (.of_append (by simp [hheader]) (by decide))
  · have hlines : Fragment.linesOf .standard 0 [.block (EnumDeclaration.header definition.name)
        (definition.values.map (.line <| EnumDeclaration.memberLine ·)) (some "\x7d")] =
        [EnumDeclaration.header definition.name] ++
          (definition.values.map (Writer.margin .standard 1 ++ EnumDeclaration.memberLine ·) ++
            ["\x7d"]) := by
      have hmembers := Fragment.linesOf_lines .standard 1
        (definition.values.map EnumDeclaration.memberLine)
      rw [List.map_map, List.map_map] at hmembers
      simp only [Fragment.linesOf, Fragment.lines, Writer.margin, String.empty_append,
        List.append_nil, List.cons_append, List.nil_append] at hmembers ⊢
      rw [← Function.comp_def, hmembers]
      rfl
    have hmembers : ∀ value ∈ definition.values,
        IsFull (Writer.margin .standard 1 ++ EnumDeclaration.memberLine value) := by
      intro value hvalue
      have hnewline := hvalues value hvalue
      rw [EnumDeclaration.memberLine, ← String.append_assoc]
      refine .of_append ?_ (by decide)
      simp [hnewline, Writer.margin, Indent.unit, Indent.standard]
    rw [hlines]
    refine (LaidOut.singleton (.of_append hheader (by decide))).append (.append (.of_full ?_ ?_)
      (.singleton ⟨by decide, by decide⟩))
    · simpa using hempty
    · rwa [List.forall_mem_map]

theorem Field.laidOut_propertyLines {field : Field} (hname : '\n' ∉ field.name.toList)
    (htype : '\n' ∉ field.type.name.toList) : LaidOut field.propertyLines := by
  refine .of_full (by simp [propertyLines]) fun line hline => ?_
  have hnewline := (isLine_propertyLine hname htype hline).newline
  rw [propertyLines, List.mem_append, List.mem_map, List.mem_singleton] at hline
  rcases hline with ⟨decorator, -, rfl⟩ | rfl <;> exact .of_append hnewline (by decide)

namespace Entity

variable {model : Model}

theorem laidOut_class (hname : '\n' ∉ model.name.toList)
    (hfields : ∀ field ∈ model.fields, '\n' ∉ field.name.toList ∧ '\n' ∉ field.type.name.toList) :
    LaidOut (Fragment.linesOf .standard 0 model.toClass.fragments) := by
  have hheader := (isLine_header hname).newline
  by_cases hempty : model.fields = []
  · rw [linesOf_toClass_nil hempty]
    exact .singleton (.of_append (by simp [hheader]) (by decide))
  · rw [linesOf_toClass hempty, ← List.singleton_append]
    refine (LaidOut.singleton (.of_append hheader (by decide))).append (.append ?_
      (.singleton ⟨by decide, by decide⟩))
    refine LaidOut.intercalate (by simpa using hempty) ?_
    rw [List.forall_mem_map]
    exact fun field hfield => Field.laidOut_propertyLines (hfields field hfield).1 (hfields field hfield).2

theorem head?_declaration {line : String}
    (hline : line ∈ Fragment.linesOf .standard 0 model.toClass.fragments) :
    line.toList.head? ≠ some 'i' := by
  have hheader := head?_header model.name
  by_cases hempty : model.fields = []
  · rw [linesOf_toClass_nil hempty, List.mem_singleton] at hline
    simp [hline, hheader]
  · rw [linesOf_toClass hempty, List.mem_cons, List.mem_append, List.mem_singleton] at hline
    rcases hline with rfl | hbody | rfl
    · simp [hheader]
    · rcases mem_bodyLines hbody with rfl | ⟨field, -, hmem⟩
      · decide
      · simp [field.head?_propertyLine hmem]
    · decide

theorem exists_classLine (model : Model) :
    ∃ line ∈ (Fragment.linesOf .standard 0 model.toClass.fragments).head?, IsClassLine line := by
  by_cases hempty : model.fields = []
  · rw [linesOf_toClass_nil hempty]
    exact ⟨_, rfl, by simp [IsClassLine, ClassDeclaration.header]⟩
  · rw [linesOf_toClass hempty]
    exact ⟨_, rfl, by simp [IsClassLine, ClassDeclaration.header]⟩

theorem importLines_eq (enumDir : String) (model : Model) : importLines enumDir model =
    ((Imports.ofModel model).toTable enumDir).imports.map Import.statement ++
      (if ((Imports.ofModel model).toTable enumDir).imports.map Import.statement = [] then []
        else [""]) := by
  rw [importLines]
  cases ((Imports.ofModel model).toTable enumDir).imports <;> simp

theorem importsComeFirst_entity {enumDir : String} (henumDir : '\n' ∉ enumDir.toList)
    (hname : '\n' ∉ model.name.toList)
    (hfields : ∀ field ∈ model.fields, '\n' ∉ field.name.toList ∧ '\n' ∉ field.type.name.toList) :
    ImportsComeFirst (GeneratedFile.entity enumDir model).content := by
  have hclass := laidOut_class hname hfields
  refine ⟨_, _, ?_, (entity_content_eq_unlines enumDir model).trans (by rw [importLines_eq]), ?_,
    fun line hline => not_isImportLine_of_head? (head?_declaration hline), exists_classLine model⟩
  · split_ifs with himports
    · rwa [himports, List.append_nil, List.nil_append]
    · rw [List.append_assoc, List.singleton_append]
      refine .separated (laidOut_imports (by simpa using himports) fun imported himported => ?_) hclass
      exact isLine_import enumDir hfields henumDir himported
  · rw [List.forall_mem_map]
    exact fun imported _ => isImportLine_statement imported

end Entity

theorem ImportsComeFirst.isLaidOut {content : String} (hfirst : ImportsComeFirst content) :
    IsLaidOut content := by
  obtain ⟨_, _, hlaidOut, hcontent, -⟩ := hfirst
  exact ⟨_, hcontent, hlaidOut⟩

namespace GeneratedFile

theorem content_of_body (directory name : String) (group : List Fragment) :
    (inDirectory directory name { body := [group] }).content =
      unlines (Fragment.linesOf .standard 0 group) :=
  SourceFile.renderWith_body .standard group

theorem isLaidOut_enum (enumDir : String) {definition : EnumDefinition}
    (hname : '\n' ∉ definition.name.toList)
    (hvalues : ∀ value ∈ definition.values, '\n' ∉ value.toList) :
    IsLaidOut (enum enumDir definition).content :=
  ⟨_, content_of_body enumDir _ _, laidOut_enum hname hvalues⟩

theorem isLaidOut_barrel (directory : String) {names : List String} (hne : names ≠ [])
    (hnames : ∀ name ∈ names, '\n' ∉ name.toList) : IsLaidOut (barrel directory names).content := by
  refine ⟨_, barrel_content directory names, .of_full ?_ ?_⟩
  · rw [Ne, List.map_eq_nil_iff]
    intro hempty
    have hperm := sorted_perm names
    rw [hempty] at hperm
    exact hne hperm.symm.eq_nil
  · rw [List.forall_mem_map]
    intro name hname
    have hnewline := (isLine_exportLine (hnames name ((sorted_perm names).mem_iff.mp hname))).newline
    rw [exportLine] at hnewline ⊢
    exact .of_append hnewline (by decide)

theorem content_barrel_nil (directory : String) : (barrel directory []).content = "" := by
  rw [barrel_content, sorted, List.mergeSort_nil]
  rfl

/-- The lines of the helpers but the last one. -/
def helperLines : List String :=
  ["export const getEnumValues = <T extends Record<string, string | number>>(",
    "  enumType: T,",
    "): Array<T[keyof T]> =>",
    "  Object.keys(enumType)",
    "    .filter((key) => Number.isNaN(Number(key)))"]

def lastHelperLine : String :=
  "    .map((key) => enumType[key as keyof T]);"

theorem getEnumValues_eq_intercalate :
    getEnumValues = "\n".intercalate (helperLines ++ [lastHelperLine]) := by
  rw [getEnumValues, helperLines, lastHelperLine, List.cons_append, List.cons_append,
    List.cons_append, List.cons_append, List.cons_append, List.nil_append]

theorem isFull_helperLines : ∀ line ∈ helperLines ++ [lastHelperLine], IsFull line := by
  decide

theorem isLaidOut_helpers : IsLaidOut helpers.content := by
  refine ⟨_, content_of_body "helpers" "index.ts" _, ?_⟩
  have hlines : (Text.lines getEnumValues.toList).map String.ofList = helperLines ++ [lastHelperLine] := by
    rw [getEnumValues_eq_intercalate, lines_intercalate (by decide) (by decide) (by decide)]
    simp
  rw [Fragment.linesOf_ofText, hlines]
  exact .of_full (by simp) isFull_helperLines

end GeneratedFile

namespace Datamodel

variable {datamodel : Datamodel} (htexts : ∀ text ∈ datamodel.texts, '\n' ∉ text.toList)

include htexts

theorem newline_notMem_enum {definition : EnumDefinition} (hdefinition : definition ∈ datamodel.enums) :
    '\n' ∉ definition.name.toList ∧ ∀ value ∈ definition.values, '\n' ∉ value.toList := by
  have hmem : ∀ text ∈ definition.name :: definition.values, '\n' ∉ text.toList := fun text htext =>
    htexts text (List.mem_append_left _ (List.mem_flatMap.mpr ⟨definition, hdefinition, htext⟩))
  rwa [List.forall_mem_cons] at hmem

theorem newline_notMem_model {model : Model} (hmodel : model ∈ datamodel.models) :
    '\n' ∉ model.name.toList ∧
      ∀ field ∈ model.fields, '\n' ∉ field.name.toList ∧ '\n' ∉ field.type.name.toList := by
  have hmem : ∀ text ∈ model.name :: model.fields.flatMap (fun field => [field.name, field.type.name]),
      '\n' ∉ text.toList := fun text htext =>
    htexts text (List.mem_append_right _ (List.mem_flatMap.mpr ⟨model, hmodel, htext⟩))
  rw [List.forall_mem_cons] at hmem
  refine ⟨hmem.1, fun field hfield => ?_⟩
  have hfieldTexts : ∀ text ∈ [field.name, field.type.name], '\n' ∉ text.toList := fun text htext =>
    hmem.2 text (List.mem_flatMap.mpr ⟨field, hfield, htext⟩)
  simpa using hfieldTexts

theorem newline_notMem_names :
    (∀ name ∈ datamodel.enums.map (·.name), '\n' ∉ name.toList) ∧
      ∀ name ∈ datamodel.models.map (·.name), '\n' ∉ name.toList := by
  rw [List.forall_mem_map, List.forall_mem_map]
  exact ⟨fun _ hdefinition => (newline_notMem_enum htexts hdefinition).1,
    fun _ hmodel => (newline_notMem_model htexts hmodel).1⟩

end Datamodel

namespace Generator

open GeneratedFile

/-- The files of a generation by what they are. -/
theorem mem_plan_iff (generator : Generator) (file : OutputFile) :
    file ∈ generator.plan ↔
      (∃ definition ∈ generator.datamodel.enums, enum generator.options.enumDir definition = file) ∨
      (generator.datamodel.enums ≠ [] ∧
        file = barrel generator.options.enumDir (generator.datamodel.enums.map (·.name))) ∨
      (∃ model ∈ generator.datamodel.models, entity generator.options.enumDir model = file) ∨
      file = helpers ∨
      file = barrel generator.options.modelDir (generator.datamodel.models.map (·.name)) := by
  rw [plan_eq_flatMap_emissions, emissions_eq]
  by_cases henums : generator.datamodel.enums = [] <;> simp [Phase.files, henums]

variable {generator : Generator}

/-- **Every generated file is laid out**, a barrel of no names apart, which is empty; and the file of a model
begins with its imports. -/
theorem render_laidOut {registry : Registry}
    (htexts : ∀ text ∈ generator.datamodel.texts, '\n' ∉ text.toList)
    (henumDir : '\n' ∉ generator.options.enumDir.toList)
    (hrender : generator.render = .ok registry) :
    (∀ file ∈ registry.entries, IsLaidOut file.content ∨
      file.content = "" ∧ ∃ directory, file = barrel directory []) ∧
    ∀ model ∈ generator.datamodel.models,
      entity generator.options.enumDir model ∈ registry.entries ∧
      ImportsComeFirst (entity generator.options.enumDir model).content := by
  obtain ⟨rfl, -⟩ := plan_of_render hrender
  have hentities : ∀ model ∈ generator.datamodel.models,
      ImportsComeFirst (entity generator.options.enumDir model).content := by
    intro model hmodel
    obtain ⟨hname, hfields⟩ := Datamodel.newline_notMem_model htexts hmodel
    exact Entity.importsComeFirst_entity henumDir hname hfields
  obtain ⟨henumNames, hmodelNames⟩ := Datamodel.newline_notMem_names htexts
  refine ⟨fun file hfile => ?_, fun model hmodel => ⟨?_, hentities model hmodel⟩⟩
  · rcases (generator.mem_plan_iff file).mp hfile with ⟨definition, hdefinition, rfl⟩ |
      ⟨henums, rfl⟩ | ⟨model, hmodel, rfl⟩ | rfl | rfl
    · obtain ⟨hname, hvalues⟩ := Datamodel.newline_notMem_enum htexts hdefinition
      exact Or.inl (isLaidOut_enum _ hname hvalues)
    · exact Or.inl (isLaidOut_barrel _ (by simpa using henums) henumNames)
    · exact Or.inl (hentities model hmodel).isLaidOut
    · exact Or.inl isLaidOut_helpers
    · by_cases hmodels : generator.datamodel.models = []
      · rw [hmodels]
        exact Or.inr ⟨content_barrel_nil _, _, rfl⟩
      · exact Or.inl (isLaidOut_barrel _ (by simpa using hmodels) hmodelNames)
  · exact (generator.mem_plan_iff _).mpr (Or.inr (Or.inr (Or.inl ⟨model, hmodel, rfl⟩)))

/-- An enum without values, a model without fields, and a model with two. -/
def unequalParts : Generator where
  datamodel := ⟨[⟨"Role", []⟩], [⟨"Empty", []⟩,
    ⟨"User", [⟨"role", .enum "Role", true, false⟩, ⟨"meta", .json, false, false⟩]⟩]⟩
  options := (Options.new ⟨"gen"⟩).withEnumDir "lists/"

theorem render_laidOut_unequalParts : ∃ registry, unequalParts.render = .ok registry ∧
    (∀ file ∈ registry.entries, IsLaidOut file.content ∨
      file.content = "" ∧ ∃ directory, file = barrel directory []) ∧
    ∀ model ∈ unequalParts.datamodel.models,
      entity "lists/" model ∈ registry.entries ∧ ImportsComeFirst (entity "lists/" model).content := by
  have hdiffer : Registry.PathsDiffer unequalParts.plan := by
    unfold Registry.PathsDiffer
    decide
  obtain ⟨registry, hrender⟩ := (exists_render_iff _).mpr hdiffer
  exact ⟨registry, hrender, render_laidOut (by decide) (by decide) hrender⟩

end Generator

end EntityClasses
