import EntityClasses.GeneratedFile
import EntityClasses.Proofs.Code.Lines
import EntityClasses.Proofs.Entity.Bindings

/-! The text of a class. The file of a model ends in the lines of its class: a header, the lines of its
properties with an empty line between neighbours, and a closing line. No property has an empty line, so
cutting at empty lines gives the properties back. -/

namespace EntityClasses

open Code TypeScript

theorem mem_intercalate {α : Type} {sep : List α} {parts : List (List α)} {a : α}
    (ha : a ∈ sep.intercalate parts) : a ∈ sep ∨ ∃ part ∈ parts, a ∈ part := by
  induction parts with
  | nil => simp at ha
  | cons part parts ih =>
      cases parts with
      | nil => exact Or.inr ⟨part, List.mem_cons_self, by simpa using ha⟩
      | cons next parts =>
          rw [List.intercalate_cons_cons, List.mem_append, List.mem_append] at ha
          rcases ha with (hpart | hsep) | hrest
          · exact Or.inr ⟨part, List.mem_cons_self, hpart⟩
          · exact Or.inl hsep
          · exact (ih hrest).imp_right fun ⟨other, hother, hmem⟩ =>
              ⟨other, List.mem_cons_of_mem _ hother, hmem⟩

theorem newline_notMem_intercalate {texts : List String} (htexts : ∀ text ∈ texts, '\n' ∉ text.toList) :
    '\n' ∉ (", ".intercalate texts).toList := by
  rw [String.toList_intercalate]
  intro hmem
  rcases mem_intercalate hmem with hsep | ⟨part, hpart, hmem⟩
  · exact absurd hsep (by decide)
  · obtain ⟨text, htext, rfl⟩ := List.mem_map.mp hpart
    exact htexts text htext hmem

namespace TypeScript.Import

variable (imported : Import)

theorem head?_statement : imported.statement.toList.head? = some 'i' := by
  rw [statement]
  split_ifs <;> simp

variable {imported}

theorem isLine_statement (hsource : '\n' ∉ imported.source.toList)
    (hnames : ∀ name ∈ imported.names, '\n' ∉ name.toList) : Text.IsLine imported.statement := by
  have hlist := newline_notMem_intercalate hnames
  rw [statement]
  split_ifs <;> refine Text.IsLine.append ?_ (by decide) (by decide)
  · simp [hsource]
  · simp only [braced, String.toList_append, List.mem_append, not_or]
    exact ⟨⟨⟨by decide, ⟨by decide, hlist⟩, by decide⟩, by decide⟩, hsource⟩

end TypeScript.Import

namespace Field

variable (field : Field)

/-- Only a property that is required and no relation is marked as one that is always there. -/
def marker : String :=
  if field.isRequired && !field.isRelation then "!" else "?"

/-- The lines of the property of a field. -/
def propertyLines : List String :=
  field.decorators.map (fun decorator =>
    "  @" ++ decorator.name ++ "(" ++ ", ".intercalate decorator.arguments ++ ")") ++
  ["  " ++ field.name ++ field.marker ++ ": " ++ field.propertyType ++ ";"]

theorem linesOf_property :
    Fragment.linesOf .standard 1 field.property.fragments = field.propertyLines := by
  have hdecorators : field.property.fragments =
      (field.decorators.map Decorator.text ++ [field.property.declaration]).map .line := by
    simp [Property.fragments, property]
  rw [hdecorators, Fragment.linesOf_lines, propertyLines]
  simp [Writer.margin, Indent.unit, Indent.standard, Decorator.text, Property.declaration,
    Property.marker, property, marker, isRequiredProperty, ← String.toList_inj]

theorem head?_propertyLine {line : String} (hline : line ∈ field.propertyLines) :
    line.toList.head? = some ' ' := by
  rw [propertyLines, List.mem_append, List.mem_map, List.mem_singleton] at hline
  rcases hline with ⟨decorator, -, rfl⟩ | rfl <;> simp

variable {field}

theorem newline_notMem_propertyType (htype : '\n' ∉ field.type.name.toList) :
    '\n' ∉ field.propertyType.toList := by
  cases hcase : field.type with
  | enum | relation | other =>
      rw [hcase, FieldType.name] at htype
      rw [propertyType, hcase]
      split_ifs <;> simp [htype]
  | _ => simp [propertyType, hcase]

theorem newline_notMem_decorator (htype : '\n' ∉ field.type.name.toList) :
    ∀ decorator ∈ field.decorators, '\n' ∉ decorator.name.toList ∧
      ∀ argument ∈ decorator.arguments, '\n' ∉ argument.toList := by
  have hpresence : '\n' ∉ field.presence.toList := by
    rw [presence]
    split_ifs <;> decide
  cases hcase : field.type with
  | enum =>
      rw [hcase, FieldType.name] at htype
      simp [decorators, FieldType.check?, hcase, hpresence, htype]
  | _ => simp [decorators, FieldType.check?, hcase, hpresence]

theorem newline_notMem_fixedSymbol (htype : '\n' ∉ field.type.name.toList) {symbol : String}
    (hsymbol : symbol ∈ field.fixedSymbols) : '\n' ∉ symbol.toList := by
  rw [fixedSymbols, List.mem_append, List.mem_map] at hsymbol
  rcases hsymbol with ⟨decorator, hdecorator, rfl⟩ | hsymbol
  · exact (newline_notMem_decorator htype decorator hdecorator).1
  · cases hcase : field.type <;> simp [hcase] at hsymbol <;> subst hsymbol <;> decide

theorem isLine_propertyLine (hname : '\n' ∉ field.name.toList) (htype : '\n' ∉ field.type.name.toList)
    {line : String} (hline : line ∈ field.propertyLines) : Text.IsLine line := by
  rw [propertyLines, List.mem_append, List.mem_map, List.mem_singleton] at hline
  rcases hline with ⟨decorator, hdecorator, rfl⟩ | rfl <;>
    refine Text.IsLine.append ?_ (by decide) (by decide)
  · obtain ⟨hdecoratorName, harguments⟩ := newline_notMem_decorator htype decorator hdecorator
    have hlist := newline_notMem_intercalate harguments
    simp only [String.toList_append, List.mem_append, not_or]
    exact ⟨⟨⟨by decide, hdecoratorName⟩, by decide⟩, hlist⟩
  · have hmarker : '\n' ∉ field.marker.toList := by
      rw [marker]
      split_ifs <;> decide
    have hpropertyType := newline_notMem_propertyType htype
    simp [hname, hmarker, hpropertyType]

/-- The marker of a property agrees with the decorator that checks its presence. -/
theorem marker_iff (field : Field) :
    (field.marker = "!" ↔ field.isRequired = true ∧ field.isRelation = false) ∧
    (field.marker = "!" ↔ "IsDefined" ∈ field.decorators.map (·.name)) ∧
    (field.marker = "?" ↔ "IsOptional" ∈ field.decorators.map (·.name)) := by
  cases hrequired : field.isRequired <;> cases hcase : field.type <;>
    simp [marker, decorators, presence, isRequiredProperty, isRelation, FieldType.check?, hrequired,
      hcase]

end Field

namespace Entity

variable {model : Model} (enumDir : String)

/-- The lines of the properties of a model, with an empty line between neighbours. -/
def bodyLines (model : Model) : List String :=
  [""].intercalate (model.fields.map Field.propertyLines)

theorem linesOf_toClass (hfields : model.fields ≠ []) :
    Fragment.linesOf .standard 0 model.toClass.fragments =
      ClassDeclaration.header model.name :: (bodyLines model ++ ["\x7d"]) := by
  have hproperties : model.toClass.properties.isEmpty = false := by
    simp [Model.toClass, hfields]
  have hgroups : (model.toClass.properties.map Property.fragments).map
      (Fragment.linesOf .standard 1) = model.fields.map Field.propertyLines := by
    simp [Model.toClass, Field.linesOf_property]
  rw [ClassDeclaration.fragments, if_neg (by simp [hproperties]), Fragment.linesOf, Fragment.linesOf,
    Fragment.lines, Fragment.linesOf_separated, hgroups]
  simp [Writer.margin, Model.toClass, bodyLines]

theorem linesOf_toClass_nil (hfields : model.fields = []) :
    Fragment.linesOf .standard 0 model.toClass.fragments =
      [ClassDeclaration.header model.name ++ "\x7d"] := by
  have hproperties : model.toClass.properties.isEmpty = true := by
    simp [Model.toClass, hfields]
  rw [ClassDeclaration.fragments, if_pos hproperties]
  simp [Fragment.linesOf, Fragment.lines, Writer.margin, Model.toClass]

/-- The lines in front of a class: a line for each import, and an empty one behind them. -/
def importLines (model : Model) : List String :=
  match ((Imports.ofModel model).toTable enumDir).imports with
  | [] => []
  | first :: rest => (first :: rest).map Import.statement ++ [""]

theorem mem_importLines {line : String} (hline : line ∈ importLines enumDir model) :
    line = "" ∨ ∃ imported ∈ ((Imports.ofModel model).toTable enumDir).imports,
      line = imported.statement := by
  rw [importLines] at hline
  cases himports : ((Imports.ofModel model).toTable enumDir).imports with
  | nil => simp [himports] at hline
  | cons first rest =>
      rw [himports] at hline
      dsimp only at hline
      rw [List.mem_append, List.mem_map, List.mem_singleton] at hline
      rcases hline with ⟨imported, himported, rfl⟩ | hempty
      · exact Or.inr ⟨imported, himported, rfl⟩
      · exact Or.inl hempty

theorem linesOf_imports (imports : List Import) :
    Fragment.linesOf .standard 0 (imports.flatMap Import.fragments) = imports.map Import.statement := by
  have hlines : imports.flatMap Import.fragments = (imports.map Import.statement).map .line := by
    rw [List.map_map, List.map_eq_flatMap]
    rfl
  rw [hlines, Fragment.linesOf_lines]
  simp [Writer.margin]

theorem entity_content_eq_unlines (model : Model) :
    (GeneratedFile.entity enumDir model).content = Text.unlines
      (importLines enumDir model ++ Fragment.linesOf .standard 0 model.toClass.fragments) := by
  rw [GeneratedFile.entity, GeneratedFile.inDirectory, SourceFile.render, SourceFile.renderWith,
    render_eq_unlines, Fragment.linesOf_separated, SourceFile.groups, importLines]
  cases ((Imports.ofModel model).toTable enumDir).imports with
  | nil => simp [SourceFile.statementGroup]
  | cons first rest =>
      have himports := linesOf_imports (first :: rest)
      rw [List.flatMap_cons, List.map_cons] at himports
      simp [SourceFile.statementGroup, himports]

theorem entity_content (hfields : model.fields ≠ []) :
    (GeneratedFile.entity enumDir model).content = Text.unlines (importLines enumDir model ++
      ClassDeclaration.header model.name :: (bodyLines model ++ ["\x7d"])) := by
  rw [entity_content_eq_unlines, linesOf_toClass hfields]

theorem mem_bodyLines {line : String} (hline : line ∈ bodyLines model) :
    line = "" ∨ ∃ field ∈ model.fields, line ∈ field.propertyLines := by
  rcases mem_intercalate hline with hempty | ⟨part, hpart, hmem⟩
  · exact Or.inl (List.mem_singleton.mp hempty)
  · obtain ⟨field, hfield, rfl⟩ := List.mem_map.mp hpart
    exact Or.inr ⟨field, hfield, hmem⟩

theorem splitOn_bodyLines (hfields : model.fields ≠ []) :
    (bodyLines model).splitOn "" = model.fields.map Field.propertyLines := by
  refine List.splitOn_intercalate "" ?_ (by simp [hfields])
  intro part hpart hempty
  obtain ⟨field, -, rfl⟩ := List.mem_map.mp hpart
  exact absurd (field.head?_propertyLine hempty) (by decide)

theorem head?_header (name : String) : (ClassDeclaration.header name).toList.head? = some 'e' := by
  simp [ClassDeclaration.header]

theorem isLine_header {name : String} (hname : '\n' ∉ name.toList) :
    Text.IsLine (ClassDeclaration.header name) := by
  refine Text.IsLine.append ?_ (by decide) (by decide)
  simp [hname]

theorem header_notMem_bodyLines (model : Model) :
    ClassDeclaration.header model.name ∉ bodyLines model := by
  intro hheader
  have hhead := head?_header model.name
  rcases mem_bodyLines hheader with hempty | ⟨field, -, hline⟩
  · rw [hempty] at hhead
    cases hhead
  · rw [field.head?_propertyLine hline] at hhead
    cases hhead

section Newlines

variable (hlines : ∀ field ∈ model.fields, '\n' ∉ field.name.toList ∧ '\n' ∉ field.type.name.toList)

include hlines

theorem lines_class (hname : '\n' ∉ model.name.toList) :
    Text.lines (Text.unlines (ClassDeclaration.header model.name ::
      (bodyLines model ++ ["\x7d"]))).toList =
      (ClassDeclaration.header model.name :: (bodyLines model ++ ["\x7d"])).map String.toList := by
  apply Text.lines_unlines
  intro line hline
  rw [List.mem_cons, List.mem_append, List.mem_singleton] at hline
  rcases hline with rfl | hbody | rfl
  · exact isLine_header hname
  · rcases mem_bodyLines hbody with rfl | ⟨field, hfield, hmem⟩
    · decide
    · exact Field.isLine_propertyLine (hlines field hfield).1 (hlines field hfield).2 hmem
  · decide

theorem newline_notMem_used {source symbol : String} (huses : Uses model enumDir source symbol) :
    '\n' ∉ symbol.toList := by
  rcases (uses_cases source symbol).mp huses with ⟨hsymbol, -⟩ | ⟨field, hfield, htype, -⟩ |
    ⟨field, hfield, htype, -, -⟩
  · obtain ⟨field, hfield, hmem⟩ := List.mem_flatMap.mp hsymbol
    exact Field.newline_notMem_fixedSymbol (hlines field hfield).2 hmem
  · have hname := (hlines field hfield).2
    rwa [htype] at hname
  · have hname := (hlines field hfield).2
    rwa [htype] at hname

theorem isLine_import (henumDir : '\n' ∉ enumDir.toList) {imported : Import}
    (himported : imported ∈ ((Imports.ofModel model).toTable enumDir).imports) :
    Text.IsLine imported.statement := by
  obtain ⟨hentry, hnames⟩ := (ImportTable.mem_imports_iff _ imported.source imported.names).mp himported
  have hused : ∀ name ∈ imported.names, Uses model enumDir imported.source name := fun name hname =>
    (mem_entries_iff_uses model enumDir _ name).mp ⟨_, hentry, hname⟩
  refine Import.isLine_statement ?_ fun name hname =>
    newline_notMem_used enumDir hlines (hused name hname)
  obtain ⟨name, hname⟩ := List.exists_mem_of_ne_nil _ hnames
  obtain ⟨group, hsource, -⟩ := (uses_iff model enumDir _ name).mp (hused name hname)
  rw [← hsource]
  cases group <;> simp [ImportGroup.source, henumDir]

theorem lines_importLines (henumDir : '\n' ∉ enumDir.toList) :
    Text.lines (Text.unlines (importLines enumDir model)).toList =
      (importLines enumDir model).map String.toList := by
  apply Text.lines_unlines
  intro line hline
  rcases mem_importLines enumDir hline with rfl | ⟨imported, himported, rfl⟩
  · decide
  · exact isLine_import enumDir hlines henumDir himported

end Newlines

/-- **A class is read back from the file of its model.** Its header is the last line of this form, and the
only one where the directory of the enums has no newline in its name. -/
theorem class_lines (enumDir : String) {model : Model} (hfields : model.fields ≠ [])
    (hname : '\n' ∉ model.name.toList)
    (hlines : ∀ field ∈ model.fields, '\n' ∉ field.name.toList ∧ '\n' ∉ field.type.name.toList) :
    (∃ front body,
      (Text.lines (GeneratedFile.entity enumDir model).content.toList).map String.ofList =
        front ++ ClassDeclaration.header model.name :: (body ++ ["\x7d"]) ∧
      ClassDeclaration.header model.name ∉ body ∧
      ('\n' ∉ enumDir.toList → ClassDeclaration.header model.name ∉ front) ∧
      body.splitOn "" = model.fields.map Field.propertyLines) ∧
    ∀ field ∈ model.fields,
      (field.marker = "!" ↔ field.isRequired = true ∧ field.isRelation = false) ∧
      (field.marker = "!" ↔ "IsDefined" ∈ field.decorators.map (·.name)) ∧
      (field.marker = "?" ↔ "IsOptional" ∈ field.decorators.map (·.name)) := by
  have hstrings : ∀ written : List String, (written.map String.toList).map String.ofList = written := by
    intro written
    simp
  refine ⟨⟨(Text.lines (Text.unlines (importLines enumDir model)).toList).map String.ofList,
    bodyLines model, ?_, header_notMem_bodyLines model, ?_, splitOn_bodyLines hfields⟩,
    fun field _ => field.marker_iff⟩
  · rw [entity_content enumDir hfields, Text.unlines_append, String.toList_append,
      Text.lines_unlines_append, List.map_append, lines_class hlines hname, hstrings]
  · intro henumDir hheader
    rw [lines_importLines enumDir hlines henumDir, hstrings] at hheader
    have hhead := head?_header model.name
    rcases mem_importLines enumDir hheader with hempty | ⟨imported, -, hstatement⟩
    · rw [hempty] at hhead
      cases hhead
    · rw [hstatement, imported.head?_statement] at hhead
      cases hhead

/-- A model with a required enum and with a required relation, whose property is optional nevertheless. -/
def userWithRole : Model :=
  ⟨"User", [⟨"role", .enum "Role", true, false⟩, ⟨"posts", .relation "Post", true, true⟩]⟩

theorem class_lines_userWithRole : ∃ front body,
    (Text.lines (GeneratedFile.entity "enums" userWithRole).content.toList).map String.ofList =
      front ++ "export class User \x7b" :: (body ++ ["\x7d"]) ∧
    body.splitOn "" =
      [["  @IsDefined()", "  @IsIn(getEnumValues(Role))", "  role!: Role;"],
        ["  @IsOptional()", "  posts?: Post[];"]] := by
  obtain ⟨⟨front, body, hcontent, -, -, hgroups⟩, -⟩ :=
    @class_lines "enums" userWithRole (by decide) (by decide) (by decide)
  exact ⟨front, body, hcontent, hgroups.trans (by decide)⟩

end Entity

end EntityClasses
