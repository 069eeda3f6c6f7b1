import EntityClasses.Proofs.Datamodel.Loading
import EntityClasses.Proofs.Entity.Uses

/-! The names that the file of a model binds: those that it imports, and that of its class. Imports are
kept apart within a source, not across sources, and names are taken as a datamodel has them. So whether a
name is bound twice depends on the names of the model, of its relations and of its enums, among each other
and against the symbols that every such file takes from packages and helpers. -/

namespace EntityClasses

open TypeScript

/-- What the property of a field needs under a name that is not from the datamodel. -/
def Field.fixedSymbols (field : Field) : List String :=
  field.decorators.map (·.name) ++
    match field.type with
    | .enum _ => ["getEnumValues"]
    | .json => ["Prisma"]
    | _ => []

def Model.fixedSymbols (model : Model) : List String :=
  model.fields.flatMap Field.fixedSymbols

namespace Entity

/-- The names that the file of a model imports. -/
def importedNames (model : Model) (enumDir : String) : List String :=
  ((Imports.ofModel model).toTable enumDir).boundNames

/-- The file of a model imports no name twice, and not the name of its class. -/
structure BindsOnce (model : Model) (enumDir : String) : Prop where
  imported : (importedNames model enumDir).Nodup
  declared : model.toClass.name ∉ importedNames model enumDir

/-- A way in which the file of a model binds a name twice. -/
inductive NameClash (model : Model) (enumDir : String) : Prop where
  | classAndSymbol : model.name ∈ model.fixedSymbols → NameClash model enumDir
  | classAndEnum (field : Field) : field ∈ model.fields → field.type = .enum model.name →
      NameClash model enumDir
  | relationAndSymbol (field : Field) (target : String) : field ∈ model.fields →
      field.type = .relation target → target ≠ model.name → target ∈ model.fixedSymbols →
      NameClash model enumDir
  /-- With the enums among the helpers, an enum called after the helper is imported as the helper is. -/
  | enumAndSymbol (field : Field) (name : String) : field ∈ model.fields → field.type = .enum name →
      name ∈ model.fixedSymbols → ¬ (name = "getEnumValues" ∧ enumDir = "helpers") →
      NameClash model enumDir
  | enumAndRelation (field other : Field) (name : String) : field ∈ model.fields →
      other ∈ model.fields → field.type = .enum name → other.type = .relation name →
      name ≠ model.name → NameClash model enumDir

/-- The group of a symbol that is not from the datamodel. -/
def fixedGroup (symbol : String) : ImportGroup :=
  if symbol = "Prisma" then .prisma
  else if symbol = "Type" then .transformers
  else if symbol = "getEnumValues" then .helpers
  else .validators

theorem source_fixedGroup_ne_relations (symbol enumDir : String) :
    (fixedGroup symbol).source enumDir ≠ ImportGroup.relations.source enumDir := by
  rw [Ne, ImportGroup.source_eq_iff, fixedGroup]
  split_ifs <;> simp

theorem source_fixedGroup_eq_enums_iff (symbol enumDir : String) :
    (fixedGroup symbol).source enumDir = ImportGroup.enums.source enumDir ↔
      symbol = "getEnumValues" ∧ enumDir = "helpers" := by
  rw [ImportGroup.source_eq_iff, fixedGroup]
  split_ifs with hprisma htype hhelpers
  · simp [hprisma]
  · simp [htype]
  · simp [hhelpers]
  · simp [hhelpers]

theorem fixedGroup_decorator (field : Field) : ∀ decorator ∈ field.decorators,
    decorator.name ≠ "Type" → fixedGroup decorator.name = .validators := by
  have hpresence : fixedGroup field.presence = .validators := by
    rw [Field.presence]
    split_ifs <;> decide
  cases htype : field.type <;>
    simp [Field.decorators, FieldType.check?, htype, hpresence] <;> decide

variable {model : Model} {enumDir : String}

theorem mem_fixedSymbols_iff (symbol : String) :
    symbol ∈ model.fixedSymbols ↔ ∃ field ∈ model.fields,
      (∃ decorator ∈ field.decorators, decorator.name = symbol) ∨
      (field.isEnum ∧ symbol = "getEnumValues") ∨ (field.type = .json ∧ symbol = "Prisma") := by
  simp only [Model.fixedSymbols, List.mem_flatMap, Field.fixedSymbols, List.mem_append, List.mem_map]
  refine exists_congr fun field => and_congr_right fun _ => or_congr_right ?_
  cases htype : field.type <;> simp [Field.isEnum, htype]

/-- A used symbol is one of those that do not depend on the datamodel, the name of an enum or that of a
model. -/
theorem uses_cases (source symbol : String) :
    Uses model enumDir source symbol ↔
      (symbol ∈ model.fixedSymbols ∧ source = (fixedGroup symbol).source enumDir) ∨
      (∃ field ∈ model.fields, field.type = .enum symbol ∧ source = ImportGroup.enums.source enumDir) ∨
      ∃ field ∈ model.fields, field.type = .relation symbol ∧ symbol ≠ model.name ∧
        source = ImportGroup.relations.source enumDir := by
  rw [mem_fixedSymbols_iff]
  constructor
  · intro huses
    cases huses with
    | @checks field decorator hfield hdecorator hname =>
        refine Or.inl ⟨⟨field, hfield, Or.inl ⟨decorator, hdecorator, rfl⟩⟩, ?_⟩
        rw [fixedGroup_decorator field decorator hdecorator hname]
        rfl
    | @converts field decorator hfield hdecorator hname =>
        exact Or.inl ⟨⟨field, hfield, Or.inl ⟨decorator, hdecorator, hname⟩⟩, rfl⟩
    | @holdsJson field hfield htype hprisma =>
        exact Or.inl ⟨⟨field, hfield, Or.inr (Or.inr ⟨htype, rfl⟩)⟩, rfl⟩
    | @listsValues field name hfield hdecorator =>
        rw [Field.isIn_mem_decorators_iff] at hdecorator
        exact Or.inl ⟨⟨field, hfield, Or.inr (Or.inl ⟨by rw [Field.isEnum, hdecorator], rfl⟩)⟩, rfl⟩
    | @namesEnum field name hfield hdecorator =>
        rw [Field.isIn_mem_decorators_iff] at hdecorator
        exact Or.inr (Or.inl ⟨field, hfield, hdecorator, rfl⟩)
    | @namesModel field target hfield htype htarget =>
        exact Or.inr (Or.inr ⟨field, hfield, htype, htarget, rfl⟩)
  · rintro (⟨⟨field, hfield, ⟨decorator, hdecorator, rfl⟩ | ⟨henum, rfl⟩ | ⟨htype, rfl⟩⟩, rfl⟩ |
      ⟨field, hfield, htype, rfl⟩ | ⟨field, hfield, htype, htarget, rfl⟩)
    · by_cases hname : decorator.name = "Type"
      · rw [hname]
        exact .converts hfield hdecorator hname
      · rw [fixedGroup_decorator field decorator hdecorator hname]
        exact .checks hfield hdecorator hname
    · cases htype : field.type <;> simp [Field.isEnum, htype] at henum
      exact .listsValues hfield ((field.isIn_mem_decorators_iff _).mpr htype)
    · exact .holdsJson hfield htype (by rw [Field.propertyType, htype])
    · exact .namesEnum hfield ((field.isIn_mem_decorators_iff _).mpr htype)
    · exact .namesModel hfield htype htarget

theorem mem_importedNames_iff (symbol : String) :
    symbol ∈ importedNames model enumDir ↔ ∃ source, Uses model enumDir source symbol := by
  simp only [importedNames, ImportTable.boundNames_eq, List.mem_flatMap, ← mem_entries_iff_uses]
  constructor
  · rintro ⟨⟨source, symbols⟩, hentry, hsymbol⟩
    exact ⟨source, symbols, hentry, hsymbol⟩
  · rintro ⟨source, symbols, hentry, hsymbol⟩
    exact ⟨⟨source, symbols⟩, hentry, hsymbol⟩

theorem nodup_importedNames_iff :
    (importedNames model enumDir).Nodup ↔ ∀ source other symbol,
      Uses model enumDir source symbol → Uses model enumDir other symbol → source = other := by
  have hnodup := ImportTable.nodup_boundNames_iff
    (Imports.nodup_sources (Imports.ofModel model) enumDir)
    fun entry => Imports.nodup_of_mem_entries
  rw [importedNames, hnodup]
  simp only [← mem_entries_iff_uses]
  constructor
  · rintro hone source other symbol ⟨symbols, hentry, hsymbol⟩ ⟨others, hother, hsymbolOther⟩
    exact hone _ hentry _ hother symbol hsymbol hsymbolOther
  · intro hone entry hentry other hother symbol hsymbol hsymbolOther
    exact hone _ _ symbol ⟨_, hentry, hsymbol⟩ ⟨_, hother, hsymbolOther⟩

theorem not_bindsOnce_of_nameClash (hclash : NameClash model enumDir) : ¬ BindsOnce model enumDir := by
  rintro ⟨himported, hdeclared⟩
  rw [nodup_importedNames_iff] at himported
  have hclass : ∀ source, ¬ Uses model enumDir source model.name := fun source huses =>
    hdeclared ((mem_importedNames_iff model.name).mpr ⟨source, huses⟩)
  cases hclash with
  | classAndSymbol hsymbol => exact hclass _ ((uses_cases _ _).mpr (Or.inl ⟨hsymbol, rfl⟩))
  | classAndEnum field hfield htype =>
      exact hclass _ ((uses_cases _ _).mpr (Or.inr (Or.inl ⟨field, hfield, htype, rfl⟩)))
  | relationAndSymbol field target hfield htype htarget hsymbol =>
      exact source_fixedGroup_ne_relations target enumDir (himported _ _ target
        ((uses_cases _ _).mpr (Or.inl ⟨hsymbol, rfl⟩))
        ((uses_cases _ _).mpr (Or.inr (Or.inr ⟨field, hfield, htype, htarget, rfl⟩))))
  | enumAndSymbol field name hfield htype hsymbol happart =>
      exact happart ((source_fixedGroup_eq_enums_iff name enumDir).mp (himported _ _ name
        ((uses_cases _ _).mpr (Or.inl ⟨hsymbol, rfl⟩))
        ((uses_cases _ _).mpr (Or.inr (Or.inl ⟨field, hfield, htype, rfl⟩)))))
  | enumAndRelation field other name hfield hother htype htypeOther hname =>
      have hsource := himported _ _ name
        ((uses_cases _ _).mpr (Or.inr (Or.inl ⟨field, hfield, htype, rfl⟩)))
        ((uses_cases _ _).mpr (Or.inr (Or.inr ⟨other, hother, htypeOther, hname, rfl⟩)))
      simp [ImportGroup.source_eq_iff] at hsource

theorem bindsOnce_of_not_nameClash (hclash : ¬ NameClash model enumDir) : BindsOnce model enumDir := by
  have henumSymbol : ∀ field ∈ model.fields, ∀ name, field.type = .enum name →
      name ∈ model.fixedSymbols →
      (fixedGroup name).source enumDir = ImportGroup.enums.source enumDir := by
    intro field hfield name htype hsymbol
    rw [source_fixedGroup_eq_enums_iff]
    by_contra happart
    exact hclash (.enumAndSymbol field name hfield htype hsymbol happart)
  refine ⟨nodup_importedNames_iff.mpr ?_, ?_⟩
  · intro source other symbol huses hother
    rw [uses_cases] at huses hother
    rcases huses with ⟨hsymbol, rfl⟩ | ⟨field, hfield, htype, rfl⟩ |
        ⟨field, hfield, htype, htarget, rfl⟩ <;>
      rcases hother with ⟨hsymbol', rfl⟩ | ⟨field', hfield', htype', rfl⟩ |
        ⟨field', hfield', htype', htarget', rfl⟩
    · rfl
    · exact henumSymbol field' hfield' symbol htype' hsymbol
    · exact absurd (.relationAndSymbol field' symbol hfield' htype' htarget' hsymbol) hclash
    · exact (henumSymbol field hfield symbol htype hsymbol').symm
    · rfl
    · exact absurd (.enumAndRelation field field' symbol hfield hfield' htype htype' htarget') hclash
    · exact absurd (.relationAndSymbol field symbol hfield htype htarget hsymbol') hclash
    · exact absurd (.enumAndRelation field' field symbol hfield' hfield htype' htype htarget) hclash
    · rfl
  · intro hdeclared
    obtain ⟨source, huses⟩ := (mem_importedNames_iff model.name).mp hdeclared
    rcases (uses_cases _ _).mp huses with ⟨hsymbol, -⟩ | ⟨field, hfield, htype, -⟩ |
      ⟨_, _, _, htarget, _⟩
    · exact hclash (.classAndSymbol hsymbol)
    · exact hclash (.classAndEnum field hfield htype)
    · exact htarget rfl

/-- **The file of a model binds each name once**, unless two of the names that meet in it are one. -/
theorem bindsOnce_iff_not_nameClash (model : Model) (enumDir : String) :
    BindsOnce model enumDir ↔ ¬ NameClash model enumDir :=
  ⟨fun hbinds hclash => not_bindsOnce_of_nameClash hclash hbinds, bindsOnce_of_not_nameClash⟩

/-- A model with a field of an enum that is called as the model is. -/
def roleOfRole : Datamodel :=
  ⟨[⟨"Role", ["USER", "ADMIN"]⟩], [⟨"Role", [⟨"kind", .enum "Role", true, false⟩]⟩]⟩

/-- A valid datamodel may have an enum and a model of one name. -/
theorem not_always_bindsOnce : ¬ ∀ (source : SourceText) (datamodel : Datamodel),
    datamodel.validate source = .ok datamodel →
    ∀ enumDir, ∀ model ∈ datamodel.models, BindsOnce model enumDir := by
  intro hbinds
  have hvalid : roleOfRole.validate ⟨"dmmf.json", ""⟩ = .ok roleOfRole :=
    Datamodel.validate_of_distinct _ ⟨by decide, by decide⟩
  have hrole := hbinds _ roleOfRole hvalid "enums"
    ⟨"Role", [⟨"kind", .enum "Role", true, false⟩]⟩ List.mem_cons_self
  exact hrole.declared (by decide)

end Entity

end EntityClasses
