import EntityClasses.Proofs.Entity.Imports

/-! The imports of a class against what its text uses. A class uses the decorators of its properties, the
enums that these name, the types that its properties have, and what decorators and types come with. Its file
imports exactly that, from the place where each of it is found. -/

namespace EntityClasses

open TypeScript

/-- The decorator that checks that a value belongs to an enum. -/
def TypeScript.Decorator.isIn (enumName : String) : Decorator :=
  ⟨"IsIn", ["getEnumValues(" ++ enumName ++ ")"]⟩

namespace Field

variable (field : Field)

theorem presence_ne_type : field.presence ≠ "Type" := by
  rw [presence]
  split_ifs <;> decide

theorem mem_transformerSymbols_iff (symbol : String) :
    symbol ∈ field.transformerSymbols ↔
      ∃ decorator ∈ field.decorators, decorator.name = "Type" ∧ symbol = "Type" := by
  have hpresence := field.presence_ne_type
  cases htype : field.type <;>
    simp [transformerSymbols, decorators, FieldType.check?, htype, hpresence]

theorem mem_validatorSymbols_iff (symbol : String) :
    symbol ∈ field.validatorSymbols ↔
      ∃ decorator ∈ field.decorators, decorator.name ≠ "Type" ∧ symbol = decorator.name := by
  have hpresence := field.presence_ne_type
  cases htype : field.type <;>
    simp [validatorSymbols, decorators, isEnum, FieldType.check?, htype, hpresence, or_comm]

theorem isIn_mem_decorators_iff (name : String) :
    Decorator.isIn name ∈ field.decorators ↔ field.type = .enum name := by
  have hpresence : field.presence ≠ "IsIn" := by
    rw [presence]
    split_ifs <;> decide
  cases htype : field.type <;>
    simp [Decorator.isIn, decorators, FieldType.check?, htype, hpresence.symm, String.append_left_inj,
      String.append_right_inj, eq_comm]

end Field

namespace Entity

/-- The class of a model uses a symbol of a source. -/
inductive Uses (model : Model) (enumDir : String) : (source symbol : String) → Prop where
  | checks {field : Field} {decorator : Decorator} (hfield : field ∈ model.fields)
      (hdecorator : decorator ∈ field.decorators) (hname : decorator.name ≠ "Type") :
      Uses model enumDir "class-validator" decorator.name
  | converts {field : Field} {decorator : Decorator} (hfield : field ∈ model.fields)
      (hdecorator : decorator ∈ field.decorators) (hname : decorator.name = "Type") :
      Uses model enumDir "class-transformer" "Type"
  | holdsJson {field : Field} (hfield : field ∈ model.fields) (htype : field.type = .json)
      (hprisma : field.propertyType = "Prisma.JsonValue") :
      Uses model enumDir "@prisma/client" "Prisma"
  | listsValues {field : Field} {name : String} (hfield : field ∈ model.fields)
      (hdecorator : Decorator.isIn name ∈ field.decorators) :
      Uses model enumDir "../helpers" "getEnumValues"
  | namesEnum {field : Field} {name : String} (hfield : field ∈ model.fields)
      (hdecorator : Decorator.isIn name ∈ field.decorators) :
      Uses model enumDir ("../" ++ enumDir) name
  /-- A relation of a model to itself needs no import. -/
  | namesModel {field : Field} {target : String} (hfield : field ∈ model.fields)
      (htype : field.type = .relation target) (htarget : target ≠ model.name) :
      Uses model enumDir "./" target

variable (model : Model) (enumDir : String)

/-- What a class uses are the symbols of the groups. -/
theorem uses_iff (source symbol : String) :
    Uses model enumDir source symbol ↔
      ∃ group : ImportGroup, group.source enumDir = source ∧
        ∃ field ∈ model.fields, symbol ∈ group.symbolsOf model.name field := by
  constructor
  · intro huses
    cases huses with
    | @checks field decorator hfield hdecorator hname =>
        exact ⟨.validators, rfl, field, hfield,
          (field.mem_validatorSymbols_iff _).mpr ⟨decorator, hdecorator, hname, rfl⟩⟩
    | @converts field decorator hfield hdecorator hname =>
        exact ⟨.transformers, rfl, field, hfield,
          (field.mem_transformerSymbols_iff _).mpr ⟨decorator, hdecorator, hname, rfl⟩⟩
    | @holdsJson field hfield htype hprisma =>
        exact ⟨.prisma, rfl, field, hfield, by simp [ImportGroup.symbolsOf, htype]⟩
    | @listsValues field name hfield hdecorator =>
        rw [Field.isIn_mem_decorators_iff] at hdecorator
        exact ⟨.helpers, rfl, field, hfield, by simp [ImportGroup.symbolsOf, hdecorator]⟩
    | @namesEnum field name hfield hdecorator =>
        rw [Field.isIn_mem_decorators_iff] at hdecorator
        exact ⟨.enums, rfl, field, hfield, by simp [ImportGroup.symbolsOf, hdecorator]⟩
    | @namesModel field target hfield htype htarget =>
        exact ⟨.relations, rfl, field, hfield, by simp [ImportGroup.symbolsOf, htype, htarget]⟩
  · rintro ⟨group, rfl, field, hfield, hsymbol⟩
    cases group with
    | prisma =>
        cases htype : field.type <;> simp [ImportGroup.symbolsOf, htype] at hsymbol
        subst hsymbol
        exact .holdsJson hfield htype (by rw [Field.propertyType, htype])
    | transformers =>
        obtain ⟨decorator, hdecorator, hname, rfl⟩ := (field.mem_transformerSymbols_iff _).mp hsymbol
        exact .converts hfield hdecorator hname
    | validators =>
        obtain ⟨decorator, hdecorator, hname, rfl⟩ := (field.mem_validatorSymbols_iff _).mp hsymbol
        exact .checks hfield hdecorator hname
    | relations =>
        cases htype : field.type <;> simp [ImportGroup.symbolsOf, htype] at hsymbol
        obtain ⟨htarget, rfl⟩ := hsymbol
        exact .namesModel hfield htype htarget
    | helpers =>
        cases htype : field.type <;> simp [ImportGroup.symbolsOf, htype] at hsymbol
        subst hsymbol
        exact .listsValues hfield ((field.isIn_mem_decorators_iff _).mpr htype)
    | enums =>
        cases htype : field.type <;> simp [ImportGroup.symbolsOf, htype] at hsymbol
        subst hsymbol
        exact .namesEnum hfield ((field.isIn_mem_decorators_iff _).mpr htype)

theorem mem_entries_iff_uses (source symbol : String) :
    (∃ symbols, (source, symbols) ∈ ((Imports.ofModel model).toTable enumDir).entries ∧
        symbol ∈ symbols) ↔ Uses model enumDir source symbol := by
  rw [uses_iff]
  simp only [Imports.toTable_eq_ofPairs, ImportTable.mem_entries_ofPairs_iff]
  constructor
  · rintro ⟨_, ⟨rfl, -⟩, hsymbol⟩
    rw [ImportTable.mem_symbolsFrom_iff, ImportTable.mem_pairsOf_iff] at hsymbol
    obtain ⟨group, -, hsource, hsymbol⟩ := hsymbol
    exact ⟨group, hsource, (Imports.mem_symbols_iff model group symbol).mp hsymbol⟩
  · rintro ⟨group, hsource, hsymbol⟩
    have hgroup : group ∈ ImportGroup.all := by cases group <;> simp [ImportGroup.all]
    have hmem := (ImportTable.mem_pairsOf_iff (ImportGroup.source enumDir)
      (Imports.ofModel model).symbols ImportGroup.all source symbol).mpr
      ⟨group, hgroup, hsource, (Imports.mem_symbols_iff model group symbol).mpr hsymbol⟩
    have hsymbols := ImportTable.mem_symbolsFrom_iff.mpr hmem
    exact ⟨_, ⟨rfl, List.ne_nil_of_mem hsymbols⟩, hsymbols⟩

section Order

variable {enumDir}

theorem filter_flatMap_pairs (first : String) (names : List String) :
    (names.flatMap fun name => [first, name]).filter (!· == first) = names.filter (!· == first) := by
  induction names with
  | nil => rfl
  | cons name names ih =>
      rw [List.flatMap_cons, List.filter_append, ih]
      by_cases hname : name = first <;> simp [hname]

/-- A symbol that comes with every name comes first, whether it is listed before each of them or before all
of them. -/
theorem eraseDups_flatMap_pairs (first : String) (names : List String) :
    (names.flatMap fun name => [first, name]).eraseDups =
      (names.map (fun _ => first) ++ names).eraseDups := by
  cases names with
  | nil => rfl
  | cons name names =>
      have hfirst : (names.map fun _ => first).filter (!· == first) = [] := by simp
      rw [List.flatMap_cons, List.map_cons, List.cons_append, List.cons_append, List.cons_append,
        List.nil_append, List.eraseDups_cons, List.eraseDups_cons, List.filter_append, hfirst,
        List.nil_append, List.filter_cons, List.filter_cons, filter_flatMap_pairs]

theorem helpers_eq_map_enums (modelName : String) (field : Field) :
    ImportGroup.helpers.symbolsOf modelName field =
      (ImportGroup.enums.symbolsOf modelName field).map fun _ => "getEnumValues" := by
  cases htype : field.type <;> simp [ImportGroup.symbolsOf, htype]

/-- Collecting the groups of a statement one after the other or field by field makes no difference. -/
theorem eraseDups_flatMap_groups (group : ImportGroup) :
    ((ImportGroup.all.filter (·.source enumDir = group.source enumDir)).flatMap
        (Imports.ofModel model).symbols).eraseDups =
      (model.fields.flatMap fun field =>
        (ImportGroup.all.filter (·.source enumDir = group.source enumDir)).flatMap
          (ImportGroup.symbolsOf model.name field)).eraseDups := by
  rw [ImportGroup.filter_source]
  split_ifs
  · rw [List.flatMap_cons, List.flatMap_singleton, Imports.symbols_ofModel, Imports.symbols_ofModel,
      eraseDups_append_eraseDups]
    have henums : ∀ field, [ImportGroup.helpers, ImportGroup.enums].flatMap
        (ImportGroup.symbolsOf model.name field) =
        (ImportGroup.enums.symbolsOf model.name field).flatMap fun name => ["getEnumValues", name] := by
      intro field
      cases htype : field.type <;> simp [ImportGroup.symbolsOf, htype]
    simp only [henums, helpers_eq_map_enums]
    rw [← List.flatMap_assoc, ← List.map_flatMap, eraseDups_flatMap_pairs]
  · simp only [List.flatMap_singleton]
    rw [Imports.symbols_ofModel, eraseDups_of_nodup (nodup_eraseDups _)]

end Order

/-- **A file imports what its class uses**, each symbol once, by source and in the order of the fields. -/
theorem imports_iff_uses :
    (∀ source symbol,
      (∃ symbols, (source, symbols) ∈ ((Imports.ofModel model).toTable enumDir).entries ∧
        symbol ∈ symbols) ↔ Uses model enumDir source symbol) ∧
    (((Imports.ofModel model).toTable enumDir).entries.map (·.1)).Nodup ∧
    (((Imports.ofModel model).toTable enumDir).entries.map (·.1)).Sublist
      ["@prisma/client", "class-transformer", "class-validator", "./", "../helpers",
        "../" ++ enumDir] ∧
    ∀ source symbols, (source, symbols) ∈ ((Imports.ofModel model).toTable enumDir).entries →
      symbols ≠ [] ∧ symbols.Nodup ∧
      symbols = (model.fields.flatMap fun field =>
        (ImportGroup.all.filter (·.source enumDir = source)).flatMap
          (ImportGroup.symbolsOf model.name field)).eraseDups := by
  refine ⟨mem_entries_iff_uses model enumDir, Imports.nodup_sources _ enumDir, ?_, ?_⟩
  · rw [Imports.toTable_eq_ofPairs]
    exact ImportTable.sources_ofPairs_sublist _ _ ImportGroup.all
  · intro source symbols hentry
    obtain ⟨rfl, hne⟩ := (Imports.mem_entries_toTable_iff _ enumDir source symbols).mp hentry
    refine ⟨hne, Imports.nodup_of_mem_entries hentry, ?_⟩
    obtain ⟨symbol, hsymbol⟩ := List.exists_mem_of_ne_nil _ hne
    obtain ⟨group, rfl, -⟩ := (uses_iff model enumDir source symbol).mp
      ((mem_entries_iff_uses model enumDir source symbol).mp ⟨_, hentry, hsymbol⟩)
    exact eraseDups_flatMap_groups model group

/-- Enums among the helpers are imported with them, behind the helper that the first field needs. -/
example : ((Imports.ofModel ⟨"User", [⟨"role", .enum "Role", true, false⟩,
    ⟨"plan", .enum "Plan", true, false⟩]⟩).toTable "helpers").entries =
    [("class-validator", ["IsDefined", "IsIn"]), ("../helpers", ["getEnumValues", "Role", "Plan"])] := by
  decide

end Entity

end EntityClasses
