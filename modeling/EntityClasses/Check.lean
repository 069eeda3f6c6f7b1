import EntityClasses.Datamodel
import EntityClasses.Path
import EntityClasses.Report

/-! Checking a datamodel: a summary of its declarations, and a warning for each field whose enum or model
is declared nowhere. -/

namespace EntityClasses

/-- A field whose type names a declaration that does not exist. -/
inductive DanglingReference where
  | toEnum (model field name : String)
  | toModel (model field name : String)
deriving DecidableEq, Repr

def DanglingReference.message : DanglingReference → String
  | toEnum model field name =>
    model ++ "." ++ field ++ " references unknown enum '" ++ name ++ "'"
  | toModel model field name =>
    model ++ "." ++ field ++ " references unknown model '" ++ name ++ "'"

namespace Datamodel

def danglingReference? (datamodel : Datamodel) (model : Model) (field : Field) :
    Option DanglingReference :=
  match field.type with
  | .enum name =>
    if (datamodel.findEnum? name).isNone then some (.toEnum model.name field.name name) else none
  | .relation name =>
    if (datamodel.findModel? name).isNone then some (.toModel model.name field.name name) else none
  | _ => none

/-- All of them, by model and then by field. -/
def danglingReferences (datamodel : Datamodel) : List DanglingReference :=
  datamodel.models.flatMap fun model => model.fields.filterMap (datamodel.danglingReference? model)

end Datamodel

structure ModelSummary where
  name : String
  fieldCount : Nat
  relationCount : Nat
deriving DecidableEq, Repr

def Model.summary (model : Model) : ModelSummary where
  name := model.name
  fieldCount := model.fields.length
  relationCount := model.relationCount

structure CheckReport where
  schemaPath : Path
  models : List ModelSummary
  enums : List String
  warnings : List DanglingReference
deriving DecidableEq, Repr

def check (datamodel : Datamodel) (schemaPath : Path) : CheckReport where
  schemaPath := schemaPath
  models := datamodel.models.map Model.summary
  enums := datamodel.enums.map (·.name)
  warnings := datamodel.danglingReferences

namespace CheckReport

def fieldCount (report : CheckReport) : Nat :=
  report.models.foldl (fun total model => total + model.fieldCount) 0

def relationCount (report : CheckReport) : Nat :=
  report.models.foldl (fun total model => total + model.relationCount) 0

def modelLine (model : ModelSummary) : ReportLine :=
  .listItem (model.name ++ " (" ++ toString model.fieldCount ++ " fields, " ++
    toString model.relationCount ++ " relations)")

def lines (report : CheckReport) : List ReportLine :=
  report.warnings.map (.warning ·.message) ++
  (if report.warnings.isEmpty then [] else [.newline]) ++
  [.preformatted ("✓ " ++ report.schemaPath.text ++ " is valid"), .newline,
   .keyValue "Models" (toString report.models.length)] ++
  report.models.map modelLine ++
  [.keyValue "Enums" (toString report.enums.length)] ++
  report.enums.map .listItem ++
  [.keyValue "Fields" (toString report.fieldCount),
   .keyValue "Relations" (toString report.relationCount)]

end CheckReport

end EntityClasses
