import EntityClasses.Datamodel
import EntityClasses.GeneratedFile
import EntityClasses.Options

/-! The phases of a generation. Two of them change the file system; each of the others adds files. -/

namespace EntityClasses

inductive Phase where
  | clearOutput
  | emitEnums
  | emitEnumIndex
  | emitEntities
  | emitHelpersIndex
  | emitModelIndex
  | flush
deriving DecidableEq, Repr

namespace Phase

/-- The phases in the order of a generation. -/
def all : List Phase :=
  [clearOutput, emitEnums, emitEnumIndex, emitEntities, emitHelpersIndex, emitModelIndex, flush]

def name : Phase → String
  | clearOutput => "clear-output"
  | emitEnums => "emit-enums"
  | emitEnumIndex => "emit-enum-index"
  | emitEntities => "emit-entities"
  | emitHelpersIndex => "emit-helpers-index"
  | emitModelIndex => "emit-model-index"
  | flush => "flush"

def description : Phase → String
  | clearOutput => "Remove and recreate the output directory"
  | emitEnums => "Render one file per enum"
  | emitEnumIndex => "Render the enum barrel"
  | emitEntities => "Render one class file per model"
  | emitHelpersIndex => "Render the static helpers module"
  | emitModelIndex => "Render the model barrel"
  | flush => "Write every rendered file to disk"

def changesStorage : Phase → Bool
  | clearOutput | flush => true
  | _ => false

/-- The phases of a generation from a datamodel. Without enums there is no barrel of enums. -/
def ofDatamodel (datamodel : Datamodel) : List Phase :=
  all.filter fun phase => phase ≠ emitEnumIndex || !datamodel.enums.isEmpty

/-- The files that a phase adds. -/
def files (datamodel : Datamodel) (options : Options) : Phase → List OutputFile
  | emitEnums => datamodel.enums.map (GeneratedFile.enum options.enumDir)
  | emitEnumIndex => [GeneratedFile.barrel options.enumDir (datamodel.enums.map (·.name))]
  | emitEntities => datamodel.models.map (GeneratedFile.entity options.enumDir)
  | emitHelpersIndex => [GeneratedFile.helpers]
  | emitModelIndex => [GeneratedFile.barrel options.modelDir (datamodel.models.map (·.name))]
  | clearOutput | flush => []

end Phase

end EntityClasses
