import EntityClasses.Path

/-! Where a generation puts its files. -/

namespace EntityClasses

structure Options where
  /-- The directory that a generation clears and fills. -/
  outputDir : Path
  /-- The directory of the enums, below the output directory. -/
  enumDir : String
  /-- The directory of the file that exports all models, below the output directory. -/
  modelDir : String
deriving DecidableEq, Repr

namespace Options

def new (outputDir : Path) : Options :=
  ⟨outputDir, "enums", "models"⟩

/-- An empty name leaves the options as they are. -/
def withEnumDir (options : Options) (name : String) : Options :=
  if name = "" then options else { options with enumDir := name }

/-- An empty name leaves the options as they are. -/
def withModelDir (options : Options) (name : String) : Options :=
  if name = "" then options else { options with modelDir := name }

end Options

end EntityClasses
