import EntityClasses.Generator
import EntityClasses.Report

/-! A generation as a user asks for it, in earnest or as a dry run, and the report on it. -/

namespace EntityClasses

inductive GenerationResult where
  | written (outputDir : Path) (paths : List String)
  /-- The files of a dry run, as pairs of path and content. -/
  | preview (files : List (String × String))
deriving DecidableEq, Repr

structure GenerationReport where
  modelCount : Nat
  enumCount : Nat
  result : GenerationResult
deriving DecidableEq, Repr

structure GenerationError where
  dryRun : Bool
  cause : Failure
deriving DecidableEq, Repr

def GenerationError.message (error : GenerationError) : String :=
  if error.dryRun then "Failed to render code" else "Failed to generate code"

/-- Generates the files of a datamodel. A dry run leaves the file system alone. -/
def generate {m : Type → Type} [Monad m] [Storage m] (datamodel : Datamodel) (options : Options)
    (dryRun : Bool) : m (Except GenerationError GenerationReport) := do
  let generator : Generator := ⟨datamodel, options⟩
  let outcome : Except Failure GenerationResult ←
    if dryRun then pure (generator.preview.map .preview)
    else (GenerationResult.written options.outputDir <$> generator.generate).run
  match outcome with
  | .ok result => pure (.ok ⟨datamodel.models.length, datamodel.enums.length, result⟩)
  | .error cause => pure (.error ⟨dryRun, cause⟩)

namespace GenerationReport

/-- A count with its noun, in the plural unless the count is one. -/
def counted (count : Nat) (noun : String) : String :=
  toString count ++ " " ++ noun ++ (if count = 1 then "" else "s")

def lines (report : GenerationReport) : List ReportLine :=
  match report.result with
  | .written outputDir paths =>
    [.preformatted (counted report.modelCount "model" ++ ", " ++ counted report.enumCount "enum"),
     .newline, .keyValue "Generated" outputDir.text] ++
    paths.map .addedItem
  | .preview files =>
    (files.flatMap fun file => [.divider file.1, .preformatted file.2]) ++
    [.divider "Summary",
     .preformatted (toString files.length ++ " files would be generated")]

end GenerationReport

end EntityClasses
