import EntityClasses.Phase
import EntityClasses.Registry

/-! Generating the files of a datamodel: `render` collects them, `run` clears the output directory and
writes them as well. -/

namespace EntityClasses

structure Generator where
  datamodel : Datamodel
  options : Options

namespace Generator

/-- The language of the generated files. -/
def language : String :=
  "typescript"

def fileExtension : String :=
  "ts"

def phases (generator : Generator) : List Phase :=
  Phase.ofDatamodel generator.datamodel

/-- Registers the files of a phase. -/
def emit (generator : Generator) (registry : Registry) (phase : Phase) : Except Failure Registry :=
  (phase.files generator.datamodel generator.options).foldlM Registry.register registry

/-- The files of a generation. The file system is not touched. -/
def render (generator : Generator) : Except Failure Registry :=
  (generator.phases.filter (!·.changesStorage)).foldlM generator.emit Registry.empty

/-- The files as they would be written. -/
def preview (generator : Generator) : Except Failure (List (String × String)) :=
  generator.render.map Registry.preview

/-- How far a run has come: the files so far, and the paths that have been written. -/
structure Progress where
  registry : Registry
  written : List String

section Run

variable {m : Type → Type} [Monad m] [Storage m]

def runPhase (generator : Generator) (progress : Progress) (phase : Phase) :
    ExceptT Failure m Progress :=
  match phase with
  | .clearOutput => do
    clearDirectory generator.options.outputDir
    pure progress
  | .flush => do
    let written ← progress.registry.writeAll generator.options.outputDir
    pure { progress with written }
  | _ => do
    let registry ← generator.emit progress.registry phase
    pure { progress with registry }

/-- A whole generation. The first failure ends it; what has been written by then stays. -/
def run (generator : Generator) : ExceptT Failure m Progress :=
  generator.phases.foldlM generator.runPhase ⟨Registry.empty, []⟩

/-- A whole generation, with the written paths as its result. -/
def generate (generator : Generator) : ExceptT Failure m (List String) := do
  pure (← generator.run).written

end Run

end Generator

end EntityClasses
