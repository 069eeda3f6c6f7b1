import EntityClasses.Check
import EntityClasses.Code.Fragment
import EntityClasses.Code.Indent
import EntityClasses.Code.Writer
import EntityClasses.CommandLine.Arguments
import EntityClasses.CommandLine.Flag
import EntityClasses.CommandLine.LogFilter
import EntityClasses.CommandLine.Program
import EntityClasses.Config
import EntityClasses.Config.Document
import EntityClasses.Config.EnvValue
import EntityClasses.Config.Environment
import EntityClasses.Config.File
import EntityClasses.Datamodel
import EntityClasses.Datamodel.Document
import EntityClasses.Datamodel.Load
import EntityClasses.Decimal.Double
import EntityClasses.Decimal.Shortest
import EntityClasses.Entity.Class
import EntityClasses.Entity.Imports
import EntityClasses.Failure
import EntityClasses.FileTree
import EntityClasses.GeneratedFile
import EntityClasses.Generation
import EntityClasses.Generator
import EntityClasses.Json.Number
import EntityClasses.Json.Quoted
import EntityClasses.Json.Reader
import EntityClasses.Json.SyntaxError
import EntityClasses.Json.Value
import EntityClasses.Main
import EntityClasses.Options
import EntityClasses.OutputFile
import EntityClasses.Path
import EntityClasses.Phase
import EntityClasses.Registry
import EntityClasses.Report
import EntityClasses.Schema.Error
import EntityClasses.Schema.Source
import EntityClasses.Storage
import EntityClasses.Text.Blank
import EntityClasses.Text.Digits
import EntityClasses.Text.Hidden
import EntityClasses.Text.Lines
import EntityClasses.Text.Position
import EntityClasses.Text.Quoted
import EntityClasses.Text.Search
import EntityClasses.Toml.Quoted
import EntityClasses.Toml.Reader
import EntityClasses.Toml.Scalar
import EntityClasses.Toml.Table
import EntityClasses.Toml.Value
import EntityClasses.TypeScript.Class
import EntityClasses.TypeScript.Enum
import EntityClasses.TypeScript.Import
import EntityClasses.TypeScript.ImportTable
import EntityClasses.TypeScript.SourceFile
import EntityClasses.Proofs.Registration
import EntityClasses.Proofs.Run
import EntityClasses.Proofs.DryRun
import EntityClasses.Proofs.FileTree.Entry
import EntityClasses.Proofs.FileTree.Walk
import EntityClasses.Proofs.FileTree.Change
import EntityClasses.Proofs.Overwriting
import EntityClasses.Proofs.Path.Parts
import EntityClasses.Proofs.Path.Plain
import EntityClasses.Proofs.Path.Spelled
import EntityClasses.Proofs.FileTree.Outcome
import EntityClasses.Proofs.FileTree.Locality
import EntityClasses.Proofs.FileTree.Limits
import EntityClasses.Proofs.FileTree.Creation
import EntityClasses.Proofs.FileTree.Removal
import EntityClasses.Proofs.Effects
import EntityClasses.Proofs.OutputTree
import EntityClasses.Proofs.Text.Lines
import EntityClasses.Proofs.Text.Layout
import EntityClasses.Proofs.Code.Lines
import EntityClasses.Proofs.Code.Nesting
import EntityClasses.Proofs.Path.Beside
import EntityClasses.Proofs.Json.Quoting
import EntityClasses.Proofs.Json.Spelling
import EntityClasses.Proofs.Datamodel.Loading
import EntityClasses.Proofs.Datamodel.Describing
import EntityClasses.Proofs.Datamodel.Mismatch
import EntityClasses.Proofs.CommandLine.Inputs
import EntityClasses.Proofs.Barrel
import EntityClasses.Proofs.TypeScript.ImportTable
import EntityClasses.Proofs.Entity.Imports
import EntityClasses.Proofs.Entity.Uses
import EntityClasses.Proofs.Entity.Bindings
import EntityClasses.Proofs.Entity.ClassLines
import EntityClasses.Proofs.Places
import EntityClasses.Proofs.Siblings
import EntityClasses.Proofs.FileLayout
import EntityClasses.Proofs.Text.ByteOrder
import EntityClasses.Proofs.DeclarationOrder
import EntityClasses.Proofs.Collisions
import EntityClasses.Proofs.Config.LookUp
import EntityClasses.Proofs.Config.Overrides
import EntityClasses.Proofs.References
import EntityClasses.Proofs.Path.Display
import EntityClasses.Proofs.Registry.Calls
import EntityClasses.Proofs.TypeScript.Filling
import EntityClasses.Proofs.TypeScript.RawText
import EntityClasses.Proofs.Datamodel.RepeatedNames
import EntityClasses.Proofs.Datamodel.Edits
import EntityClasses.Proofs.Text.Search
import EntityClasses.Proofs.Text.Blank
import EntityClasses.Proofs.Schema.NamePlaces
import EntityClasses.Proofs.Json.Strings
import EntityClasses.Proofs.Json.Layout
import EntityClasses.Proofs.Schema.NameMembers
import EntityClasses.Proofs.Datamodel.SecondDeclaration
import EntityClasses.Proofs.Config.Resolving
import EntityClasses.Proofs.Config.VariableName
import EntityClasses.Proofs.FailingFlush
import EntityClasses.Proofs.SingleWrite
import EntityClasses.Proofs.Text.Position
import EntityClasses.Proofs.Text.Offsets
import EntityClasses.Proofs.Json.Stops
import EntityClasses.Proofs.Datamodel.Labels
import EntityClasses.Proofs.Toml.Changes
import EntityClasses.Proofs.Toml.Insertion
import EntityClasses.Proofs.Toml.Unplaced
import EntityClasses.Proofs.Toml.Bounds
import EntityClasses.Proofs.Toml.BoundedStrings
import EntityClasses.Proofs.Toml.Extension
import EntityClasses.Proofs.Toml.Quoting
import EntityClasses.Proofs.Toml.Writing
import EntityClasses.Proofs.Toml.AddedTable
import EntityClasses.Proofs.Config.GeneratorTable
