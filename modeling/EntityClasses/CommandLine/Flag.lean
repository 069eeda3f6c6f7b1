/-! The commands and the options of the command line. -/

namespace EntityClasses.CommandLine

inductive CommandName where
  | generate
  | check
deriving DecidableEq, Repr

namespace CommandName

def ofWord? : String → Option CommandName
  | "generate" => some generate
  | "check" => some check
  | _ => none

end CommandName

inductive Flag where
  | verbose
  | help
  | version
  | config
  | schema
  | output
  | enumDir
  | modelDir
  | dryRun
deriving DecidableEq, Repr

namespace Flag

/-- The name behind two dashes. -/
def long : Flag → String
  | verbose => "verbose"
  | help => "help"
  | version => "version"
  | config => "config"
  | schema => "schema"
  | output => "output"
  | enumDir => "enum-dir"
  | modelDir => "model-dir"
  | dryRun => "dry-run"

/-- The letter behind one dash. -/
def short? : Flag → Option Char
  | verbose => some 'v'
  | help => some 'h'
  | version => some 'V'
  | config => some 'c'
  | schema => some 's'
  | output => some 'o'
  | enumDir | modelDir | dryRun => none

def takesValue : Flag → Bool
  | config | schema | output | enumDir | modelDir => true
  | verbose | help | version | dryRun => false

/-- Whether the value is a path, which is not empty. -/
def takesPath : Flag → Bool
  | config | schema | output => true
  | _ => false

/-- Only the flag that counts may be given more than once. -/
def repeats : Flag → Bool
  | verbose => true
  | _ => false

/-- The flags in front of the command. -/
def common : List Flag :=
  [verbose, help, version]

/-- The flags behind a command. -/
def ofCommand : CommandName → List Flag
  | .check => [config, schema, verbose, help]
  | .generate => [config, schema, output, enumDir, modelDir, dryRun, verbose, help]

end Flag

end EntityClasses.CommandLine
