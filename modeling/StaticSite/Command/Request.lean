import StaticSite.Command.Arguments

/-!
# Requests

What the command line asks for: one of five commands with its options, or a word on how to call the
program.
-/

namespace StaticSite.Command

/-- The forms in which a configuration is shown. -/
inductive ShowFormat where
  /-- A JSON document. -/
  | json
  /-- A YAML document. -/
  | yaml
  /-- A table for the eye. -/
  | table
deriving DecidableEq, Repr

/-- A command. -/
inductive Task where
  /-- A full pass. -/
  | build
  /-- The pass for files that changed. -/
  | rebuild (files : List String)
  /-- Expands one file. -/
  | resolve (file : String) (mode word : Option String) (listsDependencies : Bool)
  /-- Shows the configuration, or the part of it under a key. -/
  | showConfig (key : Option String) (format : ShowFormat)
  /-- Checks the configuration. -/
  | validate (isStrict : Bool)
deriving DecidableEq, Repr

/-- The options that every command has. -/
structure Options where
  /-- Whether the answer is a JSON document. -/
  json : Bool
  /-- The directory of the project. -/
  root : Option String
  /-- The configuration file. -/
  config : Option String
  /-- The mode of the build. -/
  mode : Option String
  /-- Whether the log is shown in full. -/
  isVerbose : Bool
  /-- The file that the log goes to. -/
  logFile : Option String
deriving DecidableEq, Repr

/-- What the command line asks for. -/
inductive Request where
  /-- How to call the program. -/
  | help
  /-- The version of the program. -/
  | version
  /-- Nothing that can be done. -/
  | misuse
  /-- A command. -/
  | run (task : Task) (options : Options)
deriving DecidableEq, Repr

namespace Request

/-- The option that shows how to call the program. -/
def helpOption : OptionSpec := ⟨"help", ["-h", "--help"], .help⟩

/-- The options that every command has. -/
def commonOptions : List OptionSpec := [
  helpOption,
  ⟨"json", ["--json"], .switch⟩,
  ⟨"project_root", ["--project-root"], .value none⟩,
  ⟨"config", ["--config"], .value none⟩,
  ⟨"mode", ["--mode"], .value (some ["development", "production"])⟩,
  ⟨"verbose", ["--verbose", "-v"], .switch⟩,
  ⟨"log_file", ["--log-file"], .value none⟩]

/-- The program. -/
def program : Spec := ⟨[helpOption, ⟨"version", ["--version"], .version⟩], .command⟩

/-- The commands on the configuration. -/
def configCommands : Spec := ⟨[helpOption], .command⟩

/-- The full pass. -/
def buildSpec : Spec := ⟨commonOptions, .none⟩

/-- The pass for files that changed. -/
def rebuildSpec : Spec := ⟨commonOptions, .many⟩

/-- The expansion of one file. -/
def resolveSpec : Spec :=
  ⟨commonOptions ++ [
    ⟨"pattern", ["--pattern"], .value (some ["include", "import"])⟩,
    ⟨"prefix", ["--prefix"], .value none⟩,
    ⟨"list_deps", ["--list-deps"], .switch⟩], .one⟩

/-- The view of the configuration. -/
def showSpec : Spec :=
  ⟨commonOptions ++ [⟨"format", ["--format"], .value (some ["json", "yaml", "table"])⟩], .optional⟩

/-- The check of the configuration. -/
def validateSpec : Spec := ⟨commonOptions ++ [⟨"strict", ["--strict"], .switch⟩], .none⟩

/-- The options that every command has, as they were given. -/
def options (g : Given) : Options where
  json := g.switches.contains "json"
  root := g.values.lookup "project_root"
  config := g.values.lookup "config"
  mode := g.values.lookup "mode"
  isVerbose := g.switches.contains "verbose"
  logFile := g.values.lookup "log_file"

/-- The form in which a configuration is shown. -/
def formatOf (g : Given) : ShowFormat :=
  if g.switches.contains "json" || g.values.lookup "format" == some "json" then .json
  else if g.values.lookup "format" == some "yaml" then .yaml
  else .table

/-- The words that were given. -/
def words (g : Given) : List String := g.words.getD []

/-- Reads the arguments of a command, and makes a request of what they say. -/
def ofSpec (spec : Spec) (task : Given → Task) (args : List String) :
    Except Stop (Request × Bool) := do
  let g ← spec.read args
  return (.run (task g) (options g), g.hasExcess)

/-- Reads the arguments of a command on the configuration. -/
def ofConfig (args : List String) : Except Stop (Request × Bool) := do
  let g ← configCommands.read args
  let (request, hasExcess) ←
    match g.words with
    | none => pure (.help, false)
    | some ("show" :: args) =>
      ofSpec showSpec (fun g => .showConfig (words g).head? (formatOf g)) args
    | some ("validate" :: args) =>
      ofSpec validateSpec (fun g => .validate (g.switches.contains "strict")) args
    | some _ => throw .misuse
  return (request, g.hasExcess || hasExcess)

/-- Reads the arguments of the program. -/
def ofProgram (args : List String) : Except Stop (Request × Bool) := do
  let g ← program.read args
  let (request, hasExcess) ←
    match g.words with
    | none => pure (.help, false)
    | some ("build" :: args) => ofSpec buildSpec (fun _ => .build) args
    | some ("rebuild" :: args) => ofSpec rebuildSpec (fun g => .rebuild (words g)) args
    | some ("resolve" :: args) =>
      ofSpec resolveSpec (fun g =>
        .resolve ((words g).head?.getD "") (g.values.lookup "pattern") (g.values.lookup "prefix")
          (g.switches.contains "list_deps")) args
    | some ("config" :: args) => ofConfig args
    | some _ => throw .misuse
  return (request, g.hasExcess || hasExcess)

/-- What the command line asks for. Arguments that no one takes make it unusable. -/
def ofArguments (args : List String) : Request :=
  match ofProgram args with
  | .ok (request, false) => request
  | .ok (_, true) => .misuse
  | .error .help => .help
  | .error .version => .version
  | .error .misuse => .misuse

end Request

end StaticSite.Command
