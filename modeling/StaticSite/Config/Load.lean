import StaticSite.Config.Bundled
import StaticSite.Config.Convert
import StaticSite.Config.Environment
import StaticSite.Value.Merge

/-!
# Loading configurations

The configuration of a project is made of layers: the defaults, the project's file, the environment,
and what the caller says, each laid over those before it. Days in its lists and mappings become
texts, which may not lie in one another too deep, and it has to satisfy its schema.
-/

namespace StaticSite.Config

/-- Where the configuration of a project comes from. -/
structure Source where
  /-- The directory of the project. -/
  root : Path
  /-- The configuration file that was asked for. -/
  asked : Option Path
  /-- The variables of the environment. -/
  environment : List (String × String)
deriving Repr

/-- The names of a configuration file in the directory of a project. -/
def fileNames : List String := ["pagebundler.yaml", "pagebundler.yml"]

/-- The source for a directory and a configuration file, both of which may be left open: without a
directory it is that of the file, and without either the working directory. -/
def Source.make (place : Place) (root file : Option String) (environment : List (String × String)) :
    Source :=
  let asked := file.map fun s => Path.absolute place s none
  let root :=
    match root, asked with
    | some s, _ => Path.absolute place s none
    | none, some p => p.parent
    | none, none => Path.absolute place place.cwd.toString none
  ⟨root, asked, environment⟩

variable {σ : Type}

/-- The first of some names under which something stands in a directory. -/
def firstPresent (s : Session σ) (directory : Path) : List String → Except Fault (Option Path)
  | [] => .ok none
  | name :: rest => do
    match ← s.probe (directory.child name) with
    | some _ => return some (directory.child name)
    | none => firstPresent s directory rest

/-- The configuration file in effect, if there is one. -/
def Source.file? (source : Source) (s : Session σ) : Except Fault (Option Path) :=
  match source.asked with
  | some p => .ok (some p)
  | none => firstPresent s source.root fileNames

/-- The directory that relative paths of the configuration start from. -/
def Source.base (source : Source) (s : Session σ) : Except Fault Path :=
  (source.file? s).map fun p? => (p?.map Path.parent).getD source.root

/-- The document of a file, or `default` if it holds nothing. -/
def readDocument (lib : Libraries) (s : Session σ) (p : Path) (default : Value) :
    Except Fault Value := do
  match ← s.probe p with
  | none => throw (.missingFile p)
  | some .directory => throw (.tree .isDirectory p)
  | some (.file bytes _) =>
    match ← lib.read (some p) bytes with
    | .null => return default
    | v => return v

/-- The document of a file, or `default` if it holds nothing, cannot be read, or is no YAML
document. -/
def readDocumentOr (lib : Libraries) (s : Session σ) (p : Path) (default : Value) :
    Except Fault Value :=
  match readDocument lib s p default with
  | .error fault => if fault.isOfTree || fault.isOfYaml then .ok default else .error fault
  | .ok v => .ok v

/-- The mapping in a configuration file. -/
def loadFile (lib : Libraries) (s : Session σ) (p : Path) : Except Fault Mapping :=
  match readDocument lib s p (.mapping []) with
  | .error (.missingFile _) => .error (.noConfiguration p)
  | .error fault => .error (.unreadable p fault.message)
  | .ok (.mapping entries) => .ok entries
  | .ok _ => .error (.notMapping p)

/-- The entries of a value that is a mapping. -/
def entriesOf : Value → Mapping
  | .mapping entries => entries
  | _ => []

/-- Adds an entry to the log. -/
def note (message : String) : Action σ Unit := Action.say .debug .configuration message

/-- A configuration with its days written as text, if lists and mappings do not lie in one another
deeper than there is room for. -/
def finish (limit : Nat) (config : Mapping) : Except Fault Mapping :=
  if limit < (Value.mapping config).levels then .error .tooNested
    else .ok (withDatesAsTextEntries config)

/-- The configuration of a project, with what the caller says laid over it. -/
def load (lib : Libraries) (source : Source) (validate : Bool) (overrides : Mapping) :
    Action σ Mapping := do
  let config := entriesOf defaults
  let config ←
    match ← Action.observe fun s => source.file? s with
    | some p => do
      note ("Loading project config " ++ p.toString)
      let own ← Action.observe fun s => loadFile lib s p
      pure (Mapping.merge config own)
    | none => do
      note ("No project config found under " ++ source.root.toString ++ "; using defaults")
      pure config
  let room := (← get).place.room
  let environment := Environment.read room.brackets source.environment
  modify fun s => { s with log := s.log ++ environment.log }
  let config := Mapping.merge config (entriesOf (← liftM environment.result))
  let config ← liftM (finish room.levels (Mapping.merge config overrides))
  if validate then Action.observe fun s => Bundled.check lib s "config.schema" (.mapping config)
  return config

/-- The settings of a project. -/
def loadSettings (lib : Libraries) (source : Source) (overrides : Mapping) : Action σ Settings := do
  let config ← load lib source true overrides
  let base ← Action.observe fun s => source.base s
  liftM (settingsOf (← get).place (Path.absolute (← get).place base.toString none)
    (.mapping config))

end StaticSite.Config
