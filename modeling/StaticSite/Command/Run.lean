import StaticSite.Build.Pass
import StaticSite.Command.Request
import StaticSite.Command.Table
import StaticSite.Config.Load
import StaticSite.Json.Writer

/-!
# Running commands

What each command does and prints. A fault ends a command with the status 1 and a message; where the
answer is to be a JSON document, so is the message. The log goes to a file if one is named;
otherwise it goes to the error output, from warnings on, or in full if asked for, unless the answer
is a JSON document.
-/

namespace StaticSite.Command

/-- What a command printed, and its status. -/
structure Outcome where
  /-- The status. -/
  status : Nat
  /-- The output. -/
  out : String
  /-- The error output, without the log. -/
  err : String
deriving DecidableEq, Repr

/-- What surrounds a run of the program. -/
structure Surroundings where
  /-- The variables of the environment. -/
  environment : List (String × String)
  /-- The time of the run as reports show it. -/
  time : String
  /-- The time of the run as log lines show it. -/
  logTime : String
  /-- The libraries. -/
  libraries : Config.Libraries

variable {σ : Type}

/-- The line of a text. -/
def line (s : String) : String := s ++ "\n"

/-- An outcome that only prints lines. -/
def printed (status : Nat) (lines : List String) : Outcome :=
  ⟨status, String.join (lines.map line), ""⟩

/-- The fault of a key, whole number or set that no JSON document holds. -/
def unwritable : Value → Fault
  | .int _ | .set _ => .unwritableNumber
  | key => .unwritableKey key.kindName

/-- A value as a JSON document, if its keys and numbers can be written. -/
def jsonText (v : Value) : Except Fault String := (Json.indented v).mapError unwritable

/-- An outcome that prints a JSON document. -/
def printedJson (status : Nat) (m : Mapping) : Except Fault Outcome := do
  return printed status [← jsonText (.mapping m)]

/-- The outcome of a fault that no command handles. -/
def failure (fault : Fault) : Outcome := ⟨1, "", line ("Error: " ++ fault.message)⟩

/-- An outcome that prints lines, and then the fault that stopped it, if one did. -/
def printedTo (lines : List String) : Option Fault → Outcome
  | none => printed 0 lines
  | some fault => { failure fault with out := (printed 1 lines).out }

/-- A fault as a mapping, for a command with a code of its own. -/
def faultMapping (code : String) (fault : Fault) : Mapping :=
  (.text "error", .text code) ::
    match fault.code? with
    | some name => Fault.payload fault.message name fault.context
    | none => [(.text "code", .text code), (.text "message", .text fault.message)]

/-- The outcome of a fault in a command. -/
def refused (json : Bool) (code : String) (fault : Fault) : Except Fault Outcome :=
  if json then do return ⟨1, "", line (← jsonText (.mapping (faultMapping code fault)))⟩
  else .ok (failure fault)

/-- A text that is not empty. -/
def nonEmpty (s : Option String) : Option String := s.filter (· != "")

/-- Where the configuration comes from. -/
def source (o : Options) (e : Surroundings) (place : Place) : Config.Source :=
  Config.Source.make place (nonEmpty o.root) (nonEmpty o.config) e.environment

/-- What the options lay over the configuration. -/
def overrides (o : Options) : Mapping :=
  match nonEmpty o.mode with
  | some mode => [(.text "mode", .text mode)]
  | none => []

/-- The settings of the project. -/
def settings (o : Options) (e : Surroundings) : Action σ Settings := do
  Config.loadSettings e.libraries (source o e (← get).place) (overrides o)

/-- The builder of the project. -/
def builder (o : Options) (e : Surroundings) : Action σ (Builder σ) := do
  let settings ← settings o e
  liftM (Builder.make settings (.standard settings))

/-- Prints the report of a pass. -/
def printReport (o : Options) (e : Surroundings) (r : Report) : Except Fault Outcome :=
  let status := if r.isOk then 0 else 1
  if o.json then
    printedJson status ((.text "status", .text (if r.isOk then "success" else "failed")) ::
      r.toMapping (some e.time))
  else .ok (printed status [r.summary])

/-- The absolute path of a file that was named on the command line. -/
def filePath (o : Options) (place : Place) (file : String) : Path :=
  Path.absolute place file ((nonEmpty o.root).map fun root => Path.absolute place root none)

/-- Runs an action; its fault is an outcome as well, in the form that a command gives it. -/
def guardedBy {α : Type} (o : Options) (code : String) (work : Action σ α)
    (present : α → Session σ → Except Fault Outcome) : Action σ Outcome := do
  match ← Action.attempt work with
  | .ok a => Action.observe fun s => present a s
  | .error fault => liftM (refused o.json code fault)

/-- A full pass over the project. -/
def fullPass (o : Options) (e : Surroundings) : Action σ Report := do
  (← builder o e).buildAll

/-- A full pass over the project, and then the pass for files that changed. -/
def changedPass (o : Options) (e : Surroundings) (files : List String) : Action σ Report := do
  let b ← builder o e
  let _ ← b.buildAll
  b.handle (files.map (filePath o (← get).place))

/-- A full pass. -/
def build (o : Options) (e : Surroundings) : Action σ Outcome :=
  guardedBy o "build_error" (fullPass o e) fun r _ => printReport o e r

/-- A full pass, and then the pass for files that changed. -/
def rebuild (o : Options) (e : Surroundings) (files : List String) : Action σ Outcome :=
  guardedBy o "rebuild_error" (changedPass o e files) fun r _ => printReport o e r

/-- Expands one file. -/
def resolveFile (o : Options) (e : Surroundings) (file : String) (mode word : Option String) :
    Action σ Bundle := do
  let settings ← settings o e
  let includes := settings.includes
  let x ← liftM
    (Expander.make ((nonEmpty word).getD includes.word) ((nonEmpty mode).getD includes.mode)
    includes.properties includes.depthLimit false)
  let s ← get
  let (bundle, trace) := x.resolve s.place s.readText (filePath o s.place file)
  set { s with log := s.log ++ trace.log }
  return bundle

/-- A bundle as the entries of a mapping. -/
def bundleMapping (b : Bundle) : Mapping := [
  (.text "content", .text (String.ofList b.content)),
  (.text "dependencies", Report.texts (b.dependencies.map Path.toString)),
  (.text "error", Report.optional b.error),
  (.text "warnings", Report.texts b.warnings)]

/-- Prints a bundle, or the files it depends on. -/
def printBundle (o : Options) (file : String) (listsDependencies : Bool) (b : Bundle) :
    Except Fault Outcome :=
  let status := if b.isOk then 0 else 1
  if o.json then printedJson status ((.text "file", .text file) :: bundleMapping b)
  else if listsDependencies then .ok (printed status (b.dependencies.map Path.toString))
  else .ok (printed status [String.ofList b.content])

/-- Expands one file and prints it, or the files it depends on. -/
def resolve (o : Options) (e : Surroundings) (file : String) (mode word : Option String)
    (listsDependencies : Bool) : Action σ Outcome :=
  guardedBy o "resolve_error" (resolveFile o e file mode word) fun b _ =>
    printBundle o file listsDependencies b

/-- The keys that a dotted key consists of. -/
def keyParts (key : String) : List String :=
  ((Text.splitAt '.' key.toList).map String.ofList).filter (· != "")

/-- What stands under some keys of a value. -/
def lookup : List String → Value → Option Value
  | [], v => some v
  | key :: rest, .mapping entries => (Mapping.find? entries key).bind (lookup rest)
  | _ :: _, _ => none

/-- A value under some keys. -/
def nest (keys : List String) (v : Value) : Value :=
  keys.foldr (fun key v => .mapping [(.text key, v)]) v

/-- A text without the blanks at its end. -/
def dropEnd (s : String) : String := String.ofList (Text.dropTrailingBlanks s.toList)

/-- A value as a YAML document, if it can be written. -/
def yamlText (e : Surroundings) (v : Value) : Except Fault String := do
  return dropEnd (← e.libraries.write v)

/-- The lines of a configuration for the eye, and the fault at which they end, if a number cannot be
written. -/
def sectionLines : Mapping → List String × Option Fault
  | [] => ([], none)
  | (k, v) :: rest =>
    if !k.isWritable then ([], some .unwritableNumber)
    else if !v.isWritable then (["[" ++ k.display ++ "]"], some .unwritableNumber)
    else
      let (lines, fault?) := sectionLines rest
      (("[" ++ k.display ++ "]") :: Table.format 1 v :: lines, fault?)

/-- Prints a configuration. -/
def presentAll (e : Surroundings) (format : ShowFormat) (config : Mapping) : Except Fault Outcome :=
  match format with
  | .json => printedJson 0 config
  | .yaml => do return printed 0 [← yamlText e (.mapping config)]
  | .table =>
    let (lines, fault?) := sectionLines config
    .ok (printedTo
      (["PageBundler Configuration", String.ofList (List.replicate 60 '=')] ++ lines) fault?)

/-- Prints the part of a configuration that stands under a key. -/
def presentPart (e : Surroundings) (key : String) (format : ShowFormat) (v : Value) :
    Except Fault Outcome :=
  match format with
  | .json => printedJson 0 [(.text key, v)]
  | .yaml => do return printed 0 [← yamlText e (nest (keyParts key) v)]
  | .table =>
    .ok (if v.isWritable then printed 0 [key ++ ":", Table.format 1 v]
      else printedTo [key ++ ":"] (some .unwritableNumber))

/-- What is told where nothing stands under a key. -/
def absence (key : String) : String := "Key not found: " ++ key

/-- Prints a configuration, or the part of it under a key. -/
def present (e : Surroundings) (key : Option String) (format : ShowFormat) (config : Mapping) :
    Except Fault Outcome :=
  match key with
  | none => presentAll e format config
  | some key =>
    match lookup (keyParts key) (.mapping config) with
    | none => .ok (printed 1 [absence key])
    | some v => presentPart e key format v

/-- Shows the configuration. It need not satisfy its schema. -/
def showConfig (o : Options) (e : Surroundings) (key : Option String) (format : ShowFormat) :
    Action σ Outcome :=
  guardedBy o "config_error"
    (do Config.load e.libraries (source o e (← get).place) false (overrides o))
    fun config _ => present e (nonEmpty key) format config

/-- What is wrong with the sources that settings name. -/
structure Issues where
  /-- What keeps the site from being built. -/
  errors : List String
  /-- What else should be looked at. -/
  warnings : List String
deriving DecidableEq, Repr

/-- What is told of an entry, if its key can be written. -/
def aboutEntry (key : Value) (text : String) : Except Fault String :=
  if key.isWritable then .ok ("entry." ++ key.display ++ text) else .error .unwritableNumber

/-- What is told of a source, unless it is there. -/
def aboutSource (key : Value) (text : String) (source : Path) (isThere : Bool) :
    Except Fault (Option String) :=
  if isThere then .ok none else some <$> aboutEntry key (text ++ source.toString)

/-- What is wrong with a page. -/
def pageIssues (s : Session σ) (p : Page) : Except Fault Issues := do
  let (missing, unnamed) ←
    match p.source with
    | none => pure (none, none)
    | some source => do
      let missing ← aboutSource p.key ".import not found: " source (← s.isFile source)
      let unnamed ←
        if p.filename.any (· != "") then pure none
        else some <$> aboutEntry p.key " has an import but no filename; it will not be built"
      pure (missing, unnamed)
  let styles ← p.styles.filterMapM fun style => do
    aboutSource p.key ".styles import not found: " style.source (← s.isFile style.source)
  return ⟨missing.toList ++ styles, unnamed.toList⟩

/-- What is wrong with the sources that settings name. -/
def issues (s : Session σ) (settings : Settings) : Except Fault Issues := do
  let pages ← settings.pages.mapM (pageIssues s)
  let assets ← settings.assetDirectories.filterMapM fun a => do
    aboutSource a.key ".src_path is not a directory: " a.source (← s.isDirectory a.source)
  let sitemap :=
    match settings.sitemap with
    | none => []
    | some o =>
      if Sitemap.isWebAddress o.origin then []
      else ["sitemap.origin_url should start with http/https"]
  let manifest ←
    match settings.manifest with
    | none => pure []
    | some p => do
      pure (if ← s.isFile p then [] else ["chunk_manifest not found: " ++ p.toString])
  return ⟨pages.flatMap (·.errors) ++ assets, pages.flatMap (·.warnings) ++ sitemap ++ manifest⟩

/-- Prints what is wrong with a configuration. If it is strict, warnings count as errors. -/
def printIssues (o : Options) (isStrict : Bool) (i : Issues) : Except Fault Outcome :=
  let failed := !i.errors.isEmpty || (isStrict && !i.warnings.isEmpty)
  let status := if failed then 1 else 0
  if o.json then
    printedJson status [(.text "valid", .bool !failed), (.text "errors", Report.texts i.errors),
      (.text "warnings", Report.texts i.warnings)]
  else
    .ok (printed status (i.errors.map ("ERROR: " ++ ·) ++ i.warnings.map ("WARNING: " ++ ·) ++
      [if failed then "Configuration is invalid" else "Configuration is valid"]))

/-- Checks the configuration and the sources it names. -/
def validate (o : Options) (e : Surroundings) (isStrict : Bool) : Action σ Outcome :=
  guardedBy o "invalid_config" (settings o e) fun settings s => do
    printIssues o isStrict (← issues s settings)

/-- Runs a command. -/
def Task.run (task : Task) (o : Options) (e : Surroundings) : Action σ Outcome :=
  match task with
  | .build => Command.build o e
  | .rebuild files => Command.rebuild o e files
  | .resolve file mode word listsDependencies =>
      Command.resolve o e file mode word listsDependencies
  | .showConfig key format => Command.showConfig o e key format
  | .validate isStrict => Command.validate o e isStrict

/-- The least level of the log that is written, if any is. -/
def logLevel (o : Options) : Option Log.Level :=
  match nonEmpty o.logFile with
  | some _ => some (if o.isVerbose then .debug else .info)
  | none =>
    if o.isVerbose then some .debug else if o.json then none else some .warning

/-- The lines of the log from a level on. -/
def logText (time : String) (least : Option Log.Level) (log : List Log.Line) : String :=
  match least with
  | none => ""
  | some least =>
    String.join ((log.filter (·.level.isAtLeast least)).map fun e => line (time ++ " " ++ e.text))

/-- A file that the log is added to. -/
structure LogFile where
  /-- Its location. -/
  location : Location
  /-- The stamp it has. -/
  stamp : Stamp

/-- The path of the file of the log, which a text names. -/
def logPath (place : Place) (file : String) : Path :=
  ⟨.absolute, Path.normalNames (Path.below place.cwd (Path.ofString file)).names⟩

/-- The file at a location, which is made without content if nothing stands there. -/
def claimFile (l : Location) : Action σ LogFile := do
  match (← get).tree.at? l with
  | some (.file _ stamp) => return ⟨l, stamp⟩
  | _ =>
    let stamp : Stamp := .fresh (← get).clock
    Action.putFile l ByteArray.empty
    return ⟨l, stamp⟩

/-- Makes the file of the log ready: it is there afterwards, with what it held before. -/
def openLog (file : String) : Action σ LogFile := do
  let p := logPath (← get).place file
  if file.toList.contains '\x00' then throw (.tree .nullCharacter p)
  Action.ensureDirectory p.parent true
  claimFile (← Action.observe fun s => Action.fileLocation s p)

/-- Adds a text to the file of the log, unless the file has given way to another. -/
def addToLog (f : LogFile) (text : String) : Action σ Unit := do
  match (← get).tree.at? f.location with
  | some (.file bytes stamp) =>
    if stamp = f.stamp && text != "" then Action.putFile f.location (bytes ++ Text.encode text)
  | _ => return

/-- Makes the file of the log ready, if one is named. -/
def openNamedLog (o : Options) : Action σ (Option LogFile) :=
  match nonEmpty o.logFile with
  | some file => some <$> openLog file
  | none => return none

/-- Writes the log to its file, or to the error output if there is none. -/
def closeLog (file : Option LogFile) (log : String) (outcome : Outcome) : Action σ Outcome :=
  match file with
  | some f => do
    addToLog f log
    return outcome
  | none => return { outcome with err := log ++ outcome.err }

/-- Runs an action; a fault that it ends with is an outcome as well. -/
def settled (a : Action σ Outcome) : Action σ Outcome := do
  match ← Action.attempt a with
  | .ok outcome => return outcome
  | .error fault => return failure fault

/-- Runs a command with its log. A fault of the file of the log is the only one that is not made an
outcome. -/
def perform (task : Task) (o : Options) (e : Surroundings) : Action σ Outcome := do
  let file ← openNamedLog o
  let outcome ← settled (task.run o e)
  closeLog file (logText e.logTime (logLevel o) (← get).log) outcome

/-- How to call the program. -/
def usage : String :=
  "usage: pagebundler [-h] [--version] build | rebuild FILE... | resolve FILE | " ++
    "config show [KEY] | config validate"

/-- Answers a request. -/
def answer (r : Request) (e : Surroundings) : Action σ Outcome :=
  match r with
  | .help => return ⟨0, line usage, ""⟩
  | .version => return ⟨0, line "pagebundler 1.0.0", ""⟩
  | .misuse => return ⟨2, "", line usage⟩
  | .run task o => perform task o e

end StaticSite.Command
