import StaticSite.Collaborators
import StaticSite.Digest.Md5
import StaticSite.Include.Expansion
import StaticSite.Output
import StaticSite.Style.Compact

/-!
# Bundling stylesheets

A stylesheet is compiled, which puts the files it imports in their places, and written. If its
output name holds the mark for a hash, the hash of what is written takes the place of the mark, and
the session remembers the name.
-/

namespace StaticSite.Style

variable {σ : Type}

/-- The mark for a hash in an output name. -/
def hashMark : List Char := "[contenthash]".toList

/-- The hash of a text, as it stands in output names. -/
def contentHash (css : String) : String :=
  String.ofList ((Md5.digest (Text.encode css)).toList.take 24)

/-- The expander of imports. Addresses of the web stay as they are. -/
def importer (depthLimit : Int) : Except Fault Expander :=
  Expander.make Expander.defaultName IncludeMode.imports.name .null depthLimit true

/-- Adds what an expansion said to the log. -/
def addLog (log : List Log.Line) : Action σ Unit := modify fun s => { s with log := s.log ++ log }

/-- Compiles a stylesheet: its imports are expanded, and it is compacted if it is made for
visitors. -/
def compile (store : FileStore σ) (depthLimit : Int) (source : Path) (optimized : Bool) :
    Action σ CompiledStyle := do
  let x ← liftM (importer depthLimit)
  let s ← get
  let root := Path.absolute s.place source.toString none
  let (bundle, trace) := x.resolve s.place (store.readText s) root
  addLog trace.log
  match bundle.error with
  | some error => throw (.stylesheet source error)
  | none =>
    let css := if optimized then compact bundle.content else bundle.content
    return ⟨css, root :: bundle.dependencies⟩

/-- Whether an output name holds the mark for a hash. -/
def isHashed (filename : String) : Bool := (Text.cut? hashMark filename.toList).isSome

/-- The output name of a stylesheet with some content. -/
def outputName (filename : String) (css : String) : String :=
  String.ofList (Text.replaceAll hashMark (contentHash css).toList filename.toList)

/-- A stylesheet that was written. -/
structure Written where
  /-- The source. -/
  source : Path
  /-- The name it was written under. -/
  filename : String
  /-- The output file. -/
  output : Path
  /-- The files it was made from. -/
  dependencies : List Path
deriving DecidableEq, Repr

/-- Compiles and writes a stylesheet. -/
def bundle (c : Collaborators σ) (directory : Path) (optimized : Bool) (style : Stylesheet) :
    Action σ Written := do
  let compiled ← c.compile style.source optimized
  let css ← if optimized then c.postProcess compiled.css else pure compiled.css
  let text := String.ofList css
  let filename := if isHashed style.filename then outputName style.filename text else style.filename
  if isHashed style.filename then
    modify fun s => { s with names := s.names.set style filename }
  let output ← Output.write c.store directory filename text
  Action.say .info .styles ("Stylesheet " ++ style.source.toString ++ " -> " ++ output.toString)
  let place := (← get).place
  return ⟨style.source, filename, output,
    compiled.loaded.map fun p => Path.absolute place p.toString none⟩

/-- Removes the directory that a stylesheet is written into; answers its path. -/
def clean (store : FileStore σ) (directory : Path) (style : Stylesheet) : Action σ Path := do
  let target := (Output.path (← get).place directory style.filename).parent
  store.removeDirectory target
  Action.say .info .styles ("Cleaned stylesheet output " ++ target.toString)
  return target

end StaticSite.Style
