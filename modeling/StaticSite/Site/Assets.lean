import StaticSite.Collaborators
import StaticSite.Json.Nesting
import StaticSite.Json.Writer
import StaticSite.Output

/-!
# Assets

Directories that are copied as they are, except that JSON documents are made compact for visitors. A
file that cannot be copied is reported, and the files beside it are copied still.
-/

namespace StaticSite.Assets

variable {σ : Type}

/-- What copying did. -/
structure Copied where
  /-- The files written, in order. -/
  written : List Path
  /-- What failed. -/
  errors : List String
deriving DecidableEq, Repr

/-- Nothing was copied. -/
def Copied.none : Copied := ⟨[], []⟩

/-- What was done first and what was done then. -/
def Copied.append (a b : Copied) : Copied := ⟨a.written ++ b.written, a.errors ++ b.errors⟩

/-- The compact form of a JSON document in which no more brackets are open at once than `limit`. -/
def compactJson (limit : Nat) (text : String) : Except Fault String := do
  let document ← Json.load limit text
  (Symbol.text (Json.compact document)).mapError .half

/-- Copies a file; a JSON document is made compact if `optimized`. -/
def copyFile (store : FileStore σ) (optimized : Bool) (source target : Path) : Action σ Unit := do
  if optimized && ".json".toList.isSuffixOf source.name.toList then
    let text ← Action.observe fun s => store.readText s source
    store.writeText target (← Action.observe fun s => compactJson s.place.room.brackets text)
  else store.copyFile source target

/-- Copies a file, or reports that it cannot be copied. Only faults of files and of their content
are reported. -/
def tryFile (store : FileStore σ) (optimized : Bool) (source target : Path) : Action σ Copied := do
  match ← Action.attempt (copyFile store optimized source target) with
  | .ok () => return ⟨[target], []⟩
  | .error fault =>
    if fault.isOfTree || fault.isOfForm then
      Action.say .error .assets ("Cannot copy asset " ++ source.toString ++ ": " ++ fault.message)
      return ⟨[], [source.toString ++ ": " ++ fault.message]⟩
    else throw fault

/-- Copies some of the entries of a directory, with `inner` copying those that are directories. -/
def copyEntries (store : FileStore σ) (optimized : Bool) (inner : String → Action σ Copied)
    (source target : Path) : List String → Action σ Copied
  | [] => return .none
  | name :: rest => do
    let isDirectory ← Action.observe fun s => store.isDirectory s (source.child name)
    let first ←
      if isDirectory then inner name
      else tryFile store optimized (source.child name) (target.child name)
    return first.append (← copyEntries store optimized inner source target rest)

/-- Copies a directory with all in it. Directories may lie in each other as deep as the text of the
target path allows, which is what `depth` counts. -/
def copyTree (store : FileStore σ) (optimized : Bool) : (depth : Nat) → (source target : Path) →
    Action σ Copied
  | 0, _, target => throw (.tree .tooLong target)
  | depth + 1, source, target => do
    store.ensureDirectory target
    let names ← Action.observe fun s => store.names s source
    copyEntries store optimized
      (fun name => copyTree store optimized depth (source.child name) (target.child name))
        source target names

/-- Copies an asset directory to its place below the output directory. -/
def copy (store : FileStore σ) (directory : Path) (optimized : Bool) (a : AssetDirectory) :
    Action σ Copied := do
  let target ← Action.observe fun s => Output.locate s.place directory a.target
  let copied ← copyTree store optimized (pathLimit + 1) a.source target
  Action.say .info .assets ("Copied " ++ toString copied.written.length ++ " asset file(s) from " ++
    a.source.toString ++ " to " ++ target.toString)
  return copied

end StaticSite.Assets
