import StaticSite.Json.Nesting
import StaticSite.Store

/-!
# Script chunks

A chunk has a name in the settings and a file that a bundler of scripts wrote. The file is looked up
in a mapping, or first in a manifest, a file that is read again whenever its stamp differs from that
of the last good read.
-/

namespace StaticSite.Chunk

/-- The first file that is listed for a chunk. -/
def firstFile? : Option Value → Option String
  | some (.text s) => if s.isEmpty then none else some s
  | some (.list (v :: _)) => some v.display
  | _ => none

/-- The file of a chunk in a mapping. -/
def lookup (chunks : Mapping) (name : String) : Option String := firstFile? (chunks.find? name)

/-- Lists of files as a mapping. -/
def ofLists (chunks : List (String × List String)) : Mapping :=
  chunks.map fun (name, files) => (.text name, .list (files.map .text))

/-- The chunks of a manifest in which no more brackets are open at once than `limit`: a manifest
that is no object lists none. -/
def manifestChunks (limit : Nat) (text : String) : Except Fault Mapping :=
  match Json.load limit text with
  | .error fault => .error fault
  | .ok document =>
    match document.toValue with
    | .mapping entries => .ok entries
    | _ => .ok []

variable {σ : Type}

/-- The chunks that the manifest lists now. One that is not there lists none. -/
def loadManifest (p : Path) : Action σ Mapping := do
  let s ← get
  match s.inspect p with
  | .error (.tree .missing _) =>
    Action.say .warning .chunks ("Chunk manifest not found: " ++ p.toString)
    return []
  | .error fault => throw fault
  | .ok (_, .directory) => throw (.tree .isDirectory p)
  | .ok (_, .file bytes stamp) =>
    if s.manifest.stamp = some stamp then return s.manifest.chunks
    else
      let chunks ← liftM (Session.textOf bytes >>= manifestChunks s.place.room.brackets)
      modify fun s => { s with manifest := ⟨some stamp, chunks⟩ }
      return chunks

/-- The file of a chunk in the manifest, or in a mapping if the manifest lists none. -/
def lookupInManifest (p : Path) (fallback : Mapping) (name : String) :
    Action σ (Option String) := do
  match lookup (← loadManifest p) name with
  | some file => return some file
  | none => return lookup fallback name

/-- How the chunks of a site are looked up. -/
def lookupFor (settings : Settings) (name : String) : Action σ (Option String) :=
  match settings.manifest with
  | some p => lookupInManifest p (ofLists settings.chunks) name
  | none => return lookup (ofLists settings.chunks) name

end StaticSite.Chunk
