import StaticSite.Store
import StaticSite.Site.Address

/-!
# Output files

Where the products of a build are written: a filename of the configuration names a place below the
output directory, whatever separators it begins with.
-/

namespace StaticSite.Output

/-- The text that names an output file below the output directory. -/
def nameOf (filename : String) : String := String.ofList (Address.relativeName filename.toList)

/-- The path of an output file. Where the home directory that a name begins with cannot be looked up
there is none, and a path stands for it that the system takes nowhere. -/
def path (place : Place) (directory : Path) (filename : String) : Path :=
  Path.absolute place (if Path.hasHome (nameOf filename) then nameOf filename else "\x00/\x00")
    (some directory)

/-- The path of an output file, if there is one. -/
def locate (place : Place) (directory : Path) (filename : String) : Except Fault Path :=
  if Path.hasHome (nameOf filename) then .ok (path place directory filename)
  else .error (.tree .nullCharacter (Path.ofString (nameOf filename)))

variable {σ : Type}

/-- Writes a text to an output file; answers its path. -/
def write (store : FileStore σ) (directory : Path) (filename : String) (text : String) :
    Action σ Path := do
  let target ← Action.observe fun s => locate s.place directory filename
  store.ensureDirectory target.parent
  store.writeText target text
  Action.say .debug .output ("Wrote " ++ target.toString)
  return target

end StaticSite.Output
