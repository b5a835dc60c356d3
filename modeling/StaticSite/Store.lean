import StaticSite.Session

/-!
# File stores

All reads and writes of a build go through a file store. Reading, listing and asking for a directory
look at a session without changing it; the other operations are actions. `FileStore.onTree` is the
store that works on the file tree of the session.
-/

namespace StaticSite

/-- The operations on files that a build uses. -/
structure FileStore (σ : Type) where
  /-- The text of a file. -/
  readText : Session σ → Path → Except Fault String
  /-- Whether a directory stands at a path. -/
  isDirectory : Session σ → Path → Except Fault Bool
  /-- The names in a directory, in order. -/
  names : Session σ → Path → Except Fault (List String)
  /-- Writes a text to a file. -/
  writeText : Path → String → Action σ Unit
  /-- Makes a directory, and those it lies in, unless it is there. -/
  ensureDirectory : Path → Action σ Unit
  /-- Removes a directory with all in it, as far as that can be done. -/
  removeDirectory : Path → Action σ Unit
  /-- Copies the bytes of a file. -/
  copyFile : (source target : Path) → Action σ Unit

namespace Session

variable {σ : Type}

/-- What stands at a path, with its location. -/
def inspect (s : Session σ) (p : Path) : Except Fault (Location × Tree.Entry) :=
  (s.tree.inspect s.place.cwd p).mapError fun cause => .tree cause p

/-- What stands at a path, if anything does. -/
def probe (s : Session σ) (p : Path) : Except Fault (Option Tree.Entry) :=
  (s.tree.probe s.place.cwd p).mapError fun cause => .tree cause p

/-- Whether a file stands at a path. -/
def isFile (s : Session σ) (p : Path) : Except Fault Bool :=
  (s.probe p).map fun e? => e?.any fun e => !e.isDirectory

/-- Whether a directory stands at a path. -/
def isDirectory (s : Session σ) (p : Path) : Except Fault Bool :=
  (s.probe p).map fun e? => e?.any Tree.Entry.isDirectory

/-- The bytes of a file. -/
def readBytes (s : Session σ) (p : Path) : Except Fault ByteArray := do
  match ← s.inspect p with
  | (_, .directory) => .error (.tree .isDirectory p)
  | (_, .file bytes _) => .ok bytes

/-- The text that some bytes hold, every line end turned into a line feed. -/
def textOf (bytes : ByteArray) : Except Fault String :=
  match Text.decode bytes with
  | .ok text => .ok (String.ofList (Text.unifyLineEnds text.toList))
  | .error fault => .error (.bytes fault)

/-- The text of a file. -/
def readText (s : Session σ) (p : Path) : Except Fault String := do
  match ← s.probe p with
  | none => .error (.missingText p)
  | some .directory => .error (.tree .isDirectory p)
  | some (.file bytes _) => textOf bytes

/-- The names in a directory, in order. -/
def names? (s : Session σ) (p : Path) : Except Fault (List String) := do
  match ← s.inspect p with
  | (l, .directory) => .ok (s.tree.names l)
  | (_, .file _ _) => .error (.tree .notDirectory p)

end Session

namespace Action

variable {σ : Type}

/-- Makes a directory, and those it lies in, unless it is there. -/
def makeDirectories (p : Path) : Action σ Unit := fun s =>
  match s.tree.makeDirectories s.place.cwd p with
  | (.ok (), tree) => (.ok (), { s with tree })
  | (.error (cause, at'), tree) => (.error (.tree cause at'), { s with tree })

/-- Puts bytes at a location as a file written now. -/
def putFile (l : Location) (bytes : ByteArray) : Action σ Unit :=
  modify fun s =>
    { s with tree := s.tree.put l (.file bytes (.fresh s.clock)), clock := s.clock + 1 }

/-- The location of a file that is to be written, which may not be that of a directory. -/
def fileLocation (s : Session σ) (p : Path) : Except Fault Location := do
  let l ← (s.tree.locate s.place.cwd p).mapError fun cause => .tree cause p
  match s.tree.at? l with
  | some .directory => .error (.tree .isDirectory p)
  | _ => .ok l

/-- Writes a text to a file; the directory it lies in is made first, and a temporary file in that
directory takes the place of what stands at the path. -/
def writeText (p : Path) (text : String) : Action σ Unit := do
  makeDirectories p.parent
  let l ← observe fun s => (fileLocation s p).mapError Fault.ofReplacing
  putFile l (Text.encode text)

/-- Makes a directory, and those it lies in, unless it is there; nothing else may stand at the path.
Without `create` the directory has to be there. -/
def ensureDirectory (p : Path) (create : Bool) : Action σ Unit := do
  match ← observe fun s => s.probe p with
  | some .directory => return
  | some (.file _ _) => throw (.occupied p)
  | none => if create then makeDirectories p else throw (.missingDirectory p)

/-- Removes a directory with all in it; answers whether that could be done. A root or the working
directory loses what is in it but stays. A path with a null character, which the system refuses in a
way of its own, is not for this (`Builder.CanFinish`). -/
def removeTree (p : Path) : Action σ Bool := do
  match (← get).inspect p with
  | .ok (l, .directory) =>
    if p.names.isEmpty then
      modify fun s =>
        { s with tree := (s.tree.names l).foldl (fun t n => t.erase (l ++ [n])) s.tree }
      return false
    else
      modify fun s => { s with tree := s.tree.erase l }
      return true
  | _ => return false

/-- Copies the bytes of a file, which may not be copied onto itself. -/
def copyFile (source target : Path) : Action σ Unit := do
  makeDirectories target.parent
  let s ← get
  if let .ok (a, _) := s.inspect source then
    if let .ok (b, _) := s.inspect target then
      if a = b then throw (.sameFile source target)
  let bytes ← observe fun s => s.readBytes source
  let l ← observe fun s => fileLocation s target
  putFile l bytes

end Action

/-- The store that works on the file tree of the session. -/
def FileStore.onTree {σ : Type} : FileStore σ where
  readText := Session.readText
  isDirectory := Session.isDirectory
  names := Session.names?
  writeText := Action.writeText
  ensureDirectory p := Action.ensureDirectory p true
  removeDirectory p := do
    unless ← Action.removeTree p do
      Action.say .debug .store ("Directory not removed: " ++ p.toString)
  copyFile := Action.copyFile

end StaticSite
