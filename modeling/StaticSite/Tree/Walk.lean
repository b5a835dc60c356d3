import StaticSite.Tree.Basic
import StaticSite.Path.Normal
import StaticSite.Text.Quoted

/-!
# Walking a file tree

A path is followed from the root, or from the working directory, name by name: every name but the
last has to be that of a directory, and the name of the parent directory leads back up. Where it
cannot be followed there is a cause with a code and a wording of its own.
-/

namespace StaticSite

/-- Why the file tree refuses an operation. -/
inductive TreeCause where
  /-- Nothing stands at the path. -/
  | missing
  /-- Something stands at the path. -/
  | present
  /-- A name that something lies below is not that of a directory. -/
  | notDirectory
  /-- A directory stands where a file is needed. -/
  | isDirectory
  /-- The path or a name in it is too long. -/
  | tooLong
  /-- The path holds a character that ends texts of the system. -/
  | nullCharacter
deriving DecidableEq, Repr

/-- The number and the wording of a cause. -/
def TreeCause.describe : TreeCause → Nat × String
  | missing => (2, "No such file or directory")
  | present => (17, "File exists")
  | notDirectory => (20, "Not a directory")
  | isDirectory => (21, "Is a directory")
  | tooLong => (36, "File name too long")
  | nullCharacter => (22, "embedded null byte")

/-- The wording of a refusal to do something at a path. -/
def TreeCause.message (c : TreeCause) (p : Path) : String :=
  match c with
  | nullCharacter => c.describe.2
  | c => "[Errno " ++ toString c.describe.1 ++ "] " ++ c.describe.2 ++ ": " ++
      Text.quoted p.toString

/-- The number of bytes a name may have. -/
def nameLimit : Nat := 255

/-- The number of bytes that the text of a path stays below. -/
def pathLimit : Nat := 4096

namespace Tree

/-- Follows names from a location. The last of them need not be there. -/
def follow (t : Tree) (l : Location) : List String → Except TreeCause Location
  | [] => .ok l
  | name :: rest =>
    match t.at? l with
    | none => .error .missing
    | some (.file _ _) => .error .notDirectory
    | some .directory =>
      if name == ".." then follow t l.dropLast rest
      else if nameLimit < name.utf8ByteSize then .error .tooLong
      else follow t (l ++ [name]) rest

/-- The location of a path, relative paths starting at `cwd`. -/
def locate (t : Tree) (cwd : Path) (p : Path) : Except TreeCause Location :=
  let text := p.toString
  if text.toList.contains '\x00' then .error .nullCharacter
  else if pathLimit ≤ text.utf8ByteSize then .error .tooLong
  else if p.isAbsolute then t.follow [] p.names
  else t.follow cwd.names p.names

/-- What stands at a path, with its location. -/
def inspect (t : Tree) (cwd : Path) (p : Path) : Except TreeCause (Location × Entry) := do
  let l ← t.locate cwd p
  match t.at? l with
  | some e => .ok (l, e)
  | none => .error .missing

/-- What stands at a path, if anything does; refuses a path that is too long. -/
def probe (t : Tree) (cwd : Path) (p : Path) : Except TreeCause (Option Entry) :=
  match t.inspect cwd p with
  | .ok (_, e) => .ok (some e)
  | .error .tooLong => .error .tooLong
  | .error _ => .ok none

/-- Makes a directory in a directory that is there. -/
def makeDirectory (t : Tree) (cwd : Path) (p : Path) : Except TreeCause Tree := do
  let l ← t.locate cwd p
  match t.at? l with
  | some _ => .error .present
  | none => .ok (t.put l .directory)

/-- Makes a directory, and up to `fuel` of those it lies in, unless it is there. On failure the
answer names the path at which it failed; what was made before stays. -/
def makeDirectoriesUpTo (cwd : Path) (p : Path) :
    (fuel : Nat) → Tree → Except (TreeCause × Path) Unit × Tree
  | fuel, t =>
    match t.makeDirectory cwd p with
    | .ok t => (.ok (), t)
    | .error .missing =>
      match fuel with
      | 0 => (.error (.missing, p), t)
      | fuel + 1 =>
        if p.parent = p then (.error (.missing, p), t)
        else
          match makeDirectoriesUpTo cwd p.parent fuel t with
          | (.ok (), t) =>
            match t.makeDirectory cwd p with
            | .ok t => (.ok (), t)
            | .error cause =>
              if isDirectoryAt t then (.ok (), t) else (.error (cause, p), t)
          | failed => failed
    | .error cause => if isDirectoryAt t then (.ok (), t) else (.error (cause, p), t)
where
  /-- Whether a directory stands at the path. -/
  isDirectoryAt (t : Tree) : Bool :=
    match t.probe cwd p with
    | .ok (some e) => e.isDirectory
    | _ => false

/-- Makes a directory, and those it lies in, unless it is there. -/
def makeDirectories (t : Tree) (cwd : Path) (p : Path) : Except (TreeCause × Path) Unit × Tree :=
  makeDirectoriesUpTo cwd p p.names.length t

end Tree

end StaticSite
