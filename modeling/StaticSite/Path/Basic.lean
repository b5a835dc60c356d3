import StaticSite.Text.Search

/-!
# Paths

A path is a root and the names below it. Repeated separators and the name of the directory itself
carry no meaning and are dropped when a path is read; the name of the parent directory is kept,
because what it means depends on the file tree. Two separators at the front are a root of their own.
-/

namespace StaticSite

/-- Where a path starts. -/
inductive Root where
  /-- At the working directory. -/
  | relative
  /-- At the root of the file tree. -/
  | absolute
  /-- At the root, written with two separators. -/
  | doubled
deriving DecidableEq, Repr

/-- The separators a root is written with. -/
def Root.text : Root → String
  | relative => ""
  | absolute => "/"
  | doubled => "//"

/-- A path. -/
structure Path where
  /-- Where it starts. -/
  root : Root
  /-- The names below the root. -/
  names : List String
deriving DecidableEq, Repr

namespace Path

/-- The root a text names: two separators are a root of their own, any other number of them is
one. -/
def rootOf : List Char → Root
  | '/' :: '/' :: '/' :: _ => .absolute
  | '/' :: '/' :: _ => .doubled
  | '/' :: _ => .absolute
  | _ => .relative

/-- The names in a text: the parts between separators, less the empty ones and the directory
itself. -/
def namesOf (s : List Char) : List String :=
  ((Text.splitAt '/' s).map String.ofList).filter fun n => n != "" && n != "."

/-- The path a text names. -/
def ofString (s : String) : Path := ⟨rootOf s.toList, namesOf s.toList⟩

/-- The text of a path. -/
def toString (p : Path) : String :=
  match p.root, p.names with
  | .relative, [] => "."
  | root, names => root.text ++ "/".intercalate names

instance : ToString Path := ⟨toString⟩

/-- The path of the directory a path lies in; a root lies in itself. -/
def parent (p : Path) : Path := ⟨p.root, p.names.dropLast⟩

/-- The last name of a path. -/
def name (p : Path) : String := p.names.getLast?.getD ""

/-- The path of an entry of the directory `p`. -/
def child (p : Path) (name : String) : Path := ⟨p.root, p.names ++ [name]⟩

/-- Whether a path starts at a root. -/
def isAbsolute (p : Path) : Bool := p.root != .relative

/-- The suffix of a name: its last point and what follows, unless the point is its first or last
character. -/
def suffixOf (name : String) : String :=
  match Text.cutLast? ['.'] name.toList with
  | some (before, after) =>
    if before.isEmpty || after.isEmpty then "" else String.ofList ('.' :: after)
  | none => ""

/-- The suffix of the last name of a path. -/
def suffix (p : Path) : String := suffixOf p.name

/-- The components by which paths are ordered: the root, if there is one, and the names. -/
def components (p : Path) : List String :=
  if p.root == .relative then p.names else p.root.text :: p.names

/-- Whether one list of texts comes before another, component by component. -/
def componentsLt : List String → List String → Bool
  | [], [] => false
  | [], _ :: _ => true
  | _ :: _, [] => false
  | a :: as, b :: bs => a < b || (a == b && componentsLt as bs)

/-- Whether a path comes before another. -/
def isBefore (p q : Path) : Bool := componentsLt p.components q.components

/-- The parent directory of a path in a directory is that directory. -/
@[simp] theorem parent_child (p : Path) (name : String) : (p.child name).parent = p := by
  simp [child, parent]

/-- The last name of a path in a directory is its name there. -/
@[simp] theorem name_child (p : Path) (n : String) : (p.child n).name = n := by
  simp [child, name]

end Path

end StaticSite
