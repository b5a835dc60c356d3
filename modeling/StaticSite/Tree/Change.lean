import StaticSite.Tree.Basic

/-!
# Changes of a file tree

How one tree differs from another, location by location: what is gone, which directories are new,
and which files are new or hold other bytes. When a file was written does not count. `changes_self`
says that a tree does not differ from itself.
-/

namespace StaticSite.Tree

/-- How what stands at a location changed. -/
inductive Change where
  /-- It is gone. -/
  | gone
  /-- A directory stands there now. -/
  | directory
  /-- A file with these bytes stands there now. -/
  | file (bytes : ByteArray)
deriving DecidableEq

/-- The text of a location. -/
def locationText (l : Location) : String := "/" ++ "/".intercalate l

/-- How a location changed from one entry to another, if it did. -/
def change? (old new : Option Entry) : Option Change :=
  match old, new with
  | none, none => none
  | some _, none => some .gone
  | some .directory, some .directory => none
  | _, some .directory => some .directory
  | some (.file before _), some (.file bytes _) =>
      if before = bytes then none else some (.file bytes)
  | _, some (.file bytes _) => some (.file bytes)

/-- The locations at which something stands in a tree or in another, each once. -/
def locations (old new : Tree) : List Location :=
  old.entries.map Prod.fst ++ (new.entries.map Prod.fst).filter fun l => (old.at? l).isNone

/-- The changes from one tree to another, in the order of the texts of their locations. -/
def changes (old new : Tree) : List (Location × Change) :=
  let changed := (locations old new).filterMap fun l => (change? (old.at? l) (new.at? l)).map (l, ·)
  changed.mergeSort fun a b => !(locationText b.1 < locationText a.1)

/-- An entry does not differ from itself. -/
@[simp] theorem change?_self (e : Option Entry) : change? e e = none := by
  match e with
  | none => rfl
  | some .directory => rfl
  | some (.file _ _) => simp [change?]

/-- A tree does not differ from itself. -/
@[simp] theorem changes_self (t : Tree) : changes t t = [] := by
  have none_changed : (locations t t).filterMap
      (fun l => (change? (t.at? l) (t.at? l)).map ((l, ·) : Change → Location × Change)) = [] :=
    List.filterMap_eq_nil_iff.2 fun l _ => by simp
  simp only [changes, none_changed, List.mergeSort_nil]

end StaticSite.Tree
