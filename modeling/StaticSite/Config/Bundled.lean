import StaticSite.Config.Defaults
import StaticSite.Config.Libraries
import StaticSite.Config.Rules
import StaticSite.Store
import StaticSite.Text.Lowercase

/-!
# Bundled files

The schema and the default configuration belong to the program. They are found by name, as if they
were files of a tree of their own, and given by their values; an absolute name is that of a file of
the session's tree.
-/

namespace StaticSite.Config.Bundled

/-- The directory that names of schemas start from. -/
def schemas : Location := ["pagebundler", "data", "schemas"]

/-- The values that belong to the program, with their locations. -/
def values : List (Location × Value) := [
  (["pagebundler", "data", "schemas", "config.schema.yaml"], Rules.value),
  (["pagebundler", "data", "config", "defaults.yaml"], defaults)]

/-- The tree of the values that belong to the program. -/
def tree : Tree :=
  let directories : List Location :=
    [["pagebundler"], ["pagebundler", "data"], schemas, ["pagebundler", "data", "config"]]
  let files := values.foldl (fun t v => t.put v.1 (.file ByteArray.empty (.given 0))) Tree.empty
  directories.foldl (fun t l => t.put l .directory) files

/-- The name of the file of a schema. -/
def fileName (name : String) : String :=
  let lower := (Text.lowercase name).toList
  if ".yaml".toList.isSuffixOf lower || ".yml".toList.isSuffixOf lower then name
    else name ++ ".yaml"

/-- The value that belongs to the program under a name, if there is one. -/
def value? (name : String) : Option Value :=
  match tree.follow schemas (Path.ofString name).names with
  | .ok l => values.lookup l
  | .error _ => none

variable {σ : Type}

/-- The document of a file of the session's tree. -/
def readDocument (lib : Libraries) (s : Session σ) (p : Path) : Except Fault Value := do
  lib.read none (Text.encode (← s.readText p))

/-- The schema of a name as a value. -/
def load (lib : Libraries) (s : Session σ) (name : String) : Except Fault Value := do
  let name := fileName name
  let p := Path.ofString name
  let v ←
    if p.isAbsolute then
      match ← s.probe p with
      | none => throw (.missingSchema name)
      | some _ => readDocument lib s p
    else
      match value? name with
      | some v => pure v
      | none => throw (.missingSchema name)
  let v := if v.isTruthy then v else .mapping []
  if v.isMapping then return v else throw (.schemaShape name)

/-- The lines that tell some violations, in the order of their places. -/
def report (violations : List Violation) : List String :=
  let names (v : Violation) : List String := v.place.map Value.display
  (violations.mergeSort fun a b => !Path.componentsLt (names b) (names a)).map Violation.text

/-- Refuses a value that violates a schema. A place is told by its keys, which fails for a whole
number of too many digits. -/
def refuse (name : String) (violations : List Violation) : Except Fault Unit :=
  if !violations.all fun v => Value.areWritable v.place then .error .unwritableNumber
  else if violations.isEmpty then .ok ()
  else .error (.invalid name (report violations))

/-- Checks a value against the schema of a name. -/
def check (lib : Libraries) (s : Session σ) (name : String) (v : Value) : Except Fault Unit := do
  let schema ← load lib s name
  refuse name (← lib.violations schema v)

end StaticSite.Config.Bundled
