import StaticSite.Include.Directive
import StaticSite.Log
import StaticSite.Path.Normal
import StaticSite.Value.Show

/-!
# Expanding includes

An expander turns a file into the text of a page: each directive that names a file gives way to the
expanded text of that file, each one that names a property to its value. While it runs it keeps a
trace: the files it visited in order, the texts it has read, so that none is read twice, and what it
has to warn of. The answer is a bundle, which holds a diagnostic text in place of the page if
anything failed.
-/

namespace StaticSite

/-- The merged text of a page and the files it depends on. -/
structure Bundle where
  /-- The text; a diagnostic text if there is an error. -/
  content : List Char
  /-- The files it was made from besides the one it started from, in the order of the first visit;
  none if there is an error. -/
  dependencies : List Path
  /-- What failed. -/
  error : Option String
  /-- What was missing. -/
  warnings : List String
deriving DecidableEq, Repr

/-- Whether nothing failed. -/
def Bundle.isOk (b : Bundle) : Bool := b.error.isNone

/-- What an expansion has done so far. -/
structure Trace where
  /-- The files visited, in the order of the first visit. -/
  visited : List Path
  /-- The texts read. -/
  texts : List (Path × List Char)
  /-- What was missing. -/
  warnings : List String
  /-- The log. -/
  log : List Log.Line
  /-- The files that a read was tried for. -/
  reads : List Path

/-- The trace of an expansion that has not begun. -/
def Trace.start : Trace := ⟨[], [], [], [], []⟩

/-- A step of an expansion. -/
abbrev Expansion (α : Type) := ExceptT Fault (StateM Trace) α

/-- How texts are read. -/
abbrev Reads := Path → Except Fault String

/-- Properties that directives may name. -/
abbrev Properties := List (String × String)

namespace Properties

/-- Gives a property its value: in its place if it is there, at the end otherwise. -/
def set (ps : Properties) (name value : String) : Properties :=
  match ps with
  | [] => [(name, value)]
  | (n, v) :: rest => if n = name then (n, value) :: rest else (n, v) :: set rest name value

/-- The properties in a value: the entries of a mapping that are texts. What is no mapping holds
none. -/
def ofValue : Value → Properties
  | .mapping entries =>
    entries.foldl (fun ps e =>
      match e.2 with
      | .text s => set ps e.1.display s
      | _ => ps) []
  | _ => []

/-- Whether the names of the properties in a value can be written. -/
def areNamed : Value → Bool
  | .mapping entries =>
    entries.all fun e =>
      match e.2 with
      | .text _ => e.1.isWritable
      | _ => true
  | _ => true

end Properties

/-- How includes are expanded. -/
structure Expander where
  /-- The name that diagnostics begin with. -/
  name : String
  /-- How directives are written. -/
  grammar : Grammar
  /-- The properties that directives may name. -/
  properties : Properties
  /-- The greatest depth at which a file is included. -/
  depthLimit : Int
  /-- Whether directives that name an address of the web are left as they are. -/
  keepExternal : Bool

namespace Expander

/-- The name where none is chosen. -/
def defaultName : String := "PageBundler"

/-- The expander for a word, the name of a mode and the properties. -/
def make (word mode : String) (properties : Value) (depthLimit : Int) (keepExternal : Bool) :
    Except Fault Expander := do
  let word := Grammar.wordOf word
  let name := if word.isEmpty then defaultName else word
  let grammar ← Grammar.make name mode
  if !Properties.areNamed properties then throw .unwritableNumber
  return ⟨name, grammar, .ofValue properties, depthLimit, keepExternal⟩

/-- The border of diagnostics. -/
def border : String := "**********"

/-- The text that stands in place of a page that failed. -/
def diagnostic (x : Expander) (message : String) : String :=
  if message.isEmpty then x.name ++ " ERROR: check logs"
  else x.name ++ " Exception:\n" ++ border ++ " " ++ message ++ " " ++ border

/-- Whether a reference is an address of the web: it has a scheme of two letters or more, or a
host. -/
def isExternal : List Char → Bool
  | '/' :: '/' :: _ => true
  | c :: rest =>
    let isSchemeChar (c : Char) : Bool := c.isAlphanum || c == '+' || c == '.' || c == '-'
    c.isAlpha && !(rest.takeWhile isSchemeChar).isEmpty &&
      (rest.dropWhile isSchemeChar).head? == some ':'
  | [] => false

/-- The file a reference names in a file `container` of an expansion that starts from `root`.
Separators at its front have no meaning, and it takes the suffix of `root` if it has none of its
own. -/
def target (place : Place) (root container : Path) (reference : List Char) : Except Fault Path :=
  let name := (reference.map fun c => if c == '\\' then '/' else c).dropWhile (· == '/')
  if name.isEmpty then .error (.emptyReference container)
  else
    let text := String.ofList name
    let text := if (Path.ofString text).suffix.isEmpty then text ++ root.suffix else text
    .ok (Path.absolute place text (some container.parent))

/-- The text of a file, read at most once. -/
def fetch (read : Reads) (p : Path) : Expansion (List Char) := do
  match (← get).texts.lookup p with
  | some text => return text
  | none =>
    modify fun t => { t with reads := t.reads ++ [p] }
    match read p with
    | .error fault => throw fault
    | .ok text =>
      modify fun t => { t with texts := (p, text.toList) :: t.texts }
      return text.toList

/-- Notes that a file was visited. -/
def visit (root p : Path) : Expansion Unit :=
  modify fun t =>
    if p = root ∨ p ∈ t.visited then t else { t with visited := t.visited ++ [p] }

/-- What stands for a property: its value, or a diagnostic text where there is none. -/
def property (x : Expander) (name : List Char) : Expansion (List Char) := do
  let name := String.ofList name
  match x.properties.lookup name with
  | some value => return value.toList
  | none =>
    let missing := "Property '" ++ name ++ "' not found in include properties"
    modify fun t =>
      { t with
        log := t.log ++ [⟨.warning, .includes,
          x.name ++ ": property '" ++ name ++ "' not found in include properties"⟩]
        warnings := t.warnings ++ [missing] }
    return (x.name ++ " Exception:\n" ++ border ++ " ERROR: " ++ missing ++ " " ++ border).toList

/-- The text of some segments, with `insert` giving what stands for a file. -/
def join (x : Expander) (insert : List Char → Expansion (List Char)) :
    List Segment → Expansion (List Char)
  | [] => return []
  | segment :: rest => do
    let first ←
      match segment with
      | .text s => pure s
      | .directive (.property name) _ => x.property name
      | .directive (.file path) raw =>
        if x.keepExternal && isExternal path then pure raw else insert path
    return first ++ (← x.join insert rest)

/-- The file that a reference names in the innermost file of a chain of includes, which may not be
in the chain itself. -/
def included (place : Place) (root : Path) (chain : List Path) (reference : List Char) :
    Expansion Path := do
  let p ← liftM (target place root (chain.head?.getD root) reference)
  if p ∈ chain then throw (.circular chain.reverse p)
  return p

/-- Expands a text in the innermost file of a chain of includes, which may grow by `room` files. -/
def expand (x : Expander) (place : Place) (read : Reads) (root : Path) :
    (room : Nat) → (chain : List Path) → List Char → Expansion (List Char)
  | 0, chain, text =>
    x.join (fun reference => do
      let p ← included place root chain reference
      throw (.tooDeep x.depthLimit p)) (x.grammar.segments text)
  | room + 1, chain, text =>
    x.join (fun reference => do
      let p ← included place root chain reference
      let source ← fetch read p
      visit root p
      expand x place read root room (p :: chain) source) (x.grammar.segments text)

/-- Expands a file. -/
def expandFile (x : Expander) (place : Place) (read : Reads) (root : Path) :
    Expansion (List Char) := do
  let source ← fetch read root
  x.expand place read root x.depthLimit.toNat [root] source

/-- The bundle of a file, with the trace of its expansion. -/
def resolve (x : Expander) (place : Place) (read : Reads) (root : Path) : Bundle × Trace :=
  match x.expandFile place read root Trace.start with
  | (.ok content, t) => (⟨content, t.visited, none, t.warnings⟩, t)
  | (.error fault, t) =>
    let message := fault.message
    (⟨(x.diagnostic message).toList, [], some fault.describe, []⟩,
      { t with log := t.log ++ [⟨.error, .includes, x.name ++ " Exception: " ++ message⟩] })

end Expander

end StaticSite
