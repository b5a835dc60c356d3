import StaticSite.Yaml.Token

/-!
# Nodes of a YAML document

A document is one node: a scalar, a sequence of nodes, or a mapping from nodes to nodes. `document`
builds the node of a text; a text that holds several documents, uses a name that no node before has,
or gives a name twice is malformed. A node may be named within itself.
-/

namespace StaticSite.Yaml

/-- A node. -/
inductive Node where
  /-- A scalar; `plain` tells that it stands without quotes. -/
  | scalar (tag : Option String) (plain : Bool) (text : String)
  /-- A sequence. -/
  | sequence (tag : Option String) (items : List Node)
  /-- A mapping. -/
  | mapping (tag : Option String) (entries : List (Node × Node))
  /-- A node within which this one stands. -/
  | within
deriving Repr, Inhabited

/-- The node where a document has none. -/
def Node.empty : Node := .scalar none true ""

/-- What is left of the tokens, and the nodes that have names. -/
structure Compose where
  /-- The tokens that are left. -/
  rest : List Token
  /-- The nodes that have names. -/
  named : List (String × Node)
  /-- The names of nodes that were begun. -/
  begun : List String

/-- A step of building. -/
abbrev Composing (α : Type) := StateT Compose (Except Malformed) α

/-- The next token. -/
def peek : Composing (Option Token) := return (← get).rest.head?

/-- Drops the next token. -/
def drop : Composing Unit := modify fun s => { s with rest := s.rest.tail }

/-- Drops the next token, which must be `t`. -/
def expect (t : Token) : Composing Unit := do
  if (← peek) != some t then throw .malformed
  drop

/-- Drops the next token if it is `t`; answers whether it was. -/
def accept (t : Token) : Composing Bool := do
  if (← peek) == some t then
    drop
    return true
  else return false

/-- Whether the next token is one of some, or there is none. -/
def isAtAny (ts : List Token) : Composing Bool := return (← peek).all ts.contains

/-- The full text of a tag. -/
def tagText (handle suffix : String) : Except Malformed String :=
  if handle == "!!" then .ok ("tag:yaml.org,2002:" ++ suffix)
  else if handle == "!" then .ok ("!" ++ suffix)
  else if handle == "" then .ok suffix
  else .error .malformed

/-- Takes the name and the tag before a node, in either order. -/
def properties : Composing (Option String × Option String) := do
  let tag? : Composing (Option String) := do
    match ← peek with
    | some (.tag handle suffix) => drop; return some (← liftM (tagText handle suffix))
    | _ => return none
  match ← peek with
  | some (.anchor name) => drop; return (some name, ← tag?)
  | some (.tag _ _) =>
    let tag ← tag?
    match ← peek with
    | some (.anchor name) => drop; return (some name, tag)
    | _ => return (none, tag)
  | _ => return (none, none)

/-- Begins a node with a name, which no other node may have. -/
def begin (name : Option String) : Composing Unit := do
  if let some name := name then
    if (← get).begun.contains name then throw .malformed
    modify fun s => { s with begun := name :: s.begun }

/-- The node with a name. -/
def lookup (name : String) : Composing Node := do
  match (← get).named.lookup name with
  | some n => return n
  | none => if (← get).begun.contains name then return .within else throw .malformed

/-- Gives a node its name. -/
def giveName (name : Option String) (n : Node) : Composing Node := do
  if let some name := name then
    modify fun s => { s with named := (name, n) :: s.named }
  return n

/-- The tokens that cannot begin a value within a block mapping. -/
def afterBlockEntry : List Token := [.key, .value, .blockEnd]

mutual

/-- Builds a node. Block collections are allowed if `block`, a sequence without indentation of its
own if `indentless`. -/
def node (block indentless : Bool) : (fuel : Nat) → Composing Node
  | 0 => throw .malformed
  | fuel + 1 => do
    if let some (.alias name) ← peek then
      drop
      return ← lookup name
    let (name, tag) ← properties
    begin name
    let missing : Composing Node :=
      if name.isSome || tag.isSome then return .scalar tag true "" else throw .malformed
    let n : Node ←
      match ← peek with
      | some .blockEntry =>
          if indentless then pure (.sequence tag (← indentlessItems fuel)) else missing
      | some (.scalar text plain) => drop; pure (.scalar tag plain text)
      | some .flowSequenceStart => drop; pure (.sequence tag (← flowItems true fuel))
      | some .flowMappingStart => drop; pure (.mapping tag (← flowEntries true fuel))
      | some .blockSequenceStart =>
        if block then
          drop
          pure (.sequence tag (← blockItems fuel))
        else missing
      | some .blockMappingStart =>
        if block then
          drop
          pure (.mapping tag (← blockEntries fuel))
        else missing
      | _ => missing
    giveName name n

/-- Builds the entries of a block sequence up to its end. -/
def blockItems : (fuel : Nat) → Composing (List Node)
  | 0 => throw .malformed
  | fuel + 1 => do
    if ← accept .blockEntry then
      let item ← if ← isAtAny [.blockEntry, .blockEnd] then pure .empty else node true false fuel
      return item :: (← blockItems fuel)
    else
      expect .blockEnd
      return []

/-- Builds the entries of a sequence without indentation of its own. -/
def indentlessItems : (fuel : Nat) → Composing (List Node)
  | 0 => throw .malformed
  | fuel + 1 => do
    if ← accept .blockEntry then
      let item ← if ← isAtAny (.blockEntry :: afterBlockEntry) then pure .empty
        else node true false fuel
      return item :: (← indentlessItems fuel)
    else return []

/-- Builds the entries of a block mapping up to its end. -/
def blockEntries : (fuel : Nat) → Composing (List (Node × Node))
  | 0 => throw .malformed
  | fuel + 1 => do
    let part : Composing Node := do
      if ← isAtAny afterBlockEntry then pure .empty else node true true fuel
    match ← peek with
    | some .key =>
      drop
      let k ← part
      let v ← if ← accept .value then part else pure .empty
      return (k, v) :: (← blockEntries fuel)
    | _ =>
      expect .blockEnd
      return []

/-- Builds the entries of a flow sequence up to its end; `first` tells that no entry came before. -/
def flowItems (first : Bool) : (fuel : Nat) → Composing (List Node)
  | 0 => throw .malformed
  | fuel + 1 => do
    if ← accept .flowSequenceEnd then return []
    unless first do expect .flowEntry
    let part : Composing Node := do
      if ← isAtAny [.value, .flowEntry, .flowSequenceEnd] then pure .empty
        else node false false fuel
    match ← peek with
    | some .flowSequenceEnd => drop; return []
    | some .key =>
      drop
      let k ← part
      let v ←
        if ← accept .value then
          if ← isAtAny [.flowEntry, .flowSequenceEnd] then pure .empty else node false false fuel
        else pure .empty
      return .mapping none [(k, v)] :: (← flowItems false fuel)
    | _ =>
      let item ← node false false fuel
      return item :: (← flowItems false fuel)

/-- Builds the entries of a flow mapping up to its end; `first` tells that no entry came before. -/
def flowEntries (first : Bool) : (fuel : Nat) → Composing (List (Node × Node))
  | 0 => throw .malformed
  | fuel + 1 => do
    if ← accept .flowMappingEnd then return []
    unless first do expect .flowEntry
    match ← peek with
    | some .flowMappingEnd => drop; return []
    | some .key =>
      drop
      let k ←
        if ← isAtAny [.value, .flowEntry, .flowMappingEnd] then pure .empty
          else node false false fuel
      let v ←
        if ← accept .value then
          if ← isAtAny [.flowEntry, .flowMappingEnd] then pure .empty else node false false fuel
        else pure .empty
      return (k, v) :: (← flowEntries false fuel)
    | _ =>
      let k ← node false false fuel
      return (k, .empty) :: (← flowEntries false fuel)

end

/-- Drops the marks at the end of a document. -/
def dropDocumentEnds : List Token → List Token
  | .documentEnd :: rest => dropDocumentEnds rest
  | rest => rest

/-- Drops the directives before a document; at most one of them gives a version, which must be a
first one, and a document mark has to follow. -/
def dropDirectives (versioned : Bool) : List Token → Except Malformed (List Token)
  | .directive none :: rest => dropDirectives versioned rest
  | .directive (some allowed) :: rest =>
    if allowed && !versioned then dropDirectives true rest else .error .malformed
  | .documentStart :: rest => .ok rest
  | _ => .error .malformed

/-- The node of a text, if there is a document in it. -/
def document (s : List Char) : Except Malformed (Option Node) := do
  let ts ← tokens s
  let body (ts : List Token) : Except Malformed (Option Node) := do
    let (n, s) ← (node true false (2 * ts.length + 2)).run ⟨ts, [], []⟩
    if (dropDocumentEnds s.rest).isEmpty then return some n else throw .malformed
  match ts with
  | [] => return none
  | .directive _ :: _ | .documentStart :: _ =>
    match ← dropDirectives false ts with
    | [] => return some .empty
    | .documentEnd :: rest =>
      if (dropDocumentEnds rest).isEmpty then return some .empty else throw .malformed
    | .documentStart :: _ | .directive _ :: _ => throw .malformed
    | ts => body ts
  | ts => body ts

end StaticSite.Yaml
