import StaticSite.Yaml.Node
import StaticSite.Yaml.Scalar

/-!
# Reading YAML documents

The value a text stands for. A mapping key that is a list or a mapping is malformed, as is a tag
that names none of the kinds of values. Sets and lists of pairs are named by tags only. A key `<<`
draws the entries of other mappings in, in front of the mapping's own.
-/

namespace StaticSite.Yaml

/-- Why a text has no value. -/
inductive Fault where
  /-- The text is no document. -/
  | malformed
  /-- A scalar has the form of a number or day but not its value. -/
  | scalar (cause : ScalarFault)
deriving DecidableEq, Repr

/-- The kind of a scalar that has none of the kinds by its tag. -/
def untaggedKind (plain : Bool) (text : String) : Kind :=
  if plain then kindOf text.toList else .text

/-- The kind a tag gives to a scalar, or that the scalar has by its form. -/
def scalarKind (tag : Option String) (plain : Bool) (text : String) : Except Fault Kind :=
  match tag with
  | none => .ok (untaggedKind plain text)
  | some "!" => .ok (kindOf text.toList)
  | some "tag:yaml.org,2002:null" => .ok .null
  | some "tag:yaml.org,2002:bool" =>
    if (trueTexts ++ falseTexts).contains text then .ok .bool else .error .malformed
  | some "tag:yaml.org,2002:int" =>
    if isInt text.toList then .ok .int else .error (.scalar (.noInt text))
  | some "tag:yaml.org,2002:float" =>
    let s := text.toList.filter (· != '_')
    if isFloat text.toList || isDecimalFloat (splitSign s).2 then .ok .float
    else .error (.scalar (.noFloat text))
  | some "tag:yaml.org,2002:timestamp" =>
    if (stamp? text.toList).isSome then .ok .timestamp else .error .malformed
  | some "tag:yaml.org,2002:binary" => .ok .binary
  | some "tag:yaml.org,2002:str" => .ok .text
  | some _ => .error .malformed

/-- The kinds of collections. -/
inductive Collection where
  /-- A list. -/
  | list
  /-- A list of pairs. -/
  | pairs
  /-- A mapping. -/
  | mapping
  /-- A set. -/
  | set
deriving DecidableEq, Repr

/-- The kind that a tag gives to a sequence. -/
def sequenceKind : Option String → Except Fault Collection
  | none | some "!" | some "tag:yaml.org,2002:seq" => .ok .list
  | some "tag:yaml.org,2002:omap" | some "tag:yaml.org,2002:pairs" => .ok .pairs
  | some _ => .error .malformed

/-- The kind that a tag gives to a mapping. -/
def mappingKind : Option String → Except Fault Collection
  | none | some "!" | some "tag:yaml.org,2002:map" => .ok .mapping
  | some "tag:yaml.org,2002:set" => .ok .set
  | some _ => .error .malformed

/-- What stands for a node that stands within itself: a list that goes down further than anything
goes. -/
def bottomless : Value := (List.range 2000).foldl (fun v _ => .list [v]) .null

/-- The value of a scalar. -/
def scalarValue (tag : Option String) (plain : Bool) (text : String) : Except Fault Value := do
  let kind ← scalarKind tag plain text
  match valueOf kind text.toList with
  | .error cause => .error (.scalar cause)
  | .ok none => .error .malformed
  | .ok (some v) => .ok v

/-- Whether a node is the key that draws other mappings in. -/
def Node.isMergeKey : Node → Bool
  | scalar tag plain text =>
    ((tag.isNone && plain) || tag == some "!") && text == "<<" || tag ==
      some "tag:yaml.org,2002:merge"
  | _ => false

/-- The value of a key that is a scalar: the sign for a default is a text there. -/
def keyValue (tag : Option String) (plain : Bool) (text : String) : Except Fault Value :=
  if text == "=" && (tag.isNone || tag == some "!") then .ok (.text "=")
    else scalarValue tag plain text

/-- The entries that a value brings in under a merge key. The mapping that is listed first wins, so
it comes last. -/
def drawnIn : Value → Except Fault Mapping
  | .mapping entries => .ok entries
  | .list items =>
    items.foldlM (fun drawn item =>
      match item with
      | .mapping entries => .ok (entries ++ drawn)
      | _ => .error .malformed) []
  | _ => .error .malformed

/-- The mapping that written entries make up with those drawn in. -/
def mappingOf (own : List (Option Value × Value)) : Except Fault Mapping := do
  let drawn ← own.foldlM (fun drawn e =>
    match e.1 with
    | none => return drawn ++ (← drawnIn e.2)
    | some _ => return drawn) []
  return Mapping.ofEntries (drawn ++ own.filterMap fun e => e.1.map (·, e.2))

mutual

/-- The value of a node. -/
def Node.value : Node → Except Fault Value
  | scalar tag plain text => scalarValue tag plain text
  | sequence tag items => do
    if (← sequenceKind tag) = .pairs then return .list (← Node.pairs items)
    else return .list (← Node.values items)
  | mapping tag entries => do
    let kind ← mappingKind tag
    let own ← mappingOf (← Node.entries entries)
    return if kind = .set then .set (own.map Prod.fst) else .mapping own
  | within => .ok bottomless

/-- The values of some nodes. -/
def Node.values : List Node → Except Fault (List Value)
  | [] => .ok []
  | n :: rest => do
    let v ← n.value
    return v :: (← Node.values rest)

/-- The pairs that some nodes make up, each of them a mapping with one entry. -/
def Node.pairs : List Node → Except Fault (List Value)
  | [] => .ok []
  | mapping _ [(k, v)] :: rest => do
    let key ← k.value
    let value ← v.value
    return .tuple [key, value] :: (← Node.pairs rest)
  | _ :: _ => .error .malformed

/-- The entries of a mapping; one under a merge key has no key of its own. -/
def Node.entries : List (Node × Node) → Except Fault (List (Option Value × Value))
  | [] => .ok []
  | (k, v) :: rest => do
    let key ←
      if k.isMergeKey then pure none
      else
        match k with
        | .scalar tag plain text => some <$> keyValue tag plain text
        | _ => throw .malformed
    let value ← v.value
    return (key, value) :: (← Node.entries rest)

end

/-- The value of a text; one without a document has none. -/
def parse (s : String) : Except Fault Value :=
  match document s.toList with
  | .error .malformed => .error .malformed
  | .ok none => .ok .null
  | .ok (some n) => n.value

end StaticSite.Yaml
