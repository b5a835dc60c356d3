import StaticSite.Value.Show

/-!
# Schemas

A schema is a list of rules that a value has to satisfy, each with the keyword it is written under.
Rules that several places share have a name; where one is used, it is written as a reference to that
name. `accepts` says whether a value satisfies a schema, and `toValue` writes a schema as a value.
-/

namespace StaticSite

/-- The kinds of values that a rule can ask for. -/
inductive Shape where
  /-- A mapping. -/
  | object
  /-- A list. -/
  | array
  /-- A text. -/
  | string
  /-- A whole number; a float without fraction is one. -/
  | integer
  /-- A truth value. -/
  | boolean
  /-- Nothing. -/
  | null
deriving DecidableEq, Repr

namespace Shape

/-- The name of a kind. -/
def name : Shape → String
  | object => "object"
  | array => "array"
  | string => "string"
  | integer => "integer"
  | boolean => "boolean"
  | null => "null"

/-- Whether a value is of a kind. -/
def has : Shape → Value → Bool
  | object, .mapping _ => true
  | array, .list _ => true
  | string, .text _ => true
  | integer, .int _ => true
  | integer, .float x => (Decimal.integral? x).isSome
  | boolean, .bool _ => true
  | null, .null => true
  | _, _ => false

end Shape

/-- A rule of a schema. -/
inductive Rule where
  /-- The value is of one of some kinds. -/
  | shapes (shapes : List Shape)
  /-- The value is one of some texts. -/
  | oneOfTexts (texts : List String)
  /-- A mapping has some keys. -/
  | required (keys : List String)
  /-- The values of some keys of a mapping satisfy schemas of their own. -/
  | properties (fields : List (String × List Rule))
  /-- The values of all other keys of a mapping satisfy a schema. -/
  | others (schema : List Rule)
  /-- A mapping has no other keys. -/
  | noOthers
  /-- The members of a list satisfy a schema. -/
  | items (schema : List Rule)
  /-- A text has at least so many characters. -/
  | leastLength (n : Nat)
  /-- A number is at least this. -/
  | least (n : Int)
  /-- The value satisfies exactly one of some schemas. -/
  | exactlyOne (choices : List (List Rule))
  /-- The value does not satisfy a schema. -/
  | never (schema : List Rule)
  /-- The value satisfies a schema that is shared under a name. -/
  | shared (name : String) (schema : List Rule)
  /-- A remark, which asks for nothing. -/
  | note (key : String) (value : String)
deriving Repr

/-- A schema. -/
abbrev Schema := List Rule

namespace Schema

/-! ### Meaning -/

/-- The keys that the rules of a schema name. -/
def namedKeys : Schema → List String
  | [] => []
  | .properties fields :: rest => fields.map Prod.fst ++ namedKeys rest
  | _ :: rest => namedKeys rest

/-- Whether a value is a number below a bound. -/
def isBelow (n : Int) : Value → Bool
  | .int m => m < n
  | .float x => x < Float.ofInt n
  | _ => false

/-- The entries of a mapping under keys that are not named. -/
def otherEntries (named : List String) (entries : Mapping) : Mapping :=
  entries.filter fun e => !named.any fun name => e.1.sameKey (.text name)

mutual

/-- Whether a value satisfies a rule. `named` are the keys that the schema of the rule names. A rule
asks nothing of a value of another kind than it is about. -/
def ruleAllows (named : List String) (v : Value) : Rule → Bool
  | .shapes l => l.any (·.has v)
  | .oneOfTexts l => l.any fun t => v.sameKey (.text t)
  | .required l =>
    match v with
    | .mapping entries => l.all fun key => (Mapping.find? entries key).isSome
    | _ => true
  | .properties fields =>
    match v with
    | .mapping entries => fieldsAllow entries fields
    | _ => true
  | .others s =>
    match v with
    | .mapping entries => (otherEntries named entries).all fun e => rulesAllow (namedKeys s) e.2 s
    | _ => true
  | .noOthers =>
    match v with
    | .mapping entries => (otherEntries named entries).isEmpty
    | _ => true
  | .items s =>
    match v with
    | .list members => members.all fun member => rulesAllow (namedKeys s) member s
    | _ => true
  | .leastLength n =>
    match v with
    | .text t => n ≤ t.length
    | _ => true
  | .least n => !isBelow n v
  | .exactlyOne choices => countAllowing v choices == 1
  | .never s => !rulesAllow (namedKeys s) v s
  | .shared _ s => rulesAllow (namedKeys s) v s
  | .note _ _ => true

/-- Whether a value satisfies some rules of a schema. -/
def rulesAllow (named : List String) (v : Value) : List Rule → Bool
  | [] => true
  | r :: rest => ruleAllows named v r && rulesAllow named v rest

/-- Whether the values of keys satisfy the schemas for them, as far as the keys are there. -/
def fieldsAllow (entries : Mapping) : List (String × List Rule) → Bool
  | [] => true
  | (key, s) :: rest =>
    match Mapping.find? entries key with
    | some member => rulesAllow (namedKeys s) member s && fieldsAllow entries rest
    | none => fieldsAllow entries rest

/-- The number of those of some schemas that a value satisfies. -/
def countAllowing (v : Value) : List (List Rule) → Nat
  | [] => 0
  | s :: rest => (if rulesAllow (namedKeys s) v s then 1 else 0) + countAllowing v rest

end

/-- Whether a value satisfies a schema. -/
def accepts (s : Schema) (v : Value) : Bool := rulesAllow (namedKeys s) v s

/-! ### Form -/

/-- Texts as a value. -/
def texts (l : List String) : Value := .list (l.map .text)

mutual

/-- The entry a rule is written as. -/
def entryOf : Rule → Value × Value
  | .shapes [s] => (.text "type", .text s.name)
  | .shapes l => (.text "type", texts (l.map Shape.name))
  | .oneOfTexts l => (.text "enum", texts l)
  | .required l => (.text "required", texts l)
  | .properties l => (.text "properties", .mapping (fieldsOf l))
  | .others s => (.text "additionalProperties", .mapping (entriesOf s))
  | .noOthers => (.text "additionalProperties", .bool false)
  | .items s => (.text "items", .mapping (entriesOf s))
  | .leastLength n => (.text "minLength", .int n)
  | .least n => (.text "minimum", .int n)
  | .exactlyOne l => (.text "oneOf", .list (choicesOf l))
  | .never s => (.text "not", .mapping (entriesOf s))
  | .shared name _ => (.text "$ref", .text ("#/$defs/" ++ name))
  | .note key value => (.text key, .text value)

/-- The entries that rules are written as. -/
def entriesOf : List Rule → List (Value × Value)
  | [] => []
  | r :: rest => entryOf r :: entriesOf rest

/-- The entries that the schemas of keys are written as. -/
def fieldsOf : List (String × List Rule) → List (Value × Value)
  | [] => []
  | (key, s) :: rest => (.text key, .mapping (entriesOf s)) :: fieldsOf rest

/-- The values that schemas are written as. -/
def choicesOf : List (List Rule) → List Value
  | [] => []
  | s :: rest => .mapping (entriesOf s) :: choicesOf rest

end

/-- A schema as a value, with the schemas that it shares at its end. -/
def toValue (s : Schema) (shared : List (String × Schema)) : Value :=
  .mapping (entriesOf s ++ [(.text "$defs", .mapping (fieldsOf shared))])

end Schema

end StaticSite
