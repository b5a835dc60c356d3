import StaticSite.Value.Basic

/-!
# JSON documents

A JSON text can name half of a surrogate pair by an escape, so its strings are lists of symbols and
not texts. An object keeps its keys in the order in which they first appear, each with its last
value. `Json.toValue` reads a document as a value.
-/

namespace StaticSite

/-- A character, or half of a surrogate pair that stands alone. -/
inductive Symbol where
  /-- A character. -/
  | char (c : Char)
  /-- The half with this code, from 0xD800 to 0xDFFF. -/
  | half (code : Nat)
deriving DecidableEq, Repr

/-- The text of a list of symbols; a half becomes the replacement character. -/
def Symbol.approximate (symbols : List Symbol) : String :=
  String.ofList <| symbols.map fun
    | .char c => c
    | .half _ => '\uFFFD'

/-- Halves of surrogate pairs in a text that was to be written. -/
structure HalfFault where
  /-- The first of them. -/
  code : Nat
  /-- How many symbols stand before it. -/
  position : Nat
  /-- How many halves follow one another. -/
  width : Nat
deriving DecidableEq, Repr

/-- The number of halves a list of symbols begins with. -/
def Symbol.halves : List Symbol → Nat
  | .half _ :: rest => halves rest + 1
  | _ => 0

/-- The characters of a list of symbols that begins after `position` others, if it holds no half. -/
def Symbol.charsFrom (position : Nat) : List Symbol → Except HalfFault (List Char)
  | [] => .ok []
  | .char c :: rest => (charsFrom (position + 1) rest).map (c :: ·)
  | .half code :: rest => .error ⟨code, position, halves rest + 1⟩

/-- The text of a list of symbols, if it holds no half. -/
def Symbol.text (symbols : List Symbol) : Except HalfFault String :=
  (charsFrom 0 symbols).map String.ofList

/-- A JSON document. -/
inductive Json where
  /-- `null`. -/
  | null
  /-- `true` or `false`. -/
  | bool (b : Bool)
  /-- A number without fraction and exponent. -/
  | int (n : Int)
  /-- Any other number. -/
  | float (x : Float)
  /-- A string. -/
  | string (s : List Symbol)
  /-- An array. -/
  | array (items : List Json)
  /-- An object, as its keys and values in order. -/
  | object (entries : List (List Symbol × Json))
deriving Repr, Inhabited

/-- Gives a key of an object a value: in place if the key is there, at the end otherwise. -/
def Json.setKey (entries : List (List Symbol × Json)) (key : List Symbol) (value : Json) :
    List (List Symbol × Json) :=
  match entries with
  | [] => [(key, value)]
  | (k, v) :: rest => if k = key then (k, value) :: rest else (k, v) :: setKey rest key value

mutual

/-- The value a document stands for. -/
def Json.toValue : Json → Value
  | .null => .null
  | .bool b => .bool b
  | .int n => .int n
  | .float x => .float x
  | .string s => .text (Symbol.approximate s)
  | .array items => .list (Json.toValues items)
  | .object entries => .mapping (Mapping.ofEntries (Json.toEntries entries))

/-- The values of the members of an array. -/
def Json.toValues : List Json → List Value
  | [] => []
  | v :: rest => v.toValue :: Json.toValues rest

/-- The entries of an object as entries of a mapping. -/
def Json.toEntries : List (List Symbol × Json) → List (Value × Value)
  | [] => []
  | (k, v) :: rest => (.text (Symbol.approximate k), v.toValue) :: Json.toEntries rest

end

end StaticSite
