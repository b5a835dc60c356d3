import StaticSite.Json.Basic
import StaticSite.Decimal.Layout
import StaticSite.Text.Hex
import StaticSite.Value.Show

/-!
# Writing JSON

Two forms of a document. The compact one has no white space outside strings and keeps every
character that needs no escape. The indented one puts each member on a line of its own and escapes
every character above U+007F; it writes values, whose days and moments become texts, whose tuples
become lists, and whose sets and bytes are shown as messages show them.
-/

namespace StaticSite.Json

/-- The escape of a character that no string may hold as it is. -/
def escapedChar? (c : Char) : Option (List Char) :=
  match c with
  | '"' => some ['\\', '"']
  | '\\' => some ['\\', '\\']
  | '\n' => some ['\\', 'n']
  | '\r' => some ['\\', 'r']
  | '\t' => some ['\\', 't']
  | '\x0c' => some ['\\', 'f']
  | '\x08' => some ['\\', 'b']
  | c => if c.toNat < 32 then some ('\\' :: 'u' :: Text.hex 4 c.toNat) else none

/-- A symbol within a compact string. -/
def compactSymbol : Symbol → List Symbol
  | .char c =>
    match escapedChar? c with
    | some escape => escape.map .char
    | none => [.char c]
  | .half code => [.half code]

/-- A text as symbols. -/
def symbols (s : String) : List Symbol := s.toList.map .char

/-- A string in compact form. -/
def compactString (s : List Symbol) : List Symbol :=
  .char '"' :: s.flatMap compactSymbol ++ [.char '"']

mutual

/-- A document in compact form. -/
def compact : Json → List Symbol
  | .null => symbols "null"
  | .bool b => symbols (if b then "true" else "false")
  | .int n => symbols (toString n)
  | .float x => symbols (Decimal.render .json x)
  | .string s => compactString s
  | .array items => .char '[' :: compactItems items ++ [.char ']']
  | .object entries => .char '\x7b' :: compactEntries entries ++ [.char '\x7d']

/-- The members of an array in compact form. -/
def compactItems : List Json → List Symbol
  | [] => []
  | [v] => compact v
  | v :: rest => compact v ++ .char ',' :: compactItems rest

/-- The entries of an object in compact form. -/
def compactEntries : List (List Symbol × Json) → List Symbol
  | [] => []
  | [(k, v)] => compactString k ++ .char ':' :: compact v
  | (k, v) :: rest => compactString k ++ .char ':' :: compact v ++ .char ',' :: compactEntries rest

end

/-- A character within a string that holds only the first 128 code points. -/
def asciiChar (c : Char) : List Char :=
  match escapedChar? c with
  | some escape => escape
  | none =>
    if c.toNat < 127 || c.toNat == 127 then [c]
    else if c.toNat < 0x10000 then '\\' :: 'u' :: Text.hex 4 c.toNat
    else
      let n := c.toNat - 0x10000
      '\\' :: 'u' :: Text.hex 4 (0xD800 + n / 0x400) ++
        '\\' :: 'u' :: Text.hex 4 (0xDC00 + n % 0x400)

/-- A string that holds only the first 128 code points. -/
def asciiString (s : String) : String :=
  "\"" ++ String.ofList (s.toList.flatMap asciiChar) ++ "\""

/-- The text of a whole number, unless it has more digits than are written. -/
def intText (n : Int) : Except Value String :=
  if (Value.int n).isWritable then .ok (toString n) else .error (.int n)

/-- The text of a mapping's key, if a key of its kind can be written. -/
def keyText : Value → Except Value String
  | .text s => .ok s
  | .float x => .ok (Decimal.render .json x)
  | .bool b => .ok (if b then "true" else "false")
  | .null => .ok "null"
  | .int n => intText n
  | v => .error v

/-- The start of a line at a depth of indentation. -/
def lineStart (depth : Nat) : String := "\n" ++ String.ofList (List.replicate (2 * depth) ' ')

mutual

/-- A value in indented form, from a depth on; refuses the first key, whole number or set that
cannot be written. -/
def indentedAt (depth : Nat) : Value → Except Value String
  | .null => .ok "null"
  | .bool b => .ok (if b then "true" else "false")
  | .int n => intText n
  | .float x => .ok (Decimal.render .json x)
  | .text s => .ok (asciiString s)
  | .day d => .ok (asciiString d.iso)
  | .moment m => .ok (asciiString (m.iso " "))
  | .bytes b => .ok (asciiString (Value.bytes b).shown)
  | .set items => if Value.areWritable items then .ok (asciiString (Value.set items).shown)
      else .error (.set items)
  | .list [] | .tuple [] => .ok "[]"
  | .list items | .tuple items => do
    let inner ← indentedItems (depth + 1) items
    return "[" ++ ",".intercalate inner ++ lineStart depth ++ "]"
  | .mapping [] => .ok "\x7b\x7d"
  | .mapping entries => do
    let inner ← indentedEntries (depth + 1) entries
    return "\x7b" ++ ",".intercalate inner ++ lineStart depth ++ "\x7d"

/-- The members of a list or tuple in indented form, each after its line start. -/
def indentedItems (depth : Nat) : List Value → Except Value (List String)
  | [] => .ok []
  | v :: rest => do
    let first ← indentedAt depth v
    let others ← indentedItems depth rest
    return (lineStart depth ++ first) :: others

/-- The entries of a mapping in indented form, each after its line start. -/
def indentedEntries (depth : Nat) : List (Value × Value) → Except Value (List String)
  | [] => .ok []
  | (k, v) :: rest => do
    let key ← keyText k
    let first ← indentedAt depth v
    let others ← indentedEntries depth rest
    return (lineStart depth ++ asciiString key ++ ": " ++ first) :: others

end

/-- A value in indented form. -/
def indented (v : Value) : Except Value String := indentedAt 0 v

end StaticSite.Json
