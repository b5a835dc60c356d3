import StaticSite.Json.Basic
import StaticSite.Text.Hex

/-!
# Reading JSON

A reader by recursive descent over the characters that are left. Besides the standard it takes
`NaN`, `Infinity` and `-Infinity` for numbers, and it reads a half of a surrogate pair. A fault
tells its cause and its place as line, column and number of characters before it.
-/

namespace StaticSite.Json

/-- Why a text is no JSON document. -/
inductive Cause where
  /-- No value stands where one is needed. -/
  | value
  /-- No key stands where one is needed. -/
  | name
  /-- A key is not followed by a colon. -/
  | colon
  /-- Two members are not separated by a comma. -/
  | comma
  /-- A string is not closed. -/
  | unterminated
  /-- A string holds a control character. -/
  | control
  /-- A backslash is followed by a letter without meaning. -/
  | escape
  /-- `\u` is not followed by four digits in base sixteen. -/
  | unicodeEscape
  /-- Something follows the document. -/
  | extra
  /-- The text begins with a byte order mark. -/
  | byteOrderMark
deriving DecidableEq, Repr

/-- The wording of a cause. -/
def Cause.message : Cause → String
  | value => "Expecting value"
  | name => "Expecting property name enclosed in double quotes"
  | colon => "Expecting ':' delimiter"
  | comma => "Expecting ',' delimiter"
  | unterminated => "Unterminated string starting at"
  | control => "Invalid control character at"
  | escape => "Invalid \\escape"
  | unicodeEscape => "Invalid \\uXXXX escape"
  | extra => "Extra data"
  | byteOrderMark => "Unexpected UTF-8 BOM (decode using utf-8-sig)"

/-- Why a text was not read. -/
inductive Fault where
  /-- The text is no document. -/
  | malformed (cause : Cause) (line column position : Nat)
  /-- A whole number has more digits than are read. -/
  | longNumber (digits : Nat)
deriving DecidableEq, Repr

/-- The most digits a whole number is read with. -/
def digitLimit : Nat := 4300

/-- The wording for a whole number of too many digits. -/
def longNumberMessage (digits : Nat) : String :=
  "Exceeds the limit (" ++ toString digitLimit ++
    " digits) for integer string conversion: value has " ++ toString digits ++
    " digits; use sys.set_int_max_str_digits() to increase the limit"

/-- The wording of a fault. -/
def Fault.message : Fault → String
  | malformed cause line column position =>
    cause.message ++ ": line " ++ toString line ++ " column " ++ toString column ++ " (char " ++
      toString position ++ ")"
  | longNumber digits => longNumberMessage digits

/-- A fault met while reading, with the number of characters that were left. -/
inductive Stop where
  /-- The text is no document. -/
  | malformed (cause : Cause) (left : Nat)
  /-- A whole number has more digits than are read. -/
  | longNumber (digits left : Nat)
deriving DecidableEq, Repr

/-- The number of characters that were left where a fault was met. -/
def Stop.left : Stop → Nat
  | malformed _ left => left
  | longNumber _ left => left

/-- Stops with a cause at the front of a text. -/
def stop {α : Type} (cause : Cause) (left : List Char) : Except Stop (α × List Char) :=
  .error (.malformed cause left.length)

/-- White space between the parts of a document. -/
def isSpace (c : Char) : Bool := c == ' ' || c == '\t' || c == '\n' || c == '\r'

/-- The text without its leading white space. -/
def skipSpace (s : List Char) : List Char := s.dropWhile isSpace

/-- The number four digits in base sixteen stand for. -/
def hexQuad? : List Char → Option (Nat × List Char)
  | a :: b :: c :: d :: rest =>
    match Text.hexValue? a, Text.hexValue? b, Text.hexValue? c, Text.hexValue? d with
    | some a, some b, some c, some d => some (((a * 16 + b) * 16 + c) * 16 + d, rest)
    | _, _, _, _ => none
  | _ => none

/-- The symbol with a code of sixteen bits. -/
def symbolOf (code : Nat) : Symbol :=
  if 0xD800 ≤ code && code < 0xE000 then .half code else .char (Char.ofNat code)

/-- The character that two halves of a pair make up. -/
def joined (high low : Nat) : Symbol :=
  .char (Char.ofNat (0x10000 + (high - 0xD800) * 0x400 + (low - 0xDC00)))

/-- Reads what follows `\u`, the text from the `u` on being `whole`: one symbol, from two escapes if
they are the halves of a pair. A character has to follow the digits, since the string is not closed
yet. -/
def unicodeEscape (whole : List Char) : Except Stop (Symbol × List Char) :=
  match hexQuad? whole.tail with
  | some (code, c :: rest) =>
    let single : Except Stop (Symbol × List Char) := .ok (symbolOf code, c :: rest)
    if 0xD800 ≤ code && code < 0xDC00 then
      match c, rest with
      | '\\', 'u' :: more =>
        match more with
        | _ :: _ :: _ :: _ :: _ :: _ =>
          match hexQuad? more with
          | some (low, after) =>
            if 0xDC00 ≤ low && low < 0xE000 then .ok (joined code low, after) else single
          | none => stop .unicodeEscape rest
        | _ => single
      | _, _ => single
    else single
  | _ => stop .unicodeEscape whole

/-- The character a letter after a backslash stands for. -/
def escaped? : Char → Option Char
  | '"' => some '"'
  | '\\' => some '\\'
  | '/' => some '/'
  | 'b' => some '\x08'
  | 'f' => some '\x0c'
  | 'n' => some '\n'
  | 'r' => some '\r'
  | 't' => some '\t'
  | _ => none

/-- Reads the rest of a string up to its closing quote; `start` characters were left at the opening
one. -/
def stringFrom (start : Nat) : (fuel : Nat) → List Char → Except Stop (List Symbol × List Char)
  | 0, _ => .error (.malformed .unterminated start)
  | _ + 1, [] => .error (.malformed .unterminated start)
  | _ + 1, '"' :: rest => .ok ([], rest)
  | fuel + 1, '\\' :: rest =>
    match rest with
    | [] => .error (.malformed .unterminated start)
    | 'u' :: _ => do
      let (symbol, after) ← unicodeEscape rest
      let (symbols, after) ← stringFrom start fuel after
      return (symbol :: symbols, after)
    | c :: after =>
      match escaped? c with
      | some c => do
        let (symbols, after) ← stringFrom start fuel after
        return (.char c :: symbols, after)
      | none => stop .escape ('\\' :: rest)
  | fuel + 1, c :: rest =>
    if c.toNat < 32 then stop .control (c :: rest)
    else do
      let (symbols, after) ← stringFrom start fuel rest
      return (.char c :: symbols, after)

/-- Reads a string after its opening quote. -/
def stringBody (s : List Char) : Except Stop (List Symbol × List Char) :=
  stringFrom (s.length + 1) (s.length + 1) s

/-- The value of a run of digits. -/
def digitsValue (digits : List Char) : List Nat := digits.map fun c => c.toNat - 48

/-- Reads a fraction, if there is one: a point and at least one digit. -/
def fraction (s : List Char) : List Char × List Char :=
  match s with
  | '.' :: rest =>
    let digits := rest.takeWhile Char.isDigit
    if digits.isEmpty then ([], s) else (digits, rest.dropWhile Char.isDigit)
  | _ => ([], s)

/-- Reads the sign of an exponent, if there is one; tells whether it is a minus. -/
def exponentSign (s : List Char) : Bool × List Char :=
  match s with
  | '-' :: rest => (true, rest)
  | '+' :: rest => (false, rest)
  | _ => (false, s)

/-- Reads an exponent, if there is one: its mark, a sign, and at least one digit. -/
def exponent (s : List Char) : Option Int × List Char :=
  match s with
  | c :: rest =>
    if c == 'e' || c == 'E' then
      let (negative, rest) := exponentSign rest
      let digits := rest.takeWhile Char.isDigit
      if digits.isEmpty then (none, s)
      else
        let size : Int := Decimal.ofDigits 10 (digitsValue digits)
        (some (if negative then -size else size), rest.dropWhile Char.isDigit)
    else (none, s)
  | [] => (none, s)

/-- Reads the sign of a number, if there is one; tells whether it is a minus. -/
def sign (s : List Char) : Bool × List Char :=
  match s with
  | '-' :: rest => (true, rest)
  | _ => (false, s)

/-- Reads the digits of a number up to its fraction: a zero alone, or as many as there are. -/
def whole (s : List Char) : List Char × List Char :=
  match s with
  | '0' :: rest => (['0'], rest)
  | _ => (s.takeWhile Char.isDigit, s.dropWhile Char.isDigit)

/-- Reads a number; `start` is the text at its sign. -/
def number (start : List Char) : Except Stop (Json × List Char) :=
  let (negative, s) := sign start
  let (digits, s) := whole s
  if digits.isEmpty then stop .value start
  else
    let (decimals, s) := fraction s
    let (power, s) := exponent s
    if decimals.isEmpty && power.isNone then
      if digitLimit < digits.length then .error (.longNumber digits.length start.length)
      else
        let n : Int := Decimal.ofDigits 10 (digitsValue digits)
        .ok (.int (if negative then -n else n), s)
    else
      .ok (.float
        (Decimal.signed negative (digitsValue digits) (digitsValue decimals) (power.getD 0)), s)

/-- The names of values, each with its value. -/
def literals : List (List Char × Json) :=
  [("null".toList, .null), ("true".toList, .bool true), ("false".toList, .bool false),
    ("NaN".toList, .float (Float.ofBits 0x7FF8000000000000)),
    ("Infinity".toList, .float (Float.ofBits 0x7FF0000000000000)),
    ("-Infinity".toList, .float (Float.ofBits 0xFFF0000000000000))]

/-- Reads a value given by its name. -/
def literal? (s : List Char) : Option (Json × List Char) :=
  literals.findSome? fun l =>
    if l.1.isPrefixOf s then some (l.2, s.drop l.1.length) else none

/-- Reads a value that is given by its name, or a number. -/
def scalar (s : List Char) : Except Stop (Json × List Char) :=
  match literal? s with
  | some found => .ok found
  | none => number s

mutual

/-- Reads a value. -/
def value : (fuel : Nat) → List Char → Except Stop (Json × List Char)
  | 0, s => stop .value s
  | _ + 1, [] => stop .value []
  | _ + 1, '"' :: rest => do
    let (symbols, after) ← stringBody rest
    return (.string symbols, after)
  | fuel + 1, '\x7b' :: rest =>
    match skipSpace rest with
    | '\x7d' :: after => .ok (.object [], after)
    | s => members fuel [] s
  | fuel + 1, '[' :: rest =>
    match skipSpace rest with
    | ']' :: after => .ok (.array [], after)
    | s => items fuel s
  | _ + 1, s => scalar s

/-- Reads the members of an array up to its closing bracket. -/
def items : (fuel : Nat) → List Char → Except Stop (Json × List Char)
  | 0, s => stop .value s
  | fuel + 1, s => do
    let (first, after) ← value fuel s
    match skipSpace after with
    | ']' :: after => return (.array [first], after)
    | ',' :: after =>
      let (others, after) ← items fuel (skipSpace after)
      match others with
      | .array others => return (.array (first :: others), after)
      | _ => return (.array [first], after)
    | s => stop .comma s

/-- Reads the entries of an object up to its closing brace; `before` are the entries read
already. -/
def members : (fuel : Nat) → List (List Symbol × Json) → List Char → Except Stop (Json × List Char)
  | 0, _, s => stop .name s
  | fuel + 1, before, s =>
    match s with
    | '"' :: rest => do
      let (key, after) ← stringBody rest
      match skipSpace after with
      | ':' :: after =>
        let (v, after) ← value fuel (skipSpace after)
        let entries := setKey before key v
        match skipSpace after with
        | '\x7d' :: after => return (.object entries, after)
        | ',' :: after => members fuel entries (skipSpace after)
        | s => stop .comma s
      | s => stop .colon s
    | _ => stop .name s

end

/-- The place of a fault in a text, given the number of characters left there. -/
def locate (text : List Char) (cause : Cause) (left : Nat) : Fault :=
  let before := text.take (text.length - left)
  let lastLine := before.reverse.takeWhile (· != '\n')
  .malformed cause (before.count '\n' + 1) (lastLine.length + 1) before.length

/-- Reads a whole text as a document. -/
def document (s : List Char) : Except Stop Json := do
  match s with
  | '\uFEFF' :: _ => .error (.malformed .byteOrderMark s.length)
  | _ =>
    let (v, after) ← value (2 * s.length + 2) (skipSpace s)
    match skipSpace after with
    | [] => return v
    | s => .error (.malformed .extra s.length)

/-- Reads a document. -/
def parse (text : String) : Except Fault Json :=
  match document text.toList with
  | .ok v => .ok v
  | .error (.malformed cause left) => .error (locate text.toList cause left)
  | .error (.longNumber digits _) => .error (.longNumber digits)

end StaticSite.Json
