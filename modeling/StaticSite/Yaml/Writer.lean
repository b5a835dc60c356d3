import StaticSite.Yaml.Scalar
import StaticSite.Value.Show

/-!
# Writing YAML documents

A value as a document in block form: an entry or item per line, two columns of indentation for each
depth. A sequence within a mapping starts at the column of its key. Text that would read back as
something else, or that no plain scalar can hold, stands between quotes; scalars are folded at the
first space right of column
80. Only empty collections are written in flow form. A tuple is written as a list, a set as a
    mapping to nothing, and bytes as lines in base sixty-four.
-/

namespace StaticSite.Yaml

/-- The column right of which scalars are folded. -/
def lineWidth : Nat := 80

/-- The text written so far and what the next mark has to know of it. -/
structure Sheet where
  /-- The text. -/
  text : String
  /-- The current column. -/
  column : Nat
  /-- Whether a blank or a line end was written last. -/
  afterBlank : Bool
  /-- Whether only marks of nesting stand on the line so far. -/
  inIndent : Bool

namespace Sheet

/-- A sheet with nothing on it. -/
def blank : Sheet := ⟨"", 0, true, true⟩

/-- Adds characters to the current line. -/
def put (s : Sheet) (cs : List Char) : Sheet :=
  { s with text := s.text ++ String.ofList cs, column := s.column + cs.length }

/-- Ends the current line. -/
def newLine (s : Sheet) : Sheet :=
  { s with text := s.text.push '\n', column := 0, afterBlank := true, inIndent := true }

/-- Adds a line end of some other kind. -/
def putBreak (s : Sheet) (c : Char) : Sheet :=
  if c == '\n' then s.newLine
  else { s with text := s.text.push c, column := 0, afterBlank := true, inIndent := true }

/-- Goes to a column, on a new line unless only marks of nesting stand left of it. -/
def goTo (s : Sheet) (column : Nat) : Sheet :=
  let s :=
    if !s.inIndent || column < s.column ||
      (s.column == column && !s.afterBlank) then s.newLine else s
  if s.column < column then
    { s.put (List.replicate (column - s.column) ' ') with afterBlank := true }
  else s

/-- Adds a mark, after a space if `apart` and none was written. `nests` tells that it is a mark of
nesting. -/
def mark (s : Sheet) (m : String) (apart nests : Bool) : Sheet :=
  let cs := if s.afterBlank || !apart then m.toList else ' ' :: m.toList
  { s.put cs with afterBlank := false, inIndent := s.inIndent && nests }

end Sheet

/-- The forms of a scalar. -/
inductive Form where
  /-- Without quotes. -/
  | plain
  /-- Between single quotes. -/
  | single
  /-- Between double quotes. -/
  | double
deriving DecidableEq, Repr

/-- Whether a character is a line end within a scalar. -/
def isBreak (c : Char) : Bool := c == '\n' || c == '\x85' || c == '\u2028' || c == '\u2029'

/-- Whether a character, or the end of the text, separates words. -/
def isGap (c? : Option Char) : Bool :=
  c?.all fun c => c == '\x00' || c == ' ' || c == '\t' || c == '\r' || isBreak c

/-- Whether a character can be written as it is outside double quotes. -/
def isWritable (c : Char) : Bool :=
  c == '\n' || (' ' ≤ c && c ≤ '~') || c == '\x85' ||
    ('\xa0' ≤ c && c ≤ '\uFFFD' && c != '\uFEFF') ||
    (0x10000 ≤ c.toNat && c.toNat < 0x10FFFF)

/-- Whether two characters stand next to each other somewhere. -/
def hasPair (p q : Char → Bool) : List Char → Bool
  | a :: b :: rest => (p a && q b) || hasPair p q (b :: rest)
  | _ => false

/-- Whether a mark of structure stands in a text after its first character; `before` is the
character before it. -/
def hasInnerMark (before : Char) : List Char → Bool
  | [] => false
  | c :: rest =>
    (c == ':' && isGap rest.head?) || (c == '#' && isGap (some before)) || hasInnerMark c rest

/-- Whether a text holds what would read as a mark of structure. -/
def hasMark (s : List Char) : Bool :=
  match s with
  | [] => false
  | c :: rest =>
    "---".toList.isPrefixOf s || "...".toList.isPrefixOf s ||
      "#,[]\x7b\x7d&*!|>'\"%@\x60".toList.contains c ||
      ((c == '?' || c == ':' || c == '-') && isGap rest.head?) || hasInnerMark c rest

/-- Whether a text has to stand between double quotes. -/
def needsDouble (s : List Char) : Bool :=
  !s.all isWritable || hasPair (· == ' ') isBreak s || hasPair isBreak (· == ' ') s

/-- Whether a text can be a plain scalar outside flow collections. -/
def mayBePlain (s : List Char) : Bool :=
  let isEdge (c? : Option Char) : Bool := c?.any fun c => c == ' ' || isBreak c
  !(needsDouble s || hasMark s || s.any isBreak || isEdge s.head? || isEdge s.getLast?)

/-- The form of a scalar of a kind. -/
def formOf (kind : Kind) (isKey : Bool) (s : List Char) : Form :=
  if kindOf s == kind && mayBePlain s && !(isKey && (s.isEmpty || s.any isBreak)) then .plain
  else if !needsDouble s && !(isKey && s.any isBreak) then .single
  else .double

/-- Writes a text without quotes. A single space right of the line width becomes a line end if
`fold`. -/
def Sheet.plain (s : Sheet) (column : Nat) (fold : Bool) (text : List Char) : Sheet :=
  if text.isEmpty then s
  else
    let s := if s.afterBlank then s else s.put [' ']
    go { s with afterBlank := false, inIndent := false } 0 [] text
where
  /-- Writes the rest of a text after `spaces` spaces and the word `word`, which is kept in
  reverse. -/
  go (s : Sheet) (spaces : Nat) (word : List Char) : List Char → Sheet
    | [] => (s.put (List.replicate spaces ' ')).put word.reverse
    | c :: rest =>
      if c == ' ' then
        if word.isEmpty then go s (spaces + 1) [] rest else go (s.put word.reverse) 1 [] rest
      else if spaces == 1 && fold && lineWidth < s.column then
        go { s.goTo column with afterBlank := false, inIndent := false } 0 [c] rest
      else go (s.put (List.replicate spaces ' ')) 0 (c :: word) rest

/-- What a run within a single-quoted scalar consists of. -/
inductive Run where
  /-- Spaces. -/
  | spaces
  /-- Line ends. -/
  | breaks
  /-- Other characters. -/
  | word
deriving DecidableEq, Repr

/-- The kind of run a character belongs to. -/
def Run.of (c : Char) : Run := if c == ' ' then .spaces else if isBreak c then .breaks else .word

/-- Cuts a text into its runs. -/
def runs : List Char → List (Run × List Char)
  | [] => []
  | c :: rest =>
    match runs rest with
    | (r, cs) :: more =>
      if r == Run.of c then (r, c :: cs) :: more else (Run.of c, [c]) :: (r, cs) :: more
    | [] => [(Run.of c, [c])]

/-- Writes a text between single quotes. -/
def Sheet.single (s : Sheet) (column : Nat) (fold : Bool) (text : List Char) : Sheet :=
  (go (s.mark "'" true false) true (runs text)).mark "'" false false
where
  /-- Writes the runs of a text; `first` tells that nothing came before. -/
  go (s : Sheet) (first : Bool) : List (Run × List Char) → Sheet
    | [] => s
    | (.word, cs) :: rest =>
      go (s.put (cs.flatMap fun c => if c == '\'' then ['\'', '\''] else [c])) false rest
    | (.spaces, cs) :: rest =>
      if cs.length == 1 && lineWidth < s.column && fold && !first && !rest.isEmpty then
        go (s.goTo column) false rest
      else go (s.put cs) false rest
    | (.breaks, cs) :: rest =>
      let s := if cs.head? == some '\n' then s.newLine else s
      go ((cs.foldl Sheet.putBreak s).goTo column) false rest

/-- The upper-case hexadecimal digits of a code. -/
def upperHex (width n : Nat) : List Char := (Text.hex width n).map Char.toUpper

/-- The escape of a character between double quotes, if it needs one. -/
def doubleEscape? (c : Char) : Option (List Char) :=
  match c with
  | '\x00' => some ['\\', '0']
  | '\x07' => some ['\\', 'a']
  | '\x08' => some ['\\', 'b']
  | '\t' => some ['\\', 't']
  | '\n' => some ['\\', 'n']
  | '\x0b' => some ['\\', 'v']
  | '\x0c' => some ['\\', 'f']
  | '\r' => some ['\\', 'r']
  | '\x1b' => some ['\\', 'e']
  | '"' => some ['\\', '"']
  | '\\' => some ['\\', '\\']
  | '\x85' => some ['\\', 'N']
  | '\u2028' => some ['\\', 'L']
  | '\u2029' => some ['\\', 'P']
  | c =>
    if (' ' ≤ c && c ≤ '~') || ('\xa0' ≤ c && c ≤ '\uFFFD' && c != '\uFEFF') then none
    else if c ≤ '\xff' then some ('\\' :: 'x' :: upperHex 2 c.toNat)
    else if c.toNat < 0x10000 then some ('\\' :: 'u' :: upperHex 4 c.toNat)
    else some ('\\' :: 'U' :: upperHex 8 c.toNat)

/-- Writes a text between double quotes. Past the line width a line is broken before a space or
after an escape. -/
def Sheet.double (s : Sheet) (column : Nat) (fold : Bool) (text : List Char) : Sheet :=
  (go (s.mark "\"" true false) true [] text).mark "\"" false false
where
  /-- Breaks the line after a backslash; a space at the start of the next line needs one too. -/
  breakLine (s : Sheet) (word next : List Char) : Sheet :=
    let s :=
      { (s.put (word.reverse ++ ['\\'])).goTo column with afterBlank := false, inIndent := false }
    if next.head? == some ' ' then s.put ['\\'] else s
  /-- Writes the rest of a text after the characters `word`, which are kept in reverse. -/
  go (s : Sheet) (first : Bool) (word : List Char) : List Char → Sheet
    | [] => s.put word.reverse
    | c :: rest =>
      let inside := !first && 2 ≤ (c :: rest).length && fold
      match doubleEscape? c with
      | some escape =>
        let s := (s.put word.reverse).put escape
        if inside && lineWidth + 1 < s.column then go (breakLine s [] rest) false [] rest
        else go s false [] rest
      | none =>
        if inside && (c == ' ' || word.isEmpty) && lineWidth < s.column + word.length then
          go (breakLine s word (c :: rest)) false [c] rest
        else go s false (c :: word) rest

/-- The kind and the plain text of a value that is a scalar. -/
def scalarOf : Value → Option (Kind × String)
  | .null => some (.null, "null")
  | .bool b => some (.bool, if b then "true" else "false")
  | .int n => some (.int, toString n)
  | .float x => some (.float, Decimal.render .yaml x)
  | .text s => some (.text, s)
  | .day d => some (.timestamp, d.iso)
  | .moment m => some (.timestamp, m.iso " ")
  | .bytes [] => some (.binary, "")
  | .bytes _ | .list _ | .tuple _ | .set _ | .mapping _ => none

/-- The short form of the tag of a kind. -/
def tagOf : Kind → String
  | .null => "!!null"
  | .bool => "!!bool"
  | .int => "!!int"
  | .float => "!!float"
  | .timestamp => "!!timestamp"
  | .merge => "!!merge"
  | .default => "!!value"
  | .binary => "!!binary"
  | .text => "!!str"

/-- Writes a scalar; its further lines begin at `column`. A kind that only a plain scalar shows is
named by its tag when the scalar cannot be plain. -/
def Sheet.scalar (s : Sheet) (column : Nat) (isKey : Bool) (kind : Kind) (text : String) : Sheet :=
  let cs := text.toList
  let form := formOf kind isKey cs
  let s := if form != .plain && kind != .text then s.mark (tagOf kind) true false else s
  match form with
  | .plain => s.plain column (!isKey) cs
  | .single => s.single column (!isKey) cs
  | .double => s.double column (!isKey) cs

/-- Bytes in base sixty-four: for three of them four letters, and for the last ones fewer. -/
def lettersOf : List UInt8 → List Char
  | a :: b :: c :: rest =>
    let n := (a.toNat * 256 + b.toNat) * 256 + c.toNat
    [n / 262144, n / 4096, n / 64, n].map letter ++ lettersOf rest
  | [a, b] =>
    let n := (a.toNat * 256 + b.toNat) * 4
    [n / 4096, n / 64, n].map letter ++ ['=']
  | [a] => [a.toNat / 4, a.toNat * 16].map letter ++ ['=', '=']
  | [] => []
where
  /-- The letter of a digit. -/
  letter (n : Nat) : Char := letters64[n % 64]?.getD 'A'

/-- Writes lines of at most 76 letters, each after a line end; `fuel` bounds their number. -/
def Sheet.lines (s : Sheet) (column : Nat) : (fuel : Nat) → List Char → Sheet
  | 0, _ => s
  | fuel + 1, letters =>
    if letters.isEmpty then s
    else ((s.newLine.goTo column).put (letters.take 76)).lines column fuel (letters.drop 76)

/-- Writes bytes as lines of letters. -/
def Sheet.binary (s : Sheet) (column : Nat) (b : List UInt8) : Sheet :=
  let letters := lettersOf b
  (((s.mark (tagOf .binary) true false).mark "|" true false).lines column letters.length
    letters).newLine

/-- Whether a scalar can stand in front of a colon. -/
def isSimpleKey (kind : Kind) (text : String) : Bool :=
  (tagOf kind).length + text.length < 128 && text != "" && !text.toList.any isBreak

mutual

/-- The order of keys, as far as they can be compared. -/
def keyLess? : Value → Value → Option Bool
  | .text a, .text b => some (a < b)
  | .bytes a, .bytes b => some (decide (a < b))
  | .tuple a, .tuple b => keysLess? a b
  | .day a, .day b => some (a.isBefore b)
  | .moment a, .moment b =>
    if a.offset.isSome == b.offset.isSome then some (a.isBefore b) else none
  | .float x, .float y => some (x < y)
  | .float x, v => v.whole?.map fun n => x < Float.ofInt n
  | v, .float y => v.whole?.map fun n => Float.ofInt n < y
  | a, b =>
    match a.whole?, b.whole? with
    | some m, some n => some (m < n)
    | _, _ => none

/-- The order of tuples: that of the first members that differ. -/
def keysLess? : List Value → List Value → Option Bool
  | [], rest => some (!rest.isEmpty)
  | _ :: _, [] => some false
  | a :: as, b :: bs => if a.sameKey b then keysLess? as bs else keyLess? a b

end

/-- The entries of a mapping in the order of their keys, or in their own order if some keys cannot
be compared. -/
def sortedEntries (entries : List (Value × Value)) : List (Value × Value) :=
  if entries.all fun a => entries.all fun b => (keyLess? a.1 b.1).isSome then
    entries.mergeSort fun a b => keyLess? b.1 a.1 != some true
  else entries

mutual

/-- A value with the entries of every mapping in it, and the members of every set, in the order of
their keys. -/
def sorted : Value → Value
  | .list items => .list (sortedItems items)
  | .tuple items => .tuple (sortedItems items)
  | .set items => .set ((sortedEntries (items.map fun v => (v, .null))).map Prod.fst)
  | .mapping entries => .mapping (sortedEntries (sortedValues entries))
  | v => v

/-- The members of a list or tuple, each sorted. -/
def sortedItems : List Value → List Value
  | [] => []
  | v :: rest => sorted v :: sortedItems rest

/-- The entries of a mapping with their values sorted. -/
def sortedValues : List (Value × Value) → List (Value × Value)
  | [] => []
  | (k, v) :: rest => (k, sorted v) :: sortedValues rest

end

/-- Where a value stands. -/
inductive Position where
  /-- It is the document, or a member of a sequence. -/
  | item
  /-- It belongs to a mapping. -/
  | entry
deriving DecidableEq, Repr

/-- The column within a block at `indent`; the document is no block. -/
def inner (indent : Option Nat) : Nat := (indent.map (· + 2)).getD 0

mutual

/-- Writes a value within a block at `indent`. -/
def Sheet.value (s : Sheet) (indent : Option Nat) (position : Position) : Value → Sheet
  | .list [] | .tuple [] => (s.mark "[" true false).mark "]" false false
  | .mapping [] => (s.mark "\x7b" true false).mark "\x7d" false false
  | .list items | .tuple items =>
    let column := if position == .entry && !s.inIndent then indent.getD 0 else inner indent
    s.items column items
  | .mapping entries => s.entries (inner indent) entries
  | .set [] => (((s.mark "!!set" true false).mark "\x7b" true false)).mark "\x7d" false false
  | .set items => (s.mark "!!set" true false).members (inner indent) items
  | .bytes (b :: rest) => s.binary ((indent.map (· + 2)).getD 2) (b :: rest)
  | v =>
    match scalarOf v with
    | some (kind, text) => s.scalar ((indent.map (· + 2)).getD 2) false kind text
    | none => s

/-- Writes the members of a sequence, each on a line of its own. -/
def Sheet.items (s : Sheet) (column : Nat) : List Value → Sheet
  | [] => s
  | v :: rest =>
      (((s.goTo column).mark "-" true true).value (some column) .item v).items column rest

/-- Writes the entries of a mapping, each on a line of its own. -/
def Sheet.entries (s : Sheet) (column : Nat) : List (Value × Value) → Sheet
  | [] => s
  | (k, v) :: rest =>
    ((s.key column k).value (some column) .entry v).entries column rest

/-- Writes the members of a set, each on a line of its own. -/
def Sheet.members (s : Sheet) (column : Nat) : List Value → Sheet
  | [] => s
  | k :: rest => ((s.key column k).plain (column + 2) true "null".toList).members column rest

/-- Writes the key of an entry and the mark after it. -/
def Sheet.key (s : Sheet) (column : Nat) : Value → Sheet
  | .tuple [] => (((s.goTo column).mark "[" true false).mark "]" false false).mark ":" false false
  | .tuple items =>
      ((((s.goTo column).mark "?" true true).items (column + 2) items).goTo column).mark
        ":" true true
  | .bytes (b :: rest) =>
    ((((s.goTo column).mark "?" true true).binary (column + 2) (b :: rest)).goTo column).mark
      ":" true true
  | k =>
    let s := s.goTo column
    let (kind, text) := (scalarOf k).getD (.text, "")
    if isSimpleKey kind text then (s.scalar (column + 2) true kind text).mark ":" false false
    else (((s.mark "?" true true).scalar (column + 2) false kind text).goTo column).mark
      ":" true true

end

/-- Whether a value is written without quotes and stands alone. -/
def isOpenEnded (v : Value) : Bool :=
  match scalarOf v with
  | some (kind, text) => formOf kind false text.toList == .plain
  | none => false

/-- A value as a document; one that is a plain scalar needs a mark at its end. -/
def render (v : Value) : String :=
  let s := ((Sheet.blank.value none .item v).goTo 0)
  if isOpenEnded v then ((s.mark "..." true false).goTo 0).text else s.text

/-- A value as a document with the entries of its mappings in the order of their keys. -/
def renderSorted (v : Value) : String := render (sorted v)

end StaticSite.Yaml
