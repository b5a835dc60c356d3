import StaticSite.Text.Search
import StaticSite.Text.Hex

/-!
# Tokens of a YAML document

A document is a list of tokens: marks of its structure and scalars. Block structure follows from
columns, so a token list holds an opening mark where a block begins and a closing mark where a line
leaves it. A key without a mark of its own is known as one only when its colon is read; its marks
are then put in front of the tokens that were read since it began. `tokens` reads the tokens of a
text.
-/

namespace StaticSite.Yaml

/-- A token. -/
inductive Token where
  /-- A directive; one that gives a version tells whether documents of that version can be read. -/
  | directive (version : Option Bool)
  /-- The mark `---`. -/
  | documentStart
  /-- The mark `...`. -/
  | documentEnd
  /-- A block sequence begins. -/
  | blockSequenceStart
  /-- A block mapping begins. -/
  | blockMappingStart
  /-- A block ends. -/
  | blockEnd
  /-- The mark `[`. -/
  | flowSequenceStart
  /-- The mark `]`. -/
  | flowSequenceEnd
  /-- An opening brace. -/
  | flowMappingStart
  /-- A closing brace. -/
  | flowMappingEnd
  /-- The mark `-` of an entry of a block sequence. -/
  | blockEntry
  /-- The comma between entries of a flow collection. -/
  | flowEntry
  /-- A key follows. -/
  | key
  /-- A value follows. -/
  | value
  /-- The name of a node that is used again. -/
  | alias (name : String)
  /-- A name for the node that follows. -/
  | anchor (name : String)
  /-- A tag: its handle and suffix. -/
  | tag (handle suffix : String)
  /-- A scalar; `plain` tells that it stands without quotes. -/
  | scalar (text : String) (plain : Bool)
deriving DecidableEq, Repr

/-- A place at which a key without a mark may have begun. -/
structure OpenKey where
  /-- The number of tokens before it. -/
  place : Nat
  /-- Whether it has to turn out as a key. -/
  required : Bool
  /-- The number of characters before it. -/
  index : Nat
  /-- Its line. -/
  line : Nat
  /-- Its column. -/
  column : Nat
deriving DecidableEq, Repr

/-- How far a text has been read. -/
structure Scan where
  /-- What is left of the text. -/
  rest : List Char
  /-- The number of characters read. -/
  index : Nat
  /-- The current line. -/
  line : Nat
  /-- The current column. -/
  column : Nat
  /-- The least column of a line that belongs to the innermost block. -/
  margin : Nat
  /-- The margins of the blocks around it, the innermost first. -/
  outer : List Nat
  /-- Whether a key without a mark may begin here. -/
  mayOpenKey : Bool
  /-- The key that may have begun outside any flow collection, or within the innermost one. -/
  openKey : Option OpenKey
  /-- The keys that may have begun around the flow collections that are open, the innermost
  first. -/
  outerKeys : List (Option OpenKey)
  /-- The tokens read so far. -/
  tokens : Array Token

/-- What cannot be read as a document. -/
inductive Malformed where
  /-- The text is no document. -/
  | malformed
deriving DecidableEq, Repr

/-- A step of reading. -/
abbrev Reading (α : Type) := StateT Scan (Except Malformed) α

/-- Gives up. -/
def refuse {α : Type} : Reading α := throw .malformed

/-- Whether a character ends a line. -/
def isLineEnd (c : Char) : Bool :=
  c == '\n' || c == '\r' || c == '\x85' || c == '\u2028' || c == '\u2029'

/-- Whether a line ends where a character, or the end of the text, stands. -/
def endsLine (c? : Option Char) : Bool := c?.all isLineEnd

/-- Whether a word ends where a character, or the end of the text, stands. -/
def endsWord (c? : Option Char) : Bool := c?.all fun c => isLineEnd c || c == ' ' || c == '\t'

/-- Whether a space, a line end or the end of the text stands somewhere. -/
def endsMark (c? : Option Char) : Bool := c?.all fun c => isLineEnd c || c == ' '

/-- The character `n` places ahead. -/
def ahead (n : Nat) : Reading (Option Char) := return (← get).rest[n]?

/-- The next character. -/
def next : Reading (Option Char) := return (← get).rest.head?

/-- The place after the next character. -/
def Scan.step (s : Scan) : Scan :=
  match s.rest with
  | [] => s
  | c :: rest =>
    if isLineEnd c && !(c == '\r' && rest.head? == some '\n') then
      { s with rest, index := s.index + 1, line := s.line + 1, column := 0 }
    else if c == '\uFEFF' then { s with rest, index := s.index + 1 }
    else { s with rest, index := s.index + 1, column := s.column + 1 }

/-- The place after the next `n` characters. -/
def Scan.steps : (n : Nat) → Scan → Scan
  | 0, s => s
  | n + 1, s => s.step.steps n

/-- Goes on by `n` characters. -/
def skip (n : Nat) : Reading Unit := modify (Scan.steps n)

/-- Takes the characters for which `p` holds. -/
def takeWhile (p : Char → Bool) : Reading (List Char) := do
  let taken := (← get).rest.takeWhile p
  skip taken.length
  return taken

/-- Takes a line end, if one stands here; all but two of them are line feeds. -/
def takeLineEnd : Reading (List Char) := do
  let rest := (← get).rest
  match rest with
  | '\r' :: '\n' :: _ => skip 2; return ['\n']
  | c :: _ =>
    if c == '\u2028' || c == '\u2029' then skip 1; return [c]
    else if isLineEnd c then skip 1; return ['\n']
    else return []
  | [] => return []

/-- Adds a token. -/
def add (t : Token) : Reading Unit := modify fun s => { s with tokens := s.tokens.push t }

/-- Allows or forbids a key without a mark at this place. -/
def setMayOpenKey (b : Bool) : Reading Unit := modify fun s => { s with mayOpenKey := b }

/-- Whether a flow collection is open. -/
def inFlow : Reading Bool := return !(← get).outerKeys.isEmpty

/-- Closes the blocks whose margin lies right of `limit`. -/
def Scan.closeBlocks (limit : Nat) : (margin : Nat) → (outer : List Nat) → Array Token →
    Nat × List Nat × Array Token
  | margin, [], tokens => (margin, [], tokens)
  | margin, m :: outer, tokens =>
    if limit < margin then closeBlocks limit m outer (tokens.push .blockEnd)
      else (margin, m :: outer, tokens)

/-- Closes the blocks that a line with its content right of `limit - 1` columns leaves. -/
def closeBlocks (limit : Nat) : Reading Unit := do
  unless ← inFlow do
    modify fun s =>
      let (margin, outer, tokens) := Scan.closeBlocks limit s.margin s.outer s.tokens
      { s with margin, outer, tokens }

/-- Opens a block at a column, unless the innermost block begins there or further right. -/
def openBlock (column : Nat) : Reading Bool := do
  let s ← get
  if s.margin ≤ column then
    set { s with margin := column + 1, outer := s.margin :: s.outer }
    return true
  else return false

/-- Gives up the key that may have begun, unless it has to be one. -/
def dropOpenKey : Reading Unit := do
  match (← get).openKey with
  | none => return
  | some key =>
    if key.required then refuse
    modify fun s => { s with openKey := none }

/-- Notes that a key may begin here. -/
def noteOpenKey : Reading Unit := do
  if (← get).mayOpenKey then
    dropOpenKey
    let flow ← inFlow
    modify fun s =>
      { s with openKey :=
            some ⟨s.tokens.size, !flow && s.margin == s.column + 1, s.index, s.line, s.column⟩ }

/-- A key that may have begun, unless it lies on another line or too far back. -/
def freshKey (s : Scan) : Option OpenKey → Except Malformed (Option OpenKey)
  | none => .ok none
  | some key =>
    if key.line != s.line || 1024 < s.index - key.index then
      if key.required then .error .malformed else .ok none
    else .ok (some key)

/-- Gives up the keys that may have begun on other lines or too far back. -/
def dropStaleKeys : Reading Unit := do
  let s ← get
  let openKey ← liftM (freshKey s s.openKey)
  let outerKeys ← liftM (m := Except Malformed) (s.outerKeys.mapM (freshKey s))
  set { s with openKey, outerKeys }

/-- Skips spaces, comments and line ends; outside flow collections a key may begin on a new line. -/
def skipToToken : (fuel : Nat) → Reading Unit
  | 0 => return
  | fuel + 1 => do
    let _ ← takeWhile (· == ' ')
    if (← next) == some '#' then
      let _ ← takeWhile (!isLineEnd ·)
    if (← takeLineEnd).isEmpty then return
    unless ← inFlow do setMayOpenKey true
    skipToToken fuel

/-- Whether a document mark of three characters `c` stands at the front of a text. -/
def isMarkOf (c : Char) (s : List Char) : Bool :=
  match s with
  | a :: b :: d :: rest => a == c && b == c && d == c && endsWord rest.head?
  | _ => false

/-- Whether a document mark stands at the front of a text. -/
def isDocumentMark (s : List Char) : Bool := isMarkOf '-' s || isMarkOf '.' s

/-- Skips the rest of a line that holds at most a comment. -/
def skipCommentLine : Reading Unit := do
  let _ ← takeWhile (· == ' ')
  if (← next) == some '#' then
    let _ ← takeWhile (!isLineEnd ·)
  unless endsLine (← next) do refuse
  let _ ← takeLineEnd

/-- Whether a character may stand in the name of an anchor or a directive. -/
def isNameChar (c : Char) : Bool := c.isAlphanum || c == '-' || c == '_'

/-- Takes a directive. Only one that gives a version has a meaning. -/
def takeDirective : Reading Unit := do
  skip 1
  let name ← takeWhile isNameChar
  if name.isEmpty || !endsMark (← next) then refuse
  if name == "YAML".toList then
    let _ ← takeWhile (· == ' ')
    let major ← takeWhile Char.isDigit
    if major.isEmpty || (← next) != some '.' then refuse
    skip 1
    let minor ← takeWhile Char.isDigit
    if minor.isEmpty || !endsMark (← next) then refuse
    skipCommentLine
    add (.directive (some (major.dropWhile (· == '0') == ['1'])))
  else
    let _ ← takeWhile (!isLineEnd ·)
    skipCommentLine
    add (.directive none)

/-- Takes the name of an anchor or alias. -/
def takeName : Reading String := do
  skip 1
  let name ← takeWhile isNameChar
  let c? ← next
  if name.isEmpty || !(endsWord c? || c?.any ("?:,]\x7d%@\x60".toList.contains ·)) then refuse
  return String.ofList name

/-- Whether a character may stand in a tag. -/
def isTagChar (c : Char) : Bool := c.isAlphanum || "-;/?:@&=+$,_.!~*'()[]%".toList.contains c

/-- Takes a tag. -/
def takeTag : Reading Unit := do
  let rest := (← get).rest.drop 1
  let uri : Reading String := do
    let text ← takeWhile isTagChar
    if text.isEmpty then refuse
    return String.ofList text
  let word := rest.takeWhile fun c => !(endsMark (some c))
  let t : Token ←
    match rest with
    | '<' :: _ => do
      skip 2
      let suffix ← uri
      if (← next) != some '>' then refuse
      skip 1
      pure (.tag "" suffix)
    | _ =>
      if endsWord rest.head? then do
        skip 1
        pure (.tag "" "!")
      else if word.contains '!' then do
        skip 1
        let name ← takeWhile isNameChar
        if (← next) != some '!' then refuse
        skip 1
        pure (.tag ("!" ++ String.ofList name ++ "!") (← uri))
      else do
        skip 1
        pure (.tag "!" (← uri))
  unless endsMark (← next) do refuse
  add t

/-- Takes line ends, and the spaces at the start of lines up to a column. -/
def takeBreaks (indent : Nat) : (fuel : Nat) → Reading (List Char)
  | 0 => return []
  | fuel + 1 => do
    let room := indent - (← get).column
    let spaces := ((← get).rest.take room).takeWhile (· == ' ')
    skip spaces.length
    let lineEnd ← takeLineEnd
    if lineEnd.isEmpty then return []
    return lineEnd ++ (← takeBreaks indent fuel)

/-- Takes line ends and spaces; answers the line ends and the greatest column reached on the way. -/
def takeIndentation (most : Nat) : (fuel : Nat) → Reading (List Char × Nat)
  | 0 => return ([], most)
  | fuel + 1 => do
    let _ ← takeWhile (· == ' ')
    let most := max most (← get).column
    let lineEnd ← takeLineEnd
    if lineEnd.isEmpty then return ([], most)
    let (more, most) ← takeIndentation most fuel
    return (lineEnd ++ more, most)

/-- What happens to the line ends at the end of a block scalar. -/
inductive Chomp where
  /-- All are dropped. -/
  | strip
  /-- One is kept. -/
  | clip
  /-- All are kept. -/
  | keep
deriving DecidableEq, Repr

/-- The sign for what happens to the line ends, if a character is one. -/
def chomp? : Option Char → Option Chomp
  | some '+' => some .keep
  | some '-' => some .strip
  | _ => none

/-- The depth of indentation a character gives, if it gives one. -/
def depth? (c? : Option Char) : Option Nat :=
  c?.bind fun c => if '1' ≤ c && c ≤ '9' then some (c.toNat - 48) else none

/-- Takes the signs in the first line of a block scalar, in either order. -/
def takeScalarSigns : Reading (Chomp × Option Nat) := do
  let first ← next
  let signs : Chomp × Option Nat ←
    match chomp? first, depth? first with
    | some c, _ => do
      skip 1
      match depth? (← next) with
      | some n => skip 1; pure (c, some n)
      | none => pure (c, none)
    | none, some n => do
      skip 1
      match chomp? (← next) with
      | some c => skip 1; pure (c, some n)
      | none => pure (.clip, some n)
    | none, none => pure (.clip, none)
  unless endsMark (← next) do refuse
  return signs

/-- Takes the lines of a block scalar at a column. `breaks` are the line ends before the first of
them. The answer is the text up to the last line, the end of that line and the line ends after
it. -/
def takeScalarLines (folded : Bool) (indent : Nat) (breaks : List Char) :
    (fuel : Nat) → Reading (List Char × List Char × List Char)
  | 0 => return ([], [], breaks)
  | fuel + 1 => do
    let s ← get
    if s.column != indent || s.rest.isEmpty then return ([], [], breaks)
    let isText (c? : Option Char) : Bool := c?.all fun c => c != ' ' && c != '\t'
    let text ← takeWhile (!isLineEnd ·)
    let lineEnd ← takeLineEnd
    let after ← takeBreaks indent (s.rest.length + 1)
    let s' ← get
    if s'.column == indent && !s'.rest.isEmpty then
      let joint :=
        if folded && lineEnd == ['\n'] && isText s.rest.head? && isText s'.rest.head? then
          if after.isEmpty then [' '] else []
        else lineEnd
      let (more, lastEnd, lastBreaks) ← takeScalarLines folded indent after fuel
      return (breaks ++ text ++ joint ++ more, lastEnd, lastBreaks)
    else return (breaks ++ text, lineEnd, after)

/-- Takes a block scalar. -/
def takeBlockScalar (folded : Bool) : Reading Unit := do
  skip 1
  let (chomp, depth) ← takeScalarSigns
  skipCommentLine
  let s ← get
  let least := max s.margin 1
  let (indent, breaks) ←
    match depth with
    | none => do
      let (breaks, most) ← takeIndentation 0 (s.rest.length + 1)
      pure (max least most, breaks)
    | some n => do
      let indent := least + n - 1
      let breaks ← takeBreaks indent (s.rest.length + 1)
      pure (indent, breaks)
  let (text, lineEnd, breaks) ← takeScalarLines folded indent breaks (s.rest.length + 1)
  let tail :=
    match chomp with
    | .strip => []
    | .clip => lineEnd
    | .keep => lineEnd ++ breaks
  add (.scalar (String.ofList (text ++ tail)) false)

/-- The character an escape of one character stands for. -/
def escapedChar? (c : Char) : Option Char :=
  match c with
  | '0' => some '\x00'
  | 'a' => some '\x07'
  | 'b' => some '\x08'
  | 't' => some '\t'
  | '\t' => some '\t'
  | 'n' => some '\n'
  | 'v' => some '\x0b'
  | 'f' => some '\x0c'
  | 'r' => some '\r'
  | 'e' => some '\x1b'
  | ' ' => some ' '
  | '"' => some '"'
  | '\\' => some '\\'
  | '/' => some '/'
  | 'N' => some '\x85'
  | '_' => some '\xa0'
  | 'L' => some '\u2028'
  | 'P' => some '\u2029'
  | _ => none

/-- The number of digits after an escape that gives a code. -/
def escapeWidth? (c : Char) : Option Nat :=
  match c with
  | 'x' => some 2
  | 'u' => some 4
  | 'U' => some 8
  | _ => none

/-- Takes the line ends and blanks at the start of lines within a quoted scalar. -/
def takeQuotedBreaks : (fuel : Nat) → Reading (List Char)
  | 0 => return []
  | fuel + 1 => do
    if isDocumentMark (← get).rest then refuse
    let _ ← takeWhile fun c => c == ' ' || c == '\t'
    let lineEnd ← takeLineEnd
    if lineEnd.isEmpty then return []
    return lineEnd ++ (← takeQuotedBreaks fuel)

/-- A line end within a scalar, with the empty lines after it: a single one is a space. -/
def foldBreaks (lineEnd breaks : List Char) : List Char :=
  if lineEnd != ['\n'] then lineEnd ++ breaks else if breaks.isEmpty then [' '] else breaks

/-- Takes the escape after a backslash. -/
def takeEscape (fuel : Nat) : Reading (List Char) := do
  match ← next with
  | none => refuse
  | some c =>
    match escapedChar? c, escapeWidth? c with
    | some e, _ => skip 1; return [e]
    | none, some width => do
      skip 1
      let digits : List (Option Nat) := ((← get).rest.take width).map Text.hexValue?
      if digits.length != width || digits.contains none then refuse
      skip width
      let code : Nat := digits.foldl (fun n d => 16 * n + d.getD 0) 0
      if 0x10FFFF < code then refuse
      return [if code.isValidChar then Char.ofNat code else '\uFFFD']
    | none, none =>
      if isLineEnd c then
        let _ ← takeLineEnd
        takeQuotedBreaks fuel
      else refuse

/-- Takes the inside of a quoted scalar up to its closing quote. -/
def takeQuoted (quote : Char) : (fuel : Nat) → Reading (List Char)
  | 0 => refuse
  | fuel + 1 => do
    let double := quote == '"'
    let s ← get
    match s.rest with
    | [] => refuse
    | c :: rest =>
      if c == quote then
        if !double && rest.head? == some '\'' then
          skip 2
          return '\'' :: (← takeQuoted quote fuel)
        else
          skip 1
          return []
      else if double && c == '\\' then
        skip 1
        let escaped ← takeEscape (rest.length + 1)
        return escaped ++ (← takeQuoted quote fuel)
      else if c == ' ' || c == '\t' || isLineEnd c then
        let blanks ← takeWhile fun c => c == ' ' || c == '\t'
        if (← next).isNone then refuse
        let lineEnd ← takeLineEnd
        if lineEnd.isEmpty then return blanks ++ (← takeQuoted quote fuel)
        let breaks ← takeQuotedBreaks (rest.length + 1)
        return foldBreaks lineEnd breaks ++ (← takeQuoted quote fuel)
      else
        skip 1
        return c :: (← takeQuoted quote fuel)

/-- Takes the line ends and spaces at the start of lines within a plain scalar; `none` if a document
mark follows. -/
def takePlainBreaks : (fuel : Nat) → Reading (Option (List Char))
  | 0 => return some []
  | fuel + 1 => do
    let _ ← takeWhile (· == ' ')
    let lineEnd ← takeLineEnd
    if lineEnd.isEmpty then return some []
    if isDocumentMark (← get).rest then return none
    return (← takePlainBreaks fuel).map (lineEnd ++ ·)

/-- Takes what stands between two words of a plain scalar; nothing if the scalar ends here. -/
def takePlainSpaces : Reading (List Char) := do
  let spaces ← takeWhile (· == ' ')
  let lineEnd ← takeLineEnd
  if lineEnd.isEmpty then return spaces
  setMayOpenKey true
  let s ← get
  if isDocumentMark s.rest then return []
  return ((← takePlainBreaks (s.rest.length + 1)).map (foldBreaks lineEnd)).getD []

/-- The length of the word of a plain scalar at the front of a text. -/
def plainLength (flow : Bool) : List Char → Nat
  | [] => 0
  | c :: rest =>
    let isEnd :=
      endsWord (some c) ||
      (c == ':' &&
        (endsWord rest.head? || (flow && rest.head?.any (",[]\x7b\x7d".toList.contains ·)))) ||
      (flow && ",?[]\x7b\x7d".toList.contains c)
    if isEnd then 0 else plainLength flow rest + 1

/-- Takes the words of a plain scalar; `spaces` stand before the first of them. -/
def takePlainWords (spaces : List Char) : (fuel : Nat) → Reading (List Char)
  | 0 => return []
  | fuel + 1 => do
    let s ← get
    if s.rest.head? == some '#' then return []
    let length := plainLength (← inFlow) s.rest
    if length == 0 then return []
    setMayOpenKey false
    let word := s.rest.take length
    skip length
    let after ← takePlainSpaces
    let s' ← get
    if after.isEmpty || s'.rest.head? == some '#' || (!(← inFlow) && s'.column < s'.margin) then
      return spaces ++ word
    return spaces ++ word ++ (← takePlainWords after fuel)

/-- Whether a plain scalar may begin at the front of a text. -/
def beginsPlain (flow : Bool) (s : List Char) : Bool :=
  match s with
  | [] => false
  | c :: rest =>
    !(endsWord (some c) || "-?:,[]\x7b\x7d#&*!|>'\"%@\x60".toList.contains c) ||
      (!endsWord rest.head? && (c == '-' || (!flow && (c == '?' || c == ':'))))

/-- Begins a flow collection. -/
def openFlow (t : Token) : Reading Unit := do
  noteOpenKey
  modify fun s =>
    { s with outerKeys := s.openKey :: s.outerKeys, openKey := none, mayOpenKey := true }
  skip 1
  add t

/-- Ends a flow collection. -/
def closeFlow (t : Token) : Reading Unit := do
  dropOpenKey
  match (← get).outerKeys with
  | [] => refuse
  | key :: outerKeys => modify fun s => { s with openKey := key, outerKeys, mayOpenKey := false }
  skip 1
  add t

/-- Opens a block for the mark that stands here, where a key without a mark might begin. -/
def openBlockHere (t : Token) : Reading Unit := do
  unless ← inFlow do
    unless (← get).mayOpenKey do refuse
    if ← openBlock (← get).column then add t

/-- Takes the colon before a value. The key that began before it gets its mark now. -/
def takeValueMark : Reading Unit := do
  match (← get).openKey with
  | some key =>
    modify fun s =>
      { s with openKey := none, tokens := s.tokens.insertIdxIfInBounds key.place .key }
    unless ← inFlow do
      if ← openBlock key.column then
        modify fun s =>
          { s with tokens := s.tokens.insertIdxIfInBounds key.place .blockMappingStart }
    setMayOpenKey false
  | none =>
    openBlockHere .blockMappingStart
    setMayOpenKey (!(← inFlow))
    dropOpenKey
  skip 1
  add .value

/-- Takes a mark that ends every block. -/
def endBlocks : Reading Unit := do
  closeBlocks 0
  dropOpenKey
  setMayOpenKey false

/-- Takes the next token; answers whether there was one. -/
def takeToken : Reading Bool := do
  skipToToken ((← get).rest.length + 1)
  dropStaleKeys
  closeBlocks ((← get).column + 1)
  let s ← get
  let flow ← inFlow
  match s.rest with
  | [] =>
    endBlocks
    return false
  | c :: rest =>
    if c == '%' && s.column == 0 then
      endBlocks
      takeDirective
    else if s.column == 0 && isDocumentMark s.rest then
      endBlocks
      skip 3
      add (if c == '-' then .documentStart else .documentEnd)
    else if c == '[' then openFlow .flowSequenceStart
    else if c == '\x7b' then openFlow .flowMappingStart
    else if c == ']' then closeFlow .flowSequenceEnd
    else if c == '\x7d' then closeFlow .flowMappingEnd
    else if c == ',' then
      setMayOpenKey true
      dropOpenKey
      skip 1
      add .flowEntry
    else if c == '-' && endsWord rest.head? then
      openBlockHere .blockSequenceStart
      setMayOpenKey true
      dropOpenKey
      skip 1
      add .blockEntry
    else if c == '?' && (flow || endsWord rest.head?) then
      openBlockHere .blockMappingStart
      setMayOpenKey (!flow)
      dropOpenKey
      skip 1
      add .key
    else if c == ':' && (flow || endsWord rest.head?) then takeValueMark
    else if c == '*' || c == '&' then
      noteOpenKey
      setMayOpenKey false
      let name ← takeName
      add (if c == '*' then .alias name else .anchor name)
    else if c == '!' then
      noteOpenKey
      setMayOpenKey false
      takeTag
    else if (c == '|' || c == '>') && !flow then
      setMayOpenKey true
      dropOpenKey
      takeBlockScalar (c == '>')
    else if c == '\'' || c == '"' then
      noteOpenKey
      setMayOpenKey false
      skip 1
      let text ← takeQuoted c (rest.length + 1)
      add (.scalar (String.ofList text) false)
    else if beginsPlain flow s.rest then
      noteOpenKey
      setMayOpenKey false
      let text ← takePlainWords [] (rest.length + 1)
      add (.scalar (String.ofList text) true)
    else refuse
    return true

/-- Takes tokens to the end of the text. -/
def takeTokens : (fuel : Nat) → Reading Unit
  | 0 => return
  | fuel + 1 => do if ← takeToken then takeTokens fuel

/-- Whether a character may stand in a document. -/
def isAllowed (c : Char) : Bool :=
  c == '\t' || c == '\n' || c == '\r' || (' ' ≤ c && c ≤ '~') || c == '\x85' ||
    ('\xa0' ≤ c && c ≤ '\uFFFD') || 0x10000 ≤ c.toNat

/-- The tokens of a text. A byte order mark at its start has no meaning. -/
def tokens (s : List Char) : Except Malformed (List Token) := do
  if !s.all isAllowed then throw .malformed
  let start : Scan := ⟨s, 0, 0, 0, 0, [], true, none, [], #[]⟩
  let start := if s.head? == some '\uFEFF' then start.step else start
  let (_, final) ← (takeTokens (s.length + 1)).run start
  return final.tokens.toList

end StaticSite.Yaml
