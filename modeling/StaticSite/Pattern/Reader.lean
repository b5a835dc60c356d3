import StaticSite.Pattern.Basic
import StaticSite.Text.Hex

/-!
# Reading patterns

The notation of patterns: `.`, classes in brackets, groups in parentheses, `|`, the repetitions `*`,
`+`, `?` and counts in braces, the anchors `^` and `$`, and escapes. A fault tells its cause and the
place in the notation it was met at.
-/

namespace StaticSite.Pattern

/-- Why a notation is no pattern. -/
inductive Cause where
  /-- A repetition follows nothing. -/
  | nothingToRepeat
  /-- A repetition follows a repetition. -/
  | multipleRepeat
  /-- A count has a least number above its most. -/
  | countOrder
  /-- A class is not closed. -/
  | openClass
  /-- A range runs backwards or has a class for an end. -/
  | badRange (ends : String)
  /-- A group is not closed. -/
  | openGroup
  /-- A closing parenthesis closes nothing. -/
  | unbalanced
  /-- A backslash ends the notation. -/
  | danglingEscape
  /-- An escape has no meaning. -/
  | badEscape (escape : String)
  /-- An escape by number has too few digits. -/
  | incompleteEscape (escape : String)
  /-- A reference names no group. -/
  | badReference (group : Nat)
  /-- The notation ends after `(?`. -/
  | openExtension
  /-- `(?` is followed by a mark without meaning. -/
  | unknownExtension (mark : String)
  /-- A comment is not closed. -/
  | openComment
deriving DecidableEq, Repr

/-- The wording of a cause. -/
def Cause.message : Cause → String
  | nothingToRepeat => "nothing to repeat"
  | multipleRepeat => "multiple repeat"
  | countOrder => "min repeat greater than max repeat"
  | openClass => "unterminated character set"
  | badRange ends => "bad character range " ++ ends
  | openGroup => "missing ), unterminated subpattern"
  | unbalanced => "unbalanced parenthesis"
  | danglingEscape => "bad escape (end of pattern)"
  | badEscape escape => "bad escape " ++ escape
  | incompleteEscape escape => "incomplete escape " ++ escape
  | badReference group => "invalid group reference " ++ toString group
  | openExtension => "unexpected end of pattern"
  | unknownExtension mark => "unknown extension ?" ++ mark
  | openComment => "missing ), unterminated comment"

/-- A fault in a notation. -/
structure Fault where
  /-- Why the notation is no pattern. -/
  cause : Cause
  /-- The number of characters before the place of the fault. -/
  position : Nat
  /-- The line and column of the place, if the notation has several lines. -/
  lineColumn : Option (Nat × Nat)
deriving DecidableEq, Repr

/-- The wording of a fault. -/
def Fault.message (f : Fault) : String :=
  f.cause.message ++ " at position " ++ toString f.position ++
    (match f.lineColumn with
    | none => ""
    | some (line, column) => " (line " ++ toString line ++ ", column " ++ toString column ++ ")")

/-- A sign of the notation: a character, or a backslash with the character after it. -/
structure Sign where
  /-- The character, after its backslash if it has one. -/
  char : Char
  /-- Whether it stands after a backslash. -/
  isEscaped : Bool
  /-- The number of characters before the sign. -/
  position : Nat
deriving DecidableEq, Repr

/-- The text of a sign. -/
def Sign.text (s : Sign) : String :=
  String.ofList (if s.isEscaped then ['\\', s.char] else [s.char])

/-- Whether a sign is a character without a backslash. -/
def Sign.is (s : Sign) (c : Char) : Bool := !s.isEscaped && s.char == c

/-- The rest of a notation while it is read. -/
structure Source where
  /-- The signs that are left. -/
  signs : List Sign
  /-- Whether a lone backslash follows the last of them. -/
  dangling : Bool
  /-- The length of the notation. -/
  size : Nat
deriving Repr

/-- The signs of a notation from a position on, and whether a lone backslash ends it. -/
def signsFrom (position : Nat) : List Char → List Sign × Bool
  | [] => ([], false)
  | ['\\'] => ([], true)
  | '\\' :: c :: rest =>
    let (signs, dangling) := signsFrom (position + 2) rest
    (⟨c, true, position⟩ :: signs, dangling)
  | c :: rest =>
    let (signs, dangling) := signsFrom (position + 1) rest
    (⟨c, false, position⟩ :: signs, dangling)

/-- A fault at a position. -/
abbrev Stop := Cause × Nat

/-- The position of the next sign. -/
def Source.position (s : Source) : Nat :=
  match s.signs with
  | sign :: _ => sign.position
  | [] => if s.dangling then s.size - 1 else s.size

/-- Takes the next sign. A lone backslash is met as soon as the sign before it is taken. -/
def Source.take? (s : Source) : Except Stop (Option Sign × Source) :=
  match s.signs with
  | [] => if s.dangling then .error (.danglingEscape, s.size - 1) else .ok (none, s)
  | [sign] =>
    if s.dangling then .error (.danglingEscape, s.size - 1)
      else .ok (some sign, { s with signs := [] })
  | sign :: rest => .ok (some sign, { s with signs := rest })

/-- Whether the next sign is a character without a backslash. -/
def Source.peeks (s : Source) (c : Char) : Bool :=
  match s.signs with
  | sign :: _ => sign.is c
  | [] => false

/-- Takes the next sign if it is the given character. -/
def Source.accept (s : Source) (c : Char) : Except Stop (Bool × Source) :=
  if s.peeks c then do
    let (_, s) ← s.take?
    return (true, s)
  else .ok (false, s)

/-- Takes signs that are characters of a class, `most` of them at the utmost. -/
def Source.takeWhile (p : Char → Bool) : (most : Nat) → Source → Except Stop (List Char × Source)
  | 0, s => .ok ([], s)
  | most + 1, s =>
    match s.signs with
    | sign :: _ =>
      if !sign.isEscaped && p sign.char then do
        let (_, s) ← s.take?
        let (rest, s) ← takeWhile p most s
        return (sign.char :: rest, s)
      else .ok ([], s)
    | [] => .ok ([], s)

/-- The value of a text of digits. -/
def numberOf (base : Nat) (digits : List Char) : Nat :=
  digits.foldl (fun n c => base * n + (Text.hexValue? c).getD 0) 0

/-- The control characters that have a letter as their escape. -/
def controlEscape? : Char → Option Char
  | 'a' => some '\x07'
  | 'b' => some '\x08'
  | 'f' => some '\x0c'
  | 'n' => some '\n'
  | 'r' => some '\r'
  | 't' => some '\t'
  | 'v' => some '\x0b'
  | '\\' => some '\\'
  | _ => none

/-- The class that a letter stands for after a backslash. -/
def category? : Char → Option ClassItem
  | 'd' => some (.category .digit false)
  | 'D' => some (.category .digit true)
  | 'w' => some (.category .word false)
  | 'W' => some (.category .word true)
  | 's' => some (.category .blank false)
  | 'S' => some (.category .blank true)
  | _ => none

/-- Whether a character is a digit in base eight. -/
def isOctal (c : Char) : Bool := '0' ≤ c && c ≤ '7'

/-- Reads the digits of an escape by number. -/
def numbered (sign : Sign) (width : Nat) (s : Source) : Except Stop (Char × Source) := do
  let (digits, after) ← s.takeWhile (fun c => (Text.hexValue? c).isSome) width
  if digits.length == width then return (Char.ofNat (numberOf 16 digits), after)
  else .error (.incompleteEscape (sign.text ++ String.ofList digits), sign.position)

/-- Reads an escape outside classes. -/
def escape (sign : Sign) (s : Source) : Except Stop (Pattern × Source) :=
  match sign.char with
  | 'A' => .ok (.anchor .start, s)
  | 'Z' => .ok (.anchor .veryEnd, s)
  | 'b' => .ok (.anchor (.boundary false), s)
  | 'B' => .ok (.anchor (.boundary true), s)
  | 'x' => do let (c, s) ← numbered sign 2 s; return (.char c, s)
  | 'u' => do let (c, s) ← numbered sign 4 s; return (.char c, s)
  | 'U' => do let (c, s) ← numbered sign 8 s; return (.char c, s)
  | '0' => do
    let (digits, s) ← s.takeWhile isOctal 2
    return (.char (Char.ofNat (numberOf 8 digits)), s)
  | c =>
    match category? c, controlEscape? c with
    | some item, _ => .ok (.oneOf [item] false, s)
    | _, some c => .ok (.char c, s)
    | _, _ =>
      if c.isDigit then do
        let (digits, _) ← s.takeWhile Char.isDigit 1
        .error (.badReference (numberOf 10 (c :: digits)), sign.position + 1)
      else if c.isAlpha then .error (.badEscape sign.text, sign.position)
      else .ok (.char c, s)

/-- Reads an escape within a class. -/
def classEscape (sign : Sign) (s : Source) : Except Stop (ClassItem × Source) :=
  let single (r : Except Stop (Char × Source)) : Except Stop (ClassItem × Source) := do
    let (c, s) ← r
    return (.range c c, s)
  match sign.char with
  | 'x' => single (numbered sign 2 s)
  | 'u' => single (numbered sign 4 s)
  | 'U' => single (numbered sign 8 s)
  | c =>
    match controlEscape? c, category? c with
    | some c, _ => .ok (.range c c, s)
    | _, some item => .ok (item, s)
    | _, _ =>
      if isOctal c then do
        let (digits, s) ← s.takeWhile isOctal 2
        let c := Char.ofNat (numberOf 8 (c :: digits))
        return (.range c c, s)
      else if c.isAlphanum then .error (.badEscape sign.text, sign.position)
      else .ok (.range c c, s)

/-- Reads a member of a class that begins with a sign. -/
def classItem (sign : Sign) (s : Source) : Except Stop (ClassItem × Source) :=
  if sign.isEscaped then classEscape sign s else .ok (.range sign.char sign.char, s)

/-- The range between two members of a class, if both are single characters in order. -/
def rangeOf? : ClassItem → ClassItem → Option ClassItem
  | .range a b, .range c d => if a == b && c == d && a ≤ c then some (.range a c) else none
  | _, _ => none

/-- Reads the members of a class up to its closing bracket; `opening` is the position of the opening
one. -/
def classItems (opening : Nat) : (fuel : Nat) → (isFirst : Bool) → Source →
    Except Stop (List ClassItem × Source)
  | 0, _, s => .error (.openClass, s.size)
  | fuel + 1, isFirst, s => do
    match ← s.take? with
    | (none, _) => .error (.openClass, opening)
    | (some sign, s) =>
      if sign.is ']' && !isFirst then return ([], s)
      else
        let (item, s) ← classItem sign s
        match ← s.accept '-' with
        | (false, s) =>
          let (items, s) ← classItems opening fuel false s
          return (item :: items, s)
        | (true, s) =>
          match ← s.take? with
          | (none, _) => .error (.openClass, opening)
          | (some other, s) =>
            if other.is ']' then return ([item, .range '-' '-'], s)
            else
              let (last, s) ← classItem other s
              match rangeOf? item last with
              | some range =>
                let (items, s) ← classItems opening fuel false s
                return (range :: items, s)
              | none =>
                let ends := sign.text ++ "-" ++ other.text
                .error (.badRange ends, s.position - ends.length)

/-- What the pieces of a sequence read so far mean for a repetition that follows. -/
inductive Piece where
  /-- A pattern that can be repeated. -/
  | plain (p : Pattern)
  /-- A place, which cannot. -/
  | place (a : Anchor)
  /-- A repetition, which cannot. -/
  | repetition (p : Pattern)
deriving Inhabited

/-- The pattern of a piece. -/
def Piece.pattern : Piece → Pattern
  | plain p => p
  | place a => .anchor a
  | repetition p => p

/-- The sequence of some pieces, the last one first. -/
def sequenceOf (pieces : List Piece) : Pattern :=
  pieces.foldl (fun p piece => match p with
    | .empty => piece.pattern
    | p => .seq piece.pattern p) .empty

/-- Reads the count of a repetition after its opening brace: `none` if the brace is a character. -/
def count? (s : Source) : Except Stop (Option (Nat × Option Nat) × Source) := do
  let start := s
  if s.peeks '\x7d' then return (none, s)
  let (low, s) ← s.takeWhile Char.isDigit s.size
  let (comma, s) ← s.accept ','
  let (high, s) ← if comma then s.takeWhile Char.isDigit s.size else pure (low, s)
  let (closed, s) ← s.accept '\x7d'
  if !closed then return (none, start)
  let least := numberOf 10 low
  let most := if high.isEmpty then none else some (numberOf 10 high)
  if most.any (· < least) then .error (.countOrder, start.position)
  else return (some (least, most), s)

/-- Repeats the last piece; `position` is that of the repetition's sign. -/
def repeatLast (position : Nat) (least : Nat) (most : Option Nat) (pieces : List Piece)
    (s : Source) :
    Except Stop (List Piece × Source) :=
  match pieces with
  | [] | .place _ :: _ => .error (.nothingToRepeat, position)
  | .repetition _ :: _ => .error (.multipleRepeat, position)
  | .plain p :: rest => do
    let (reluctant, s) ← s.accept '?'
    let (possessive, s) ← if reluctant then pure (false, s) else s.accept '+'
    let greed : Greed :=
      if reluctant then .reluctant else if possessive then .possessive else .greedy
    return (.repetition (.repeated least most greed p) :: rest, s)

/-- What `(?` and a mark begin. -/
inductive Extension where
  /-- A group that is no more than its content. -/
  | group
  /-- A group that matches once and for all. -/
  | atomic
  /-- A look ahead. -/
  | ahead (inverted : Bool)
  /-- A comment. -/
  | comment

/-- Reads the mark of an extension after `(?`. -/
def extension (s : Source) : Except Stop (Extension × Source) := do
  match ← s.take? with
  | (none, s) => .error (.openExtension, s.position)
  | (some sign, s) =>
    if sign.is ':' then return (.group, s)
    else if sign.is '>' then return (.atomic, s)
    else if sign.is '=' then return (.ahead false, s)
    else if sign.is '!' then return (.ahead true, s)
    else if sign.is '#' then return (.comment, s)
    else .error (.unknownExtension sign.text, s.position - sign.text.length - 1)

/-- Reads a comment up to its closing parenthesis. -/
def comment (opening : Nat) : (fuel : Nat) → Source → Except Stop Source
  | 0, _ => .error (.openComment, opening)
  | fuel + 1, s => do
    match ← s.take? with
    | (none, _) => .error (.openComment, opening)
    | (some sign, s) => if sign.is ')' then return s else comment opening fuel s

mutual

/-- Reads alternatives up to a closing parenthesis or the end. -/
def alternatives : (fuel : Nat) → Source → Except Stop (Pattern × Source)
  | 0, s => .error (.openGroup, s.size)
  | fuel + 1, s => do
    let (first, s) ← pieces fuel [] s
    match ← s.accept '|' with
    | (true, s) =>
      let (others, s) ← alternatives fuel s
      return (.choice first others, s)
    | (false, s) => return (first, s)

/-- Reads a sequence; `before` are its pieces read already, the last one first. -/
def pieces : (fuel : Nat) → List Piece → Source → Except Stop (Pattern × Source)
  | 0, _, s => .error (.openGroup, s.size)
  | fuel + 1, before, s => do
    if s.peeks '|' || s.peeks ')' then return (sequenceOf before, s)
    match ← s.take? with
    | (none, s) => return (sequenceOf before, s)
    | (some sign, s) =>
      if sign.isEscaped then
        let (p, s) ← escape sign s
        let piece := match p with
          | .anchor a => Piece.place a
          | p => Piece.plain p
        pieces fuel (piece :: before) s
      else
        match sign.char with
        | '[' =>
          let (inverted, s) ← s.accept '^'
          let (items, s) ← classItems sign.position fuel true s
          pieces fuel (.plain (.oneOf items inverted) :: before) s
        | '*' =>
          let (before, s) ← repeatLast sign.position 0 none before s
          pieces fuel before s
        | '+' =>
          let (before, s) ← repeatLast sign.position 1 none before s
          pieces fuel before s
        | '?' =>
          let (before, s) ← repeatLast sign.position 0 (some 1) before s
          pieces fuel before s
        | '\x7b' =>
          match ← count? s with
          | (some (least, most), s) =>
            let (before, s) ← repeatLast sign.position least most before s
            pieces fuel before s
          | (none, s) => pieces fuel (.plain (.char '\x7b') :: before) s
        | '.' => pieces fuel (.plain .any :: before) s
        | '^' => pieces fuel (.place .start :: before) s
        | '$' => pieces fuel (.place .finish :: before) s
        | '(' =>
          let (extended, s) ← s.accept '?'
          let (kind, s) ← if extended then extension s else pure (.group, s)
          match kind with
          | .comment =>
            let s ← comment sign.position fuel s
            pieces fuel before s
          | kind =>
            let (body, s) ← alternatives fuel s
            match ← s.accept ')' with
            | (false, _) => .error (.openGroup, sign.position)
            | (true, s) =>
              let p := match kind with
                | .atomic => Pattern.atomic body
                | .ahead inverted => .ahead inverted body
                | _ => body
              pieces fuel (.plain p :: before) s
        | c => pieces fuel (.plain (.char c) :: before) s

end

/-- The fault at a position of a notation. -/
def Fault.at (written : List Char) (cause : Cause) (position : Nat) : Fault :=
  let before := written.take position
  let lineColumn :=
    if written.contains '\n' then
      some (before.count '\n' + 1, (before.reverse.takeWhile (· != '\n')).length + 1)
    else none
  ⟨cause, position, lineColumn⟩

/-- Reads a pattern. -/
def parse (text : String) : Except Fault Pattern :=
  let cs := text.toList
  let (signs, dangling) := signsFrom 0 cs
  let source : Source := ⟨signs, dangling, cs.length⟩
  let read : Except Stop Pattern := do
    if signs.isEmpty && dangling then .error (.danglingEscape, cs.length - 1)
    let (p, s) ← alternatives (3 * cs.length + 3) source
    if s.signs.isEmpty then return p else .error (.unbalanced, s.position)
  match read with
  | .ok p => .ok p
  | .error (cause, position) => .error (Fault.at cs cause position)

end StaticSite.Pattern
