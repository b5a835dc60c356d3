import StaticSite.Value.Basic
import StaticSite.Text.Search
import StaticSite.Text.Quoted

/-!
# Plain scalars

What an unquoted scalar of a YAML document stands for. The forms are those of version 1.1: `yes` and
`off` are truth values, `010` is eight, `1:30` is ninety, `2024-01-02` is a day, and a float needs a
point and a signed exponent. What has none of these forms is a text.
-/

namespace StaticSite.Yaml

/-- The kinds of scalars. -/
inductive Kind where
  /-- Nothing. -/
  | null
  /-- A truth value. -/
  | bool
  /-- A whole number. -/
  | int
  /-- A float. -/
  | float
  /-- A day or a moment. -/
  | timestamp
  /-- The key under which other mappings are drawn in. -/
  | merge
  /-- The sign for a default value. -/
  | default
  /-- Bytes. -/
  | binary
  /-- A text. -/
  | text
deriving DecidableEq, Repr

/-- Why a scalar of a form has no value. -/
inductive ScalarFault where
  /-- The year is zero. -/
  | year
  /-- There is no such month. -/
  | month
  /-- The month has no such day. -/
  | day
  /-- There is no such hour. -/
  | hour
  /-- There is no such minute. -/
  | minute
  /-- There is no such second. -/
  | second
  /-- The clock differs from universal time by a day or more. -/
  | offset
  /-- A number has no digits. -/
  | digits (base : Nat)
  /-- A number has more digits than are read. -/
  | longNumber (digits : Nat)
  /-- A text that is said to be a whole number has not the form of one. -/
  | noInt (text : String)
  /-- A text that is said to be a float has not the form of one. -/
  | noFloat (text : String)
deriving DecidableEq, Repr

/-- The wording of a fault. -/
def ScalarFault.message : ScalarFault → String
  | year => "year 0 is out of range"
  | month => "month must be in 1..12"
  | day => "day is out of range for month"
  | hour => "hour must be in 0..23"
  | minute => "minute must be in 0..59"
  | second => "second must be in 0..59"
  | offset => "offset must be strictly between -24 and 24 hours"
  | .digits base => "invalid literal for int() with base " ++ toString base ++ ": ''"
  | .longNumber count =>
      "Exceeds the limit (4300 digits) for integer string conversion: value has " ++
        toString count ++ " digits; use sys.set_int_max_str_digits() to increase the limit"
  | .noInt text => "invalid literal for int() with base 10: " ++ Text.quoted text
  | .noFloat text => "could not convert string to float: " ++ Text.quoted text

/-- The texts that are true. -/
def trueTexts : List String :=
  ["yes", "Yes", "YES", "true", "True", "TRUE", "on", "On", "ON"]

/-- The texts that are false. -/
def falseTexts : List String :=
  ["no", "No", "NO", "false", "False", "FALSE", "off", "Off", "OFF"]

/-- The texts that are nothing. -/
def nullTexts : List String := ["", "~", "null", "Null", "NULL"]

/-- A sign at the front of a number, and the rest. -/
def splitSign : List Char → Bool × List Char
  | '-' :: rest => (true, rest)
  | '+' :: rest => (false, rest)
  | s => (false, s)

/-- A digit or an underscore. -/
def isGrouped (c : Char) : Bool := c.isDigit || c == '_'

/-- A digit in base eight or an underscore. -/
def isGroupedOctal (c : Char) : Bool := ('0' ≤ c && c ≤ '7') || c == '_'

/-- A digit in base sixteen or an underscore. -/
def isGroupedHex (c : Char) : Bool := (Text.hexValue? c).isSome || c == '_'

/-- Whether a text is a part of a number in base sixty after the first: at most 59, without a
sign. -/
def isSixtieth : List Char → Bool
  | [c] => c.isDigit
  | [a, b] => ('0' ≤ a && a ≤ '5') && b.isDigit
  | _ => false

/-- Whether a text is a run of digits and underscores that begins with one of `first`. -/
def isGroupedRun (first : Char → Bool) : List Char → Bool
  | c :: rest => first c && rest.all isGrouped
  | [] => false

/-- Whether a text has the form of a whole number. -/
def isInt (s : List Char) : Bool :=
  match (splitSign s).2 with
  | ['0'] => true
  | '0' :: 'b' :: rest => !rest.isEmpty && rest.all fun c => c == '0' || c == '1' || c == '_'
  | '0' :: 'x' :: rest => !rest.isEmpty && rest.all isGroupedHex
  | '0' :: rest => rest.all isGroupedOctal
  | s =>
    match Text.splitAt ':' s with
    | [whole] => isGroupedRun (fun c => '1' ≤ c && c ≤ '9') whole
    | whole :: parts => isGroupedRun (fun c => '1' ≤ c && c ≤ '9') whole && parts.all isSixtieth
    | [] => false

/-- Whether a text is an exponent of a float, or empty. -/
def isExponent : List Char → Bool
  | [] => true
  | e :: sign :: digits =>
    (e == 'e' || e == 'E') && (sign == '-' || sign == '+') && !digits.isEmpty &&
      digits.all Char.isDigit
  | _ => false

/-- Whether a text is the fraction of a float with an exponent that may be missing. -/
def isFraction (s : List Char) : Bool := isExponent (s.dropWhile isGrouped)

/-- Whether a text has the form of a float. -/
def isFloat (s : List Char) : Bool :=
  let unsigned := (splitSign s).2
  if s == ".nan".toList || s == ".NaN".toList || s == ".NAN".toList then true
  else if unsigned == ".inf".toList || unsigned == ".Inf".toList || unsigned ==
    ".INF".toList then true
  else
    match s with
    | '.' :: c :: rest => c.isDigit && isFraction rest
    | _ =>
      match Text.cut? ['.'] unsigned with
      | none => false
      | some (whole, fraction) =>
        match Text.splitAt ':' whole with
        | [whole] => isGroupedRun Char.isDigit whole && isFraction fraction
        | whole :: parts =>
          isGroupedRun Char.isDigit whole && parts.all isSixtieth && fraction.all isGrouped
        | [] => false

/-- The parts of a timestamp as they are written. -/
structure Stamp where
  /-- The year. -/
  year : List Char
  /-- The month. -/
  month : List Char
  /-- The day. -/
  day : List Char
  /-- The hour, minute, second, fraction and distance from universal time. -/
  time : Option (List Char × List Char × List Char × List Char × Option Int)
deriving DecidableEq, Repr

/-- Takes up to `most` digits. -/
def takeDigits : (most : Nat) → List Char → List Char × List Char
  | 0, s => ([], s)
  | most + 1, c :: rest =>
    if c.isDigit then
      let (digits, rest) := takeDigits most rest
      (c :: digits, rest)
    else ([], c :: rest)
  | _, [] => ([], [])

/-- The value of a run of digits. -/
def natOf (base : Nat) (digits : List Char) : Nat :=
  Decimal.ofDigits base (digits.map fun c => (Text.hexValue? c).getD 0)

/-- Whether a character separates words on one line. -/
def isSpaceOrTab (c : Char) : Bool := c == ' ' || c == '\t'

/-- The distance from universal time at the end of a timestamp, which may be missing. -/
def offset? (s : List Char) : Option (Option Int) :=
  match s.dropWhile isSpaceOrTab with
  | [] => if s.isEmpty then some none else none
  | ['Z'] => some (some 0)
  | c :: rest =>
    if c == '-' || c == '+' then
      let (hours, rest) := takeDigits 2 rest
      let size? : Option Int :=
        match rest with
        | [] => some (natOf 10 hours * 3600 : Nat)
        | [':', a, b] =>
          if a.isDigit && b.isDigit then some
            (natOf 10 hours * 3600 + natOf 10 [a, b] * 60 : Nat) else none
        | _ => none
      if hours.isEmpty then none
      else size?.map fun size => some (if c == '-' then -size else size)
    else none

/-- Reads the form of a timestamp: a day with all its digits, or a day and a time of day. -/
def stamp? (s : List Char) : Option Stamp :=
  let (year, s) := takeDigits 4 s
  match s with
  | '-' :: s =>
    let (month, s) := takeDigits 2 s
    match s with
    | '-' :: s =>
      let (day, s) := takeDigits 2 s
      if year.length != 4 || month.isEmpty || day.isEmpty then none
      else if s.isEmpty then
        if month.length == 2 && day.length == 2 then some ⟨year, month, day, none⟩ else none
      else
        let afterMark? : Option (List Char) :=
          match s with
          | 'T' :: rest | 't' :: rest => some rest
          | c :: _ => if isSpaceOrTab c then some (s.dropWhile isSpaceOrTab) else none
          | [] => none
        match afterMark? with
        | none => none
        | some s =>
          let (hour, s) := takeDigits 2 s
          match s with
          | ':' :: a :: b :: ':' :: c :: d :: s =>
            let digits := [a, b, c, d]
            if hour.isEmpty || !digits.all Char.isDigit then none
            else
              let (fraction, s) :=
                match s with
                | '.' :: rest => (rest.takeWhile Char.isDigit, rest.dropWhile Char.isDigit)
                | s => ([], s)
              (offset? s).map fun o => ⟨year, month, day, some (hour, [a, b], [c, d], fraction, o)⟩
          | _ => none
    | _ => none
  | _ => none

/-- The kind of an unquoted scalar. -/
def kindOf (s : List Char) : Kind :=
  let text := String.ofList s
  if trueTexts.contains text || falseTexts.contains text then .bool
  else if isFloat s then .float
  else if isInt s then .int
  else if text == "<<" then .merge
  else if nullTexts.contains text then .null
  else if (stamp? s).isSome then .timestamp
  else if text == "=" then .default
  else .text

/-- The value of a text that has the form of a whole number. -/
def intOf (s : List Char) : Except ScalarFault Int := do
  let (negative, digits) := splitSign (s.filter (· != '_'))
  let based (base : Nat) (digits : List Char) : Except ScalarFault Nat :=
    if digits.isEmpty then .error (.digits base) else .ok (natOf base digits)
  let size ←
    match digits with
    | ['0'] => .ok 0
    | '0' :: 'b' :: rest => based 2 rest
    | '0' :: 'x' :: rest => based 16 rest
    | '0' :: rest => .ok (natOf 8 rest)
    | digits =>
      match Text.splitAt ':' digits with
      | [digits] =>
          if 4300 < digits.length then .error (.longNumber digits.length) else .ok (natOf 10 digits)
      | parts => .ok (Decimal.ofDigits 60 (parts.map (natOf 10)))
  return if negative then -(size : Int) else size

/-- The float of a text of digits with a point and perhaps an exponent. -/
def decimalOf (s : List Char) : Float :=
  let (whole, rest) := s.span Char.isDigit
  let rest := match rest with
    | '.' :: rest => rest
    | rest => rest
  let (fraction, rest) := rest.span Char.isDigit
  let power : Int :=
    match rest with
    | _ :: '-' :: digits => -(natOf 10 digits : Int)
    | _ :: '+' :: digits => natOf 10 digits
    | _ => 0
  let value (digits : List Char) : List Nat := digits.map fun c => c.toNat - 48
  Decimal.signed false (value whole) (value fraction) power

/-- The value of a text that has the form of a float. -/
def floatOf (s : List Char) : Float :=
  let (negative, digits) := splitSign ((s.filter (· != '_')).map Char.toLower)
  let size : Float :=
    if digits == ".inf".toList then Float.ofBits 0x7FF0000000000000
    else if digits == ".nan".toList then Float.ofBits 0x7FF8000000000000
    else
      match Text.splitAt ':' digits with
      | [digits] => decimalOf digits
      | parts =>
        let steps := parts.reverse.foldl
          (fun (sum, base) part => (sum + decimalOf part * base, base * 60.0))
            ((0.0, 1.0) : Float × Float)
        steps.1
  if negative then -size else size

/-- Whether a text is a float as numbers are commonly written: digits, perhaps with a point among
them, and an exponent that may be missing. -/
def isDecimalFloat (s : List Char) : Bool :=
  let (whole, rest) := s.span Char.isDigit
  let (fraction, rest) :=
    match rest with
    | '.' :: rest => rest.span Char.isDigit
    | rest => ([], rest)
  let isPower : Bool :=
    match rest with
    | [] => true
    | e :: digits =>
      let digits := (splitSign digits).2
      (e == 'e' || e == 'E') && !digits.isEmpty && digits.all Char.isDigit
  (!whole.isEmpty || !fraction.isEmpty) && isPower

/-- The bytes that letters in base sixty-four stand for, four letters for three bytes. -/
def bytesOf : List Nat → List UInt8
  | a :: b :: c :: d :: rest =>
    let n := ((a * 64 + b) * 64 + c) * 64 + d
    (n / 65536).toUInt8 :: (n / 256).toUInt8 :: n.toUInt8 :: bytesOf rest
  | [a, b, c] =>
    let n := (a * 64 + b) * 64 + c
    [(n / 1024).toUInt8, (n / 4).toUInt8]
  | [a, b] => [((a * 64 + b) / 16).toUInt8]
  | _ => []

/-- The letters of base sixty-four. -/
def letters64 : List Char :=
  "ABCDEFGHIJKLMNOPQRSTUVWXYZabcdefghijklmnopqrstuvwxyz0123456789+/".toList

/-- The bytes that a text in base sixty-four stands for; other characters have no meaning in it. The
letters come in fours, the last of which may be filled up. -/
def binary? (s : List Char) : Option (List UInt8) :=
  let marks := s.filter fun c => c == '=' || letters64.contains c
  let letters := marks.takeWhile (· != '=')
  if marks.length % 4 == 0 && letters.length % 4 != 1 then
    some (bytesOf (letters.map fun c => letters64.idxOf c))
  else none

/-- The day or moment of a timestamp, if the calendar has it. -/
def stampValue (p : Stamp) : Except ScalarFault Value := do
  let date : Day := ⟨natOf 10 p.year, natOf 10 p.month, natOf 10 p.day⟩
  if date.year == 0 then .error .year
  if date.month == 0 || 12 < date.month then .error .month
  if date.day == 0 || Day.daysIn date.year date.month < date.day then .error .day
  match p.time with
  | none => return .day date
  | some (hour, minute, second, fraction, offset) =>
    let micro := natOf 10 ((fraction ++ List.replicate 6 '0').take 6)
    let m : Moment := ⟨date, natOf 10 hour, natOf 10 minute, natOf 10 second, micro, offset⟩
    if 23 < m.hour then .error .hour
    if 59 < m.minute then .error .minute
    if 59 < m.second then .error .second
    if offset.any fun o => 86400 ≤ o.natAbs then .error .offset
    return .moment m

/-- The value of a scalar of a kind. A merge key and a default sign have no value of their own, nor
has a text that is not in base sixty-four as bytes. -/
def valueOf (kind : Kind) (s : List Char) : Except ScalarFault (Option Value) :=
  match kind with
  | .null => .ok (some .null)
  | .bool =>
      .ok (some (.bool (["yes", "true", "on"].contains (String.ofList (s.map Char.toLower)))))
  | .int => (intOf s).map fun n => some (.int n)
  | .float => .ok (some (.float (floatOf s)))
  | .timestamp =>
    match stamp? s with
    | some p => (stampValue p).map some
    | none => .ok none
  | .merge | .default => .ok none
  | .binary => .ok ((binary? s).map .bytes)
  | .text => .ok (some (.text (String.ofList s)))

end StaticSite.Yaml
