import StaticSite.Text.Hex

/-!
# Texts as bytes

A file holds bytes; a text is read from them as UTF-8. `decode` refuses bytes that are no text and
says where and why: the first fault, the bytes it spans and its cause. `decode_encode` says that a
text that was written reads back.
-/

namespace StaticSite.Text

/-- Why a run of bytes is no character. -/
inductive ByteCause where
  /-- The byte begins no character. -/
  | start
  /-- The bytes after the first do not continue the character. -/
  | continuation
  /-- The bytes end inside a character. -/
  | cutShort
deriving DecidableEq, Repr

/-- The first bytes of a file that are no character. -/
structure ByteFault where
  /-- The first of these bytes. -/
  byte : UInt8
  /-- How many bytes stand before it. -/
  position : Nat
  /-- How many bytes the fault spans. -/
  width : Nat
  /-- Why they are no character. -/
  cause : ByteCause
deriving DecidableEq, Repr

/-- The wording of a cause. -/
def ByteCause.message : ByteCause → String
  | start => "invalid start byte"
  | continuation => "invalid continuation byte"
  | cutShort => "unexpected end of data"

/-- The wording of a fault: the byte if there is one, else the span. -/
def ByteFault.message (f : ByteFault) : String :=
  if f.width == 1 then
    s!"'utf-8' codec can't decode byte 0x{String.ofList (hex 2 f.byte.toNat)} " ++
      s!"in position {f.position}: " ++ f.cause.message
  else
    s!"'utf-8' codec can't decode bytes in position {f.position}-{f.position + f.width - 1}: " ++
      f.cause.message

/-- Whether a byte continues a character. -/
def isContinuation (b : UInt8) : Bool := 0x80 ≤ b && b < 0xC0

/-- Whether `b` may stand second after the first byte `a` of a character of three or four bytes: the
overlong forms, the surrogates and what lies above the last code point are excluded. -/
def maySecond (a b : UInt8) : Bool :=
  isContinuation b &&
    (if a == 0xE0 then 0xA0 ≤ b
    else if a == 0xED then b < 0xA0
    else if a == 0xF0 then 0x90 ≤ b
    else if a == 0xF4 then b < 0x90
    else true)

/-- The number of bytes of the character that a byte begins, 0 if it begins none. -/
def leadWidth (a : UInt8) : Nat :=
  if a < 0x80 then 1 else if a < 0xC2 then 0 else if a < 0xE0 then 2 else if a < 0xF0 then 3
  else if a < 0xF5 then 4 else 0

/-- The fault at the front of some bytes, as its width and cause; `none` if a character stands
there. -/
def faultAt : List UInt8 → Option (Nat × ByteCause)
  | [] => none
  | a :: rest =>
    match leadWidth a with
    | 0 => some (1, .start)
    | 1 => none
    | width =>
      match rest with
      | [] => some (1, .cutShort)
      | b :: rest =>
        if !(if width == 2 then isContinuation b else maySecond a b) then some (1, .continuation)
        else if width == 2 then none
        else
          match rest with
          | [] => some (2, .cutShort)
          | c :: rest =>
            if !isContinuation c then some (2, .continuation)
            else if width == 3 then none
            else
              match rest with
              | [] => some (3, .cutShort)
              | d :: _ => if isContinuation d then none else some (3, .continuation)

/-- The first fault of some bytes, `position` bytes into the file, after `skip` of them. -/
def firstFault? : (skip position : Nat) → List UInt8 → Option ByteFault
  | _, _, [] => none
  | skip + 1, position, _ :: rest => firstFault? skip (position + 1) rest
  | 0, position, a :: rest =>
    match faultAt (a :: rest) with
    | some (width, cause) => some ⟨a, position, width, cause⟩
    | none => firstFault? (leadWidth a - 1) (position + 1) rest

/-- The text some bytes hold. -/
def decode (bytes : ByteArray) : Except ByteFault String :=
  match String.fromUTF8? bytes with
  | some s => .ok s
  | none => .error ((firstFault? 0 0 bytes.toList).getD ⟨0, 0, 1, .start⟩)

/-- The bytes of a text. -/
def encode (s : String) : ByteArray := s.toUTF8

/-- A text that was written reads back. -/
theorem decode_encode (s : String) : decode (encode s) = .ok s := by
  have h : String.fromUTF8? (encode s) = some s := by
    unfold String.fromUTF8?
    rw [dif_pos (show (encode s).IsValidUTF8 from s.isValidUTF8)]
    rfl
  rw [decode, h]

/-- A text with every line end, a carriage return with or without a line feed, turned into a line
feed. -/
def unifyLineEnds : List Char → List Char
  | [] => []
  | '\r' :: '\n' :: rest => '\n' :: unifyLineEnds rest
  | '\r' :: rest => '\n' :: unifyLineEnds rest
  | c :: rest => c :: unifyLineEnds rest

end StaticSite.Text
