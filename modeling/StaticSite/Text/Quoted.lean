import StaticSite.Text.Hex
import StaticSite.Text.Printable

/-!
# Quoted texts

The form in which messages show a text: between single quotes, or between double quotes if it holds
a single quote and no double one. The quote, the backslash and every unprintable character are
escaped.
-/

namespace StaticSite.Text

/-- The quote a text is shown in. -/
def quoteFor (s : List Char) : Char := if s.contains '\'' && !s.contains '"' then '"' else '\''

/-- A character as it is shown between the quotes `q`. -/
def quotedChar (q c : Char) : List Char :=
  if c == q || c == '\\' then ['\\', c]
  else if c == '\t' then ['\\', 't']
  else if c == '\n' then ['\\', 'n']
  else if c == '\r' then ['\\', 'r']
  else if isPrintable c then [c]
  else if c.toNat < 0x100 then '\\' :: 'x' :: hex 2 c.toNat
  else if c.toNat < 0x10000 then '\\' :: 'u' :: hex 4 c.toNat
  else '\\' :: 'U' :: hex 8 c.toNat

/-- A text between quotes. -/
def quotedChars (s : List Char) : List Char :=
  let q := quoteFor s
  q :: s.flatMap (quotedChar q) ++ [q]

/-- A string between quotes. -/
def quoted (s : String) : String := String.ofList (quotedChars s.toList)

/-- Bytes between quotes, after a mark: those below 128 as the characters with their codes, the
others by their numbers. -/
def quotedBytes (b : List UInt8) : String :=
  let chars := b.map fun n => Char.ofNat n.toNat
  let q := quoteFor chars
  let shown (c : Char) : List Char :=
    if c.toNat < 0x80 then quotedChar q c else '\\' :: 'x' :: hex 2 c.toNat
  String.ofList ('b' :: q :: chars.flatMap shown ++ [q])

end StaticSite.Text
