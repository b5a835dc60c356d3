/-!
# Numbers in base sixteen

Fixed-width lower-case hexadecimal, for the escapes of unprintable characters and for digests, and
the value of a hexadecimal digit.
-/

namespace StaticSite.Text

/-- A digit in base sixteen. -/
def hexDigit (n : Nat) : Char := Nat.digitChar (n % 16)

/-- The last `width` digits of a number in base sixteen. -/
def hex : (width : Nat) → Nat → List Char
  | 0, _ => []
  | width + 1, n => hex width (n / 16) ++ [hexDigit n]

/-- A number is written with as many hexadecimal digits as asked for. -/
@[simp] theorem length_hex (width n : Nat) : (hex width n).length = width := by
  induction width generalizing n with
  | zero => rfl
  | succ width ih => simp [hex, ih]

/-- The value of a digit in base sixteen, in either case. -/
def hexValue? (c : Char) : Option Nat :=
  if c.isDigit then some (c.toNat - 48)
  else if 'a' ≤ c ∧ c ≤ 'f' then some (c.toNat - 87)
  else if 'A' ≤ c ∧ c ≤ 'F' then some (c.toNat - 55)
  else none

end StaticSite.Text
