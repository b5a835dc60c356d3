import StaticSite.Decimal.Shortest
import StaticSite.Text.Digit

/-!
# Reading numbers

The value of a run of digits, and the float nearest to a decimal. Decimals too large for a float
read as infinity, those too small as zero.
-/

namespace StaticSite.Decimal

/-- The value of a run of digits of one base, most significant first. -/
def ofDigits (base : Nat) (digits : List Nat) : Nat :=
  digits.foldl (fun n d => base * n + d) 0

/-- The value of a run of decimal digits of any script. -/
def nat? (s : List Char) : Option Nat :=
  if s.isEmpty then none else (s.mapM Text.digit?).map (ofDigits 10)

/-- The float nearest to `coefficient * 10 ^ exponent`. -/
def nearest (coefficient : Nat) (exponent : Int) : Float :=
  let size := exponent + (toString coefficient).length
  if coefficient == 0 then 0.0
  else if 400 < size then Float.ofBits 0x7FF0000000000000
  else if size < -400 then 0.0
  else Float.ofScientific coefficient (exponent < 0) exponent.natAbs

/-- The float nearest to a decimal given as the digits before and after its point, an exponent and a
sign. -/
def signed (negative : Bool) (whole fraction : List Nat) (exponent : Int) : Float :=
  let x := nearest (ofDigits 10 (whole ++ fraction)) (exponent - fraction.length)
  if negative then -x else x

/-- The whole number a float is equal to, if it is one. -/
def integral? (x : Float) : Option Int :=
  match parts x with
  | .finite negative mantissa exponent =>
    let (up, down) := ratio 2 exponent
    if mantissa * up % down == 0 then
      let n : Int := (mantissa * up / down : Nat)
      some (if negative then -n else n)
    else none
  | _ => none

/-- A finite float with its fraction dropped. -/
def truncated? (x : Float) : Option Int :=
  match parts x with
  | .finite negative mantissa exponent =>
    let (up, down) := ratio 2 exponent
    let n : Int := (mantissa * up / down : Nat)
    some (if negative then -n else n)
  | _ => none

end StaticSite.Decimal
