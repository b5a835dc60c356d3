import StaticSite.Decimal.Shortest

/-!
# Writing floats

A float is written with the digits of its shortest decimal. How they are laid out differs between
the places a float is written to in little: the names of what is no number, and whether a lone digit
before an exponent carries a point. These choices are the record `Layout`.
-/

namespace StaticSite.Decimal

/-- How floats are written in one format. -/
structure Layout where
  /-- What stands for no number. -/
  nan : String
  /-- What stands for infinity. -/
  infinity : String
  /-- Whether a lone digit before an exponent is followed by a point and a zero. -/
  pointBeforeExponent : Bool
deriving DecidableEq, Repr

/-- Floats in messages. -/
def Layout.shown : Layout := ⟨"nan", "inf", false⟩

/-- Floats in JSON. -/
def Layout.json : Layout := ⟨"NaN", "Infinity", false⟩

/-- Floats in YAML, where a float needs a point. -/
def Layout.yaml : Layout := ⟨".nan", ".inf", true⟩

/-- An exponent: a sign and at least two digits. -/
def exponentText (e : Int) : String :=
  let digits := toString e.natAbs
  "e" ++ (if e < 0 then "-" else "+") ++ (if digits.length < 2 then "0" ++ digits else digits)

/-- The digits with the point after the first `places` of them: positional notation for one to
sixteen digits before the point and for up to three zeros after it, an exponent otherwise. -/
def positioned (layout : Layout) (digits : List Char) (places : Int) : String :=
  if places ≤ -4 || 16 < places then
    match digits with
    | [] => "0.0"
    | d :: rest =>
      let point :=
        if !rest.isEmpty then String.ofList ('.' :: rest)
        else if layout.pointBeforeExponent then ".0" else ""
      String.singleton d ++ point ++ exponentText (places - 1)
  else if places ≤ 0 then
    "0." ++ String.ofList (List.replicate (-places).toNat '0' ++ digits)
  else
    let n := places.toNat
    let whole := digits.take n ++ List.replicate (n - digits.length) '0'
    let fraction := digits.drop n
    String.ofList whole ++ "." ++ (if fraction.isEmpty then "0" else String.ofList fraction)

/-- A float as text. -/
def render (layout : Layout) (x : Float) : String :=
  match parts x with
  | .nan => layout.nan
  | .infinite negative => (if negative then "-" else "") ++ layout.infinity
  | .finite negative mantissa exponent =>
    let size :=
      if mantissa == 0 then "0.0"
      else
        let (c, k) := shortest mantissa exponent
        let digits := (toString c).toList
        positioned layout digits (digits.length + k)
    (if negative then "-" else "") ++ size

end StaticSite.Decimal
