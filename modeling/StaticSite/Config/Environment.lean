import StaticSite.Json.Nesting
import StaticSite.Session
import StaticSite.Text.Lowercase

/-!
# Configuration from the environment

A variable whose name begins with the mark of the program gives a value to a place in the
configuration. Two underscores in the name lead into a mapping. The text of a variable is a truth
value, a number, or a JSON list or mapping if it has the form of one and is not nested too deep.
Variables count in the order of their names.
-/

namespace StaticSite.Config.Environment

/-- The mark that names of variables begin with. -/
def namePrefix : String := "PAGEBUNDLER_"

/-- A sign and what follows it. -/
def splitSign : List Char → Bool × List Char
  | '-' :: rest => (true, rest)
  | '+' :: rest => (false, rest)
  | s => (false, s)

/-- The whole number of a text that consists of digits, perhaps after a sign. -/
def int? (s : List Char) : Option (Except Fault Int) :=
  let (negative, digits) := splitSign s
  (Decimal.nat? digits).map fun n =>
    if Json.digitLimit < digits.length then .error (.longNumber digits.length)
    else .ok (if negative then -(n : Int) else n)

/-- The float of a text that consists of digits and one point, perhaps after a sign. -/
def float? (s : List Char) : Option Float := do
  let (negative, unsigned) := splitSign s
  let (whole, fraction) ← Text.cut? ['.'] unsigned
  let whole ← whole.mapM Text.digit?
  let fraction ← fraction.mapM Text.digit?
  if whole.isEmpty && fraction.isEmpty then none
    else some (Decimal.signed negative whole fraction 0)

/-- Whether a text stands between brackets of some kind. -/
def isBracketed (opening closing : Char) (s : List Char) : Bool :=
  s.head? == some opening && s.getLast? == some closing

/-- The value of the text of a variable; no more brackets of a JSON document may be open at once
than `limit`. -/
def valueOf (limit : Nat) (text : String) : Except Fault Value :=
  let s := Text.trim text.toList
  let lower := String.ofList (s.map Char.toLower)
  if lower == "true" || lower == "false" then .ok (.bool (lower == "true"))
  else
    match int? s with
    | some n => n.map .int
    | none =>
      match float? s with
      | some x => .ok (.float x)
      | none =>
        if isBracketed '\x7b' '\x7d' s || isBracketed '[' ']' s then
          match Json.load limit (String.ofList s) with
          | .ok document => .ok document.toValue
          | .error (.json _) => .ok (.text (String.ofList s))
          | .error fault => .error fault
        else .ok (.text (String.ofList s))

/-- The keys that lead to the place a variable names, if its name is well formed. -/
def placeOf? (name : String) : Option (List String) :=
  let rest := name.toList.drop namePrefix.length
  let keys := (Text.splitOnText ['_', '_'] rest).map fun k => Text.lowercase (String.ofList k)
  if rest.isEmpty || keys.any String.isEmpty then none else some keys

/-- Gives a place in a value a value of its own. Mappings are made on the way; what is no mapping
cannot be entered. -/
def assign (new : Value) : (place : List String) → Value → Except Fault Value
  | [], _ => .ok new
  | [key], .mapping entries => .ok (.mapping (Mapping.set entries (.text key) new))
  | [_], .list _ => .error (.misuse .listKey "list")
  | [_], v => .error (.misuse .assign v.kindName)
  | key :: place, .mapping entries => do
    let inner ← assign new place ((Mapping.find? entries key).getD (.mapping []))
    return .mapping (Mapping.set entries (.text key) inner)
  | _ :: _, v => .error (.misuse (.operation "setdefault") v.kindName)

/-- What the environment says so far: the configuration or a fault, and the log. -/
structure Reading where
  /-- The configuration. -/
  result : Except Fault Value
  /-- The log. -/
  log : List Log.Line

/-- Goes on with a variable. -/
def Reading.next (limit : Nat) (r : Reading) (variable' : String × String) : Reading :=
  match r.result with
  | .error _ => r
  | .ok config =>
    match placeOf? variable'.1 with
    | none =>
      { r with log := r.log ++ [⟨.warning, .configuration,
        "Ignoring malformed environment override " ++ variable'.1⟩] }
    | some place => { r with result := do assign (← valueOf limit variable'.2) place config }

/-- The variables of the program in the order of their names. -/
def ownVariables (environment : List (String × String)) : List (String × String) :=
  (environment.filter fun v => namePrefix.toList.isPrefixOf v.1.toList).mergeSort
    fun a b => !(b.1 < a.1)

/-- What the environment says; no more brackets of a JSON document in it may be open at once than
`limit`. -/
def read (limit : Nat) (environment : List (String × String)) : Reading :=
  (ownVariables environment).foldl (Reading.next limit) ⟨.ok (.mapping []), []⟩

end StaticSite.Config.Environment
