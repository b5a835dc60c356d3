import StaticSite.Text.Blank
import StaticSite.Value.Show

/-!
# Values for the eye

A value as lines of indented text: a key or a member a line, lists of plain members on one line.
-/

namespace StaticSite.Command.Table

/-- The spaces of a depth. -/
def margin (depth : Nat) : String := String.ofList (List.replicate (2 * depth) ' ')

/-- Whether a value stands on the line of a list. -/
def isPlain : Value → Bool
  | .text _ | .int _ | .float _ | .bool _ => true
  | _ => false

/-- Whether a value is a list or mapping that holds something. -/
def isFilled : Value → Bool
  | .list items => !items.isEmpty
  | .mapping entries => !entries.isEmpty
  | _ => false

/-- Whether the text of a value stands on lines of its own below its key. -/
def standsBelow (v : Value) (text : String) : Bool :=
  text.toList.contains '\n' || (isFilled v && text.toList.head? != some '[')

mutual

/-- A value as text at a depth. -/
def format (depth : Nat) : Value → String
  | .mapping [] => "\x7b\x7d"
  | .mapping entries => "\n".intercalate (formatEntries depth entries)
  | .list [] => "[]"
  | .list items =>
    if items.all isPlain then "[" ++ ", ".intercalate (items.map Value.display) ++ "]"
    else "\n".intercalate (formatItems depth items)
  | v => v.display

/-- The lines of the entries of a mapping. -/
def formatEntries (depth : Nat) : List (Value × Value) → List String
  | [] => []
  | (k, v) :: rest =>
    let text := format (depth + 1) v
    let key := margin depth ++ k.display ++ ":"
    if standsBelow v text then key :: text :: formatEntries depth rest
    else (key ++ " " ++ text) :: formatEntries depth rest

/-- The lines of the members of a list. -/
def formatItems (depth : Nat) : List Value → List String
  | [] => []
  | v :: rest =>
    (margin depth ++ "- " ++ Text.trimString (format (depth + 1) v)) :: formatItems depth rest

end

end StaticSite.Command.Table
