import StaticSite.Value.Basic
import StaticSite.Decimal.Layout
import StaticSite.Text.Quoted

/-!
# Values as text

`Value.display` is the plain text of a value, which for a text is the text itself. `Value.shown` is
the form in which messages show a value, with texts between quotes; it is also the form of the
members of a list or mapping within either. `Value.isWritable` says whether a value has a text at
all: a whole number of too many digits is not written.
-/

namespace StaticSite.Value

mutual

/-- How a message shows a value. -/
def shown : Value → String
  | null => "None"
  | bool b => if b then "True" else "False"
  | int n => toString n
  | float x => Decimal.render .shown x
  | text s => Text.quoted s
  | bytes b => Text.quotedBytes b
  | day d => d.shown
  | moment m => m.shown
  | list items => "[" ++ ", ".intercalate (shownItems items) ++ "]"
  | tuple [v] => "(" ++ shown v ++ ",)"
  | tuple items => "(" ++ ", ".intercalate (shownItems items) ++ ")"
  | set [] => "set()"
  | set items => "\x7b" ++ ", ".intercalate (shownItems items) ++ "\x7d"
  | mapping entries => "\x7b" ++ ", ".intercalate (shownEntries entries) ++ "\x7d"

/-- How a message shows the members of a list, a tuple or a set. -/
def shownItems : List Value → List String
  | [] => []
  | v :: rest => shown v :: shownItems rest

/-- How a message shows the entries of a mapping. -/
def shownEntries : List (Value × Value) → List String
  | [] => []
  | (k, v) :: rest => (shown k ++ ": " ++ shown v) :: shownEntries rest

end

/-- The plain text of a value. -/
def display : Value → String
  | text s => s
  | day d => d.iso
  | moment m => m.iso " "
  | v => v.shown

/-- The most digits a whole number is written with. -/
def digitLimit : Nat := 4300

mutual

/-- Whether no whole number in a value has more digits than are written. -/
def isWritable : Value → Bool
  | int n => n.natAbs < Nat.pow 10 digitLimit
  | list items | tuple items | set items => areWritable items
  | mapping entries => areEntriesWritable entries
  | _ => true

/-- Whether the members of a list, a tuple or a set can be written. -/
def areWritable : List Value → Bool
  | [] => true
  | v :: rest => isWritable v && areWritable rest

/-- Whether the entries of a mapping can be written. -/
def areEntriesWritable : List (Value × Value) → Bool
  | [] => true
  | (k, v) :: rest => isWritable k && isWritable v && areEntriesWritable rest

end

/-- Every text can be written. -/
@[simp] theorem isWritable_text (s : String) : isWritable (text s) = true := by
  simp [isWritable]

end StaticSite.Value
