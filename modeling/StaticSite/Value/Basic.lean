import StaticSite.Value.Day
import StaticSite.Decimal.Reading

/-!
# Values

What a configuration file, a manifest or an environment variable can say: nothing, a truth value, a
number, a text, bytes, a day or moment, a list, a tuple, a set, or a mapping. A mapping keeps the
order in which its keys were first written, and two keys that are equal as numbers are one key. The
members of a set stand in the order in which it is gone through. A document may let a list or
mapping hold itself; it then stands for a value that goes on without end, which is given here
unrolled to a greater depth than anything goes down (`Room`).
-/

namespace StaticSite

/-- A value of a configuration. -/
inductive Value where
  /-- Nothing. -/
  | null
  /-- A truth value. -/
  | bool (b : Bool)
  /-- A whole number of any size. -/
  | int (n : Int)
  /-- A float. -/
  | float (x : Float)
  /-- A text. -/
  | text (s : String)
  /-- Bytes. -/
  | bytes (b : List UInt8)
  /-- A day. -/
  | day (d : Day)
  /-- A moment. -/
  | moment (m : Moment)
  /-- A list. -/
  | list (items : List Value)
  /-- A tuple, as the pairs of an ordered mapping are. -/
  | tuple (items : List Value)
  /-- A set, as its members in the order in which it is gone through. -/
  | set (items : List Value)
  /-- A mapping, as its keys and values in order. -/
  | mapping (entries : List (Value × Value))
deriving Repr, Inhabited

/-- The entries of a mapping in order. -/
abbrev Mapping := List (Value × Value)

namespace Value

/-- The number a value stands for where numbers are compared: a truth value is 0 or 1, a float
without fraction is a whole number. -/
def whole? : Value → Option Int
  | bool b => some (if b then 1 else 0)
  | int n => some n
  | float x => Decimal.integral? x
  | _ => none

/-- What a key that is no tuple is told from other keys by. -/
inductive ScalarForm where
  /-- Nothing. -/
  | null
  /-- A text. -/
  | text (s : String)
  /-- Bytes. -/
  | bytes (b : List UInt8)
  /-- A day. -/
  | day (d : Day)
  /-- A moment, by its instant and by whether its distance from universal time is known. -/
  | moment (isKnown : Bool) (instant : Int)
  /-- A number that is whole, be it a truth value, a whole number or a float. -/
  | whole (n : Int)
  /-- A float that is not whole. -/
  | float (parts : Decimal.Parts)
deriving DecidableEq, Repr

/-- What a key is told from other keys by. -/
inductive KeyForm where
  /-- A key that is no tuple. -/
  | scalar (form : ScalarForm)
  /-- A tuple, by its members. -/
  | tuple (forms : List KeyForm)
deriving Repr

mutual

/-- Two forms of keys are compared by their parts. -/
def KeyForm.decEq : (a b : KeyForm) → Decidable (a = b)
  | .scalar f, .scalar g => decidable_of_iff (f = g) (by simp)
  | .tuple fs, .tuple gs =>
    match KeyForm.listDecEq fs gs with
    | isTrue h => isTrue (congrArg _ h)
    | isFalse h => isFalse fun heq => h (KeyForm.tuple.inj heq)
  | .scalar _, .tuple _ => isFalse (by simp)
  | .tuple _, .scalar _ => isFalse (by simp)

/-- Lists of forms are compared form by form. -/
def KeyForm.listDecEq : (fs gs : List KeyForm) → Decidable (fs = gs)
  | [], [] => isTrue rfl
  | [], _ :: _ => isFalse (by simp)
  | _ :: _, [] => isFalse (by simp)
  | f :: fs, g :: gs =>
    match KeyForm.decEq f g, KeyForm.listDecEq fs gs with
    | isTrue hf, isTrue hfs => isTrue (by rw [hf, hfs])
    | isFalse hf, _ => isFalse fun h => hf (List.cons.inj h).1
    | _, isFalse hfs => isFalse fun h => hfs (List.cons.inj h).2

end

instance : DecidableEq KeyForm := KeyForm.decEq

mutual

/-- What a value is told from others by as a key. Lists, sets and mappings are no keys, and no tuple
is one that holds such a value. -/
def keyForm? : Value → Option KeyForm
  | null => some (.scalar .null)
  | bool b => some (.scalar (.whole (if b then 1 else 0)))
  | int n => some (.scalar (.whole n))
  | float x =>
    match Decimal.integral? x with
    | some n => some (.scalar (.whole n))
    | none => some (.scalar (.float (Decimal.parts x)))
  | text s => some (.scalar (.text s))
  | bytes b => some (.scalar (.bytes b))
  | day d => some (.scalar (.day d))
  | moment m => some (.scalar (.moment m.offset.isSome m.instant))
  | tuple items => (keyForms? items).map .tuple
  | list _ | set _ | mapping _ => none

/-- What the members of a tuple are told from others by, if all can be keys. -/
def keyForms? : List Value → Option (List KeyForm)
  | [] => some []
  | v :: rest =>
    match keyForm? v, keyForms? rest with
    | some form, some forms => some (form :: forms)
    | _, _ => none

end

/-- Whether two values are the same key: equal texts, equal numbers, equal days or moments, tuples
of the same keys. -/
def sameKey (a b : Value) : Bool :=
  match a.keyForm?, b.keyForm? with
  | some k, some l => k == l
  | _, _ => false

/-- Two texts are the same key if they are equal. -/
@[simp] theorem sameKey_text (a b : String) : sameKey (text a) (text b) = (a == b) := by
  rw [Bool.eq_iff_iff]
  simp [sameKey, keyForm?]

/-- Whether a value counts as true: it is not nothing, false, zero or empty. -/
def isTruthy : Value → Bool
  | null => false
  | bool b => b
  | int n => n != 0
  | float x => x != 0.0
  | text s => !s.isEmpty
  | bytes b => !b.isEmpty
  | list items | tuple items | set items => !items.isEmpty
  | mapping entries => !entries.isEmpty
  | day _ | moment _ => true

/-- Whether a value is a mapping. -/
def isMapping : Value → Bool
  | mapping _ => true
  | _ => false

/-- The name messages give to the kind of a value. -/
def kindName : Value → String
  | null => "NoneType"
  | bool _ => "bool"
  | int _ => "int"
  | float _ => "float"
  | text _ => "str"
  | bytes _ => "bytes"
  | day _ => "date"
  | moment _ => "datetime"
  | list _ => "list"
  | tuple _ => "tuple"
  | set _ => "set"
  | mapping _ => "dict"

end Value

namespace Mapping

/-- The value of a key. -/
def get? (entries : Mapping) (key : Value) : Option Value :=
  match entries with
  | [] => none
  | (k, v) :: rest => if k.sameKey key then some v else get? rest key

/-- Gives a key a value: in place if the key is there, at the end otherwise. -/
def set (entries : Mapping) (key value : Value) : Mapping :=
  match entries with
  | [] => [(key, value)]
  | (k, v) :: rest => if k.sameKey key then (k, value) :: rest else (k, v) :: set rest key value

/-- The value of a key that is a text. -/
def find? (entries : Mapping) (key : String) : Option Value := get? entries (.text key)

/-- The mapping that results from writing entries one after the other: a repeated key keeps its
first place and takes the last value. -/
def ofEntries (entries : List (Value × Value)) : Mapping :=
  entries.foldl (fun m e => set m e.1 e.2) []

/-- An empty mapping gives no key a value. -/
@[simp] theorem get?_nil (key : Value) : get? [] key = none := rfl

/-- A key has the value of the first entry whose key is the same. -/
theorem get?_cons (k v key : Value) (rest : Mapping) :
    get? ((k, v) :: rest) key = if k.sameKey key then some v else get? rest key := rfl

end Mapping

end StaticSite
