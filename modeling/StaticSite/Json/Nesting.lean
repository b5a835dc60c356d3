import StaticSite.Fault

/-!
# How deep documents are nested

The system stops a program that reads a JSON document with too many brackets open at once.
`Json.load` reads a document as far as that: the fault of a text that is too deep is no fault of its
form, and it counts only if the reader gets that far before it meets one.
-/

namespace StaticSite.Json

/-- Where the next character of a JSON text stands. -/
inductive Spot where
  /-- Outside strings. -/
  | between
  /-- In a string. -/
  | within
  /-- In a string, after a backslash. -/
  | escaped
deriving DecidableEq

/-- Where the character after another one stands. -/
def Spot.next : Spot → Char → Spot
  | between, c => if c = '"' then within else between
  | within, c => if c = '"' then between else if c = '\\' then escaped else within
  | escaped, _ => within

/-- The number of brackets that are open after a character outside strings. -/
def openAfter (isOpen : Nat) (c : Char) : Nat :=
  if c == '[' || c == '\x7b' then isOpen + 1
  else if c == ']' || c == '\x7d' then isOpen - 1
  else isOpen

/-- The greatest number of brackets that are open at once in a text, some being open before it.
Those in strings do not count. -/
def nestingFrom (spot : Spot) (isOpen : Nat) : List Char → Nat
  | [] => isOpen
  | c :: rest =>
    max isOpen
      (nestingFrom (spot.next c) (if spot = .between then openAfter isOpen c else isOpen) rest)

/-- The part of a text that is gone through when it is read: all of it, or what stands before a
fault. -/
def readPart (s : List Char) : List Char :=
  match document s with
  | .ok _ => s
  | .error stop => s.take (s.length - stop.left)

/-- The greatest number of brackets that are open at once when a text is read. -/
def nesting (text : String) : Nat := nestingFrom .between 0 (readPart text.toList)

/-- Reads a document in which no more brackets are open at once than `limit`. -/
def load (limit : Nat) (text : String) : Except StaticSite.Fault Json :=
  if limit < nesting text then .error .tooNested else (parse text).mapError .json

example : nesting "[[1], \"[[[[\", []]" = 2 := by decide +kernel

end StaticSite.Json
