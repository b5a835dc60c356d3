import StaticSite.Fault

/-!
# Libraries

Documents are read and written, and values held against schemas, by libraries that the program is
given. They are functions here of which nothing is known, and each of them may fail in a way of its
own.
-/

namespace StaticSite.Config

/-- A place in a value at which a schema is violated. -/
structure Violation where
  /-- The keys and indices that lead to the place. -/
  place : List Value
  /-- What is wrong there. -/
  message : String
deriving Repr

/-- The place and the message of a violation. -/
def Violation.text (v : Violation) : String :=
  (if v.place.isEmpty then "<root>" else "/".intercalate (v.place.map Value.display)) ++
    ": " ++ v.message

/-- The libraries that a program uses. -/
structure Libraries where
  /-- The value of the document in some bytes, which are those of a file if one is named. Without a
  document it is nothing. Where a value lies within itself, something stands in its place that goes
  down further than there is room for. -/
  read : (file : Option Path) → ByteArray → Except Fault Value
  /-- The document of a value, with the entries of mappings in the order of their keys. -/
  write : Value → Except Fault String
  /-- What a value violates of a schema, which is a value itself. -/
  violations : (schema value : Value) → Except Fault (List Violation)

end StaticSite.Config
