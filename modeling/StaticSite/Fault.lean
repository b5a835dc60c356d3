import StaticSite.Tree.Walk
import StaticSite.Value.Show
import StaticSite.Text.Utf8
import StaticSite.Json.Reader
import StaticSite.Yaml.Document
import StaticSite.Pattern.Reader

/-!
# Faults

Everything that can go wrong, by its cause, with one wording for each. Some faults belong to the
building of sites itself; `code?` gives their name and `context` what else is known of them. All
others come from files, texts and values that cannot be used.
-/

namespace StaticSite

/-- What a value is used for that its kind does not allow. -/
inductive Misuse where
  /-- Giving a key a value. -/
  | assign
  /-- Looking a key up in what has members but no keys. -/
  | listKey
  /-- Looking something up in it. -/
  | lookup
  /-- Going through its members. -/
  | iterate
  /-- Asking what it contains. -/
  | contains
  /-- Using it as a mapping that has an operation. -/
  | operation (name : String)
  /-- Reading it as a whole number. -/
  | number
  /-- Making entries of its members. -/
  | entries
  /-- Using it as a text. -/
  | text
deriving DecidableEq, Repr

/-- The wording for the misuse of a value of a kind. -/
def Misuse.message (kind : String) : Misuse → String
  | assign => "'" ++ kind ++ "' object does not support item assignment"
  | listKey =>
    if kind == "str" then "string indices must be integers, not 'str'"
    else (if kind == "bytes" then "byte" else kind) ++
      " indices must be integers or slices, not str"
  | lookup => "'" ++ kind ++ "' object is not subscriptable"
  | iterate => "'" ++ kind ++ "' object is not iterable"
  | contains =>
    if kind == "bytes" then "a bytes-like object is required, not 'str'"
    else "argument of type '" ++ kind ++ "' is not iterable"
  | operation name => "'" ++ kind ++ "' object has no attribute '" ++ name ++ "'"
  | number =>
    "int() argument must be a string, a bytes-like object or a real number, not '" ++ kind ++ "'"
  | entries => "cannot convert dictionary update sequence element #0 to a sequence"
  | text => "expected str, bytes or os.PathLike object, not " ++ kind

/-- Why something could not be done. -/
inductive Fault where
  /-- A text file is not there. -/
  | missingText (path : Path)
  /-- A configuration file is not there. -/
  | missingFile (path : Path)
  /-- A directory is not there. -/
  | missingDirectory (path : Path)
  /-- Something else stands where a directory is needed. -/
  | occupied (path : Path)
  /-- A schema is not there. -/
  | missingSchema (name : String)
  /-- A schema is no mapping. -/
  | schemaShape (name : String)
  /-- The file tree refuses an operation. -/
  | tree (cause : TreeCause) (path : Path)
  /-- What was written to a temporary file cannot take the place of what stands at a path. -/
  | replace (cause : TreeCause) (path : Path)
  /-- A file would be copied onto itself. -/
  | sameFile (source target : Path)
  /-- Bytes are no text. -/
  | bytes (fault : Text.ByteFault)
  /-- A text holds what cannot be written. -/
  | half (fault : HalfFault)
  /-- A text is no JSON document. -/
  | json (fault : Json.Fault)
  /-- A text is no YAML document. -/
  | yaml (fault : Yaml.Fault)
  /-- A text is no pattern. -/
  | pattern (fault : Pattern.Fault)
  /-- A document or value goes down deeper than there is room for. -/
  | tooNested
  /-- A text, or what bytes spell, is no whole number. -/
  | number (v : Value)
  /-- A text has more digits than are read. -/
  | longNumber (digits : Nat)
  /-- A whole number has more digits than are written. -/
  | unwritableNumber
  /-- A float that is no number is read as a whole number. -/
  | notANumber
  /-- An infinite float is read as a whole number. -/
  | infinite
  /-- Something is made an entry that does not have two members. -/
  | entryLength (index length : Nat)
  /-- A mapping lacks a key. -/
  | missingKey (key : Value)
  /-- A list, set or mapping is used as a key. -/
  | unhashable (kind : String)
  /-- A value is used for what its kind does not allow. -/
  | misuse (use : Misuse) (kind : String)
  /-- A key cannot be written to JSON. -/
  | unwritableKey (kind : String)
  /-- The mode of directives is not known. -/
  | unknownMode (text : String)
  /-- Directives that need a prefix have none. -/
  | noPrefix
  /-- A page has no source. -/
  | noSource (key : String)
  /-- A file includes itself, directly or through the files of `chain`. -/
  | circular (chain : List Path) (target : Path)
  /-- A file is included at a greater depth than allowed. -/
  | tooDeep (limit : Int) (target : Path)
  /-- An include names nothing. -/
  | emptyReference (container : Path)
  /-- A stylesheet cannot be compiled. -/
  | stylesheet (path : Path) (error : String)
  /-- A pass is running already. -/
  | busy
  /-- A configuration file that was asked for is not there. -/
  | noConfiguration (path : Path)
  /-- A configuration file cannot be read. -/
  | unreadable (path : Path) (error : String)
  /-- A configuration file is no mapping. -/
  | notMapping (path : Path)
  /-- A configuration violates its schema. -/
  | invalid (schema : String) (violations : List String)
  /-- A part that was supplied from outside failed, with a kind and a wording of its own. -/
  | other (kind message : String)

/-- The name of a temporary file in the wording of a fault. Eight of its letters are drawn at
random, and no wording tells them: two wordings that differ in these letters alone are one here. -/
def draftName : String := "tmp********"

namespace Fault

/-- The fault of putting what was written to a temporary file in the place of what stands at a path,
where the fault of writing to that path is given. A path with a null character is refused before any
file is. -/
def ofReplacing : Fault → Fault
  | tree .nullCharacter p => tree .nullCharacter p
  | tree cause p => replace cause p
  | f => f

/-- The wording of a fault. -/
def message : Fault → String
  | missingText p => "Text file not found: " ++ p.toString
  | missingFile p => "File not found: " ++ p.toString
  | missingDirectory p => "Directory does not exist: " ++ p.toString
  | occupied p => "Path exists but is not a directory: " ++ p.toString
  | missingSchema name => "Schema not found: " ++ name
  | schemaShape name => "Schema " ++ name ++ " must be a mapping"
  | tree cause p => cause.message p
  | replace cause p =>
    cause.message (p.parent.child draftName) ++ " -> " ++ Text.quoted p.toString
  | sameFile a b =>
    "PosixPath(" ++ Text.quoted a.toString ++ ") and PosixPath(" ++ Text.quoted b.toString ++
      ") are the same file"
  | bytes f => f.message
  | half f =>
    if f.width == 1 then
      "'utf-8' codec can't encode character '\\u" ++ String.ofList (Text.hex 4 f.code) ++
        "' in position " ++
        toString f.position ++ ": surrogates not allowed"
    else
      "'utf-8' codec can't encode characters in position " ++ toString f.position ++ "-" ++
        toString (f.position + f.width - 1) ++ ": surrogates not allowed"
  | json f => f.message
  | yaml .malformed => "malformed document"
  | yaml (.scalar cause) => cause.message
  | pattern f => f.message
  | tooNested => "maximum recursion depth exceeded"
  | number v => "invalid literal for int() with base 10: " ++ v.shown
  | longNumber digits => Json.longNumberMessage digits
  | unwritableNumber =>
    "Exceeds the limit (" ++ toString Value.digitLimit ++
    " digits) for integer string conversion; use sys.set_int_max_str_digits() to increase the limit"
  | notANumber => "cannot convert float NaN to integer"
  | infinite => "cannot convert float infinity to integer"
  | entryLength index length =>
    "dictionary update sequence element #" ++ toString index ++ " has length " ++
      toString length ++ "; 2 is required"
  | missingKey key => key.shown
  | unhashable kind => "unhashable type: '" ++ kind ++ "'"
  | misuse use kind => use.message kind
  | unwritableKey kind => "keys must be str, int, float, bool or None, not " ++ kind
  | unknownMode s =>
      "Unknown directive mode: " ++ Text.quoted s ++ " (expected one of include, import)"
  | noPrefix => "include mode requires a non-empty prefix"
  | noSource key => "Entry '" ++ key ++ "' has no import path"
  | circular chain target =>
    "Circular include detected: " ++ " -> ".intercalate ((chain ++ [target]).map Path.toString)
  | tooDeep limit target =>
    "Include depth exceeded (>" ++ toString limit ++ ") at " ++ target.toString
  | emptyReference container => "Empty include path in " ++ container.toString
  | stylesheet p error => "Cannot compile stylesheet " ++ p.toString ++ ": " ++ error
  | busy => "A build pass is already running"
  | noConfiguration p => "Config file not found: " ++ p.toString
  | unreadable p error => "Cannot parse " ++ p.toString ++ ": " ++ error
  | notMapping p => "Config file must contain a mapping: " ++ p.toString
  | invalid schema violations =>
    "Schema validation failed (" ++ schema ++ "):\n  " ++ "\n  ".intercalate violations
  | other _ s => s

/-- What stands for a fault where its wording is empty. -/
def label : Fault → String
  | other kind _ => kind
  | f => f.message

/-- The wording of a fault, or what stands for it where it has none. -/
def describe (f : Fault) : String := if f.message.isEmpty then f.label else f.message

/-- The name of a fault of the building of sites. -/
def code? : Fault → Option String
  | circular _ _ => some "CircularIncludeError"
  | tooDeep _ _ | emptyReference _ => some "BundleError"
  | stylesheet _ _ | busy => some "PipelineError"
  | noConfiguration _ | unreadable _ _ | notMapping _ => some "ConfigError"
  | invalid _ _ => some "SchemaValidationError"
  | _ => none

/-- What else is known of a fault of the building of sites. -/
def context : Fault → Mapping
  | circular _ target => [(.text "path", .text target.toString)]
  | tooDeep limit target => [(.text "path", .text target.toString), (.text "max_depth", .int limit)]
  | stylesheet p _ | noConfiguration p | unreadable p _ | notMapping p =>
    [(.text "path", .text p.toString)]
  | invalid schema violations =>
    [(.text "schema", .text schema), (.text "errors", .list (violations.map .text))]
  | _ => []

/-- A fault with a name as a mapping. -/
def payload (message code : String) (context : Mapping) : Mapping :=
  [(.text "message", .text message), (.text "code", .text code),
    (.text "context", .mapping context)]

/-- Whether a fault says that a text is no YAML document. -/
def isOfYaml : Fault → Bool
  | yaml .malformed => true
  | other kind _ => kind == "YAMLError"
  | _ => false

/-- Whether a fault comes from the file tree. -/
def isOfTree : Fault → Bool
  | missingText _ | missingFile _ | missingDirectory _ | occupied _ | missingSchema
      _ | sameFile _ _ => true
  | tree cause _ | replace cause _ => cause != .nullCharacter
  | _ => false

/-- Whether a fault comes from a text or value that has the wrong form. -/
def isOfForm : Fault → Bool
  | bytes _ | half _ | json _ | number _ | longNumber
      _ | unwritableNumber | notANumber | schemaShape _
  | unknownMode _ | noPrefix | noSource _ | entryLength _ _ | noConfiguration _ | unreadable _ _
  | notMapping _ | invalid _ _ | yaml (.scalar _) => true
  | tree cause _ | replace cause _ => cause == .nullCharacter
  | _ => false

end Fault

end StaticSite
