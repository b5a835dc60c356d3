import StaticSite.Markup.Minify

/-!
# Compact stylesheets

A stylesheet without comments and without the blanks that separate nothing. A comment that begins
with an exclamation mark stays.
-/

namespace StaticSite.Style

/-- A comment goes, unless it is marked to stay. Its first character is never part of its end. -/
def commentRule (s : List Char) : Option (List Char × Nat) :=
  match s with
  | '/' :: '*' :: c :: rest =>
    if c == '!' then none
    else (Text.cut? ['*', '/'] rest).map fun (_, after) => ([], s.length - after.length)
  | _ => none

/-- Whether a character separates by itself, so that no blank is needed next to it. -/
def isSeparator (c : Char) : Bool := "\x7b\x7d;:,>".toList.contains c

/-- A text after the space that may stand at its front. -/
def afterSpace : List Char → List Char
  | ' ' :: rest => rest
  | s => s

/-- A space on either side of a separator goes. -/
def separatorRule (s : List Char) : Option (List Char × Nat) :=
  match afterSpace s with
  | c :: rest => if isSeparator c then some ([c], s.length - (afterSpace rest).length) else none
  | [] => none

/-- The compact form of a stylesheet. -/
def compact (s : List Char) : List Char :=
  let s := Markup.substitute commentRule s
  let s := Markup.substitute separatorRule (Text.collapseBlanks s)
  Text.trim (Text.replaceAll [';', '\x7d'] ['\x7d'] s)

end StaticSite.Style
