/-!
# Escaping for markup

The characters that have a meaning in markup, written as references. The two formats differ in the
reference for the single quote alone.
-/

namespace StaticSite.Text

/-- A character in an attribute value of a page. -/
def attributeChar (c : Char) : List Char :=
  match c with
  | '&' => "&amp;".toList
  | '<' => "&lt;".toList
  | '>' => "&gt;".toList
  | '"' => "&quot;".toList
  | '\'' => "&#x27;".toList
  | c => [c]

/-- A character in the text of a document that is no page. -/
def documentChar (c : Char) : List Char :=
  match c with
  | '\'' => "&apos;".toList
  | c => attributeChar c

/-- A character in text that stands outside quotes: quotes stay as they are. -/
def unquotedChar (c : Char) : List Char :=
  match c with
  | '"' => ['"']
  | c => if c == '\'' then ['\''] else attributeChar c

/-- A text as the value of an attribute. -/
def escapeAttribute (s : String) : String := String.ofList (s.toList.flatMap attributeChar)

/-- A text as the content of an element, quotes included. -/
def escapeDocument (s : String) : String := String.ofList (s.toList.flatMap documentChar)

/-- A text as the content of an element, quotes left alone. -/
def escapeUnquoted (s : String) : String := String.ofList (s.toList.flatMap unquotedChar)

end StaticSite.Text
