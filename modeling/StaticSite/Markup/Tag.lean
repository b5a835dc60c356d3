import StaticSite.Site.Address
import StaticSite.Markup.Insert
import StaticSite.Text.Blank
import StaticSite.Text.Escape
import StaticSite.Value.Show

/-!
# Tags

The tags that a page gets: a link for each stylesheet, a link to its canonical address, and a script
for each chunk.
-/

namespace StaticSite.Markup

/-- The link to a stylesheet. -/
def linkTag (filename : String) : String :=
  "<link rel=\"stylesheet\" href=\"" ++ Address.ofFile filename ++ "\">"

/-- The link to the canonical address of a page. -/
def canonicalTag (c : Canonical) (filename : String) : String :=
  "<link rel=\"canonical\" href=\"" ++ Text.escapeAttribute (Address.canonical c filename) ++ "\">"

/-- The attributes of a script: a text is the value of its key, any other value that counts as true
makes its key stand alone. -/
def attributeTexts (attributes : Mapping) : List String :=
  attributes.filterMap fun (key, value) =>
    match value with
    | .text s => some (key.display ++ "=\"" ++ Text.escapeAttribute s ++ "\"")
    | v => if v.isTruthy then some key.display else none

/-- The tag of a script, in which every run of blanks is one space. -/
def scriptTag (address : String) (attributes : Mapping) : String :=
  let tag := "<script " ++ " ".intercalate (attributeTexts attributes) ++ " src=\"" ++ address ++
    "\"></script>"
  String.ofList (Text.collapseBlanks tag.toList)

/-- Adds a link for each stylesheet to the head of a page. `nameOf` gives the name a stylesheet was
written under. -/
def insertLinks (nameOf : Stylesheet → Option String) (styles : List Stylesheet)
    (page : List Char) :
    List Char :=
  if styles.isEmpty then page
  else insertInHead (styles.flatMap fun s => (linkTag ((nameOf s).getD s.filename)).toList) page

/-- Adds the link to the canonical address to the head of a page. -/
def insertCanonical (c : Canonical) (filename : String) (page : List Char) : List Char :=
  insertInHead (canonicalTag c filename).toList page

end StaticSite.Markup
