import StaticSite.Site.Settings
import StaticSite.Text.Search

/-!
# Addresses

Where a page is found on the web. An output file is found under its name below the address of the
site; the index of a directory is found under the name of the directory.
-/

namespace StaticSite.Address

/-- A name with separators of one kind and none at its front. -/
def relativeName (filename : List Char) : List Char :=
  (filename.map fun c => if c == '\\' then '/' else c).dropWhile (· == '/')

/-- A text with separators turned into one kind and every run of them into one. -/
def collapseSeparators : List Char → List Char
  | [] => []
  | [c] => [if c == '\\' then '/' else c]
  | c :: d :: rest =>
    let isSeparator (c : Char) : Bool := c == '\\' || c == '/'
    if isSeparator c && isSeparator d then collapseSeparators (d :: rest)
    else (if c == '\\' then '/' else c) :: collapseSeparators (d :: rest)

/-- The address of an output file from the root of the site. -/
def ofFile (filename : String) : String :=
  String.ofList (collapseSeparators ('/' :: filename.toList))

/-- A text with another ending, if it ends in `ending`, up to a line feed at its end. -/
def replaceEnding (ending new s : List Char) : List Char :=
  let change? (s : List Char) : Option (List Char) :=
    (Text.after? ending.reverse s.reverse).map fun rest => rest.reverse ++ new
  match change? s with
  | some t => t
  | none =>
    match s.reverse with
    | '\n' :: rest => ((change? rest.reverse).map (· ++ ['\n'])).getD s
    | _ => s

/-- The name of an index file. -/
def indexName : List Char := "index.html".toList

/-- The address of a page below that of the site. -/
def relative (filename : List Char) : List Char :=
  let name := relativeName filename
  let name := if name == indexName then [] else if name == indexName ++ ['\n'] then ['\n'] else name
  replaceEnding ('/' :: indexName) ['/'] name

/-- A text without the separators at its end. -/
def dropSeparators (s : List Char) : List Char := (s.reverse.dropWhile (· == '/')).reverse

/-- The address of a page. -/
def ofPage (origin filename : String) : String :=
  String.ofList (dropSeparators origin.toList ++ '/' :: relative filename.toList)

/-- The canonical address of a page. If every address ends in a separator, the suffix of the page
gives way to it. -/
def canonical (c : Canonical) (filename : String) : String :=
  let address := (ofPage c.origin filename).toList
  if c.trailingSlash && address.getLast? != some '/' then
    String.ofList (replaceEnding ".html".toList [] address ++ ['/'])
  else String.ofList address

end StaticSite.Address
