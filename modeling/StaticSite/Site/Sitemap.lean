import StaticSite.Pattern.Reader
import StaticSite.Session
import StaticSite.Site.Address
import StaticSite.Text.Escape

/-!
# Sitemaps

The addresses of a site as an XML document: those that are listed, or those of the pages that were
written, less the ones in which a pattern occurs. What a pattern means is told by an engine.
`patternEngine` is the one that builds use; it knows the patterns of `StaticSite.Pattern`.
-/

namespace StaticSite.Sitemap

/-- The name of the output file. -/
def filename : String := "sitemap.xml"

/-- The day of the last change: `current` stands for today. -/
def lastModified (o : SitemapOptions) (today : Day) : Option String :=
  o.lastModified.map fun s => if s == "current" then today.iso else s

/-- Reads the text of a pattern; answers whether it occurs in a text. -/
abbrev Engine := String → Except Fault (String → Bool)

/-- The engine that builds use. -/
def patternEngine : Engine := fun s => (((Pattern.parse s).map Pattern.occursIn).mapError .pattern)

/-- The addresses of a site whose pages were written to some files. -/
def addresses (engine : Engine) (o : SitemapOptions) (filenames : List String) :
    Except Fault (List String) := do
  let origin := String.ofList (Address.dropSeparators o.origin.toList)
  match o.listed with
  | some paths =>
    return paths.map fun p => origin ++ "/" ++ String.ofList (p.toList.dropWhile (· == '/'))
  | none =>
    let pages := filenames.filter fun name => ".html".toList.isSuffixOf name.toList
    let all := pages.map (Address.ofPage o.origin)
    let patterns ← o.exclude.mapM engine
    return all.filter fun a => !patterns.any fun occursIn => occursIn a

/-- The element of an address. -/
def element (lastModified : Option String) (address : String) : String :=
  let day :=
    match lastModified with
    | none => ""
    | some s => if s.isEmpty then "" else "<lastmod>" ++ Text.escapeUnquoted s ++ "</lastmod>"
  "<url><loc>" ++ Text.escapeDocument address ++ "</loc>" ++ day ++ "</url>"

/-- The document of some addresses. -/
def document (lastModified : Option String) (addresses : List String) : String :=
  "<?xml version=\"1.0\" encoding=\"UTF-8\"?>" ++
    "<urlset xmlns=\"http://www.sitemaps.org/schemas/sitemap/0.9\">" ++
    String.join (addresses.map (element lastModified)) ++ "</urlset>"

/-- Whether an address names a protocol of the web. -/
def isWebAddress (s : String) : Bool := "http".toList.isPrefixOf s.toList

/-- What is to be said of the options. -/
def warnings (o : SitemapOptions) : List Log.Line :=
  if isWebAddress o.origin then []
  else [⟨.warning, .sitemap, "Sitemap origin_url should start with http/https: " ++ o.origin⟩]

/-- The sitemap of a site; a site without addresses has none. -/
def make (engine : Engine) (o : SitemapOptions) (filenames : List String) (today : Day) :
    Except Fault (Option String) := do
  let addresses ← addresses engine o filenames
  return if addresses.isEmpty then none else some (document (lastModified o today) addresses)

end StaticSite.Sitemap
