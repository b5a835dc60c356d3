import StaticSite.Path.Normal
import StaticSite.Value.Basic

/-!
# Settings of a site

What a site is made of: its pages with their stylesheets, script chunks and canonical addresses, the
directories that are copied as they are, and the rules for includes, minifying and the sitemap.
Every path in settings is absolute and normal.
-/

namespace StaticSite

/-- A stylesheet and the name of the file it is written to. A name may hold the mark for a hash of
the content. -/
structure Stylesheet where
  /-- The source. -/
  source : Path
  /-- The name of the output file. -/
  filename : String
deriving DecidableEq, Repr

/-- Where the tag of a script chunk goes: `head`, or the end of the body for every other text. -/
abbrev Placement := String

/-- A script chunk of a page. -/
structure ScriptChunk where
  /-- The name under which its file is looked up. -/
  name : String
  /-- Where its tag goes. -/
  placement : Placement
  /-- The attributes of its tag. -/
  attributes : Mapping
deriving Repr

/-- How the canonical address of a page is made. -/
structure Canonical where
  /-- The address of the site. -/
  origin : String
  /-- Whether every address ends in a separator. -/
  trailingSlash : Bool
deriving DecidableEq, Repr

/-- A page. Without a source it only carries stylesheets and chunks. -/
structure Page where
  /-- Its key in the configuration. -/
  key : Value
  /-- The file it starts from. -/
  source : Option Path
  /-- The name of the output file. -/
  filename : Option String
  /-- Its stylesheets. -/
  styles : List Stylesheet
  /-- Its script chunks. -/
  chunks : List ScriptChunk
  /-- Its canonical address, if it has one. -/
  canonical : Option Canonical
deriving Repr

/-- A directory that is copied as it is. -/
structure AssetDirectory where
  /-- Its key in the configuration. -/
  key : Value
  /-- The directory. -/
  source : Path
  /-- Its place below the output directory. -/
  target : String
deriving Repr

/-- An entry of a site. -/
inductive SiteEntry where
  /-- A page. -/
  | page (page : Page)
  /-- A directory. -/
  | assets (directory : AssetDirectory)
deriving Repr

/-- How the sitemap is made. -/
structure SitemapOptions where
  /-- The address of the site. -/
  origin : String
  /-- The day of the last change, or `current` for today. -/
  lastModified : Option String
  /-- Patterns of addresses that are left out. -/
  exclude : List String
  /-- The addresses, if they are listed. -/
  listed : Option (List String)
deriving DecidableEq, Repr

/-- How includes are written and followed. -/
structure IncludeOptions where
  /-- The word that directives begin with. -/
  word : String
  /-- The mode of directives. -/
  mode : String
  /-- The properties that directives may name; what is no mapping holds none. -/
  properties : Value
  /-- The greatest depth at which a file is included. -/
  depthLimit : Int
deriving Repr

/-- The settings of a site. -/
structure Settings where
  /-- The directory that relative paths start from. -/
  root : Path
  /-- The directory that is written to. -/
  output : Path
  /-- The mode of the build. -/
  mode : String
  /-- Whether the directory of the first stylesheet is removed before stylesheets are written. -/
  clean : Bool
  /-- The rules for includes. -/
  includes : IncludeOptions
  /-- The options for minifying pages. -/
  minify : Mapping
  /-- The files of script chunks. -/
  chunks : List (String × List String)
  /-- The file in which script chunks are looked up first. -/
  manifest : Option Path
  /-- The entries in order. -/
  entries : List SiteEntry
  /-- The rules for the sitemap. -/
  sitemap : Option SitemapOptions
deriving Repr

namespace Page

/-- Whether a page is written: it has a source and a filename. -/
def isWritten (p : Page) : Bool := p.source.isSome && p.filename.any (· != "")

/-- Whether a page only carries what all pages share. -/
def isShared (p : Page) : Bool := p.key.sameKey (.text "global") && p.source.isNone

end Page

namespace Settings

/-- Whether the output is made for visitors: minified and with a sitemap. -/
def isOptimized (s : Settings) : Bool := s.mode == "production"

/-- The pages in order, the shared one included. -/
def pages (s : Settings) : List Page :=
  s.entries.filterMap fun
    | .page p => some p
    | .assets _ => none

/-- The asset directories in order. -/
def assetDirectories (s : Settings) : List AssetDirectory :=
  s.entries.filterMap fun
    | .page _ => none
    | .assets a => some a

/-- The page that carries what all pages share. -/
def shared? (s : Settings) : Option Page := s.pages.find? Page.isShared

end Settings

end StaticSite
