import StaticSite.Collaborators
import StaticSite.Include.Expansion
import StaticSite.Markup.Tag
import StaticSite.Output

/-!
# Rendering pages

A page is expanded, minified if it is made for visitors, and given its tags: links to the shared
stylesheets and to its own, the link to its canonical address, and the scripts of the shared chunks
and of its own. `render` makes the text and `build` writes it.
-/

namespace StaticSite.Rendering

variable {σ : Type}

/-- The tags of a placement. -/
structure ScriptGroup where
  /-- The placement. -/
  placement : Placement
  /-- The tags. -/
  tags : List Char
deriving DecidableEq, Repr

/-- Adds a tag to those of its placement. -/
def addTag (groups : List ScriptGroup) (placement : Placement) (tag : List Char) :
    List ScriptGroup :=
  match groups with
  | [] => [⟨placement, tag⟩]
  | g :: rest =>
    if g.placement = placement then ⟨placement, g.tags ++ tag⟩ :: rest
      else g :: addTag rest placement tag

/-- The tags of chunks by their placement, after those of `groups`. A chunk without a file is
skipped and named in a warning. -/
def scriptGroups (chunkFile : String → Action σ (Option String)) (groups : List ScriptGroup) :
    List ScriptChunk → Action σ (List ScriptGroup × List String)
  | [] => return (groups, [])
  | chunk :: rest => do
    match (← chunkFile chunk.name).filter (!·.isEmpty) with
    | some file =>
      let tag := Markup.scriptTag (Address.ofFile file) chunk.attributes
      let placement := if chunk.placement.isEmpty then "body" else chunk.placement
      scriptGroups chunkFile (addTag groups placement tag.toList) rest
    | none =>
      let warning := "Script chunk not found: " ++ chunk.name
      Action.say .warning .tags warning
      let (groups, warnings) ← scriptGroups chunkFile groups rest
      return (groups, warning :: warnings)

/-- Inserts the tags of each placement into a page. -/
def insertGroups (page : List Char) : List ScriptGroup → Action σ (List Char)
  | [] => return page
  | g :: rest =>
    if g.placement == "head" then insertGroups (Markup.insertInHead g.tags page) rest
    else
      match Markup.insertInBody? g.tags page with
      | some page => insertGroups page rest
      | none => do
        Action.say .debug .tags "No </body> in page; skipped body script injection"
        insertGroups page rest

/-- Adds the scripts of chunks to a page; answers the page and what was missing. -/
def insertScripts (chunkFile : String → Action σ (Option String)) (chunks : List ScriptChunk)
    (page : List Char) : Action σ (List Char × List String) := do
  let (groups, warnings) ← scriptGroups chunkFile [] chunks
  return (← insertGroups page groups, warnings)

/-- What pages are made with. -/
structure Renderer (σ : Type) where
  /-- The parts supplied from outside. -/
  parts : Collaborators σ
  /-- How includes are expanded. -/
  expander : Expander
  /-- The options for minifying. -/
  minify : Mapping
  /-- Whether pages are made for visitors. -/
  optimized : Bool
  /-- The directory that is written to. -/
  output : Path

/-- A page's text. -/
structure Rendered where
  /-- The text. -/
  text : List Char
  /-- The expanded page. -/
  bundle : Bundle
  /-- What was missing. -/
  warnings : List String
deriving DecidableEq, Repr

/-- Expands the file that a page starts from. -/
def expandPage (r : Renderer σ) (source : Path) : Action σ Bundle := do
  let s ← get
  let (bundle, trace) := r.expander.resolve s.place (r.parts.store.readText s) source
  set { s with log := s.log ++ trace.log }
  return bundle

/-- Makes the text of a page, with what a shared page carries. -/
def render (r : Renderer σ) (page : Page) (shared : Option Page) : Action σ Rendered := do
  match page.source with
  | none => throw (.noSource page.key.display)
  | some source =>
    let bundle ← expandPage r source
    let text ← if r.optimized then r.parts.minify bundle.content r.minify else pure bundle.content
    let names := (← get).names
    let nameOf (s : Stylesheet) : Option String := names.lookup s
    let text := Markup.insertLinks nameOf ((shared.map (·.styles)).getD []) text
    let text := Markup.insertLinks nameOf page.styles text
    let text :=
      match page.canonical, page.filename with
      | some c, some filename =>
        if filename.isEmpty then text else Markup.insertCanonical c filename text
      | _, _ => text
    let (text, sharedWarnings) ←
      insertScripts r.parts.chunkFile ((shared.map (·.chunks)).getD []) text
    let (text, warnings) ← insertScripts r.parts.chunkFile page.chunks text
    return ⟨text, bundle, bundle.warnings ++ sharedWarnings ++ warnings⟩

/-- A page that was written. -/
structure Written where
  /-- The source. -/
  source : Path
  /-- The name of the output file. -/
  filename : String
  /-- The output file. -/
  output : Path
  /-- The expanded page. -/
  bundle : Bundle
  /-- What was missing. -/
  warnings : List String
deriving DecidableEq, Repr

/-- The output name of a page. -/
def outputName (page : Page) : String := page.filename.getD "None"

/-- Makes and writes a page. -/
def build (r : Renderer σ) (page : Page) (shared : Option Page) : Action σ Written := do
  let rendered ← render r page shared
  let output ← Output.write r.parts.store r.output (outputName page) (String.ofList rendered.text)
  Action.say .info .pages ("Page " ++ page.key.display ++ " -> " ++ output.toString)
  match page.source with
  | none => throw (.noSource page.key.display)
  | some source => return ⟨source, outputName page, output, rendered.bundle, rendered.warnings⟩

end StaticSite.Rendering
