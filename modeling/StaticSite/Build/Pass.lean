import StaticSite.Build.Report
import StaticSite.Chunk
import StaticSite.Markup.Minify
import StaticSite.Site.Assets
import StaticSite.Site.Rendering
import StaticSite.Site.Sitemap
import StaticSite.Style.Bundle

/-!
# Build passes

A full pass copies the assets, builds every stylesheet and page, and writes the sitemap. An
incremental pass is made for one changed file: it rebuilds the stylesheets and pages whose records
name the file, and the pages that link a stylesheet whose name changed thereby. A failure ends
neither: it is reported, and the work goes on with what comes next. No pass begins while another is
running.
-/

namespace StaticSite

/-- What the passes over a site work with. -/
structure Builder (σ : Type) where
  /-- The settings. -/
  settings : Settings
  /-- The parts supplied from outside. -/
  parts : Collaborators σ
  /-- How includes are expanded. -/
  expander : Expander

/-- The parts that a build uses where none are supplied from outside. -/
def Collaborators.standard {σ : Type} (settings : Settings) : Collaborators σ where
  store := .onTree
  compile := Style.compile .onTree settings.includes.depthLimit
  postProcess css := return css
  minify page options := return Markup.minify (.ofMapping options) page
  chunkFile := Chunk.lookupFor settings

namespace Builder

variable {σ : Type}

/-- The builder for some settings, if their directives can be read. -/
def make (settings : Settings) (parts : Collaborators σ) : Except Fault (Builder σ) := do
  let includes := settings.includes
  let expander ← Expander.make includes.word includes.mode includes.properties
    includes.depthLimit false
  return ⟨settings, parts, expander⟩

/-- What the builder makes pages with. -/
def renderer (b : Builder σ) : Rendering.Renderer σ :=
  ⟨b.parts, b.expander, b.settings.minify, b.settings.isOptimized, b.settings.output⟩

/-- Runs a pass, unless one is running already. -/
def guarded {α : Type} (pass : Action σ α) : Action σ α := fun s =>
  if s.phase = .building then (.error .busy, s)
  else
    let (result, s) := pass { s with phase := .building }
    (result, { s with phase := .idle })

/-- The stylesheets of all pages, each once, in order. -/
def styles (b : Builder σ) : List Stylesheet :=
  (b.settings.pages.flatMap (·.styles)).foldl
    (fun seen s => if s ∈ seen then seen else seen ++ [s]) []

/-- The key under which a page is recorded, if it is written. -/
def pageKey? (p : Page) : Option Record.Key :=
  if p.isWritten then p.source.map fun source => (source, Rendering.outputName p) else none

/-- The keys of the pages that link a stylesheet, themselves or through the shared page. -/
def pagesLinking (b : Builder σ) (style : Stylesheet) : List Record.Key :=
  if b.settings.shared?.any (·.styles.contains style) then b.settings.pages.filterMap pageKey?
  else (b.settings.pages.filter (·.styles.contains style)).filterMap pageKey?

/-- Copies an asset directory. -/
def copyAssets (b : Builder σ) (r : Report) (a : AssetDirectory) : Action σ Report := do
  match ← Action.attempt (Assets.copy b.parts.store b.settings.output b.settings.isOptimized a) with
  | .error fault =>
    Action.say .error .passes ("Asset copy failed for " ++ a.key.display ++ ": " ++ fault.message)
    return r.addError (a.key.display ++ ": " ++ fault.message)
  | .ok copied =>
    return { r with
      errors := r.errors ++ copied.errors.map fun e => a.key.display ++ ": " ++ e
      assets := r.assets ++ [a.key]
      written := r.written ++ copied.written.map Path.toString }

/-- Builds a stylesheet and keeps its record. -/
def buildStyle (b : Builder σ) (r : Report) (style : Stylesheet) : Action σ Report := do
  match ← Action.attempt (Style.bundle b.parts b.settings.output b.settings.isOptimized style) with
  | .error fault =>
    Action.say .error .passes
      ("Stylesheet " ++ style.source.toString ++ " failed: " ++ fault.message)
    return r.addError (style.source.toString ++ ": " ++ fault.message)
  | .ok w =>
    modify fun s =>
      { s with records := s.records.keep ⟨style.source, .style, style.filename, w.dependencies⟩ }
    return { r with styles := r.styles ++ [w.filename], written :=
      r.written ++ [w.output.toString] }

/-- Builds a page. Its record is kept if its includes could be expanded; if not, the page shows why.
The answer tells also whether the page was written. -/
def buildPage (b : Builder σ) (r : Report) (page : Page) : Action σ (Report × Bool) := do
  let key := page.key.display
  match ← Action.attempt (Rendering.build b.renderer page b.settings.shared?) with
  | .error fault =>
    Action.say .error .passes ("Page " ++ key ++ " failed: " ++ fault.message)
    return (r.addError (key ++ ": " ++ fault.message), false)
  | .ok w =>
    let r := { r with warnings := r.warnings ++ w.warnings.map fun m => key ++ ": " ++ m }
    let r ←
      match w.bundle.error with
      | none => do
        modify fun s =>
          { s with records := s.records.keep ⟨w.source, .page, w.filename, w.bundle.dependencies⟩ }
        pure r
      | some error => pure (r.addError (key ++ ": " ++ error))
    return ({ r with pages := r.pages ++ [page.key], written :=
      r.written ++ [w.output.toString] }, true)

/-- Builds pages; answers the names of those that were written too. -/
def buildPages (b : Builder σ) (r : Report) : List Page → Action σ (Report × List String)
  | [] => return (r, [])
  | page :: rest => do
    let (r, isWritten) ← b.buildPage r page
    let (r, names) ← b.buildPages r rest
    return (r, if isWritten then Rendering.outputName page :: names else names)

/-- Builds stylesheets. If the site is cleaned, the directory of the first is removed before. -/
def buildStyles (b : Builder σ) (r : Report) (styles : List Stylesheet) : Action σ Report := do
  match styles with
  | [] => return r
  | first :: _ =>
    if b.settings.clean then
      let _ ← Style.clean b.parts.store b.settings.output first
    styles.foldlM b.buildStyle r

/-- Makes the sitemap and writes it, unless it lists nothing. -/
def makeSitemap (b : Builder σ) (o : SitemapOptions) (filenames : List String) :
    Action σ (Option Path) := do
  modify fun s => { s with log := s.log ++ Sitemap.warnings o }
  match ← liftM (Sitemap.make Sitemap.patternEngine o filenames (← get).today) with
  | none =>
    Action.say .info .passes "Sitemap skipped: no URLs"
    return none
  | some document => some <$> Output.write b.parts.store b.settings.output Sitemap.filename document

/-- Writes the sitemap. -/
def writeSitemap (b : Builder σ) (r : Report) (o : SitemapOptions) (filenames : List String) :
    Action σ Report := do
  match ← Action.attempt (b.makeSitemap o filenames) with
  | .error fault =>
    Action.say .error .passes ("Sitemap generation failed: " ++ fault.message)
    return r.addError ("sitemap: " ++ fault.message)
  | .ok none => return r
  | .ok (some output) =>
    return { r with sitemap := some output.toString, written := r.written ++ [output.toString] }

/-- A full pass, for a site in which nothing ends one early: all keys can be written, and the
directory that is cleaned can be looked up and removed (`Builder.CanFinish`). -/
def buildAll (b : Builder σ) : Action σ Report := guarded do
  let r := Report.start "full" b.settings.mode none
  let r ← b.settings.assetDirectories.foldlM b.copyAssets r
  let r ← b.buildStyles r b.styles
  let (r, filenames) ← b.buildPages r (b.settings.pages.filter Page.isWritten)
  let r ←
    match b.settings.sitemap with
    | some o => if b.settings.isOptimized then b.writeSitemap r o filenames else pure r
    | none => pure r
  Action.say .info .passes ("Full pass finished: " ++ toString r.pages.length ++ " page(s), " ++
    toString r.errors.length ++ " error(s)")
  return r

/-- Rebuilds the stylesheets of a record; answers the keys of the pages that link one whose name
changed. -/
def rebuildStyle (b : Builder σ) (record : Record) (r : Report) :
    Action σ (Report × List Record.Key) := do
  match b.styles.find? fun s => (s.source, s.filename) = record.key with
  | none => return (r, [])
  | some style =>
    let before := (← get).names.lookup style
    let r ← b.buildStyle r style
    let after := (← get).names.lookup style
    return (r, if after = before then [] else b.pagesLinking style)

/-- Rebuilds the stylesheets of some records; answers the keys of the pages that link one whose name
changed. -/
def rebuildStyles (b : Builder σ) (r : Report) : List Record → Action σ (Report × List Record.Key)
  | [] => return (r, [])
  | record :: rest => do
    let (r, keys) ← b.rebuildStyle record r
    let (r, more) ← b.rebuildStyles r rest
    return (r, keys ++ more)

/-- The pass for a file that changed, which is given by its absolute, normal path. -/
def rebuild (b : Builder σ) (changed : Path) : Action σ Report := guarded do
  let r := Report.start "incremental" b.settings.mode (some changed.toString)
  let owners := (← get).records.owners changed
  let own := (owners.filter (·.kind = .page)).map Record.key
  let (r, linking) ← b.rebuildStyles r (owners.filter (·.kind = .style))
  let pages := b.settings.pages.filter fun p => (pageKey? p).any fun k => k ∈ own ++ linking
  let (r, _) ← b.buildPages r pages
  if owners.isEmpty then
    Action.say .debug .passes ("No recorded page depends on " ++ changed.toString)
  return r

/-- The pass for files that changed, given by their absolute, normal paths: an incremental one for a
single file that some record names, a full one for all else. -/
def handle (b : Builder σ) (changed : List Path) : Action σ Report := do
  match changed with
  | [p] => if ((← get).records.owners p).isEmpty then b.buildAll else b.rebuild p
  | _ => b.buildAll

end Builder

/-- The files that records name, each once, in order. -/
def Records.watched (rs : Records) : List Path :=
  ((rs.flatMap (·.dependencies)).foldl (fun seen p => if p ∈ seen then seen else seen ++ [p])
    []).mergeSort
    fun p q => !q.isBefore p

end StaticSite
