import StaticSite.Proofs.Build.Failing
import StaticSite.Proofs.Build.History

/-!
# Requests while a pass is running

A minifier may ask for further passes while it works on a page (`Builder.restless`), whatever it
asks for and of whichever builder, be it the one that it works for (`restless_restless`). Each such
request is refused and changes nothing, and the pass that is running ends as if none had been made
(`requests_refused`).

That follows from a relation between the two passes. Their sessions are the same but for what the
minifier remembers (`Session.Beside`), which no other part looks at. Every step of a pass keeps the
relation, so that the two go side by side to the end (`Builder.parallel_pass`).
-/

namespace StaticSite

variable {σ α β : Type}

/-- Two sessions in a phase are the same but for what the parts supplied from outside remember,
which `M` relates. -/
structure Session.Beside (phase : Phase) (M : σ → σ → Prop) (s s' : Session σ) : Prop where
  /-- The phase. -/
  phase : s.phase = phase
  /-- What is remembered is related. -/
  memories : M s.memory s'.memory
  /-- All else is the same. -/
  same : s' = { s with memory := s'.memory }

namespace Action

open StaticSite.Session (Beside)

variable {phase : Phase} {M : σ → σ → Prop}

/-- An action that carries whatever is remembered along is alike in sessions that differ in it. -/
theorem alike_of_carries {a : Action σ α} (hphase : ∀ s, (a s).2.phase = s.phase)
    (hmemory : ∀ s m, a { s with memory := m } = ((a s).1, { (a s).2 with memory := m })) :
    a.Alike (Beside phase M) := by
  intro s s' h
  have hsame : a s' = ((a s).1, { (a s).2 with memory := s'.memory }) := by
    rw [h.same]
    exact hmemory s s'.memory
  have hkept : (a s).2.memory = s.memory := congrArg (fun x => x.2.memory) (hmemory s s.memory)
  rw [hsame]
  exact ⟨rfl, (hphase s).trans h.phase, by rw [hkept]; exact h.memories, rfl⟩

/-- What is remembered makes no difference to what is read off a session otherwise. -/
theorem alike_observe {f : Session σ → Except Fault α}
    (hf : ∀ s m, f { s with memory := m } = f s) : (observe f).Alike (Beside phase M) :=
  alike_of_carries (fun _ => rfl) fun s m => by rw [observe_apply, hf]; rfl

/-- A change that neither looks at what the parts remember nor alters the phase is made alike. -/
theorem alike_modify {f : Session σ → Session σ} (hphase : ∀ s, (f s).phase = s.phase)
    (hf : ∀ s m, f { s with memory := m } = { f s with memory := m }) :
    (modify f : Action σ PUnit).Alike (Beside phase M) :=
  alike_of_carries hphase fun s m => by rw [modify_apply, hf]; rfl

/-- Steps that look at a session, but not at what is remembered, run in parallel if they do in every
session. -/
theorem parallel_get_bind {f f' : Session σ → Action σ α}
    (hf : ∀ s m, f { s with memory := m } = f s) (h : ∀ s, Parallel (Beside phase M) (f s) (f' s)) :
    Parallel (Beside phase M) (get >>= f) (get >>= f') := by
  intro s s' hs
  have hs' : f s' = f s := by
    rw [hs.same]
    exact hf s s'.memory
  rw [bind_apply_ok (get_apply s), bind_apply_ok (get_apply s'), ← hs']
  exact h s' s s' hs

/-- What follows a look at the session goes alike if it does not depend on what the parts remember.
-/
theorem alike_get_bind {f : Session σ → Action σ α} (hf : ∀ s m, f { s with memory := m } = f s)
    (h : ∀ s, (f s).Alike (Beside phase M)) : (get >>= f : Action σ α).Alike (Beside phase M) :=
  parallel_get_bind hf fun s => (h s).parallel

/-- Logging goes alike. -/
theorem alike_say (level : Log.Level) (speaker : Log.Speaker) (message : String) :
    (say level speaker message : Action σ Unit).Alike (Beside phase M) :=
  alike_modify (fun _ => rfl) fun _ _ => rfl

/-! ## Files -/

/-- Making directories goes alike. -/
theorem alike_makeDirectories (p : Path) :
    (makeDirectories p : Action σ Unit).Alike (Beside phase M) := by
  refine alike_of_carries (fun s => (isFiling_makeDirectories p s).phase) fun s m => ?_
  unfold makeDirectories
  simp only
  rcases s.tree.makeDirectories s.place.cwd p with ⟨_ | _, t⟩ <;> rfl

/-- Putting a file at a location goes alike. -/
theorem alike_putFile (l : Location) (bytes : ByteArray) :
    (putFile l bytes : Action σ Unit).Alike (Beside phase M) :=
  alike_modify (fun _ => rfl) fun _ _ => rfl

/-- Writing a text goes alike. -/
theorem alike_writeText (p : Path) (text : String) :
    (writeText p text : Action σ Unit).Alike (Beside phase M) :=
  (alike_makeDirectories _).bind fun _ => (alike_observe fun _ _ => rfl).bind fun _ =>
    alike_putFile _ _

/-- Making sure of a directory goes alike. -/
theorem alike_ensureDirectory (p : Path) (create : Bool) :
    (ensureDirectory p create : Action σ Unit).Alike (Beside phase M) := by
  refine (alike_observe fun _ _ => rfl).bind fun e? => ?_
  split
  · exact .pure _
  · exact .throw _
  · split
    · exact alike_makeDirectories p
    · exact .throw _

/-- Removing what stands at a path goes alike. -/
theorem alike_removeTree (p : Path) : (removeTree p : Action σ Bool).Alike (Beside phase M) := by
  refine alike_get_bind (fun _ _ => rfl) fun s => ?_
  split
  · split
    · exact Alike.bind (alike_modify (fun _ => rfl) fun _ _ => rfl) fun _ => .pure _
    · exact Alike.bind (alike_modify (fun _ => rfl) fun _ _ => rfl) fun _ => .pure _
  · exact .pure _

/-- Copying a file goes alike. -/
theorem alike_copyFile (source target : Path) :
    (copyFile source target : Action σ Unit).Alike (Beside phase M) := by
  have hrest : (do
      let bytes ← observe fun s => s.readBytes source
      let l ← observe fun s => fileLocation s target
      putFile l bytes : Action σ Unit).Alike (Beside phase M) :=
    (alike_observe fun _ _ => rfl).bind fun _ => (alike_observe fun _ _ => rfl).bind fun _ =>
      alike_putFile _ _
  refine (alike_makeDirectories _).bind fun _ => alike_get_bind (fun _ _ => rfl) fun s => ?_
  split
  · split
    · split
      · exact (Alike.throw _).bind fun _ => hrest
      · exact hrest
    · exact hrest
  · exact hrest

end Action

open StaticSite.Action (alike_get_bind alike_modify alike_observe alike_say)

open Session (Beside)

variable {phase : Phase} {M : σ → σ → Prop}

/-- Removing a directory of the file tree goes alike. -/
theorem FileStore.alike_removeDirectory (p : Path) :
    ((onTree : FileStore σ).removeDirectory p).Alike (Beside phase M) := by
  refine (Action.alike_removeTree p).bind fun isRemoved => ?_
  cases isRemoved with
  | true => exact .pure _
  | false => exact alike_say _ _ _

/-- The store of the file tree looks at nothing that is remembered. -/
theorem FileStore.parallel_onTree :
    FileStore.Parallel (Beside phase M) (onTree : FileStore σ) onTree where
  place s s' h := by rw [h.same]
  readText p s s' h := by rw [h.same]; rfl
  isDirectory p s s' h := by rw [h.same]; rfl
  names p s s' h := by rw [h.same]; rfl
  writeText p text := (Action.alike_writeText p text).parallel
  ensureDirectory p := (Action.alike_ensureDirectory p true).parallel
  copyFile source target := (Action.alike_copyFile source target).parallel

/-- Writing an output goes alike. -/
theorem Output.alike_write (directory : Path) (filename text : String) :
    (write .onTree directory filename text : Action σ Path).Alike (Beside phase M) :=
  (alike_observe fun _ _ => rfl).bind fun _ => (Action.alike_ensureDirectory _ true).bind fun _ =>
    (Action.alike_writeText _ _).bind fun _ => (alike_say _ _ _).bind fun _ => .pure _

namespace Assets

/-- Copying an asset directory goes alike. -/
theorem alike_copy (directory : Path) (optimized : Bool) (a : AssetDirectory) :
    (copy .onTree directory optimized a : Action σ Copied).Alike (Beside phase M) :=
  (alike_observe fun _ _ => rfl).bind fun _ =>
    Action.Alike.bind (parallel_copyTree FileStore.parallel_onTree alike_say _ _ _ _) fun _ =>
      (alike_say _ _ _).bind fun _ => .pure _

end Assets

/-! ## Stylesheets, pages and chunks -/

namespace Style

/-- Compiling a stylesheet goes alike. -/
theorem alike_compile (depthLimit : Int) (source : Path) (optimized : Bool) :
    (compile .onTree depthLimit source optimized : Action σ CompiledStyle).Alike
      (Beside phase M) := by
  have hread : ∀ (s : Session σ) (m : σ), FileStore.onTree.readText { s with memory := m } =
      FileStore.onTree.readText s :=
    fun _ _ => rfl
  refine (Action.Alike.liftM _).bind fun x =>
    alike_get_bind (fun s m => by simp only [hread]) fun s => ?_
  refine Action.Alike.bind (alike_modify (fun _ => rfl) fun _ _ => rfl) fun _ => ?_
  split
  · exact .throw _
  · exact .pure _

/-- Cleaning the directory of a stylesheet goes alike. -/
theorem alike_clean (directory : Path) (style : Stylesheet) :
    (clean .onTree directory style : Action σ Path).Alike (Beside phase M) :=
  alike_get_bind (fun _ _ => rfl) fun _ => (FileStore.alike_removeDirectory _).bind fun _ =>
    (alike_say _ _ _).bind fun _ => .pure _

end Style

namespace Chunk

/-- Loading a manifest goes alike. -/
theorem alike_loadManifest (p : Path) :
    (loadManifest p : Action σ Mapping).Alike (Beside phase M) := by
  refine alike_get_bind (fun _ _ => rfl) fun s => ?_
  split
  · exact (alike_say _ _ _).bind fun _ => .pure _
  · exact .throw _
  · exact .throw _
  · split
    · exact .pure _
    · exact (Action.Alike.liftM _).bind fun _ =>
        Action.Alike.bind (alike_modify (fun _ => rfl) fun _ _ => rfl) fun _ => .pure _

/-- Looking up a chunk goes alike. -/
theorem alike_lookupFor (settings : Settings) (name : String) :
    (lookupFor settings name : Action σ (Option String)).Alike (Beside phase M) := by
  unfold lookupFor
  split
  · refine (alike_loadManifest _).bind fun chunks => ?_
    split <;> exact .pure _
  · exact .pure _

end Chunk

namespace Builder

/-- The builder with the parts that it uses by default, but for the minifier. -/
def minifying (b : Builder σ) (minify : List Char → Mapping → Action σ (List Char)) : Builder σ :=
  { b with parts := { Collaborators.standard b.settings with minify } }

variable {b : Builder σ} {minify minify' : List Char → Mapping → Action σ (List Char)}

/-- Work that does not minify pages goes alike. -/
theorem alike_copyAssets (r : Report) (a : AssetDirectory) :
    ((b.minifying minify).copyAssets r a).Alike (Beside phase M) := by
  refine (Assets.alike_copy _ _ _).attempt.bind fun x => ?_
  split
  · exact (alike_say _ _ _).bind fun _ => .pure _
  · exact .pure _

/-- Building a stylesheet goes alike, as it minifies no page. -/
theorem alike_buildStyle (r : Report) (style : Stylesheet) :
    ((b.minifying minify).buildStyle r style).Alike (Beside phase M) := by
  have hbundle :
    (Style.bundle (b.minifying minify).parts b.settings.output b.settings.isOptimized style).Alike
      (Beside phase M) := by
    have hrest : ∀ compiled : CompiledStyle, ∀ css : List Char, (do
        let text := String.ofList css
        let filename :=
          if Style.isHashed style.filename then Style.outputName style.filename text
            else style.filename
        if Style.isHashed style.filename then
          modify fun s => { s with names := s.names.set style filename }
        let output ← Output.write .onTree b.settings.output filename text
        Action.say .info .styles
          ("Stylesheet " ++ style.source.toString ++ " -> " ++ output.toString)
        let place := (← get).place
        return ⟨style.source, filename, output,
          compiled.loaded.map fun p => Path.absolute place p.toString none⟩ :
        Action σ Style.Written).Alike (Beside phase M) := by
      intro compiled css
      have hwrite : ∀ filename text, (do
          let output ← Output.write .onTree b.settings.output filename text
          Action.say .info .styles
            ("Stylesheet " ++ style.source.toString ++ " -> " ++ output.toString)
          let place := (← get).place
          return ⟨style.source, filename, output,
            compiled.loaded.map fun p => Path.absolute place p.toString none⟩ :
          Action σ Style.Written).Alike (Beside phase M) := fun filename text =>
        (Output.alike_write _ _ _).bind fun _ => (alike_say _ _ _).bind fun _ =>
          alike_get_bind (fun _ _ => rfl) fun _ => .pure _
      simp only
      split
      · exact Action.Alike.bind (alike_modify (fun _ => rfl) fun _ _ => rfl) fun _ => hwrite _ _
      · exact hwrite _ _
    have hcompile : ((b.minifying minify).parts.compile style.source b.settings.isOptimized).Alike
        (Beside phase M) :=
      Style.alike_compile b.settings.includes.depthLimit style.source b.settings.isOptimized
    refine hcompile.bind fun compiled => ?_
    simp only
    split
    · exact Action.Alike.bind (.pure _) fun css => hrest compiled css
    · exact hrest compiled _
  refine hbundle.attempt.bind fun x => ?_
  split
  · exact (alike_say _ _ _).bind fun _ => .pure _
  · exact Action.Alike.bind (alike_modify (fun _ => rfl) fun _ _ => rfl) fun _ => .pure _

/-- Building stylesheets goes alike, as it minifies no page. -/
theorem alike_buildStyles (r : Report) (styles : List Stylesheet) :
    ((b.minifying minify).buildStyles r styles).Alike (Beside phase M) := by
  unfold buildStyles
  split
  · exact .pure _
  · split
    · exact (Style.alike_clean _ _).bind fun _ => .foldlM alike_buildStyle _ _
    · exact .foldlM alike_buildStyle _ _

/-- Writing the sitemap goes alike, as it minifies no page. -/
theorem alike_writeSitemap (r : Report) (o : SitemapOptions) (filenames : List String) :
    ((b.minifying minify).writeSitemap r o filenames).Alike (Beside phase M) := by
  have hmake : ((b.minifying minify).makeSitemap o filenames).Alike (Beside phase M) := by
    refine Action.Alike.bind (alike_modify (fun _ => rfl) fun _ _ => rfl) fun _ =>
      alike_get_bind (fun _ _ => rfl) fun s => ?_
    refine (Action.Alike.liftM _).bind fun document? => ?_
    split
    · exact (alike_say _ _ _).bind fun _ => .pure _
    · exact (Output.alike_write _ _ _).map _
  refine hmake.attempt.bind fun x => ?_
  split
  · exact (alike_say _ _ _).bind fun _ => .pure _
  · exact .pure _
  · exact .pure _

/-- Stylesheets are rebuilt in parallel, whatever minifies the pages. -/
theorem parallel_rebuildStyles (r : Report) (records : List Record) :
    Action.Parallel (Beside phase M) ((b.minifying minify).rebuildStyles r records)
      ((b.minifying minify').rebuildStyles r records) := by
  induction records generalizing r with
  | nil => exact (Action.Alike.pure _).parallel
  | cons record rest ih =>
    have hfirst : ((b.minifying minify).rebuildStyle record r).Alike (Beside phase M) := by
      unfold rebuildStyle
      split
      · exact .pure _
      · exact alike_get_bind (fun _ _ => rfl) fun _ => (alike_buildStyle _ _).bind fun _ =>
          alike_get_bind (fun _ _ => rfl) fun _ => .pure _
    exact hfirst.parallel.bind fun _ => (ih _).bind fun _ => (Action.Alike.pure _).parallel

section Parallel

open StaticSite.Action (Parallel parallel_get_bind)

variable (hminify : ∀ text options, Parallel (Beside .building M) (minify text options)
      (minify' text options))

include hminify

/-- Pages are rendered in parallel if they are minified so. -/
theorem parallel_render (page : Page) (shared : Option Page) :
    Parallel (Beside .building M) (Rendering.render (b.minifying minify).renderer page shared)
      (Rendering.render (b.minifying minify').renderer page shared) := by
  cases hsource : page.source with
  | none =>
    unfold Rendering.render
    rw [hsource]
    exact (Action.Alike.throw _).parallel
  | some source =>
    rw [Rendering.render_eq_bind shared hsource, Rendering.render_eq_bind shared hsource]
    have hexpand : (Rendering.expandPage (b.minifying minify).renderer source).Alike
        (Beside .building M) := by
      refine Action.alike_of_carries (fun s => ?_) fun s m => ?_
      · rw [Rendering.expandPage_apply]
      · rw [Rendering.expandPage_apply, Rendering.expandPage_apply]
        rfl
    have hlog : ∀ (s s' : Session σ) lines, Beside .building M s s' →
        Beside .building M { s with log := s.log ++ lines } { s' with log := s'.log ++ lines } :=
      fun s s' lines h => ⟨h.phase, h.memories, by rw [h.same]⟩
    have hscripts : ∀ bundle text,
      (Rendering.withScripts (b.minifying minify).renderer page shared bundle text).Alike
        (Beside .building M) :=
      Rendering.withScripts_alike hlog (fun chunk _ => Chunk.alike_lookupFor _ _) fun chunk _ =>
        Chunk.alike_lookupFor _ _
    -- Only here do the two builders differ.
    have hminified : ∀ text,
      Parallel (Beside .building M) (Rendering.minified (b.minifying minify).renderer text)
        (Rendering.minified (b.minifying minify').renderer text) := by
      intro text
      show Parallel _ (if b.settings.isOptimized then minify text _ else pure text)
        (if b.settings.isOptimized then minify' text _ else pure text)
      by_cases h : b.settings.isOptimized = true
      · rw [if_pos h, if_pos h]
        exact hminify _ _
      · rw [if_neg h, if_neg h]
        exact (Action.Alike.pure _).parallel
    exact hexpand.parallel.bind fun bundle => (hminified _).bind fun text =>
      parallel_get_bind (fun _ _ => rfl) fun s => (hscripts _ _).parallel

/-- A page is built in parallel by minifiers that run in parallel. -/
theorem parallel_buildPage (r : Report) (page : Page) :
    Parallel (Beside .building M) ((b.minifying minify).buildPage r page)
      ((b.minifying minify').buildPage r page) := by
  have hbuild : Parallel (Beside .building M)
      (Rendering.build (b.minifying minify).renderer page b.settings.shared?)
      (Rendering.build (b.minifying minify').renderer page b.settings.shared?) := by
    refine (parallel_render hminify page _).bind fun rendered => Action.Alike.parallel ?_
    refine (Output.alike_write _ _ _).bind fun output => (alike_say _ _ _).bind fun _ => ?_
    split
    · exact .throw _
    · exact .pure _
  refine hbuild.attempt.bind fun x => Action.Alike.parallel ?_
  split
  · exact (alike_say _ _ _).bind fun _ => .pure _
  · split
    · exact Action.Alike.bind (alike_modify (fun _ => rfl) fun _ _ => rfl) fun _ => .pure _
    · exact .pure _

/-- Pages are built in parallel by minifiers that run in parallel. -/
theorem parallel_buildPages (r : Report) (pages : List Page) :
    Parallel (Beside .building M) ((b.minifying minify).buildPages r pages)
      ((b.minifying minify').buildPages r pages) := by
  induction pages generalizing r with
  | nil => exact (Action.Alike.pure _).parallel
  | cons page rest ih =>
    exact (parallel_buildPage hminify r page).bind fun _ => (ih _).bind fun _ =>
      (Action.Alike.pure _).parallel

omit hminify in
/-- What a pass does from an idle session: the session is idle again when it ends, whichever way it
does. -/
theorem guarded_of_idle (a : Action σ α) {s : Session σ} (hidle : s.phase = .idle) :
    guarded a s =
      ((a { s with phase := .building }).1,
        { (a { s with phase := .building }).2 with phase := .idle }) :=
  guarded_apply hidle _ rfl rfl

omit hminify in
/-- Passes that run in parallel are guarded in parallel. -/
theorem parallel_guarded {a a' : Action σ α} (h : Parallel (Beside .building M) a a') :
    Parallel (Beside .idle M) (guarded a) (guarded a') := by
  intro s s' hs
  have hidle : s'.phase = .idle := by
    rw [hs.same]
    exact hs.phase
  obtain ⟨hanswer, hbeside⟩ := h { s with phase := .building } { s' with phase := .building }
    ⟨rfl, hs.memories, by rw [hs.same]⟩
  rw [guarded_of_idle a hs.phase, guarded_of_idle a' hidle]
  exact ⟨hanswer, rfl, hbeside.memories, by rw [hbeside.same]⟩

/-- Passes run in parallel if their pages are minified so. -/
theorem parallel_pass (request : Request) :
    Parallel (Beside .idle M) (request.pass (b.minifying minify))
      (request.pass (b.minifying minify')) := by
  have hall : Parallel (Beside .idle M) (b.minifying minify).buildAll
      (b.minifying minify').buildAll := by
    refine parallel_guarded ?_
    refine Action.Parallel.bind (Action.Alike.foldlM alike_copyAssets _ _).parallel fun r => ?_
    refine Action.Parallel.bind (alike_buildStyles r _).parallel fun r => ?_
    refine (parallel_buildPages hminify r _).bind fun (r, filenames) => Action.Alike.parallel ?_
    have hend : ∀ r : Report, (do
        Action.say .info .passes
          ("Full pass finished: " ++ toString r.pages.length ++ " page(s), " ++
          toString r.errors.length ++ " error(s)")
        return r : Action σ Report).Alike (Beside .building M) :=
          fun r => (alike_say _ _ _).bind fun _ => .pure _
    dsimp only
    split
    · split
      · exact (alike_writeSitemap _ _ _).bind hend
      · exact hend _
    · exact hend _
  have hrebuild : ∀ changed, Parallel (Beside .idle M) ((b.minifying minify).rebuild changed)
      ((b.minifying minify').rebuild changed) := by
    intro changed
    refine parallel_guarded (parallel_get_bind (fun _ _ => rfl) fun s => ?_)
    refine (parallel_rebuildStyles _ _).bind fun (r, linking) => ?_
    refine Action.Parallel.bind (parallel_buildPages hminify _ _) fun (r, filenames) =>
      Action.Alike.parallel ?_
    dsimp only
    split
    · exact (alike_say _ _ _).bind fun _ => .pure _
    · exact .pure _
  cases request with
  | all => exact hall
  | changed f => exact hrebuild f
  | changes fs =>
    simp only [Request.pass, handle]
    split
    · refine parallel_get_bind (fun _ _ => rfl) fun s => ?_
      split
      · exact hall
      · exact hrebuild _
    · exact hall

end Parallel

end Builder

/-! ## Requests of a minifier -/

/-- What a request could change of what a builder knows and makes. -/
structure Session.Snapshot where
  /-- What the session is doing. -/
  phase : Phase
  /-- The records. -/
  records : Records
  /-- The names of stylesheets. -/
  names : OutputNames
  /-- The file tree. -/
  tree : Tree

/-- A session as it is now. -/
def Session.snapshot (s : Session σ) : Snapshot := ⟨s.phase, s.records, s.names, s.tree⟩

namespace Builder

/-- A request that was made of a builder, with its answer and the session before and after it. -/
structure Trigger where
  /-- The request. -/
  request : Request
  /-- The session before. -/
  before : Session.Snapshot
  /-- The report, or what was wrong. -/
  answer : Except Fault Report
  /-- The session afterwards. -/
  after : Session.Snapshot

/-- A request was refused, since a pass was running, and changed nothing. -/
structure Trigger.IsRefused (t : Trigger) : Prop where
  /-- A pass was running. -/
  building : t.before.phase = .building
  /-- The request failed with the fault for that. -/
  answer : ∃ fault, t.answer = .error fault ∧ fault.code? = some "PipelineError" ∧
    fault.message = "A build pass is already running"
  /-- Nothing changed. -/
  after : t.after = t.before

/-- A page that a minifier was asked to work on, with the requests that it made meanwhile. -/
structure Visit where
  /-- The page. -/
  page : List Char
  /-- The requests, with what came of them. -/
  triggers : List Trigger

/-- Makes a request of a builder, and answers what came of it instead of failing. -/
def trigger (b : Builder σ) (request : Request) : Action σ Trigger := fun s =>
  let (answer, s') := (request.pass b).perform s
  (.ok ⟨request, s.snapshot, answer, s'.snapshot⟩, s')

/-- The builder with a minifier that leaves pages as they are. -/
def calm (b : Builder σ) : Builder σ := b.minifying fun page _ => return page

/-- The builder with a minifier that leaves pages as they are, after it made requests of some
builder, whichever it makes for a session, a page and options. It remembers what came of them. -/
def restless (b target : Builder (List Visit))
    (requests : Session (List Visit) → List Char → Mapping → List Request) : Builder (List Visit) :=
  b.minifying fun page options => do
    let triggers ← (requests (← get) page options).mapM target.trigger
    modify fun s => { s with memory := s.memory ++ [⟨page, triggers⟩] }
    return page

/-- A request is refused while a pass is running. -/
theorem pass_of_building (b : Builder σ) (request : Request) {s : Session σ}
    (h : s.phase = .building) :
    request.pass b s = (.error .busy, s) := by
  have hguarded : ∀ a : Action σ Report, guarded a s = (.error .busy, s) := by
    intro a
    unfold guarded
    rw [if_pos h]
  obtain ⟨hpass, -⟩ | ⟨-, f, hpass, -⟩ :=
    request.pass_cases b s <;> rw [Action.perform_apply, Action.perform_apply] at hpass
  · rw [hpass]
    exact hguarded _
  · rw [hpass]
    exact hguarded _

/-- The phase is idle after a pass from an idle session, however the pass ends and whatever its
parts do. -/
theorem phase_pass (b : Builder σ) (request : Request) {s : Session σ} (h : s.phase = .idle) :
    ((request.pass b).perform s).2.phase = .idle := by
  obtain ⟨hpass, -⟩ | ⟨-, f, hpass, -⟩ :=
    request.pass_cases b s <;> rw [hpass, Action.perform_apply]
  · unfold buildAll
    rw [guarded_of_idle _ h]
  · unfold rebuild
    rw [guarded_of_idle _ h]

/-- Requests that are made while a pass is running are all refused. -/
theorem mapM_trigger_of_building (b : Builder σ) (requests : List Request) {s : Session σ}
    (h : s.phase = .building) :
    requests.mapM b.trigger s =
      (.ok (requests.map fun request => ⟨request, s.snapshot, .error .busy, s.snapshot⟩), s) := by
  have htrigger : ∀ request, b.trigger request s =
      (.ok ⟨request, s.snapshot, .error .busy, s.snapshot⟩, s) := by
    intro request
    unfold trigger
    rw [Action.perform_apply, b.pass_of_building request h]
  induction requests with
  | nil => rfl
  | cons request rest ih =>
    rw [List.mapM_cons, bind_apply_ok (htrigger request), bind_apply_ok ih]
    rfl

/-- What a restless minifier does while a pass is running: it remembers that it was refused. -/
theorem restless_apply (b target : Builder (List Visit))
    (requests : Session (List Visit) → List Char → Mapping → List Request) (page : List Char)
    (options : Mapping) {s : Session (List Visit)} (h : s.phase = .building) :
    (b.restless target requests).parts.minify page options s =
      (.ok page,
        { s with memory :=
          s.memory ++
              [⟨page, (requests s page options).map
                fun request => ⟨request, s.snapshot, .error .busy, s.snapshot⟩⟩] }) := by
  unfold restless minifying
  simp only
  rw [bind_apply_ok (get_apply s), bind_apply_ok (target.mapM_trigger_of_building _ h)]
  rfl

/-- Restless minifiers do the same while a pass is running, whichever builders they make their
requests of. -/
theorem pass_restless_congr (b target target' : Builder (List Visit))
    (requests : Session (List Visit) → List Char → Mapping → List Request) (request : Request) :
    request.pass (b.restless target' requests) = request.pass (b.restless target requests) := by
  funext s
  cases hphase : s.phase with
  | building => rw [pass_of_building _ _ hphase, pass_of_building _ _ hphase]
  | idle =>
    have hparallel : Action.Parallel (Beside .idle Eq) (request.pass (b.restless target requests))
        (request.pass (b.restless target' requests)) := by
      refine parallel_pass (fun page options s s' hs => ?_) request
      have hsame : s' = s := by rw [hs.same, ← hs.memories]
      subst hsame
      have htarget := b.restless_apply target requests page options hs.phase
      have htarget' := b.restless_apply target' requests page options hs.phase
      refine ⟨(congrArg Prod.fst htarget').trans (congrArg Prod.fst htarget).symm, ?_⟩
      show Beside .building Eq ((b.restless target requests).parts.minify page options s').2
        ((b.restless target' requests).parts.minify page options s').2
      rw [htarget, htarget']
      exact ⟨hs.phase, rfl, rfl⟩
    obtain ⟨hanswer, hbeside⟩ := hparallel s s ⟨hphase, rfl, rfl⟩
    have hsession : (request.pass (b.restless target' requests) s).2 =
        (request.pass (b.restless target requests) s).2 := by
      rw [hbeside.same, ← hbeside.memories]
    exact Prod.ext hanswer hsession

/-- All that counts of a builder of which requests are made is what comes of them. -/
theorem restless_congr (b : Builder (List Visit)) {target target' : Builder (List Visit)}
    (requests : Session (List Visit) → List Char → Mapping → List Request)
    (h : target'.trigger = target.trigger) :
    b.restless target' requests = b.restless target requests := by
  unfold restless
  rw [h]

/-- A builder that is restless towards a restless one is restless towards itself. -/
theorem restless_restless (b target : Builder (List Visit))
    (requests : Session (List Visit) → List Char → Mapping → List Request) :
    b.restless (b.restless (b.restless target requests) requests) requests =
      b.restless (b.restless target requests) requests := by
  refine b.restless_congr requests ?_
  funext request s
  unfold trigger
  rw [pass_restless_congr b target]

/-- Whatever requests the minifier makes of whatever builder while a pass is running, each of them
is refused and changes nothing. The pass ends with the report and the session, but for what the
minifier remembers, with which it ends if the minifier makes no requests. After a pass of any
builder the phase is idle again. -/
theorem requests_refused (b target : Builder (List Visit))
    (requests : Session (List Visit) → List Char → Mapping → List Request) (request : Request)
    {s : Session (List Visit)} (hidle : s.phase = .idle) :
    ∃ answer t visits, (request.pass b.calm).perform s = (answer, t) ∧
      (request.pass (b.restless target requests)).perform s =
        (answer, { t with memory := s.memory ++ visits }) ∧
      (∀ visit ∈ visits, ∀ trigger ∈ visit.triggers, trigger.IsRefused) ∧
      ∀ c : Builder (List Visit), ((request.pass c).perform s).2.phase = .idle := by
  -- What the restless minifier remembers grows by refusals only.
  have hminify : ∀ page options,
    Action.Parallel (Beside .building fun _ memory => ∃ visits, memory = s.memory ++ visits ∧
      ∀ visit ∈ visits, ∀ trigger ∈ visit.triggers, trigger.IsRefused)
        (b.calm.parts.minify page options)
      ((b.restless target requests).parts.minify page options) := by
    rintro page options t t' ⟨hphase, ⟨visits, hmemory, hrefused⟩, hsame⟩
    have hphase' : t'.phase = .building := by
      rw [hsame]
      exact hphase
    rw [b.restless_apply target requests page options hphase']
    refine ⟨rfl, hphase, ⟨visits ++ [_], by rw [hmemory, List.append_assoc], ?_⟩,
      by rw [hsame]; rfl⟩
    intro visit hvisit
    rcases List.mem_append.1 hvisit with hvisit | hvisit
    · exact hrefused visit hvisit
    · rw [List.mem_singleton.1 hvisit]
      intro trigger htrigger
      obtain ⟨request, -, rfl⟩ := List.mem_map.1 htrigger
      exact ⟨hphase', ⟨.busy, rfl, rfl, rfl⟩, rfl⟩
  obtain ⟨hanswer, -, ⟨visits, hmemory, hrefused⟩, hsame⟩ := parallel_pass hminify request s s
    ⟨hidle, ⟨[], (List.append_nil _).symm, fun _ h => (by cases h)⟩, rfl⟩
  refine ⟨_, _, visits, rfl, Prod.ext hanswer ?_, hrefused, fun c => c.phase_pass request hidle⟩
  rw [← hmemory]
  exact hsame

namespace Sample

/-- A site of two pages that is built for visitors. -/
def published : Builder (List Visit) :=
  let b := builder [page "a" "a.html" "a.html" [], page "b" "b.html" "b.html" []]
  let settings := { b.settings with mode := "production" }
  ⟨settings, .standard settings, b.expander⟩

/-- The site before anything is built. -/
def unpublished : Session (List Visit) :=
  let s := session [("a.html", "a"), ("b.html", "b")]
  .start s.tree s.place s.today []

/-- Requests of every kind. -/
def everyKind : Session (List Visit) → List Char → Mapping → List Request :=
  fun _ _ _ => [.all, .changed (path "a.html"), .changes [path "a.html"], .changes []]

/-- The site with a minifier that makes these requests of the site itself. -/
def eager : Builder (List Visit) :=
  published.restless (published.restless published everyKind) everyKind

end Sample

open Sample in
/-- Both pages of the site are minified, and the requests that are made then are refused. -/
theorem requests_refused_eager :
    eager = published.restless eager everyKind ∧ unpublished.phase = .idle ∧
      ∃ answer t visits, (Request.all.pass published.calm).perform unpublished = (answer, t) ∧
        (Request.all.pass eager).perform unpublished = (answer, { t with memory := visits }) ∧
        visits.map (fun visit => visit.triggers.length) = [4, 4] ∧
        ∀ visit ∈ visits, ∀ trigger ∈ visit.triggers, trigger.IsRefused := by
  have hself : eager = published.restless eager everyKind :=
    (published.restless_restless published everyKind).symm
  have hvisits : ((Request.all.pass eager).perform unpublished).2.memory.map
    (fun visit => visit.triggers.length) =
      [4, 4] := by
    decide +kernel
  obtain ⟨answer, t, visits, hcalm, hrestless, hrefused, -⟩ :=
    requests_refused published eager everyKind .all (s := unpublished) rfl
  rw [← hself] at hrestless
  rw [hrestless] at hvisits
  exact ⟨hself, rfl, answer, t, visits, hcalm, hrestless, hvisits, hrefused⟩

end Builder

end StaticSite
