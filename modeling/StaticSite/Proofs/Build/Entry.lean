import StaticSite.Proofs.Build.Work

/-!
# Building entries

An entry of a site is a stylesheet or a page. To build it is to draft it, which is all that can go
wrong before a file is touched, and to write the draft (`Entry.build`). `Entry.work_apply` says what
a pass makes of the way in which that ends: the report tells of it, and the record of the draft is
kept if the entry was written and its includes did not fail. Nothing is said of the parts that a
site is built with, but that they leave alone what the session knows of its builds
(`Collaborators.IsFiling`): any of their calls may fail.
-/

namespace StaticSite

variable {σ : Type}

/-- No part touches what the session knows of its builds, and removing a directory never fails. -/
structure Collaborators.IsFiling (c : Collaborators σ) : Prop where
  /-- The store does not. -/
  store : c.store.IsFiling
  /-- The compiler of stylesheets does not. -/
  compile : ∀ source optimized, (c.compile source optimized).IsFiling
  /-- What follows it does not. -/
  postProcess : ∀ css, (c.postProcess css).IsFiling
  /-- The minifier does not. -/
  minify : ∀ text options, (c.minify text options).IsFiling
  /-- The lookup of chunks does not. -/
  chunkFile : ∀ name, (c.chunkFile name).IsFiling

/-- Compiling a stylesheet leaves alone what is known of the builds. -/
theorem Style.isFiling_compile (store : FileStore σ) (depthLimit : Int) (source : Path)
    (optimized : Bool) : (compile store depthLimit source optimized).IsFiling := by
  intro s
  obtain ⟨x, hx⟩ := exists_importer depthLimit
  obtain ⟨log, h⟩ := compile_apply store hx source optimized s
  rw [h]
  exact ⟨rfl, rfl, rfl, rfl⟩

/-- The parts that a build uses by default leave alone what is known of the builds. -/
theorem Collaborators.isFiling_standard (settings : Settings) :
    (standard settings : Collaborators σ).IsFiling where
  store := FileStore.isFiling_onTree
  compile source optimized := by
    simp only [standard]
    exact Style.isFiling_compile .onTree settings.includes.depthLimit source optimized
  postProcess _ := .pure _
  minify _ _ := .pure _
  chunkFile name s := by
    obtain ⟨log, manifest, h⟩ := Chunk.lookupFor_isQuiet settings name s
    simp only [standard]
    rw [h]
    exact ⟨rfl, rfl, rfl, rfl⟩

/-- The parts of a standard builder leave alone what is known of the builds. -/
theorem Builder.IsStandard.isFiling {b : Builder σ} (hb : b.IsStandard) : b.parts.IsFiling := by
  rw [show b.parts = .standard b.settings from hb]
  exact Collaborators.isFiling_standard b.settings

/-- Finishing a stylesheet leaves alone what is known of the builds. -/
theorem Style.isFiling_finished {c : Collaborators σ} (hparts : c.IsFiling) (optimized : Bool)
    (css : List Char) : (finished c optimized css).IsFiling := by
  unfold finished
  split
  · exact hparts.postProcess css
  · exact .pure css

/-- Writing an output leaves alone what is known of the builds. -/
theorem Output.isFiling_write {store : FileStore σ} (hstore : store.IsFiling) (directory : Path)
    (filename text : String) : (write store directory filename text).IsFiling :=
  (Action.Within.observe _).bind fun _ => (hstore.ensureDirectory _).bind fun _ =>
    (hstore.writeText _ _).bind fun _ =>
      (Action.isFiling_say _ _ _).bind fun _ => .pure _

/-- Rendering a page leaves alone what is known of the builds. -/
theorem Rendering.isFiling_render {r : Renderer σ} (hparts : r.parts.IsFiling) (page : Page)
    (shared : Option Page) : (render r page shared).IsFiling :=
  render_within (fun _ _ => ⟨rfl, rfl, rfl, rfl⟩) hparts.minify hparts.chunkFile page shared

/-- A session has the place, the phase and the records of an earlier one, and its names but those of
some stylesheets. -/
structure Session.Renames (styles : Set Stylesheet) (s s' : Session σ) : Prop where
  /-- The place is the same. -/
  place : s'.place = s.place
  /-- What the session is doing is the same. -/
  phase : s'.phase = s.phase
  /-- The records are the same. -/
  records : s'.records = s.records
  /-- The name of every other stylesheet is the same. -/
  names : ∀ style, style ∉ styles → s'.names.lookup style = s.names.lookup style

instance (styles : Set Stylesheet) :
    Std.Refl (Session.Renames styles : Session σ → Session σ → Prop) where
  refl _ := ⟨rfl, rfl, rfl, fun _ _ => rfl⟩

instance (styles : Set Stylesheet) : IsTrans (Session σ) (Session.Renames styles) where
  trans _ _ _ h h' := ⟨h'.place.trans h.place, h'.phase.trans h.phase, h'.records.trans h.records,
    fun style hstyle => (h'.names style hstyle).trans (h.names style hstyle)⟩

/-- What is done to files renames no stylesheet. -/
theorem Action.IsFiling.renames {α : Type} {a : Action σ α} (h : a.IsFiling)
    (styles : Set Stylesheet) :
    a.Within (Session.Renames styles) :=
  fun s => ⟨(h s).place, (h s).phase, (h s).records, fun _ _ => by rw [(h s).names]⟩

namespace Builder

/-- What a site is made of: stylesheets and pages. -/
inductive Entry where
  /-- A stylesheet. -/
  | style (sheet : Stylesheet)
  /-- A page. -/
  | page (page : Page)

/-- What an entry is made into before it is written. -/
structure Draft where
  /-- The name of the file. -/
  filename : String
  /-- The text of the file. -/
  text : String
  /-- Why its includes could not be expanded, if the text says so. -/
  error : Option String
  /-- What was missing. -/
  warnings : List String
  /-- The record to keep of it. -/
  record : Record

/-- How building an entry ends. -/
inductive Ending where
  /-- It is not written. -/
  | failed (fault : Fault)
  /-- It is written, and its text says why its includes could not be expanded. -/
  | broken (error : String)
  /-- It is written, and its record is to be kept. -/
  | good (record : Record)

/-- The record that is to be kept of an entry that was built. -/
def Ending.record? : Ending → Option Record
  | good record => some record
  | failed _ | broken _ => none

namespace Entry

/-- The piece of work that builds an entry. -/
def work : Entry → Work
  | style sheet => .style sheet
  | page p => .page p

/-- What the errors of an entry begin with. -/
def label : Entry → String
  | style sheet => sheet.source.toString
  | page p => p.key.display

/-- Drafts an entry: a stylesheet is compiled and named, and a page is rendered. -/
def draft (b : Builder σ) : Entry → Action σ Draft
  | style sheet => do
    let compiled ← b.parts.compile sheet.source b.settings.isOptimized
    let css ← Style.finished b.parts b.settings.isOptimized compiled.css
    let text := String.ofList css
    modify fun s => { s with names := Style.named s.names sheet text }
    let place := (← get).place
    return {
      filename := Style.writtenName sheet text
      text
      error := none
      warnings := []
      record := ⟨sheet.source, .style, sheet.filename,
        compiled.loaded.map fun p => Path.absolute place p.toString none⟩ }
  | page p =>
    match p.source with
    | none => throw (.noSource p.key.display)
    | some source => do
      let rendered ← Rendering.render b.renderer p b.settings.shared?
      return {
        filename := Rendering.outputName p
        text := String.ofList rendered.text
        error := rendered.bundle.error
        warnings := rendered.warnings
        record := ⟨source, .page, Rendering.outputName p, rendered.bundle.dependencies⟩ }

/-- Drafts an entry and writes the draft. -/
def build (b : Builder σ) (e : Entry) : Action σ (Path × Draft) := do
  let d ← e.draft b
  let output ← Output.write b.parts.store b.settings.output d.filename d.text
  return (output, d)

/-- How building an entry ends in a session. -/
def ending (b : Builder σ) (e : Entry) (s : Session σ) : Ending :=
  match ((e.build b).perform s).1 with
  | .error fault => .failed fault
  | .ok (_, d) =>
    match d.error with
    | some error => .broken error
    | none => .good d.record

/-- A report that tells of an entry that was written. -/
def told (e : Entry) (r : Report) (output : Path) (d : Draft) : Report :=
  match e with
  | style _ =>
      { r with styles := r.styles ++ [d.filename], written := r.written ++ [output.toString] }
  | page p => { r with
    warnings := r.warnings ++ d.warnings.map fun m => e.label ++ ": " ++ m
    errors := r.errors ++ d.error.toList.map fun m => e.label ++ ": " ++ m
    pages := r.pages ++ [p.key]
    written := r.written ++ [output.toString] }

variable {b : Builder σ}

/-- Drafting a stylesheet names it, and changes nothing else that the session knows of its
builds. -/
theorem draft_renames (hparts : b.parts.IsFiling) (e : Entry) :
    (e.draft b).Within (Session.Renames e.work.styles) := by
  cases e with
  | style sheet =>
    refine ((hparts.compile _ _).renames _).bind fun compiled =>
      ((Style.isFiling_finished hparts _ _).renames _).bind fun css => ?_
    refine Action.Within.bind (fun s => ⟨rfl, rfl, rfl, fun other hother => ?_⟩) fun _ =>
      Action.Within.get.bind fun _ => .pure _
    exact Style.lookup_named_of_ne s.names (String.ofList css) hother
  | page p =>
    simp only [draft]
    cases p.source with
    | none => exact .throw _
    | some source =>
      exact ((Rendering.isFiling_render (r := b.renderer) hparts p _).renames _).bind
        fun _ => .pure _

/-- Building an entry gives new names to its own stylesheets alone. -/
theorem build_renames (hparts : b.parts.IsFiling) (e : Entry) :
    (e.build b).Within (Session.Renames e.work.styles) :=
  (draft_renames hparts e).bind fun _ =>
    ((Output.isFiling_write hparts.store _ _ _).renames _).bind fun _ => .pure _

/-- Building an entry ends with its draft once that is written, and with a fault where it cannot
be. -/
theorem build_apply (e : Entry) (s : Session σ) : e.build b s = match e.draft b s with
    | (.error fault, s₁) => (.error fault, s₁)
    | (.ok d, s₁) => match Output.write b.parts.store b.settings.output d.filename d.text s₁ with
      | (.error fault, s₂) => (.error fault, s₂)
      | (.ok output, s₂) => (.ok (output, d), s₂) := by
  unfold build
  rw [bind_apply]
  rcases e.draft b s with ⟨fault | d, s₁⟩
  · rfl
  · simp only
    rw [bind_apply]
    rcases Output.write b.parts.store b.settings.output d.filename
      d.text s₁ with ⟨fault | output, s₂⟩ <;> rfl

/-- The draft of a stylesheet has no error, and its record is that of the stylesheet. -/
theorem draft_style {sheet : Stylesheet} {s s' : Session σ} {d : Draft}
    (h : (style sheet).draft b s = (.ok d, s')) :
    d.error = none ∧
      ∃ dependencies, d.record = ⟨sheet.source, .style, sheet.filename, dependencies⟩ := by
  obtain ⟨compiled, s₁, -, h⟩ := bind_apply_eq_ok.1 h
  obtain ⟨css, s₂, -, h⟩ := bind_apply_eq_ok.1 h
  obtain ⟨-, s₃, -, h⟩ := bind_apply_eq_ok.1 h
  obtain ⟨s₄, s₅, -, h⟩ := bind_apply_eq_ok.1 h
  cases h
  exact ⟨rfl, _, rfl⟩

/-- A page that is drafted has a source and is rendered, and its draft holds what this gives. -/
theorem draft_page {p : Page} {s s' : Session σ} {d : Draft}
    (h : (page p).draft b s = (.ok d, s')) :
    ∃ source rendered, p.source = some source ∧
      (Rendering.render b.renderer p b.settings.shared? s).1 = .ok rendered ∧
      d = ⟨Rendering.outputName p, String.ofList rendered.text, rendered.bundle.error,
        rendered.warnings,
        ⟨source, .page, Rendering.outputName p, rendered.bundle.dependencies⟩⟩ := by
  simp only [draft] at h
  cases hsource : p.source with
  | none =>
    rw [hsource] at h
    cases h
  | some source =>
    rw [hsource] at h
    obtain ⟨rendered, s₁, hrender, h⟩ := bind_apply_eq_ok.1 h
    cases h
    exact ⟨source, rendered, rfl, by rw [hrender], rfl⟩

/-- The record of an entry is to be kept if it was drafted without an error and written, and is that
of the draft. -/
theorem record?_ending_eq_some_iff {e : Entry} {s : Session σ} {record : Record} :
    (e.ending b s).record? = some record ↔
      ∃ d s₁ output s₂, (e.draft b).perform s = (.ok d, s₁) ∧ d.error = none ∧
        (Output.write b.parts.store b.settings.output d.filename d.text).perform s₁ =
          (.ok output, s₂) ∧
        d.record = record := by
  simp only [ending, Action.perform_apply, build_apply]
  rcases e.draft b s with ⟨fault | d, s₁⟩
  · simp [Ending.record?]
  · simp only [Prod.mk.injEq, Except.ok.injEq]
    rcases hwrite : Output.write b.parts.store b.settings.output d.filename
      d.text s₁ with ⟨fault | output, s₂⟩
    · simp only [Ending.record?, reduceCtorEq, false_iff]
      rintro ⟨d', s₁', output, s₂', ⟨rfl, rfl⟩, -, hwrite', -⟩
      cases hwrite.symm.trans hwrite'
    · cases herror : d.error with
      | some error =>
        simp only [herror, Ending.record?, reduceCtorEq, false_iff]
        rintro ⟨d', s₁', output', s₂', ⟨rfl, -⟩, herror', -⟩
        cases herror.symm.trans herror'
      | none =>
        simp only [herror, Ending.record?, Option.some.injEq]
        constructor
        · rintro rfl
          exact ⟨d, s₁, output, s₂, ⟨rfl, rfl⟩, herror, hwrite, rfl⟩
        · rintro ⟨d', s₁', output', s₂', ⟨rfl, -⟩, -, -, rfl⟩
          rfl

/-- Bundling a stylesheet builds it. -/
theorem bundle_apply (hparts : b.parts.IsFiling) (sheet : Stylesheet) (s : Session σ) :
    ∃ log, Style.bundle b.parts b.settings.output b.settings.isOptimized sheet s =
      match (style sheet).build b s with
      | (.error fault, s₁) => (.error fault, s₁)
      | (.ok (output, d), s₁) =>
        (.ok ⟨sheet.source, d.filename, output, d.record.dependencies⟩, { s₁ with log }) := by
  rw [build_apply, Style.bundle_eq_bind]
  simp only [draft]
  -- Each step ends both with its fault, or leads both to the next.
  rcases hcompile : b.parts.compile sheet.source
    b.settings.isOptimized s with ⟨fault | compiled, s₁⟩
  · rw [bind_apply_error hcompile, bind_apply_error hcompile]
    exact ⟨s₁.log, rfl⟩
  rw [bind_apply_ok hcompile, bind_apply_ok hcompile]
  rcases hfinished : Style.finished b.parts b.settings.isOptimized
    compiled.css s₁ with ⟨fault | css, s₂⟩
  · rw [bind_apply_error hfinished, bind_apply_error hfinished]
    exact ⟨s₂.log, rfl⟩
  rw [bind_apply_ok hfinished, bind_apply_ok hfinished, bind_apply_ok (modify_apply _ s₂),
    bind_apply_ok (modify_apply _ s₂), bind_apply_ok (get_apply _)]
  simp only [pure_apply]
  have hbook :=
    Output.isFiling_write hparts.store b.settings.output
      (Style.writtenName sheet (String.ofList css))
      (String.ofList css) { s₂ with names := Style.named s₂.names sheet (String.ofList css) }
  rcases hwrite : Output.write b.parts.store b.settings.output
    (Style.writtenName sheet (String.ofList css))
    (String.ofList css) { s₂ with names := Style.named s₂.names sheet (String.ofList css) }
      with ⟨fault | output, s₃⟩
  · rw [bind_apply_error hwrite]
    exact ⟨s₃.log, rfl⟩
  · -- The place is still that in which the stylesheet was drafted.
    have hplace : s₃.place = s₂.place := by
      rw [hwrite] at hbook
      exact hbook.place
    rw [bind_apply_ok hwrite, bind_apply_ok (Action.say_apply _ _ _ s₃),
      bind_apply_ok (get_apply _)]
    simp only [pure_apply, hplace]
    exact ⟨_, rfl⟩

/-- Building a page writes what it is rendered to. -/
theorem renderingBuild_apply (p : Page) (s : Session σ) :
    (∃ fault s₁, Rendering.build b.renderer p b.settings.shared? s = (.error fault, s₁) ∧
      (page p).build b s = (.error fault, s₁)) ∨
    ∃ (source : Path) (rendered : Rendering.Rendered) (output : Path) (s₁ : Session σ)
      (log : List Log.Line),
      Rendering.build b.renderer p b.settings.shared? s =
        (.ok ⟨source, Rendering.outputName p, output, rendered.bundle, rendered.warnings⟩,
          { s₁ with log }) ∧
      (page p).build b s = (.ok (output, ⟨Rendering.outputName p, String.ofList rendered.text,
        rendered.bundle.error, rendered.warnings,
        ⟨source, .page, Rendering.outputName p, rendered.bundle.dependencies⟩⟩), s₁) := by
  rw [build_apply]
  cases hsource : p.source with
  | none =>
    -- A page without a source is refused before anything is done.
    refine .inl ⟨.noSource p.key.display, s, ?_, ?_⟩
    · unfold Rendering.build Rendering.render
      rw [hsource]
      rfl
    · simp only [draft, hsource]
      rfl
  | some source =>
    unfold Rendering.build
    simp only [draft, hsource]
    rcases hrender : Rendering.render b.renderer p b.settings.shared? s with ⟨fault | rendered, s₁⟩
    · rw [bind_apply_error hrender, bind_apply_error hrender]
      exact .inl ⟨_, _, rfl, rfl⟩
    rw [bind_apply_ok hrender, bind_apply_ok hrender]
    simp only [pure_apply]
    rcases hwrite : Output.write b.parts.store b.settings.output (Rendering.outputName p)
      (String.ofList rendered.text) s₁ with ⟨fault | output, s₂⟩
    · rw [bind_apply_error
        (show Output.write b.renderer.parts.store b.renderer.output _ _ s₁ = _ from hwrite)]
      exact .inl ⟨_, _, rfl, rfl⟩
    · rw [bind_apply_ok
        (show Output.write b.renderer.parts.store b.renderer.output _ _ s₁ = _ from hwrite)]
      exact .inr ⟨source, rendered, output, s₂, _, rfl, rfl⟩

/-- Building a page tells of it and keeps its record if its includes did not fail, or tells what
went wrong. The answer tells also whether the page was written. -/
theorem buildPage_apply (r : Report) (p : Page) (s : Session σ) :
    ∃ log, b.buildPage r p s = match (page p).build b s with
      | (.error fault, s₁) =>
        (.ok (r.addError ((page p).label ++ ": " ++ fault.message), false), { s₁ with log })
      | (.ok (output, d), s₁) => (.ok ((page p).told r output d, true), { s₁ with
          log
          records := match d.error with
            | some _ => s₁.records
            | none => s₁.records.keep d.record }) := by
  unfold buildPage
  rw [bind_apply_ok (Action.attempt_apply _ s)]
  obtain ⟨fault, s₁, hbuild, h⟩ | ⟨source, rendered, output, s₁, log, hbuild, h⟩ :=
    renderingBuild_apply (b := b) p s
  · rw [hbuild, h]
    exact ⟨_, rfl⟩
  · rw [hbuild, h]
    simp only
    cases rendered.bundle.error with
    | none =>
      refine ⟨log, ?_⟩
      simp only [told, Option.toList_none, List.map_nil, List.append_nil]
      rfl
    | some error => exact ⟨log, rfl⟩

/-- What a pass makes of an entry: the report tells of it or of what went wrong, and its record is
kept if it was written and its includes did not fail. -/
theorem work_apply (hparts : b.parts.IsFiling) (e : Entry) (r : Report) (s : Session σ) :
    ∃ log, b.work r e.work s = match e.build b s with
      | (.error fault, s₁) => (.ok (r.addError (e.label ++ ": " ++ fault.message)), { s₁ with log })
      | (.ok (output, d), s₁) => (.ok (e.told r output d), { s₁ with
          log
          records := match d.error with
            | some _ => s₁.records
            | none => s₁.records.keep d.record }) := by
  cases e with
  | style sheet =>
    obtain ⟨log, hbundle⟩ := bundle_apply hparts sheet s
    simp only [work, Builder.work, buildStyle]
    rw [bind_apply_ok (Action.attempt_apply _ s), hbundle]
    rcases hbuild : (style sheet).build b s with ⟨fault | ⟨output, d⟩, s₁⟩
    · exact ⟨_, rfl⟩
    · obtain ⟨d', s₂, hdraft, hwrite⟩ := bind_apply_eq_ok.1 hbuild
      obtain ⟨output', s₃, -, hwrite⟩ := bind_apply_eq_ok.1 hwrite
      cases hwrite
      obtain ⟨herror, dependencies, hrecord⟩ := draft_style hdraft
      simp only [herror, hrecord]
      exact ⟨log, rfl⟩
  | page p =>
    obtain ⟨log, hpage⟩ := buildPage_apply (b := b) r p s
    refine ⟨log, ?_⟩
    simp only [work, Builder.work, map_apply, hpage]
    rcases (page p).build b s with ⟨fault | ⟨output, d⟩, s₁⟩ <;> rfl

end Entry

namespace Work

/-- The entry that a piece of work builds, if it builds one. -/
def entry? : Work → Option Entry
  | .style sheet => some (.style sheet)
  | .page p => some (.page p)
  | .assets _ | .clean _ | .sitemap _ _ => none

/-- The record that a piece of work keeps in a session. -/
def kept (b : Builder σ) (w : Work) (s : Session σ) : Option Record :=
  w.entry?.bind fun e => (e.ending b s).record?

/-- What a session knows of its builds once a piece of work was done. -/
structure Follows (b : Builder σ) (w : Work) (s s' : Session σ) : Prop where
  /-- The place is the same. -/
  place : s'.place = s.place
  /-- What the session is doing is the same. -/
  phase : s'.phase = s.phase
  /-- The name of every stylesheet that the piece does not build is the same. -/
  names : ∀ style, style ∉ w.styles → s'.names.lookup style = s.names.lookup style
  /-- The record of the piece is kept, if there is one. -/
  records : s'.records = (w.kept b s).elim s.records s.records.keep

/-- What works on files alone keeps no record. -/
theorem follows_of_keepsBook {b : Builder σ} {w : Work} (hw : w.entry? = none) {s s' : Session σ}
    (h : s.KeepsBook s') : w.Follows b s s' where
  place := h.place
  phase := h.phase
  names style _ := by rw [h.names]
  records := by
    unfold kept
    rw [hw, h.records]
    rfl

end Work

variable {b : Builder σ}

/-- Writing the sitemap works on files alone. -/
theorem writeSitemap_keepsBook (hparts : b.parts.IsFiling) (r : Report) (o : SitemapOptions)
    (filenames : List String) (s : Session σ) :
    ∃ r' s', b.writeSitemap r o filenames s = (.ok r', s') ∧ s.KeepsBook s' := by
  have hmake : (b.makeSitemap o filenames).IsFiling := by
    refine Action.Within.bind (fun s => ⟨rfl, rfl, rfl, rfl⟩) fun _ =>
      Action.Within.get.bind fun s =>
        (Action.Within.liftM _).bind fun document? => ?_
    cases document? with
    | none => exact (Action.isFiling_say _ _ _).bind fun _ => .pure _
    | some document =>
      intro s
      simp only [map_apply]
      exact Output.isFiling_write hparts.store _ _ _ s
  have hbook := hmake s
  unfold writeSitemap
  rw [bind_apply_ok (Action.attempt_apply _ s)]
  generalize b.makeSitemap o filenames s = result at hbook ⊢
  rcases result with ⟨fault | output?, s'⟩
  · exact ⟨_, _, rfl, hbook.place, hbook.phase, hbook.records, hbook.names⟩
  · cases output? <;> exact ⟨_, _, rfl, hbook⟩

/-- A piece of work ends with a report, and keeps the record of its entry if that was built well. -/
theorem work_follows (hparts : b.parts.IsFiling) (w : Work) (r : Report) (s : Session σ) :
    ∃ r' s', b.work r w s = (.ok r', s') ∧ w.Follows b s s' := by
  -- An entry is built; everything else works on files alone.
  have hentry : ∀ e : Entry, e.work.entry? = some e →
      ∃ r' s', b.work r e.work s = (.ok r', s') ∧ e.work.Follows b s s' := by
    intro e he
    obtain ⟨log, h⟩ := e.work_apply hparts r s
    obtain ⟨hplace, hphase, hrecords, hnames⟩ := e.build_renames hparts s
    have hkept : e.work.kept b s = (e.ending b s).record? := by
      unfold Work.kept
      rw [he]
      rfl
    unfold Entry.ending at hkept
    rw [Action.perform_apply] at hkept
    rw [h]
    rcases hbuild : e.build b s with ⟨fault | ⟨output, d⟩, s₁⟩ <;>
      rw [hbuild] at hkept hplace hphase hrecords hnames
    · exact ⟨_, _, rfl, hplace, hphase, hnames, by rw [hkept]; exact hrecords⟩
    · cases herror : d.error with
      | some error =>
        simp only [herror] at hkept ⊢
        exact ⟨_, _, rfl, hplace, hphase, hnames, by rw [hkept]; exact hrecords⟩
      | none =>
        simp only [herror] at hkept ⊢
        exact ⟨_, _, rfl, hplace, hphase, hnames, by rw [hkept, ← hrecords]; rfl⟩
  cases w with
  | style sheet => exact hentry (.style sheet) rfl
  | page p => exact hentry (.page p) rfl
  | assets a =>
    obtain ⟨r', s', h, hbook⟩ := copyAssets_spec hparts.store r a s
    exact ⟨r', s', h, Work.follows_of_keepsBook rfl hbook⟩
  | clean first =>
    obtain ⟨p, s', h, hbook⟩ := clean_spec hparts.store b.settings.output first s
    refine ⟨r, s', ?_, Work.follows_of_keepsBook rfl hbook⟩
    simp only [work]
    rw [bind_apply_ok h]
    rfl
  | sitemap o filenames =>
    obtain ⟨r', s', h, hbook⟩ := writeSitemap_keepsBook hparts r o filenames s
    exact ⟨r', s', h, Work.follows_of_keepsBook rfl hbook⟩

end Builder

end StaticSite
