import StaticSite.Proofs.Build.Entry
import StaticSite.Proofs.Tree.Keeping

/-!
# What stays when a site is built

Parts of a site that take no file away (`Collaborators.IsKeeping`), on files that are in the tree,
make no piece of work that builds something take one away (`isKeeping_work`), and an entry that was
built has its file (`Entry.isFile_of_build`). What a part does to a session is asked of all parts at
once (`Collaborators.Calls`), and follows for the drafts of entries and for the work on them.
-/

namespace StaticSite

variable {σ : Type}

/-- Every call of a part but the file store changes a session only in a way that `R` allows. -/
structure Collaborators.Calls (R : Session σ → Session σ → Prop) (c : Collaborators σ) : Prop where
  /-- The compiler of stylesheets does. -/
  compile : ∀ source optimized, (c.compile source optimized).Within R
  /-- What follows it does. -/
  postProcess : ∀ css, (c.postProcess css).Within R
  /-- The minifier does. -/
  minify : ∀ text options, (c.minify text options).Within R
  /-- The lookup of chunks does. -/
  chunkFile : ∀ name, (c.chunkFile name).Within R

/-- Parts whose calls a relation allows are allowed by a wider one. -/
theorem Collaborators.Calls.mono {R R' : Session σ → Session σ → Prop} {c : Collaborators σ}
    (h : c.Calls R) (hR : ∀ s s', R s s' → R' s s') : c.Calls R' where
  compile source optimized s := hR _ _ (h.compile source optimized s)
  postProcess css s := hR _ _ (h.postProcess css s)
  minify text options s := hR _ _ (h.minify text options s)
  chunkFile name s := hR _ _ (h.chunkFile name s)

/-- The parts that a build uses by default change no more than the log and what is known of the
chunk manifest. -/
theorem Collaborators.calls_standard (settings : Settings) :
    (standard settings : Collaborators σ).Calls Session.AgreesWith where
  compile source optimized s := by
    obtain ⟨x, hx⟩ := Style.exists_importer settings.includes.depthLimit
    obtain ⟨log, h⟩ := Style.compile_apply .onTree hx source optimized s
    simp only [standard]
    rw [h]
    exact ⟨log, s.manifest, rfl⟩
  postProcess _ := .pure _
  minify _ _ := .pure _
  chunkFile name := Chunk.lookupFor_isQuiet settings name

/-- Files are in the tree, and no part takes one away, nor touches what the session knows of its
builds. -/
structure Collaborators.IsKeeping (c : Collaborators σ) : Prop extends c.IsFiling where
  /-- Files are in the tree. -/
  onTree : c.store = .onTree
  /-- No part takes one away. -/
  calls : c.Calls Session.KeepsFiles

/-- The parts that a build uses by default take no file away. -/
theorem Collaborators.isKeeping_standard (settings : Settings) :
    (standard settings : Collaborators σ).IsKeeping where
  toIsFiling := isFiling_standard settings
  onTree := rfl
  calls := (calls_standard settings).mono fun s s' ⟨_, _, h⟩ => by
    rw [h]
    exact ⟨rfl, .refl s.tree⟩

namespace Builder

variable {b : Builder σ} {r r' : Report} {s s' : Session σ}

section Within

variable {R : Session σ → Session σ → Prop}

/-- Drafting an entry does to a session what its parts do, if what is done to the log and the names
does not count. -/
theorem Entry.draft_within [Std.Refl R] [IsTrans (Session σ) R] (hcalls : b.parts.Calls R)
    (hbook : ∀ s log names, R s { s with log, names }) (e : Entry) : (e.draft b).Within R := by
  cases e with
  | style sheet =>
    have hfinished : ∀ css, (Style.finished b.parts b.settings.isOptimized css).Within R := by
      intro css
      unfold Style.finished
      split
      · exact hcalls.postProcess css
      · exact .pure css
    refine (hcalls.compile _ _).bind fun compiled => (hfinished _).bind fun css => ?_
    exact Action.Within.bind (fun s => hbook s s.log _) fun _ =>
      Action.Within.get.bind fun _ => .pure _
  | page p =>
    simp only [draft]
    cases p.source with
    | none => exact .throw _
    | some source =>
      have hrender : (Rendering.render b.renderer p b.settings.shared?).Within R :=
        Rendering.render_within (r := b.renderer) (fun s log => hbook s log s.names) hcalls.minify
          hcalls.chunkFile p _
      exact hrender.bind fun _ => .pure _

/-- What a piece of work on an entry does to a session, if what is done to the log and the records
does not count. -/
theorem work_within (hparts : b.parts.IsFiling)
    (hbook : ∀ s s' log records, R s s' → R s { s' with log, records }) {e : Entry}
    (h : (e.build b).Within R) (r : Report) : (b.work r e.work).Within R := by
  intro s
  obtain ⟨log, hwork⟩ := e.work_apply hparts r s
  have hbuild := h s
  rw [hwork]
  rcases hresult : e.build b s with ⟨fault | ⟨output, d⟩, s₁⟩ <;> rw [hresult] at hbuild
  · exact hbook s s₁ log s₁.records hbuild
  · exact hbook s s₁ log _ hbuild

end Within

/-! ## Keeping files -/

namespace Entry

/-- Drafting an entry takes no file away. -/
theorem isKeeping_draft (hparts : b.parts.IsKeeping) (e : Entry) : (e.draft b).IsKeeping :=
  e.draft_within hparts.calls fun s _ _ => ⟨rfl, .refl s.tree⟩

/-- Building an entry takes no file away. -/
theorem isKeeping_build (hparts : b.parts.IsKeeping) (e : Entry) : (e.build b).IsKeeping := by
  refine (isKeeping_draft hparts e).bind fun d => ?_
  rw [hparts.onTree]
  exact (Output.isKeeping_write _ _ _).bind fun _ => .pure _

/-- An entry that was built has its file. -/
theorem isFile_of_build (hparts : b.parts.IsKeeping) {e : Entry} {output : Path} {d : Draft}
    (h : e.build b s = (.ok (output, d), s')) :
    s'.isFile (Output.path s'.place b.settings.output d.filename) = .ok true := by
  obtain ⟨d', s₁, hdraft, h⟩ := bind_apply_eq_ok.1 h
  obtain ⟨output', s₂, hwrite, h⟩ := bind_apply_eq_ok.1 h
  rw [hparts.onTree] at hwrite
  have hplace := (Output.isKeeping_write b.settings.output d'.filename d'.text s₁).place
  obtain ⟨hpath, hfile⟩ := Output.isFile_of_write hwrite
  rw [hwrite] at hplace
  cases h
  rw [hplace, ← hpath]
  exact hfile

end Entry

/-- A piece of work that makes one file takes none away. -/
theorem isKeeping_work (hparts : b.parts.IsKeeping) {w : Work} (hw : w.IsProduct) (r : Report) :
    (b.work r w).IsKeeping := by
  have hentry : ∀ e : Entry, (b.work r e.work).IsKeeping := fun e =>
    work_within hparts.toIsFiling (fun _ _ _ _ h => ⟨h.place, h.tree⟩) (e.isKeeping_build hparts) r
  cases w with
  | assets | clean => exact hw.elim
  | style sheet => exact hentry (.style sheet)
  | page p => exact hentry (.page p)
  | sitemap o filenames =>
    have hmake : (b.makeSitemap o filenames).IsKeeping := by
      refine Action.Within.bind (fun s => ⟨rfl, .refl s.tree⟩) fun _ =>
        Action.Within.get.bind fun s =>
          (Action.Within.liftM _).bind fun document? => ?_
      cases document? with
      | none => exact (Action.isKeeping_say _ _ _).bind fun _ => .pure _
      | some document =>
        intro s
        simp only [map_apply, hparts.onTree]
        exact Output.isKeeping_write _ _ _ s
    refine hmake.attempt.bind fun x => ?_
    rcases x with fault | output?
    · exact (Action.isKeeping_say _ _ _).bind fun _ => .pure _
    · cases output? <;> exact .pure _

end Builder

end StaticSite
