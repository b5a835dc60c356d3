import StaticSite.Proofs.Build.Watch

/-!
# Incremental passes against full ones

After an edit in a watched site, an incremental pass for the file leaves the same outputs, names and
records as a full pass does (`rebuild_agrees_buildAll`). The two passes are compared entry by entry,
stylesheets before the pages that link them. An entry that both build is made into the same, since
neither pass changes a file that is read for an entry; one that the full pass alone builds was
current, so that building it changes nothing of it.
-/

namespace StaticSite

variable {σ : Type}

namespace Style

/-- The file of a stylesheet under its present name is its file for some text. -/
def IsNamed (settings : Settings) (place : Place) (names : OutputNames)
    (style : Stylesheet) : Prop :=
  ∃ text, currentPath settings place names style = outputPath settings place style text

/-- The present file of a stylesheet depends on its own name alone. -/
theorem currentPath_congr {settings : Settings} {place : Place} {names names' : OutputNames}
    {style : Stylesheet} (h : names'.lookup style = names.lookup style) :
    currentPath settings place names' style = currentPath settings place names style := by
  unfold currentPath
  rw [h]

/-- A stylesheet with the same name keeps its file for some text. -/
theorem IsNamed.of_lookup_eq {settings : Settings} {place : Place} {names names' : OutputNames}
    {style : Stylesheet} (h : IsNamed settings place names style)
    (heq : names'.lookup style = names.lookup style) : IsNamed settings place names' style := by
  obtain ⟨text, htext⟩ := h
  exact ⟨text, (currentPath_congr heq).trans htext⟩

end Style

namespace Builder

variable {b : Builder σ} {w : Work} {s s' s₁ s₂ : Session σ} {f : Path} {t : Tree}
    {m : Made} {c : Bool}

/-- Copying the asset directories changes no file that is read for an entry, and nothing at an
output or above it but for directories that were missing. -/
structure AssetsSpare (b : Builder σ) (s : Session σ) : Prop where
  /-- Every file that is read for an entry has the same text. -/
  sources : ∀ q ∈ b.sources s, (b.afterAssets s).readText q = s.readText q
  /-- Nothing is written at an output or above it. -/
  outputs : ∀ w ∈ b.entries, ∀ l ∈ w.candidates b.settings s.place, ∀ k, k <+: l →
    (b.afterAssets s).tree.at? k = s.tree.at? k ∨
      k ≠ l ∧ s.tree.at? k = none ∧ (b.afterAssets s).tree.at? k = some .directory

/-- Two sessions have the same names and records and the same text in the file of every page and in
the present file of every stylesheet. -/
structure BuiltAlike (b : Builder σ) (s s' : Session σ) : Prop where
  /-- Every stylesheet has the same name. -/
  names : ∀ style, s'.names.lookup style = s.names.lookup style
  /-- Every key has the same record. -/
  records : ∀ k, s'.records.find? k = s.records.find? k
  /-- The file of every page holds the same. -/
  pages : ∀ p ∈ b.settings.pages, p.isWritten = true →
    s'.tree.bytes? (Rendering.outputPath b.renderer s'.place p).names =
      s.tree.bytes? (Rendering.outputPath b.renderer s.place p).names
  /-- The present file of every stylesheet holds the same. -/
  styles : ∀ style ∈ b.styles,
    s'.tree.bytes? (Style.currentPath b.settings s'.place s'.names style).names =
      s.tree.bytes? (Style.currentPath b.settings s.place s.names style).names

/-- Every file that is read for an entry in one session has the same text in another. -/
structure ReadsAlike (b : Builder σ) (s s₁ : Session σ) : Prop where
  /-- The place is the same. -/
  place : s₁.place = s.place
  /-- The texts are the same. -/
  texts : ∀ q ∈ b.sources s, s₁.readText q = s.readText q

/-- Sessions that read alike read the same for each entry. -/
theorem ReadsAlike.reads_eq (h : b.ReadsAlike s s₁) (hw : w ∈ b.entries) :
    w.reads b s₁ = w.reads b s :=
  Work.reads_congr h.place fun q hq _ => h.texts q (mem_sources hw hq)

/-- An entry is made into the same in two sessions that read the same as a third, as long as the
stylesheets that it links have the same names. -/
theorem ReadsAlike.made_eq (h₁ : b.ReadsAlike s s₁) (h₂ : b.ReadsAlike s s₂) (hb : b.IsStandard)
    (htidy : b.IsTidy s.place) (hw : w ∈ b.entries)
    (hlinks : ∀ style ∈ w.links b, s₂.names.lookup style = s₁.names.lookup style) :
    w.made b s₂ = w.made b s₁ := by
  refine Work.made_congr hb htidy.unlisted (h₂.place.trans h₁.place.symm) (fun q hq _ => ?_) hlinks
  rw [h₁.reads_eq hw] at hq
  rw [h₁.texts q (mem_sources hw hq), h₂.texts q (mem_sources hw hq)]

/-- Where the output directory stands, writing outputs changes no text that is read for an entry. -/
theorem ReadsAlike.of_writes (h : b.ReadsAlike s s₁) (htidy : b.IsTidy s.place)
    (hsources : b.HasSourcesOutside s) (hstands : s₁.tree.Stands b.settings.output.names)
    (hplace : s₂.place = s₁.place)
    (htree : Tree.ChangedOnly {l | b.settings.output.names <+: l} s₁.tree s₂.tree) :
    b.ReadsAlike s s₂ := by
  refine ⟨hplace.trans h.place, fun q hq => ?_⟩
  obtain ⟨w, hw, hqw⟩ := List.mem_flatMap.1 hq
  have hgrounded :=
    Work.isGrounded_of_mem_reads htidy.cwd.isGrounded.absolute (htidy.isGrounded_of_mem hw) hqw
  rw [Session.readText_congr_of_writes hgrounded hplace htree (fun _ hl => hl)
    (hsources q hq) hstands, h.texts q hq]

/-- Where directories stood above an output they stand after the asset directories were copied. -/
theorem AssetsSpare.leads (h : b.AssetsSpare s) (hw : w ∈ b.entries) {l : Location}
    (hl : l ∈ w.candidates b.settings s.place) (hleads : s.tree.Leads l) :
    (b.afterAssets s).tree.Leads l := by
  intro k hk hne
  rcases h.outputs w hw l hl k hk with heq | ⟨-, hnone, -⟩
  · rw [heq, hleads k hk hne]
  · rw [hleads k hk hne] at hnone
    cases hnone

/-- Copying the asset directories spares every entry. -/
theorem AssetsSpare.spares (h : b.AssetsSpare s) (hplace : (b.afterAssets s).place = s.place)
    (hnames : (b.afterAssets s).names = s.names) (hrecords : (b.afterAssets s).records = s.records)
    (hw : w ∈ b.entries) : w.Spares b s (b.afterAssets s) := by
  -- At an output nothing changed, and above one there may be new directories.
  have hself : ∀ l ∈ w.candidates b.settings s.place, (b.afterAssets s).tree.at? l =
      s.tree.at? l := by
    intro l hl
    rcases h.outputs w hw l hl l (List.prefix_refl l) with heq | ⟨hne, -⟩
    · exact heq
    · exact absurd rfl hne
  refine ⟨⟨hplace, fun _ _ => by rw [hnames], fun _ _ => by rw [hrecords],
    fun l hl => Tree.bytes?_congr (hself l hl)⟩, fun l hl => ?_⟩
  have hfile : ∀ k, k <+: l.dropLast → ∀ bytes stamp,
      (b.afterAssets s).tree.at? k = some (.file bytes stamp) ↔
        s.tree.at? k = some (.file bytes stamp) := by
    intro k hk bytes stamp
    rcases h.outputs w hw l hl k (hk.trans (List.dropLast_prefix l)) with heq | ⟨-, hnone, hdir⟩
    · rw [heq]
    · rw [hnone, hdir]
      simp
  constructor
  · intro hwritable
    exact ⟨fun k hk bytes stamp hk' => hwritable.clear k hk bytes stamp
      ((hfile k hk bytes stamp).2 hk'), by rw [← hself l hl]; exact hwritable.free⟩
  · intro hwritable
    exact ⟨fun k hk bytes stamp hk' => hwritable.clear k hk bytes stamp
      ((hfile k hk bytes stamp).1 hk'), by rw [hself l hl]; exact hwritable.free⟩

/-! ## One entry -/

/-- Once a stylesheet had a name for some text, it has one after every build of it. -/
theorem Work.Ends.isNamed {style : Stylesheet} (h : (Work.style style).Ends b s c s')
    (hnamed : Style.IsNamed b.settings s.place s.names style) :
    Style.IsNamed b.settings s.place s'.names style := by
  cases hmade : (Work.style style).made b s with
  | none =>
    obtain ⟨hbook, -⟩ := h.of_made_eq_none hmade
    exact hnamed.of_lookup_eq (by rw [hbook.names])
  | some m =>
    obtain ⟨-, hnames, -⟩ := h.of_made_eq_some hmade
    obtain ⟨product, -, rfl⟩ := made_style_eq_some.1 hmade
    rw [hnames, Made.namesFrom_ofStyle]
    exact ⟨product.text, Style.currentPath_named _ _ _ _ _⟩

/-- The stylesheets of a watched site have names for some texts. -/
theorem Work.IsCurrent.isNamed {style : Stylesheet} (h : (Work.style style).IsCurrent b s) :
    Style.IsNamed b.settings s.place s.names style := by
  obtain ⟨m, hmade, hshown⟩ := h
  obtain ⟨product, -, rfl⟩ := made_style_eq_some.1 hmade
  have hnames := hshown.names style rfl
  rw [Made.namesFrom_ofStyle] at hnames
  exact ⟨product.text, (Style.currentPath_congr hnames.symm).trans
    (Style.currentPath_named _ _ _ _ _)⟩

/-- An entry that two runs do from sessions that agree on it, with the same texts to read, is the
same after both. -/
theorem Work.IsDone.agrees (hb : b.IsStandard) (htidy : b.IsTidy s.place) (hw : w ∈ b.entries)
    {sᵣ sₐ s_f s₃ s₄ : Session σ} {errors errors' : List String} (hr : w.IsDone b s sᵣ errors s₁ s₂)
    (hf : w.IsDone b sₐ s_f errors' s₃ s₄) (hassets : w.Spares b s sₐ) (hr₁ : b.ReadsAlike s s₁)
    (hf₁ : b.ReadsAlike s s₃)
    (hlinks : ∀ style ∈ w.links b, s_f.names.lookup style = sᵣ.names.lookup style) :
    w.Agrees b sᵣ s_f := by
  obtain ⟨c, hends, -⟩ := hr.ends
  obtain ⟨c', hends', -⟩ := hf.ends
  -- The names of the links at the end are those at the beginning of the entry, in either run.
  have hmade : w.made b s₃ = w.made b s₁ := by
    refine hr₁.made_eq hf₁ hb htidy hw fun style hstyle => ?_
    rw [← hf.links style hstyle, hlinks style hstyle, hr.links style hstyle]
  have hspares : w.Spares b s₁ s₃ := hr.before.symm.trans (hassets.trans hf.before)
  exact hr.after.toAgrees.symm.trans ((hends.agrees hends' hspares hmade).trans hf.after.toAgrees)

/-- An entry that is current, and that a run does from a session that agrees on it, is the same
after the run. -/
theorem Work.IsDone.agrees_of_isShown {sₐ s_f s₃ s₄ : Session σ} {errors : List String}
    (hf : w.IsDone b sₐ s_f errors s₃ s₄) (hassets : w.Spares b s sₐ) (hmade : w.made b s₃ = some m)
    (hshown : w.IsShown s m) (hleads : s₃.tree.Leads m.path.names) : w.Agrees b s s_f := by
  obtain ⟨c, hends, -⟩ := hf.ends
  -- It is shown where its build in the run begins, and the build changes nothing of it.
  have hbefore : w.Agrees b s s₃ := hassets.toAgrees.trans hf.before.toAgrees
  have hshown₃ : w.IsShown s₃ m := hshown.of_agrees hmade hbefore.place hbefore hleads
  exact hbefore.trans ((hends.agrees_of_isShown hmade hshown₃).trans hf.after.toAgrees)

/-- An entry that is current, and that the incremental pass for an edited file does not owe, is the
same after that pass and after one that does it. -/
theorem agrees_of_notMem_owed (hb : b.IsStandard) (htidy : b.IsTidy s.place) (hw : w ∈ b.entries)
    (hmade : w.made b s = some m) (hshown : w.IsShown s m) {e sᵣ sₐ s_f s₃ s₄ : Session σ}
    {errors : List String} (hedited : w.Agrees b s e) (hnames : e.names = s.names)
    (htexts : ∀ q ∈ w.reads b s, e.readText q = s.readText q) (hleads : e.tree.Leads m.path.names)
    (hframe : b.PassFrame e sᵣ) (hspares : ∀ w ∈ b.entries, w ∉ b.owed e sᵣ f → w.Spares b e sᵣ)
    (hnot : w ∉ b.owed e sᵣ f) (hf : w.IsDone b sₐ s_f errors s₃ s₄) (hassets : w.Spares b e sₐ)
    (hf₁ : b.ReadsAlike e s₃) (hleads₃ : s₃.tree.Leads m.path.names)
    (hlinks : ∀ style ∈ w.links b, s_f.names.lookup style = sᵣ.names.lookup style) :
    w.Agrees b sᵣ s_f := by
  have hreads : w.reads b e = w.reads b s :=
    Work.reads_congr hedited.place fun q hq _ => htexts q hq
  -- It is made in the full pass into what it was made into before the edit.
  have hmade₃ : w.made b s₃ = some m := by
    refine .trans (Work.made_congr hb htidy.unlisted (hf₁.place.trans hedited.place)
      (fun q hq _ => ?_) fun style hstyle => ?_) hmade
    · have hq' : q ∈ w.reads b e := by
        rw [hreads]
        exact hq
      rw [hf₁.texts q (mem_sources hw hq'), htexts q hq]
    · calc s₃.names.lookup style = s_f.names.lookup style := (hf.links style hstyle).symm
        _ = sᵣ.names.lookup style := hlinks style hstyle
        _ = e.names.lookup style := lookup_eq_of_notMem_owed hframe hspares hw hnot hstyle
        _ = s.names.lookup style := by rw [hnames]
  have hshownₑ : w.IsShown e m := hshown.of_agrees hmade rfl hedited hleads
  exact (hspares w hw hnot).toAgrees.symm.trans
    (hf.agrees_of_isShown hassets hmade₃ hshownₑ hleads₃)

/-- Whether or not the incremental pass for an edited file owes an entry, it leaves the same of the
entry as the full pass does, as long as the two leave the stylesheets that it links the same
names. -/
theorem agrees_of_passes (hb : b.IsStandard) (htidy : b.IsTidy s.place) (hw : w ∈ b.entries)
    (hcurrent : w.IsCurrent b s) (hedit : b.Admits s f t) {today : Day} {e sᵣ s_f : Session σ}
    (he : e = { s with tree := t, today }) (hfind : e.records = s.records)
    (hsources : b.HasSourcesOutside e) (hassets : b.AssetsSpare e)
    (hsparesₐ : w.Spares b e (b.afterAssets e)) {errors errors' : List String}
    (hframe : b.PassFrame e sᵣ)
    (howed : w ∈ b.owed e sᵣ f → ∃ s₁ s₂, w.IsDone b e sᵣ errors s₁ s₂)
    (hspares : ∀ w ∈ b.entries, w ∉ b.owed e sᵣ f → w.Spares b e sᵣ)
    (hdone : ∃ s₃ s₄, w.IsDone b (b.afterAssets e) s_f errors' s₃ s₄)
    (hlinks : ∀ style ∈ w.links b, s_f.names.lookup style = sᵣ.names.lookup style) :
        w.Agrees b sᵣ s_f := by
  have hplace : e.place = s.place := by rw [he]
  have hnames : e.names = s.names := by rw [he]
  have htidyₑ : b.IsTidy e.place := by rwa [hplace]
  obtain ⟨m, hmade, hshown⟩ := hcurrent
  have hcandidate : m.path.names ∈ w.candidates b.settings e.place :=
    hplace ▸ Work.candidates_of_made hmade
  have hleads : e.tree.Leads m.path.names := by
    rw [he]
    exact hedit.edited.leads hshown.leads
  have hleadsₐ := hassets.leads hw hcandidate hleads
  obtain ⟨s₃, s₄, hfull⟩ := hdone
  have hreads₃ : b.ReadsAlike e s₃ :=
    ReadsAlike.of_writes ⟨hsparesₐ.place, hassets.sources⟩ htidyₑ hsources
      (htidyₑ.stands hw hcandidate hleadsₐ) hfull.before.place hfull.writesBefore
  by_cases hmem : w ∈ b.owed e sᵣ f
  · -- Both passes build it from the same texts.
    obtain ⟨s₁, s₂, hincremental⟩ := howed hmem
    have hreads₁ : b.ReadsAlike e s₁ := ReadsAlike.of_writes ⟨rfl, fun _ _ => rfl⟩ htidyₑ hsources
      (htidyₑ.stands hw hcandidate hleads) hincremental.before.place hincremental.writesBefore
    exact hincremental.agrees hb htidyₑ hw hfull hsparesₐ hreads₁ hreads₃ hlinks
  · -- The entry was current before the edit, and the edit is nothing to it.
    obtain ⟨record, hrecord, hrecorded⟩ := hshown.recorded
    have hf : f ∉ record.dependencies :=
      notMem_dependencies_of_notMem_owed hw hmade hrecord (by rw [hfind, hrecorded]) hmem
    have htexts : ∀ q ∈ w.reads b s, e.readText q = s.readText q := by
      rw [he]
      exact fun q hq => hedit.readText hb htidy hw hmade hrecord hf today hq
    have hedited : w.Agrees b s e := by
      rw [he]
      exact hedit.agrees htidy hw today
    exact agrees_of_notMem_owed hb htidy hw hmade hshown hedited hnames htexts hleads hframe
      hspares hmem hfull
      hsparesₐ hreads₃ (hfull.writesBefore.leads hleadsₐ) hlinks

/-! ## Whole passes -/

/-- After an edit in a watched site, an incremental pass for the file and a full pass both end with
a report, and the sessions after them are built alike: every page holds the same text, every
stylesheet has the same name and its file the same text, and the records are the same. It does not
matter whether the edit breaks pages or stylesheets. -/
theorem rebuild_agrees_buildAll (hb : b.IsStandard) (htidy : b.IsTidy s.place) (hs : b.Watched s)
    (hedit : b.Admits s f t) (today : Day)
    (hsources : b.HasSourcesOutside { s with tree := t, today })
    (hassets : b.AssetsSpare { s with tree := t, today }) :
    ∃ r r' sᵣ s_f, (b.rebuild f).perform { s with tree := t, today } = (.ok r, sᵣ) ∧
      b.buildAll.perform { s with tree := t, today } = (.ok r', s_f) ∧ b.BuiltAlike sᵣ s_f := by
  generalize he : ({ s with tree := t, today } : Session σ) = e at hsources hassets ⊢
  have hplace : e.place = s.place := by rw [← he]
  have htidyₑ : b.IsTidy e.place := by rwa [hplace]
  have hsettled : Settled e := by
    rw [← he]
    exact (Reachable.between t today hs.reachable).settled hb
  obtain ⟨r, sᵣ, hrebuild, hframe, howed, hspares⟩ := htidyₑ.rebuild_isDone hb hsettled f
  obtain ⟨r', s_f, hbuildAll, hplaceₐ, hrecordsₐ, hnamesₐ, hframe', hdone⟩ :=
    htidyₑ.buildAll_isDone hb hsettled.idle
  refine ⟨r, r', sᵣ, s_f, hrebuild, hbuildAll, ?_⟩
  have hagrees : ∀ w ∈ b.entries,
      (∀ style ∈ w.links b, s_f.names.lookup style = sᵣ.names.lookup style) → w.Agrees b sᵣ s_f :=
    fun w hw =>
      agrees_of_passes hb htidy hw (hs.isCurrent hb htidy hw) hedit he.symm (by rw [← he]) hsources
        hassets (hassets.spares hplaceₐ hnamesₐ hrecordsₐ hw) hframe (howed w) hspares (hdone w hw)
  -- Stylesheets link nothing, so that they come out alike, and then their names do not tell pages
  -- apart.
  have hnames : ∀ style, s_f.names.lookup style = sᵣ.names.lookup style := by
    intro style
    by_cases hstyle : style ∈ b.styles
    · exact (hagrees (.style style) (mem_entries.2 (.inl ⟨style, hstyle, rfl⟩))
        fun _ hlink => hlink.elim).names style rfl
    · rw [hframe.names style hstyle, hframe'.names style hstyle, hnamesₐ]
  have hall : ∀ w ∈ b.entries, w.Agrees b sᵣ s_f :=
    fun w hw => hagrees w hw fun style _ => hnames style
  refine ⟨hnames, fun k => ?_, fun p hp hwritten => ?_, fun style hstyle => ?_⟩
  · by_cases hk : k ∈ keysOf b.entries
    · obtain ⟨w, hw, hk⟩ := hk
      exact (hall w hw).records k hk
    · rw [hframe.records k hk, hframe'.records k hk, hrecordsₐ]
  · have hpage := hall (.page p) (mem_entries.2 (.inr ⟨p, hp, hwritten, rfl⟩))
    rw [hpage.place]
    exact hpage.files _ rfl
  · have hw : .style style ∈ b.entries := mem_entries.2 (.inl ⟨style, hstyle, rfl⟩)
    have hstyle' := hall _ hw
    -- The present file of a stylesheet is its file for some text, whichever pass named it last.
    have hnamed : Style.IsNamed b.settings e.place e.names style := by
      rw [← he]
      exact (hs.isCurrent hb htidy hw).isNamed
    have hnamedᵣ : Style.IsNamed b.settings e.place sᵣ.names style := by
      by_cases hmem : .style style ∈ b.owed e sᵣ f
      · obtain ⟨s₁, s₂, hincremental⟩ := howed _ hmem
        obtain ⟨c, hends, -⟩ := hincremental.ends
        have hnamed₁ := hnamed.of_lookup_eq (hincremental.before.names style rfl)
        rw [← hincremental.before.place] at hnamed₁ ⊢
        exact (hends.isNamed hnamed₁).of_lookup_eq (hincremental.after.names style rfl)
      · exact hnamed.of_lookup_eq ((hspares _ hw hmem).names style rfl)
    rw [hstyle'.place, Style.currentPath_congr (hnames style)]
    refine hstyle'.files _ ?_
    rw [hframe.place]
    obtain ⟨text, htext⟩ := hnamedᵣ
    exact ⟨text, by rw [htext]⟩

/-! ## Sample sites -/

/-- A pass that answers a report without errors is one without an error. -/
theorem passes_of_errors {pass : Action σ Report}
    (h : (pass.perform s).1.toOption.map (·.errors) = some []) :
    Passes pass s (pass.perform s).2 := by
  obtain ⟨x, s', hperform⟩ : ∃ x s', pass.perform s = (x, s') := ⟨_, _, rfl⟩
  rw [hperform] at h ⊢
  cases x with
  | error fault => cases h
  | ok r => exact ⟨r, hperform, Option.some.inj h⟩

/-- A site without asset directories copies none over its files. -/
theorem assetsSpare_of_eq_nil (h : b.settings.assetDirectories = []) (s : Session σ) :
    b.AssetsSpare s := by
  have hafter : b.afterAssets s = { s with phase := .building } := by
    unfold afterAssets
    rw [h]
    rfl
  refine ⟨fun q _ => ?_, fun w _ l _ k _ => .inl ?_⟩
  · rw [hafter]
    rfl
  · rw [hafter]

/-- Writing a file where no directory stands is an edit. -/
theorem edited_put {t : Tree} {l : Location} (hroot : l ≠ []) (hfree : t.at? l ≠ some .directory)
    (bytes : ByteArray) (stamp : Stamp) : Tree.Edited l t (t.put l (.file bytes stamp)) := by
  refine ⟨hfree, ?_, fun k hk => .inl (Tree.at_put_of_ne t _ hk)⟩
  rw [Tree.at_put_self t _ hroot]
  simp

namespace Sample

/-- A full pass without an error starts a watch. -/
theorem watched_built {b : Builder Unit} {s : Session Unit} (hs : b.Reachable s)
    (herrors : (b.buildAll.perform s).1.toOption.map (·.errors) = some [])
    (hsources : ∀ q ∈ b.sources (built b s), ¬b.settings.output.names <+: q.names) :
    b.Watched (built b s) :=
  .buildAll hs (passes_of_errors herrors) hsources

/-- Editing a file of the sample changes the tree at its location alone. -/
theorem edited_edit {s : Session Unit} {name : String} (text : String)
    (hfree : s.tree.at? (path name).names ≠ some .directory) :
    Tree.Edited (path name).names s.tree (edit name text s).tree :=
  edited_put (List.cons_ne_nil _ _) hfree _ _

/-- A page that includes a file and links a stylesheet with a hash in its name. -/
def watched : Builder Unit := builder [page "a" "a.html" "a.html" [sheet]]

/-- The site before anything is built. -/
def watchedStart : Session Unit :=
  session [("a.html", "<head></head>PageBundler.include('i')"), ("i.html", "old"), ("m.css", "a")]

/-- The site after a full pass. -/
def watchedSession : Session Unit := built watched watchedStart

/-- The place of the sample. -/
def place : Place := ⟨⟨.absolute, ["site"]⟩, "/home", .usual⟩

/-- The filename of the stylesheet begins with its own, whatever the hash. -/
theorem writtenName_sheet (text : String) :
    Style.writtenName sheet text =
      String.ofList ('m' :: '.' :: ((Style.contentHash text).toList ++ ".css".toList)) := by
  unfold Style.writtenName Style.outputName
  rw [if_pos (by decide)]
  rfl

/-- The stylesheet of the sample is written under a plain name. -/
theorem isPlain_writtenName_sheet (text : String) :
    Path.IsPlain (Style.writtenName sheet text) := by
  have hend : ∀ c ∈ ".css".toList, c ≠ '/' ∧ c ≠ '\\' := by simp
  -- Its characters are those before the hash, those of the hash and those after it.
  rw [writtenName_sheet]
  refine ⟨?_, ?_, ?_, ?_, fun c hc => ?_⟩
  · exact fun h => by simpa using congrArg String.toList h
  · exact fun h => by simpa using congrArg String.toList h
  · exact fun h => by simpa using congrArg String.toList h
  · simp
  · rw [String.toList_ofList] at hc
    rcases List.mem_cons.1 hc with rfl | hc
    · decide
    · rcases List.mem_cons.1 hc with rfl | hc
      · decide
      · rcases List.mem_append.1 hc with hc | hc
        · exact Style.flat_contentHash hc
        · exact hend c hc

/-- The page of the sample is written under a plain name. -/
theorem isPlain_page : Path.IsPlain "a.html" :=
  ⟨by decide, by decide, by decide, by decide, by simp⟩

/-- The output directory of the sample is a normal path. -/
theorem isNormal_output : Path.IsNormal watched.settings.output :=
  ⟨by decide, by decide⟩

/-- The stylesheet is written into the output directory, and never where the page is. -/
theorem names_sheet (text : String) :
    (Style.outputPath watched.settings place sheet text).names =
      ["site", "dist", Style.writtenName sheet text] := by
  have hnames :
      (Output.path place watched.settings.output (Style.writtenName sheet text)).names = _ :=
    (isPlain_writtenName_sheet text).names_output isNormal_output
  unfold Style.outputPath
  rw [hnames]
  rfl

/-- The stylesheet of the sample is never written to the file of the page. -/
theorem writtenName_sheet_ne (text : String) : Style.writtenName sheet text ≠ "a.html" := by
  intro h
  rw [writtenName_sheet] at h
  have hlist := congrArg String.toList h
  simp at hlist

/-- The stylesheet of the sample is written into the output directory, and not to the file of the
page. -/
theorem candidates_sheet {l : Location}
    (h : l ∈ (Work.style sheet).candidates watched.settings place) :
    ∃ name, l = ["site", "dist", name] ∧ name ≠ "a.html" := by
  obtain ⟨text, h⟩ : ∃ text, l = (Style.outputPath watched.settings place sheet text).names := h
  rw [names_sheet] at h
  exact ⟨Style.writtenName sheet text, h, writtenName_sheet_ne text⟩

/-- The page of the sample is written to one file. -/
theorem candidates_page {l : Location}
    (h : l ∈ (Work.page (page "a" "a.html" "a.html" [sheet])).candidates watched.settings place) :
    l = ["site", "dist", "a.html"] := by
  have hnames : (Output.path place watched.settings.output "a.html").names = _ :=
    isPlain_page.names_output isNormal_output
  have h : l = (Output.path place watched.settings.output "a.html").names := h
  rw [h, hnames]
  rfl

/-- The work of the sample is a stylesheet and a page. -/
theorem entries_watched :
    watched.entries ++ watched.mapping [] =
      [.style sheet, .page (page "a" "a.html" "a.html" [sheet])] :=
  rfl

/-- The site is tidy. -/
theorem isTidy_watched : watched.IsTidy place := by
  refine ⟨rfl, rfl, ⟨by decide, by decide⟩, ?_, fun w hw l hl => ?_, ?_, by decide⟩
  · intro p hp source hsource
    rw [List.mem_singleton.1 (show p ∈ [page "a" "a.html" "a.html" [sheet]] from hp)] at hsource
    rw [← Option.some.inj hsource]
    exact ⟨rfl, by decide⟩
  · have hl : ∃ name, l = ["site", "dist", name] := by
      rw [entries_watched] at hw
      rcases List.mem_pair.1 hw with rfl | rfl
      · obtain ⟨name, hname, -⟩ := candidates_sheet hl
        exact ⟨name, hname⟩
      · exact ⟨_, candidates_page hl⟩
    obtain ⟨name, rfl⟩ := hl
    exact ⟨⟨[name], rfl⟩, by simp [watched, builder, site]⟩
  · rw [entries_watched]
    refine List.pairwise_pair.2 fun l hl l' hl' => ?_
    obtain ⟨name, rfl, hne⟩ := candidates_sheet hl
    rw [candidates_page hl']
    exact ⟨by simpa using hne, by simpa using hne.symm⟩

end Sample

open Sample in
/-- The passes after an edit of the stylesheet of the sample. -/
theorem rebuild_agrees_sample :
    watched.IsStandard ∧ watched.IsTidy watchedSession.place ∧ watched.Watched watchedSession ∧
      watched.Admits watchedSession (path "m.css") (edit "m.css" "b" watchedSession).tree ∧
      watched.HasSourcesOutside (edit "m.css" "b" watchedSession) ∧
      watched.AssetsSpare (edit "m.css" "b" watchedSession) ∧
      ∃ r r' sᵣ s_f, (watched.rebuild (path "m.css")).perform (edit "m.css" "b" watchedSession) =
        (.ok r, sᵣ) ∧
        watched.buildAll.perform (edit "m.css" "b" watchedSession) = (.ok r', s_f) ∧
        watched.BuiltAlike sᵣ s_f := by
  -- All that is computed is computed at once.
  obtain ⟨herrors, hbuilt, hspelled, hfree, hsources, hplace⟩ :
      (watched.buildAll.perform watchedStart).1.toOption.map (·.errors) = some [] ∧
        (∀ q ∈ watched.sources (built watched watchedStart),
          ¬watched.settings.output.names <+: q.names) ∧
        (∀ q ∈ watched.sources watchedSession, q.names = (path "m.css").names → q = path "m.css") ∧
        watchedSession.tree.at? (path "m.css").names ≠ some .directory ∧
        (∀ q ∈ watched.sources (edit "m.css" "b" watchedSession),
          ¬watched.settings.output.names <+: q.names) ∧
        watchedSession.place = place := by
    decide +kernel
  have htidy : watched.IsTidy watchedSession.place := by
    rw [hplace]
    exact isTidy_watched
  have hwatched : watched.Watched watchedSession :=
    watched_built (.start _ _ _ _ rfl) herrors hbuilt
  have hedit : watched.Admits watchedSession (path "m.css")
      (edit "m.css" "b" watchedSession).tree :=
    ⟨edited_edit "b" hfree, by decide, by decide, hspelled⟩
  have hassets := assetsSpare_of_eq_nil (b := watched) rfl (edit "m.css" "b" watchedSession)
  exact ⟨rfl, htidy, hwatched, hedit, hsources, hassets,
    rebuild_agrees_buildAll (b := watched) rfl htidy hwatched hedit watchedSession.today
      hsources hassets⟩

namespace Sample

/-- A site that copies a directory over its sources. -/
def copying : Builder Unit :=
  site [.page (page "a" "a.html" "a.html" []),
    .assets ⟨.text "x", ⟨.absolute, ["site", "assets"]⟩, "../src"⟩]

/-- The site before anything is built. -/
def copyingStart : Session Unit :=
  let s := session [("a.html", "PageBundler.include('i')"), ("i.html", "old")]
  let t := s.tree.put ["site", "assets"] .directory
  { s with tree := t.put ["site", "assets", "i.html"] (.file (Text.encode "asset") (.given 1000)) }

/-- The site after a full pass. -/
def copyingSession : Session Unit := built copying copyingStart

/-- A page with the key of the stylesheet `shared`, and one that links the stylesheet. -/
def keyed : Builder Unit :=
  builder [page "a" "x.css" "x.[contenthash].css" [], page "b" "p.html" "p.html" [shared]]

/-- The site before anything is built. -/
def keyedStart : Session Unit :=
  session [("x.css", "@import \"y.css\";"), ("y.css", "a"), ("p.html", "<head></head>")]

/-- The site after a full pass. -/
def keyedSession : Session Unit := built keyed keyedStart

/-- A page whose path begins with two separators, as that of the file it includes then does. -/
def doubledPage : Page :=
  ⟨.text "a", some ⟨.doubled, ["site", "src", "a.html"]⟩, some "a.html", [], [], none⟩

/-- The site of the page. -/
def doubled : Builder Unit := builder [doubledPage]

/-- The site before anything is built. -/
def doubledStart : Session Unit :=
  session [("a.html", "PageBundler.include('i')"), ("i.html", "old")]

/-- The site after a full pass. -/
def doubledSession : Session Unit := built doubled doubledStart

/-- In a watched sample the two passes after the edit of a file leave something else. -/
structure Differs (b : Builder Unit) (s : Session Unit) (name text : String) : Prop where
  /-- The site is watched. -/
  watched : b.Watched s
  /-- The edit is one of a file. -/
  edited : Tree.Edited (path name).names s.tree (edit name text s).tree
  /-- The file does not lie in the output directory. -/
  outside : ¬b.settings.output.names <+: (path name).names
  /-- It is not the source of a page. -/
  notSource : ∀ p ∈ b.settings.pages, p.isWritten = true → ∀ source, p.source = some source →
    source.names ≠ (path name).names
  /-- The sessions after the passes are not built alike. -/
  passes : ¬b.BuiltAlike ((b.rebuild (path name)).perform (edit name text s)).2
    (b.buildAll.perform (edit name text s)).2

/-- The two passes leave something else if they leave something else of a page. -/
theorem differs_of_page {b : Builder Unit} {s : Session Unit} {name text : String} {p : Page}
    (hs : b.Reachable s)
    (hpages : ∀ p ∈ b.settings.pages, p.isWritten = true → ∀ source, p.source = some source →
      source.names ≠ (path name).names)
    (houtside : ¬b.settings.output.names <+: (path name).names)
    (hp : p ∈ b.settings.pages) (hwritten : p.isWritten = true)
    (h : (b.buildAll.perform s).1.toOption.map (·.errors) = some [] ∧
      (∀ q ∈ b.sources (built b s), ¬b.settings.output.names <+: q.names) ∧
      (built b s).tree.at? (path name).names ≠ some .directory ∧
      (b.buildAll.perform (edit name text (built b s))).2.tree.bytes?
          (Rendering.outputPath b.renderer
            (b.buildAll.perform (edit name text (built b s))).2.place p).names ≠
        ((b.rebuild (path name)).perform (edit name text (built b s))).2.tree.bytes?
          (Rendering.outputPath b.renderer
            ((b.rebuild (path name)).perform (edit name text (built b s))).2.place p).names) :
    Differs b (built b s) name text := by
  obtain ⟨herrors, hsources, hfree, hbytes⟩ := h
  exact ⟨watched_built hs herrors hsources, edited_edit text hfree, houtside, hpages,
    fun halike => hbytes (halike.pages p hp hwritten)⟩

end Sample

open Sample in
/-- A full pass copies asset directories over sources, and an incremental one does not. A stylesheet
whose record a page with its key replaced is built by a full pass alone, and so is a page made from
a file whose path is spelled in another way than that of the file that was edited. -/
theorem rebuild_differs_from_buildAll :
    Differs copying copyingSession "i.html" "new" ∧ Differs keyed keyedSession "y.css" "b" ∧
      Differs doubled doubledSession "i.html" "new" := by
  refine ⟨?copying, ?keyed, ?doubled⟩
  case copying =>
    exact differs_of_page (.between _ _ (.start _ _ _ _ rfl)) (by decide) (by decide)
      (show page "a" "a.html" "a.html" [] ∈ _ from .head _) rfl (by decide +kernel)
  case keyed =>
    exact differs_of_page (.start _ _ _ _ rfl) (by decide) (by decide)
      (show page "b" "p.html" "p.html" [shared] ∈ _ from .tail _ (.head _)) rfl (by decide +kernel)
  case doubled =>
    exact differs_of_page (.start _ _ _ _ rfl) (by decide) (by decide)
      (show doubledPage ∈ _ from .head _) rfl (by decide +kernel)

end Builder

end StaticSite
