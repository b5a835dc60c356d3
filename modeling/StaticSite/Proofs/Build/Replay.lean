import StaticSite.Proofs.Build.Account
import StaticSite.Proofs.Build.Mirror

/-!
# Passes that mirror each other

Where sessions mirror each other (`Mirror`), an entry whose draft is the same in both is built in
both or in none (`Mirror.build`), and is told of alike (`Mirror.work`). So a full pass goes alike in
both, with the same report, if each of its attempts in the one session is of that kind, and its
asset directories and its sitemap stay in the scope of the mirror (`Mirror.fullPass`).
-/

namespace StaticSite

variable {σ α : Type} {b : Builder σ} {c : Scope} {start : Tree} {Q : Session σ → Prop}
  {R : Session σ → Session σ → Prop} {s u : Session σ}

namespace Builder

/-- The draft of an attempt is the same in sessions that mirror the one in which it began, and may
be written. -/
structure Attempt.Mirrors (b : Builder σ) (c : Scope) (Q : Session σ → Prop)
    (R : Session σ → Session σ → Prop) (a : Attempt σ) : Prop where
  /-- The draft is the same. -/
  draft : ∀ u, R a.before u → (a.entry.draft b).Mirrored R Q a.before u
  /-- The file of the draft may be written. -/
  writes : ∀ d s', a.entry.draft b a.before = (.ok d, s') →
    c.Writes (Output.path a.before.place b.settings.output d.filename) (Text.encode d.text)

/-- A site stays in a scope but for its entries: its asset directories may be copied, and its
sitemap may be written. -/
structure Stays (b : Builder σ) (c : Scope) (start : Tree) (place : Place) : Prop where
  /-- The asset directories may be copied. -/
  assets : ∀ a ∈ b.settings.assetDirectories,
    c.Copies start place.room.brackets b.settings.isOptimized a.source
      (Output.path place b.settings.output a.target)
  /-- The sitemap may be written, whatever it lists. -/
  sitemap : b.settings.sitemap.isSome = true → b.settings.isOptimized = true → ∀ document,
    c.Writes (Output.path place b.settings.output Sitemap.filename) (Text.encode document)

end Builder

/-- What is told of an entry, by how its build ended. -/
def Builder.Entry.toldOf (e : Builder.Entry) (r : Report) :
    Except Fault (Path × Builder.Draft) → Report
  | .error fault => r.addError (e.label ++ ": " ++ fault.message)
  | .ok (output, d) => e.told r output d

namespace Mirror

open Builder

/-- An entry is built in both sessions or in none. -/
theorem build (M : Mirror c start Q R) (hb : b.IsStandard) {e : Entry}
    (ha : Attempt.Mirrors b c Q R ⟨e, s⟩) (h : R s u) : (e.build b).Mirrored R Q s u := by
  refine Action.Mirrored.bind M.past (ha.draft u h) (fun d => ?_) fun d s' u' hs _ h' _ => ?_
  · rw [hb.store]
    exact (Output.precedes_write _ _ _).bind fun _ => .pure _
  · have hplace : s'.place = s.place := by
      have hdisk := e.draft_sameDisk hb s
      rw [hs] at hdisk
      exact hdisk.place
    have hwrites := ha.writes d s' hs
    rw [← hplace] at hwrites
    rw [hb.store]
    exact Action.Mirrored.bind M.past (M.write h' hwrites) (fun _ => .pure _) fun _ _ _ _ _ h'' _ =>
      .pure h'' _

/-- What is told of an entry, and kept of it, is the same if it is built in both sessions or in
none. -/
theorem of_build (M : Mirror c start Q R) {e : Entry} (hbuild : (e.build b).Mirrored R Q s u)
    {a : Action σ α} {f : Except Fault (Path × Draft) → α}
    (ha : ∀ v, ∃ log, a v = match e.build b v with
      | (.error fault, v') => (.ok (f (.error fault)), { v' with log })
      | (.ok (output, d), v') => (.ok (f (.ok (output, d))), { v' with
        log
        records := match d.error with
          | some _ => v'.records
          | none => v'.records.keep d.record })) : a.Mirrored R Q s u := by
  obtain ⟨log, hs⟩ := ha s
  obtain ⟨log', hu⟩ := ha u
  intro hq
  have hsame : ∀ (v : Session σ) log records, v.Precedes { v with log, records } := fun v _ _ =>
    Session.SameDisk.precedes ⟨rfl, rfl, rfl, rfl⟩
  rcases hx : e.build b s with ⟨fault | ⟨output, d⟩, s'⟩ <;> rw [hx] at hs <;> rw [hs] at hq ⊢ <;>
    obtain ⟨hanswer, h'⟩ :=
      hbuild (M.past _ _ (by rw [hx]; exact hsame s' _ _) hq) <;> rw [hx] at hanswer h'
  · have hx' : e.build b u = (.error fault, (e.build b u).2) := Prod.ext hanswer rfl
    rw [hu, hx']
    exact ⟨rfl, M.told _ _ _ _ h'⟩
  · have hx' : e.build b u = (.ok (output, d), (e.build b u).2) := Prod.ext hanswer rfl
    rw [hu, hx']
    have hkept : R
        { s' with records := match d.error with
          | some _ => s'.records
          | none => s'.records.keep d.record }
        { (e.build b u).2 with records := match d.error with
          | some _ => (e.build b u).2.records
          | none => (e.build b u).2.records.keep d.record } := by
      cases d.error with
      | some error => exact h'
      | none => exact M.recorded _ _ d.record h'
    exact ⟨rfl, M.told _ _ _ _ hkept⟩

/-- The work on an entry goes alike in both sessions. -/
theorem work (M : Mirror c start Q R) (hb : b.IsStandard) {e : Entry}
    (ha : Attempt.Mirrors b c Q R ⟨e, s⟩) (r : Report) (h : R s u) :
    (b.work r e.work).Mirrored R Q s u := by
  refine M.of_build (M.build hb ha h) (f := e.toldOf r) fun v => ?_
  obtain ⟨log, h⟩ := e.work_apply hb.isFiling r v
  refine ⟨log, h.trans ?_⟩
  rcases e.build b v with ⟨fault | ⟨output, d⟩, v'⟩ <;> rfl

/-- So does the building of a page. -/
theorem buildPage (M : Mirror c start Q R) (hb : b.IsStandard) {p : Page}
    (ha : Attempt.Mirrors b c Q R ⟨.page p, s⟩) (r : Report) (h : R s u) :
    (b.buildPage r p).Mirrored R Q s u := by
  refine M.of_build (M.build hb ha h)
    (f := fun x => ((Entry.page p).toldOf r x, x.isOk)) fun v => ?_
  obtain ⟨log, h⟩ := Entry.buildPage_apply r p v
  refine ⟨log, h.trans ?_⟩
  rcases (Entry.page p).build b v with ⟨fault | ⟨output, d⟩, v'⟩ <;> rfl

/-- So does a run over entries. -/
theorem run_entries (M : Mirror c start Q R) (hb : b.IsStandard) {es : List Entry} {r : Report}
    (hes : ∀ a ∈ b.attempts (es.map Entry.work) r s, a.Mirrors b c Q R) (h : R s u) :
    (b.run (es.map Entry.work) r).Mirrored R Q s u := by
  induction es generalizing r s u with
  | nil => exact .pure h r
  | cons e es ih =>
    have hentry : e.work.entry? = some e := by cases e <;> rfl
    have hattempts : ∀ {r₁ s₁}, b.work r e.work s = (.ok r₁, s₁) →
        b.attempts ((e :: es).map Entry.work) r s =
          ⟨e, s⟩ :: b.attempts (es.map Entry.work) r₁ s₁ := by
      intro r₁ s₁ hwork
      rw [List.map_cons, attempts_cons _ hwork, hentry]
      rfl
    obtain ⟨r₁, s₁, hwork, -⟩ := work_follows hb.isFiling e.work r s
    have hfirst : Attempt.Mirrors b c Q R ⟨e, s⟩ :=
      hes _ (by rw [hattempts hwork]; exact List.mem_cons_self)
    rw [List.map_cons, run_cons]
    refine Action.Mirrored.bind M.past (M.work hb hfirst r h)
      (precedes_run hb fun w hw => ?_) fun r' s' u' hs _ h' _ => ih (fun a ha => hes a ?_) h'
    · obtain ⟨e', -, rfl⟩ := List.mem_map.1 hw
      cases e' <;> trivial
    · rw [hattempts hs]
      exact List.mem_cons_of_mem _ ha

/-- So does the building of pages. -/
theorem buildPages (M : Mirror c start Q R) (hb : b.IsStandard) {pages : List Page} {r : Report}
    (hpages : ∀ a ∈ b.attempts (pages.map .page) r s, a.Mirrors b c Q R) (h : R s u) :
    (b.buildPages r pages).Mirrored R Q s u := by
  induction pages generalizing r s u with
  | nil => exact .pure h _
  | cons p pages ih =>
    have hattempts : ∀ {x s₁}, b.buildPage r p s = (.ok x, s₁) →
        b.attempts ((p :: pages).map .page) r s = ⟨.page p, s⟩ ::
          b.attempts (pages.map .page) x.1 s₁ := by
      intro x s₁ hpage
      have hwork : b.work r (.page p) s = (.ok x.1, s₁) := by
        simp only [Builder.work, map_apply, hpage]
        rfl
      rw [List.map_cons, attempts_cons _ hwork]
      rfl
    obtain ⟨r₁, s₁, hwork, -⟩ := work_follows hb.isFiling (.page p) r s
    have hfirst : Attempt.Mirrors b c Q R ⟨.page p, s⟩ :=
      hpages _ (by rw [List.map_cons, attempts_cons _ hwork]; exact List.mem_cons_self)
    unfold Builder.buildPages
    refine Action.Mirrored.bind M.past (M.buildPage hb hfirst r h)
      (fun x => ?_) fun x s' u' hs _ h' _ => ?_
    · exact (precedes_buildPages hb x.1 pages).bind fun _ => .pure _
    · refine Action.Mirrored.bind M.past (ih (r := x.1) (fun a ha => hpages a ?_) h')
        (fun _ => .pure _)
        fun _ _ _ _ _ h'' _ => .pure h'' _
      rw [hattempts hs]
      exact List.mem_cons_of_mem _ ha

/-- So does the copying of an asset directory. -/
theorem assets (M : Mirror c start Q R) (hb : b.IsStandard) (hstart : start.IsProper)
    {a : AssetDirectory}
    (ha : c.Copies start s.place.room.brackets b.settings.isOptimized a.source
      (Output.path s.place b.settings.output a.target)) (r : Report) (h :
        R s u) : (b.copyAssets r a).Mirrored R Q s u := by
  unfold Builder.copyAssets
  rw [hb.store]
  refine Action.Mirrored.bind M.past (M.copyAssets hstart h ha).attempt
    (fun x => ?_) fun x s' u' _ _ h' _ => ?_
  · split
    · exact Action.Within.bind (fun s => s.precedes_log _) fun _ => .pure _
    · exact .pure _
  · split
    · exact Action.Mirrored.bind M.past (M.said h' _ _ _) (fun _ => .pure _) fun _ _ _ _ _ h'' _ =>
        .pure h'' _
    · exact .pure h' _

/-- So does the copying of asset directories. -/
theorem run_assets (M : Mirror c start Q R) (hb : b.IsStandard) (hstart : start.IsProper)
    {directories : List AssetDirectory} (hdirectories : ∀ a ∈ directories,
      c.Copies start s.place.room.brackets b.settings.isOptimized a.source
        (Output.path s.place b.settings.output a.target))
    (r : Report) (h : R s u) : (b.run (directories.map .assets) r).Mirrored R Q s u := by
  induction directories generalizing r s u with
  | nil => exact .pure h r
  | cons a directories ih =>
    obtain ⟨ha, hrest⟩ := List.forall_mem_cons.1 hdirectories
    rw [List.map_cons, run_cons]
    refine Action.Mirrored.bind M.past (M.assets hb hstart ha r h) (precedes_run hb fun w hw => ?_)
      fun r' s' u' hs _ h' _ => ih ?_ r' h'
    · obtain ⟨a', -, rfl⟩ := List.mem_map.1 hw
      trivial
    · have hplace : s'.place = s.place := by
        have hlater := precedes_work hb (w := .assets a) trivial r s
        rw [show b.work r (.assets a) s = (.ok r', s') from hs] at hlater
        exact hlater.place
      rwa [hplace]

/-- A sitemap is made alike in both sessions, since it depends on the day only. -/
theorem makeSitemap (M : Mirror c start Q R) (hb : b.IsStandard) {o : SitemapOptions}
    (hwrites : ∀ document,
      c.Writes (Output.path s.place b.settings.output Sitemap.filename) (Text.encode document))
    (filenames : List String) (h : R s u) : (b.makeSitemap o filenames).Mirrored R Q s u := by
  rw [makeSitemap_eq_bind]
  refine Action.Mirrored.bind M.past (fun _ => ⟨rfl, M.told s u _ _ h⟩)
    (fun _ => Action.Within.get.bind fun s => (Action.Within.liftM _).bind
      (precedes_writeDocument hb))
    fun _ s₁ u₁ hs₁ _ h₁ _ => ?_
  unfold Action.Mirrored
  rw [bind_apply_ok (get_apply s₁), bind_apply_ok (get_apply u₁), M.today s₁ u₁ h₁]
  refine Action.Mirrored.bind M.past (.liftM h₁ _) (precedes_writeDocument hb)
    fun document? s₂ u₂ hs₂ _ h₂ _ => ?_
  cases document? with
  | none =>
      exact Action.Mirrored.bind M.past (M.said h₂ _ _ _) (fun _ => .pure _) fun _ _ _ _ _ h₃ _ =>
        .pure h₃ _
  | some document =>
    have hplace : s₂.place = s.place := by
      rw [← (Prod.mk.inj ((liftM_apply _ _).symm.trans hs₂)).2,
        ← (Prod.mk.inj ((modify_apply _ _).symm.trans hs₁)).2]
    have hdocument := hwrites document
    rw [← hplace] at hdocument
    unfold writeDocument
    rw [hb.store]
    exact Action.Mirrored.bind M.past (M.write h₂ hdocument) (fun _ => .pure _)
      fun _ _ _ _ _ h₃ _ => .pure h₃ _

/-- So it is written in both or in none. -/
theorem run_mapping (M : Mirror c start Q R) (hb : b.IsStandard)
    (hsitemap : b.settings.sitemap.isSome = true → b.settings.isOptimized = true → ∀ document,
      c.Writes (Output.path s.place b.settings.output Sitemap.filename) (Text.encode document))
    (r : Report) (filenames : List String) (h : R s u) :
    (b.run (b.mapping filenames) r).Mirrored R Q s u := by
  unfold mapping
  cases hoptions : b.settings.sitemap with
  | none => exact .pure h r
  | some o =>
    simp only
    split
    · rename_i hoptimized
      have hmake :=
        M.makeSitemap hb (o := o) (hsitemap (by rw [hoptions]; rfl) hoptimized) filenames h
      rw [run_cons]
      refine Action.Mirrored.bind M.past ?_ (fun _ => .pure _) fun _ _ _ _ _ h' _ => .pure h' _
      unfold Builder.work writeSitemap
      refine Action.Mirrored.bind M.past hmake.attempt (fun x => ?_) fun x s' u' _ _ h' _ => ?_
      · rcases x with fault | output?
        · exact Action.Within.bind (fun s => s.precedes_log _) fun _ => .pure _
        · cases output? <;> exact .pure _
      · rcases x with fault | output?
        · exact Action.Mirrored.bind M.past (M.said h' _ _ _) (fun _ => .pure _)
            fun _ _ _ _ _ h'' _ => .pure h'' _
        · cases output? <;> exact .pure h' _
    · exact .pure h r

/-- A full pass goes alike in sessions that mirror each other, if each of its attempts in the one is
the same in the other and the site stays in the scope of the mirror. -/
theorem fullPass (M : Mirror c start Q R) (hb : b.IsStandard) (hclean : b.settings.clean = false)
    (hstart : start.IsProper) (hstays : b.Stays c start s.place)
    (hattempts : ∀ a ∈ Request.full b s, a.Mirrors b c Q R)
    (h : R { s with phase := .building } { u with phase := .building }) :
    b.fullPass.Mirrored R Q { s with phase := .building } { u with phase := .building } := by
  have hcleaning := cleaning_eq_nil hclean
  -- Binding asks of what follows a part of the pass that it only carries the session on.
  have hlast : ∀ r : Report, (do
      modify fun s => { s with log := s.log ++ [finished r] }
      return r : Action σ Report).Within Session.Precedes :=
    fun r => Action.Within.bind (fun s => s.precedes_log _) fun _ => .pure _
  have hmapping : ∀ x : Report × List String, (do
      let r ← b.run (b.mapping x.2) x.1
      modify fun s => { s with log := s.log ++ [finished r] }
      return r : Action σ Report).Within Session.Precedes :=
    fun x => (precedes_mapping hb x.1 x.2).bind hlast
  have hpages : ∀ r : Report, (do
      let x ← b.buildPages r (b.settings.pages.filter Page.isWritten)
      let r ← b.run (b.mapping x.2) x.1
      modify fun s => { s with log := s.log ++ [finished r] }
      return r : Action σ Report).Within Session.Precedes :=
    fun r => (precedes_buildPages hb r _).bind hmapping
  have hstyles : ∀ r : Report, (b.run (b.styles.map .style) r).Within Session.Precedes := by
    refine fun r => precedes_run hb (fun w hw => ?_) r
    obtain ⟨sheet, -, rfl⟩ := List.mem_map.1 hw
    trivial
  unfold Builder.fullPass
  simp only [hcleaning, List.nil_append]
  refine Action.Mirrored.bind M.past
    (M.run_assets (s := { s with phase := .building }) hb hstart hstays.assets _ h)
      (fun r => (hstyles r).bind hpages)
    fun r₁ s₁ u₁ hs₁ _ h₁ _ => ?_
  -- The attempts of the request are those for the stylesheets and then those for the pages.
  have hfull : Request.full b s = b.attempts b.entries r₁ s₁ :=
    full_eq_attempts hb.isFiling hs₁ (by rw [hcleaning, run_nil])
  have hworks : b.styles.map Work.style = (b.styles.map Entry.style).map Entry.work := by
    rw [List.map_map]
    rfl
  have hplace₁ : s₁.place = s.place := (keeps_of_run hb.isFiling hs₁).place
  have hmirrored : ∀ {r₂ s₂}, b.run (b.styles.map .style) r₁ s₁ = (.ok r₂, s₂) →
      ∀ a ∈ b.attempts (b.styles.map .style) r₁ s₁ ++
        b.attempts ((b.settings.pages.filter Page.isWritten).map .page) r₂ s₂,
          a.Mirrors b c Q R := by
    intro r₂ s₂ hs₂ a ha
    refine hattempts a ?_
    rw [hfull, entries, attempts_append _ hs₂]
    exact ha
  have hbuilt : ∀ a ∈ b.attempts (b.styles.map .style) r₁ s₁, a.Mirrors b c Q R := by
    intro a ha
    obtain ⟨r₂, s₂, hs₂, -⟩ := run_keeps hb.isFiling (b.styles.map .style) r₁ s₁
    exact hmirrored hs₂ a (List.mem_append_left _ ha)
  rw [hworks] at hbuilt hstyles ⊢
  refine Action.Mirrored.bind M.past (M.run_entries hb hbuilt h₁) hpages
    fun r₂ s₂ u₂ hs₂ _ h₂ _ => ?_
  rw [← hworks] at hs₂
  have hplace₂ : s₂.place = s₁.place := (keeps_of_run hb.isFiling hs₂).place
  refine Action.Mirrored.bind M.past
    (M.buildPages hb (fun a ha => hmirrored hs₂ a (List.mem_append_right _ ha)) h₂) hmapping
    fun x s₃ u₃ hs₃ _ h₃ _ => ?_
  have hplace₃ : s₃.place = s₂.place := by
    have hlater := precedes_buildPages hb r₂ (b.settings.pages.filter Page.isWritten) s₂
    rw [hs₃] at hlater
    exact hlater.place
  refine Action.Mirrored.bind M.past (M.run_mapping hb ?_ x.1 x.2 h₃) hlast
    fun r₄ s₄ u₄ _ _ h₄ _ => ?_
  · rw [hplace₃, hplace₂, hplace₁]
    exact hstays.sitemap
  · exact Action.Mirrored.bind M.past (fun _ => ⟨rfl, M.told s₄ u₄ _ _ h₄⟩) (fun _ => .pure _)
      fun _ _ _ _ _ h₅ _ => .pure h₅ _

end Mirror

end StaticSite
