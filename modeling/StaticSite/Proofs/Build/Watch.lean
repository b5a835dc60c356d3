import StaticSite.Proofs.Build.Incremental
import StaticSite.Proofs.Build.Tidy

/-!
# Watching a site

A site is watched from a full pass on: file after file is edited, and each edit is followed by an
incremental pass for the file (`Watched`). As long as no pass has an error and no source lies in the
output directory, every entry is current after every pass (`Watched.isCurrent`): what it would be
made into is what its file, its name and its record show. An entry that a pass does not owe does not
depend on the edited file, since its record names every file that is read for it, and none of the
stylesheets that it links got another name.
-/

namespace StaticSite.Builder

variable {σ : Type} {b : Builder σ} {w : Work} {s s' : Session σ} {f : Path} {t : Tree} {m : Made}

/-- A pass leads from a session to another without an error. -/
def Passes (pass : Action σ Report) (s s' : Session σ) : Prop :=
  ∃ r, pass.perform s = (.ok r, s') ∧ r.errors = []

/-- The files that are read for the entries of a site, whether they are there or not. -/
def sources (b : Builder σ) (s : Session σ) : List Path := b.entries.flatMap fun w => w.reads b s

/-- No file that is read for an entry lies in the output directory. -/
def HasSourcesOutside (b : Builder σ) (s : Session σ) : Prop :=
  ∀ q ∈ b.sources s, ¬b.settings.output.names <+: q.names

/-- An edit of one file that is not in the output directory and not the source of a page. -/
structure Admits (b : Builder σ) (s : Session σ) (f : Path) (t : Tree) : Prop where
  /-- One file was written or removed. -/
  edited : Tree.Edited f.names s.tree t
  /-- It does not lie in the output directory. -/
  outside : ¬b.settings.output.names <+: f.names
  /-- It is not the source of a page. -/
  notSource : ∀ p ∈ b.settings.pages, p.isWritten = true → ∀ source, p.source = some source →
    source.names ≠ f.names
  /-- Where it is read it is spelled in the same way. -/
  spelled : ∀ q ∈ b.sources s, q.names = f.names → q = f

/-- The sessions that a watched site comes to. -/
inductive Watched (b : Builder σ) : Session σ → Prop where
  /-- A full pass without an error, after whatever was built before. -/
  | buildAll {s s' : Session σ} (hs : b.Reachable s) (hpass : Passes b.buildAll s s')
      (hsources : b.HasSourcesOutside s') : Watched b s'
  /-- An edit and an incremental pass for it without an error. -/
  | rebuild {s s' : Session σ} {f : Path} {t : Tree} (today : Day) (hs : Watched b s)
      (hedit : b.Admits s f t)
      (hpass : Passes (b.rebuild f) { s with tree := t, today } s')
        (hsources : b.HasSourcesOutside s') :
      Watched b s'

/-- What an entry would be made into is what its file, its name and its record show. -/
def Work.IsCurrent (b : Builder σ) (w : Work) (s : Session σ) : Prop :=
  ∃ m, w.made b s = some m ∧ w.IsShown s m

/-- The session after the asset directories of a full pass were copied. -/
def afterAssets (b : Builder σ) (s : Session σ) : Session σ :=
  ((b.run (b.settings.assetDirectories.map .assets) (.start "full" b.settings.mode none)).perform
    { s with phase := .building }).2

/-- A watched site is reached by passes. -/
theorem Watched.reachable (h : b.Watched s) : b.Reachable s := by
  induction h with
  | buildAll hs hpass =>
    obtain ⟨r, hpass, -⟩ := hpass
    have := Reachable.buildAll hs
    rwa [hpass] at this
  | @rebuild s s' f t today _ _ hpass _ ih =>
    obtain ⟨r, hpass, -⟩ := hpass
    have := Reachable.rebuild f (.between t today ih)
    rwa [hpass] at this

/-- Passes stay in their place. -/
theorem place_of_buildAll (hb : b.IsStandard) (hs : Settled s) {r : Report}
    (h : b.buildAll.perform s = (.ok r, s')) : s'.place = s.place := by
  obtain ⟨filenames, r', s₁, log, hrun, happly⟩ := buildAll_spec hb.isFiling hs.idle
  cases h.symm.trans happly
  exact (keeps_of_run hb.isFiling hrun).place

/-- An incremental pass that reports keeps the place. -/
theorem place_of_rebuild (hb : b.IsStandard) (hs : Settled s) {r : Report}
    (h : (b.rebuild f).perform s = (.ok r, s')) : s'.place = s.place := by
  obtain ⟨r', s₁, log, hrun, happly⟩ := rebuild_spec hb.isFiling hs.idle hs.proper.once f
  cases h.symm.trans happly
  exact (keeps_of_run hb.isFiling hrun).place

/-- What is read for an entry is a source of the site. -/
theorem mem_sources {q : Path} (hw : w ∈ b.entries) (hq : q ∈ w.reads b s) : q ∈ b.sources s :=
  List.mem_flatMap.2 ⟨w, hw, hq⟩

/-! ## What passes do to an entry -/

/-- A piece of work that is done from the beginning of a pass on is done from the session before. -/
theorem Work.IsDone.begin {errors : List String} {s₁ s₂ : Session σ} {phase : Phase}
    (h : w.IsDone b { s with phase } s' errors s₁ s₂) : w.IsDone b s s' errors s₁ s₂ :=
  ⟨⟨⟨h.before.place, h.before.names, h.before.records, h.before.files⟩, h.before.writable⟩,
    h.ends, h.after, h.writesBefore, h.writesAfter, h.writesLast, h.links⟩

/-- A piece of work that is done up to the end of a pass is done in the session afterwards. -/
theorem Work.IsDone.finish {errors : List String} {s₁ s₂ : Session σ} {phase : Phase}
    {log : List Log.Line} (h : w.IsDone b s s' errors s₁ s₂) :
    w.IsDone b s { s' with phase, log } errors s₁ s₂ :=
  ⟨h.before, h.ends,
    ⟨⟨h.after.place, h.after.names, h.after.records, h.after.files⟩, h.after.writable⟩,
    h.writesBefore, h.writesAfter, h.writesLast, h.links⟩

/-- Stylesheets of the site and pages that are written are entries. -/
theorem mem_entries_of_mem_append {styles : List Stylesheet} {pages : List Page}
    (hstyles : styles ⊆ b.styles) (hpages : pages ⊆ b.settings.pages.filter Page.isWritten)
    (hw : w ∈ styles.map .style ++ pages.map .page) : w ∈ b.entries := by
  refine mem_entries.2 ((List.mem_append.1 hw).imp (fun hw => ?_) fun hw => ?_)
  · obtain ⟨style, hstyle, rfl⟩ := List.mem_map.1 hw
    exact ⟨style, hstyles hstyle, rfl⟩
  · obtain ⟨p, hp, rfl⟩ := List.mem_map.1 hw
    obtain ⟨hp, hwritten⟩ := List.mem_filter.1 (hpages hp)
    exact ⟨p, hp, hwritten, rfl⟩

/-- The pieces of work for stylesheets and pages are different if the stylesheets and the pages are.
-/
theorem nodup_append_of_nodup {styles : List Stylesheet} {pages : List Page}
    (hstyles : styles.Nodup) (hpages : (pages.map Work.page).Nodup) :
    (styles.map Work.style ++ pages.map Work.page).Nodup := by
  refine List.nodup_append.2 ⟨hstyles.map fun _ _ => Work.style.inj, hpages, ?_⟩
  rintro _ hstyle _ hpage rfl
  obtain ⟨style, -, rfl⟩ := List.mem_map.1 hstyle
  obtain ⟨p, -, hp⟩ := List.mem_map.1 hpage
  cases hp

/-- Pages come after stylesheets, so that nothing from an entry on gives a name to a stylesheet that
it links. -/
theorem exists_split (b : Builder σ) {styles : List Stylesheet} {pages : List Page}
    (hw : w ∈ styles.map .style ++ pages.map .page) :
    ∃ pre post, styles.map .style ++ pages.map .page = pre ++ w :: post ∧
      ∀ w' ∈ w :: post, ∀ style ∈ w.links b, style ∉ w'.styles := by
  rcases List.mem_append.1 hw with hstyle | hpage
  · obtain ⟨pre, post, hsplit⟩ := List.append_of_mem hstyle
    obtain ⟨style, -, rfl⟩ := List.mem_map.1 hstyle
    refine ⟨pre, post ++ pages.map .page, by rw [hsplit, List.append_assoc, List.cons_append], ?_⟩
    exact fun w' _ other hother => hother.elim
  · obtain ⟨pre, post, hsplit⟩ := List.append_of_mem hpage
    refine ⟨styles.map .style ++ pre, post, by rw [hsplit, List.append_assoc],
      fun w' hw' other _ => ?_⟩
    obtain ⟨p, -, rfl⟩ :=
      List.mem_map.1 (hsplit ▸ List.mem_append_right pre hw' : w' ∈ pages.map Work.page)
    exact id

/-- A run over different stylesheets and then some of the pages that are written, and maybe the
sitemap, does each of its entries once. -/
theorem IsTidy.exists_isDone_of_mem (hb : b.IsStandard) (h : b.IsTidy s.place)
    {styles : List Stylesheet} {pages : List Page} {tail : List Work} {filenames : List String}
    (hnodup : styles.Nodup) (hstyles : styles ⊆ b.styles)
    (hpages : pages.Sublist (b.settings.pages.filter Page.isWritten))
    (htail : tail ⊆ b.mapping filenames) (hw : w ∈ styles.map .style ++ pages.map .page)
    {r r' : Report}
    (hrun : b.run (styles.map .style ++ pages.map .page ++ tail) r s = (.ok r', s')) :
    ∃ s₁ s₂, w.IsDone b s s' r'.errors s₁ s₂ := by
  have hwmem : w ∈ b.entries := mem_entries_of_mem_append hstyles hpages.subset hw
  have hin : ∀ w' ∈ styles.map .style ++ pages.map .page ++ tail,
      w' ∈ b.entries ++ b.mapping filenames :=
    fun w' hw' => List.mem_append.2 ((List.mem_append.1 hw').imp
      (mem_entries_of_mem_append hstyles hpages.subset) fun hw' => htail hw')
  have hsitemap : ∀ w' ∈ tail, ∃ o, w' = .sitemap o filenames := by
    intro w' hw'
    obtain ⟨o, rfl, -⟩ := mem_mapping (htail hw')
    exact ⟨o, rfl⟩
  have hall := nodup_append_of_nodup hnodup
    (h.nodup.sublist ((hpages.map Work.page).trans (List.sublist_append_right _ _)))
  obtain ⟨pre, post, hsplit, hlinks⟩ := exists_split b hw
  rw [hsplit] at hall hin hrun
  rw [List.append_assoc, List.cons_append] at hin hrun
  -- The other entries are apart from this one because none is it, and the sitemap is no entry at
  -- all.
  have hnot : w ∉ pre ++ post := (List.nodup_cons.1 (List.nodup_middle.1 hall)).1
  refine h.exists_isDone hb hin (isEntry_of_mem hwmem) (fun w' hw' => ?_)
    (fun w' hw' style hstyle => ?_) hrun
  · have hw'in : w' ∈ pre ++ w :: (post ++ tail) := by
      rcases List.mem_append.1 hw' with hpre | hpost
      · exact List.mem_append_left _ hpre
      · exact List.mem_append_right _ (List.mem_cons_of_mem _ hpost)
    refine h.apart_of_ne hwmem (hin w' hw'in) ?_
    rw [← List.append_assoc] at hw'
    rcases List.mem_append.1 hw' with hentry | htail'
    · rintro rfl
      exact hnot hentry
    · obtain ⟨o, rfl⟩ := hsitemap w' htail'
      rintro rfl
      exact isEntry_of_mem hwmem
  · rw [← List.cons_append] at hw'
    rcases List.mem_append.1 hw' with hentry | htail'
    · exact hlinks w' hentry style hstyle
    · obtain ⟨o, rfl⟩ := hsitemap w' htail'
      exact id

/-- Copying asset directories works on files alone. -/
theorem run_assets_keepsBook (hb : b.IsStandard) (directories : List AssetDirectory) (r : Report)
    (s : Session σ) : ∃ r' s', b.run (directories.map .assets) r s = (.ok r', s') ∧
    s.KeepsBook s' := by
  induction directories generalizing r s with
  | nil => exact ⟨r, s, rfl, refl_of _ s⟩
  | cons a rest ih =>
    obtain ⟨r₁, s₁, hcopy, hbook⟩ := copyAssets_spec hb.isFiling.store r a s
    obtain ⟨r', s', hrun, hbook'⟩ := ih r₁ s₁
    refine ⟨r', s', ?_, trans_of _ hbook hbook'⟩
    rw [List.map_cons, run_cons, bind_apply_ok (show b.work r (.assets a) s = _ from hcopy), hrun]

/-- What a pass may do besides building some entries. -/
structure PassFrame (b : Builder σ) (s s' : Session σ) : Prop where
  /-- The place is the same. -/
  place : s'.place = s.place
  /-- A stylesheet that is not of the site keeps its name. -/
  names : ∀ style, style ∉ b.styles → s'.names.lookup style = s.names.lookup style
  /-- A key that is not of the site keeps its record. -/
  records : ∀ k, k ∉ keysOf b.entries → s'.records.find? k = s.records.find? k
  /-- Nothing is written but outputs. -/
  tree : Tree.ChangedOnly {l | b.settings.output.names <+: l} s.tree s'.tree

/-- A run over entries of a tidy site does nothing besides them that a pass may not do. -/
theorem IsTidy.passFrame_of_run (hb : b.IsStandard) (h : b.IsTidy s.place) {works : List Work}
    {filenames : List String} (hworks : works ⊆ b.entries ++ b.mapping filenames) {r r' : Report}
    (hrun : b.run works r s = (.ok r', s')) : b.PassFrame s s' := by
  have hchanged := h.changedOnly_of_run hb (fun w hw => hworks hw) hrun
  refine ⟨hchanged.place, fun style hstyle => hchanged.names style ?_,
    fun k hk => hchanged.records k ?_, hchanged.tree⟩
  · rintro ⟨w, hw, hmem⟩
    rcases List.mem_append.1 (hworks hw) with hw | hw
    · rcases mem_entries.1 hw with ⟨other, hother, rfl⟩ | ⟨p, -, -, rfl⟩
      · exact hstyle (Set.mem_singleton_iff.1 hmem ▸ hother)
      · exact hmem
    · obtain ⟨o, rfl, -⟩ := mem_mapping hw
      exact hmem
  · rintro ⟨w, hw, hmem⟩
    rcases List.mem_append.1 (hworks hw) with hw | hw
    · exact hk ⟨w, hw, hmem⟩
    · obtain ⟨o, rfl, -⟩ := mem_mapping hw
      exact hmem

/-- A tidy site has no stylesheet twice. -/
theorem nodup_styles_of_isTidy {place : Place} (h : b.IsTidy place) : b.styles.Nodup :=
  (List.nodup_append.1 h.nodup).1.of_map _

/-- A full pass copies the asset directories, builds every entry once, and does nothing else that
concerns entries. -/
theorem IsTidy.buildAll_isDone (hb : b.IsStandard) (h : b.IsTidy s.place)
    (hidle : s.phase = .idle) :
    ∃ r s', b.buildAll.perform s = (.ok r, s') ∧
      (b.afterAssets s).place = s.place ∧ (b.afterAssets s).records = s.records ∧
      (b.afterAssets s).names = s.names ∧ b.PassFrame (b.afterAssets s) s' ∧
      ∀ w ∈ b.entries, ∃ s₁ s₂, w.IsDone b (b.afterAssets s) s' r.errors s₁ s₂ := by
  obtain ⟨filenames, r, s₁, log, hrun, happly⟩ := buildAll_spec hb.isFiling hidle
  obtain ⟨r₀, s₀, hassets, hbook⟩ := run_assets_keepsBook hb b.settings.assetDirectories
    (.start "full" b.settings.mode none) { s with phase := .building }
  have hafter : b.afterAssets s = s₀ := by
    unfold afterAssets Action.perform
    rw [hassets]
  have hclean : b.cleaning = [] := by
    unfold cleaning
    cases b.styles with
    | nil => rfl
    | cons first rest => simp only [h.unclean, Bool.false_eq_true, if_false]
  -- What is left of the pass after the copying begins in the session that it left.
  have hrest : b.run (b.entries ++ b.mapping filenames) r₀ s₀ = (.ok r, s₁) := by
    rw [everything, hclean, List.nil_append, run_append_apply hassets] at hrun
    exact hrun
  have htidy : b.IsTidy s₀.place := by rwa [hbook.place]
  refine ⟨r, _, happly, ?_, ?_, ?_, ?_, fun w hw => ?_⟩
  · rw [hafter, hbook.place]
  · rw [hafter, hbook.records]
  · rw [hafter, hbook.names]
  · obtain ⟨hplace, hnames, hrecords, htree⟩ :=
      htidy.passFrame_of_run hb (List.Subset.refl _) hrest
    rw [hafter]
    exact ⟨hplace, hnames, hrecords, htree⟩
  · obtain ⟨s₂, s₃, hdone⟩ :=
      htidy.exists_isDone_of_mem hb (nodup_styles_of_isTidy h) (List.Subset.refl _)
      (List.Sublist.refl _) (List.Subset.refl (b.mapping filenames)) hw hrest
    rw [hafter]
    exact ⟨s₂, s₃, hdone.finish⟩

/-- An incremental pass owes different stylesheets and then some of the pages that are written. -/
theorem exists_owed (b : Builder σ) (s s' : Session σ) (f : Path) :
    ∃ pages : List Page, pages.Sublist (b.settings.pages.filter Page.isWritten) ∧
      b.owed s s' f = (b.owedStyles s f).map .style ++ pages.map .page := by
  classical
  refine ⟨_, ?_, rfl⟩
  have hfilter : (b.settings.pages.filter fun p => b.OwesPage s s' f p) =
      (b.settings.pages.filter Page.isWritten).filter fun p => b.OwesPage s s' f p := by
    rw [List.filter_filter]
    refine List.filter_congr fun p _ => ?_
    by_cases howes : b.OwesPage s s' f p
    · obtain ⟨k, hk, -⟩ := howes
      simp [isWritten_of_pageKey?_eq hk]
    · simp [howes]
  rw [hfilter]
  exact List.filter_sublist

/-- What is owed for a file is an entry. -/
theorem mem_entries_of_mem_owed (h : w ∈ b.owed s s' f) : w ∈ b.entries := by
  obtain ⟨pages, hpages, howed⟩ := exists_owed b s s' f
  rw [howed] at h
  exact mem_entries_of_mem_append (fun style hstyle => (mem_recorded hstyle).1) hpages.subset h

/-- An incremental pass builds every entry that it owes once, and does nothing else that concerns
entries. -/
theorem IsTidy.rebuild_isDone (hb : b.IsStandard) (h : b.IsTidy s.place)
    (hs : Settled s) (f : Path) :
    ∃ r s', (b.rebuild f).perform s = (.ok r, s') ∧ b.PassFrame s s' ∧
      (∀ w ∈ b.owed s s' f, ∃ s₁ s₂, w.IsDone b s s' r.errors s₁ s₂) ∧
      ∀ w ∈ b.entries, w ∉ b.owed s s' f → w.Spares b s s' := by
  obtain ⟨r, s₁, log, hrun, happly⟩ := rebuild_spec hb.isFiling hs.idle hs.proper.once f
  obtain ⟨pages, hpages, howed⟩ := exists_owed b s s₁ f
  have hsub : b.owed s s₁ f ⊆ b.entries := fun w hw => mem_entries_of_mem_owed hw
  refine ⟨r, { s₁ with phase := .idle, log }, happly, ?_, fun w hw => ?_, fun w hw hnot => ?_⟩
  · have hworks : b.owed s s₁ f ⊆ b.entries ++ b.mapping [] :=
      List.subset_append_of_subset_left _ hsub
    obtain ⟨hplace, hnames, hrecords, htree⟩ :=
      IsTidy.passFrame_of_run hb (s := { s with phase := .building }) h hworks hrun
    exact ⟨hplace, hnames, hrecords, htree⟩
  · have hw' : w ∈ b.owed s s₁ f := hw
    rw [howed] at hrun hw'
    rw [← List.append_nil ((b.owedStyles s f).map Work.style ++ pages.map Work.page)] at hrun
    obtain ⟨s₂, s₃, hdone⟩ := IsTidy.exists_isDone_of_mem hb (s := { s with phase := .building }) h
      (nodup_owedStyles hs.proper f) (fun style hstyle => (mem_recorded hstyle).1) hpages
      (List.nil_subset (b.mapping [])) hw' hrun
    exact ⟨s₂, s₃, hdone.begin.finish⟩
  · have hspares := Work.spares_of_run (s := { s with phase := .building }) hb
      (fun w' hw' => isProduct_of_isEntry (isEntry_of_mem (hsub hw'))) (w := w)
        (fun w' hw' => ?_) hs.cwd hrun
    · exact ⟨⟨hspares.place, hspares.names, hspares.records, hspares.files⟩, hspares.writable⟩
    · refine h.apart_of_ne hw (List.mem_append_left (b.mapping []) (hsub hw')) ?_
      rintro rfl
      exact hnot hw'

/-! ## What an edit leaves alone -/

/-- Above an output stands the output directory, with all above it. -/
theorem IsTidy.stands {place : Place} (h : b.IsTidy place) (hw : w ∈ b.entries) {l : Location}
    (hl : l ∈ w.candidates b.settings place) (hleads : t.Leads l) :
    t.Stands b.settings.output.names := by
  obtain ⟨hpre, hne⟩ := h.inside_of_mem (List.mem_append_left (b.mapping []) hw) hl
  intro k hk
  refine hleads k (hk.trans hpre) ?_
  rintro rfl
  exact hne (hk.eq_of_length (Nat.le_antisymm hk.length_le hpre.length_le))

/-- An edit leaves every output alone. -/
theorem Admits.agrees (h : b.Admits s f t) (htidy : b.IsTidy s.place) (hw : w ∈ b.entries)
    (today : Day) :
    w.Agrees b s { s with tree := t, today } := by
  refine ⟨rfl, fun _ _ => rfl, fun _ _ => rfl,
    fun l hl => Tree.bytes?_congr (h.edited.at_eq fun hpre => ?_)⟩
  exact h.outside ((htidy.inside_of_mem (List.mem_append_left (b.mapping []) hw) hl).1.trans hpre)

/-- An edit of a file that is not recorded of an entry changes no text that is read for it. -/
theorem Admits.readText (h : b.Admits s f t) (hb : b.IsStandard) (htidy : b.IsTidy s.place)
    (hw : w ∈ b.entries) (hmade : w.made b s = some m) {record : Record}
    (hrecord : m.record = some record) (hf : f ∉ record.dependencies) (today : Day) {q : Path}
    (hq : q ∈ w.reads b s) :
    ({ s with tree := t, today } : Session σ).readText q = s.readText q := by
  have hgrounded := htidy.isGrounded_of_mem hw
  obtain ⟨⟨text, htext⟩, hmem⟩ := Work.mem_reads_of_made hb htidy.cwd hmade hrecord hq
  refine h.edited.readText
    (Work.isGrounded_of_mem_reads htidy.cwd.isGrounded.absolute hgrounded hq) rfl
    (fun hnames => ?_) htext
  -- A path that is read there is the edited one, which is neither recorded nor the source of a
  -- page.
  rcases hmem with hmem | ⟨p, rfl, hsource⟩
  · rw [h.spelled q (mem_sources hw hq) hnames] at hmem
    exact hf hmem
  · rcases mem_entries.1 hw with ⟨style, -, hstyle⟩ | ⟨p', hp', hwritten, heq⟩
    · cases hstyle
    · cases heq
      exact h.notSource p hp' hwritten q hsource hnames

/-- The stylesheet of the site that has the key of a record. -/
theorem styleOf?_of_mem {style : Stylesheet} (hmem : style ∈ b.styles) {record : Record}
    (hkey : record.key = (style.source, style.filename)) : b.styleOf? record = some style := by
  cases hfind : b.styleOf? record with
  | none =>
    have := List.find?_eq_none.1 hfind style hmem
    simp [hkey] at this
  | some other =>
    obtain ⟨-, hother⟩ := styleOf?_eq_some hfind
    obtain ⟨source, filename⟩ := style
    obtain ⟨source', filename'⟩ := other
    obtain ⟨rfl, rfl⟩ := Prod.mk.inj (hother.trans hkey)
    rfl

/-- The file is not recorded of an entry that an incremental pass for it does not owe. -/
theorem notMem_dependencies_of_notMem_owed {s₀ : Session σ} (hw : w ∈ b.entries)
    (hmade : w.made b s₀ = some m) {record : Record} (hrecord : m.record = some record)
    (hfind : s.records.find? record.key = some record) (hnot : w ∉ b.owed s s' f) :
    f ∉ record.dependencies := by
  intro hf
  have hmem : record ∈ s.records := List.mem_of_find?_eq_some hfind
  have howner : record ∈ s.records.owners f :=
    List.mem_filter.2 ⟨hmem, by simpa [Record.names] using hf⟩
  rcases mem_entries.1 hw with ⟨style, hstyle, rfl⟩ | ⟨p, hp, hwritten, rfl⟩
  · obtain ⟨product, -, rfl⟩ := Work.made_style_eq_some.1 hmade
    obtain rfl := Option.some.inj hrecord
    refine hnot (style_mem_owed.2 (List.mem_filterMap.2 ⟨_, List.mem_filter.2 ⟨howner, ?_⟩, ?_⟩))
    · simp
    · exact styleOf?_of_mem hstyle rfl
  · obtain ⟨source, rendered, hsource, -, rfl⟩ := Work.made_page_eq_some.1 hmade
    unfold Made.ofPage at hrecord
    simp only at hrecord
    split at hrecord
    · obtain rfl := Option.some.inj hrecord
      refine hnot
        ((page_mem_owed hp).2 ⟨_, pageKey?_of_mem_keys hwritten ⟨source, hsource, rfl⟩, .inl ?_⟩)
      exact ⟨_, hmem, rfl, hf, rfl⟩
    · cases hrecord

/-- A stylesheet that an entry links keeps its name in an incremental pass that does not owe the
entry. -/
theorem lookup_eq_of_notMem_owed (hframe : b.PassFrame s s')
    (hspares : ∀ w ∈ b.entries, w ∉ b.owed s s' f → w.Spares b s s') (hw : w ∈ b.entries)
    (hnot : w ∉ b.owed s s' f) {style : Stylesheet} (hstyle : style ∈ w.links b) :
    s'.names.lookup style = s.names.lookup style := by
  rcases mem_entries.1 hw with ⟨other, -, rfl⟩ | ⟨p, hp, hwritten, rfl⟩
  · exact hstyle.elim
  · -- A page that links a renamed stylesheet is owed.
    by_contra hne
    refine hnot ((page_mem_owed hp).2 ?_)
    obtain ⟨k, hk⟩ := exists_pageKey?_eq hwritten
    by_cases howed : style ∈ b.owedStyles s f
    · exact ⟨k, hk, .inr ⟨style, howed, hne, p, hp, hk, hstyle⟩⟩
    · refine absurd ?_ hne
      by_cases hmem : style ∈ b.styles
      · exact (hspares _ (mem_entries.2 (.inl ⟨style, hmem, rfl⟩)) fun h => howed
          (style_mem_owed.1 h)).names
          style rfl
      · exact hframe.names style hmem

/-! ## Entries stay current -/

/-- An entry that a pass without an error does is current afterwards. -/
theorem Work.IsDone.isCurrent (hb : b.IsStandard) (htidy : b.IsTidy s.place) (hw : w ∈ b.entries)
    {s₁ s₂ : Session σ} (h : w.IsDone b s s' [] s₁ s₂) (hsources : b.HasSourcesOutside s') :
    w.IsCurrent b s' := by
  have hgrounded := htidy.isGrounded_of_mem hw
  have hplace₁ : s₁.place = s.place := h.before.place
  have hcwd : s₁.place.cwd.IsNormal := by
    rw [hplace₁]
    exact htidy.cwd
  obtain ⟨c, hends, hclean⟩ := h.ends
  obtain rfl := hclean rfl
  obtain ⟨m, hmade, hshown⟩ := hends.isShown
  obtain ⟨hplace₂, -⟩ := hends.of_made_eq_some hmade
  have hplace : s'.place = s₁.place := h.after.place.trans hplace₂
  obtain ⟨record, hrecord, -⟩ := hshown.recorded
  refine ⟨m, (Work.made_congr hb htidy.unlisted hplace ?_ h.links).trans hmade,
    hshown.of_agrees hmade hplace₂.symm h.after.toAgrees (h.writesLast.leads hshown.leads)⟩
  -- What was read when it was made lies outside the output directory, where alone the pass writes.
  intro q hq hq'
  obtain ⟨⟨text, htext⟩, -⟩ := Work.mem_reads_of_made hb hcwd hmade hrecord hq
  exact Session.readText_of_writes
    (Work.isGrounded_of_mem_reads hcwd.isGrounded.absolute hgrounded hq) hplace
    h.writesAfter (fun _ hl => hl) (hsources q (mem_sources hw hq')) htext

/-- An entry that an incremental pass does not owe stays current. -/
theorem Work.IsCurrent.of_notMem_owed (hb : b.IsStandard) (htidy : b.IsTidy s.place)
    (hw : w ∈ b.entries) (h : w.IsCurrent b s) (hedit : b.Admits s f t) {today : Day}
    (hframe : b.PassFrame { s with tree := t, today } s')
    (hspares : ∀ w ∈ b.entries, w ∉ b.owed { s with tree := t, today } s' f →
      w.Spares b { s with tree := t, today } s')
    (hnot : w ∉ b.owed { s with tree := t, today } s' f) (hsources : b.HasSourcesOutside s') :
    w.IsCurrent b s' := by
  have hgrounded := htidy.isGrounded_of_mem hw
  have habsolute := htidy.cwd.isGrounded.absolute
  obtain ⟨m, hmade, hshown⟩ := h
  obtain ⟨record, hrecord, hfind⟩ := hshown.recorded
  have hf : f ∉ record.dependencies := notMem_dependencies_of_notMem_owed
    (s := { s with tree := t, today }) hw hmade hrecord hfind hnot
  have hlinks : ∀ style ∈ w.links b, s'.names.lookup style = s.names.lookup style :=
    fun style hstyle => lookup_eq_of_notMem_owed hframe hspares hw hnot hstyle
  have hplace : s'.place = s.place := hframe.place
  refine ⟨m, (Work.made_congr hb htidy.unlisted hplace ?_ hlinks).trans hmade,
    hshown.of_agrees hmade rfl ((hedit.agrees htidy hw today).trans (hspares w hw hnot).toAgrees)
      (hframe.tree.leads (hedit.edited.leads hshown.leads))⟩
  -- Neither the edit nor the pass changes a text that is read for it.
  intro q hq hq'
  have hedited := hedit.readText hb htidy hw hmade hrecord hf today hq
  obtain ⟨⟨text, htext⟩, -⟩ := Work.mem_reads_of_made hb htidy.cwd hmade hrecord hq
  refine .trans ?_ hedited
  exact Session.readText_of_writes
    (Work.isGrounded_of_mem_reads habsolute hgrounded hq) hframe.place
    hframe.tree (fun _ hl => hl) (hsources q (mem_sources hw hq')) (hedited.trans htext)

/-- Whatever is edited, every entry of a watched site is current after every pass. -/
theorem Watched.isCurrent (hb : b.IsStandard) (h : b.Watched s) (htidy : b.IsTidy s.place)
    (hw : w ∈ b.entries) :
    w.IsCurrent b s := by
  -- The induction is on the passes: a full one does every entry, an incremental one those that may
  -- have changed.
  induction h generalizing w with
  | @buildAll s s' hs hpass hsources =>
    obtain ⟨r, hpass, hclean⟩ := hpass
    have hsettled := hs.settled hb
    have htidy' : b.IsTidy s.place := place_of_buildAll hb hsettled hpass ▸ htidy
    obtain ⟨r', s'', happly, hafter, -, -, -, hdone⟩ := htidy'.buildAll_isDone hb hsettled.idle
    cases hpass.symm.trans happly
    obtain ⟨s₁, s₂, hdone⟩ := hdone w hw
    rw [hclean] at hdone
    exact hdone.isCurrent hb (by rwa [hafter]) hw hsources
  | @rebuild s s' f t today hs hedit hpass hsources ih =>
    obtain ⟨r, hpass, hclean⟩ := hpass
    have hsettled : Settled { s with tree := t, today } :=
      (Reachable.between t today hs.reachable).settled hb
    have htidy' : b.IsTidy s.place := place_of_rebuild hb hsettled hpass ▸ htidy
    obtain ⟨r', s'', happly, hframe, howed, hspares⟩ :=
      IsTidy.rebuild_isDone hb (s := { s with tree := t, today }) htidy' hsettled f
    cases hpass.symm.trans happly
    by_cases hmem : w ∈ b.owed { s with tree := t, today } s' f
    · obtain ⟨s₁, s₂, hdone⟩ := howed w hmem
      rw [hclean] at hdone
      exact Work.IsDone.isCurrent hb (s := { s with tree := t, today }) htidy' hw hdone hsources
    · exact (ih htidy' hw).of_notMem_owed hb htidy' hw hedit hframe hspares hmem hsources

end StaticSite.Builder
