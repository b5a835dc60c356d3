import Mathlib.Data.List.Nodup
import Mathlib.Data.Set.Insert
import StaticSite.Proofs.Build.Entry
import StaticSite.Proofs.Include.Success

/-!
# Passes as runs

A full pass is a run over the assets, the stylesheets, the pages and the sitemap (`buildAll_spec`),
and an incremental pass one over the stylesheets and pages that it owes (`rebuild_spec`). Neither
fails, and both leave the records as proper as they find them: one for each key, and no page
recorded among its own files.
-/

namespace StaticSite

variable {σ α β : Type}

/-- Records as builds keep them. -/
structure Records.IsProper (rs : Records) : Prop where
  /-- There is one record for each key. -/
  once : (rs.map Record.key).Nodup
  /-- No page is among the files that it was made from. -/
  rootless : ∀ record ∈ rs, record.kind = .page → record.root ∉ record.dependencies

/-- A record that is kept is the new one or was there before. -/
theorem Records.mem_keep {rs : Records} {new record : Record} (h : record ∈ rs.keep new) :
    record = new ∨ record ∈ rs := by
  induction rs with
  | nil => exact .inl (List.mem_singleton.1 h)
  | cons r rest ih =>
    unfold keep at h
    split at h
    · exact (List.mem_cons.1 h).imp_right (List.mem_cons_of_mem _)
    · rcases List.mem_cons.1 h with rfl | h
      · exact .inr List.mem_cons_self
      · exact (ih h).imp_right (List.mem_cons_of_mem _)

/-- There is still one record for each key when a record is kept. -/
theorem Records.nodup_map_key_keep {rs : Records} (h : (rs.map Record.key).Nodup) (new : Record) :
    ((rs.keep new).map Record.key).Nodup := by
  rw [map_key_keep]
  split
  · exact h
  · rename_i hkey
    rw [← List.concat_eq_append]
    exact h.concat hkey

/-- Records stay proper when one is kept that is proper itself. -/
theorem Records.IsProper.keep {rs : Records} (h : rs.IsProper) {new : Record}
    (hnew : new.kind = .page → new.root ∉ new.dependencies) : (rs.keep new).IsProper where
  once := nodup_map_key_keep h.once new
  rootless record hmem hkind := by
    rcases mem_keep hmem with rfl | hmem
    · exact hnew hkind
    · exact h.rootless record hmem hkind

namespace Builder

variable {b : Builder σ}

/-- No page that is kept a record of is among its own files. -/
theorem Work.rootless_of_kept {w : Work} {s : Session σ} {record : Record}
    (h : w.kept b s = some record) (hkind : record.kind = .page) :
    record.root ∉ record.dependencies := by
  obtain ⟨e, -, h⟩ := Option.bind_eq_some_iff.1 h
  obtain ⟨d, s₁, -, -, hdraft, -, -, rfl⟩ := Entry.record?_ending_eq_some_iff.1 h
  rw [Action.perform_apply] at hdraft
  cases e with
  | style sheet =>
    obtain ⟨-, dependencies, hrecord⟩ := Entry.draft_style hdraft
    rw [hrecord] at hkind
    cases hkind
  | page p =>
    -- The files of the record are those that the expansion of the source noted, and it notes no
    -- root.
    obtain ⟨source, rendered, hsource, hrender, rfl⟩ := Entry.draft_page hdraft
    rw [Rendering.bundle_of_render hsource hrender]
    exact Expander.root_notMem_dependencies _ _ _ _

/-- A run ends with a report. It keeps the place and the phase, the names of the stylesheets that it
does not build, and records that are proper. -/
structure RunKeeps (works : List Work) (s s' : Session σ) : Prop where
  /-- The place is the same. -/
  place : s'.place = s.place
  /-- What the session is doing is the same. -/
  phase : s'.phase = s.phase
  /-- The name of every stylesheet that is not built is the same. -/
  names : ∀ style, (∀ w ∈ works, style ∉ w.styles) → s'.names.lookup style = s.names.lookup style
  /-- Proper records stay proper. -/
  proper : s.records.IsProper → s'.records.IsProper

/-- A run ends with a report. -/
theorem run_keeps (hparts : b.parts.IsFiling) (works : List Work) (r : Report) (s : Session σ) :
    ∃ r' s', b.run works r s = (.ok r', s') ∧ RunKeeps works s s' := by
  induction works generalizing r s with
  | nil => exact ⟨r, s, rfl, rfl, rfl, fun _ _ => rfl, id⟩
  | cons w works ih =>
    obtain ⟨r₁, s₁, hwork, hfollows⟩ := work_follows hparts w r s
    obtain ⟨r', s', hrun, hkeeps⟩ := ih r₁ s₁
    refine ⟨r', s', by rw [run_cons, bind_apply_ok hwork, hrun], hkeeps.place.trans hfollows.place,
      hkeeps.phase.trans hfollows.phase, fun style hstyle => ?_, fun h => hkeeps.proper ?_⟩
    · obtain ⟨hfirst, hrest⟩ := List.forall_mem_cons.1 hstyle
      exact (hkeeps.names style hrest).trans (hfollows.names style hfirst)
    · rw [hfollows.records]
      cases hkept : w.kept b s with
      | none => exact h
      | some record => exact h.keep (Work.rootless_of_kept hkept)

/-- What a run keeps, said of a run that was done. -/
theorem keeps_of_run (hparts : b.parts.IsFiling) {works : List Work} {r r' : Report}
    {s s' : Session σ} (h : b.run works r s = (.ok r', s')) : RunKeeps works s s' := by
  obtain ⟨r'', s'', h', hkeeps⟩ := run_keeps hparts works r s
  cases h.symm.trans h'
  exact hkeeps

/-! ## Full passes -/

/-- A pass that begins in an idle session ends in one. -/
theorem guarded_apply {pass : Action σ α} {s s'' : Session σ} {x : Except Fault α}
    (hidle : s.phase = .idle) (s' : Session σ) (h : pass { s with phase := .building } = (x, s'))
    (hend : { s' with phase := .idle } = s'') : guarded pass s = (x, s'') := by
  unfold guarded
  simp [hidle, h, hend]

/-- Building pages is a run over them. -/
theorem buildPages_apply {pages : List Page} {r r' : Report} {s s' : Session σ}
    (h : b.run (pages.map .page) r s = (.ok r', s')) :
    ∃ filenames, b.buildPages r pages s = (.ok (r', filenames), s') := by
  induction pages generalizing r s with
  | nil =>
    cases h
    exact ⟨[], rfl⟩
  | cons page rest ih =>
    -- The run drops whether the page was written, from which the filenames come.
    rw [List.map_cons, run_cons] at h
    obtain ⟨r₁, s₁, hpage, hrest⟩ := bind_apply_eq_ok.1 h
    simp only [work, map_apply] at hpage
    generalize hx : b.buildPage r page s = result at hpage
    obtain ⟨x, s₂⟩ := result
    cases x with
    | error fault => cases hpage
    | ok answer =>
      obtain ⟨r₂, isWritten⟩ := answer
      cases hpage
      obtain ⟨filenames, hrest⟩ : ∃ filenames, b.buildPages r₂ rest s₂ =
        (.ok (r', filenames), s') := ih hrest
      unfold buildPages
      rw [bind_apply_ok hx]
      simp only
      rw [bind_apply_ok hrest]
      exact ⟨_, rfl⟩

/-- The piece of work that removes the directory of the first stylesheet, if the site is cleaned. -/
def cleaning (b : Builder σ) : List Work :=
  match b.styles with
  | [] => []
  | first :: _ => if b.settings.clean then [.clean first] else []

/-- Nothing ends a pass early: all keys that it may tell of can be written, and if the site is
cleaned, the directory of the first stylesheet can be looked up. Where one of these fails, a fault
that is not among those of a report ends the pass, and what a full pass tells says nothing of it. -/
structure CanFinish (b : Builder σ) (place : Place) : Prop where
  /-- The keys of pages can be written. -/
  pages : ∀ p ∈ b.settings.pages, p.key.isWritable = true
  /-- The keys of asset directories can be written. -/
  assets : ∀ a ∈ b.settings.assetDirectories, a.key.isWritable = true
  /-- The home directory that the filename of the stylesheet begins with, if any, can be looked
  up. -/
  home : b.settings.clean = true → ∀ style ∈ b.styles.head?,
    Path.hasHome (Output.nameOf style.filename) = true
  /-- The path of its directory holds no null character. -/
  whole : b.settings.clean = true → ∀ style ∈ b.styles.head?,
    '\x00' ∉ (Output.path place b.settings.output style.filename).parent.toString.toList

instance (b : Builder σ) (place : Place) : Decidable (b.CanFinish place) :=
  decidable_of_iff
    ((∀ p ∈ b.settings.pages, p.key.isWritable = true) ∧
      (∀ a ∈ b.settings.assetDirectories, a.key.isWritable = true) ∧
      (b.settings.clean = true → ∀ style ∈ b.styles.head?,
        Path.hasHome (Output.nameOf style.filename) = true) ∧
      (b.settings.clean = true → ∀ style ∈ b.styles.head?,
        '\x00' ∉ (Output.path place b.settings.output style.filename).parent.toString.toList))
    ⟨fun h => ⟨h.1, h.2.1, h.2.2.1, h.2.2.2⟩, fun h => ⟨h.pages, h.assets, h.home, h.whole⟩⟩

/-- The piece of work that writes the sitemap, if the site has one. -/
def mapping (b : Builder σ) (filenames : List String) : List Work :=
  match b.settings.sitemap with
  | some o => if b.settings.isOptimized then [.sitemap o filenames] else []
  | none => []

/-- The entries of a site that are built. -/
def entries (b : Builder σ) : List Work :=
  b.styles.map .style ++ (b.settings.pages.filter Page.isWritten).map .page

/-- A page that has a key is written. -/
theorem isWritten_of_pageKey?_eq {p : Page} {k : Record.Key} (h : pageKey? p = some k) :
    p.isWritten = true := by
  unfold pageKey? at h
  split at h
  · assumption
  · cases h

/-- The key of a page that is written. -/
theorem pageKey?_of_mem_keys {p : Page} (hp : p.isWritten = true) {k : Record.Key}
    (hk : k ∈ (Work.page p).keys) : pageKey? p = some k := by
  obtain ⟨source, hsource, rfl⟩ := hk
  unfold pageKey?
  rw [if_pos hp, hsource]
  rfl

/-- A page that is written has a key. -/
theorem exists_pageKey?_eq {p : Page} (hp : p.isWritten = true) : ∃ k, pageKey? p = some k := by
  have hsome : p.source.isSome = true := (Bool.and_eq_true_iff.1 hp).1
  obtain ⟨source, hsource⟩ := Option.isSome_iff_exists.1 hsome
  exact ⟨_, pageKey?_of_mem_keys hp ⟨source, hsource, rfl⟩⟩

/-- The pieces of work of a full pass, if the pages that are written have some filenames. -/
def everything (b : Builder σ) (filenames : List String) : List Work :=
  b.settings.assetDirectories.map .assets ++ (b.cleaning ++ (b.entries ++ b.mapping filenames))

/-- Folding a piece of work over a list is a run. -/
theorem foldlM_eq_run {f : Report → α → Action σ Report} {p : α → Work}
    (h : ∀ r a, b.work r (p a) = f r a) (as : List α) (r : Report) :
    as.foldlM f r = b.run (as.map p) r := by
  unfold run
  rw [List.foldlM_map]
  simp only [h]

/-- Building stylesheets is a run over them, once the site is cleaned. -/
theorem buildStyles_eq_run (r : Report) :
    b.buildStyles r b.styles = b.run (b.cleaning ++ b.styles.map .style) r := by
  have hrun := foldlM_eq_run (b := b) (p := .style) (fun _ _ => rfl) (f := b.buildStyle)
  unfold buildStyles cleaning
  cases hstyles : b.styles with
  | nil => rfl
  | cons first rest =>
    simp only [hrun]
    by_cases hclean : b.settings.clean = true
    · simp only [hclean, if_true, List.cons_append, List.nil_append]
      rw [run_cons]
      simp only [work, bind_assoc, pure_bind]
    · simp only [hclean, Bool.false_eq_true, if_false, List.nil_append]

/-- The entry of the log that ends a full pass. -/
def finished (r : Report) : Log.Line :=
  ⟨.info, .passes, "Full pass finished: " ++ toString r.pages.length ++ " page(s), " ++
    toString r.errors.length ++ " error(s)"⟩

/-- What is done in a full pass: runs over the assets and the stylesheets, then the pages, and a run
for the sitemap. -/
def fullPass (b : Builder σ) : Action σ Report := do
  let r ← b.run (b.settings.assetDirectories.map .assets) (.start "full" b.settings.mode none)
  let r ← b.run (b.cleaning ++ b.styles.map .style) r
  let (r, filenames) ← b.buildPages r (b.settings.pages.filter Page.isWritten)
  let r ← b.run (b.mapping filenames) r
  modify fun s => { s with log := s.log ++ [finished r] }
  return r

/-- A full pass is guarded against another one that begins before it ends. -/
theorem buildAll_eq_guarded (b : Builder σ) : b.buildAll = guarded b.fullPass := by
  have hcopies := foldlM_eq_run (b := b) (f := b.copyAssets) (p := .assets) (fun _ _ => rfl)
  unfold buildAll fullPass
  simp only [hcopies, buildStyles_eq_run]
  refine congrArg guarded (bind_congr fun r => bind_congr fun r => bind_congr fun x => ?_)
  unfold mapping
  cases b.settings.sitemap with
  | none => rfl
  | some o =>
    by_cases hoptimized : b.settings.isOptimized = true
    · have hrun : b.run [.sitemap o x.2] x.1 = b.writeSitemap x.1 o x.2 := by
        rw [run_cons]
        exact bind_pure _
      simp only [hoptimized, if_true, hrun]
      rfl
    · simp only [hoptimized, Bool.false_eq_true, if_false]
      rfl

/-- A full pass is a run over everything. -/
theorem buildAll_spec (hparts : b.parts.IsFiling) {s : Session σ} (hidle : s.phase = .idle) :
    ∃ filenames r s₁ log,
      b.run (b.everything filenames) (.start "full" b.settings.mode none)
        { s with phase := .building } = (.ok r, s₁) ∧
          b.buildAll s = (.ok r, { s₁ with phase := .idle, log }) := by
  -- The parts of the pass, each from where the one before ended.
  obtain ⟨r₁, s₁, hassets, -⟩ := run_keeps hparts (b.settings.assetDirectories.map .assets)
    (.start "full" b.settings.mode none) { s with phase := .building }
  obtain ⟨r₂, s₂, hstyles, -⟩ := run_keeps hparts (b.cleaning ++ b.styles.map .style) r₁ s₁
  obtain ⟨r₃, s₃, hpages, -⟩ :=
    run_keeps hparts ((b.settings.pages.filter Page.isWritten).map .page) r₂ s₂
  obtain ⟨filenames, hbuildPages⟩ := buildPages_apply hpages
  obtain ⟨r₄, s₄, hsitemap, -⟩ := run_keeps hparts (b.mapping filenames) r₃ s₃
  have hrun : b.run (b.everything filenames) (.start "full" b.settings.mode none)
      { s with phase := .building } = (.ok r₄, s₄) := by
    unfold everything entries
    rw [run_append_apply hassets, List.append_assoc, ← List.append_assoc, run_append_apply hstyles,
      run_append_apply hpages, hsitemap]
  refine ⟨filenames, r₄, s₄, s₄.log ++ [finished r₄], hrun, ?_⟩
  rw [buildAll_eq_guarded]
  refine guarded_apply hidle { s₄ with log := s₄.log ++ [finished r₄] } ?_ rfl
  unfold fullPass
  rw [bind_apply_ok hassets, bind_apply_ok hstyles, bind_apply_ok hbuildPages]
  simp only
  rw [bind_apply_ok hsitemap]
  rfl

/-! ## Incremental passes -/

/-- The configured stylesheet of a record. -/
def styleOf? (b : Builder σ) (record : Record) : Option Stylesheet :=
  b.styles.find? fun s => (s.source, s.filename) = record.key

/-- The configured stylesheets of some records, in the order of the records. -/
def recorded (b : Builder σ) (records : List Record) : List Stylesheet :=
  records.filterMap b.styleOf?

/-- The stylesheets that an incremental pass for a file builds. -/
def owedStyles (b : Builder σ) (s : Session σ) (f : Path) : List Stylesheet :=
  b.recorded ((s.records.owners f).filter (·.kind = .style))

/-- A page links a stylesheet, itself or through the shared page. -/
def Links (b : Builder σ) (p : Page) (style : Stylesheet) : Prop :=
  style ∈ p.styles ∨ ∃ shared, b.settings.shared? = some shared ∧ style ∈ shared.styles

/-- An incremental pass for a file that leads from a session to another owes it to a page to be
built: a page with its key is recorded to be made from the file, or links a stylesheet that the pass
builds and that gets another name. -/
def OwesPage (b : Builder σ) (s s' : Session σ) (f : Path) (p : Page) : Prop :=
  ∃ k, pageKey? p = some k ∧
    ((∃ record ∈ s.records, record.kind = .page ∧ f ∈ record.dependencies ∧ record.key = k) ∨
      ∃ style ∈ b.owedStyles s f, s'.names.lookup style ≠ s.names.lookup style ∧
        ∃ q ∈ b.settings.pages, pageKey? q = some k ∧ b.Links q style)

open Classical in
/-- The pieces of work of an incremental pass for a file that leads from a session to another. -/
noncomputable def owed (b : Builder σ) (s s' : Session σ) (f : Path) : List Work :=
  (b.owedStyles s f).map .style ++ (b.settings.pages.filter fun p => b.OwesPage s s' f p).map .page

/-- The stylesheets among the owed pieces of work are the owed stylesheets. -/
theorem style_mem_owed {s s' : Session σ} {f : Path} {style : Stylesheet} :
    .style style ∈ b.owed s s' f ↔ style ∈ b.owedStyles s f := by
  classical
  unfold owed
  simp

/-- The pages among the owed pieces of work are those that are owed. -/
theorem page_mem_owed {s s' : Session σ} {f : Path} {page : Page}
    (hpage : page ∈ b.settings.pages) :
    .page page ∈ b.owed s s' f ↔ b.OwesPage s s' f page := by
  classical
  unfold owed
  simp [hpage]

/-- The stylesheet of a record is configured, and has its key. -/
theorem styleOf?_eq_some {record : Record} {style : Stylesheet}
    (h : b.styleOf? record = some style) :
    style ∈ b.styles ∧ (style.source, style.filename) = record.key :=
  ⟨List.mem_of_find?_eq_some h, by simpa using List.find?_some h⟩

/-- A stylesheet of some records is configured, and one of them has its key. -/
theorem mem_recorded {records : List Record} {style : Stylesheet} (h : style ∈ b.recorded records) :
    style ∈ b.styles ∧ (style.source, style.filename) ∈ records.map Record.key := by
  obtain ⟨record, hmem, hstyle⟩ := List.mem_filterMap.1 h
  obtain ⟨hstyles, hkey⟩ := styleOf?_eq_some hstyle
  exact ⟨hstyles, hkey ▸ List.mem_map_of_mem hmem⟩

/-- Records of different keys are those of different stylesheets. -/
theorem nodup_recorded {records : List Record} (h : (records.map Record.key).Nodup) :
    (b.recorded records).Nodup := by
  induction records with
  | nil => exact List.nodup_nil
  | cons record rest ih =>
    obtain ⟨hkey, hrest⟩ := List.nodup_cons.1 h
    unfold recorded
    rw [List.filterMap_cons]
    split
    · exact ih hrest
    · rename_i style hstyle
      refine List.nodup_cons.2 ⟨fun hmem => hkey ?_, ih hrest⟩
      rw [← (styleOf?_eq_some hstyle).2]
      exact (mem_recorded hmem).2

/-- The keys of the pages that link a stylesheet are those of the pages that do. -/
theorem mem_pagesLinking {style : Stylesheet} {k : Record.Key} :
    k ∈ b.pagesLinking style ↔ ∃ q ∈ b.settings.pages, pageKey? q = some k ∧ b.Links q style := by
  have hany : b.settings.shared?.any (·.styles.contains style) = true ↔
      ∃ shared, b.settings.shared? = some shared ∧ style ∈ shared.styles := by
    cases b.settings.shared? <;> simp
  unfold pagesLinking Links
  by_cases h : b.settings.shared?.any (·.styles.contains style) = true
  · rw [if_pos h]
    simp only [List.mem_filterMap]
    exact ⟨fun ⟨q, hq, hk⟩ => ⟨q, hq, hk, .inr (hany.1 h)⟩, fun ⟨q, hq, hk, _⟩ => ⟨q, hq, hk⟩⟩
  · rw [if_neg h]
    simp only [List.mem_filterMap, List.mem_filter, List.contains_iff_mem]
    constructor
    · rintro ⟨q, ⟨hq, hown⟩, hk⟩
      exact ⟨q, hq, hk, .inl hown⟩
    · rintro ⟨q, hq, hk, hown | hshared⟩
      · exact ⟨q, ⟨hq, hown⟩, hk⟩
      · exact absurd (hany.2 hshared) h

/-- Rebuilding a record builds its stylesheet, if it is configured, and answers the keys of the
pages that link it if its name changed. -/
theorem rebuildStyle_apply {record : Record} {style : Stylesheet}
    (hstyle : b.styleOf? record = some style) {r r' : Report} {s s' : Session σ}
    (h : b.buildStyle r style s = (.ok r', s')) :
    b.rebuildStyle record r s =
      (.ok (r', if s'.names.lookup style = s.names.lookup style then [] else b.pagesLinking style),
        s') := by
  unfold rebuildStyle
  simp only [show (b.styles.find? fun s => (s.source, s.filename) = record.key) =
    some style from hstyle]
  rw [bind_apply_ok (get_apply s), bind_apply_ok h, bind_apply_ok (get_apply s')]
  rfl

/-- A run over stylesheets that are all different builds none twice. -/
theorem pairwise_styles {styles : List Stylesheet} (h : styles.Nodup) :
    (styles.map Work.style).Pairwise fun w w' => ∀ style ∈ w.styles, style ∉ w'.styles := by
  refine List.pairwise_map.2 (h.imp fun hne style hstyle hstyle' => hne ?_)
  rw [← Set.mem_singleton_iff.1 hstyle, Set.mem_singleton_iff.1 hstyle']

/-- Building a stylesheet makes one file. -/
theorem isProduct_of_mem_map_style {styles : List Stylesheet} {w : Work}
    (h : w ∈ styles.map Work.style) :
    w.IsProduct := by
  obtain ⟨style, -, rfl⟩ := List.mem_map.1 h
  trivial

/-- Rebuilding records rebuilds the first and then the others. -/
theorem rebuildStyles_cons {record : Record} {rest : List Record} {r r₁ r' : Report}
    {keys keys' : List Record.Key} {s s₁ s' : Session σ}
    (h : b.rebuildStyle record r s = (.ok (r₁, keys), s₁))
    (h' : b.rebuildStyles r₁ rest s₁ = (.ok (r', keys'), s')) :
    b.rebuildStyles r (record :: rest) s = (.ok (r', keys ++ keys'), s') := by
  unfold rebuildStyles
  rw [bind_apply_ok h]
  simp only
  rw [bind_apply_ok h']
  rfl

/-- Rebuilding records is a run over their stylesheets. The answer is the keys of the pages that
link one whose name the run changed. -/
theorem rebuildStyles_spec (hparts : b.parts.IsFiling) {records : List Record}
    (honce : (records.map Record.key).Nodup) (r : Report) (s : Session σ) :
    ∃ r' keys s', b.rebuildStyles r records s = (.ok (r', keys), s') ∧
      b.run ((b.recorded records).map .style) r s = (.ok r', s') ∧
      ∀ k, k ∈ keys ↔ ∃ style ∈ b.recorded records,
        s'.names.lookup style ≠ s.names.lookup style ∧ k ∈ b.pagesLinking style := by
  induction records generalizing r s with
  | nil => exact ⟨r, [], s, rfl, rfl, by simp [recorded]⟩
  | cons record rest ih =>
    obtain ⟨-, hrest⟩ := List.nodup_cons.1 honce
    -- The record of a stylesheet that is configured no more is passed over.
    cases hstyle : b.styleOf? record with
    | none =>
      have hrecorded : b.recorded (record :: rest) = b.recorded rest :=
        List.filterMap_cons_none hstyle
      have hrebuild : b.rebuildStyle record r s = (.ok (r, []), s) := by
        unfold rebuildStyle
        rw [show (b.styles.find? fun s => (s.source, s.filename) = record.key) = none from hstyle]
        rfl
      obtain ⟨r', keys, s', happly, hrun, hkeys⟩ := ih hrest r s
      exact ⟨r', keys, s', rebuildStyles_cons hrebuild happly, hrecorded ▸ hrun, hrecorded ▸ hkeys⟩
    | some style =>
      have hrecorded : b.recorded (record :: rest) = style :: b.recorded rest :=
        List.filterMap_cons_some hstyle
      have hnodup := nodup_recorded (b := b) honce
      rw [hrecorded] at hnodup ⊢
      obtain ⟨hnotMem, -⟩ := List.nodup_cons.1 hnodup
      obtain ⟨r₁, s₁, hwork, hfollows⟩ := work_follows hparts (.style style) r s
      obtain ⟨r', keys, s', happly, hrun, hkeys⟩ := ih hrest r₁ s₁
      -- Only the first piece changes the name of its stylesheet, and only the others change the
      -- other names.
      have hfirst : s'.names.lookup style = s₁.names.lookup style := by
        refine (keeps_of_run hparts hrun).names style fun w hw hmem => hnotMem ?_
        obtain ⟨other, hother, rfl⟩ := List.mem_map.1 hw
        exact Set.mem_singleton_iff.1 hmem ▸ hother
      have hothers : ∀ other ∈ b.recorded rest, s₁.names.lookup other = s.names.lookup other := by
        intro other hother
        refine hfollows.names other fun hmem => hnotMem ?_
        exact Set.mem_singleton_iff.1 hmem ▸ hother
      refine ⟨r',
        (if s₁.names.lookup style = s.names.lookup style then [] else b.pagesLinking style) ++ keys,
        s', rebuildStyles_cons (rebuildStyle_apply hstyle hwork) happly, ?_, fun k => ?_⟩
      · rw [List.map_cons, run_cons, bind_apply_ok hwork, hrun]
      · rw [List.mem_append, hkeys, List.exists_mem_cons_iff, hfirst]
        refine or_congr ?_ (exists_congr fun other => and_congr_right fun hother => ?_)
        · split <;> simp_all
        · rw [hothers other hother]

/-- What an incremental pass owes, once its stylesheets were built and the keys of the pages that
link renamed ones are known. -/
theorem owed_eq_append {s s₁ s₂ : Session σ} {f : Path} {keys : List Record.Key}
    (hkeys : ∀ k, k ∈ keys ↔ ∃ style ∈ b.owedStyles s f,
      s₁.names.lookup style ≠ s.names.lookup style ∧ k ∈ b.pagesLinking style)
    (hnames : ∀ style, s₂.names.lookup style = s₁.names.lookup style) :
    b.owed s s₂ f = (b.owedStyles s f).map .style ++
      (b.settings.pages.filter fun p => (pageKey? p).any fun k =>
      k ∈ ((s.records.owners f).filter (·.kind = .page)).map Record.key ++ keys).map .page := by
  classical
  unfold owed
  congr 2
  refine List.filter_congr fun p hp => ?_
  rw [Bool.eq_iff_iff, decide_eq_true_iff, Option.any_eq_true]
  refine exists_congr fun k => and_congr_right fun _ => ?_
  rw [decide_eq_true_iff, List.mem_append, hkeys]
  refine or_congr ?_ (exists_congr fun style => and_congr_right fun _ => ?_)
  · simp [Records.owners, Record.names, and_assoc, and_left_comm]
  · rw [hnames, mem_pagesLinking]

/-- An incremental pass is a run over what it owes. -/
theorem rebuild_spec (hparts : b.parts.IsFiling) {s : Session σ} (hidle : s.phase = .idle)
    (honce : (s.records.map Record.key).Nodup) (f : Path) :
    ∃ r s₁ log,
      b.run (b.owed s s₁ f) (.start "incremental" b.settings.mode (some f.toString))
        { s with phase := .building } = (.ok r, s₁) ∧
      b.rebuild f s = (.ok r, { s₁ with phase := .idle, log }) := by
  have honce' : (((s.records.owners f).filter (·.kind = .style)).map Record.key).Nodup := by
    refine honce.sublist (List.Sublist.map _ ?_)
    exact List.filter_sublist.trans List.filter_sublist
  obtain ⟨r₁, keys, s₁, hstyles, hrun₁, hkeys⟩ := rebuildStyles_spec hparts honce'
    (.start "incremental" b.settings.mode (some f.toString)) { s with phase := .building }
  generalize hpages : (b.settings.pages.filter fun p => (pageKey? p).any fun k =>
    k ∈ ((s.records.owners f).filter (·.kind = .page)).map Record.key ++ keys) = pages
  obtain ⟨r₂, s₂, hrun₂, hkeeps₂⟩ := run_keeps hparts (pages.map .page) r₁ s₁
  obtain ⟨filenames, hbuildPages⟩ := buildPages_apply hrun₂
  -- The names are those at the end of the stylesheets, since pages change none.
  have hnames : ∀ style, s₂.names.lookup style = s₁.names.lookup style := by
    refine fun style => hkeeps₂.names style fun w hw hmem => ?_
    obtain ⟨page, -, rfl⟩ := List.mem_map.1 hw
    exact hmem
  have howed : b.owed s s₂ f = (b.owedStyles s f).map .style ++ pages.map .page := by
    rw [owed_eq_append hkeys hnames, hpages]
  have hrun : b.run (b.owed s s₂ f) (.start "incremental" b.settings.mode (some f.toString))
      { s with phase := .building } = (.ok r₂, s₂) := by
    rw [howed]
    exact (run_append_apply hrun₁).trans hrun₂
  -- A pass that owes nothing because no record names the file says so at its end.
  by_cases howners : (s.records.owners f).isEmpty = true
  · refine ⟨r₂, s₂, _, hrun, guarded_apply hidle
      { s₂ with log :=
        s₂.log ++ [⟨.debug, .passes, "No recorded page depends on " ++ f.toString⟩] } ?_ rfl⟩
    rw [bind_apply_ok (get_apply _)]
    simp only [howners, if_true]
    rw [bind_apply_ok hstyles]
    simp only [hpages]
    rw [bind_apply_ok hbuildPages]
    rfl
  · refine ⟨r₂, s₂, _, hrun, guarded_apply hidle s₂ ?_ rfl⟩
    rw [bind_apply_ok (get_apply _)]
    simp only [howners, Bool.false_eq_true, if_false]
    rw [bind_apply_ok hstyles]
    simp only [hpages]
    rw [bind_apply_ok hbuildPages]
    rfl

end Builder

end StaticSite
