import StaticSite.Proofs.Build.Account
import StaticSite.Proofs.Build.Recovery
import StaticSite.Proofs.Build.Watch
import StaticSite.Proofs.Config.Normal
import StaticSite.Proofs.Path.Order

/-!
# Watched files

The paths in a record come from the settings, from the includes of a page and from what a stylesheet
was compiled from, and each of them is made absolute before it is recorded. So a record that is kept
is normal (`Entry.isNormal_record`), and after every history all records are
(`History.isNormal_records`).

Files that change are looked up among the records by comparing paths. Two normal paths to the same
place are the same path, so a watched file is never missed: a change of it leads to an attempt at
every entry that was made from it, and the list of watched files names each once, in order
(`handle_watched`).
-/

namespace StaticSite

variable {σ : Type}

/-- A record whose paths are normal. -/
structure Record.IsNormal (r : Record) : Prop where
  /-- The source is. -/
  root : r.root.IsNormal
  /-- So are the files that it was made from. -/
  dependencies : ∀ p ∈ r.dependencies, p.IsNormal

namespace Records

variable {rs : Records} {p : Path}

/-- Records whose paths are normal. -/
def IsNormal (rs : Records) : Prop := ∀ record ∈ rs, record.IsNormal

/-- Normal records stay normal when a normal one is kept. -/
theorem IsNormal.keep (h : rs.IsNormal) {new : Record} (hnew : new.IsNormal) :
    (rs.keep new).IsNormal := by
  intro record hmem
  rcases mem_keep hmem with rfl | hmem
  · exact hnew
  · exact h record hmem

/-! ## The list of watched files -/

/-- The watched files are those that some record names. -/
theorem mem_watched : p ∈ rs.watched ↔ ∃ record ∈ rs, p ∈ record.dependencies := by
  rw [watched, List.mem_mergeSort, (Builder.foldl_collect _ [] List.nodup_nil).2, List.mem_flatMap]
  simp

/-- No file is watched twice. -/
theorem nodup_watched (rs : Records) : rs.watched.Nodup :=
  (List.mergeSort_perm _ _).nodup_iff.2 (Builder.foldl_collect _ [] List.nodup_nil).1

/-- No watched file comes before one that stands in front of it. -/
theorem pairwise_watched (rs : Records) : rs.watched.Pairwise fun p q =>
    p.components ≤ q.components := by
    have hsorted : rs.watched.Pairwise fun p q => (!q.isBefore p) = true := List.pairwise_mergeSort
      (fun p q r hpq hqr => by
        rw [Bool.not_eq_true', Path.isBefore_eq_false_iff] at hpq hqr ⊢
        exact hpq.trans hqr)
      (fun p q => by
        rw [Bool.or_eq_true, Bool.not_eq_true', Bool.not_eq_true', Path.isBefore_eq_false_iff,
          Path.isBefore_eq_false_iff]
        exact le_total _ _)
      _
    exact hsorted.imp fun h => by rwa [Bool.not_eq_true', Path.isBefore_eq_false_iff] at h

/-- Where all paths are normal, the watched files are strictly increasing. -/
theorem IsNormal.pairwise_isBefore (h : rs.IsNormal) : rs.watched.Pairwise fun p q =>
    p.isBefore q = true := by
    have hnormal : ∀ p ∈ rs.watched, p.IsNormal := by
      intro p hp
      obtain ⟨record, hrecord, hmem⟩ := mem_watched.1 hp
      exact (h record hrecord).dependencies p hmem
    have hboth := (pairwise_watched rs).and (nodup_watched rs)
    -- Two paths that neither comes before have the same components, so they are one if they are
    -- normal.
    refine hboth.imp_of_mem fun hp hq ⟨hle, hne⟩ => ?_
    rw [Path.isBefore_iff]
    exact lt_of_le_of_ne hle fun heq => hne ((hnormal _ hp).eq_of_components_eq (hnormal _ hq) heq)

end Records

namespace Builder

variable {b : Builder σ} {s s' : Session σ} {r r' : Report}

/-! ## What is recorded -/

/-- The paths of the settings are normal. -/
def IsNormal (b : Builder σ) : Prop := ∀ p ∈ b.settings.paths, p.IsNormal

/-- The paths of a page are normal if those of the settings are. -/
theorem IsNormal.page (h : b.IsNormal) {p : Page} (hp : p ∈ b.settings.pages) {q : Path}
    (hq : q ∈ (SiteEntry.page p).paths) : q.IsNormal := by
  obtain ⟨entry, hentry, hpage⟩ := List.mem_filterMap.1 hp
  cases entry with
  | assets => cases hpage
  | page p' =>
    obtain rfl := Option.some.inj hpage
    exact h q (List.mem_append_right _ (List.mem_flatMap.2 ⟨_, hentry, hq⟩))

/-- The source of a page is normal if the paths of the settings are. -/
theorem IsNormal.source (h : b.IsNormal) {p : Page} (hp : p ∈ b.settings.pages) {source : Path}
    (hsource : p.source = some source) : source.IsNormal :=
  h.page hp (List.mem_append_left _ (Option.mem_toList.2 hsource))

/-- The source of a stylesheet is normal if the paths of the settings are. -/
theorem IsNormal.sheet (h : b.IsNormal) {sheet : Stylesheet} (hsheet : sheet ∈ b.styles) :
    sheet.source.IsNormal := by
  obtain ⟨p, hp, hmem⟩ := mem_styles.1 hsheet
  exact h.page hp (List.mem_append_right _ (List.mem_map.2 ⟨sheet, hmem, rfl⟩))

/-- The record of a draft is normal: a stylesheet makes the files that it was compiled from
absolute, and a page has those that its includes name, each below the file that includes it. -/
theorem Entry.isNormal_record (hparts : b.parts.IsFiling) (hb : b.IsNormal)
    (hcwd : s.place.cwd.IsNormal) {e : Entry} (he : e.work ∈ b.entries) {d : Draft}
    (h : e.draft b s = (.ok d, s')) : d.record.IsNormal := by
  cases e with
  | style sheet =>
    have hplace := (Entry.draft_renames hparts (.style sheet) s).place
    rw [h] at hplace
    obtain ⟨compiled, s₁, -, h⟩ := bind_apply_eq_ok.1 h
    obtain ⟨css, s₂, -, h⟩ := bind_apply_eq_ok.1 h
    obtain ⟨-, s₃, -, h⟩ := bind_apply_eq_ok.1 h
    rw [bind_apply_ok (get_apply s₃)] at h
    obtain ⟨hdraft, rfl⟩ := Prod.mk.inj h
    obtain rfl := Except.ok.inj hdraft
    refine ⟨hb.sheet (style_mem_entries.1 he), fun q hq => ?_⟩
    obtain ⟨p, -, rfl⟩ := List.mem_map.1 hq
    rw [hplace]
    exact Path.isNormal_absolute hcwd _ fun _ hd => nomatch hd
  | page p =>
    obtain ⟨hpage, -⟩ := page_mem_entries.1 he
    obtain ⟨source, rendered, hsource, hrender, rfl⟩ := Entry.draft_page h
    have hroot := hb.source hpage hsource
    refine ⟨hroot, fun q hq => ?_⟩
    rw [Rendering.bundle_of_render hsource hrender] at hq
    exact Expander.isNormal_of_mem_dependencies hcwd hroot hq

/-- A piece of work keeps a normal record, if any. -/
theorem Work.isNormal_kept (hparts : b.parts.IsFiling) (hb : b.IsNormal)
    (hcwd : s.place.cwd.IsNormal) {w : Work} (hw : ∀ e, w.entry? = some e → w ∈ b.entries)
    {record : Record} (h : w.kept b s = some record) : record.IsNormal := by
  obtain ⟨e, he, h⟩ := Option.bind_eq_some_iff.1 h
  obtain ⟨d, s₁, -, -, hdraft, -, -, rfl⟩ := Entry.record?_ending_eq_some_iff.1 h
  rw [Action.perform_apply] at hdraft
  have hentry : e.work ∈ b.entries := Work.eq_work_of_entry? he ▸ hw e he
  exact Entry.isNormal_record hparts hb hcwd hentry hdraft

/-- A run over entries that are configured stays in its place and keeps normal records normal. -/
theorem isNormal_records_of_run (hparts : b.parts.IsFiling) (hb : b.IsNormal) {works : List Work}
    (hworks : ∀ w ∈ works, ∀ e, w.entry? = some e → w ∈ b.entries)
    (h : b.run works r s = (.ok r', s')) :
    s'.place = s.place ∧ (s.place.cwd.IsNormal → s.records.IsNormal → s'.records.IsNormal) := by
  refine ⟨(keeps_of_run hparts h).place, fun hcwd hrecords => ?_⟩
  induction works generalizing r s with
  | nil =>
    cases h
    exact hrecords
  | cons w works ih =>
    obtain ⟨hw, hworks⟩ := List.forall_mem_cons.1 hworks
    rw [run_cons] at h
    obtain ⟨r₁, s₁, hwork, hrun⟩ := bind_apply_eq_ok.1 h
    obtain ⟨r₂, s₂, hwork', hfollows⟩ := work_follows hparts w r s
    cases hwork.symm.trans hwork'
    -- The records only change by the one that the work keeps, if it keeps one.
    refine ih hworks hrun (by rw [hfollows.place]; exact hcwd) ?_
    rw [hfollows.records]
    cases hkept : w.kept b s with
    | none => exact hrecords
    | some record => exact hrecords.keep (Work.isNormal_kept hparts hb hcwd hw hkept)

/-- What a full pass builds is configured. -/
theorem mem_entries_of_mem_everything {filenames : List String} {w : Work}
    (hw : w ∈ b.everything filenames) {e : Entry} (he : w.entry? = some e) : w ∈ b.entries := by
  rcases List.mem_append.1 hw with hw | hw
  · obtain ⟨a, -, rfl⟩ := List.mem_map.1 hw
    cases he
  rcases List.mem_append.1 hw with hw | hw
  · obtain ⟨sheet, rfl⟩ := exists_of_mem_cleaning hw
    cases he
  rcases List.mem_append.1 hw with hw | hw
  · exact hw
  · obtain ⟨o, rfl, -⟩ := mem_mapping hw
    cases he

/-- Whatever is asked for, the place stays, and so do normal records normal. -/
theorem isNormal_records_of_request (hparts : b.parts.IsFiling) (hb : b.IsNormal)
    (hidle : s.phase = .idle) (honce : (s.records.map Record.key).Nodup) (request : Request) :
    ((request.pass b).perform s).2.place = s.place ∧
      (s.place.cwd.IsNormal → s.records.IsNormal →
        ((request.pass b).perform s).2.records.IsNormal) := by
  rcases request.pass_cases b s with ⟨hpass, -⟩ | ⟨-, f, hpass, -⟩ <;>
    rw [hpass, Action.perform_apply]
  · obtain ⟨filenames, r, s₁, log, hrun, happly⟩ := buildAll_spec hparts hidle
    have hworks : ∀ w ∈ b.everything filenames, ∀ e, w.entry? = some e → w ∈ b.entries :=
      fun w hw e he =>
        mem_entries_of_mem_everything hw he
    have hkeeps := isNormal_records_of_run hparts hb hworks hrun
    rw [happly]
    exact hkeeps
  · obtain ⟨r, s₁, log, hrun, happly⟩ := rebuild_spec hparts hidle honce f
    have hkeeps :=
      isNormal_records_of_run hparts hb (fun w hw _ _ => mem_entries_of_mem_owed hw) hrun
    rw [happly]
    exact hkeeps

/-- After every history the records are normal. -/
theorem History.isNormal_records (hparts : b.parts.IsFiling) (hb : b.IsNormal)
    {attempts : List (Attempt σ)} (h : b.History attempts s) (hcwd : s.place.cwd.IsNormal) :
    s.records.IsNormal := by
  induction h with
  | start tree place today memory => exact fun record hmem => nomatch hmem
  | between tree today hs ih => exact ih hcwd
  | @request attempts s request hs ih =>
    obtain ⟨hplace, hkeeps⟩ :=
      isNormal_records_of_request hparts hb (hs.keeps hparts).1 (hs.once hparts) request
    rw [hplace] at hcwd
    exact hkeeps hcwd (ih hcwd)

/-! ## What watched files lead to -/

/-- The builder that is made for the settings of a configuration has normal paths. -/
theorem isNormal_of_make {place : Place} (hcwd : place.cwd.IsNormal) {projectRoot : String}
    {config : Value} {settings : Settings}
    (hsettings : Config.settingsOf place (Path.absolute place projectRoot none) config =
      .ok settings)
    {parts : Collaborators σ} (hb : Builder.make settings parts = .ok b) :
    b.IsNormal ∧ b.parts = parts := by
  have hroot : (Path.absolute place projectRoot none).IsNormal :=
    Path.isNormal_absolute hcwd projectRoot fun _ hd => nomatch hd
  obtain ⟨expander, -, hmade⟩ := Config.bind_eq_ok.1 hb
  rw [← Except.ok.inj hmade]
  exact ⟨Config.isNormal_of_mem_paths hcwd hroot hsettings, rfl⟩

/-- An incremental pass owes every entry that a record of its key and kind names the file for. -/
theorem mem_owed_of_record (hparts : b.parts.IsFiling) {attempts : List (Attempt σ)}
    (hs : b.History attempts s) {record : Record} (hrecord : record ∈ s.records) {f : Path}
    (hf : f ∈ record.dependencies) {e : Entry} (he : e.work ∈ b.entries)
    (hkey : e.key? = some record.key) (hkind : e.kind = record.kind) (s' : Session σ) :
    e.work ∈ b.owed s s' f := by
  cases e with
  | style sheet =>
    refine style_mem_owed.2 ((hs.mem_owedStyles_iff hparts).2 ⟨style_mem_entries.1 he, ?_⟩)
    exact (hs.madeFrom_iff hparts).2 ⟨record, hrecord, hkind.symm, hf, hkey⟩
  | page p =>
    exact (page_mem_owed (page_mem_entries.1 he).1).2
      ⟨record.key, hkey, .inl ⟨record, hrecord, hkind.symm, hf, rfl⟩⟩

/-- Every watched file leads to a rebuild of its owners. After every history of a builder that was
made for the settings of a configuration, each path in a record is normal, so that making its text
absolute gives the path again, and the watched files are those that some record names, in strictly
increasing order. A change of one of them, however its path is written, makes for the incremental
pass for it, which is a run that attempts every configured entry with a record of its key and kind
that names the file. -/
theorem handle_watched {place : Place} (hplace : place.cwd.IsNormal) {projectRoot : String}
    {config : Value} {settings : Settings}
    (hsettings : Config.settingsOf place (Path.absolute place projectRoot none) config =
      .ok settings)
    {parts : Collaborators σ} (hparts : parts.IsFiling) (hb : Builder.make settings parts = .ok b)
    {attempts : List (Attempt σ)} (hs : b.History attempts s) (hcwd : s.place.cwd.IsNormal) :
    (∀ record ∈ s.records, ∀ p ∈ record.root :: record.dependencies,
      p.IsNormal ∧ Path.absolute s.place p.toString none = p) ∧
    (∀ p, p ∈ s.records.watched ↔ ∃ record ∈ s.records, p ∈ record.dependencies) ∧
    s.records.watched.Pairwise (fun p q => p.isBefore q = true) ∧
    ∀ f ∈ s.records.watched, ∀ spelling, Path.absolute s.place spelling none = f →
      ∃ r s₁ s', (b.handle [Path.absolute s.place spelling none]).perform s = (.ok r, s') ∧
        (b.rebuild f).perform s = (.ok r, s') ∧
        (b.run (b.owed s s' f) (.start "incremental" b.settings.mode (some f.toString))).perform
          { s with phase := .building } = (.ok r, s₁) ∧
        s' = { s₁ with phase := .idle, log := s'.log } ∧
        ∀ record ∈ s.records, f ∈ record.dependencies → ∀ e : Entry, e.work ∈ b.entries →
          e.key? = some record.key → e.kind = record.kind → e.work ∈ b.owed s s' f := by
  obtain ⟨hnormal, rfl⟩ := isNormal_of_make hplace hsettings hb
  have hrecords := hs.isNormal_records hparts hnormal hcwd
  refine ⟨fun record hrecord p hp => ?_, fun p => Records.mem_watched,
    hrecords.pairwise_isBefore, ?_⟩
  · have hp : p.IsNormal := by
      rcases List.mem_cons.1 hp with rfl | hp
      · exact (hrecords record hrecord).root
      · exact (hrecords record hrecord).dependencies p hp
    exact ⟨hp, Path.absolute_toString hp⟩
  · intro f hf spelling hspelling
    -- A watched file has an owner, so that a change of it does not make for a full pass.
    obtain ⟨owner, howner, hnames⟩ := Records.mem_watched.1 hf
    have howned : (s.records.owners f).isEmpty = false := by
      rw [← Bool.not_eq_true, owners_isEmpty_iff]
      exact fun h => h owner howner hnames
    obtain ⟨r, s₁, log, hrun, happly⟩ := rebuild_spec hparts (hs.keeps hparts).1 (hs.once hparts) f
    have hhandle : (b.handle [Path.absolute s.place spelling none]).perform s =
        (b.rebuild f).perform s := by
      rw [hspelling, Action.perform_apply, handle, bind_apply_ok (get_apply s), howned]
      rfl
    refine ⟨r, s₁, { s₁ with phase := .idle, log }, ?_, ?_, hrun, rfl, ?_⟩
    · rw [hhandle, Action.perform_apply, happly]
    · rw [Action.perform_apply, happly]
    · exact fun record hrecord hmem e he hkey hkind =>
        mem_owed_of_record hparts hs hrecord hmem he hkey hkind _

namespace Sample

/-- The directories that the relative paths of the sample refer to. -/
def here : Place := ⟨⟨.absolute, ["site"]⟩, "/home", .usual⟩

/-- A configuration whose paths are written in roundabout ways. -/
def indirect : Value := .mapping [
  (.text "entry", .mapping [
    (.text "a", .mapping [
      (.text "import", .text "src/./x/../a.html"),
      (.text "filename", .text "a.html"),
      (.text "styles", .list [
        .mapping [(.text "import", .text "./src//m.css"),
          (.text "filename", .text "m.[contenthash].css")]])])])]

/-- The settings of the configuration. -/
def indirectSettings : Settings :=
  match Config.settingsOf here (Path.absolute here "src/.." none) indirect with
  | .ok settings => settings
  | .error _ => (site []).settings

/-- The builder that is made for the settings. -/
def indirectSite : Builder Unit :=
  match make indirectSettings (.standard indirectSettings) with
  | .ok b => b
  | .error _ => site []

/-- The site after a full pass, in which the page includes a file by another roundabout path. -/
def indirectSession : Session Unit :=
  built indirectSite
    (session [("a.html", "PageBundler.include('../src/.//n')"), ("n.html", "n"), ("m.css", "m")])

/-- The page of the configuration. -/
def direct : Page := page "a" "a.html" "a.html" [sheet]

end Sample

open Sample in
/-- The included file is watched after the full pass, and when it is told to have changed by yet
another path of it, the pass that follows attempts the page. -/
theorem handle_watched_sample :
    here.cwd.IsNormal ∧ indirectSession.place = here ∧
      (Collaborators.standard indirectSettings : Collaborators Unit).IsFiling ∧
      Config.settingsOf here (Path.absolute here "src/.." none) indirect = .ok indirectSettings ∧
      make indirectSettings (.standard indirectSettings) = .ok indirectSite ∧
      (∃ attempts, indirectSite.History attempts indirectSession) ∧
      path "n.html" ∈ indirectSession.records.watched ∧
      Path.absolute here "dist/../src//n.html" none = path "n.html" ∧
      ∃ r s', (indirectSite.handle [path "n.html"]).perform indirectSession = (.ok r, s') ∧
        .page direct ∈ indirectSite.owed indirectSession s' (path "n.html") := by
  have hsettings : Config.settingsOf here (Path.absolute here "src/.." none) indirect =
    .ok indirectSettings := rfl
  have hb : make indirectSettings (.standard indirectSettings) = .ok indirectSite := rfl
  have hparts : (Collaborators.standard indirectSettings : Collaborators Unit).IsFiling :=
    Collaborators.isFiling_standard _
  have hhistory : indirectSite.History _ indirectSession := .request .all (.start _ _ _ _)
  have hcwd : here.cwd.IsNormal := ⟨by decide, by decide⟩
  have hplace : indirectSession.place = here := by decide +kernel
  obtain ⟨-, hwatched, -, hpass⟩ :=
    handle_watched hcwd hsettings hparts hb hhistory (by rw [hplace]; exact hcwd)
  let record : Record := ⟨path "a.html", .page, "a.html", [path "n.html"]⟩
  have hrecord : record ∈ indirectSession.records := by decide +kernel
  have hmem : path "n.html" ∈ indirectSession.records.watched :=
    (hwatched _).2 ⟨record, hrecord, List.mem_cons_self⟩
  have hspelling : Path.absolute here "dist/../src//n.html" none = path "n.html" := by
    decide +kernel
  obtain ⟨r, s₁, s', hhandle, -, -, -, howed⟩ :=
    hpass _ hmem "dist/../src//n.html" (hplace ▸ hspelling)
  rw [hplace, hspelling] at hhandle
  have hentry : .page direct ∈ indirectSite.entries := page_mem_entries.2 ⟨List.mem_cons_self, rfl⟩
  exact ⟨hcwd, hplace, hparts, hsettings, hb, ⟨_, hhistory⟩, hmem, hspelling, r, s', hhandle,
    howed record hrecord List.mem_cons_self (.page direct) hentry rfl rfl⟩

end Builder

end StaticSite
