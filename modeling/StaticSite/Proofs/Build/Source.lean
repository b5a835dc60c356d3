import StaticSite.Proofs.Build.Incremental
import StaticSite.Proofs.Build.Report

/-!
# Edits of the source of a page

The source of a page is not among the files of its own record, so that an edit of it builds the page
only where no record names the source, which makes for a full pass, or where a stylesheet that the
page links is built and renamed by the same edit (`handle_source_attempts_iff`). A page whose source
another page includes is missed (`handle_source_missed`).
-/

namespace StaticSite

variable {σ : Type}

namespace Builder

variable {b : Builder σ}

/-- The pieces of work of the pass for a file that changed, which is a full one if no record names
the file. -/
noncomputable def handled (b : Builder σ) (s s' : Session σ) (f : Path)
    (filenames : List String) : List Work :=
  if (s.records.owners f).isEmpty then b.everything filenames else b.owed s s' f

/-- The stylesheets among the entries are those of the site. -/
theorem style_mem_entries {sheet : Stylesheet} : .style sheet ∈ b.entries ↔ sheet ∈ b.styles := by
  simp [entries]

/-- The pages among the entries are those that are written. -/
theorem page_mem_entries {page : Page} :
    .page page ∈ b.entries ↔ page ∈ b.settings.pages ∧ page.isWritten = true := by
  simp [entries]

/-- A full pass attempts every entry. -/
theorem mem_everything {w : Work} (h : w ∈ b.entries) (filenames : List String) :
    w ∈ b.everything filenames :=
  List.mem_append_right _ (List.mem_append_right _ (List.mem_append_left _ h))

/-- No record of a page names its source. -/
theorem source_notMem_of_key {s : Session σ} (h : s.records.IsProper) {page : Page} {source : Path}
    {filename : String} (hkey : pageKey? page = some (source, filename)) {record : Record}
    (hmem : record ∈ s.records) (hkind : record.kind = .page)
    (hrecord : pageKey? page = some record.key) :
    source ∉ record.dependencies := by
  have hroot : record.root = source := congrArg Prod.fst (Option.some.inj (hrecord.symm.trans hkey))
  exact hroot ▸ h.rootless record hmem hkind

/-- The records decide what is attempted for a file: if none names it, everything. -/
theorem owners_isEmpty_iff {s : Session σ} {f : Path} :
    (s.records.owners f).isEmpty = true ↔ ∀ record ∈ s.records, f ∉ record.dependencies := by
  simp [Records.owners, Record.names]

/-- The pass for a file that changed is a run over what it attempts. -/
theorem handle_spec (hparts : b.parts.IsFiling) {s : Session σ} (hidle : s.phase = .idle)
    (honce : (s.records.map Record.key).Nodup) (f : Path) :
    ∃ filenames kind changed r s₁ s', (b.handle [f]).perform s = (.ok r, s') ∧
      (b.run (b.handled s s' f filenames) (.start kind b.settings.mode changed)).perform
        { s with phase := .building } = (.ok r, s₁) ∧
      s' = { s₁ with phase := .idle, log := s'.log } := by
  simp only [handle, handled, Action.perform]
  by_cases hfull : (s.records.owners f).isEmpty = true
  · obtain ⟨filenames, r, s₁, log, hrun, happly⟩ := buildAll_spec hparts hidle
    refine ⟨filenames, "full", none, r, s₁, { s₁ with phase := .idle, log }, ?_, ?_, rfl⟩
    · rw [bind_apply_ok (get_apply s)]
      simp only [hfull, if_true]
      exact happly
    · simp only [hfull, if_true]
      exact hrun
  · obtain ⟨r, s₁, log, hrun, happly⟩ := rebuild_spec hparts hidle honce f
    refine ⟨[], "incremental", some f.toString, r, s₁, { s₁ with phase := .idle, log }, ?_, ?_, rfl⟩
    · rw [bind_apply_ok (get_apply s)]
      simp only [hfull, Bool.false_eq_true, if_false]
      exact happly
    · simp only [hfull, Bool.false_eq_true, if_false]
      exact hrun

/-- The pass for a file attempts an entry if no record names the file, or if it owes the entry. -/
theorem mem_handled {s s' : Session σ} {f : Path} {filenames : List String} {w : Work}
    (hw : w ∈ b.entries) :
    w ∈ b.handled s s' f filenames ↔
      (∀ record ∈ s.records, f ∉ record.dependencies) ∨ w ∈ b.owed s s' f := by
  rw [← owners_isEmpty_iff, handled]
  split
  · rename_i hfull
    exact ⟨fun _ => .inl hfull, fun _ => mem_everything hw filenames⟩
  · rename_i hfull
    exact (or_iff_right hfull).symm

/-- A change of a file is handled by building a page if no record depends on the file, or if the
page is owed. -/
theorem page_mem_handled {s s' : Session σ} {f : Path} {filenames : List String} {page : Page}
    {k : Record.Key} (hpage : page ∈ b.settings.pages) (hkey : pageKey? page = some k) :
    .page page ∈ b.handled s s' f filenames ↔
      (∀ record ∈ s.records, f ∉ record.dependencies) ∨ b.OwesPage s s' f page := by
  rw [mem_handled (page_mem_entries.2 ⟨hpage, isWritten_of_pageKey?_eq hkey⟩), page_mem_owed hpage]

/-- A change of a file is handled by building a stylesheet if no record depends on the file, or if
the stylesheet is owed. -/
theorem style_mem_handled {s s' : Session σ} {f : Path} {filenames : List String}
    {sheet : Stylesheet} (hsheet : sheet ∈ b.styles) :
    .style sheet ∈ b.handled s s' f filenames ↔
      (∀ record ∈ s.records, f ∉ record.dependencies) ∨ sheet ∈ b.owedStyles s f := by
  rw [mem_handled (style_mem_entries.2 hsheet), style_mem_owed]

/-- The pass for the source of a page attempts the page if and only if no record names the source,
or the pass builds and renames a stylesheet that a page with its key links. If it does, its report
tells of the page. -/
theorem handle_source_attempts_iff (hb : b.IsStandard) {s : Session σ} (hs : b.Reachable s)
    {page : Page} (hpage : page ∈ b.settings.pages) {source : Path} {filename : String}
    (hkey : pageKey? page = some (source, filename)) :
    ∃ filenames kind changed r s₁ s', (b.handle [source]).perform s = (.ok r, s') ∧
      (b.run (b.handled s s' source filenames) (.start kind b.settings.mode changed)).perform
        { s with phase := .building } = (.ok r, s₁) ∧
      s' = { s₁ with phase := .idle, log := s'.log } ∧
      (.page page ∈ b.handled s s' source filenames ↔
        (∀ record ∈ s.records, source ∉ record.dependencies) ∨
          ∃ style ∈ b.owedStyles s source, s'.names.lookup style ≠ s.names.lookup style ∧
            ∃ q ∈ b.settings.pages, pageKey? q = pageKey? page ∧ b.Links q style) ∧
      (.page page ∈ b.handled s s' source filenames → r.Tells page) := by
  have h := hs.settled hb
  obtain ⟨filenames, kind, changed, r, s₁, s', happly, hrun, hend⟩ :=
    handle_spec hb.isFiling h.idle h.proper.once source
  refine ⟨filenames, kind, changed, r, s₁, s', happly, hrun, hend, ?_,
    fun hmem => run_tells hrun hmem⟩
  rw [page_mem_handled hpage hkey]
  refine or_congr_right ?_
  constructor
  · rintro ⟨k, hk,
      ⟨record, hmem, hkind, hdependency, rfl⟩ | ⟨style, howed, hnames, q, hq, hqk, hlinks⟩⟩
    · -- The records of the key of the page do not name its source.
      exact absurd hdependency (source_notMem_of_key h.proper hkey hmem hkind hk)
    · exact ⟨style, howed, hnames, q, hq, hqk.trans hk.symm, hlinks⟩
  · rintro ⟨style, howed, hnames, q, hq, hqk, hlinks⟩
    exact ⟨(source, filename), hkey, .inr ⟨style, howed, hnames, q, hq, hqk.trans hkey, hlinks⟩⟩

namespace Sample

/-- A site in which a page includes the source of another. -/
def including : Builder Unit :=
  builder [page "a" "a.html" "a.html" [], page "b" "b.html" "b.html" []]

/-- The site after a full pass and an edit of the source that is included. -/
def includingSession : Session Unit :=
  edit "a.html" "new"
    (built including (session [("a.html", "old"), ("b.html", "PageBundler.include('a')")]))

end Sample

open Sample in
/-- The pass for the source of a page that another page includes. -/
theorem handle_source_sample :
    including.IsStandard ∧ including.Reachable includingSession ∧
      pageKey? (page "a" "a.html" "a.html" []) = some (path "a.html", "a.html") ∧
      ∃ r s', (including.handle [path "a.html"]).perform includingSession = (.ok r, s') := by
  have hreachable : including.Reachable includingSession :=
    .between _ _ (.buildAll (.start _ _ _ _ rfl))
  have hkey : pageKey? (page "a" "a.html" "a.html" []) = some (path "a.html", "a.html") := by decide
  have hpage : page "a" "a.html" "a.html" [] ∈ including.settings.pages := List.mem_cons_self
  obtain ⟨-, -, -, r, -, s', h, -⟩ :=
    handle_source_attempts_iff (b := including) rfl hreachable hpage hkey
  exact ⟨rfl, hreachable, hkey, r, s', h⟩

open Sample in
/-- The edit of a source that another page includes is lost: the report of its pass tells of the
other page alone, without an error, and the file of the page is the old one. -/
theorem handle_source_missed :
    ((including.handle [path "a.html"]).perform includingSession).1.toOption.map
        (fun r => (r.pages.map Value.display, r.errors)) = some (["b"], []) ∧
      ((including.handle [path "a.html"]).perform includingSession).2.tree.at?
        ["site", "dist", "a.html"] =
        includingSession.tree.at? ["site", "dist", "a.html"] := by
  decide +kernel

end Builder

end StaticSite
