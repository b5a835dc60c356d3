import StaticSite.Proofs.Build.History
import StaticSite.Proofs.Build.Source

/-!
# Recovery from failures

An entry that could not be built keeps the record of its last good attempt, and none if it had no
such attempt. So an edit that mends it builds it again only where no record names the file, which
makes for a full pass, or where the last good attempt was made from the file already, or where the
edit renames a stylesheet that the page links (`handle_attempts_iff`). A page that failed because of
a file that it did not include when it was last built well is missed if another page includes that
file (`handle_recovery_missed`).
-/

namespace StaticSite

variable {σ : Type}

/-- Where there is one record for each key, a record is found under its key if it is there. -/
theorem Records.mem_iff_find?_eq {rs : Records} (h : (rs.map Record.key).Nodup) {record : Record} :
    record ∈ rs ↔ rs.find? record.key = some record := by
  refine ⟨fun hmem => ?_, List.mem_of_find?_eq_some⟩
  obtain ⟨found, hfound⟩ : ∃ found, rs.find? record.key = some found :=
    Option.isSome_iff_exists.1 (List.find?_isSome.2 ⟨record, hmem, beq_self_eq_true _⟩)
  have hkey : found.key = record.key := by simpa using List.find?_some hfound
  rw [hfound, List.inj_on_of_nodup_map h (List.mem_of_find?_eq_some hfound) hmem hkey]

namespace Builder

variable {b : Builder σ}

namespace Entry

/-- The key under which an entry is recorded, if it is written. -/
def key? : Entry → Option Record.Key
  | style sheet => some (sheet.source, sheet.filename)
  | page p => pageKey? p

/-- What the record of an entry is kept for. -/
def kind : Entry → RecordKind
  | style _ => .style
  | page _ => .page

end Entry

/-- The record of the last good one among some attempts with a key. -/
def lastGood (b : Builder σ) (attempts : List (Attempt σ)) (k : Record.Key) : Option Record :=
  (attempts.filterMap (·.kept b)).reverse.find? (·.key = k)

/-- The last good attempt with the key of an entry was made from a file, for an entry of the same
kind. -/
def MadeFrom (b : Builder σ) (attempts : List (Attempt σ)) (f : Path) (e : Entry) : Prop :=
  ∃ k record, e.key? = some k ∧ b.lastGood attempts k = some record ∧ record.kind = e.kind ∧
    f ∈ record.dependencies

/-- The records are those of the last good attempts. -/
theorem History.mem_records_iff (hparts : b.parts.IsFiling) {attempts : List (Attempt σ)}
    {s : Session σ} (h : b.History attempts s) {record : Record} :
    record ∈ s.records ↔ b.lastGood attempts record.key = some record := by
  obtain ⟨-, hrecords, -⟩ := h.keeps hparts
  have hfind : s.records.find? record.key = b.lastGood attempts record.key := by
    rw [hrecords, Records.find?_foldl_keep]
    exact Option.or_none
  rw [← hfind]
  exact Records.mem_iff_find?_eq (h.once hparts)

/-- The last good attempt for an entry was made from a file if a record of its key and kind names
the file. -/
theorem History.madeFrom_iff (hparts : b.parts.IsFiling) {attempts : List (Attempt σ)}
    {s : Session σ} (h : b.History attempts s) {f : Path} {e : Entry} :
    b.MadeFrom attempts f e ↔
      ∃ record ∈ s.records, record.kind = e.kind ∧ f ∈ record.dependencies ∧
        e.key? = some record.key := by
  constructor
  · rintro ⟨k, record, hk, hgood, hkind, hmem⟩
    have hkey : record.key = k := by simpa using List.find?_some hgood
    subst hkey
    exact ⟨record, (h.mem_records_iff hparts).2 hgood, hkind, hmem, hk⟩
  · rintro ⟨record, hrecord, hkind, hmem, hk⟩
    exact ⟨record.key, record, hk, (h.mem_records_iff hparts).1 hrecord, hkind, hmem⟩

/-- The stylesheets that an incremental pass builds are those that are configured and were made from
the file. -/
theorem History.mem_owedStyles_iff (hparts : b.parts.IsFiling) {attempts : List (Attempt σ)}
    {s : Session σ} (h : b.History attempts s) {f : Path} {sheet : Stylesheet} :
    sheet ∈ b.owedStyles s f ↔ sheet ∈ b.styles ∧ b.MadeFrom attempts f (.style sheet) := by
  rw [h.madeFrom_iff hparts]
  constructor
  · intro howed
    obtain ⟨record, hrecord, hsheet⟩ := List.mem_filterMap.1 howed
    obtain ⟨hstyles, hkey⟩ := styleOf?_eq_some hsheet
    obtain ⟨howner, hkind⟩ := List.mem_filter.1 hrecord
    obtain ⟨hmem, hnames⟩ := List.mem_filter.1 howner
    exact ⟨hstyles, record, hmem, of_decide_eq_true hkind, List.contains_iff_mem.1 hnames,
      congrArg some hkey⟩
  · rintro ⟨hstyles, record, hmem, hkind, hdependency, hkey⟩
    have howner : record ∈ (s.records.owners f).filter (·.kind = .style) :=
      List.mem_filter.2 ⟨List.mem_filter.2 ⟨hmem, List.contains_iff_mem.2 hdependency⟩,
        decide_eq_true hkind⟩
    -- The key of a stylesheet is all there is to it.
    refine List.mem_filterMap.2 ⟨record, howner, ?_⟩
    obtain ⟨found, hfound⟩ : ∃ found, b.styleOf? record = some found :=
      Option.isSome_iff_exists.1
        (List.find?_isSome.2 ⟨sheet, hstyles, by simpa using Option.some.inj hkey⟩)
    have hsame : (found.source, found.filename) = (sheet.source, sheet.filename) :=
      (styleOf?_eq_some hfound).2.trans (Option.some.inj hkey).symm
    obtain ⟨hsource, hfilename⟩ := Prod.mk.inj hsame
    rw [hfound]
    cases found
    cases sheet
    cases hsource
    cases hfilename
    rfl

/-- The pass for a file attempts an entry if no record names the file, if the last good attempt for
the entry was made from the file, or if the entry is a page and the pass renames a stylesheet, of
which the same can be said, that a page with its key links; and only then. An attempt that failed is
no good one, whatever made it fail. -/
theorem handle_attempts_iff (hparts : b.parts.IsFiling) {attempts : List (Attempt σ)}
    {s : Session σ} (hs : b.History attempts s) {e : Entry} (he : e.work ∈ b.entries) (f : Path) :
    ∃ filenames kind changed r s₁ s', (b.handle [f]).perform s = (.ok r, s') ∧
      (b.run (b.handled s s' f filenames) (.start kind b.settings.mode changed)).perform
        { s with phase := .building } = (.ok r, s₁) ∧
      s' = { s₁ with phase := .idle, log := s'.log } ∧
      (e.work ∈ b.handled s s' f filenames ↔
        (∀ k record, b.lastGood attempts k = some record → f ∉ record.dependencies) ∨
        b.MadeFrom attempts f e ∨
        ∃ p sheet q, e = .page p ∧ sheet ∈ b.styles ∧ b.MadeFrom attempts f (.style sheet) ∧
          s'.names.lookup sheet ≠ s.names.lookup sheet ∧ q ∈ b.settings.pages ∧
            pageKey? q = pageKey? p ∧
          b.Links q sheet) := by
  obtain ⟨filenames, kind, changed, r, s₁, s', happly, hrun, hend⟩ :=
    handle_spec hparts (hs.keeps hparts).1 (hs.once hparts) f
  refine ⟨filenames, kind, changed, r, s₁, s', happly, hrun, hend, ?_⟩
  -- The records are those of the last good attempts, so that either of them names the file.
  have hnone : (∀ record ∈ s.records, f ∉ record.dependencies) ↔
      ∀ k record, b.lastGood attempts k = some record → f ∉ record.dependencies := by
    constructor
    · intro h k record hgood
      have hkey : record.key = k := by simpa using List.find?_some hgood
      exact h record ((hs.mem_records_iff hparts).2 (by rw [hkey]; exact hgood))
    · intro h record hmem
      exact h record.key record ((hs.mem_records_iff hparts).1 hmem)
  rw [← hnone]
  cases e with
  | style sheet =>
    have hsheet : sheet ∈ b.styles := style_mem_entries.1 he
    rw [Entry.work, style_mem_handled hsheet, hs.mem_owedStyles_iff hparts]
    refine or_congr_right ⟨fun h => .inl h.2, ?_⟩
    rintro (h | ⟨p, sheet, q, hp, -⟩)
    · exact ⟨hsheet, h⟩
    · cases hp
  | page p =>
    obtain ⟨hpage, hwritten⟩ := page_mem_entries.1 he
    obtain ⟨k, hk⟩ := exists_pageKey?_eq hwritten
    rw [Entry.work, page_mem_handled hpage hk, hs.madeFrom_iff hparts]
    refine or_congr_right ⟨?_, ?_⟩
    · rintro ⟨k', hk',
        ⟨record, hmem, hkind, hdependency, rfl⟩ | ⟨sheet, howed, hnames, q, hq, hqk, hlinks⟩⟩
      · exact .inl ⟨record, hmem, hkind, hdependency, hk'⟩
      · obtain ⟨hstyles, hmade⟩ := (hs.mem_owedStyles_iff hparts).1 howed
        exact .inr ⟨p, sheet, q, rfl, hstyles, hmade, hnames, hq, hqk.trans hk'.symm, hlinks⟩
    · rintro (⟨record, hmem, hkind, hdependency, hkey⟩ | ⟨p, sheet, q, hp, hstyles, hmade, hnames,
        hq, hqk, hlinks⟩)
      · exact ⟨record.key, hkey, .inl ⟨record, hmem, hkind, hdependency, rfl⟩⟩
      · cases hp
        exact ⟨k, hk, .inr ⟨sheet, (hs.mem_owedStyles_iff hparts).2 ⟨hstyles, hmade⟩, hnames, q, hq,
          hqk.trans hk, hlinks⟩⟩

namespace Sample

/-- Two pages of which each includes a file of its own. -/
def separate : Session Unit :=
  session [("a.html", "PageBundler.include('k')"), ("b.html", "PageBundler.include('x')"),
    ("k.html", "k"), ("x.html", "x")]

/-- The site after a full pass, once the file of the second page is gone and that of the first
includes it. -/
def entangled : Session Unit :=
  let first := built recovering separate
  edit "k.html" "PageBundler.include('x')"
    { first with tree := first.tree.erase ["site", "src", "x.html"] }

/-- The site after another full pass, once the file that is missing is written again. -/
def mended : Session Unit := edit "x.html" "x" (built recovering entangled)

/-- The attempts of the two passes. -/
noncomputable def mendedAttempts : List (Attempt Unit) :=
  ([] ++ Request.all.attempts recovering separate) ++ Request.all.attempts recovering entangled

/-- The sample is a history of the site. -/
theorem history_mended : recovering.History mendedAttempts mended :=
  .between _ _ (.request .all (.between _ _ (.between _ _ (.request .all (.start _ _ _ _)))))

end Sample

open Sample in
/-- The pass for the file that was written again. -/
theorem handle_attempts_sample :
    recovering.parts.IsFiling ∧ recovering.History mendedAttempts mended ∧
      (Entry.page (page "a" "a.html" "a.html" [])).work ∈ recovering.entries ∧
      ∃ r s', (recovering.handle [path "x.html"]).perform mended = (.ok r, s') := by
  have hparts : recovering.parts.IsFiling := Collaborators.isFiling_standard _
  have hmem : (Entry.page (page "a" "a.html" "a.html" [])).work ∈ recovering.entries :=
    page_mem_entries.2 ⟨List.mem_cons_self, by decide⟩
  obtain ⟨-, -, -, r, -, s', h, -⟩ := handle_attempts_iff hparts history_mended hmem (path "x.html")
  exact ⟨hparts, history_mended, hmem, r, s', h⟩

open Sample in
/-- The first page failed in the last pass, and would be built well now that the file is written
again. Only the second is attempted, whose record names the file, and the first goes on to show what
was missing. -/
theorem handle_recovery_missed :
    recovering.History mendedAttempts mended ∧
      mendedAttempts.map (fun a => (a.entry.label, (a.kept recovering).isSome)) =
        [("a", true), ("b", true), ("a", false), ("b", false)] ∧
      ((Entry.page (page "a" "a.html" "a.html" [])).ending recovering mended).record?.isSome =
        true ∧
      ((recovering.handle [path "x.html"]).perform mended).1.toOption.map
        (fun r => (r.pages.map Value.display, r.errors)) = some (["b"], []) ∧
      ((recovering.handle [path "x.html"]).perform mended).2.tree.at? ["site", "dist", "a.html"] =
        mended.tree.at? ["site", "dist", "a.html"] := by
  refine ⟨history_mended, ?_⟩
  decide +kernel

end Builder

end StaticSite
