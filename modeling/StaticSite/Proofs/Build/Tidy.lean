import Mathlib.Data.List.Pairwise
import StaticSite.Proofs.Build.Agreement
import StaticSite.Proofs.Build.Report

/-!
# Tidy sites

In a tidy site no two outputs get in the way of each other (`IsTidy`). All its entries are apart
then (`IsTidy.apart_of_ne`), so that a run over some of them, each once, does to each what doing it
alone would (`exists_isDone`).
-/

namespace StaticSite.Builder

variable {σ : Type} {b : Builder σ} {place : Place} {w w' : Work} {filenames : List String}

/-- A site in which outputs do not get in the way of each other: it is not cleaned and has no chunk
manifest, every output lies below the output directory, no output is that of another or lies above
or below it, whatever the texts of stylesheets are, and no page has the key of a stylesheet. -/
structure IsTidy (b : Builder σ) (place : Place) : Prop where
  /-- The site is not cleaned. -/
  unclean : b.settings.clean = false
  /-- It has no chunk manifest. -/
  unlisted : b.settings.manifest = none
  /-- The working directory is a normal path. -/
  cwd : place.cwd.IsNormal
  /-- Pages have sources that start at a root and never go back up. -/
  sources : ∀ p ∈ b.settings.pages, ∀ source, p.source = some source → source.IsGrounded
  /-- Outputs lie below the output directory. -/
  inside : ∀ w ∈ b.entries ++ b.mapping [], ∀ l ∈ w.candidates b.settings place,
    b.settings.output.names <+: l ∧ l ≠ b.settings.output.names
  /-- Outputs are clear of each other. -/
  clear : (b.entries ++ b.mapping []).Pairwise (Work.IsClearOf b place)
  /-- No page has the key of a stylesheet. -/
  keys : ∀ p ∈ b.settings.pages, ∀ style ∈ b.styles,
    pageKey? p ≠ some (style.source, style.filename)

/-- An entry is a stylesheet of the site or a page of it that is written. -/
theorem mem_entries : w ∈ b.entries ↔
    (∃ style ∈ b.styles, w = .style style) ∨ ∃ p ∈ b.settings.pages, p.isWritten = true ∧
      w = .page p := by
  simp only [entries, List.mem_append, List.mem_map, List.mem_filter]
  constructor
  · rintro (⟨style, hstyle, rfl⟩ | ⟨p, ⟨hmem, hp⟩, rfl⟩)
    · exact .inl ⟨style, hstyle, rfl⟩
    · exact .inr ⟨p, hmem, hp, rfl⟩
  · rintro (⟨style, hstyle, rfl⟩ | ⟨p, hmem, hp, rfl⟩)
    · exact .inl ⟨style, hstyle, rfl⟩
    · exact .inr ⟨p, ⟨hmem, hp⟩, rfl⟩

/-- A piece of work among the entries builds an entry. -/
theorem isEntry_of_mem (h : w ∈ b.entries) : w.IsEntry := by
  rcases mem_entries.1 h with ⟨style, -, rfl⟩ | ⟨p, -, -, rfl⟩ <;> trivial

/-- A piece of work that builds an entry makes one file. -/
theorem isProduct_of_isEntry (h : w.IsEntry) : w.IsProduct := by
  cases w with
  | assets | clean => exact h
  | style | page | sitemap => trivial

/-- The removal of a directory is the only piece of work that comes between the assets and the
entries. -/
theorem exists_of_mem_cleaning (h : w ∈ b.cleaning) : ∃ sheet, w = .clean sheet := by
  unfold cleaning at h
  split at h
  · cases h
  · rename_i first _ _
    split at h
    · exact ⟨first, List.mem_singleton.1 h⟩
    · cases h

/-- The sitemap is the only piece of work that comes after the entries. -/
theorem mem_mapping (h : w ∈ b.mapping filenames) :
    ∃ o, w = .sitemap o filenames ∧ .sitemap o [] ∈ b.mapping [] := by
  unfold mapping at h ⊢
  cases hoption : b.settings.sitemap with
  | none => rw [hoption] at h; cases h
  | some o =>
    rw [hoption] at h
    simp only at h ⊢
    split at h
    · rename_i hoptimized
      exact ⟨o, List.mem_singleton.1 h, by rw [if_pos hoptimized]; exact List.mem_cons_self⟩
    · cases h

/-- Each entry and the sitemap make one file. -/
theorem isProduct_of_mem (h : w ∈ b.entries ++ b.mapping filenames) : w.IsProduct := by
  rcases List.mem_append.1 h with h | h
  · exact isProduct_of_isEntry (isEntry_of_mem h)
  · obtain ⟨o, rfl, -⟩ := mem_mapping h
    trivial

/-- Every entry has a file that it may make. -/
theorem Work.exists_mem_candidates (settings : Settings) (place : Place) (h : w.IsProduct) :
    ∃ l, l ∈ w.candidates settings place := by
  cases w with
  | assets | clean => exact h.elim
  | style sheet => exact ⟨_, "", rfl⟩
  | page p => exact ⟨_, rfl⟩
  | sitemap => exact ⟨_, rfl⟩

/-- A piece of work that makes a file is not clear of itself. -/
theorem Work.not_isClearOf_self (h : w.IsProduct) : ¬w.IsClearOf b place w := by
  intro hclear
  obtain ⟨l, hl⟩ := exists_mem_candidates b.settings place h
  -- A location is at itself.
  exact (hclear l hl l hl).1 (List.prefix_refl l)

namespace IsTidy

/-- Every output lies below the output directory, whatever pages the sitemap lists. -/
theorem inside_of_mem (h : b.IsTidy place) (hw : w ∈ b.entries ++ b.mapping filenames)
    {l : Location} (hl : l ∈ w.candidates b.settings place) :
    b.settings.output.names <+: l ∧ l ≠ b.settings.output.names := by
  rcases List.mem_append.1 hw with hw | hw
  · exact h.inside w (List.mem_append_left _ hw) l hl
  · obtain ⟨o, rfl, ho⟩ := mem_mapping hw
    exact h.inside _ (List.mem_append_right _ ho) l hl

/-- No entry is listed twice. -/
theorem nodup (h : b.IsTidy place) : b.entries.Nodup := by
  refine (List.pairwise_append.1 h.clear).1.imp_of_mem fun {w w'} hw _ hclear => ?_
  rintro rfl
  exact Work.not_isClearOf_self (isProduct_of_isEntry (isEntry_of_mem hw)) hclear

/-- In a tidy site two different pieces of work are clear of each other. -/
theorem isClearOf_of_ne (h : b.IsTidy place) (hw : w ∈ b.entries)
    (hw' : w' ∈ b.entries ++ b.mapping filenames) (hne : w ≠ w') : w.IsClearOf b place w' := by
  have hforall := h.clear.forall
  rcases List.mem_append.1 hw' with hw' | hw'
  · exact hforall (List.mem_append_left _ hw) (List.mem_append_left _ hw') hne
  · obtain ⟨o, rfl, ho⟩ := mem_mapping hw'
    -- Where the sitemap is written does not depend on the pages that it lists.
    have hclear : w.IsClearOf b place (.sitemap o []) := by
      refine hforall (List.mem_append_left _ hw) (List.mem_append_right _ ho) ?_
      rintro rfl
      exact isEntry_of_mem hw
    exact hclear

/-- Entries are apart from each other and from the sitemap. -/
theorem apart_of_ne (h : b.IsTidy place) (hw : w ∈ b.entries)
    (hw' : w' ∈ b.entries ++ b.mapping filenames) (hne : w ≠ w') : w.Apart b place w' := by
  -- Their output files are apart; what is left are the keys they are recorded under and the names
  -- of stylesheets.
  have hclear := h.isClearOf_of_ne hw hw' hne
  have hentry : w' ∈ b.entries ∨ ∃ o, w' = .sitemap o filenames := by
    refine (List.mem_append.1 hw').imp_right fun hmapping => ?_
    obtain ⟨o, rfl, -⟩ := mem_mapping hmapping
    exact ⟨o, rfl⟩
  refine ⟨fun k hk hk' => ?_, fun style hstyle hstyle' => ?_, hclear⟩
  · rcases hentry with hentry | ⟨o, rfl⟩
    · rcases mem_entries.1 hw with ⟨style, hmem, rfl⟩ | ⟨p, hmem, hp, rfl⟩ <;>
      rcases mem_entries.1 hentry with ⟨style', hmem', rfl⟩ | ⟨p', hmem', hp', rfl⟩
      · -- Stylesheets with the same key are the same.
        have hkeys : (style.source, style.filename) = (style'.source, style'.filename) :=
          (Set.mem_singleton_iff.1 hk).symm.trans (Set.mem_singleton_iff.1 hk')
        obtain ⟨source, filename⟩ := style
        obtain ⟨source', filename'⟩ := style'
        obtain ⟨rfl, rfl⟩ := Prod.mk.inj hkeys
        exact hne rfl
      · exact h.keys p' hmem' style hmem ((pageKey?_of_mem_keys hp' hk').trans
          (congrArg some (Set.mem_singleton_iff.1 hk)))
      · exact h.keys p hmem style' hmem' ((pageKey?_of_mem_keys hp hk).trans
          (congrArg some (Set.mem_singleton_iff.1 hk')))
      · -- Pages with the same key have the same output.
        obtain ⟨source, -, rfl⟩ := hk
        obtain ⟨source', -, hkey⟩ := hk'
        have hname : Rendering.outputName p = Rendering.outputName p' := congrArg Prod.snd hkey
        refine (hclear _ rfl _ rfl).1 ?_
        rw [hname]
    · exact hk'
  · rcases hentry with hentry | ⟨o, rfl⟩
    · rcases mem_entries.1 hw with ⟨style₁, -, rfl⟩ | ⟨p, -, -, rfl⟩
      · rcases mem_entries.1 hentry with ⟨style₂, -, rfl⟩ | ⟨p', -, -, rfl⟩
        · refine hne ?_
          rw [← Set.mem_singleton_iff.1 hstyle, ← Set.mem_singleton_iff.1 hstyle']
        · exact hstyle'
      · exact hstyle
    · exact hstyle'

/-- In a tidy site the sources of pages are grounded. -/
theorem isGrounded_of_mem (h : b.IsTidy place) (hw : w ∈ b.entries) : w.IsGrounded := by
  rcases mem_entries.1 hw with ⟨style, -, rfl⟩ | ⟨p, hmem, -, rfl⟩
  · trivial
  · exact h.sources p hmem

end IsTidy

/-! ## Runs over entries -/

/-- A run that leads from `s` to `s'` and ends with some errors does an entry once, from `s₁` to
`s₂`. -/
structure Work.IsDone (b : Builder σ) (w : Work) (s s' : Session σ) (errors : List String)
    (s₁ s₂ : Session σ) : Prop where
  /-- What comes before spares it. -/
  before : w.Spares b s s₁
  /-- It is built, and fails only if there are errors. -/
  ends : ∃ c, w.Ends b s₁ c s₂ ∧ (errors = [] → c = true)
  /-- What comes after spares it. -/
  after : w.Spares b s₂ s'
  /-- Until it begins nothing was written but outputs. -/
  writesBefore : Tree.ChangedOnly {l | b.settings.output.names <+: l} s.tree s₁.tree
  /-- From then on nothing is written but outputs. -/
  writesAfter : Tree.ChangedOnly {l | b.settings.output.names <+: l} s₁.tree s'.tree
  /-- Once it ended nothing was written but outputs. -/
  writesLast : Tree.ChangedOnly {l | b.settings.output.names <+: l} s₂.tree s'.tree
  /-- When it begins the stylesheets that it links have their names. -/
  links : ∀ style ∈ w.links b, s'.names.lookup style = s₁.names.lookup style

/-- A run over entries writes nothing but outputs. -/
theorem IsTidy.changedOnly_of_run (hb : b.IsStandard) {s : Session σ} (h : b.IsTidy s.place)
    {works : List Work} (hworks : ∀ w ∈ works, w ∈ b.entries ++ b.mapping filenames) {r r' : Report}
    {s' : Session σ} (hrun : b.run works r s = (.ok r', s')) :
    s.ChangedOnly (keysOf works) (stylesOf works) {l | b.settings.output.names <+: l} s' := by
  obtain ⟨r'', s'', hrun', hchanged⟩ := run_changedOnly_candidates hb
    (fun w hw => isProduct_of_mem (hworks w hw)) r h.cwd.isGrounded.absolute
  cases hrun.symm.trans hrun'
  refine hchanged.mono (fun _ => id) (fun _ => id) ?_
  rintro l ⟨w, hw, hl⟩
  exact (h.inside_of_mem (hworks w hw) hl).1

/-- A run over entries that are apart, of which none but the first gives a name to a stylesheet that
the first links, does the first once. -/
theorem IsTidy.exists_isDone (hb : b.IsStandard) {s : Session σ} (h : b.IsTidy s.place)
    {pre post : List Work} (hall : ∀ w' ∈ pre ++ w :: post, w' ∈ b.entries ++ b.mapping filenames)
    (hw : w.IsEntry) (hapart : ∀ w' ∈ pre ++ post, w.Apart b s.place w')
    (hlinks : ∀ w' ∈ w :: post, ∀ style ∈ w.links b, style ∉ w'.styles) {r r' : Report}
    {s' : Session σ} (hrun : b.run (pre ++ w :: post) r s = (.ok r', s')) :
    ∃ s₁ s₂, w.IsDone b s s' r'.errors s₁ s₂ := by
  have habsolute := h.cwd.isGrounded.absolute
  -- The run in three parts: what comes before, the entry, and what comes after.
  have hpre : ∀ w' ∈ pre, w' ∈ b.entries ++ b.mapping filenames :=
    fun w' hw' => hall w' (List.mem_append_left _ hw')
  have hrest : ∀ w' ∈ w :: post, w' ∈ b.entries ++ b.mapping filenames :=
    fun w' hw' => hall w' (List.mem_append_right _ hw')
  have hpost : ∀ w' ∈ post, w' ∈ b.entries ++ b.mapping filenames :=
    fun w' hw' => hrest w' (List.mem_cons_of_mem _ hw')
  obtain ⟨r₁, s₁, hrun₁, hplace₁, -⟩ := run_keeps hb.isFiling pre r s
  rw [run_append_apply hrun₁] at hrun
  obtain ⟨r₂, s₂, c, hwork, hends, hclean⟩ := Work.ends_spec hb hw r₁ (s := s₁) (by rwa [hplace₁])
  have hrun₂ : b.run post r₂ s₂ = (.ok r', s') := by
    rw [run_cons, bind_apply_ok hwork] at hrun
    exact hrun
  have hwork₁ : b.run [w] r₁ s₁ = (.ok r₂, s₂) := by
    rw [run_cons, bind_apply_ok hwork, run_nil]
  obtain ⟨hplace₂, -⟩ := keeps_of_run hb.isFiling hwork₁
  have hplace : s₂.place = s.place := hplace₂.trans hplace₁
  refine ⟨s₁, s₂, Work.spares_of_run hb (fun w' hw' => isProduct_of_mem (hpre w' hw'))
    (fun w' hw' => hapart w' (List.mem_append_left _ hw')) habsolute hrun₁,
    ⟨c, hends, fun herrors => ?_⟩,
      Work.spares_of_run hb (fun w' hw' => isProduct_of_mem (hpost w' hw')) (fun w' hw' => ?_)
      (by rwa [hplace]) hrun₂, ?_, ?_, ?_, fun style hstyle => ?_⟩
  · -- An error of the entry would be in the report at the end.
    refine hclean (List.eq_nil_iff_forall_not_mem.2 fun message hmem => ?_)
    have := (run_extends hrun₂).errors hmem
    rw [herrors] at this
    cases this
  · rw [hplace]
    exact hapart w' (List.mem_append_right _ hw')
  · exact (h.changedOnly_of_run hb hpre hrun₁).tree
  · rw [← hplace₁] at h
    exact (h.changedOnly_of_run hb hrest hrun).tree
  · rw [← hplace] at h
    exact (h.changedOnly_of_run hb hpost hrun₂).tree
  · rw [← hplace₁] at h
    refine (h.changedOnly_of_run hb hrest hrun).names style ?_
    rintro ⟨w', hw', hmem⟩
    exact hlinks w' hw' style hstyle hmem

end StaticSite.Builder
