import StaticSite.Proofs.Build.Account
import StaticSite.Proofs.Build.Keeping
import StaticSite.Proofs.Build.Report
import StaticSite.Proofs.Build.Tidy

/-!
# Links to stylesheets

A page links a stylesheet under the name that the session knows of it when the page is written.
`Faultless` is every session that a builder comes to, once a full pass was made, by passes of either
kind that tell of no error, with any changes in between that take no stylesheet out of the output.
In each of them every page links every stylesheet under the name that it has now, and the file of
that name is there (`links_of_faultless`). It rests on what one piece of work does: it takes no file
away, a stylesheet that is built has its file (`hasSheet_of_work`), and whoever links one that was
renamed is built after it.
-/

namespace StaticSite

variable {σ : Type}

/-- The name under which a stylesheet is linked: the one it was given, or that of the
configuration. -/
def OutputNames.linkName (names : OutputNames) (style : Stylesheet) : String :=
  (names.lookup style).getD style.filename

/-- Names of stylesheets without a mark for a hash are as they were. -/
def Session.KeepsPlain (s s' : Session σ) : Prop :=
  ∀ sheet : Stylesheet, Style.isHashed sheet.filename = false →
    s'.names.lookup sheet = s.names.lookup sheet

instance : Std.Refl (Session.KeepsPlain : Session σ → Session σ → Prop) where
  refl _ _ _ := rfl

instance : IsTrans (Session σ) Session.KeepsPlain where
  trans _ _ _ h h' sheet hplain := (h' sheet hplain).trans (h sheet hplain)

/-- An action that leaves alone what is known of the builds keeps plain names. -/
theorem Action.IsFiling.keepsPlain {α : Type} {a : Action σ α} (h : a.IsFiling) :
    a.Within Session.KeepsPlain :=
  fun s _ _ => by rw [(h s).names]

/-- Giving a name to a stylesheet changes none without a mark. -/
theorem Style.lookup_named_of_plain (names : OutputNames) (sheet : Stylesheet) (text : String)
    {other : Stylesheet} (hplain : isHashed other.filename = false) :
    (named names sheet text).lookup other = names.lookup other := by
  by_cases h : other = sheet
  · unfold named
    rw [← h, hplain]
    rfl
  · exact lookup_named_of_ne names text h

namespace Builder

section

variable {b : Builder σ} {r r' : Report} {s s' : Session σ} {sheet : Stylesheet}

/-! ## What one piece of work does -/

namespace Entry

/-- A stylesheet that was built has the name of its file. -/
theorem named_of_build (hparts : b.parts.IsFiling) {output : Path} {d : Draft}
    (h : (style sheet).build b s = (.ok (output, d), s')) :
    ∃ names text, d.filename = Style.writtenName sheet text ∧
      s'.names = Style.named names sheet text := by
  obtain ⟨d', s₁, hdraft, h⟩ := bind_apply_eq_ok.1 h
  obtain ⟨output', s₂, hwrite, h⟩ := bind_apply_eq_ok.1 h
  have hbook := Output.isFiling_write hparts.store b.settings.output d'.filename d'.text s₁
  rw [hwrite] at hbook
  cases h
  -- The name is given at the end of the draft, and writing leaves it alone.
  obtain ⟨compiled, s₃, -, hdraft⟩ := bind_apply_eq_ok.1 hdraft
  obtain ⟨css, s₄, -, hdraft⟩ := bind_apply_eq_ok.1 hdraft
  rw [bind_apply_ok (modify_apply _ s₄), bind_apply_ok (get_apply _)] at hdraft
  cases hdraft
  exact ⟨s₄.names, String.ofList css, rfl, hbook.names⟩

/-- Building an entry keeps plain names. -/
theorem keepsPlain_build (hparts : b.parts.IsFiling) (e : Entry) :
    (e.build b).Within Session.KeepsPlain := by
  have hdraft : (e.draft b).Within Session.KeepsPlain := by
    cases e with
    | style sheet =>
      refine (hparts.compile _ _).keepsPlain.bind fun _ =>
        (Style.isFiling_finished hparts _ _).keepsPlain.bind
          fun css => Action.Within.bind (fun s other hplain => ?_) fun _ =>
            Action.Within.get.bind fun _ => .pure _
      exact Style.lookup_named_of_plain s.names sheet (String.ofList css) hplain
    | page p =>
      intro s other _
      exact (draft_renames hparts (page p) s).names other id
  exact hdraft.bind fun d =>
    (Output.isFiling_write hparts.store _ _ _).keepsPlain.bind fun _ => .pure _

end Entry

/-- No piece of work names a stylesheet without a mark for a hash. -/
theorem keepsPlain_work (hparts : b.parts.IsFiling) (w : Work) (r : Report) :
    (b.work r w).Within Session.KeepsPlain := by
  have hentry : ∀ e : Entry, (b.work r e.work).Within Session.KeepsPlain := fun e =>
    work_within hparts (fun _ _ _ _ h => h) (e.keepsPlain_build hparts) r
  have hother : w.styles = ∅ → (b.work r w).Within Session.KeepsPlain := by
    intro hnone s other _
    obtain ⟨r', s', hwork, hfollows⟩ := work_follows hparts w r s
    rw [hwork]
    refine hfollows.names other ?_
    rw [hnone]
    exact id
  cases w with
  | style sheet => exact hentry (.style sheet)
  | assets | clean | page | sitemap => exact hother rfl

/-- The file of a stylesheet is there, under the name that is known of it. -/
def HasSheet (b : Builder σ) (s : Session σ) (sheet : Stylesheet) : Prop :=
  s.isFile (Style.currentPath b.settings s.place s.names sheet) = .ok true

/-- The file of a stylesheet is there as long as no file is taken away and its name stays. -/
theorem HasSheet.keep (h : b.HasSheet s sheet) (hkeeps : s.KeepsFiles s')
    (hname : s'.names.lookup sheet = s.names.lookup sheet) : b.HasSheet s' sheet := by
  have hpath : Style.currentPath b.settings s'.place s'.names sheet =
      Style.currentPath b.settings s.place s.names sheet := by
    unfold Style.currentPath
    rw [hkeeps.place, hname]
  unfold HasSheet
  rw [hpath]
  exact hkeeps.isFile h

/-- The file of a stylesheet is there once it was built without an error. -/
theorem hasSheet_of_work (hparts : b.parts.IsKeeping) (h : b.work r (.style sheet) s = (.ok r', s'))
    (hok : r'.errors = []) : b.HasSheet s' sheet := by
  obtain ⟨log, hwork⟩ := (Entry.style sheet).work_apply hparts.toIsFiling r s
  rw [show (Entry.style sheet).work = .style sheet from rfl, h] at hwork
  rcases hbuild : (Entry.style sheet).build b s with ⟨fault | ⟨output, d⟩, s₁⟩ <;>
    rw [hbuild] at hwork
  · obtain ⟨hreport, -⟩ := Prod.mk.inj hwork
    rw [Except.ok.inj hreport] at hok
    exact absurd hok (List.append_ne_nil_of_right_ne_nil _ (List.cons_ne_nil _ _))
  · obtain ⟨-, rfl⟩ := Prod.mk.inj hwork
    have hfile := Entry.isFile_of_build hparts hbuild
    obtain ⟨names, text, hname, hnames⟩ := Entry.named_of_build hparts.toIsFiling hbuild
    have hpath : Style.currentPath b.settings s₁.place s₁.names sheet =
        Output.path s₁.place b.settings.output d.filename := by
      rw [hnames, Style.currentPath_named, hname]
      rfl
    unfold HasSheet
    rw [← hpath] at hfile
    exact hfile

/-! ## What a run does -/

/-- A run that ends without an error began without one. -/
theorem errors_eq_nil_of_run {works : List Work} (h : b.run works r s = (.ok r', s'))
    (hok : r'.errors = []) :
    r.errors = [] := by
  have herrors := (run_extends h).errors
  rw [hok] at herrors
  exact List.subset_nil.1 herrors

/-- After a run without an error the files of the stylesheets that it built are there, and those
that were there. -/
theorem hasSheet_of_run (hparts : b.parts.IsKeeping) {works : List Work}
    (hworks : ∀ w ∈ works, w.IsProduct) (h : b.run works r s = (.ok r', s')) (hok : r'.errors = [])
    (hsheet : .style sheet ∈ works ∨ b.HasSheet s sheet) : b.HasSheet s' sheet := by
  induction works generalizing r s with
  | nil =>
    cases h
    exact hsheet.resolve_left List.not_mem_nil
  | cons w works ih =>
    rw [run_cons] at h
    obtain ⟨r₁, s₁, hwork, hrun⟩ := bind_apply_eq_ok.1 h
    obtain ⟨hproduct, hworks⟩ := List.forall_mem_cons.1 hworks
    by_cases hw : w = .style sheet
    · rw [hw] at hwork
      exact ih hworks hrun (.inr (hasSheet_of_work hparts hwork (errors_eq_nil_of_run hrun hok)))
    · refine ih hworks hrun (hsheet.imp (fun hmem => ?_) fun hbefore => ?_)
      · exact (List.mem_cons.1 hmem).resolve_left (Ne.symm hw)
      · -- Any other piece leaves the name and the file alone.
        have hkeeps := isKeeping_work hparts hproduct r s
        obtain ⟨r₂, s₂, hwork', hfollows⟩ := work_follows hparts.toIsFiling w r s
        rw [hwork] at hkeeps hwork'
        cases hwork'
        refine hbefore.keep hkeeps (hfollows.names sheet fun hmem => hw ?_)
        cases w with
        | style other => rw [Set.mem_singleton_iff.1 hmem]
        | assets | clean | page | sitemap => exact hmem.elim

/-- A run keeps plain names. -/
theorem keepsPlain_of_run (hparts : b.parts.IsFiling) {works : List Work}
    (h : b.run works r s = (.ok r', s')) :
    s.KeepsPlain s' := by
  induction works generalizing r s with
  | nil =>
    cases h
    exact refl_of Session.KeepsPlain s'
  | cons w works ih =>
    rw [run_cons] at h
    obtain ⟨r₁, s₁, hwork, hrun⟩ := bind_apply_eq_ok.1 h
    have hplain := keepsPlain_work hparts w r s
    rw [hwork] at hplain
    exact trans_of Session.KeepsPlain hplain (ih hrun)

/-- Every attempt of a run without an error is written. -/
theorem writes_of_run (hparts : b.parts.IsFiling) {works : List Work}
    (h : b.run works r s = (.ok r', s')) (hok : r'.errors = []) {a : Attempt σ}
    (ha : a ∈ b.attempts works r s) : ∃ d, a.Writes b d := by
  obtain ⟨earlier, later, r₁, r₂, s₂, -, -, hwork, hrun⟩ := exists_run_of_mem_attempts h ha
  have hadds := (a.entry.work_adds hparts hwork).errors
  rw [errors_eq_nil_of_run hrun hok] at hadds
  -- An attempt that is not written has an error.
  have htold := a.told (b := b)
  generalize a.account b = account at hadds htold
  cases htold with
  | failed message =>
    have hnil := (List.append_eq_nil_iff.1 hadds.symm).2
    cases hnil
  | style _ hwrites | page _ hwrites | broken _ _ hwrites => exact ⟨_, hwrites⟩

/-- Where a run builds no stylesheet, each of its attempts finds the names that there are at the
end. -/
theorem lookup_of_mem_attempts (hparts : b.parts.IsFiling) {works : List Work}
    (hworks : ∀ w ∈ works, w.styles = ∅) (h : b.run works r s = (.ok r', s')) {a : Attempt σ}
    (ha : a ∈ b.attempts works r s) (sheet : Stylesheet) :
    a.before.names.lookup sheet = s'.names.lookup sheet := by
  obtain ⟨earlier, later, r₁, r₂, s₂, rfl, -, hwork, hrun⟩ := exists_run_of_mem_attempts h ha
  obtain ⟨r₃, s₃, hwork', hfollows⟩ := work_follows hparts a.entry.work r₁ a.before
  rw [hwork] at hwork'
  cases hwork'
  have hnone : ∀ w ∈ earlier ++ a.entry.work :: later, sheet ∉ w.styles := by
    intro w hw hmem
    rw [hworks w hw] at hmem
    exact hmem
  have hrest : s'.names.lookup sheet = s₂.names.lookup sheet :=
    (keeps_of_run hparts hrun).names sheet fun w hw =>
      hnone w (List.mem_append_right _ (List.mem_cons_of_mem _ hw))
  rw [hrest]
  exact (hfollows.names sheet (hnone _ (List.mem_append_right _ List.mem_cons_self))).symm

/-! ## The last time a page was written -/

/-- A page was written with links to stylesheets under some names: scripts were added to the text
that `withLinks` makes with these. -/
def Draft.LinksUnder (b : Builder σ) (p : Page) (names : OutputNames) (d : Draft) : Prop :=
  ∃ bundle text rendered, ∃ s s' : Session σ,
    Rendering.withScripts b.renderer p b.settings.shared? bundle
      (Rendering.withLinks p b.settings.shared? names text) s = (.ok rendered, s') ∧
    d.text = String.ofList rendered.text

/-- A page that is written links stylesheets under the names of the session in which it is. -/
theorem linksUnder_of_writes (hparts : b.parts.IsFiling) {a : Attempt σ} {p : Page} {d : Draft}
    (hentry : a.entry = .page p) (h : a.Writes b d) : d.LinksUnder b p a.before.names := by
  obtain ⟨s₁, output, s₂, hdraft, -⟩ := h
  rw [hentry, Action.perform_apply] at hdraft
  obtain ⟨source, rendered, hsource, hrender, rfl⟩ := Entry.draft_page hdraft
  generalize hresult : Rendering.render b.renderer p b.settings.shared? a.before = result at hrender
  obtain ⟨x, s'⟩ := result
  obtain rfl : x = .ok rendered := hrender
  rw [Rendering.render_eq_bind b.settings.shared? hsource] at hresult
  obtain ⟨bundle, s₃, hexpand, hresult⟩ := bind_apply_eq_ok.1 hresult
  obtain ⟨text, s₄, hminified, hresult⟩ := bind_apply_eq_ok.1 hresult
  rw [bind_apply_ok (get_apply s₄)] at hresult
  -- Neither expanding a page nor minifying it names a stylesheet.
  have hexpanded : s₃.names = a.before.names := by
    rw [Rendering.expandPage_apply] at hexpand
    obtain ⟨-, rfl⟩ := Prod.mk.inj hexpand
    rfl
  have hminify : (Rendering.minified b.renderer bundle.content).IsFiling := by
    unfold Rendering.minified
    split
    · exact hparts.minify _ _
    · exact .pure _
  have hnames := (hminify s₃).names
  rw [hminified, hexpanded] at hnames
  rw [hnames] at hresult
  exact ⟨bundle, text, rendered, s₄, s', hresult, rfl⟩

/-- An attempt is the last among some that wrote a page. -/
def LastWrites (b : Builder σ) (as : List (Attempt σ)) (p : Page) (a : Attempt σ)
    (d : Draft) : Prop :=
  ∃ before after, as = before ++ a :: after ∧ a.entry = .page p ∧ a.Writes b d ∧
    ∀ a' ∈ after, a'.entry = .page p → ∀ d', ¬a'.Writes b d'

variable {as as' : List (Attempt σ)} {p : Page} {a : Attempt σ} {d : Draft}

/-- The attempt that wrote a page last is one of those that were made. -/
theorem LastWrites.mem (h : b.LastWrites as p a d) : a ∈ as := by
  obtain ⟨before, after, rfl, -⟩ := h
  exact List.mem_append_right before List.mem_cons_self

/-- What was attempted before does not count. -/
theorem LastWrites.append_left (h : b.LastWrites as' p a d) : b.LastWrites (as ++ as') p a d := by
  obtain ⟨before, after, rfl, hentry, hwrites, hlast⟩ := h
  exact ⟨as ++ before, after, (List.append_assoc ..).symm, hentry, hwrites, hlast⟩

/-- Nor does what is attempted afterwards, if that does not write the page. -/
theorem LastWrites.append_right (h : b.LastWrites as p a d)
    (hother : ∀ a' ∈ as', a'.entry = .page p → ∀ d', ¬a'.Writes b d') :
    b.LastWrites (as ++ as') p a d := by
  obtain ⟨before, after, rfl, hentry, hwrites, hlast⟩ := h
  refine ⟨before, after ++ as', by rw [List.append_assoc, List.cons_append], hentry, hwrites, ?_⟩
  intro a' ha'
  rcases List.mem_append.1 ha' with ha' | ha'
  · exact hlast a' ha'
  · exact hother a' ha'

/-- Among attempts of which one wrote a page there is a last one that did. -/
theorem exists_lastWrites (ha : a ∈ as) (hentry : a.entry = .page p) (hwrites : a.Writes b d) :
    ∃ a d, b.LastWrites as p a d := by
  induction as using List.reverseRecOn with
  | nil => cases ha
  | append_singleton as last ih =>
    by_cases hlast : last.entry = .page p ∧ ∃ d', last.Writes b d'
    · obtain ⟨hentry', d', hwrites'⟩ := hlast
      exact ⟨last, d', as, [], rfl, hentry', hwrites', fun a' ha' => (by cases ha')⟩
    · have hnone : ∀ a' ∈ [last], a'.entry = .page p → ∀ d', ¬a'.Writes b d' := by
        intro a' ha' hentry' d' hwrites'
        rw [List.mem_singleton.1 ha'] at hentry' hwrites'
        exact hlast ⟨hentry', d', hwrites'⟩
      have hmem : a ∈ as := by
        refine (List.mem_append.1 ha).resolve_right fun hmem => ?_
        exact hnone a hmem hentry d hwrites
      obtain ⟨a', d', hlast'⟩ := ih hmem
      exact ⟨a', d', hlast'.append_right hnone⟩

/-! ## Passes without an error -/

/-- The links of a page are as they were when it was last written, which some attempts did. -/
def Current (b : Builder σ) (as : List (Attempt σ)) (s : Session σ) (p : Page) : Prop :=
  ∃ a d, b.LastWrites as p a d ∧ d.LinksUnder b p a.before.names ∧
    ∀ sheet, b.Links p sheet → a.before.names.lookup sheet = s.names.lookup sheet

/-- What holds after a pass without an error, if a full one was made: every stylesheet has its file,
and every page links it under its name. -/
structure Linked (b : Builder σ) (as : List (Attempt σ)) (s : Session σ) : Prop where
  /-- No pass is running. -/
  idle : s.phase = .idle
  /-- There is one record for each key. -/
  once : (s.records.map Record.key).Nodup
  /-- Stylesheets without a mark for a hash are given no name. -/
  plain : ∀ sheet : Stylesheet, Style.isHashed sheet.filename = false → s.names.lookup sheet = none
  /-- Every stylesheet has its file. -/
  sheets : ∀ sheet ∈ b.styles, b.HasSheet s sheet
  /-- Every page that is written links stylesheets under their names. -/
  pages : ∀ p ∈ b.settings.pages, p.isWritten = true → b.Current as s p

/-- A page that is built after the stylesheets links them under the names that they have at the
end. -/
theorem current_of_run (hparts : b.parts.IsFiling) {first later : List Work}
    (hlater : ∀ w ∈ later, w.styles = ∅) (h : b.run (first ++ later) r s = (.ok r', s'))
    (hok : r'.errors = []) (hp : .page p ∈ later) :
    b.Current (b.attempts (first ++ later) r s) s' p := by
  obtain ⟨r₁, s₁, hfirst, -⟩ := run_keeps hparts first r s
  have hrun := h
  rw [run_append_apply hfirst] at hrun
  -- The page is among the attempts of the later pieces, and all of these are written.
  have hattempted : Entry.page p ∈ (b.attempts later r₁ s₁).map Attempt.entry := by
    rw [map_entry_attempts hparts]
    exact List.mem_filterMap.2 ⟨.page p, hp, rfl⟩
  obtain ⟨a, ha, hentry⟩ := List.mem_map.1 hattempted
  obtain ⟨d, hwrites⟩ := writes_of_run hparts hrun hok ha
  obtain ⟨a', d', hlast⟩ := exists_lastWrites ha hentry hwrites
  have hnames := lookup_of_mem_attempts hparts hlater hrun hlast.mem
  obtain ⟨-, -, -, hentry', hwrites', -⟩ := id hlast
  rw [attempts_append later hfirst]
  exact ⟨a', d', hlast.append_left, linksUnder_of_writes hparts hentry' hwrites',
    fun sheet _ => hnames sheet⟩

/-- After a full pass without an error every page links every stylesheet under its name, whatever
was before. -/
theorem linked_of_full (hparts : b.parts.IsKeeping) (hidle : s.phase = .idle)
    (honce : (s.records.map Record.key).Nodup)
    (hplain : ∀ sheet : Stylesheet, Style.isHashed sheet.filename = false →
      s.names.lookup sheet = none)
    (as : List (Attempt σ)) (h : b.buildAll.perform s = (.ok r, s')) (hok : r.errors = []) :
    b.Linked (as ++ Request.full b s) s' := by
  obtain ⟨filenames, r', s₁, log, hrun, happly⟩ := buildAll_spec hparts.toIsFiling hidle
  rw [Action.perform_apply, happly] at h
  obtain ⟨hreport, rfl⟩ := Prod.mk.inj h
  cases hreport
  have hkeeps := keeps_full hparts.toIsFiling hidle
  rw [Action.perform_apply, happly] at hkeeps
  rw [← attempts_everything hparts.toIsFiling s filenames]
  refine ⟨rfl, ?_, fun sheet hsheet => ?_, fun sheet hsheet => ?_, fun p hp hwritten => ?_⟩
  · rw [hkeeps.records]
    exact Records.nodup_map_key_foldl_keep _ honce
  · exact (keepsPlain_of_run hparts.toIsFiling hrun sheet hsheet).trans (hplain sheet hsheet)
  · -- Once the assets are copied and the site is cleaned, nothing is taken away any more.
    obtain ⟨r₂, s₂, hbefore, -⟩ := run_keeps hparts.toIsFiling
      (b.settings.assetDirectories.map .assets ++ b.cleaning) (.start "full" b.settings.mode none)
      { s with phase := .building }
    have hsplit : b.everything filenames =
        (b.settings.assetDirectories.map .assets ++ b.cleaning) ++
          (b.entries ++ b.mapping filenames) := by
      unfold everything
      rw [List.append_assoc]
    rw [hsplit, run_append_apply hbefore] at hrun
    have hmem : .style sheet ∈ b.entries ++ b.mapping filenames :=
      List.mem_append_left _ (mem_entries.2 (.inl ⟨sheet, hsheet, rfl⟩))
    have hafter : b.HasSheet s₁ sheet :=
      hasSheet_of_run hparts (fun w hw => isProduct_of_mem hw) hrun hok (.inl hmem)
    exact hafter
  · -- Pages come after all stylesheets.
    have hsplit : b.everything filenames =
        (b.settings.assetDirectories.map .assets ++ (b.cleaning ++ b.styles.map .style)) ++
          ((b.settings.pages.filter Page.isWritten).map .page ++ b.mapping filenames) := by
      simp only [everything, entries, List.append_assoc]
    have hlater : ∀ w ∈ (b.settings.pages.filter Page.isWritten).map .page ++ b.mapping filenames,
        w.styles = ∅ := by
      intro w hw
      rcases List.mem_append.1 hw with hw | hw
      · obtain ⟨page, -, rfl⟩ := List.mem_map.1 hw
        rfl
      · obtain ⟨o, rfl, -⟩ := mem_mapping hw
        rfl
    have hmem : .page p ∈ (b.settings.pages.filter Page.isWritten).map .page ++
        b.mapping filenames :=
      List.mem_append_left _ (List.mem_map_of_mem (List.mem_filter.2 ⟨hp, hwritten⟩))
    rw [hsplit] at hrun ⊢
    obtain ⟨a, d, hlast, hlinks, hnames⟩ := current_of_run hparts.toIsFiling hlater hrun hok hmem
    exact ⟨a, d, hlast.append_left, hlinks, hnames⟩

/-- An incremental pass goes on to pages once the stylesheets are built. -/
theorem owed_split (s s' : Session σ) (f : Path) :
    ∃ first later, b.owed s s' f = first ++ later ∧ (∀ w ∈ later, w.styles = ∅) ∧
      ∀ p, .page p ∈ b.owed s s' f → .page p ∈ later := by
  classical
  refine ⟨_, _, rfl, fun w hw => ?_, fun p hp => (List.mem_append.1 hp).resolve_left fun hmem => ?_⟩
  · obtain ⟨page, -, rfl⟩ := List.mem_map.1 hw
    rfl
  · obtain ⟨other, -, h⟩ := List.mem_map.1 hmem
    cases h

/-- An incremental pass without an error builds every page that links a stylesheet that it
renames. -/
theorem linked_of_incremental (hparts : b.parts.IsKeeping) (hlinked : b.Linked as s) {f : Path}
    (h : (b.rebuild f).perform s = (.ok r, s')) (hok : r.errors = []) :
    b.Linked (as ++ Request.incremental b s f) s' := by
  obtain ⟨r', s₁, log, hrun, happly⟩ := rebuild_spec hparts.toIsFiling hlinked.idle hlinked.once f
  have hkeeps := keeps_incremental hparts.toIsFiling hlinked.idle hlinked.once f
  have hincremental : Request.incremental b s f = b.attempts (b.owed s s₁ f)
      (.start "incremental" b.settings.mode (some f.toString)) { s with phase := .building } := by
    unfold Request.incremental
    rw [Action.perform_apply, happly]
    rfl
  rw [Action.perform_apply, happly] at h hkeeps
  obtain ⟨hreport, rfl⟩ := Prod.mk.inj h
  cases hreport
  refine ⟨rfl, ?_, fun sheet hsheet => ?_, fun sheet hsheet => ?_, fun p hp hwritten => ?_⟩
  · rw [hkeeps.records]
    exact Records.nodup_map_key_foldl_keep _ hlinked.once
  · exact (keepsPlain_of_run hparts.toIsFiling hrun sheet hsheet).trans (hlinked.plain sheet hsheet)
  · have hbefore : b.HasSheet { s with phase := .building } sheet := hlinked.sheets sheet hsheet
    have hafter : b.HasSheet s₁ sheet :=
      hasSheet_of_run hparts (fun w hw => isProduct_of_mem_owed hw) hrun hok (.inr hbefore)
    exact hafter
  · rw [hincremental]
    by_cases howed : .page p ∈ b.owed s s₁ f
    · obtain ⟨first, later, hsplit, hlater, hpages⟩ := owed_split (b := b) s s₁ f
      have hmem := hpages p howed
      rw [hsplit] at hrun ⊢
      obtain ⟨a, d, hlast, hlinks, hnames⟩ := current_of_run hparts.toIsFiling hlater hrun hok hmem
      exact ⟨a, d, hlast.append_left, hlinks, hnames⟩
    · obtain ⟨a, d, hlast, hlinks, hnames⟩ := hlinked.pages p hp hwritten
      refine ⟨a, d, hlast.append_right fun a' ha' hentry' => absurd ?_ howed, hlinks,
        fun sheet hsheet => ?_⟩
      · obtain ⟨earlier, later, -, -, -, hworks, -⟩ := exists_run_of_mem_attempts hrun ha'
        rw [hworks, hentry']
        exact List.mem_append_right earlier List.mem_cons_self
      · -- A stylesheet that was renamed would have the page built that links it.
        have hkept : s₁.names.lookup sheet = s.names.lookup sheet := by
          by_contra hrenamed
          have hstyle : sheet ∈ b.owedStyles s f := by
            by_contra hnot
            refine hrenamed
              ((keeps_of_run hparts.toIsFiling hrun).names sheet fun w hw hmem => hnot ?_)
            cases w with
            | style other =>
              rw [Set.mem_singleton_iff.1 hmem]
              exact style_mem_owed.1 hw
            | assets | clean | page | sitemap => exact hmem.elim
          obtain ⟨k, hkey⟩ := exists_pageKey?_eq hwritten
          have howes : b.OwesPage s s₁ f p :=
            ⟨k, hkey, .inr ⟨sheet, hstyle, hrenamed, p, hp, hkey, hsheet⟩⟩
          exact howed ((page_mem_owed hp).2 howes)
        exact (hnames sheet hsheet).trans hkept.symm

/-! ## Runs of passes -/

/-- The sessions that a builder comes to once a full pass was made, if neither it nor any pass since
told of an error, with the attempts that led there. Whatever happened before does not count. -/
inductive Faultless (b : Builder σ) : List (Attempt σ) → Session σ → Prop where
  /-- A full pass is made, after any history. -/
  | full {as : List (Attempt σ)} {s s' : Session σ} {r : Report} (h : b.History as s)
      (request : Request)
    (hfull : request.IsFull s) (hpass : (request.pass b).perform s = (.ok r, s'))
      (hok : r.errors = []) :
    Faultless b (as ++ request.attempts b s) s'
  /-- The tree and the day may change between passes, if no stylesheet is taken out of the
  output. -/
  | edit {as : List (Attempt σ)} {s : Session σ} (h : Faultless b as s) (tree : Tree) (today : Day)
    (hkept : ∀ sheet ∈ b.styles, b.HasSheet s sheet → b.HasSheet { s with tree, today } sheet) :
    Faultless b as { s with tree, today }
  /-- A pass of either kind. -/
  | request {as : List (Attempt σ)} {s s' : Session σ} {r : Report} (h : Faultless b as s)
      (request : Request)
    (hpass : (request.pass b).perform s = (.ok r, s')) (hok : r.errors = []) :
    Faultless b (as ++ request.attempts b s) s'

/-- No pass names a stylesheet without a mark for a hash. -/
theorem keepsPlain_of_pass (hparts : b.parts.IsFiling) (hidle : s.phase = .idle)
    (honce : (s.records.map Record.key).Nodup) (request : Request) :
    s.KeepsPlain ((request.pass b).perform s).2 := by
  rcases request.pass_cases b s with ⟨hpass, -⟩ | ⟨-, f, hpass, -⟩
  · obtain ⟨filenames, r, s₁, log, hrun, happly⟩ := buildAll_spec hparts hidle
    have hplain := keepsPlain_of_run hparts hrun
    rw [hpass, Action.perform_apply, happly]
    exact hplain
  · obtain ⟨r, s₁, log, hrun, happly⟩ := rebuild_spec hparts hidle honce f
    have hplain := keepsPlain_of_run hparts hrun
    rw [hpass, Action.perform_apply, happly]
    exact hplain

/-- A stylesheet without a mark for a hash is never given a name. -/
theorem History.plain (hparts : b.parts.IsFiling) (h : b.History as s) (sheet : Stylesheet)
    (hplain : Style.isHashed sheet.filename = false) : s.names.lookup sheet = none := by
  induction h with
  | start tree place today memory => rfl
  | between tree today _ ih => exact ih
  | request request hs ih =>
    exact (keepsPlain_of_pass hparts (hs.keeps hparts).1 (hs.once hparts) request sheet
      hplain).trans ih

/-- After passes without an error every page links the present files of its stylesheets. -/
theorem Faultless.linked (hparts : b.parts.IsKeeping) (h : b.Faultless as s) : b.Linked as s := by
  induction h with
  | @full as s s' r h request hfull hpass hok =>
    rcases request.pass_cases b s with ⟨hbuildAll, hattempts⟩ | ⟨hincremental, -⟩
    · rw [hbuildAll] at hpass
      rw [hattempts]
      exact linked_of_full hparts (h.keeps hparts.toIsFiling).1 (h.once hparts.toIsFiling)
        (h.plain hparts.toIsFiling) as hpass hok
    · exact absurd hfull hincremental
  | edit _ tree today hkept ih =>
    exact ⟨ih.idle, ih.once, ih.plain,
      fun sheet hsheet => hkept sheet hsheet (ih.sheets sheet hsheet), ih.pages⟩
  | @request as s s' r _ request hpass hok ih =>
    rcases request.pass_cases b s with ⟨hbuildAll, hattempts⟩ | ⟨-, f, hrebuild, hattempts⟩
    · rw [hbuildAll] at hpass
      rw [hattempts]
      exact linked_of_full hparts ih.idle ih.once ih.plain as hpass hok
    · rw [hrebuild] at hpass
      rw [hattempts]
      exact linked_of_incremental hparts ih hpass hok

/-- Once a full pass was made, and as long as no pass tells of an error and no edit takes a
stylesheet out of the output, the links of every page hold: it was written, when it last was, with
links to stylesheets under names which, for every stylesheet that it links itself or through the
shared page, is the name under which that would be linked now, and the file of that name is
there. -/
theorem links_of_faultless (hparts : b.parts.IsKeeping) (h : b.Faultless as s) {p : Page}
    (hp : p ∈ b.settings.pages) (hwritten : p.isWritten = true) :
    ∃ a d, b.LastWrites as p a d ∧ d.LinksUnder b p a.before.names ∧
      ∀ sheet, b.Links p sheet →
        a.before.names.linkName sheet = s.names.linkName sheet ∧
        s.isFile (Output.path s.place b.settings.output (s.names.linkName sheet)) = .ok true := by
  have hlinked := h.linked hparts
  obtain ⟨a, d, hlast, hlinks, hnames⟩ := hlinked.pages p hp hwritten
  refine ⟨a, d, hlast, hlinks, fun sheet hsheet => ⟨?_, ?_⟩⟩
  · unfold OutputNames.linkName
    rw [hnames sheet hsheet]
  · have hstyle : sheet ∈ b.styles := by
      rcases hsheet with hown | ⟨shared, hshared, hcarried⟩
      · exact mem_styles.2 ⟨p, hp, hown⟩
      · exact mem_styles.2 ⟨shared, List.mem_of_find?_eq_some hshared, hcarried⟩
    -- A stylesheet without a mark is given no name, so that it is linked under that of the
    -- configuration.
    have hname :
      (if Style.isHashed sheet.filename then s.names.linkName sheet else sheet.filename) =
        s.names.linkName sheet := by
      by_cases hhashed : Style.isHashed sheet.filename = true
      · rw [if_pos hhashed]
      · rw [if_neg hhashed]
        unfold OutputNames.linkName
        rw [hlinked.plain sheet (Bool.eq_false_iff.2 hhashed)]
        rfl
    have hfile := hlinked.sheets sheet hstyle
    rw [← hname]
    exact hfile

end

/-! ## A sample -/

namespace Sample

/-- A stylesheet without a hash in its name. -/
def plainSheet : Stylesheet := ⟨path "n.css", "css/n.css"⟩

/-- A page that links a stylesheet with a hash in its name. -/
def front : Page := page "a" "p.html" "p.html" [sheet]

/-- The site of the page, whose shared page carries another stylesheet. -/
def linking : Builder Unit := builder [⟨.text "global", none, none, [plainSheet], [], none⟩, front]

/-- The site before anything is built. -/
def unlinked : Session Unit := session [("p.html", "<head></head>"), ("m.css", "a"), ("n.css", "n")]

/-- The site after a full pass and an edit of the stylesheet. -/
def restyled : Session Unit := edit "m.css" "b" (built linking unlinked)

/-- A pass that tells of no error has a report. -/
theorem exists_report {pass : Action Unit Report} {s : Session Unit}
    (h : (pass.perform s).1.toOption.map Report.errors = some []) :
    ∃ r, pass.perform s = (.ok r, (pass.perform s).2) ∧ r.errors = [] := by
  rcases hresult : pass.perform s with ⟨fault | r, s'⟩ <;> rw [hresult] at h
  · cases h
  · exact ⟨r, rfl, Option.some.inj h⟩

end Sample

open Sample in
/-- In the sample an incremental pass for the edited stylesheet gives it another name, and the page
links it under that. -/
theorem links_of_faultless_sample :
    ∃ as s, linking.parts.IsKeeping ∧ linking.Faultless as s ∧
      (front ∈ linking.settings.pages ∧ front.isWritten = true) ∧
      (∃ a d, linking.LastWrites as front a d ∧
        a.before.names.linkName sheet = s.names.linkName sheet ∧
        a.before.names.linkName plainSheet = s.names.linkName plainSheet) ∧
      restyled.names.linkName sheet = "m.0cc175b9c0f1b6a831c399e2.css" ∧
      s.names.linkName sheet = "m.92eb5ffee6ae2fec3ad71c77.css" ∧
        s.names.linkName plainSheet = "css/n.css" := by
  have hparts : linking.parts.IsKeeping := Collaborators.isKeeping_standard _
  -- Neither pass tells of an error.
  have hfirst : (linking.buildAll.perform unlinked).1.toOption.map Report.errors = some [] := by
    decide +kernel
  have hsecond : ((linking.rebuild (path "m.css")).perform restyled).1.toOption.map Report.errors =
      some [] := by
    decide +kernel
  obtain ⟨r₁, hfull, hok₁⟩ := exists_report hfirst
  obtain ⟨r₂, hincremental, hok₂⟩ := exists_report hsecond
  have hbuilt := Faultless.full (b := linking) (.start _ _ _ _) .all trivial hfull hok₁
  -- The edit writes a source, which takes nothing away.
  have hfile : (built linking unlinked).tree.at? ["site", "src", "m.css"] ≠ some .directory := by
    decide +kernel
  have hkeeps : (built linking unlinked).KeepsFiles restyled := ⟨rfl, Tree.keeps_put_file hfile _ _⟩
  have hrestyled :=
    Faultless.edit hbuilt restyled.tree restyled.today fun sheet _ h => h.keep hkeeps rfl
  have hfaultless := Faultless.request hrestyled (.changed (path "m.css")) hincremental hok₂
  have hpage : front ∈ linking.settings.pages := List.mem_cons_of_mem _ List.mem_cons_self
  obtain ⟨a, d, hlast, -, hlinks⟩ := links_of_faultless hparts hfaultless hpage (by decide)
  have hown : linking.Links front sheet := .inl List.mem_cons_self
  have hcarried : linking.Links front plainSheet :=
    .inr ⟨⟨.text "global", none, none, [plainSheet], [], none⟩, rfl, List.mem_cons_self⟩
  refine ⟨_, _, hparts, hfaultless, ⟨hpage, by decide⟩,
    ⟨a, d, hlast, (hlinks sheet hown).1, (hlinks plainSheet hcarried).1⟩, ?_⟩
  decide +kernel

end Builder

end StaticSite
