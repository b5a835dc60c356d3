import StaticSite.Proofs.Build.History

/-!
# What a full pass accounts for

The report of a full pass tells of each of its attempts, one after another, and of nothing else but
what went wrong with the assets before and with the sitemap afterwards (`buildAll_accounts`). What
it tells of an attempt depends on how that ended, and on nothing else (`Attempt.told`). Any call of
a part may fail, but for the removal of a directory.
-/

namespace StaticSite

variable {σ : Type}

/-- What a report tells of a piece of work. -/
structure Account where
  /-- The keys of the pages that it wrote. -/
  pages : List Value
  /-- The names of the stylesheets that it wrote. -/
  styles : List String
  /-- What went wrong. -/
  errors : List String

/-- A report tells more than an earlier one by some accounts. -/
structure Report.Adds (accounts : List Account) (r r' : Report) : Prop where
  /-- Their pages are added. -/
  pages : r'.pages = r.pages ++ accounts.flatMap (·.pages)
  /-- Their stylesheets are. -/
  styles : r'.styles = r.styles ++ accounts.flatMap (·.styles)
  /-- Their errors are. -/
  errors : r'.errors = r.errors ++ accounts.flatMap (·.errors)

namespace Report.Adds

variable {r r' r'' : Report} {accounts accounts' : List Account}

/-- A report tells no more than itself. -/
theorem refl (r : Report) : Adds [] r r :=
  ⟨(List.append_nil _).symm, (List.append_nil _).symm, (List.append_nil _).symm⟩

/-- What is told in two steps is told in one, with the accounts of both. -/
theorem trans (h : Adds accounts r r') (h' : Adds accounts' r' r'') :
    Adds (accounts ++ accounts') r r'' where
  pages := by rw [h'.pages, h.pages, List.flatMap_append, List.append_assoc]
  styles := by rw [h'.styles, h.styles, List.flatMap_append, List.append_assoc]
  errors := by rw [h'.errors, h.errors, List.flatMap_append, List.append_assoc]

/-- A report that tells more in its lists tells it by one account. -/
theorem single {account : Account} (hpages : r'.pages = r.pages ++ account.pages)
    (hstyles : r'.styles = r.styles ++ account.styles)
    (herrors : r'.errors = r.errors ++ account.errors) :
    Adds [account] r r' := by
  constructor <;> simpa only [List.flatMap_cons, List.flatMap_nil, List.append_nil]

end Report.Adds

namespace Builder

variable {b : Builder σ}

/-! ## Attempts -/

/-- An attempt leads to a draft that is written. -/
def Attempt.Writes (b : Builder σ) (a : Attempt σ) (d : Draft) : Prop :=
  ∃ s₁ output s₂, (a.entry.draft b).perform a.before = (.ok d, s₁) ∧
    (Output.write b.parts.store b.settings.output d.filename d.text).perform s₁ = (.ok output, s₂)

/-- What the report of a pass tells of an attempt. -/
def Attempt.account (b : Builder σ) (a : Attempt σ) : Account :=
  match ((a.entry.build b).perform a.before).1, a.entry with
  | .error fault, e => ⟨[], [], [e.label ++ ": " ++ fault.message]⟩
  | .ok (_, d), .style _ => ⟨[], [d.filename], []⟩
  | .ok (_, d), .page p => ⟨[p.key], [], d.error.toList.map fun m => p.key.display ++ ": " ++ m⟩

/-- How an attempt can end, with what is told of it. -/
inductive Attempt.Told (b : Builder σ) (a : Attempt σ) : Account → Prop where
  /-- Nothing is written, of which there is one error. -/
  | failed (message : String) (h : ∀ d, ¬a.Writes b d) : Told b a
      ⟨[], [], [a.entry.label ++ ": " ++ message]⟩
  /-- A stylesheet is written. -/
  | style {sheet : Stylesheet} {d : Draft} (entry : a.entry = .style sheet) (h : a.Writes b d) :
      Told b a ⟨[], [d.filename], []⟩
  /-- A page is written. -/
  | page {p : Page} {d : Draft} (entry : a.entry = .page p) (h : a.Writes b d)
      (good : d.error = none) :
      Told b a ⟨[p.key], [], []⟩
  /-- A page is written that shows why its includes failed, of which there is one error. -/
  | broken {p : Page} {d : Draft} (message : String) (entry : a.entry = .page p) (h : a.Writes b d)
      (bad : d.error = some message) : Told b a ⟨[p.key], [], [a.entry.label ++ ": " ++ message]⟩

/-- An attempt leads to a draft that is written if and only if building its entry ends with the
draft. -/
theorem Attempt.writes_iff {a : Attempt σ} {d : Draft} :
    a.Writes b d ↔ ∃ output, ((a.entry.build b).perform a.before).1 = .ok (output, d) := by
  simp only [Writes, Action.perform_apply, Entry.build_apply]
  rcases a.entry.draft b a.before with ⟨fault | d', s₁⟩
  · simp
  · simp only
    rcases hwrite : Output.write b.parts.store b.settings.output d'.filename
      d'.text s₁ with ⟨fault | output, s₂⟩
    · simp only [reduceCtorEq, exists_false, iff_false]
      rintro ⟨s, output, s', hdraft, hwrite'⟩
      cases hdraft
      cases hwrite.symm.trans hwrite'
    · constructor
      · rintro ⟨s, output', s', hdraft, hwrite'⟩
        cases hdraft
        exact ⟨output, rfl⟩
      · rintro ⟨output', h⟩
        cases h
        exact ⟨s₁, output, s₂, rfl, hwrite⟩

/-- An attempt that fails is told of by one error, which names the entry. -/
theorem Attempt.account_of_error {e : Entry} {s : Session σ} {fault : Fault}
    (h : ((e.build b).perform s).1 = .error fault) :
    (⟨e, s⟩ : Attempt σ).account b = ⟨[], [], [e.label ++ ": " ++ fault.message]⟩ := by
  simp only [account, h]

/-- What is told of an attempt is how it ended. -/
theorem Attempt.told (a : Attempt σ) : a.Told b (a.account b) := by
  obtain ⟨e, s⟩ := a
  rcases hbuild : ((e.build b).perform s).1 with fault | ⟨output, d⟩
  · rw [account_of_error hbuild]
    refine .failed fault.message fun d hwrites => ?_
    obtain ⟨output, h⟩ := writes_iff.1 hwrites
    cases hbuild.symm.trans h
  · have hwrites : (⟨e, s⟩ : Attempt σ).Writes b d := writes_iff.2 ⟨output, hbuild⟩
    cases e with
    | style sheet =>
      simp only [account, hbuild]
      exact .style rfl hwrites
    | page p =>
      simp only [account, hbuild]
      cases herror : d.error with
      | none => exact .page rfl hwrites herror
      | some message => exact .broken message rfl hwrites herror

/-- The keys of pages are told of those attempts for them that write them. -/
theorem Attempt.mem_pages_account {a : Attempt σ} {k : Value} :
    k ∈ (a.account b).pages ↔ ∃ p d, a.entry = .page p ∧ p.key = k ∧ a.Writes b d := by
  have htold := a.told (b := b)
  generalize a.account b = account at htold
  cases htold with
  | failed message h =>
    simp only [List.not_mem_nil, false_iff]
    rintro ⟨p, d, -, -, hwrites⟩
    exact h d hwrites
  | style hentry h =>
    simp only [List.not_mem_nil, false_iff]
    rintro ⟨p, d, hentry', -⟩
    cases hentry.symm.trans hentry'
  | page hentry h | broken _ hentry h =>
    rw [List.mem_singleton]
    constructor
    · rintro rfl
      exact ⟨_, _, hentry, rfl, h⟩
    · rintro ⟨p, d, hentry', rfl, -⟩
      cases hentry.symm.trans hentry'
      rfl

/-! ## Runs -/

/-- A run attempts the entries among its pieces, in their order. -/
theorem map_entry_attempts (hparts : b.parts.IsFiling) (works : List Work) (r : Report)
    (s : Session σ) : (b.attempts works r s).map Attempt.entry = works.filterMap Work.entry? := by
  induction works generalizing r s with
  | nil => rfl
  | cons w works ih =>
    obtain ⟨r₁, s₁, hwork, -⟩ := work_follows hparts w r s
    rw [attempts_cons _ hwork, List.map_append, ih]
    cases hentry : w.entry? with
    | none => rw [List.filterMap_cons_none hentry]; rfl
    | some e => rw [List.filterMap_cons_some hentry]; rfl

/-- Only entries are attempted. -/
theorem attempts_eq_nil (hparts : b.parts.IsFiling) {works : List Work}
    (h : ∀ w ∈ works, w.entry? = none) (r : Report) (s : Session σ) :
    b.attempts works r s = [] := by
  have hmap := map_entry_attempts hparts works r s
  rw [List.filterMap_eq_nil_iff.2 h] at hmap
  exact List.map_eq_nil_iff.1 hmap

/-- Copying assets builds no entry. -/
theorem entry?_eq_none_of_mem_assets {w : Work}
    (h : w ∈ b.settings.assetDirectories.map Work.assets) :
    w.entry? = none := by
  obtain ⟨a, -, rfl⟩ := List.mem_map.1 h
  rfl

/-- A site is cleaned of one directory at most. -/
theorem cleaning_cases (b : Builder σ) :
    b.cleaning = [] ∨ ∃ first, b.cleaning = [.clean first] := by
  unfold cleaning
  cases b.styles with
  | nil => exact .inl rfl
  | cons first rest =>
    simp only
    split
    · exact .inr ⟨first, rfl⟩
    · exact .inl rfl

/-- Cleaning a site builds no entry. -/
theorem entry?_eq_none_of_mem_cleaning {w : Work} (h : w ∈ b.cleaning) : w.entry? = none := by
  rcases b.cleaning_cases with hcleaning | ⟨first, hcleaning⟩ <;> rw [hcleaning] at h
  · cases h
  · rw [List.mem_singleton.1 h]
    rfl

/-- What a full pass attempts: the stylesheets and the pages that are written, in their order. -/
def attempted (b : Builder σ) : List Entry :=
  b.styles.map .style ++ (b.settings.pages.filter Page.isWritten).map .page

/-- A full pass attempts the entries of the site, and no others. -/
theorem map_work_attempted (b : Builder σ) : b.attempted.map Entry.work = b.entries := by
  unfold attempted entries
  rw [List.map_append, List.map_map, List.map_map]
  rfl

/-- The attempts of a full pass begin once the assets are copied and the site is cleaned. -/
theorem full_eq_attempts (hparts : b.parts.IsFiling) {r₁ r₂ : Report} {s s₁ s₂ : Session σ}
    (hassets : b.run (b.settings.assetDirectories.map .assets) (.start "full" b.settings.mode none)
      { s with phase := .building } = (.ok r₁, s₁)) (hcleaning :
        b.run b.cleaning r₁ s₁ = (.ok r₂, s₂)) :
    Request.full b s = b.attempts b.entries r₂ s₂ := by
  unfold Request.full
  rw [attempts_append _ hassets, attempts_append _ hcleaning,
    attempts_eq_nil hparts fun _ => entry?_eq_none_of_mem_assets, attempts_eq_nil hparts fun _ =>
      entry?_eq_none_of_mem_cleaning, List.nil_append, List.nil_append]

/-- The attempts of a full pass are made for what it attempts, in this order. -/
theorem map_entry_full (hparts : b.parts.IsFiling) (s : Session σ) :
    (Request.full b s).map Attempt.entry = b.attempted := by
  obtain ⟨r₁, s₁, hassets, -⟩ := run_keeps hparts (b.settings.assetDirectories.map .assets)
    (.start "full" b.settings.mode none) { s with phase := .building }
  obtain ⟨r₂, s₂, hcleaning, -⟩ := run_keeps hparts b.cleaning r₁ s₁
  have hentry : ∀ e : Entry, e.work.entry? = some e := fun e => by cases e <;> rfl
  rw [full_eq_attempts hparts hassets hcleaning, map_entry_attempts hparts, ← map_work_attempted,
    List.filterMap_map]
  simp only [Function.comp_def, hentry, List.filterMap_some]

/-- The work on an entry adds what is to be told of the attempt. -/
theorem Entry.work_adds (hparts : b.parts.IsFiling) (e : Entry) {r r' : Report} {s s' : Session σ}
    (h : b.work r e.work s = (.ok r', s')) : Report.Adds [(⟨e, s⟩ : Attempt σ).account b] r r' := by
  obtain ⟨log, happly⟩ := e.work_apply hparts r s
  rw [h] at happly
  rcases hbuild : e.build b s with ⟨fault | ⟨output, d⟩, s₁⟩ <;>
    rw [hbuild] at happly <;> cases happly
  · rw [Attempt.account_of_error (by rw [Action.perform_apply, hbuild])]
    exact .single (List.append_nil _).symm (List.append_nil _).symm rfl
  · have hanswer : ((e.build b).perform s).1 = .ok (output, d) := by
      rw [Action.perform_apply, hbuild]
    cases e with
    | style sheet =>
      simp only [Attempt.account, hanswer]
      exact .single (List.append_nil _).symm rfl (List.append_nil _).symm
    | page p =>
      simp only [Attempt.account, hanswer]
      exact .single rfl (List.append_nil _).symm rfl

/-- A run over entries adds what is to be told of its attempts. -/
theorem run_entries_adds (hparts : b.parts.IsFiling) {es : List Entry} {r r' : Report}
    {s s' : Session σ} (h : b.run (es.map Entry.work) r s = (.ok r', s')) :
    Report.Adds ((b.attempts (es.map Entry.work) r s).map (·.account b)) r r' := by
  induction es generalizing r s with
  | nil =>
    cases h
    exact .refl _
  | cons e es ih =>
    rw [List.map_cons, run_cons] at h
    obtain ⟨r₁, s₁, hwork, hrun⟩ := bind_apply_eq_ok.1 h
    have hentry : e.work.entry? = some e := by cases e <;> rfl
    rw [List.map_cons, attempts_cons _ hwork, hentry]
    exact (e.work_adds hparts hwork).trans (ih hrun)

/-- Copying an asset directory adds errors that begin with its key. -/
theorem copyAssets_adds {a : AssetDirectory} {r r' : Report} {s s' : Session σ}
    (h : b.copyAssets r a s = (.ok r', s')) :
    ∃ errors, Report.Adds [⟨[], [], errors⟩] r r' ∧
      ∀ e ∈ errors, ∃ message, e = a.key.display ++ ": " ++ message := by
  unfold copyAssets at h
  rw [bind_apply_ok (Action.attempt_apply _ s)] at h
  generalize Assets.copy b.parts.store b.settings.output b.settings.isOptimized a s = result at h
  obtain ⟨fault | copied, s₁⟩ := result
  · cases h
    exact ⟨[_], .single (List.append_nil _).symm (List.append_nil _).symm rfl,
      fun e he => ⟨fault.message, List.mem_singleton.1 he⟩⟩
  · cases h
    refine ⟨_, .single (List.append_nil _).symm (List.append_nil _).symm rfl, fun e he => ?_⟩
    obtain ⟨message, -, rfl⟩ := List.mem_map.1 he
    exact ⟨message, rfl⟩

/-- Copying asset directories adds errors that begin with their keys. -/
theorem run_assets_adds {directories : List AssetDirectory} {r r' : Report} {s s' : Session σ}
    (h : b.run (directories.map .assets) r s = (.ok r', s')) :
    ∃ errors, Report.Adds [⟨[], [], errors⟩] r r' ∧
      ∀ e ∈ errors, ∃ a ∈ directories, ∃ message, e = a.key.display ++ ": " ++ message := by
  induction directories generalizing r s with
  | nil =>
    cases h
    exact ⟨[], .single (List.append_nil _).symm (List.append_nil _).symm (List.append_nil _).symm,
      fun e he => (by cases he)⟩
  | cons a directories ih =>
    rw [List.map_cons, run_cons] at h
    obtain ⟨r₁, s₁, hwork, hrun⟩ := bind_apply_eq_ok.1 h
    obtain ⟨errors, hadds, herrors⟩ := copyAssets_adds hwork
    obtain ⟨errors', hadds', herrors'⟩ := ih hrun
    have hboth := hadds.trans hadds'
    refine ⟨errors ++ errors', ⟨hboth.pages, hboth.styles, by simpa using hboth.errors⟩,
      fun e he => ?_⟩
    rcases List.mem_append.1 he with he | he
    · exact ⟨a, List.mem_cons_self, herrors e he⟩
    · obtain ⟨a', ha', hmessage⟩ := herrors' e he
      exact ⟨a', List.mem_cons_of_mem _ ha', hmessage⟩

/-- Writing the sitemap adds at most one error, which says so. -/
theorem run_mapping_adds {filenames : List String} {r r' : Report} {s s' : Session σ}
    (h : b.run (b.mapping filenames) r s = (.ok r', s')) :
    ∃ message? : Option String,
      Report.Adds [⟨[], [], message?.toList.map fun m => "sitemap: " ++ m⟩] r r' := by
  have hnothing : ∀ r₁ : Report, r₁.pages = r.pages → r₁.styles = r.styles → r₁.errors = r.errors →
      Report.Adds [⟨[], [], []⟩] r r₁ := by
    intro r₁ hpages hstyles herrors
    exact .single (hpages.trans (List.append_nil _).symm) (hstyles.trans (List.append_nil _).symm)
      (herrors.trans (List.append_nil _).symm)
  unfold mapping at h
  cases hsitemap : b.settings.sitemap with
  | none =>
    rw [hsitemap] at h
    cases h
    exact ⟨none, hnothing _ rfl rfl rfl⟩
  | some o =>
    simp only [hsitemap] at h
    split at h
    · rw [run_cons] at h
      obtain ⟨r₁, s₁, hwork, hnil⟩ := bind_apply_eq_ok.1 h
      cases hnil
      simp only [work, writeSitemap] at hwork
      rw [bind_apply_ok (Action.attempt_apply _ s)] at hwork
      generalize b.makeSitemap o filenames s = result at hwork
      obtain ⟨fault | output?, s₁⟩ := result
      · cases hwork
        exact ⟨some fault.message, .single (List.append_nil _).symm (List.append_nil _).symm rfl⟩
      · cases output? <;> cases hwork <;> exact ⟨none, hnothing _ rfl rfl rfl⟩
    · cases h
      exact ⟨none, hnothing _ rfl rfl rfl⟩

/-! ## Full passes -/

/-- Collecting the members of a list, each once. -/
theorem foldl_collect {α : Type} [DecidableEq α] (l seen : List α) (h : seen.Nodup) :
    (l.foldl (fun seen a => if a ∈ seen then seen else seen ++ [a]) seen).Nodup ∧
      ∀ b, b ∈ l.foldl (fun seen a => if a ∈ seen then seen else seen ++ [a]) seen ↔
        b ∈ seen ∨ b ∈ l := by
  induction l generalizing seen with
  | nil => exact ⟨h, fun b => by simp⟩
  | cons a l ih =>
    rw [List.foldl_cons]
    by_cases ha : a ∈ seen
    · obtain ⟨hnodup, hmem⟩ := ih seen h
      rw [if_pos ha]
      refine ⟨hnodup, fun b => ?_⟩
      rw [hmem, List.mem_cons]
      constructor
      · exact Or.imp_right .inr
      · rintro (hb | rfl | hb)
        · exact .inl hb
        · exact .inl ha
        · exact .inr hb
    · rw [if_neg ha, ← List.concat_eq_append]
      obtain ⟨hnodup, hmem⟩ := ih (seen.concat a) (h.concat ha)
      refine ⟨hnodup, fun b => ?_⟩
      rw [hmem, List.concat_eq_append, List.mem_append, List.mem_singleton, List.mem_cons, or_assoc]

/-- The stylesheets of a site are those of its pages, each once. -/
theorem nodup_styles (b : Builder σ) : b.styles.Nodup := (foldl_collect _ [] List.nodup_nil).1

/-- The stylesheets of a site are those of its pages. -/
theorem mem_styles {sheet : Stylesheet} :
    sheet ∈ b.styles ↔ ∃ page ∈ b.settings.pages, sheet ∈ page.styles := by
  unfold styles
  rw [(foldl_collect _ [] List.nodup_nil).2, List.mem_flatMap]
  simp

/-- A run that cleans a site does no more than that. -/
theorem run_clean_apply {first : Stylesheet} {target : Path} {s s' : Session σ}
    (h : Style.clean b.parts.store b.settings.output first s = (.ok target, s')) (r : Report) :
    b.run [.clean first] r s = (.ok r, s') := by
  have hwork : b.work r (.clean first) s = (.ok r, s') := by
    simp only [work]
    rw [bind_apply_ok h]
    rfl
  rw [run_cons, bind_apply_ok hwork, run_nil]

/-- Cleaning a site adds nothing to the report. -/
theorem run_cleaning_apply (hparts : b.parts.IsFiling) (r : Report) (s : Session σ) :
    ∃ s', b.run b.cleaning r s = (.ok r, s') := by
  rcases b.cleaning_cases with hcleaning | ⟨first, hcleaning⟩ <;> rw [hcleaning]
  · exact ⟨s, rfl⟩
  · obtain ⟨target, s', hclean, -⟩ := clean_spec hparts.store b.settings.output first s
    exact ⟨s', run_clean_apply hclean r⟩

/-- A report tells of each of some attempts how it ended, in their order, and of nothing else but
what went wrong with assets before and with the sitemap afterwards. -/
structure Accounts (b : Builder σ) (as : List (Attempt σ)) (r : Report) : Prop where
  /-- What is told of an attempt is how it ended. -/
  told : ∀ a ∈ as, a.Told b (a.account b)
  /-- The pages are those of the attempts. -/
  pages : r.pages = as.flatMap fun a => (a.account b).pages
  /-- A page is listed if and only if an attempt for it led to a draft that was written. -/
  listed : ∀ k, k ∈ r.pages ↔ ∃ a ∈ as, ∃ p d, a.entry = .page p ∧ p.key = k ∧ a.Writes b d
  /-- The stylesheets are those of the attempts. -/
  styles : r.styles = as.flatMap fun a => (a.account b).styles
  /-- The errors are those of the attempts, after those of assets and before that of the sitemap. -/
  errors : ∃ copying, ∃ mapping : Option String,
    r.errors = copying ++ as.flatMap (fun a => (a.account b).errors) ++ mapping.toList.map
      (fun m => "sitemap: " ++ m) ∧
      ∀ e ∈ copying, ∃ a ∈ b.settings.assetDirectories, ∃ message,
        e = a.key.display ++ ": " ++ message

/-- A full pass ends with a report and leaves the session idle. It attempts every stylesheet once
and then every page that is written, in their order, and its report accounts for the attempts. -/
theorem buildAll_accounts (hparts : b.parts.IsFiling) {s : Session σ} (hidle : s.phase = .idle) :
    ∃ r s', b.buildAll.perform s = (.ok r, s') ∧ s'.phase = .idle ∧
      b.Accounts (Request.full b s) r := by
  obtain ⟨filenames, r, s', log, hrun, happly⟩ := buildAll_spec hparts hidle
  -- The four parts of the run, each with what it adds.
  obtain ⟨r₁, s₁, hassets, -⟩ := run_keeps hparts (b.settings.assetDirectories.map .assets)
    (.start "full" b.settings.mode none) { s with phase := .building }
  obtain ⟨s₂, hcleaning⟩ := run_cleaning_apply hparts r₁ s₁
  obtain ⟨r₃, s₃, hentries, -⟩ := run_keeps hparts b.entries r₁ s₂
  have hattempts := full_eq_attempts hparts hassets hcleaning
  unfold everything at hrun
  rw [run_append_apply hassets, run_append_apply hcleaning, run_append_apply hentries] at hrun
  obtain ⟨copying, hfirst, hcopying⟩ := run_assets_adds hassets
  obtain ⟨mapping, hlast⟩ := run_mapping_adds hrun
  rw [← map_work_attempted] at hentries hattempts
  have hadds := (hfirst.trans (run_entries_adds hparts hentries)).trans hlast
  rw [← hattempts] at hadds
  have hpages : r.pages = (Request.full b s).flatMap fun a => (a.account b).pages := by
    simpa [Report.start, List.flatMap_map] using hadds.pages
  refine ⟨r, { s' with phase := .idle, log }, happly, rfl, fun a _ => a.told, hpages, fun k => ?_,
    ?_, copying, mapping, ?_, hcopying⟩
  · rw [hpages, List.mem_flatMap]
    simp only [Attempt.mem_pages_account]
  · simpa [Report.start, List.flatMap_map] using hadds.styles
  · simpa [Report.start, List.flatMap_map] using hadds.errors

end Builder

end StaticSite
