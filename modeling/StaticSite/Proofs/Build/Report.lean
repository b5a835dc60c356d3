import StaticSite.Proofs.Build.Work

/-!
# What a report tells

No piece of work takes back what is in the report it goes on with (`run_extends`), so that a pass
without an error had none at any time, and the report of a run tells of every page that the run
attempts: it lists the page or an error of it (`run_tells`).
-/

namespace StaticSite

variable {σ : Type}

/-- A report lists the pages and the errors of an earlier one. -/
structure Report.Extends (r r' : Report) : Prop where
  /-- It lists its pages. -/
  pages : r.pages ⊆ r'.pages
  /-- It lists its errors. -/
  errors : r.errors ⊆ r'.errors

/-- A report extends itself. -/
theorem Report.Extends.refl (r : Report) : r.Extends r := ⟨List.Subset.refl _, List.Subset.refl _⟩

/-- A report that extends an extended one extends the first. -/
theorem Report.Extends.trans {r r' r'' : Report} (h : r.Extends r') (h' : r'.Extends r'') :
    r.Extends r'' :=
  ⟨List.Subset.trans h.pages h'.pages, List.Subset.trans h.errors h'.errors⟩

/-- A report with another error extends the one without it. -/
theorem Report.extends_addError (r : Report) (message : String) : r.Extends (r.addError message) :=
  ⟨List.Subset.refl _, List.subset_append_left _ _⟩

/-- A report lists a page as written, or an error of it. -/
def Report.Tells (r : Report) (page : Page) : Prop :=
  page.key ∈ r.pages ∨ ∃ message, page.key.display ++ ": " ++ message ∈ r.errors

/-- What is told of a page is told in each report that extends the first. -/
theorem Report.Tells.mono {r r' : Report} {page : Page} (h : r.Tells page) (hr : r.Extends r') :
    r'.Tells page :=
  h.imp (fun hmem => hr.pages hmem) fun ⟨message, hmem⟩ => ⟨message, hr.errors hmem⟩

namespace Builder

variable {b : Builder σ}

/-- Building a page goes on with its report, which tells of the page. -/
theorem buildPage_tells {r : Report} {page : Page} {s s' : Session σ} {answer : Report × Bool}
    (h : b.buildPage r page s = (.ok answer, s')) : r.Extends answer.1 ∧ answer.1.Tells page := by
  unfold buildPage at h
  rw [bind_apply_ok (Action.attempt_apply _ s)] at h
  generalize Rendering.build b.renderer page b.settings.shared? s = result at h
  obtain ⟨x, s₁⟩ := result
  cases x with
  | error fault =>
    cases h
    exact ⟨r.extends_addError _, .inr ⟨fault.message, List.mem_append_right _ List.mem_cons_self⟩⟩
  | ok w =>
    simp only at h
    -- A page whose includes failed is listed as written too, besides its error.
    cases herror : w.bundle.error with
    | none =>
      rw [herror] at h
      cases h
      exact ⟨⟨List.subset_append_left _ _, List.Subset.refl _⟩,
        .inl (List.mem_append_right _ List.mem_cons_self)⟩
    | some error =>
      rw [herror] at h
      cases h
      exact ⟨⟨List.subset_append_left _ _, List.subset_append_left _ _⟩,
        .inl (List.mem_append_right _ List.mem_cons_self)⟩

/-- A piece of work goes on with its report. -/
theorem work_extends {w : Work} {r r' : Report} {s s' : Session σ}
    (h : b.work r w s = (.ok r', s')) :
    r.Extends r' := by
  -- Whatever the piece attempts, it adds a line for it or an error to the report that it was given.
  cases w with
  | assets a =>
    simp only [work, copyAssets] at h
    rw [bind_apply_ok (Action.attempt_apply _ s)] at h
    generalize Assets.copy b.parts.store b.settings.output b.settings.isOptimized a s = result at h
    obtain ⟨x, s₁⟩ := result
    cases x with
    | error fault => cases h; exact r.extends_addError _
    | ok copied => cases h; exact ⟨List.Subset.refl _, List.subset_append_left _ _⟩
  | clean first =>
    obtain ⟨p, s₁, -, h⟩ := bind_apply_eq_ok.1 h
    cases h
    exact .refl r
  | style style =>
    simp only [work, buildStyle] at h
    rw [bind_apply_ok (Action.attempt_apply _ s)] at h
    generalize Style.bundle b.parts b.settings.output b.settings.isOptimized style s = result at h
    obtain ⟨x, s₁⟩ := result
    cases x with
    | error fault => cases h; exact r.extends_addError _
    | ok w => cases h; exact ⟨List.Subset.refl _, List.Subset.refl _⟩
  | page page =>
    simp only [work, map_apply] at h
    generalize hbuild : b.buildPage r page s = result at h
    obtain ⟨x, s₁⟩ := result
    cases x with
    | error fault => cases h
    | ok answer => cases h; exact (buildPage_tells hbuild).1
  | sitemap o filenames =>
    simp only [work, writeSitemap] at h
    rw [bind_apply_ok (Action.attempt_apply _ s)] at h
    generalize b.makeSitemap o filenames s = result at h
    obtain ⟨x, s₁⟩ := result
    cases x with
    | error fault => cases h; exact r.extends_addError _
    | ok output =>
      cases output with
      | none => cases h; exact .refl r
      | some output => cases h; exact ⟨List.Subset.refl _, List.Subset.refl _⟩

/-- A run extends its report. -/
theorem run_extends {works : List Work} {r r' : Report} {s s' : Session σ}
    (h : b.run works r s = (.ok r', s')) : r.Extends r' := by
  induction works generalizing r s with
  | nil => cases h; exact .refl _
  | cons w works ih =>
    rw [run_cons] at h
    obtain ⟨r₁, s₁, hwork, hrun⟩ := bind_apply_eq_ok.1 h
    exact (work_extends hwork).trans (ih hrun)

/-- The report of a run tells of every page that the run attempts. -/
theorem run_tells {works : List Work} {r r' : Report} {s s' : Session σ}
    (h : b.run works r s = (.ok r', s')) {page : Page} (hpage : .page page ∈ works) :
    r'.Tells page := by
  induction works generalizing r s with
  | nil => cases hpage
  | cons w works ih =>
    rw [run_cons] at h
    obtain ⟨r₁, s₁, hwork, hrun⟩ := bind_apply_eq_ok.1 h
    rcases List.mem_cons.1 hpage with rfl | hpage
    · simp only [work, map_apply] at hwork
      generalize hbuild : b.buildPage r page s = result at hwork
      obtain ⟨x, s₂⟩ := result
      cases x with
      | error fault => cases hwork
      | ok answer =>
        -- The report tells of the page when it is built, and of all it told before when the run is
        -- over.
        cases hwork
        exact (buildPage_tells hbuild).2.mono (run_extends hrun)
    · exact ih hrun hpage

end Builder

end StaticSite
