import StaticSite.Proofs.Build.Account
import StaticSite.Proofs.Build.Failing

/-!
# Failures stay with their page

Two full passes over a site that differ only in what is read for one page, and in the calls that
fail for it, write the same for every other entry (`buildAll_isolates`). What building an entry
looks at is a `View`: the files that it reads, those that it writes, and the manifest, if it has
chunks. Two sessions that agree in the view of an entry make the same of it
(`Entry.build_eq_of_agree`), and go on to agree in the views of the entries after it
(`Session.Agree.frame`) as long as its file is none that these look at.
-/

namespace StaticSite

variable {σ : Type}

/-- What is looked at in a tree where something is built. -/
structure View where
  /-- The files that are read. -/
  reads : Set Path
  /-- The manifests in which chunks are looked up. -/
  manifests : Set Path
  /-- The files that are to be written. -/
  outputs : Set Location

namespace View

/-- The paths that are read are absolute, do not go back up, and are such as the system takes. -/
structure Fits (v : View) : Prop where
  /-- Those of files are. -/
  reads : ∀ q ∈ v.reads, q.IsGrounded ∧ q.Fits
  /-- Those of manifests are. -/
  manifests : ∀ m ∈ v.manifests, m.IsGrounded ∧ m.Fits

/-- Files that can be written without being seen: neither at nor below what is looked at, nor above
a manifest or a file that is to be written. -/
structure Misses (v : View) (ls : Set Location) : Prop where
  /-- No such file lies at or below one that is read. -/
  reads : ∀ q ∈ v.reads, ∀ k ∈ ls, ¬q.names <+: k
  /-- None lies at, below or above a manifest. -/
  manifests : ∀ m ∈ v.manifests, ∀ k ∈ ls, ¬m.names <+: k ∧ ¬k <+: m.names
  /-- None lies at, below or above a file that is to be written. -/
  outputs : ∀ l ∈ v.outputs, ∀ k ∈ ls, ¬l <+: k ∧ ¬k <+: l

/-- Locations at which anything can stand: they are not read, and lie neither at nor above a
manifest or a file that is to be written. -/
structure Ignores (v : View) (files : Set Location) : Prop where
  /-- None of them is read. -/
  reads : ∀ q ∈ v.reads, q.names ∉ files
  /-- None lies at or above a manifest. -/
  manifests : ∀ m ∈ v.manifests, ∀ k ∈ files, ¬k <+: m.names
  /-- None lies at or above a file that is to be written. -/
  outputs : ∀ l ∈ v.outputs, ∀ k ∈ files, ¬k <+: l

/-- Two trees look the same. -/
structure SameIn (v : View) (t t' : Tree) : Prop where
  /-- The files that are read are the same. -/
  reads : ∀ q ∈ v.reads, Tree.SameAt q.names t t'
  /-- The manifests are, with the files above them. -/
  manifests : ∀ m ∈ v.manifests, Tree.SameAt m.names t t' ∧ Tree.SameAbove m.names t t'
  /-- What stands at the files that are to be written is, with the files above them. -/
  outputs : ∀ l ∈ v.outputs, Tree.SameAt l t t' ∧ Tree.SameAbove l t t'

variable {v : View} {t t' u u' : Tree} {d : Location}

/-- Trees look the same that differ only where that is ignored. -/
theorem Ignores.sameIn {files : Set Location} (h : v.Ignores files) (ht : t.IsSound)
    (ht' : t'.IsSound) (hsame : ∀ l, l ∉ files → t'.at? l = t.at? l) : v.SameIn t t' := by
  have hboth : ∀ l, (∀ k ∈ files, ¬k <+: l) → Tree.SameAt l t t' ∧ Tree.SameAbove l t t' :=
    fun l hl =>
      ⟨ht.sameAt ht' (hsame l fun hmem => hl l hmem (List.prefix_refl l)),
        ht.sameAbove ht' fun m hm _ => hsame m fun hmem => hl m hmem hm⟩
  exact ⟨fun q hq => ht.sameAt ht' (hsame _ (h.reads q hq)), fun m hm => hboth _ (h.manifests m hm),
    fun l hl => hboth _ (h.outputs l hl)⟩

/-- Trees that look the same look the same once files were written that are not seen. -/
theorem SameIn.changedOnly {ls : Set Location} (h : v.SameIn t t') (hv : v.Misses ls)
    (hc : Tree.ChangedOnly ls t u) (hc' : Tree.ChangedOnly ls t' u') : v.SameIn u u' where
  reads q hq := (h.reads q hq).changedOnly hc hc' (hv.reads q hq)
  manifests m hm := ⟨(h.manifests m hm).1.changedOnly hc hc' fun k hk => (hv.manifests m hm k hk).1,
    (h.manifests m hm).2.changedOnly hc hc' fun k hk => (hv.manifests m hm k hk).2⟩
  outputs l hl := ⟨(h.outputs l hl).1.changedOnly hc hc' fun k hk => (hv.outputs l hl k hk).1,
    (h.outputs l hl).2.changedOnly hc hc' fun k hk => (hv.outputs l hl k hk).2⟩

/-- Trees that look the same look the same once a directory was removed from both. -/
theorem SameIn.removed (h : v.SameIn t t') (hr : Tree.Removed d t u) (hr' : Tree.Removed d t' u') :
    v.SameIn u u' where
  reads q hq := hr.sameAt hr' (h.reads q hq)
  manifests m hm := ⟨hr.sameAt hr' (h.manifests m hm).1, hr.sameAbove hr' (h.manifests m hm).2⟩
  outputs l hl := ⟨hr.sameAt hr' (h.outputs l hl).1, hr.sameAbove hr' (h.outputs l hl).2⟩

end View

/-- Two sessions look the same where something is built, and the manifests list the same. -/
structure Session.Agree (v : View) (s s' : Session σ) : Prop where
  /-- The trees look the same. -/
  tree : v.SameIn s.tree s'.tree
  /-- The manifests list the same. -/
  listed : ∀ m ∈ v.manifests, Chunk.listed s' m = Chunk.listed s m

namespace Builder

variable {b b' : Builder σ} {f f' : Faults}

/-! ## Entries -/

/-- What building an entry looks at while some calls fail. -/
def Entry.view (b : Builder σ) (f : Faults) (e : Entry) (s : Session σ) : View where
  reads := {q | q ∈ e.reads b f s}
  manifests := {m | e.chunks b ≠ [] ∧ b.settings.manifest = some m}
  outputs := e.outputs (b.failing f) s

/-- Sessions that agree in the view of an entry draft it alike. -/
theorem Entry.draft_eq_of_agree {e : Entry} {s s' : Session σ} (hplace : s'.place = s.place)
    (hnames : ∀ style, s'.names.lookup style = s.names.lookup style) (hfits : (e.view b f s).Fits)
    (h : s.Agree (e.view b f s) s') :
    (e.draft (b.failing f) s').1 = (e.draft (b.failing f) s).1 := by
  refine draft_congr e hplace hnames (fun q hq => ?_) fun hchunks m hm => h.listed m ⟨hchunks, hm⟩
  obtain ⟨hgrounded, hfits⟩ := hfits.reads q hq
  exact Session.readText_congr_of_same hgrounded hfits (h.tree.reads q hq)

/-- Sessions that agree in the view of an entry build it alike. -/
theorem Entry.build_eq_of_agree {e : Entry} {s s' : Session σ}
    (hcwd : s.place.cwd.isAbsolute = true) (hplace : s'.place = s.place)
    (hnames : ∀ style, s'.names.lookup style = s.names.lookup style) (hfits : (e.view b f s).Fits)
    (h : s.Agree (e.view b f s) s') :
    (e.build (b.failing f) s').1.toOption = (e.build (b.failing f) s).1.toOption := by
  refine build_congr e hcwd hplace hnames (fun q hq => ?_)
    (fun hchunks m hm => h.listed m ⟨hchunks, hm⟩) h.tree.outputs
  obtain ⟨hgrounded, hfits⟩ := hfits.reads q hq
  exact Session.readText_congr_of_same hgrounded hfits (h.tree.reads q hq)

/-- The file of an entry is the same where the same is drafted, or a page. -/
theorem Entry.outputs_congr {e : Entry} {s s' : Session σ} (hplace : s'.place = s.place)
    (h : (∃ p, e = page p) ∨ f' = f ∧ (e.draft (b.failing f) s').1 = (e.draft (b.failing f) s).1) :
    e.outputs (b.failing f') s' = e.outputs (b.failing f) s := by
  cases e with
  | page p => simp only [outputs, failing_settings, hplace]
  | style sheet =>
    obtain ⟨rfl, hdraft⟩ := h.resolve_left fun ⟨p, hp⟩ => by cases hp
    simp only [outputs, hplace, hdraft]

end Builder

/-- Sessions that agree in a view go on to do so when an entry is built whose file does not show in
it. -/
theorem Session.Agree.frame {b : Builder σ} {f f' : Faults} {v : View} {e : Builder.Entry}
    {s s' s₁ s₁' : Session σ} (h : s.Agree v s') (hfits : v.Fits)
    (hmanifests : ∀ m ∈ v.manifests, b.settings.manifest = some m) (hframe : e.Frame b f s s₁)
    (hframe' : e.Frame b f' s' s₁')
    (houtputs : e.outputs (b.failing f') s' = e.outputs (b.failing f) s)
    (hmisses : v.Misses (e.outputs (b.failing f) s)) : s₁.Agree v s₁' := by
  have htree' := hframe'.tree
  rw [houtputs] at htree'
  refine ⟨h.tree.changedOnly hmisses hframe.tree htree', fun m hm => ?_⟩
  obtain ⟨hgrounded, hfitsm⟩ := hfits.manifests m hm
  obtain ⟨hat, habove⟩ := h.tree.manifests m hm
  have hbelow : ∀ k ∈ e.outputs (b.failing f) s, ¬m.names <+: k :=
    fun k hk => (hmisses.manifests m hm k hk).1
  have hover : ∀ k ∈ e.outputs (b.failing f) s, ¬k <+: m.names :=
    fun k hk => (hmisses.manifests m hm k hk).2
  -- Neither session sees anything new at the manifest.
  have hlisted :=
    hframe.listed m (hmanifests m hm) hgrounded hfitsm (hframe.tree.sameAt hbelow hat.based)
      (hframe.tree.sameAbove hover habove.based)
  have hlisted' :=
    hframe'.listed m (hmanifests m hm) hgrounded hfitsm (htree'.sameAt hbelow hat.based')
      (htree'.sameAbove hover habove.based')
  rw [hlisted, hlisted', h.listed m hm]

namespace Builder

variable {b b' : Builder σ} {f f' : Faults} {plan plan' : Entry → Faults} {p : Page}

/-! ## Attempts -/

namespace Attempt

/-- The calls that fail in an attempt are given: it goes as with the parts of which these fail, but
for the log and for what the parts remember. -/
def FailsBy (b : Builder σ) (f : Faults) (a : Attempt σ) : Prop :=
  ∃ log memory, a.entry.build b a.before =
    ((a.entry.build (b.failing f) a.before).1,
      { (a.entry.build (b.failing f) a.before).2 with log, memory })

/-- What an attempt looks at. -/
def view (b : Builder σ) (plan : Entry → Faults) (a : Attempt σ) : View :=
  a.entry.view b (plan a.entry) a.before

/-- The file that an attempt writes, with its text. -/
def written (b : Builder σ) (a : Attempt σ) : Option (Path × String) :=
  ((a.entry.build b).perform a.before).1.toOption.map fun (output, d) => (output, d.text)

/-- What an attempt for a page without chunks looks at. -/
theorem view_page {a : Attempt σ} {reads : List Path} (hentry : a.entry = .page p)
    (hchunks : (Entry.page p).chunks b = [])
    (hreads : a.entry.reads b (plan a.entry) a.before = reads) : a.view b plan =
      ⟨{q | q ∈ reads}, ∅,
        {(Output.path a.before.place b.settings.output (Rendering.outputName p)).names}⟩ := by
  unfold view Entry.view
  rw [hreads, hentry, hchunks]
  simp [Entry.outputs, Builder.failing]

/-- What an attempt writes is known from its building with the parts of which some calls fail. -/
theorem written_of_failsBy {a : Attempt σ} (h : a.FailsBy b f) :
    a.written b = (a.entry.build (b.failing f) a.before).1.toOption.map fun (output, d) =>
      (output, d.text) := by
  obtain ⟨log, memory, h⟩ := h
  unfold written
  rw [Action.perform_apply, h]

end Attempt

/-- Work on an entry changes no more than building it does. -/
theorem work_frame (hparts : b.parts.IsFiling) {e : Entry} {r r' : Report} {s s' : Session σ}
    (hfails : (⟨e, s⟩ : Attempt σ).FailsBy b f) (hcwd : s.place.cwd.isAbsolute = true)
    (h : b.work r e.work s = (.ok r', s')) : e.Frame b f s s' := by
  obtain ⟨log, happly⟩ := e.work_apply hparts r s
  obtain ⟨log', memory, hbuild⟩ := hfails
  simp only at hbuild
  refine (e.build_frame (b := b) (f := f) hcwd).sameView ?_
  generalize (e.build (b.failing f) s).1 = x, (e.build (b.failing f) s).2 = s₁ at hbuild
  rw [h, hbuild] at happly
  rcases x with fault | ⟨output, d⟩ <;> cases happly <;> exact ⟨rfl, rfl, rfl, fun _ _ => rfl⟩

/-- Two sessions in which some attempts other than those for a page see the same. -/
structure InStep (b : Builder σ) (plan : Entry → Faults) (p : Page) (as : List (Attempt σ))
    (s s' : Session σ) :
    Prop where
  /-- The places are the same. -/
  place : s'.place = s.place
  /-- They are absolute. -/
  absolute : s.place.cwd.isAbsolute = true
  /-- The names of stylesheets are the same. -/
  names : ∀ style, s'.names.lookup style = s.names.lookup style
  /-- The sessions agree in what the attempts look at. -/
  agree : ∀ a ∈ as, a.entry ≠ .page p → s.Agree (a.view b plan) s'

/-- No attempt writes what a later one looks at, unless that is for a page. -/
structure Apart (b : Builder σ) (plan : Entry → Faults) (p : Page)
    (as : List (Attempt σ)) : Prop where
  /-- The system takes every path that is looked at. -/
  fits : ∀ a ∈ as, a.entry ≠ .page p → (a.view b plan).Fits
  /-- Files are written where they do not show. -/
  misses : as.Pairwise fun a a' =>
    a'.entry ≠ .page p → (a'.view b plan).Misses (a.view b plan).outputs

/-- Builders of the same site, with whatever parts. -/
structure SameSite (b b' : Builder σ) : Prop where
  /-- The settings are the same. -/
  settings : b'.settings = b.settings
  /-- Includes are expanded alike. -/
  expander : b'.expander = b.expander

/-- Builders of the same site are equal once the same calls fail in both. -/
theorem SameSite.failing (h : b.SameSite b') (f : Faults) : b'.failing f = b.failing f := by
  unfold Builder.failing
  rw [h.settings]
  cases b
  cases b'
  obtain rfl := h.expander
  obtain rfl := h.settings
  rfl

/-- Builders of the same site build the same entries. -/
theorem SameSite.entries (h : b.SameSite b') : b'.entries = b.entries := by
  unfold Builder.entries styles
  rw [h.settings]

/-- What an entry is framed by depends on the site alone, not on the parts of the builder. -/
theorem SameSite.frame (h : b.SameSite b') {e : Entry} {s s' : Session σ}
    (hframe : e.Frame b' f s s') :
    e.Frame b f s s' := by
  obtain ⟨hplace, htree, hnames, hlisted⟩ := hframe
  rw [h.failing] at htree hnames
  rw [h.settings] at hlisted
  exact ⟨hplace, htree, hnames, hlisted⟩

/-- Sessions stay in step when an entry is built in both. -/
theorem InStep.step (hplans : ∀ e, e ≠ .page p → plan' e = plan e) {e : Entry}
    {as : List (Attempt σ)} {s s' s₁ s₁' : Session σ} (h : b.InStep plan p (⟨e, s⟩ :: as) s s')
    (hapart : b.Apart plan p (⟨e, s⟩ :: as)) (hframe : e.Frame b (plan e) s s₁)
    (hframe' : e.Frame b (plan' e) s' s₁') : b.InStep plan p as s₁ s₁' := by
  -- An entry other than the page is drafted alike, and the file of a page does not depend on its
  -- draft.
  have hdraft : (∃ q, e = .page q) ∨
      plan' e = plan e ∧
        (e.draft (b.failing (plan e)) s').1 = (e.draft (b.failing (plan e)) s).1 := by
    by_cases he : e = .page p
    · exact .inl ⟨p, he⟩
    · exact .inr
        ⟨hplans e he, e.draft_eq_of_agree h.place h.names (hapart.fits _ List.mem_cons_self he)
        (h.agree _ List.mem_cons_self he)⟩
  refine ⟨hframe'.place.trans (h.place.trans hframe.place.symm),
    by rw [hframe.place]; exact h.absolute, ?_, ?_⟩
  · rw [hframe.names, hframe'.names]
    exact fun style =>
      Entry.lookup_namesFrom_congr (h.names style)
        (hdraft.imp_right fun ⟨hplan, hdraft⟩ => by rw [hplan, hdraft])
  · intro a ha hne
    exact (h.agree a (List.mem_cons_of_mem _ ha) hne).frame
      (hapart.fits a (List.mem_cons_of_mem _ ha) hne)
      (fun _ hm => hm.2) hframe hframe' (Entry.outputs_congr h.place hdraft)
      ((List.pairwise_cons.1 hapart.misses).1 a ha hne)

/-- Runs over entries from sessions that are in step write the same for every entry but the page. -/
theorem forall₂_attempts (hparts : b.parts.IsFiling) (hparts' : b'.parts.IsFiling)
    (hsite : b.SameSite b') (hplans : ∀ e, e ≠ .page p → plan' e = plan e) {es : List Entry}
    {r r' : Report} {s s' : Session σ}
    (hfails : ∀ a ∈ b.attempts (es.map Entry.work) r s, a.FailsBy b (plan a.entry))
    (hfails' : ∀ a ∈ b'.attempts (es.map Entry.work) r' s', a.FailsBy b' (plan' a.entry))
    (hapart : b.Apart plan p (b.attempts (es.map Entry.work) r s))
    (h : b.InStep plan p (b.attempts (es.map Entry.work) r s) s s') :
    List.Forall₂ (fun a a' => a'.entry = a.entry ∧
      (a.entry ≠ .page p → a'.written b' = a.written b)) (b.attempts (es.map Entry.work) r s)
        (b'.attempts (es.map Entry.work) r' s') := by
  induction es generalizing r r' s s' with
  | nil => exact .nil
  | cons e es ih =>
    obtain ⟨r₁, s₁, hwork, -⟩ := work_follows hparts e.work r s
    obtain ⟨r₁', s₁', hwork', -⟩ := work_follows hparts' e.work r' s'
    have hentry : e.work.entry? = some e := by cases e <;> rfl
    have hattempts : b.attempts ((e :: es).map Entry.work) r s =
        ⟨e, s⟩ :: b.attempts (es.map Entry.work) r₁ s₁ := by
      rw [List.map_cons, attempts_cons _ hwork, hentry]
      rfl
    have hattempts' : b'.attempts ((e :: es).map Entry.work) r' s' =
        ⟨e, s'⟩ :: b'.attempts (es.map Entry.work) r₁' s₁' := by
      rw [List.map_cons, attempts_cons _ hwork', hentry]
      rfl
    rw [hattempts] at hfails hapart h ⊢
    rw [hattempts'] at hfails' ⊢
    obtain ⟨hfail, hfails⟩ := List.forall_mem_cons.1 hfails
    obtain ⟨hfail', hfails'⟩ := List.forall_mem_cons.1 hfails'
    have hframe := work_frame hparts hfail h.absolute hwork
    have hframe' :=
      hsite.frame (work_frame hparts' hfail' (by rw [h.place]; exact h.absolute) hwork')
    have hrest : b.Apart plan p (b.attempts (es.map Entry.work) r₁ s₁) :=
      ⟨fun a ha => hapart.fits a (List.mem_cons_of_mem _ ha),
        (List.pairwise_cons.1 hapart.misses).2⟩
    refine .cons ⟨rfl, fun hne => ?_⟩
      (ih hfails hfails' hrest (h.step hplans hapart hframe hframe'))
    -- The first entry is built alike, unless it is the page.
    rw [Attempt.written_of_failsBy hfail, Attempt.written_of_failsBy hfail', hplans e hne,
      hsite.failing]
    exact congrArg (Option.map _) (e.build_eq_of_agree h.absolute h.place h.names
      (hapart.fits _ List.mem_cons_self hne) (h.agree _ List.mem_cons_self hne))

/-! ## Full passes -/

/-- What copying the assets changes and the stamp and chunks that are remembered of the manifest. -/
structure Copies (b : Builder σ) (copies : Set Location) (s : Session σ) : Prop where
  /-- Nothing but the copies is written. -/
  tree : Tree.ChangedOnly copies s.tree ((b.run (b.settings.assetDirectories.map .assets)
    (.start "full" b.settings.mode none)).perform { s with phase := .building }).2.tree
  /-- What is remembered of the manifest stays. -/
  manifest : ((b.run (b.settings.assetDirectories.map .assets)
    (.start "full" b.settings.mode none)).perform { s with phase :=
      .building }).2.manifest = s.manifest

/-- A full pass in which the calls fail that a plan says for each entry, and assets are copied to
some files. No removal fails. -/
structure GoesBy (b : Builder σ) (plan : Entry → Faults) (copies : Set Location)
    (s : Session σ) : Prop where
  /-- No part touches what the session knows of its builds. -/
  filing : b.parts.IsFiling
  /-- Directories are removed from the tree. -/
  removes : b.parts.store.removeDirectory = FileStore.onTree.removeDirectory
  /-- The calls fail that the plan says. -/
  fails : ∀ a ∈ Request.full b s, a.FailsBy b (plan a.entry)
  /-- The assets are copied to the files. -/
  copies : b.Copies copies s
  /-- Whatever stands in the tree stands in directories. -/
  sound : s.tree.IsSound

/-- Removing the directory of a stylesheet removes it from the tree, if the system takes its
path. -/
theorem clean_removes {store : FileStore σ}
    (hremoves : store.removeDirectory = FileStore.onTree.removeDirectory) (directory : Path)
    (style : Stylesheet) {s : Session σ} (hcwd : s.place.cwd.isAbsolute = true) {target : Path}
    (htarget : (Output.path s.place directory style.filename).parent = target) :
    ∃ t log, Style.clean store directory style s = (.ok target, { s with tree := t, log }) ∧
      (target.Fits → Tree.Removed target.names s.tree t) ∧ (¬target.Fits → t = s.tree) := by
  have hgrounded : target.IsGrounded :=
    htarget ▸ (Path.isGrounded_output hcwd directory style.filename).parent
  obtain ⟨isRemoved, t, hremove, hfits, hnot⟩ := Action.removeTree_spec hgrounded s
  obtain ⟨log, hstore⟩ : ∃ log, store.removeDirectory target s =
      (.ok ⟨⟩, { s with tree := t, log }) := by
    rw [hremoves]
    simp only [FileStore.onTree]
    rw [bind_apply_ok hremove]
    cases isRemoved <;> exact ⟨_, rfl⟩
  obtain ⟨log', hclean⟩ : ∃ log, Style.clean store directory style s =
      (.ok target, { s with tree := t, log }) := by
    unfold Style.clean
    rw [bind_apply_ok (get_apply s), htarget, bind_apply_ok hstore,
      bind_apply_ok (Action.say_apply _ _ _ _)]
    exact ⟨_, rfl⟩
  exact ⟨t, log', hclean, hfits, hnot⟩

/-- Cleaning a site with two builders removes the same directory from both trees, or none. -/
theorem cleaning_alike (hsite : b.SameSite b')
    (hremoves : b.parts.store.removeDirectory = FileStore.onTree.removeDirectory)
    (hremoves' : b'.parts.store.removeDirectory = FileStore.onTree.removeDirectory) (r r' : Report)
    {s s' : Session σ} (hcwd : s.place.cwd.isAbsolute = true) (hplace : s'.place = s.place) :
    ∃ t t' log log', b.run b.cleaning r s = (.ok r, { s with tree := t, log }) ∧
      b'.run b'.cleaning r' s' = (.ok r', { s' with tree := t', log := log' }) ∧
      (t = s.tree ∧ t' = s'.tree ∨ ∃ d, Tree.Removed d s.tree t ∧ Tree.Removed d s'.tree t') := by
  have hcleaning' : b'.cleaning = b.cleaning := by
    unfold cleaning styles
    rw [hsite.settings]
  rw [hcleaning']
  rcases b.cleaning_cases with hcleaning | ⟨first, hcleaning⟩ <;> rw [hcleaning]
  · exact ⟨s.tree, s'.tree, s.log, s'.log, rfl, rfl, .inl ⟨rfl, rfl⟩⟩
  · obtain ⟨t, log, hclean, hfits, hnot⟩ := clean_removes hremoves b.settings.output first hcwd rfl
    obtain ⟨t', log', hclean', hfits', hnot'⟩ := clean_removes hremoves' b'.settings.output first
      (s := s') (by rw [hplace]; exact hcwd) (by rw [hsite.settings, hplace])
    refine ⟨t, t', log, log', run_clean_apply hclean r, run_clean_apply hclean' r', ?_⟩
    by_cases h : (Output.path s.place b.settings.output first.filename).parent.Fits
    · exact .inr ⟨_, hfits h, hfits' h⟩
    · exact .inl ⟨hnot h, hnot' h⟩

/-- Two full passes differ only in some files and in the calls that fail for a page. -/
structure DifferOnlyFor (p : Page) (files : Set Location) (b b' : Builder σ)
    (plan plan' : Entry → Faults) (s s' : Session σ) : Prop where
  /-- The site is the same. -/
  site : b.SameSite b'
  /-- The same calls fail for every other entry. -/
  plans : ∀ e, e ≠ .page p → plan' e = plan e
  /-- The place is the same. -/
  place : s'.place = s.place
  /-- The names of stylesheets are the same. -/
  names : s'.names = s.names
  /-- The same is remembered of the manifest. -/
  manifest : s'.manifest = s.manifest
  /-- The trees are the same but for the files. -/
  tree : ∀ l, l ∉ files → s'.tree.at? l = s.tree.at? l

/-- A full pass writes no output where it shows in the building of an entry other than a page, and
some files do not show there. -/
structure Separates (p : Page) (files copies : Set Location) (b : Builder σ) (plan : Entry → Faults)
    (s : Session σ) :
    Prop where
  /-- No entry writes what a later one looks at. -/
  outputs : b.Apart plan p (Request.full b s)
  /-- No asset is copied to what an entry looks at. -/
  copies : ∀ a ∈ Request.full b s, a.entry ≠ .page p → (a.view b plan).Misses copies
  /-- None of the files is read for another entry, or lies at or above its output file. -/
  files : ∀ a ∈ Request.full b s, a.entry ≠ .page p → (a.view b plan).Ignores files

/-- Two full passes that differ only in what is read for one page and in the calls that fail for it
attempt the same entries, and write the same for every entry but the page. -/
theorem buildAll_isolates {files copies : Set Location} {s s' : Session σ}
    (hcwd : s.place.cwd.isAbsolute = true) (h : b.GoesBy plan copies s)
    (h' : b'.GoesBy plan' copies s') (hdiffer : DifferOnlyFor p files b b' plan plan' s s')
    (hseparates : Separates p files copies b plan s) :
    List.Forall₂ (fun a a' => a'.entry = a.entry ∧
      (a.entry ≠ .page p → a'.written b' = a.written b)) (Request.full b s)
        (Request.full b' s') := by
  obtain ⟨r₁, s₁, hassets, hkeeps⟩ := run_keeps h.filing (b.settings.assetDirectories.map .assets)
    (.start "full" b.settings.mode none) { s with phase := .building }
  obtain ⟨r₁', s₁', hassets', hkeeps'⟩ :=
    run_keeps h'.filing (b'.settings.assetDirectories.map .assets)
      (.start "full" b'.settings.mode none) { s' with phase := .building }
  have hplace : s₁'.place = s₁.place := hkeeps'.place.trans (hdiffer.place.trans hkeeps.place.symm)
  have hcwd₁ : s₁.place.cwd.isAbsolute = true := by
    rw [hkeeps.place]
    exact hcwd
  obtain ⟨t, t', log, log', hcleaning, hcleaning', hremoved⟩ :=
    cleaning_alike hdiffer.site h.removes h'.removes r₁ r₁' hcwd₁ hplace
  have hattempts := full_eq_attempts h.filing hassets hcleaning
  have hattempts' := full_eq_attempts h'.filing hassets' hcleaning'
  obtain ⟨htree, hmanifest⟩ := h.copies
  obtain ⟨htree', hmanifest'⟩ := h'.copies
  rw [Action.perform_apply, hassets] at htree hmanifest
  rw [Action.perform_apply, hassets'] at htree' hmanifest'
  -- Once the site is cleaned, the sessions are in step.
  have hinStep : b.InStep plan p (Request.full b s) { s₁ with tree := t, log }
      { s₁' with tree := t', log := log' } := by
    refine ⟨hplace, hcwd₁, fun style => ?_, fun a ha hne => ?_⟩
    · have hnone : ∀ directories : List AssetDirectory, ∀ w ∈ directories.map Work.assets,
          style ∉ w.styles := by
        intro directories w hw
        obtain ⟨a, -, rfl⟩ := List.mem_map.1 hw
        exact id
      simp only
      rw [hkeeps'.names style (hnone _), hkeeps.names style (hnone _)]
      simp only [hdiffer.names]
    · have hcopied : (a.view b plan).SameIn s₁.tree s₁'.tree :=
        ((hseparates.files a ha hne).sameIn h.sound h'.sound hdiffer.tree).changedOnly
          (hseparates.copies a ha hne)
          htree htree'
      have hcleaned : (a.view b plan).SameIn t t' := by
        rcases hremoved with ⟨rfl, rfl⟩ | ⟨d, hd, hd'⟩
        · exact hcopied
        · exact hcopied.removed hd hd'
      refine ⟨hcleaned, fun m hm => ?_⟩
      obtain ⟨hgrounded, hfits⟩ := (hseparates.outputs.fits a ha hne).manifests m hm
      obtain ⟨hat, habove⟩ := hcleaned.manifests m hm
      exact Chunk.listed_congr hgrounded hfits hplace
        (hmanifest'.trans (hdiffer.manifest.trans hmanifest.symm)) hat habove
  have hapart := hseparates.outputs
  have hfails := h.fails
  have hfails' := h'.fails
  rw [hattempts, ← map_work_attempted] at hinStep hapart hfails ⊢
  rw [hattempts', hdiffer.site.entries, ← map_work_attempted] at hfails' ⊢
  exact forall₂_attempts h.filing h'.filing hdiffer.site hdiffer.plans hfails hfails' hapart hinStep

/-- With parts of which the same calls fail for every entry, a full pass over a site without assets
goes by that plan. -/
theorem goesBy_failing (f : Faults) (hassets : b.settings.assetDirectories = []) {s : Session σ}
    (hsound : s.tree.IsSound) : (b.failing f).GoesBy (fun _ => f) ∅ s where
  filing := Collaborators.isFiling_failing _ _
  removes := rfl
  fails a _ :=
    ⟨((a.entry.build (b.failing f)) a.before).2.log,
      ((a.entry.build (b.failing f)) a.before).2.memory, rfl⟩
  copies := by
    have hnothing : (b.failing f).settings.assetDirectories = [] := hassets
    constructor <;> rw [hnothing] <;> simp only [List.map_nil, Action.perform_apply, run_nil]
    exact .refl _ _
  sound := hsound

/-- A full pass that nothing ends early, whichever calls of its parts fail but for the removal of
directories, ends with a report and leaves the session idle. It attempts every stylesheet of the
pages once and then every page that is written, in their order, and the report accounts for the
attempts. Another full pass that differs only in what is read for one page, and in the calls that
fail for it, writes the same for every other entry, if the entries are kept apart. -/
theorem buildAll_contains_failures (b : Builder σ) (s : Session σ) (_ : b.CanFinish s.place) :
    (b.parts.IsFiling → s.phase = .idle →
      (∃ r s', b.buildAll.perform s = (.ok r, s') ∧ s'.phase = .idle ∧
        b.Accounts (Request.full b s) r) ∧
      (Request.full b s).map Attempt.entry =
        b.styles.map .style ++ (b.settings.pages.filter Page.isWritten).map .page ∧
      b.styles.Nodup ∧ ∀ sheet, sheet ∈ b.styles ↔ ∃ page ∈ b.settings.pages, sheet ∈ page.styles) ∧
    ∀ (b' : Builder σ) (s' : Session σ) (p : Page) (plan plan' : Entry → Faults)
      (files copies : Set Location),
      b'.CanFinish s'.place → s.place.cwd.isAbsolute = true → b.GoesBy plan copies s →
        b'.GoesBy plan' copies s' →
      DifferOnlyFor p files b b' plan plan' s s' → Separates p files copies b plan s →
      List.Forall₂ (fun a a' => a'.entry = a.entry ∧
        (a.entry ≠ .page p → a'.written b' = a.written b)) (Request.full b s)
          (Request.full b' s') := by
  refine ⟨fun hparts hidle => ⟨buildAll_accounts hparts hidle, map_entry_full hparts s,
    nodup_styles b, fun _ => mem_styles⟩, ?_⟩
  intro b' s' p plan plan' files copies _ hcwd h h' hdiffer hseparates
  exact buildAll_isolates hcwd h h' hdiffer hseparates

/-! ## Samples -/

namespace Sample

/-- Some text cannot be written anywhere. -/
def unwritable : Faults
  | .writeText _ text =>
      if text = "broken" then some (.other "OSError" "No space left on device") else none
  | _ => none

/-- The site of two pages, with a store that fails where that text is written. -/
def fragile : Builder Unit := recovering.failing unwritable

/-- The site with a text for each page. -/
def sane : Session Unit := session [("a.html", "a"), ("b.html", "b")]

/-- The site in which the first page has the text that cannot be written. -/
def tainted : Session Unit := edit "a.html" "broken" sane

/-- The pages of the site. -/
def first : Page := page "a" "a.html" "a.html" []

def second : Page := page "b" "b.html" "b.html" []

/-- The tree of the sample has directories above all that stands in it. -/
theorem isSound_sane : sane.tree.IsSound := Tree.isSound_of_entries (by decide +kernel)

/-- The tree with the text that cannot be written has them too. -/
theorem isSound_tainted : tainted.tree.IsSound := Tree.isSound_of_entries (by decide +kernel)

/-- Neither page has chunks. -/
theorem chunks_fragile {p : Page} (hp : p.chunks = []) : (Entry.page p).chunks fragile = [] := by
  have hshared : fragile.settings.shared? = none := Option.isNone_iff_eq_none.1 (by decide +kernel)
  simp only [Entry.chunks, hshared, hp]
  rfl

/-- What is looked at for the pages. -/
theorem full_sane : ∃ x y, Request.full fragile sane = [x, y] ∧ x.entry = .page first ∧
    y.entry = .page second ∧
    (x.view fragile fun _ => unwritable) =
      ⟨{q | q ∈ [path "a.html"]}, ∅, {["site", "dist", "a.html"]}⟩ ∧
    (y.view fragile fun _ => unwritable) =
      ⟨{q | q ∈ [path "b.html"]}, ∅, {["site", "dist", "b.html"]}⟩ := by
  have hentries : (Request.full fragile sane).map Attempt.entry = [.page first, .page second] :=
    map_entry_full (Collaborators.isFiling_failing _ _) sane
  have hreads : (Request.full fragile sane).map
    (fun a => (a.entry.reads fragile unwritable a.before, a.before.place)) =
      [([path "a.html"], sane.place), ([path "b.html"], sane.place)] := by
    decide +kernel
  obtain ⟨x, as, hfull, hx, has⟩ := List.map_eq_cons_iff.1 hentries
  obtain ⟨y, as, rfl, hy, has⟩ := List.map_eq_cons_iff.1 has
  obtain rfl := List.map_eq_nil_iff.1 has
  rw [hfull] at hreads
  simp only [List.map_cons, List.map_nil, List.cons.injEq, Prod.mk.injEq, and_true] at hreads
  obtain ⟨⟨hreadsx, hplacex⟩, hreadsy, hplacey⟩ := hreads
  refine ⟨x, y, hfull, hx, hy, ?_, ?_⟩
  · have hview : (x.view fragile fun _ => unwritable) = _ :=
      Attempt.view_page hx (chunks_fragile rfl) hreadsx
    rw [hview, hplacex]
    rfl
  · have hview : (y.view fragile fun _ => unwritable) = _ :=
      Attempt.view_page hy (chunks_fragile rfl) hreadsy
    rw [hview, hplacey]
    rfl

/-- The text of the first page is read for that page alone, and the pages are written to different
files. -/
theorem separates_sane :
    Separates first {["site", "src", "a.html"]} ∅ fragile (fun _ => unwritable) sane := by
  obtain ⟨x, y, hfull, hx, hy, hviewx, hviewy⟩ := full_sane
  -- Only the second page matters.
  have hother : ∀ a ∈ Request.full fragile sane, a.entry ≠ .page first →
      (a.view fragile fun _ => unwritable) =
        ⟨{q | q ∈ [path "b.html"]}, ∅, {["site", "dist", "b.html"]}⟩ := by
    intro a ha hne
    rw [hfull, List.mem_pair] at ha
    rcases ha with rfl | rfl
    · exact absurd hx hne
    · exact hviewy
  refine ⟨⟨fun a ha hne => ?_, ?_⟩, fun a ha hne => ?_, fun a ha hne => ?_⟩
  · rw [hother a ha hne]
    refine ⟨fun q hq => ?_, fun m hm => hm.elim⟩
    rw [List.mem_singleton.1 hq]
    exact ⟨⟨by decide, by decide⟩, ⟨by decide, by decide, by decide⟩⟩
  · rw [hfull]
    refine List.pairwise_pair.2 fun _ => ?_
    rw [hviewx, hviewy]
    refine ⟨fun q hq k hk => ?_, fun m hm => hm.elim, fun l hl k hk => ?_⟩
    · rw [List.mem_singleton.1 hq, Set.mem_singleton_iff.1 hk]
      decide
    · rw [Set.mem_singleton_iff.1 hl, Set.mem_singleton_iff.1 hk]
      decide
  · rw [hother a ha hne]
    exact ⟨fun _ _ _ hk => hk.elim, fun _ _ _ hk => hk.elim, fun _ _ _ hk => hk.elim⟩
  · rw [hother a ha hne]
    refine ⟨fun q hq => ?_, fun m hm => hm.elim, fun l hl k hk => ?_⟩
    · rw [List.mem_singleton.1 hq, Set.mem_singleton_iff]
      decide
    · rw [Set.mem_singleton_iff.1 hl, Set.mem_singleton_iff.1 hk]
      decide

/-- The passes over the two sites differ only in the text of the first page. -/
theorem differ_tainted :
    DifferOnlyFor first {["site", "src", "a.html"]} fragile fragile (fun _ => unwritable)
    (fun _ => unwritable) sane tainted where
  site := ⟨rfl, rfl⟩
  plans _ _ := rfl
  place := rfl
  names := rfl
  manifest := rfl
  tree _ hl := Tree.at_put_of_ne _ _ fun h => hl h

end Sample

open Sample in
/-- The second page of the sample is written in both passes, though the first one fails in one of
them. -/
theorem buildAll_contains_failures_sample :
    fragile.CanFinish sane.place ∧ (fragile.parts.IsFiling ∧ sane.phase = .idle) ∧
      (sane.place.cwd.isAbsolute = true ∧ fragile.GoesBy (fun _ => unwritable) ∅ sane ∧
        fragile.GoesBy (fun _ => unwritable) ∅ tainted) ∧
      DifferOnlyFor first {["site", "src", "a.html"]} fragile fragile (fun _ => unwritable)
        (fun _ => unwritable) sane
        tainted ∧
      Separates first {["site", "src", "a.html"]} ∅ fragile (fun _ => unwritable) sane ∧
      (∃ r s', fragile.buildAll.perform sane = (.ok r, s') ∧ s'.phase = .idle ∧
        fragile.Accounts (Request.full fragile sane) r) ∧
      List.Forall₂ (fun a a' => a'.entry = a.entry ∧
        (a.entry ≠ .page first → a'.written fragile = a.written fragile))
          (Request.full fragile sane) (Request.full fragile tainted) ∧
      (Request.full fragile sane).map (fun a => (a.written fragile).map (·.2)) =
        [some "a", some "b"] ∧
      (Request.full fragile tainted).map (fun a => (a.written fragile).map (·.2)) =
        [none, some "b"] := by
  have hparts : fragile.parts.IsFiling := Collaborators.isFiling_failing _ _
  have hgoes : fragile.GoesBy (fun _ => unwritable) ∅ sane :=
    goesBy_failing unwritable rfl isSound_sane
  have hgoes' : fragile.GoesBy (fun _ => unwritable) ∅ tainted :=
    goesBy_failing unwritable rfl isSound_tainted
  have hfinish : fragile.CanFinish sane.place := by decide +kernel
  obtain ⟨haccounts, hisolates⟩ := buildAll_contains_failures fragile sane hfinish
  exact ⟨hfinish, ⟨hparts, rfl⟩, ⟨rfl, hgoes, hgoes'⟩, differ_tainted, separates_sane,
    (haccounts hparts rfl).1, hisolates fragile tainted first _ _ _ _ hfinish rfl hgoes hgoes'
      differ_tainted separates_sane, by decide +kernel⟩

namespace Sample

/-- What a full pass reads for each entry, and what it writes for it. -/
def seen (b : Builder Unit) (s : Session Unit) :
    List (List Location × Option (Location × String)) :=
  (Request.full b s).map fun a =>
    ((a.entry.reads b (fun _ => none) a.before).map (·.names),
      (a.written b).map fun (p, text) => (p.names, text))

/-- A file of the sample, with its text. -/
def laid (l : Location) (text : String) (s : Session Unit) : Session Unit :=
  { s with tree := s.tree.put l (.file (Text.encode text) (.given 1001)) }

/-- The sample with an output directory. -/
def prepared (files : List (String × String)) : Session Unit :=
  let s := session files
  { s with tree := s.tree.put ["site", "dist"] .directory }

/-- A site in which chunks are looked up in a manifest. -/
def chunked (manifest : Path) (pages : List Page) : Builder Unit :=
  let settings := { (builder pages).settings with manifest := some manifest }
  { builder pages with settings, parts := .standard settings }

/-- A page with a script chunk. -/
def scripted (p : Page) : Page := { p with chunks := [⟨"main", "head", []⟩] }

/-- The second page is written below a file that the first reads. -/
def stacked : Builder Unit :=
  builder [page "a" "a.html" "a.html" [], page "b" "b.html" "q.html/index.html" []]

def stackedFiles : Session Unit :=
  prepared [("a.html", "PageBundler.include('../dist/q')"), ("b.html", "b")]

/-- The second page includes what is a directory once the first is written, which looks up a
chunk. -/
def nested : Builder Unit :=
  chunked (path "m.json")
    [scripted (page "a" "a.html" "x.html/index.html" []), page "b" "b.html" "b.html" []]

def nestedFiles : Session Unit :=
  session [("a.html", "a"), ("b.html", "PageBundler.include('../dist/x')")]

/-- The second page looks up a chunk in a manifest that lies below a file that the first reads. -/
def shadowed : Builder Unit :=
  chunked ⟨.absolute, ["site", "dist", "c.html", "m.json"]⟩
    [page "a" "a.html" "a.html" [], scripted (page "b" "b.html" "b.html" [])]

def shadowedFiles : Session Unit :=
  prepared [("a.html", "PageBundler.include('../dist/c')"), ("b.html", "b")]

/-- A name that is one byte too long for the system. -/
def longName : String := String.ofList (List.replicate 64 '😀')

/-- The second page looks up a chunk in a manifest that has this name. -/
def lengthy : Builder Unit :=
  chunked ⟨.absolute, ["site", "dist", longName]⟩
    [page "a" "a.html" "x.html/index.html" [], scripted (page "b" "b.html" "b.html" [])]

/-- The directory of the first page cannot be made. -/
def denied : Faults
  | .ensureDirectory p =>
    if p = ⟨.absolute, ["site", "dist", "x.html"]⟩ then some
      (.other "OSError" "Permission denied") else none
  | _ => none

end Sample

open Sample in
/-- That output files are different, not nested and not read keeps the second of two pages apart
from the first only if no file that is read for the first lies above the output file of the second
or above a manifest, and if the second looks neither at a directory above an output file nor at a
path with a name that the system does not take. In each of these cases the second page is written in
one pass and not in another, or with another text, though only one file is laid that is read for the
first page alone, or one call fails for that page. -/
theorem buildAll_isolation_fails :
    (seen stacked stackedFiles =
        [([["site", "src", "a.html"], ["site", "dist", "q.html"]], some (["site", "dist", "a.html"],
        "PageBundler Exception:\n********** Text file not found: /site/dist/q.html **********")),
          ([["site", "src", "b.html"]], some (["site", "dist", "q.html", "index.html"], "b"))] ∧
      seen stacked (laid ["site", "dist", "q.html"] "q" stackedFiles) =
        [([["site", "src", "a.html"], ["site", "dist", "q.html"]],
          some (["site", "dist", "a.html"], "q")),
          ([["site", "src", "b.html"]], none)]) ∧
    (seen nested nestedFiles =
        [([["site", "src", "a.html"]], some (["site", "dist", "x.html", "index.html"], "a")),
          ([["site", "src", "b.html"], ["site", "dist", "x.html"]],
            some (["site", "dist", "b.html"],
        "PageBundler Exception:\n********** [Errno 21] Is a directory: '/site/dist/x.html' **********"))] ∧
      seen nested (laid ["site", "src", "m.json"] "[" nestedFiles) =
        [([["site", "src", "a.html"]], none),
          ([["site", "src", "b.html"], ["site", "dist", "x.html"]],
            some (["site", "dist", "b.html"],
        "PageBundler Exception:\n********** Text file not found: /site/dist/x.html **********"))]) ∧
    (seen shadowed shadowedFiles =
        [([["site", "src", "a.html"], ["site", "dist", "c.html"]], some (["site", "dist", "a.html"],
        "PageBundler Exception:\n********** Text file not found: /site/dist/c.html **********")),
          ([["site", "src", "b.html"]], some (["site", "dist", "b.html"], "b"))] ∧
      seen shadowed (laid ["site", "dist", "c.html"] "c" shadowedFiles) =
        [([["site", "src", "a.html"], ["site", "dist", "c.html"]],
          some (["site", "dist", "a.html"], "c")),
          ([["site", "src", "b.html"]], none)]) ∧
    seen lengthy sane =
        [([["site", "src", "a.html"]], some (["site", "dist", "x.html", "index.html"], "a")),
          ([["site", "src", "b.html"]], none)] ∧
      seen (lengthy.failing denied) sane =
        [([["site", "src", "a.html"]], none),
          ([["site", "src", "b.html"]], some (["site", "dist", "b.html"], "b"))] := by
  refine ⟨⟨?_, ?_⟩, ⟨?_, ?_⟩, ⟨?_, ?_⟩, ?_, ?_⟩ <;> decide +kernel

end Builder

end StaticSite
