import StaticSite.Proofs.Build.Keeping
import StaticSite.Proofs.Build.Pass
import StaticSite.Proofs.Tree.Look

/-!
# How sessions go on

What a build does to files only adds to them: a session precedes a later one (`Session.Precedes`) if
nothing that stood in its tree is gone and every file that was written since bears a number that is
not older than the session. So a file that is the same in both was not written in between, and this
is how a pass is told to have left a file alone. Every piece of work but the cleaning of a site
leads from a session to one that it precedes (`precedes_work`), and a draft changes nothing of the
disk (`Entry.draft_sameDisk`).
-/

namespace StaticSite

variable {σ : Type} {s s' s'' : Session σ}

/-- Nothing is different in the files and the days of two sessions. -/
structure Session.SameDisk (s s' : Session σ) : Prop where
  /-- The place is the same. -/
  place : s'.place = s.place
  /-- The day is. -/
  today : s'.today = s.today
  /-- The number of files written is. -/
  clock : s'.clock = s.clock
  /-- The tree is. -/
  tree : s'.tree = s.tree

instance : Std.Refl (Session.SameDisk : Session σ → Session σ → Prop) where
  refl _ := ⟨rfl, rfl, rfl, rfl⟩

instance : IsTrans (Session σ) Session.SameDisk where
  trans _ _ _ h h' :=
    ⟨h'.place.trans h.place, h'.today.trans h.today, h'.clock.trans h.clock, h'.tree.trans h.tree⟩

/-- A session comes before another, in which files were written and directories made. -/
structure Session.Precedes (s s' : Session σ) : Prop where
  /-- The place is the same. -/
  place : s'.place = s.place
  /-- The day is. -/
  today : s'.today = s.today
  /-- No file that was written is forgotten. -/
  clock : s.clock ≤ s'.clock
  /-- Nothing that stood in the tree is gone. -/
  keeps : s.tree.Keeps s'.tree
  /-- What is different is a directory or a file that was written since. -/
  entry : ∀ l, s'.tree.at? l = s.tree.at? l ∨ s'.tree.at? l = some .directory ∨
    ∃ bytes count, s.clock ≤ count ∧ s'.tree.at? l = some (.file bytes (.fresh count))

/-- A session comes before one with the same files and days. -/
theorem Session.SameDisk.precedes (h : s.SameDisk s') : s.Precedes s' :=
  ⟨h.place, h.today, h.clock.ge, h.tree ▸ .refl s.tree, fun l => .inl (by rw [h.tree])⟩

instance : Std.Refl (Session.Precedes : Session σ → Session σ → Prop) where
  refl s := (refl_of Session.SameDisk s).precedes

instance : IsTrans (Session σ) Session.Precedes where
  trans s s' s'' h h' := by
    refine ⟨h'.place.trans h.place, h'.today.trans h.today, h.clock.trans h'.clock,
      h.keeps.trans h'.keeps, fun l => ?_⟩
    rcases h'.entry l with heq | hdirectory | ⟨bytes, count, hcount, hfile⟩
    · rw [heq]
      exact h.entry l
    · exact .inr (.inl hdirectory)
    · exact .inr (.inr ⟨bytes, count, h.clock.trans hcount, hfile⟩)

/-- Every number that a file of a session bears is older than the session. -/
def Session.IsDated (s : Session σ) : Prop :=
  ∀ l bytes count, s.tree.at? l = some (.file bytes (.fresh count)) → count < s.clock

/-- The number that an entry bears, if it is a file that was written. -/
def Tree.Entry.count? : Tree.Entry → Option Nat
  | file _ (.fresh count) => some count
  | file _ (.given _) | directory => none

namespace Session.Precedes

variable {l : Location}

/-- What was not different in a later session was not different in between. -/
theorem at_eq (h : s.Precedes s') (h' : s'.Precedes s'') (hdated : s.IsDated)
    (hsame : s''.tree.at? l = s.tree.at? l) : s'.tree.at? l = s.tree.at? l := by
  rcases h.entry l with heq | hdirectory | ⟨bytes, count, hcount, hfile⟩
  · exact heq
  · rw [hdirectory, ← hsame]
    exact (h'.keeps.directory l hdirectory).symm
  · -- A file that was written since would be newer than the session still.
    exfalso
    have hlater : ∃ bytes count, s.clock ≤ count ∧
        s''.tree.at? l = some (.file bytes (.fresh count)) := by
      rcases h'.entry l with heq | hdirectory | ⟨bytes', count', hcount', hfile'⟩
      · exact ⟨bytes, count, hcount, heq.trans hfile⟩
      · have hstill := h'.keeps.file l ⟨bytes, _, hfile⟩
        exact absurd hstill (Tree.not_hasFile_of_directory hdirectory)
      · exact ⟨bytes', count', h.clock.trans hcount', hfile'⟩
    obtain ⟨bytes', count', hcount', hfile'⟩ := hlater
    have hold := hdated l bytes' count' (hsame ▸ hfile')
    omega

/-- A file that stands where none stood later stood there from the start, if it stands there in the
end only if it did. -/
theorem hasFile_iff (h : s.Precedes s') (h' : s'.Precedes s'')
    (hnew : s''.tree.HasFile l → s.tree.HasFile l) :
    s'.tree.HasFile l ↔ s.tree.HasFile l :=
  ⟨fun hfile => hnew (h'.keeps.file l hfile), h.keeps.file l⟩

end Session.Precedes

/-! ## Operations on files -/

namespace Action

/-- A session comes before the one in which the directories of a path are made. -/
theorem precedes_makeDirectories (p : Path) :
    (makeDirectories p : Action σ Unit).Within Session.Precedes := by
  intro s
  have hmade : s.tree.Keeps (s.tree.makeDirectoriesUpTo s.place.cwd p p.names.length).2 ∧
      ∀ l, (s.tree.makeDirectoriesUpTo s.place.cwd p p.names.length).2.at? l = s.tree.at? l ∨
        (s.tree.makeDirectoriesUpTo s.place.cwd p p.names.length).2.at? l = some .directory :=
    Tree.makeDirectoriesUpTo_induction (C := fun _ => True)
    (P := fun t => s.tree.Keeps t ∧ ∀ l, t.at? l = s.tree.at? l ∨ t.at? l = some .directory)
      (fun _ _ => trivial)
    (fun q t t' _ ⟨hkeeps, hentry⟩ hmake => by
      refine ⟨hkeeps.trans (Tree.keeps_of_makeDirectory hmake), fun l => ?_⟩
      obtain ⟨m, hnone, rfl⟩ := Tree.exists_of_makeDirectory hmake
      by_cases heq : l = m
      · have hroot : m ≠ [] := by
          rintro rfl
          rw [Tree.at_root] at hnone
          cases hnone
        rw [heq]
        exact .inr (Tree.at_put_self t _ hroot)
      · rw [Tree.at_put_of_ne t _ heq]
        exact hentry l)
    trivial p.names.length (t := s.tree) ⟨.refl s.tree, fun _ => .inl rfl⟩
  unfold makeDirectories Tree.makeDirectories
  generalize Tree.makeDirectoriesUpTo s.place.cwd p p.names.length s.tree = result at hmade ⊢
  obtain ⟨⟨cause, q⟩ | u, t⟩ := result <;>
    exact ⟨rfl, rfl, Nat.le_refl _, hmade.1, fun l => (hmade.2 l).imp_right .inl⟩

/-- A session comes before the one in which a directory is made sure of. -/
theorem precedes_ensureDirectory (p : Path) :
    (ensureDirectory p true : Action σ Unit).Within Session.Precedes := by
  refine (Within.observe _).bind fun e? => ?_
  split
  · exact .pure _
  · exact .throw _
  · exact precedes_makeDirectories p

/-- A session comes before the one whose tree has grown. -/
theorem precedes_grown {l : Location} {t : Tree} (h : Tree.Grows l s.tree t) :
    s.Precedes { s with tree := t } := by
  refine ⟨rfl, rfl, Nat.le_refl _, ⟨fun m hm => ?_, fun m hm => h.hasFile_iff.2 hm⟩, fun m => ?_⟩
  · rcases h m with heq | ⟨-, hnone, -⟩
    · exact heq.trans hm
    · cases hnone.symm.trans hm
  · exact (h m).imp_right fun ⟨_, _, hdirectory⟩ => .inl hdirectory

/-- A session comes before the one in which a file was written where no directory stands. -/
theorem precedes_put {l : Location} (hfree : s.tree.at? l ≠ some .directory) (bytes : ByteArray) :
    s.Precedes (s.put l bytes) := by
  refine ⟨rfl, rfl, Nat.le_succ _, Tree.keeps_put_file hfree bytes _, fun m => ?_⟩
  by_cases heq : m = l
  · have hroot : l ≠ [] := fun hl => hfree (by rw [hl, Tree.at_root])
    rw [heq]
    exact .inr (.inr ⟨bytes, s.clock, Nat.le_refl _, Tree.at_put_self s.tree _ hroot⟩)
  · exact .inl (Tree.at_put_of_ne s.tree _ heq)

/-- A session comes before the one in which a file was put. -/
theorem precedes_putAt (p : Path) (bytes : ByteArray) :
    (putAt p bytes : Action σ Unit).Within Session.Precedes := by
  intro s
  unfold putAt
  rw [bind_apply, observe_apply]
  cases hlocation : fileLocation s p with
  | error fault => exact refl_of Session.Precedes s
  | ok l => exact precedes_put (locate_of_fileLocation hlocation).2 bytes

end Action

/-- A session comes before each one that an operation of the file tree leaves, if the operation
makes or writes something. -/
theorem FileStore.precedes_onTree : (FileStore.onTree : FileStore σ).Calls Session.Precedes where
  writeText p text := (Action.precedes_makeDirectories _).bind fun _ =>
    Action.replaceAt_within (Action.precedes_putAt p (Text.encode text))
  ensureDirectory p := Action.precedes_ensureDirectory p
  copyFile _ target := Action.copyFile_within (Action.precedes_makeDirectories _) fun bytes =>
    Action.precedes_putAt target bytes

/-- The log does not count. -/
theorem Session.precedes_log (s : Session σ) (log : List Log.Line) : s.Precedes { s with log } :=
  Session.SameDisk.precedes ⟨rfl, rfl, rfl, rfl⟩

/-- A session comes before the one in which an output was written. -/
theorem Output.precedes_write (directory : Path) (filename text : String) :
    (write .onTree directory filename text : Action σ Path).Within Session.Precedes :=
  (Action.Within.observe _).bind fun _ =>
    (FileStore.precedes_onTree.ensureDirectory _).bind fun _ =>
      (FileStore.precedes_onTree.writeText _ _).bind fun _ =>
        Action.Within.bind (fun s => s.precedes_log _) fun _ => .pure _

/-! ## Pieces of work -/

namespace Builder

variable {b : Builder σ}

/-- A draft changes nothing of the disk. -/
theorem Entry.draft_sameDisk (hb : b.IsStandard) (e : Entry) :
    (e.draft b).Within Session.SameDisk := by
  have hcalls : b.parts.Calls Session.SameDisk := by
    rw [show b.parts = .standard b.settings from hb]
    refine (Collaborators.calls_standard b.settings).mono fun s s' ⟨_, _, h⟩ => ?_
    rw [h]
    exact ⟨rfl, rfl, rfl, rfl⟩
  exact e.draft_within hcalls fun _ _ _ => ⟨rfl, rfl, rfl, rfl⟩

/-- A session comes before the one in which an entry was built. -/
theorem Entry.precedes_build (hb : b.IsStandard) (e : Entry) :
    (e.build b).Within Session.Precedes := by
  refine Action.Within.bind (fun s => (e.draft_sameDisk hb s).precedes) fun d => ?_
  rw [hb.store]
  exact (Output.precedes_write _ _ _).bind fun _ => .pure _

/-- Writes the document of a sitemap, unless there is none. -/
def writeDocument (b : Builder σ) : Option String → Action σ (Option Path)
  | none => do
    Action.say .info .passes "Sitemap skipped: no URLs"
    return none
  | some document => do
    let output ← Output.write b.parts.store b.settings.output Sitemap.filename document
    return some output

/-- A sitemap is made into a document, which is then written. -/
theorem makeSitemap_eq_bind (o : SitemapOptions) (filenames : List String) :
    b.makeSitemap o filenames = (do
      modify fun s => { s with log := s.log ++ Sitemap.warnings o }
      b.writeDocument
          (← liftM (Sitemap.make Sitemap.patternEngine o filenames (← get).today))) := by
  unfold makeSitemap
  refine bind_congr fun _ => bind_congr fun s => bind_congr fun document? => ?_
  cases document? <;> rfl

/-- A session comes before the one in which the document of a sitemap was written. -/
theorem precedes_writeDocument (hb : b.IsStandard) (document? : Option String) :
    (b.writeDocument document?).Within Session.Precedes := by
  cases document? with
  | none => exact Action.Within.bind (fun s => s.precedes_log _) fun _ => .pure _
  | some document =>
    unfold writeDocument
    rw [hb.store]
    exact (Output.precedes_write _ _ _).bind fun _ => .pure _

/-- A session comes before the one in which the sitemap was made. -/
theorem precedes_makeSitemap (hb : b.IsStandard) (o : SitemapOptions) (filenames : List String) :
    (b.makeSitemap o filenames).Within Session.Precedes := by
  rw [makeSitemap_eq_bind]
  exact Action.Within.bind (fun s => s.precedes_log _) fun _ => Action.Within.get.bind fun s =>
    (Action.Within.liftM _).bind fun document? => precedes_writeDocument hb document?

/-- A piece of work does not clean the site. -/
def Work.Adds : Work → Prop
  | .clean _ => False
  | .assets _ | .style _ | .page _ | .sitemap _ _ => True

/-- Every piece of work but a cleaning adds to the files of a session. -/
theorem precedes_work (hb : b.IsStandard) {w : Work} (hw : w.Adds) (r : Report) :
    (b.work r w).Within Session.Precedes := by
  have hentry : ∀ e : Entry, (b.work r e.work).Within Session.Precedes := by
    refine fun e => work_within hb.isFiling (fun s s' log records h => ?_) (e.precedes_build hb) r
    exact ⟨h.place, h.today, h.clock, h.keeps, h.entry⟩
  cases w with
  | clean => exact hw.elim
  | style sheet => exact hentry (.style sheet)
  | page p => exact hentry (.page p)
  | assets a =>
    have hstore : b.parts.store.Calls Session.Precedes := by
      rw [hb.store]
      exact FileStore.precedes_onTree
    refine (Assets.copy_within hstore Session.precedes_log _ _ a).attempt.bind fun x => ?_
    split
    · exact Action.Within.bind (fun s => s.precedes_log _) fun _ => .pure _
    · exact .pure _
  | sitemap o filenames =>
    refine (precedes_makeSitemap hb o filenames).attempt.bind fun x => ?_
    rcases x with fault | output?
    · exact Action.Within.bind (fun s => s.precedes_log _) fun _ => .pure _
    · cases output? <;> exact .pure _

/-- A session comes before the one that a run leaves, if the run does not clean the site. -/
theorem precedes_run (hb : b.IsStandard) {works : List Work} (hworks : ∀ w ∈ works, w.Adds)
    (r : Report) : (b.run works r).Within Session.Precedes := by
  induction works generalizing r with
  | nil => exact .pure r
  | cons w works ih =>
    obtain ⟨hw, hworks⟩ := List.forall_mem_cons.1 hworks
    rw [run_cons]
    exact (precedes_work hb hw r).bind fun r' => ih hworks r'

/-- A session comes before the one in which pages were built. -/
theorem precedes_buildPages (hb : b.IsStandard) (r : Report) (pages : List Page) :
    (b.buildPages r pages).Within Session.Precedes := by
  have hpage : ∀ (r : Report) (p : Page), (b.buildPage r p).Within Session.Precedes := by
    intro r p s
    have hwork := precedes_work hb (w := .page p) trivial r s
    simp only [work, map_apply] at hwork
    exact hwork
  induction pages generalizing r with
  | nil => exact .pure _
  | cons p pages ih => exact (hpage r p).bind fun x => (ih x.1).bind fun _ => .pure _

/-- Nothing is removed from a site that is not cleaned. -/
theorem cleaning_eq_nil (hclean : b.settings.clean = false) : b.cleaning = [] := by
  unfold cleaning
  rw [hclean]
  cases b.styles <;> rfl

/-- A session comes before the one that a pass leaves once the sitemap is done. -/
theorem precedes_mapping (hb : b.IsStandard) (r : Report) (filenames : List String) :
    (b.run (b.mapping filenames) r).Within Session.Precedes := by
  refine precedes_run hb (fun w hw => ?_) r
  unfold mapping at hw
  cases hsitemap : b.settings.sitemap with
  | none =>
    rw [hsitemap] at hw
    cases hw
  | some o =>
    simp only [hsitemap] at hw
    split at hw
    · rw [List.mem_singleton.1 hw]
      trivial
    · cases hw

end Builder

end StaticSite
