import StaticSite.Proofs.Build.Assets
import StaticSite.Proofs.Tree.Common

/-!
# What stays when files are written

Making directories and writing files takes nothing away: a directory stays a directory, and where a
file stood there is a file (`Tree.Keeps`). So a path that leads to a file does so still after any
such operation (`Session.KeepsFiles.isFile`), and one to which a file was written does so from then
on (`Output.isFile_of_write`). Nothing is asked of the paths, which may lead up as well as down.
What operations write adds up (`Session.Gains`).
-/

namespace StaticSite

namespace Tree

/-- Nothing that stood in a tree is gone: directories are directories still, and where files stood
there are files. -/
structure Keeps (t t' : Tree) : Prop where
  /-- A directory is one still. -/
  directory : ∀ l, t.at? l = some .directory → t'.at? l = some .directory
  /-- A file is there still, with what it holds or with something else. -/
  file : ∀ l, t.HasFile l → t'.HasFile l

variable {t t' t'' : Tree} {cwd p : Path} {l k : Location}

/-- A tree keeps what stands in it. -/
theorem Keeps.refl (t : Tree) : t.Keeps t := ⟨fun _ h => h, fun _ h => h⟩

/-- What is kept twice is kept. -/
theorem Keeps.trans (h : t.Keeps t') (h' : t'.Keeps t'') : t.Keeps t'' :=
  ⟨fun l hl => h'.directory l (h.directory l hl), fun l hl => h'.file l (h.file l hl)⟩

/-- A directory where nothing stood takes nothing away. -/
theorem keeps_put_directory (h : t.at? l = none) : t.Keeps (t.put l .directory) := by
  -- What stands somewhere stands elsewhere than where nothing stood.
  have hne : ∀ m e, t.at? m = some e → m ≠ l := by
    intro m e hm heq
    rw [heq, h] at hm
    cases hm
  constructor
  · intro m hm
    rw [at_put_of_ne t _ (hne m _ hm)]
    exact hm
  · rintro m ⟨bytes, stamp, hm⟩
    refine ⟨bytes, stamp, ?_⟩
    rw [at_put_of_ne t _ (hne m _ hm)]
    exact hm

/-- A file where no directory stood takes nothing away. -/
theorem keeps_put_file (h : t.at? l ≠ some .directory) (bytes : ByteArray) (stamp : Stamp) :
    t.Keeps (t.put l (.file bytes stamp)) := by
  constructor
  · intro m hm
    have hne : m ≠ l := fun heq => h (heq ▸ hm)
    rw [at_put_of_ne t _ hne]
    exact hm
  · intro m hm
    by_cases heq : m = l
    · have hroot : l ≠ [] := fun hl => h (by rw [hl, at_root])
      rw [heq]
      exact ⟨bytes, stamp, at_put_self t _ hroot⟩
    · obtain ⟨bytes', stamp', hfile⟩ := hm
      exact ⟨bytes', stamp', by rw [at_put_of_ne t _ heq, hfile]⟩

/-- Names lead to where they led, since they go through directories only. -/
theorem Keeps.follow (h : t.Keeps t') {names : List String} (hfollow : t.follow l names = .ok k) :
    t'.follow l names = .ok k := by
  induction names generalizing l with
  | nil => exact hfollow
  | cons name rest ih =>
    unfold Tree.follow at hfollow ⊢
    cases hentry : t.at? l with
    | none =>
      rw [hentry] at hfollow
      cases hfollow
    | some e =>
      cases e with
      | file bytes stamp =>
        rw [hentry] at hfollow
        cases hfollow
      | directory =>
        rw [hentry] at hfollow
        rw [h.directory l hentry]
        simp only at hfollow ⊢
        split at hfollow
        · rename_i hname
          rw [if_pos hname]
          exact ih hfollow
        · rename_i hname
          rw [if_neg hname]
          split at hfollow
          · cases hfollow
          · rename_i hlength
            rw [if_neg hlength]
            exact ih hfollow

/-- A path that leads somewhere leads there still while nothing is taken away. -/
theorem Keeps.locate (h : t.Keeps t') (hlocate : t.locate cwd p = .ok l) :
    t'.locate cwd p = .ok l := by
  unfold Tree.locate at hlocate ⊢
  simp only at hlocate ⊢
  split at hlocate
  · cases hlocate
  · rename_i hnull
    rw [if_neg hnull]
    split at hlocate
    · cases hlocate
    · rename_i hlength
      rw [if_neg hlength]
      split at hlocate
      · rename_i habsolute
        rw [if_pos habsolute]
        exact h.follow hlocate
      · rename_i habsolute
        rw [if_neg habsolute]
        exact h.follow hlocate

/-- Making one directory puts it where nothing stood. -/
theorem exists_of_makeDirectory (h : t.makeDirectory cwd p = .ok t') :
    ∃ l, t.at? l = none ∧ t' = t.put l .directory := by
  unfold makeDirectory at h
  cases hlocate : t.locate cwd p with
  | error cause =>
    rw [hlocate] at h
    cases h
  | ok l =>
    rw [hlocate] at h
    simp only [bind, Except.bind] at h
    split at h
    · cases h
    · rename_i hnone
      cases h
      exact ⟨l, hnone, rfl⟩

/-- Making a directory takes nothing away. -/
theorem keeps_of_makeDirectory (h : t.makeDirectory cwd p = .ok t') : t.Keeps t' := by
  obtain ⟨l, hnone, rfl⟩ := exists_of_makeDirectory h
  exact keeps_put_directory hnone

/-- Making directories one after another takes nothing away. -/
theorem keeps_makeDirectoriesUpTo (cwd p : Path) (n : Nat) (t : Tree) :
    t.Keeps (makeDirectoriesUpTo cwd p n t).2 :=
  makeDirectoriesUpTo_induction (P := t.Keeps) (C := fun _ => True) (fun _ _ => trivial)
    (fun _ _ _ _ hkeeps hmade => hkeeps.trans (keeps_of_makeDirectory hmade)) trivial n (.refl t)

end Tree

variable {σ : Type} {s s' : Session σ} {p : Path}

/-- A path leads to a file if and only if one stands at its location. -/
theorem Session.isFile_eq_true_iff :
    s.isFile p = .ok true ↔ ∃ l, s.tree.locate s.place.cwd p = .ok l ∧ s.tree.HasFile l := by
  unfold Session.isFile Session.probe Tree.probe Tree.inspect
  cases hlocate : s.tree.locate s.place.cwd p with
  | error cause =>
    simp only [bind, Except.bind, reduceCtorEq, false_and, exists_false, iff_false]
    cases cause <;> exact fun h => by cases h
  | ok l =>
    simp only [bind, Except.bind, Except.ok.injEq, exists_eq_left']
    cases hentry : s.tree.at? l with
    | none =>
      refine ⟨fun h => (by cases h), fun ⟨bytes, stamp, h⟩ => ?_⟩
      rw [hentry] at h
      cases h
    | some e =>
      cases e with
      | directory =>
          exact ⟨fun h => (by cases h), fun h => absurd h (Tree.not_hasFile_of_directory hentry)⟩
      | file bytes stamp => exact ⟨fun _ => ⟨bytes, stamp, hentry⟩, fun _ => rfl⟩

/-- A session has the place of an earlier one, and nothing that stood in its tree is gone. -/
structure Session.KeepsFiles (s s' : Session σ) : Prop where
  /-- The place is the same. -/
  place : s'.place = s.place
  /-- Nothing is gone. -/
  tree : s.tree.Keeps s'.tree

instance : Std.Refl (Session.KeepsFiles : Session σ → Session σ → Prop) where
  refl s := ⟨rfl, .refl s.tree⟩

instance : IsTrans (Session σ) Session.KeepsFiles where
  trans _ _ _ h h' := ⟨h'.place.trans h.place, h.tree.trans h'.tree⟩

/-- A path that leads to a file does so still. -/
theorem Session.KeepsFiles.isFile (h : s.KeepsFiles s') (hfile : s.isFile p = .ok true) :
    s'.isFile p = .ok true := by
  obtain ⟨l, hlocate, hfile⟩ := Session.isFile_eq_true_iff.1 hfile
  refine Session.isFile_eq_true_iff.2 ⟨l, ?_, h.tree.file l hfile⟩
  rw [h.place]
  exact h.tree.locate hlocate

/-- A session has some files besides those of an earlier one, of which none is gone. -/
structure Session.Gains (paths : List Path) (s s' : Session σ) : Prop where
  /-- The place is the same, and nothing is gone. -/
  keeps : s.KeepsFiles s'
  /-- The paths start at a root, never go back up, and lead to files. -/
  files : ∀ p ∈ paths, p.IsGrounded ∧ s'.isFile p = .ok true

/-- A session that keeps its files gains none. -/
theorem Session.KeepsFiles.gains (h : s.KeepsFiles s') : s.Gains [] s' :=
  ⟨h, fun p hp => by cases hp⟩

/-- The files that are gained in two steps are gained. -/
theorem Session.Gains.trans {paths paths' : List Path} {s'' : Session σ} (h : s.Gains paths s')
    (h' : s'.Gains paths' s'') : s.Gains (paths ++ paths') s'' where
  keeps := trans_of KeepsFiles h.keeps h'.keeps
  files p hp := by
    rcases List.mem_append.1 hp with hp | hp
    · obtain ⟨hgrounded, hfile⟩ := h.files p hp
      exact ⟨hgrounded, h'.keeps.isFile hfile⟩
    · exact h'.files p hp

namespace Action

/-- An action takes no file away. -/
abbrev IsKeeping {α : Type} (a : Action σ α) : Prop := a.Within Session.KeepsFiles

/-- What is logged takes no file away. -/
theorem isKeeping_say (level : Log.Level) (speaker : Log.Speaker) (message : String) :
    (say level speaker message : Action σ Unit).IsKeeping := fun s => ⟨rfl, .refl s.tree⟩

/-- Making directories takes no file away. -/
theorem isKeeping_makeDirectories (p : Path) : (makeDirectories p : Action σ Unit).IsKeeping := by
  intro s
  have hkeeps := Tree.keeps_makeDirectoriesUpTo s.place.cwd p p.names.length s.tree
  unfold makeDirectories Tree.makeDirectories
  generalize Tree.makeDirectoriesUpTo s.place.cwd p p.names.length s.tree = result at hkeeps ⊢
  obtain ⟨⟨cause, at'⟩ | u, t⟩ := result
  · exact ⟨rfl, hkeeps⟩
  · exact ⟨rfl, hkeeps⟩

/-- Making sure of a directory takes no file away. -/
theorem isKeeping_ensureDirectory (p : Path) :
    (ensureDirectory p true : Action σ Unit).IsKeeping := by
  refine (Within.observe _).bind fun e? => ?_
  split
  · exact .pure _
  · exact .throw _
  · exact isKeeping_makeDirectories p

/-- A file goes where a path leads and no directory stands. -/
theorem locate_of_fileLocation {l : Location} (h : fileLocation s p = .ok l) :
    s.tree.locate s.place.cwd p = .ok l ∧ s.tree.at? l ≠ some .directory := by
  unfold fileLocation at h
  cases hlocate : s.tree.locate s.place.cwd p with
  | error cause =>
    rw [hlocate] at h
    cases h
  | ok k =>
    rw [hlocate] at h
    simp only [Except.mapError, bind, Except.bind] at h
    split at h
    · cases h
    · rename_i hentry
      cases h
      exact ⟨rfl, hentry⟩

/-- Putting a file takes no other one away. -/
theorem isKeeping_putAt (p : Path) (bytes : ByteArray) :
    (putAt p bytes : Action σ Unit).IsKeeping := by
  intro s
  unfold putAt
  rw [bind_apply, observe_apply]
  cases hlocation : fileLocation s p with
  | error fault => exact refl_of Session.KeepsFiles s
  | ok l => exact ⟨rfl, Tree.keeps_put_file (locate_of_fileLocation hlocation).2 bytes _⟩

/-- Where a file was put the path leads to it. -/
theorem leaves_putAt (p : Path) (bytes : ByteArray) :
    (putAt p bytes : Action σ Unit).Leaves fun _ s => s.isFile p = .ok true := by
  intro s x s' h
  have hkeeps := isKeeping_putAt p bytes s
  rw [h] at hkeeps
  obtain ⟨l, s₁, hlocation, hput⟩ := bind_apply_eq_ok.1 h
  rw [observe_apply] at hlocation
  obtain ⟨hfound, rfl⟩ := Prod.mk.inj hlocation
  obtain ⟨hlocate, hfree⟩ := locate_of_fileLocation hfound
  have hroot : l ≠ [] := fun hl => hfree (by rw [hl, Tree.at_root])
  cases hput
  exact Session.isFile_eq_true_iff.2
    ⟨l, hkeeps.tree.locate hlocate, bytes, _, Tree.at_put_self s.tree _ hroot⟩

/-- Writing a text takes no file away. -/
theorem isKeeping_writeText (p : Path) (text : String) :
    (writeText p text : Action σ Unit).IsKeeping :=
  (isKeeping_makeDirectories _).bind fun _ =>
    replaceAt_within (isKeeping_putAt p (Text.encode text))

/-- A text that is written without a fault is a file. -/
theorem leaves_writeText (p : Path) (text : String) :
    (writeText p text : Action σ Unit).Leaves fun _ s => s.isFile p = .ok true :=
  .bind fun _ => replaceAt_leaves (leaves_putAt p (Text.encode text))

/-- Copying a file takes none away. -/
theorem isKeeping_copyFile (source target : Path) :
    (copyFile source target : Action σ Unit).IsKeeping :=
  copyFile_within (isKeeping_makeDirectories _) fun bytes => isKeeping_putAt target bytes

/-- A file that is copied without a fault stands at the target. -/
theorem leaves_copyFile (source target : Path) :
    (copyFile source target : Action σ Unit).Leaves fun _ s => s.isFile target = .ok true := by
  have hrest : (do
      let bytes ← observe fun s => s.readBytes source
      let l ← observe fun s => fileLocation s target
      putFile l bytes : Action σ Unit).Leaves fun _ s => s.isFile target = .ok true :=
    .bind fun bytes => leaves_putAt target bytes
  refine .bind fun _ => .bind fun s => ?_
  split
  · split
    · split
      · exact .bind fun _ => hrest
      · exact hrest
    · exact hrest
  · exact hrest

end Action

/-- The operations on the file tree that make or write something take no file away. -/
theorem FileStore.isKeeping_onTree : (FileStore.onTree : FileStore σ).Calls Session.KeepsFiles :=
  ⟨Action.isKeeping_writeText, fun p => Action.isKeeping_ensureDirectory p,
    Action.isKeeping_copyFile⟩

/-- Writing an output file takes no file away. -/
theorem Output.isKeeping_write (directory : Path) (filename text : String) :
    (Output.write .onTree directory filename text : Action σ Path).IsKeeping :=
  (Action.Within.observe _).bind fun _ => (Action.isKeeping_ensureDirectory _).bind fun _ =>
    (Action.isKeeping_writeText _ _).bind fun _ =>
      (Action.isKeeping_say _ _ _).bind fun _ => .pure _

/-- An output file that was written is found at its path. -/
theorem Output.isFile_of_write {directory : Path} {filename text : String} {output : Path}
    (h : Output.write .onTree directory filename text s = (.ok output, s')) :
    output = Output.path s.place directory filename ∧ s'.isFile output = .ok true := by
  unfold Output.write at h
  rw [bind_apply, Action.observe_apply] at h
  cases hlocate : Output.locate s.place directory filename with
  | error fault =>
    rw [hlocate] at h
    cases h
  | ok p =>
  rw [hlocate] at h
  rw [Output.path_of_locate hlocate]
  obtain ⟨_, s₁, -, h⟩ := bind_apply_eq_ok.1 h
  obtain ⟨_, s₂, hwrite, h⟩ := bind_apply_eq_ok.1 h
  have hfile : s₂.isFile p = .ok true := Action.leaves_writeText p text s₁ _ s₂ hwrite
  have hsaid := Action.isKeeping_say .debug .output ("Wrote " ++ p.toString) s₂
  rw [bind_apply_ok (Action.say_apply _ _ _ s₂)] at h
  obtain ⟨hanswer, rfl⟩ := Prod.mk.inj h
  cases hanswer
  exact ⟨rfl, hsaid.isFile hfile⟩

end StaticSite
