import StaticSite.Build.Pass
import StaticSite.Proofs.Effect

/-!
# What files cannot change

Whatever an operation on files does, it leaves alone what the session knows of its builds:
`Session.KeepsBook` is the relation between a session and one in which only files, the log and their
likes are different. The store that works on the tree has such operations only
(`FileStore.isFiling_onTree`). With any store of that kind, copying an asset directory and removing
the directory of a stylesheet are such operations too, and neither ends a pass, whichever operations
fail.
-/

namespace StaticSite

variable {σ α : Type}

/-- A session has the place, the phase, the records and the names of an earlier one. -/
structure Session.KeepsBook (s s' : Session σ) : Prop where
  /-- The place is the same. -/
  place : s'.place = s.place
  /-- What the session is doing is the same. -/
  phase : s'.phase = s.phase
  /-- The records are the same. -/
  records : s'.records = s.records
  /-- The names of stylesheets are the same. -/
  names : s'.names = s.names

instance : Std.Refl (Session.KeepsBook : Session σ → Session σ → Prop) where
  refl _ := ⟨rfl, rfl, rfl, rfl⟩

instance : IsTrans (Session σ) Session.KeepsBook where
  trans _ _ _ h h' := ⟨h'.place.trans h.place, h'.phase.trans h.phase, h'.records.trans h.records,
    h'.names.trans h.names⟩

namespace Action

/-- An action leaves alone what the session knows of its builds. -/
abbrev IsFiling (a : Action σ α) : Prop := a.Within Session.KeepsBook

/-- What is logged is not part of what a session knows of its builds. -/
theorem isFiling_say (level : Log.Level) (speaker : Log.Speaker) (message : String) :
    (say level speaker message : Action σ Unit).IsFiling := fun _ => ⟨rfl, rfl, rfl, rfl⟩

/-- Making directories leaves alone what is known of the builds. -/
theorem isFiling_makeDirectories (p : Path) : (makeDirectories p : Action σ Unit).IsFiling := by
  intro s
  unfold makeDirectories
  split <;> exact ⟨rfl, rfl, rfl, rfl⟩

/-- Putting a file at a location leaves alone what is known of the builds. -/
theorem isFiling_putFile (l : Location) (bytes : ByteArray) :
    (putFile l bytes : Action σ Unit).IsFiling :=
  fun _ => ⟨rfl, rfl, rfl, rfl⟩

/-- Writing a text leaves alone what is known of the builds. -/
theorem isFiling_writeText (p : Path) (text : String) :
    (writeText p text : Action σ Unit).IsFiling :=
  (isFiling_makeDirectories _).bind fun _ => (Within.observe _).bind fun _ => isFiling_putFile _ _

/-- Making sure of a directory leaves alone what is known of the builds. -/
theorem isFiling_ensureDirectory (p : Path) (create : Bool) :
    (ensureDirectory p create : Action σ Unit).IsFiling := by
  refine (Within.observe _).bind fun e? => ?_
  split
  · exact .pure _
  · exact .throw _
  · split
    · exact isFiling_makeDirectories p
    · exact .throw _

/-- Removing a directory leaves alone what is known of the builds. -/
theorem isFiling_removeTree (p : Path) : (removeTree p : Action σ Bool).IsFiling := by
  refine Within.get.bind fun s => ?_
  split
  · split
    · exact Within.bind (fun _ => ⟨rfl, rfl, rfl, rfl⟩) fun _ => .pure _
    · exact Within.bind (fun _ => ⟨rfl, rfl, rfl, rfl⟩) fun _ => .pure _
  · exact .pure _

/-- Removing a directory never fails. -/
theorem removeTree_eq_ok (p : Path) (s : Session σ) : ∃ x s', removeTree p s = (.ok x, s') := by
  unfold removeTree
  rw [bind_apply_ok (get_apply s)]
  cases s.inspect p with
  | error fault => exact ⟨_, _, rfl⟩
  | ok found =>
    obtain ⟨l, e⟩ := found
    cases e with
    | file bytes stamp => exact ⟨_, _, rfl⟩
    | directory =>
      -- A root is emptied instead.
      by_cases h : p.names.isEmpty = true
      · simp only [h, if_true]
        exact ⟨_, _, rfl⟩
      · simp only [h, Bool.false_eq_true, if_false]
        exact ⟨_, _, rfl⟩

/-- Puts a file where a path leads. -/
def putAt (p : Path) (bytes : ByteArray) : Action σ Unit := do
  let l ← observe fun s => fileLocation s p
  putFile l bytes

/-- Puts a file where a path leads, by a temporary file that takes the place of what stands
there. -/
def replaceAt (p : Path) (bytes : ByteArray) : Action σ Unit := do
  let l ← observe fun s => (fileLocation s p).mapError Fault.ofReplacing
  putFile l bytes

/-- Only the fault tells whether a file was put where a path leads or took the place of what stands
there. -/
theorem replaceAt_apply (p : Path) (bytes : ByteArray) (s : Session σ) :
    replaceAt p bytes s =
      ((putAt p bytes s).1.mapError Fault.ofReplacing, (putAt p bytes s).2) := by
  unfold replaceAt putAt
  rw [bind_apply, bind_apply, observe_apply, observe_apply]
  cases fileLocation s p <;> rfl

/-- Replacing a file changes a session as putting it does, only the fault is another. -/
theorem replaceAt_within {R : Session σ → Session σ → Prop} {p : Path} {bytes : ByteArray}
    (hput : (putAt p bytes : Action σ Unit).Within R) :
    (replaceAt p bytes : Action σ Unit).Within R := by
  intro s
  rw [replaceAt_apply]
  exact hput s

/-- Replacing a file leaves a session as putting it does, if it answers. -/
theorem replaceAt_leaves {Q : Unit → Session σ → Prop} {p : Path} {bytes : ByteArray}
    (hput : (putAt p bytes : Action σ Unit).Leaves Q) :
    (replaceAt p bytes : Action σ Unit).Leaves Q := by
  intro s x s' h
  rw [replaceAt_apply] at h
  refine hput s x s' ?_
  rcases hresult : putAt p bytes s with ⟨fault | y, s₁⟩
  · rw [hresult] at h
    cases h
  · rw [hresult] at h
    exact h

/-- Copies the bytes of a file to where a path leads, once the directory of the copy is made. -/
def copyTo (source target : Path) : Action σ Unit := do
  let s ← get
  if let .ok (a, _) := s.inspect source then
    if let .ok (b, _) := s.inspect target then
      if a = b then throw (.sameFile source target)
  let bytes ← observe fun s => s.readBytes source
  putAt target bytes

/-- A file is copied by making the directories above its copy and copying its bytes. -/
theorem copyFile_eq_bind (source target : Path) :
    (copyFile source target : Action σ Unit) = makeDirectories target.parent >>= fun _ =>
    copyTo source target := rfl

/-- Copying bytes changes a session only as putting them does. -/
theorem copyTo_within {R : Session σ → Session σ → Prop} [Std.Refl R] [IsTrans (Session σ) R]
    {source target : Path} (hput : ∀ bytes, (putAt target bytes : Action σ Unit).Within R) :
    (copyTo source target : Action σ Unit).Within R := by
  have hrest : (do
      let bytes ← observe fun s => s.readBytes source
      putAt target bytes : Action σ Unit).Within R :=
    (Within.observe _).bind fun bytes => hput bytes
  refine Within.get.bind fun s => ?_
  -- Copying a file onto itself is refused; every other case goes on with the rest.
  split
  · split
    · split
      · exact Within.bind (.throw _) fun _ => hrest
      · exact hrest
    · exact hrest
  · exact hrest

/-- Copying a file does to a session what making the directory and putting the copy there does. -/
theorem copyFile_within {R : Session σ → Session σ → Prop} [Std.Refl R] [IsTrans (Session σ) R]
    {source target : Path} (hmake : (makeDirectories target.parent : Action σ Unit).Within R)
    (hput : ∀ bytes, (putAt target bytes : Action σ Unit).Within R) :
    (copyFile source target : Action σ Unit).Within R := by
  rw [copyFile_eq_bind]
  exact hmake.bind fun _ => copyTo_within hput

/-- Copying a file leaves alone what is known of the builds. -/
theorem isFiling_copyFile (source target : Path) :
    (copyFile source target : Action σ Unit).IsFiling :=
  copyFile_within (isFiling_makeDirectories _) fun bytes => (Within.observe _).bind fun _ =>
    isFiling_putFile _ bytes

end Action

/-- No operation of a store touches what the session knows of its builds, and removing a directory
never fails. -/
structure FileStore.IsFiling (store : FileStore σ) : Prop where
  /-- Writing a text leaves it alone. -/
  writeText : ∀ p text, (store.writeText p text).IsFiling
  /-- Making a directory does. -/
  ensureDirectory : ∀ p, (store.ensureDirectory p).IsFiling
  /-- Removing a directory does. -/
  removeDirectory : ∀ p, (store.removeDirectory p).IsFiling
  /-- Removing a directory ends with no fault. -/
  removes : ∀ p s, ∃ s', store.removeDirectory p s = (.ok ⟨⟩, s')
  /-- Copying a file leaves it alone. -/
  copyFile : ∀ source target, (store.copyFile source target).IsFiling

/-- The operations on the file tree leave alone what is known of the builds. -/
theorem FileStore.isFiling_onTree : (FileStore.onTree : FileStore σ).IsFiling where
  writeText := Action.isFiling_writeText
  ensureDirectory p := Action.isFiling_ensureDirectory p true
  removeDirectory p := by
    refine (Action.isFiling_removeTree p).bind fun isRemoved => ?_
    cases isRemoved with
    | false => exact Action.isFiling_say _ _ _
    | true => exact .pure _
  removes p s := by
    obtain ⟨isRemoved, s', h⟩ := Action.removeTree_eq_ok p s
    simp only [onTree]
    rw [bind_apply_ok h]
    cases isRemoved <;> exact ⟨_, rfl⟩
  copyFile := Action.isFiling_copyFile

/-- Every operation of a store that makes or writes something changes a session only in a way that
`R` allows. -/
structure FileStore.Calls (R : Session σ → Session σ → Prop) (store : FileStore σ) : Prop where
  /-- Writing a text does. -/
  writeText : ∀ p text, (store.writeText p text).Within R
  /-- Making a directory does. -/
  ensureDirectory : ∀ p, (store.ensureDirectory p).Within R
  /-- Copying a file does. -/
  copyFile : ∀ source target, (store.copyFile source target).Within R

/-- What a store makes or writes leaves alone what is known of the builds, if all its operations do.
-/
theorem FileStore.IsFiling.calls {store : FileStore σ} (h : store.IsFiling) :
    store.Calls Session.KeepsBook :=
  ⟨h.writeText, h.ensureDirectory, h.copyFile⟩

namespace Assets

variable {store : FileStore σ} {R : Session σ → Session σ → Prop} [Std.Refl R]
    [IsTrans (Session σ) R]

/-- Copying a file changes a session only as the operations of the store do. -/
theorem copyFile_within (hstore : store.Calls R) (optimized : Bool) (source target : Path) :
    (copyFile store optimized source target).Within R := by
  unfold copyFile
  split
  · exact (Action.Within.observe _).bind fun _ => (Action.Within.observe _).bind fun _ =>
      hstore.writeText _ _
  · exact hstore.copyFile _ _

/-- On the file tree copying a file does to a session what making the directory and putting the copy
there does. -/
theorem copyFile_onTree_within {optimized : Bool} {source target : Path}
    (hmake : (Action.makeDirectories target.parent : Action σ Unit).Within R)
    (hput : ∀ bytes, (Action.putAt target bytes : Action σ Unit).Within R) :
    (copyFile .onTree optimized source target : Action σ Unit).Within R := by
  unfold copyFile
  split
  · exact (Action.Within.observe _).bind fun _ => (Action.Within.observe _).bind fun text =>
      hmake.bind fun _ => Action.replaceAt_within (hput (Text.encode text))
  · exact Action.copyFile_within hmake hput

/-- Trying to copy a file changes no more than copying it does and the log. -/
theorem tryFile_within_of_copyFile (hlog : ∀ s log, R s { s with log }) {optimized : Bool}
    {source target : Path} (hcopy : (copyFile store optimized source target).Within R) :
    (tryFile store optimized source target).Within R := by
  refine hcopy.attempt.bind fun x => ?_
  split
  · exact .pure _
  · split
    · exact Action.Within.bind (fun s => hlog s _) fun _ => .pure _
    · exact .throw _

/-- Trying to copy a file changes a session only as the operations of the store do, and logs. -/
theorem tryFile_within (hstore : store.Calls R) (hlog : ∀ s log, R s { s with log })
    (optimized : Bool) (source target : Path) : (tryFile store optimized source target).Within R :=
  tryFile_within_of_copyFile hlog (copyFile_within hstore optimized source target)

/-- Copies one entry of a directory, with `inner` if it is a directory and with `file` if it is
not. -/
def copyEntryBy (store : FileStore σ) (file : Path → Path → Action σ Copied)
    (inner : String → Action σ Copied) (source target : Path) (name : String) :
    Action σ Copied := do
  let isDirectory ← Action.observe fun s => store.isDirectory s (source.child name)
  if isDirectory then inner name else file (source.child name) (target.child name)

/-- The entries of a directory are copied one after another, from the first. -/
theorem copyEntries_cons (store : FileStore σ) (optimized : Bool) (inner : String → Action σ Copied)
    (source target : Path) (name : String) (rest : List String) :
    copyEntries store optimized inner source target (name :: rest) = (do
      let first ← copyEntryBy store (tryFile store optimized) inner source target name
      return first.append (← copyEntries store optimized inner source target rest)) := by
  funext s
  rw [copyEntries, copyEntryBy, bind_apply, bind_apply, bind_apply, Action.observe_apply]
  cases store.isDirectory s (source.child name) with
  | error fault => rfl
  | ok isDirectory => cases isDirectory <;> exact bind_apply _ _ s

/-- Copying an entry changes a session only as copying a directory and copying a file do. -/
theorem copyEntryBy_within {file : Path → Path → Action σ Copied} {inner : String → Action σ Copied}
    {source target : Path} {name : String} (hinner : (inner name).Within R)
    (hfile : (file (source.child name) (target.child name)).Within R) :
    (copyEntryBy store file inner source target name).Within R := by
  refine (Action.Within.observe _).bind fun isDirectory => ?_
  split
  · exact hinner
  · exact hfile

/-- Copying entries changes no more than copying each of them does. -/
theorem copyEntries_within_of_mem {optimized : Bool} {inner : String → Action σ Copied}
    {source target : Path} {names : List String} (hinner : ∀ name ∈ names, (inner name).Within R)
    (hfiles : ∀ name ∈ names,
      (tryFile store optimized (source.child name) (target.child name)).Within R) :
    (copyEntries store optimized inner source target names).Within R := by
  induction names with
  | nil => exact .pure _
  | cons name rest ih =>
    obtain ⟨hfirst, hinner⟩ := List.forall_mem_cons.1 hinner
    obtain ⟨hfile, hfiles⟩ := List.forall_mem_cons.1 hfiles
    rw [copyEntries_cons]
    exact (copyEntryBy_within hfirst hfile).bind fun _ => (ih hinner hfiles).bind fun _ => .pure _

/-- Copying the entries of a directory changes a session only as copying each of them does. -/
theorem copyEntries_within (hstore : store.Calls R) (hlog : ∀ s log, R s { s with log })
    (optimized : Bool) {inner : String → Action σ Copied} (hinner : ∀ name, (inner name).Within R)
    (source target : Path) (names : List String) :
    (copyEntries store optimized inner source target names).Within R :=
  copyEntries_within_of_mem (fun name _ => hinner name) fun _ _ =>
    tryFile_within hstore hlog optimized _ _

/-- Copying a directory changes a session only as the operations of the store do, and logs. -/
theorem copyTree_within (hstore : store.Calls R) (hlog : ∀ s log, R s { s with log })
    (optimized : Bool) (depth : Nat) (source target : Path) :
    (copyTree store optimized depth source target).Within R := by
  -- The induction is on the depth that is left, for which `copyEntries_within` takes the
  -- directories inside.
  induction depth generalizing source target with
  | zero => exact .throw _
  | succ depth ih =>
    refine (hstore.ensureDirectory _).bind fun _ => (Action.Within.observe _).bind fun names => ?_
    exact copyEntries_within hstore hlog optimized (fun name => ih _ _) source target names

/-- Copying an asset directory changes no more than what the operations of the store do and the
log. -/
theorem copy_within (hstore : store.Calls R) (hlog : ∀ s log, R s { s with log }) (directory : Path)
    (optimized : Bool) (a : AssetDirectory) : (copy store directory optimized a).Within R := by
  refine (Action.Within.observe _).bind fun target =>
    (copyTree_within hstore hlog _ _ _ _).bind fun copied => ?_
  exact Action.Within.bind (fun s => hlog s _) fun _ => .pure _

/-! ### Copying by any action on files -/

/-- Copies some of the entries of a directory. -/
def copyEntriesBy (store : FileStore σ) (file : Path → Path → Action σ Copied)
    (inner : String → Action σ Copied) (source target : Path) : List String → Action σ Copied
  | [] => return .none
  | name :: rest => do
    let first ← copyEntryBy store file inner source target name
    return first.append (← copyEntriesBy store file inner source target rest)

/-- Copies a directory with all in it as `copyTree` does, with `file` for each file. -/
def copyTreeBy (store : FileStore σ) (file : Path → Path → Action σ Copied) : (depth : Nat) →
    (source target : Path) → Action σ Copied
  | 0, _, target => throw (.tree .tooLong target)
  | depth + 1, source, target => do
    store.ensureDirectory target
    let names ← Action.observe fun s => store.names s source
    copyEntriesBy store file
      (fun name => copyTreeBy store file depth (source.child name) (target.child name))
        source target names

/-- The entries of a directory are copied with the way of the store of trying a file. -/
theorem copyEntries_eq_copyEntriesBy (store : FileStore σ) (optimized : Bool)
    (inner : String → Action σ Copied) (source target : Path) (names : List String) :
    copyEntries store optimized inner source target names =
      copyEntriesBy store (tryFile store optimized) inner source target names := by
  induction names with
  | nil => rfl
  | cons name rest ih => rw [copyEntries_cons, copyEntriesBy, ih]

/-- The copy of a directory goes on with its entries once the directory of the target is there. -/
theorem copyTree_succ_apply (optimized : Bool) (depth : Nat) (source target : Path)
    (s : Session σ) :
    copyTree .onTree optimized (depth + 1) source target s =
      match Action.ensureDirectory target true s with
      | (.error fault, s₁) => (.error fault, s₁)
      | (.ok _, s₁) =>
        match s₁.names? source with
        | .error fault => (.error fault, s₁)
        | .ok names => copyEntries .onTree optimized
            (fun name => copyTree .onTree optimized depth (source.child name) (target.child name))
              source target names s₁ := by
  have hensure : (FileStore.onTree : FileStore σ).ensureDirectory target =
    Action.ensureDirectory target true := rfl
  have hnames (s : Session σ) : FileStore.onTree.names s source = s.names? source := rfl
  rw [copyTree, hensure, bind_apply]
  rcases Action.ensureDirectory target true s with ⟨fault | u, s₁⟩
  · rfl
  · dsimp only
    rw [bind_apply, Action.observe_apply, hnames]
    cases s₁.names? source <;> rfl

/-- A directory is copied by the attempt to copy each file. -/
theorem copyTree_eq_copyTreeBy (store : FileStore σ) (optimized : Bool) (depth : Nat)
    (source target : Path) :
    copyTree store optimized depth source target = copyTreeBy store (tryFile store optimized) depth
      source target := by
  induction depth generalizing source target with
  | zero => rfl
  | succ depth ih =>
    unfold copyTree copyTreeBy
    simp only [ih, copyEntries_eq_copyEntriesBy]

end Assets

/-- Two stores read the same in sessions of one place that `R` relates, and what they make or write
runs in parallel. -/
structure FileStore.Parallel (R : Session σ → Session σ → Prop)
    (store store' : FileStore σ) : Prop where
  /-- The place is the same. -/
  place : ∀ s s', R s s' → s'.place = s.place
  /-- So are texts. -/
  readText : ∀ p s s', R s s' → store'.readText s' p = store.readText s p
  /-- Directories are the same. -/
  isDirectory : ∀ p s s', R s s' → store'.isDirectory s' p = store.isDirectory s p
  /-- So are the names in them. -/
  names : ∀ p s s', R s s' → store'.names s' p = store.names s p
  /-- Writing a text runs in parallel. -/
  writeText : ∀ p text, Action.Parallel R (store.writeText p text) (store'.writeText p text)
  /-- Making a directory does. -/
  ensureDirectory : ∀ p, Action.Parallel R (store.ensureDirectory p) (store'.ensureDirectory p)
  /-- Copying a file does. -/
  copyFile : ∀ source target, Action.Parallel R (store.copyFile source target)
    (store'.copyFile source target)

namespace Assets

open StaticSite.Action (Parallel)

variable {R : Session σ → Session σ → Prop} {store store' : FileStore σ}

/-- A file is copied alike by stores that run in parallel. -/
theorem parallel_copyFile (hstore : store.Parallel R store') (optimized : Bool)
    (source target : Path) :
    Parallel R (copyFile store optimized source target)
      (copyFile store' optimized source target) := by
  unfold copyFile
  split
  · exact (Parallel.observe (hstore.readText source)).bind fun _ =>
      (Parallel.observe fun s s' h => by rw [hstore.place s s' h]).bind fun _ =>
        hstore.writeText _ _
  · exact hstore.copyFile _ _

/-- A file is tried alike by stores that run in parallel. -/
theorem parallel_tryFile (hstore : store.Parallel R store') (hsay : ∀ level speaker message,
    (Action.say level speaker message : Action σ Unit).Alike R) (optimized :
      Bool) (source target : Path) :
    Parallel R (tryFile store optimized source target)
      (tryFile store' optimized source target) := by
  refine (parallel_copyFile hstore optimized source target).attempt.bind fun x =>
    Action.Alike.parallel ?_
  split
  · exact .pure _
  · split
    · exact (hsay _ _ _).bind fun _ => .pure _
    · exact .throw _

/-- Copies by file actions that run in parallel do. -/
theorem parallel_copyEntriesBy (hstore : store.Parallel R store')
    {file file' : Path → Path → Action σ Copied}
    (hfile : ∀ source target, Parallel R (file source target) (file' source target))
    {inner inner' : String → Action σ Copied}
    (hinner : ∀ name, Parallel R (inner name) (inner' name)) (source target : Path)
    (names : List String) :
    Parallel R (copyEntriesBy store file inner source target names)
      (copyEntriesBy store' file' inner' source target names) := by
  induction names with
  | nil => exact (Action.Alike.pure _).parallel
  | cons name rest ih =>
    have hentry : Parallel R (copyEntryBy store file inner source target name)
        (copyEntryBy store' file' inner' source target name) := by
      refine (Parallel.observe (hstore.isDirectory (source.child name))).bind fun isDirectory => ?_
      split
      · exact hinner name
      · exact hfile _ _
    exact hentry.bind fun _ => ih.bind fun _ => (Action.Alike.pure _).parallel

/-- Two stores that read and write in parallel copy a directory in parallel, by file actions that
run in parallel. -/
theorem parallel_copyTreeBy (hstore : store.Parallel R store')
    {file file' : Path → Path → Action σ Copied}
    (hfile : ∀ source target, Parallel R (file source target) (file' source target)) (depth : Nat)
    (source target : Path) :
    Parallel R (copyTreeBy store file depth source target)
      (copyTreeBy store' file' depth source target) := by
  induction depth generalizing source target with
  | zero => exact (Action.Alike.throw _).parallel
  | succ depth ih =>
    refine (hstore.ensureDirectory target).bind fun _ =>
      (Parallel.observe (hstore.names source)).bind fun names => ?_
    exact parallel_copyEntriesBy hstore hfile (fun name => ih _ _) source target names

/-- Two stores that read and write in parallel copy a directory in parallel. -/
theorem parallel_copyTree (hstore : store.Parallel R store') (hsay : ∀ level speaker message,
    (Action.say level speaker message : Action σ Unit).Alike R) (optimized : Bool) (depth :
      Nat) (source target : Path) :
    Parallel R (copyTree store optimized depth source target)
      (copyTree store' optimized depth source target) := by
  rw [copyTree_eq_copyTreeBy, copyTree_eq_copyTreeBy]
  exact parallel_copyTreeBy hstore (parallel_tryFile hstore hsay optimized) depth source target

end Assets

namespace Builder

variable {b : Builder σ}

/-- Copying an asset directory ends with a report, whatever goes wrong. -/
theorem copyAssets_spec (hstore : b.parts.store.IsFiling) (r : Report) (a : AssetDirectory)
    (s : Session σ) :
    ∃ r' s', b.copyAssets r a s = (.ok r', s') ∧ s.KeepsBook s' := by
  have hbook := Assets.copy_within hstore.calls (fun _ _ => ⟨rfl, rfl, rfl, rfl⟩) b.settings.output
    b.settings.isOptimized a s
  unfold copyAssets
  rw [bind_apply_ok (Action.attempt_apply _ s)]
  generalize Assets.copy b.parts.store b.settings.output b.settings.isOptimized a s =
    result at hbook ⊢
  obtain ⟨x, s'⟩ := result
  cases x with
  | error fault => exact ⟨_, _, rfl, hbook.place, hbook.phase, hbook.records, hbook.names⟩
  | ok copied => exact ⟨_, _, rfl, hbook⟩

/-- Removing the directory of a stylesheet never fails. -/
theorem clean_spec {store : FileStore σ} (hstore : store.IsFiling) (directory : Path)
    (style : Stylesheet) (s : Session σ) :
    ∃ p s', Style.clean store directory style s = (.ok p, s') ∧ s.KeepsBook s' := by
  obtain ⟨s', h⟩ := hstore.removes (Output.path s.place directory style.filename).parent s
  have hbook := hstore.removeDirectory (Output.path s.place directory style.filename).parent s
  rw [h] at hbook
  unfold Style.clean
  rw [bind_apply_ok (get_apply s), bind_apply_ok h]
  exact ⟨_, _, rfl, hbook.place, hbook.phase, hbook.records, hbook.names⟩

end Builder

end StaticSite
