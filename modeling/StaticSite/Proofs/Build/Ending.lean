import StaticSite.Proofs.Build.Descent
import StaticSite.Proofs.Build.Reentry

/-!
# Whether copying a directory ends

What a copy of a directory does is seen by one that notes each file before it is copied and each
file before it is written, and is the same but for that (`Assets.copyNoting`). Below each entry of a
directory other files are noted than below the others, since no name is listed twice; so no file is
copied twice and none is written twice, however deep the copy goes and wherever it stops
(`Assets.tallies_copyNoting`). Together with how deep it goes this says when a copy ends
(`Assets.copyTree_ends`): if the target does not lie below the source it does so by itself, and
otherwise there is no depth in which it gives an answer.
-/

namespace StaticSite

variable {α β : Type}

/-! ## Noting what is copied and written -/

/-- What is noted of a copy. -/
structure Assets.Notes where
  /-- The files that were to be copied. -/
  copied : List Path
  /-- The files that were to be written. -/
  written : List Path
deriving DecidableEq

/-- What is noted of the files below two directories, some of which were to be written. -/
def Assets.Notes.add (notes : Notes) (source target : Path)
    (rels made : List (List String)) : Notes :=
  ⟨notes.copied ++ rels.map source.descend, notes.written ++ made.map target.descend⟩

namespace Action

/-- Notes something. -/
def note (f : Assets.Notes → Assets.Notes) : Action Assets.Notes Unit :=
  modify fun s => { s with memory := f s.memory }

/-- Notes a file that is to be copied. -/
def noteCopied (p : Path) : Action Assets.Notes Unit :=
  note fun notes => { notes with copied := notes.copied ++ [p] }

/-- Notes a file that is to be written. -/
def noteWritten (p : Path) : Action Assets.Notes Unit :=
  note fun notes => { notes with written := notes.written ++ [p] }

end Action

/-- The store that works on the file tree of the session and notes each file before it writes it. -/
def FileStore.noting : FileStore Assets.Notes where
  readText := FileStore.onTree.readText
  isDirectory := FileStore.onTree.isDirectory
  names := FileStore.onTree.names
  writeText p text := do
    Action.noteWritten p
    FileStore.onTree.writeText p text
  ensureDirectory := FileStore.onTree.ensureDirectory
  removeDirectory := FileStore.onTree.removeDirectory
  copyFile source target := do
    Action.noteWritten target
    FileStore.onTree.copyFile source target

namespace Assets

/-- Copies a file, or reports that it cannot be copied, once it is noted. -/
def tryNoting (optimized : Bool) (source target : Path) : Action Notes Copied := do
  Action.noteCopied source
  tryFile .noting optimized source target

/-- Copies a directory with all in it, and notes each file before it is copied and each before it is
written. -/
def copyNoting (optimized : Bool) (depth : Nat) (source target : Path) : Action Notes Copied :=
  copyTreeBy .noting (tryNoting optimized) depth source target

end Assets

section Noting

open Session (Beside)

variable {phase : Phase} {notes : Assets.Notes}

/-- An action goes on alike after something was noted on one side. -/
theorem Action.Parallel.noting {M : Assets.Notes → Assets.Notes → Prop}
    {a a' : Action Assets.Notes α} (ha : Parallel (Beside phase M) a a')
    {f : Assets.Notes → Assets.Notes} (hM : ∀ m m', M m m' → M m (f m')) :
    Parallel (Beside phase M) a (do note f; a') := by
  rintro s s' ⟨hphase, hmemories, hsame⟩
  have hnoted : Beside phase M s { s' with memory := f s'.memory } :=
    ⟨hphase, hM _ _ hmemories, by rw [hsame]⟩
  exact ha s _ hnoted

/-- Noting makes no difference to what is done. -/
theorem FileStore.parallel_noting :
    FileStore.Parallel (Beside phase fun m _ => m = notes) FileStore.onTree FileStore.noting where
  place := FileStore.parallel_onTree.place
  readText := FileStore.parallel_onTree.readText
  isDirectory := FileStore.parallel_onTree.isDirectory
  names := FileStore.parallel_onTree.names
  writeText p text := (Action.alike_writeText p text).parallel.noting fun _ _ h => h
  ensureDirectory := FileStore.parallel_onTree.ensureDirectory
  copyFile source target := (Action.alike_copyFile source target).parallel.noting fun _ _ h => h

/-- A copy that notes what it comes to is that copy. -/
theorem Assets.parallel_copyNoting (optimized : Bool) (depth : Nat) (source target : Path) :
    Action.Parallel (Beside phase fun m _ => m = notes)
      (copyTree .onTree optimized depth source target)
        (copyNoting optimized depth source target) := by
  rw [copyTree_eq_copyTreeBy]
  exact parallel_copyTreeBy FileStore.parallel_noting (fun source target =>
    (parallel_tryFile FileStore.parallel_noting Action.alike_say optimized source target).noting
      fun _ _ h => h) depth source
    target

end Noting

/-! ## No file is noted twice -/

/-- Nothing was noted, and if there was one entry for each location then there still is. -/
structure Session.Mute (s s' : Session Assets.Notes) : Prop where
  /-- What was noted before is all that is noted. -/
  memory : s'.memory = s.memory
  /-- There is one entry for each location. -/
  once : s.tree.IsOnce → s'.tree.IsOnce

instance : Std.Refl Session.Mute where
  refl _ := ⟨rfl, id⟩

instance : IsTrans (Session Assets.Notes) Session.Mute where
  trans _ _ _ h h' := ⟨h'.memory.trans h.memory, h'.once ∘ h.once⟩

/-- The names in a directory that is listed are listed once each. -/
theorem Session.nodup_of_names? {σ : Type} {s : Session σ} {p : Path} {names : List String}
    (hs : s.tree.IsOnce) (h : s.names? p = .ok names) : names.Nodup := by
  obtain ⟨l, -, rfl⟩ := Session.exists_opens_of_names? h
  exact hs.nodup_names l

namespace Action

/-- Making directories notes nothing. -/
theorem mute_makeDirectories (p : Path) :
    (makeDirectories p : Action Assets.Notes Unit).Within Session.Mute := by
  intro s
  have honce (hs : s.tree.IsOnce) : (s.tree.makeDirectories s.place.cwd p).2.IsOnce :=
    Tree.makeDirectoriesUpTo_induction (P := Tree.IsOnce) (C := fun _ => True) (fun _ _ => trivial)
      (fun _ _ _ _ ht hmade => by
        obtain ⟨l, -, rfl⟩ := Tree.exists_of_makeDirectory hmade
        exact ht.put l _) trivial _ hs
  unfold makeDirectories
  generalize s.tree.makeDirectories s.place.cwd p = result at honce
  obtain ⟨⟨cause, q⟩ | u, t⟩ := result <;> exact ⟨rfl, honce⟩

/-- Putting a file notes nothing. -/
theorem mute_putAt (p : Path) (bytes : ByteArray) :
    (putAt p bytes : Action Assets.Notes Unit).Within Session.Mute :=
  (Within.observe _).bind fun l _ => ⟨rfl, fun hs => hs.put l _⟩

/-- Making sure of a directory notes nothing. -/
theorem mute_ensureDirectory (p : Path) (create : Bool) :
    (ensureDirectory p create : Action Assets.Notes Unit).Within Session.Mute := by
  refine (Within.observe _).bind fun e? => ?_
  split
  · exact .pure _
  · exact .throw _
  · split
    · exact mute_makeDirectories p
    · exact .throw _

/-- Writing a text notes nothing. -/
theorem mute_writeText (p : Path) (text : String) :
    (writeText p text : Action Assets.Notes Unit).Within Session.Mute :=
  (mute_makeDirectories _).bind fun _ => replaceAt_within (mute_putAt p (Text.encode text))

/-- Copying a file in the tree notes nothing by itself. -/
theorem mute_copyFile (source target : Path) :
    (copyFile source target : Action Assets.Notes Unit).Within Session.Mute :=
  copyFile_within (mute_makeDirectories _) (mute_putAt target)

end Action

/-- An action notes that some of what lies below a path is copied, each under names of which the
first is one of `firsts`, and nothing twice, as long as there is one entry for each location. It
notes that some of it is written below another path, under the same names. -/
def Action.Tallies (source target : Path) (firsts : Set String)
    (a : Action Assets.Notes α) : Prop :=
  ∀ s, s.tree.IsOnce → (a s).2.tree.IsOnce ∧ ∃ rels made : List (List String), rels.Nodup ∧
    made.Sublist rels ∧
    (∀ rel ∈ rels, ∃ first ∈ firsts, [first] <+: rel) ∧
      (a s).2.memory = s.memory.add source target rels made

namespace Action

variable {source target : Path} {firsts others : Set String} {name : String}

/-- An action that notes nothing tallies no name. -/
theorem Within.tallies {a : Action Assets.Notes α} (ha : a.Within Session.Mute)
    (source target : Path) :
    a.Tallies source target ∅ :=
  fun s hs => ⟨(ha s).once hs, [], [], List.nodup_nil, .refl _, List.forall_mem_nil _, by
    rw [(ha s).memory]
    simp [Assets.Notes.add]⟩

/-- An action tallies under more first names than it needs. -/
theorem Tallies.mono {a : Action Assets.Notes α} (ha : a.Tallies source target firsts)
    (h : firsts ⊆ others) :
    a.Tallies source target others := by
  intro s hs
  obtain ⟨honce, rels, made, hnodup, hmade, hfirsts, hmemory⟩ := ha s hs
  exact ⟨honce, rels, made, hnodup, hmade,
    fun rel hrel => (hfirsts rel hrel).imp fun _ hfirst => ⟨h hfirst.1, hfirst.2⟩, hmemory⟩

/-- Two steps that note what lies below other names note nothing twice. -/
theorem Tallies.bind {a : Action Assets.Notes α} {f : α → Action Assets.Notes β}
    (ha : a.Tallies source target firsts) (hf : ∀ x, (f x).Tallies source target others)
    (hapart : ∀ n ∈ firsts, n ∉ others) : (a >>= f).Tallies source target (firsts ∪ others) := by
  intro s hs
  obtain ⟨honce, rels, made, hnodup, hmade, hfirsts, hmemory⟩ := ha s hs
  rw [bind_apply]
  generalize a s = result at honce hmemory
  obtain ⟨fault | x, s₁⟩ := result
  · exact ⟨honce, rels, made, hnodup, hmade,
      fun rel hrel => (hfirsts rel hrel).imp fun _ h => ⟨.inl h.1, h.2⟩, hmemory⟩
  · obtain ⟨honce', rels', made', hnodup', hmade', hothers, hmemory'⟩ := hf x s₁ honce
    refine ⟨honce', rels ++ rels', made ++ made',
      List.nodup_append'.2 ⟨hnodup, hnodup', fun rel hrel hrel' => ?_⟩, hmade.append hmade',
      fun rel hrel => ?_, ?_⟩
    · -- What both noted would begin with a name of each.
      obtain ⟨first, hfirst, rest, rfl⟩ := hfirsts rel hrel
      obtain ⟨other, hother, hpre⟩ := hothers _ hrel'
      obtain rfl := (List.cons_prefix_cons.1 hpre).1
      exact hapart other hfirst hother
    · rcases List.mem_append.1 hrel with hrel | hrel
      · exact (hfirsts rel hrel).imp fun _ h => ⟨.inl h.1, h.2⟩
      · exact (hothers rel hrel).imp fun _ h => ⟨.inr h.1, h.2⟩
    · rw [hmemory', hmemory]
      simp [Assets.Notes.add]

/-- A step that notes nothing adds nothing to what is noted after it. -/
theorem Within.bind_tallies {a : Action Assets.Notes α} {f : α → Action Assets.Notes β}
    (ha : a.Within Session.Mute) (hf : ∀ x, (f x).Tallies source target firsts) :
    (a >>= f).Tallies source target firsts := by
  have h := (ha.tallies source target).bind hf fun _ hn => hn.elim
  rwa [Set.empty_union] at h

/-- Neither does one that comes after. -/
theorem Tallies.bind_within {a : Action Assets.Notes α} {f : α → Action Assets.Notes β}
    (ha : a.Tallies source target firsts) (hf : ∀ x, (f x).Within Session.Mute) :
    (a >>= f).Tallies source target firsts := by
  have h := ha.bind (fun x => (hf x).tallies source target) fun _ _ => id
  rwa [Set.union_empty] at h

/-- What lies below an entry lies below the directory, under a name more. -/
theorem Tallies.child {a : Action Assets.Notes α}
    (ha : a.Tallies (source.child name) (target.child name) Set.univ) :
    a.Tallies source target {name} := by
  intro s hs
  obtain ⟨honce, rels, made, hnodup, hmade, -, hmemory⟩ := ha s hs
  refine ⟨honce, rels.map (name :: ·), made.map (name :: ·), hnodup.map (List.cons_injective),
    hmade.map _, fun rel hrel => ?_, ?_⟩
  · obtain ⟨rest, -, rfl⟩ := List.mem_map.1 hrel
    exact ⟨name, rfl, rest, rfl⟩
  · have hdescend (p : Path) (rels : List (List String)) :
        rels.map (p.child name).descend = (rels.map (name :: ·)).map p.descend := by
      rw [List.map_map]
      exact List.map_congr_left fun rel _ => by simp [Path.child, Path.descend]
    rw [hmemory, Assets.Notes.add, Assets.Notes.add, hdescend, hdescend]

end Action

namespace Assets

open StaticSite.Action (Tallies)

variable {s : Session Notes} {name : String}

/-- An action notes at most that one file is written. -/
def Writes (p : Path) (a : Action Notes α) : Prop :=
  ∀ s, s.tree.IsOnce → (a s).2.tree.IsOnce ∧ ∃ made : List Path, made.Sublist [p] ∧
    (a s).2.memory = { s.memory with written := s.memory.written ++ made }

/-- A file is written once it is noted. -/
theorem writes_noted {p : Path} {a : Action Notes α} (ha : a.Within Session.Mute) :
    Writes p (do Action.noteWritten p; a) := fun s hs =>
  have hmute := ha { s with memory := { s.memory with written := s.memory.written ++ [p] } }
  ⟨hmute.once hs, [p], .refl _, hmute.memory⟩

/-- Copying a file notes that this file is written, and no other. -/
theorem writes_copyFile (optimized : Bool) (source target : Path) :
    Writes target (copyFile .noting optimized source target) := by
  have hnothing : ∀ s : Session Notes, s.tree.IsOnce → s.tree.IsOnce ∧
    ∃ made : List Path, made.Sublist [target] ∧
      s.memory = { s.memory with written := s.memory.written ++ made } :=
    fun s hs => ⟨hs, [], List.nil_sublist _, by rw [List.append_nil]⟩
  unfold copyFile
  split
  · intro s hs
    rw [bind_apply, Action.observe_apply]
    cases FileStore.noting.readText s source with
    | error fault => exact hnothing s hs
    | ok text =>
      simp only
      rw [bind_apply, Action.observe_apply]
      cases compactJson s.place.room.brackets text with
      | error fault => exact hnothing s hs
      | ok out => exact writes_noted (Action.mute_writeText target out) s hs
  · exact writes_noted (Action.mute_copyFile source target)

/-- A file that is copied is noted, and so is its copy if it comes to that. -/
theorem tallies_tryNoting (optimized : Bool) (source target : Path) (name : String) :
    (tryNoting optimized (source.child name) (target.child name)).Tallies source target {name} := by
  have hcopy : (do
      Action.noteCopied (source.child name)
      Action.attempt (copyFile .noting optimized (source.child name) (target.child name))).Tallies
          source target {name} := by
    intro s hs
    obtain ⟨honce, made, hmade, hmemory⟩ :=
      writes_copyFile optimized (source.child name) (target.child name)
        { s with memory := { s.memory with copied := s.memory.copied ++ [source.child name] } } hs
    obtain ⟨rels, hrels, rfl⟩ :=
      List.sublist_map_iff.1 (show made.Sublist ([[name]].map target.descend) from hmade)
    refine ⟨honce, [[name]], rels, List.nodup_singleton _, hrels, fun rel hrel => ?_, hmemory⟩
    rw [List.mem_singleton.1 hrel]
    exact ⟨name, rfl, List.prefix_refl _⟩
  unfold tryNoting tryFile
  rw [← bind_assoc]
  refine hcopy.bind_within fun x => ?_
  split
  · exact .pure _
  · split
    · exact Action.Within.bind (fun _ => ⟨rfl, id⟩) fun _ => .pure _
    · exact .throw _

/-- Entries go under their own names, of which no two are the same. -/
theorem tallies_copyEntriesBy (optimized : Bool) {source target : Path}
    {inner : String → Action Notes Copied}
    (hinner : ∀ name, (inner name).Tallies (source.child name) (target.child name) Set.univ)
    {names : List String} (hnames : names.Nodup) :
    (copyEntriesBy .noting (tryNoting optimized) inner source target names).Tallies source target
      {n | n ∈ names} := by
  induction names with
  | nil => exact ((Action.Within.pure _).tallies source target).mono (Set.empty_subset _)
  | cons name rest ih =>
    obtain ⟨hname, hrest⟩ := List.nodup_cons.1 hnames
    have hentry : (copyEntryBy .noting (tryNoting optimized) inner source target name).Tallies
        source target {name} := by
      refine (Action.Within.observe _).bind_tallies fun isDirectory => ?_
      split
      · exact (hinner name).child
      · exact tallies_tryNoting optimized source target name
    have hfirsts : ({name} ∪ {n | n ∈ rest} : Set String) = {n | n ∈ name :: rest} := by
      ext n
      simp
    rw [← hfirsts]
    refine hentry.bind (fun _ => (ih hrest).bind_within fun _ => .pure _) fun n hn => ?_
    rwa [Set.mem_singleton_iff.1 hn]

/-- A copy of a directory notes no file twice, however deep it goes. -/
theorem tallies_copyNoting (optimized : Bool) (depth : Nat) (source target : Path) :
    (copyNoting optimized depth source target).Tallies source target Set.univ := by
  unfold copyNoting
  induction depth generalizing source target with
  | zero => exact ((Action.Within.throw _).tallies source target).mono (Set.empty_subset _)
  | succ depth ih =>
    refine (Action.mute_ensureDirectory target true).bind_tallies fun _ => ?_
    intro s hs
    rw [bind_apply, Action.observe_apply]
    cases hlisted : FileStore.noting.names s source with
    | error fault =>
        exact ((Action.Within.throw fault).tallies source target).mono (Set.empty_subset _) s hs
    | ok names =>
      exact (tallies_copyEntriesBy optimized (fun name => ih _ _)
        (Session.nodup_of_names? hs hlisted)).mono
        (Set.subset_univ _) s hs

/-- A copy of a directory notes what it copies and what it writes, and does nothing else for
that. -/
theorem copyTree_noting (hs : s.tree.IsOnce) (optimized : Bool) (depth : Nat)
    (source target : Path) :
    ∃ answer t, ∃ rels made : List (List String), copyTree .onTree optimized depth source target s =
      (answer, t) ∧
      copyNoting optimized depth source target s =
        (answer, { t with memory := s.memory.add source target rels made }) ∧
      rels.Nodup ∧ [] ∉ rels ∧ made.Sublist rels := by
  obtain ⟨-, rels, made, hnodup, hmade, hfirsts, hmemory⟩ :=
    tallies_copyNoting optimized depth source target s hs
  have hparallel : Action.Parallel (Session.Beside s.phase fun m _ => m = s.memory)
      (copyTree .onTree optimized depth source target) (copyNoting optimized depth source target) :=
    parallel_copyNoting optimized depth source target
  obtain ⟨hanswer, -, -, hsame⟩ := hparallel s s ⟨rfl, rfl, rfl⟩
  refine ⟨_, _, rels, made, rfl, Prod.ext hanswer ?_, hnodup, fun hnil => ?_, hmade⟩
  · rw [← hmemory]
    exact hsame
  · obtain ⟨first, -, hpre⟩ := hfirsts [] hnil
    cases List.prefix_nil.1 hpre

end Assets

/-! ## Whether it ends -/

/-- A session works in a directory of a file tree. -/
structure Session.IsPlaced {σ : Type} (s : Session σ) : Prop where
  /-- The tree is proper. -/
  proper : s.tree.IsProper
  /-- The working directory starts at a root and never goes back up. -/
  grounded : s.place.cwd.IsGrounded
  /-- Its text ends nowhere early. -/
  whole : '\x00' ∉ s.place.cwd.toString.toList
  /-- It stands. -/
  directory : s.tree.at? s.place.cwd.names = some .directory

/-- In a session that works in a directory this directory stands. -/
theorem Session.IsPlaced.stands {σ : Type} {s : Session σ} (hs : s.IsPlaced) :
    s.tree.Stands s.place.cwd.names :=
  Tree.Leads.stands (hs.proper.sound _ _ hs.directory) hs.directory

namespace Assets

/-- A copy of a directory copies no file twice and writes none twice, each under the names that the
file has that it is a copy of, and how deep it goes is bounded by what the system takes as the text
of a path. If the target does not lie below the source then it is bounded by the tree that is there
when it begins. If the target lies below the source then the copy gives no answer, whatever depth is
allowed. -/
theorem copyTree_ends {s : Session Notes} (hs : s.IsPlaced) (optimized : Bool)
    (source target : Path) : (∀ depth, ∃ answer t, ∃ rels made : List (List String),
      copyTree .onTree optimized depth source target s = (answer, t) ∧
      copyNoting optimized depth source target s =
        (answer, { t with memory := s.memory.add source target rels made }) ∧
      rels.Nodup ∧ [] ∉ rels ∧ made.Sublist rels) ∧
    (∀ depth, pathLimit + 1 < depth →
      copyTree .onTree optimized depth source target s = copyTree .onTree optimized (pathLimit + 2)
        source target s) ∧
    (¬target.LiesBelow source s.place.cwd → ∀ depth, room s target < depth →
      copyTree .onTree optimized depth source target s =
        copyTree .onTree optimized (room s target + 1) source target s) ∧
    (target.LiesBelow source s.place.cwd →
        ∀ depth x, (copyTree .onTree optimized depth source target s).1 ≠ .ok x) := by
  refine ⟨fun depth => copyTree_noting hs.proper.once optimized depth source target,
    fun depth hdepth => ?_, fun hbelow depth hdepth => ?_, fun hbelow depth x hanswer => ?_⟩
  · exact copyTree_eq_of_pathLimit (by omega) (by omega) (by omega) (by omega)
  · exact copyTree_eq hs.proper.named hs.grounded.descends hbelow hdepth (Nat.lt_succ_self _)
  · exact copyTree_ne_ok hs.grounded.descends hs.whole hs.stands hbelow depth x _
      (Prod.ext hanswer rfl)

namespace Sample

/-- A session in a site with some entries. -/
def site (entries : List (Location × Tree.Entry)) : Session Assets.Notes :=
  .start ⟨(["site"], .directory) :: (["site", "src"], .directory) :: entries⟩
    ⟨⟨.absolute, ["site"]⟩, "/home", .usual⟩ ⟨2024, 5, 6⟩ ⟨[], []⟩

/-- The directory that is copied holds another one with a file in it. -/
def nested : Session Assets.Notes :=
  site [(["site", "src", "b"], .directory),
    (["site", "src", "b", "c.txt"], .file (Text.encode "c") (.given 1000))]

/-- The directory that is copied is empty. -/
def bare : Session Assets.Notes := site []

/-- The session of the sample works in a directory of its tree. -/
theorem isPlaced_nested : nested.IsPlaced where
  proper :=
    { sound := Tree.isSound_of_entries (by decide +kernel)
      once := by decide +kernel
      named := Tree.isNamed_of_entries (by decide +kernel) }
  grounded := by decide
  whole := by decide
  directory := by decide

/-- The directory that is copied. -/
def source : Path := ⟨.relative, ["src"]⟩

/-- A place beside it. -/
def beside : Path := ⟨.absolute, ["site", "dist"]⟩

/-- A place in it. -/
def inside : Path := source.child "o"

end Sample

open Sample in
/-- In the sample a copy beside the directory copies and writes the file once, and does the same
with any depth from five on. A copy into the directory gives no answer. -/
theorem copyTree_ends_nested :
    nested.IsPlaced ∧ ¬beside.LiesBelow source nested.place.cwd ∧
      inside.LiesBelow source nested.place.cwd ∧
      (copyNoting false 5 source beside nested).2.memory =
        ⟨[source.descend ["b", "c.txt"]], [beside.descend ["b", "c.txt"]]⟩ ∧
      (∀ depth, 4 < depth →
        copyTree .onTree false depth source beside nested =
          copyTree .onTree false 5 source beside nested) ∧
      ∀ depth x, (copyTree .onTree false depth source inside nested).1 ≠ .ok x := by
  have hbeside : ¬beside.LiesBelow source nested.place.cwd := by decide
  have hinside : inside.LiesBelow source nested.place.cwd := by decide
  refine ⟨isPlaced_nested, hbeside, hinside, by decide +kernel, ?_, ?_⟩
  · exact (copyTree_ends isPlaced_nested false source beside).2.2.1 hbeside
  · exact (copyTree_ends isPlaced_nested false source inside).2.2.2 hinside

open Sample in
/-- No depth is enough for a copy into the directory itself, since each copy of a directory that it
makes has to be copied again: of an empty directory, too, copies are made in each other as deep as
is allowed. -/
theorem copyTree_runs_away :
    (∀ depth x, (copyTree .onTree false depth source inside nested).1 ≠ .ok x) ∧
      (copyTree .onTree false 4 source inside bare).2.tree.at? ["site", "src", "o", "o", "o", "o"] =
        some .directory := by
  refine ⟨fun depth x hanswer => ?_, by decide +kernel⟩
  exact copyTree_ne_ok isPlaced_nested.grounded.descends isPlaced_nested.whole
    isPlaced_nested.stands (by decide) depth x _
    (Prod.ext hanswer rfl)

end Assets

end StaticSite
