import StaticSite.Proofs.Tree.Keeping

/-!
# Copying assets

Copying a directory takes no file away, and every path that it tells to be written leads to a file,
starts at a root and never goes back up (`copying_copy`). That the copies do not go back up rests on
the names of the tree, of which none is that of the parent directory (`Tree.IsNamed`); copying gives
no such name.
-/

namespace StaticSite

namespace Tree

/-- No name in a tree is that of the parent directory. -/
def IsNamed (t : Tree) : Prop := ∀ l, t.at? l ≠ none → ".." ∉ l

variable {t t' : Tree} {l : Location}

/-- A tree is named if no location in the list of its entries leads up. -/
theorem isNamed_of_entries (h : ∀ x ∈ t.entries, ".." ∉ x.1) : t.IsNamed := by
  intro l hl
  by_cases hroot : l = []
  · rw [hroot]
    exact List.not_mem_nil
  · obtain ⟨e, he⟩ := Option.ne_none_iff_exists'.1 hl
    exact h _ (mem_entries_of_at he hroot)

/-- The names in a directory are those of entries of the tree. -/
theorem IsNamed.ne_of_mem_names (h : t.IsNamed) {n : String} (hn : n ∈ t.names l) : n ≠ ".." := by
  unfold names at hn
  rw [List.mem_mergeSort] at hn
  obtain ⟨⟨m, e⟩, hmem, hname⟩ := List.mem_filterMap.1 hn
  simp only at hname
  have hlast : m.getLast? = some n := by
    split at hname
    · rename_i name hlast
      split at hname
      · rw [hlast]
        exact hname
      · cases hname
    · cases hname
  have hin : n ∈ m := List.mem_of_getLast? hlast
  have hroot : m ≠ [] := fun hnil => by rw [hnil] at hin; cases hin
  -- An entry of the list is found at its location, if not always as it stands in the list.
  have hfound : t.at? m ≠ none := by
    unfold at?
    rw [if_neg hroot]
    intro hnone
    have hne := List.lookup_eq_none_iff.1 hnone (m, e) hmem
    simp at hne
  intro heq
  rw [heq] at hin
  exact h m hfound hin

/-- Nothing is named for the parent directory where files are written that are not. -/
theorem ChangedOnly.isNamed {ls : Set Location} (h : ChangedOnly ls t t') (hls : ∀ l ∈ ls, ".." ∉ l)
    (hnamed : t.IsNamed) : t'.IsNamed := by
  intro m hm
  have hchange := h m
  generalize he : t.at? m = e at hchange
  generalize he' : t'.at? m = e' at hchange hm
  cases hchange with
  | same => exact hnamed m (by rw [he]; exact hm)
  | file _ _ hmem _ => exact hls m hmem
  | directory hl hpre _ => exact fun hin => hls _ hl (hpre.subset hin)

/-- A named tree that grows below a location without names that lead up is named still. -/
theorem Grows.isNamed (h : Grows l t t') (hl : ".." ∉ l) (hnamed : t.IsNamed) : t'.IsNamed := by
  intro m hm
  rcases h m with heq | ⟨hpre, -, -⟩
  · exact hnamed m (by rw [← heq]; exact hm)
  · exact fun hin => hl (hpre.subset hin)

end Tree

variable {σ : Type}

/-- A path below a grounded one is grounded, unless its name leads up. -/
theorem Path.IsGrounded.child {p : Path} (hp : p.IsGrounded) {name : String} (hname : name ≠ "..") :
    (p.child name).IsGrounded where
  absolute := hp.absolute
  descends hmem := by
    rcases List.mem_append.1 hmem with hmem | hmem
    · exact hp.descends hmem
    · exact hname (List.mem_singleton.1 hmem).symm

/-- What is listed in a directory are names of the tree. -/
theorem Session.ne_of_mem_names? {s : Session σ} {p : Path} {names : List String}
    (hnamed : s.tree.IsNamed) (h : s.names? p = .ok names) {name : String} (hname : name ∈ names) :
    name ≠ ".." := by
  obtain ⟨l, -, rfl⟩ := Session.names?_eq_ok_iff.1 h
  exact hnamed.ne_of_mem_names hname

/-- Nothing in the tree of a session is named for the parent directory if nothing was in that of an
earlier one. -/
def Session.KeepsNamed (s s' : Session σ) : Prop := s.tree.IsNamed → s'.tree.IsNamed

instance : Std.Refl (Session.KeepsNamed : Session σ → Session σ → Prop) where
  refl _ := id

instance : IsTrans (Session σ) Session.KeepsNamed where
  trans _ _ _ h h' := h' ∘ h

namespace Action

variable {p : Path}

/-- Making directories gives nothing the name of the parent directory. -/
theorem keepsNamed_makeDirectories (hp : p.IsGrounded) :
    (makeDirectories p : Action σ Unit).Within Session.KeepsNamed := by
  intro s
  obtain ⟨r, t, h, hgrows, -⟩ := makeDirectories_spec hp s
  rw [h]
  exact hgrows.isNamed hp.descends

/-- Making sure of a directory gives nothing the name of the parent directory. -/
theorem keepsNamed_ensureDirectory (hp : p.IsGrounded) :
    (ensureDirectory p true : Action σ Unit).Within Session.KeepsNamed := by
  intro s
  obtain ⟨r, t, h, hgrows, -⟩ := ensureDirectory_spec hp s
  rw [h]
  exact hgrows.isNamed hp.descends

/-- Putting a file gives nothing the name of the parent directory. -/
theorem keepsNamed_putAt (hp : p.IsGrounded) (bytes : ByteArray) :
    (putAt p bytes : Action σ Unit).Within Session.KeepsNamed := by
  intro s hnamed
  unfold putAt
  rw [bind_apply, observe_apply]
  cases hlocation : fileLocation s p with
  | error fault => exact hnamed
  | ok l =>
    obtain ⟨-, rfl, -, -⟩ := (fileLocation_eq_ok_iff hp).1 hlocation
    intro m hm
    by_cases heq : m = p.names
    · rw [heq]
      exact hp.descends
    · refine hnamed m fun hnone => hm ?_
      exact (Tree.at_put_of_ne s.tree _ heq).trans hnone

end Action

namespace Assets

/-- The files that an answer tells to be written; there is none without an answer. -/
def writtenOf (x : Except Fault Copied) : List Path := x.toOption.elim [] Copied.written

/-- Copying takes no file away and leaves those of which it tells. Nothing in the tree may be named
for the parent directory, and nothing is afterwards. -/
def Copying (a : Action σ Copied) : Prop :=
  ∀ s, s.tree.IsNamed → s.Gains (writtenOf (a s).1) (a s).2 ∧ (a s).2.tree.IsNamed

/-- Copying nothing leaves every file that it tells of, as there is none. -/
theorem Copying.none : Copying (pure Copied.none : Action σ Copied) :=
  fun s hnamed => ⟨(refl_of Session.KeepsFiles s).gains, hnamed⟩

/-- What one copying wrote is there still after another. -/
theorem Copying.append {a a' : Action σ Copied} (ha : Copying a) (ha' : Copying a') :
    Copying (do
      let first ← a
      let rest ← a'
      return first.append rest) := by
  intro s hnamed
  obtain ⟨hgains, hnamed₁⟩ := ha s hnamed
  rcases hfirst : a s with ⟨fault | first, s₁⟩ <;> rw [hfirst] at hgains hnamed₁
  · rw [bind_apply_error hfirst]
    exact ⟨hgains, hnamed₁⟩
  obtain ⟨hgains', hnamed₂⟩ := ha' s₁ hnamed₁
  rw [bind_apply_ok hfirst]
  rcases hrest : a' s₁ with ⟨fault | rest, s₂⟩ <;> rw [hrest] at hgains' hnamed₂
  · rw [bind_apply_error hrest]
    exact ⟨(trans_of Session.KeepsFiles hgains.keeps hgains'.keeps).gains, hnamed₂⟩
  · rw [bind_apply_ok hrest]
    exact ⟨hgains.trans hgains', hnamed₂⟩

/-- Looking at the session before copying does not change what the copying comes to. -/
theorem Copying.observe {α : Type} {f : Session σ → Except Fault α} {a : α → Action σ Copied}
    (h : ∀ x, Copying (a x)) : Copying (Action.observe f >>= a) := by
  intro s hnamed
  rw [bind_apply, Action.observe_apply]
  cases f s with
  | error fault => exact ⟨(refl_of Session.KeepsFiles s).gains, hnamed⟩
  | ok x => exact h x s hnamed

variable {source target : Path}

/-- Copying a file takes no file away. -/
theorem isKeeping_copyFile (optimized : Bool) (source target : Path) :
    (copyFile .onTree optimized source target : Action σ Unit).IsKeeping :=
  copyFile_within FileStore.isKeeping_onTree optimized source target

/-- Copying a file gives nothing the name of the parent directory. -/
theorem keepsNamed_copyFile (optimized : Bool) (source : Path) (htarget : target.IsGrounded) :
    (copyFile .onTree optimized source target : Action σ Unit).Within Session.KeepsNamed := by
  exact copyFile_onTree_within (Action.keepsNamed_makeDirectories htarget.parent)
    (Action.keepsNamed_putAt htarget)

/-- A file that is copied without a fault stands at the target. -/
theorem leaves_copyFile (optimized : Bool) (source target : Path) :
    (copyFile .onTree optimized source target : Action σ Unit).Leaves fun _ s =>
      s.isFile target = .ok true := by
  unfold copyFile
  split
  · exact .bind fun _ => .bind fun _ => Action.leaves_writeText _ _
  · exact Action.leaves_copyFile _ _

/-- Trying to copy a file leaves the copy that it tells of. -/
theorem copying_tryFile (optimized : Bool) (source : Path) (htarget : target.IsGrounded) :
    Copying (tryFile .onTree optimized source target : Action σ Copied) := by
  intro s hnamed
  have hkeeps := isKeeping_copyFile optimized source target s
  have hnamed' := keepsNamed_copyFile optimized source htarget s hnamed
  have hfile := leaves_copyFile optimized source target s
  unfold tryFile
  rw [bind_apply_ok (Action.attempt_apply _ s)]
  generalize copyFile .onTree optimized source target s = result at hkeeps hnamed' hfile ⊢
  obtain ⟨fault | u, s₁⟩ := result
  · simp only
    split
    · have hsaid := Action.isKeeping_say .error .assets
        ("Cannot copy asset " ++ source.toString ++ ": " ++ fault.message) s₁
      exact ⟨(trans_of Session.KeepsFiles hkeeps hsaid).gains, hnamed'⟩
    · exact ⟨hkeeps.gains, hnamed'⟩
  · refine ⟨⟨hkeeps, fun p hp => ?_⟩, hnamed'⟩
    rw [List.mem_singleton.1 hp]
    exact ⟨htarget, hfile u s₁ rfl⟩

/-- Copying the entries of a directory leaves the copies that it tells of, if copying each of the
directories among them does. -/
theorem copying_copyEntries (optimized : Bool) {inner : String → Action σ Copied} (source : Path)
    (htarget : target.IsGrounded) {names : List String} (hnames : ∀ name ∈ names, name ≠ "..")
    (hinner : ∀ name ∈ names, Copying (inner name)) :
    Copying (copyEntries .onTree optimized inner source target names) := by
  induction names with
  | nil => exact .none
  | cons name rest ih =>
    obtain ⟨hname, hnames⟩ := List.forall_mem_cons.1 hnames
    obtain ⟨hfirst, hinner⟩ := List.forall_mem_cons.1 hinner
    refine .observe fun isDirectory => ?_
    split
    · exact hfirst.append (ih hnames hinner)
    · exact (copying_tryFile optimized _ (htarget.child hname)).append (ih hnames hinner)

/-- Copying a directory makes the directory, and copies what is listed in it. -/
theorem copying_copyTree (optimized : Bool) (depth : Nat) (source : Path)
    (htarget : target.IsGrounded) :
    Copying (copyTree .onTree optimized depth source target : Action σ Copied) := by
  induction depth generalizing source target with
  | zero => exact fun s hnamed => ⟨(refl_of Session.KeepsFiles s).gains, hnamed⟩
  | succ depth ih =>
    intro s hnamed
    have hensure := Action.isKeeping_ensureDirectory target s
    have hnamed₁ := Action.keepsNamed_ensureDirectory htarget s hnamed
    rw [copyTree_succ_apply]
    rcases hensured : Action.ensureDirectory target true s with ⟨fault | u, s₁⟩ <;>
      rw [hensured] at hensure hnamed₁
    · exact ⟨hensure.gains, hnamed₁⟩
    dsimp only
    cases hlisted : s₁.names? source with
    | error fault => exact ⟨hensure.gains, hnamed₁⟩
    | ok names =>
      have hnames : ∀ name ∈ names, name ≠ ".." :=
        fun name hname => Session.ne_of_mem_names? hnamed₁ hlisted hname
      have hcopying := copying_copyEntries optimized source htarget hnames
        (fun name hname => ih (source.child name) (htarget.child (hnames name hname)))
      obtain ⟨hgains, hnamed₂⟩ := hcopying s₁ hnamed₁
      exact ⟨hensure.gains.trans hgains, hnamed₂⟩

/-- Copying an asset directory takes no file away and leaves those of which it tells. -/
theorem copying_copy (directory : Path) (optimized : Bool) (a : AssetDirectory) {s : Session σ}
    (hcwd : s.place.cwd.isAbsolute = true) (hnamed : s.tree.IsNamed) :
    s.Gains (writtenOf (copy .onTree directory optimized a s).1)
      (copy .onTree directory optimized a s).2 ∧
        (copy .onTree directory optimized a s).2.tree.IsNamed := by
  have hgrounded := Path.isGrounded_output hcwd directory a.target
  unfold copy
  rw [bind_apply, Action.observe_apply]
  cases hlocate : Output.locate s.place directory a.target with
  | error fault => exact ⟨(refl_of Session.KeepsFiles s).gains, hnamed⟩
  | ok target =>
  simp only
  have htarget : target.IsGrounded := Output.path_of_locate hlocate ▸ hgrounded
  obtain ⟨hgains, hnamed'⟩ := copying_copyTree optimized (pathLimit + 1) a.source htarget s hnamed
  rcases hcopied : copyTree .onTree optimized (pathLimit + 1) a.source
    target s with ⟨fault | copied, s₁⟩ <;>
    rw [hcopied] at hgains hnamed'
  · rw [bind_apply_error hcopied]
    exact ⟨hgains, hnamed'⟩
  · rw [bind_apply_ok hcopied, bind_apply_ok (Action.say_apply _ _ _ s₁)]
    have hsaid := Action.isKeeping_say .info .assets ("Copied " ++ toString copied.written.length ++
      " asset file(s) from " ++ a.source.toString ++ " to " ++ target.toString) s₁
    refine ⟨?_, hnamed'⟩
    have hboth := hgains.trans hsaid.gains
    rwa [List.append_nil] at hboth

end Assets

end StaticSite
