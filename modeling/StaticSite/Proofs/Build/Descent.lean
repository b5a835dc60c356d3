import StaticSite.Proofs.Build.Mirror
import StaticSite.Proofs.Tree.Opening

/-!
# How deep a copy goes down

A copy of a directory goes down wherever it finds a directory in the source, and makes a directory
in the target for each. If the target does not lie below the source then what it makes never adds to
the depth of the source, and it goes down no further than the tree was high: with any greater depth
allowed it does the same (`Descent.entries_eq`, `copyTree_eq`). If the target lies below the source
then the first name on the way from the one to the other leads to a directory that is to be copied,
and in that the same holds of the copy again; so it gives an answer in no depth that is allowed
(`copyTree_ne_ok`). What stops it then is that the system takes no path whose text is too long
(`copyTree_eq_of_pathLimit`).
-/

namespace StaticSite

namespace Tree

/-- The length of the longest location in a tree. -/
def height (t : Tree) : Nat := t.entries.foldr (fun e n => max e.1.length n) 0

variable {t : Tree} {l : Location} {n : Nat}

/-- The height of a tree bounds the lengths of its locations, and is the least such bound. -/
theorem height_le_iff : t.height ≤ n ↔ ∀ e ∈ t.entries, e.1.length ≤ n := by
  unfold height
  induction t.entries with
  | nil => simp
  | cons e es ih => simp [ih]

/-- Nothing in a tree lies deeper than its height. -/
theorem length_le_height (h : t.at? l ≠ none) : l.length ≤ t.height := by
  by_cases hroot : l = []
  · rw [hroot]
    exact Nat.zero_le _
  · obtain ⟨e, he⟩ := Option.ne_none_iff_exists'.1 h
    exact height_le_iff.1 (Nat.le_refl _) _ (mem_entries_of_at he hroot)

/-- An entry at a location that is not too long does not make a tree higher than a bound. -/
theorem height_put_le (hl : l.length ≤ n) (ht : t.height ≤ n) (e : Entry) :
    (t.put l e).height ≤ n := by
  rw [height_le_iff] at ht ⊢
  intro x hx
  rcases List.mem_cons.1 hx with rfl | hx
  · exact hl
  · exact ht x (List.mem_of_mem_filter hx)

/-- No location in a tree has more than `n` names, and none of its names leads up. -/
structure IsWithin (t : Tree) (n : Nat) : Prop where
  /-- Locations are short. -/
  height : t.height ≤ n
  /-- No name is that of the parent directory. -/
  named : t.IsNamed

/-- Making the directories of a path adds locations that are no longer than the way to it. -/
theorem IsWithin.makeDirectories {cwd p : Path} (h : t.IsWithin n) (hcwd : ".." ∉ cwd.names)
    (hlength : cwd.names.length + p.names.length ≤ n) : (t.makeDirectories cwd p).2.IsWithin n := by
  refine makeDirectoriesUpTo_induction (P := fun t => t.IsWithin n)
    (C := fun q => cwd.names.length + q.names.length ≤ n) (fun q hq => ?_)
      (fun q t t' hq ht hmade => ?_) hlength _ h
  · have hshorter : q.parent.names.length ≤ q.names.length := by
      rw [Path.parent, List.length_dropLast]
      omega
    omega
  · obtain ⟨l, hlocate, -, rfl⟩ := exists_locate_of_makeDirectory hmade
    obtain rfl := eq_spot_of_locate hlocate
    refine ⟨height_put_le ((Path.length_spot_le q cwd).trans hq) ht.height _, fun m hm => ?_⟩
    by_cases heq : m = q.spot cwd
    · rw [heq]
      exact fun hin => (Path.mem_spot hin).elim hcwd fun h => h.2 rfl
    · rw [at_put_of_ne t _ heq] at hm
      exact ht.named m hm

end Tree

namespace Assets

/-! ## One directory -/

variable {σ : Type} {store : FileStore σ} {optimized : Bool} {source target : Path}
    {inner inner' : String → Action σ Copied}
  {names : List String} {s s' : Session σ}

/-- Copying a directory takes no file away. -/
theorem isKeeping_copyTree (optimized : Bool) (depth : Nat) (source target : Path) :
    (copyTree .onTree optimized depth source target : Action σ Copied).IsKeeping :=
  copyTree_within FileStore.isKeeping_onTree (fun s _ => ⟨rfl, .refl s.tree⟩) optimized depth
    source target

/-- Entries are copied alike if each of them is, in the sessions in which they are. -/
theorem copyEntries_congr {P : Session σ → Prop}
    (hinner : ∀ name ∈ names, ∀ s, P s → inner name s = inner' name s ∧ P (inner name s).2)
    (hfiles : ∀ name ∈ names, ∀ s, P s →
      P (tryFile store optimized (source.child name) (target.child name) s).2)
    (hs : P s) :
    copyEntries store optimized inner source target names s =
      copyEntries store optimized inner' source target names s := by
  induction names generalizing s with
  | nil => rfl
  | cons name rest ih =>
    obtain ⟨hfirst, hinner⟩ := List.forall_mem_cons.1 hinner
    obtain ⟨hfile, hfiles⟩ := List.forall_mem_cons.1 hfiles
    have hentry : copyEntryBy store (tryFile store optimized) inner source target name s =
        copyEntryBy store (tryFile store optimized) inner' source target name s ∧
          P (copyEntryBy store (tryFile store optimized) inner source target name s).2 := by
      rw [copyEntryBy, copyEntryBy, bind_apply, bind_apply, Action.observe_apply]
      cases store.isDirectory s (source.child name) with
      | error fault => exact ⟨rfl, hs⟩
      | ok isDirectory =>
        cases isDirectory with
        | true => exact hfirst s hs
        | false => exact ⟨rfl, hfile s hs⟩
    obtain ⟨heq, hP⟩ := hentry
    rw [copyEntries_cons, copyEntries_cons, bind_apply, bind_apply, ← heq]
    generalize copyEntryBy store (tryFile store optimized) inner source target name s = result at hP
    obtain ⟨fault | first, s₁⟩ := result
    · rfl
    · dsimp only
      rw [bind_apply, bind_apply, ih hinner hfiles hP]

/-- An answer of a copy of entries has come by each of them. -/
theorem exists_of_copyEntries {R : Session σ → Session σ → Prop} [Std.Refl R]
    [IsTrans (Session σ) R]
    (hentries : ∀ name,
      (copyEntryBy store (tryFile store optimized) inner source target name).Within R)
    {x : Copied}
    (h : copyEntries store optimized inner source target names s = (.ok x, s')) {name : String}
    (hname : name ∈ names) :
    ∃ s₁ y s₂, R s s₁ ∧
      copyEntryBy store (tryFile store optimized) inner source target name s₁ = (.ok y, s₂) := by
  induction names generalizing s x s' with
  | nil => cases hname
  | cons n rest ih =>
    rw [copyEntries_cons] at h
    obtain ⟨first, s₁, hfirst, h⟩ := bind_apply_eq_ok.1 h
    obtain ⟨others, s₂, hothers, -⟩ := bind_apply_eq_ok.1 h
    rcases List.mem_cons.1 hname with rfl | hname
    · exact ⟨s, first, s₁, refl_of R s, hfirst⟩
    · have hR := hentries n s
      rw [hfirst] at hR
      obtain ⟨s₃, y, s₄, hR', hentry⟩ := ih hothers hname
      exact ⟨s₃, y, s₄, trans_of R hR hR', hentry⟩

/-- An answer of a copy of entries has copied each directory that stands among them. -/
theorem exists_of_directory (hinner : ∀ name, (inner name).IsKeeping) {x : Copied}
    (h : copyEntries .onTree optimized inner source target names s = (.ok x, s')) {l : Location}
    (hopens : s.Opens source l) {name : String} (hlisted : name ∈ names) (hname : name ≠ "..")
    (hnull : '\x00' ∉ name.toList) (hdirectory : s.tree.at? (l ++ [name]) = some .directory) :
    ∃ s₁ y s₂, s.KeepsFiles s₁ ∧ inner name s₁ = (.ok y, s₂) := by
  have hentries (name : String) :
      (copyEntryBy .onTree (tryFile .onTree optimized) inner source target name).Within
        Session.KeepsFiles :=
    copyEntryBy_within (hinner name)
      (tryFile_within FileStore.isKeeping_onTree (fun s _ => ⟨rfl, .refl s.tree⟩) optimized _ _)
  obtain ⟨s₁, y, s₂, hkeeps, hentry⟩ := exists_of_copyEntries hentries h hlisted
  obtain ⟨isDirectory, s₃, hobserve, hentry⟩ := bind_apply_eq_ok.1 hentry
  rw [Action.observe_apply] at hobserve
  obtain ⟨hfound, rfl⟩ := Prod.mk.inj hobserve
  cases isDirectory with
  | true => exact ⟨s₁, y, s₂, hkeeps, hentry⟩
  | false =>
    exact absurd hfound (Session.isDirectory_child_ne_false (hopens.keep hkeeps) hname hnull
      (hkeeps.tree.directory _ hdirectory))

/-! ## All that lies below -/

/-- A copy of a directory: what is asked for, where its paths lead, and how deep anything lies below
the source. -/
structure Descent where
  /-- Whether JSON documents are made compact. -/
  optimized : Bool
  /-- The directory that is copied. -/
  source : Path
  /-- The directory it is copied to. -/
  target : Path
  /-- Where the source is. -/
  origin : Location
  /-- Where the target is. -/
  goal : Location
  /-- The most names by which anything lies below the source. -/
  room : Nat

namespace Descent

variable {c : Descent} {rel : List String} {t : Tree}

/-- The target does not lie below the source. -/
def IsApart (c : Descent) : Prop := c.origin <+: c.goal → c.origin = c.goal

/-- Something may lie below the source under some names. -/
structure Allows (c : Descent) (rel : List String) : Prop where
  /-- No name leads up. -/
  descends : ".." ∉ rel
  /-- There is room for the names. -/
  length : rel.length ≤ c.room

/-- All that lies below the source may lie there. -/
def Holds (c : Descent) (t : Tree) : Prop := ∀ rel, t.at? (c.origin ++ rel) ≠ none → c.Allows rel

/-- The copy has come to the directories under some names, and both are open. -/
structure At (c : Descent) (rel : List String) (s : Session σ) : Prop where
  /-- The one in the source is open. -/
  source : s.Opens (c.source.descend rel) (c.origin ++ rel)
  /-- The one in the target is open. -/
  target : s.Opens (c.target.descend rel) (c.goal ++ rel)
  /-- Nothing lies too deep below the source. -/
  holds : c.Holds s.tree

/-- What is put into the target lies no deeper below the source than what it is a copy of. -/
theorem Holds.put (hc : c.IsApart) (h : c.Holds t) (hrel : c.Allows rel) (e : Tree.Entry) :
    c.Holds (t.put (c.goal ++ rel) e) := by
  intro rel' hstands
  by_cases heq : c.origin ++ rel' = c.goal ++ rel
  · -- The target is the source, or the source lies below it by some names, which are the first ones
    -- of `rel`.
    rcases List.append_eq_append_iff.1 heq with ⟨way, hgoal, hrel'⟩ | ⟨way, horigin, rfl⟩
    · have hway : way = [] := by
        have hsame := hc ⟨way, hgoal.symm⟩
        rw [← hsame] at hgoal
        simpa using hgoal
      rw [hrel', hway, List.nil_append]
      exact hrel
    · refine ⟨fun hin => hrel.descends (List.mem_append_right _ hin), ?_⟩
      have hlength := hrel.length
      rw [List.length_append] at hlength
      omega
  · rw [Tree.at_put_of_ne t e heq] at hstands
    exact h rel' hstands

/-- A copy stays where it has come to while no file is taken away. -/
theorem At.keep (h : c.At rel s) (hkeeps : s.KeepsFiles s') (hholds : c.Holds s'.tree) :
    c.At rel s' :=
  ⟨h.source.keep hkeeps, h.target.keep hkeeps, hholds⟩

/-- Whatever is listed in the directory of the source may lie there. -/
theorem At.allows (h : c.At rel s) {name : String} (hname : name ∈ s.tree.names (c.origin ++ rel)) :
    c.Allows (rel ++ [name]) := by
  refine h.holds _ ?_
  rw [← List.append_assoc]
  exact Tree.mem_names_iff.1 hname

/-- A copy that has come to some directories stays there. -/
def Stays (c : Descent) (rel : List String) (s s' : Session σ) : Prop := c.At rel s → c.At rel s'

instance : Std.Refl (c.Stays rel : Session σ → Session σ → Prop) where
  refl _ := id

instance : IsTrans (Session σ) (c.Stays rel) where
  trans _ _ _ h h' := h' ∘ h

/-- What may lie below the source is not named for the parent directory. -/
theorem ne_of_allows {name : String} (h : c.Allows (rel ++ [name])) : name ≠ ".." :=
  fun heq => h.descends (by rw [heq]; simp)

/-- What puts at most one entry into a directory of the target stays there. -/
theorem stays_of_put (hc : c.IsApart) {name : String} (hallows : c.Allows (rel ++ [name]))
    (h : c.At rel s) (hkeeps : s.KeepsFiles s')
    (hput : s'.tree = s.tree ∨ ∃ e, s'.tree = s.tree.put (c.goal ++ rel ++ [name]) e) :
    c.At rel s' := by
  refine h.keep hkeeps ?_
  rcases hput with htree | ⟨e, htree⟩
  · rw [htree]
    exact h.holds
  · rw [htree, List.append_assoc]
    exact h.holds.put hc hallows e

/-- Making sure of the directory of a copy leaves a copy where it has come to. -/
theorem stays_ensureDirectory (hc : c.IsApart) {name : String}
    (hallows : c.Allows (rel ++ [name])) :
    (Action.ensureDirectory (c.target.descend (rel ++ [name])) true : Action σ Unit).Within
      (c.Stays rel) := by
  intro s h
  refine stays_of_put hc hallows h (Action.isKeeping_ensureDirectory _ s) ?_
  rw [← Path.child_descend]
  exact (Action.ensureDirectory_child h.target (ne_of_allows hallows)).imp_right fun h => ⟨_, h⟩

/-- Putting a file of a copy leaves a copy where it has come to. -/
theorem stays_putAt (hc : c.IsApart) {name : String} (hallows : c.Allows (rel ++ [name]))
    (bytes : ByteArray) :
    (Action.putAt (c.target.descend (rel ++ [name])) bytes : Action σ Unit).Within
      (c.Stays rel) := by
  intro s h
  refine stays_of_put hc hallows h (Action.isKeeping_putAt _ bytes s) ?_
  rw [← Path.child_descend]
  exact Action.putAt_child h.target (ne_of_allows hallows) bytes

/-- Making the directories above a copy changes nothing where the copy has come to. -/
theorem stays_makeDirectories (name : String) :
    (Action.makeDirectories (c.target.descend (rel ++ [name])).parent : Action σ Unit).Within
      (c.Stays rel) := by
  intro s h
  rw [Path.parent_descend_concat, Action.makeDirectories_of_opens h.target]
  exact h

/-- Copying a file stays in the directories. -/
theorem stays_tryFile (hc : c.IsApart) {name : String} (hallows : c.Allows (rel ++ [name])) :
    (tryFile .onTree c.optimized ((c.source.descend rel).child name)
      ((c.target.descend rel).child name) :
      Action σ Copied).Within (c.Stays rel) := by
  rw [Path.child_descend, Path.child_descend]
  exact tryFile_within_of_copyFile (fun s log h => ⟨h.source, h.target, h.holds⟩)
    (copyFile_onTree_within (stays_makeDirectories name) (stays_putAt hc hallows))

/-- The copy of the entries of two directories. -/
def entries (c : Descent) (depth : Nat) (rel names : List String) : Action σ Copied :=
  copyEntries .onTree c.optimized (fun name =>
    copyTree .onTree c.optimized depth ((c.source.descend rel).child name)
      ((c.target.descend rel).child name))
    (c.source.descend rel) (c.target.descend rel) names

/-- Once the directory of the target is there and that of the source is listed, the copy has come to
both. -/
theorem At.enter {name : String} (h : c.At rel s) (hc : c.IsApart)
    (hallows : c.Allows (rel ++ [name])) {u : Unit} {names : List String}
    (hensure : Action.ensureDirectory (c.target.descend (rel ++ [name])) true s = (.ok u, s'))
    (hnames : s'.names? (c.source.descend (rel ++ [name])) = .ok names) :
    c.At (rel ++ [name]) s' ∧ ∀ n ∈ names, c.Allows (rel ++ [name] ++ [n]) := by
  have hname := ne_of_allows hallows
  have hstay : c.At rel s' := by
    have hstays := stays_ensureDirectory hc hallows s h
    rwa [hensure] at hstays
  obtain ⟨l, htarget⟩ := Action.exists_opens_of_ensureDirectory hensure
  obtain ⟨k, hsource, rfl⟩ := Session.exists_opens_of_names? hnames
  -- Each path leads one name further than that of the directory before.
  obtain rfl : l = c.goal ++ (rel ++ [name]) := by
    rw [Tree.Opens.eq_spot htarget, ← Path.child_descend, Path.spot_child hname,
      ← Tree.Opens.eq_spot hstay.target, List.append_assoc]
  obtain rfl : k = c.origin ++ (rel ++ [name]) := by
    rw [Tree.Opens.eq_spot hsource, ← Path.child_descend, Path.spot_child hname,
      ← Tree.Opens.eq_spot hstay.source, List.append_assoc]
  have hat : c.At (rel ++ [name]) s' := ⟨hsource, htarget, hstay.holds⟩
  exact ⟨hat, fun n hn => hat.allows hn⟩

/-- Copying a directory stays in those it lies in, if copying its entries stays in it. -/
theorem stays_copyTree_of_entries (hc : c.IsApart) {depth : Nat} {name : String}
    (hallows : c.Allows (rel ++ [name]))
    (hentries : ∀ names, (∀ n ∈ names, c.Allows (rel ++ [name] ++ [n])) →
      (c.entries depth (rel ++ [name]) names : Action σ Copied).Within (c.Stays (rel ++ [name]))) :
    (copyTree .onTree c.optimized (depth + 1) ((c.source.descend rel).child name)
      ((c.target.descend rel).child name) :
      Action σ Copied).Within (c.Stays rel) := by
  intro s h
  rw [Path.child_descend, Path.child_descend]
  refine h.keep (isKeeping_copyTree _ _ _ _ s) ?_
  rw [copyTree_succ_apply]
  have hstay := stays_ensureDirectory hc hallows s h
  rcases hensure : Action.ensureDirectory (c.target.descend (rel ++ [name]))
    true s with ⟨fault | u, s₁⟩ <;>
    rw [hensure] at hstay
  · exact hstay.holds
  · dsimp only
    cases hlisted : s₁.names? (c.source.descend (rel ++ [name])) with
    | error fault => exact hstay.holds
    | ok listed =>
      obtain ⟨hat, hlistedAllows⟩ := h.enter hc hallows hensure hlisted
      exact (hentries listed hlistedAllows s₁ hat).holds

/-- Copying the entries of a directory stays in the directories, however deep it goes. -/
theorem stays_entries (hc : c.IsApart) (depth : Nat) {names : List String}
    (hnames : ∀ name ∈ names, c.Allows (rel ++ [name])) :
    (c.entries depth rel names : Action σ Copied).Within (c.Stays rel) := by
  induction depth generalizing rel names with
  | zero => exact copyEntries_within_of_mem (fun name _ => .throw _) fun name hname =>
      stays_tryFile hc (hnames name hname)
  | succ depth ih =>
    exact copyEntries_within_of_mem
      (fun name hname => stays_copyTree_of_entries hc (hnames name hname)
        fun listed hlisted => ih hlisted)
      fun name hname => stays_tryFile hc (hnames name hname)

/-- Copying a directory below leaves a copy where it has come to. -/
theorem stays_copyTree (hc : c.IsApart) (depth : Nat) {name : String}
    (hallows : c.Allows (rel ++ [name])) :
    (copyTree .onTree c.optimized (depth + 1) ((c.source.descend rel).child name)
      ((c.target.descend rel).child name) :
      Action σ Copied).Within (c.Stays rel) :=
  stays_copyTree_of_entries hc hallows fun _ hnames => stays_entries hc depth hnames

/-- Entries are copied alike with any two depths for which there is no room. -/
theorem entries_eq (hc : c.IsApart) {depth depth' : Nat} (hdepth : c.room ≤ rel.length + depth)
    (hdepth' : c.room ≤ rel.length + depth') {names : List String}
    (hnames : ∀ name ∈ names, c.Allows (rel ++ [name])) (hs : c.At rel s) :
    c.entries depth rel names s = c.entries depth' rel names s := by
  induction depth generalizing rel names s depth' with
  | zero =>
    -- There is no room for any entry.
    cases names with
    | nil => rfl
    | cons name rest =>
      have hlength := (hnames name List.mem_cons_self).length
      rw [List.length_append, List.length_singleton] at hlength
      omega
  | succ depth ih =>
    refine copyEntries_congr (P := c.At rel) (fun name hname s hs => ⟨?_, ?_⟩)
      (fun name hname s hs => ?_) hs
    · have hlength := (hnames name hname).length
      rw [List.length_append, List.length_singleton] at hlength
      obtain ⟨depth', rfl⟩ : ∃ n, depth' = n + 1 := ⟨depth' - 1, by omega⟩
      rw [Path.child_descend, Path.child_descend, copyTree_succ_apply, copyTree_succ_apply]
      rcases hensure : Action.ensureDirectory (c.target.descend (rel ++ [name]))
        true s with ⟨fault | u, s₁⟩
      · rfl
      · dsimp only
        cases hlisted : s₁.names? (c.source.descend (rel ++ [name])) with
        | error fault => rfl
        | ok listed =>
          obtain ⟨hat, hallows⟩ := hs.enter hc (hnames name hname) hensure hlisted
          have hshort : (rel ++ [name]).length = rel.length + 1 := by simp
          exact ih (by omega) (by omega) hallows hat
    · exact stays_copyTree hc depth (hnames name hname) s hs
    · exact stays_tryFile hc (hnames name hname) s hs

end Descent

/-! ## A target that does not lie below the source -/

/-- How many names locations have at most, once the directories of a target are made. -/
def room (s : Session σ) (target : Path) : Nat :=
  max s.tree.height (s.place.cwd.names.length + target.names.length)

/-- A copy to a target that does not lie below the source goes down no further than there is room:
with any depth that is greater it does the same. -/
theorem copyTree_eq (hnamed : s.tree.IsNamed) (hcwd : ".." ∉ s.place.cwd.names)
    (hbelow : ¬target.LiesBelow source s.place.cwd) {depth depth' : Nat}
    (hdepth : room s target < depth) (hdepth' : room s target < depth') :
    copyTree .onTree optimized depth source target s =
      copyTree .onTree optimized depth' source target s := by
  obtain ⟨depth, rfl⟩ : ∃ n, depth = n + 1 := ⟨depth - 1, by omega⟩
  obtain ⟨depth', rfl⟩ : ∃ n, depth' = n + 1 := ⟨depth' - 1, by omega⟩
  rw [copyTree_succ_apply, copyTree_succ_apply]
  have hkeeps := Action.isKeeping_ensureDirectory target s
  have hwithin : (Action.ensureDirectory target true s).2.tree.IsWithin (room s target) := by
    have hstart : s.tree.IsWithin (room s target) := ⟨le_max_left _ _, hnamed⟩
    rcases Action.tree_ensureDirectory target s with htree | htree
    · rwa [htree]
    · rw [htree]
      exact hstart.makeDirectories hcwd (le_max_right _ _)
  rcases hensure : Action.ensureDirectory target true s with ⟨fault | u, s₁⟩
  · rfl
  rw [hensure] at hkeeps hwithin
  dsimp only
  cases hlisted : s₁.names? source with
  | error fault => rfl
  | ok names =>
    let c : Descent :=
      ⟨optimized, source, target, source.spot s.place.cwd, target.spot s.place.cwd, room s target⟩
    obtain ⟨l, htarget⟩ := Action.exists_opens_of_ensureDirectory hensure
    obtain ⟨k, hsource, rfl⟩ := Session.exists_opens_of_names? hlisted
    obtain rfl : l = target.spot s.place.cwd := by rw [Tree.Opens.eq_spot htarget, hkeeps.place]
    obtain rfl : k = source.spot s.place.cwd := by rw [Tree.Opens.eq_spot hsource, hkeeps.place]
    -- The walk over the entries starts where both paths lead, and meets no name that leads up.
    have hat : c.At [] s₁ := by
      refine ⟨?_, ?_, fun rel hstands => ⟨fun hin => ?_, ?_⟩⟩
      · rwa [Path.descend_nil, List.append_nil]
      · rwa [Path.descend_nil, List.append_nil]
      · exact hwithin.named _ hstands (List.mem_append_right _ hin)
      · have hlength := (Tree.length_le_height hstands).trans hwithin.height
        rw [List.length_append] at hlength
        exact (Nat.le_add_left _ _).trans hlength
    have hapart : c.IsApart := fun hpre => by_contra fun hne => hbelow ⟨hpre, hne⟩
    have heq : c.entries depth [] (s₁.tree.names c.origin) s₁ =
        c.entries depth' [] (s₁.tree.names c.origin) s₁ :=
      Descent.entries_eq hapart (by simp [c]; omega) (by simp [c]; omega)
        (fun name hname => hat.allows (by rwa [List.append_nil])) hat
    simpa only [Descent.entries, Path.descend_nil] using heq

/-! ## A target below the source -/

/-- A copy to a target to which some names lead down from the source gives no answer, whatever depth
is allowed. -/
theorem copyTree_ne_ok_of_way (depth : Nat) {way : List String} (hway : way ≠ [])
    (hnull : ∀ n ∈ way, '\x00' ∉ n.toList) (hcwd : ".." ∉ s.place.cwd.names)
    (hstands : s.tree.Stands s.place.cwd.names)
    (hspot : target.spot s.place.cwd = source.spot s.place.cwd ++ way) (x : Copied)
    (s' : Session σ) :
    copyTree .onTree optimized depth source target s ≠ (.ok x, s') := by
  -- The induction is on the depth: the copy of the directory to which the first name leads is as
  -- deep in itself, and the way from the one to the other begins with the second name and ends with
  -- the first.
  induction depth generalizing source target way s x s' with
  | zero => exact fun h => by cases h
  | succ depth ih =>
    intro h
    rw [copyTree_succ_apply] at h
    have hkeeps := Action.isKeeping_ensureDirectory target s
    rcases hensure : Action.ensureDirectory target true s with ⟨fault | u, s₁⟩ <;>
      rw [hensure] at h hkeeps
    · cases h
    dsimp only at h
    cases hlisted : s₁.names? source with
    | error fault =>
      rw [hlisted] at h
      cases h
    | ok names =>
      rw [hlisted] at h
      obtain ⟨n, rest, rfl⟩ := List.exists_cons_of_ne_nil hway
      obtain ⟨l, htarget⟩ := Action.exists_opens_of_ensureDirectory hensure
      obtain ⟨k, hsource, rfl⟩ := Session.exists_opens_of_names? hlisted
      have hl : l = source.spot s.place.cwd ++ n :: rest := by
        rw [Tree.Opens.eq_spot htarget, hkeeps.place, hspot]
      have hk : k = source.spot s.place.cwd := by rw [Tree.Opens.eq_spot hsource, hkeeps.place]
      have hstands₁ : s₁.tree.Stands s₁.place.cwd.names := by
        rw [hkeeps.place]
        exact fun m hm => hkeeps.tree.directory m (hstands m hm)
      have hname : n ≠ ".." := by
        rintro rfl
        have hin : ".." ∈ target.spot s.place.cwd := by rw [hspot]; simp
        exact (Path.mem_spot hin).elim hcwd fun h => h.2 rfl
      -- The first name is listed, since the target lies below it.
      have hfirst : s₁.tree.at? (k ++ [n]) = some .directory := by
        refine Tree.Opens.stands htarget hstands₁ _ ?_
        rw [hl, hk]
        exact (List.prefix_append_right_inj _).2 (by simp)
      have hlistedName : n ∈ s₁.tree.names k :=
        Tree.mem_names_iff.2 (by rw [hfirst]; exact fun h => by cases h)
      obtain ⟨s₂, y, s₃, hkeeps₂, hcopy⟩ :=
        exists_of_directory (fun name => isKeeping_copyTree optimized depth _ _) h hsource
          hlistedName hname (hnull n List.mem_cons_self) hfirst
      have hplace : s₂.place = s.place := hkeeps₂.place.trans hkeeps.place
      refine ih (List.append_ne_nil_of_right_ne_nil rest (List.cons_ne_nil n [])) (fun m hm => ?_)
        ?_ ?_ ?_ y s₃ hcopy
      · exact hnull m (by simpa [or_comm] using hm)
      · rwa [hplace]
      · rw [hplace]
        exact fun m hm => hkeeps₂.tree.directory m (hkeeps.tree.directory m (hstands m hm))
      · rw [hplace, Path.spot_child hname, Path.spot_child hname, hspot]
        simp

/-- A copy to a target below the source gives no answer, whatever depth is allowed. -/
theorem copyTree_ne_ok (hcwd : ".." ∉ s.place.cwd.names)
    (hwhole : '\x00' ∉ s.place.cwd.toString.toList) (hstands : s.tree.Stands s.place.cwd.names)
    (hbelow : target.LiesBelow source s.place.cwd) (depth : Nat) (x : Copied) (s' : Session σ) :
    copyTree .onTree optimized depth source target s ≠ (.ok x, s') := by
  intro h
  obtain ⟨⟨way, hspot⟩, hne⟩ := hbelow
  have hway : way ≠ [] := by
    rintro rfl
    exact hne (by rwa [List.append_nil] at hspot)
  refine copyTree_ne_ok_of_way depth hway (fun n hn => ?_) hcwd hstands hspot.symm x s' h
  -- The target was made, so that its text ends nowhere early.
  have htarget : '\x00' ∉ target.toString.toList := by
    cases depth with
    | zero => cases h
    | succ depth =>
      rw [copyTree_succ_apply] at h
      rcases hensure : Action.ensureDirectory target true s with ⟨fault | u, s₁⟩ <;>
        rw [hensure] at h
      · cases h
      · obtain ⟨l, hopens⟩ := Action.exists_opens_of_ensureDirectory hensure
        exact Tree.Opens.whole hopens
  have hin : n ∈ target.spot s.place.cwd := by
    rw [← hspot]
    exact List.mem_append_right _ hn
  rcases Path.mem_spot hin with hin | ⟨hin, -⟩
  · exact Path.notMem_of_mem_names hwhole hin
  · exact Path.notMem_of_mem_names htarget hin

/-! ## Any target -/

/-- The system takes no path whose text is too long, so that no copy goes down further than its
texts allow. -/
theorem copyTree_eq_of_pathLimit {depth depth' : Nat}
    (hdepth : pathLimit + 1 < target.names.length + depth)
    (hdepth' : pathLimit + 1 < target.names.length + depth') (hpos : 0 < depth)
    (hpos' : 0 < depth') :
    copyTree .onTree optimized depth source target s =
      copyTree .onTree optimized depth' source target s := by
  induction depth generalizing source target s depth' with
  | zero => cases hpos
  | succ depth ih =>
    obtain ⟨depth', rfl⟩ : ∃ n, depth' = n + 1 := ⟨depth' - 1, by omega⟩
    rw [copyTree_succ_apply, copyTree_succ_apply]
    rcases hensure : Action.ensureDirectory target true s with ⟨fault | u, s₁⟩
    · rfl
    · dsimp only
      cases s₁.names? source with
      | error fault => rfl
      | ok names =>
        -- The target was made, and below it there is one name more.
        obtain ⟨l, hopens⟩ := Action.exists_opens_of_ensureDirectory hensure
        have hlength := Tree.Opens.length_le hopens
        refine copyEntries_congr (P := fun _ => True) (fun name _ s _ => ⟨?_, trivial⟩)
          (fun _ _ _ _ => trivial) trivial
        have hchild : (target.child name).names.length = target.names.length + 1 := by
          simp [Path.child]
        exact ih (by omega) (by omega) (by omega) (by omega)

end Assets

end StaticSite
