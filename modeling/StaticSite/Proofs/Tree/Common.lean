import StaticSite.Proofs.Reading

/-!
# What two trees have in common at a location

Whoever walks to a location from a root finds the same in two trees that are the same there
(`SameAt`), and is stopped by the same files if they are the same above it (`SameAbove`): texts are
read alike, and a file can be written in one tree if it can be in the other. Neither is lost when
files are written elsewhere, in one of the trees or in both (`SameAt.changedOnly`,
`SameAbove.changedOnly`), nor when a directory is removed from both (`Removed.sameAt`,
`Removed.sameAbove`).
-/

namespace StaticSite

namespace Tree

/-- A file stands at a location. -/
def HasFile (t : Tree) (l : Location) : Prop := ∃ bytes stamp, t.at? l = some (.file bytes stamp)

/-- What stands at a location stands in directories. -/
def Based (t : Tree) (l : Location) : Prop := ∀ e, t.at? l = some e → t.Leads l

/-- Whatever stands in a tree stands in directories. -/
def IsSound (t : Tree) : Prop := ∀ l, t.Based l

/-- Two trees have the same entry at a location. -/
structure SameAt (l : Location) (t t' : Tree) : Prop where
  /-- The entry is the same. -/
  entry : t'.at? l = t.at? l
  /-- In the one tree it stands in directories. -/
  based : t.Based l
  /-- In the other too. -/
  based' : t'.Based l

/-- Two trees have the same files above a location. -/
structure SameAbove (l : Location) (t t' : Tree) : Prop where
  /-- A file stands in both trees or in none. -/
  files : ∀ m, m <+: l → m ≠ l → (t'.HasFile m ↔ t.HasFile m)
  /-- In the one tree it stands in directories. -/
  based : ∀ m, m <+: l → m ≠ l → t.HasFile m → t.Leads m
  /-- In the other too. -/
  based' : ∀ m, m <+: l → m ≠ l → t'.HasFile m → t'.Leads m

variable {t t' t'' u u' : Tree} {l m d : Location} {ls : Set Location}

/-- No file stands where a directory does. -/
theorem not_hasFile_of_directory (h : t.at? l = some .directory) : ¬t.HasFile l := by
  rintro ⟨bytes, stamp, hfile⟩
  rw [h] at hfile
  cases hfile

/-- Directories stand above a file of a sound tree. -/
theorem IsSound.leads (h : t.IsSound) (hfile : t.HasFile l) : t.Leads l := by
  obtain ⟨bytes, stamp, hfile⟩ := hfile
  exact h l _ hfile

instance (t : Tree) (l : Location) : Decidable (t.Leads l) :=
  decidable_of_iff (∀ m ∈ l.inits, m ≠ l → t.at? m = some .directory)
    (forall_congr' fun m => by rw [List.mem_inits])

/-- What stands below the root is among the entries. -/
theorem mem_entries_of_at {e : Entry} (h : t.at? l = some e) (hl : l ≠ []) :
    (l, e) ∈ t.entries := by
  unfold at? at h
  rw [if_neg hl] at h
  obtain ⟨before, after, hentries, -⟩ := List.lookup_eq_some_iff.1 h
  rw [hentries]
  exact List.mem_append_right _ List.mem_cons_self

/-- A tree is sound if each of its entries stands in directories. -/
theorem isSound_of_entries (h : ∀ x ∈ t.entries, t.Leads x.1) : t.IsSound := by
  intro l e he
  by_cases hl : l = []
  · -- Nothing lies above a root.
    intro m hm hne
    rw [hl] at hm hne
    exact absurd (List.prefix_nil.1 hm) hne
  · exact h _ (mem_entries_of_at he hl)

/-- The same stands where it does at the entries of both trees. -/
theorem at_eq_of_entries (h : ∀ x ∈ t.entries ++ t'.entries, x.1 = l → t'.at? l = t.at? l) :
    t'.at? l = t.at? l := by
  by_cases hl : l = []
  · rw [hl, at_root, at_root]
  · rcases ht : t.at? l with _ | e
    · rcases ht' : t'.at? l with _ | e'
      · rfl
      · rw [← ht, ← ht']
        exact h _ (List.mem_append_right _ (mem_entries_of_at ht' hl)) rfl
    · rw [← ht]
      exact h _ (List.mem_append_left _ (mem_entries_of_at ht hl)) rfl

namespace SameAt

/-- Having the same entry at a location does not depend on the order of the trees. -/
theorem symm (h : SameAt l t t') : SameAt l t' t := ⟨h.entry.symm, h.based', h.based⟩

/-- Having the same entry at a location is passed on from tree to tree. -/
theorem trans (h : SameAt l t t') (h' : SameAt l t' t'') : SameAt l t t'' :=
  ⟨h'.entry.trans h.entry, h.based, h'.based'⟩

end SameAt

namespace SameAbove

/-- Having the same files above a location does not depend on the order of the trees. -/
theorem symm (h : SameAbove l t t') : SameAbove l t' t :=
  ⟨fun m hm hne => (h.files m hm hne).symm, h.based', h.based⟩

/-- Having the same files above a location is passed on from tree to tree. -/
theorem trans (h : SameAbove l t t') (h' : SameAbove l t' t'') : SameAbove l t t'' :=
  ⟨fun m hm hne => (h'.files m hm hne).trans (h.files m hm hne), h.based, h'.based'⟩

end SameAbove

/-- Sound trees that differ at some locations are the same at every other one. -/
theorem IsSound.sameAt (h : t.IsSound) (h' : t'.IsSound) (hentry : t'.at? l = t.at? l) :
    SameAt l t t' :=
  ⟨hentry, h l, h' l⟩

/-- Sound trees with the same entries above a location have the same files above it. -/
theorem IsSound.sameAbove (h : t.IsSound) (h' : t'.IsSound)
    (hentry : ∀ m, m <+: l → m ≠ l → t'.at? m = t.at? m) : SameAbove l t t' where
  files m hm hne := by rw [HasFile, HasFile, hentry m hm hne]
  based _ _ _ hfile := h.leads hfile
  based' _ _ _ hfile := h'.leads hfile

/-! ## Writing files elsewhere -/

/-- A location keeps its entry where files are written neither at it nor below it. -/
theorem ChangedOnly.sameAt (h : ChangedOnly ls t t') (hls : ∀ k ∈ ls, ¬l <+: k)
    (hbased : t.Based l) :
    SameAt l t t' := by
  have hentry : t'.at? l = t.at? l := h.at_eq hls
  refine ⟨hentry, hbased, fun e he => h.leads ?_⟩
  rw [hentry] at he
  exact hbased e he

/-- Files come to stand only where they are written, and none is gone from elsewhere. -/
theorem ChangedOnly.hasFile_iff (h : ChangedOnly ls t t') (hm : m ∉ ls) :
    t'.HasFile m ↔ t.HasFile m := by
  unfold HasFile
  rcases (h m).eq_of_notMem hm with heq | ⟨hnone, hdirectory⟩
  · rw [heq]
  · rw [hnone, hdirectory]
    simp

/-- Making directories neither writes files nor removes them. -/
theorem Grows.hasFile_iff (h : Grows l t t') : t'.HasFile m ↔ t.HasFile m := by
  unfold HasFile
  rcases h m with heq | ⟨-, hnone, hdirectory⟩
  · rw [heq]
  · rw [hnone, hdirectory]
    simp

/-- The files above a location stay the same where no file is written above it. -/
theorem ChangedOnly.sameAbove (h : ChangedOnly ls t t') (hls : ∀ k ∈ ls, ¬k <+: l)
    (hbased : ∀ m, m <+: l → m ≠ l → t.HasFile m → t.Leads m) : SameAbove l t t' := by
  have hfiles : ∀ m, m <+: l → (t'.HasFile m ↔ t.HasFile m) :=
    fun m hm => h.hasFile_iff fun hmem => hls m hmem hm
  exact ⟨fun m hm _ => hfiles m hm, hbased,
    fun m hm hne hfile => h.leads (hbased m hm hne ((hfiles m hm).1 hfile))⟩

/-- Writing the same files to both of two trees leaves them the same where none is written. -/
theorem SameAt.changedOnly (h : SameAt l t t') (hc : ChangedOnly ls t u)
    (hc' : ChangedOnly ls t' u') (hls : ∀ k ∈ ls, ¬l <+: k) : SameAt l u u' :=
  ((hc.sameAt hls h.based).symm.trans h).trans (hc'.sameAt hls h.based')

/-- Trees with the same files above a location have them after files were written that do not lie
above it. -/
theorem SameAbove.changedOnly (h : SameAbove l t t') (hc : ChangedOnly ls t u)
    (hc' : ChangedOnly ls t' u') (hls : ∀ k ∈ ls, ¬k <+: l) : SameAbove l u u' :=
  ((hc.sameAbove hls h.based).symm.trans h).trans (hc'.sameAbove hls h.based')

/-! ## Removing a directory -/

/-- A tree from which a directory was removed with all in it, if it stood there. -/
inductive Removed (d : Location) (t : Tree) : Tree → Prop where
  /-- No directory stood there. -/
  | kept (h : ¬t.Stands d) : Removed d t t
  /-- It is gone. -/
  | gone {u : Tree} (h : t.Stands d) (others : ∀ m, ¬d <+: m → u.at? m = t.at? m)
      (below : ∀ m, d <+: m → m ≠ [] → t.Leads m → u.at? m = none)
      (old : ∀ m e, u.at? m = some e → t.at? m = some e) : Removed d t u

namespace Removed

/-- What stands once a directory is removed stood before. -/
theorem old (h : Removed d t u) {e : Entry} (he : u.at? l = some e) : t.at? l = some e := by
  cases h with
  | kept => exact he
  | gone _ _ _ hold => exact hold l e he

/-- What stands below a directory makes it stand. -/
theorem stands_of_leads (h : t.Leads l) (hd : d <+: l) (hne : l ≠ d) : t.Stands d := by
  intro m hm
  refine h m (hm.trans hd) ?_
  rintro rfl
  exact hne (hm.eq_of_length_le hd.length_le)

/-- Nothing is left at the directory or below it, unless it is a file. -/
theorem at_eq (h : Removed d t u) (hl : l ≠ []) (hbased : t.Based l)
    [Decidable (d <+: l ∧ ¬(l = d ∧ t.HasFile d))] :
    u.at? l = if d <+: l ∧ ¬(l = d ∧ t.HasFile d) then none else t.at? l := by
  split
  · rename_i hd
    obtain ⟨hd, hfile⟩ := hd
    cases hentry : t.at? l with
    | none =>
      cases hu : u.at? l with
      | none => rfl
      | some e =>
        rw [h.old hu] at hentry
        cases hentry
    | some e =>
      have hleads := hbased e hentry
      cases h with
      | gone _ _ hbelow _ => exact hbelow l hd hl hleads
      | kept hstands =>
        -- What is left stands in the directory or is it, unless it is a file.
        refine absurd ?_ hstands
        by_cases hne : l = d
        · subst hne
          cases e with
          | directory => exact hleads.stands hentry
          | file bytes stamp => exact absurd ⟨rfl, bytes, stamp, hentry⟩ hfile
        · exact stands_of_leads hleads hd hne
  · rename_i hd
    cases h with
    | kept => rfl
    | gone hstands hothers _ _ =>
      refine hothers l fun hpre => hd ⟨hpre, ?_⟩
      rintro ⟨-, hfile⟩
      exact not_hasFile_of_directory (hstands d (List.prefix_refl d)) hfile

/-- What is left stands in directories. -/
theorem leads (h : Removed d t u) {e : Entry} (he : u.at? l = some e) (hleads : t.Leads l) :
    u.Leads l := by
  cases h with
  | kept => exact hleads
  | gone _ hothers hbelow _ =>
    intro m hm hne
    by_cases hd : d <+: m
    · have hl : l ≠ [] := by
        rintro rfl
        exact hne (List.prefix_nil.1 hm)
      rw [hbelow l (hd.trans hm) hl hleads] at he
      cases he
    · rw [hothers m hd]
      exact hleads m hm hne

/-- A file is left unless it stood below the directory. -/
theorem hasFile_iff (h : Removed d t u) (hbased : t.HasFile l → t.Leads l) :
    u.HasFile l ↔ t.HasFile l ∧ ¬(d <+: l ∧ l ≠ d) := by
  cases h with
  | kept hstands =>
    exact ⟨fun hfile => ⟨hfile, fun ⟨hd, hne⟩ => hstands (stands_of_leads (hbased hfile) hd hne)⟩,
      fun h => h.1⟩
  | gone hstands hothers hbelow hold =>
    constructor
    · rintro ⟨bytes, stamp, hfile⟩
      have hfile' : t.HasFile l := ⟨bytes, stamp, hold l _ hfile⟩
      refine ⟨hfile', fun ⟨hd, _⟩ => ?_⟩
      have hl : l ≠ [] := by
        rintro rfl
        exact not_hasFile_of_directory (at_root t) hfile'
      rw [hbelow l hd hl (hbased hfile')] at hfile
      cases hfile
    · rintro ⟨hfile, hd⟩
      have hpre : ¬d <+: l := by
        intro hpre
        by_cases hne : l = d
        · rw [hne] at hfile
          exact not_hasFile_of_directory (hstands d (List.prefix_refl d)) hfile
        · exact hd ⟨hpre, hne⟩
      unfold HasFile
      rwa [hothers l hpre]

/-- Removing a directory from both of two trees leaves them the same where they were. -/
theorem sameAt (h : Removed d t u) (h' : Removed d t' u') (hsame : SameAt l t t') :
    SameAt l u u' := by
  classical
  refine ⟨?_, fun e he => h.leads he (hsame.based e (h.old he)),
    fun e he => h'.leads he (hsame.based' e (h'.old he))⟩
  by_cases hl : l = []
  · rw [hl, at_root, at_root]
  · rw [h.at_eq hl hsame.based, h'.at_eq hl hsame.based', hsame.entry]
    -- The directory counts only where it is the location itself.
    have hiff : (d <+: l ∧ ¬(l = d ∧ t'.HasFile d)) ↔ (d <+: l ∧ ¬(l = d ∧ t.HasFile d)) := by
      refine and_congr_right fun _ => not_congr (and_congr_right ?_)
      rintro rfl
      rw [HasFile, HasFile, hsame.entry]
    simp only [hiff]

/-- Trees with the same files above a location have them once a directory is removed from both. -/
theorem sameAbove (h : Removed d t u) (h' : Removed d t' u') (hsame : SameAbove l t t') :
    SameAbove l u u' where
  files m hm hne := by
    rw [h.hasFile_iff (hsame.based m hm hne), h'.hasFile_iff (hsame.based' m hm hne),
      hsame.files m hm hne]
  based m hm hne hfile := by
    have hfile' := ((h.hasFile_iff (hsame.based m hm hne)).1 hfile).1
    obtain ⟨bytes, stamp, hentry⟩ := hfile
    exact h.leads hentry (hsame.based m hm hne hfile')
  based' m hm hne hfile := by
    have hfile' := ((h'.hasFile_iff (hsame.based' m hm hne)).1 hfile).1
    obtain ⟨bytes, stamp, hentry⟩ := hfile
    exact h'.leads hentry (hsame.based' m hm hne hfile')

end Removed

/-- What stands at the top is one of the names there. -/
theorem mem_names_of_at {n : String} {e : Entry} (h : t.at? [n] = some e) : n ∈ t.names [] := by
  obtain ⟨before, after, hentries, -⟩ :=
    List.lookup_eq_some_iff.1 (show t.entries.lookup [n] = some e from h)
  unfold names
  rw [List.mem_mergeSort, List.mem_filterMap]
  exact ⟨([n], e), by rw [hentries]; exact List.mem_append_right _ List.mem_cons_self, rfl⟩

/-- Once some names at the top are erased, what stands below them is gone and the rest is there. -/
theorem at_foldl_erase (names : List String) (t : Tree) (hm : m ≠ []) :
    (names.foldl (fun t n => t.erase [n]) t).at? m = if ∃ n ∈ names, [n] <+: m then none
      else t.at? m := by
  induction names generalizing t with
  | nil => simp
  | cons name rest ih =>
    rw [List.foldl_cons, ih, at_erase t hm]
    simp only [List.isPrefixOf_iff_prefix, List.exists_mem_cons_iff]
    by_cases hrest : ∃ n ∈ rest, [n] <+: m <;> by_cases hname : [name] <+: m <;> simp [hrest, hname]

/-- Removing all that stands at once below a root removes all below it that stands in
directories. -/
theorem removed_foldl_erase (t : Tree) :
    Removed [] t ((t.names []).foldl (fun t n => t.erase [n]) t) := by
  refine .gone (fun m hm => ?_) (fun m hm => absurd List.nil_prefix hm) (fun m _ hm hleads => ?_)
    fun m e he => ?_
  · rw [List.prefix_nil.1 hm, at_root]
  · rw [at_foldl_erase _ _ hm]
    split
    · rfl
    · rename_i hnames
      cases hentry : t.at? m with
      | none => rfl
      | some e =>
        -- The first name of the location is that of something that stands at once below the root.
        obtain ⟨n, rest, rfl⟩ := List.exists_cons_of_ne_nil hm
        have hpre : [n] <+: n :: rest := List.cons_prefix_cons.2 ⟨rfl, List.nil_prefix⟩
        refine absurd ⟨n, ?_, hpre⟩ hnames
        by_cases hrest : rest = []
        · subst hrest
          exact mem_names_of_at hentry
        · exact mem_names_of_at (hleads [n] hpre fun h => hrest (List.cons.inj h).2.symm)
  · by_cases hm : m = []
    · subst hm
      exact he
    · rw [at_foldl_erase _ _ hm] at he
      split at he
      · cases he
      · exact he

/-- A directory that is erased is removed. -/
theorem removed_erase (h : t.Stands l) : Removed l t (t.erase l) := by
  have hat : ∀ m, m ≠ [] → (t.erase l).at? m = if l <+: m then none else t.at? m := by
    intro m hm
    rw [at_erase t hm]
    simp only [List.isPrefixOf_iff_prefix]
  refine .gone h (fun m hm => ?_) (fun m hm hne _ => ?_) fun m e he => ?_
  · by_cases hne : m = []
    · rw [hne, at_root, at_root]
    · rw [hat m hne, if_neg hm]
  · rw [hat m hne, if_pos hm]
  · by_cases hne : m = []
    · subst hne
      exact he
    · rw [hat m hne] at he
      split at he
      · cases he
      · exact he

/-! ## What is found -/

/-- Names lead to a location, or stop at the first one above it where nothing stands, or a file. -/
theorem follow_cases {names : List String} (hnames : ".." ∉ names)
    (hsize : ∀ n ∈ names, n.utf8ByteSize ≤ nameLimit) :
    t.follow l names = .ok (l ++ names) ∨
      ∃ m, m <+: names ∧ m ≠ names ∧ (∀ k, k <+: m → k ≠ m → t.at? (l ++ k) = some .directory) ∧
        (t.follow l names = .error .missing ∧ t.at? (l ++ m) = none ∨
          t.follow l names = .error .notDirectory ∧ t.HasFile (l ++ m)) := by
  induction names generalizing l with
  | nil => exact .inl (by rw [List.append_nil]; rfl)
  | cons name rest ih =>
    have hname := beq_parent_eq_false hnames
    -- Where the walk stops at once, nothing has been passed.
    have hfirst : ∀ k : Location, k <+: [] → k ≠ [] → t.at? (l ++ k) = some .directory :=
      fun k hk hne => absurd (List.prefix_nil.1 hk) hne
    unfold follow
    cases hentry : t.at? l with
    | none =>
      exact .inr ⟨[], List.nil_prefix, (List.cons_ne_nil _ _).symm, hfirst,
        .inl ⟨rfl, by rwa [List.append_nil]⟩⟩
    | some e =>
      cases e with
      | file bytes stamp =>
        exact .inr ⟨[], List.nil_prefix, (List.cons_ne_nil _ _).symm, hfirst,
          .inr ⟨rfl, bytes, stamp, by rwa [List.append_nil]⟩⟩
      | directory =>
        simp only [hname, Bool.false_eq_true, if_false,
          Nat.not_lt.2 (hsize name List.mem_cons_self)]
        have hassoc : ∀ k, (l ++ [name]) ++ k = l ++ name :: k :=
          fun k => by rw [List.append_assoc]; rfl
        rcases ih (l := l ++ [name]) (fun h => hnames (List.mem_cons_of_mem _ h))
          (fun n hn => hsize n (List.mem_cons_of_mem _ hn)) with hok | ⟨m, hm, hne, hpassed, hstop⟩
        · exact .inl (by rw [hok, hassoc])
        · refine .inr
            ⟨name :: m, List.cons_prefix_cons.2 ⟨rfl, hm⟩, fun h => hne (List.cons.inj h).2, ?_, ?_⟩
          · intro k hk hne'
            rcases List.prefix_cons_iff.1 hk with rfl | ⟨k', rfl, hk'⟩
            · rwa [List.append_nil]
            · rw [← hassoc]
              exact hpassed k' hk' fun h => hne' (by rw [h])
          · rwa [hassoc] at hstop

variable {cwd p : Path}

/-- A path that the system takes is located, or stops at the first location above its own where
nothing stands, or a file. -/
theorem locate_cases (cwd : Path) (hp : p.IsGrounded) (hfits : p.Fits) :
    t.locate cwd p = .ok p.names ∧ t.Leads p.names ∨
      ∃ m, m <+: p.names ∧ m ≠ p.names ∧ t.Leads m ∧
        (t.locate cwd p = .error .missing ∧ t.at? m = none ∨
          t.locate cwd p = .error .notDirectory ∧ t.HasFile m) := by
  have hlocate : t.locate cwd p = t.follow [] p.names := by
    rw [locate_eq hp, if_neg hfits.whole, if_neg (Nat.not_le.2 hfits.short)]
  rcases follow_cases (t := t) (l := []) hp.descends hfits.names with hok | ⟨m, hm, hne,
    hleads, hstop⟩
  · have hok' : t.locate cwd p = .ok p.names := hlocate.trans hok
    exact .inl ⟨hok', ((locate_eq_ok_iff hp).1 hok').2.2⟩
  · rw [← hlocate] at hstop
    exact .inr ⟨m, hm, hne, hleads, hstop⟩

open Classical in
/-- What is found by a path, if it stands in directories whenever it is there. -/
theorem inspect_eq (hp : p.IsGrounded) (hfits : p.Fits) (hbased : t.Based p.names) :
    t.inspect cwd p = match t.at? p.names with
      | some e => .ok (p.names, e)
      | none =>
        if ∃ m, m <+: p.names ∧ m ≠ p.names ∧ t.HasFile m ∧ t.Leads m then .error .notDirectory
        else .error .missing := by
  cases hentry : t.at? p.names with
  | some e => exact (inspect_eq_ok_iff hp).2 ⟨hfits, rfl, hbased e hentry, hentry⟩
  | none =>
    unfold inspect
    rcases locate_cases (t := t) cwd hp hfits with ⟨hlocate, hleads⟩ | ⟨m, hm, hne, hleads, hstop⟩
    · rw [hlocate]
      simp only [bind, Except.bind, hentry]
      rw [if_neg]
      rintro ⟨m, hm, hne, hfile, -⟩
      exact not_hasFile_of_directory (hleads m hm hne) hfile
    · rcases hstop with ⟨hlocate, hnone⟩ | ⟨hlocate, hfile⟩
      · rw [hlocate]
        simp only [bind, Except.bind]
        rw [if_neg]
        rintro ⟨k, hk, hne', hfile, hleads'⟩
        -- Of a location where nothing stands and one with a file, the lower has something else
        -- above it.
        rcases List.prefix_or_prefix_of_prefix hm hk with hmk | hkm
        · by_cases heq : m = k
          · obtain ⟨bytes, stamp, hfile⟩ := hfile
            rw [← heq, hnone] at hfile
            cases hfile
          · rw [hleads' m hmk heq] at hnone
            cases hnone
        · by_cases heq : k = m
          · obtain ⟨bytes, stamp, hfile⟩ := hfile
            rw [heq, hnone] at hfile
            cases hfile
          · exact not_hasFile_of_directory (hleads k hkm heq) hfile
      · rw [hlocate]
        simp only [bind, Except.bind]
        rw [if_pos ⟨m, hm, hne, hfile, hleads⟩]

/-- The same is found in trees that are the same at a path and above it. -/
theorem inspect_congr_of_same (hp : p.IsGrounded) (hfits : p.Fits) (hat : SameAt p.names t t')
    (habove : SameAbove p.names t t') : t'.inspect cwd p = t.inspect cwd p := by
  classical
  rw [inspect_eq hp hfits hat.based, inspect_eq hp hfits hat.based', hat.entry]
  have hiff : (∃ m, m <+: p.names ∧ m ≠ p.names ∧ t'.HasFile m ∧ t'.Leads m) ↔
      ∃ m, m <+: p.names ∧ m ≠ p.names ∧ t.HasFile m ∧ t.Leads m := by
    refine exists_congr fun m => and_congr_right fun hm => and_congr_right fun hne => ?_
    constructor
    · rintro ⟨hfile, -⟩
      have hfile' := (habove.files m hm hne).1 hfile
      exact ⟨hfile', habove.based m hm hne hfile'⟩
    · rintro ⟨hfile, -⟩
      have hfile' := (habove.files m hm hne).2 hfile
      exact ⟨hfile', habove.based' m hm hne hfile'⟩
  simp only [hiff]

/-- What a probe finds at a path is what stands there. -/
theorem probe_eq (hp : p.IsGrounded) (hfits : p.Fits) (hbased : t.Based p.names) :
    t.probe cwd p = .ok (t.at? p.names) := by
  unfold probe
  rw [inspect_eq hp hfits hbased]
  cases t.at? p.names with
  | some e => rfl
  | none =>
    simp only
    split_ifs <;> rfl

/-- A file can be written in both of two trees or in none. -/
theorem writable_congr (hat : SameAt l t t') (habove : SameAbove l t t') :
    t'.Writable l ↔ t.Writable l := by
  -- Nothing but the root lies at once above a root, and it is no file.
  have hclear : ∀ m, m <+: l.dropLast → (t'.HasFile m ↔ t.HasFile m) := by
    intro m hm
    by_cases hne : m = l
    · rw [HasFile, HasFile, hne, hat.entry]
    · exact habove.files m (hm.trans (List.dropLast_prefix l)) hne
  constructor
  · intro hw
    refine ⟨fun m hm bytes stamp hfile => ?_, hat.entry ▸ hw.free⟩
    obtain ⟨bytes', stamp', hfile'⟩ := (hclear m hm).2 ⟨bytes, stamp, hfile⟩
    exact hw.clear m hm bytes' stamp' hfile'
  · intro hw
    refine ⟨fun m hm bytes stamp hfile => ?_, by rw [hat.entry]; exact hw.free⟩
    obtain ⟨bytes', stamp', hfile'⟩ := (hclear m hm).1 ⟨bytes, stamp, hfile⟩
    exact hw.clear m hm bytes' stamp' hfile'

end Tree

variable {σ : Type} {s s' : Session σ} {p : Path}

/-- What a session finds at a path is found in its tree. -/
theorem Session.inspect_iff {found : Location × Tree.Entry} :
    s.inspect p = .ok found ↔ s.tree.inspect s.place.cwd p = .ok found := by
  unfold inspect
  cases s.tree.inspect s.place.cwd p <;> simp [Except.mapError]

/-- Names are listed of a directory that a path leads to, and of nothing else. -/
theorem Session.names?_eq_ok_iff {names : List String} :
    s.names? p = .ok names ↔ ∃ l, s.inspect p = .ok (l, .directory) ∧ names = s.tree.names l := by
  unfold names?
  rcases s.inspect p with fault | ⟨l, _ | _⟩ <;> simp [bind, Except.bind, eq_comm]

/-- The same is found at a path where the same stands at it and above it. -/
theorem Session.inspect_congr_of_same (hp : p.IsGrounded) (hfits : p.Fits)
    (hplace : s'.place = s.place) (hat : Tree.SameAt p.names s.tree s'.tree)
    (habove : Tree.SameAbove p.names s.tree s'.tree) : s'.inspect p = s.inspect p := by
  unfold inspect
  rw [hplace, Tree.inspect_congr_of_same hp hfits hat habove]

/-- A text is read alike where the trees are the same. -/
theorem Session.readText_congr_of_same (hp : p.IsGrounded) (hfits : p.Fits)
    (hat : Tree.SameAt p.names s.tree s'.tree) : s'.readText p = s.readText p := by
  unfold readText probe
  rw [Tree.probe_eq hp hfits hat.based, Tree.probe_eq hp hfits hat.based', hat.entry]

/-- Removing the directory of a path that the system takes does so, and of any other path
nothing. -/
theorem Action.removeTree_spec (hp : p.IsGrounded) (s : Session σ) :
    ∃ x t, removeTree p s = (.ok x, { s with tree := t }) ∧
      (p.Fits → Tree.Removed p.names s.tree t) ∧ (¬p.Fits → t = s.tree) := by
  unfold removeTree
  rw [bind_apply_ok (get_apply s)]
  -- A directory is found where the system takes the path and one stands there.
  have hfound : ∀ l, s.inspect p = .ok (l, .directory) ↔ p.Fits ∧ l = p.names ∧
      s.tree.Stands p.names := by
    intro l
    rw [Session.inspect_iff, Tree.inspect_eq_ok_iff hp]
    refine and_congr_right fun _ => and_congr_right fun _ => ⟨fun h => h.1.stands h.2, fun h => ?_⟩
    exact ⟨h.leads, h p.names (List.prefix_refl _)⟩
  have hkept : (∀ l, s.inspect p ≠ .ok (l, .directory)) →
      (p.Fits → Tree.Removed p.names s.tree s.tree) ∧ (¬p.Fits → s.tree = s.tree) :=
    fun h =>
      ⟨fun hfits => .kept fun hstands => h p.names ((hfound p.names).2 ⟨hfits, rfl, hstands⟩),
        fun _ => rfl⟩
  cases hinspect : s.inspect p with
  | error fault => exact ⟨_, _, rfl, hkept fun l h => by rw [hinspect] at h; cases h⟩
  | ok found =>
    obtain ⟨l, e⟩ := found
    cases e with
    | file bytes stamp => exact ⟨_, _, rfl, hkept fun l h => by rw [hinspect] at h; cases h⟩
    | directory =>
      obtain ⟨hfits, rfl, hstands⟩ := (hfound l).1 hinspect
      by_cases hroot : p.names = []
      · simp only [hroot, List.isEmpty_nil, if_true, List.nil_append]
        exact ⟨_, _, rfl, fun _ => Tree.removed_foldl_erase _, fun h => absurd hfits h⟩
      · simp only [List.isEmpty_eq_false_iff.2 hroot, Bool.false_eq_true, if_false]
        exact ⟨_, _, rfl, fun _ => Tree.removed_erase hstands, fun h => absurd hfits h⟩

end StaticSite
