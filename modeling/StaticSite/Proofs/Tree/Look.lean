import Mathlib.Data.List.Sort
import Mathlib.Data.String.Basic
import StaticSite.Proofs.Build.Copying
import StaticSite.Tree.Change

/-!
# How trees look

What a build finds in a tree does not depend on when files were written: `Tree.look` is what stands
at a location without its stamp, and trees that look the same everywhere do not differ
(`changes_eq_nil_of_look_eq`). A tree is proper if whatever stands in it stands in directories,
once, and under a name that leads down (`Tree.IsProper`). Making directories and writing files keeps
a tree proper, and proper trees with the same entries in a directory list the same names
(`names_congr`). In a proper tree an operation at a path that the system takes ends in few ways,
each of which is given here with its fault (`Action.MakesDirectory`, `putAt_of_directory`,
`putAt_of_free`).
-/

namespace StaticSite

namespace Tree

/-- What stands at a location, whenever it was written. -/
inductive Look where
  /-- A directory. -/
  | directory
  /-- A file with its bytes. -/
  | file (bytes : ByteArray)
deriving DecidableEq

/-- An entry without its stamp. -/
def Entry.look : Entry → Look
  | directory => .directory
  | file bytes _ => .file bytes

/-- How a tree looks at a location. -/
def look (t : Tree) (l : Location) : Option Look := (t.at? l).map Entry.look

variable {t t' u : Tree} {l m k : Location} {e : Entry} {bytes : ByteArray}

/-- A location looks like a directory if and only if one stands there. -/
theorem look_eq_directory_iff : t.look l = some .directory ↔ t.at? l = some .directory := by
  unfold look
  rcases t.at? l with _ | _ | ⟨bytes, stamp⟩ <;> simp [Entry.look]

/-- A location looks like a file if and only if one with these bytes stands there. -/
theorem look_eq_file_iff : t.look l = some (.file bytes) ↔
    ∃ stamp, t.at? l = some (.file bytes stamp) := by
  unfold look
  rcases t.at? l with _ | _ | ⟨bytes', stamp⟩ <;> simp [Entry.look]

/-- A file stands where it looks like one. -/
theorem hasFile_iff_look : t.HasFile l ↔ ∃ bytes, t.look l = some (.file bytes) := by
  simp only [HasFile, look_eq_file_iff]

/-- Whether a file stands at a location depends on how it looks. -/
theorem hasFile_congr (h : u.look l = t.look l) : u.HasFile l ↔ t.HasFile l := by
  rw [hasFile_iff_look, hasFile_iff_look, h]

/-- Whether a directory stands at a location depends on how it looks. -/
theorem directory_congr (h : u.look l = t.look l) :
    u.at? l = some .directory ↔ t.at? l = some .directory := by
  rw [← look_eq_directory_iff, ← look_eq_directory_iff, h]

/-- Above a location the same stands where the same files do. -/
theorem IsSound.sameAbove_of_files (ht : t.IsSound) (hu : u.IsSound)
    (hfiles : ∀ k, k <+: l → k ≠ l → (u.HasFile k ↔ t.HasFile k)) : SameAbove l t u :=
  ⟨hfiles, fun _ _ _ hfile => ht.leads hfile, fun _ _ _ hfile => hu.leads hfile⟩

/-- Making directories changes nothing that lies elsewhere. -/
theorem Grows.at_eq_of_not (h : Grows l t u) (hm : ¬m <+: l) : u.at? m = t.at? m :=
  (h m).resolve_right fun hmade => hm hmade.1

/-- There is one entry for each location. -/
def IsOnce (t : Tree) : Prop := (t.entries.map Prod.fst).Nodup

/-- A tree as a build keeps it. -/
structure IsProper (t : Tree) : Prop where
  /-- Whatever stands in it stands in directories. -/
  sound : t.IsSound
  /-- There is one entry for each location. -/
  once : (t.entries.map Prod.fst).Nodup
  /-- No name in it is that of the parent directory. -/
  named : t.IsNamed

/-- There is still one entry for each location when something is put anywhere. -/
theorem IsOnce.put (h : t.IsOnce) (l : Location) (e : Entry) : (t.put l e).IsOnce := by
  have hothers : ((t.entries.filter fun old => old.1 != l).map Prod.fst).Nodup :=
    List.Nodup.sublist (List.filter_sublist.map _) h
  refine List.nodup_cons.2 ⟨fun hmem => ?_, hothers⟩
  obtain ⟨x, hx, hxl⟩ := List.mem_map.1 hmem
  have hne := (List.mem_filter.1 hx).2
  rw [hxl] at hne
  exact absurd hne (by simp)

/-- Where a file stands above a location, not all that stands above it is a directory. -/
theorem not_leads_of_file_above (hk : k <+: l) (hne : k ≠ l) (hfile : t.HasFile k) : ¬t.Leads l :=
  fun hleads => not_hasFile_of_directory (hleads k hk hne) hfile

/-- A tree stays proper when something is put in a directory where no directory stands. -/
theorem IsProper.put (h : t.IsProper) (hroot : l ≠ []) (hnamed : ".." ∉ l) (hleads : t.Leads l)
    (hfree : t.at? l ≠ some .directory) (e : Entry) : (t.put l e).IsProper where
  sound m e' he' := by
    have hleadsm : t.Leads m := by
      by_cases hm : m = l
      · rwa [hm]
      · rw [at_put_of_ne t e hm] at he'
        exact h.sound m e' he'
    intro k hk hne
    -- Above what stands there are directories, and none of them is the location.
    have hkl : k ≠ l := by
      rintro rfl
      exact hfree (hleadsm k hk hne)
    rw [at_put_of_ne t e hkl]
    exact hleadsm k hk hne
  once := IsOnce.put h.once l e
  named m hm := by
    by_cases heq : m = l
    · rwa [heq]
    · rw [at_put_of_ne t e heq] at hm
      exact h.named m hm

/-- Making directories keeps a tree proper. -/
theorem IsProper.makeDirectoriesUpTo {cwd p : Path} (h : t.IsProper) (hp : p.IsGrounded) (n : Nat) :
    (makeDirectoriesUpTo cwd p n t).2.IsProper := by
  refine makeDirectoriesUpTo_induction (P := IsProper) (C := Path.IsGrounded)
    (fun _ hq => hq.parent) ?_ hp n h
  intro q t t' hq ht hmade
  obtain ⟨-, hleads, hnone, rfl⟩ := (makeDirectory_eq_ok_iff hq).1 hmade
  have hroot : q.names ≠ [] := by
    intro hroot
    rw [hroot, at_root] at hnone
    cases hnone
  have hfree : t.at? q.names ≠ some .directory := by
    rw [hnone]
    exact fun h => by cases h
  exact ht.put hroot hq.descends hleads hfree .directory

/-! ## Listing -/

/-- The name of a location in a directory. -/
def childName? (l m : Location) : Option String :=
  match m.getLast? with
  | some name => if m.dropLast = l then some name else none
  | none => none

/-- The location of a name in a directory is that of the directory with the name added. -/
theorem childName?_eq_some_iff {n : String} : childName? l m = some n ↔ m = l ++ [n] := by
  unfold childName?
  rcases List.eq_nil_or_concat m with rfl | ⟨above, name, rfl⟩
  · simp
  · rw [List.concat_eq_append]
    simp [and_comm]

/-- The names in a directory are those of the list of entries, sorted. -/
theorem names_eq (t : Tree) (l : Location) :
    t.names l = ((t.entries.map Prod.fst).filterMap (childName? l)).mergeSort fun a b =>
      !decide (b < a) := by
  rw [List.filterMap_map]
  rfl

/-- Something stands at a location other than the root if and only if it is in the list of entries.
-/
theorem at_ne_none_iff (hroot : l ≠ []) : t.at? l ≠ none ↔ l ∈ t.entries.map Prod.fst := by
  unfold at?
  rw [if_neg hroot, Ne, List.lookup_eq_none_iff, List.mem_map]
  constructor
  · intro h
    by_contra hnot
    refine h fun x hx => ?_
    have hne : l ≠ x.1 := fun heq => hnot ⟨x, hx, heq.symm⟩
    simpa using hne
  · rintro ⟨x, hx, rfl⟩ h
    have hne := h x hx
    simp at hne

/-- What is listed in a directory is what stands in it. -/
theorem mem_names_iff {n : String} : n ∈ t.names l ↔ t.at? (l ++ [n]) ≠ none := by
  rw [names_eq, List.mem_mergeSort, List.mem_filterMap,
    at_ne_none_iff (List.append_ne_nil_of_right_ne_nil l (by simp))]
  constructor
  · rintro ⟨m, hm, hname⟩
    rwa [← childName?_eq_some_iff.1 hname]
  · exact fun h => ⟨l ++ [n], h, childName?_eq_some_iff.2 rfl⟩

/-- No name is listed twice. -/
theorem IsOnce.nodup_names (h : t.IsOnce) (l : Location) : (t.names l).Nodup := by
  rw [names_eq]
  refine (List.mergeSort_perm _ _).nodup_iff.2 (List.Nodup.filterMap (fun m m' n hm hm' => ?_) h)
  rw [childName?_eq_some_iff.1 hm, childName?_eq_some_iff.1 hm']

/-- Trees with the same entries in a directory list the same. -/
theorem names_congr (ht : t.IsProper) (hu : u.IsProper)
    (h : ∀ n, u.at? (l ++ [n]) = t.at? (l ++ [n])) :
    u.names l = t.names l := by
  have hperm : (u.names l).Perm (t.names l) :=
    (List.perm_ext_iff_of_nodup (IsOnce.nodup_names hu.once l) (IsOnce.nodup_names ht.once l)).2
        fun n => by
      rw [mem_names_iff, mem_names_iff, h n]
  -- Sorted lists with the same members are the same.
  have hle : (fun a b : String => !decide (b < a)) = fun a b => decide (a ≤ b) := by
    funext a b
    simp only [← not_lt, decide_not]
  have hsorted : ∀ v : Tree, (v.names l).Pairwise fun a b => a ≤ b := by
    intro v
    rw [names_eq, hle]
    have hpairwise := @List.pairwise_mergeSort String (fun a b => decide (a ≤ b))
      (fun a b c => by simpa using le_trans) (fun a b => by simpa using le_total a b)
      ((v.entries.map Prod.fst).filterMap (childName? l))
    exact hpairwise.imp fun h => by simpa using h
  exact hperm.eq_of_pairwise (fun a b _ _ hab hba => le_antisymm hab hba) (hsorted u) (hsorted t)

end Tree

variable {σ : Type} {s s' : Session σ} {p : Path}

/-! ## Reading where trees are the same -/

/-- A path leads to a directory if one stands there. -/
theorem Session.isDirectory_eq (hp : p.IsGrounded) (hfits : p.Fits)
    (hbased : s.tree.Based p.names) :
    s.isDirectory p = .ok ((s.tree.at? p.names).any Tree.Entry.isDirectory) := by
  unfold isDirectory probe
  rw [Tree.probe_eq hp hfits hbased]
  rfl

/-- The text at a path is that of the file that stands there. -/
theorem Session.readText_eq (hp : p.IsGrounded) (hfits : p.Fits) (hbased : s.tree.Based p.names) :
    s.readText p = match s.tree.at? p.names with
      | none => .error (.missingText p)
      | some .directory => .error (.tree .isDirectory p)
      | some (.file bytes _) => textOf bytes := by
  unfold readText probe
  rw [Tree.probe_eq hp hfits hbased]
  rfl

/-- What is found at a path is what stands at its names. -/
theorem Session.inspect_eq_ok_iff (hp : p.IsGrounded) {l : Location} {e : Tree.Entry} :
    s.inspect p = .ok (l, e) ↔ p.Fits ∧ l = p.names ∧ s.tree.Leads p.names ∧
      s.tree.at? p.names = some e :=
  inspect_iff.trans (Tree.inspect_eq_ok_iff hp)

/-- A file is found where it stands, and its bytes are read. -/
theorem Session.inspect_of_file (hp : p.IsGrounded) (hfits : p.Fits) (hsound : s.tree.IsSound)
    {bytes : ByteArray} {stamp : Stamp} (hentry : s.tree.at? p.names = some (.file bytes stamp)) :
    s.inspect p = .ok (p.names, .file bytes stamp) :=
  (inspect_eq_ok_iff hp).2 ⟨hfits, rfl, hsound.leads ⟨bytes, stamp, hentry⟩, hentry⟩

/-- The bytes of a file are read at its path. -/
theorem Session.readBytes_of_file (hp : p.IsGrounded) (hfits : p.Fits) (hsound : s.tree.IsSound)
    {bytes : ByteArray} {stamp : Stamp} (hentry : s.tree.at? p.names = some (.file bytes stamp)) :
    s.readBytes p = .ok bytes := by
  unfold readBytes
  rw [inspect_of_file hp hfits hsound hentry]
  rfl

/-- The names in a directory are those of what stands in it. -/
theorem Session.at_ne_none_of_mem_names? (hp : p.IsGrounded) {names : List String}
    (h : s.names? p = .ok names) {name : String} (hname : name ∈ names) :
    s.tree.at? p.names = some .directory ∧ s.tree.at? (p.names ++ [name]) ≠ none := by
  obtain ⟨l, hinspect, rfl⟩ := names?_eq_ok_iff.1 h
  obtain ⟨-, rfl, -, hentry⟩ := (inspect_eq_ok_iff hp).1 hinspect
  exact ⟨hentry, Tree.mem_names_iff.1 hname⟩

/-- The same is listed where the same stands at a path, above it and in it. -/
theorem Session.names?_congr_of_same (hp : p.IsGrounded) (hfits : p.Fits)
    (hplace : s'.place = s.place) (hproper : s.tree.IsProper) (hproper' : s'.tree.IsProper)
    (hat : Tree.SameAt p.names s.tree s'.tree) (habove : Tree.SameAbove p.names s.tree s'.tree)
    (hbelow : ∀ n, s'.tree.at? (p.names ++ [n]) = s.tree.at? (p.names ++ [n])) :
    s'.names? p = s.names? p := by
  unfold names?
  rw [inspect_congr_of_same hp hfits hplace hat habove]
  cases hfound : s.inspect p with
  | error fault => rfl
  | ok found =>
    obtain ⟨l, e⟩ := found
    obtain ⟨-, rfl, -⟩ := (inspect_eq_ok_iff hp).1 hfound
    cases e with
    | file bytes stamp => rfl
    | directory =>
      simp only [bind, Except.bind]
      rw [Tree.names_congr hproper hproper' hbelow]

namespace Action

/-! ## Making directories -/

/-- An action makes a directory and those above it. It does so where no file stands in the way, and
where one does it fails and changes nothing. -/
structure MakesDirectory (a : Action σ Unit) (p : Path) : Prop where
  /-- Where no file stands in the way, the directory stands, and nothing else changed. -/
  clear : ∀ s : Session σ, s.tree.Clear p.names →
    ∃ t, a s = (.ok ⟨⟩, { s with tree := t }) ∧ Tree.Grows p.names s.tree t ∧ t.Stands p.names
  /-- Where a file does, it fails, with a fault that depends on where the file stands. -/
  blocked : ∀ k, k <+: p.names → ∃ fault, ∀ s : Session σ, s.tree.IsSound → s.tree.HasFile k →
    a s = (.error fault, s)
  /-- The tree stays proper. -/
  proper : ∀ s : Session σ, s.tree.IsProper → (a s).2.tree.IsProper

/-- A path that is located has no file above it. -/
theorem locate_of_hasFile (hp : p.IsGrounded) (hfits : p.Fits) {t : Tree} {cwd : Path}
    {k : Location} (hsound : t.IsSound) (hk : k <+: p.names) (hfile : t.HasFile k) :
    t.locate cwd p = if k = p.names then .ok p.names else .error .notDirectory := by
  split
  · rename_i heq
    rw [heq] at hfile
    exact (Tree.locate_eq_ok_iff hp).2 ⟨hfits, rfl, hsound.leads hfile⟩
  · rename_i hne
    rcases Tree.locate_cases (t := t) cwd hp hfits with ⟨-, hleads⟩ | ⟨m, hm, -, hleads,
      ⟨-, hnone⟩ | ⟨hlocate, -⟩⟩
    · exact absurd hleads (Tree.not_leads_of_file_above hk hne hfile)
    · -- Nothing can be missing above a file, and nothing stands below one.
      rcases List.prefix_or_prefix_of_prefix hm hk with hmk | hkm
      · obtain ⟨bytes, stamp, hentry⟩ := hfile
        by_cases heq : m = k
        · rw [heq, hentry] at hnone
          cases hnone
        · have hdirectory := hsound.leads ⟨bytes, stamp, hentry⟩ m hmk heq
          rw [hdirectory] at hnone
          cases hnone
      · by_cases heq : k = m
        · obtain ⟨bytes, stamp, hentry⟩ := hfile
          rw [heq, hnone] at hentry
          cases hentry
        · exact absurd hleads (Tree.not_leads_of_file_above hkm heq hfile)
    · exact hlocate

/-- A proper tree is proper still once directories are made. -/
theorem isProper_makeDirectories (hp : p.IsGrounded) (hproper : s.tree.IsProper) :
    (makeDirectories p s).2.tree.IsProper := by
  have hmade : (s.tree.makeDirectoriesUpTo s.place.cwd p p.names.length).2.IsProper :=
    hproper.makeDirectoriesUpTo hp p.names.length
  unfold makeDirectories Tree.makeDirectories
  generalize Tree.makeDirectoriesUpTo s.place.cwd p p.names.length s.tree = result at hmade ⊢
  obtain ⟨⟨cause, q⟩ | u, t⟩ := result <;> exact hmade

/-- A proper tree is proper still once a directory is made sure of. -/
theorem isProper_ensureDirectory (hp : p.IsGrounded) (hproper : s.tree.IsProper) :
    (ensureDirectory p true s).2.tree.IsProper := by
  unfold ensureDirectory
  rw [bind_apply, observe_apply]
  cases s.probe p with
  | error fault => exact hproper
  | ok e? =>
    match e? with
    | some .directory => exact hproper
    | some (.file _ _) => exact hproper
    | none => exact isProper_makeDirectories hp hproper

/-- Making the directories of a path makes a directory. -/
theorem makesDirectory_makeDirectories (hp : p.IsGrounded) (hfits : p.Fits) :
    (makeDirectories p : Action σ Unit).MakesDirectory p where
  clear s hclear := by
    obtain ⟨r, t, happly, hgrows, hok, htotal⟩ := makeDirectories_spec hp s
    obtain rfl : r = .ok () := htotal hfits hclear
    exact ⟨t, happly, hgrows, (hok rfl).2⟩
  blocked k hk := by
    refine ⟨.tree (if k = p.names then .present else .notDirectory) p, fun s hsound hfile => ?_⟩
    have hlocate : s.tree.locate s.place.cwd p = _ := locate_of_hasFile hp hfits hsound hk hfile
    have hmake : s.tree.makeDirectory s.place.cwd p =
        .error (if k = p.names then .present else .notDirectory) := by
      unfold Tree.makeDirectory
      rw [hlocate]
      by_cases heq : k = p.names
      · obtain ⟨bytes, stamp, hentry⟩ := hfile
        rw [heq] at hentry
        simp only [heq, if_true, bind, Except.bind, hentry]
      · simp only [heq, if_false]
        rfl
    have hnot : ¬Tree.makeDirectoriesUpTo.isDirectoryAt s.place.cwd p s.tree = true := by
      intro hdirectory
      have hstands := ((Tree.isDirectoryAt_iff hp).1 hdirectory).2
      exact Tree.not_hasFile_of_directory (hstands k hk) hfile
    have hmissing : s.tree.makeDirectory s.place.cwd p ≠ .error .missing := by
      rw [hmake]
      split <;> exact fun h => by cases h
    unfold makeDirectories Tree.makeDirectories
    rw [Tree.makeDirectoriesUpTo_of_ne _ hmissing, hmake]
    simp only [hnot]
    rfl
  proper _ hproper := isProper_makeDirectories hp hproper

/-- Making sure of a directory makes it. -/
theorem makesDirectory_ensureDirectory (hp : p.IsGrounded) (hfits : p.Fits) :
    (ensureDirectory p true : Action σ Unit).MakesDirectory p where
  clear s hclear := by
    obtain ⟨r, t, happly, hgrows, hok, htotal⟩ := ensureDirectory_spec hp s
    obtain rfl : r = .ok () := htotal hfits hclear
    exact ⟨t, happly, hgrows, (hok rfl).2⟩
  blocked k hk := by
    obtain ⟨fault, hblocked⟩ := (makesDirectory_makeDirectories (σ := σ) hp hfits).blocked k hk
    refine ⟨if k = p.names then .occupied p else fault, fun s hsound hfile => ?_⟩
    have hprobe : s.probe p = .ok (s.tree.at? p.names) := by
      unfold Session.probe
      rw [Tree.probe_eq hp hfits (hsound _)]
      rfl
    unfold ensureDirectory
    rw [bind_apply, observe_apply, hprobe]
    by_cases heq : k = p.names
    · obtain ⟨bytes, stamp, hentry⟩ := hfile
      rw [heq] at hentry
      simp only [hentry, heq, if_true]
      rfl
    · -- Nothing stands below a file.
      have hnone : s.tree.at? p.names = none := by
        by_contra hsome
        obtain ⟨e, he⟩ := Option.ne_none_iff_exists'.1 hsome
        exact Tree.not_leads_of_file_above hk heq hfile (hsound _ e he)
      simp only [hnone, heq, if_true, if_false]
      exact hblocked s hsound hfile
  proper _ hproper := isProper_ensureDirectory hp hproper

end Action

/-! ## Writing files -/

/-- A session once a file was written in it. -/
def Session.put (s : Session σ) (l : Location) (bytes : ByteArray) : Session σ :=
  { s with tree := s.tree.put l (.file bytes (.fresh s.clock)), clock := s.clock + 1 }

namespace Action

variable {bytes : ByteArray}

/-- No file is written where a directory stands. -/
theorem putAt_of_directory (hp : p.IsGrounded) (hfits : p.Fits) (hleads : s.tree.Leads p.names)
    (hdirectory : s.tree.at? p.names = some .directory) :
    putAt p bytes s = (.error (.tree .isDirectory p), s) := by
  have hlocate : s.tree.locate s.place.cwd p = .ok p.names :=
    (Tree.locate_eq_ok_iff hp).2 ⟨hfits, rfl, hleads⟩
  have hlocation : fileLocation s p = .error (.tree .isDirectory p) := by
    unfold fileLocation
    rw [hlocate]
    simp only [Except.mapError, bind, Except.bind, hdirectory]
  unfold putAt
  rw [bind_apply, observe_apply, hlocation]

/-- A file is written in a directory where no directory stands. -/
theorem putAt_of_free (hp : p.IsGrounded) (hfits : p.Fits) (hleads : s.tree.Leads p.names)
    (hfree : s.tree.at? p.names ≠ some .directory) :
    putAt p bytes s = (.ok ⟨⟩, s.put p.names bytes) := by
  have hlocation : fileLocation s p = .ok p.names :=
    (fileLocation_eq_ok_iff hp).2 ⟨hfits, rfl, hleads, hfree⟩
  unfold putAt
  rw [bind_apply, observe_apply, hlocation]
  rfl

end Action

end StaticSite
