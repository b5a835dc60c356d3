import StaticSite.Proofs.Text.Infix
import StaticSite.Proofs.Tree.Keeping

/-!
# Directories that paths open

A path opens a directory if it leads there (`Tree.Opens`). Nothing is asked of the path, which may
be relative and lead up as well as down: where it leads is where its names go, one by one
(`Path.spot`). A directory that is ensured is opened (`opens_of_ensureDirectory`), and below one
that is open making a directory or a file puts at most that one entry into the tree
(`ensureDirectory_child`, `putAt_child`).
-/

namespace StaticSite

namespace Path

/-- Where the names of a path go if each leads on, or back up. -/
def spot (p cwd : Path) : Location := p.names.foldl enter (if p.isAbsolute then [] else cwd.names)

variable {cwd p : Path} {name : String}

/-- The spot of a child is that of its directory with the name added. -/
theorem spot_child (hname : name ≠ "..") : (p.child name).spot cwd = p.spot cwd ++ [name] := by
  have habsolute : (p.child name).isAbsolute = p.isAbsolute := rfl
  unfold spot
  rw [habsolute, child, List.foldl_append, List.foldl_cons, List.foldl_nil, enter,
    if_neg (by simpa using hname)]

/-- A name on the way to where a path leads is one of the path, or of the working directory. -/
theorem mem_spot {n : String} (h : n ∈ p.spot cwd) : n ∈ cwd.names ∨ (n ∈ p.names ∧ n ≠ "..") := by
  refine (mem_foldl_enter h).imp_left fun hstart => ?_
  split at hstart
  · cases hstart
  · exact hstart

/-- Entering names leads no deeper than there are names. -/
theorem length_foldl_enter_le (names start : List String) :
    (names.foldl enter start).length ≤ start.length + names.length := by
  induction names generalizing start with
  | nil => exact Nat.le_refl _
  | cons n names ih =>
    have hstep : (enter start n).length ≤ start.length + 1 := by
      unfold enter
      split
      · rw [List.length_dropLast]
        omega
      · rw [List.length_append, List.length_singleton]
    have hrest := ih (enter start n)
    rw [List.foldl_cons, List.length_cons]
    omega

/-- The spot of a path is no deeper than its names and those it is relative to. -/
theorem length_spot_le (p cwd : Path) :
    (p.spot cwd).length ≤ cwd.names.length + p.names.length := by
  have h := length_foldl_enter_le p.names (if p.isAbsolute then [] else cwd.names)
  have hstart : (if p.isAbsolute then [] else cwd.names : List String).length ≤
      cwd.names.length := by
    split
    · exact Nat.zero_le _
    · exact Nat.le_refl _
  unfold spot
  omega

/-- A path leads to a place below that of another one. -/
def LiesBelow (p above cwd : Path) : Prop :=
  above.spot cwd <+: p.spot cwd ∧ above.spot cwd ≠ p.spot cwd

instance (p above cwd : Path) : Decidable (p.LiesBelow above cwd) :=
  inferInstanceAs (Decidable (above.spot cwd <+: p.spot cwd ∧ above.spot cwd ≠ p.spot cwd))

/-- A path with names is written as its root and its names. -/
theorem toString_of_ne_nil (h : p.names ≠ []) :
    p.toString = p.root.text ++ "/".intercalate p.names := by
  unfold toString
  split
  · exact absurd ‹_› h
  · rfl

/-- What does not stand in the text of a path does not stand in its names. -/
theorem notMem_of_mem_names {c : Char} (h : c ∉ p.toString.toList) {n : String} (hn : n ∈ p.names) :
    c ∉ n.toList := by
  intro hc
  rw [toString_of_ne_nil (List.ne_nil_of_mem hn)] at h
  exact h ((Text.isInfix_append_right (Text.isInfix_intercalate hn)).subset hc)

/-- A character of the text of an entry stands in the text of the directory or in the name, or
separates them. -/
theorem mem_toString_child {c : Char} (hc : c ≠ '/') (h : c ∈ (p.child name).toString.toList) :
    c ∈ p.toString.toList ∨ c ∈ name.toList := by
  have hroot : c ∉ p.root.text.toList := by
    cases p.root <;> simp [Root.text, hc]
  rw [toString_of_ne_nil (by simp [child])] at h
  change c ∈ (p.root.text ++ "/".intercalate (p.names ++ [name])).toList at h
  rw [String.toList_append, List.mem_append] at h
  have hjoined := h.resolve_left hroot
  by_cases hnil : p.names = []
  · rw [hnil, List.nil_append, String.intercalate_singleton] at hjoined
    exact .inr hjoined
  · rw [String.intercalate_append_of_ne_nil hnil (List.cons_ne_nil name []),
      String.intercalate_singleton, String.toList_append, String.toList_append, List.mem_append,
      List.mem_append] at hjoined
    rcases hjoined with (hjoined | hjoined) | hjoined
    · rw [toString_of_ne_nil hnil, String.toList_append, List.mem_append]
      exact .inl (.inr hjoined)
    · exact absurd (by simpa using hjoined) hc
    · exact .inr hjoined

end Path

namespace Tree

variable {t t' : Tree} {cwd p : Path} {l k : Location} {name : String}

/-- A path is looked up if the system takes its text, from the root or from the working directory.
-/
theorem locate_eq_ite (t : Tree) (cwd p : Path) :
    t.locate cwd p = if p.toString.toList.contains '\x00' then .error .nullCharacter
      else if pathLimit ≤ p.toString.utf8ByteSize then .error .tooLong
      else t.follow (if p.isAbsolute then [] else cwd.names) p.names := by
  unfold locate
  dsimp only
  split
  · rfl
  · split
    · rfl
    · split <;> rfl

/-- Following names leads where entering them does. -/
theorem follow_eq_foldl {names : List String} (h : t.follow l names = .ok k) :
    k = names.foldl Path.enter l := by
  induction names generalizing l with
  | nil =>
    cases h
    rfl
  | cons n rest ih =>
    unfold follow at h
    split at h
    · cases h
    · cases h
    · rw [List.foldl_cons, Path.enter]
      split at h
      · rename_i hname
        rw [if_pos hname]
        exact ih h
      · rename_i hname
        rw [if_neg hname]
        split at h
        · cases h
        · exact ih h

/-- A path leads to its spot, if anywhere. -/
theorem eq_spot_of_locate (h : t.locate cwd p = .ok l) : l = p.spot cwd := by
  rw [locate_eq_ite] at h
  split at h
  · cases h
  · split at h
    · cases h
    · exact follow_eq_foldl h

/-- Names that are followed go through directories, so that above where they lead directories
stand. -/
theorem leads_of_follow {names : List String} (hstands : t.Leads l) (h : t.follow l names = .ok k) :
    t.Leads k := by
  induction names generalizing l with
  | nil =>
    cases h
    exact hstands
  | cons n rest ih =>
    unfold follow at h
    split at h
    · cases h
    · cases h
    · rename_i hdirectory
      have hstands' : t.Stands l := hstands.stands hdirectory
      split at h
      · exact ih (hstands'.of_isPrefix (List.dropLast_prefix l)).leads h
      · split at h
        · cases h
        · refine ih (Stands.leads_of_dropLast ?_) h
          rwa [List.dropLast_concat]

/-- Directories stand above where a path leads, if the working directory stands. -/
theorem leads_of_locate (hcwd : t.Stands cwd.names) (h : t.locate cwd p = .ok l) : t.Leads l := by
  rw [locate_eq_ite] at h
  split at h
  · cases h
  · split at h
    · cases h
    · refine leads_of_follow ?_ h
      split
      · exact (hcwd.of_isPrefix List.nil_prefix).leads
      · exact hcwd.leads

/-- Following one more name goes on from where the names before it lead. -/
theorem follow_concat {names : List String} :
    t.follow l (names ++ [name]) = t.follow l names >>= fun k => t.follow k [name] := by
  induction names generalizing l with
  | nil => rfl
  | cons n rest ih =>
    rw [List.cons_append]
    unfold follow
    split
    · rfl
    · rfl
    · split
      · exact ih
      · split
        · rfl
        · exact ih

/-- A path leads to a directory. -/
structure Opens (t : Tree) (cwd p : Path) (l : Location) : Prop where
  /-- The path leads to a location. -/
  locate : t.locate cwd p = .ok l
  /-- A directory stands there. -/
  directory : t.at? l = some .directory

/-- A directory that a path opens stays open while nothing is taken away. -/
theorem Opens.keep (h : t.Opens cwd p l) (hkeeps : t.Keeps t') : t'.Opens cwd p l :=
  ⟨hkeeps.locate h.locate, hkeeps.directory l h.directory⟩

/-- A path opens a directory at its spot. -/
theorem Opens.eq_spot (h : t.Opens cwd p l) : l = p.spot cwd := eq_spot_of_locate h.locate

/-- A directory that a path opens stands, if the working directory does. -/
theorem Opens.stands (h : t.Opens cwd p l) (hcwd : t.Stands cwd.names) : t.Stands l :=
  (leads_of_locate hcwd h.locate).stands h.directory

/-- The text of a path that is opened ends nowhere early. -/
theorem Opens.whole (h : t.Opens cwd p l) : '\x00' ∉ p.toString.toList := by
  intro hnull
  have hlocate := h.locate
  rw [locate_eq_ite, if_pos (by simpa using hnull)] at hlocate
  cases hlocate

/-- A path that is opened has hardly more names than its text may have bytes. -/
theorem Opens.length_le (h : t.Opens cwd p l) : p.names.length ≤ pathLimit := by
  have hlocate := h.locate
  rw [locate_eq_ite, if_neg (by simpa using h.whole)] at hlocate
  split at hlocate
  · cases hlocate
  · rename_i hshort
    by_cases hnames : p.names = []
    · rw [hnames]
      exact Nat.zero_le _
    · have hlength := Path.length_le_utf8ByteSize p.names
      rw [Path.toString_of_ne_nil hnames, String.utf8ByteSize_append] at hshort
      omega

/-- An entry of a directory that is opened is found by its name, unless the system does not take the
path. -/
theorem Opens.locate_child (h : t.Opens cwd p l) (hname : name ≠ "..") :
    t.locate cwd (p.child name) = .ok (l ++ [name]) ∨ t.locate cwd (p.child name) =
      .error .tooLong ∨
      ('\x00' ∈ name.toList ∧ t.locate cwd (p.child name) = .error .nullCharacter) := by
  have hlocate := h.locate
  rw [locate_eq_ite, if_neg (by simpa using h.whole)] at hlocate
  rw [locate_eq_ite]
  by_cases hnull : '\x00' ∈ (p.child name).toString.toList
  · rw [if_pos (by simpa using hnull)]
    exact .inr (.inr ⟨(Path.mem_toString_child (by decide) hnull).resolve_left h.whole, rfl⟩)
  rw [if_neg (by simpa using hnull)]
  split
  · exact .inr (.inl rfl)
  split at hlocate
  · cases hlocate
  have hfollow : t.follow (if (p.child name).isAbsolute then [] else cwd.names)
    (p.child name).names =
      t.follow l [name] := by
    rw [Path.child, follow_concat]
    exact congrArg (· >>= fun k => t.follow k [name]) hlocate
  rw [hfollow]
  simp only [follow, h.directory, beq_iff_eq, hname, if_false]
  split
  · exact .inr (.inl rfl)
  · exact .inl rfl

/-- What stands at a path that opens a directory. -/
theorem Opens.inspect (h : t.Opens cwd p l) : t.inspect cwd p = .ok (l, .directory) := by
  simp only [Tree.inspect, h.locate, bind, Except.bind, h.directory]

/-- A path that opens a directory shows one. -/
theorem Opens.probe (h : t.Opens cwd p l) : t.probe cwd p = .ok (some .directory) := by
  rw [Tree.probe, h.inspect]

/-- A path that leads to a directory opens it. -/
theorem opens_of_inspect (h : t.inspect cwd p = .ok (l, .directory)) : t.Opens cwd p l := by
  unfold Tree.inspect at h
  cases hlocate : t.locate cwd p with
  | error cause => rw [hlocate] at h; cases h
  | ok m =>
    rw [hlocate] at h
    simp only [bind, Except.bind] at h
    split at h
    · rename_i e he
      cases h
      exact ⟨hlocate, he⟩
    · cases h

/-- A path that shows a directory opens one. -/
theorem exists_opens_of_probe (h : t.probe cwd p = .ok (some .directory)) :
    ∃ l, t.Opens cwd p l := by
  unfold Tree.probe at h
  split at h
  · rename_i m e hinspect
    cases h
    exact ⟨m, opens_of_inspect hinspect⟩
  · cases h
  · cases h

/-! ## Making directories -/

/-- A directory cannot be made where one is open. -/
theorem Opens.makeDirectory (h : t.Opens cwd p l) : t.makeDirectory cwd p = .error .present := by
  simp only [Tree.makeDirectory, h.locate, bind, Except.bind, h.directory]

/-- Making one directory puts it where its path leads. -/
theorem exists_locate_of_makeDirectory (h : t.makeDirectory cwd p = .ok t') :
    ∃ l, t.locate cwd p = .ok l ∧ l ≠ [] ∧ t' = t.put l .directory := by
  unfold Tree.makeDirectory at h
  cases hlocate : t.locate cwd p with
  | error cause => rw [hlocate] at h; cases h
  | ok l =>
    rw [hlocate] at h
    simp only [bind, Except.bind] at h
    split at h
    · cases h
    · rename_i hnone
      cases h
      exact ⟨l, rfl, fun hl => (by rw [hl, at_root] at hnone; cases hnone), rfl⟩

/-- A directory that is made, or found, is opened. -/
theorem exists_opens_of_made (h : (match t.makeDirectory cwd p with
      | .ok t => ((.ok (), t) : Except (TreeCause × Path) Unit × Tree)
      | .error cause =>
        if makeDirectoriesUpTo.isDirectoryAt cwd p t then (.ok (), t) else (.error (cause, p), t)) =
          (.ok (), t')) :
    ∃ l, t'.Opens cwd p l := by
  cases hmade : t.makeDirectory cwd p with
  | ok t₁ =>
    rw [hmade] at h
    cases h
    have hkeeps := keeps_of_makeDirectory hmade
    obtain ⟨l, hlocate, hroot, rfl⟩ := exists_locate_of_makeDirectory hmade
    exact ⟨l, hkeeps.locate hlocate, at_put_self t _ hroot⟩
  | error cause =>
    rw [hmade] at h
    dsimp only at h
    split at h
    · rename_i hdirectory
      cases h
      unfold makeDirectoriesUpTo.isDirectoryAt at hdirectory
      split at hdirectory
      · rename_i e he
        cases e with
        | directory => exact exists_opens_of_probe he
        | file bytes stamp => cases hdirectory
      · cases hdirectory
    · cases h

/-- Directories that are made can be opened. -/
theorem exists_opens_of_makeDirectories (h : t.makeDirectories cwd p = (.ok (), t')) :
    ∃ l, t'.Opens cwd p l := by
  unfold makeDirectories at h
  generalize p.names.length = n at h
  by_cases hmissing : t.makeDirectory cwd p = .error .missing
  · unfold makeDirectoriesUpTo at h
    rw [hmissing] at h
    cases n with
    | zero => cases h
    | succ n =>
      dsimp only at h
      split at h
      · cases h
      · -- Those above are made first, and then the directory itself.
        generalize makeDirectoriesUpTo cwd p.parent n t = result at h
        obtain ⟨cause | u, t₁⟩ := result
        · cases h
        · exact exists_opens_of_made h
  · rw [makeDirectoriesUpTo_of_ne n hmissing] at h
    exact exists_opens_of_made h

/-- There is nothing to make where a directory is open. -/
theorem Opens.makeDirectories (h : t.Opens cwd p l) : t.makeDirectories cwd p = (.ok (), t) := by
  have hdirectory : makeDirectoriesUpTo.isDirectoryAt cwd p t = true := by
    rw [makeDirectoriesUpTo.isDirectoryAt, h.probe]
    rfl
  rw [Tree.makeDirectories,
    makeDirectoriesUpTo_of_ne _ (by rw [h.makeDirectory]; exact fun h => by cases h),
    h.makeDirectory]
  simp only [hdirectory, if_true]

/-- Making a directory in one that is opened puts at most that one into the tree. -/
theorem Opens.makeDirectories_child (h : t.Opens cwd p l) (hname : name ≠ "..") :
    (t.makeDirectories cwd (p.child name)).2 = t ∨
      (t.makeDirectories cwd (p.child name)).2 = t.put (l ++ [name]) .directory := by
  -- Where making the directory fails, but not for want of one above it, nothing is made.
  have hself (hne : t.makeDirectory cwd (p.child name) ≠ .error .missing)
      (hfails : ∀ t', t.makeDirectory cwd (p.child name) ≠ .ok t') :
        (t.makeDirectories cwd (p.child name)).2 = t := by
    rw [Tree.makeDirectories, makeDirectoriesUpTo_of_ne _ hne]
    cases hmade : t.makeDirectory cwd (p.child name) with
    | ok t' => exact absurd hmade (hfails t')
    | error cause =>
      dsimp only
      split <;> rfl
  rcases h.locate_child hname with hlocate | hlocate | ⟨-, hlocate⟩
  · cases hentry : t.at? (l ++ [name]) with
    | some e =>
      have hmade : t.makeDirectory cwd (p.child name) = .error .present := by
        simp only [Tree.makeDirectory, hlocate, bind, Except.bind, hentry]
      exact .inl
        (hself (by rw [hmade]; exact fun h => by cases h)
          (by rw [hmade]; exact fun t' h => by cases h))
    | none =>
      have hmade : t.makeDirectory cwd (p.child name) = .ok (t.put (l ++ [name]) .directory) := by
        simp only [Tree.makeDirectory, hlocate, bind, Except.bind, hentry]
      refine .inr ?_
      rw [Tree.makeDirectories,
        makeDirectoriesUpTo_of_ne _ (by rw [hmade]; exact fun h => by cases h), hmade]
  · have hmade : t.makeDirectory cwd (p.child name) = .error .tooLong := by
      simp only [Tree.makeDirectory, hlocate, bind, Except.bind]
    exact .inl
      (hself (by rw [hmade]; exact fun h => by cases h)
        (by rw [hmade]; exact fun t' h => by cases h))
  · have hmade : t.makeDirectory cwd (p.child name) = .error .nullCharacter := by
      simp only [Tree.makeDirectory, hlocate, bind, Except.bind]
    exact .inl
      (hself (by rw [hmade]; exact fun h => by cases h)
        (by rw [hmade]; exact fun t' h => by cases h))

end Tree

variable {σ : Type} {s s' : Session σ} {p : Path} {l : Location} {name : String}

/-- A path opens a directory in the tree of a session. -/
abbrev Session.Opens (s : Session σ) (p : Path) (l : Location) : Prop :=
  s.tree.Opens s.place.cwd p l

/-- A directory that a path opens stays open while no file is taken away. -/
theorem Session.Opens.keep (h : s.Opens p l) (hkeeps : s.KeepsFiles s') : s'.Opens p l := by
  rw [Session.Opens, hkeeps.place]
  exact Tree.Opens.keep h hkeeps.tree

/-- What is listed is a directory that is opened. -/
theorem Session.exists_opens_of_names? {names : List String} (h : s.names? p = .ok names) :
    ∃ l, s.Opens p l ∧ names = s.tree.names l := by
  obtain ⟨l, hinspect, rfl⟩ := names?_eq_ok_iff.1 h
  exact ⟨l, Tree.opens_of_inspect (inspect_iff.1 hinspect), rfl⟩

/-- A directory in one that is opened is found to be one, unless the system does not take the
path. -/
theorem Session.isDirectory_child_ne_false (h : s.Opens p l) (hname : name ≠ "..")
    (hnull : '\x00' ∉ name.toList) (hdirectory : s.tree.at? (l ++ [name]) = some .directory) :
    s.isDirectory (p.child name) ≠ .ok false := by
  unfold isDirectory probe
  rcases Tree.Opens.locate_child h hname with hlocate | hlocate | ⟨hin, -⟩
  · have hopens : s.tree.Opens s.place.cwd (p.child name) (l ++ [name]) := ⟨hlocate, hdirectory⟩
    rw [hopens.probe]
    exact fun h => by cases h
  · have hprobe : s.tree.probe s.place.cwd (p.child name) = .error .tooLong := by
      simp only [Tree.probe, Tree.inspect, hlocate, bind, Except.bind]
    rw [hprobe]
    exact fun h => by cases h
  · exact absurd hin hnull

namespace Action

/-- Making directories in a session is making them in its tree. -/
theorem tree_makeDirectories (p : Path) (s : Session σ) :
    (makeDirectories p s).2.tree = (s.tree.makeDirectories s.place.cwd p).2 := by
  unfold makeDirectories
  rcases s.tree.makeDirectories s.place.cwd p with ⟨⟨cause, q⟩ | u, t⟩ <;> rfl

/-- Making directories changes nothing where one is open. -/
theorem makeDirectories_of_opens (h : s.Opens p l) : makeDirectories p s = (.ok (), s) := by
  unfold makeDirectories
  rw [Tree.Opens.makeDirectories h]

/-- A directory that is ensured is opened. -/
theorem exists_opens_of_ensureDirectory (h : ensureDirectory p true s = (.ok (), s')) :
    ∃ l, s'.Opens p l := by
  have hkeeps := isKeeping_ensureDirectory p s
  rw [h] at hkeeps
  unfold ensureDirectory at h
  obtain ⟨e?, s₁, hprobe, h⟩ := bind_apply_eq_ok.1 h
  rw [observe_apply] at hprobe
  obtain ⟨hprobe, rfl⟩ := Prod.mk.inj hprobe
  match e? with
  | some (.file bytes stamp) => cases h
  | some .directory =>
    cases h
    unfold Session.probe at hprobe
    cases hfound : s.tree.probe s.place.cwd p with
    | error cause => rw [hfound] at hprobe; cases hprobe
    | ok e? =>
      rw [hfound] at hprobe
      cases hprobe
      exact Tree.exists_opens_of_probe hfound
  | none =>
    change makeDirectories p s = (.ok (), s') at h
    unfold makeDirectories at h
    rcases hmade : s.tree.makeDirectories s.place.cwd p with ⟨⟨cause, q⟩ | u, t⟩ <;> rw [hmade] at h
    · cases h
    · cases h
      exact Tree.exists_opens_of_makeDirectories hmade

/-- Ensuring a directory does no more to the tree than making it. -/
theorem tree_ensureDirectory (p : Path) (s : Session σ) :
    (ensureDirectory p true s).2.tree = s.tree ∨
      (ensureDirectory p true s).2.tree = (s.tree.makeDirectories s.place.cwd p).2 := by
  unfold ensureDirectory
  rw [bind_apply, observe_apply]
  rcases s.probe p with fault | _ | _ | ⟨bytes, stamp⟩
  · exact .inl rfl
  · exact .inr (tree_makeDirectories p s)
  · exact .inl rfl
  · exact .inl rfl

/-- Ensuring a directory in one that is opened puts at most that one into the tree. -/
theorem ensureDirectory_child (h : s.Opens p l) (hname : name ≠ "..") :
    (ensureDirectory (p.child name) true s).2.tree = s.tree ∨
      (ensureDirectory (p.child name) true s).2.tree = s.tree.put (l ++ [name]) .directory := by
  rcases tree_ensureDirectory (p.child name) s with htree | htree
  · exact .inl htree
  · rw [htree]
    exact Tree.Opens.makeDirectories_child h hname

/-- Putting a file in a directory that is opened puts at most that one into the tree. -/
theorem putAt_child (h : s.Opens p l) (hname : name ≠ "..") (bytes : ByteArray) :
    (putAt (p.child name) bytes s).2.tree = s.tree ∨
      ∃ e, (putAt (p.child name) bytes s).2.tree = s.tree.put (l ++ [name]) e := by
  unfold putAt
  rw [bind_apply, observe_apply]
  cases hlocation : fileLocation s (p.child name) with
  | error fault => exact .inl rfl
  | ok k =>
    have hk : k = l ++ [name] := by
      rw [Tree.eq_spot_of_locate (locate_of_fileLocation hlocation).1, Path.spot_child hname,
        ← Tree.Opens.eq_spot h]
    subst hk
    exact .inr ⟨_, rfl⟩

end Action

end StaticSite
