import StaticSite.Output
import StaticSite.Proofs.Effect
import StaticSite.Proofs.Text.Infix
import StaticSite.Proofs.Tree.Frame

/-!
# Writing output files

Writing a text to an output file succeeds if and only if the tree accepts the path of the file
(`Tree.Accepts`), and then the file holds the text and nothing else changed but the directories made
above it. A write that fails may leave some of these directories (`write_spec`).
-/

namespace StaticSite

/-- A file can be written at a path: the system takes the path, and nothing stands in the way. -/
structure Tree.Accepts (t : Tree) (p : Path) : Prop where
  /-- The system takes the path. -/
  fits : p.Fits
  /-- No file stands above it, and no directory at it. -/
  writable : t.Writable p.names

namespace Path

variable {place : Place}

/-- What lies below an absolute path is absolute. -/
theorem isAbsolute_below {base : Path} (h : base.isAbsolute = true) (q : Path) :
    (below base q).isAbsolute = true := by
  unfold below
  split
  · assumption
  · exact h

/-- An absolute path starts at a root and never goes back up. -/
theorem isGrounded_absolute (hcwd : place.cwd.isAbsolute = true) (s : String) (base : Option Path) :
    (absolute place s base).IsGrounded where
  absolute := isAbsolute_below hcwd _
  descends hmem := (mem_normalNames hmem).2 rfl

/-- The file of an output is grounded, where relative paths refer to an absolute one. -/
theorem isGrounded_output (hcwd : place.cwd.isAbsolute = true) (directory : Path)
    (filename : String) : (Output.path place directory filename).IsGrounded :=
  isGrounded_absolute hcwd _ _

end Path

/-- The characters of a name are characters of the text of a path. -/
theorem Path.mem_toString {p : Path} (hp : p.IsGrounded) {n : String} (hn : n ∈ p.names) {c : Char}
    (hc : c ∈ n.toList) :
    c ∈ p.toString.toList := by
  rw [hp.toString_eq, String.toList_append]
  exact List.mem_append_right _ ((Text.isInfix_intercalate hn).subset hc)

/-- The names at the end of a path stay there where it is put below another. -/
theorem Path.isSuffix_below {base q : Path} {names : List String} (h : names <:+ q.names) :
    names <:+ (below base q).names := by
  unfold below
  split
  · exact h
  · exact h.trans (List.suffix_append _ _)

/-- A name that does not lead up is left where it comes last. -/
theorem Path.mem_normalNames_concat {n : String} (hn : n ≠ "..") (names : List String) :
    n ∈ normalNames (names ++ [n]) := by
  rw [normalNames, List.foldl_append, List.foldl_cons, List.foldl_nil, enter]
  simp [hn]

variable {σ : Type} {p : Path}

/-- Where no file stands in the way, a directory is found at a path, or nothing. -/
theorem Session.probe_of_clear (hp : p.IsGrounded) (hfits : p.Fits) {s : Session σ}
    (hclear : s.tree.Clear p.names) :
    s.probe p = .ok none ∨ s.probe p = .ok (some .directory) := by
  unfold probe Tree.probe Tree.inspect
  -- What is missing on the way is not found, which is no fault of a probe.
  rcases Tree.locate_of_clear s.place.cwd hp hfits hclear with hlocate | hlocate
  · simp only [hlocate, bind, Except.bind]
    cases hentry : s.tree.at? p.names with
    | none => exact .inl rfl
    | some e =>
      cases e with
      | directory => exact .inr rfl
      | file bytes stamp => exact absurd hentry (hclear p.names (List.prefix_refl _) bytes stamp)
  · rw [hlocate]
    exact .inl rfl

namespace Action

/-- Making the directories of a path works on the tree alone. -/
theorem makeDirectories_spec (hp : p.IsGrounded) (s : Session σ) :
    ∃ r t, makeDirectories p s = (r, { s with tree := t }) ∧ Tree.Grows p.names s.tree t ∧
      (r = .ok () → p.Fits ∧ t.Stands p.names) ∧ (p.Fits → s.tree.Clear p.names → r = .ok ()) := by
  obtain ⟨r, t, heq, hgrows, hok, htotal⟩ := Tree.makeDirectories_spec s.place.cwd hp s.tree
  unfold makeDirectories
  rw [heq]
  cases r with
  | ok u => exact ⟨_, _, rfl, hgrows, fun _ => hok rfl, fun _ _ => rfl⟩
  | error e =>
    refine ⟨_, _, rfl, hgrows, fun h => (by cases h), fun hfits hclear => ?_⟩
    cases htotal hfits hclear

/-- A directory that is ensured stands, with all above it. -/
theorem ensureDirectory_spec (hp : p.IsGrounded) (s : Session σ) :
    ∃ r t, ensureDirectory p true s = (r, { s with tree := t }) ∧ Tree.Grows p.names s.tree t ∧
      (r = .ok () → p.Fits ∧ t.Stands p.names) ∧ (p.Fits → s.tree.Clear p.names → r = .ok ()) := by
  unfold ensureDirectory
  rw [bind_apply]
  simp only [observe_apply]
  cases hprobe : s.probe p with
  | error fault =>
    refine ⟨_, _, rfl, .refl _ _, fun h => (by cases h), fun hfits hclear => ?_⟩
    rcases Session.probe_of_clear hp hfits hclear with h | h <;> rw [hprobe] at h <;> cases h
  | ok e? =>
    match e? with
    | none =>
      simp only [if_true]
      exact makeDirectories_spec hp s
    | some .directory =>
      refine ⟨_, _, rfl, .refl _ _, fun _ => ?_, fun _ _ => rfl⟩
      have hfound : s.tree.probe s.place.cwd p = .ok (some .directory) := by
        unfold Session.probe at hprobe
        cases h : s.tree.probe s.place.cwd p with
        | error cause => rw [h] at hprobe; cases hprobe
        | ok e? => rw [h] at hprobe; cases hprobe; rfl
      obtain ⟨hfits, hleads, hentry⟩ := (Tree.probe_eq_some_iff hp).1 hfound
      exact ⟨hfits, hleads.stands hentry⟩
    | some (.file bytes stamp) =>
      refine ⟨_, _, rfl, .refl _ _, fun h => (by cases h), fun hfits hclear => ?_⟩
      rcases Session.probe_of_clear hp hfits hclear with h | h <;> rw [hprobe] at h <;> cases h

/-- The location of a file that is to be written is that of its path. -/
theorem fileLocation_eq_ok_iff (hp : p.IsGrounded) {s : Session σ} {l : Location} :
    fileLocation s p = .ok l ↔
      p.Fits ∧ l = p.names ∧ s.tree.Leads p.names ∧ s.tree.at? p.names ≠ some .directory := by
  unfold fileLocation
  cases hlocate : s.tree.locate s.place.cwd p with
  | error cause =>
    constructor
    · intro h
      cases h
    · rintro ⟨hfits, -, hleads, -⟩
      exact absurd hleads (Tree.not_leads_of_locate_eq_error hp hlocate hfits)
  | ok k =>
    obtain ⟨hfits, rfl, hleads⟩ := (Tree.locate_eq_ok_iff hp).1 hlocate
    simp only [Except.mapError, bind, Except.bind]
    split
    · rename_i hentry
      exact ⟨fun h => (by cases h), fun h => absurd hentry h.2.2.2⟩
    · rename_i hentry
      simp only [Except.ok.injEq]
      exact ⟨fun h => ⟨hfits, h.symm, hleads, hentry⟩, fun h => h.2.1.symm⟩

/-- A write succeeds if and only if the tree accepts the path. -/
theorem writeText_spec (hp : p.IsGrounded) (text : String) (s : Session σ) :
    ∃ t clock, (s.tree.Accepts p ∧ Tree.Wrote p.names (Text.encode text) s.tree t ∧
        writeText p text s = (.ok ⟨⟩, { s with tree := t, clock })) ∨
      (¬s.tree.Accepts p ∧ Tree.Grows p.names.dropLast s.tree t ∧
        ∃ fault, writeText p text s = (.error fault, { s with tree := t, clock })) := by
  -- The directories above come first; that they cannot be made means that the tree does not accept
  -- the path.
  obtain ⟨r, t, hmake, hgrows, hok, htotal⟩ := makeDirectories_spec hp.parent s
  have haccepts : s.tree.Accepts p → r = .ok () :=
    fun h => htotal (h.fits.parent hp) h.writable.clear
  unfold writeText
  cases r with
  | error fault =>
    rw [bind_apply_error hmake]
    exact ⟨t, s.clock, .inr ⟨fun h => (by cases haccepts h), hgrows, fault, rfl⟩⟩
  | ok u =>
    obtain ⟨-, hstands⟩ := hok rfl
    have hleads : t.Leads p.names := hstands.leads_of_dropLast
    rw [bind_apply_ok hmake, bind_apply, observe_apply]
    cases hlocation : fileLocation { s with tree := t } p with
    | error fault =>
      -- The directories above stand now, so that a tree that accepts the path would give the
      -- location.
      refine ⟨t, s.clock, .inr ⟨fun h => ?_, hgrows, fault.ofReplacing, rfl⟩⟩
      have hfree : t.at? p.names ≠ some .directory := (hgrows.writable_iff.2 h.writable).free
      rw [(fileLocation_eq_ok_iff hp).2 ⟨h.fits, rfl, hleads, hfree⟩] at hlocation
      cases hlocation
    | ok l =>
      obtain ⟨hfits, rfl, -, hfree⟩ := (fileLocation_eq_ok_iff hp).1 hlocation
      have hroot : p.names ≠ [] := by
        intro hroot
        simp [hroot] at hfree
      have hwritable : s.tree.Writable p.names := hgrows.writable_iff.1 ⟨hstands.clear, hfree⟩
      refine ⟨t.put p.names (.file (Text.encode text) (.fresh s.clock)), s.clock + 1,
        .inl ⟨⟨hfits, hwritable⟩, ⟨?_, ?_, ?_⟩, rfl⟩⟩
      · exact ⟨_, Tree.at_put_self t _ hroot⟩
      · intro m hm hne
        rw [Tree.at_put_of_ne t _ hne]
        exact hleads m hm hne
      · -- The directories that were made and then the file: two changes that add up.
        refine hgrows.changedOnly.trans fun m => ?_
        by_cases hm : m = p.names
        · subst hm
          rw [Tree.at_put_self t _ hroot]
          exact .file _ _ rfl hfree
        · rw [Tree.at_put_of_ne t _ hm]
          exact .same _

end Action

/-- Where the home directory that a filename begins with cannot be looked up, the system does not
take the path that stands for the file. -/
theorem Output.not_fits_of_homeless {place : Place} {directory : Path} {filename : String}
    (hp : (path place directory filename).IsGrounded) (h : Path.hasHome (nameOf filename) ≠ true) :
    ¬(path place directory filename).Fits := by
  have hnames : Path.ofString (Path.expandHome place.home "\x00/\x00") =
      ⟨.relative, ["\x00", "\x00"]⟩ := by
    rw [Path.expandHome_eq_self (by decide)]
    decide
  -- The names that stand for the file come last, whatever they are put below.
  have hlast : "\x00" ∈ (path place directory filename).names := by
    unfold path Path.absolute
    rw [if_neg h, hnames]
    obtain ⟨front, hfront⟩ : ["\x00"] <:+
        (Path.below place.cwd (Path.below directory ⟨.relative, ["\x00", "\x00"]⟩)).names :=
      Path.isSuffix_below (Path.isSuffix_below ⟨["\x00"], rfl⟩)
    simp only [← hfront]
    exact Path.mem_normalNames_concat (by decide) front
  exact fun hfits => hfits.whole (Path.mem_toString hp hlast (by decide))

/-- The path of an output file, where there is one. -/
theorem Output.path_of_locate {place : Place} {directory : Path} {filename : String} {p : Path}
    (h : locate place directory filename = .ok p) : path place directory filename = p := by
  unfold locate at h
  split at h
  · exact Except.ok.inj h
  · cases h

/-- There is an output file for every filename but one that begins with a home directory that cannot
be looked up. -/
theorem Output.exists_locate_iff {place : Place} {directory : Path} {filename : String} :
    (∃ p, locate place directory filename = .ok p) ↔ Path.hasHome (nameOf filename) = true := by
  unfold locate
  split
  · exact iff_of_true ⟨_, rfl⟩ ‹_›
  · exact iff_of_false (fun ⟨p, hp⟩ => by cases hp) ‹_›

/-- The path of an output file is looked up, or no tree accepts it. -/
theorem Output.locate_cases {place : Place} (hcwd : place.cwd.isAbsolute = true) (directory : Path)
    (filename : String) :
    locate place directory filename = .ok (path place directory filename) ∨
      (∃ fault, locate place directory filename = .error fault) ∧
        ∀ t : Tree, ¬t.Accepts (path place directory filename) := by
  unfold locate
  by_cases h : Path.hasHome (nameOf filename) = true
  · exact .inl (if_pos h)
  · have hgrounded := Path.isGrounded_output hcwd directory filename
    exact .inr ⟨⟨_, if_neg h⟩, fun t haccepts => not_fits_of_homeless hgrounded h haccepts.fits⟩

/-- Writing an output file succeeds if and only if the tree accepts its path. -/
theorem Output.write_spec (directory : Path) (filename text : String) {s : Session σ}
    (hcwd : s.place.cwd.isAbsolute = true) :
    ∃ t clock log, (s.tree.Accepts (Output.path s.place directory filename) ∧
        Tree.Wrote (Output.path s.place directory filename).names (Text.encode text) s.tree t ∧
        Output.write .onTree directory filename text s =
          (.ok (Output.path s.place directory filename), { s with tree := t, clock, log })) ∨
      (¬s.tree.Accepts (Output.path s.place directory filename) ∧
        Tree.Grows (Output.path s.place directory filename).names.dropLast s.tree t ∧
        ∃ fault, Output.write .onTree directory filename text s =
          (.error fault, { s with tree := t, clock, log })) := by
  rcases Output.locate_cases hcwd directory filename with hlocate | ⟨⟨fault, hlocate⟩, hrefused⟩
  case inr =>
    refine ⟨s.tree, s.clock, s.log, .inr ⟨hrefused s.tree, .refl _ _, fault, ?_⟩⟩
    rw [Output.write, bind_apply, Action.observe_apply, hlocate]
  generalize hp' : Output.path s.place directory filename = p
  have hp : p.IsGrounded := hp' ▸ Path.isGrounded_output hcwd directory filename
  rw [hp'] at hlocate
  obtain ⟨r, t, hensure, hgrows, hok, htotal⟩ := Action.ensureDirectory_spec hp.parent s
  -- Making directories above a file takes nothing away from where it may be written.
  have haccepts : t.Accepts p ↔ s.tree.Accepts p :=
    ⟨fun h => ⟨h.fits, hgrows.writable_iff.1 h.writable⟩,
      fun h => ⟨h.fits, hgrows.writable_iff.2 h.writable⟩⟩
  unfold Output.write
  rw [bind_apply, Action.observe_apply, hlocate]
  simp only [FileStore.onTree]
  cases r with
  | error fault =>
    rw [bind_apply_error hensure]
    exact ⟨t, s.clock, s.log,
      .inr ⟨fun h => (by cases htotal (h.fits.parent hp) h.writable.clear), hgrows, fault, rfl⟩⟩
  | ok u =>
    rw [bind_apply_ok hensure]
    obtain ⟨t', clock, ⟨ha, hwrote, hwrite⟩ | ⟨ha, hgrows', fault, hwrite⟩⟩ :=
      Action.writeText_spec hp text { s with tree := t }
    · refine ⟨t', clock, s.log ++ [⟨.debug, .output, "Wrote " ++ p.toString⟩],
        .inl ⟨haccepts.1 ha, ⟨hwrote.file, hwrote.leads, ?_⟩, ?_⟩⟩
      · exact hgrows.changedOnly.trans hwrote.changedOnly
      · rw [bind_apply_ok hwrite, bind_apply_ok (Action.say_apply _ _ _ _)]
        rfl
    · refine ⟨t', clock, s.log, .inr ⟨fun h => ha (haccepts.2 h), hgrows.trans hgrows', fault, ?_⟩⟩
      rw [bind_apply_error hwrite]

end StaticSite
