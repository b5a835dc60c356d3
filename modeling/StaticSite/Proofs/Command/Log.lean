import StaticSite.Command.Run
import StaticSite.Proofs.Output

/-!
# Opening the file of the log

The file of the log can be opened if and only if the text that names it ends nowhere early and the
tree accepts its path (`CanOpen`, `openLog_spec`): no directory stands there, no file stands above
it, and the system takes the path. Where it cannot be opened, directories above it may have been
made, and nothing else was done.
-/

namespace StaticSite.Command

variable {σ : Type}

/-- The file of the log that a text names can be opened. -/
structure CanOpen (s : Session σ) (file : String) : Prop where
  /-- No character ends the text early. -/
  whole : '\x00' ∉ file.toList
  /-- A file can be written at its path. -/
  accepts : s.tree.Accepts (logPath s.place file)

/-- The path of the log is grounded. -/
theorem isGrounded_logPath (place : Place) (file : String) : (logPath place file).IsGrounded where
  absolute := rfl
  descends hmem := (Path.mem_normalNames hmem).2 rfl

/-- A file is claimed in every tree. -/
theorem claimFile_spec (l : Location) (s : Session σ) :
    ∃ f t clock, claimFile l s = (.ok f, { s with tree := t, clock }) := by
  unfold claimFile
  rw [bind_apply_ok (get_apply s)]
  rcases s.tree.at? l with _ | _ | ⟨bytes, stamp⟩
  · exact ⟨_, _, _, rfl⟩
  · exact ⟨_, _, _, rfl⟩
  · exact ⟨_, s.tree, s.clock, rfl⟩

/-- Opening the file of the log changes the file tree alone, and succeeds if and only if the file
can be opened. -/
theorem openLog_spec (file : String) (s : Session σ) :
    ∃ t clock, (CanOpen s file ∧ ∃ f, openLog file s = (.ok f, { s with tree := t, clock })) ∨
      (¬CanOpen s file ∧ Tree.Grows (logPath s.place file).names.dropLast s.tree t ∧
        ∃ fault, openLog file s = (.error fault, { s with tree := t, clock })) := by
  unfold openLog
  rw [bind_apply_ok (get_apply s)]
  have hp := isGrounded_logPath s.place file
  by_cases hnull : '\x00' ∈ file.toList
  · rw [if_pos (by simpa using hnull), bind_apply_error (throw_apply _ _)]
    exact ⟨s.tree, s.clock, .inr ⟨fun h => h.whole hnull, .refl _ _, _, rfl⟩⟩
  rw [if_neg (by simpa using hnull)]
  dsimp only
  -- The directories above come first; that they cannot be made means that the tree does not accept
  -- the path.
  obtain ⟨r, t, hensure, hgrows, hok, htotal⟩ := Action.ensureDirectory_spec hp.parent s
  have haccepts (h : CanOpen s file) : r = .ok () :=
    htotal (h.accepts.fits.parent hp) h.accepts.writable.clear
  cases r with
  | error fault =>
    rw [bind_apply_error hensure]
    exact ⟨t, s.clock, .inr ⟨fun h => (by cases haccepts h), hgrows, fault, rfl⟩⟩
  | ok u =>
    have hleads : t.Leads (logPath s.place file).names := (hok rfl).2.leads_of_dropLast
    rw [bind_apply_ok hensure, bind_apply, Action.observe_apply]
    cases hlocation : Action.fileLocation { s with tree := t } (logPath s.place file) with
    | error fault =>
      -- The directories above stand now, so that a tree that accepts the path would give the
      -- location.
      refine ⟨t, s.clock, .inr ⟨fun h => ?_, hgrows, fault, rfl⟩⟩
      have hfree := (hgrows.writable_iff.2 h.accepts.writable).free
      rw [(Action.fileLocation_eq_ok_iff hp).2 ⟨h.accepts.fits, rfl, hleads, hfree⟩] at hlocation
      cases hlocation
    | ok l =>
      obtain ⟨hfits, rfl, -, hfree⟩ := (Action.fileLocation_eq_ok_iff hp).1 hlocation
      have hwritable : s.tree.Writable (logPath s.place file).names :=
        hgrows.writable_iff.1 ⟨(hok rfl).2.clear, hfree⟩
      obtain ⟨f, t', clock, hclaim⟩ :=
        claimFile_spec (logPath s.place file).names { s with tree := t }
      exact ⟨t', clock, .inl ⟨⟨hnull, hfits, hwritable⟩, f, hclaim⟩⟩

/-- The log can be written: its file can be opened, if one is named. -/
def CanLog (o : Options) (s : Session σ) : Prop :=
  ∀ file, nonEmpty o.logFile = some file → CanOpen s file

/-- Making the log ready succeeds if and only if the log can be written. -/
theorem openNamedLog_spec (o : Options) (s : Session σ) :
    (CanLog o s ∧ ∃ file? s', openNamedLog o s = (.ok file?, s') ∧
      (file? = none ↔ nonEmpty o.logFile = none)) ∨
        (¬CanLog o s ∧ ∃ fault s', openNamedLog o s = (.error fault, s')) := by
  unfold openNamedLog CanLog
  cases hname : nonEmpty o.logFile with
  | none => exact .inl ⟨fun _ h => (by cases h), none, s, rfl, by simp⟩
  | some file =>
    simp only [Option.some.injEq, forall_eq', map_apply]
    obtain ⟨t, clock, ⟨hcan, f, hopen⟩ | ⟨hcannot, -, fault, hopen⟩⟩ := openLog_spec file s
    · rw [hopen]
      exact .inl ⟨hcan, some f, _, rfl, by simp⟩
    · rw [hopen]
      exact .inr ⟨hcannot, fault, _, rfl⟩

/-- Adding to the file of the log never fails. -/
theorem addToLog_spec (f : LogFile) (text : String) (s : Session σ) :
    ∃ s', addToLog f text s = (.ok (), s') := by
  unfold addToLog
  rw [bind_apply_ok (get_apply s)]
  rcases s.tree.at? f.location with _ | _ | ⟨bytes, stamp⟩
  · exact ⟨s, rfl⟩
  · exact ⟨s, rfl⟩
  · dsimp only
    split
    · exact ⟨_, rfl⟩
    · exact ⟨s, rfl⟩

/-- Writing the log leaves the outcome as it is, but that the log is printed if it has no file. -/
theorem closeLog_spec (file? : Option LogFile) (log : String) (x : Outcome) (s : Session σ) :
    ∃ s', closeLog file? log x s =
      (.ok { x with err := if file?.isSome then x.err else log ++ x.err }, s') := by
  unfold closeLog
  cases file? with
  | none => exact ⟨s, rfl⟩
  | some f =>
    obtain ⟨s', hadd⟩ := addToLog_spec f log s
    dsimp only
    rw [bind_apply_ok hadd]
    exact ⟨s', rfl⟩

end StaticSite.Command
