import StaticSite.Config.Standard
import StaticSite.Proofs.Build.Pass
import StaticSite.Proofs.Command.Failure
import StaticSite.Proofs.Command.Log

/-!
# Answers

A run of a command ends with an outcome if and only if its log can be written: a file of the log
that cannot be opened ends it with a fault, before the command has begun (`answer_reports`). The
outcome reports what failed, but for one case: where dependencies are listed, and a file of the log
is named, nothing is printed of a file that could not be expanded.
-/

namespace StaticSite.Command

open Text (isInfix_join isInfix_append_left isInfix_append_right)

variable {σ : Type}

/-- Dependencies are listed of a file that cannot be expanded; the list has no place for the
error. -/
def Task.LeavesOut (task : Task) (o : Options) (e : Surroundings) (s : Session σ) : Prop :=
  ∃ file mode word b s', task = .resolve file mode word true ∧ o.json = false ∧
    resolveFile o e file mode word s = (.ok b, s') ∧ b.isOk = false

/-- A file that cannot be expanded has no dependencies, and its text and the log hold the error. -/
theorem resolveFile_tells {o : Options} {e : Surroundings} {file : String}
    {mode word : Option String} {b : Bundle} {s s' : Session σ}
    (h : resolveFile o e file mode word s = (.ok b, s')) {message : String}
    (herror : b.error = some message) :
    b.dependencies = [] ∧ message.toList <:+: b.content ∧
      ∃ l ∈ s'.log, l.level = .error ∧ message.toList <:+: l.message.toList := by
  unfold resolveFile at h
  obtain ⟨settings, s₁, -, h⟩ := bind_apply_eq_ok.1 h
  obtain ⟨x, s₂, -, h⟩ := bind_apply_eq_ok.1 h
  rw [bind_apply_ok (get_apply s₂)] at h
  dsimp only at h
  rw [bind_apply_ok (set_apply s₂ _)] at h
  cases h
  obtain ⟨hnone, hcontent, l, hl, hlevel, hmessage⟩ :=
    Expander.resolve_tells (fun p fault => Session.describe_of_readText) herror
  exact ⟨hnone, hcontent, l, List.mem_append_right _ hl, hlevel, hmessage⟩

/-- Errors are in every log that is printed. -/
theorem isInfix_logText {o : Options} (hfile : nonEmpty o.logFile = none) (hjson : o.json = false)
    (time : String) {log : List Log.Line} {l : Log.Line} (hl : l ∈ log)
    (hlevel : l.level = .error) :
    l.message.toList <:+: (logText time (logLevel o) log).toList := by
  have hleast : ∃ least, logLevel o = some least ∧ l.level.isAtLeast least = true := by
    unfold logLevel
    rw [hfile, hjson, hlevel]
    cases o.isVerbose
    · exact ⟨.warning, rfl, rfl⟩
    · exact ⟨.debug, rfl, rfl⟩
  obtain ⟨least, hleast, hatLeast⟩ := hleast
  have htext : l.message.toList <:+: l.text.toList := isInfix_append_right List.infix_rfl
  unfold logText
  rw [hleast]
  exact (isInfix_append_left (isInfix_append_right htext)).trans
    (isInfix_join (List.mem_map_of_mem (List.mem_filter.2 ⟨hl, hatLeast⟩)))

/-- A bundle without a place for its error is printed as nothing. -/
theorem printBundle_of_leavesOut {o : Options} {file : String} {b : Bundle} (hjson : o.json = false)
    (hok : b.isOk = false) (hnone : b.dependencies = []) :
    printBundle o file true b = .ok ⟨1, "", ""⟩ := by
  simp only [printBundle, hjson, hok, hnone, Bool.false_eq_true, if_false, if_true]
  rfl

/-- A settled command has an outcome. It reports what failed, unless the answer leaves it out; then
nothing is printed, and the log tells of it. -/
theorem settled_run (task : Task) (o : Options) (e : Surroundings) (s : Session σ) :
    ∃ x s', settled (task.run o e) s = (.ok x, s') ∧
      ((¬task.LeavesOut o e s ∧ x.Reports (task.failures o e s)) ∨
        (task.LeavesOut o e s ∧ x = ⟨1, "", ""⟩ ∧ ∃ t, task.failures o e s = [t] ∧
          ∃ l ∈ s'.log, l.level = .error ∧ t.toList <:+: l.message.toList)) := by
  by_cases hout : task.LeavesOut o e s
  · have hout' := hout
    obtain ⟨file, mode, word, b, s', rfl, hjson, hwork, hok⟩ := hout'
    obtain ⟨t, herror⟩ : ∃ t, b.error = some t := by
      rw [← Option.isSome_iff_exists]
      simpa [Bundle.isOk] using hok
    obtain ⟨hnone, -, hlog⟩ := resolveFile_tells hwork herror
    have hpresent : printBundle o file true b = .ok ⟨1, "", ""⟩ :=
      printBundle_of_leavesOut hjson hok hnone
    refine ⟨⟨1, "", ""⟩, s', ?_, .inr ⟨hout, rfl, t, ?_, hlog⟩⟩
    · rw [settled_apply, Task.run, resolve, guardedBy_apply, hwork]
      dsimp only
      rw [hpresent]
    · simp only [Task.failures, failuresOf, hwork, hpresent, herror, Option.toList_some]
  · suffices h : ∃ x s', settled (task.run o e) s = (.ok x, s') ∧ x.Reports (task.failures o e s) by
      obtain ⟨x, s', hrun, hx⟩ := h
      exact ⟨x, s', hrun, .inl ⟨hout, hx⟩⟩
    cases task with
    | build => exact settled_reports (fun r _ _ h => printReport_reports h) s
    | rebuild files => exact settled_reports (fun r _ _ h => printReport_reports h) s
    | showConfig key format => exact settled_reports (fun config _ _ h => present_reports h) s
    | validate isStrict => exact settled_reports (fun settings s' x h => presentIssues_reports h) s
    | resolve file mode word listsDependencies =>
      obtain ⟨x, s', hrun, ⟨b, hwork, hpresent, hfound⟩ | hx⟩ := settled_guardedBy o "resolve_error"
        (resolveFile o e file mode word) (fun b _ => printBundle o file listsDependencies b)
          (fun b _ => b.error.toList) s
      · refine ⟨x, s', hrun, ?_⟩
        rw [Task.failures, hfound]
        refine printBundle_reports (fun t ht => (resolveFile_tells hwork ht).2.1) hpresent ?_
        -- Otherwise the answer would leave the error out.
        by_contra hlists
        simp only [not_or, Bool.not_eq_true, Bool.not_eq_false] at hlists
        obtain ⟨hjson, rfl, hok⟩ := hlists
        exact hout ⟨file, mode, word, b, s', rfl, hjson, hwork, hok⟩
      · exact ⟨x, s', hrun, hx⟩

/-- Nothing that is printed tells what failed: the answer leaves it out, and the log goes to a
file. -/
def Task.IsSilent (task : Task) (o : Options) (e : Surroundings) (s : Session σ) : Prop :=
  task.LeavesOut o e s ∧ nonEmpty o.logFile ≠ none

/-- A command that runs with a log that is ready has an outcome. It reports what failed, unless it
is silent. -/
theorem logged_run (task : Task) {o : Options} (e : Surroundings) (s : Session σ)
    {file? : Option LogFile} (hfile : file? = none ↔ nonEmpty o.logFile = none) :
    ∃ x s', (do
        let outcome ← settled (task.run o e)
        closeLog file? (logText e.logTime (logLevel o) (← get).log) outcome) s = (.ok x, s') ∧
      (¬task.IsSilent o e s ∧ x.Reports (task.failures o e s) ∨
        task.IsSilent o e s ∧ task.failures o e s ≠ [] ∧ x = ⟨1, "", ""⟩) := by
  obtain ⟨x, s₁, hrun, hx⟩ := settled_run task o e s
  obtain ⟨s₂, hclose⟩ := closeLog_spec file? (logText e.logTime (logLevel o) s₁.log) x s₁
  rw [bind_apply_ok hrun, bind_apply_ok (get_apply s₁), hclose]
  refine ⟨_, s₂, rfl, ?_⟩
  obtain ⟨hnot, hreports⟩ | ⟨hout, rfl, t, hfailures, l, hl, hlevel, hmessage⟩ := hx
  · refine .inl ⟨fun h => hnot h.1, ?_⟩
    cases file? with
    | none => exact hreports.log _
    | some f => exact hreports
  · cases file? with
    | some f => exact .inr ⟨⟨hout, fun h => by cases hfile.2 h⟩, by simp [hfailures], rfl⟩
    | none =>
      -- The log is printed, and tells of the error.
      refine .inl ⟨fun h => h.2 (hfile.1 rfl), ?_, fun u hu => ?_⟩
      · rw [hfailures]
        rfl
      · rw [hfailures] at hu
        obtain rfl : u = t := by simpa using hu
        obtain ⟨_, _, _, _, _, _, hjson, _⟩ := hout
        have hlog := hmessage.trans (isInfix_logText (hfile.1 rfl) hjson e.logTime hl hlevel)
        exact .inl (.inr (isInfix_append_left hlog))

/-- Nothing ends a pass of a command early. -/
def Task.CanFinish (task : Task) (o : Options) (e : Surroundings) (s : Session σ) : Prop :=
  task = .build ∨ (∃ files, task = .rebuild files) →
    ∀ b s', builder o e s = (.ok b, s') → b.CanFinish s'.place

/-- A run of a command ends with a fault if and only if its log cannot be written. Otherwise it has
an outcome, whose status is zero or one. The outcome reports what failed in the command, if nothing
ends its passes early, with one exception: where dependencies are listed of a file that cannot be
expanded, and the log has a file, the status is one and nothing is printed. -/
theorem answer_reports {args : List String} {task : Task} {o : Options}
    (hrun : Request.ofArguments args = .run task o) (e : Surroundings) (s : Session σ) :
    ((∃ fault s', answer (Request.ofArguments args) e s = (.error fault, s')) ↔ ¬CanLog o s) ∧
      (CanLog o s → ∃ file? ready x s', openNamedLog o s = (.ok file?, ready) ∧
        answer (Request.ofArguments args) e s = (.ok x, s') ∧ x.status ≤ 1 ∧
          (task.CanFinish o e ready →
            ¬task.IsSilent o e ready ∧ x.Reports (task.failures o e ready) ∨
              task.IsSilent o e ready ∧ task.failures o e ready ≠ [] ∧ x = ⟨1, "", ""⟩)) := by
  have hanswer : answer (Request.ofArguments args) e = perform (σ := σ) task o e := by
    rw [hrun, answer]
  rw [hanswer, perform]
  obtain ⟨hcan, file?, ready, hopen, hfile⟩ | ⟨hcannot, fault, s', hopen⟩ := openNamedLog_spec o s
  · obtain ⟨x, s', hx, hreports⟩ := logged_run task e ready hfile
    rw [bind_apply_ok hopen, hx]
    refine ⟨⟨fun ⟨fault, s', h⟩ => (by cases h), fun h => absurd hcan h⟩, fun _ => ?_⟩
    refine ⟨file?, ready, x, s', hopen, rfl, ?_, fun _ => hreports⟩
    rcases hreports with ⟨-, hreports⟩ | ⟨-, -, rfl⟩
    · rw [hreports.status]
      split <;> decide
    · exact Nat.le_refl 1
  · rw [bind_apply_error hopen]
    exact ⟨⟨fun _ => hcannot, fun _ => ⟨fault, s', rfl⟩⟩, fun h => absurd h hcannot⟩

/-! ## A sample -/

namespace Sample

/-- A session in a directory that holds nothing. -/
def session : Session Unit :=
  .start ⟨[(["site"], .directory)]⟩ ⟨⟨.absolute, ["site"]⟩, "/home", .usual⟩ ⟨2024, 5, 6⟩ ()

/-- A run with an empty environment and the standard libraries. -/
def surroundings : Surroundings := ⟨[], "2024-05-06T12:00:00", "2024-05-06 12:00:00,000", .standard⟩

/-- Options that ask for nothing. -/
def plain : Options := ⟨false, none, none, none, false, none⟩

/-- Nothing ends a build in the directory early. -/
theorem canFinish_build : Task.build.CanFinish plain surroundings session := by
  intro _ b s' hbuilder
  have hall : ((builder plain surroundings session).1.toOption.any fun b =>
      decide (b.CanFinish (builder plain surroundings session).2.place)) = true := by decide +kernel
  rw [hbuilder] at hall
  simpa [Except.toOption] using hall

/-- The directory stands where a file is needed. -/
theorem not_canOpen_directory : ¬CanOpen session "." :=
  fun h => h.accepts.writable.free (by decide +kernel)

end Sample

open Sample in
/-- A build whose log would go to the directory it works in ends with a fault; one that prints its
log succeeds; a look at a key that is not there ends with an outcome that reports it. -/
theorem answer_reports_sample :
    (∃ fault s', answer (Request.ofArguments ["build", "--log-file", "."]) surroundings session =
      (.error fault, s')) ∧
        (∃ x s', answer (Request.ofArguments ["build"]) surroundings session = (.ok x, s') ∧
          x.status = 0) ∧
      ∃ x s', answer (Request.ofArguments ["config", "show", "x"]) surroundings session =
        (.ok x, s') ∧
        x.Reports ["Key not found: x"] := by
  have hbuild : Request.ofArguments ["build", "--log-file", "."] =
      .run .build ⟨false, none, none, none, false, some "."⟩ := by decide +kernel
  have hplain : Request.ofArguments ["build"] = .run .build plain := by decide +kernel
  have hshow : Request.ofArguments ["config", "show", "x"] =
      .run (.showConfig (some "x") .table) plain := by
    decide +kernel
  refine ⟨(answer_reports hbuild surroundings session).1.2 fun h => not_canOpen_directory
    (h "." (by decide +kernel)), ?_, ?_⟩
  · obtain ⟨file?, ready, x, s', hopen, hanswer, -, hreports⟩ :=
      (answer_reports hplain surroundings session).2 fun file h => by cases h
    cases hopen
    have hfailures : Task.failures .build plain surroundings session = [] := by decide +kernel
    rcases hreports canFinish_build with ⟨-, hx⟩ | ⟨hsilent, -⟩
    · exact ⟨x, s', hanswer, by rw [hx.status, hfailures]; rfl⟩
    · exact absurd rfl hsilent.2
  · obtain ⟨file?, ready, x, s', hopen, hanswer, -, hreports⟩ :=
      (answer_reports hshow surroundings session).2 fun file h => by cases h
    cases hopen
    have hfinish : (Task.showConfig (some "x") .table).CanFinish plain surroundings session := by
      rintro (h | ⟨files, h⟩) <;> cases h
    have hfailures : Task.failures (.showConfig (some "x") .table) plain surroundings session =
        ["Key not found: x"] := by decide +kernel
    rw [hfailures] at hreports
    rcases hreports hfinish with ⟨-, hx⟩ | ⟨hsilent, -⟩
    · exact ⟨x, s', hanswer, hx⟩
    · exact absurd rfl hsilent.2

open Sample in
/-- The fault of a log that cannot be opened escapes, and where dependencies are listed with a log
in a file nothing that is printed tells of a file that is not there. -/
theorem answer_escapes :
    (∃ fault s', answer (Request.ofArguments ["build", "--log-file", "."]) surroundings session =
      (.error fault, s') ∧
      fault.message = "[Errno 21] Is a directory: '/site'") ∧
    ∃ s', answer
      (Request.ofArguments ["resolve", "gone.html", "--list-deps", "--log-file", "x.log"])
        surroundings session = (.ok ⟨1, "", ""⟩, s') := by
  constructor
  · have hmessage :
      (answer (Request.ofArguments ["build", "--log-file", "."]) surroundings session).1.mapError
        Fault.message = .error "[Errno 21] Is a directory: '/site'" := by decide +kernel
    rcases hanswer : answer (Request.ofArguments ["build", "--log-file", "."])
      surroundings session with ⟨fault | x, s'⟩
    · rw [hanswer] at hmessage
      exact ⟨fault, s', rfl, Except.error.inj hmessage⟩
    · rw [hanswer] at hmessage
      cases hmessage
  · have hanswer :
      (answer (Request.ofArguments ["resolve", "gone.html", "--list-deps", "--log-file", "x.log"])
        surroundings session).1.toOption = some ⟨1, "", ""⟩ := by decide +kernel
    exact ⟨_, Prod.ext (toOption_eq_some_iff.1 hanswer) rfl⟩

end StaticSite.Command
