import StaticSite.Proofs.Command.Shown
import StaticSite.Proofs.Effect
import StaticSite.Proofs.Include.Faults

/-!
# What failed, and what is told of it

Each command works first and prints an answer then (`guardedBy`). What failed is the fault that
ended its work, or the one that kept its answer from being printed; otherwise the answer says what
failed (`failuresOf`). A command that is settled always has an outcome, and this one reports what
failed (`Outcome.Reports`): its status is zero if nothing did and one otherwise, and the first three
failures are shown. The one exception is a list of dependencies that could not be found, which
prints nothing (`settled_run`).
-/

namespace StaticSite.Command

open Text (isInfix_intercalate isInfix_append_left isInfix_append_right)

variable {σ α : Type}

/-- An outcome reports what failed: the status is zero if nothing did and one otherwise, and the
first three failures are shown. -/
structure Outcome.Reports (x : Outcome) (failures : List String) : Prop where
  /-- The status tells whether something failed. -/
  status : x.status = if failures = [] then 0 else 1
  /-- The first failures are shown. -/
  shows : ∀ t ∈ failures.take 3, x.Shows t

/-- What failed in some work whose answer is presented: the fault that ended either, or what is
found in the answer. -/
def failuresOf (o : Options) (code : String) (work : Action σ α)
    (present : α → Session σ → Except Fault Outcome) (found : α → Session σ → List String)
    (s : Session σ) : List String :=
  match work s with
  | (.error fault, _) =>
    match refused o.json code fault with
    | .ok _ => [fault.message]
    | .error other => [other.message]
  | (.ok a, s') =>
    match present a s' with
    | .ok _ => found a s'
    | .error fault => [fault.message]

/-- What failed where a part of a configuration is shown: nothing stands under the key, or a number
in it cannot be written. -/
def unshown (key : Option String) (format : ShowFormat) (config : Mapping) : List String :=
  match key with
  | none => if format = .table ∧
      Value.areEntriesWritable config = false then [Fault.unwritableNumber.message] else []
  | some key =>
    match lookup (keyParts key) (.mapping config) with
    | none => [absence key]
    | some v => if format = .table ∧
        v.isWritable = false then [Fault.unwritableNumber.message] else []

/-- What counts as an error among what is wrong with a configuration. -/
def Issues.failures (i : Issues) (isStrict : Bool) : List String :=
  i.errors ++ if isStrict then i.warnings else []

/-- What fails in a command that runs in a session. -/
def Task.failures (task : Task) (o : Options) (e : Surroundings) (s : Session σ) : List String :=
  match task with
  | .build => failuresOf o "build_error" (fullPass o e) (fun r _ => printReport o e r)
      (fun r _ => r.errors) s
  | .rebuild files =>
    failuresOf o "rebuild_error" (changedPass o e files) (fun r _ => printReport o e r)
      (fun r _ => r.errors) s
  | .resolve file mode word listsDependencies =>
    failuresOf o "resolve_error" (resolveFile o e file mode word)
      (fun b _ => printBundle o file listsDependencies b)
      (fun b _ => b.error.toList) s
  | .showConfig key format =>
    failuresOf o "config_error"
      (do Config.load e.libraries (source o e (← get).place) false (overrides o))
      (fun config _ => present e (nonEmpty key) format config)
        (fun config _ => unshown (nonEmpty key) format config) s
  | .validate isStrict =>
    failuresOf o "invalid_config" (settings o e)
      (fun settings s => do printIssues o isStrict (← issues s settings))
      (fun settings s =>
        match issues s settings with
        | .ok i => i.failures isStrict
        | .error _ => []) s

/-- A failure shows the message of its fault. -/
theorem reports_failure (fault : Fault) : (failure fault).Reports [fault.message] where
  status := rfl
  shows t ht := by
    obtain rfl : t = fault.message := by simpa using ht
    exact shows_failure fault

/-- A log that is printed before hides nothing. -/
theorem Outcome.Reports.log {x : Outcome} {failures : List String} (h : x.Reports failures)
    (log : String) : { x with err := log ++ x.err }.Reports failures where
  status := h.status
  shows t ht := by
    have hprints (u : String) (hu : x.Prints u) : { x with err := log ++ x.err }.Prints u :=
      hu.imp_right isInfix_append_right
    exact (h.shows t ht).imp (hprints t) (hprints _)

/-- A command that prints lines reports failures of which the first three occur in its lines. -/
theorem printed_reports {failures lines : List String}
    (h : ∀ t ∈ failures.take 3, ∃ l ∈ lines, t.toList <:+: l.toList) :
    (printed (if failures = [] then 0 else 1) lines).Reports failures where
  status := rfl
  shows t ht := by
    obtain ⟨l, hl, hin⟩ := h t ht
    exact shows_printed hl hin _

/-- A command that prints a document reports failures that occur in it. -/
theorem printedJson_reports {failures : List String} {m : Mapping} {x : Outcome}
    (h : ∀ t ∈ failures, (Value.mapping m).Occurs t)
    (hx : printedJson (if failures = [] then 0 else 1) m = .ok x) : x.Reports failures where
  status := by
    obtain ⟨text, -, rfl⟩ := printedJson_eq_ok_iff.1 hx
    rfl
  shows t ht := shows_printedJson (h t (List.mem_of_mem_take ht)) hx

/-- A command that prints to a file reports the fault of writing it, if there is one. -/
theorem printedTo_reports (lines : List String) (fault? : Option Fault) :
    (printedTo lines fault?).Reports (fault?.map Fault.message).toList := by
  cases fault? with
  | none => exact ⟨rfl, fun t ht => by cases ht⟩
  | some fault =>
    refine ⟨rfl, fun t ht => ?_⟩
    obtain rfl : t = fault.message := by simpa using ht
    exact .inl (.inr (isInfix_append_left (isInfix_append_right List.infix_rfl)))

/-! ## What the commands print -/

/-- The first three errors of a report occur in its summary. -/
theorem isInfix_summary {r : Report} {t : String} (h : t ∈ r.errors.take 3) :
    t.toList <:+: r.summary.toList := by
  have hdetail : "    - " ++ t ∈ Report.detailLines "Errors" r.errors := by
    have hsome : r.errors.isEmpty = false := by
      cases herrors : r.errors with
      | nil => simp [herrors] at h
      | cons => rfl
    unfold Report.detailLines
    rw [hsome]
    exact List.mem_cons_of_mem _ (List.mem_map_of_mem h)
  have hline : t.toList <:+: ("    - " ++ t).toList := isInfix_append_right List.infix_rfl
  exact hline.trans (isInfix_intercalate (List.mem_append_right _ hdetail))

/-- A text in a list of texts occurs in the mapping that holds the list. -/
theorem occurs_texts (key : String) {t : String} {l : List String} (ht : t ∈ l) {m : Mapping}
    (hm : (.text key, Report.texts l) ∈ m) : (Value.mapping m).Occurs t :=
  .entry hm (.item (List.mem_map_of_mem ht) .text)

/-- The report of a pass is printed with its errors. -/
theorem printReport_reports {o : Options} {e : Surroundings} {r : Report} {x : Outcome}
    (h : printReport o e r = .ok x) :
    x.Reports r.errors := by
  have hstatus : (if r.isOk = true then 0 else 1) = if r.errors = [] then 0 else 1 := by
    simp [Report.isOk]
  unfold printReport at h
  rw [hstatus] at h
  by_cases hjson : o.json = true
  · rw [if_pos hjson] at h
    exact printedJson_reports (fun t ht => occurs_texts "errors" ht (by simp [Report.toMapping])) h
  · rw [if_neg hjson] at h
    cases h
    exact printed_reports fun t ht => ⟨_, List.mem_cons_self, isInfix_summary ht⟩

/-- A bundle is printed with its error, if that stands in its text; a list of dependencies has no
place for it. -/
theorem printBundle_reports {o : Options} {file : String} {listsDependencies : Bool} {b : Bundle}
    {x : Outcome} (herror : ∀ t, b.error = some t → t.toList <:+: b.content)
    (h : printBundle o file listsDependencies b = .ok x)
    (hsilent : o.json = true ∨ listsDependencies = false ∨ b.isOk = true) :
    x.Reports b.error.toList := by
  have hstatus : (if b.isOk = true then 0 else 1) = if b.error.toList = [] then 0 else 1 := by
    cases herror : b.error <;> simp [Bundle.isOk, herror]
  have hnone (hok : b.isOk = true) : b.error.toList = [] := by
    simpa [Bundle.isOk] using hok
  unfold printBundle at h
  rw [hstatus] at h
  by_cases hjson : o.json = true
  · rw [if_pos hjson] at h
    refine printedJson_reports (fun t ht => ?_) h
    have hsome : b.error = some t := by simpa using ht
    exact .entry (k := .text "error") (v := .text t)
      (by simp [bundleMapping, Report.optional, hsome]) .text
  · rw [if_neg hjson] at h
    cases hlists : listsDependencies with
    | true =>
      rw [hlists] at h hsilent
      cases h
      rcases hsilent with hjson' | hfalse | hok
      · exact absurd hjson' hjson
      · cases hfalse
      · rw [hnone hok]
        exact printed_reports fun t ht => by cases ht
    | false =>
      rw [hlists] at h
      cases h
      refine printed_reports fun t ht => ⟨_, List.mem_cons_self, ?_⟩
      rw [String.toList_ofList]
      exact herror t (by simpa using List.mem_of_mem_take ht)

/-- The lines of a configuration end early if and only if a number in it cannot be written. -/
theorem sectionLines_snd (config : Mapping) :
    (sectionLines config).2 = if Value.areEntriesWritable config = false then some .unwritableNumber
      else none := by
  induction config with
  | nil => rfl
  | cons entry rest ih =>
    obtain ⟨k, v⟩ := entry
    cases hk : k.isWritable with
    | false => simp [sectionLines, Value.areEntriesWritable, hk]
    | true =>
      cases hv : v.isWritable with
      | false => simp [sectionLines, Value.areEntriesWritable, hk, hv]
      | true => simpa [sectionLines, Value.areEntriesWritable, hk, hv] using ih

/-- A command that succeeds reports no failure. -/
theorem reports_nil_of_status {x : Outcome} (h : x.status = 0) : x.Reports [] :=
  ⟨h, fun t ht => by cases ht⟩

/-- A command that prints a document as a success reports no failure. -/
theorem printedJson_reports_nil {m : Mapping} {x : Outcome} (h : printedJson 0 m = .ok x) :
    x.Reports [] :=
  @printedJson_reports [] m x (fun t ht => by cases ht) h

/-- A command that prints a value as YAML reports no failure. -/
theorem yamlText_reports_nil {e : Surroundings} {v : Value} {x : Outcome}
    (h : (do return printed 0 [← yamlText e v]) = Except.ok x) : x.Reports [] := by
  cases htext : yamlText e v with
  | error fault => rw [htext] at h; cases h
  | ok text =>
    rw [htext] at h
    cases h
    exact reports_nil_of_status rfl

/-- A configuration is shown, or it is told why it is not. -/
theorem present_reports {e : Surroundings} {key : Option String} {format : ShowFormat}
    {config : Mapping} {x : Outcome} (h : present e key format config = .ok x) :
    x.Reports (unshown key format config) := by
  cases key with
  | none =>
    unfold unshown
    cases format with
    | json => exact printedJson_reports_nil h
    | yaml => exact yamlText_reports_nil h
    | table =>
      cases h
      -- A table is printed as far as the first number that cannot be written.
      have hreports := printedTo_reports
        (["PageBundler Configuration", String.ofList (List.replicate 60 '=')] ++
          (sectionLines config).1)
        (sectionLines config).2
      have hfault : ((sectionLines config).2.map Fault.message).toList =
          if ShowFormat.table = .table ∧ Value.areEntriesWritable config = false then
            [Fault.unwritableNumber.message] else [] := by
        rw [sectionLines_snd]
        cases Value.areEntriesWritable config <;> rfl
      rwa [hfault] at hreports
  | some key =>
    unfold present at h
    unfold unshown
    dsimp only at h ⊢
    cases hlookup : lookup (keyParts key) (.mapping config) with
    | none =>
      rw [hlookup] at h
      cases h
      exact @printed_reports [absence key] _ fun t ht =>
        ⟨_, List.mem_cons_self, by simp at ht; simp [ht]⟩
    | some v =>
      rw [hlookup] at h
      cases format with
      | json => exact printedJson_reports_nil h
      | yaml => exact yamlText_reports_nil h
      | table =>
        dsimp only
        cases hv : v.isWritable with
        | true =>
          rw [if_neg (by simp)]
          simp only [presentPart, hv, if_true, Except.ok.injEq] at h
          subst h
          exact reports_nil_of_status rfl
        | false =>
          rw [if_pos ⟨rfl, rfl⟩]
          simp only [presentPart, hv, Bool.false_eq_true, if_false, Except.ok.injEq] at h
          subst h
          exact printedTo_reports [key ++ ":"] (some .unwritableNumber)

/-- What is wrong with a configuration is printed. -/
theorem printIssues_reports {o : Options} {isStrict : Bool} {i : Issues} {x : Outcome}
    (h : printIssues o isStrict i = .ok x) : x.Reports (i.failures isStrict) := by
  have hstatus :
    (if (!i.errors.isEmpty || (isStrict && !i.warnings.isEmpty)) = true then 1 else 0) =
      if i.failures isStrict = [] then 0 else 1 := by
    cases isStrict <;> cases he : i.errors <;> cases hw : i.warnings <;>
      simp [Issues.failures, he, hw]
  unfold printIssues at h
  dsimp only at h
  rw [hstatus] at h
  have hmem {t : String} (ht : t ∈ i.failures isStrict) : t ∈ i.errors ∨ t ∈ i.warnings := by
    rcases List.mem_append.1 ht with ht | ht
    · exact .inl ht
    · cases isStrict with
      | true => exact .inr ht
      | false => cases ht
  by_cases hjson : o.json = true
  · rw [if_pos hjson] at h
    refine printedJson_reports (fun t ht => ?_) h
    rcases hmem ht with ht | ht
    · exact occurs_texts "errors" ht (by simp)
    · exact occurs_texts "warnings" ht (by simp)
  · rw [if_neg hjson] at h
    cases h
    refine printed_reports fun t ht => ?_
    rcases hmem (List.mem_of_mem_take ht) with ht | ht
    · exact ⟨"ERROR: " ++ t,
        List.mem_append_left _ (List.mem_append_left _ (List.mem_map_of_mem ht)),
        isInfix_append_right List.infix_rfl⟩
    · exact ⟨"WARNING: " ++ t,
        List.mem_append_left _ (List.mem_append_right _ (List.mem_map_of_mem ht)),
        isInfix_append_right List.infix_rfl⟩

/-- What is wrong with the sources that settings name is printed. -/
theorem presentIssues_reports {o : Options} {isStrict : Bool} {settings : Settings} {s : Session σ}
    {x : Outcome} (h : (do printIssues o isStrict (← issues s settings)) = Except.ok x) :
    x.Reports (match issues s settings with
      | .ok i => i.failures isStrict
      | .error _ => []) := by
  cases hissues : issues s settings with
  | error fault => rw [hissues] at h; cases h
  | ok i =>
    rw [hissues] at h
    exact printIssues_reports h

/-! ## Settled commands -/

/-- A settled command answers with its outcome, or with the failure that its fault is. -/
theorem settled_apply (a : Action σ Outcome) (s : Session σ) :
    settled a s =
      (.ok (match (a s).1 with | .ok x => x | .error fault => failure fault), (a s).2) := by
  unfold settled
  rw [bind_apply_ok (Action.attempt_apply a s)]
  cases (a s).1 <;> rfl

/-- A guarded command presents what its work answers, or refuses with its fault. -/
theorem guardedBy_apply (o : Options) (code : String) (work : Action σ α)
    (present : α → Session σ → Except Fault Outcome) (s : Session σ) :
    guardedBy o code work present s = match work s with
      | (.ok a, s') => (present a s', s')
      | (.error fault, s') => (refused o.json code fault, s') := by
  unfold guardedBy
  rw [bind_apply_ok (Action.attempt_apply work s)]
  rcases work s with ⟨fault | a, s'⟩
  · exact liftM_apply _ s'
  · rfl

/-- A command that is settled has an outcome. Either its answer was presented, and what failed is
what is found in it, or the outcome reports what failed. -/
theorem settled_guardedBy (o : Options) (code : String) (work : Action σ α)
    (present : α → Session σ → Except Fault Outcome) (found : α → Session σ → List String)
    (s : Session σ) :
    ∃ x s', settled (guardedBy o code work present) s = (.ok x, s') ∧
      ((∃ a, work s = (.ok a, s') ∧ present a s' = .ok x ∧
        failuresOf o code work present found s = found a s') ∨
        x.Reports (failuresOf o code work present found s)) := by
  rw [settled_apply, guardedBy_apply]
  unfold failuresOf
  rcases work s with ⟨fault | a, s'⟩
  · refine ⟨_, s', rfl, .inr ?_⟩
    dsimp only
    cases hrefused : refused o.json code fault with
    | error other => exact reports_failure other
    | ok x =>
      obtain ⟨hstatus, hshows⟩ := shows_refused hrefused
      refine ⟨hstatus, fun t ht => ?_⟩
      obtain rfl : t = fault.message := by simpa using ht
      exact hshows
  · dsimp only
    cases hpresent : present a s' with
    | error fault => exact ⟨_, s', rfl, .inr (reports_failure fault)⟩
    | ok x => exact ⟨x, s', rfl, .inl ⟨a, rfl, hpresent, rfl⟩⟩

/-- A command reports what failed if its answers do. -/
theorem settled_reports {o : Options} {code : String} {work : Action σ α}
    {present : α → Session σ → Except Fault Outcome} {found : α → Session σ → List String}
    (h : ∀ a s x, present a s = .ok x → x.Reports (found a s)) (s : Session σ) :
    ∃ x s', settled (guardedBy o code work present) s = (.ok x, s') ∧
      x.Reports (failuresOf o code work present found s) := by
  obtain ⟨x, s', hrun, ⟨a, -, hpresent, hfound⟩ | hreports⟩ :=
    settled_guardedBy o code work present found s
  · exact ⟨x, s', hrun, hfound ▸ h a s' x hpresent⟩
  · exact ⟨x, s', hrun, hreports⟩

end StaticSite.Command
