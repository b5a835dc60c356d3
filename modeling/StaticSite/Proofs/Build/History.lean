import StaticSite.Proofs.Build.Incremental

/-!
# Records and the history of builds

`History` is every session that a builder comes to by requests of any kind, with any changes of the
tree and of the day in between, together with the attempts to build entries that led there. The
records are those of the last good attempts, in the order in which the keys first came
(`records_eq_of_history`): an attempt keeps its record if it ended well, and touches none if it did
not (`run_records`). Nothing is asked of the parts of the site but that they leave the records
alone, so that an attempt may fail at any stage.
-/

namespace StaticSite

variable {σ : Type}

/-! ## Keeping one record after another -/

namespace Records

/-- The record of a key is the last one that was kept under it. -/
theorem find?_foldl_keep (new rs : Records) (k : Record.Key) :
    (new.foldl keep rs).find? k = (new.reverse.find? (·.key = k)).or (rs.find? k) := by
  induction new generalizing rs with
  | nil => rfl
  | cons record rest ih =>
    rw [List.foldl_cons, ih, List.reverse_cons, List.find?_append, Option.or_assoc]
    congr 1
    by_cases h : record.key = k
    · rw [← h, find?_keep_self]
      simp
    · rw [find?_keep_of_ne rs record (Ne.symm h)]
      simp [h]

/-- No key is lost, and none changes its place, when records are kept. -/
theorem isPrefix_map_key_foldl_keep (new rs : Records) :
    rs.map Record.key <+: (new.foldl keep rs).map Record.key := by
  induction new generalizing rs with
  | nil => exact List.prefix_refl _
  | cons record rest ih =>
    refine List.IsPrefix.trans ?_ (ih (rs.keep record))
    rw [map_key_keep]
    split
    · exact List.prefix_refl _
    · exact List.prefix_append _ _

/-- Keeping records keeps one for each key. -/
theorem nodup_map_key_foldl_keep (new : Records) {rs : Records} (h : (rs.map Record.key).Nodup) :
    ((new.foldl keep rs).map Record.key).Nodup := by
  induction new generalizing rs with
  | nil => exact h
  | cons record rest ih => exact ih (nodup_map_key_keep h record)

/-- The keys stand in the order in which records were first kept under them. -/
theorem map_key_foldl_keep (new : Records) :
    (new.foldl keep []).map Record.key = (new.map Record.key).eraseDups := by
  induction new using List.reverseRecOn with
  | nil => rfl
  | append_singleton new record ih =>
    -- The key is added to the others if no record was kept under it before.
    have hrest : ([record.key].removeAll (new.map Record.key)).eraseDups =
        if record.key ∈ new.map Record.key then [] else [record.key] := by
      by_cases h : record.key ∈ new.map Record.key <;>
        simp [List.removeAll, List.eraseDups_cons, h, -List.mem_map]
    rw [List.foldl_append, List.map_append, List.eraseDups_append]
    simp only [List.foldl_cons, List.foldl_nil, List.map_cons, List.map_nil]
    rw [map_key_keep, ih, hrest]
    simp only [List.mem_eraseDups]
    split <;> simp

end Records

namespace Builder

/-! ## Attempts -/

/-- An attempt to build an entry, with the session in which it began. -/
structure Attempt (σ : Type) where
  /-- The entry. -/
  entry : Entry
  /-- The session. -/
  before : Session σ

/-- How an attempt ended. -/
def Attempt.ending (b : Builder σ) (a : Attempt σ) : Ending := a.entry.ending b a.before

/-- The record that an attempt kept. -/
def Attempt.kept (b : Builder σ) (a : Attempt σ) : Option Record := (a.ending b).record?

/-- The attempts of a run. -/
def attempts (b : Builder σ) : List Work → Report → Session σ → List (Attempt σ)
  | [], _, _ => []
  | w :: works, r, s =>
    (w.entry?.map fun e => ⟨e, s⟩).toList ++
      match (b.work r w).perform s with
      | (.ok r', s') => b.attempts works r' s'
      | (.error _, _) => []

variable {b : Builder σ} {r r' : Report} {s s' : Session σ}

/-- The attempts of a run are that of its first piece of work, if it makes one, and those of the
rest. -/
theorem attempts_cons {w : Work} (works : List Work) (h : b.work r w s = (.ok r', s')) :
    b.attempts (w :: works) r s = (w.entry?.map fun e => ⟨e, s⟩).toList ++
      b.attempts works r' s' := by
  simp only [attempts, Action.perform_apply, h]

/-- The attempts of a run are those of its two halves. -/
theorem attempts_append {works : List Work} (works' : List Work)
    (h : b.run works r s = (.ok r', s')) :
    b.attempts (works ++ works') r s = b.attempts works r s ++ b.attempts works' r' s' := by
  induction works generalizing r s with
  | nil =>
    cases h
    rfl
  | cons w works ih =>
    rw [run_cons] at h
    obtain ⟨r₁, s₁, hwork, hrun⟩ := bind_apply_eq_ok.1 h
    rw [List.cons_append, attempts_cons _ hwork, attempts_cons _ hwork, ih hrun, List.append_assoc]

/-- A run keeps the records of its good attempts, one after another, and loses no key that an
attempt found. -/
theorem run_records (hparts : b.parts.IsFiling) {works : List Work}
    (h : b.run works r s = (.ok r', s')) :
    s'.records = ((b.attempts works r s).filterMap (·.kept b)).foldl Records.keep s.records ∧
      ∀ a ∈ b.attempts works r s, a.before.records.map Record.key <+:
        s'.records.map Record.key := by
  induction works generalizing r s with
  | nil =>
    cases h
    exact ⟨rfl, fun a ha => (by cases ha)⟩
  | cons w works ih =>
    rw [run_cons] at h
    obtain ⟨r₁, s₁, hwork, hrun⟩ := bind_apply_eq_ok.1 h
    obtain ⟨r₂, s₂, hwork', hfollows⟩ := work_follows hparts w r s
    cases hwork.symm.trans hwork'
    obtain ⟨hrecords, hprefix⟩ := ih hrun
    -- The piece keeps the record of its entry, from which the others go on.
    have hfirst : s₁.records =
        ((w.entry?.map fun e => (⟨e, s⟩ : Attempt σ)).toList.filterMap (·.kept b)).foldl
          Records.keep s.records := by
      rw [hfollows.records, Work.kept]
      cases w.entry? with
      | none => rfl
      | some e =>
        simp only [Option.bind_some, Option.map_some, Option.toList_some, List.filterMap_cons,
          List.filterMap_nil, Attempt.kept, Attempt.ending]
        cases (e.ending b s).record? <;> rfl
    rw [attempts_cons _ hwork]
    refine ⟨by rw [List.filterMap_append, List.foldl_append, ← hfirst, hrecords], fun a ha => ?_⟩
    rcases List.mem_append.1 ha with ha | ha
    · -- What the first attempt found are the records that the whole run found.
      have hbefore : a.before = s := by
        cases hentry : w.entry? with
        | none => rw [hentry] at ha; cases ha
        | some e => rw [hentry] at ha; exact congrArg Attempt.before (List.mem_singleton.1 ha)
      rw [hbefore, hrecords, hfirst]
      exact (Records.isPrefix_map_key_foldl_keep _ _).trans
        (Records.isPrefix_map_key_foldl_keep _ _)
    · exact hprefix a ha

/-- A piece of work that builds an entry is the piece of work for this entry. -/
theorem Work.eq_work_of_entry? {w : Work} {e : Entry} (h : w.entry? = some e) : w = e.work := by
  cases w with
  | style sheet | page p =>
    cases h
    rfl
  | assets a | clean first | sitemap o filenames => cases h

/-- An attempt of a run is what one piece of it does, after some pieces and before the others. -/
theorem exists_run_of_mem_attempts {works : List Work} (h : b.run works r s = (.ok r', s'))
    {a : Attempt σ} (ha : a ∈ b.attempts works r s) :
    ∃ earlier later r₁ r₂ s₂, works = earlier ++ a.entry.work :: later ∧
      b.run earlier r s = (.ok r₁, a.before) ∧
      b.work r₁ a.entry.work a.before = (.ok r₂, s₂) ∧ b.run later r₂ s₂ = (.ok r', s') := by
  induction works generalizing r s with
  | nil => cases ha
  | cons w works ih =>
    rw [run_cons] at h
    obtain ⟨r₁, s₁, hwork, hrun⟩ := bind_apply_eq_ok.1 h
    rw [attempts_cons works hwork] at ha
    rcases List.mem_append.1 ha with ha | ha
    · cases hentry : w.entry? with
      | none =>
        rw [hentry] at ha
        cases ha
      | some e =>
        rw [hentry] at ha
        obtain rfl := List.mem_singleton.1 ha
        obtain rfl := Work.eq_work_of_entry? hentry
        exact ⟨[], works, r, r₁, s₁, rfl, rfl, hwork, hrun⟩
    · obtain ⟨earlier, later, r₂, r₃, s₃, rfl, hearlier, hwork', hlater⟩ := ih hrun ha
      exact ⟨w :: earlier, later, r₂, r₃, s₃, rfl, by rw [run_cons, bind_apply_ok hwork, hearlier],
        hwork', hlater⟩

/-! ## Requests -/

/-- What a builder is asked for. -/
inductive Request where
  /-- A full pass. -/
  | all
  /-- An incremental pass for a file. -/
  | changed (f : Path)
  /-- The pass for files that changed. -/
  | changes (fs : List Path)

namespace Request

/-- What is done for a request. -/
def pass (b : Builder σ) : Request → Action σ Report
  | all => b.buildAll
  | changed f => b.rebuild f
  | changes fs => b.handle fs

/-- The attempts of a full pass. -/
def full (b : Builder σ) (s : Session σ) : List (Attempt σ) :=
  b.attempts (b.settings.assetDirectories.map .assets ++ (b.cleaning ++ b.entries))
    (.start "full" b.settings.mode none) { s with phase := .building }

/-- The attempts of an incremental pass: those of what it owes. -/
noncomputable def incremental (b : Builder σ) (s : Session σ) (f : Path) : List (Attempt σ) :=
  b.attempts (b.owed s ((b.rebuild f).perform s).2 f)
    (.start "incremental" b.settings.mode (some f.toString)) { s with phase := .building }

/-- The attempts of what is done for a request. -/
noncomputable def attempts (b : Builder σ) (s : Session σ) : Request → List (Attempt σ)
  | all => full b s
  | changed f => incremental b s f
  | changes [f] => if (s.records.owners f).isEmpty then full b s else incremental b s f
  | changes _ => full b s

/-- Whether a request leads to a full pass. -/
def IsFull (s : Session σ) : Request → Prop
  | all => True
  | changed _ => False
  | changes [f] => (s.records.owners f).isEmpty = true
  | changes _ => True

/-- A request leads to a full pass or to an incremental one. -/
theorem pass_cases (b : Builder σ) (s : Session σ) (request : Request) :
    (request.pass b).perform s = b.buildAll.perform s ∧ request.attempts b s = full b s ∨
    ¬request.IsFull s ∧ ∃ f, (request.pass b).perform s = (b.rebuild f).perform s ∧
      request.attempts b s = incremental b s f := by
  cases request with
  | all => exact .inl ⟨rfl, rfl⟩
  | changed f => exact .inr ⟨id, f, rfl, rfl⟩
  | changes fs =>
    match fs with
    | [] | _ :: _ :: _ => exact .inl ⟨rfl, rfl⟩
    | [f] =>
      have hhandle : (b.handle [f]).perform s =
          if (s.records.owners f).isEmpty then b.buildAll.perform s
            else (b.rebuild f).perform s := by
        simp only [handle, Action.perform_apply]
        rw [bind_apply_ok (get_apply s)]
        split <;> rfl
      simp only [pass, attempts, IsFull]
      rw [hhandle]
      by_cases howners : (s.records.owners f).isEmpty = true
      · rw [if_pos howners, if_pos howners]
        exact .inl ⟨rfl, rfl⟩
      · rw [if_neg howners, if_neg howners]
        exact .inr ⟨howners, f, rfl, rfl⟩

end Request

/-- The sessions that a builder comes to, with the attempts that led there. -/
inductive History (b : Builder σ) : List (Attempt σ) → Session σ → Prop where
  /-- Nothing was built. -/
  | start (tree : Tree) (place : Place) (today : Day) (memory : σ) : History b []
      (.start tree place today memory)
  /-- The tree and the day may be any others between requests. -/
  | between {attempts : List (Attempt σ)} {s : Session σ} (tree : Tree) (today : Day)
      (hs : History b attempts s) :
      History b attempts { s with tree, today }
  /-- A request. -/
  | request {attempts : List (Attempt σ)} {s : Session σ} (request : Request)
      (hs : History b attempts s) :
      History b (attempts ++ request.attempts b s) ((request.pass b).perform s).2

/-- What a pass does to the records, and how it ends. -/
structure Keeps (b : Builder σ) (attempts : List (Attempt σ)) (s s' : Session σ) : Prop where
  /-- No pass is running afterwards. -/
  idle : s'.phase = .idle
  /-- The records of the good attempts are kept. -/
  records : s'.records = (attempts.filterMap (·.kept b)).foldl Records.keep s.records
  /-- No key that an attempt found is lost. -/
  keys : ∀ a ∈ attempts, a.before.records.map Record.key <+: s'.records.map Record.key

/-- The attempts of everything are those of a full pass, since the sitemap comes after all of
them. -/
theorem attempts_everything (hparts : b.parts.IsFiling) (s : Session σ) (filenames : List String) :
    b.attempts (b.everything filenames) (.start "full" b.settings.mode none)
      { s with phase := .building } =
      Request.full b s := by
  obtain ⟨r₁, s₁, hrun, -⟩ :=
    run_keeps hparts (b.settings.assetDirectories.map .assets ++ (b.cleaning ++ b.entries))
      (.start "full" b.settings.mode none) { s with phase := .building }
  have hmapping : b.attempts (b.mapping filenames) r₁ s₁ = [] := by
    unfold mapping
    cases b.settings.sitemap with
    | none => rfl
    | some o =>
      simp only
      split
      · simp only [attempts, Work.entry?, Option.map_none, Option.toList_none, List.nil_append]
        split <;> rfl
      · rfl
  have heverything : b.everything filenames =
      (b.settings.assetDirectories.map .assets ++ (b.cleaning ++ b.entries)) ++
        b.mapping filenames := by
    simp only [everything, List.append_assoc]
  rw [heverything, attempts_append _ hrun, hmapping, List.append_nil]
  rfl

/-- A full pass keeps records for what it attempts. -/
theorem keeps_full (hparts : b.parts.IsFiling) (hidle : s.phase = .idle) :
    b.Keeps (Request.full b s) s (b.buildAll.perform s).2 := by
  obtain ⟨filenames, r, s₁, log, hrun, happly⟩ := buildAll_spec hparts hidle
  obtain ⟨hrecords, hkeys⟩ := run_records hparts hrun
  rw [attempts_everything hparts] at hrecords hkeys
  rw [Action.perform_apply, happly]
  exact ⟨rfl, hrecords, hkeys⟩

/-- An incremental pass keeps records for what it attempts. -/
theorem keeps_incremental (hparts : b.parts.IsFiling) (hidle : s.phase = .idle)
    (honce : (s.records.map Record.key).Nodup) (f : Path) :
    b.Keeps (Request.incremental b s f) s ((b.rebuild f).perform s).2 := by
  obtain ⟨r, s₁, log, hrun, happly⟩ := rebuild_spec hparts hidle honce f
  have hafter : ((b.rebuild f).perform s).2 = { s₁ with phase := .idle, log } := by
    rw [Action.perform_apply, happly]
  obtain ⟨hrecords, hkeys⟩ := run_records hparts hrun
  -- What is owed depends on the names at the end, which the end of the pass does not change.
  have hattempts : Request.incremental b s f = b.attempts (b.owed s s₁ f)
      (.start "incremental" b.settings.mode (some f.toString)) { s with phase := .building } := by
    unfold Request.incremental
    rw [hafter]
    rfl
  rw [hattempts, hafter]
  exact ⟨rfl, hrecords, hkeys⟩

/-- Whatever is asked for, the records of the good attempts are kept. -/
theorem keeps_request (hparts : b.parts.IsFiling) (hidle : s.phase = .idle)
    (honce : (s.records.map Record.key).Nodup) (request : Request) :
    b.Keeps (request.attempts b s) s ((request.pass b).perform s).2 := by
  rcases request.pass_cases b s with ⟨hpass, hattempts⟩ | ⟨-, f, hpass, hattempts⟩ <;>
    rw [hpass, hattempts]
  · exact keeps_full hparts hidle
  · exact keeps_incremental hparts hidle honce f

/-- After every history the records are those of its good attempts, kept one after another, and no
key that an attempt found is lost. -/
theorem History.keeps (hparts : b.parts.IsFiling) {attempts : List (Attempt σ)}
    (h : b.History attempts s) :
    s.phase = .idle ∧ s.records = (attempts.filterMap (·.kept b)).foldl Records.keep [] ∧
      ∀ a ∈ attempts, a.before.records.map Record.key <+: s.records.map Record.key := by
  induction h with
  | start tree place today memory => exact ⟨rfl, rfl, fun a ha => (by cases ha)⟩
  | between tree today _ ih => exact ih
  | @request attempts s request _ ih =>
    obtain ⟨hidle, hrecords, hkeys⟩ := ih
    have honce : (s.records.map Record.key).Nodup := by
      rw [hrecords]
      exact Records.nodup_map_key_foldl_keep _ List.nodup_nil
    have hkeeps := keeps_request hparts hidle honce request
    refine ⟨hkeeps.idle, ?_, fun a ha => ?_⟩
    · rw [hkeeps.records, hrecords, List.filterMap_append, List.foldl_append]
    · rcases List.mem_append.1 ha with ha | ha
      · refine (hkeys a ha).trans ?_
        rw [hkeeps.records]
        exact Records.isPrefix_map_key_foldl_keep _ _
      · exact hkeeps.keys a ha

/-- After every history there is one record for each key. -/
theorem History.once (hparts : b.parts.IsFiling) {attempts : List (Attempt σ)}
    (h : b.History attempts s) : (s.records.map Record.key).Nodup := by
  obtain ⟨-, hrecords, -⟩ := h.keeps hparts
  rw [hrecords]
  exact Records.nodup_map_key_foldl_keep _ List.nodup_nil

/-- An attempt that did not end well leaves all records as they were. -/
theorem Attempt.records_of_kept_eq_none (hparts : b.parts.IsFiling) {a : Attempt σ}
    (h : a.kept b = none) (r : Report) :
    ((b.work r a.entry.work).perform a.before).2.records = a.before.records := by
  obtain ⟨r', s', hwork, hfollows⟩ := work_follows hparts a.entry.work r a.before
  have hkept : a.entry.work.kept b a.before = a.kept b := by
    cases a with
    | mk e s => cases e <;> rfl
  rw [Action.perform_apply, hwork, hfollows.records, hkept, h]
  rfl

/-- After every history, the record of a key is that of the last good attempt with the key, and
there is none if there was no such attempt. The keys are those of the good attempts, in the order in
which each was first built well. An attempt is good, and has the record of its draft, if the draft
was made without an error and written; any other left the records as they were. No key that an
attempt found is lost. -/
theorem records_eq_of_history (hparts : b.parts.IsFiling) {attempts : List (Attempt σ)}
    (h : b.History attempts s) :
    (∀ k, s.records.find? k = (attempts.filterMap (·.kept b)).reverse.find? (·.key = k)) ∧
      s.records.map Record.key = ((attempts.filterMap (·.kept b)).map Record.key).eraseDups ∧
      ∀ a ∈ attempts,
        (∀ record, a.kept b = some record ↔
          ∃ d s₁ output s₂, (a.entry.draft b).perform a.before = (.ok d, s₁) ∧ d.error = none ∧
            (Output.write b.parts.store b.settings.output d.filename d.text).perform s₁ =
              (.ok output, s₂) ∧
            d.record = record) ∧
        (a.kept b = none → ∀ r, ((b.work r a.entry.work).perform a.before).2.records =
          a.before.records) ∧
        a.before.records.map Record.key <+: s.records.map Record.key := by
  obtain ⟨-, hrecords, hkeys⟩ := h.keeps hparts
  refine ⟨fun k => ?_, ?_, fun a ha => ⟨fun record => Entry.record?_ending_eq_some_iff,
    fun hkept r => Attempt.records_of_kept_eq_none hparts hkept r, hkeys a ha⟩⟩
  · rw [hrecords, Records.find?_foldl_keep]
    exact Option.or_none
  · rw [hrecords, Records.map_key_foldl_keep]

namespace Sample

/-- A site of two pages, of which the first includes a file. -/
def recovering : Builder Unit :=
  builder [page "a" "a.html" "a.html" [], page "b" "b.html" "b.html" []]

/-- The site while the file is missing. -/
def incomplete : Session Unit := session [("a.html", "PageBundler.include('z')"), ("b.html", "b")]

/-- The site after a full pass, with the file. -/
def complete : Session Unit := edit "z.html" "z" (built recovering incomplete)

/-- The site after another full pass, with a file that includes itself. -/
def spoiled : Session Unit := edit "z.html" "PageBundler.include('z')" (built recovering complete)

/-- The attempts that are made on the way, the last of them for an edit of a file that no record
names. -/
noncomputable def recoveringAttempts : List (Attempt Unit) :=
  ([] ++ Request.all.attempts recovering incomplete) ++ Request.all.attempts recovering complete ++
    (Request.changes [path "b.html"]).attempts recovering spoiled

end Sample

open Sample in
/-- The first page is built well only while the file that it includes is there, and keeps its record
when that is spoiled. It comes second among the keys, since it was the second to be built well. -/
theorem records_sample :
    recovering.parts.IsFiling ∧
      recovering.History recoveringAttempts
        ((recovering.handle [path "b.html"]).perform spoiled).2 ∧
      recoveringAttempts.map (fun a => (a.kept recovering).map Record.root) =
        [none, some (path "b.html"), some (path "a.html"), some (path "b.html"), none,
          some (path "b.html")] ∧
      ((recovering.handle [path "b.html"]).perform spoiled).2.records.find?
        (path "a.html", "a.html") =
        some ⟨path "a.html", .page, "a.html", [path "z.html"]⟩ ∧
      ((recovering.handle [path "b.html"]).perform spoiled).2.records.map Record.key =
        [(path "b.html", "b.html"), (path "a.html", "a.html")] := by
  have hfiling : recovering.parts.IsFiling := Collaborators.isFiling_standard _
  have hhistory : recovering.History recoveringAttempts
      ((recovering.handle [path "b.html"]).perform spoiled).2 :=
    .request (.changes [path "b.html"])
      (.between _ _ (.request .all (.between _ _ (.request .all (.start _ _ _ _)))))
  have hkept : recoveringAttempts.map (·.kept recovering) =
      [none, some ⟨path "b.html", .page, "b.html", []⟩,
        some ⟨path "a.html", .page, "a.html", [path "z.html"]⟩,
          some ⟨path "b.html", .page, "b.html", []⟩, none,
            some ⟨path "b.html", .page, "b.html", []⟩] := by
    decide +kernel
  have hrecords : recoveringAttempts.filterMap (·.kept recovering) =
      [⟨path "b.html", .page, "b.html", []⟩, ⟨path "a.html", .page, "a.html", [path "z.html"]⟩,
        ⟨path "b.html", .page, "b.html", []⟩, ⟨path "b.html", .page, "b.html", []⟩] := by
    have hmap : recoveringAttempts.filterMap (·.kept recovering) =
        (recoveringAttempts.map (·.kept recovering)).filterMap id := by
      rw [List.filterMap_map]
      rfl
    rw [hmap, hkept]
    rfl
  obtain ⟨hfind, hkeys, -⟩ := records_eq_of_history hfiling hhistory
  rw [hrecords] at hfind hkeys
  refine ⟨hfiling, hhistory, ?_, (hfind _).trans (by decide), hkeys.trans (by decide)⟩
  have hroots := congrArg (List.map (Option.map Record.root)) hkept
  rw [List.map_map] at hroots
  exact hroots

end Builder

end StaticSite
