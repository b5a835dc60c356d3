import StaticSite.Proofs.Build.Pass

/-!
# What an incremental pass does

`Reachable` is every session that a builder comes to by passes of either kind, in any order, with
any changes of the tree and of the day in between. In every one of them an incremental pass attempts
exactly the entries that it owes, the stylesheets first and each once, and changes nothing that
belongs to any other (`rebuild_attempts`).
-/

namespace StaticSite.Builder

variable {σ : Type} {b : Builder σ}

/-- The sessions that a builder comes to. -/
inductive Reachable (b : Builder σ) : Session σ → Prop where
  /-- Nothing was built; the working directory starts at a root, as that of a process does. -/
  | start (tree : Tree) (place : Place) (today : Day) (memory : σ)
      (hcwd : place.cwd.isAbsolute = true) :
      Reachable b (.start tree place today memory)
  /-- The tree and the day may be any others between passes. -/
  | between {s : Session σ} (tree : Tree) (today : Day) (hs : Reachable b s) :
      Reachable b { s with tree, today }
  /-- A full pass. -/
  | buildAll {s : Session σ} (hs : Reachable b s) : Reachable b (b.buildAll.perform s).2
  /-- An incremental pass for a file. -/
  | rebuild {s : Session σ} (f : Path) (hs : Reachable b s) : Reachable b
      ((b.rebuild f).perform s).2

/-- What holds in every session that a builder comes to. -/
structure Settled (s : Session σ) : Prop where
  /-- No pass is running. -/
  idle : s.phase = .idle
  /-- The working directory starts at a root. -/
  cwd : s.place.cwd.isAbsolute = true
  /-- The records are proper. -/
  proper : s.records.IsProper

/-- A settled session is settled after a full pass. -/
theorem Settled.buildAll (hb : b.IsStandard) {s : Session σ} (h : Settled s) :
    Settled (b.buildAll.perform s).2 := by
  obtain ⟨filenames, r, s₁, log, hrun, happly⟩ := buildAll_spec hb.isFiling h.idle
  obtain ⟨hplace, -, -, hproper⟩ := keeps_of_run hb.isFiling hrun
  unfold Action.perform
  rw [happly]
  exact ⟨rfl, by rw [hplace]; exact h.cwd, hproper h.proper⟩

/-- A settled session is settled after an incremental pass. -/
theorem Settled.rebuild (hb : b.IsStandard) {s : Session σ} (h : Settled s) (f : Path) :
    Settled ((b.rebuild f).perform s).2 := by
  obtain ⟨r, s₁, log, hrun, happly⟩ := rebuild_spec hb.isFiling h.idle h.proper.once f
  obtain ⟨hplace, -, -, hproper⟩ := keeps_of_run hb.isFiling hrun
  unfold Action.perform
  rw [happly]
  exact ⟨rfl, by rw [hplace]; exact h.cwd, hproper h.proper⟩

/-- All sessions that a standard builder comes to are settled. -/
theorem Reachable.settled (hb : b.IsStandard) {s : Session σ} (h : b.Reachable s) : Settled s := by
  induction h with
  | start tree place today memory hcwd => exact ⟨rfl, hcwd, List.nodup_nil, by simp [Session.start]⟩
  | between tree today _ ih => exact ⟨ih.idle, ih.cwd, ih.proper⟩
  | buildAll _ ih => exact ih.buildAll hb
  | rebuild f _ ih => exact ih.rebuild hb f

/-- The pieces of work that an incremental pass owes are stylesheets, each once, and pages. -/
theorem isProduct_of_mem_owed {s s' : Session σ} {f : Path} {w : Work} (h : w ∈ b.owed s s' f) :
    w.IsProduct := by
  rcases List.mem_append.1 h with h | h
  · exact isProduct_of_mem_map_style h
  · obtain ⟨page, -, rfl⟩ := List.mem_map.1 h
    trivial

/-- No stylesheet is owed twice for a file. -/
theorem nodup_owedStyles {s : Session σ} (h : s.records.IsProper) (f : Path) :
    (b.owedStyles s f).Nodup := by
  -- Records with different keys are those of different stylesheets.
  refine nodup_recorded (h.once.sublist (List.Sublist.map _ ?_))
  exact List.filter_sublist.trans List.filter_sublist

/-- No two pieces of work that are owed for a file build the same stylesheet. -/
theorem pairwise_owed {s s' : Session σ} (h : s.records.IsProper) (f : Path) :
    (b.owed s s' f).Pairwise fun w w' => ∀ style ∈ w.styles, style ∉ w'.styles := by
  refine List.pairwise_append.2 ⟨pairwise_styles (nodup_owedStyles h f), ?_, ?_⟩
  · exact List.pairwise_map.2 (List.pairwise_of_forall fun _ _ _ hmem => hmem.elim)
  · intro w _ w' hw' style _ hmem
    obtain ⟨page, -, rfl⟩ := List.mem_map.1 hw'
    exact hmem

/-- In every session that a builder comes to, an incremental pass is a run over exactly what it
owes: the configured stylesheets that are recorded to be made from the file, each once, in the order
of the records, and then, in the order of the configuration, the pages that are recorded so or that
link one of these stylesheets whose name is another afterwards. The record of every key, and the
name of every stylesheet, that belongs to none of them is as it was, and in the tree nothing is gone
and nothing is other than it was but the files of these entries and the directories made above
them. -/
theorem rebuild_attempts (hb : b.IsStandard) {s : Session σ} (hs : b.Reachable s) (f : Path) :
    ∃ r s₁ s', (b.rebuild f).perform s = (.ok r, s') ∧
      (b.run (b.owed s s' f) (.start "incremental" b.settings.mode (some f.toString))).perform
        { s with phase := .building } = (.ok r, s₁) ∧
      s' = { s₁ with phase := .idle, log := s'.log } ∧
      (b.owedStyles s f).Nodup ∧
      s.ChangedOnly (keysOf (b.owed s s' f)) (stylesOf (b.owed s s' f))
        (outputsOf b.settings s'.place s'.names (b.owed s s' f)) s' := by
  have h := hs.settled hb
  obtain ⟨r, s₁, log, hrun, happly⟩ := rebuild_spec hb.isFiling h.idle h.proper.once f
  -- What the run changes says `run_changedOnly`, of the run that the pass is.
  have hproducts : ∀ w ∈ b.owed s s₁ f, w.IsProduct := fun w hw => isProduct_of_mem_owed hw
  obtain ⟨r', s₁', hrun', hchanged⟩ := run_changedOnly hb hproducts (pairwise_owed h.proper f)
    (.start "incremental" b.settings.mode (some f.toString))
      (s := { s with phase := .building }) h.cwd
  cases hrun.symm.trans hrun'
  exact ⟨r, s₁, { s₁ with phase := .idle, log }, happly, hrun, rfl, nodup_owedStyles h.proper f,
    hchanged.place, h.idle.symm, hchanged.records, hchanged.names, hchanged.tree⟩

/-! ## A sample site -/

namespace Sample

/-- A file of the sample. -/
def path (name : String) : Path := ⟨.absolute, ["site", "src", name]⟩

/-- A page of the sample. -/
def page (key source filename : String) (styles : List Stylesheet) : Page :=
  ⟨.text key, some (path source), some filename, styles, [], none⟩

/-- The builder of a site, with the parts that a build uses by default. -/
def site (entries : List SiteEntry) : Builder Unit :=
  let settings : Settings :=
    ⟨⟨.absolute, ["site"]⟩, ⟨.absolute, ["site", "dist"]⟩, "development", false,
      ⟨"PageBundler", "include", .null, 32⟩, [], [], none, entries, none⟩
  ⟨settings, .standard settings, ⟨"PageBundler", ⟨"PageBundler".toList, .includes⟩, [], 32, false⟩⟩

/-- The builder of a site of some pages. -/
def builder (pages : List Page) : Builder Unit := site (pages.map .page)

/-- A session in which nothing was built and some files have texts. -/
def session (files : List (String × String)) : Session Unit :=
  let directories : List (Location × Tree.Entry) :=
    [(["site"], .directory), (["site", "src"], .directory)]
  let texts := files.map fun f => (["site", "src", f.1], .file (Text.encode f.2) (.given 1000))
  .start ⟨directories ++ texts⟩ ⟨⟨.absolute, ["site"]⟩, "/home", .usual⟩ ⟨2024, 5, 6⟩ ()

/-- Writes a file of the sample between passes. -/
def edit (name text : String) (s : Session Unit) : Session Unit :=
  { s with tree := s.tree.put ["site", "src", name] (.file (Text.encode text) (.given 1001)) }

/-- The session after a full pass. -/
def built (b : Builder Unit) (s : Session Unit) : Session Unit := (b.buildAll.perform s).2

/-- A stylesheet with a hash in its name. -/
def sheet : Stylesheet := ⟨path "m.css", "m.[contenthash].css"⟩

/-- A page that links the stylesheet, and one that is written to the same file and links nothing. -/
def twins : Builder Unit :=
  builder [page "a" "p.html" "p.html" [sheet], page "b" "p.html" "p.html" []]

/-- The site of the two pages after a full pass and an edit of the stylesheet. -/
def twinSession : Session Unit :=
  edit "m.css" "b" (built twins (session [("p.html", "<head></head>"), ("m.css", "a")]))

/-- A stylesheet with a hash in its name, and the key that it shares with a page. -/
def shared : Stylesheet := ⟨path "x.css", "x.[contenthash].css"⟩

/-- A page with the key of the stylesheet `shared` that links the other one, and one that links
`shared`. -/
def sharing : Builder Unit :=
  builder [page "a" "x.css" "x.[contenthash].css" [sheet], page "b" "p.html" "p.html" [shared]]

/-- The site of the two pages after a full pass, in which an include of the first is missing, and
edits that mend it and change the stylesheet it links. -/
def sharingSession : Session Unit :=
  edit "m.css" "b" (edit "z.css" "z" (built sharing
    (session [("x.css", "PageBundler.include('z')"), ("p.html", ""), ("m.css", "a")])))

end Sample

open Sample in
/-- The sample is a session that its builder comes to. -/
theorem reachable_twinSession : twins.Reachable twinSession :=
  .between _ _ (.buildAll (.start _ _ _ _ rfl))

open Sample in
/-- The pass for the edited stylesheet attempts it and both pages. -/
theorem rebuild_attempts_sample :
    twins.IsStandard ∧ twins.Reachable twinSession ∧
      ∃ r s₁ s', (twins.rebuild (path "m.css")).perform twinSession = (.ok r, s') ∧
        (twins.run (twins.owed twinSession s' (path "m.css"))
          (.start "incremental" "development" (some "/site/src/m.css"))).perform
          { twinSession with phase := .building } = (.ok r, s₁) := by
  obtain ⟨r, s₁, s', hrebuild, hrun, -⟩ :=
    rebuild_attempts (b := twins) rfl reachable_twinSession (path "m.css")
  exact ⟨rfl, reachable_twinSession, r, s₁, s', hrebuild, hrun⟩

open Sample in
/-- What is attempted goes by keys: a page that is neither recorded to be made from the file nor
links a stylesheet is built too if another page has its key, and a page takes the record of a
stylesheet that has its key though only the page is attempted. -/
theorem rebuild_shares_keys :
    ((∀ record ∈ twinSession.records, record.kind = .page → path "m.css" ∉ record.dependencies) ∧
      twins.settings.shared?.isNone ∧
      ((twins.rebuild (path "m.css")).perform twinSession).1.toOption.map
        (·.pages.map Value.display) =
        some ["a", "b"]) ∧
    shared ∉ sharing.owedStyles sharingSession (path "m.css") ∧
    (sharingSession.records.find? (path "x.css", "x.[contenthash].css")).map (·.kind) =
      some .style ∧
    (((sharing.rebuild (path "m.css")).perform sharingSession).2.records.find?
      (path "x.css", "x.[contenthash].css")).map (·.kind) = some .page := by
  decide +kernel

end StaticSite.Builder
