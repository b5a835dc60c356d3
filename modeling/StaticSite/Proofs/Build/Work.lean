import StaticSite.Proofs.Build.Assets
import StaticSite.Proofs.Build.Page
import StaticSite.Proofs.Build.Style

/-!
# The work of a pass

A pass does one piece of work after another, and no piece of work fails: what goes wrong is
reported. `Session.ChangedOnly` says what an entry may change at most, and `run_changedOnly` says it
of a whole run: the records are changed under the keys of its entries, the names of its stylesheets,
and the tree at their output files and the directories above these.
-/

namespace StaticSite

variable {σ : Type}

/-- A session changed in some records, names and files only. -/
structure Session.ChangedOnly (ks : Set Record.Key) (styles : Set Stylesheet) (ls : Set Location)
    (s s' : Session σ) : Prop where
  /-- The place is the same. -/
  place : s'.place = s.place
  /-- What the session is doing is the same. -/
  phase : s'.phase = s.phase
  /-- The record of every other key is the same. -/
  records : ∀ k, k ∉ ks → s'.records.find? k = s.records.find? k
  /-- The name of every other stylesheet is the same. -/
  names : ∀ style, style ∉ styles → s'.names.lookup style = s.names.lookup style
  /-- Nothing but the files was written. -/
  tree : Tree.ChangedOnly ls s.tree s'.tree

namespace Session.ChangedOnly

variable {ks ks' : Set Record.Key} {styles styles' : Set Stylesheet} {ls ls' : Set Location}
  {s s' s'' : Session σ}

/-- A session changed in nothing. -/
theorem refl (ks : Set Record.Key) (styles : Set Stylesheet) (ls : Set Location) (s : Session σ) :
    ChangedOnly ks styles ls s s :=
  ⟨rfl, rfl, fun _ _ => rfl, fun _ _ => rfl, .refl ls s.tree⟩

/-- Two changes in the same records, names and files are one. -/
theorem trans (h : ChangedOnly ks styles ls s s') (h' : ChangedOnly ks styles ls s' s'') :
    ChangedOnly ks styles ls s s'' where
  place := h'.place.trans h.place
  phase := h'.phase.trans h.phase
  records k hk := (h'.records k hk).trans (h.records k hk)
  names style hstyle := (h'.names style hstyle).trans (h.names style hstyle)
  tree := h.tree.trans h'.tree

/-- A session that changed in some records, names and files changed in more. -/
theorem mono (hks : ks ⊆ ks') (hstyles : styles ⊆ styles') (hls : ls ⊆ ls')
    (h : ChangedOnly ks styles ls s s') : ChangedOnly ks' styles' ls' s s' where
  place := h.place
  phase := h.phase
  records k hk := h.records k fun hmem => hk (hks hmem)
  names style hstyle := h.names style fun hmem => hstyle (hstyles hmem)
  tree := h.tree.mono hls

end Session.ChangedOnly

/-- An operation on files changes what it does to the tree. -/
theorem Session.KeepsBook.changedOnly {ls : Set Location} {s s' : Session σ} (h : s.KeepsBook s')
    (htree : Tree.ChangedOnly ls s.tree s'.tree) : ChangedOnly ∅ ∅ ls s s' :=
  ⟨h.place, h.phase, fun _ _ => by rw [h.records], fun _ _ => by rw [h.names], htree⟩

/-- A name that was given is found. -/
theorem OutputNames.lookup_set_self (names : OutputNames) (style : Stylesheet) (name : String) :
    (names.set style name).lookup style = some name := by
  induction names with
  | nil => simp [set]
  | cons entry rest ih =>
    obtain ⟨s, n⟩ := entry
    unfold set
    split
    · rename_i h
      simp [h]
    · rename_i h
      have hne : (style == s) = false := by simpa using Ne.symm h
      rw [List.lookup_cons, hne]
      exact ih

/-- Giving a name changes no other. -/
theorem OutputNames.lookup_set_of_ne (names : OutputNames) {style other : Stylesheet}
    (name : String) (h : other ≠ style) :
    (names.set style name).lookup other = names.lookup other := by
  induction names with
  | nil => simp [set, h]
  | cons entry rest ih =>
    obtain ⟨s, n⟩ := entry
    unfold set
    split
    · rename_i hs
      have hne : (other == s) = false := by simpa [hs] using h
      rw [List.lookup_cons, List.lookup_cons, hne]
    · rw [List.lookup_cons, List.lookup_cons, ih]

namespace Style

/-- The file that the known name of a stylesheet leads to. -/
def currentPath (settings : Settings) (place : Place) (names : OutputNames)
    (style : Stylesheet) : Path :=
  Output.path place settings.output
    (if isHashed style.filename then (names.lookup style).getD style.filename else style.filename)

/-- A stylesheet that was given the name of a text has the file of that text. -/
theorem currentPath_named (settings : Settings) (place : Place) (names : OutputNames)
    (style : Stylesheet) (text : String) :
    currentPath settings place (named names style text) style =
      outputPath settings place style text := by
  unfold currentPath outputPath named writtenName
  by_cases h : isHashed style.filename = true
  · simp only [h, if_true, OutputNames.lookup_set_self, Option.getD_some]
  · simp only [h]
    rfl

/-- Naming a stylesheet leaves the names of the others alone. -/
theorem lookup_named_of_ne (names : OutputNames) {style other : Stylesheet} (text : String)
    (h : other ≠ style) : (named names style text).lookup other = names.lookup other := by
  unfold named
  split
  · exact OutputNames.lookup_set_of_ne names _ h
  · rfl

/-- Bundling a stylesheet changes its name and its file, which is that of some text. -/
theorem Bundled.changedOnly {settings : Settings} {style : Stylesheet} {s s' : Session σ}
    {x : Except Fault Written} (h : Bundled settings style s x s') :
    s.ChangedOnly ∅ {style} {l | l = (currentPath settings s'.place s'.names style).names ∧
      ∃ text, l = (outputPath settings s.place style text).names} s' := by
  have hnames : ∀ text, ∀ other, other ∉ ({style} : Set Stylesheet) →
      (named s.names style text).lookup other = s.names.lookup other :=
    fun text other hother => lookup_named_of_ne s.names text hother
  cases h with
  | failed fault log hproduct => exact ⟨rfl, rfl, fun _ _ => rfl, fun _ _ => rfl, .refl _ _⟩
  | refused m fault tree clock log hproduct hrefused htree =>
    refine ⟨rfl, rfl, fun _ _ => rfl, hnames m.text, ?_⟩
    rw [currentPath_named]
    exact htree.changedOnly.mono fun l hl => ⟨hl, m.text, hl⟩
  | written m tree clock log hproduct haccepts htree =>
    refine ⟨rfl, rfl, fun _ _ => rfl, hnames m.text, ?_⟩
    rw [currentPath_named]
    exact htree.changedOnly.mono fun l hl => ⟨hl, m.text, hl⟩

end Style

/-- Building a page changes its file. -/
theorem Rendering.Built.changedOnly {r : Renderer σ} {page : Page} {shared : Option Page}
    {s s' : Session σ} {x : Except Fault Written} (h : Built r page shared s x s') :
    s.ChangedOnly ∅ ∅ {(outputPath r s'.place page).names} s' := by
  cases h with
  | failed => exact ⟨rfl, rfl, fun _ _ => rfl, fun _ _ => rfl, .refl _ _⟩
  | refused _ _ _ _ _ _ _ _ htree =>
      exact ⟨rfl, rfl, fun _ _ => rfl, fun _ _ => rfl, htree.changedOnly⟩
  | written _ _ _ _ _ _ _ _ _ htree =>
      exact ⟨rfl, rfl, fun _ _ => rfl, fun _ _ => rfl, htree.changedOnly⟩

namespace Builder

/-- A piece of the work of a pass. -/
inductive Work where
  /-- Copying an asset directory. -/
  | assets (a : AssetDirectory)
  /-- Removing the directory of a stylesheet. -/
  | clean (first : Stylesheet)
  /-- Building a stylesheet. -/
  | style (style : Stylesheet)
  /-- Building a page. -/
  | page (page : Page)
  /-- Writing the sitemap. -/
  | sitemap (o : SitemapOptions) (filenames : List String)

/-- Does a piece of work. -/
def work (b : Builder σ) (r : Report) : Work → Action σ Report
  | .assets a => b.copyAssets r a
  | .clean first => do
    let _ ← Style.clean b.parts.store b.settings.output first
    return r
  | .style style => b.buildStyle r style
  | .page page => Prod.fst <$> b.buildPage r page
  | .sitemap o filenames => b.writeSitemap r o filenames

/-- Does one piece of work after another. -/
def run (b : Builder σ) (works : List Work) (r : Report) : Action σ Report := works.foldlM b.work r

/-- The builder works with the parts that a build uses where none are supplied from outside. -/
def IsStandard (b : Builder σ) : Prop := b.parts = .standard b.settings

/-- A standard builder works on the file tree. -/
theorem IsStandard.store {b : Builder σ} (hb : b.IsStandard) : b.parts.store = .onTree := by
  rw [show b.parts = .standard b.settings from hb]
  rfl

/-- A builder that is made with the parts for its settings is standard. -/
theorem isStandard_of_make {settings : Settings} {b : Builder σ}
    (h : Builder.make settings (.standard settings) = .ok b) : b.IsStandard := by
  unfold Builder.make at h
  simp only [bind, Except.bind] at h
  split at h
  · cases h
  · cases h
    rfl

variable {b : Builder σ}

/-- A run without work reports what was reported before. -/
@[simp] theorem run_nil (r : Report) (s : Session σ) : b.run [] r s = (.ok r, s) := rfl

/-- A run does its first piece of work, and then the rest. -/
theorem run_cons (w : Work) (works : List Work) (r : Report) :
    b.run (w :: works) r = (b.work r w >>= b.run works) := rfl

/-- A run does its first half, and then the second. -/
theorem run_append (works works' : List Work) (r : Report) :
    b.run (works ++ works') r = (b.run works r >>= b.run works') := by
  unfold run
  exact List.foldlM_append ..

/-- Where the first half of a run answers, the second goes on from there. -/
theorem run_append_apply {works works' : List Work} {r r' : Report} {s s' : Session σ}
    (h : b.run works r s = (.ok r', s')) : b.run (works ++ works') r s = b.run works' r' s' := by
  rw [run_append, bind_apply_ok h]

/-- Building a stylesheet bundles it and keeps its record, or reports what went wrong. -/
theorem buildStyle_spec (hb : b.IsStandard) (r : Report) (style : Stylesheet) {s : Session σ}
    (hcwd : s.place.cwd.isAbsolute = true) :
    ∃ x s₁, Style.Bundled b.settings style s x s₁ ∧ ∃ log, b.buildStyle r style s =
      match x with
      | .error fault =>
        (.ok (r.addError (style.source.toString ++ ": " ++ fault.message)), { s₁ with log })
      | .ok w =>
        (.ok { r with styles := r.styles ++ [w.filename], written :=
          r.written ++ [w.output.toString] },
            { s₁ with log, records :=
              s₁.records.keep ⟨style.source, .style, style.filename, w.dependencies⟩ }) := by
  obtain ⟨x, s₁, hbundle, hbundled⟩ := Style.bundle_spec b.settings style hcwd
  rw [← show b.parts = .standard b.settings from hb] at hbundle
  refine ⟨x, s₁, hbundled, ?_⟩
  unfold buildStyle
  rw [bind_apply_ok (Action.attempt_apply _ s), hbundle]
  cases x with
  | error fault => exact ⟨_, rfl⟩
  | ok w => exact ⟨s₁.log, rfl⟩

/-- Building a page builds its file and keeps its record, or reports what went wrong. -/
theorem buildPage_spec (hb : b.IsStandard) (r : Report) (page : Page) {s : Session σ}
    (hcwd : s.place.cwd.isAbsolute = true) :
    ∃ x s₁, Rendering.Built b.renderer page b.settings.shared? s x s₁ ∧
      ∃ log, b.buildPage r page s =
      match x with
      | .error fault =>
        (.ok (r.addError (page.key.display ++ ": " ++ fault.message), false), { s₁ with log })
      | .ok w =>
        let warned :=
          { r with warnings := r.warnings ++ w.warnings.map fun m => page.key.display ++ ": " ++ m }
        match w.bundle.error with
        | none =>
          (.ok ({ warned with pages := r.pages ++ [page.key], written :=
            r.written ++ [w.output.toString] }, true),
              { s₁ with log, records :=
                s₁.records.keep ⟨w.source, .page, w.filename, w.bundle.dependencies⟩ })
        | some error =>
          (.ok ({ warned.addError (page.key.display ++ ": " ++ error) with
            pages := r.pages ++ [page.key], written := r.written ++ [w.output.toString] }, true),
            { s₁ with log }) := by
  have hparts : b.renderer.parts = .standard b.settings := hb
  obtain ⟨x, s₁, hbuild, hbuilt⟩ := Rendering.build_spec hparts page b.settings.shared? hcwd
  refine ⟨x, s₁, hbuilt, ?_⟩
  unfold buildPage
  rw [bind_apply_ok (Action.attempt_apply _ s), hbuild]
  cases x with
  | error fault => exact ⟨_, rfl⟩
  | ok w =>
    simp only
    cases w.bundle.error with
    | none => exact ⟨s₁.log, rfl⟩
    | some error => exact ⟨s₁.log, rfl⟩

/-- Writing the sitemap is an operation on files that writes its file at most. -/
theorem writeSitemap_spec (hb : b.IsStandard) (r : Report) (o : SitemapOptions)
    (filenames : List String) {s : Session σ} (hcwd : s.place.cwd.isAbsolute = true) :
    ∃ r' s', b.writeSitemap r o filenames s = (.ok r', s') ∧ s.KeepsBook s' ∧
      Tree.ChangedOnly {(Output.path s.place b.settings.output Sitemap.filename).names} s.tree
        s'.tree := by
  -- A fault of the sitemap goes into the report, and changes no more than the making of it did.
  have hmake : ∃ x s', b.makeSitemap o filenames s = (x, s') ∧ s.KeepsBook s' ∧
      Tree.ChangedOnly {(Output.path s.place b.settings.output Sitemap.filename).names} s.tree
        s'.tree := by
    unfold makeSitemap
    rw [bind_apply_ok (modify_apply _ s), bind_apply_ok (get_apply _), bind_apply, liftM_apply]
    cases Sitemap.make Sitemap.patternEngine o filenames s.today with
    | error fault => exact ⟨_, _, rfl, ⟨rfl, rfl, rfl, rfl⟩, .refl _ _⟩
    | ok document? =>
      cases document? with
      | none => exact ⟨_, _, rfl, ⟨rfl, rfl, rfl, rfl⟩, .refl _ _⟩
      | some document =>
        simp only [show b.parts = .standard b.settings from hb, Collaborators.standard, map_apply]
        obtain ⟨tree, clock, log, ⟨-, hwrote, hwrite⟩ | ⟨-, hgrows, fault, hwrite⟩⟩ :=
          Output.write_spec b.settings.output Sitemap.filename document
            (s := { s with log := s.log ++ Sitemap.warnings o }) hcwd
        · rw [hwrite]
          exact ⟨_, _, rfl, ⟨rfl, rfl, rfl, rfl⟩, hwrote.changedOnly⟩
        · rw [hwrite]
          exact ⟨_, _, rfl, ⟨rfl, rfl, rfl, rfl⟩, hgrows.changedOnly⟩
  obtain ⟨x, s', hmake, hbook, htree⟩ := hmake
  unfold writeSitemap
  rw [bind_apply_ok (Action.attempt_apply _ s), hmake]
  cases x with
  | error fault => exact ⟨_, _, rfl, ⟨hbook.place, hbook.phase, hbook.records, hbook.names⟩, htree⟩
  | ok output =>
    cases output with
    | none => exact ⟨_, _, rfl, hbook, htree⟩
    | some output => exact ⟨_, _, rfl, hbook, htree⟩

namespace Work

/-- A piece of work that makes one file. -/
def IsProduct : Work → Prop
  | .assets _ | .clean _ => False
  | .style _ | .page _ | .sitemap _ _ => True

/-- The keys under which a piece of work keeps a record. -/
def keys : Work → Set Record.Key
  | .style sheet => {(sheet.source, sheet.filename)}
  | .page p => {k | ∃ source, p.source = some source ∧ k = (source, Rendering.outputName p)}
  | .assets _ | .clean _ | .sitemap _ _ => ∅

/-- The stylesheets that a piece of work gives a name. -/
def styles : Work → Set Stylesheet
  | .style sheet => {sheet}
  | .assets _ | .clean _ | .page _ | .sitemap _ _ => ∅

/-- The files that a piece of work makes, with stylesheets under the names that are known of
them. -/
def outputs (settings : Settings) (place : Place) (names : OutputNames) : Work → Set Location
  | .style sheet => {(Style.currentPath settings place names sheet).names}
  | .page p => {(Output.path place settings.output (Rendering.outputName p)).names}
  | .sitemap _ _ => {(Output.path place settings.output Sitemap.filename).names}
  | .assets _ | .clean _ => ∅

/-- The files that a piece of work may make, with stylesheets under the name of any text. -/
def candidates (settings : Settings) (place : Place) : Work → Set Location
  | .style sheet => {l | ∃ text, l = (Style.outputPath settings place sheet text).names}
  | .page p => {(Output.path place settings.output (Rendering.outputName p)).names}
  | .sitemap _ _ => {(Output.path place settings.output Sitemap.filename).names}
  | .assets _ | .clean _ => ∅

/-- The files that a piece of work makes depend on the names of its own stylesheets alone. -/
theorem outputs_congr {settings : Settings} {place : Place} {names names' : OutputNames} {w : Work}
    (h : ∀ style ∈ w.styles, names'.lookup style = names.lookup style) :
    w.outputs settings place names' = w.outputs settings place names := by
  cases w with
  | style sheet =>
    simp only [outputs, Style.currentPath, h sheet rfl]
  | assets | clean | page | sitemap => rfl

end Work

/-- A piece of work that makes one file changes no more than that file, the name and the record. -/
theorem work_changedOnly (hb : b.IsStandard) {w : Work} (hw : w.IsProduct) (r : Report)
    {s : Session σ} (hcwd : s.place.cwd.isAbsolute = true) :
    ∃ r' s', b.work r w s = (.ok r', s') ∧
      s.ChangedOnly w.keys w.styles
        (w.outputs b.settings s'.place s'.names ∩ w.candidates b.settings s.place) s' := by
  cases w with
  | assets | clean => exact hw.elim
  | style style =>
    obtain ⟨x, s₁, hbundled, log, h⟩ := buildStyle_spec hb r style hcwd
    have hchanged := hbundled.changedOnly
    simp only [work, h]
    cases x with
    | error fault =>
      exact ⟨_, _, rfl, hchanged.place, hchanged.phase, fun k _ => hchanged.records k id,
        hchanged.names, hchanged.tree⟩
    | ok w =>
      -- Its record is kept under its own key.
      refine ⟨_, _, rfl, hchanged.place, hchanged.phase, fun k hk => ?_, hchanged.names,
        hchanged.tree⟩
      have hkeep := Records.find?_keep_of_ne s₁.records
        ⟨style.source, .style, style.filename, w.dependencies⟩ hk
      exact hkeep.trans (hchanged.records k id)
  | page page =>
    -- The file of a page does not depend on names, so that the one it makes is the only one it may
    -- make.
    obtain ⟨x, s₁, hbuilt, log, h⟩ := buildPage_spec hb r page hcwd
    have hchanged := hbuilt.changedOnly
    have htree : Tree.ChangedOnly ((Work.page page).outputs b.settings s₁.place s₁.names ∩
        (Work.page page).candidates b.settings s.place) s.tree s₁.tree :=
      hchanged.tree.mono fun l hl => ⟨hl, by rw [hchanged.place] at hl; exact hl⟩
    simp only [work, map_apply, h]
    cases x with
    | error fault =>
      exact ⟨_, _, rfl, hchanged.place, hchanged.phase, fun k _ => hchanged.records k id,
        fun style _ => hchanged.names style id, htree⟩
    | ok w =>
      cases hbuilt with
      | written rendered source tree clock _ manifest hrender hsource haccepts hwrote =>
        simp only
        cases rendered.bundle.error with
        | none =>
          refine ⟨_, _, rfl, rfl, rfl, fun k hk => ?_, fun _ _ => rfl, htree⟩
          exact Records.find?_keep_of_ne s.records _ fun hkey => hk ⟨source, hsource, hkey⟩
        | some error => exact ⟨_, _, rfl, rfl, rfl, fun _ _ => rfl, fun _ _ => rfl, htree⟩
  | sitemap o filenames =>
    obtain ⟨r', s', h, hbook, htree⟩ := writeSitemap_spec hb r o filenames hcwd
    refine ⟨r', s', h, hbook.changedOnly (htree.mono fun l hl => ⟨?_, hl⟩)⟩
    rw [hbook.place]
    exact hl

/-- The keys under which a run keeps records. -/
def keysOf (works : List Work) : Set Record.Key := {k | ∃ w ∈ works, k ∈ w.keys}

/-- The stylesheets that a run gives names. -/
def stylesOf (works : List Work) : Set Stylesheet := {style | ∃ w ∈ works, style ∈ w.styles}

/-- The files that a run makes, with stylesheets under the names that are known of them. -/
def outputsOf (settings : Settings) (place : Place) (names : OutputNames) (works : List Work) :
    Set Location :=
  {l | ∃ w ∈ works, l ∈ w.outputs settings place names}

/-- What the first piece and the others change makes up what a run changes. -/
theorem changedOnly_cons {w : Work} {works : List Work} {first rest all : Set Location}
    {s s₁ s' : Session σ} (hfirst : s.ChangedOnly w.keys w.styles first s₁)
    (hrest : s₁.ChangedOnly (keysOf works) (stylesOf works) rest s') (hsub : first ⊆ all)
    (hsub' : rest ⊆ all) :
    s.ChangedOnly (keysOf (w :: works)) (stylesOf (w :: works)) all s' := by
  refine .trans (hfirst.mono ?_ ?_ hsub) (hrest.mono ?_ ?_ hsub')
  · exact fun k hk => ⟨w, List.mem_cons_self, hk⟩
  · exact fun style hstyle => ⟨w, List.mem_cons_self, hstyle⟩
  · exact fun k ⟨w', hw', hk⟩ => ⟨w', List.mem_cons_of_mem _ hw', hk⟩
  · exact fun style ⟨w', hw', hstyle⟩ => ⟨w', List.mem_cons_of_mem _ hw', hstyle⟩

/-- A run that builds no stylesheet twice changes no more than the files, the names and the records
of its pieces. -/
theorem run_changedOnly (hb : b.IsStandard) {works : List Work} (hworks : ∀ w ∈ works, w.IsProduct)
    (honce : works.Pairwise fun w w' => ∀ style ∈ w.styles, style ∉ w'.styles) (r : Report)
    {s : Session σ} (hcwd : s.place.cwd.isAbsolute = true) :
    ∃ r' s', b.run works r s = (.ok r', s') ∧
      s.ChangedOnly (keysOf works) (stylesOf works)
        (outputsOf b.settings s'.place s'.names works) s' := by
  induction works generalizing r s with
  | nil => exact ⟨r, s, rfl, .refl _ _ _ s⟩
  | cons w works ih =>
    obtain ⟨hw, hworks⟩ := List.forall_mem_cons.1 hworks
    obtain ⟨hdisjoint, honce⟩ := List.pairwise_cons.1 honce
    obtain ⟨r₁, s₁, hwork, hfirst⟩ := work_changedOnly hb hw r hcwd
    obtain ⟨r', s', hrun, hrest⟩ := ih hworks honce r₁ (s := s₁) (by rwa [hfirst.place])
    refine ⟨r', s', by rw [run_cons, bind_apply_ok hwork, hrun], ?_⟩
    -- The names of the first piece are not changed by the others, so that they lead to its files
    -- still.
    have houtputs : w.outputs b.settings s'.place s'.names =
        w.outputs b.settings s₁.place s₁.names := by
      rw [hrest.place]
      refine Work.outputs_congr fun style hstyle => hrest.names style ?_
      rintro ⟨w', hw', hmem⟩
      exact hdisjoint w' hw' style hstyle hmem
    refine changedOnly_cons hfirst hrest ?_ ?_
    · exact fun l hl => ⟨w, List.mem_cons_self, by rw [houtputs]; exact hl.1⟩
    · exact fun l ⟨w', hw', hl⟩ => ⟨w', List.mem_cons_of_mem _ hw', hl⟩

/-- The files that a run may make. -/
def candidatesOf (settings : Settings) (place : Place) (works : List Work) : Set Location :=
  {l | ∃ w ∈ works, l ∈ w.candidates settings place}

/-- A run changes no more than the records and the names of its pieces and the files that these may
make. -/
theorem run_changedOnly_candidates (hb : b.IsStandard) {works : List Work}
    (hworks : ∀ w ∈ works, w.IsProduct) (r : Report) {s : Session σ}
    (hcwd : s.place.cwd.isAbsolute = true) :
    ∃ r' s', b.run works r s = (.ok r', s') ∧
      s.ChangedOnly (keysOf works) (stylesOf works) (candidatesOf b.settings s.place works) s' := by
  induction works generalizing r s with
  | nil => exact ⟨r, s, rfl, .refl _ _ _ s⟩
  | cons w works ih =>
    obtain ⟨hw, hworks⟩ := List.forall_mem_cons.1 hworks
    obtain ⟨r₁, s₁, hwork, hfirst⟩ := work_changedOnly hb hw r hcwd
    obtain ⟨r', s', hrun, hrest⟩ := ih hworks r₁ (s := s₁) (by rwa [hfirst.place])
    refine ⟨r', s', by rw [run_cons, bind_apply_ok hwork, hrun], ?_⟩
    rw [hfirst.place] at hrest
    refine changedOnly_cons hfirst hrest ?_ ?_
    · exact fun l hl => ⟨w, List.mem_cons_self, hl.2⟩
    · exact fun l ⟨w', hw', hl⟩ => ⟨w', List.mem_cons_of_mem _ hw', hl⟩

end Builder

end StaticSite
