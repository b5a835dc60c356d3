import Mathlib.Data.List.Sort
import Mathlib.Data.String.Basic
import StaticSite.Proofs.Build.Copying
import StaticSite.Proofs.Build.Isolation
import StaticSite.Proofs.Build.Keeping
import StaticSite.Proofs.Build.Tidy

/-!
# What is left of the files that a full pass reports

A full pass copies the assets before it cleans the site, and builds the entries afterwards. So every
file that it reports is there at its end but for those of assets that lie in the directory of which
it cleaned the site and are not built again (`written_of_buildAll`), and such files do get lost
(`buildAll_loses_assets`). That the entries and the sitemap make the files that are reported of
them, take none away and make no other is said of each piece of work (`work_makes`) and so of a run
(`run_makes`).
-/

namespace StaticSite

variable {σ : Type} {s s' s'' : Session σ}

/-- A session has the place and the tree of an earlier one. -/
structure Session.SameFiles (s s' : Session σ) : Prop where
  /-- The place is the same. -/
  place : s'.place = s.place
  /-- The tree is. -/
  tree : s'.tree = s.tree

instance : Std.Refl (Session.SameFiles : Session σ → Session σ → Prop) where
  refl _ := ⟨rfl, rfl⟩

instance : IsTrans (Session σ) Session.SameFiles where
  trans _ _ _ h h' := ⟨h'.place.trans h.place, h'.tree.trans h.tree⟩

/-- Files are in the tree, and no part touches the tree, nor what the session knows of its
builds. -/
structure Collaborators.LeavesTree (c : Collaborators σ) : Prop extends c.IsFiling where
  /-- Files are in the tree. -/
  onTree : c.store = .onTree
  /-- No part touches it. -/
  calls : c.Calls Session.SameFiles

/-- The parts that a build uses by default leave the tree alone. -/
theorem Collaborators.leavesTree_standard (settings : Settings) :
    (standard settings : Collaborators σ).LeavesTree where
  toIsFiling := isFiling_standard settings
  onTree := rfl
  calls := (calls_standard settings).mono fun s s' ⟨_, _, h⟩ => by
    rw [h]
    exact ⟨rfl, rfl⟩

/-- A path leads to a file if and only if the system takes the path, and a file stands at its names,
in directories. -/
theorem Session.isFile_iff_of_isGrounded {p : Path} (hp : p.IsGrounded) :
    s.isFile p = .ok true ↔ p.Fits ∧ s.tree.Leads p.names ∧ s.tree.HasFile p.names := by
  rw [Session.isFile_eq_true_iff]
  constructor
  · rintro ⟨l, hlocate, hfile⟩
    obtain ⟨hfits, rfl, hleads⟩ := (Tree.locate_eq_ok_iff hp).1 hlocate
    exact ⟨hfits, hleads, hfile⟩
  · rintro ⟨hfits, hleads, hfile⟩
    exact ⟨p.names, (Tree.locate_eq_ok_iff hp).2 ⟨hfits, rfl, hleads⟩, hfile⟩

/-! ## Making files -/

/-- A session has some files besides those of an earlier one, of which none is gone, and no
others. -/
structure Session.Makes (made : List Path) (s s' : Session σ) :
    Prop extends Session.Gains made s s' where
  /-- There are no others. -/
  only : ∀ l, s'.tree.HasFile l → s.tree.HasFile l ∨ ∃ p ∈ made, p.names = l

namespace Session

variable {made made' : List Path}

/-- A session with the same files has none besides. -/
theorem SameFiles.makes (h : s.SameFiles s') : s.Makes [] s' where
  toGains := KeepsFiles.gains ⟨h.place, h.tree ▸ .refl s.tree⟩
  only _ hl := .inl (h.tree ▸ hl)

/-- What is made in two steps is made in one. -/
theorem Makes.trans (h : s.Makes made s') (h' : s'.Makes made' s'') :
    s.Makes (made ++ made') s'' where
  toGains := h.toGains.trans h'.toGains
  only l hl := by
    rcases h'.only l hl with hl | ⟨p, hp, hnames⟩
    · rcases h.only l hl with hl | ⟨p, hp, hnames⟩
      · exact .inl hl
      · exact .inr ⟨p, List.mem_append_left _ hp, hnames⟩
    · exact .inr ⟨p, List.mem_append_right _ hp, hnames⟩

/-- What touches no file afterwards does not count. -/
theorem Makes.same (h : s.Makes made s') (hsame : s'.SameFiles s'') : s.Makes made s'' := by
  have htrans := h.trans hsame.makes
  rwa [List.append_nil] at htrans

end Session

namespace Action

variable {α β : Type}

/-- An action makes the files that its answer tells of, and none if it fails. -/
def Making (f : α → List Path) (a : Action σ α) : Prop :=
  ∀ s : Session σ, s.place.cwd.isAbsolute = true → s.Makes ((a s).1.toOption.elim [] f) (a s).2

/-- What comes before may touch no file. -/
theorem Making.bind {f : β → List Path} {a : Action σ α} {g : α → Action σ β}
    (ha : a.Within Session.SameFiles) (hg : ∀ x, (g x).Making f) : (a >>= g).Making f := by
  intro s hcwd
  have hsame := ha s
  rw [bind_apply]
  generalize a s = result at hsame ⊢
  obtain ⟨fault | x, s₁⟩ := result
  · exact hsame.makes
  · exact hsame.makes.trans (hg x s₁ (by rw [hsame.place]; exact hcwd))

/-- An action that leaves the files alone makes none, and tells of none. -/
theorem Making.of_same {a : Action σ α} {f : α → List Path} (ha : a.Within Session.SameFiles)
    (hf : ∀ s x, (a s).1 = .ok x → f x = []) : a.Making f := by
  intro s _
  have hnone : (a s).1.toOption.elim [] f = [] := by
    cases hanswer : (a s).1 with
    | error fault => rfl
    | ok x => exact hf s x hanswer
  rw [hnone]
  exact (ha s).makes

/-- The files that an action makes can be told from what its answer is turned into. -/
theorem Making.map {f : β → List Path} {g : α → β} {a : Action σ α}
    (ha : a.Making fun x => f (g x)) : (g <$> a).Making f := by
  intro s hcwd
  have hmakes := ha s hcwd
  rw [map_apply]
  rcases hanswer : (a s).1 with fault | x <;> rw [hanswer] at hmakes <;> exact hmakes

end Action

/-- Writing an output file makes the file. -/
theorem Output.making_write (directory : Path) (filename text : String) :
    (Output.write .onTree directory filename text : Action σ Path).Making fun output =>
      [output] := by
  intro s hcwd
  have hkeeps := Output.isKeeping_write directory filename text s
  obtain ⟨t, clock, log, ⟨-, hwrote, hwrite⟩ | ⟨-, hgrows, fault, hwrite⟩⟩ :=
    Output.write_spec directory filename text hcwd <;> rw [hwrite] at hkeeps ⊢
  · refine ⟨⟨hkeeps, fun p hp => ?_⟩, fun l hl => ?_⟩
    · rw [List.mem_singleton.1 hp]
      exact ⟨Path.isGrounded_output hcwd directory filename, (Output.isFile_of_write hwrite).2⟩
    · by_cases heq : l = (Output.path s.place directory filename).names
      · exact .inr ⟨_, List.mem_cons_self, heq.symm⟩
      · exact .inl ((hwrote.changedOnly.hasFile_iff heq).1 hl)
  · exact ⟨hkeeps.gains, fun l hl => .inl (hgrows.hasFile_iff.1 hl)⟩

namespace Builder

section

variable {b : Builder σ} {r r' : Report}

/-- Building an entry makes the one file that it tells of. -/
theorem Entry.making_build (hparts : b.parts.LeavesTree) (e : Entry) :
    (e.build b).Making fun x => [x.1] := by
  refine .bind (e.draft_within hparts.calls fun _ _ _ => ⟨rfl, rfl⟩) fun d => ?_
  rw [hparts.onTree, bind_pure_comp]
  exact .map (Output.making_write _ _ _)

/-- Making the sitemap makes the one file that it tells of, if it does. -/
theorem making_makeSitemap (hparts : b.parts.LeavesTree) (o : SitemapOptions)
    (filenames : List String) : (b.makeSitemap o filenames).Making Option.toList := by
  refine .bind (fun s => ⟨rfl, rfl⟩) fun _ => .bind .get fun s =>
    .bind (.liftM _) fun document? => ?_
  cases document? with
  | none =>
    refine .bind (fun s => ⟨rfl, rfl⟩) fun _ => .of_same (.pure _) fun s x h => ?_
    cases h
    rfl
  | some document =>
    simp only [hparts.onTree]
    exact .map (Output.making_write _ _ _)

/-- A piece of work that makes a file reports it. -/
theorem work_makes (hparts : b.parts.LeavesTree) {w : Work} (hw : w.IsProduct)
    (hcwd : s.place.cwd.isAbsolute = true) (h : b.work r w s = (.ok r', s')) :
    ∃ made : List Path, r'.written = r.written ++ made.map Path.toString ∧ s.Makes made s' := by
  have hentry : ∀ e : Entry, b.work r e.work s = (.ok r', s') →
      ∃ made : List Path, r'.written = r.written ++ made.map Path.toString ∧ s.Makes made s' := by
    intro e h
    obtain ⟨log, hwork⟩ := e.work_apply hparts.toIsFiling r s
    have hmakes := e.making_build hparts s hcwd
    rw [h] at hwork
    rcases hbuild : e.build b s with ⟨fault | ⟨output, d⟩, s₁⟩ <;>
      rw [hbuild] at hwork hmakes <;> cases hwork
    · exact ⟨[], (List.append_nil _).symm, hmakes.same ⟨rfl, rfl⟩⟩
    · exact ⟨[output], by cases e <;> rfl, hmakes.same ⟨rfl, rfl⟩⟩
  cases w with
  | assets | clean => exact hw.elim
  | style sheet => exact hentry (.style sheet) h
  | page p => exact hentry (.page p) h
  | sitemap o filenames =>
    have hmakes := making_makeSitemap hparts o filenames s hcwd
    simp only [work, writeSitemap] at h
    rw [bind_apply_ok (Action.attempt_apply _ s)] at h
    rcases hmake : b.makeSitemap o filenames s with ⟨fault | output?, s₁⟩ <;> rw [hmake] at h hmakes
    · cases h
      exact ⟨[], (List.append_nil _).symm, hmakes.same ⟨rfl, rfl⟩⟩
    · cases output? with
      | none =>
        cases h
        exact ⟨[], (List.append_nil _).symm, hmakes⟩
      | some output =>
        cases h
        exact ⟨[output], rfl, hmakes⟩

/-- A run over pieces of work that make files reports these. -/
theorem run_makes (hparts : b.parts.LeavesTree) {works : List Work}
    (hworks : ∀ w ∈ works, w.IsProduct) (hcwd : s.place.cwd.isAbsolute = true)
    (h : b.run works r s = (.ok r', s')) :
    ∃ made : List Path, r'.written = r.written ++ made.map Path.toString ∧ s.Makes made s' := by
  induction works generalizing r s with
  | nil =>
    cases h
    exact ⟨[], (List.append_nil _).symm, (refl_of Session.SameFiles s').makes⟩
  | cons w works ih =>
    rw [run_cons] at h
    obtain ⟨r₁, s₁, hwork, hrun⟩ := bind_apply_eq_ok.1 h
    obtain ⟨hw, hworks⟩ := List.forall_mem_cons.1 hworks
    obtain ⟨made, hwritten, hmakes⟩ := work_makes hparts hw hcwd hwork
    obtain ⟨made', hwritten', hmakes'⟩ := ih hworks (by rw [hmakes.keeps.place]; exact hcwd) hrun
    refine ⟨made ++ made', ?_, hmakes.trans hmakes'⟩
    rw [hwritten', hwritten, List.append_assoc, List.map_append]

/-! ## Assets -/

/-- Copying an asset directory reports files that are there. -/
theorem copyAssets_gains (hstore : b.parts.store = .onTree) {a : AssetDirectory}
    (hcwd : s.place.cwd.isAbsolute = true) (hnamed : s.tree.IsNamed)
    (h : b.copyAssets r a s = (.ok r', s')) :
    ∃ copied : List Path, r'.written = r.written ++ copied.map Path.toString ∧ s.Gains copied s' ∧
      s'.tree.IsNamed := by
  obtain ⟨hgains, hnamed'⟩ :=
    Assets.copying_copy b.settings.output b.settings.isOptimized a hcwd hnamed
  unfold copyAssets at h
  rw [bind_apply_ok (Action.attempt_apply _ s), hstore] at h
  rcases hcopy : Assets.copy .onTree b.settings.output b.settings.isOptimized
    a s with ⟨fault | copied, s₁⟩ <;>
    rw [hcopy] at h hgains hnamed' <;> cases h
  · have hkeeps := hgains.keeps
    exact ⟨[], (List.append_nil _).symm,
      Session.KeepsFiles.gains ⟨hkeeps.place, hkeeps.tree⟩, hnamed'⟩
  · exact ⟨copied.written, rfl, hgains, hnamed'⟩

/-- A run that copies assets reports files that are there. -/
theorem run_assets_gains (hstore : b.parts.store = .onTree) {directories : List AssetDirectory}
    (hcwd : s.place.cwd.isAbsolute = true) (hnamed : s.tree.IsNamed)
    (h : b.run (directories.map .assets) r s = (.ok r', s')) :
    ∃ copied : List Path, r'.written = r.written ++ copied.map Path.toString ∧
      s.Gains copied s' := by
  induction directories generalizing r s with
  | nil =>
    cases h
    exact ⟨[], (List.append_nil _).symm, (refl_of Session.KeepsFiles s').gains⟩
  | cons a directories ih =>
    rw [List.map_cons, run_cons] at h
    obtain ⟨r₁, s₁, hwork, hrun⟩ := bind_apply_eq_ok.1 h
    obtain ⟨copied, hwritten, hgains, hnamed₁⟩ := copyAssets_gains hstore hcwd hnamed hwork
    obtain ⟨copied', hwritten', hgains'⟩ := ih (by rw [hgains.keeps.place]; exact hcwd) hnamed₁ hrun
    refine ⟨copied ++ copied', ?_, hgains.trans hgains'⟩
    rw [hwritten', hwritten, List.append_assoc, List.map_append]

/-! ## Cleaning -/

/-- The site is cleaned of a path: it lies in the directory of the first stylesheet. -/
def Cleans (b : Builder σ) (place : Place) (p : Path) : Prop :=
  b.settings.clean = true ∧ ∃ first, b.styles.head? = some first ∧
    (Output.path place b.settings.output first.filename).parent.names <+: p.names ∧
    p.names ≠ (Output.path place b.settings.output first.filename).parent.names

/-- A site is cleaned of the directory of the first stylesheet, if it is. -/
theorem cleaning_eq (b : Builder σ) :
    (∃ first, b.settings.clean = true ∧ b.styles.head? = some first ∧ b.cleaning = [.clean first]) ∨
      b.cleaning = [] ∧ ∀ place p, ¬b.Cleans place p := by
  unfold cleaning Cleans
  cases b.styles with
  | nil =>
    refine .inr ⟨rfl, ?_⟩
    rintro place p ⟨-, first, hfirst, -⟩
    cases hfirst
  | cons first rest =>
    cases b.settings.clean with
    | false =>
      refine .inr ⟨rfl, ?_⟩
      rintro place p ⟨hclean, -⟩
      cases hclean
    | true => exact .inl ⟨first, rfl, rfl, rfl⟩

/-- Cleaning a site takes the files away of which it is cleaned, and no others. -/
theorem run_cleaning_leaves (hstore : b.parts.store = .onTree) (r : Report)
    (hcwd : s.place.cwd.isAbsolute = true) :
    ∃ s', b.run b.cleaning r s = (.ok r, s') ∧ s'.place = s.place ∧
      ∀ p, p.IsGrounded → s.isFile p = .ok true →
        (s'.tree.HasFile p.names ↔ ¬b.Cleans s.place p) ∧
          (s'.tree.HasFile p.names → s'.isFile p = .ok true) := by
  rcases b.cleaning_eq with ⟨first, hclean, hfirst, hcleaning⟩ | ⟨hcleaning, hnone⟩ <;>
    rw [hcleaning]
  · generalize htarget : (Output.path s.place b.settings.output first.filename).parent = target
    have hgrounded : target.IsGrounded :=
      htarget ▸ (Path.isGrounded_output hcwd _ first.filename).parent
    obtain ⟨t, log, happly, hfits, hnot⟩ :=
      clean_removes (congrArg FileStore.removeDirectory hstore) b.settings.output first hcwd htarget
    refine ⟨{ s with tree := t, log }, run_clean_apply happly r, rfl, fun p hp hfile => ?_⟩
    obtain ⟨hpath, hleads, hbefore⟩ := (Session.isFile_iff_of_isGrounded hp).1 hfile
    have hcleans : b.Cleans s.place p ↔ target.names <+: p.names ∧ p.names ≠ target.names := by
      unfold Cleans
      simp only [hclean, hfirst, true_and, Option.some.injEq, exists_eq_left', htarget]
    rw [hcleans]
    -- The directory of the first stylesheet is removed if the system takes its path.
    by_cases htakes : target.Fits
    · have hremoved := hfits htakes
      have hleft : t.HasFile p.names ↔ ¬(target.names <+: p.names ∧ p.names ≠ target.names) := by
        rw [hremoved.hasFile_iff fun _ => hleads]
        exact and_iff_right hbefore
      refine ⟨hleft, fun hafter => (Session.isFile_iff_of_isGrounded hp).2 ⟨hpath, ?_, hafter⟩⟩
      obtain ⟨bytes, stamp, hentry⟩ := hafter
      exact hremoved.leads hentry hleads
    · -- The system takes no path in a directory whose path it does not take.
      have hout : ¬(target.names <+: p.names ∧ p.names ≠ target.names) :=
        fun ⟨hpre, hne⟩ => htakes (hpath.of_isPrefix hp hgrounded hpre hne)
      rw [hnot htakes]
      exact ⟨⟨fun _ => hout, fun _ => hbefore⟩, fun _ => hfile⟩
  · refine ⟨s, rfl, rfl,
      fun p hp hfile => ⟨⟨fun _ => hnone s.place p, fun _ => ?_⟩, fun _ => hfile⟩⟩
    exact ((Session.isFile_iff_of_isGrounded hp).1 hfile).2.2

/-! ## Full passes -/

/-- A full pass reports the copies of assets and then the other files that it makes. Each of the
others is there at its end. A copy of an asset, which is there once the assets are copied, is there
at the end if and only if the site is not cleaned of it or the pass makes the file again. -/
theorem written_of_buildAll (hparts : b.parts.LeavesTree) (hidle : s.phase = .idle)
    (hcwd : s.place.cwd.isAbsolute = true) (hnamed : s.tree.IsNamed) :
    ∃ r s' r₁ s₁, ∃ copied made : List Path,
      b.buildAll.perform s = (.ok r, s') ∧ r.written = (copied ++ made).map Path.toString ∧
      (b.run (b.settings.assetDirectories.map .assets) (.start "full" b.settings.mode none)).perform
        { s with phase := .building } = (.ok r₁, s₁) ∧
      r₁.written = copied.map Path.toString ∧ (∀ p ∈ copied, s₁.isFile p = .ok true) ∧
      (∀ p ∈ made, s'.isFile p = .ok true) ∧
      ∀ p ∈ copied, s'.isFile p = .ok true ↔
          ¬b.Cleans s.place p ∨ ∃ q ∈ made, q.names = p.names := by
  obtain ⟨filenames, r, s₃, log, hrun, hpass⟩ := buildAll_spec hparts.toIsFiling hidle
  -- The parts of the run: the assets, the cleaning, and what makes files.
  obtain ⟨r₁, s₁, hassets, -⟩ :=
    run_keeps hparts.toIsFiling (b.settings.assetDirectories.map .assets)
      (.start "full" b.settings.mode none) { s with phase := .building }
  obtain ⟨copied, hcopied, hgains⟩ :=
    run_assets_gains hparts.onTree (s := { s with phase := .building }) hcwd hnamed hassets
  have hplace : s₁.place = s.place := hgains.keeps.place
  obtain ⟨s₂, hcleaning, hplace₂, hleft⟩ :=
    run_cleaning_leaves hparts.onTree r₁ (by rw [hplace]; exact hcwd)
  unfold everything at hrun
  rw [run_append_apply hassets, run_append_apply hcleaning] at hrun
  obtain ⟨made, hmade, hmakes⟩ := run_makes hparts (fun w hw => isProduct_of_mem hw)
    (by rw [hplace₂, hplace]; exact hcwd) hrun
  have hwritten : r₁.written = copied.map Path.toString := by
    rw [hcopied]
    exact List.nil_append _
  refine ⟨r, { s₃ with phase := .idle, log }, r₁, s₁, copied, made, hpass, ?_, hassets, hwritten,
    fun p hp => (hgains.files p hp).2, fun p hp => (hmakes.files p hp).2, fun p hp => ?_⟩
  · rw [hmade, hwritten, List.map_append]
  · obtain ⟨hgrounded, hfile⟩ := hgains.files p hp
    obtain ⟨hiff, hstays⟩ := hleft p hgrounded hfile
    rw [hplace] at hiff
    constructor
    · intro hend
      obtain ⟨-, -, hstands⟩ := (Session.isFile_iff_of_isGrounded hgrounded).1 hend
      rcases hmakes.only p.names hstands with hbefore | hagain
      · exact .inl (hiff.1 hbefore)
      · exact .inr hagain
    · rintro (hclean | ⟨q, hq, hnames⟩)
      · exact hmakes.keeps.isFile (hstays (hiff.2 hclean))
      · -- The path of a file that was made again leads to it, since it led to one before.
        obtain ⟨hq, hmadeAgain⟩ := hmakes.files q hq
        obtain ⟨-, hleads, hstands⟩ := (Session.isFile_iff_of_isGrounded hq).1 hmadeAgain
        obtain ⟨hfits, -, -⟩ := (Session.isFile_iff_of_isGrounded hgrounded).1 hfile
        rw [hnames] at hleads hstands
        exact (Session.isFile_iff_of_isGrounded hgrounded).2 ⟨hfits, hleads, hstands⟩

end

end Builder

/-! ## A sample -/

/-- The names in a directory, sorted in a way that can be evaluated. -/
def Tree.sortedNames (t : Tree) (l : Location) : List String :=
  (t.entries.filterMap fun e =>
    match e.1.getLast? with
    | some name => if e.1.dropLast = l then some name else none
    | none => none).insertionSort (· ≤ ·)

/-- The names in a directory are those that sorting by evaluation gives. -/
theorem Tree.names_eq_sortedNames (t : Tree) (l : Location) : t.names l = t.sortedNames l := by
  have hle : (fun a b : String => !decide (b < a)) = fun a b => decide (a ≤ b) := by
    funext a b
    simp only [← not_lt, decide_not]
  unfold names
  rw [hle, List.mergeSort_eq_insertionSort]
  rfl

namespace Builder

namespace Sample

/-- A site whose only stylesheet goes where its sources are copied, and that is cleaned. -/
def purged : Builder Unit :=
  let b := site [.assets ⟨.text "b", ⟨.absolute, ["site", "src"]⟩, "css"⟩,
    .page (page "a" "p.html" "p.html" [⟨path "m.css", "css/m.css"⟩])]
  { b with settings := { b.settings with clean := true } }

/-- The site before anything is built. -/
def unpurged : Session Unit := session [("p.html", "<head></head>"), ("m.css", "a")]

/-- Files in the tree, with the names in a directory sorted so. -/
def sortedStore : FileStore Unit :=
  { FileStore.onTree with
    names := fun s p => do
      match ← s.inspect p with
      | (l, .directory) => .ok (s.tree.sortedNames l)
      | (_, .file _ _) => .error (.tree .notDirectory p) }

/-- The store with sorted names is the file tree. -/
theorem onTree_eq_sortedStore : .onTree = sortedStore := by
  unfold sortedStore
  simp only [← Tree.names_eq_sortedNames]
  rfl

end Sample

open Sample in
/-- The sample leaves what the theorem says of the files that it reports. -/
theorem written_of_buildAll_sample :
    (purged.parts.LeavesTree ∧ unpurged.phase = .idle ∧ unpurged.place.cwd.isAbsolute = true ∧
      unpurged.tree.IsNamed) ∧
    ∃ r s', ∃ copied made : List Path, purged.buildAll.perform unpurged = (.ok r, s') ∧
      r.written = (copied ++ made).map Path.toString ∧ (∀ p ∈ made, s'.isFile p = .ok true) ∧
      ∀ p ∈ copied,
        s'.isFile p = .ok true ↔ ¬purged.Cleans unpurged.place p ∨
          ∃ q ∈ made, q.names = p.names := by
  have hparts : purged.parts.LeavesTree := Collaborators.leavesTree_standard _
  have hnamed : unpurged.tree.IsNamed := Tree.isNamed_of_entries (by decide +kernel)
  obtain ⟨r, s', r₁, s₁, copied, made, hpass, hwritten, -, -, -, hmade, hcopied⟩ :=
    written_of_buildAll hparts rfl (s := unpurged) rfl hnamed
  exact ⟨⟨hparts, rfl, rfl, hnamed⟩, r, s', copied, made, hpass, hwritten, hmade, hcopied⟩

open Sample in
/-- Files that a full pass reports can be gone at its end. The sample copies its sources and then
removes the directory to which it copied them, so that of two copies only the one is there in whose
place the stylesheet is written. No error is told of. -/
theorem buildAll_loses_assets :
    (purged.buildAll.perform unpurged).1.toOption.map (fun r => (r.errors, r.written)) =
        some ([],
          ["/site/dist/css/m.css", "/site/dist/css/p.html", "/site/dist/css/m.css",
            "/site/dist/p.html"]) ∧
      ((built purged unpurged).isFile ⟨.absolute, ["site", "dist", "css", "m.css"]⟩).toOption =
        some true ∧
      ((built purged unpurged).isFile ⟨.absolute, ["site", "dist", "css", "p.html"]⟩).toOption =
        some false := by
  have hstore : purged = { purged with parts := { purged.parts with store := sortedStore } } := by
    rw [← onTree_eq_sortedStore]
    rfl
  rw [hstore]
  decide +kernel

end Builder

end StaticSite
