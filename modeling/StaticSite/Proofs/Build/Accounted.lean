import StaticSite.Proofs.Build.Inside
import StaticSite.Proofs.Build.Transfer
import StaticSite.Proofs.Build.Written

/-!
# What becomes of assets

A full pass accounts for each file of an asset directory that is copied to a place apart from it, if
the directory is there and copying gets past all in it (`assets_accounted`): the copy is reported
and holds what it should, or there is an error that begins with the key of the entry and the path of
the file. What is done later leaves the copy alone unless it may write there or remove it
(`run_assets_at_eq`, `run_at_eq`). If copying does not get past all, the entry ends at that with an
error of its own. Then files that were copied are not reported, and others are neither copied nor
reported (`assets_unaccounted`).
-/

namespace StaticSite

variable {σ : Type} {s s' : Session σ} {d : Location} {p target : Path}

/-! ## Copies stay in their directory -/

/-- A tree that grows above or at a location changes only within each directory above it. -/
theorem Tree.Grows.changedWithin {t t' : Tree} {l : Location} (h : Grows l t t') (hd : d <+: l) :
    ChangedWithin d t t' := by
  intro m hm
  refine (h m).imp_right fun ⟨hml, hnone, hmade⟩ => ⟨?_, hnone, hmade⟩
  exact (List.prefix_or_prefix_of_prefix hml hd).resolve_right hm

/-- The tree of a session changed in a directory alone, and is proper still, if it was. -/
def Session.Spreads (d : Location) (s s' : Session σ) : Prop :=
  s.tree.IsProper → s'.tree.IsProper ∧ s.tree.ChangedWithin d s'.tree

instance : Std.Refl (Session.Spreads d : Session σ → Session σ → Prop) where
  refl s hproper := ⟨hproper, .refl d s.tree⟩

instance : IsTrans (Session σ) (Session.Spreads d) where
  trans _ _ _ h h' hproper := by
    obtain ⟨hproper₁, hchanged⟩ := h hproper
    obtain ⟨hproper₂, hchanged'⟩ := h' hproper₁
    exact ⟨hproper₂, hchanged.trans hchanged'⟩

namespace Action

/-- The directories of a path are made within any directory that lies above them. -/
theorem spreads_makeDirectories (hp : p.IsGrounded) (hd : d <+: p.names) :
    (makeDirectories p : Action σ Unit).Within (Session.Spreads d) := by
  intro s hproper
  have hmade := isProper_makeDirectories hp hproper
  obtain ⟨r, t, hmake, hgrows, -⟩ := makeDirectories_spec hp s
  rw [hmake] at hmade ⊢
  exact ⟨hmade, hgrows.changedWithin hd⟩

/-- Making sure of a directory changes nothing outside a directory above it. -/
theorem spreads_ensureDirectory (hp : p.IsGrounded) (hd : d <+: p.names) :
    (ensureDirectory p true : Action σ Unit).Within (Session.Spreads d) := by
  intro s hproper
  have hmade := isProper_ensureDirectory hp hproper
  obtain ⟨r, t, hensure, hgrows, -⟩ := ensureDirectory_spec hp s
  rw [hensure] at hmade ⊢
  exact ⟨hmade, hgrows.changedWithin hd⟩

/-- Putting a file changes nothing outside a directory above it. -/
theorem spreads_putAt (hp : p.IsGrounded) (hd : d <+: p.names) (bytes : ByteArray) :
    (putAt p bytes : Action σ Unit).Within (Session.Spreads d) := by
  intro s hproper
  unfold putAt
  rw [bind_apply, observe_apply]
  cases hlocation : fileLocation s p with
  | error fault => exact ⟨hproper, .refl d s.tree⟩
  | ok l =>
    obtain ⟨-, rfl, hleads, hfree⟩ := (fileLocation_eq_ok_iff hp).1 hlocation
    have hroot : p.names ≠ [] := fun hroot => hfree (by rw [hroot, Tree.at_root])
    refine ⟨hproper.put hroot hp.descends hleads hfree _,
      fun m hm => .inl (Tree.at_put_of_ne _ _ ?_)⟩
    rintro rfl
    exact hm hd

end Action

namespace Assets

/-- Trying to copy a file changes nothing outside a directory that holds its copy. -/
theorem spreads_tryFile (optimized : Bool) (source : Path) (htarget : target.IsGrounded)
    (hd : d <+: target.parent.names) :
    (tryFile .onTree optimized source target : Action σ Copied).Within (Session.Spreads d) := by
  exact tryFile_within_of_copyFile (fun s log hproper => ⟨hproper, .refl d s.tree⟩)
    (copyFile_onTree_within (Action.spreads_makeDirectories htarget.parent hd)
      (Action.spreads_putAt htarget (hd.trans (List.dropLast_prefix _))))

/-- Copying a directory changes nothing but its copy. -/
theorem spreads_copyTree (optimized : Bool) (depth : Nat) (source : Path)
    (htarget : target.IsGrounded) (hd : d <+: target.names) :
    (copyTree .onTree optimized depth source target : Action σ Copied).Within
      (Session.Spreads d) := by
  induction depth generalizing source target with
  | zero => exact .throw _
  | succ depth ih =>
    intro s hproper
    have hensure := Action.spreads_ensureDirectory htarget hd s hproper
    rw [copyTree_succ_apply]
    rcases hensured : Action.ensureDirectory target true s with ⟨fault | u, s₁⟩ <;>
      rw [hensured] at hensure
    · exact hensure
    dsimp only
    cases hlisted : s₁.names? source with
    | error fault => exact hensure
    | ok names =>
      -- The names are those of a proper tree, so that none of them leads out.
      have hnames : ∀ name ∈ names, name ≠ ".." :=
        fun name hname => Session.ne_of_mem_names? hensure.1.named hlisted hname
      have hentries :
        (copyEntries .onTree optimized
          (fun name => copyTree .onTree optimized depth (source.child name)
          (target.child name)) source target names : Action σ Copied).Within (Session.Spreads d) :=
        copyEntries_within_of_mem
          (fun name hname => ih _ (htarget.child (hnames name hname))
            (hd.trans (List.prefix_append _ _)))
          (fun name hname => spreads_tryFile optimized _ (htarget.child (hnames name hname))
            (by rwa [Path.parent_child]))
      exact trans_of (Session.Spreads d) (fun _ => hensure) (hentries s₁) hproper

/-- Copying an asset directory changes nothing but its copy. -/
theorem spreads_copy (directory : Path) (optimized : Bool) (a : AssetDirectory)
    (hcwd : s.place.cwd.isAbsolute = true) :
    s.Spreads (Output.path s.place directory a.target).names
      (copy .onTree directory optimized a s).2 := by
  have hcopied :=
    spreads_copyTree optimized (pathLimit + 1) a.source
      (Path.isGrounded_output hcwd directory a.target)
      (List.prefix_refl _) s
  unfold copy
  rw [bind_apply, Action.observe_apply]
  cases hlocate : Output.locate s.place directory a.target with
  | error fault => exact refl_of (Session.Spreads _) s
  | ok target =>
  rw [Output.path_of_locate hlocate] at hcopied ⊢
  simp only
  rcases hresult : copyTree .onTree optimized (pathLimit + 1) a.source
    target s with ⟨fault | copied, s₁⟩ <;>
    rw [hresult] at hcopied
  · rw [bind_apply_error hresult]
    exact hcopied
  · rw [bind_apply_ok hresult, bind_apply_ok (Action.say_apply _ _ _ s₁)]
    exact hcopied

end Assets

namespace Builder

variable {b : Builder σ} {r r' : Report} {a : AssetDirectory} {l : Location}

/-- Copying an asset directory changes nothing outside its place in the output. -/
theorem copyAssets_spreads (hb : b.IsStandard) (hcwd : s.place.cwd.isAbsolute = true)
    (h : b.copyAssets r a s = (.ok r', s')) :
    s.Spreads (Output.path s.place b.settings.output a.target).names s' := by
  have hspreads := Assets.spreads_copy b.settings.output b.settings.isOptimized a hcwd
  unfold copyAssets at h
  rw [bind_apply_ok (Action.attempt_apply _ s), hb.store] at h
  rcases hcopy : Assets.copy .onTree b.settings.output b.settings.isOptimized
    a s with ⟨fault | copied, s₁⟩ <;>
    rw [hcopy] at h hspreads <;> cases h <;> exact hspreads

/-! ## Work that leaves a file alone -/

/-- A piece of work neither writes to a location nor removes it. -/
def Work.Avoids (b : Builder σ) (place : Place) (l : Location) : Work → Prop
  | .assets a => ¬(Output.path place b.settings.output a.target).names <+: l
  | .clean first => ¬(Output.path place b.settings.output first.filename).parent.names <+: l
  | .style sheet => l ∉ (Work.style sheet).candidates b.settings place
  | .page p => l ∉ (Work.page p).candidates b.settings place
  | .sitemap o filenames => l ∉ (Work.sitemap o filenames).candidates b.settings place

/-- No piece of a full pass that comes after some asset directory does, if others are left. -/
def Avoids (b : Builder σ) (place : Place) (left : List AssetDirectory) (l : Location) : Prop :=
  ∀ w ∈ left.map .assets ++ (b.cleaning ++ (b.entries ++ b.mapping [])), w.Avoids b place l

/-- A piece of work that makes one file avoids all but the files that it may make. -/
theorem Work.avoids_iff_of_isProduct {w : Work} (hw : w.IsProduct) {place : Place} :
    w.Avoids b place l ↔ l ∉ w.candidates b.settings place := by
  cases w with
  | assets | clean => exact hw.elim
  | style | page | sitemap => exact Iff.rfl

/-- A file is left alone where asset directories are copied elsewhere. -/
theorem run_assets_at_eq (hb : b.IsStandard) {left : List AssetDirectory}
    (hcwd : s.place.cwd.isAbsolute = true) (hproper : s.tree.IsProper)
    (h : b.run (left.map .assets) r s = (.ok r', s')) :
    s'.tree.IsProper ∧ ∀ l, (∀ a ∈ left, (Work.assets a).Avoids b s.place l) → s.tree.HasFile l →
      s'.tree.at? l = s.tree.at? l := by
  induction left generalizing r s with
  | nil =>
    cases h
    exact ⟨hproper, fun _ _ _ => rfl⟩
  | cons a left ih =>
    rw [List.map_cons, run_cons] at h
    obtain ⟨r₁, s₁, hwork, hrun⟩ := bind_apply_eq_ok.1 h
    obtain ⟨hproper₁, hchanged⟩ := copyAssets_spreads hb hcwd hwork hproper
    obtain ⟨r₁', s₁', hwork', hfollows⟩ := work_follows hb.isFiling (.assets a) r s
    cases hwork.symm.trans hwork'
    have hplace : s₁.place = s.place := hfollows.place
    obtain ⟨hproper', hsame⟩ := ih (by rwa [hplace]) hproper₁ hrun
    refine ⟨hproper', fun l havoids hfile => ?_⟩
    obtain ⟨hfirst, hrest⟩ := List.forall_mem_cons.1 havoids
    have hat : s₁.tree.at? l = s.tree.at? l := by
      obtain ⟨bytes, stamp, hentry⟩ := hfile
      refine (hchanged l hfirst).resolve_right fun ⟨_, hnone, _⟩ => ?_
      rw [hnone] at hentry
      cases hentry
    rw [hsame l (by rwa [hplace]) (by rwa [Tree.HasFile, hat]), hat]

/-- A file is left alone where a site is cleaned elsewhere and other files are made. -/
theorem run_at_eq (hb : b.IsStandard) {works : List Work} (hworks : ∀ w ∈ works, w.IsProduct)
    (hcwd : s.place.cwd.isAbsolute = true) (h : b.run (b.cleaning ++ works) r s = (.ok r', s'))
    (havoids : ∀ w ∈ b.cleaning ++ works, w.Avoids b s.place l) (hfile : s.tree.HasFile l) :
    s'.tree.at? l = s.tree.at? l := by
  -- Nothing is taken away but what lies in the directory that is removed.
  obtain ⟨s₁, hcleaning, hplace, hat⟩ : ∃ s₁, b.run b.cleaning r s = (.ok r, s₁) ∧
    s₁.place = s.place ∧
      s₁.tree.at? l = s.tree.at? l := by
    rcases b.cleaning_cases with hcleaning | ⟨first, hcleaning⟩ <;> rw [hcleaning] at havoids ⊢
    · exact ⟨s, rfl, rfl, rfl⟩
    · obtain ⟨t, log, happly, hfits, hnot⟩ :=
        clean_removes (congrArg FileStore.removeDirectory hb.store) b.settings.output first hcwd rfl
      refine ⟨{ s with tree := t, log }, run_clean_apply happly r, rfl, ?_⟩
      by_cases htakes : (Output.path s.place b.settings.output first.filename).parent.Fits
      · cases hfits htakes with
        | kept => rfl
        | gone _ others _ _ => exact others l (havoids _ (List.mem_cons_self ..))
      · exact congrArg (Tree.at? · l) (hnot htakes)
  rw [run_append_apply hcleaning] at h
  obtain ⟨r'', s'', hrun, hchanged⟩ :=
    run_changedOnly_candidates hb hworks r (s := s₁) (by rwa [hplace])
  cases h.symm.trans hrun
  rw [hplace] at hchanged
  obtain ⟨bytes, stamp, hentry⟩ := hfile
  rw [hentry]
  refine hchanged.tree.at_eq_of_some ?_ (hat.trans hentry)
  rintro ⟨w, hw, hl⟩
  exact (Work.avoids_iff_of_isProduct (hworks w hw)).1 (havoids w (List.mem_append_right _ hw)) hl

/-! ## Accounts -/

/-- How the copying of an asset directory begins in a session. -/
def transfer (b : Builder σ) (a : AssetDirectory) (s : Session σ) : Assets.Transfer where
  optimized := b.settings.isOptimized
  brackets := s.place.room.brackets
  source := a.source
  target := Output.path s.place b.settings.output a.target
  start := s.tree

/-- The report of an asset directory tells what copying it came to, or that it failed. -/
theorem copyAssets_accounts (hb : b.IsStandard) (hc : (b.transfer a s).IsProper) (r : Report) :
    ∃ r' s', b.copyAssets r a s = (.ok r', s') ∧
      ((b.transfer a s).IsPassable → ∃ x, (b.transfer a s).Accounts Set.univ x s'.tree ∧
        r'.written = r.written ++ x.written.map Path.toString ∧ r'.assets = r.assets ++ [a.key] ∧
        r'.errors = r.errors ++ x.errors.map fun e => a.key.display ++ ": " ++ e) ∧
      (¬(b.transfer a s).IsPassable → (b.transfer a s).IsWhole →
        ∃ fault : Fault, r' = r.addError (a.key.display ++ ": " ++ fault.message)) := by
  obtain ⟨hpassable, hnot⟩ :=
    Assets.copy_accounts b.settings.output (s := s) (a := a) hc rfl rfl rfl rfl
  rw [show (b.transfer a s).optimized = b.settings.isOptimized from rfl] at hpassable hnot
  unfold copyAssets
  rw [bind_apply_ok (Action.attempt_apply _ s), hb.store]
  rcases hcopy : Assets.copy .onTree b.settings.output b.settings.isOptimized
    a s with ⟨fault | x, s₁⟩ <;>
    rw [hcopy] at hpassable hnot
  · refine ⟨_, _, rfl, fun h => ?_, fun _ _ => ⟨fault, rfl⟩⟩
    obtain ⟨x, s', hx, -⟩ := hpassable h
    cases hx
  · refine ⟨_, _, rfl, fun h => ?_, fun h hwhole => ?_⟩
    · obtain ⟨x', s', hx, haccounts⟩ := hpassable h
      cases hx
      exact ⟨x, haccounts, rfl, rfl, rfl⟩
    · obtain ⟨fault, s', hx⟩ := hnot h hwhole
      cases hx

/-- A file of an asset directory is accounted for by a full pass that goes on from `s₁` once the
directory is copied, with others left, and ends in `s'` with the report `r`. -/
inductive Accounted (b : Builder σ) (a : AssetDirectory) (left : List AssetDirectory)
    (s₀ s₁ s' : Session σ) (r : Report) (rel : List String) : Prop where
  /-- It is copied. The copy is told to be written and holds what it should, and does so at the end
  if no later piece of work touches its location. -/
  | copied {bytes : ByteArray} (copies : (b.transfer a s₀).Copies rel bytes)
      (written : ((b.transfer a s₀).target.descend rel).toString ∈ r.written)
      (stands : ∃ stamp, s₁.tree.at? ((b.transfer a s₀).target.names ++ rel) =
        some (.file bytes stamp))
      (stays : b.Avoids s₀.place left ((b.transfer a s₀).target.names ++ rel) →
        ∃ stamp, s'.tree.at? ((b.transfer a s₀).target.names ++ rel) = some (.file bytes stamp))
  /-- It cannot be copied, and an error names it. -/
  | reported (fails : (b.transfer a s₀).Fails rel) (message : String)
      (told : a.key.display ++ ": " ++
        ((a.source.descend rel).toString ++ ": " ++ message) ∈ r.errors)

/-- What remains of a full pass once some asset directory is copied takes nothing out of the report,
and leaves files alone that none of its pieces touches. -/
theorem remaining_spec (hb : b.IsStandard) {left : List AssetDirectory} {filenames : List String}
    (hcwd : s.place.cwd.isAbsolute = true) (hproper : s.tree.IsProper)
    (h : b.run (left.map .assets ++ (b.cleaning ++ (b.entries ++ b.mapping filenames))) r s =
      (.ok r', s')) :
    r.written ⊆ r'.written ∧ r.errors ⊆ r'.errors ∧
      ∀ l, b.Avoids s.place left l → s.tree.HasFile l → s'.tree.at? l = s.tree.at? l := by
  have hparts : b.parts.LeavesTree := by
    rw [show b.parts = .standard b.settings from hb]
    exact Collaborators.leavesTree_standard _
  have herrors := (run_extends h).errors
  obtain ⟨r₁, s₁, hassets, hkeeps⟩ := run_keeps hb.isFiling (left.map .assets) r s
  rw [run_append_apply hassets] at h
  refine ⟨?_, herrors, fun l havoids hfile => ?_⟩
  · -- Every part of the pass puts its files behind those that were told before.
    obtain ⟨copied, hcopied, -⟩ := run_assets_gains hb.store hcwd hproper.named hassets
    obtain ⟨s₂, hcleaning, hplace, -⟩ :=
      run_cleaning_leaves hb.store r₁ (s := s₁) (by rwa [hkeeps.place])
    rw [run_append_apply hcleaning] at h
    obtain ⟨made, hmade, -⟩ :=
      run_makes hparts (fun w hw => isProduct_of_mem hw) (by rwa [hplace, hkeeps.place]) h
    rw [hmade, hcopied, List.append_assoc]
    exact List.subset_append_left _ _
  · obtain ⟨-, hsame⟩ := run_assets_at_eq hb hcwd hproper hassets
    have hat :=
      hsame l (fun a ha => havoids _ (List.mem_append_left _ (List.mem_map_of_mem ha))) hfile
    rw [← hat]
    refine run_at_eq hb (fun w hw => isProduct_of_mem hw) (by rwa [hkeeps.place]) h (fun w hw => ?_)
      (by rwa [Tree.HasFile, hat])
    rw [hkeeps.place]
    have hothers : ∀ w ∈ b.cleaning ++ (b.entries ++ b.mapping []), w.Avoids b s.place l :=
      fun w hw => havoids w (List.mem_append_right _ hw)
    rcases List.mem_append.1 hw with hw | hw
    · exact hothers w (List.mem_append_left _ hw)
    · rcases List.mem_append.1 hw with hw | hw
      · exact hothers w (List.mem_append_right _ (List.mem_append_left _ hw))
      · -- The sitemap goes to one place whatever it lists.
        obtain ⟨o, rfl, hsitemap⟩ := mem_mapping hw
        have havoids :=
          hothers (.sitemap o []) (List.mem_append_right _ (List.mem_append_right _ hsitemap))
        exact havoids

/-- When the turn of an asset directory comes in a full pass that nothing ends early, in `s₀`, all
files are there that were at the start. If the directory lies apart from the place of its copy, is
there and lets copying get past all in it, then each file in it is accounted for, be the others
copied or not. Otherwise the entry fails as a whole, with one error. -/
theorem assets_accounted (hb : b.IsStandard) (hidle : s.phase = .idle)
    (hcwd : s.place.cwd.isAbsolute = true) (hproper : s.tree.IsProper)
    {before left : List AssetDirectory} (hentry : b.settings.assetDirectories = before ++ a :: left)
    (hsource : a.source.IsGrounded)
    (houtside : ¬a.source.names <+: (Output.path s.place b.settings.output a.target).names)
    (hapart : ¬(Output.path s.place b.settings.output a.target).names <+: a.source.names)
    (_ : b.CanFinish s.place) :
    ∃ r₀ s₀ r₁ s₁ r s',
      b.run (before.map .assets) (.start "full" b.settings.mode none)
        { s with phase := .building } = (.ok r₀, s₀) ∧
      b.copyAssets r₀ a s₀ = (.ok r₁, s₁) ∧ b.buildAll s = (.ok r, s') ∧ r₁.errors ⊆ r.errors ∧
      (∀ l, s.tree.HasFile l → s₀.tree.HasFile l) ∧
      ((b.transfer a s₀).IsPassable → r₁.assets = r₀.assets ++ [a.key] ∧
        ∀ rel, (b.transfer a s₀).HasFile rel → b.Accounted a left s₀ s₁ s' r rel) ∧
      (¬(b.transfer a s₀).IsPassable → (b.transfer a s₀).IsWhole →
        ∃ fault : Fault, r₁ = r₀.addError (a.key.display ++ ": " ++ fault.message)) := by
  obtain ⟨filenames, r, s₂, log, hrun, hpass⟩ := buildAll_spec hb.isFiling hidle
  obtain ⟨r₀, s₀, hbefore, hkeeps⟩ :=
    run_keeps hb.isFiling (before.map .assets) (.start "full" b.settings.mode none)
      { s with phase := .building }
  have hplace : s₀.place = s.place := hkeeps.place
  obtain ⟨hproper₀, -⟩ :=
    run_assets_at_eq hb (s := { s with phase := .building }) hcwd hproper hbefore
  obtain ⟨copied, -, hgains⟩ :=
    run_assets_gains hb.store (s := { s with phase := .building }) hcwd hproper.named hbefore
  have htarget : (b.transfer a s₀).target = Output.path s.place b.settings.output a.target := by
    rw [← hplace]; rfl
  have hc : (b.transfer a s₀).IsProper := by
    refine ⟨hsource, ?_, ?_, ?_, hproper₀⟩ <;> rw [htarget]
    · exact Path.isGrounded_output hcwd _ _
    · exact houtside
    · exact hapart
  obtain ⟨r₁, s₁, hcopy, hpassable, hnot⟩ := copyAssets_accounts hb hc r₀
  -- The run goes on after the directory.
  have hassets : b.run ((before ++ [a]).map .assets) (.start "full" b.settings.mode none)
    { s with phase := .building } =
      (.ok r₁, s₁) := by
    rw [List.map_append, run_append_apply hbefore]
    exact bind_apply_ok hcopy
  have hplace₁ : s₁.place = s.place := (keeps_of_run hb.isFiling hassets).place
  obtain ⟨hproper₁, -⟩ :=
    run_assets_at_eq hb (s := { s with phase := .building }) hcwd hproper hassets
  rw [everything, hentry, show before ++ a :: left = before ++ [a] ++ left by simp, List.map_append,
    List.append_assoc, run_append_apply hassets] at hrun
  obtain ⟨hwritten, herrors, hstays⟩ := remaining_spec hb (by rwa [hplace₁]) hproper₁ hrun
  refine ⟨r₀, s₀, r₁, s₁, r, _, hbefore, hcopy, hpass, herrors,
    fun l hl => hgains.keeps.tree.file l hl, fun h => ?_, hnot⟩
  obtain ⟨x, haccounts, hlisted, hkey, htold⟩ := hpassable h
  refine ⟨hkey, fun rel hfile => ?_⟩
  by_cases hfails : ∀ bytes, ¬(b.transfer a s₀).Copies rel bytes
  · obtain ⟨message, hmem⟩ := haccounts.reported rel trivial ⟨hfile, hfails⟩
    refine .reported ⟨hfile, hfails⟩ message (herrors ?_)
    rw [htold]
    exact List.mem_append_right _ (List.mem_map_of_mem hmem)
  · obtain ⟨bytes, hcopies⟩ := not_forall_not.1 hfails
    obtain ⟨hmem, stamp, hstands⟩ := haccounts.copied rel trivial bytes hcopies
    refine .copied hcopies (hwritten ?_) ⟨stamp, hstands⟩ fun havoids => ⟨stamp, ?_⟩
    · rw [hlisted]
      exact List.mem_append_right _ (List.mem_map_of_mem hmem)
    · rw [hplace, ← hplace₁] at havoids
      exact (hstays _ havoids ⟨bytes, stamp, hstands⟩).trans hstands

namespace Sample

/-- An asset directory. -/
def pictures : AssetDirectory := ⟨.text "i", ⟨.absolute, ["site", "assets"]⟩, "img"⟩

/-- A site of the asset directory. -/
def gallery : Builder Unit := site [.assets pictures]

/-- The sample with files in the asset directory, and a directory in the place of the copy of one of
them. -/
def crowded : Session Unit :=
  let s := session []
  let text (t : String) : Tree.Entry := .file (Text.encode t) (.given 1000)
  { s with tree := ⟨s.tree.entries ++
    [(["site", "assets"], .directory), (["site", "assets", "a.txt"], text "a"),
      (["site", "assets", "b.txt"], text "b"), (["site", "assets", "c"], .directory),
      (["site", "assets", "c", "x.txt"], text "x"), (["site", "assets", "d.txt"], text "d"),
        (["site", "dist"], .directory), (["site", "dist", "img"], .directory),
      (["site", "dist", "img", "b.txt"], .directory)]⟩ }

/-- Besides, a file stands in the place of the copy of a directory. -/
def barred : Session Unit :=
  { crowded with tree :=
    crowded.tree.put ["site", "dist", "img", "c"] (.file (Text.encode "f") (.given 1000)) }

/-- The tree of the sample is one as a build keeps it. -/
theorem isProper_crowded : crowded.tree.IsProper where
  sound := Tree.isSound_of_entries (by decide +kernel)
  once := by decide +kernel
  named := Tree.isNamed_of_entries (by decide +kernel)

end Sample

open Sample in
/-- In the sample in which one file cannot be copied each file of the asset directory is accounted
for. -/
theorem assets_accounted_sample : ∃ s₁ r s', gallery.buildAll crowded = (.ok r, s') ∧
    ∀ rel ∈ [["a.txt"], ["b.txt"], ["c", "x.txt"], ["d.txt"]],
      gallery.Accounted pictures [] { crowded with phase := .building } s₁ s' r rel := by
  obtain ⟨r₀, s₀, r₁, s₁, r, s', hbefore, -, hpass, -, -, hpassable, -⟩ :=
    assets_accounted (b := gallery) (s := crowded) rfl rfl rfl isProper_crowded
      (show gallery.settings.assetDirectories = [] ++ pictures :: [] from rfl) (by decide)
        (by decide +kernel) (by decide +kernel)
      (by decide +kernel)
  -- The directory is the first, so that its turn comes at once.
  obtain ⟨-, rfl⟩ := Prod.mk.inj hbefore
  obtain ⟨-, haccounted⟩ := hpassable (by decide +kernel)
  refine ⟨s₁, r, s', hpass, fun rel hrel => haccounted rel ?_⟩
  simp only [List.mem_cons, List.not_mem_nil, or_false] at hrel
  rcases hrel with rfl | rfl | rfl | rfl <;> exact ⟨_, _, rfl⟩

open Sample in
/-- Where the copy of a directory cannot be made, the files beside the directory are not accounted
for. In the sample the first is copied and not told to be written, the second cannot be copied and
is not reported, and the last is not copied. -/
theorem assets_unaccounted :
    ¬(gallery.transfer pictures barred).IsPassable ∧
      (gallery.buildAll.perform barred).1.toOption.map (fun r => (r.written, r.errors)) =
        some ([], ["i: Path exists but is not a directory: /site/dist/img/c"]) ∧
      ((built gallery barred).isFile ⟨.absolute, ["site", "dist", "img", "a.txt"]⟩).toOption =
        some true ∧
      ((built gallery barred).isFile ⟨.absolute, ["site", "dist", "img", "d.txt"]⟩).toOption =
        some false := by
  have hstore : gallery =
      { gallery with parts := { gallery.parts with store := sortedStore } } := by
    rw [← onTree_eq_sortedStore]
    rfl
  refine ⟨by decide +kernel, ?_⟩
  rw [hstore]
  decide +kernel

end Builder

end StaticSite
