import StaticSite.Proofs.Build.Isolation
import StaticSite.Proofs.Build.Watch
import StaticSite.Proofs.Path.Inside

/-!
# Staying in the output directory

Where the filenames of a site stay in its output directory, passes write stylesheets, pages and the
sitemap nowhere else, and clean nothing else (`outputs_stay_inside`): outside that directory nothing
changes, but that directories above it are made. A piece of work stays there (`work_changedWithin`),
and so does a run. Under a filename whose home directory cannot be looked up nothing is written.
-/

namespace StaticSite

namespace Tree

variable {t t' t'' : Tree} {d l : Location} {ls : Set Location}

/-- Outside a directory nothing changed, but that directories above it were made. -/
def ChangedWithin (d : Location) (t t' : Tree) : Prop :=
  ∀ l, ¬d <+: l → t'.at? l = t.at? l ∨ l <+: d ∧ t.at? l = none ∧ t'.at? l = some .directory

/-- A tree did not change outside any directory if it did not change. -/
theorem ChangedWithin.refl (d : Location) (t : Tree) : ChangedWithin d t t := fun _ _ => .inl rfl

/-- Two changes within a directory are one. -/
theorem ChangedWithin.trans (h : ChangedWithin d t t') (h' : ChangedWithin d t' t'') :
    ChangedWithin d t t'' := by
  intro l hl
  rcases h l hl with heq | ⟨hle, hnone, hmade⟩
  · rw [← heq]
    exact h' l hl
  · rcases h' l hl with heq' | ⟨-, hnone', -⟩
    · exact .inr ⟨hle, hnone, heq'.trans hmade⟩
    · rw [hmade] at hnone'
      cases hnone'

/-- Files that are written in a directory change nothing outside. -/
theorem ChangedOnly.changedWithin (h : ChangedOnly ls t t') (hls : ∀ l ∈ ls, d <+: l) :
    ChangedWithin d t t' := by
  intro m hm
  have hchange := h m
  generalize t.at? m = e, t'.at? m = e' at hchange
  cases hchange with
  | same => exact .inl rfl
  | file _ _ hmem _ => exact absurd (hls m hmem) hm
  | directory hl hml _ =>
    refine .inr ⟨?_, rfl, rfl⟩
    exact (List.prefix_or_prefix_of_prefix hml (hls _ hl)).resolve_right hm

/-- So does the removal of a directory in it. -/
theorem Removed.changedWithin {k : Location} (h : Removed k t t') (hk : d <+: k) :
    ChangedWithin d t t' := by
  cases h with
  | kept => exact .refl d t
  | gone _ others _ _ => exact fun l hl => .inl (others l fun hkl => hl (hk.trans hkl))

end Tree

namespace Builder

open StaticSite.Path (StaysIn)

variable {σ : Type} {b : Builder σ} {s s' : Session σ} {w : Work} {works : List Work}

/-- The filenames under which a piece of work writes, with stylesheets under the name of any text,
or under which a stylesheet is configured whose directory it removes. -/
def Work.filenames : Work → Set String
  | .style sheet => {f | ∃ text, f = Style.writtenName sheet text}
  | .clean sheet => {sheet.filename}
  | .page p => {Rendering.outputName p}
  | .sitemap _ _ => {Sitemap.filename}
  | .assets _ => ∅

/-- A piece of work copies no assets, and its filenames stay in the output directory. -/
structure Work.StaysInside (b : Builder σ) (place : Place) (w : Work) : Prop where
  /-- It copies no assets, which have destinations of their own. -/
  writes : ∀ a, w ≠ .assets a
  /-- Its filenames stay there, if they name something. -/
  filenames : ∀ f ∈ w.filenames, Path.hasHome (Output.nameOf f) = true →
    StaysIn place b.settings.output f

/-- Every file that a piece of work may make is that of a filename of its own. -/
theorem Work.exists_filename {settings : Settings} {place : Place} {l : Location}
    (h : l ∈ w.candidates settings place) :
    ∃ f ∈ w.filenames, l = (Output.path place settings.output f).names := by
  cases w with
  | style sheet =>
    obtain ⟨text, hl⟩ := h
    exact ⟨Style.writtenName sheet text, ⟨text, rfl⟩, hl⟩
  | page p => exact ⟨Rendering.outputName p, rfl, h⟩
  | sitemap => exact ⟨Sitemap.filename, rfl, h⟩
  | assets | clean => exact h.elim

/-- A piece of work whose filenames stay in the output directory changes nothing outside. -/
theorem work_changedWithin (hb : b.IsStandard) (houtput : b.settings.output.IsNormal)
    (hcwd : s.place.cwd.isAbsolute = true) (hw : w.StaysInside b s.place) (r : Report) :
    ∃ r' s', b.work r w s = (.ok r', s') ∧ s'.place = s.place ∧
      s.tree.ChangedWithin b.settings.output.names s'.tree := by
  have hinside : ∀ f ∈ w.filenames,
      b.settings.output.IsAbove (Output.path s.place b.settings.output f) := by
    intro f hf
    by_cases hhome : Path.hasHome (Output.nameOf f) = true
    · exact (Path.isAbove_output_iff houtput hhome).2 (hw.filenames f hf hhome)
    · exact Path.isAbove_output_of_homeless houtput hhome
  have hproduct : w.IsProduct → ∃ r' s', b.work r w s = (.ok r', s') ∧ s'.place = s.place ∧
      s.tree.ChangedWithin b.settings.output.names s'.tree := by
    intro hproduct
    obtain ⟨r', s', hwork, hchanged⟩ := work_changedOnly hb hproduct r hcwd
    refine ⟨r', s', hwork, hchanged.place, hchanged.tree.changedWithin fun l hl => ?_⟩
    obtain ⟨f, hf, heq⟩ := Work.exists_filename hl.2
    rw [heq]
    exact (hinside f hf).names
  cases w with
  | assets a => exact absurd rfl (hw.writes a)
  | style | page | sitemap => exact hproduct trivial
  | clean sheet =>
    have hremoves : b.parts.store.removeDirectory = FileStore.onTree.removeDirectory := by
      rw [hb.store]
    obtain ⟨t, log, hclean, hfits, hnot⟩ := clean_removes hremoves b.settings.output sheet hcwd rfl
    refine ⟨r, { s with tree := t, log }, ?_, rfl, ?_⟩
    · rw [work, bind_apply_ok hclean]
      rfl
    · by_cases hfit : (Output.path s.place b.settings.output sheet.filename).parent.Fits
      · exact (hfits hfit).changedWithin (hinside _ rfl).isPrefix_parent
      · rw [hnot hfit]
        exact .refl _ _

/-- A run of such pieces of work changes nothing outside. -/
theorem run_changedWithin (hb : b.IsStandard) (houtput : b.settings.output.IsNormal)
    (hcwd : s.place.cwd.isAbsolute = true) (hworks : ∀ w ∈ works, w.StaysInside b s.place)
    (r : Report) :
    ∃ r' s', b.run works r s = (.ok r', s') ∧
      s.tree.ChangedWithin b.settings.output.names s'.tree := by
  induction works generalizing r s with
  | nil => exact ⟨r, s, rfl, .refl _ _⟩
  | cons w works ih =>
    obtain ⟨hw, hrest⟩ := List.forall_mem_cons.1 hworks
    obtain ⟨r₁, s₁, hwork, hplace, hchanged⟩ := work_changedWithin hb houtput hcwd hw r
    obtain ⟨r', s', hrun, hchanged'⟩ := ih (s := s₁) (by rwa [hplace]) (by rwa [hplace]) r₁
    exact ⟨r', s', by rw [run_cons, bind_apply_ok hwork, hrun], hchanged.trans hchanged'⟩

/-- The sitemap stays in every output directory. -/
theorem staysIn_sitemap (place : Place) (d : Path) : StaysIn place d Sitemap.filename :=
  Path.staysIn_of_route (by decide) (by decide) (by decide) d

/-- There is an output file for every filename but one that begins with a home directory that cannot
be looked up, and it lies in the output directory if and only if its filename stays there. Where the
filenames of all stylesheets and pages do for which there is one, a full pass that nothing ends
early, once the assets are copied, and an incremental one change nothing outside. -/
theorem outputs_stay_inside (hb : b.IsStandard) (houtput : b.settings.output.IsNormal)
    (hcwd : s.place.cwd.isAbsolute = true) (hidle : s.phase = .idle) (hproper : s.records.IsProper)
    (_ : b.CanFinish s.place) :
    (∀ f, ((∃ p, Output.locate s.place b.settings.output f = .ok p) ↔
      Path.hasHome (Output.nameOf f) = true) ∧
      ∀ p, Output.locate s.place b.settings.output f = .ok p →
        (b.settings.output.IsAbove p ↔ StaysIn s.place b.settings.output f)) ∧
      ((∀ w ∈ b.cleaning ++ b.entries, ∀ f ∈ w.filenames, Path.hasHome (Output.nameOf f) = true →
          StaysIn s.place b.settings.output f) →
        (∃ r₁ s₁ r s', b.run (b.settings.assetDirectories.map .assets)
          (.start "full" b.settings.mode none)
            { s with phase := .building } = (.ok r₁, s₁) ∧ b.buildAll s = (.ok r, s') ∧
          s₁.tree.ChangedWithin b.settings.output.names s'.tree) ∧
        ∀ changed, ∃ r s', b.rebuild changed s = (.ok r, s') ∧
          s.tree.ChangedWithin b.settings.output.names s'.tree) := by
  refine ⟨fun f => ⟨Output.exists_locate_iff, fun p hp => ?_⟩, fun hstay => ?_⟩
  · rw [← Output.path_of_locate hp]
    exact Path.isAbove_output_iff houtput (Output.exists_locate_iff.1 ⟨p, hp⟩)
  have hentries : ∀ w ∈ b.entries, w.StaysInside b s.place := by
    intro w hw
    refine ⟨fun a ha => ?_, hstay w (List.mem_append_right _ hw)⟩
    rw [ha] at hw
    exact isEntry_of_mem hw
  -- Either pass is a run of pieces of work, each of which changes the tree inside only.
  constructor
  · obtain ⟨filenames, r, s', log, hrun, hpass⟩ := buildAll_spec hb.isFiling hidle
    obtain ⟨r₁, s₁, hassets, hkeeps⟩ :=
      run_keeps hb.isFiling (b.settings.assetDirectories.map .assets)
        (.start "full" b.settings.mode none) { s with phase := .building }
    have hplace : s₁.place = s.place := hkeeps.place
    rw [everything, run_append_apply hassets] at hrun
    have hworks : ∀ w ∈ b.cleaning ++ (b.entries ++ b.mapping filenames),
        w.StaysInside b s.place := by
      intro w hw
      rcases List.mem_append.1 hw with hclean | hw
      · refine ⟨fun a ha => ?_, hstay w (List.mem_append_left _ hclean)⟩
        obtain ⟨sheet, rfl⟩ := exists_of_mem_cleaning hclean
        cases ha
      · rcases List.mem_append.1 hw with hentry | hmapping
        · exact hentries w hentry
        · obtain ⟨o, rfl, -⟩ := mem_mapping hmapping
          refine ⟨fun _ ha => (by cases ha), fun f hf _ => ?_⟩
          rw [Set.mem_singleton_iff.1 hf]
          exact staysIn_sitemap s.place _
    rw [← hplace] at hworks hcwd
    obtain ⟨r'', s'', hrun', hchanged⟩ := run_changedWithin hb houtput hcwd hworks r₁
    cases hrun.symm.trans hrun'
    exact ⟨r₁, s₁, r, _, hassets, hpass, hchanged⟩
  · intro changed
    obtain ⟨r, s', log, hrun, hpass⟩ := rebuild_spec hb.isFiling hidle hproper.once changed
    obtain ⟨r'', s'', hrun', hchanged⟩ :=
      run_changedWithin (s := { s with phase := .building }) hb houtput hcwd
        (fun w hw => hentries w (mem_entries_of_mem_owed hw))
          (.start "incremental" b.settings.mode (some changed.toString))
    cases hrun.symm.trans hrun'
    exact ⟨r, _, hpass, hchanged⟩

namespace Sample

/-- A stylesheet and a page whose filenames lead up and down again. -/
def meandering : Builder Unit :=
  builder [page "a" "a.html" "/css/../a.html" [⟨path "m.css", "..\\dist/css/m.css"⟩]]

/-- The place that sessions of the sample are in. -/
def sitePlace : Place := (session []).place

/-- The filenames of the sample stay in its output directory. -/
theorem staysIn_meandering : ∀ w ∈ meandering.cleaning ++ meandering.entries, ∀ f ∈ w.filenames,
    Path.hasHome (Output.nameOf f) = true → StaysIn sitePlace meandering.settings.output f := by
  have hworks : meandering.cleaning ++ meandering.entries =
      [.style ⟨path "m.css", "..\\dist/css/m.css"⟩,
        .page (page "a" "a.html" "/css/../a.html" [⟨path "m.css", "..\\dist/css/m.css"⟩])] := rfl
  have hstay : StaysIn sitePlace meandering.settings.output "..\\dist/css/m.css" ∧
      StaysIn sitePlace meandering.settings.output "/css/../a.html" := by decide +kernel
  rw [hworks]
  intro w hw f hf _
  rcases List.mem_pair.1 hw with rfl | rfl
  · obtain ⟨text, hf⟩ := hf
    have hplain : Style.writtenName ⟨path "m.css", "..\\dist/css/m.css"⟩ text =
      "..\\dist/css/m.css" := if_neg (by decide +kernel)
    rw [hf, hplain]
    exact hstay.1
  · rw [Set.mem_singleton_iff.1 hf]
    exact hstay.2

end Sample

open Sample in
/-- A pass over a site whose filenames lead up and down again changes nothing outside the output
directory. -/
theorem outputs_stay_inside_sample :
    ∃ r s', meandering.buildAll (session [("a.html", "a"), ("m.css", "m")]) = (.ok r, s') ∧
      Tree.ChangedWithin ["site", "dist"]
        (session [("a.html", "a"), ("m.css", "m")]).tree s'.tree := by
  obtain ⟨-, hpasses⟩ :=
    outputs_stay_inside (b := meandering) (s := session [("a.html", "a"), ("m.css", "m")]) rfl
      ⟨by decide, by decide⟩ rfl rfl ⟨List.nodup_nil, fun _ h => absurd h List.not_mem_nil⟩
        (by decide +kernel)
  obtain ⟨⟨r₁, s₁, r, s', hassets, hpass, hchanged⟩, -⟩ := hpasses staysIn_meandering
  -- There are no assets to copy before.
  obtain ⟨-, rfl⟩ := Prod.mk.inj hassets
  exact ⟨r, s', hpass, hchanged⟩

open Sample in
/-- A filename with a parent directory leads out of the output directory, as does one with the home
mark of a user, and what is removed before a stylesheet is written there is the project. -/
theorem output_leaves_directory :
    Output.locate sitePlace ⟨.absolute, ["site", "dist"]⟩ "/../x.html" =
      .ok ⟨.absolute, ["site", "x.html"]⟩ ∧
      ¬Path.IsAbove ⟨.absolute, ["site", "dist"]⟩ ⟨.absolute, ["site", "x.html"]⟩ ∧
      Output.locate { sitePlace with home := ⟨"/home", [("root", "/root")]⟩ }
        ⟨.absolute, ["site", "dist"]⟩
        "~root/x.html" = .ok ⟨.absolute, ["root", "x.html"]⟩ ∧
      (Output.path sitePlace ⟨.absolute, ["site", "dist"]⟩ "../x.css").parent =
          ⟨.absolute, ["site"]⟩ :=
  ⟨toOption_eq_some_iff.1 (by decide +kernel), by decide,
    toOption_eq_some_iff.1 (by decide +kernel), by decide +kernel⟩

end Builder

end StaticSite
