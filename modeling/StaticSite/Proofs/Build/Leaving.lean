import StaticSite.Proofs.Build.Isolation
import StaticSite.Proofs.Build.Settled

/-!
# What a pass leaves alone

A full pass leaves its sources alone if the same stands at its end where its entries read and where
its assets lie, and if the system takes the paths that it writes to (`LeavesSources`). Then any
scope that suits the pass (`Suits`) is one in which its attempts read what they read in it,
whichever sessions mirror each other there (`Attempt.mirrors_listing`), and in which its assets may
be copied (`LeavesSources.copied`). What a pass is to write, and which directories it is to make for
that, is said by `IsToWrite` and `IsToMake`.
-/

namespace StaticSite

variable {σ : Type} {b : Builder σ} {start s u : Session σ}

/-! ## What a manifest lists -/

/-- A file is read alike in a scope. -/
structure Scope.Spares (c : Scope) (p : Path) : Prop where
  /-- Its path starts at a root and never goes back up. -/
  grounded : p.IsGrounded
  /-- The system takes it. -/
  fits : p.Fits
  /-- Nothing changes there. -/
  kept : p.names ∈ c.kept
  /-- No file comes to stand above it. -/
  clear : ∀ k, k <+: p.names → k ≠ p.names → k ∈ c.clear

namespace Mirror

variable {c : Scope} {Q : Session σ → Prop} {R : Session σ → Session σ → Prop}
    {s' u' : Session σ} {p : Path}

/-- A manifest lists the same throughout, if the same is remembered of it. -/
theorem listed_congr (M : Mirror c start.tree Q R) (hp : c.Spares p) (h : R s u) (hq : Q s)
    (h' : R s' u') (hq' : Q s') (hs : s'.place = s.place ∧ s'.manifest = s.manifest)
    (hu : u'.place = u.place ∧ u'.manifest = u.manifest) :
    Chunk.listed s' p = Chunk.listed s p ∧ Chunk.listed u' p = Chunk.listed u p := by
  obtain ⟨hproper, hproper₁⟩ := M.proper s u h
  obtain ⟨hproper', hproper₁'⟩ := M.proper s' u' h'
  obtain ⟨hat, hat₁⟩ := M.kept s u h hq _ hp.kept
  obtain ⟨hat', hat₁'⟩ := M.kept s' u' h' hq' _ hp.kept
  have hclear := fun k hk hne => M.clear s u h hq k (hp.clear k hk hne)
  have hclear' := fun k hk hne => M.clear s' u' h' hq' k (hp.clear k hk hne)
  constructor
  · refine Chunk.listed_congr hp.grounded hp.fits hs.1 hs.2
      (hproper.sound.sameAt hproper'.sound (hat'.trans hat.symm)) ?_
    exact hproper.sound.sameAbove_of_files hproper'.sound fun k hk hne =>
      (hclear' k hk hne).1.trans (hclear k hk hne).1.symm
  · refine Chunk.listed_congr hp.grounded hp.fits hu.1 hu.2
      (hproper₁.sound.sameAt hproper₁'.sound (hat₁'.trans hat₁.symm)) ?_
    exact hproper₁.sound.sameAbove_of_files hproper₁'.sound fun k hk hne =>
      (hclear' k hk hne).2.trans (hclear k hk hne).2.symm

end Mirror

namespace Builder

/-! ## Attempts -/

variable {c : Scope} {Q : Session σ → Prop} {R : Session σ → Session σ → Prop} {a : Attempt σ}

/-- A full pass is to write a file, unless something stands in the way. -/
inductive IsToWrite (b : Builder σ) (s : Session σ) : Location → ByteArray → Prop where
  /-- The output file of an entry that is drafted. -/
  | entry {a : Attempt σ} {d : Draft} (attempt : a ∈ Request.full b s)
      (draft : (a.entry.draft b a.before).1 = .ok d) :
      IsToWrite b s (Output.path s.place b.settings.output d.filename).names (Text.encode d.text)
  /-- The copy of a file in an asset directory. -/
  | copy {a : AssetDirectory} {rel : List String} {bytes bytes' : ByteArray} {stamp : Stamp}
      (asset : a ∈ b.settings.assetDirectories) (below : rel ≠ [])
      (stands : s.tree.at? (a.source.names ++ rel) = some (.file bytes stamp))
      (copied : Assets.copied s.place.room.brackets b.settings.isOptimized (a.source.descend rel)
        bytes = .ok bytes') :
      IsToWrite b s ((Output.path s.place b.settings.output a.target).descend rel).names bytes'

/-- A full pass is to make a directory, unless something stands in the way. -/
inductive IsToMake (b : Builder σ) (s : Session σ) : Location → Prop where
  /-- The directory of a file that it is to write. -/
  | above {l : Location} {bytes : ByteArray} (h : b.IsToWrite s l bytes) : IsToMake b s l.dropLast
  /-- The copy of an asset directory or of one in it. -/
  | copy {a : AssetDirectory} {rel : List String} (asset : a ∈ b.settings.assetDirectories)
      (stands : rel = [] ∨ s.tree.at? (a.source.names ++ rel) = some .directory) :
      IsToMake b s ((Output.path s.place b.settings.output a.target).descend rel).names

/-- A scope suits a full pass that leads from a session to another. -/
structure Suits (b : Builder σ) (c : Scope) (s s' : Session σ) : Prop where
  /-- Nothing changes there where the pass leaves the tree as it was. -/
  kept : ∀ l, s'.tree.at? l = s.tree.at? l → l ∈ c.kept
  /-- No file comes to stand there where none does in the pass. -/
  clear : ∀ k, (s'.tree.HasFile k → s.tree.HasFile k) → k ∈ c.clear
  /-- The directories may be made that the pass is to make. -/
  directories : ∀ l, b.IsToMake s l → l ∈ c.directories
  /-- The files may be written that the pass is to write. -/
  files : ∀ l bytes, b.IsToWrite s l bytes → (l, bytes) ∈ c.files

/-- A full pass that leads from a session to another leaves alone what it reads, and the system
takes the paths that it writes to. -/
structure LeavesSources (b : Builder σ) (s s' : Session σ) : Prop where
  /-- The sources of pages start at a root and never go back up. -/
  grounded : ∀ a ∈ Request.full b s, a.entry.work.IsGrounded
  /-- The same stands where the attempts read, and the system takes the paths. -/
  reads : ∀ a ∈ Request.full b s, ∀ q ∈ a.entry.work.reads b a.before,
    q.Fits ∧ s'.tree.at? q.names = s.tree.at? q.names
  /-- The same stands at the manifest, and no file is new above it, if one of the entries has
  chunks. -/
  manifest : ∀ a ∈ Request.full b s, a.entry.chunks b ≠ [] → ∀ m, b.settings.manifest = some m →
    m.IsGrounded ∧ m.Fits ∧ s'.tree.at? m.names = s.tree.at? m.names ∧
      ∀ k, k <+: m.names → s'.tree.HasFile k → s.tree.HasFile k
  /-- The same stands at and below the asset directories, and no file is new above them. -/
  assets : ∀ a ∈ b.settings.assetDirectories, a.source.IsGrounded ∧
    (∀ l, a.source.names <+: l → s'.tree.at? l = s.tree.at? l) ∧
      ∀ k, k <+: a.source.names → s'.tree.HasFile k → s.tree.HasFile k
  /-- The system takes the paths of what is copied. -/
  copies : ∀ a ∈ b.settings.assetDirectories, ∀ rel, rel = [] ∨
    s.tree.at? (a.source.names ++ rel) ≠ none →
    (a.source.descend rel).Fits ∧
      ((Output.path s.place b.settings.output a.target).descend rel).Fits
  /-- It takes those of the entries. -/
  outputs : ∀ a ∈ Request.full b s, ∀ d, (a.entry.draft b a.before).1 = .ok d →
    (Output.path s.place b.settings.output d.filename).Fits
  /-- It takes that of the sitemap. -/
  sitemap : b.settings.sitemap.isSome = true → b.settings.isOptimized = true →
    (Output.path s.place b.settings.output Sitemap.filename).Fits

/-- The attempts of a full pass begin where the pass does. -/
theorem place_of_mem_full (hb : b.IsStandard) {a : Attempt σ} (ha : a ∈ Request.full b s) :
    a.before.place = s.place := by
  obtain ⟨r, s₁, hrun, -⟩ :=
    run_keeps hb.isFiling (b.settings.assetDirectories.map .assets ++ (b.cleaning ++ b.entries))
      (.start "full" b.settings.mode none) { s with phase := .building }
  obtain ⟨earlier, later, r₂, r₃, s₂, -, hearlier, -⟩ := exists_run_of_mem_attempts hrun ha
  exact (keeps_of_run hb.isFiling hearlier).place

namespace LeavesSources

variable {s' : Session σ} {a : Attempt σ} {c : Scope}

/-- The manifests that are asked for in a pass. -/
def manifests (b : Builder σ) (s : Session σ) : Set Path :=
  {m | b.settings.manifest = some m ∧ ∃ a ∈ Request.full b s, a.entry.chunks b ≠ []}

/-- A manifest that is asked for in a pass is read alike throughout it. -/
theorem spares (h : b.LeavesSources s s') (hc : b.Suits c s s') :
    ∀ m ∈ manifests b s, c.Spares m := by
  intro m ⟨hm, a, ha, hchunks⟩
  obtain ⟨hgrounded, hfits, hkept, hclear⟩ := h.manifest a ha hchunks m hm
  exact ⟨hgrounded, hfits, hc.kept _ hkept, fun k hk _ => hc.clear k (hclear k hk)⟩

/-- An attempt of a pass may write its draft, if the pass leaves its sources alone. -/
theorem writes (h : b.LeavesSources s s') (hc : b.Suits c s s') (hb : b.IsStandard)
    (hcwd : s.place.cwd.isAbsolute = true) (ha : a ∈ Request.full b s) {d : Draft}
    (hdraft : (a.entry.draft b a.before).1 = .ok d) :
    c.Writes (Output.path a.before.place b.settings.output d.filename) (Text.encode d.text) := by
  rw [place_of_mem_full hb ha]
  have hwrite := IsToWrite.entry ha hdraft
  have hmake := hc.directories _ (IsToMake.above hwrite)
  have hfile := hc.files _ _ hwrite
  have hfits := h.outputs a ha d hdraft
  have hgrounded := Path.isGrounded_output hcwd b.settings.output d.filename
  generalize Output.path s.place b.settings.output d.filename = target
    at hmake hfile hfits hgrounded
  exact ⟨hgrounded, hfits, hmake, hfile⟩

/-- The asset directories may be copied in a scope that suits the pass. -/
theorem copied (h : b.LeavesSources s s') (hc : b.Suits c s s')
    (hcwd : s.place.cwd.isAbsolute = true) {a : AssetDirectory}
    (ha : a ∈ b.settings.assetDirectories) :
    c.Copies s.tree s.place.room.brackets b.settings.isOptimized a.source
      (Output.path s.place b.settings.output a.target) := by
  obtain ⟨hgrounded, hkept, hclear⟩ := h.assets a ha
  have hcopies := h.copies a ha
  exact {
    grounded := hgrounded
    grounded' := Path.isGrounded_output hcwd _ _
    kept := fun l hl => hc.kept l (hkept l hl)
    clear := fun k hk _ => hc.clear k (hclear k hk)
    fits := by
      have hfits := (hcopies [] (.inl rfl)).1
      rwa [Path.descend_nil] at hfits
    sources := fun rel hrel => (hcopies rel (.inr hrel)).1
    directories := fun rel hrel => by
      have hmake : b.IsToMake s _ := .copy ha hrel
      have hstands :=
        hrel.imp_right fun hdirectory => show s.tree.at? (a.source.names ++ rel) ≠ none by
          simp [hdirectory]
      exact ⟨(hcopies rel hstands).2, hc.directories _ hmake⟩
    files := fun rel bytes stamp hrel hentry => by
      have hstands : s.tree.at? (a.source.names ++ rel) ≠ none := by simp [hentry]
      refine ⟨(hcopies rel (.inr hstands)).2, fun bytes' hcopied => ?_⟩
      have hwrite : b.IsToWrite s _ bytes' := .copy ha hrel hentry hcopied
      exact hc.files _ _ hwrite }

end LeavesSources

end Builder

/-! ## Checking what a pass leaves alone -/

instance (t : Tree) (l : Location) : Decidable (t.HasFile l) :=
  decidable_of_iff (∃ e ∈ t.at? l, e.isDirectory = false) <| by
    constructor
    · rintro ⟨_ | ⟨bytes, stamp⟩, he, hfile⟩
      · cases hfile
      · exact ⟨bytes, stamp, he⟩
    · rintro ⟨bytes, stamp, he⟩
      exact ⟨_, he, rfl⟩

instance : (w : Builder.Work) → Decidable w.IsGrounded
  | .page p => inferInstanceAs (Decidable (∀ source ∈ p.source, source.IsGrounded))
  | .assets _ | .clean _ | .style _ | .sitemap _ _ => .isTrue trivial

/-- Where something may lie in an asset directory, as seen from there. -/
def AssetDirectory.spots (a : AssetDirectory) (t : Tree) : List (List String) :=
  [] :: t.entries.map fun x => x.1.drop a.source.names.length

/-- Whatever lies in an asset directory is among its spots. -/
theorem AssetDirectory.mem_spots {a : AssetDirectory} {t : Tree} {rel : List String}
    (h : rel = [] ∨ t.at? (a.source.names ++ rel) ≠ none) : rel ∈ a.spots t := by
  by_cases hrel : rel = []
  · rw [hrel]
    exact List.mem_cons_self
  · obtain ⟨e, he⟩ := Option.ne_none_iff_exists'.1 (h.resolve_left hrel)
    have hmem := Tree.mem_entries_of_at he fun hnil => hrel (List.append_eq_nil_iff.1 hnil).2
    exact List.mem_cons_of_mem _ (List.mem_map.2 ⟨_, hmem, List.drop_left⟩)

/-- A result without its fault is an answer if and only if it was one. -/
theorem toOption_eq_some {ε α : Type} {x : Except ε α} {a : α} :
    x.toOption = some a ↔ x = .ok a := by
  cases x with
  | error e =>
    constructor <;> intro h <;> cases h
  | ok b =>
      exact ⟨fun h => congrArg Except.ok (Option.some.inj h),
        fun h => congrArg some (Except.ok.inj h)⟩

namespace Builder

/-- Whether a pass leaves alone what it reads is seen from its attempts and from the entries of the
tree before and after. -/
theorem leavesSources_iff {s s' : Session σ} :
    b.LeavesSources s s' ↔
      (∀ a ∈ Request.full b s, a.entry.work.IsGrounded ∧
        (∀ q ∈ a.entry.work.reads b a.before, q.Fits ∧ s'.tree.at? q.names = s.tree.at? q.names) ∧
        (a.entry.chunks b ≠ [] → ∀ m ∈ b.settings.manifest, m.IsGrounded ∧ m.Fits ∧
          s'.tree.at? m.names = s.tree.at? m.names ∧ ∀ k ∈ m.names.inits, s'.tree.HasFile k →
            s.tree.HasFile k) ∧
        ∀ d ∈ (a.entry.draft b a.before).1.toOption,
          (Output.path s.place b.settings.output d.filename).Fits) ∧
      (∀ a ∈ b.settings.assetDirectories, a.source.IsGrounded ∧
        (∀ x ∈ s.tree.entries ++ s'.tree.entries, a.source.names <+: x.1 →
          s'.tree.at? x.1 = s.tree.at? x.1) ∧
        (∀ k ∈ a.source.names.inits, s'.tree.HasFile k → s.tree.HasFile k) ∧
        ∀ rel ∈ a.spots s.tree, rel = [] ∨ s.tree.at? (a.source.names ++ rel) ≠ none →
          (a.source.descend rel).Fits ∧
            ((Output.path s.place b.settings.output a.target).descend rel).Fits) ∧
      (b.settings.sitemap.isSome = true → b.settings.isOptimized = true →
        (Output.path s.place b.settings.output Sitemap.filename).Fits) := by
  simp only [List.mem_inits]
  constructor
  · intro h
    refine ⟨fun a ha => ⟨h.grounded a ha, h.reads a ha, h.manifest a ha, fun d hd => ?_⟩,
      fun a ha => ?_, h.sitemap⟩
    · exact h.outputs a ha d (toOption_eq_some.1 hd)
    · obtain ⟨hgrounded, hkept, hclear⟩ := h.assets a ha
      exact ⟨hgrounded, fun x _ hx => hkept x.1 hx, hclear,
        fun rel _ hrel => h.copies a ha rel hrel⟩
  · rintro ⟨hentries, hassets, hsitemap⟩
    -- What stands in neither tree is the same in both, so it is enough to look at their entries.
    refine ⟨fun a ha => (hentries a ha).1, fun a ha => (hentries a ha).2.1,
      fun a ha => (hentries a ha).2.2.1, fun a ha => ?_, fun a ha rel hrel => ?_, fun a ha d hd =>
        ?_, hsitemap⟩
    · obtain ⟨hgrounded, hkept, hclear, -⟩ := hassets a ha
      refine ⟨hgrounded, fun l hl => Tree.at_eq_of_entries fun x hx hxl => ?_, hclear⟩
      rw [← hxl] at hl ⊢
      exact hkept x hx hl
    · exact (hassets a ha).2.2.2 rel (AssetDirectory.mem_spots hrel) hrel
    · exact (hentries a ha).2.2.2 d (toOption_eq_some.2 hd)

instance (s s' : Session σ) : Decidable (b.LeavesSources s s') :=
  decidable_of_iff' _ leavesSources_iff

end Builder

end StaticSite
