import StaticSite.Proofs.Output

/-!
# What a change of files does to reading

A text that is read depends on what stands at its path and above it (`readText_congr`). So files
that are written below a directory change no text outside of it: not if it could be read before
(`readText_of_writes`), and not at all if the directory stood before (`readText_congr_of_writes`).
An edit of one file changes no other text that could be read (`Tree.Edited.readText`).
-/

namespace StaticSite

namespace Tree

/-- The bytes of the file at a location. -/
def bytes? (t : Tree) (l : Location) : Option ByteArray :=
  match t.at? l with
  | some (.file bytes _) => some bytes
  | _ => none

/-- A tree after one file was written, or removed: no directory gave way to it, and what else is new
are directories above it. -/
structure Edited (l : Location) (t t' : Tree) : Prop where
  /-- No directory stood there. -/
  before : t.at? l ≠ some .directory
  /-- No directory stands there. -/
  after : t'.at? l ≠ some .directory
  /-- Every other entry is as it was, or is a directory that was made above. -/
  others : ∀ m, m ≠ l →
    t'.at? m = t.at? m ∨ m <+: l ∧ t.at? m = none ∧ t'.at? m = some .directory

variable {t t' : Tree} {l m : Location} {ls : Set Location}

/-- The bytes of a file depend on its entry alone. -/
theorem bytes?_congr (h : t'.at? l = t.at? l) : t'.bytes? l = t.bytes? l := by
  unfold bytes?
  rw [h]

/-- Where no file was written the bytes are the same. -/
theorem ChangedOnly.bytes?_eq (h : ChangedOnly ls t t') (hl : l ∉ ls) :
    t'.bytes? l = t.bytes? l := by
  -- A directory that is new stands where nothing stood, and there were no bytes either.
  rcases (h l).eq_of_notMem hl with heq | ⟨hnone, hdir⟩
  · exact bytes?_congr heq
  · unfold bytes?
    rw [hnone, hdir]

/-- The making of directories changes the bytes of no file. -/
theorem Grows.bytes?_eq (h : Grows m t t') (l : Location) : t'.bytes? l = t.bytes? l := by
  rcases h l with heq | ⟨-, hnone, hdir⟩
  · exact bytes?_congr heq
  · unfold bytes?
    rw [hnone, hdir]

/-- A file that was written holds its bytes. -/
theorem Wrote.bytes?_self {bytes : ByteArray} (h : Wrote l bytes t t') :
    t'.bytes? l = some bytes := by
  obtain ⟨stamp, hfile⟩ := h.file
  unfold bytes?
  rw [hfile]

/-- Writing a file changes the bytes of no other one. -/
theorem Wrote.bytes?_of_ne {bytes : ByteArray} (h : Wrote l bytes t t') (hm : m ≠ l) :
    t'.bytes? m = t.bytes? m := h.changedOnly.bytes?_eq hm

/-- An edit changes nothing at a location that is neither the edited one nor above it. -/
theorem Edited.at_eq (h : Edited l t t') (hm : ¬m <+: l) : t'.at? m = t.at? m := by
  rcases h.others m fun heq => hm (heq ▸ List.prefix_refl m) with heq | ⟨hpre, -⟩
  · exact heq
  · exact absurd hpre hm

/-- An edit changes no entry that was there, except its own. -/
theorem Edited.at_eq_of_some (h : Edited l t t') (hm : m ≠ l) {e : Entry} (he : t.at? m = some e) :
    t'.at? m = some e := by
  rcases h.others m hm with heq | ⟨-, hnone, -⟩
  · rw [heq, he]
  · rw [hnone] at he
    cases he

/-- Directories that stood above a location stand after an edit. -/
theorem Edited.leads (h : Edited l t t') (hm : t.Leads m) : t'.Leads m := by
  intro k hk hne
  have hdir := hm k hk hne
  refine h.at_eq_of_some ?_ hdir
  -- The edited location is no directory, so that it is not one of these.
  rintro rfl
  exact h.before hdir

end Tree

namespace Session

variable {σ : Type} {s s' : Session σ} {q : Path} {ls : Set Location} {out : Location}

/-- The text at a path depends on the entries above it and its own. -/
theorem readText_congr (hq : q.IsGrounded) (hplace : s'.place = s.place)
    (h : ∀ m, m <+: q.names → s'.tree.at? m = s.tree.at? m) : s'.readText q = s.readText q := by
  unfold readText probe
  rw [hplace, Tree.probe_congr hq h]

/-- A text that is read is that of a file with directories above it. -/
theorem leads_of_readText (hq : q.IsGrounded) {text : String} (h : s.readText q = .ok text) :
    s.tree.Leads q.names ∧ ∃ bytes stamp, s.tree.at? q.names = some (.file bytes stamp) := by
  unfold readText probe at h
  cases hprobe : s.tree.probe s.place.cwd q with
  | error cause => rw [hprobe] at h; cases h
  | ok e? =>
    rw [hprobe] at h
    -- A text is that of a file; what else may be found makes the read fail.
    match e? with
    | none => cases h
    | some .directory => cases h
    | some (.file bytes stamp) =>
      obtain ⟨-, hleads, hentry⟩ := (Tree.probe_eq_some_iff hq).1 hprobe
      exact ⟨hleads, bytes, stamp, hentry⟩

/-- A text that was read is the same if nothing that stood at its path or above it changed. -/
theorem readText_of_some (hq : q.IsGrounded) (hplace : s'.place = s.place) {text : String}
    (hread : s.readText q = .ok text)
    (h : ∀ m, m <+: q.names → ∀ e, s.tree.at? m = some e → s'.tree.at? m = some e) :
    s'.readText q = s.readText q := by
  obtain ⟨hleads, bytes, stamp, hentry⟩ := leads_of_readText hq hread
  refine readText_congr hq hplace fun m hm => ?_
  -- Something stood at every location on the way, which could not be read through otherwise.
  by_cases heq : m = q.names
  · rw [heq, hentry]
    exact h q.names (List.prefix_refl _) _ hentry
  · rw [hleads m hm heq]
    exact h m hm _ (hleads m hm heq)

/-- Files that are written below a directory change no text outside of it that could be read. -/
theorem readText_of_writes (hq : q.IsGrounded) (hplace : s'.place = s.place)
    (htree : Tree.ChangedOnly ls s.tree s'.tree) (hls : ∀ l ∈ ls, out <+: l)
    (hout : ¬out <+: q.names) {text : String} (hread : s.readText q = .ok text) :
    s'.readText q = s.readText q := by
  refine readText_of_some hq hplace hread fun m hm e he => ?_
  -- A location above the path that was written would put the path below the directory.
  exact htree.at_eq_of_some (fun hmem => hout ((hls m hmem).trans hm)) he

/-- Files that are written below a directory that stands change no text outside of it. -/
theorem readText_congr_of_writes (hq : q.IsGrounded) (hplace : s'.place = s.place)
    (htree : Tree.ChangedOnly ls s.tree s'.tree) (hls : ∀ l ∈ ls, out <+: l)
    (hout : ¬out <+: q.names) (hstands : s.tree.Stands out) : s'.readText q = s.readText q := by
  refine readText_congr hq hplace fun m hm => ?_
  have hchange := htree m
  generalize hold : s.tree.at? m = e at hchange ⊢
  generalize s'.tree.at? m = e' at hchange ⊢
  cases hchange with
  | same => rfl
  | file _ _ hmem _ => exact absurd ((hls m hmem).trans hm) hout
  | @directory l hl hpre _ =>
    -- Either the location lies below the directory, or a directory stood there.
    rcases List.prefix_or_prefix_of_prefix hpre (hls l hl) with h | h
    · rw [hstands m h] at hold
      cases hold
    · exact absurd (h.trans hm) hout

end Session

/-- An edit of a file changes no other text that could be read. -/
theorem Tree.Edited.readText {σ : Type} {s s' : Session σ} {l : Location} {q : Path}
    (h : Edited l s.tree s'.tree) (hq : q.IsGrounded) (hplace : s'.place = s.place)
    (hne : q.names ≠ l) {text : String} (hread : s.readText q = .ok text) :
    s'.readText q = s.readText q := by
  obtain ⟨hleads, -⟩ := Session.leads_of_readText hq hread
  refine Session.readText_of_some hq hplace hread fun m hm e he => h.at_eq_of_some ?_ he
  rintro rfl
  exact h.before (hleads m hm (Ne.symm hne))

end StaticSite
