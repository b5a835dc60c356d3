import StaticSite.Proofs.Build.Made

/-!
# Sessions that agree on an entry

Two sessions agree on an entry (`Agrees`) if they have the same of it: the names of its stylesheets,
the records under its keys, and the bytes of the files that it may have been written to. Building it
in sessions that agree on it and in which it is made into the same leads to sessions that agree on
it (`Ends.agrees`), and building it once more where what it is made into is shown already changes
nothing (`Ends.agrees_of_isShown`). What is done to entries apart from it keeps all that its
building depends on, besides what is read for it (`spares_of_run`).
-/

namespace StaticSite.Builder

variable {σ : Type} {b : Builder σ} {m : Made} {place : Place}

/-! ## Names and records -/

/-- The name of a stylesheet after an entry was made depends on its name before. -/
theorem Made.lookup_namesFrom_congr {names names' : OutputNames} {style : Stylesheet}
    (h : names'.lookup style = names.lookup style) :
    (m.namesFrom names').lookup style = (m.namesFrom names).lookup style := by
  unfold namesFrom
  cases m.name with
  | none => exact h
  | some entry =>
    obtain ⟨sheet, name⟩ := entry
    by_cases heq : style = sheet
    · rw [heq, OutputNames.lookup_set_self, OutputNames.lookup_set_self]
    · rw [OutputNames.lookup_set_of_ne names' name heq,
        OutputNames.lookup_set_of_ne names name heq, h]

/-- The record of a key after an entry was made and written depends on the record before. -/
theorem Made.find?_recordsFrom_congr {records records' : Records} {k : Record.Key}
    (h : records'.find? k = records.find? k) :
    (m.recordsFrom records').find? k = (m.recordsFrom records).find? k := by
  unfold recordsFrom
  cases m.record with
  | none => exact h
  | some record =>
    by_cases heq : k = record.key
    · rw [heq, Records.find?_keep_self, Records.find?_keep_self]
    · rw [Records.find?_keep_of_ne records' record heq,
        Records.find?_keep_of_ne records record heq, h]

/-- Giving a name once more changes no name. -/
theorem Made.lookup_namesFrom_self (m : Made) (names : OutputNames) (style : Stylesheet) :
    (m.namesFrom (m.namesFrom names)).lookup style = (m.namesFrom names).lookup style := by
  unfold namesFrom
  cases m.name with
  | none => rfl
  | some entry =>
    obtain ⟨sheet, name⟩ := entry
    by_cases heq : style = sheet
    · rw [heq, OutputNames.lookup_set_self, OutputNames.lookup_set_self]
    · simp only
      rw [OutputNames.lookup_set_of_ne _ name heq]

/-- The record that an entry was made into is found under its key. -/
theorem Made.find?_recordsFrom_self {record : Record} (h : m.record = some record)
    (records : Records) : (m.recordsFrom records).find? record.key = some record := by
  unfold recordsFrom
  rw [h]
  exact Records.find?_keep_self records record

/-- Keeping a record once more changes no record. -/
theorem Made.find?_recordsFrom_of_find? {record : Record} (h : m.record = some record)
    {records : Records} (hfind : records.find? record.key = some record) (k : Record.Key) :
    (m.recordsFrom records).find? k = records.find? k := by
  by_cases heq : k = record.key
  · rw [heq, hfind, find?_recordsFrom_self h]
  · unfold recordsFrom
    rw [h]
    exact Records.find?_keep_of_ne records record heq

namespace Work

variable {w w' : Work} {s s' s'' s₁ s₂ s₁' s₂' : Session σ} {c c' : Bool}

/-- Two sessions have the same of a piece of work. -/
structure Agrees (b : Builder σ) (w : Work) (s s' : Session σ) : Prop where
  /-- The place is the same. -/
  place : s'.place = s.place
  /-- Its stylesheets have the same names. -/
  names : ∀ style ∈ w.styles, s'.names.lookup style = s.names.lookup style
  /-- Its keys have the same records. -/
  records : ∀ k ∈ w.keys, s'.records.find? k = s.records.find? k
  /-- The files that it may make have the same bytes. -/
  files : ∀ l ∈ w.candidates b.settings s.place, s'.tree.bytes? l = s.tree.bytes? l

/-- What two sessions have in common of a piece of work they have in either order. -/
theorem Agrees.symm (h : w.Agrees b s s') : w.Agrees b s' s where
  place := h.place.symm
  names style hstyle := (h.names style hstyle).symm
  records k hk := (h.records k hk).symm
  files l hl := (h.files l (h.place ▸ hl)).symm

/-- What a session has in common with two others, these have in common. -/
theorem Agrees.trans (h : w.Agrees b s s') (h' : w.Agrees b s' s'') : w.Agrees b s s'' where
  place := h'.place.trans h.place
  names style hstyle := (h'.names style hstyle).trans (h.names style hstyle)
  records k hk := (h'.records k hk).trans (h.records k hk)
  files l hl := (h'.files l (h.place.symm ▸ hl)).trans (h.files l hl)

/-- Two sessions have the same of a piece of work, and its files can be written in both or in
neither. -/
structure Spares (b : Builder σ) (w : Work) (s s' : Session σ) : Prop extends w.Agrees b s s' where
  /-- A file that it may make can be written now if it could before. -/
  writable : ∀ l ∈ w.candidates b.settings s.place, s'.tree.Writable l ↔ s.tree.Writable l

/-- A session has the same as itself of a piece of work, and can write its files alike. -/
theorem Spares.refl (b : Builder σ) (w : Work) (s : Session σ) : w.Spares b s s :=
  ⟨⟨rfl, fun _ _ => rfl, fun _ _ => rfl, fun _ _ => rfl⟩, fun _ _ => .rfl⟩

/-- Sparing a piece of work does not depend on the order of the sessions. -/
theorem Spares.symm (h : w.Spares b s s') : w.Spares b s' s :=
  ⟨h.toAgrees.symm, fun l hl => (h.writable l (h.place ▸ hl)).symm⟩

/-- A piece of work that is spared in two steps is spared in both. -/
theorem Spares.trans (h : w.Spares b s s') (h' : w.Spares b s' s'') : w.Spares b s s'' :=
  ⟨h.toAgrees.trans h'.toAgrees, fun l hl => (h'.writable l (h.place.symm ▸ hl)).trans
    (h.writable l hl)⟩

/-- No file that a piece of work may make is that of another, or lies above or below it, whatever
the texts of stylesheets are. -/
def IsClearOf (b : Builder σ) (place : Place) (w w' : Work) : Prop :=
  ∀ l ∈ w.candidates b.settings place, ∀ l' ∈ w'.candidates b.settings place, ¬l <+: l' ∧ ¬l' <+: l

instance : Std.Symm (IsClearOf b place) where
  symm _ _ h l hl l' hl' := (h l' hl' l hl).symm

/-- Two pieces of work have no key, no stylesheet and no file in common. -/
structure Apart (b : Builder σ) (place : Place) (w w' : Work) : Prop where
  /-- They have no key in common. -/
  keys : ∀ k ∈ w.keys, k ∉ w'.keys
  /-- They have no stylesheet in common. -/
  styles : ∀ style ∈ w.styles, style ∉ w'.styles
  /-- Their files are clear of each other. -/
  files : w.IsClearOf b place w'

/-- A run over pieces that are apart from a piece of work spares it. -/
theorem spares_of_run (hb : b.IsStandard) {works : List Work} (hworks : ∀ w' ∈ works, w'.IsProduct)
    (hapart : ∀ w' ∈ works, w.Apart b s.place w') {r r' : Report}
    (hcwd : s.place.cwd.isAbsolute = true) (h : b.run works r s = (.ok r', s')) :
    w.Spares b s s' := by
  obtain ⟨r'', s'', h', hchanged⟩ := run_changedOnly_candidates hb hworks r hcwd
  cases h.symm.trans h'
  -- The files of the piece are clear of all that the run may make.
  have hfiles : ∀ l ∈ w.candidates b.settings s.place,
      ∀ k ∈ candidatesOf b.settings s.place works, ¬k <+: l ∧ ¬l <+: k := by
    rintro l hl k ⟨w', hw', hk⟩
    exact ((hapart w' hw').files l hl k hk).symm
  refine ⟨⟨hchanged.place, fun style hstyle => hchanged.names style ?_,
    fun k hk => hchanged.records k ?_, fun l hl => hchanged.tree.bytes?_eq ?_⟩,
      fun l hl => hchanged.tree.writable_iff (hfiles l hl)⟩
  · rintro ⟨w', hw', hmem⟩
    exact (hapart w' hw').styles style hstyle hmem
  · rintro ⟨w', hw', hmem⟩
    exact (hapart w' hw').keys k hk hmem
  · exact fun hmem => (hfiles l hl l hmem).1 (List.prefix_refl l)

/-! ## Building an entry -/

/-- An entry that cannot be made changes no more than the log. -/
theorem Ends.of_made_eq_none (h : w.Ends b s c s') (hmade : w.made b s = none) :
    s.KeepsBook s' ∧ s'.tree = s.tree := by
  cases h with
  | failed _ hbook htree => exact ⟨hbook, htree⟩
  | refused _ hsome | written _ hsome => cases hmade.symm.trans hsome

/-- An entry that is made gets its name, and is written and recorded if the tree accepts its
file. -/
theorem Ends.of_made_eq_some (h : w.Ends b s c s') (hmade : w.made b s = some m) :
    s'.place = s.place ∧ s'.names = m.namesFrom s.names ∧
      (s.tree.Accepts m.path ∧ s'.records = m.recordsFrom s.records ∧
          Tree.Wrote m.path.names (Text.encode m.text) s.tree s'.tree ∨
        ¬s.tree.Accepts m.path ∧ s'.records = s.records ∧
          Tree.Grows m.path.names.dropLast s.tree s'.tree) := by
  cases h with
  | failed hnone => cases hmade.symm.trans hnone
  | refused m' hsome hrefused hplace hnames hrecords htree =>
    cases hmade.symm.trans hsome
    exact ⟨hplace, hnames, .inr ⟨hrefused, hrecords, htree⟩⟩
  | written m' hsome haccepts hplace hnames hrecords htree =>
    cases hmade.symm.trans hsome
    exact ⟨hplace, hnames, .inl ⟨haccepts, hrecords, htree⟩⟩

/-- Building an entry in sessions that agree on it, and in which it is made into the same, leads to
sessions that agree on it. -/
theorem Ends.agrees (h₁ : w.Ends b s₁ c s₁') (h₂ : w.Ends b s₂ c' s₂') (hspares : w.Spares b s₁ s₂)
    (hmade : w.made b s₂ = w.made b s₁) : w.Agrees b s₁' s₂' := by
  cases hm : w.made b s₁ with
  | none =>
    -- It cannot be made in either session, so that both builds leave all of it as it was.
    obtain ⟨hbook₁, htree₁⟩ := h₁.of_made_eq_none hm
    obtain ⟨hbook₂, htree₂⟩ := h₂.of_made_eq_none (hmade.trans hm)
    refine ⟨hbook₂.place.trans (hspares.place.trans hbook₁.place.symm), fun style hstyle => ?_,
      fun k hk => ?_, fun l hl => ?_⟩
    · rw [hbook₁.names, hbook₂.names, hspares.names style hstyle]
    · rw [hbook₁.records, hbook₂.records, hspares.records k hk]
    · rw [hbook₁.place] at hl
      rw [htree₁, htree₂, hspares.files l hl]
  | some m =>
    obtain ⟨hplace₁, hnames₁, hend₁⟩ := h₁.of_made_eq_some hm
    obtain ⟨hplace₂, hnames₂, hend₂⟩ := h₂.of_made_eq_some (hmade.trans hm)
    -- Its file can be written in both sessions or in neither, since both spare it.
    have haccepts : s₂.tree.Accepts m.path ↔ s₁.tree.Accepts m.path := by
      have hwritable := hspares.writable _ (candidates_of_made hm)
      exact ⟨fun h => ⟨h.fits, hwritable.1 h.writable⟩, fun h => ⟨h.fits, hwritable.2 h.writable⟩⟩
    have hnames : ∀ style ∈ w.styles, s₂'.names.lookup style = s₁'.names.lookup style := by
      intro style hstyle
      rw [hnames₁, hnames₂]
      exact m.lookup_namesFrom_congr (hspares.names style hstyle)
    have hplace : s₂'.place = s₁'.place := hplace₂.trans (hspares.place.trans hplace₁.symm)
    rcases hend₁ with ⟨ha₁, hrecords₁, htree₁⟩ | ⟨ha₁, hrecords₁, htree₁⟩
    · -- Both trees accept the file.
      obtain ⟨-, hrecords₂, htree₂⟩ := hend₂.resolve_right fun h => h.1 (haccepts.2 ha₁)
      refine ⟨hplace, hnames, fun k hk => ?_, fun l hl => ?_⟩
      · rw [hrecords₁, hrecords₂]
        exact m.find?_recordsFrom_congr (hspares.records k hk)
      · rw [hplace₁] at hl
        by_cases heq : l = m.path.names
        · rw [heq, htree₁.bytes?_self, htree₂.bytes?_self]
        · rw [htree₁.bytes?_of_ne heq, htree₂.bytes?_of_ne heq, hspares.files l hl]
    · -- Neither does, so that nothing but directories is new in either.
      obtain ⟨-, hrecords₂, htree₂⟩ := hend₂.resolve_left fun h => ha₁ (haccepts.1 h.1)
      refine ⟨hplace, hnames, fun k hk => ?_, fun l hl => ?_⟩
      · rw [hrecords₁, hrecords₂, hspares.records k hk]
      · rw [hplace₁] at hl
        rw [htree₁.bytes?_eq, htree₂.bytes?_eq, hspares.files l hl]

/-- A session shows what an entry was made into, under the name and the record that it was given. -/
structure IsShown (w : Work) (s : Session σ) (m : Made) : Prop where
  /-- Giving its name would change no name. -/
  names : ∀ style ∈ w.styles, (m.namesFrom s.names).lookup style = s.names.lookup style
  /-- Its record is kept. -/
  recorded : ∃ record, m.record = some record ∧ s.records.find? record.key = some record
  /-- Directories stand above its file. -/
  leads : s.tree.Leads m.path.names
  /-- Its file holds its text. -/
  file : s.tree.bytes? m.path.names = some (Text.encode m.text)

/-- What is shown is shown in every session that agrees on the entry, as long as directories stand
above its file. -/
theorem IsShown.of_agrees (h : w.IsShown s m) (hmade : w.made b s₁ = some m)
    (hplace : s₁.place = s.place) (hagrees : w.Agrees b s s')
    (hleads : s'.tree.Leads m.path.names) : w.IsShown s' m where
  names style hstyle := by
    rw [m.lookup_namesFrom_congr (hagrees.names style hstyle), h.names style hstyle,
      hagrees.names style hstyle]
  recorded := by
    obtain ⟨record, hrecord, hfind⟩ := h.recorded
    exact ⟨record, hrecord, (hagrees.records _ (keys_of_made hmade hrecord)).trans hfind⟩
  leads := hleads
  file := by
    rw [hagrees.files _ (hplace ▸ candidates_of_made hmade), h.file]

/-- What was built without an error is shown. -/
theorem Ends.isShown (h : w.Ends b s true s') : ∃ m, w.made b s = some m ∧ w.IsShown s' m := by
  -- Only one of the three ways to end is without an error.
  generalize hc : true = c at h
  cases h with
  | failed | refused => cases hc
  | written m hmade haccepts hplace hnames hrecords htree =>
    obtain ⟨record, hrecord⟩ := Option.isSome_iff_exists.1 hc.symm
    refine ⟨m, hmade, fun style _ => ?_, ⟨record, hrecord, ?_⟩, htree.leads, htree.bytes?_self⟩
    · rw [hnames, m.lookup_namesFrom_self]
    · rw [hrecords, Made.find?_recordsFrom_self hrecord]

/-- Building an entry where what it is made into is shown already changes nothing of it. -/
theorem Ends.agrees_of_isShown (h : w.Ends b s c s') (hmade : w.made b s = some m)
    (hshown : w.IsShown s m) :
    w.Agrees b s s' := by
  obtain ⟨hplace, hnames, hend⟩ := h.of_made_eq_some hmade
  obtain ⟨record, hrecord, hfind⟩ := hshown.recorded
  refine ⟨hplace, fun style hstyle => by rw [hnames, hshown.names style hstyle], fun k _ => ?_,
    fun l _ => ?_⟩
  · rcases hend with ⟨-, hrecords, -⟩ | ⟨-, hrecords, -⟩
    · rw [hrecords, Made.find?_recordsFrom_of_find? hrecord hfind]
    · rw [hrecords]
  · -- The file is written again, with the bytes that it holds.
    rcases hend with ⟨-, -, htree⟩ | ⟨-, -, htree⟩
    · by_cases heq : l = m.path.names
      · rw [heq, hshown.file, htree.bytes?_self]
      · exact htree.bytes?_of_ne heq
    · exact htree.bytes?_eq l

end Work

end StaticSite.Builder
