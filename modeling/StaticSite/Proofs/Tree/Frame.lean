import StaticSite.Proofs.Tree.Location

/-!
# What a write changes

`Tree.ChangedOnly` says that a tree differs from another by the writing of files at some locations:
nothing is gone, no directory gave way to a file or a file to a directory, and all that is new
besides the files are directories above them. Such changes add up (`ChangedOnly.trans`). Making
directories is one of them, and it succeeds if and only if no file stands in the way
(`makeDirectories_spec`).
-/

namespace StaticSite.Tree

/-- What became of the entry of a location `m` while files were written at the locations of `ls`. -/
inductive Entry.Change (ls : Set Location) (m : Location) : Option Entry → Option Entry → Prop where
  /-- It is as it was. -/
  | same (e : Option Entry) : Change ls m e e
  /-- A file was written there, where no directory stood. -/
  | file {e : Option Entry} (bytes : ByteArray) (stamp : Stamp) (hm : m ∈ ls)
      (he : e ≠ some .directory) :
      Change ls m e (some (.file bytes stamp))
  /-- A directory was made above a file, where nothing stood. -/
  | directory {l : Location} (hl : l ∈ ls) (hm : m <+: l) (hne : m ≠ l) :
      Change ls m none (some .directory)

/-- A tree changed by the writing of files at some locations. -/
def ChangedOnly (ls : Set Location) (t t' : Tree) : Prop :=
  ∀ m, Entry.Change ls m (t.at? m) (t'.at? m)

/-- A tree changed by the making of directories at or above a location. -/
def Grows (l : Location) (t t' : Tree) : Prop :=
  ∀ m, t'.at? m = t.at? m ∨ m <+: l ∧ t.at? m = none ∧ t'.at? m = some .directory

/-- A file can be written at a location: no file stands above it, and no directory at it. -/
structure Writable (t : Tree) (l : Location) : Prop where
  /-- No file stands above it. -/
  clear : t.Clear l.dropLast
  /-- No directory stands at it. -/
  free : t.at? l ≠ some .directory

/-- A tree after the writing of a file. -/
structure Wrote (l : Location) (bytes : ByteArray) (t t' : Tree) : Prop where
  /-- The file stands there. -/
  file : ∃ stamp, t'.at? l = some (.file bytes stamp)
  /-- Directories stand above it. -/
  leads : t'.Leads l
  /-- Nothing else changed. -/
  changedOnly : ChangedOnly {l} t t'

variable {t t' t'' : Tree} {ls ls' : Set Location} {l m : Location}

/-- A change by files at some locations is one by files at more. -/
theorem Entry.Change.mono {e e' : Option Entry} (h : ls ⊆ ls') (hc : Entry.Change ls m e e') :
    Entry.Change ls' m e e' := by
  cases hc with
  | same => exact .same _
  | file bytes stamp hm he => exact .file bytes stamp (h hm) he
  | directory hl hm hne => exact .directory (h hl) hm hne

/-- Two changes of an entry by files at some locations are one. -/
theorem Entry.Change.trans {e e' e'' : Option Entry} (h : Entry.Change ls m e e')
    (h' : Entry.Change ls m e' e'') : Entry.Change ls m e e'' := by
  cases h' with
  | same => exact h
  | file bytes stamp hm he' =>
    refine .file bytes stamp hm fun he => he' ?_
    cases h with
    | same => exact he
    | file _ _ _ he'' => exact absurd he he''
    | directory => rfl
  | directory hl hm hne =>
    cases h
    exact .directory hl hm hne

/-- What is a directory stays one. -/
theorem Entry.Change.eq_directory {e' : Option Entry} (h : Entry.Change ls m (some .directory) e') :
    e' = some .directory := by
  cases h with
  | same => rfl
  | file _ _ _ he => exact absurd rfl he

/-- A file comes to stand only where one was written. -/
theorem Entry.Change.eq_of_notMem {e e' : Option Entry} (h : Entry.Change ls m e e') (hm : m ∉ ls) :
    e' = e ∨ e = none ∧ e' = some .directory := by
  cases h with
  | same => exact .inl rfl
  | file _ _ hmem _ => exact absurd hmem hm
  | directory => exact .inr ⟨rfl, rfl⟩

/-- A tree changed in nothing. -/
theorem ChangedOnly.refl (ls : Set Location) (t : Tree) : ChangedOnly ls t t := fun _ => .same _

/-- Two changes by files at some locations are one. -/
theorem ChangedOnly.trans (h : ChangedOnly ls t t') (h' : ChangedOnly ls t' t'') :
    ChangedOnly ls t t'' :=
  fun m => (h m).trans (h' m)

/-- A tree that changed by files at some locations changed by files at more. -/
theorem ChangedOnly.mono (h : ls ⊆ ls') (hc : ChangedOnly ls t t') : ChangedOnly ls' t t' :=
  fun m => (hc m).mono h

/-- Where directories stood they stand. -/
theorem ChangedOnly.stands (h : ChangedOnly ls t t') (hl : t.Stands l) : t'.Stands l := by
  intro m hm
  have := h m
  rw [hl m hm] at this
  exact this.eq_directory

/-- Directories that stood above a location still do after files were written. -/
theorem ChangedOnly.leads (h : ChangedOnly ls t t') (hl : t.Leads l) : t'.Leads l := by
  intro m hm hne
  have := h m
  rw [hl m hm hne] at this
  exact this.eq_directory

/-- A location that is neither written nor above one that is keeps its entry. -/
theorem ChangedOnly.at_eq (h : ChangedOnly ls t t') (hm : ∀ l ∈ ls, ¬m <+: l) :
    t'.at? m = t.at? m := by
  have hchange := h m
  generalize t.at? m = e, t'.at? m = e' at hchange
  cases hchange with
  | same => rfl
  | file _ _ hmem _ => exact absurd (List.prefix_refl m) (hm m hmem)
  | directory hl hpre _ => exact absurd hpre (hm _ hl)

/-- A location that is not written and had an entry keeps it. -/
theorem ChangedOnly.at_eq_of_some (h : ChangedOnly ls t t') (hm : m ∉ ls) {e : Entry}
    (he : t.at? m = some e) : t'.at? m = some e := by
  rcases (h m).eq_of_notMem hm with heq | ⟨hnone, -⟩
  · rw [heq, he]
  · rw [hnone] at he
    cases he

/-- Where a file can be written does not change with the writing of files that lie neither at nor
above nor below it. -/
theorem ChangedOnly.writable_iff (h : ChangedOnly ls t t')
    (hapart : ∀ k ∈ ls, ¬k <+: l ∧ ¬l <+: k) :
    t'.Writable l ↔ t.Writable l := by
  have hfree : t'.at? l = t.at? l := h.at_eq fun k hk => (hapart k hk).2
  -- Above the location only directories are new, and these are in nobody's way.
  have hclear : ∀ m, m <+: l.dropLast →
      t'.at? m = t.at? m ∨ t.at? m = none ∧ t'.at? m = some .directory := by
    intro m hm
    refine (h m).eq_of_notMem fun hmem => (hapart m hmem).1 ?_
    exact hm.trans (List.dropLast_prefix l)
  constructor
  · intro hw
    refine ⟨fun m hm bytes stamp hfile => ?_, by rw [← hfree]; exact hw.free⟩
    rcases hclear m hm with heq | ⟨hnone, -⟩
    · exact hw.clear m hm bytes stamp (heq.trans hfile)
    · rw [hnone] at hfile
      cases hfile
  · intro hw
    refine ⟨fun m hm bytes stamp hfile => ?_, by rw [hfree]; exact hw.free⟩
    rcases hclear m hm with heq | ⟨-, hdir⟩
    · exact hw.clear m hm bytes stamp (heq.symm.trans hfile)
    · rw [hdir] at hfile
      cases hfile

/-- A tree grows when nothing happens. -/
theorem Grows.refl (l : Location) (t : Tree) : Grows l t t := fun _ => .inl rfl

/-- A tree that grows twice grows. -/
theorem Grows.trans (h : Grows l t t') (h' : Grows l t' t'') : Grows l t t'' := by
  intro m
  -- A directory that was made first is there for the second, which makes it no more.
  rcases h m with heq | ⟨hm, hnone, hdir⟩ <;> rcases h' m with heq' | ⟨hm', hnone', hdir'⟩
  · exact .inl (heq'.trans heq)
  · exact .inr ⟨hm', heq ▸ hnone', hdir'⟩
  · exact .inr ⟨hm, hnone, heq'.trans hdir⟩
  · rw [hdir] at hnone'
    cases hnone'

/-- A tree that grows above or at a location grows above or at those below it. -/
theorem Grows.of_isPrefix {k : Location} (h : Grows k t t') (hk : k <+: l) : Grows l t t' :=
  fun m => (h m).imp_right fun ⟨hm, hnone, hdir⟩ => ⟨hm.trans hk, hnone, hdir⟩

/-- A tree grows by a directory where nothing stood. -/
theorem Grows.put (hl : l ≠ []) (h : t.at? l = none) : Grows l t (t.put l .directory) := by
  intro m
  by_cases hm : m = l
  · subst hm
    exact .inr ⟨List.prefix_refl m, h, at_put_self t _ hl⟩
  · exact .inl (at_put_of_ne t _ hm)

/-- Making directories neither writes files nor removes them. -/
theorem Grows.clear_iff {k : Location} (h : Grows l t t') : t'.Clear k ↔ t.Clear k := by
  have hfile : ∀ m bytes stamp,
      t'.at? m = some (.file bytes stamp) ↔ t.at? m = some (.file bytes stamp) := by
    intro m bytes stamp
    rcases h m with heq | ⟨-, hnone, hdir⟩
    · rw [heq]
    · rw [hnone, hdir]
      simp
  simp only [Clear, ne_eq, hfile]

/-- Making the directories above a location leaves its own entry as it was. -/
theorem Grows.at_eq_self (h : Grows l.dropLast t t') : t'.at? l = t.at? l := by
  rcases h l with heq | ⟨hpre, hnone, -⟩
  · exact heq
  · -- Only a root is not below itself, and a root always stands.
    have hlength := hpre.length_le
    rw [List.length_dropLast] at hlength
    rw [List.length_eq_zero_iff.1 (by omega : l.length = 0), at_root] at hnone
    cases hnone

/-- Making the directories above a location does not change whether a file can be written there. -/
theorem Grows.writable_iff (h : Grows l.dropLast t t') : t'.Writable l ↔ t.Writable l := by
  constructor
  · intro hw
    exact ⟨h.clear_iff.1 hw.clear, h.at_eq_self ▸ hw.free⟩
  · intro hw
    exact ⟨h.clear_iff.2 hw.clear, by rw [h.at_eq_self]; exact hw.free⟩

/-- Making the directories above a location changes what writing a file there may change. -/
theorem Grows.changedOnly (h : Grows l.dropLast t t') : ChangedOnly {l} t t' := by
  intro m
  by_cases hm : m = l
  · rw [hm, h.at_eq_self]
    exact .same _
  · rcases h m with heq | ⟨hpre, hnone, hdir⟩
    · rw [heq]
      exact .same _
    · rw [hnone, hdir]
      exact .directory rfl (hpre.trans (List.dropLast_prefix l)) hm

/-- Where directories stood they stand. -/
theorem Grows.stands {k : Location} (h : Grows l t t') (hk : t.Stands k) : t'.Stands k := by
  intro m hm
  rcases h m with heq | ⟨-, -, hdir⟩
  · rw [heq, hk m hm]
  · exact hdir

variable {cwd p : Path}

/-- Making one directory puts it where nothing stood, with directories above. -/
theorem makeDirectory_eq_ok_iff (hp : p.IsGrounded) :
    t.makeDirectory cwd p = .ok t' ↔
      p.Fits ∧ t.Leads p.names ∧ t.at? p.names = none ∧ t' = t.put p.names .directory := by
  unfold makeDirectory
  cases hlocate : t.locate cwd p with
  | error cause =>
    constructor
    · intro h
      cases h
    · rintro ⟨hfits, hleads, -, -⟩
      exact absurd hleads (not_leads_of_locate_eq_error hp hlocate hfits)
  | ok k =>
    obtain ⟨hfits, rfl, hleads⟩ := (locate_eq_ok_iff hp).1 hlocate
    simp only [bind, Except.bind]
    cases hentry : t.at? p.names with
    | some e => simp
    | none =>
      simp only [Except.ok.injEq, true_and]
      exact ⟨fun h => ⟨hfits, hleads, h.symm⟩, fun h => h.2.2.symm⟩

/-- Whether a directory is found is whether one stands there and above it. -/
theorem isDirectoryAt_iff (hp : p.IsGrounded) :
    makeDirectoriesUpTo.isDirectoryAt cwd p t = true ↔ p.Fits ∧ t.Stands p.names := by
  have hprobe : ∀ e, t.probe cwd p = .ok (some e) ↔ p.Fits ∧ t.Leads p.names ∧
      t.at? p.names = some e :=
    fun e => probe_eq_some_iff hp
  unfold makeDirectoriesUpTo.isDirectoryAt
  constructor
  · intro h
    split at h
    · rename_i e he
      obtain ⟨hfits, hleads, hentry⟩ := (hprobe e).1 he
      cases e with
      | directory => exact ⟨hfits, hleads.stands hentry⟩
      | file bytes stamp => cases h
    · cases h
  · rintro ⟨hfits, hstands⟩
    rw [(hprobe .directory).2 ⟨hfits, hstands.leads, hstands p.names (List.prefix_refl _)⟩]
    rfl

/-- A directory that was made stands, as do those above it. -/
theorem stands_put (hl : l ≠ []) (hleads : t.Leads l) : (t.put l .directory).Stands l := by
  intro m hm
  by_cases hne : m = l
  · subst hne
    exact at_put_self t _ hl
  · rw [at_put_of_ne t _ hne]
    exact hleads m hm hne

/-- Where no file stands in the way, a directory is made, or stands already, or something above it
is missing. -/
theorem makeDirectory_of_clear (cwd : Path) (hp : p.IsGrounded) (hfits : p.Fits)
    (hclear : t.Clear p.names) : (∃ t', t.makeDirectory cwd p = .ok t') ∨
      (t.makeDirectory cwd p = .error .missing ∧ p.names ≠ []) ∨
      (t.makeDirectory cwd p = .error .present ∧ t.Stands p.names) := by
  rcases locate_of_clear cwd hp hfits hclear with hlocate | hlocate
  · obtain ⟨-, -, hleads⟩ := (locate_eq_ok_iff hp).1 hlocate
    unfold makeDirectory
    simp only [hlocate, bind, Except.bind]
    cases hentry : t.at? p.names with
    | none => exact .inl ⟨_, rfl⟩
    | some e =>
      cases e with
      | directory => exact .inr (.inr ⟨rfl, hleads.stands hentry⟩)
      | file bytes stamp => exact absurd hentry (hclear p.names (List.prefix_refl _) bytes stamp)
  · refine .inr (.inl ⟨by unfold makeDirectory; rw [hlocate]; rfl, fun hroot => ?_⟩)
    -- Nothing lies above a root that could be missing.
    have hleads : t.Leads p.names := by
      intro m hm hne
      rw [hroot] at hm hne
      exact absurd (List.prefix_nil.1 hm) hne
    exact not_leads_of_locate_eq_error hp hlocate hfits hleads

/-- Making a directory, unless it is there, once those above it were made. -/
theorem makeDirectory_or_stands (cwd : Path) (hp : p.IsGrounded) (t : Tree) :
    ∃ r t', (match t.makeDirectory cwd p with
        | .ok t => (.ok (), t)
        | .error cause =>
          if makeDirectoriesUpTo.isDirectoryAt cwd p t then (.ok (), t)
            else (.error (cause, p), t)) =
          ((r, t') : Except (TreeCause × Path) Unit × Tree) ∧
      Grows p.names t t' ∧ (r = .ok () → p.Fits ∧ t'.Stands p.names) ∧
      (p.Fits → t.Clear p.names → t.Leads p.names → r = .ok ()) := by
  cases hmake : t.makeDirectory cwd p with
  | ok t₁ =>
    obtain ⟨hfits, hleads, hnone, rfl⟩ := (makeDirectory_eq_ok_iff hp).1 hmake
    have hroot : p.names ≠ [] := by
      intro hroot
      rw [hroot, at_root] at hnone
      cases hnone
    exact ⟨_, _, rfl, .put hroot hnone, fun _ => ⟨hfits, stands_put hroot hleads⟩, fun _ _ _ => rfl⟩
  | error cause =>
    by_cases hdir : makeDirectoriesUpTo.isDirectoryAt cwd p t = true
    · simp only [hdir, if_true]
      exact ⟨_, _, rfl, .refl _ _, fun _ => (isDirectoryAt_iff hp).1 hdir, fun _ _ _ => rfl⟩
    · simp only [hdir]
      refine ⟨_, _, rfl, .refl _ _, fun h => (by cases h), fun hfits hclear hleads => ?_⟩
      rcases makeDirectory_of_clear cwd hp hfits hclear with ⟨t₁, h⟩ | ⟨h, hroot⟩ | ⟨-, hstands⟩
      · rw [hmake] at h
        cases h
      · -- Directories stand above, so that nothing can be missing there.
        have hlocate : t.locate cwd p = .ok p.names := (locate_eq_ok_iff hp).2 ⟨hfits, rfl, hleads⟩
        unfold makeDirectory at h
        rw [hlocate] at h
        simp only [bind, Except.bind] at h
        split at h <;> cases h
      · exact absurd ((isDirectoryAt_iff hp).2 ⟨hfits, hstands⟩) hdir

/-- Where nothing above is missing, making the directories of a path is making the one. -/
theorem makeDirectoriesUpTo_of_ne (n : Nat) (h : t.makeDirectory cwd p ≠ .error .missing) :
    makeDirectoriesUpTo cwd p n t = match t.makeDirectory cwd p with
      | .ok t => (.ok (), t)
      | .error cause =>
        if makeDirectoriesUpTo.isDirectoryAt cwd p t then (.ok (), t)
            else (.error (cause, p), t) := by
  unfold makeDirectoriesUpTo
  cases hmake : t.makeDirectory cwd p with
  | ok t₁ => rfl
  | error cause =>
    cases cause with
    | missing => exact absurd hmake h
    | present | notDirectory | isDirectory | tooLong | nullCharacter => rfl

/-- What making one directory keeps, making the directories of a path keeps, if `C` holds of the
path and of those of the directories that it lies in. -/
theorem makeDirectoriesUpTo_induction {P : Tree → Prop} {C : Path → Prop}
    (hparent : ∀ q, C q → C q.parent)
    (hmake : ∀ q t t', C q → P t → t.makeDirectory cwd q = .ok t' → P t') (hp : C p)
    (n : Nat) (ht : P t) :
    P (makeDirectoriesUpTo cwd p n t).2 := by
  -- The directory itself is made, or is there, or cannot be made.
  have hself : ∀ q t, C q → P t → P (match t.makeDirectory cwd q with
      | .ok t => ((.ok (), t) : Except (TreeCause × Path) Unit × Tree)
      | .error cause =>
        if makeDirectoriesUpTo.isDirectoryAt cwd q t then (.ok (), t)
            else (.error (cause, q), t)).2 := by
    intro q t hq ht
    cases hmade : t.makeDirectory cwd q with
    | ok t' => exact hmake q t t' hq ht hmade
    | error cause =>
      simp only
      split <;> exact ht
  induction n generalizing p t with
  | zero =>
    by_cases hmissing : t.makeDirectory cwd p = .error .missing
    · unfold makeDirectoriesUpTo
      rw [hmissing]
      exact ht
    · rw [makeDirectoriesUpTo_of_ne 0 hmissing]
      exact hself p t hp ht
  | succ n ih =>
    by_cases hmissing : t.makeDirectory cwd p = .error .missing
    · unfold makeDirectoriesUpTo
      rw [hmissing]
      simp only
      split
      · exact ht
      · -- The directories above are made first, and then the directory itself.
        have habove := ih (hparent p hp) ht
        generalize makeDirectoriesUpTo cwd p.parent n t = result at habove ⊢
        obtain ⟨e | u, t₁⟩ := result
        · exact habove
        · exact hself p t₁ hp habove
    · rw [makeDirectoriesUpTo_of_ne (n + 1) hmissing]
      exact hself p t hp ht

/-- Making the directories of a path makes no others, and succeeds if and only if the system takes
the path and no file stands in the way. -/
theorem makeDirectoriesUpTo_spec (cwd : Path) (hp : p.IsGrounded) (n : Nat) (t : Tree) :
    ∃ r t', makeDirectoriesUpTo cwd p n t = (r, t') ∧ Grows p.names t t' ∧
      (r = .ok () → p.Fits ∧ t'.Stands p.names) ∧
      (p.Fits → t.Clear p.names → p.names.length ≤ n → r = .ok ()) := by
  -- The number bounds the directories that are made above, and the path gets shorter with it.
  induction n using Nat.strongRecOn generalizing p t with
  | _ n ih =>
    obtain ⟨r, t', heq, hgrows, hok, htotal⟩ := makeDirectory_or_stands cwd hp t
    by_cases hmissing : t.makeDirectory cwd p = .error .missing
    · -- Something above is missing: the directories above come first.
      have hroot : p.Fits → t.Clear p.names → p.names ≠ [] := by
        intro hfits hclear
        rcases makeDirectory_of_clear cwd hp hfits hclear with ⟨t₁, h⟩ | ⟨-, h⟩ | ⟨h, -⟩
        · rw [hmissing] at h
          cases h
        · exact h
        · rw [hmissing] at h
          cases h
      unfold makeDirectoriesUpTo
      rw [hmissing]
      cases n with
      | zero =>
        refine ⟨_, _, rfl, .refl _ _, fun h => (by cases h), fun hfits hclear hlength => ?_⟩
        exact absurd (List.length_eq_zero_iff.1 (Nat.le_zero.1 hlength)) (hroot hfits hclear)
      | succ n =>
        by_cases hparent : p.parent = p
        · simp only [hparent, if_true]
          refine ⟨_, _, rfl, .refl _ _, fun h => (by cases h), fun hfits hclear _ => ?_⟩
          exact absurd (Path.names_eq_nil_of_parent_eq hparent) (hroot hfits hclear)
        · simp only [hparent, if_false]
          obtain ⟨r₁, t₁, heq₁, hgrows₁, hok₁, htotal₁⟩ := ih n (Nat.lt_succ_self n) hp.parent t
          have hgrows₁' : Grows p.names t t₁ := hgrows₁.of_isPrefix (List.dropLast_prefix _)
          rw [heq₁]
          cases r₁ with
          | error e =>
            refine ⟨_, _, rfl, hgrows₁', fun h => (by cases h), fun hfits hclear hlength => ?_⟩
            have habove : p.parent.names.length ≤ n := by
              simp only [Path.parent, List.length_dropLast]
              omega
            cases htotal₁ (hfits.parent hp) (hclear.of_isPrefix (List.dropLast_prefix _)) habove
          | ok u =>
            obtain ⟨r₂, t₂, heq₂, hgrows₂, hok₂, htotal₂⟩ := makeDirectory_or_stands cwd hp t₁
            refine ⟨r₂, t₂, heq₂, hgrows₁'.trans hgrows₂, hok₂, fun hfits hclear _ => ?_⟩
            exact htotal₂ hfits (hgrows₁'.clear_iff.2 hclear) (hok₁ rfl).2.leads_of_dropLast
    · refine ⟨r, t', (makeDirectoriesUpTo_of_ne n hmissing).trans heq, hgrows, hok,
        fun hfits hclear _ => ?_⟩
      rcases makeDirectory_of_clear cwd hp hfits hclear with ⟨t₁, h⟩ | ⟨h, -⟩ | ⟨-, hstands⟩
      · exact htotal hfits hclear ((makeDirectory_eq_ok_iff hp).1 h).2.1
      · exact absurd h hmissing
      · exact htotal hfits hclear hstands.leads

/-- Making the directories of a path makes no others, and succeeds if and only if the system takes
the path and no file stands in the way; they stand then. -/
theorem makeDirectories_spec (cwd : Path) (hp : p.IsGrounded) (t : Tree) :
    ∃ r t', t.makeDirectories cwd p = (r, t') ∧ Grows p.names t t' ∧
      (r = .ok () → p.Fits ∧ t'.Stands p.names) ∧ (p.Fits → t.Clear p.names → r = .ok ()) := by
  obtain ⟨r, t', heq, hgrows, hok, htotal⟩ := makeDirectoriesUpTo_spec cwd hp p.names.length t
  exact ⟨r, t', heq, hgrows, hok, fun hfits hclear => htotal hfits hclear (Nat.le_refl _)⟩

end StaticSite.Tree
