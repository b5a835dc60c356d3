import Mathlib.Data.List.Infix
import StaticSite.Tree.Walk

/-!
# Locations of paths

A path that starts at a root and never goes back up names one location of a tree, that of its names,
as long as directories stand all the way to it (`locate_eq_ok_iff`). What is found by such a path
depends on nothing but the locations on the way to it and its own (`probe_congr`).
-/

namespace StaticSite

/-- A path that starts at a root and never goes back up. -/
structure Path.IsGrounded (p : Path) : Prop where
  /-- It starts at a root. -/
  absolute : p.isAbsolute = true
  /-- No name of it is the parent directory. -/
  descends : ".." ∉ p.names

/-- A path that the system takes. -/
structure Path.Fits (p : Path) : Prop where
  /-- No character ends the text early. -/
  whole : '\x00' ∉ p.toString.toList
  /-- The text is short enough. -/
  short : p.toString.utf8ByteSize < pathLimit
  /-- Each name is short enough. -/
  names : ∀ n ∈ p.names, n.utf8ByteSize ≤ nameLimit

instance (p : Path) : Decidable p.IsGrounded :=
  decidable_of_iff (p.isAbsolute = true ∧ ".." ∉ p.names)
    ⟨fun h => ⟨h.1, h.2⟩, fun h => ⟨h.absolute, h.descends⟩⟩

instance (p : Path) : Decidable p.Fits :=
  decidable_of_iff ('\x00' ∉ p.toString.toList ∧ p.toString.utf8ByteSize < pathLimit ∧
    ∀ n ∈ p.names, n.utf8ByteSize ≤ nameLimit)
    ⟨fun h => ⟨h.1, h.2.1, h.2.2⟩, fun h => ⟨h.whole, h.short, h.names⟩⟩

/-- The parent of a grounded path is grounded. -/
theorem Path.IsGrounded.parent {p : Path} (h : p.IsGrounded) : p.parent.IsGrounded where
  absolute := h.absolute
  descends hmem := h.descends (List.dropLast_subset p.names hmem)

/-- A grounded path is not relative. -/
theorem Path.IsGrounded.root_ne {p : Path} (h : p.IsGrounded) : p.root ≠ .relative := by
  intro hroot
  have := h.absolute
  simp [isAbsolute, hroot] at this

/-- The text of a path that starts at a root. -/
theorem Path.IsGrounded.toString_eq {p : Path} (h : p.IsGrounded) :
    p.toString = p.root.text ++ "/".intercalate p.names := by
  unfold toString
  split
  · exact absurd ‹_› h.root_ne
  · rfl

/-- The text of a path begins with that of its directory. -/
theorem Path.IsGrounded.exists_toString_eq {p : Path} (h : p.IsGrounded) :
    ∃ rest, p.toString = p.parent.toString ++ rest := by
  rw [h.toString_eq, h.parent.toString_eq]
  rcases List.eq_nil_or_concat p.names with hnames | ⟨above, name, hnames⟩
  · -- A root is its own directory.
    exact ⟨"", by simp [Path.parent, hnames]⟩
  · have habove : p.parent.names = above := by simp [Path.parent, hnames]
    rw [habove, hnames, List.concat_eq_append]
    by_cases hnil : above = []
    · exact ⟨name, by simp [hnil, Path.parent]⟩
    · refine ⟨"/" ++ name, ?_⟩
      rw [String.intercalate_append_of_ne_nil hnil (List.cons_ne_nil name []),
        String.intercalate_singleton]
      simp only [Path.parent, String.append_assoc]

/-- The system takes the directory of a path that it takes. -/
theorem Path.Fits.parent {p : Path} (hp : p.IsGrounded) (h : p.Fits) : p.parent.Fits := by
  obtain ⟨rest, htext⟩ := hp.exists_toString_eq
  refine ⟨fun hmem => h.whole ?_, ?_, fun n hn => h.names n (List.dropLast_subset p.names hn)⟩
  · rw [htext, String.toList_append]
    exact List.mem_append_left _ hmem
  · have := h.short
    rw [htext, String.utf8ByteSize_append] at this
    omega

/-- The system takes a path that lies above one that it takes. -/
theorem Path.Fits.of_isPrefix {p d : Path} (hp : p.IsGrounded) (hd : d.IsGrounded) (h : p.Fits)
    (hpre : d.names <+: p.names) (hne : p.names ≠ d.names) : d.Fits := by
  obtain ⟨rest, hrest⟩ := hpre
  have hnil : rest ≠ [] := by
    rintro rfl
    exact hne (hrest.symm.trans (List.append_nil _))
  -- The names are those of the one path and, behind a separator, those that are left.
  obtain ⟨tail, htext, htail⟩ : ∃ tail,
    p.toString = p.root.text ++ "/".intercalate d.names ++ tail ∧
      (d.names = [] ∨ 0 < tail.utf8ByteSize) := by
    rw [hp.toString_eq, ← hrest]
    by_cases hnames : d.names = []
    · refine ⟨"/".intercalate rest, ?_, .inl hnames⟩
      rw [hnames, List.nil_append, String.intercalate_nil, String.append_empty]
    · refine ⟨"/" ++ "/".intercalate rest, ?_, .inr ?_⟩
      · rw [String.intercalate_append_of_ne_nil hnames hnil]
        simp only [String.append_assoc]
      · rw [String.utf8ByteSize_append]
        exact Nat.add_pos_left (by decide) _
  -- A root is written with one separator or two.
  have hroot : '\x00' ∉ d.root.text.toList ∧ d.root.text.utf8ByteSize ≤ 2 := by
    cases d.root <;> decide
  have hseparator : 1 ≤ p.root.text.utf8ByteSize := by
    have hroot := hp.root_ne
    cases hcase : p.root with
    | relative => exact absurd hcase hroot
    | absolute | doubled => decide
  refine ⟨fun hmem => ?_, ?_, fun n hn => h.names n (hrest ▸ List.mem_append_left rest hn)⟩
  · rw [hd.toString_eq, String.toList_append] at hmem
    rcases List.mem_append.1 hmem with hmem | hmem
    · exact hroot.1 hmem
    · refine h.whole ?_
      rw [htext, String.toList_append, String.toList_append]
      exact List.mem_append_left _ (List.mem_append_right _ hmem)
  · have hshort := h.short
    rw [htext, String.utf8ByteSize_append, String.utf8ByteSize_append] at hshort
    rw [hd.toString_eq, String.utf8ByteSize_append]
    rcases htail with hnames | htail
    · have hempty : ("/".intercalate d.names).utf8ByteSize = 0 := by rw [hnames]; rfl
      unfold pathLimit at hshort ⊢
      omega
    · omega

/-- The text of some names has a separator between any two of them. -/
theorem Path.length_le_utf8ByteSize (names : List String) :
    names.length ≤ ("/".intercalate names).utf8ByteSize + 1 := by
  induction names with
  | nil => exact Nat.zero_le _
  | cons name rest ih =>
    by_cases hrest : rest = []
    · rw [hrest]
      exact Nat.le_add_left _ _
    · have htext := String.intercalate_append_of_ne_nil (s := "/") (List.cons_ne_nil name []) hrest
      rw [String.intercalate_singleton] at htext
      rw [List.length_cons, show name :: rest = [name] ++ rest from rfl, htext,
        String.utf8ByteSize_append, String.utf8ByteSize_append, show "/".utf8ByteSize = 1 from rfl]
      omega

/-- A path whose directory is itself is a root. -/
theorem Path.names_eq_nil_of_parent_eq {p : Path} (h : p.parent = p) : p.names = [] := by
  have hlength : p.names.dropLast.length = p.names.length := congrArg (fun q => q.names.length) h
  rw [List.length_dropLast] at hlength
  exact List.length_eq_zero_iff.1 (by omega)

namespace Tree

variable {t : Tree} {l : Location}

/-- Directories stand at every location above one. -/
def Leads (t : Tree) (l : Location) : Prop := ∀ m, m <+: l → m ≠ l → t.at? m = some .directory

/-- A directory stands at a location and at every one above it. -/
def Stands (t : Tree) (l : Location) : Prop := ∀ m, m <+: l → t.at? m = some .directory

/-- No file stands at a location or above it. -/
def Clear (t : Tree) (l : Location) : Prop :=
  ∀ m, m <+: l → ∀ bytes stamp, t.at? m ≠ some (.file bytes stamp)

/-- A directory with directories above it stands. -/
theorem Leads.stands (h : t.Leads l) (hl : t.at? l = some .directory) : t.Stands l := by
  intro m hm
  by_cases heq : m = l
  · rw [heq, hl]
  · exact h m hm heq

/-- Directories stand above a directory that stands. -/
theorem Stands.leads (h : t.Stands l) : t.Leads l := fun m hm _ => h m hm

/-- No file is in the way of a directory that stands. -/
theorem Stands.clear (h : t.Stands l) : t.Clear l := by
  intro m hm bytes stamp hfile
  rw [h m hm] at hfile
  cases hfile

/-- A directory above one that stands does so too. -/
theorem Stands.of_isPrefix {k : Location} (h : t.Stands l) (hk : k <+: l) : t.Stands k :=
  fun m hm => h m (hm.trans hk)

/-- Where no file is in the way of a location, none is in the way of those above it. -/
theorem Clear.of_isPrefix {k : Location} (h : t.Clear l) (hk : k <+: l) : t.Clear k :=
  fun m hm => h m (hm.trans hk)

/-- What lies above a location lies at or above the location without its last name. -/
theorem isPrefix_dropLast {m l : Location} (hm : m <+: l) (hne : m ≠ l) : m <+: l.dropLast := by
  obtain ⟨k, rfl⟩ := hm
  have hk : k ≠ [] := by
    rintro rfl
    exact hne (List.append_nil m).symm
  rw [List.dropLast_append_of_ne_nil hk]
  exact List.prefix_append m _

/-- Directories stand above a location if one stands at the location without its last name, and so
on. -/
theorem Stands.leads_of_dropLast (h : t.Stands l.dropLast) : t.Leads l :=
  fun m hm hne => h m (isPrefix_dropLast hm hne)

/-- A name of a path that does not lead up does not lead up. -/
theorem beq_parent_eq_false {name : String} {rest : List String} (h : ".." ∉ name :: rest) :
    (name == "..") = false := by
  rw [beq_eq_false_iff_ne]
  rintro rfl
  exact h List.mem_cons_self

/-- Names lead from a location to the one below it if directories stand all the way. -/
theorem follow_eq_ok_iff {names : List String} {l' : Location} (hnames : ".." ∉ names) :
    t.follow l names = .ok l' ↔ l' = l ++ names ∧ (∀ n ∈ names, n.utf8ByteSize ≤ nameLimit) ∧
      ∀ m, m <+: names → m ≠ names → t.at? (l ++ m) = some .directory := by
  -- The induction is on the names that are left, from whatever location they are followed.
  induction names generalizing l with
  | nil =>
    simp only [follow, Except.ok.injEq, List.append_nil, List.prefix_nil]
    constructor
    · rintro rfl
      exact ⟨rfl, by simp, fun m hm hne => absurd hm hne⟩
    · rintro ⟨rfl, -, -⟩
      rfl
  | cons name rest ih =>
    have hname := beq_parent_eq_false hnames
    have hrest : ".." ∉ rest := fun h => hnames (List.mem_cons_of_mem _ h)
    constructor
    · intro h
      unfold follow at h
      split at h
      · cases h
      · cases h
      · rename_i hl
        simp only [hname, Bool.false_eq_true, if_false] at h
        split at h
        · cases h
        · rename_i hsize
          obtain ⟨rfl, hnames', hall⟩ := (ih hrest).1 h
          refine ⟨by rw [List.append_assoc]; rfl, ?_, ?_⟩
          · intro n hn
            rcases List.mem_cons.1 hn with rfl | hn
            · exact Nat.not_lt.1 hsize
            · exact hnames' n hn
          · -- A directory stands here, and below the first name by the induction.
            intro m hm hne
            rcases List.prefix_cons_iff.1 hm with rfl | ⟨m', rfl, hm'⟩
            · rw [List.append_nil, hl]
            · have := hall m' hm' (fun heq => hne (by rw [heq]))
              rwa [List.append_assoc] at this
    · rintro ⟨rfl, hnames', hall⟩
      -- The condition for no name at all is the one for the location itself.
      have hl : t.at? l = some .directory := by
        have := hall [] List.nil_prefix (by simp)
        rwa [List.append_nil] at this
      have hsize : ¬nameLimit < name.utf8ByteSize := Nat.not_lt.2 (hnames' name List.mem_cons_self)
      unfold follow
      simp only [hl, hname, Bool.false_eq_true, if_false, hsize]
      refine (ih hrest).2
        ⟨by rw [List.append_assoc]; rfl, fun n hn => hnames' n (List.mem_cons_of_mem _ hn), ?_⟩
      intro m hm hne
      have := hall (name :: m) (List.cons_prefix_cons.2 ⟨rfl, hm⟩) (by simpa using hne)
      rwa [List.append_assoc]

/-- Where no file stands in the way, names can only lead to something that is missing. -/
theorem follow_of_clear {names : List String} (hnames : ".." ∉ names)
    (hsize : ∀ n ∈ names, n.utf8ByteSize ≤ nameLimit)
    (hclear : ∀ m, m <+: names → ∀ bytes stamp, t.at? (l ++ m) ≠ some (.file bytes stamp)) :
    t.follow l names = .ok (l ++ names) ∨ t.follow l names = .error .missing := by
  induction names generalizing l with
  | nil => exact .inl (by rw [List.append_nil]; rfl)
  | cons name rest ih =>
    have hname := beq_parent_eq_false hnames
    unfold follow
    split
    · exact .inr rfl
    · rename_i bytes stamp hfile
      have := hclear [] List.nil_prefix bytes stamp
      rw [List.append_nil] at this
      exact absurd hfile this
    · simp only [hname, Bool.false_eq_true, if_false, Nat.not_lt.2 (hsize name List.mem_cons_self)]
      have := ih (l := l ++ [name]) (fun h => hnames (List.mem_cons_of_mem _ h))
        (fun n hn => hsize n (List.mem_cons_of_mem _ hn)) (by
          intro m hm
          rw [List.append_assoc]
          exact hclear (name :: m) (List.cons_prefix_cons.2 ⟨rfl, hm⟩))
      rwa [List.append_assoc] at this

/-- Names lead to the same in two trees with the same entries on the way. -/
theorem follow_congr {t' : Tree} {names : List String} (hnames : ".." ∉ names)
    (h : ∀ m, m <+: names → m ≠ names → t'.at? (l ++ m) = t.at? (l ++ m)) :
    t'.follow l names = t.follow l names := by
  induction names generalizing l with
  | nil => rfl
  | cons name rest ih =>
    have hl : t'.at? l = t.at? l := by
      have := h [] List.nil_prefix (by simp)
      rwa [List.append_nil] at this
    have hname := beq_parent_eq_false hnames
    have hrest : t'.follow (l ++ [name]) rest = t.follow (l ++ [name]) rest := by
      refine ih (fun h => hnames (List.mem_cons_of_mem _ h)) fun m hm hne => ?_
      have := h (name :: m) (List.cons_prefix_cons.2 ⟨rfl, hm⟩) (by simpa using hne)
      rwa [List.append_assoc]
    unfold follow
    rw [hl]
    simp only [hname, Bool.false_eq_true, if_false, hrest]

variable {cwd p : Path}

/-- A path of a root is located by its names. -/
theorem locate_eq (hp : p.IsGrounded) :
    t.locate cwd p =
      if '\x00' ∈ p.toString.toList then .error .nullCharacter
      else if pathLimit ≤ p.toString.utf8ByteSize then .error .tooLong
      else t.follow [] p.names := by
  unfold locate
  simp only [List.contains_iff_mem, hp.absolute, if_true]

/-- A path is located if the system takes it and directories stand all the way. -/
theorem locate_eq_ok_iff (hp : p.IsGrounded) :
    t.locate cwd p = .ok l ↔ p.Fits ∧ l = p.names ∧ t.Leads p.names := by
  rw [locate_eq hp]
  constructor
  · intro h
    split at h
    · cases h
    · rename_i hwhole
      split at h
      · cases h
      · rename_i hshort
        obtain ⟨hl, hnames, hall⟩ := (follow_eq_ok_iff hp.descends).1 h
        exact ⟨⟨hwhole, Nat.not_le.1 hshort, hnames⟩, hl, hall⟩
  · rintro ⟨hfits, hl, hleads⟩
    rw [if_neg hfits.whole, if_neg (Nat.not_le.2 hfits.short)]
    exact (follow_eq_ok_iff hp.descends).2 ⟨hl, hfits.names, hleads⟩

/-- A path that the system takes is not located only where something above it is no directory. -/
theorem not_leads_of_locate_eq_error (hp : p.IsGrounded) {cause : TreeCause}
    (h : t.locate cwd p = .error cause) (hfits : p.Fits) : ¬t.Leads p.names := by
  intro hleads
  rw [(locate_eq_ok_iff hp).2 ⟨hfits, rfl, hleads⟩] at h
  cases h

/-- Where no file stands in the way, a path that the system takes is located, or something above it
is missing. -/
theorem locate_of_clear (cwd : Path) (hp : p.IsGrounded) (hfits : p.Fits)
    (hclear : t.Clear p.names) :
    t.locate cwd p = .ok p.names ∨ t.locate cwd p = .error .missing := by
  rw [locate_eq hp, if_neg hfits.whole, if_neg (Nat.not_le.2 hfits.short)]
  exact follow_of_clear hp.descends hfits.names hclear

/-- Something is found by a path if and only if the path is located and something stands there. -/
theorem inspect_eq_ok_iff (hp : p.IsGrounded) {e : Entry} :
    t.inspect cwd p = .ok (l, e) ↔ p.Fits ∧ l = p.names ∧ t.Leads p.names ∧
      t.at? p.names = some e := by
  unfold inspect
  -- A path that is not located finds nothing, and there is something in its way.
  cases hlocate : t.locate cwd p with
  | error cause =>
    constructor
    · intro h
      cases h
    · rintro ⟨hfits, -, hleads, -⟩
      exact absurd hleads (not_leads_of_locate_eq_error hp hlocate hfits)
  | ok k =>
    obtain ⟨hfits, rfl, hleads⟩ := (locate_eq_ok_iff hp).1 hlocate
    simp only [bind, Except.bind]
    cases hentry : t.at? p.names with
    | none => simp
    | some found =>
      simp only [Except.ok.injEq, Prod.mk.injEq, Option.some.injEq]
      constructor
      · rintro ⟨rfl, rfl⟩
        exact ⟨hfits, rfl, hleads, rfl⟩
      · rintro ⟨-, rfl, -, rfl⟩
        exact ⟨rfl, rfl⟩

/-- A grounded path shows an entry if the system takes it, directories stand above it, and the entry
is there. -/
theorem probe_eq_some_iff (hp : p.IsGrounded) {e : Entry} :
    t.probe cwd p = .ok (some e) ↔ p.Fits ∧ t.Leads p.names ∧ t.at? p.names = some e := by
  constructor
  · intro h
    unfold probe at h
    split at h
    · rename_i l found hinspect
      cases h
      obtain ⟨hfits, -, hleads, hentry⟩ := (inspect_eq_ok_iff hp).1 hinspect
      exact ⟨hfits, hleads, hentry⟩
    · cases h
    · cases h
  · rintro ⟨hfits, hleads, hentry⟩
    unfold probe
    rw [(inspect_eq_ok_iff hp).2 ⟨hfits, rfl, hleads, hentry⟩]

/-- What is found by a path depends on the entries above it and its own. -/
theorem inspect_congr {t' : Tree} (hp : p.IsGrounded)
    (h : ∀ m, m <+: p.names → t'.at? m = t.at? m) :
    t'.inspect cwd p = t.inspect cwd p := by
  have hlocate : t'.locate cwd p = t.locate cwd p := by
    have hfollow : t'.follow [] p.names = t.follow [] p.names :=
      follow_congr hp.descends fun m hm _ => h m hm
    rw [locate_eq hp, locate_eq hp, hfollow]
  unfold inspect
  rw [hlocate]
  cases hl : t.locate cwd p with
  | error cause => rfl
  | ok l =>
    obtain ⟨-, rfl, -⟩ := (locate_eq_ok_iff hp).1 hl
    simp only [bind, Except.bind, h p.names (List.prefix_refl _)]

/-- What stands at a path depends on the entries above it and its own. -/
theorem probe_congr {t' : Tree} (hp : p.IsGrounded) (h : ∀ m, m <+: p.names → t'.at? m = t.at? m) :
    t'.probe cwd p = t.probe cwd p := by
  unfold probe
  rw [inspect_congr hp h]

end Tree

end StaticSite
