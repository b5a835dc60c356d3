import StaticSite.Proofs.Build.Advance

/-!
# Sessions that mirror each other

Two builds that do the same from different files are compared step by step. A `Mirror` is a relation
between the sessions of both in which what is read is the same, and which what is written keeps: it
says where that holds (a `Scope`), and what making directories and putting files asks of it and
gives back. Whatever an action does to one session it then does to the other, with the same answer
(`Action.Mirrored`): to write a file (`Mirror.write`) and to copy an asset directory with all in it
(`Mirror.copyAssets`). Which relation it is does not matter here.
-/

namespace StaticSite

variable {σ α β : Type}

/-- Where a build reads, and what it may write where. -/
structure Scope where
  /-- Locations at which nothing changes. -/
  kept : Set Location
  /-- Locations at which no file comes to stand. -/
  clear : Set Location
  /-- Directories that may be made, with those above them. -/
  directories : Set Location
  /-- Files that may be written, with what is written to them. -/
  files : Set (Location × ByteArray)

/-- An action does to one session what it does to the other, if `Q` holds of the one that it
leaves. -/
def Action.Mirrored (R : Session σ → Session σ → Prop) (Q : Session σ → Prop) (a : Action σ α)
    (s u : Session σ) :
    Prop :=
  Q (a s).2 → (a u).1 = (a s).1 ∧ R (a s).2 (a u).2

/-- Sessions are related in such a way that a build within a scope goes alike in both. `Q` holds of
the sessions on the way to some end, and `start` is the tree from which the build began. -/
structure Mirror (c : Scope) (start : Tree) (Q : Session σ → Prop)
    (R : Session σ → Session σ → Prop) : Prop where
  /-- What comes before a session on the way is on the way. -/
  past : ∀ s s', s.Precedes s' → Q s' → Q s
  /-- The place is the same. -/
  place : ∀ s u, R s u → u.place = s.place
  /-- It is absolute. -/
  absolute : ∀ s u, R s u → s.place.cwd.isAbsolute = true
  /-- The day is the same. -/
  today : ∀ s u, R s u → u.today = s.today
  /-- The trees are proper. -/
  proper : ∀ s u, R s u → s.tree.IsProper ∧ u.tree.IsProper
  /-- The log does not count. -/
  told : ∀ s u log log', R s u → R { s with log } { u with log := log' }
  /-- Records are kept in both. -/
  recorded : ∀ s u record, R s u →
    R { s with records := s.records.keep record } { u with records := u.records.keep record }
  /-- Where nothing changes the entry is that of the start. -/
  kept : ∀ s u, R s u → Q s → ∀ l ∈ c.kept, s.tree.at? l = start.at? l ∧ u.tree.at? l = start.at? l
  /-- Where no file comes to stand one stands if it did at the start. -/
  clear : ∀ s u, R s u → Q s → ∀ k ∈ c.clear, (s.tree.HasFile k ↔ start.HasFile k) ∧
    (u.tree.HasFile k ↔ start.HasFile k)
  /-- A file that stands in the way of a directory does so in both. -/
  blocks : ∀ s u, R s u → Q s → ∀ l ∈ c.directories, ∀ k, k <+: l → s.tree.HasFile k →
    u.tree.HasFile k
  /-- None does where the directory is made in the one. -/
  clears : ∀ s u, R s u → ∀ l ∈ c.directories, ∀ t, Tree.Grows l s.tree t → t.Stands l →
    Q { s with tree := t } →
    u.tree.Clear l
  /-- Directories are made in both. -/
  grown : ∀ s u, R s u → ∀ l ∈ c.directories, ∀ t t', Tree.Grows l s.tree t → t.Stands l →
    Tree.Grows l u.tree t' →
    t'.Stands l → t.IsProper → t'.IsProper → Q { s with tree := t } →
      R { s with tree := t } { u with tree := t' }
  /-- A directory that stands in the place of a file does so in both. -/
  taken : ∀ s u, R s u → Q s → ∀ l bytes, (l, bytes) ∈ c.files → s.tree.at? l = some .directory →
    u.tree.at? l = some .directory
  /-- None does where the file is written in the one. -/
  free : ∀ s u, R s u → ∀ l bytes, (l, bytes) ∈ c.files → s.tree.at? l ≠ some .directory →
    Q (s.put l bytes) →
    u.tree.at? l ≠ some .directory
  /-- Files are written in both. -/
  put : ∀ s u, R s u → ∀ l bytes, (l, bytes) ∈ c.files → s.tree.at? l ≠ some .directory →
    u.tree.at? l ≠ some .directory → (s.put l bytes).tree.IsProper → (u.put l bytes).tree.IsProper →
    Q (s.put l bytes) → R (s.put l bytes) (u.put l bytes)

namespace Action

variable {R : Session σ → Session σ → Prop} {Q : Session σ → Prop} {s u : Session σ}

/-- One action after another is mirrored if the first is and what follows each common answer is. -/
theorem Mirrored.bind (hpast : ∀ s s' : Session σ, s.Precedes s' → Q s' → Q s) {a : Action σ α}
    {f : α → Action σ β} (ha : a.Mirrored R Q s u) (hafter : ∀ x, (f x).Within Session.Precedes)
    (hf : ∀ x s' u', a s = (.ok x, s') → a u = (.ok x, u') → R s' u' → Q s' →
      (f x).Mirrored R Q s' u') :
    (a >>= f).Mirrored R Q s u := by
  intro hq
  rcases has : a s with ⟨fault | x, s'⟩
  · rw [bind_apply_error has] at hq ⊢
    obtain ⟨hanswer, hR⟩ := ha (by rw [has]; exact hq)
    rw [has] at hanswer hR
    have hau : a u = (.error fault, (a u).2) := Prod.ext hanswer rfl
    rw [bind_apply_error hau]
    exact ⟨rfl, hR⟩
  · rw [bind_apply_ok has] at hq ⊢
    have hq' : Q s' := hpast _ _ (hafter x s') hq
    obtain ⟨hanswer, hR⟩ := ha (by rw [has]; exact hq')
    rw [has] at hanswer hR
    have hau : a u = (.ok x, (a u).2) := Prod.ext hanswer rfl
    rw [bind_apply_ok hau]
    exact hf x s' _ has hau hR hq' hq

/-- An answer without an effect is mirrored. -/
theorem Mirrored.pure (h : R s u) (x : α) : (pure x : Action σ α).Mirrored R Q s u :=
  fun _ => ⟨rfl, h⟩

/-- A fault without an effect is mirrored. -/
theorem Mirrored.throw (h : R s u) (fault : Fault) : (throw fault : Action σ α).Mirrored R Q s u :=
  fun _ => ⟨rfl, h⟩

/-- A result without an effect is mirrored. -/
theorem Mirrored.liftM (h : R s u) (x : Except Fault α) :
    (liftM x : Action σ α).Mirrored R Q s u := by
  intro _
  rw [liftM_apply, liftM_apply]
  exact ⟨rfl, h⟩

/-- A look at both sessions is mirrored if they show the same. -/
theorem Mirrored.observe {f : Session σ → Except Fault α} (h : R s u) (hf : Q s → f u = f s) :
    (observe f).Mirrored R Q s u :=
  fun hq => ⟨hf hq, h⟩

/-- What follows a look at both sessions is mirrored if they show the same. -/
theorem Mirrored.bind_observe (hpast : ∀ s s' : Session σ, s.Precedes s' → Q s' → Q s)
    {f : Session σ → Except Fault α} {g : α → Action σ β} (h : R s u) (hf : Q s → f u = f s)
    (hafter : ∀ x, (g x).Within Session.Precedes)
    (hg : ∀ x, f s = .ok x → Q s → (g x).Mirrored R Q s u) :
    (Action.observe f >>= g).Mirrored R Q s u := by
  refine Mirrored.bind hpast (.observe h hf) hafter fun x s' u' hs hu _ hq => ?_
  obtain ⟨hx, rfl⟩ := Prod.mk.inj hs
  obtain ⟨-, rfl⟩ := Prod.mk.inj hu
  exact hg x hx hq

/-- Catching the fault of a mirrored action is mirrored. -/
theorem Mirrored.attempt {a : Action σ α} (ha : a.Mirrored R Q s u) :
    (attempt a).Mirrored R Q s u := by
  intro hq
  obtain ⟨hanswer, hR⟩ := ha hq
  exact ⟨congrArg Except.ok hanswer, hR⟩

/-- What is put where a path leads in both sessions takes the place of what stands there in both. -/
theorem Mirrored.replaceAt {p : Path} {bytes : ByteArray}
    (hput : (putAt p bytes).Mirrored R Q s u) : (Action.replaceAt p bytes).Mirrored R Q s u := by
  intro hq
  rw [replaceAt_apply] at hq ⊢
  rw [replaceAt_apply]
  obtain ⟨hanswer, hR⟩ := hput hq
  exact ⟨congrArg (Except.mapError Fault.ofReplacing) hanswer, hR⟩

/-- A directory that was made stands. -/
theorem MakesDirectory.stands {a : Action σ Unit} {p : Path} (ha : a.MakesDirectory p)
    (hproper : s.tree.IsProper) {s' : Session σ} (h : a s = (.ok ⟨⟩, s')) :
    ∃ t, s' = { s with tree := t } ∧ t.Stands p.names := by
  by_cases hclear : s.tree.Clear p.names
  · obtain ⟨t, happly, -, hstands⟩ := ha.clear s hclear
    rw [happly] at h
    exact ⟨t, (Prod.mk.inj h).2.symm, hstands⟩
  · simp only [Tree.Clear, not_forall, not_not] at hclear
    obtain ⟨k, hk, bytes, stamp, hfile⟩ := hclear
    obtain ⟨fault, hblocked⟩ := ha.blocked k hk
    rw [hblocked s hproper.sound ⟨bytes, stamp, hfile⟩] at h
    cases h

/-- A file that lies elsewhere is read and put in its place. -/
theorem copyTo_of_ne {source target : Path} (hsource : source.IsGrounded) (hfits : source.Fits)
    (htarget : target.IsGrounded) (hsound : s.tree.IsSound) {bytes : ByteArray} {stamp : Stamp}
    (hentry : s.tree.at? source.names = some (.file bytes stamp))
    (hne : source.names ≠ target.names) :
    copyTo source target s = putAt target bytes s := by
  have hinspect := Session.inspect_of_file hsource hfits hsound hentry
  have hread := Session.readBytes_of_file hsource hfits hsound hentry
  have hrest : (do
      let bytes ← observe fun s => s.readBytes source
      putAt target bytes : Action σ Unit) s = putAt target bytes s := by
    rw [bind_apply, observe_apply, hread]
  unfold copyTo
  rw [bind_apply_ok (get_apply s), hinspect]
  cases hfound : s.inspect target with
  | error fault => exact hrest
  | ok found =>
    obtain ⟨l, e⟩ := found
    obtain ⟨-, rfl, -⟩ := (Session.inspect_eq_ok_iff htarget).1 hfound
    simp only [hne, if_false]
    exact hrest

/-- Copying a file onto itself is refused, and every other file is read and written to its place. -/
theorem copyTo_apply {source target : Path} (hsource : source.IsGrounded)
    (hsourceFits : source.Fits) (htarget : target.IsGrounded) (htargetFits : target.Fits)
    (hsound : s.tree.IsSound) {bytes : ByteArray} {stamp : Stamp}
    (hentry : s.tree.at? source.names = some (.file bytes stamp)) :
    copyTo source target s =
      if source.names = target.names then (.error (.sameFile source target), s)
        else putAt target bytes s := by
  by_cases heq : source.names = target.names
  · have hinspect : ∀ p : Path, p.IsGrounded → p.Fits → p.names = source.names →
        s.inspect p = .ok (source.names, .file bytes stamp) := by
      intro p hp hfits hnames
      refine (Session.inspect_eq_ok_iff hp).2 ⟨hfits, hnames.symm, ?_, ?_⟩ <;> rw [hnames]
      · exact hsound.leads ⟨bytes, stamp, hentry⟩
      · exact hentry
    unfold copyTo
    rw [bind_apply_ok (get_apply s), hinspect source hsource hsourceFits rfl, if_pos heq]
    simp only [hinspect target htarget htargetFits heq.symm, if_true]
    rfl
  · rw [if_neg heq]
    exact copyTo_of_ne hsource hsourceFits htarget hsound hentry heq

end Action

/-- A path may be written to in a scope. -/
structure Scope.Writes (c : Scope) (p : Path) (bytes : ByteArray) : Prop where
  /-- It starts at a root and never goes back up. -/
  grounded : p.IsGrounded
  /-- The system takes it. -/
  fits : p.Fits
  /-- Its directory may be made. -/
  directory : p.parent.names ∈ c.directories
  /-- The file may be written. -/
  file : (p.names, bytes) ∈ c.files

namespace Mirror

variable {c : Scope} {start : Tree} {Q : Session σ → Prop} {R : Session σ → Session σ → Prop}
    {s u : Session σ}
  {p : Path} {bytes : ByteArray} {l : Location}

/-- Related sessions have the same entry at a location whose entry is kept. -/
theorem sameAt (M : Mirror c start Q R) (h : R s u) (hq : Q s) (hl : l ∈ c.kept) :
    Tree.SameAt l s.tree u.tree := by
  obtain ⟨hs, hu⟩ := M.kept s u h hq l hl
  obtain ⟨hproper, hproper'⟩ := M.proper s u h
  exact hproper.sound.sameAt hproper'.sound (hu.trans hs.symm)

/-- Related sessions have the same files above a location if all locations above it are kept or
clear. -/
theorem sameAbove (M : Mirror c start Q R) (h : R s u) (hq : Q s)
    (hl : ∀ k, k <+: l → k ≠ l → k ∈ c.kept ∨ k ∈ c.clear) : Tree.SameAbove l s.tree u.tree := by
  obtain ⟨hproper, hproper'⟩ := M.proper s u h
  refine hproper.sound.sameAbove_of_files hproper'.sound fun k hk hne => ?_
  rcases hl k hk hne with hkept | hclear
  · obtain ⟨hs, hu⟩ := M.kept s u h hq k hkept
    rw [Tree.HasFile, Tree.HasFile, hs, hu]
  · obtain ⟨hs, hu⟩ := M.clear s u h hq k hclear
    exact hu.trans hs.symm

/-- What is logged is mirrored. -/
theorem said (M : Mirror c start Q R) (h : R s u) (level : Log.Level) (speaker : Log.Speaker)
    (message : String) : (Action.say level speaker message : Action σ Unit).Mirrored R Q s u :=
  fun _ => ⟨rfl, M.told s u _ _ h⟩

/-- A directory is made in both sessions or in none. -/
theorem makeDirectory (M : Mirror c start Q R) {a : Action σ Unit}
    (ha : a.MakesDirectory p) (h : R s u) (hp : p.names ∈ c.directories) : a.Mirrored R Q s u := by
  intro hq
  obtain ⟨hproper, hproper'⟩ := M.proper s u h
  have hkept := ha.proper s hproper
  have hkept' := ha.proper u hproper'
  by_cases hclear : s.tree.Clear p.names
  · obtain ⟨t, happly, hgrows, hstands⟩ := ha.clear s hclear
    rw [happly] at hq hkept ⊢
    obtain ⟨t', happly', hgrows', hstands'⟩ := ha.clear u (M.clears s u h _ hp t hgrows hstands hq)
    rw [happly'] at hkept' ⊢
    exact ⟨rfl, M.grown s u h _ hp t t' hgrows hstands hgrows' hstands' hkept hkept' hq⟩
  · simp only [Tree.Clear, not_forall, not_not] at hclear
    obtain ⟨k, hk, bytes, stamp, hfile⟩ := hclear
    obtain ⟨fault, hblocked⟩ := ha.blocked k hk
    have happly := hblocked s hproper.sound ⟨bytes, stamp, hfile⟩
    rw [happly] at hq ⊢
    rw [hblocked u hproper'.sound (M.blocks s u h hq _ hp k hk ⟨bytes, stamp, hfile⟩)]
    exact ⟨rfl, h⟩

/-- A file is put in a directory that stands in both sessions, or a directory stands there in
both. -/
theorem putAt (M : Mirror c start Q R) (hw : c.Writes p bytes) (h : R s u)
    (hleads : s.tree.Leads p.names) (hleads' : u.tree.Leads p.names) :
    (Action.putAt p bytes).Mirrored R Q s u := by
  intro hq
  by_cases hdirectory : s.tree.at? p.names = some .directory
  · rw [Action.putAt_of_directory hw.grounded hw.fits hleads hdirectory] at hq ⊢
    rw [Action.putAt_of_directory hw.grounded hw.fits hleads'
      (M.taken s u h hq _ _ hw.file hdirectory)]
    exact ⟨rfl, h⟩
  · rw [Action.putAt_of_free hw.grounded hw.fits hleads hdirectory] at hq ⊢
    have hfree := M.free s u h _ _ hw.file hdirectory hq
    rw [Action.putAt_of_free hw.grounded hw.fits hleads' hfree]
    have hroot : p.names ≠ [] := fun hnil => hdirectory (by rw [hnil, Tree.at_root])
    obtain ⟨hproper, hproper'⟩ := M.proper s u h
    have hput : (s.put p.names bytes).tree.IsProper :=
      hproper.put hroot hw.grounded.descends hleads hdirectory _
    have hput' : (u.put p.names bytes).tree.IsProper :=
      hproper'.put hroot hw.grounded.descends hleads' hfree _
    exact ⟨rfl, M.put s u h _ _ hw.file hdirectory hfree hput hput' hq⟩

/-- Once the directory of a file was made in both sessions it leads to the file. -/
theorem leads_of_make (M : Mirror c start Q R) {a : Action σ Unit}
    (ha : a.MakesDirectory p.parent) (h : R s u) {s' u' : Session σ} (hs : a s = (.ok ⟨⟩, s'))
    (hu : a u = (.ok ⟨⟩, u')) :
    s'.tree.Leads p.names ∧ u'.tree.Leads p.names := by
  obtain ⟨hproper, hproper'⟩ := M.proper s u h
  obtain ⟨t, rfl, hstands⟩ := ha.stands hproper hs
  obtain ⟨t', rfl, hstands'⟩ := ha.stands hproper' hu
  exact ⟨hstands.leads_of_dropLast, hstands'.leads_of_dropLast⟩

/-- A text that may be written in the scope is written alike in both sessions. -/
theorem writeText (M : Mirror c start Q R) {text : String} (hw : c.Writes p (Text.encode text))
    (h : R s u) : (Action.writeText p text).Mirrored R Q s u := by
  have hmakes :=
    Action.makesDirectory_makeDirectories (σ := σ) hw.grounded.parent (hw.fits.parent hw.grounded)
  refine Action.Mirrored.bind M.past (M.makeDirectory hmakes h hw.directory)
    (fun _ => Action.replaceAt_within (Action.precedes_putAt p (Text.encode text)))
      fun _ s' u' hs hu h' _ => ?_
  obtain ⟨hleads, hleads'⟩ := M.leads_of_make hmakes h hs hu
  exact (M.putAt hw h' hleads hleads').replaceAt

/-- An output file is written in both sessions or in none. -/
theorem write (M : Mirror c start Q R) {directory : Path} {filename text : String} (h : R s u)
    (hw : c.Writes (Output.path s.place directory filename) (Text.encode text)) :
    (Output.write .onTree directory filename text).Mirrored R Q s u := by
  have hplace := M.place s u h
  have hmakes :=
    Action.makesDirectory_ensureDirectory (σ := σ) hw.grounded.parent (hw.fits.parent hw.grounded)
  refine Action.Mirrored.bind_observe M.past h (fun _ => by rw [hplace]) (fun target => ?_)
    fun target hlocate _ => ?_
  · exact (FileStore.precedes_onTree.ensureDirectory _).bind fun _ =>
      (FileStore.precedes_onTree.writeText target text).bind fun _ =>
        Action.Within.bind (fun s => s.precedes_log _) fun _ => .pure _
  rw [Output.path_of_locate hlocate] at hw hmakes
  refine Action.Mirrored.bind M.past (M.makeDirectory hmakes h hw.directory)
    (fun _ => ?_) fun _ s₁ u₁ _ _ h₁ _ => ?_
  · exact (FileStore.precedes_onTree.writeText target text).bind fun _ =>
      Action.Within.bind (fun s => s.precedes_log _) fun _ => .pure _
  refine Action.Mirrored.bind M.past (M.writeText hw h₁) (fun _ => ?_) fun _ s₂ u₂ _ _ h₂ _ => ?_
  · exact Action.Within.bind (fun s => s.precedes_log _) fun _ => .pure _
  exact Action.Mirrored.bind M.past (M.said h₂ _ _ _) (fun _ => .pure _) fun _ s₃ u₃ _ _ h₃ _ =>
    .pure h₃ _

end Mirror

/-! ## Copying -/

/-- The path of what lies below another under some names. -/
def Path.descend (p : Path) (rel : List String) : Path := ⟨p.root, p.names ++ rel⟩

/-- A directory itself lies below it under no names. -/
@[simp] theorem Path.descend_nil (p : Path) : p.descend [] = p := by
  unfold descend
  rw [List.append_nil]

/-- The parent of what lies below a directory lies below it under one name less. -/
theorem Path.parent_descend_concat (p : Path) (rel : List String) (name : String) :
    (p.descend (rel ++ [name])).parent = p.descend rel := by
  unfold descend parent
  simp only [← List.append_assoc, List.dropLast_concat]

/-- A child of what lies below a directory lies below it under one name more. -/
theorem Path.child_descend (p : Path) (rel : List String) (name : String) :
    (p.descend rel).child name = p.descend (rel ++ [name]) := by
  simp only [child, descend, List.append_assoc]

/-- A path below a grounded one is grounded if its names do not lead up. -/
theorem Path.IsGrounded.descend {p : Path} (hp : p.IsGrounded) {rel : List String}
    (hrel : ".." ∉ rel) : (p.descend rel).IsGrounded :=
  ⟨hp.absolute, fun hmem => (List.mem_append.1 hmem).elim hp.descends hrel⟩

namespace Assets

/-- What the copy of a file holds: a JSON document is made compact if `optimized`, where no more
brackets may be open at once than `limit`. -/
def copied (limit : Nat) (optimized : Bool) (source : Path) (bytes : ByteArray) :
    Except Fault ByteArray :=
  if optimized && ".json".toList.isSuffixOf source.name.toList then
    (Session.textOf bytes >>= compactJson limit).map Text.encode
  else .ok bytes

end Assets

/-- A directory may be copied in a scope, with all that stood in it at the start. -/
structure Scope.Copies (c : Scope) (start : Tree) (limit : Nat) (optimized : Bool)
    (source target : Path) : Prop where
  /-- The directory starts at a root and never goes back up. -/
  grounded : source.IsGrounded
  /-- Neither does its copy. -/
  grounded' : target.IsGrounded
  /-- Nothing changes in it. -/
  kept : ∀ l, source.names <+: l → l ∈ c.kept
  /-- No file comes to stand above it. -/
  clear : ∀ k, k <+: source.names → k ≠ source.names → k ∈ c.clear
  /-- The system takes its path. -/
  fits : source.Fits
  /-- It takes the path of whatever stands in it. -/
  sources : ∀ rel, start.at? (source.names ++ rel) ≠ none → (source.descend rel).Fits
  /-- Its copy may be made, and that of each directory in it. -/
  directories : ∀ rel, rel = [] ∨ start.at? (source.names ++ rel) = some .directory →
    (target.descend rel).Fits ∧ (target.descend rel).names ∈ c.directories
  /-- So may that of each file in it. -/
  files : ∀ rel bytes stamp, rel ≠ [] → start.at? (source.names ++ rel) = some (.file bytes stamp) →
    (target.descend rel).Fits ∧
      ∀ bytes', Assets.copied limit optimized (source.descend rel) bytes = .ok bytes' →
        ((target.descend rel).names, bytes') ∈ c.files

namespace Mirror

variable {c : Scope} {start : Tree} {Q : Session σ → Prop} {R : Session σ → Session σ → Prop}
    {s u : Session σ}
  {limit : Nat} {optimized : Bool} {source target : Path} {rel : List String}

open Assets

/-- A file that is kept in the scope is copied alike in both sessions. -/
theorem copyFile (M : Mirror c start Q R) {bytes : ByteArray} {stamp : Stamp}
    (hsource : source.IsGrounded) (hfits : source.Fits) (hkept : source.names ∈ c.kept)
    (hentry : start.at? source.names = some (.file bytes stamp)) (hw : c.Writes target bytes)
    (h : R s u) : (Action.copyFile source target).Mirrored R Q s u := by
  have hmakes :=
    Action.makesDirectory_makeDirectories (σ := σ) hw.grounded.parent (hw.fits.parent hw.grounded)
  rw [Action.copyFile_eq_bind]
  have hto : ∀ x : Unit, (Action.copyTo source target : Action σ Unit).Within Session.Precedes :=
    fun _ => Action.copyTo_within fun bytes => Action.precedes_putAt target bytes
  refine Action.Mirrored.bind M.past (M.makeDirectory hmakes h hw.directory) hto
    fun _ s' u' hs hu h' hq' => ?_
  obtain ⟨hleads, hleads'⟩ := M.leads_of_make hmakes h hs hu
  obtain ⟨hproper, hproper'⟩ := M.proper s' u' h'
  intro hq
  -- The file is still what it was at the start in both.
  obtain ⟨hat, hat'⟩ := M.kept s' u' h' hq' _ hkept
  rw [Action.copyTo_apply hsource hfits hw.grounded hw.fits hproper.sound (hat.trans hentry)]
    at hq ⊢
  rw [Action.copyTo_apply hsource hfits hw.grounded hw.fits hproper'.sound (hat'.trans hentry)]
  split
  · exact ⟨rfl, h'⟩
  · rename_i hne
    rw [if_neg hne] at hq
    exact M.putAt hw h' hleads hleads' hq

/-- An asset is copied in both sessions or in none, whatever is wrong with it. -/
theorem copyAsset (M : Mirror c start Q R) {bytes : ByteArray} {stamp : Stamp}
    (hsource : source.IsGrounded) (hfits : source.Fits) (hkept : source.names ∈ c.kept)
    (hentry : start.at? source.names = some (.file bytes stamp)) (htarget : target.IsGrounded)
    (hfits' : target.Fits) (hdirectory : target.parent.names ∈ c.directories)
    (hfile : ∀ bytes', copied limit optimized source bytes = .ok bytes' →
      (target.names, bytes') ∈ c.files) (h : R s u) (hroom : s.place.room.brackets = limit) :
    (Assets.copyFile .onTree optimized source target).Mirrored R Q s u := by
  unfold Assets.copyFile
  unfold copied at hfile
  split
  · rename_i hdocument
    simp only [hdocument, if_true] at hfile
    -- The text that is read is the same in both.
    have hread : ∀ v : Session σ, v.tree.IsSound →
      v.tree.at? source.names = start.at? source.names →
        v.readText source = Session.textOf bytes := by
      intro v hsound hat
      rw [Session.readText_eq hsource hfits (hsound _), hat, hentry]
    obtain ⟨hproper, hproper'⟩ := M.proper s u h
    have hboth : Q s → s.readText source = Session.textOf bytes ∧
        u.readText source = Session.textOf bytes := by
      intro hq
      obtain ⟨hat, hat'⟩ := M.kept s u h hq _ hkept
      exact ⟨hread s hproper.sound hat, hread u hproper'.sound hat'⟩
    refine Action.Mirrored.bind_observe M.past h (fun hq => (hboth hq).2.trans (hboth hq).1.symm)
      (fun text => ?_)
      fun text hread hq => ?_
    · exact (Action.Within.observe _).bind fun _ => FileStore.precedes_onTree.writeText _ _
    · rw [(hboth hq).1.symm.trans hread] at hfile
      refine Action.Mirrored.bind_observe M.past h (fun _ => by rw [M.place s u h])
        (fun compact => FileStore.precedes_onTree.writeText target compact)
          fun compact hcompact _ => ?_
      refine M.writeText ⟨htarget, hfits', hdirectory, hfile _ ?_⟩ h
      rw [show (Except.ok text >>= compactJson limit) = compactJson limit text from rfl,
        ← hroom, hcompact]
      rfl
  · rename_i hdocument
    simp only [hdocument] at hfile
    exact M.copyFile hsource hfits hkept hentry ⟨htarget, hfits', hdirectory, hfile bytes rfl⟩ h

/-- A file is tried alike if it is copied alike. -/
theorem tryFile (M : Mirror c start Q R)
    (hcopy : (Assets.copyFile .onTree optimized source target).Mirrored R Q s u) :
    (Assets.tryFile .onTree optimized source target).Mirrored R Q s u := by
  refine Action.Mirrored.bind M.past hcopy.attempt (fun x => ?_) fun x s' u' _ _ h' _ => ?_
  · split
    · exact .pure _
    · split
      · exact Action.Within.bind (fun s => s.precedes_log _) fun _ => .pure _
      · exact .throw _
  · split
    · exact .pure h' _
    · split
      · exact Action.Mirrored.bind M.past (M.said h' _ _ _) (fun _ => .pure _)
          fun _ _ _ _ _ h'' _ => .pure h'' _
      · exact .throw h' _

/-- One entry of a directory that is copied is copied alike in both sessions. -/
theorem copyEntry (M : Mirror c start Q R) (hproper : start.IsProper)
    (hc : c.Copies start limit optimized source target) {inner : String → Action σ Copied}
    {name : String} (hwithin : (inner name).Within Session.Precedes)
    (hinner : start.at? (source.names ++ (rel ++ [name])) = some .directory →
      (inner name).Mirrored R Q s u)
    (hname : start.at? (source.names ++ (rel ++ [name])) ≠ none) (h : R s u)
    (hroom : s.place.room.brackets = limit) :
    (copyEntryBy .onTree (Assets.tryFile .onTree optimized) inner (source.descend rel)
      (target.descend rel) name).Mirrored R Q s u := by
  have hdescends : ".." ∉ rel ++ [name] :=
    fun hmem => hproper.named _ hname (List.mem_append_right _ hmem)
  have hsource := hc.grounded.descend hdescends
  have hfits := hc.sources _ hname
  have hkept : (source.descend (rel ++ [name])).names ∈ c.kept :=
    hc.kept _ (List.prefix_append _ _)
  have hisDirectory : ∀ v : Session σ, v.tree.IsSound →
      v.tree.at? (source.names ++ (rel ++ [name])) = start.at? (source.names ++ (rel ++ [name])) →
      v.isDirectory (source.descend (rel ++ [name])) =
        .ok ((start.at? (source.names ++ (rel ++ [name]))).any Tree.Entry.isDirectory) := by
    intro v hsound hat
    rw [Session.isDirectory_eq hsource hfits (hsound _), ← hat]
    rfl
  obtain ⟨hproper₁, hproper₁'⟩ := M.proper s u h
  have hboth := fun hq => M.kept s u h hq _ hkept
  unfold copyEntryBy
  simp only [Path.child_descend]
  -- Both sessions find the kind of entry that was there at the start, since what is kept stays.
  refine Action.Mirrored.bind_observe M.past h (fun hq => ?_) (fun isDirectory => ?_)
    fun isDirectory hs hq => ?_
  · exact (hisDirectory u hproper₁'.sound (hboth hq).2).trans
      (hisDirectory s hproper₁.sound (hboth hq).1).symm
  · split
    · exact hwithin
    · exact tryFile_within FileStore.precedes_onTree Session.precedes_log optimized _ _
  · have hstands := Except.ok.inj ((hisDirectory s hproper₁.sound (hboth hq).1).symm.trans hs)
    rcases hentry : start.at? (source.names ++ (rel ++ [name])) with _ | ⟨_ | _⟩
    case none => exact absurd hentry hname
    case some.directory =>
      rw [hentry] at hstands
      obtain rfl : true = isDirectory := hstands
      exact hinner hentry
    case some.file bytes stamp =>
      rw [hentry] at hstands
      obtain rfl : false = isDirectory := hstands
      obtain ⟨hfits', hfile⟩ :=
        hc.files _ bytes stamp (List.append_ne_nil_of_right_ne_nil _ (by simp)) hentry
      -- The directory that holds the file was copied before, so the target has one there.
      have habove : start.at? (source.names ++ rel) = some .directory := by
        refine hproper.sound _ _ hentry _ ?_ fun heq => ?_
        · rw [← List.append_assoc]
          exact List.prefix_append _ _
        · simpa using congrArg List.length heq
      have hdirectory : (target.descend (rel ++ [name])).parent.names ∈ c.directories := by
        rw [Path.parent_descend_concat]
        exact (hc.directories rel (.inr habove)).2
      exact M.tryFile (M.copyAsset hsource hfits hkept hentry (hc.grounded'.descend hdescends)
        hfits' hdirectory hfile h hroom)

/-- What stands in a directory that is copied is copied in both sessions or in none. -/
theorem copyEntries (M : Mirror c start Q R) (hproper : start.IsProper)
    (hc : c.Copies start limit optimized source target)
    {inner : String → Action σ Copied} (hwithin : ∀ name, (inner name).Within Session.Precedes)
    (hinner : ∀ name s u, start.at? (source.names ++ (rel ++ [name])) = some .directory → R s u →
      s.place.room.brackets = limit → (inner name).Mirrored R Q s u)
    {names : List String}
    (hnames : ∀ name ∈ names, start.at? (source.names ++ (rel ++ [name])) ≠ none) (h : R s u)
    (hroom : s.place.room.brackets = limit) :
    (Assets.copyEntries .onTree optimized inner (source.descend rel) (target.descend rel)
      names).Mirrored R Q s u := by
  induction names generalizing s u with
  | nil => exact .pure h _
  | cons name rest ih =>
    obtain ⟨hname, hrest⟩ := List.forall_mem_cons.1 hnames
    have hfirst : (copyEntryBy .onTree (Assets.tryFile .onTree optimized) inner
        (source.descend rel) (target.descend rel) name).Within Session.Precedes :=
      copyEntryBy_within (hwithin name)
        (tryFile_within FileStore.precedes_onTree Session.precedes_log optimized _ _)
    have hothers := copyEntries_within FileStore.precedes_onTree Session.precedes_log optimized
      hwithin (source.descend rel) (target.descend rel) rest
    rw [copyEntries_cons]
    refine Action.Mirrored.bind M.past (M.copyEntry hproper hc (hwithin name)
      (fun hentry => hinner name s u hentry h hroom) hname h hroom)
      (fun _ => hothers.bind fun _ => .pure _) fun first s' u' hs _ h' _ => ?_
    have hprecedes := hfirst s
    rw [hs] at hprecedes
    exact Action.Mirrored.bind M.past (ih hrest h' (by rw [hprecedes.place, hroom]))
      (fun _ => .pure _) fun _ _ _ _ _ h'' _ => .pure h'' _

/-- A directory is copied with all in it in both sessions, as far as it is in one. -/
theorem copyTree (M : Mirror c start Q R) (hproper : start.IsProper)
    (hc : c.Copies start limit optimized source target) (depth : Nat)
    (hrel : rel = [] ∨ start.at? (source.names ++ rel) = some .directory) (h : R s u)
    (hroom : s.place.room.brackets = limit) :
    (Assets.copyTree .onTree optimized depth (source.descend rel) (target.descend rel)).Mirrored
      R Q s u := by
  -- The induction is on the depth that is left, and each directory is named by the way to it from
  -- the source.
  induction depth generalizing rel s u with
  | zero => exact .throw h _
  | succ depth ih =>
    have hdescends : ".." ∉ rel := by
      rcases hrel with rfl | hstands
      · exact List.not_mem_nil
      · intro hmem
        refine hproper.named _ ?_ (List.mem_append_right source.names hmem)
        rw [hstands]
        exact Option.some_ne_none _
    have hsource := hc.grounded.descend hdescends
    have htarget := hc.grounded'.descend hdescends
    obtain ⟨hfits', hdirectory⟩ := hc.directories rel hrel
    have hfits : (source.descend rel).Fits := by
      rcases hrel with rfl | hstands
      · rw [Path.descend_nil]
        exact hc.fits
      · refine hc.sources rel ?_
        rw [hstands]
        exact Option.some_ne_none _
    have hwithin : ∀ name,
      (Assets.copyTree .onTree optimized depth ((source.descend rel).child name)
        ((target.descend rel).child name) : Action σ Copied).Within Session.Precedes :=
      fun name => copyTree_within FileStore.precedes_onTree Session.precedes_log optimized depth _ _
    have hentries : ∀ names,
      (Assets.copyEntries .onTree optimized (fun name => Assets.copyTree .onTree optimized depth
        ((source.descend rel).child name) ((target.descend rel).child name)) (source.descend rel)
          (target.descend rel)
        names : Action σ Copied).Within Session.Precedes :=
      fun names =>
        copyEntries_within FileStore.precedes_onTree Session.precedes_log optimized
          hwithin _ _ names
    have hmakes := Action.makesDirectory_ensureDirectory (σ := σ) htarget hfits'
    refine Action.Mirrored.bind M.past (M.makeDirectory hmakes h hdirectory)
      (fun _ => (Action.Within.observe _).bind hentries) fun _ s₁ u₁ hs₁ _ h₁ hq₁ => ?_
    have hroom₁ : s₁.place.room.brackets = limit := by
      have hprecedes := Action.precedes_ensureDirectory (target.descend rel) s
      rw [show Action.ensureDirectory (target.descend rel) true s = _ from hs₁] at hprecedes
      rw [hprecedes.place, hroom]
    obtain ⟨hproper₁, hproper₁'⟩ := M.proper s₁ u₁ h₁
    refine Action.Mirrored.bind_observe M.past h₁ (fun hq => ?_) hentries fun names hnames hq => ?_
    · refine Session.names?_congr_of_same hsource hfits (M.place s₁ u₁ h₁) hproper₁ hproper₁' ?_
        ?_ fun n => ?_
      · exact M.sameAt h₁ hq (hc.kept _ (List.prefix_append _ _))
      · refine M.sameAbove h₁ hq fun k hk hne => ?_
        rcases List.prefix_or_prefix_of_prefix hk
          (List.prefix_append source.names rel) with habove | hbelow
        · by_cases heq : k = source.names
          · exact .inl (hc.kept k (heq ▸ List.prefix_refl _))
          · exact .inr (hc.clear k habove heq)
        · exact .inl (hc.kept k hbelow)
      · obtain ⟨hs, hu⟩ := M.kept s₁ u₁ h₁ hq (source.names ++ rel ++ [n])
          (hc.kept _ (by rw [List.append_assoc]; exact List.prefix_append _ _))
        exact hu.trans hs.symm
    · have hlisted : ∀ name ∈ names, start.at? (source.names ++ (rel ++ [name])) ≠ none := by
        intro name hname
        obtain ⟨-, hstands⟩ := Session.at_ne_none_of_mem_names? hsource hnames hname
        obtain ⟨hs, -⟩ :=
          M.kept s₁ u₁ h₁ hq (source.names ++ (rel ++ [name])) (hc.kept _ (List.prefix_append _ _))
        rw [← hs, ← List.append_assoc]
        exact hstands
      refine M.copyEntries hproper hc hwithin (fun name s₂ u₂ hentry h₂ hroom₂ => ?_)
        hlisted h₁ hroom₁
      rw [Path.child_descend, Path.child_descend]
      exact ih (.inr hentry) h₂ hroom₂

/-- An asset directory is copied to its place in both sessions, as far as it is in one. -/
theorem copyAssets (M : Mirror c start Q R) (hproper : start.IsProper) {directory : Path}
    {a : AssetDirectory} (h : R s u)
    (hc : c.Copies start s.place.room.brackets optimized a.source
      (Output.path s.place directory a.target)) :
        (Assets.copy .onTree directory optimized a).Mirrored R Q s u := by
  refine Action.Mirrored.bind_observe M.past h (fun _ => by rw [M.place s u h]) (fun target => ?_)
    fun target hlocate _ => ?_
  · exact (copyTree_within FileStore.precedes_onTree Session.precedes_log optimized _ _ _).bind
        fun copied =>
      Action.Within.bind (fun s => s.precedes_log _) fun _ => .pure _
  rw [Output.path_of_locate hlocate] at hc
  have hcopied :
    (Assets.copyTree .onTree optimized (pathLimit + 1) (a.source.descend [])
      (target.descend [])).Mirrored
      R Q s u := M.copyTree hproper hc (pathLimit + 1) (.inl rfl) h rfl
  simp only [Path.descend_nil] at hcopied
  refine Action.Mirrored.bind M.past hcopied (fun copied => ?_) fun copied s' u' _ _ h' _ => ?_
  · exact Action.Within.bind (fun s => s.precedes_log _) fun _ => .pure _
  · exact Action.Mirrored.bind M.past (M.said h' _ _ _) (fun _ => .pure _) fun _ _ _ _ _ h'' _ =>
      .pure h'' _

end Mirror

end StaticSite
