import StaticSite.Proofs.Build.Mirror

/-!
# What copying a directory comes to

A directory is copied from a tree to a place apart from it (`Assets.Transfer`). While that goes on,
the tree turns into others that differ from the first only by copies of files and by directories
above them (`Transfer.Turns`), so that what is still to be read and where it goes to are as they
were. Copying gets to an end if and only if it gets past everything in the directory
(`Transfer.Passes`): the system takes each path in it, the copy of each directory in it can be made,
and no document in it that is to be made compact is nested too deep. Then each file is accounted for
(`Transfer.Accounts`): its copy is reported and stands, if it can be made, and otherwise there is an
error that begins with its path. That a file cannot be copied stops nothing. What holds of each step
(`Transfer.Yields`) adds up to what holds of the directory (`yields_copyTree`).
-/

namespace StaticSite

variable {σ : Type} {s : Session σ} {p source target : Path}

/-! ## Single steps -/

/-- A path that the system takes has fewer names than its text may have bytes. -/
theorem Path.Fits.length_lt (h : p.Fits) (hp : p.IsGrounded) : p.names.length < pathLimit := by
  have hroot : 1 ≤ p.root.text.utf8ByteSize := by
    have hroot := hp.root_ne
    cases hcase : p.root with
    | relative => exact absurd hcase hroot
    | absolute | doubled => decide
  have hshort := h.short
  have hnames := Path.length_le_utf8ByteSize p.names
  rw [hp.toString_eq, String.utf8ByteSize_append] at hshort
  omega

namespace Tree

variable {t : Tree} {l : Location} {cwd : Path}

/-- Names that directories lead along are followed unless one of them is too long. -/
theorem follow_of_leads {names : List String} (hnames : ".." ∉ names)
    (hleads : ∀ m, m <+: names → m ≠ names → t.at? (l ++ m) = some .directory)
    (hlong : ¬∀ n ∈ names, n.utf8ByteSize ≤ nameLimit) : t.follow l names = .error .tooLong := by
  induction names generalizing l with
  | nil => exact absurd (fun n hn => by cases hn) hlong
  | cons name rest ih =>
    have hl : t.at? l = some .directory := by
      have hl := hleads [] List.nil_prefix (by simp)
      rwa [List.append_nil] at hl
    have hname := beq_parent_eq_false hnames
    unfold follow
    simp only [hl, hname, Bool.false_eq_true, if_false]
    split
    · rfl
    · rename_i hsize
      refine ih (fun h => hnames (List.mem_cons_of_mem _ h)) (fun m hm hne => ?_) fun hall =>
        hlong fun n hn => ?_
      · have hm := hleads (name :: m) (List.cons_prefix_cons.2 ⟨rfl, hm⟩) (by simpa using hne)
        rwa [List.append_assoc]
      · rcases List.mem_cons.1 hn with rfl | hn
        · exact Nat.not_lt.1 hsize
        · exact hall n hn

/-- The system does not take a path that directories lead to only if the path is too long, unless a
character ends its text early. -/
theorem probe_of_not_fits (hp : p.IsGrounded) (hwhole : '\x00' ∉ p.toString.toList)
    (hleads : t.Leads p.names) (hfits : ¬p.Fits) : t.probe cwd p = .error .tooLong := by
  have hlocate : t.locate cwd p = .error .tooLong := by
    rw [locate_eq hp, if_neg hwhole]
    split
    · rfl
    · rename_i hshort
      exact follow_of_leads hp.descends hleads fun hnames =>
        hfits ⟨hwhole, Nat.not_le.1 hshort, hnames⟩
  unfold probe inspect
  rw [hlocate]
  rfl

instance (t : Tree) (l : Location) : Decidable (t.Clear l) :=
  decidable_of_iff (∀ m ∈ l.inits, (t.at? m).all Entry.isDirectory = true) <| by
    constructor
    · intro h m hm bytes stamp hentry
      have hall := h m ((List.mem_inits _ _).2 hm)
      rw [hentry] at hall
      cases hall
    · intro h m hm
      have hnone := h m ((List.mem_inits _ _).1 hm)
      match hentry : t.at? m with
      | none => rfl
      | some .directory => rfl
      | some (.file bytes stamp) => exact absurd hentry (hnone bytes stamp)

end Tree

namespace Action

/-- A file is put where a path leads if the system takes the path and no directory stands there. -/
theorem putAt_cases (hp : p.IsGrounded) (hleads : s.tree.Leads p.names) (bytes : ByteArray) :
    (p.Fits ∧ s.tree.at? p.names ≠ some .directory ∧
      putAt p bytes s = (.ok ⟨⟩, s.put p.names bytes)) ∨
      ¬(p.Fits ∧ s.tree.at? p.names ≠ some .directory) ∧
        ∃ cause, putAt p bytes s = (.error (.tree cause p), s) := by
  by_cases h : p.Fits ∧ s.tree.at? p.names ≠ some .directory
  · exact .inl ⟨h.1, h.2, putAt_of_free hp h.1 hleads h.2⟩
  · refine .inr ⟨h, ?_⟩
    by_cases hfits : p.Fits
    · exact ⟨_, putAt_of_directory hp hfits hleads (not_not.1 fun hfree => h ⟨hfits, hfree⟩)⟩
    · cases hlocate : s.tree.locate s.place.cwd p with
      | ok l => exact absurd ((Tree.locate_eq_ok_iff hp).1 hlocate).1 hfits
      | error cause =>
        refine ⟨cause, ?_⟩
        have hlocation : fileLocation s p = .error (.tree cause p) := by
          unfold fileLocation
          rw [hlocate]
          rfl
        unfold putAt
        rw [bind_apply, observe_apply, hlocation]

end Action

namespace Assets

/-- Whether a path names a JSON document. -/
def isDocument (p : Path) : Bool := ".json".toList.isSuffixOf p.name.toList

/-- Puts a copy where a path leads: that of a document that was made compact takes the place of what
stands there. -/
def putCopy (optimized : Bool) (source target : Path) (bytes : ByteArray) : Action σ Unit :=
  if optimized && isDocument source then Action.replaceAt target bytes
    else Action.putAt target bytes

/-- A copy is put where a path leads if the system takes the path and no directory stands there. -/
theorem putCopy_cases (htarget : target.IsGrounded) (hleads : s.tree.Leads target.names)
    (optimized : Bool) (source : Path) (bytes : ByteArray) :
    (target.Fits ∧ s.tree.at? target.names ≠ some .directory ∧
        putCopy optimized source target bytes s = (.ok ⟨⟩, s.put target.names bytes)) ∨
      ¬(target.Fits ∧ s.tree.at? target.names ≠ some .directory) ∧
        ∃ fault, putCopy optimized source target bytes s = (.error fault, s) ∧
          (fault.isOfTree || fault.isOfForm) = true := by
  unfold putCopy
  rcases Action.putAt_cases htarget hleads bytes with ⟨hfits, hfree, hput⟩ | ⟨hnot, cause, hput⟩
  · refine .inl ⟨hfits, hfree, ?_⟩
    split
    · rw [Action.replaceAt_apply, hput]
      rfl
    · exact hput
  · refine .inr ⟨hnot, ?_⟩
    split
    · rw [Action.replaceAt_apply, hput]
      exact ⟨_, rfl, by cases cause <;> rfl⟩
    · exact ⟨_, hput, by cases cause <;> rfl⟩

/-- Copying a file works out what the copy holds, makes the directory of the copy, and puts it
there. -/
theorem copyFile_apply (hsource : source.IsGrounded) (hfits : source.Fits)
    (htarget : target.IsGrounded) (hproper : s.tree.IsProper) {bytes : ByteArray} {stamp : Stamp}
    (hentry : s.tree.at? source.names = some (.file bytes stamp))
    (hne : source.names ≠ target.names) (optimized : Bool) :
    copyFile .onTree optimized source target s =
      match copied s.place.room.brackets optimized source bytes with
      | .error fault => (.error fault, s)
      | .ok bytes' =>
        (Action.makeDirectories target.parent >>= fun _ => putCopy optimized source target
            bytes') s := by
  unfold copyFile copied putCopy isDocument
  split
  · have hread : s.readText source = Session.textOf bytes := by
      rw [Session.readText_eq hsource hfits (hproper.sound _), hentry]
    rw [bind_apply, Action.observe_apply, show (FileStore.onTree : FileStore σ).readText =
      Session.readText from rfl, hread]
    cases Session.textOf bytes with
    | error fault => rfl
    | ok text =>
      rw [show (Except.ok text >>= compactJson s.place.room.brackets) =
        compactJson s.place.room.brackets text from rfl]
      simp only
      rw [bind_apply, Action.observe_apply]
      cases compactJson s.place.room.brackets text <;> rfl
  · rw [show (FileStore.onTree : FileStore σ).copyFile = Action.copyFile from rfl,
      Action.copyFile_eq_bind]
    -- The file is what it was when the directory is made.
    obtain ⟨r, t, hmake, hgrows, -⟩ := Action.makeDirectories_spec htarget.parent s
    have hmade := Action.isProper_makeDirectories htarget.parent hproper
    rw [hmake] at hmade
    have hstill : t.at? source.names = some (.file bytes stamp) := by
      rcases hgrows source.names with heq | ⟨-, hnone, -⟩
      · rw [heq, hentry]
      · rw [hnone] at hentry
        cases hentry
    cases r with
    | error fault =>
      rw [bind_apply_error hmake]
      exact (bind_apply_error hmake).symm
    | ok u =>
      rw [bind_apply_ok hmake]
      refine .trans ?_ (bind_apply_ok hmake).symm
      exact Action.copyTo_of_ne hsource hfits htarget hmade.sound hstill hne

/-- What is made compact is a document that is read unless it is nested too deep, and it is written
unless a half of a surrogate pair stands in it. -/
theorem compactJson_cases (limit : Nat) (text : String) :
    (limit < Json.nesting text ∧ compactJson limit text = .error .tooNested) ∨
      Json.nesting text ≤ limit ∧ ((∃ cause, compactJson limit text = .error (.json cause)) ∨
        ∃ document, Json.parse text = .ok document ∧
          compactJson limit text = (Symbol.text (Json.compact document)).mapError .half) := by
  unfold compactJson Json.load
  split
  · exact .inl ⟨‹_›, rfl⟩
  · refine .inr ⟨Nat.le_of_not_lt ‹_›, ?_⟩
    cases hparsed : Json.parse text with
    | error cause => exact .inl ⟨cause, rfl⟩
    | ok document => exact .inr ⟨document, rfl, rfl⟩

/-- A fault in the content of a document that is not nested too deep is one that is reported. -/
theorem isOfForm_of_compactJson {limit : Nat} {text : String} {fault : Fault}
    (h : compactJson limit text = .error fault) (hflat : Json.nesting text ≤ limit) :
    fault.isOfForm = true := by
  rcases compactJson_cases limit text with ⟨hdeep, -⟩ | ⟨-, ⟨cause, heq⟩ | ⟨document, -, heq⟩⟩
  · omega
  · rw [heq] at h
    cases h
    rfl
  · rw [heq] at h
    cases hwritten : Symbol.text (Json.compact document) <;> rw [hwritten] at h <;> cases h
    rfl

/-- A fault in the content of a file is one that is reported, unless the file is a document that is
nested too deep. -/
theorem isOfForm_of_copied {limit : Nat} {optimized : Bool} {bytes : ByteArray} {fault : Fault}
    (h : copied limit optimized source bytes = .error fault)
    (hflat : optimized = true → isDocument source = true → ∀ text, Session.textOf bytes = .ok text →
      Json.nesting text ≤ limit) : fault.isOfForm = true := by
  unfold copied at h
  split at h
  · rename_i hdocument
    obtain ⟨hoptimized, hname⟩ := Bool.and_eq_true_iff.1 hdocument
    cases htext : Session.textOf bytes with
    | error cause =>
      rw [htext] at h
      cases h
      unfold Session.textOf at htext
      split at htext <;> cases htext
      rfl
    | ok text =>
      rw [htext] at h
      rw [show (Except.ok text >>= compactJson limit) = compactJson limit text from rfl] at h
      cases hcompact : compactJson limit text with
      | ok compact =>
        rw [hcompact] at h
        cases h
      | error cause =>
        rw [hcompact] at h
        cases h
        exact isOfForm_of_compactJson hcompact (hflat hoptimized hname text htext)
  · cases h

/-- The content of a document that is nested too deep is not made compact. -/
theorem copied_of_nested {limit : Nat} {bytes : ByteArray} {text : String}
    (hname : isDocument source = true) (htext : Session.textOf bytes = .ok text)
    (hdeep : limit < Json.nesting text) :
    copied limit true source bytes = .error .tooNested := by
  unfold isDocument at hname
  rcases compactJson_cases limit text with ⟨-, heq⟩ | ⟨hflat, -⟩
  · rw [copied, Bool.true_and, if_pos hname, htext, show (Except.ok text >>= compactJson limit) =
      compactJson limit text from rfl, heq]
    rfl
  · omega

/-! ## Transfers -/

/-- A directory that is copied, and the tree in which that begins. -/
structure Transfer where
  /-- Whether JSON documents are made compact. -/
  optimized : Bool
  /-- The number of brackets of one that may be open at once. -/
  brackets : Nat
  /-- The directory. -/
  source : Path
  /-- Its copy. -/
  target : Path
  /-- The tree. -/
  start : Tree

namespace Transfer

variable {c : Transfer} {rel rel' : List String} {t t' t'' : Tree} {l : Location}

/-- A file stands in the directory under some names. -/
def HasFile (c : Transfer) (rel : List String) : Prop := c.start.HasFile (c.source.names ++ rel)

/-- A directory does. -/
def HasDirectory (c : Transfer) (rel : List String) : Prop :=
  c.start.at? (c.source.names ++ rel) = some .directory

/-- A file in the directory can be copied, and its copy holds some bytes. -/
structure Copies (c : Transfer) (rel : List String) (bytes : ByteArray) : Prop where
  /-- They are made of those of the file. -/
  content : ∃ read stamp, c.start.at? (c.source.names ++ rel) = some (.file read stamp) ∧
    copied c.brackets c.optimized (c.source.descend rel) read = .ok bytes
  /-- The system takes the path of the copy. -/
  fits : (c.target.descend rel).Fits
  /-- No directory stands in its place. -/
  free : c.start.at? (c.target.names ++ rel) ≠ some .directory

/-- A file in the directory cannot be copied. -/
structure Fails (c : Transfer) (rel : List String) : Prop where
  /-- It is there. -/
  file : c.HasFile rel
  /-- There are no bytes that its copy would hold. -/
  none : ∀ bytes, ¬c.Copies rel bytes

/-- A JSON document that is to be made compact is not nested too deep. -/
def IsFlat (c : Transfer) (rel : List String) : Prop :=
  ∀ read stamp, c.start.at? (c.source.names ++ rel) = some (.file read stamp) →
    c.optimized = true → isDocument (c.source.descend rel) = true →
      ∀ text, Session.textOf read = .ok text → Json.nesting text ≤ c.brackets

/-- Copying gets past what stands in the directory under some names. -/
structure Passes (c : Transfer) (rel : List String) : Prop where
  /-- The system takes its path. -/
  fits : (c.source.descend rel).Fits
  /-- If it is a directory, its copy can be made: the system takes the path, and no file stands
  there or above. -/
  directory : c.HasDirectory rel → (c.target.descend rel).Fits ∧
    c.start.Clear (c.target.names ++ rel)
  /-- If it is a document that is to be made compact, it is not nested too deep. -/
  flat : c.IsFlat rel

/-- Copying gets past all that stands under some names, and below. -/
def PassesBelow (c : Transfer) (rel : List String) : Prop :=
  ∀ rel', rel <+: rel' → c.start.at? (c.source.names ++ rel') ≠ Option.none → c.Passes rel'

/-- The directory is there, and copying gets past all in it. -/
structure IsPassable (c : Transfer) : Prop where
  /-- It is there. -/
  directory : c.HasDirectory []
  /-- Copying gets past all in it. -/
  passes : c.PassesBelow []

/-- No path in the directory holds the character that ends texts of the system. -/
def IsWhole (c : Transfer) : Prop :=
  ∀ rel, c.start.at? (c.source.names ++ rel) ≠ Option.none →
    '\x00' ∉ (c.source.descend rel).toString.toList

/-- A directory is copied from a proper tree to a place apart from it. -/
structure IsProper (c : Transfer) : Prop where
  /-- The directory starts at a root and never goes back up. -/
  source : c.source.IsGrounded
  /-- Neither does its copy. -/
  target : c.target.IsGrounded
  /-- The copy lies neither at the directory nor in it. -/
  outside : ¬c.source.names <+: c.target.names
  /-- The directory does not lie in its copy. -/
  apart : ¬c.target.names <+: c.source.names
  /-- The tree is proper. -/
  start : c.start.IsProper

/-- What some files in the directory come to: each is copied or reported, and nothing else is
told. -/
structure Accounts (c : Transfer) (rels : Set (List String)) (x : Copied) (t : Tree) : Prop where
  /-- A file that can be copied is told to be written, and its copy stands. -/
  copied : ∀ rel ∈ rels, ∀ bytes, c.Copies rel bytes → c.target.descend rel ∈ x.written ∧
    ∃ stamp, t.at? (c.target.names ++ rel) = some (.file bytes stamp)
  /-- One that cannot be copied is reported with its path. -/
  reported : ∀ rel ∈ rels, c.Fails rel → ∃ message, (c.source.descend rel).toString ++ ": " ++
    message ∈ x.errors
  /-- Only copies of the files are told to be written. -/
  written : ∀ p ∈ x.written, ∃ rel ∈ rels, ∃ bytes, c.Copies rel bytes ∧ p = c.target.descend rel
  /-- Only files that cannot be copied are reported. -/
  errors : ∀ e ∈ x.errors, ∃ rel ∈ rels, c.Fails rel ∧
    ∃ message, e = (c.source.descend rel).toString ++ ": " ++ message

/-! ## Trees on the way -/

/-- What can be copied is a file. -/
theorem Copies.hasFile {bytes : ByteArray} (h : c.Copies rel bytes) : c.HasFile rel := by
  obtain ⟨read, stamp, hentry, -⟩ := h.content
  exact ⟨read, stamp, hentry⟩

/-- The copy of a file holds the same whenever it is made. -/
theorem Copies.eq {bytes bytes' : ByteArray} (h : c.Copies rel bytes) (h' : c.Copies rel bytes') :
    bytes' = bytes := by
  obtain ⟨read, stamp, hentry, hcopied⟩ := h.content
  obtain ⟨read', stamp', hentry', hcopied'⟩ := h'.content
  cases hentry.symm.trans hentry'
  exact Except.ok.inj (hcopied'.symm.trans hcopied)

/-- Something stands where a file does. -/
theorem HasFile.ne_none (h : c.HasFile rel) :
    c.start.at? (c.source.names ++ rel) ≠ Option.none := by
  obtain ⟨bytes, stamp, hentry⟩ := h
  rw [hentry]
  exact Option.some_ne_none _

/-- Something stands where a directory does. -/
theorem HasDirectory.ne_none (h : c.HasDirectory rel) :
    c.start.at? (c.source.names ++ rel) ≠ Option.none := by
  rw [show c.start.at? (c.source.names ++ rel) = some .directory from h]
  exact Option.some_ne_none _

/-- What stands above something in the directory is a directory. -/
theorem hasDirectory_of_above (hc : c.IsProper)
    (hstands : c.start.at? (c.source.names ++ rel') ≠ Option.none) (h : rel <+: rel')
    (hne : rel ≠ rel') : c.HasDirectory rel := by
  obtain ⟨e, he⟩ := Option.ne_none_iff_exists'.1 hstands
  refine hc.start.sound _ e he _ ((List.prefix_append_right_inj _).2 h) fun heq => hne ?_
  exact List.append_cancel_left heq

/-- Nothing stands below a file. -/
theorem HasFile.eq_of_above (hc : c.IsProper) (hfile : c.HasFile rel)
    (hstands : c.start.at? (c.source.names ++ rel') ≠ Option.none) (h : rel <+: rel') :
    rel = rel' := by
  by_contra hne
  exact Tree.not_hasFile_of_directory (hasDirectory_of_above hc hstands h hne) hfile

/-- No name under which something stands in the directory leads back up. -/
theorem notMem_of_stands (hc : c.IsProper)
    (hstands : c.start.at? (c.source.names ++ rel) ≠ Option.none) :
    ".." ∉ rel :=
  fun hmem => hc.start.named _ hstands (List.mem_append_right _ hmem)

/-- The directory and its copy have no location in common. -/
theorem IsProper.not_isPrefix (hc : c.IsProper) {l : Location} (hsource : c.source.names <+: l)
    (htarget : c.target.names <+: l) : False :=
  (List.prefix_or_prefix_of_prefix hsource htarget).elim hc.outside hc.apart

/-- What becomes of the entry of a location while the directory is copied. -/
inductive Change (c : Transfer) (l : Location) : Option Tree.Entry → Option Tree.Entry → Prop where
  /-- It is as it was. -/
  | same (e : Option Tree.Entry) : Change c l e e
  /-- A directory was made, at the copy of one or above. -/
  | made {rel : List String} (hrel : c.HasDirectory rel) (hl : l <+: c.target.names ++ rel) :
      Change c l Option.none (some .directory)
  /-- The copy of a file was put there. -/
  | put {e : Option Tree.Entry} {rel : List String} {bytes : ByteArray} (stamp : Stamp)
      (hcopies : c.Copies rel bytes)
      (hl : l = c.target.names ++ rel) (he : e ≠ some .directory) : Change c l e
        (some (.file bytes stamp))

/-- Two changes of the entry of a location are one. -/
theorem Change.trans {e e' e'' : Option Tree.Entry} (h : c.Change l e e') (h' : c.Change l e' e'') :
    c.Change l e e'' := by
  cases h' with
  | same => exact h
  | made hrel hl =>
    cases h
    exact .made hrel hl
  | put stamp hcopies hl he' =>
    refine .put stamp hcopies hl fun he => he' ?_
    cases h with
    | same => exact he
    | made => rfl
    | put _ _ _ hne => exact absurd he hne

/-- A tree turns into another while the directory is copied. -/
def Turns (c : Transfer) (t t' : Tree) : Prop := ∀ l, c.Change l (t.at? l) (t'.at? l)

/-- A tree turns into itself. -/
theorem Turns.refl (t : Tree) : c.Turns t t := fun _ => .same _

/-- A tree that turns into another in two steps turns into it. -/
theorem Turns.trans (h : c.Turns t t') (h' : c.Turns t' t'') : c.Turns t t'' :=
  fun l => (h l).trans (h' l)

/-- The making of directories turns a tree so, if they are copies of directories. -/
theorem turns_of_grows (hrel : c.HasDirectory rel) (h : Tree.Grows (c.target.names ++ rel) t t') :
    c.Turns t t' := by
  intro l
  rcases h l with heq | ⟨hl, hnone, hmade⟩
  · rw [heq]
    exact .same _
  · rw [hnone, hmade]
    exact .made hrel hl

/-- So does the copy of a file. -/
theorem turns_put {bytes : ByteArray} (hcopies : c.Copies rel bytes)
    (hfree : t.at? (c.target.names ++ rel) ≠ some .directory) (stamp : Stamp) :
    c.Turns t (t.put (c.target.names ++ rel) (.file bytes stamp)) := by
  intro l
  by_cases hl : l = c.target.names ++ rel
  · rw [hl, Tree.at_put_self _ _ fun hroot => hfree (by rw [hroot, Tree.at_root])]
    exact .put stamp hcopies rfl hfree
  · rw [Tree.at_put_of_ne _ _ hl]
    exact .same _

/-- A copy that stands goes on to do so. -/
theorem Turns.holds (h : c.Turns t t') {bytes : ByteArray} (hcopies : c.Copies rel bytes)
    (hstands : ∃ stamp, t.at? (c.target.names ++ rel) = some (.file bytes stamp)) :
    ∃ stamp, t'.at? (c.target.names ++ rel) = some (.file bytes stamp) := by
  obtain ⟨stamp, hentry⟩ := hstands
  have hchange := h (c.target.names ++ rel)
  rw [hentry] at hchange
  generalize t'.at? (c.target.names ++ rel) = e' at hchange
  cases hchange with
  | same => exact ⟨stamp, rfl⟩
  | put stamp' hcopies' hl _ =>
    obtain rfl := List.append_cancel_left hl
    exact ⟨stamp', by rw [hcopies.eq hcopies']⟩

/-- A tree that is met while the directory is copied. -/
structure Meets (c : Transfer) (t : Tree) : Prop where
  /-- It is proper. -/
  proper : t.IsProper
  /-- The tree of the start turned into it. -/
  turns : c.Turns c.start t

/-- The directory is as it was. -/
theorem Meets.source_eq (hc : c.IsProper) (h : c.Meets t) (rel : List String) :
    t.at? (c.source.names ++ rel) = c.start.at? (c.source.names ++ rel) := by
  have hsource : c.source.names <+: c.source.names ++ rel := List.prefix_append _ _
  have hchange := h.turns (c.source.names ++ rel)
  generalize c.start.at? (c.source.names ++ rel) = e, t.at? (c.source.names ++ rel) = e' at hchange
  cases hchange with
  | same => rfl
  | made _ hl => exact (hc.not_isPrefix (hsource.trans hl) (List.prefix_append _ _)).elim
  | put _ _ hl _ => exact (hc.not_isPrefix hsource (hl ▸ List.prefix_append _ _)).elim

/-- Files stand in the way of the copy of a directory if they did at the start. -/
theorem Meets.clear_iff (hc : c.IsProper) (h : c.Meets t) (hrel : c.HasDirectory rel) :
    t.Clear (c.target.names ++ rel) ↔ c.start.Clear (c.target.names ++ rel) := by
  constructor
  · intro hclear m hm bytes stamp hentry
    have hchange := h.turns m
    rw [hentry] at hchange
    have hafter := hclear m hm
    generalize t.at? m = e' at hchange hafter
    cases hchange with
    | same => exact hafter _ _ rfl
    | put => exact hafter _ _ rfl
  · intro hclear m hm bytes stamp hentry
    have hchange := h.turns m
    rw [hentry] at hchange
    have hbefore := hclear m hm
    generalize c.start.at? m = e at hchange hbefore
    cases hchange with
    | same => exact hbefore _ _ rfl
    | put _ hcopies hl _ =>
      -- What lies above the copy of a directory is no copy of a file.
      rw [hl] at hm
      obtain rfl :=
        hcopies.hasFile.eq_of_above hc hrel.ne_none ((List.prefix_append_right_inj _).1 hm)
      exact Tree.not_hasFile_of_directory hrel hcopies.hasFile

/-- A directory stands in the place of the copy of a file if it did at the start. -/
theorem Meets.directory_iff (hc : c.IsProper) (h : c.Meets t) (hrel : c.HasFile rel) :
    t.at? (c.target.names ++ rel) = some .directory ↔
      c.start.at? (c.target.names ++ rel) = some .directory := by
  have hchange := h.turns (c.target.names ++ rel)
  generalize c.start.at? (c.target.names ++ rel) = e, t.at? (c.target.names ++ rel) = e' at hchange
  cases hchange with
  | same => exact Iff.rfl
  | made hdirectory hl =>
    obtain rfl := hrel.eq_of_above hc hdirectory.ne_none ((List.prefix_append_right_inj _).1 hl)
    exact absurd hrel (Tree.not_hasFile_of_directory hdirectory)
  | put _ _ _ he =>
      exact ⟨fun hdirectory => (by cases hdirectory), fun hdirectory => absurd hdirectory he⟩

/-! ## What steps yield -/

/-- Copying nothing accounts for no file. -/
theorem Accounts.none (t : Tree) : c.Accounts ∅ .none t :=
  ⟨fun _ h => h.elim, fun _ h => h.elim, fun _ h => (by cases h), fun _ h => by cases h⟩

/-- What is told first goes on to hold, and adds up with what is told then. -/
theorem Accounts.append {rels rels' : Set (List String)} {x x' : Copied} (h : c.Accounts rels x t)
    (hturns : c.Turns t t') (h' : c.Accounts rels' x' t') :
    c.Accounts (rels ∪ rels') (x.append x') t' where
  copied rel hrel bytes hcopies := by
    rcases hrel with hrel | hrel
    · obtain ⟨hwritten, hstands⟩ := h.copied rel hrel bytes hcopies
      exact ⟨List.mem_append_left _ hwritten, hturns.holds hcopies hstands⟩
    · obtain ⟨hwritten, hstands⟩ := h'.copied rel hrel bytes hcopies
      exact ⟨List.mem_append_right _ hwritten, hstands⟩
  reported rel hrel hfails := by
    rcases hrel with hrel | hrel
    · obtain ⟨message, hmem⟩ := h.reported rel hrel hfails
      exact ⟨message, List.mem_append_left _ hmem⟩
    · obtain ⟨message, hmem⟩ := h'.reported rel hrel hfails
      exact ⟨message, List.mem_append_right _ hmem⟩
  written p hp := by
    rcases List.mem_append.1 hp with hp | hp
    · obtain ⟨rel, hrel, hcopied⟩ := h.written p hp
      exact ⟨rel, .inl hrel, hcopied⟩
    · obtain ⟨rel, hrel, hcopied⟩ := h'.written p hp
      exact ⟨rel, .inr hrel, hcopied⟩
  errors e he := by
    rcases List.mem_append.1 he with he | he
    · obtain ⟨rel, hrel, hfails⟩ := h.errors e he
      exact ⟨rel, .inl hrel, hfails⟩
    · obtain ⟨rel, hrel, hfails⟩ := h'.errors e he
      exact ⟨rel, .inr hrel, hfails⟩

/-- Only names under which there are files count. -/
theorem Accounts.congr {rels rels' : Set (List String)} {x : Copied} (h : c.Accounts rels x t)
    (hiff : ∀ rel, c.HasFile rel → (rel ∈ rels' ↔ rel ∈ rels)) : c.Accounts rels' x t where
  copied rel hrel bytes hcopies := h.copied rel ((hiff rel hcopies.hasFile).1 hrel) bytes hcopies
  reported rel hrel hfails := h.reported rel ((hiff rel hfails.file).1 hrel) hfails
  written p hp := by
    obtain ⟨rel, hrel, bytes, hcopies, heq⟩ := h.written p hp
    exact ⟨rel, (hiff rel hcopies.hasFile).2 hrel, bytes, hcopies, heq⟩
  errors e he := by
    obtain ⟨rel, hrel, hfails, hmessage⟩ := h.errors e he
    exact ⟨rel, (hiff rel hfails.file).2 hrel, hfails, hmessage⟩

/-- How a step ends that gets somewhere if and only if `P` holds: with an account of some files, or
with a fault. -/
inductive Ends (c : Transfer) (P : Prop) (rels : Set (List String)) (t : Tree) :
    Except Fault Copied → Prop where
  /-- It gets somewhere. -/
  | ok {x : Copied} (passes : P) (accounts : c.Accounts rels x t) : Ends c P rels t (.ok x)
  /-- It does not. -/
  | error {fault : Fault} (stops : ¬P) : Ends c P rels t (.error fault)

/-- From any tree on the way a step leads to another, and ends so. -/
def Yields (c : Transfer) (P : Prop) (rels : Set (List String)) (a : Action σ Copied) : Prop :=
  ∀ s, c.Meets s.tree → s.place.room.brackets = c.brackets →
    (a s).2.tree.IsProper ∧ c.Turns s.tree (a s).2.tree ∧ c.Ends P rels (a s).2.tree (a s).1

variable {P P' : Prop} {rels rels' : Set (List String)} {a a' : Action σ Copied}

/-- How a step ends depends on its condition only up to equivalence, and on which files it accounts
for. -/
theorem Ends.congr {x : Except Fault Copied} (h : c.Ends P rels t x) (hP : P' ↔ P)
    (hiff : ∀ rel, c.HasFile rel → (rel ∈ rels' ↔ rel ∈ rels)) : c.Ends P' rels' t x := by
  cases h with
  | ok passes accounts => exact .ok (hP.2 passes) (accounts.congr hiff)
  | error stops => exact .error fun h => stops (hP.1 h)

/-- Two steps one after the other get somewhere if both do, and account for the files of both. -/
theorem Yields.append (ha : c.Yields P rels a) (hwithin : a.Within Session.Precedes)
    (ha' : c.Yields P' rels' a') :
    c.Yields (P ∧ P') (rels ∪ rels') (do
      let first ← a
      let rest ← a'
      return first.append rest) := by
  intro s hs hroom
  obtain ⟨hproper, hturns, hends⟩ := ha s hs hroom
  have hplace := (hwithin s).place
  rcases hfirst : a s with ⟨fault | first, s₁⟩ <;> rw [hfirst] at hproper hturns hends hplace
  · cases hends with
    | error stops =>
      rw [bind_apply_error hfirst]
      exact ⟨hproper, hturns, .error fun h => stops h.1⟩
  cases hends with
  | ok passes accounts =>
    obtain ⟨hproper', hturns', hends'⟩ :=
      ha' s₁ ⟨hproper, hs.turns.trans hturns⟩ (by rw [hplace, hroom])
    rw [bind_apply_ok hfirst]
    rcases hrest : a' s₁ with ⟨fault | rest, s₂⟩ <;> rw [hrest] at hproper' hturns' hends'
    · cases hends' with
      | error stops =>
        rw [bind_apply_error hrest]
        exact ⟨hproper', hturns.trans hturns', .error fun h => stops h.2⟩
    · cases hends' with
      | ok passes' accounts' =>
        rw [bind_apply_ok hrest]
        exact ⟨hproper', hturns.trans hturns',
          .ok ⟨passes, passes'⟩ (accounts.append hturns' accounts')⟩

/-! ## Files -/

/-- A file lies elsewhere than its copy. -/
theorem IsProper.ne (hc : c.IsProper) (rel : List String) :
    (c.source.descend rel).names ≠ (c.target.descend rel).names := by
  intro heq
  have hprefix : c.target.names <+: (c.target.descend rel).names := List.prefix_append _ _
  exact hc.not_isPrefix (List.prefix_append _ _) (heq ▸ hprefix)

/-- A document that is nested too deep ends the copying where it is to be made compact. -/
theorem copyFile_of_not_isFlat (hc : c.IsProper) (hs : c.Meets s.tree)
    (hroom : s.place.room.brackets = c.brackets) (hfile : c.HasFile rel)
    (hfits : (c.source.descend rel).Fits) (hflat : ¬c.IsFlat rel) :
    copyFile .onTree c.optimized (c.source.descend rel)
      (c.target.descend rel) s = (.error .tooNested, s) := by
  have hnames := notMem_of_stands hc hfile.ne_none
  unfold IsFlat at hflat
  push Not at hflat
  obtain ⟨read, stamp, hentry, hoptimized, hname, text, htext, hdeep⟩ := hflat
  rw [copyFile_apply (hc.source.descend hnames) hfits (hc.target.descend hnames) hs.proper
    ((hs.source_eq hc _).trans hentry) (hc.ne rel) c.optimized, hoptimized, hroom,
    copied_of_nested hname htext hdeep]

/-- A file is put where its copy belongs if it can be copied. Otherwise there is a fault of the tree
or of the form. -/
theorem copyFile_cases (hc : c.IsProper) (hs : c.Meets s.tree)
    (hroom : s.place.room.brackets = c.brackets) {name : String} (hdirectory : c.HasDirectory rel)
    (hpasses : c.Passes rel) (hfile : c.HasFile (rel ++ [name]))
    (hfits : (c.source.descend (rel ++ [name])).Fits) (hflat : c.IsFlat (rel ++ [name])) :
    ∃ x s', copyFile .onTree c.optimized (c.source.descend (rel ++ [name]))
      (c.target.descend (rel ++ [name])) s = (x, s') ∧
      s'.tree.IsProper ∧ c.Turns s.tree s'.tree ∧
      ((x = .ok ⟨⟩ ∧ ∃ bytes, c.Copies (rel ++ [name]) bytes ∧
          ∃ stamp, s'.tree.at? (c.target.names ++ (rel ++ [name])) = some (.file bytes stamp)) ∨
        c.Fails (rel ++ [name]) ∧ ∃ fault, x = .error fault ∧
          (fault.isOfTree || fault.isOfForm) = true) := by
  have hnames := notMem_of_stands hc hfile.ne_none
  have hsource := hc.source.descend hnames
  have htarget := hc.target.descend hnames
  have hparent := Path.parent_descend_concat c.target rel name
  obtain ⟨read, stamp, hentry⟩ := hfile
  -- What does not give the bytes of a copy fails.
  have hfails : (∀ bytes, ¬c.Copies (rel ++ [name]) bytes) → c.Fails (rel ++ [name]) :=
    fun h => ⟨⟨read, stamp, hentry⟩, h⟩
  rw [copyFile_apply hsource hfits htarget hs.proper ((hs.source_eq hc _).trans hentry)
    (hc.ne _) c.optimized, hparent, hroom]
  cases hcopied : copied c.brackets c.optimized (c.source.descend (rel ++ [name])) read with
  | error fault =>
    refine ⟨_, _, rfl, hs.proper, .refl _, .inr ⟨hfails fun bytes h => ?_, fault, rfl, ?_⟩⟩
    · obtain ⟨read', stamp', hentry', hcopied'⟩ := h.content
      cases hentry.symm.trans hentry'
      rw [hcopied] at hcopied'
      cases hcopied'
    · rw [isOfForm_of_copied hcopied (hflat read stamp hentry), Bool.or_true]
  | ok bytes =>
    obtain ⟨hmakes, hclear⟩ := hpasses.directory hdirectory
    have hgrounded := hc.target.descend (notMem_of_stands hc hdirectory.ne_none)
    -- The directory of the copy is made, or is there.
    obtain ⟨t, hmake, hgrows, hstands⟩ :=
      (Action.makesDirectory_makeDirectories (σ := σ) hgrounded hmakes).clear s
        ((hs.clear_iff hc hdirectory).2 hclear)
    have hmade := Action.isProper_makeDirectories hgrounded hs.proper
    rw [hmake] at hmade
    have hturns : c.Turns s.tree t := turns_of_grows hdirectory hgrows
    have ht : c.Meets t := ⟨hmade, hs.turns.trans hturns⟩
    have hleads : t.Leads (c.target.descend (rel ++ [name])).names := by
      rw [← hparent] at hstands
      exact hstands.leads_of_dropLast
    have hfree := ht.directory_iff hc (show c.HasFile (rel ++ [name]) from ⟨read, stamp, hentry⟩)
    simp only
    rw [bind_apply_ok hmake]
    rcases putCopy_cases (s := { s with tree := t }) htarget hleads c.optimized
      (c.source.descend (rel ++ [name]))
        bytes with ⟨hfits', hfree', hput⟩ | ⟨hnot, fault, hput, hfault⟩ <;> rw [hput]
    · have hcopies : c.Copies (rel ++ [name]) bytes :=
        ⟨⟨read, stamp, hentry, hcopied⟩, hfits', fun h => hfree' (hfree.2 h)⟩
      have hroot : (c.target.descend (rel ++ [name])).names ≠ [] :=
        fun h => hfree' (by rw [h, Tree.at_root])
      exact ⟨_, _, rfl, hmade.put hroot htarget.descends hleads hfree' _,
        hturns.trans (turns_put hcopies hfree' _),
        .inl ⟨rfl, bytes, hcopies, _, Tree.at_put_self _ _ hroot⟩⟩
    · refine ⟨_, _, rfl, hmade, hturns,
        .inr ⟨hfails fun bytes' h => hnot ⟨h.fits, fun hblocked => ?_⟩, _, rfl, ?_⟩⟩
      · exact h.free (hfree.1 hblocked)
      · exact hfault

/-- A file is copied or reported, and neither ends the copying, unless it is a document that is
nested too deep. -/
theorem yields_tryFile (hc : c.IsProper) {name : String} (hdirectory : c.HasDirectory rel)
    (hpasses : c.Passes rel) (hfile : c.HasFile (rel ++ [name]))
    (hfits : (c.source.descend (rel ++ [name])).Fits) :
    c.Yields (c.IsFlat (rel ++ [name])) {rel ++ [name]}
      (tryFile .onTree c.optimized (c.source.descend (rel ++ [name]))
        (c.target.descend (rel ++ [name])) : Action σ Copied) := by
  intro s hs hroom
  unfold tryFile
  rw [bind_apply_ok (Action.attempt_apply _ s)]
  by_cases hflat : c.IsFlat (rel ++ [name])
  case neg =>
    rw [copyFile_of_not_isFlat hc hs hroom hfile hfits hflat]
    exact ⟨hs.proper, .refl _, .error hflat⟩
  obtain ⟨x, s', hcopy, hproper, hturns, hends⟩ :=
    copyFile_cases hc hs hroom hdirectory hpasses hfile hfits hflat
  rw [hcopy]
  rcases hends with ⟨rfl, bytes, hcopies, hstands⟩ | ⟨hfails, fault, rfl, hreported⟩
  · -- The file is copied, so that it fails in no way.
    refine ⟨hproper, hturns, .ok hflat ⟨?_, ?_, ?_, fun e he => by cases he⟩⟩
    · intro rel' hrel' bytes' hcopies'
      obtain rfl := hrel'
      rw [hcopies.eq hcopies']
      exact ⟨List.mem_singleton_self _, hstands⟩
    · intro rel' hrel' hfails
      obtain rfl := hrel'
      exact absurd hcopies (hfails.none bytes)
    · intro p hp
      exact ⟨_, rfl, bytes, hcopies, List.mem_singleton.1 hp⟩
  · -- The file is reported, so that no copy of it is told.
    simp only [hreported, if_true]
    refine ⟨hproper, hturns, .ok hflat ⟨?_, ?_, fun p hp => (by cases hp), ?_⟩⟩
    · intro rel' hrel' bytes hcopies
      obtain rfl := hrel'
      exact absurd hcopies (hfails.none bytes)
    · intro rel' hrel' _
      obtain rfl := hrel'
      exact ⟨fault.message, List.mem_singleton_self _⟩
    · intro e he
      exact ⟨_, rfl, hfails, fault.message, List.mem_singleton.1 he⟩

/-! ## Directories -/

/-- What stands in a directory stands in one of its entries. -/
theorem exists_name (hc : c.IsProper) (hstands : c.start.at? (c.source.names ++ rel') ≠ Option.none)
    (h : rel <+: rel') (hne : rel' ≠ rel) : ∃ name, rel ++ [name] <+: rel' ∧
    c.start.at? (c.source.names ++ (rel ++ [name])) ≠ Option.none := by
  obtain ⟨below, rfl⟩ := h
  cases below with
  | nil => exact absurd (List.append_nil rel) hne
  | cons name below =>
    have hprefix : rel ++ [name] <+: rel ++ name :: below :=
      (List.prefix_append_right_inj _).2 (List.prefix_append [name] below)
    refine ⟨name, hprefix, ?_⟩
    by_cases heq : rel ++ [name] = rel ++ name :: below
    · rwa [heq]
    · exact (hasDirectory_of_above hc hstands hprefix heq).ne_none

/-- Copying gets past a file if the system takes its path and it is not nested too deep. -/
theorem passesBelow_iff_of_hasFile (hc : c.IsProper) (hfile : c.HasFile rel) :
    c.PassesBelow rel ↔ (c.source.descend rel).Fits ∧ c.IsFlat rel := by
  constructor
  · intro h
    have hpasses := h rel (List.prefix_refl _) hfile.ne_none
    exact ⟨hpasses.fits, hpasses.flat⟩
  · rintro ⟨hfits, hflat⟩ rel' hrel' hstands
    obtain rfl := hfile.eq_of_above hc hstands hrel'
    exact ⟨hfits, fun hdirectory => absurd hfile (Tree.not_hasFile_of_directory hdirectory), hflat⟩

/-- A directory is no document. -/
theorem HasDirectory.isFlat (h : c.HasDirectory rel) : c.IsFlat rel := by
  intro read stamp hentry
  rw [show c.start.at? (c.source.names ++ rel) = some .directory from h] at hentry
  cases hentry

/-- Copying gets past a directory if it gets past the directory itself and past what stands in
it. -/
theorem passesBelow_iff_of_hasDirectory (hc : c.IsProper) (hdirectory : c.HasDirectory rel) :
    c.PassesBelow rel ↔ c.Passes rel ∧
      ∀ name, c.start.at? (c.source.names ++ (rel ++ [name])) ≠ Option.none →
        c.PassesBelow (rel ++ [name]) := by
  constructor
  · exact fun h => ⟨h rel (List.prefix_refl _) hdirectory.ne_none, fun name _ rel' hrel' =>
      h rel' ((List.prefix_append _ _).trans hrel')⟩
  · rintro ⟨hself, hbelow⟩ rel' hrel' hstands
    by_cases hne : rel' = rel
    · rwa [hne]
    · obtain ⟨name, hname, hthere⟩ := exists_name hc hstands hrel' hne
      exact hbelow name hthere rel' hname hstands

/-- Whether a directory stands at a path in the directory is told if the system takes the path. -/
theorem isDirectory_cases (hc : c.IsProper) (hwhole : c.IsWhole) (hs : c.Meets s.tree)
    (hstands : c.start.at? (c.source.names ++ rel) ≠ Option.none) :
    ((c.source.descend rel).Fits ∧ s.isDirectory (c.source.descend rel) =
        .ok ((c.start.at? (c.source.names ++ rel)).any Tree.Entry.isDirectory)) ∨
      ¬(c.source.descend rel).Fits ∧ ∃ fault, s.isDirectory (c.source.descend rel) =
        .error fault := by
  have hsource := hc.source.descend (notMem_of_stands hc hstands)
  by_cases hfits : (c.source.descend rel).Fits
  · refine .inl ⟨hfits, ?_⟩
    rw [Session.isDirectory_eq hsource hfits (hs.proper.sound _), ← hs.source_eq hc rel]
    rfl
  · refine .inr ⟨hfits, .tree .tooLong (c.source.descend rel), ?_⟩
    obtain ⟨e, he⟩ := Option.ne_none_iff_exists'.1 hstands
    have hleads : s.tree.Leads (c.source.descend rel).names :=
      hs.proper.sound _ e ((hs.source_eq hc rel).trans he)
    unfold Session.isDirectory Session.probe
    rw [Tree.probe_of_not_fits hsource (hwhole rel hstands) hleads hfits]
    rfl

/-- An entry of a directory is copied with all that lies below it. -/
theorem yields_copyEntry (hc : c.IsProper) (hwhole : c.IsWhole) (hdirectory : c.HasDirectory rel)
    (hpasses : c.Passes rel) {inner : String → Action σ Copied} {name : String}
    (hinner : c.HasDirectory (rel ++ [name]) →
      c.Yields (c.PassesBelow (rel ++ [name])) {rel' | rel ++ [name] <+: rel'} (inner name))
    (hname : c.start.at? (c.source.names ++ (rel ++ [name])) ≠ Option.none) :
    c.Yields (c.PassesBelow (rel ++ [name])) {rel' | rel ++ [name] <+: rel'}
      (copyEntryBy .onTree (tryFile .onTree c.optimized) inner (c.source.descend rel)
        (c.target.descend rel) name) := by
  intro s hs hroom
  unfold copyEntryBy
  rw [bind_apply, Action.observe_apply, Path.child_descend, Path.child_descend,
    show (FileStore.onTree : FileStore σ).isDirectory = Session.isDirectory from rfl]
  rcases isDirectory_cases hc hwhole hs hname with ⟨hfits, htold⟩ | ⟨hfits, fault, htold⟩ <;>
    rw [htold]
  · rcases hentry : c.start.at? (c.source.names ++ (rel ++ [name])) with _ | ⟨_ | _⟩
    case none => exact absurd hentry hname
    case some.directory => exact hinner hentry s hs hroom
    case some.file bytes stamp =>
      have hfile : c.HasFile (rel ++ [name]) := ⟨bytes, stamp, hentry⟩
      obtain ⟨hproper, hturns, hends⟩ :=
        yields_tryFile hc hdirectory hpasses hfile hfits s hs hroom
      refine ⟨hproper, hturns, hends.congr ?_ fun rel' hrel' => ?_⟩
      · rw [passesBelow_iff_of_hasFile hc hfile, and_iff_right hfits]
      · -- Below the file there are no other files.
        refine ⟨fun hbelow => ?_, fun heq => ?_⟩
        · exact (hfile.eq_of_above hc hrel'.ne_none hbelow).symm
        · rw [Set.mem_singleton_iff.1 heq]
          exact List.prefix_refl _
  · refine ⟨hs.proper, .refl _, .error fun h => hfits ?_⟩
    exact (h _ (List.prefix_refl _) hname).fits

/-- Entries of a directory are copied one after the other. -/
theorem yields_copyEntries (hc : c.IsProper) (hwhole : c.IsWhole) (hdirectory : c.HasDirectory rel)
    (hpasses : c.Passes rel) {inner : String → Action σ Copied}
    (hwithin : ∀ name, (inner name).Within Session.Precedes)
    (hinner : ∀ name, c.HasDirectory (rel ++ [name]) →
      c.Yields (c.PassesBelow (rel ++ [name])) {rel' | rel ++ [name] <+: rel'} (inner name))
    {names : List String}
    (hnames : ∀ name ∈ names, c.start.at? (c.source.names ++ (rel ++ [name])) ≠ Option.none) :
    c.Yields (∀ name ∈ names, c.PassesBelow (rel ++ [name]))
      {rel' | ∃ name ∈ names, rel ++ [name] <+: rel'}
        (copyEntries .onTree c.optimized inner (c.source.descend rel)
          (c.target.descend rel) names) := by
  -- On the list: the account of the first entry comes before that of the rest.
  induction names with
  | nil =>
    intro s hs _
    refine ⟨hs.proper, .refl _,
      .ok (fun _ h => by cases h) ((Accounts.none _).congr fun rel' _ => ?_)⟩
    exact ⟨fun ⟨_, h, _⟩ => (by cases h), fun h => h.elim⟩
  | cons name rest ih =>
    obtain ⟨hname, hrest⟩ := List.forall_mem_cons.1 hnames
    have hfirst := yields_copyEntry hc hwhole hdirectory hpasses (hinner name) hname
    have hwithin' : (copyEntryBy .onTree (tryFile .onTree c.optimized) inner
        (c.source.descend rel) (c.target.descend rel) name).Within Session.Precedes :=
      copyEntryBy_within (hwithin name)
        (tryFile_within FileStore.precedes_onTree Session.precedes_log c.optimized _ _)
    rw [copyEntries_cons]
    intro s hs hroom
    obtain ⟨hproper, hturns, hends⟩ := hfirst.append hwithin' (ih hrest) s hs hroom
    refine ⟨hproper, hturns, hends.congr List.forall_mem_cons fun rel' _ => ?_⟩
    show (∃ n ∈ name :: rest, rel ++ [n] <+: rel') ↔
      rel ++ [name] <+: rel' ∨ ∃ n ∈ rest, rel ++ [n] <+: rel'
    simp only [List.mem_cons, exists_eq_or_imp]

/-- The names in a directory are told if the system takes its path. -/
theorem names_cases (hc : c.IsProper) (hs : c.Meets s.tree) (hdirectory : c.HasDirectory rel) :
    ((c.source.descend rel).Fits ∧ ∃ names, s.names? (c.source.descend rel) = .ok names ∧
        ∀ name, name ∈ names ↔ c.start.at? (c.source.names ++ (rel ++ [name])) ≠ Option.none) ∨
      ¬(c.source.descend rel).Fits ∧ ∃ fault, s.names? (c.source.descend rel) = .error fault := by
  have hsource := hc.source.descend (notMem_of_stands hc hdirectory.ne_none)
  have hentry : s.tree.at? (c.source.descend rel).names = some .directory :=
    (hs.source_eq hc rel).trans hdirectory
  by_cases hfits : (c.source.descend rel).Fits
  · have hinspect : s.inspect (c.source.descend rel) =
        .ok ((c.source.descend rel).names, .directory) :=
      (Session.inspect_eq_ok_iff hsource).2 ⟨hfits, rfl, hs.proper.sound _ _ hentry, hentry⟩
    refine .inl ⟨hfits, _, Session.names?_eq_ok_iff.2 ⟨_, hinspect, rfl⟩, fun name => ?_⟩
    rw [Tree.mem_names_iff, ← hs.source_eq hc, ← List.append_assoc]
    exact Iff.rfl
  · refine .inr ⟨hfits, ?_⟩
    cases hlisted : s.names? (c.source.descend rel) with
    | error fault => exact ⟨fault, rfl⟩
    | ok names =>
      obtain ⟨l, hinspect, -⟩ := Session.names?_eq_ok_iff.1 hlisted
      exact absurd ((Session.inspect_eq_ok_iff hsource).1 hinspect).1 hfits

/-- A directory is copied to the end if and only if copying gets past all in it, and then each file
in it is accounted for. -/
theorem yields_copyTree (hc : c.IsProper) (hwhole : c.IsWhole) (hdirectory : c.HasDirectory rel)
    (depth : Nat) (hdepth : depth + rel.length = pathLimit + 1) :
    c.Yields (c.PassesBelow rel) {rel' | rel <+: rel'}
      (copyTree .onTree c.optimized depth (c.source.descend rel) (c.target.descend rel) :
        Action σ Copied) := by
  have htarget := hc.target.descend (notMem_of_stands hc hdirectory.ne_none)
  -- The induction is on the depth that is left, which is enough for every path that the system
  -- takes.
  induction depth generalizing rel with
  | zero =>
    refine fun s hs _ => ⟨hs.proper, .refl _, .error fun h => ?_⟩
    have hlength :=
      (((h rel (List.prefix_refl _) hdirectory.ne_none).directory hdirectory).1).length_lt htarget
    have hnames : (c.target.descend rel).names.length = c.target.names.length + rel.length :=
      List.length_append
    omega
  | succ depth ih =>
    intro s hs hroom
    obtain ⟨r, t, hensure, hgrows, hok, htotal⟩ := Action.ensureDirectory_spec htarget s
    have hmade := Action.isProper_ensureDirectory htarget hs.proper
    rw [hensure] at hmade
    have hturns : c.Turns s.tree t := turns_of_grows hdirectory hgrows
    have ht : c.Meets t := ⟨hmade, hs.turns.trans hturns⟩
    rw [copyTree_succ_apply, hensure]
    cases r with
    | error fault =>
      refine ⟨hmade, hturns, .error fun h => ?_⟩
      obtain ⟨hfits', hclear⟩ :=
        (h rel (List.prefix_refl _) hdirectory.ne_none).directory hdirectory
      cases htotal hfits' ((hs.clear_iff hc hdirectory).2 hclear)
    | ok u =>
      obtain ⟨hfits', hstands⟩ := hok rfl
      have hclear := (ht.clear_iff hc hdirectory).1 hstands.clear
      dsimp only
      rcases names_cases (s := { s with tree := t }) hc ht hdirectory with
        ⟨hfits, names, hlisted, hnames⟩ | ⟨hfits, fault, hlisted⟩ <;> rw [hlisted]
      · have hpasses : c.Passes rel := ⟨hfits, fun _ => ⟨hfits', hclear⟩, hdirectory.isFlat⟩
        have hwithin : ∀ name,
          (copyTree .onTree c.optimized depth ((c.source.descend rel).child name)
            ((c.target.descend rel).child name) : Action σ Copied).Within Session.Precedes :=
          fun name =>
            copyTree_within FileStore.precedes_onTree Session.precedes_log c.optimized depth _ _
        have hinner : ∀ name, c.HasDirectory (rel ++ [name]) →
          c.Yields (c.PassesBelow (rel ++ [name]))
            {rel' | rel ++ [name] <+: rel'}
              (copyTree .onTree c.optimized depth ((c.source.descend rel).child name)
              ((c.target.descend rel).child name) : Action σ Copied) := by
          intro name hname
          rw [Path.child_descend, Path.child_descend]
          refine ih hname ?_ (hc.target.descend (notMem_of_stands hc hname.ne_none))
          rw [List.length_append, List.length_singleton]
          omega
        obtain ⟨hproper, hturns', hends⟩ :=
          yields_copyEntries hc hwhole hdirectory hpasses hwithin hinner
            (fun name hname => (hnames name).1 hname) { s with tree := t } ht hroom
        refine ⟨hproper, hturns.trans hturns',
          hends.congr ?_ fun rel' hrel' => ⟨fun hbelow => ?_, ?_⟩⟩
        · rw [passesBelow_iff_of_hasDirectory hc hdirectory, and_iff_right hpasses]
          exact forall_congr' fun name => by rw [hnames]
        · have hne : rel' ≠ rel := by
            rintro rfl
            exact Tree.not_hasFile_of_directory hdirectory hrel'
          obtain ⟨name, hname, hthere⟩ := exists_name hc hrel'.ne_none hbelow hne
          exact ⟨name, (hnames name).2 hthere, hname⟩
        · rintro ⟨name, -, hname⟩
          exact (List.prefix_append _ _).trans hname
      · refine ⟨hmade, hturns, .error fun h => hfits ?_⟩
        exact (h rel (List.prefix_refl _) hdirectory.ne_none).fits

/-- Copying gets past all in a directory if it gets past the directory and past what the tree lists
in it. -/
theorem isPassable_iff : c.IsPassable ↔ c.HasDirectory [] ∧ c.Passes [] ∧
    ∀ l ∈ c.start.entries.map Prod.fst, c.source.names <+: l →
      c.Passes (l.drop c.source.names.length) := by
  constructor
  · rintro ⟨hdirectory, hpasses⟩
    refine ⟨hdirectory, hpasses [] List.nil_prefix hdirectory.ne_none, ?_⟩
    rintro _ hl ⟨rel, rfl⟩
    rw [List.drop_left]
    refine hpasses rel List.nil_prefix ?_
    by_cases hroot : c.source.names ++ rel = []
    · rw [hroot, Tree.at_root]
      exact Option.some_ne_none _
    · exact (Tree.at_ne_none_iff hroot).2 hl
  · rintro ⟨hdirectory, hself, hlisted⟩
    refine ⟨hdirectory, fun rel _ hstands => ?_⟩
    by_cases hroot : c.source.names ++ rel = []
    · rwa [(List.append_eq_nil_iff.1 hroot).2]
    · have hpasses := hlisted _ ((Tree.at_ne_none_iff hroot).1 hstands) (List.prefix_append _ _)
      rwa [List.drop_left] at hpasses

instance (c : Transfer) (rel : List String) : Decidable (c.HasDirectory rel) :=
  inferInstanceAs (Decidable (_ = _))

/-- Whether a JSON document that is to be made compact is not nested too deep. -/
def isFlat (c : Transfer) (rel : List String) : Bool :=
  match c.start.at? (c.source.names ++ rel) with
  | some (.file read _) =>
    !(c.optimized && isDocument (c.source.descend rel)) ||
      (Session.textOf read).toOption.all fun text => decide (Json.nesting text ≤ c.brackets)
  | _ => true

/-- Whether a document is not nested too deep can be evaluated. -/
theorem isFlat_iff : c.isFlat rel = true ↔ c.IsFlat rel := by
  unfold isFlat IsFlat
  cases hentry : c.start.at? (c.source.names ++ rel) with
  | none => simp
  | some e =>
    cases e with
    | directory => simp
    | file read stamp =>
      cases htext : Session.textOf read <;> cases c.optimized <;>
        cases hname : isDocument (c.source.descend rel) <;>
        simp_all [Except.toOption]

instance (c : Transfer) (rel : List String) : Decidable (c.Passes rel) :=
  decidable_of_iff ((c.source.descend rel).Fits ∧
    (c.HasDirectory rel → (c.target.descend rel).Fits ∧ c.start.Clear (c.target.names ++ rel)) ∧
      c.isFlat rel = true)
    ⟨fun h => ⟨h.1, h.2.1, isFlat_iff.1 h.2.2⟩, fun h => ⟨h.fits, h.directory, isFlat_iff.2 h.flat⟩⟩

instance (c : Transfer) : Decidable c.IsPassable := decidable_of_iff' _ isPassable_iff

/-- If copying gets past everything in a directory, then all paths in it can be given to the system.
-/
theorem IsPassable.isWhole (h : c.IsPassable) : c.IsWhole :=
  fun rel hstands => (h.passes rel List.nil_prefix hstands).fits.whole

/-- Where no directory stands none is copied. -/
theorem copyTree_of_not_hasDirectory (hc : c.IsProper) (hdirectory : ¬c.HasDirectory [])
    (hstart : s.tree = c.start) (depth : Nat) :
    ∃ fault s', copyTree .onTree c.optimized depth c.source c.target s = (.error fault, s') := by
  cases depth with
  | zero => exact ⟨_, _, rfl⟩
  | succ depth =>
    obtain ⟨r, t, hensure, hgrows, -⟩ := Action.ensureDirectory_spec hc.target s
    rw [copyTree_succ_apply, hensure]
    cases r with
    | error fault => exact ⟨_, _, rfl⟩
    | ok u =>
      dsimp only
      cases hlisted : Session.names? { s with tree := t } c.source with
      | error fault => exact ⟨_, _, rfl⟩
      | ok names =>
        exfalso
        obtain ⟨l, hinspect, -⟩ := Session.names?_eq_ok_iff.1 hlisted
        obtain ⟨-, -, -, hentry⟩ := (Session.inspect_eq_ok_iff hc.source).1 hinspect
        refine hdirectory ?_
        rw [HasDirectory, List.append_nil, ← hstart, ← hentry]
        exact (hgrows.at_eq_of_not hc.outside).symm

end Transfer

/-- An asset directory is copied to the end if and only if it is there and copying gets past all in
it. Then each file in it is accounted for. -/
theorem copy_accounts {c : Transfer} (directory : Path) {a : AssetDirectory} (hc : c.IsProper)
    (hstart : s.tree = c.start) (hroom : s.place.room.brackets = c.brackets)
    (hsource : a.source = c.source) (htarget : Output.path s.place directory a.target = c.target) :
    (c.IsPassable → ∃ x s', copy .onTree directory c.optimized a s = (.ok x, s') ∧
      c.Accounts Set.univ x s'.tree) ∧
      (¬c.IsPassable → c.IsWhole → ∃ fault s', copy .onTree directory c.optimized a s =
        (.error fault, s')) := by
  have hmeets : c.Meets s.tree := by
    rw [hstart]
    exact ⟨hc.start, .refl _⟩
  unfold copy
  rw [bind_apply, Action.observe_apply]
  cases hlocate : Output.locate s.place directory a.target with
  | error fault =>
    -- The system does not take the path that stands for the copy.
    refine ⟨fun hpassable => ?_, fun _ _ => ⟨fault, s, rfl⟩⟩
    have hhome : Path.hasHome (Output.nameOf a.target) ≠ true := fun hhome => by
      obtain ⟨p, hp⟩ : ∃ p, Output.locate s.place directory a.target = .ok p :=
        Output.exists_locate_iff.2 hhome
      rw [hlocate] at hp
      cases hp
    obtain ⟨hfits, -⟩ :=
      (hpassable.passes [] List.nil_prefix hpassable.directory.ne_none).directory
        hpassable.directory
    rw [Path.descend_nil, ← htarget] at hfits
    exact absurd hfits (Output.not_fits_of_homeless (htarget ▸ hc.target) hhome)
  | ok target =>
  rw [← Output.path_of_locate hlocate, htarget, hsource]
  simp only
  -- The directory is the one that lies in itself under no names.
  have hyields : c.IsWhole → c.HasDirectory [] → c.Yields (c.PassesBelow []) {rel | [] <+: rel}
      (copyTree .onTree c.optimized (pathLimit + 1) c.source c.target : Action σ Copied) := by
    intro hwhole hdirectory
    have hyields := Transfer.yields_copyTree (σ := σ) hc hwhole hdirectory (pathLimit + 1) rfl
    rwa [Path.descend_nil, Path.descend_nil] at hyields
  constructor
  · intro hpassable
    obtain ⟨-, -, hends⟩ := hyields hpassable.isWhole hpassable.directory s hmeets hroom
    rcases hcopied : copyTree .onTree c.optimized (pathLimit + 1) c.source
      c.target s with ⟨fault | x, s₁⟩ <;>
      rw [hcopied] at hends
    · cases hends with
      | error stops => exact absurd hpassable.passes stops
    · cases hends with
      | ok passes accounts =>
        rw [bind_apply_ok hcopied]
        exact ⟨x, _, rfl, accounts.congr fun rel _ => iff_of_true trivial List.nil_prefix⟩
  · intro hnot hwhole
    have hfails : ∃ fault s', copyTree .onTree c.optimized (pathLimit + 1) c.source c.target s =
        (.error fault, s') := by
      by_cases hdirectory : c.HasDirectory []
      · obtain ⟨-, -, hends⟩ := hyields hwhole hdirectory s hmeets hroom
        rcases hcopied : copyTree .onTree c.optimized (pathLimit + 1) c.source
          c.target s with ⟨fault | x, s₁⟩ <;>
          rw [hcopied] at hends
        · exact ⟨fault, s₁, rfl⟩
        · cases hends with
          | ok passes _ => exact absurd ⟨hdirectory, passes⟩ hnot
      · exact Transfer.copyTree_of_not_hasDirectory hc hdirectory hstart _
    obtain ⟨fault, s', hcopied⟩ := hfails
    exact ⟨fault, s', bind_apply_error hcopied⟩

end Assets

end StaticSite
