import Mathlib.Data.Set.Insert
import StaticSite.Proofs.Build.Entry
import StaticSite.Proofs.Build.Manifest
import StaticSite.Proofs.Include.Locality
import StaticSite.Proofs.Tree.Common

/-!
# Parts of which calls fail

`Builder.failing` works with the parts that a build uses by default, of which some calls fail. Such
a build is quite like one without failures: what an entry is drafted into depends on which calls
fail, on the texts that are read for it, on the names of the stylesheets that it links and on what
the chunk manifest lists, if it has chunks (`Entry.draft_congr`); and the draft is written unless a
call fails or the tree does not accept the file (`Output.write_failing`). So two sessions that agree
in these make the same of an entry (`Entry.build_congr`), and what else a build may do to a session
is said by `Entry.build_frame`.
-/

namespace StaticSite

variable {σ α β : Type}

/-- A call of a part that a site is built with. -/
inductive Call where
  /-- The text of a file is read. -/
  | readText (p : Path)
  /-- A path is looked at. -/
  | isDirectory (p : Path)
  /-- A directory is listed. -/
  | names (p : Path)
  /-- A text is written. -/
  | writeText (p : Path) (text : String)
  /-- A directory is made. -/
  | ensureDirectory (p : Path)
  /-- A file is copied. -/
  | copyFile (source target : Path)
  /-- A stylesheet is compiled. -/
  | compile (source : Path) (optimized : Bool)
  /-- A compiled stylesheet is worked on. -/
  | postProcess (css : List Char)
  /-- A page is minified. -/
  | minify (text : List Char) (options : Mapping)
  /-- The file of a chunk is looked up. -/
  | chunkFile (name : String)

/-- Which calls fail, and with what. -/
abbrev Faults := Call → Option Fault

/-- Fails where a call does. -/
def Faults.check (f : Faults) (c : Call) : Except Fault Unit :=
  match f c with
  | some fault => .error fault
  | none => .ok ()

/-- The store that works on the tree, of which some calls fail. No removal does. -/
def FileStore.failing (f : Faults) : FileStore σ where
  readText s p := do
    f.check (.readText p)
    s.readText p
  isDirectory s p := do
    f.check (.isDirectory p)
    s.isDirectory p
  names s p := do
    f.check (.names p)
    s.names? p
  writeText p text := do
    liftM (f.check (.writeText p text))
    FileStore.onTree.writeText p text
  ensureDirectory p := do
    liftM (f.check (.ensureDirectory p))
    FileStore.onTree.ensureDirectory p
  removeDirectory := FileStore.onTree.removeDirectory
  copyFile source target := do
    liftM (f.check (.copyFile source target))
    FileStore.onTree.copyFile source target

/-- The parts that a build uses where none are supplied from outside, of which some calls fail. -/
def Collaborators.failing (settings : Settings) (f : Faults) : Collaborators σ where
  store := .failing f
  compile source optimized := do
    liftM (f.check (.compile source optimized))
    Style.compile (.failing f) settings.includes.depthLimit source optimized
  postProcess css := do
    liftM (f.check (.postProcess css))
    return css
  minify page options := do
    liftM (f.check (.minify page options))
    return Markup.minify (.ofMapping options) page
  chunkFile name := do
    liftM (f.check (.chunkFile name))
    Chunk.lookupFor settings name

/-- The builder that works with parts of which some calls fail. -/
def Builder.failing (b : Builder σ) (f : Faults) : Builder σ :=
  { b with parts := .failing b.settings f }

/-- A store in which no call fails is that of the tree. -/
theorem FileStore.failing_none : (failing fun _ => none : FileStore σ) = onTree := by
  have hcheck : ∀ c, Faults.check (fun _ => none) c = pure ⟨⟩ := fun _ => rfl
  unfold failing
  simp only [hcheck, pure_bind]
  rfl

/-- Faults change nothing in the settings. -/
@[simp] theorem Builder.failing_settings (b : Builder σ) (f : Faults) :
    (b.failing f).settings = b.settings := rfl

/-- Where no call fails, the parts are those that a build uses by default. -/
theorem Collaborators.failing_none (settings : Settings) :
    (failing settings fun _ => none : Collaborators σ) = standard settings := by
  have hcheck : ∀ c, (liftM (Faults.check (fun _ => none) c) : Action σ Unit) = pure ⟨⟩ :=
    fun _ => rfl
  unfold failing standard
  simp only [hcheck, pure_bind, FileStore.failing_none]

/-- What follows a call is done if the call does not fail. -/
theorem Faults.check_bind_apply (f : Faults) (c : Call) (a : Action σ α) (s : Session σ) :
    (liftM (f.check c) >>= fun _ => a : Action σ α) s = match f c with
      | some fault => (.error fault, s)
      | none => a s := by
  unfold check
  cases f c <;> rfl

/-- Texts that are the same are read alike, whatever fails. -/
theorem FileStore.failing_readText_congr (f : Faults) {s s' : Session σ} {q : Path}
    (h : s'.readText q = s.readText q) :
    (failing f : FileStore σ).readText s' q = (failing f : FileStore σ).readText s q := by
  simp only [failing, h]

/-- A store in which some calls fail leaves alone what is known of the builds. -/
theorem FileStore.isFiling_failing (f : Faults) : (failing f : FileStore σ).IsFiling where
  writeText p text := (Action.Within.liftM _).bind fun _ => isFiling_onTree.writeText p text
  ensureDirectory p := (Action.Within.liftM _).bind fun _ => isFiling_onTree.ensureDirectory p
  removeDirectory := isFiling_onTree.removeDirectory
  removes := isFiling_onTree.removes
  copyFile source target :=
    (Action.Within.liftM _).bind fun _ => isFiling_onTree.copyFile source target

/-- Whichever calls fail, no part touches what the session knows of its builds. -/
theorem Collaborators.isFiling_failing (settings : Settings) (f : Faults) :
    (failing settings f : Collaborators σ).IsFiling where
  store := FileStore.isFiling_failing f
  compile source optimized := (Action.Within.liftM _).bind fun _ =>
    Style.isFiling_compile (.failing f) settings.includes.depthLimit source optimized
  postProcess _ := (Action.Within.liftM _).bind fun _ => .pure _
  minify _ _ := (Action.Within.liftM _).bind fun _ => .pure _
  chunkFile name :=
    (Action.Within.liftM _).bind fun _ => (isFiling_standard settings).chunkFile name

/-! ## Writing -/

/-- No call fails that writes a text to an output file. -/
structure Faults.Permits (f : Faults) (target : Path) (text : String) : Prop where
  /-- The directory is made. -/
  directory : f (.ensureDirectory target.parent) = none
  /-- The text is written. -/
  text : f (.writeText target text) = none

/-- An output file is written if no call fails and the tree accepts it, and nothing else changes. -/
theorem Output.write_failing (f : Faults) (directory : Path) (filename text : String)
    {s : Session σ} (hcwd : s.place.cwd.isAbsolute = true) :
    ∃ x t clock log, write (.failing f) directory filename text s =
      (x, { s with tree := t, clock, log }) ∧
      Tree.ChangedOnly {(path s.place directory filename).names} s.tree t ∧
      ∀ p, x = .ok p ↔ p = path s.place directory filename ∧
        f.Permits (path s.place directory filename) text ∧
        s.tree.Accepts (path s.place directory filename) := by
  rcases locate_cases hcwd directory filename with hlocate | ⟨⟨fault, hlocate⟩, hrefused⟩
  case inr =>
    have hwrite : write (.failing f) directory filename text s = (.error fault, s) := by
      unfold write
      rw [bind_apply, Action.observe_apply, hlocate]
    exact ⟨_, s.tree, s.clock, s.log, hwrite, .refl _ _,
      fun p => ⟨fun h => (by cases h), fun h => absurd h.2.2 (hrefused s.tree)⟩⟩
  generalize htarget : path s.place directory filename = target at hlocate ⊢
  have hp : target.IsGrounded := htarget ▸ Path.isGrounded_output hcwd directory filename
  have hlocated : Action.observe (fun s : Session σ => locate s.place directory filename) s =
      (.ok target, s) := by
    rw [Action.observe_apply, hlocate]
  have hfailed : ∀ fault : Fault, ¬f.Permits target text ∨ ¬s.tree.Accepts target →
      ∀ p, (.error fault : Except Fault Path) = .ok p ↔ p = target ∧ f.Permits target text ∧
        s.tree.Accepts target := by
    intro fault h p
    refine ⟨fun h => (by cases h), fun ⟨_, hpermits, haccepts⟩ => ?_⟩
    rcases h with h | h
    · exact absurd hpermits h
    · exact absurd haccepts h
  have hwrite : write (.failing f) directory filename text s =
      (liftM (f.check (.ensureDirectory target.parent)) >>= fun _ =>
        FileStore.onTree.ensureDirectory target.parent >>= fun _ =>
        liftM (f.check (.writeText target text)) >>= fun _ =>
        FileStore.onTree.writeText target text >>= fun _ =>
        Action.say .debug .output ("Wrote " ++ target.toString) >>= fun _ => pure target) s := by
    unfold write
    rw [bind_apply_ok hlocated]
    simp only [FileStore.failing, bind_assoc]
  rw [hwrite, Faults.check_bind_apply]
  cases hensure : f (.ensureDirectory target.parent) with
  | some fault =>
    have hpermits : ¬f.Permits target text :=
      fun h => (by rw [h.directory] at hensure; cases hensure)
    exact ⟨_, s.tree, s.clock, s.log, rfl, .refl _ _, hfailed fault (.inl hpermits)⟩
  | none =>
    cases htext : f (.writeText target text) with
    | some fault =>
      -- The directories above may be made, which does not show at the file itself.
      have hpermits : ¬f.Permits target text := fun h => (by rw [h.text] at htext; cases htext)
      obtain ⟨r, t, hmake, hgrows, -⟩ := Action.ensureDirectory_spec hp.parent s
      cases r with
      | error fault' =>
        simp only
        rw [bind_apply_error (show FileStore.onTree.ensureDirectory target.parent s = _ from hmake)]
        exact ⟨_, t, s.clock, s.log, rfl, hgrows.changedOnly, hfailed fault' (.inl hpermits)⟩
      | ok u =>
        simp only
        rw [bind_apply_ok (show FileStore.onTree.ensureDirectory target.parent s = _ from hmake),
          Faults.check_bind_apply, htext]
        exact ⟨_, t, s.clock, s.log, rfl, hgrows.changedOnly, hfailed fault (.inl hpermits)⟩
    | none =>
      have hstandard : (FileStore.onTree.ensureDirectory target.parent >>= fun _ =>
          liftM (f.check (.writeText target text)) >>= fun _ =>
          FileStore.onTree.writeText target text >>= fun _ =>
          Action.say .debug .output ("Wrote " ++ target.toString) >>= fun _ =>
            pure target : Action σ Path) s =
              write .onTree directory filename text s := by
        unfold write
        rw [bind_apply_ok hlocated]
        simp only [Faults.check, htext]
        rfl
      simp only
      rw [hstandard]
      obtain ⟨t, clock, log, ⟨haccepts, hwrote, h⟩ | ⟨hrefused, hgrows, fault, h⟩⟩ :=
        write_spec directory filename text hcwd
      · rw [htarget] at h haccepts hwrote
        refine ⟨_, t, clock, log, h, hwrote.changedOnly, fun p => ?_⟩
        rw [Except.ok.injEq]
        exact ⟨fun h => ⟨h.symm, ⟨hensure, htext⟩, haccepts⟩, fun h => h.1.symm⟩
      · rw [htarget] at hrefused hgrows
        exact ⟨_, t, clock, log, h, hgrows.changedOnly, hfailed fault (.inr hrefused)⟩

/-! ## Looking up chunks -/

namespace Chunk

/-- The manifest of a site is taken to list the same. -/
def SameListed (settings : Settings) (s s' : Session σ) : Prop :=
  ∀ p, settings.manifest = some p → listed s' p = listed s p

instance (settings : Settings) : Std.Refl (SameListed settings : Session σ → Session σ → Prop) where
  refl _ _ _ := rfl

instance (settings : Settings) : IsTrans (Session σ) (SameListed settings) where
  trans _ _ _ h h' p hp := (h' p hp).trans (h p hp)

/-- A manifest lists the same where the same stands at it and above it, and the same is remembered
of it. -/
theorem listed_congr {s s' : Session σ} {p : Path} (hp : p.IsGrounded) (hfits : p.Fits)
    (hplace : s'.place = s.place) (hmanifest : s'.manifest = s.manifest)
    (hat : Tree.SameAt p.names s.tree s'.tree) (habove : Tree.SameAbove p.names s.tree s'.tree) :
    listed s' p = listed s p := by
  unfold listed
  rw [Session.inspect_congr_of_same hp hfits hplace hat habove, hmanifest, hplace]

end Chunk

/-- A session looks the same as an earlier one to whatever is built in it. -/
structure Session.SameView (settings : Settings) (s s' : Session σ) : Prop where
  /-- The place is the same. -/
  place : s'.place = s.place
  /-- The tree is the same. -/
  tree : s'.tree = s.tree
  /-- The names of stylesheets are the same. -/
  names : s'.names = s.names
  /-- The manifest lists the same. -/
  listed : Chunk.SameListed settings s s'

instance (settings : Settings) :
    Std.Refl (Session.SameView settings : Session σ → Session σ → Prop) where
  refl s := ⟨rfl, rfl, rfl, refl_of _ s⟩

instance (settings : Settings) : IsTrans (Session σ) (Session.SameView settings) where
  trans _ _ _ h h' := ⟨h'.place.trans h.place, h'.tree.trans h.tree, h'.names.trans h.names,
    trans_of _ h.listed h'.listed⟩

namespace Chunk

/-- Looking up a chunk changes nothing but the log and what is remembered of the manifest, which is
taken to list the same. -/
theorem lookupFor_spec (settings : Settings) (name : String) (s : Session σ) :
    ∃ x log manifest, lookupFor settings name s = (x, { s with log, manifest }) ∧
      SameListed settings s { s with log, manifest } ∧
      ∀ s' : Session σ, SameListed settings s s' → (lookupFor settings name s').1 = x := by
  unfold lookupFor
  cases hmanifest : settings.manifest with
  | none =>
    exact ⟨_, s.log, s.manifest, rfl, fun p hp => (by simp [hmanifest] at hp), fun _ _ => rfl⟩
  | some p =>
    simp only
    rw [lookupInManifest_eq]
    refine ⟨_, _, _, rfl, fun q hq => ?_, fun s' hsame => ?_⟩
    · rw [← Option.some.inj (hmanifest.symm.trans hq)]
      exact listed_remembered s p _
    · rw [lookupInManifest_eq, hsame p hmanifest]

end Chunk

namespace Rendering

open StaticSite.Action (Alike)

variable {R : Session σ → Session σ → Prop} {chunkFile : String → Action σ (Option String)}

/-- What is said in the log makes no difference. -/
theorem alike_say (hlog : ∀ s s' lines, R s s' →
    R { s with log := s.log ++ lines } { s' with log := s'.log ++ lines }) (level : Log.Level)
    (speaker : Log.Speaker) (message : String) :
        (Action.say level speaker message : Action σ Unit).Alike R :=
  fun s s' h => ⟨rfl, hlog s s' _ h⟩

/-- The tags of chunks are collected alike wherever files of chunks are looked up alike. -/
theorem scriptGroups_alike (hlog : ∀ s s' lines, R s s' →
    R { s with log := s.log ++ lines } { s' with log := s'.log ++ lines })
    {chunks : List ScriptChunk} (h : ∀ chunk ∈ chunks, (chunkFile chunk.name).Alike R)
    (groups : List ScriptGroup) :
    (scriptGroups chunkFile groups chunks).Alike R := by
  induction chunks generalizing groups with
  | nil => exact .pure _
  | cons chunk rest ih =>
    obtain ⟨hchunk, hrest⟩ := List.forall_mem_cons.1 h
    unfold scriptGroups
    refine hchunk.bind fun file? => ?_
    cases file?.filter (!·.isEmpty) with
    | some file => exact ih hrest _
    | none => exact (alike_say hlog _ _ _).bind fun _ => (ih hrest _).bind fun _ => .pure _

/-- Tags are inserted by their placement alike in any two sessions. -/
theorem insertGroups_alike (hlog : ∀ s s' lines, R s s' →
    R { s with log := s.log ++ lines } { s' with log := s'.log ++ lines })
    (page : List Char) (groups : List ScriptGroup) :
        (insertGroups page groups : Action σ (List Char)).Alike R := by
  induction groups generalizing page with
  | nil => exact .pure _
  | cons g rest ih =>
    unfold insertGroups
    split
    · exact ih _
    · split
      · exact ih _
      · exact (alike_say hlog _ _ _).bind fun _ => ih _

/-- The scripts of a page are inserted alike wherever files of chunks are looked up alike. -/
theorem insertScripts_alike (hlog : ∀ s s' lines, R s s' →
    R { s with log := s.log ++ lines } { s' with log := s'.log ++ lines })
    {chunks : List ScriptChunk} (h : ∀ chunk ∈ chunks, (chunkFile chunk.name).Alike R)
    (page : List Char) :
    (insertScripts chunkFile chunks page).Alike R :=
  (scriptGroups_alike hlog h []).bind fun _ => (insertGroups_alike hlog _ _).bind fun _ => .pure _

/-- The scripts of a page are added alike in sessions in which its chunks are looked up alike. -/
theorem withScripts_alike (hlog : ∀ s s' lines, R s s' →
    R { s with log := s.log ++ lines } { s' with log := s'.log ++ lines })
    {r : Renderer σ} {page : Page} {shared : Option Page}
    (hshared : ∀ chunk ∈ (shared.map (·.chunks)).getD [], (r.parts.chunkFile chunk.name).Alike R)
    (hown : ∀ chunk ∈ page.chunks, (r.parts.chunkFile chunk.name).Alike R) (bundle : Bundle)
    (text : List Char) :
    (withScripts r page shared bundle text).Alike R :=
  (insertScripts_alike hlog hshared text).bind fun _ =>
    (insertScripts_alike hlog hown _).bind fun _ => .pure _

end Rendering

namespace Builder.Entry

variable {b : Builder σ} {f : Faults}

/-- The files that are read for an entry while some calls fail, whether they are there or not. -/
def reads (b : Builder σ) (f : Faults) (s : Session σ) : Entry → List Path
  | style sheet =>
    match Style.importer b.settings.includes.depthLimit with
    | .ok x =>
        (x.resolve s.place ((FileStore.failing f).readText s)
          (Path.absolute s.place sheet.source.toString none)).2.reads
    | .error _ => []
  | page p =>
    match p.source with
    | some source => (b.expander.resolve s.place ((FileStore.failing f).readText s) source).2.reads
    | none => []

/-- The chunks that an entry has, itself or through the shared page. -/
def chunks (b : Builder σ) : Entry → List ScriptChunk
  | style _ => []
  | page p => (b.settings.shared?.map (·.chunks)).getD [] ++ p.chunks

/-- Names once an entry was drafted. -/
def namesFrom (e : Entry) (x : Except Fault Draft) (names : OutputNames) : OutputNames :=
  match e, x with
  | style sheet, .ok d => Style.named names sheet d.text
  | style _, .error _ | page _, _ => names

/-- Whether a compiled stylesheet can be worked on, which is done only if it is made for
visitors. -/
def finishing (b : Builder σ) (f : Faults) (c : CompiledStyle) : Except Fault Unit :=
  if b.settings.isOptimized then f.check (.postProcess c.css) else .ok ()

/-- What a stylesheet is drafted into once it is compiled. -/
def finishedDraft (b : Builder σ) (f : Faults) (sheet : Stylesheet) (place : Place)
    (c : CompiledStyle) :
    Except Fault Draft :=
  (finishing b f c).map fun _ => {
    filename := Style.writtenName sheet (String.ofList c.css)
    text := String.ofList c.css
    error := none
    warnings := []
    record :=
      ⟨sheet.source, .style, sheet.filename,
        c.loaded.map fun p => Path.absolute place p.toString none⟩ }

/-- A compiled stylesheet is finished in any session with one answer, which says whether the call
fails. -/
theorem finished_failing (c : CompiledStyle) (s : Session σ) :
    Style.finished (b.failing f).parts b.settings.isOptimized c.css s =
      ((finishing b f c).map fun _ => c.css, s) := by
  unfold Style.finished finishing
  by_cases hoptimized : b.settings.isOptimized = true
  · simp only [hoptimized, if_true]
    refine (Faults.check_bind_apply f (.postProcess c.css) (pure c.css) s).trans ?_
    unfold Faults.check
    cases f (.postProcess c.css) <;> rfl
  · simp only [hoptimized, Bool.false_eq_true, if_false]
    rfl

/-- Drafting a stylesheet compiles what is read and names the stylesheet. -/
theorem draft_style_failing {x : Expander}
    (hx : Style.importer b.settings.includes.depthLimit = .ok x) (sheet : Stylesheet)
    (s : Session σ) :
    ∃ d log, (style sheet).draft (b.failing f) s =
      (d, { s with log, names := (style sheet).namesFrom d s.names }) ∧
      d = (f.check (.compile sheet.source b.settings.isOptimized) >>= fun _ =>
        Style.compiled x s.place ((FileStore.failing f : FileStore σ).readText s) sheet.source
          b.settings.isOptimized >>=
          finishedDraft b f sheet s.place) := by
  obtain ⟨log, hcompile⟩ :=
    Style.compile_apply (.failing f) hx sheet.source b.settings.isOptimized s
  have hcall : (b.failing f).parts.compile sheet.source b.settings.isOptimized s = _ :=
    Faults.check_bind_apply f (.compile sheet.source b.settings.isOptimized) _ s
  simp only [draft, failing_settings, Faults.check]
  cases hfault : f (.compile sheet.source b.settings.isOptimized) with
  | some fault =>
    rw [hfault] at hcall
    exact ⟨.error fault, s.log, bind_apply_error hcall, rfl⟩
  | none =>
    simp only [hfault, hcompile] at hcall
    cases hcompiled : Style.compiled x s.place
      ((FileStore.failing f : FileStore σ).readText s) sheet.source
        b.settings.isOptimized with
    | error fault =>
      rw [hcompiled] at hcall
      exact ⟨.error fault, log, bind_apply_error hcall, rfl⟩
    | ok c =>
      rw [hcompiled] at hcall
      have hfinished := finished_failing (b := b) (f := f) c { s with log }
      rw [bind_apply_ok hcall]
      simp only [bind, Except.bind, finishedDraft]
      cases hfinishing : finishing b f c with
      | error fault =>
        rw [hfinishing] at hfinished
        exact ⟨.error fault, log, bind_apply_error hfinished, rfl⟩
      | ok u =>
        rw [hfinishing] at hfinished
        exact ⟨_, log, bind_apply_ok hfinished, rfl⟩

/-- Minifying a page either fails or gives a text, and changes nothing. -/
theorem minified_failing (content : List Char) (s : Session σ) :
    Rendering.minified (b.failing f).renderer content s =
      (if b.settings.isOptimized then
        (f.check (.minify content b.settings.minify)).map fun _ =>
          Markup.minify (.ofMapping b.settings.minify) content
      else .ok content, s) := by
  have hoptimized : (b.failing f).renderer.optimized = b.settings.isOptimized := rfl
  unfold Rendering.minified
  rw [hoptimized]
  by_cases h : b.settings.isOptimized = true
  · rw [if_pos h, if_pos h]
    refine (Faults.check_bind_apply f (.minify content b.settings.minify) _ s).trans ?_
    unfold Faults.check
    cases f (.minify content b.settings.minify) <;> rfl
  · rw [if_neg h, if_neg h]
    rfl

/-- Looking up a chunk, which may fail, changes nothing but the log and what is remembered of the
manifest. -/
theorem chunkFile_failing (name : String) (s : Session σ) :
    ∃ x log manifest, (b.failing f).renderer.parts.chunkFile name s =
      (x, { s with log, manifest }) ∧
      Chunk.SameListed b.settings s { s with log, manifest } ∧
      ∀ s' : Session σ, Chunk.SameListed b.settings s s' →
        ((b.failing f).renderer.parts.chunkFile name s').1 = x := by
  have hcall : ∀ s : Session σ, (b.failing f).renderer.parts.chunkFile name s = _ :=
    Faults.check_bind_apply f (.chunkFile name) (Chunk.lookupFor b.settings name)
  simp only [hcall]
  cases f (.chunkFile name) with
  | some fault => exact ⟨_, s.log, s.manifest, rfl, refl_of _ s, fun _ _ => rfl⟩
  | none => exact Chunk.lookupFor_spec b.settings name s

/-- Sessions in which the manifest lists the same stay so, and the same file is found for a
chunk. -/
theorem chunkFile_alike (name : String) :
    ((b.failing f).renderer.parts.chunkFile name).Alike (Chunk.SameListed b.settings) := by
  intro s s' h
  obtain ⟨x, log, manifest, hfile, hsame, hanswer⟩ := chunkFile_failing (b := b) (f := f) name s
  obtain ⟨x', log', manifest', hfile', hsame', -⟩ := chunkFile_failing (b := b) (f := f) name s'
  refine ⟨by rw [hanswer s' h, hfile], ?_⟩
  rw [hfile, hfile']
  intro p hp
  rw [hsame' p hp, h p hp, hsame p hp]

/-- A page is drafted into the same in two sessions in which the files that are read for it have the
same texts, the stylesheets that it links the same names, and the manifest lists the same, if it has
chunks. -/
theorem draft_page_congr {p : Page} {s s' : Session σ} (hplace : s'.place = s.place)
    (hnames : ∀ style, s'.names.lookup style = s.names.lookup style)
    (hreads : ∀ q ∈ (page p).reads b f s, s'.readText q = s.readText q)
    (hchunks : (page p).chunks b ≠ [] → Chunk.SameListed b.settings s s') :
    ((page p).draft (b.failing f) s').1 = ((page p).draft (b.failing f) s).1 := by
  simp only [draft]
  cases hsource : p.source with
  | none => rfl
  | some source =>
    simp only [failing_settings]
    have hresolve : b.expander.resolve s'.place ((FileStore.failing f).readText s') source =
        b.expander.resolve s.place ((FileStore.failing f).readText s) source := by
      rw [hplace]
      refine Expander.resolve_congr fun q hq _ => FileStore.failing_readText_congr f (hreads q ?_)
      simp only [reads, hsource]
      exact hq
    -- The answers of a page are those of its rendering.
    suffices hrender : (Rendering.render (b.failing f).renderer p b.settings.shared? s').1 =
        (Rendering.render (b.failing f).renderer p b.settings.shared? s).1 by
      rw [bind_apply, bind_apply]
      generalize Rendering.render (b.failing f).renderer p b.settings.shared? s = result,
        Rendering.render (b.failing f).renderer p b.settings.shared? s' = result' at hrender
      obtain ⟨x, s₁⟩ := result
      obtain ⟨x', s₁'⟩ := result'
      obtain rfl : x' = x := hrender
      cases x' <;> rfl
    rw [Rendering.render_eq_bind _ hsource, bind_apply_ok (Rendering.expandPage_apply _ source s),
      bind_apply_ok (Rendering.expandPage_apply _ source s')]
    have hbundle : ((b.failing f).renderer.expander.resolve s'.place
        ((b.failing f).renderer.parts.store.readText s') source).1 =
          ((b.failing f).renderer.expander.resolve s.place
            ((b.failing f).renderer.parts.store.readText s) source).1 :=
      congrArg Prod.fst hresolve
    rw [hbundle]
    generalize ((b.failing f).renderer.expander.resolve s.place
      ((b.failing f).renderer.parts.store.readText s) source).1 = bundle
    obtain ⟨x, hminified⟩ : ∃ x, ∀ s : Session σ,
        Rendering.minified (b.failing f).renderer bundle.content s = (x, s) :=
      ⟨_, minified_failing bundle.content⟩
    cases x with
    | error fault => rw [bind_apply_error (hminified _), bind_apply_error (hminified _)]
    | ok text =>
      rw [bind_apply_ok (hminified _), bind_apply_ok (hminified _), bind_apply_ok (get_apply _),
        bind_apply_ok (get_apply _),
        Rendering.withLinks_congr (fun style _ => hnames style) fun style _ => hnames style]
      -- The scripts are looked up in sessions in which the manifest lists the same, if there are
      -- any.
      have halike : ∀ chunk ∈ (page p).chunks b,
        ((b.failing f).renderer.parts.chunkFile chunk.name).Alike
          fun s s' => (page p).chunks b ≠ [] → Chunk.SameListed b.settings s s' := by
        intro chunk hchunk s s' h
        have hne : (page p).chunks b ≠ [] := List.ne_nil_of_mem hchunk
        obtain ⟨hanswer, hsame⟩ := chunkFile_alike (b := b) (f := f) chunk.name s s' (h hne)
        exact ⟨hanswer, fun _ => hsame⟩
      refine (Rendering.withScripts_alike (R := fun s s' => (page p).chunks b ≠ [] →
        Chunk.SameListed b.settings s s')
        (fun _ _ _ h => h) (fun chunk hchunk => halike chunk (List.mem_append_left _ hchunk))
        (fun chunk hchunk => halike chunk (List.mem_append_right _ hchunk)) bundle _ _ _ ?_).1
      exact hchunks

/-- A stylesheet is drafted alike in sessions of one place that read its files alike. -/
theorem draft_style_congr {sheet : Stylesheet} {s s' : Session σ} (hplace : s'.place = s.place)
    (hreads : ∀ q ∈ (style sheet).reads b f s, s'.readText q = s.readText q) :
    ((style sheet).draft (b.failing f) s').1 = ((style sheet).draft (b.failing f) s).1 := by
  obtain ⟨x, hx⟩ := Style.exists_importer b.settings.includes.depthLimit
  obtain ⟨d, log, hdraft, hd⟩ := draft_style_failing (f := f) hx sheet s
  obtain ⟨d', log', hdraft', hd'⟩ := draft_style_failing (f := f) hx sheet s'
  have hresolve : x.resolve s.place ((FileStore.failing f).readText s')
      (Path.absolute s.place sheet.source.toString none) =
        x.resolve s.place ((FileStore.failing f).readText s)
          (Path.absolute s.place sheet.source.toString none) := by
    refine Expander.resolve_congr fun q hq _ => FileStore.failing_readText_congr f (hreads q ?_)
    simp only [reads, hx]
    exact hq
  have hcompiled : Style.compiled x s.place ((FileStore.failing f).readText s') sheet.source
    b.settings.isOptimized =
      Style.compiled x s.place ((FileStore.failing f).readText s) sheet.source
        b.settings.isOptimized := by
    simp only [Style.compiled, hresolve]
  rw [hdraft, hdraft', hd, hd', hplace, hcompiled]

/-- An entry is drafted into the same in two sessions in which the files that are read for it have
the same texts, the stylesheets the same names, and the manifest lists the same, if the entry has
chunks. -/
theorem draft_congr (e : Entry) {s s' : Session σ} (hplace : s'.place = s.place)
    (hnames : ∀ style, s'.names.lookup style = s.names.lookup style)
    (hreads : ∀ q ∈ e.reads b f s, s'.readText q = s.readText q)
    (hchunks : e.chunks b ≠ [] → Chunk.SameListed b.settings s s') :
    (e.draft (b.failing f) s').1 = (e.draft (b.failing f) s).1 := by
  cases e with
  | style sheet => exact draft_style_congr hplace hreads
  | page p => exact draft_page_congr hplace hnames hreads hchunks

/-- Drafting an entry changes the names as it should, and otherwise nothing that is looked at. -/
theorem draft_frame (e : Entry) (s : Session σ) :
    (e.draft (b.failing f) s).2.place = s.place ∧ (e.draft (b.failing f) s).2.tree = s.tree ∧
      (e.draft (b.failing f) s).2.names = e.namesFrom (e.draft (b.failing f) s).1 s.names ∧
      Chunk.SameListed b.settings s (e.draft (b.failing f) s).2 := by
  cases e with
  | style sheet =>
    obtain ⟨x, hx⟩ := Style.exists_importer b.settings.includes.depthLimit
    obtain ⟨d, log, hdraft, -⟩ := draft_style_failing (f := f) hx sheet s
    rw [hdraft]
    exact ⟨rfl, rfl, rfl, fun _ _ => rfl⟩
  | page p =>
    have hrender : (Rendering.render (b.failing f).renderer p b.settings.shared?).Within
        (Session.SameView b.settings) := by
      refine Rendering.render_within (fun _ _ => ⟨rfl, rfl, rfl, fun _ _ => rfl⟩) ?_ ?_ p _
      · exact fun text options => (Action.Within.liftM _).bind fun _ => .pure _
      · intro name s
        obtain ⟨x, log, manifest, hfile, hsame, -⟩ := chunkFile_failing (b := b) (f := f) name s
        rw [hfile]
        exact ⟨rfl, rfl, rfl, hsame⟩
    have hdraft : ((page p).draft (b.failing f)).Within (Session.SameView b.settings) := by
      simp only [draft]
      cases p.source with
      | none => exact .throw _
      | some source => exact hrender.bind fun _ => .pure _
    obtain ⟨hplace, htree, hnames, hlisted⟩ := hdraft s
    exact ⟨hplace, htree, hnames, hlisted⟩

/-- The file that an entry is to be written to, if it can be drafted. -/
def outputs (b : Builder σ) (s : Session σ) : Entry → Set Location
  | style sheet => {l | ∃ d, ((style sheet).draft b s).1 = .ok d ∧
      l = (Output.path s.place b.settings.output d.filename).names}
  | page p => {(Output.path s.place b.settings.output (Rendering.outputName p)).names}

/-- The file of a draft is one of the outputs of its entry. -/
theorem mem_outputs {e : Entry} {s : Session σ} {d : Draft} (h : (e.draft b s).1 = .ok d) :
    (Output.path s.place b.settings.output d.filename).names ∈ e.outputs b s := by
  cases e with
  | style sheet => exact ⟨d, h, rfl⟩
  | page p =>
    have hdraft : (page p).draft b s = (.ok d, ((page p).draft b s).2) := Prod.ext h rfl
    obtain ⟨source, rendered, -, -, rfl⟩ := draft_page hdraft
    rfl

/-- An entry is built into the same in two sessions that agree in what it is drafted from, and in
which the same stands at the file that it is to be written to and above it. -/
theorem build_congr (e : Entry) {s s' : Session σ} (hcwd : s.place.cwd.isAbsolute = true)
    (hplace : s'.place = s.place) (hnames : ∀ style, s'.names.lookup style = s.names.lookup style)
    (hreads : ∀ q ∈ e.reads b f s, s'.readText q = s.readText q)
    (hchunks : e.chunks b ≠ [] → Chunk.SameListed b.settings s s')
    (hsame : ∀ l ∈ e.outputs (b.failing f) s, Tree.SameAt l s.tree s'.tree ∧
      Tree.SameAbove l s.tree s'.tree) :
    (e.build (b.failing f) s').1.toOption = (e.build (b.failing f) s).1.toOption := by
  have hdrafts := draft_congr e hplace hnames hreads hchunks
  obtain ⟨hplace₁, htree₁, -, -⟩ := draft_frame (b := b) (f := f) e s
  obtain ⟨hplace₁', htree₁', -, -⟩ := draft_frame (b := b) (f := f) e s'
  rw [build_apply, build_apply]
  rcases hdraft : e.draft (b.failing f) s with ⟨fault | d, s₁⟩ <;>
    rcases hdraft' : e.draft (b.failing f) s' with ⟨fault' | d', s₁'⟩ <;>
    rw [hdraft, hdraft'] at hdrafts
  · rfl
  · cases hdrafts
  · cases hdrafts
  · cases hdrafts
    rw [hdraft] at hplace₁ htree₁
    rw [hdraft'] at hplace₁' htree₁'
    obtain ⟨hat, habove⟩ :=
      hsame _ (mem_outputs (show (e.draft (b.failing f) s).1 = .ok d by rw [hdraft]))
    -- The file can be written in both sessions or in none.
    obtain ⟨x, t, clock, log, hwrite, -, hok⟩ :=
      Output.write_failing f b.settings.output d.filename d.text (s := s₁)
        (by rw [hplace₁]; exact hcwd)
    obtain ⟨x', t', clock', log', hwrite', -, hok'⟩ :=
      Output.write_failing f b.settings.output d.filename d.text (s := s₁')
        (by rw [hplace₁', hplace]; exact hcwd)
    rw [hplace₁, htree₁] at hok
    rw [hplace₁', hplace, htree₁'] at hok'
    have haccepts : s'.tree.Accepts (Output.path s.place b.settings.output d.filename) ↔
        s.tree.Accepts (Output.path s.place b.settings.output d.filename) :=
      ⟨fun h => ⟨h.fits, (Tree.writable_congr hat habove).1 h.writable⟩,
        fun h => ⟨h.fits, (Tree.writable_congr hat habove).2 h.writable⟩⟩
    have hanswers : x'.toOption = x.toOption := by
      refine Option.ext fun p => ?_
      rw [toOption_eq_some_iff, toOption_eq_some_iff, hok, hok', haccepts]
    simp only
    rw [show Output.write (b.failing f).parts.store (b.failing f).settings.output d.filename d.text
      s₁ = _ from hwrite, show Output.write (b.failing f).parts.store (b.failing f).settings.output
        d.filename d.text s₁' = _ from hwrite']
    cases x <;> cases x' <;> cases hanswers <;> rfl

/-- What building an entry may do to what others see: its file is written, and it is named if it is
a stylesheet. -/
structure Frame (b : Builder σ) (f : Faults) (e : Entry) (s s' : Session σ) : Prop where
  /-- The place is the same. -/
  place : s'.place = s.place
  /-- No other file is written. -/
  tree : Tree.ChangedOnly (e.outputs (b.failing f) s) s.tree s'.tree
  /-- The names are those that the draft leads to. -/
  names : s'.names = e.namesFrom (e.draft (b.failing f) s).1 s.names
  /-- The manifest lists the same unless something changed at it or above it. -/
  listed : ∀ m, b.settings.manifest = some m → m.IsGrounded → m.Fits →
    Tree.SameAt m.names s.tree s'.tree →
    Tree.SameAbove m.names s.tree s'.tree → Chunk.listed s' m = Chunk.listed s m

/-- Building an entry stays in its frame. -/
theorem build_frame (e : Entry) {s : Session σ} (hcwd : s.place.cwd.isAbsolute = true) :
    e.Frame b f s (e.build (b.failing f) s).2 := by
  obtain ⟨hplace, htree, hnames, hlisted⟩ := draft_frame (b := b) (f := f) e s
  rw [build_apply]
  rcases hdraft : e.draft (b.failing f) s with ⟨fault | d, s₁⟩ <;>
    rw [hdraft] at hplace htree hnames hlisted
  · refine ⟨hplace, ?_, ?_, fun m hm _ _ _ _ => hlisted m hm⟩
    · rw [htree]
      exact .refl _ _
    · rw [hdraft]
      exact hnames
  · obtain ⟨x, t, clock, log, hwrite, hchanged, -⟩ :=
      Output.write_failing f b.settings.output d.filename d.text (s := s₁)
        (by rw [hplace]; exact hcwd)
    have hframe : e.Frame b f s { s₁ with tree := t, clock, log } := by
      refine ⟨hplace, ?_, ?_, fun m hm hp hfits hat habove => ?_⟩
      · rw [htree, hplace] at hchanged
        refine hchanged.mono fun l hl => ?_
        rw [Set.mem_singleton_iff.1 hl]
        exact mem_outputs (show (e.draft (b.failing f) s).1 = .ok d by rw [hdraft])
      · rw [hdraft]
        exact hnames
      · rw [← hlisted m hm]
        exact Chunk.listed_congr hp hfits rfl rfl (htree ▸ hat) (htree ▸ habove)
    simp only
    rw [show Output.write (b.failing f).parts.store (b.failing f).settings.output d.filename d.text
      s₁ = _ from hwrite]
    cases x <;> exact hframe

/-- What looks the same after an entry was built shows no more of that. -/
theorem Frame.sameView {e : Entry} {s s₁ s₂ : Session σ} (h : e.Frame b f s s₁)
    (hview : Session.SameView b.settings s₁ s₂) : e.Frame b f s s₂ where
  place := hview.place.trans h.place
  tree := by
    rw [hview.tree]
    exact h.tree
  names := hview.names.trans h.names
  listed m hm hp hfits hat habove := by
    rw [hview.tree] at hat habove
    exact (hview.listed m hm).trans (h.listed m hm hp hfits hat habove)

/-- A name stays alike where the same is drafted, or a page. -/
theorem lookup_namesFrom_congr {e : Entry} {x x' : Except Fault Draft} {names names' : OutputNames}
    {style : Stylesheet} (h : names'.lookup style = names.lookup style)
    (hx : (∃ p, e = page p) ∨ x' = x) :
    (e.namesFrom x' names').lookup style = (e.namesFrom x names).lookup style := by
  cases e with
  | page p => exact h
  | style sheet =>
    obtain rfl : x' = x := hx.resolve_left fun ⟨p, hp⟩ => by cases hp
    cases x' with
    | error fault => exact h
    | ok d =>
      simp only [namesFrom, Style.named]
      split
      · by_cases hstyle : style = sheet
        · subst hstyle
          rw [OutputNames.lookup_set_self, OutputNames.lookup_set_self]
        · rw [OutputNames.lookup_set_of_ne _ _ hstyle, OutputNames.lookup_set_of_ne _ _ hstyle, h]
      · exact h

end Builder.Entry

end StaticSite
