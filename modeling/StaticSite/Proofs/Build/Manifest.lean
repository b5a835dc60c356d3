import StaticSite.Proofs.Tree.Common
import StaticSite.Chunk

/-!
# What is remembered of a chunk manifest

A lookup reads the manifest only if its stamp is not that of the last good read (`Chunk.listed`,
`loadManifest_eq`). As long as a stamp tells what the manifest holds (`Chunk.Tells`), nothing can be
seen of that: in any course of lookups and changes of the tree each lookup answers, fails and logs
what it would if nothing were remembered (`answers_eq_forgetfulAnswers`). What is remembered stays
true all along (`Chunk.Remembers`), be the manifest broken, removed or brought back on the way.
-/

namespace StaticSite

variable {σ : Type}

/-- The session with nothing remembered of the manifest. -/
def Session.forget (s : Session σ) : Session σ := { s with manifest := ⟨none, []⟩ }

namespace Chunk

variable {s : Session σ} {p cwd : Path}

/-! ## Loading a manifest -/

/-- What a manifest is taken to list in a session. -/
def listed (s : Session σ) (p : Path) : Except Fault Mapping :=
  match s.inspect p with
  | .error (.tree .missing _) => .ok []
  | .error fault => .error fault
  | .ok (_, .directory) => .error (.tree .isDirectory p)
  | .ok (_, .file bytes stamp) =>
    if s.manifest.stamp = some stamp then .ok s.manifest.chunks
    else Session.textOf bytes >>= manifestChunks s.place.room.brackets

/-- What is remembered of a manifest that was loaded in a session. -/
def remembered (s : Session σ) (p : Path) : ManifestMemory :=
  match s.inspect p, listed s p with
  | .ok (_, .file _ stamp), .ok chunks => ⟨some stamp, chunks⟩
  | _, _ => s.manifest

/-- What is logged when a manifest is loaded. -/
def noted (s : Session σ) (p : Path) : List Log.Line :=
  match s.inspect p with
  | .error (.tree .missing _) => [⟨.warning, .chunks, "Chunk manifest not found: " ++ p.toString⟩]
  | _ => []

/-- Where nothing can be looked at there is a cause. -/
theorem exists_cause_of_inspect {fault : Fault} (h : s.inspect p = .error fault) :
    ∃ cause, fault = .tree cause p := by
  unfold Session.inspect at h
  cases hcause : s.tree.inspect s.place.cwd p with
  | error cause =>
    rw [hcause] at h
    exact ⟨cause, (Except.error.inj h).symm⟩
  | ok found =>
    rw [hcause] at h
    cases h

/-- Loading a manifest answers what it lists, and remembers that. -/
theorem loadManifest_eq (p : Path) (s : Session σ) :
    loadManifest p s =
      (listed s p, { s with log := s.log ++ noted s p, manifest := remembered s p }) := by
  have hlog : s = { s with log := s.log ++ [], manifest := s.manifest } := by rw [List.append_nil]
  unfold loadManifest
  rw [bind_apply_ok (get_apply s)]
  rcases hinspect : s.inspect p with fault | ⟨l, e⟩
  · obtain ⟨cause, rfl⟩ := exists_cause_of_inspect hinspect
    cases cause with
    -- That there is none is no fault of a manifest.
    | missing =>
      simp only [listed, remembered, noted, hinspect]
      rfl
    | present | notDirectory | isDirectory | tooLong | nullCharacter =>
      simp only [listed, remembered, noted, hinspect]
      rw [← hlog]
      rfl
  · cases e with
    | directory =>
      simp only [listed, remembered, noted, hinspect]
      rw [← hlog]
      rfl
    | file bytes stamp =>
      by_cases hstamp : s.manifest.stamp = some stamp
      · simp only [listed, remembered, noted, hinspect, hstamp, if_true]
        rw [← hstamp, ← hlog]
        rfl
      · simp only [listed, remembered, noted, hinspect, hstamp, if_false]
        rw [bind_apply, liftM_apply]
        cases Session.textOf bytes >>= manifestChunks s.place.room.brackets with
        | error fault =>
          rw [← hlog]
        | ok chunks =>
          rw [List.append_nil]
          rfl

/-- The chunks of a manifest that holds some bytes with a stamp. -/
def listedIn (limit : Nat) (m : ManifestMemory) (bytes : ByteArray) (stamp : Stamp) :
    Except Fault Mapping :=
  if m.stamp = some stamp then .ok m.chunks else Session.textOf bytes >>= manifestChunks limit

/-- A manifest that is a file lists what its bytes say. -/
theorem listed_of_file {l : Location} {bytes : ByteArray} {stamp : Stamp}
    (h : s.inspect p = .ok (l, .file bytes stamp)) :
    listed s p = listedIn s.place.room.brackets s.manifest bytes stamp := by
  rw [listed, h, listedIn]

/-- A manifest lists the same in two sessions if it does where it is a file. -/
theorem listed_eq_of_listedIn {s' : Session σ} (hinspect' : s'.inspect p = s.inspect p)
    (h : ∀ l bytes stamp, s.inspect p = .ok (l, .file bytes stamp) →
      listedIn s'.place.room.brackets s'.manifest bytes stamp =
        listedIn s.place.room.brackets s.manifest bytes stamp) :
    listed s' p = listed s p := by
  rcases hinspect : s.inspect p with fault | ⟨l, e⟩
  · obtain ⟨cause, rfl⟩ := exists_cause_of_inspect hinspect
    rw [listed, listed, hinspect', hinspect]
    cases cause <;> rfl
  · cases e with
    | directory => rw [listed, listed, hinspect', hinspect]
    | file bytes stamp =>
      rw [listed_of_file hinspect, listed_of_file (hinspect'.trans hinspect)]
      exact h l bytes stamp hinspect

/-- A manifest that was loaded is taken to list the same as before. -/
theorem listed_remembered (s : Session σ) (p : Path) (log : List Log.Line) :
    listed { s with log, manifest := remembered s p } p = listed s p := by
  refine listed_eq_of_listedIn rfl fun l bytes stamp hinspect => ?_
  have hlisted := listed_of_file hinspect
  simp only
  cases hread : listedIn s.place.room.brackets s.manifest bytes stamp with
  | ok chunks =>
    have hmanifest : remembered s p = ⟨some stamp, chunks⟩ := by
      simp only [remembered, hinspect, hlisted, hread]
    rw [hmanifest, listedIn, if_pos rfl]
  | error fault =>
    have hmanifest : remembered s p = s.manifest := by
      simp only [remembered, hinspect, hlisted, hread]
    rw [hmanifest, hread]

/-- Looking up a chunk answers what the manifest lists for it, or what else is given. -/
theorem lookupInManifest_eq (p : Path) (fallback : Mapping) (name : String) (s : Session σ) :
    lookupInManifest p fallback name s =
      ((listed s p).map fun chunks => (lookup chunks name).or (lookup fallback name),
        { s with log := s.log ++ noted s p, manifest := remembered s p }) := by
  unfold lookupInManifest
  cases hlisted : listed s p with
  | error fault => rw [bind_apply_error (by rw [loadManifest_eq, hlisted])]; rfl
  | ok chunks =>
    rw [bind_apply_ok (by rw [loadManifest_eq, hlisted])]
    simp only [Except.map]
    cases lookup chunks name <;> rfl

/-! ## Stamps that tell the content -/

/-- What stands at the path of a manifest in a tree, if it is a file. -/
def content? (cwd p : Path) (t : Tree) : Option (ByteArray × Stamp) :=
  match t.inspect cwd p with
  | .ok (_, .file bytes stamp) => some (bytes, stamp)
  | _ => none

/-- The stamp of a manifest tells what it holds: in no two of some trees it has one stamp and two
contents. -/
def Tells (cwd p : Path) (trees : List Tree) : Prop :=
  ∀ x ∈ trees.filterMap (content? cwd p), ∀ y ∈ trees.filterMap (content? cwd p),
    x.2 = y.2 → x.1 = y.1

instance (cwd p : Path) (trees : List Tree) : Decidable (Tells cwd p trees) :=
  inferInstanceAs
    (Decidable (∀ x ∈ trees.filterMap (content? cwd p), ∀ y ∈ trees.filterMap (content? cwd p),
      x.2 = y.2 → x.1 = y.1))

/-- What is remembered of a manifest is what it lists in each of some trees in which it has the
remembered stamp. -/
def Remembers (p : Path) (trees : List Tree) (s : Session σ) : Prop :=
  ∀ x ∈ trees.filterMap (content? s.place.cwd p), s.manifest.stamp = some x.2 →
    (Session.textOf x.1 >>= manifestChunks s.place.room.brackets) = .ok s.manifest.chunks

/-- Nothing is remembered where nothing was read. -/
theorem remembers_forget (p : Path) (trees : List Tree) (s : Session σ) :
    Remembers p trees s.forget :=
  fun _ _ h => by cases h

/-- What stands at the path of a manifest in one of some trees is among their contents. -/
theorem mem_contents {trees : List Tree} (htree : s.tree ∈ trees) {l : Location} {bytes : ByteArray}
    {stamp : Stamp} (h : s.inspect p = .ok (l, .file bytes stamp)) :
    (bytes, stamp) ∈ trees.filterMap (content? s.place.cwd p) := by
  refine List.mem_filterMap.2 ⟨s.tree, htree, ?_⟩
  rw [content?, Session.inspect_iff.1 h]

/-- A manifest lists the same if nothing is remembered of it. -/
theorem listed_forget {trees : List Tree} (htree : s.tree ∈ trees) (h : Remembers p trees s) :
    listed s.forget p = listed s p := by
  refine listed_eq_of_listedIn rfl fun l bytes stamp hinspect => ?_
  have hread : listedIn s.forget.place.room.brackets s.forget.manifest bytes stamp =
      (Session.textOf bytes >>= manifestChunks s.place.room.brackets) := rfl
  rw [hread, listedIn]
  split
  · rename_i hstamp
    exact h _ (mem_contents htree hinspect) hstamp
  · rfl

/-- What is remembered of a manifest that was loaded is true. -/
theorem Remembers.load {trees : List Tree} (htells : Tells s.place.cwd p trees)
    (htree : s.tree ∈ trees) (h : Remembers p trees s) (log : List Log.Line) :
    Remembers p trees { s with log, manifest := remembered s p } := by
  rintro ⟨bytes', stamp'⟩ hx hstamp
  simp only at hstamp ⊢
  unfold remembered at hstamp ⊢
  split at hstamp
  · rename_i l bytes stamp chunks hinspect hlisted
    obtain rfl : stamp = stamp' := Option.some.inj hstamp
    -- The file that was read has the stamp, so that it holds the same.
    obtain rfl : bytes = bytes' := htells _ (mem_contents htree hinspect) _ hx rfl
    have hread := listed_forget htree h
    rw [hlisted, listed_of_file (s := s.forget) hinspect] at hread
    exact hread
  · exact h _ hx hstamp

/-! ## Courses of lookups -/

/-- What happens while a manifest is in use. -/
inductive Event where
  /-- The file of a chunk is looked up. -/
  | lookup (name : String)
  /-- The tree is turned into another. -/
  | change (tree : Tree)

/-- The trees that there are in the course of some events, the first apart. -/
def Event.trees : List Event → List Tree
  | [] => []
  | .lookup _ :: rest => trees rest
  | .change tree :: rest => tree :: trees rest

/-- What looking up a chunk tells: the answer or fault, and what is logged. -/
def told (p : Path) (fallback : Mapping) (name : String) (s : Session σ) :
    Except Fault (Option String) × List Log.Line :=
  let (x, s') := lookupInManifest p fallback name s
  (x, s'.log.drop s.log.length)

/-- What the lookups among some events tell, each remembering what those before it read. -/
def answers (p : Path) (fallback : Mapping) (s : Session σ) :
    List Event → List (Except Fault (Option String) × List Log.Line)
  | [] => []
  | .lookup name :: rest =>
      told p fallback name s :: answers p fallback (lookupInManifest p fallback name s).2 rest
  | .change tree :: rest => answers p fallback { s with tree } rest

/-- What the lookups among some events tell if nothing is ever remembered. -/
def forgetfulAnswers (p : Path) (fallback : Mapping) (s : Session σ) :
    List Event → List (Except Fault (Option String) × List Log.Line)
  | [] => []
  | .lookup name :: rest => told p fallback name s.forget :: forgetfulAnswers p fallback s rest
  | .change tree :: rest => forgetfulAnswers p fallback { s with tree } rest

/-- A lookup tells what the manifest lists, and what is logged when it is loaded. -/
theorem told_eq (p : Path) (fallback : Mapping) (name : String) (s : Session σ) :
    told p fallback name s =
      ((listed s p).map fun chunks => (lookup chunks name).or (lookup fallback name),
        noted s p) := by
  rw [told, lookupInManifest_eq]
  simp only [List.drop_left]

/-- What lookups tell when nothing is remembered depends on the place and the tree alone. -/
theorem forgetfulAnswers_congr (fallback : Mapping) {s' : Session σ} (hplace : s'.place = s.place)
    (htree : s'.tree = s.tree) (events : List Event) :
    forgetfulAnswers p fallback s' events = forgetfulAnswers p fallback s events := by
  induction events generalizing s s' with
  | nil => rfl
  | cons e rest ih =>
    cases e with
    | lookup name =>
      have hinspect : s'.forget.inspect p = s.forget.inspect p := by
        simp only [Session.inspect, Session.forget, hplace, htree]
      have htold : told p fallback name s'.forget = told p fallback name s.forget := by
        have hroom : s'.forget.place.room = s.forget.place.room := by
          simp only [Session.forget, hplace]
        rw [told_eq, told_eq, listed, listed, noted, noted, hinspect, hroom]
        rfl
      rw [forgetfulAnswers, forgetfulAnswers, htold, ih hplace htree]
    | change tree => exact ih hplace rfl

/-- What lookups tell is what they would if nothing were remembered, wherever what is remembered is
true. -/
theorem answers_eq_of_remembers (fallback : Mapping) {trees : List Tree}
    (htells : Tells s.place.cwd p trees) (htree : s.tree ∈ trees) (h : Remembers p trees s)
    {events : List Event} (hevents : Event.trees events ⊆ trees) :
    answers p fallback s events = forgetfulAnswers p fallback s events := by
  -- Each event leaves what is remembered true.
  induction events generalizing s with
  | nil => rfl
  | cons e rest ih =>
    cases e with
    | lookup name =>
      have htold : told p fallback name s = told p fallback name s.forget := by
        rw [told_eq, told_eq, listed_forget htree h]
        rfl
      rw [answers, forgetfulAnswers, htold, lookupInManifest_eq]
      have hremembers := h.load htells htree (s.log ++ noted s p)
      generalize hloaded : { s with log := s.log ++ noted s p, manifest := remembered s p } = s₁
        at hremembers ⊢
      have hplace : s₁.place = s.place := by rw [← hloaded]
      have htree₁ : s₁.tree = s.tree := by rw [← hloaded]
      rw [ih (by rwa [hplace]) (by rwa [htree₁]) hremembers hevents,
        forgetfulAnswers_congr fallback hplace htree₁]
    | change tree =>
      obtain ⟨hmem, hrest⟩ := List.cons_subset.1 hevents
      exact ih htells hmem h hrest

/-- From a session in which nothing is remembered of a manifest on, every lookup answers, fails and
logs what it would if nothing were remembered still, whatever is done to the tree between lookups,
if the stamp of the manifest tells what it holds in all the trees that there are on the way. -/
theorem answers_eq_forgetfulAnswers (fallback : Mapping) (hnew : s.manifest = ⟨none, []⟩)
    {events : List Event} (htells : Tells s.place.cwd p (s.tree :: Event.trees events)) :
    answers p fallback s events = forgetfulAnswers p fallback s events := by
  have hforgot : s.forget = s := by rw [Session.forget, ← hnew]
  refine answers_eq_of_remembers fallback htells List.mem_cons_self ?_ (List.subset_cons_self _ _)
  rw [← hforgot]
  exact remembers_forget p _ s

namespace Sample

/-- The path of a manifest. -/
def manifest : Path := ⟨.absolute, ["m.json"]⟩

/-- The tree with a manifest that was written at a time. -/
def holding (text : String) (time : Int) : Tree :=
  ⟨[(["m.json"], .file (Text.encode text) (.given time))]⟩

/-- A manifest is written, broken, repaired, removed, turned into a list and brought back as it was
at first. -/
def course : List Event := [
  .lookup "main", .change (holding "\x7b\"main\": [\"m.1.js\"]\x7d" 1), .lookup "main",
  .lookup "main", .change (holding "\x7b\"main\": " 2), .lookup "main",
    .change (holding "\x7b\"main\": \"m.2.js\"\x7d" 3),
  .lookup "main", .change ⟨[]⟩, .lookup "main", .change (holding "[1]" 4), .lookup "main",
  .change (holding "\x7b\"main\": [\"m.1.js\"]\x7d" 1), .lookup "main"]

/-- A session in which there is no manifest yet. -/
def session : Session Unit := .start ⟨[]⟩ ⟨⟨.absolute, []⟩, "/home", .usual⟩ ⟨2024, 5, 6⟩ ()

end Sample

open Sample in
/-- In the sample the lookups that remember the manifest tell what those that do not tell. -/
theorem answers_eq_forgetfulAnswers_sample :
    session.manifest = ⟨none, []⟩ ∧
      Tells session.place.cwd manifest (session.tree :: Event.trees course) ∧
      answers manifest [] session course = forgetfulAnswers manifest [] session course := by
  have htells : Tells session.place.cwd manifest (session.tree :: Event.trees course) := by
    decide +kernel
  exact ⟨rfl, htells, answers_eq_forgetfulAnswers [] rfl htells⟩

end Chunk

end StaticSite
