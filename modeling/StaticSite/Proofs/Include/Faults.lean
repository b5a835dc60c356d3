import Mathlib.Data.List.Infix
import StaticSite.Proofs.Include.Unfolding
import StaticSite.Store

/-!
# How an expansion fails

An expansion fails with a fault of a read, or with one of three faults of its own (`IsFailure`,
`failsAs_expandFile`). The text that stands in place of a page that failed holds the wording of the
fault, and so does a line of the log (`resolve_tells`).
-/

namespace StaticSite

variable {α β : Type}

/-- A step fails with faults of a kind only. -/
def Expansion.FailsAs (Q : Fault → Prop) (a : Expansion α) : Prop :=
  ∀ t fault, (a t).1 = .error fault → Q fault

namespace Expansion

variable {Q : Fault → Prop}

/-- An answer is no fault. -/
theorem FailsAs.pure (y : α) : FailsAs Q (pure y) := fun _ _ h => by cases h

/-- A fault is one of the faults that it is said to be. -/
theorem FailsAs.throw {fault : Fault} (h : Q fault) : FailsAs Q (throw fault : Expansion α) := by
  intro t fault' h'
  cases h'
  exact h

/-- Two steps fail as each of them does. -/
theorem FailsAs.bind {a : Expansion α} {f : α → Expansion β} (ha : FailsAs Q a)
    (hf : ∀ y, FailsAs Q (f y)) :
    FailsAs Q (a >>= f) := by
  intro t fault h
  rw [bind_apply] at h
  rcases hstep : a t with ⟨fault' | y, t'⟩ <;> rw [hstep] at h
  · cases h
    exact ha t fault (by rw [hstep])
  · exact hf y t' fault h

end Expansion

namespace Expander

open Expansion (FailsAs)

/-- A fault with which an expansion may fail: one of a read, or one of its own. -/
inductive IsFailure (read : Reads) : Fault → Prop where
  /-- A file cannot be read. -/
  | read {p : Path} {fault : Fault} (h : read p = .error fault) : IsFailure read fault
  /-- An include names nothing. -/
  | emptyReference (container : Path) : IsFailure read (.emptyReference container)
  /-- A file includes itself. -/
  | circular (chain : List Path) (p : Path) : IsFailure read (.circular chain p)
  /-- A file is included at too great a depth. -/
  | tooDeep (limit : Int) (p : Path) : IsFailure read (.tooDeep limit p)

variable {x : Expander} {place : Place} {read : Reads} {root : Path}

/-- Fetching a text fails as reading a file does. -/
theorem failsAs_fetch (p : Path) : FailsAs (IsFailure read) (fetch read p) := by
  intro t fault h
  unfold fetch at h
  rw [bind_apply_ok (get_apply t)] at h
  cases hkept : t.texts.lookup p with
  | some text => rw [hkept] at h; cases h
  | none =>
    rw [hkept] at h
    dsimp only at h
    rw [bind_apply_ok (modify_apply _ t)] at h
    cases hread : read p with
    | ok text => rw [hread] at h; cases h
    | error cause =>
      rw [hread] at h
      cases h
      exact .read hread

/-- A visit to a file fails as an include does. -/
theorem failsAs_visit (p : Path) : FailsAs (IsFailure read) (visit root p) :=
  fun _ _ h => by cases h

/-- An included text fails as an include does. -/
theorem failsAs_included (chain : List Path) (reference : List Char) :
    FailsAs (IsFailure read) (included place root chain reference) := by
  unfold included
  refine .bind (fun t fault h => ?_) fun p => ?_
  · have hlift : (liftM (target place root (chain.head?.getD root) reference) : Expansion Path) t =
      _ := liftM_apply _ t
    rw [hlift] at h
    unfold target at h
    dsimp only at h
    split at h
    · cases h
      exact .emptyReference _
    · cases h
  · dsimp only
    split
    · exact .throw (.circular _ p)
    · exact .pure p

/-- A property fails as an include does. -/
theorem failsAs_property (name : List Char) : FailsAs (IsFailure read) (x.property name) := by
  intro t fault h
  obtain ⟨t', happly, -⟩ := property_apply (x := x) name t
  rw [happly] at h
  cases h

/-- Joining segments fails as inserting the files in them does. -/
theorem failsAs_join {insert : List Char → Expansion (List Char)}
    (hinsert : ∀ reference, FailsAs (IsFailure read) (insert reference)) (segments : List Segment) :
    FailsAs (IsFailure read) (x.join insert segments) := by
  induction segments with
  | nil => exact .pure []
  | cons segment rest ih =>
    have hfirst : FailsAs (IsFailure read) (x.replacement insert segment) := by
      match segment with
      | .text s => exact .pure s
      | .directive (.property name) raw => exact failsAs_property name
      | .directive (.file path) raw =>
        simp only [replacement]
        split
        · exact .pure raw
        · exact hinsert path
    rw [join_cons]
    exact hfirst.bind fun first => ih.bind fun second => .pure _

/-- An expansion fails as an include does. -/
theorem failsAs_expand (room : Nat) (chain : List Path) (text : List Char) :
    FailsAs (IsFailure read) (x.expand place read root room chain text) := by
  -- The induction is on the room, as in `unfolds_of_expand`.
  induction room generalizing chain text with
  | zero =>
    rw [expand_eq_join]
    exact failsAs_join
      (fun reference => (failsAs_included chain reference).bind fun p => .throw (.tooDeep _ p)) _
  | succ room ih =>
    rw [expand_eq_join]
    exact failsAs_join (fun reference => (failsAs_included chain reference).bind fun p =>
      (failsAs_fetch p).bind fun source => (failsAs_visit p).bind fun _ => ih (p :: chain) source) _

/-- An expansion fails with a fault of a read or with one of its own. -/
theorem failsAs_expandFile : FailsAs (IsFailure read) (x.expandFile place read root) :=
  (failsAs_fetch root).bind fun source => failsAs_expand _ _ source

/-- The wording of a fault stands in the text that is shown for it. -/
theorem isInfix_diagnostic (x : Expander) (message : String) :
    message.toList <:+: (x.diagnostic message).toList := by
  unfold diagnostic
  split
  · rename_i hempty
    rw [String.isEmpty_iff.1 hempty]
    exact List.nil_infix
  · simp only [String.toList_append, List.append_assoc]
    exact ⟨(x.name ++ " Exception:\n" ++ border ++ " ").toList, (" " ++ border).toList,
      by simp [String.toList_append]⟩

/-- What is told of a file that cannot be expanded: no dependencies, and the text in its place and a
line of the log hold the error, if reads fail with faults whose wording stands for them. -/
theorem resolve_tells (hread : ∀ p fault, read p = .error fault → fault.describe = fault.message)
    {message : String} (h : (x.resolve place read root).1.error = some message) :
    (x.resolve place read root).1.dependencies = [] ∧
      message.toList <:+: (x.resolve place read root).1.content ∧
      ∃ e ∈ (x.resolve place read root).2.log, e.level = .error ∧
        message.toList <:+: e.message.toList := by
  unfold resolve at h ⊢
  rcases hexpand : x.expandFile place read root .start with ⟨fault | content, t⟩
  · rw [hexpand] at h
    dsimp only at h ⊢
    have hfailure : IsFailure read fault := failsAs_expandFile .start fault (by rw [hexpand])
    have hwording : fault.describe = fault.message := by
      cases hfailure with
      | read hfault => exact hread _ _ hfault
      | emptyReference => exact ite_self _
      | circular => exact ite_self _
      | tooDeep => exact ite_self _
    obtain rfl : fault.message = message := by rw [← hwording]; exact Option.some.inj h
    refine ⟨rfl, by simpa using x.isInfix_diagnostic fault.message, _,
      List.mem_append_right _ List.mem_cons_self, rfl, ?_⟩
    rw [String.toList_append]
    exact (List.suffix_append _ _).isInfix
  · rw [hexpand] at h
    cases h

end Expander

/-- A text that cannot be read is told of by the wording of its fault. -/
theorem Session.describe_of_readText {σ : Type} {s : Session σ} {p : Path} {fault : Fault}
    (h : s.readText p = .error fault) : fault.describe = fault.message := by
  unfold readText probe at h
  cases hprobe : s.tree.probe s.place.cwd p with
  | error cause =>
    rw [hprobe] at h
    cases h
    exact ite_self _
  | ok e? =>
    rw [hprobe] at h
    rcases e? with _ | _ | ⟨bytes, stamp⟩
    · cases h
      exact ite_self _
    · cases h
      exact ite_self _
    · change textOf bytes = .error fault at h
      unfold textOf at h
      split at h
      · cases h
      · cases h
        exact ite_self _

end StaticSite
