import Mathlib.Order.Defs.Unbundled
import StaticSite.Session

/-!
# Running effects

Expansions and the actions of a session are of one shape: a step takes a state, changes it, and
gives an answer or a fault. The lemmas say what each way of putting steps together does to a state.
Proofs about expansions and actions run a step on a state with them and never unfold the monad.
-/

namespace StaticSite

variable {S α β : Type}

/-- A result without its fault is an answer if and only if it was one. -/
theorem toOption_eq_some_iff {ε : Type} {x : Except ε α} {a : α} :
    x.toOption = some a ↔ x = .ok a := by
  cases x <;> simp [Except.toOption]

/-- What follows a step runs on the answer and state of the step, and not at all after a fault. -/
theorem bind_apply (m : ExceptT Fault (StateM S) α) (f : α → ExceptT Fault (StateM S) β) (s : S) :
    (m >>= f) s = match m s with
      | (.ok a, s') => f a s'
      | (.error e, s') => (.error e, s') := by
  show (ExceptT.bind m f) s = _
  unfold ExceptT.bind ExceptT.mk ExceptT.bindCont
  simp only [bind, StateT.bind]
  rcases m s with ⟨_ | _, _⟩ <;> rfl

/-- What follows a step that gives an answer. -/
theorem bind_apply_ok {m : ExceptT Fault (StateM S) α}
    {f : α → ExceptT Fault (StateM S) β} {s s' : S} {a : α} (h : m s = (.ok a, s')) :
    (m >>= f) s = f a s' := by
  rw [bind_apply, h]

/-- What follows a step that fails. -/
theorem bind_apply_error {m : ExceptT Fault (StateM S) α}
    {f : α → ExceptT Fault (StateM S) β} {s s' : S} {e : Fault} (h : m s = (.error e, s')) :
    (m >>= f) s = (.error e, s') := by
  rw [bind_apply, h]

/-- Two steps in a row give an answer if and only if both do. -/
theorem bind_apply_eq_ok {m : ExceptT Fault (StateM S) α}
    {f : α → ExceptT Fault (StateM S) β} {s s'' : S} {b : β} : (m >>= f) s = (.ok b, s'') ↔
    ∃ a s', m s = (.ok a, s') ∧ f a s' = (.ok b, s'') := by
  rw [bind_apply]
  constructor
  · intro h
    rcases hm : m s with ⟨e | a, s'⟩ <;> rw [hm] at h
    · cases h
    · exact ⟨a, s', rfl, h⟩
  · rintro ⟨a, s', hm, hf⟩
    rw [hm]
    exact hf

/-- An answer leaves the state alone. -/
@[simp] theorem pure_apply (a : α) (s : S) :
    (pure a : ExceptT Fault (StateM S) α) s = (.ok a, s) := rfl

/-- A fault leaves the state alone. -/
@[simp] theorem throw_apply (e : Fault) (s : S) :
    (throw e : ExceptT Fault (StateM S) α) s = (.error e, s) := rfl

/-- Looking at the state answers it. -/
@[simp] theorem get_apply (s : S) : (get : ExceptT Fault (StateM S) S) s = (.ok s, s) := rfl

/-- Setting the state leaves the one that is given. -/
@[simp] theorem set_apply (s s' : S) :
    (set s' : ExceptT Fault (StateM S) PUnit) s = (.ok ⟨⟩, s') := rfl

/-- Modifying the state leaves the modified one. -/
@[simp] theorem modify_apply (f : S → S) (s : S) :
    (modify f : ExceptT Fault (StateM S) PUnit) s = (.ok ⟨⟩, f s) := rfl

/-- A result that does not look at the state leaves it alone. -/
@[simp] theorem liftM_apply (x : Except Fault α) (s : S) :
    (liftM x : ExceptT Fault (StateM S) α) s = (x, s) := by
  rcases x with e | a <;> rfl

/-- Turning an answer into another one leaves the state as the action does. -/
@[simp] theorem map_apply (g : α → β) (m : ExceptT Fault (StateM S) α) (s : S) :
    (g <$> m) s = ((m s).1.map g, (m s).2) := by
  rw [map_eq_pure_bind, bind_apply]
  rcases m s with ⟨_ | _, _⟩ <;> rfl

namespace Action

variable {σ : Type}

-- The proof rewrites, so that no proof leaves it to the kernel to unfold an action in place of
-- `perform`.
/-- Performing an action is applying it. -/
@[simp] theorem perform_apply (a : Action σ α) (s : Session σ) :
    a.perform s = a s := by rw [perform]

/-- Catching the fault of an action answers with its result. -/
@[simp] theorem attempt_apply (a : Action σ α) (s : Session σ) :
    attempt a s = (.ok (a s).1, (a s).2) := rfl

/-- Looking at the session leaves it alone. -/
@[simp] theorem observe_apply (f : Session σ → Except Fault α) (s : Session σ) :
    observe f s = (f s, s) := rfl

/-- What is said is added to the log. -/
@[simp] theorem say_apply (level : Log.Level) (speaker : Log.Speaker) (message : String)
    (s : Session σ) :
    say level speaker message s =
      (.ok ⟨⟩, { s with log := s.log ++ [⟨level, speaker, message⟩] }) := rfl

/-- An action changes a session only in a way that `R` allows. -/
def Within (R : Session σ → Session σ → Prop) (a : Action σ α) : Prop := ∀ s, R s (a s).2

section Within

variable {R : Session σ → Session σ → Prop}

/-- Two actions change a session only as a transitive relation allows, if each of them does. -/
theorem Within.bind [IsTrans (Session σ) R] {a : Action σ α} {f : α → Action σ β}
    (ha : a.Within R) (hf : ∀ x, (f x).Within R) : (a >>= f).Within R := by
  intro s
  rw [bind_apply]
  -- What the first step does is allowed, and what the second adds to it is too.
  have h := ha s
  generalize a s = result at h
  rcases result with ⟨fault | x, s'⟩
  · exact h
  · exact trans_of R h (hf x s')

/-- An answer changes nothing. -/
theorem Within.pure [Std.Refl R] (x : α) : (pure x : Action σ α).Within R := fun s => refl_of R s

/-- A fault changes nothing. -/
theorem Within.throw [Std.Refl R] (fault : Fault) : (throw fault : Action σ α).Within R :=
  fun s => refl_of R s

/-- Getting the session changes nothing. -/
theorem Within.get [Std.Refl R] : (get : Action σ (Session σ)).Within R := fun s => refl_of R s

/-- Looking at the session changes nothing. -/
theorem Within.observe [Std.Refl R] (f : Session σ → Except Fault α) : (observe f).Within R :=
  fun s => refl_of R s

/-- A result that does not look at the session changes nothing. -/
theorem Within.liftM [Std.Refl R] (x : Except Fault α) : (liftM x : Action σ α).Within R := by
  intro s
  rw [liftM_apply]
  exact refl_of R s

/-- Catching the fault of an action changes a session as the action does. -/
theorem Within.attempt {a : Action σ α} (ha : a.Within R) : (attempt a).Within R := ha

end Within

/-- Whenever an action answers, `Q` holds of the answer and of the session that it leaves. -/
def Leaves (Q : α → Session σ → Prop) (a : Action σ α) : Prop :=
  ∀ s x s', a s = (.ok x, s') → Q x s'

section Leaves

variable {Q : α → Session σ → Prop}

/-- What holds whenever the second of two actions answers holds whenever both do. -/
theorem Leaves.bind {a : Action σ β} {f : β → Action σ α} (hf : ∀ y, (f y).Leaves Q) :
    (a >>= f).Leaves Q := by
  intro s x s'' h
  obtain ⟨y, s', -, h⟩ := bind_apply_eq_ok.1 h
  exact hf y s' x s'' h

/-- Nothing has to hold where an action never answers. -/
theorem Leaves.throw (fault : Fault) : (throw fault : Action σ α).Leaves Q :=
  fun s x s' h => by cases h

end Leaves

/-- Two actions answer the same in sessions that `R` relates, and leave them related. -/
def Parallel (R : Session σ → Session σ → Prop) (a a' : Action σ α) : Prop :=
  ∀ s s', R s s' → (a' s').1 = (a s).1 ∧ R (a s).2 (a' s').2

/-- An action answers the same in sessions that `R` relates, and leaves them related. -/
def Alike (R : Session σ → Session σ → Prop) (a : Action σ α) : Prop :=
  ∀ s s', R s s' → (a s').1 = (a s).1 ∧ R (a s).2 (a s').2

section Alike

variable {R : Session σ → Session σ → Prop}

/-- Actions that run in parallel, followed by such actions, run in parallel. -/
theorem Parallel.bind {a a' : Action σ α} {f f' : α → Action σ β} (ha : Parallel R a a')
    (hf : ∀ x, Parallel R (f x) (f' x)) : Parallel R (a >>= f) (a' >>= f') := by
  intro s s' h
  obtain ⟨hanswer, hR⟩ := ha s s' h
  rw [bind_apply, bind_apply]
  generalize a s = result, a' s' = result' at hanswer hR
  obtain ⟨x, s₁⟩ := result
  obtain ⟨x', s₁'⟩ := result'
  obtain rfl : x' = x := hanswer
  cases x' with
  | error fault => exact ⟨rfl, hR⟩
  | ok y => exact hf y s₁ s₁' hR

/-- Catching their faults, actions that run in parallel still do. -/
theorem Parallel.attempt {a a' : Action σ α} (ha : Parallel R a a') :
    Parallel R (Action.attempt a) (Action.attempt a') := by
  intro s s' h
  obtain ⟨hanswer, hR⟩ := ha s s' h
  exact ⟨congrArg Except.ok hanswer, hR⟩

/-- What is read off a session runs in parallel to what is read off another if it is the same. -/
theorem Parallel.observe {f f' : Session σ → Except Fault α} (hf : ∀ s s', R s s' → f' s' = f s) :
    Parallel R (observe f) (observe f') :=
  fun s s' h => ⟨hf s s' h, h⟩

/-- An action that is alike in related sessions runs in parallel to itself. -/
theorem Alike.parallel {a : Action σ α} (ha : a.Alike R) : Parallel R a a := ha

/-- Two actions go alike one after the other, if each of them does. -/
theorem Alike.bind {a : Action σ α} {f : α → Action σ β} (ha : a.Alike R)
    (hf : ∀ x, (f x).Alike R) : (a >>= f).Alike R :=
  ha.parallel.bind hf

/-- An answer goes alike. -/
theorem Alike.pure (x : α) : (pure x : Action σ α).Alike R := fun _ _ h => ⟨rfl, h⟩

/-- A fault goes alike. -/
theorem Alike.throw (fault : Fault) : (throw fault : Action σ α).Alike R := fun _ _ h => ⟨rfl, h⟩

/-- A result that does not look at the session goes alike. -/
theorem Alike.liftM (x : Except Fault α) : (liftM x : Action σ α).Alike R := by
  intro s s' h
  rw [liftM_apply, liftM_apply]
  exact ⟨rfl, h⟩

/-- Catching the fault of an action that goes alike goes alike. -/
theorem Alike.attempt {a : Action σ α} (ha : a.Alike R) : (attempt a).Alike R := Parallel.attempt ha

/-- Turning the answer of an action that goes alike into another one goes alike. -/
theorem Alike.map (g : α → β) {a : Action σ α} (ha : a.Alike R) : (g <$> a).Alike R := by
  rw [map_eq_pure_bind]
  exact ha.bind fun _ => .pure _

/-- A fold goes alike if each of its steps does. -/
theorem Alike.foldlM {f : β → α → Action σ β} (hf : ∀ y x, (f y x).Alike R) (xs : List α) (y : β) :
    (xs.foldlM f y).Alike R := by
  induction xs generalizing y with
  | nil => exact .pure y
  | cons x xs ih => exact (hf y x).bind fun y' => ih y'

end Alike

end Action

end StaticSite
