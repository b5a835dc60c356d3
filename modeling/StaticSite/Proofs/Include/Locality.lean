import StaticSite.Proofs.Include.Success
import StaticSite.Proofs.Path.Text

/-!
# What an expansion reads

The expansions of a file in two stores are the same as long as the stores agree on every file that
both of them try to read (`resolve_congr`). The proof runs both side by side: a file that one of
them reads first is read by the other too, unless they parted before, and they part only at a file
that both read. The files that an expansion without a fault tries to read are there, and they are
its root and its dependencies (`mem_reads_of_isOk`). Dependencies of a normal path are normal
(`isNormal_of_mem_dependencies`).
-/

namespace StaticSite

variable {α β : Type} {P : Path → Prop} {read read' : Reads} {root : Path}

/-- Every file that a trace tried to read is there, and is the root or noted as visited. -/
def Trace.Noted (read : Reads) (root : Path) (t : Trace) : Prop :=
  ∀ q ∈ t.reads, (q = root ∨ q ∈ t.visited) ∧ ∃ text, read q = .ok text

/-- A step in one store goes along with a step in another, and reads no more than the files of a
kind. -/
structure Expansion.Tracks (P : Path → Prop) (read read' : Reads) (root : Path)
    (a a' : Expansion α) : Prop where
  /-- What was tried stays tried. -/
  grows : ∀ t, t.reads ⊆ (a t).2.reads
  /-- The same holds in the other store. -/
  grows' : ∀ t, t.reads ⊆ (a' t).2.reads
  /-- The files that are read are of the kind. -/
  inside : ∀ t : Trace, (∀ q ∈ t.reads, P q) → ∀ q ∈ (a t).2.reads, P q
  /-- What gives an answer notes all that it read. -/
  noted : ∀ t x, (a t).1 = .ok x → t.Noted read root → (a t).2.Noted read root
  /-- Stores that agree on what both steps tried make them the same. -/
  same : ∀ t, (∀ q ∈ (a t).2.reads, q ∈ (a' t).2.reads → read' q = read q) → a' t = a t

namespace Expansion

/-- A step that reads and visits nothing goes along with itself. -/
theorem Tracks.of_quiet {a : Expansion α} (hreads : ∀ t, (a t).2.reads = t.reads)
    (hvisited : ∀ t, (a t).2.visited = t.visited) : Tracks P read read' root a a where
  grows t := by rw [hreads]; exact List.Subset.refl _
  grows' t := by rw [hreads]; exact List.Subset.refl _
  inside t h := by rwa [hreads]
  noted t _ _ h := by
    unfold Trace.Noted
    rwa [hreads, hvisited]
  same _ _ := rfl

/-- An answer is tracked. -/
theorem Tracks.pure (x : α) : Tracks P read read' root (pure x) (pure x) :=
  .of_quiet (fun _ => rfl) fun _ => rfl

/-- A fault is tracked. -/
theorem Tracks.throw (fault : Fault) : Tracks P read read' root (throw fault : Expansion α)
    (throw fault) :=
  .of_quiet (fun _ => rfl) fun _ => rfl

/-- Steps that follow steps go along if they do for every answer. -/
theorem Tracks.bind {a a' : Expansion α} {f f' : α → Expansion β}
    (ha : Tracks P read read' root a a')
    (hf : ∀ x t, (a t).1 = .ok x ∨ (a' t).1 = .ok x → Tracks P read read' root (f x) (f' x)) :
    Tracks P read read' root (a >>= f) (a' >>= f') := by
  -- What the first step tried the whole did too, in either store.
  have hgrows : ∀ t, (a t).2.reads ⊆ ((a >>= f) t).2.reads := by
    intro t
    rw [bind_apply]
    rcases h : a t with ⟨fault | x, t₁⟩
    · exact List.Subset.refl _
    · exact (hf x t (.inl (by rw [h]))).grows t₁
  have hgrows' : ∀ t, (a' t).2.reads ⊆ ((a' >>= f') t).2.reads := by
    intro t
    rw [bind_apply]
    rcases h : a' t with ⟨fault | x, t₁⟩
    · exact List.Subset.refl _
    · exact (hf x t (.inr (by rw [h]))).grows' t₁
  refine ⟨fun t => List.Subset.trans (ha.grows t) (hgrows t),
    fun t => List.Subset.trans (ha.grows' t) (hgrows' t), fun t ht => ?_, fun t y hy ht =>
      ?_, fun t hagree => ?_⟩
  · have ht₁ := ha.inside t ht
    rw [bind_apply]
    rcases h : a t with ⟨fault | x, t₁⟩ <;> rw [h] at ht₁
    · exact ht₁
    · exact (hf x t (.inl (by rw [h]))).inside t₁ ht₁
  · rw [bind_apply] at hy ⊢
    rcases h : a t with ⟨fault | x, t₁⟩ <;> simp only [h] at hy ⊢
    · cases hy
    · have ht₁ := ha.noted t x (by rw [h]) ht
      rw [h] at ht₁
      exact (hf x t (.inl (by rw [h]))).noted t₁ y hy ht₁
  · -- What both of the first steps tried, both of the whole did, so that the first steps are the
    -- same.
    have hfirst : a' t = a t :=
      ha.same t fun q hq hq' => hagree q (hgrows t hq) (hgrows' t hq')
    rw [bind_apply, bind_apply, hfirst] at hagree ⊢
    rcases h : a t with ⟨fault | x, t₁⟩ <;> simp only [h] at hagree ⊢
    exact (hf x t (.inl (by rw [h]))).same t₁ hagree

end Expansion

namespace Expander

open Expansion (Tracks)

variable {x : Expander} {place : Place}

/-- Reads a file and notes it. -/
def enter (read : Reads) (root p : Path) : Expansion (List Char) := do
  let source ← fetch read p
  visit root p
  return source

/-- A visit always answers, and adds the file to those visited. -/
theorem visit_eq (root p : Path) (t : Trace) :
    visit root p t = (.ok ⟨⟩, { t with visited := Trace.note root t.visited p }) := by
  unfold visit Trace.note
  rw [modify_apply]
  split <;> rfl

/-- A text that is kept is not read again. -/
theorem enter_of_kept (read : Reads) {t : Trace} {p : Path} {s : List Char}
    (h : t.texts.lookup p = some s) :
    enter read root p t = (.ok s, { t with visited := Trace.note root t.visited p }) := by
  have hfetch : fetch read p t = (.ok s, t) := by
    unfold fetch
    rw [bind_apply_ok (get_apply t), h]
    rfl
  unfold enter
  rw [bind_apply_ok hfetch, bind_apply_ok (visit_eq root p t)]
  rfl

/-- A text that is not kept is read, and the file is noted if it is there. -/
theorem enter_of_read (read : Reads) {t : Trace} {p : Path} (h : t.texts.lookup p = none) :
    enter read root p t = match read p with
      | .error fault => (.error fault, { t with reads := t.reads ++ [p] })
      | .ok text => (.ok text.toList, { t with
          reads := t.reads ++ [p]
          texts := (p, text.toList) :: t.texts
          visited := Trace.note root t.visited p }) := by
  have hfetch : fetch read p t = match read p with
      | .error fault => (.error fault, { t with reads := t.reads ++ [p] })
      | .ok text => (.ok text.toList, { t with
          reads := t.reads ++ [p]
          texts := (p, text.toList) :: t.texts }) := by
    unfold fetch
    rw [bind_apply_ok (get_apply t), h]
    simp only
    rw [bind_apply_ok (modify_apply _ t)]
    cases read p <;> rfl
  unfold enter
  cases hread : read p with
  | error fault =>
    rw [hread] at hfetch
    rw [bind_apply_error hfetch]
  | ok text =>
    rw [hread] at hfetch
    rw [bind_apply_ok hfetch, bind_apply_ok (visit_eq root p _)]
    rfl

/-- What is noted is noted still when one more file is visited, which is noted then. -/
theorem mem_note {root p q : Path} {visited : List Path} :
    q = root ∨ q ∈ Trace.note root visited p ↔ (q = root ∨ q ∈ visited) ∨ q = p := by
  unfold Trace.note
  split
  · rename_i h
    constructor
    · exact .inl
    · rintro (h' | rfl)
      · exact h'
      · exact h
  · rw [List.mem_append, List.mem_singleton, or_assoc]

/-- Entering a file in one store goes along with entering it in another. -/
theorem tracks_enter {p : Path} (hp : P p) :
    Tracks P read read' root (enter read root p) (enter read' root p) := by
  -- The trace decides whether the file is tried, and the store only what comes of it.
  have hreads : ∀ (read : Reads) (t : Trace), (enter read root p t).2.reads =
      if (t.texts.lookup p).isSome then t.reads else t.reads ++ [p] := by
    intro read t
    cases h : t.texts.lookup p with
    | some s => rw [enter_of_kept read h]; rfl
    | none =>
      rw [enter_of_read read h]
      cases read p <;> rfl
  have hgrows : ∀ (read : Reads) (t : Trace), t.reads ⊆ (enter read root p t).2.reads := by
    intro read t
    rw [hreads]
    split
    · exact List.Subset.refl _
    · exact List.subset_append_left _ _
  refine ⟨hgrows read, hgrows read', fun t ht q hq => ?_, fun t x hx ht => ?_, fun t hagree => ?_⟩
  · rw [hreads] at hq
    split at hq
    · exact ht q hq
    · rcases List.mem_append.1 hq with hq | hq
      · exact ht q hq
      · rwa [List.mem_singleton.1 hq]
  · have hvisited : ∀ q, q = root ∨ q ∈ t.visited → q = root ∨ q ∈ Trace.note root t.visited p :=
      fun q hq => mem_note.2 (.inl hq)
    cases h : t.texts.lookup p with
    | some s =>
      rw [enter_of_kept read h]
      exact fun q hq => ⟨hvisited q (ht q hq).1, (ht q hq).2⟩
    | none =>
      rw [enter_of_read read h] at hx ⊢
      cases hread : read p with
      | error fault => rw [hread] at hx; cases hx
      | ok text =>
        intro q hq
        rcases List.mem_append.1 hq with hq | hq
        · exact ⟨hvisited q (ht q hq).1, (ht q hq).2⟩
        · rw [List.mem_singleton.1 hq]
          exact ⟨mem_note.2 (.inr rfl), text, hread⟩
  · cases h : t.texts.lookup p with
    | some s => rw [enter_of_kept read h, enter_of_kept read' h]
    | none =>
      -- Both stores were asked for the file, so that they agree on it.
      have hmem : ∀ read : Reads, p ∈ (enter read root p t).2.reads := by
        intro read
        rw [hreads, h]
        exact List.mem_append_right _ List.mem_cons_self
      rw [enter_of_read read h, enter_of_read read' h, hagree p (hmem read) (hmem read')]

/-- A reference names a path that starts at a root and never goes back up. -/
theorem isGrounded_of_target (hcwd : place.cwd.isAbsolute = true) {p q : Path}
    {reference : List Char} (h : target place root p reference = .ok q) : q.IsGrounded := by
  unfold target at h
  simp only at h
  split at h
  · cases h
  · rw [← Except.ok.inj h]
    exact Path.isGrounded_absolute hcwd _ _

/-- Including a file leaves the trace alone, and answers the target of the reference. -/
theorem included_quiet (chain : List Path) (reference : List Char) (t : Trace) :
    (included place root chain reference t).2 = t ∧
      ∀ q, (included place root chain reference t).1 = .ok q →
        target place root (chain.head?.getD root) reference = .ok q := by
  have hlift : ∀ y : Except Fault Path, (liftM y : Expansion Path) t = (y, t) :=
    fun y => liftM_apply y t
  unfold included
  cases htarget : target place root (chain.head?.getD root) reference with
  | error fault =>
    rw [bind_apply_error (hlift _)]
    exact ⟨rfl, fun q h => by cases h⟩
  | ok p =>
    rw [bind_apply_ok (hlift _)]
    split
    · exact ⟨rfl, fun q h => by cases h⟩
    · exact ⟨rfl, fun q h => by cases h; rfl⟩

/-- The insertions of two expansions go along if the expansions of what is inserted do. -/
theorem tracks_insertion (hP : ∀ p reference q, target place root p reference = .ok q → P q)
    (room : Nat) (chain : List Path)
    (hexpand : ∀ n p source, room = n + 1 → Tracks P read read' root
      (x.expand place read root n (p :: chain) source)
        (x.expand place read' root n (p :: chain) source))
    (reference : List Char) :
    Tracks P read read' root (x.insertion place read root chain room reference)
      (x.insertion place read' root chain room reference) := by
  have hincluded : Tracks P read read' root (included place root chain reference)
      (included place root chain reference) :=
    .of_quiet (fun t => by rw [(included_quiet chain reference t).1])
      fun t => by rw [(included_quiet chain reference t).1]
  -- What a reference names is settled without the store, and with room left the file is entered.
  cases room with
  | zero => exact hincluded.bind fun p t _ => .throw _
  | succ n =>
    have henter : ∀ read : Reads, x.insertion place read root chain (n + 1) reference =
        included place root chain reference >>= fun p =>
          enter read root p >>= x.expand place read root n (p :: chain) := by
      intro read
      simp only [insertion, enter, bind_assoc, pure_bind]
    rw [henter, henter]
    refine hincluded.bind fun p t hp => ?_
    have hkind : P p := hP _ _ p ((included_quiet chain reference t).2 p (hp.elim id id))
    exact (tracks_enter hkind).bind fun source _ _ => hexpand n p source rfl

/-- What a segment is replaced by is tracked, if inserting files is. -/
theorem tracks_replacement {insert insert' : List Char → Expansion (List Char)}
    (hinsert : ∀ reference, Tracks P read read' root (insert reference) (insert' reference))
    (segment : Segment) :
    Tracks P read read' root (x.replacement insert segment) (x.replacement insert' segment) := by
  match segment with
  | .text s => exact .pure _
  | .directive (.property name) raw =>
    refine .of_quiet (fun t => ?_) fun t => ?_ <;>
    · simp only [replacement, property]
      cases x.properties.lookup (String.ofList name) <;> rfl
  | .directive (.file path) raw =>
    simp only [replacement]
    split
    · exact .pure _
    · exact hinsert path

/-- The joined segments of a text are tracked, if inserting files is. -/
theorem tracks_join {insert insert' : List Char → Expansion (List Char)}
    (hinsert : ∀ reference, Tracks P read read' root (insert reference) (insert' reference))
    (segments : List Segment) :
    Tracks P read read' root (x.join insert segments) (x.join insert' segments) := by
  induction segments with
  | nil => exact .pure _
  | cons segment rest ih =>
    rw [join_cons, join_cons]
    exact (tracks_replacement hinsert segment).bind fun first _ _ =>
      ih.bind fun second _ _ => .pure _

/-- The expansion of a text in one store goes along with its expansion in another. -/
theorem tracks_expand (hP : ∀ p reference q, target place root p reference = .ok q → P q)
    (room : Nat) (chain : List Path) (text : List Char) :
    Tracks P read read' root (x.expand place read root room chain text)
      (x.expand place read' root room chain text) := by
  -- The induction is on the room, as in `unfolds_of_expand`.
  induction room generalizing chain text with
  | zero =>
    rw [expand_eq_join, expand_eq_join]
    exact tracks_join (tracks_insertion hP 0 chain fun _ _ _ h => (by cases h)) _
  | succ room ih =>
    rw [expand_eq_join, expand_eq_join]
    refine tracks_join (tracks_insertion hP (room + 1) chain fun n p source h => ?_) _
    cases h
    exact ih (p :: chain) source

/-- Expanding a file enters it and goes on with its text. -/
theorem expandFile_eq (x : Expander) (place : Place) (read : Reads) (root : Path) :
    x.expandFile place read root =
      enter read root root >>= x.expand place read root x.depthLimit.toNat [root] := by
  have hvisit : visit root root = (pure ⟨⟩ : Expansion Unit) := by
    funext t
    rw [visit_eq]
    unfold Trace.note
    rw [if_pos (.inl rfl)]
    rfl
  simp only [expandFile, enter, hvisit, pure_bind, bind_pure]

/-- The expansion of a file is tracked, if all files that references lead to are among those
followed. -/
theorem tracks_expandFile (hP : ∀ p reference q, target place root p reference = .ok q → P q)
    (hroot : P root) :
    Tracks P read read' root (x.expandFile place read root) (x.expandFile place read' root) := by
  rw [expandFile_eq, expandFile_eq]
  exact (tracks_enter hroot).bind fun source _ _ => tracks_expand hP _ _ _

/-- A file is resolved from the trace of its expansion. -/
theorem reads_resolve (x : Expander) (place : Place) (read : Reads) (root : Path) :
    (x.resolve place read root).2.reads = (x.expandFile place read root .start).2.reads := by
  unfold resolve
  rcases x.expandFile place read root .start with ⟨fault | s, t⟩ <;> rfl

/-- A file is resolved to the same in two stores that agree on every file that both resolutions try
to read. -/
theorem resolve_congr (h : ∀ q ∈ (x.resolve place read root).2.reads,
    q ∈ (x.resolve place read' root).2.reads → read' q = read q) :
    x.resolve place read' root = x.resolve place read root := by
  simp only [reads_resolve] at h
  have htracks : Tracks (fun _ => True) read read' root (x.expandFile place read root)
      (x.expandFile place read' root) := tracks_expandFile (fun _ _ _ _ => trivial) trivial
  unfold resolve
  rw [htracks.same .start h]

/-- All files that are read for a grounded one are grounded. -/
theorem isGrounded_of_mem_reads (hcwd : place.cwd.isAbsolute = true)
    (hroot : root.IsGrounded) {q : Path} (hq : q ∈ (x.resolve place read root).2.reads) :
    q.IsGrounded := by
  rw [reads_resolve] at hq
  have htracks : Tracks Path.IsGrounded read read root (x.expandFile place read root)
      (x.expandFile place read root) :=
        tracks_expandFile (fun _ _ _ h => isGrounded_of_target hcwd h) hroot
  refine htracks.inside .start (fun q hq => ?_) q hq
  cases hq

/-- What is read to resolve a file without a fault is there, and is the file or one of its
dependencies. -/
theorem mem_reads_of_isOk (h : (x.resolve place read root).1.isOk = true) {q : Path}
    (hq : q ∈ (x.resolve place read root).2.reads) :
    (q = root ∨ q ∈ (x.resolve place read root).1.dependencies) ∧ ∃ text, read q = .ok text := by
  obtain ⟨s, t, hexpand, hbundle⟩ := resolve_isOk_iff_expandFile.1 h
  have htracks : Tracks (fun _ => True) read read root (x.expandFile place read root)
      (x.expandFile place read root) := tracks_expandFile (fun _ _ _ _ => trivial) trivial
  have hnoted := htracks.noted .start s (by rw [hexpand])
    fun q hq => (by cases hq)
  rw [reads_resolve] at hq
  rw [hbundle]
  rw [hexpand] at hq hnoted
  exact hnoted q hq

/-- Whatever is entered while a normal path unfolds is normal. -/
theorem Unfolds.isNormal_visits (hcwd : place.cwd.IsNormal) {p : Path} {segments : List Segment}
    {u : Unfolded} (h : x.Unfolds place read root p segments u) (hp : p.IsNormal) :
    ∀ q ∈ u.visits, q.IsNormal := by
  induction h with
  | nil => exact fun q hq => (by cases hq)
  | text s _ ih => exact ih hp
  | property name raw _ ih =>
    intro q hq
    rcases List.mem_append.1 hq with hq | hq
    · rw [propertyUnfolded_visits] at hq
      cases hq
    · exact ih hp q hq
  | external _ _ ih => exact ih hp
  | @file p target rest u v path raw text _ htarget _ _ _ ihfile ihrest =>
    -- The target is made absolute below the directory of a normal path.
    have hnormal : target.IsNormal := by
      unfold Expander.target at htarget
      simp only at htarget
      split at htarget
      · cases htarget
      · rw [← Except.ok.inj htarget]
        exact Path.isNormal_absolute hcwd _ fun d hd => Option.some.inj hd ▸ hp.parent
    intro q hq
    rcases List.mem_cons.1 hq with rfl | hq
    · exact hnormal
    · exact (List.mem_append.1 hq).elim (ihfile hnormal q) (ihrest hp q)

/-- The dependencies of a normal path are normal. -/
theorem isNormal_of_mem_dependencies (hcwd : place.cwd.IsNormal) (hroot : root.IsNormal) {q : Path}
    (hq : q ∈ (x.resolve place read root).1.dependencies) : q.IsNormal := by
  by_cases h : (x.resolve place read root).1.isOk = true
  · obtain ⟨text, u, -, hunfolds, hresolve⟩ := resolve_eq_of_isOk h
    rw [hresolve, mem_foldl_note] at hq
    rcases hq with hq | ⟨hq, -⟩
    · cases hq
    · exact hunfolds.isNormal_visits hcwd hroot q hq
  · unfold resolve at h hq
    split at h
    · exact absurd rfl h
    · rename_i hexpand
      rw [hexpand] at hq
      cases hq

end Expander

end StaticSite
