import StaticSite.Proofs.Effect
import StaticSite.Proofs.Include.Graph

/-!
# Unfolding includes

`Unfolds` says what the text of a file becomes when every include gives way to what the included
file becomes: it follows the include graph and knows of no cache, no chain of includes and no limit,
and `Unfolds.unique` says that it has at most one result. An expansion that gives an answer gives
the unfolding (`unfolds_of_expand`), whatever texts its trace keeps already, as long as these are
the texts of the files.
-/

namespace StaticSite

/-- What a part of a text unfolds to. -/
structure Unfolded where
  /-- The text. -/
  content : List Char
  /-- The properties that are missing, each as often as it is named. -/
  warnings : List String
  /-- The files that are entered, each as often as it is included. -/
  visits : List Path

namespace Unfolded

/-- A text that stays as it is. -/
def ofText (s : List Char) : Unfolded := ⟨s, [], []⟩

/-- What comes first and what comes then. -/
def append (u v : Unfolded) : Unfolded :=
  ⟨u.content ++ v.content, u.warnings ++ v.warnings, u.visits ++ v.visits⟩

/-- What an included file becomes, with the file as the first that is entered. -/
def entering (p : Path) (u : Unfolded) : Unfolded := { u with visits := p :: u.visits }

end Unfolded

namespace Expander

/-- What is said of a property that is missing. -/
def missingProperty (name : String) : String :=
  "Property '" ++ name ++ "' not found in include properties"

/-- The text that stands in place of a property that is missing. -/
def missingBlock (x : Expander) (name : String) : String :=
  x.name ++ " Exception:\n" ++ border ++ " ERROR: " ++ missingProperty name ++ " " ++ border

/-- What a property unfolds to: its value, or a block and a warning which say that it is missing. -/
def propertyUnfolded (x : Expander) (name : List Char) : Unfolded :=
  match x.properties.lookup (String.ofList name) with
  | some value => .ofText value.toList
  | none =>
      ⟨(x.missingBlock (String.ofList name)).toList, [missingProperty (String.ofList name)], []⟩

/-- What the segments of a file become. -/
inductive Unfolds (x : Expander) (place : Place) (read : Reads) (root : Path) :
    Path → List Segment → Unfolded → Prop where
  /-- Nothing is left. -/
  | nil (p : Path) : Unfolds x place read root p [] (.ofText [])
  /-- Text stays. -/
  | text {p : Path} {rest : List Segment} {u : Unfolded} (s : List Char)
      (hrest : Unfolds x place read root p rest u) :
      Unfolds x place read root p (.text s :: rest) ((Unfolded.ofText s).append u)
  /-- A property gives way to its value or to a block, neither of which is looked through again. -/
  | property {p : Path} {rest : List Segment} {u : Unfolded} (name raw : List Char)
      (hrest : Unfolds x place read root p rest u) :
      Unfolds x place read root p (.directive (.property name) raw :: rest)
        ((x.propertyUnfolded name).append u)
  /-- A directive that names an address of the web stays if the expander keeps these. -/
  | external {p : Path} {rest : List Segment} {u : Unfolded} {path raw : List Char}
      (hexternal : (x.keepExternal && isExternal path) = true)
      (hrest : Unfolds x place read root p rest u) :
      Unfolds x place read root p (.directive (.file path) raw :: rest)
        ((Unfolded.ofText raw).append u)
  /-- A file gives way to what its own segments become. -/
  | file {p q : Path} {rest : List Segment} {u v : Unfolded} {path raw : List Char} {text : String}
      (hlocal : (x.keepExternal && isExternal path) = false)
      (htarget : target place root p path = .ok q) (hread : read q = .ok text)
      (hfile : Unfolds x place read root q (x.grammar.segments text.toList) v)
      (hrest : Unfolds x place read root p rest u) :
      Unfolds x place read root p (.directive (.file path) raw :: rest) ((v.entering q).append u)

variable {x : Expander} {place : Place} {read : Reads} {root : Path}

/-- Segments unfold to one thing at most. -/
theorem Unfolds.unique {p : Path} {segments : List Segment} {u v : Unfolded}
    (hu : x.Unfolds place read root p segments u) (hv : x.Unfolds place read root p segments v) :
    u = v := by
  induction hu generalizing v with
  | nil => cases hv; rfl
  | text s _ ih =>
    cases hv with
    | text _ hrest => rw [ih hrest]
  | property name raw _ ih =>
    cases hv with
    | property _ _ hrest => rw [ih hrest]
  | external hexternal _ ih =>
    cases hv with
    | external _ hrest => rw [ih hrest]
    | file hlocal _ _ _ _ => simp [hexternal] at hlocal
  | file hlocal htarget hread _ _ ihfile ihrest =>
    cases hv with
    | external hexternal _ => simp [hlocal] at hexternal
    | file _ htarget' hread' hfile hrest =>
      obtain rfl := Except.ok.inj (htarget.symm.trans htarget')
      obtain rfl := Except.ok.inj (hread.symm.trans hread')
      rw [ihfile hfile, ihrest hrest]

end Expander

/-- The texts that a trace keeps are those of the files. -/
def Trace.Agrees (t : Trace) (read : Reads) : Prop :=
  ∀ p s, t.texts.lookup p = some s → ∃ text, read p = .ok text ∧ text.toList = s

/-- A trace with the same texts agrees with the same files. -/
theorem Trace.Agrees.of_texts_eq {read : Reads} {t t' : Trace} (ht : t.Agrees read)
    (h : t'.texts = t.texts) : t'.Agrees read := by
  unfold Trace.Agrees
  rw [h]
  exact ht

/-- The files visited so far and one more, unless it is the root or was visited. -/
def Trace.note (root : Path) (visited : List Path) (p : Path) : List Path :=
  if p = root ∨ p ∈ visited then visited else visited ++ [p]

/-- A trace has gone on from another by what was unfolded, and keeps no wrong text. -/
structure Trace.Follows (read : Reads) (root : Path) (t : Trace) (u : Unfolded)
    (t' : Trace) : Prop where
  /-- The texts it keeps are those of the files. -/
  agrees : t'.Agrees read
  /-- Every property that was missing is added to the warnings. -/
  warnings : t'.warnings = t.warnings ++ u.warnings
  /-- The files that were entered are noted. -/
  visited : t'.visited = u.visits.foldl (Trace.note root) t.visited

/-- A trace that follows what two texts unfold to follows what they unfold to together. -/
theorem Trace.Follows.trans {read : Reads} {root : Path} {t t' t'' : Trace} {u v : Unfolded}
    (h : Trace.Follows read root t u t') (h' : Trace.Follows read root t' v t'') :
    Trace.Follows read root t (u.append v) t'' where
  agrees := h'.agrees
  warnings := by rw [h'.warnings, h.warnings, List.append_assoc]; rfl
  visited := by
    rw [h'.visited, h.visited]
    exact (List.foldl_append ..).symm

/-- A text without a directive is followed without a step. -/
theorem Trace.Follows.ofText {read : Reads} {root : Path} {t : Trace} (s : List Char)
    (ht : t.Agrees read) :
    Trace.Follows read root t (.ofText s) t where
  agrees := ht
  warnings := (List.append_nil _).symm
  visited := rfl

/-- A trace agrees with the files when nothing is read yet. -/
theorem Trace.agrees_start (read : Reads) : Trace.start.Agrees read := by
  intro p s h
  simp [Trace.start] at h

namespace Expander

variable {x : Expander} {place : Place} {read : Reads} {root : Path}

/-- Fetching gives the text of the file, whether the trace kept it or not. -/
theorem fetch_apply {t : Trace} (ht : t.Agrees read) (p : Path) :
    ∃ t', fetch read p t = ((read p).map String.toList, t') ∧ t'.Agrees read ∧
      t'.warnings = t.warnings ∧ t'.visited = t.visited := by
  unfold fetch
  rw [bind_apply_ok (get_apply t)]
  -- A text that was kept is right because the trace agrees with the store.
  cases hkept : t.texts.lookup p with
  | some s =>
    obtain ⟨text, hread, rfl⟩ := ht p s hkept
    exact ⟨t, by rw [hread]; rfl, ht, rfl, rfl⟩
  | none =>
    simp only
    rw [bind_apply_ok (modify_apply _ t)]
    cases hread : read p with
    | error fault => exact ⟨_, rfl, ht, rfl, rfl⟩
    | ok text =>
      refine ⟨_, rfl, ?_, rfl, rfl⟩
      intro q s h
      simp only [List.lookup_cons] at h
      split at h
      · rename_i hq
        rw [eq_of_beq hq]
        exact ⟨text, hread, Option.some.inj h⟩
      · exact ht q s h

/-- A visit notes the file and leaves the rest of the trace alone. -/
theorem visit_apply (root p : Path) (t : Trace) :
    ∃ t', visit root p t = (.ok ⟨⟩, t') ∧ t'.texts = t.texts ∧ t'.warnings = t.warnings ∧
      t'.visited = Trace.note root t.visited p := by
  unfold visit Trace.note
  rw [modify_apply]
  split
  · exact ⟨t, rfl, rfl, rfl, rfl⟩
  · exact ⟨_, rfl, rfl, rfl, rfl⟩

/-- A property visits no file. -/
theorem propertyUnfolded_visits (name : List Char) : (x.propertyUnfolded name).visits = [] := by
  unfold propertyUnfolded
  split <;> rfl

/-- A property never fails. -/
theorem property_apply (name : List Char) (t : Trace) :
    ∃ t', x.property name t = (.ok (x.propertyUnfolded name).content, t') ∧ t'.texts = t.texts ∧
      t'.warnings = t.warnings ++ (x.propertyUnfolded name).warnings ∧ t'.visited = t.visited := by
  unfold property propertyUnfolded
  cases x.properties.lookup (String.ofList name) with
  | some value => exact ⟨t, rfl, rfl, (List.append_nil _).symm, rfl⟩
  | none => exact ⟨_, rfl, rfl, rfl, rfl⟩

/-- What an expansion puts in the place of a reference. -/
def insertion (x : Expander) (place : Place) (read : Reads) (root : Path) (chain : List Path) :
    (room : Nat) → List Char → Expansion (List Char)
  | 0, reference => do
    let p ← included place root chain reference
    throw (.tooDeep x.depthLimit p)
  | room + 1, reference => do
    let p ← included place root chain reference
    let source ← fetch read p
    visit root p
    x.expand place read root room (p :: chain) source

/-- An expansion joins its segments with its insertions. -/
theorem expand_eq_join (room : Nat) (chain : List Path) (text : List Char) :
    x.expand place read root room chain text =
      x.join (x.insertion place read root chain room) (x.grammar.segments text) := by
  cases room <;> rfl

/-- An include of a file ends in the target of its reference, or in a fault if there is none or a
circle. -/
theorem included_apply (p : Path) (chain : List Path) (reference : List Char) (t : Trace) :
    included place root (p :: chain) reference t =
      match target place root p reference with
      | .error fault => (.error fault, t)
      | .ok q => if q ∈ p :: chain then (.error (.circular (p :: chain).reverse q), t)
            else (.ok q, t) := by
  have hlift : ∀ y : Except Fault Path, (liftM y : Expansion Path) t = (y, t) :=
    fun y => liftM_apply y t
  unfold included
  simp only [List.head?_cons, Option.getD_some]
  cases target place root p reference with
  | error fault => rw [bind_apply_error (hlift _)]
  | ok q =>
    rw [bind_apply_ok (hlift _)]
    simp only
    split <;> rfl

/-- A file that is in reach, not in the chain and readable is entered. -/
theorem insertion_apply {t : Trace} (ht : t.Agrees read) {p q : Path} {chain : List Path}
    {reference : List Char} {text : String} (room : Nat)
    (htarget : target place root p reference = .ok q) (hq : q ∉ p :: chain)
    (hread : read q = .ok text) :
    ∃ t', Trace.Follows read root t ((Unfolded.ofText []).entering q) t' ∧
      x.insertion place read root (p :: chain) (room + 1) reference t =
        x.expand place read root room (q :: p :: chain) text.toList t' := by
  have hincluded : included place root (p :: chain) reference t = (.ok q, t) := by
    rw [included_apply, htarget]
    exact if_neg hq
  obtain ⟨t₁, hfetch, hagrees, hwarnings, hvisited⟩ := fetch_apply ht q
  rw [hread] at hfetch
  obtain ⟨t₂, hvisit, htexts, hwarnings', hvisited'⟩ := visit_apply root q t₁
  refine ⟨t₂, ⟨?_, ?_, ?_⟩, ?_⟩
  · exact hagrees.of_texts_eq htexts
  · rw [hwarnings', hwarnings]
    exact (List.append_nil _).symm
  · rw [hvisited', hvisited]
    rfl
  · simp only [insertion]
    rw [bind_apply_ok hincluded, bind_apply_ok hfetch, bind_apply_ok hvisit]

/-- An insertion that gives an answer had room left and entered a file that is not in the chain. -/
theorem insertion_eq_ok {t t' : Trace} (ht : t.Agrees read) {p : Path}
    {chain : List Path} {room : Nat} {reference s : List Char}
    (h : x.insertion place read root (p :: chain) room reference t = (.ok s, t')) :
    ∃ n q text t₁, room = n + 1 ∧ target place root p reference = .ok q ∧ q ∉ p :: chain ∧
      read q = .ok text ∧ Trace.Follows read root t ((Unfolded.ofText []).entering q) t₁ ∧
      x.expand place read root n (q :: p :: chain) text.toList t₁ = (.ok s, t') := by
  -- Whatever room there is, the reference is resolved before anything else.
  have hincluded : ∃ q, included place root (p :: chain) reference t = (.ok q, t) ∧
      target place root p reference = .ok q ∧ q ∉ p :: chain := by
    cases room <;> simp only [insertion] at h
    all_goals
      obtain ⟨q, t₁, hq, -⟩ := bind_apply_eq_ok.1 h
      have hq' := hq
      rw [included_apply] at hq
      split at hq
      · cases hq
      · rename_i q' htarget
        split at hq
        · cases hq
        · rename_i hmem
          cases hq
          exact ⟨q, hq', htarget, hmem⟩
  obtain ⟨q, hq, htarget, hmem⟩ := hincluded
  cases room with
  | zero =>
    simp only [insertion] at h
    rw [bind_apply_ok hq] at h
    cases h
  | succ n =>
    cases hread : read q with
    | error fault =>
      obtain ⟨t₁, hfetch, -⟩ := fetch_apply ht q
      rw [hread] at hfetch
      simp only [insertion] at h
      rw [bind_apply_ok hq, bind_apply_error hfetch] at h
      cases h
    | ok text =>
      obtain ⟨t₁, hfollows, happly⟩ := insertion_apply (x := x) ht n htarget hmem hread
      exact ⟨n, q, text, t₁, rfl, htarget, hmem, hread, hfollows, happly ▸ h⟩

/-- What stands for a segment. -/
def replacement (x : Expander) (insert : List Char → Expansion (List Char)) :
    Segment → Expansion (List Char)
  | .text s => pure s
  | .directive (.property name) _ => x.property name
  | .directive (.file path) raw =>
      if x.keepExternal && isExternal path then pure raw else insert path

/-- What stands for a segment comes before what stands for the rest. -/
theorem join_cons (insert : List Char → Expansion (List Char)) (segment : Segment)
    (rest : List Segment) :
    x.join insert (segment :: rest) = (do
      let first ← x.replacement insert segment
      return first ++ (← x.join insert rest)) := by
  match segment with
  | .text s => rfl
  | .directive (.property name) raw => rfl
  | .directive (.file path) raw =>
    simp only [join, replacement]
    split <;> rfl

/-- Joined segments unfold if every insertion that gives an answer does. -/
theorem unfolds_of_join {p : Path} {insert : List Char → Expansion (List Char)}
    (hinsert : ∀ {t t' : Trace} {reference s : List Char}, t.Agrees read →
      insert reference t = (.ok s, t') → ∃ q text v, target place root p reference = .ok q ∧
        read q = .ok text ∧ x.Unfolds place read root q (x.grammar.segments text.toList) v ∧
        v.content = s ∧ Trace.Follows read root t (v.entering q) t')
    (segments : List Segment) {t t' : Trace} {s : List Char} (ht : t.Agrees read)
    (h : x.join insert segments t = (.ok s, t')) :
    ∃ u, x.Unfolds place read root p segments u ∧ u.content = s ∧
      Trace.Follows read root t u t' := by
  induction segments generalizing t s with
  | nil =>
    cases h
    exact ⟨_, .nil p, rfl, .ofText [] ht⟩
  | cons segment rest ih =>
    rw [join_cons] at h
    obtain ⟨first, t₁, hfirst, h⟩ := bind_apply_eq_ok.1 h
    obtain ⟨second, t₂, hsecond, h⟩ := bind_apply_eq_ok.1 h
    cases h
    -- What the first segment becomes is in front of whatever the rest becomes.
    have hstep : ∃ u : Unfolded, u.content = first ∧ Trace.Follows read root t u t₁ ∧
        ∀ v, x.Unfolds place read root p rest v →
          x.Unfolds place read root p (segment :: rest) (u.append v) := by
      match segment with
      | .text plain =>
        cases hfirst
        exact ⟨_, rfl, .ofText first ht, fun v hv => .text first hv⟩
      | .directive (.property name) raw =>
        obtain ⟨t', hproperty, htexts, hwarnings, hvisited⟩ := property_apply (x := x) name t
        cases hproperty.symm.trans hfirst
        refine ⟨_, rfl, ⟨ht.of_texts_eq htexts, hwarnings, ?_⟩, fun v hv => .property name raw hv⟩
        rw [hvisited, propertyUnfolded_visits]
        rfl
      | .directive (.file path) raw =>
        simp only [replacement] at hfirst
        split at hfirst
        · rename_i hexternal
          cases hfirst
          exact ⟨_, rfl, .ofText first ht, fun v hv => .external hexternal hv⟩
        · rename_i hlocal
          obtain ⟨q, text, v, htarget, hread, hfile, hcontent, hfollows⟩ := hinsert ht hfirst
          exact ⟨v.entering q, hcontent, hfollows,
            fun w hw => .file (Bool.eq_false_iff.2 hlocal) htarget hread hfile hw⟩
    obtain ⟨u, hcontent, hfollows, hunfolds⟩ := hstep
    obtain ⟨v, hv, hcontent', hfollows'⟩ := ih hfollows.agrees hsecond
    exact ⟨u.append v, hunfolds v hv, by rw [← hcontent, ← hcontent']; rfl,
      hfollows.trans hfollows'⟩

/-- An expansion that gives an answer gives what the segments of the text unfold to. -/
theorem unfolds_of_expand {room : Nat} {p : Path} {chain : List Path} {text s : List Char}
    {t t' : Trace} (ht : t.Agrees read)
    (h : x.expand place read root room (p :: chain) text t = (.ok s, t')) :
    ∃ u, x.Unfolds place read root p (x.grammar.segments text) u ∧ u.content = s ∧
      Trace.Follows read root t u t' := by
  -- The induction is on the room: an insertion goes on with one include less.
  induction room generalizing p chain text s t t' with
  | zero =>
    rw [expand_eq_join] at h
    refine unfolds_of_join ?_ _ ht h
    intro t t' reference s ht hinsertion
    obtain ⟨n, -, -, -, hroom, -⟩ := insertion_eq_ok ht hinsertion
    cases hroom
  | succ room ih =>
    rw [expand_eq_join] at h
    refine unfolds_of_join ?_ _ ht h
    intro t t' reference s ht hinsertion
    obtain ⟨n, q, source, t₁, hroom, htarget, -, hread, hfollows, hexpand⟩ :=
      insertion_eq_ok ht hinsertion
    cases hroom
    obtain ⟨v, hv, hcontent, hfollows'⟩ := ih hfollows.agrees hexpand
    exact ⟨q, source, v, htarget, hread, hv, hcontent, hfollows.trans hfollows'⟩

end Expander

end StaticSite
