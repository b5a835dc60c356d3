import StaticSite.Proofs.Include.Unfolding

/-!
# When a file is expanded

The main statement is `resolve_isOk_iff`: a file is resolved without a fault if and only if the part
of the include graph that it reaches is `Expandable`, and then the bundle holds what the file
unfolds to. One direction follows the graph out of an expansion that gave an answer (`Succeeds`):
each include leads to an expansion with less room, entered through a longer chain. The other puts
the expansion together along a path of the graph, where the limit on paths and the lack of cycles
keep every insertion from failing.
-/

namespace StaticSite.Expander

open Relation (ReflTransGen TransGen)

variable {x : Expander} {place : Place} {read : Reads} {root : Path}

/-! ## From an answer to the graph -/

/-- A file that was entered through a chain of files, with room left for a number of includes, was
expanded. -/
def Succeeds (x : Expander) (place : Place) (read : Reads) (root : Path) (room : Nat)
    (chain : List Path) (p : Path) : Prop :=
  ∃ text t s t', read p = .ok text ∧ Trace.Agrees t read ∧
    x.expand place read root room (p :: chain) text.toList t = (.ok s, t')

/-- What stands for a segment leaves right texts in the trace. -/
theorem replacement_agrees {insert : List Char → Expansion (List Char)}
    (hinsert : ∀ {t t' : Trace} {reference s : List Char}, t.Agrees read →
      insert reference t = (.ok s, t') → t'.Agrees read)
    {segment : Segment} {t t' : Trace} {s : List Char} (ht : t.Agrees read)
    (h : x.replacement insert segment t = (.ok s, t')) : t'.Agrees read := by
  match segment with
  | .text plain => cases h; exact ht
  | .directive (.property name) raw =>
    obtain ⟨t₁, hproperty, htexts, -, -⟩ := property_apply (x := x) name t
    cases hproperty.symm.trans h
    exact ht.of_texts_eq htexts
  | .directive (.file path) raw =>
    simp only [replacement] at h
    split at h
    · cases h; exact ht
    · exact hinsert ht h

/-- Joining some segments runs the insertion of each of their references. -/
theorem exists_insertion_of_join {insert : List Char → Expansion (List Char)}
    (hinsert : ∀ {t t' : Trace} {reference s : List Char}, t.Agrees read →
      insert reference t = (.ok s, t') → t'.Agrees read)
    {segments : List Segment} {t t' : Trace} {s : List Char} (ht : t.Agrees read)
    (h : x.join insert segments t = (.ok s, t')) {reference : List Char}
    (hreference : reference ∈ x.references segments) :
    ∃ t₁ s₁ t₂, Trace.Agrees t₁ read ∧ insert reference t₁ = (.ok s₁, t₂) := by
  induction segments generalizing t t' s with
  | nil => simp [references] at hreference
  | cons segment rest ih =>
    rw [join_cons] at h
    obtain ⟨first, t₁, hfirst, h⟩ := bind_apply_eq_ok.1 h
    obtain ⟨second, t₂, hsecond, -⟩ := bind_apply_eq_ok.1 h
    have hrest := ih (replacement_agrees hinsert ht hfirst) hsecond
    match segment with
    | .text plain => exact hrest hreference
    | .directive (.property name) raw => exact hrest hreference
    | .directive (.file path) raw =>
      simp only [replacement] at hfirst
      split at hfirst
      · rename_i hexternal
        simp only [references, List.filterMap_cons, hexternal, if_true] at hreference
        exact hrest hreference
      · rename_i hlocal
        simp only [references, List.filterMap_cons, hlocal] at hreference
        rcases List.mem_cons.1 hreference with rfl | hreference
        · exact ⟨t, first, t₁, ht, hfirst⟩
        · exact hrest hreference

/-- An expansion that gives an answer leaves right texts in the trace. -/
theorem expand_agrees {room : Nat} {p : Path} {chain : List Path} {text s : List Char}
    {t t' : Trace} (ht : t.Agrees read)
    (h : x.expand place read root room (p :: chain) text t = (.ok s, t')) :
    t'.Agrees read := by
  obtain ⟨u, -, -, hfollows⟩ := unfolds_of_expand ht h
  exact hfollows.agrees

/-- Every reference of a file that was expanded names a file that is not in the chain and was
expanded with less room. -/
theorem Succeeds.of_reference {room : Nat} {chain : List Path} {p : Path} {text : String}
    {reference : List Char} (h : x.Succeeds place read root room chain p)
    (hread : read p = .ok text)
    (hreference : reference ∈ x.references (x.grammar.segments text.toList)) :
    ∃ n q, target place root p reference = .ok q ∧ room = n + 1 ∧ q ∉ p :: chain ∧
      x.Succeeds place read root n (p :: chain) q := by
  obtain ⟨text', t, s, t', hread', ht, hexpand⟩ := h
  obtain rfl := Except.ok.inj (hread.symm.trans hread')
  rw [expand_eq_join] at hexpand
  -- The insertion of the reference ran from some trace in which all texts are right.
  have hinsert : ∀ {t t' : Trace} {reference s : List Char}, t.Agrees read →
      x.insertion place read root (p :: chain) room reference t = (.ok s, t') → t'.Agrees read := by
    intro t t' reference s ht h
    obtain ⟨n, q, source, t₁, -, -, -, -, hfollows, hexpand⟩ := insertion_eq_ok ht h
    exact expand_agrees hfollows.agrees hexpand
  obtain ⟨t₁, s₁, t₂, ht₁, hinsertion⟩ := exists_insertion_of_join hinsert ht hexpand hreference
  obtain ⟨n, q, source, t₃, hroom, htarget, hq, hsource, hfollows, hexpand'⟩ :=
    insertion_eq_ok ht₁ hinsertion
  exact ⟨n, q, htarget, hroom, hq, source, t₃, s₁, t₂, hsource, hfollows.agrees, hexpand'⟩

/-- A file that is included by one that succeeds is not one of those that it is included by, and
succeeds itself. -/
theorem Succeeds.of_includes {room : Nat} {chain : List Path} {p q : Path}
    (h : x.Succeeds place read root room chain p) (hpq : x.Includes place read root p q) :
    ∃ n, room = n + 1 ∧ q ∉ p :: chain ∧ x.Succeeds place read root n (p :: chain) q := by
  obtain ⟨text, hread, reference, hreference, htarget⟩ := hpq
  obtain ⟨n, q', htarget', hroom, hq, hsucceeds⟩ := h.of_reference hread hreference
  obtain rfl := Except.ok.inj (htarget.symm.trans htarget')
  exact ⟨n, hroom, hq, hsucceeds⟩

/-- No path out of a file that was expanded has more includes than there was room for. -/
theorem Succeeds.length_le {room : Nat} {chain ps : List Path} {p : Path}
    (h : x.Succeeds place read root room chain p)
    (hps : (p :: ps).IsChain (x.Includes place read root)) :
    ps.length ≤ room := by
  induction ps generalizing room chain p with
  | nil => exact Nat.zero_le room
  | cons q ps ih =>
    obtain ⟨hpq, hps⟩ := List.isChain_cons_cons.1 hps
    obtain ⟨n, rfl, -, hq⟩ := h.of_includes hpq
    have := ih hq hps
    simp only [List.length_cons]
    omega

/-- A file that is reached from one that was expanded was expanded itself and is not in the chain of
that one. -/
theorem Succeeds.of_transGen {room : Nat} {chain : List Path} {p q : Path}
    (h : x.Succeeds place read root room chain p)
    (hpq : TransGen (x.Includes place read root) p q) :
    q ∉ p :: chain ∧ ∃ n chain', x.Succeeds place read root n chain' q ∧ p :: chain ⊆ chain' := by
  -- The chain only grows along the way, so that what is not in a later one is not in this one.
  induction hpq with
  | single hpq =>
    obtain ⟨n, -, hmem, hq⟩ := h.of_includes hpq
    exact ⟨hmem, n, p :: chain, hq, List.Subset.refl _⟩
  | @tail q r _ hqr ih =>
    obtain ⟨-, n, chain', hq, hsub⟩ := ih
    obtain ⟨m, -, hmem, hr⟩ := hq.of_includes hqr
    have hsub' : p :: chain ⊆ q :: chain' := List.Subset.trans hsub (List.subset_cons_self q chain')
    exact ⟨fun hmem' => hmem (hsub' hmem'), m, q :: chain', hr, hsub'⟩

/-- Every file that is reached from one that succeeds does so too. -/
theorem Succeeds.of_reflTransGen {room : Nat} {chain : List Path} {p q : Path}
    (h : x.Succeeds place read root room chain p)
    (hpq : ReflTransGen (x.Includes place read root) p q) :
    ∃ n chain', x.Succeeds place read root n chain' q := by
  rcases Relation.reflTransGen_iff_eq_or_transGen.1 hpq with rfl | hpq
  · exact ⟨room, chain, h⟩
  · obtain ⟨-, n, chain', hq, -⟩ := h.of_transGen hpq
    exact ⟨n, chain', hq⟩

/-- The root of an expansion that gave an answer is expandable. -/
theorem Succeeds.expandable (h : x.Succeeds place read root x.depthLimit.toNat [] root) :
    x.Expandable place read root where
  readable p hp := by
    obtain ⟨n, chain, text, -, -, -, hread, -, -⟩ := h.of_reflTransGen hp
    exact ⟨text, hread⟩
  named p text hp hread reference hreference := by
    obtain ⟨n, chain, hsucceeds⟩ := h.of_reflTransGen hp
    obtain ⟨-, q, htarget, -, -, -⟩ := hsucceeds.of_reference hread hreference
    exact target_eq_ok_iff.1 ⟨q, htarget⟩
  acyclic p hp hcycle := by
    -- A file on a cycle is reached from itself, and would not be in its own chain.
    obtain ⟨n, chain, hsucceeds⟩ := h.of_reflTransGen hp
    exact (hsucceeds.of_transGen hcycle).1 List.mem_cons_self
  shallow ps hps := h.length_le hps

/-! ## From the graph to an answer -/

/-- Joining gives an answer if every insertion of a reference does. -/
theorem join_eq_ok {insert : List Char → Expansion (List Char)} {segments : List Segment}
    (hinsert : ∀ reference ∈ x.references segments, ∀ t : Trace, t.Agrees read →
      ∃ s t', insert reference t = (.ok s, t') ∧ Trace.Agrees t' read)
    {t : Trace} (ht : t.Agrees read) : ∃ s t', x.join insert segments t = (.ok s, t') := by
  induction segments generalizing t with
  | nil => exact ⟨[], t, rfl⟩
  | cons segment rest ih =>
    -- The first segment by its kind, the rest by the induction from the trace that it leaves.
    have hfirst : ∃ s t', x.replacement insert segment t = (.ok s, t') ∧ Trace.Agrees t' read := by
      match segment with
      | .text plain => exact ⟨plain, t, rfl, ht⟩
      | .directive (.property name) raw =>
        obtain ⟨t', hproperty, htexts, -, -⟩ := property_apply (x := x) name t
        exact ⟨_, t', hproperty, ht.of_texts_eq htexts⟩
      | .directive (.file path) raw =>
        simp only [replacement]
        split
        · exact ⟨raw, t, rfl, ht⟩
        · rename_i hlocal
          refine hinsert path ?_ t ht
          simp only [references, List.filterMap_cons, hlocal]
          exact List.mem_cons_self
    obtain ⟨s, t', hs, ht'⟩ := hfirst
    have hsub : ∀ reference ∈ x.references rest, reference ∈ x.references (segment :: rest) := by
      intro reference h
      simp only [references, List.filterMap_cons]
      split
      · exact h
      · exact List.mem_cons_of_mem _ h
    obtain ⟨s', t'', hs'⟩ := ih (fun r hr => hinsert r (hsub r hr)) ht'
    exact ⟨s ++ s', t'', by rw [join_cons, bind_apply_ok hs, bind_apply_ok hs']; rfl⟩

/-- Along a path of an expandable graph, the file at its end is expanded with the room that is
left. -/
theorem Expandable.expand_eq_ok (h : x.Expandable place read root) {room : Nat}
    {chain : List Path} {p : Path} {text : String} {t : Trace} (ht : t.Agrees read)
    (hchain : (p :: chain).IsChain fun a b => x.Includes place read root b a)
    (hroot : (p :: chain).getLast? = some root) (hroom : room + chain.length = x.depthLimit.toNat)
    (hread : read p = .ok text) :
    ∃ s t', x.expand place read root room (p :: chain) text.toList t = (.ok s, t') := by
  -- The room that is left and the length of the path from the root make up the limit at every step.
  induction room generalizing chain p text t with
  | zero =>
    have hp : x.Reaches place read root p :=
      reflTransGen_of_mem_chain hchain (List.mem_of_getLast? hroot)
    rw [expand_eq_join]
    refine join_eq_ok ?_ ht
    intro reference hreference t ht
    -- A reference would make a path that is longer than the limit.
    obtain ⟨q, htarget⟩ := target_eq_ok_iff.2 (h.named p text hp hread reference hreference)
    have hpq : x.Includes place read root p q := ⟨text, hread, reference, hreference, htarget⟩
    have := h.length_le (List.isChain_cons_cons.2 ⟨hpq, hchain⟩) (by rwa [List.getLast?_cons_cons])
    simp only [List.length_cons] at this
    omega
  | succ room ih =>
    have hp : x.Reaches place read root p :=
      reflTransGen_of_mem_chain hchain (List.mem_of_getLast? hroot)
    rw [expand_eq_join]
    refine join_eq_ok ?_ ht
    intro reference hreference t ht
    obtain ⟨q, htarget⟩ := target_eq_ok_iff.2 (h.named p text hp hread reference hreference)
    have hpq : x.Includes place read root p q := ⟨text, hread, reference, hreference, htarget⟩
    have hq : x.Reaches place read root q := hp.tail hpq
    obtain ⟨source, hsource⟩ := h.readable q hq
    -- A file of the chain leads to `p`, so that it would lie on a cycle.
    have hmem : q ∉ p :: chain := fun hmem =>
      h.acyclic q hq (TransGen.tail' (reflTransGen_of_mem_chain hchain hmem) hpq)
    obtain ⟨t₁, hfollows, hinsertion⟩ := insertion_apply (x := x) ht room htarget hmem hsource
    obtain ⟨s, t₂, hexpand⟩ := ih hfollows.agrees (List.isChain_cons_cons.2 ⟨hpq, hchain⟩)
      (by rwa [List.getLast?_cons_cons]) (by simp only [List.length_cons]; omega) hsource
    exact ⟨s, t₂, by rw [hinsertion, hexpand], expand_agrees hfollows.agrees hexpand⟩

/-- The root of an expandable graph is expanded. -/
theorem Expandable.succeeds (h : x.Expandable place read root) {t : Trace} (ht : t.Agrees read)
    {text : String} (hread : read root = .ok text) :
    ∃ s t', x.expand place read root x.depthLimit.toNat [root] text.toList t = (.ok s, t') :=
  h.expand_eq_ok ht (List.isChain_singleton _) rfl (by simp) hread

/-! ## Bundles -/

/-- Expanding a file fetches it and goes on with its text. -/
theorem expandFile_apply (x : Expander) (place : Place) (read : Reads) (root : Path) :
    ∃ t, Trace.Follows read root .start (.ofText []) t ∧
      x.expandFile place read root .start = match read root with
        | .error fault => (.error fault, t)
        | .ok text => x.expand place read root x.depthLimit.toNat [root] text.toList t := by
  obtain ⟨t, hfetch, hagrees, hwarnings, hvisited⟩ := fetch_apply (Trace.agrees_start read) root
  refine ⟨t, ⟨hagrees, ?_, hvisited⟩, ?_⟩
  · rw [hwarnings]
    exact (List.append_nil _).symm
  · unfold expandFile
    cases hread : read root with
    | error fault =>
      rw [hread] at hfetch
      exact bind_apply_error hfetch
    | ok text =>
      rw [hread] at hfetch
      exact bind_apply_ok hfetch

/-- A bundle holds no error if and only if the expansion of the file gave an answer, which is then
its text. -/
theorem resolve_isOk_iff_expandFile :
    (x.resolve place read root).1.isOk = true ↔
      ∃ s t, x.expandFile place read root .start = (.ok s, t) ∧
        (x.resolve place read root).1 = ⟨s, t.visited, none, t.warnings⟩ := by
  unfold resolve
  rcases x.expandFile place read root .start with ⟨fault | s, t⟩
  · simp [Bundle.isOk]
  · exact ⟨fun _ => ⟨s, t, rfl, rfl⟩, fun _ => rfl⟩

/-- A file is resolved without a fault only if the part of the include graph that it reaches is
expandable. -/
theorem expandable_of_isOk (h : (x.resolve place read root).1.isOk = true) :
    x.Expandable place read root := by
  obtain ⟨t, hfollows, happly⟩ := expandFile_apply x place read root
  obtain ⟨s, t', hexpand, -⟩ := resolve_isOk_iff_expandFile.1 h
  rw [happly] at hexpand
  split at hexpand
  · cases hexpand
  · rename_i text hread
    exact Succeeds.expandable ⟨text, t, s, t', hread, hfollows.agrees, hexpand⟩

/-- A file that can be expanded is resolved. -/
theorem Expandable.isOk (h : x.Expandable place read root) :
    (x.resolve place read root).1.isOk = true := by
  obtain ⟨t, hfollows, happly⟩ := expandFile_apply x place read root
  obtain ⟨text, hread⟩ := h.readable root .refl
  obtain ⟨s, t', hexpand⟩ := h.succeeds hfollows.agrees hread
  rw [hread] at happly
  unfold resolve
  rw [happly.trans hexpand]
  rfl

/-- A bundle without an error holds what the text of the file unfolds to. -/
theorem resolve_eq_of_isOk (h : (x.resolve place read root).1.isOk = true) :
    ∃ text u, read root = .ok text ∧
      x.Unfolds place read root root (x.grammar.segments text.toList) u ∧
      (x.resolve place read root).1 =
        ⟨u.content, u.visits.foldl (Trace.note root) [], none, u.warnings⟩ := by
  obtain ⟨t, hfollows, happly⟩ := expandFile_apply x place read root
  obtain ⟨s, t', hexpand, hresolve⟩ := resolve_isOk_iff_expandFile.1 h
  rw [happly] at hexpand
  split at hexpand
  · cases hexpand
  · rename_i text hread
    obtain ⟨u, hunfolds, rfl, hfollows'⟩ := unfolds_of_expand hfollows.agrees hexpand
    have hall : Trace.Follows read root .start u t' := hfollows.trans hfollows'
    refine ⟨text, u, hread, hunfolds, ?_⟩
    rw [hresolve, hall.visited, hall.warnings]
    rfl

/-- The files that were noted are those that were entered, less the root. -/
theorem mem_foldl_note {visits visited : List Path} {p : Path} :
    p ∈ visits.foldl (Trace.note root) visited ↔ p ∈ visited ∨ p ∈ visits ∧ p ≠ root := by
  induction visits generalizing visited with
  | nil => simp
  | cons q visits ih =>
    rw [List.foldl_cons, ih]
    unfold Trace.note
    split
    · rename_i h
      grind
    · rename_i h
      grind

/-- No file is among the files that it depends on. -/
theorem root_notMem_dependencies (x : Expander) (place : Place) (read : Reads) (root : Path) :
    root ∉ (x.resolve place read root).1.dependencies := by
  by_cases h : (x.resolve place read root).1.isOk = true
  · obtain ⟨text, u, -, -, hresolve⟩ := resolve_eq_of_isOk h
    rw [hresolve, mem_foldl_note]
    simp
  · unfold resolve at h ⊢
    split at h
    · exact absurd rfl h
    · simp

/-- A file is resolved without a fault if and only if the part of the include graph that it reaches
is expandable. The bundle then holds the one thing that its text unfolds to: the content, the
warnings, and the files that were entered, each at its first visit. -/
theorem resolve_isOk_iff (x : Expander) (place : Place) (read : Reads) (root : Path) :
    ((x.resolve place read root).1.isOk = true ↔ x.Expandable place read root) ∧
      (x.Expandable place read root → ∃ text u, read root = .ok text ∧
        (∀ v, x.Unfolds place read root root (x.grammar.segments text.toList) v ↔ v = u) ∧
        (x.resolve place read root).1 =
          ⟨u.content, u.visits.foldl (Trace.note root) [], none, u.warnings⟩) := by
  refine ⟨⟨expandable_of_isOk, Expandable.isOk⟩, fun h => ?_⟩
  obtain ⟨text, u, hread, hunfolds, hresolve⟩ := resolve_eq_of_isOk h.isOk
  exact ⟨text, u, hread, fun v => ⟨fun hv => hv.unique hunfolds, fun hv => hv ▸ hunfolds⟩, hresolve⟩

/-! ## A sample -/

namespace Sample

/-- A file of the sample. -/
def file (name : String) : Path := ⟨.absolute, ["site", name]⟩

/-- The files of the sample: the first includes the others, and the second includes the third
too. -/
def reads : Reads := fun p =>
  match [(file "a.html", "[PageBundler.include('b')|PageBundler.include('c')]"),
    (file "b.html", "b PageBundler.include('c')"),
    (file "c.html", "PageBundler.include.x;PageBundler.include.y;")].lookup p with
  | some text => .ok text
  | none => .error (.missingText p)

/-- The expander of the sample, with as little room as it needs. -/
def expander : Expander :=
  ⟨"PageBundler", ⟨"PageBundler".toList, .includes⟩, [("x", "PageBundler.include('a')")], 2, false⟩

/-- The place of the sample. -/
def directory : Place := ⟨⟨.absolute, ["site"]⟩, "/home", .usual⟩

end Sample

open Sample in
/-- A file that is included twice, from files at two depths, gives its warning twice and is listed
once. -/
theorem resolve_isOk_sample :
    expander.Expandable directory reads (file "a.html") ∧
      ∃ text u, reads (file "a.html") = .ok text ∧
      expander.Unfolds directory reads (file "a.html") (file "a.html")
        (expander.grammar.segments text.toList) u ∧
      u.warnings =
        ["Property 'y' not found in include properties",
          "Property 'y' not found in include properties"] ∧
      u.visits.foldl (Trace.note (file "a.html")) [] = [file "b.html", file "c.html"] := by
  -- That nothing failed is computed, also that the value of `x` was not read as a directive, which
  -- would be a cycle.
  have hresolve : (expander.resolve directory reads (file "a.html")).1.isOk = true ∧
      (expander.resolve directory reads (file "a.html")).1.warnings =
        ["Property 'y' not found in include properties",
          "Property 'y' not found in include properties"] ∧
      (expander.resolve directory reads (file "a.html")).1.dependencies =
          [file "b.html", file "c.html"] := by
    decide +kernel
  obtain ⟨hok, hwarnings, hdependencies⟩ := hresolve
  have hexpandable := (resolve_isOk_iff expander directory reads (file "a.html")).1.1 hok
  obtain ⟨text, u, hread, hunfolds, hbundle⟩ :=
    (resolve_isOk_iff expander directory reads (file "a.html")).2 hexpandable
  rw [hbundle] at hwarnings hdependencies
  exact ⟨hexpandable, text, u, hread, (hunfolds u).2 rfl, hwarnings, hdependencies⟩

end StaticSite.Expander
