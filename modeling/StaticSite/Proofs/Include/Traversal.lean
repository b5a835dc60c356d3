import StaticSite.Proofs.Include.Locality

/-!
# The order of reading

An expansion tries to read no file twice, and one that gives an answer has read its root and its
dependencies, in the order in which a walk through the tree of includes meets them first
(`resolve_reads_once`). The tree is that of the files alone (`IsTree`): it knows of no text that is
kept and of no file that was visited. That no file is read twice rests on one fact about the trace,
which every step keeps (`Trace.IsOrderly`): the texts that are kept are those of the files that were
read, which are the root and the files visited so far.
-/

namespace StaticSite

/-! ## The tree of includes -/

/-- A file with what is included in it, part by part. -/
inductive IncludeTree where
  /-- The file, and a tree for each reference in it. -/
  | file (path : Path) (parts : List IncludeTree)

namespace IncludeTree

mutual

/-- The files of a tree, each before its parts and the parts from left to right. -/
def preorder : IncludeTree → List Path
  | file p parts => p :: preorderAll parts

/-- The files of some trees, one tree after another. -/
def preorderAll : List IncludeTree → List Path
  | [] => []
  | tree :: trees => preorder tree ++ preorderAll trees

end

end IncludeTree

namespace Expander

/-- Trees of what some references in a file include, one for each. -/
inductive IsForest (x : Expander) (place : Place) (read : Reads) (root : Path) :
    Path → List (List Char) → List IncludeTree → Prop where
  /-- No reference includes anything. -/
  | nil (p : Path) : IsForest x place read root p [] []
  /-- A reference includes the file that it names, and what the references in that file include. -/
  | cons {p q : Path} {text : String} {reference : List Char} {rest : List (List Char)}
      {parts trees : List IncludeTree}
      (htarget : target place root p reference = .ok q) (hread : read q = .ok text)
      (hparts : IsForest x place read root q (x.references (x.grammar.segments text.toList)) parts)
      (hrest : IsForest x place read root p rest trees) :
      IsForest x place read root p (reference :: rest) (.file q parts :: trees)

/-- The tree of includes that starts from a root. -/
def IsTree (x : Expander) (place : Place) (read : Reads) (root : Path)
    (tree : IncludeTree) : Prop :=
  ∃ text parts, read root = .ok text ∧
    x.IsForest place read root root (x.references (x.grammar.segments text.toList)) parts ∧
      tree = .file root parts

variable {x : Expander} {place : Place} {read : Reads} {root : Path}

/-- References include one list of trees at most. -/
theorem IsForest.unique {p : Path} {references : List (List Char)} {trees trees' : List IncludeTree}
    (h : x.IsForest place read root p references trees)
    (h' : x.IsForest place read root p references trees') :
    trees' = trees := by
  induction h generalizing trees' with
  | nil => cases h'; rfl
  | cons htarget hread _ _ ihparts ihrest =>
    cases h' with
    | cons htarget' hread' hparts' hrest' =>
      obtain rfl := Except.ok.inj (htarget.symm.trans htarget')
      obtain rfl := Except.ok.inj (hread.symm.trans hread')
      rw [ihparts hparts', ihrest hrest']

/-- A file has one include tree. -/
theorem IsTree.unique {tree tree' : IncludeTree} (h : x.IsTree place read root tree)
    (h' : x.IsTree place read root tree') : tree' = tree := by
  obtain ⟨text, parts, hread, hparts, rfl⟩ := h
  obtain ⟨text', parts', hread', hparts', rfl⟩ := h'
  obtain rfl := Except.ok.inj (hread.symm.trans hread')
  rw [hparts.unique hparts']

/-- What unfolds enters the files of its trees in their order. -/
theorem Unfolds.exists_forest {p : Path} {segments : List Segment} {u : Unfolded}
    (h : x.Unfolds place read root p segments u) :
    ∃ trees, x.IsForest place read root p (x.references segments) trees ∧
      IncludeTree.preorderAll trees = u.visits := by
  induction h with
  | nil p => exact ⟨[], .nil p, rfl⟩
  | text s _ ih => exact ih
  | property name raw _ ih =>
    obtain ⟨trees, htrees, hvisits⟩ := ih
    refine ⟨trees, htrees, ?_⟩
    rw [Unfolded.append, propertyUnfolded_visits, List.nil_append, hvisits]
  | external hexternal _ ih =>
    obtain ⟨trees, htrees, hvisits⟩ := ih
    refine ⟨trees, ?_, hvisits⟩
    simpa only [references, List.filterMap_cons, hexternal, if_true] using htrees
  | @file p q rest u v path raw text hlocal htarget hread _ _ ihfile ihrest =>
    obtain ⟨parts, hparts, hvisits⟩ := ihfile
    obtain ⟨trees, htrees, hvisits'⟩ := ihrest
    refine ⟨.file q parts :: trees, ?_, ?_⟩
    · have hreferences : x.references (.directive (.file path) raw :: rest) =
          path :: x.references rest := by
        simp only [references, List.filterMap_cons, hlocal, Bool.false_eq_true, if_false]
      rw [hreferences]
      exact .cons htarget hread hparts htrees
    · rw [IncludeTree.preorderAll, IncludeTree.preorder, hvisits, hvisits']
      rfl

end Expander

/-! ## First visits -/

/-- The files that are noted one after another, and the root before them, are the root and these
files, each once, in the order in which they come first. -/
theorem Trace.cons_foldl_note (root : Path) (visits : List Path) :
    root :: visits.foldl (note root) [] = (root :: visits).eraseDups := by
  -- Noting appends to the files noted before what is new among the others.
  have hfoldl : ∀ visited : List Path, visits.foldl (note root) visited =
      visited ++ (visits.filter fun p => p ∉ root :: visited).eraseDups := by
    induction visits with
    | nil => simp
    | cons p visits ih =>
      intro visited
      rw [List.foldl_cons, ih]
      unfold note
      by_cases hp : p = root ∨ p ∈ visited
      · have hold : decide (p ∉ root :: visited) = false :=
          decide_eq_false (not_not_intro (List.mem_cons.2 hp))
        rw [if_pos hp, List.filter_cons_of_neg (by rw [hold]; exact Bool.false_ne_true)]
      · rw [if_neg hp, List.filter_cons_of_pos (by simpa using hp), List.eraseDups_cons,
          List.filter_filter, List.append_assoc, List.singleton_append]
        have hsame : ∀ q, decide (q ∉ root :: (visited ++ [p])) =
            (!(q == p) && decide (q ∉ root :: visited)) := by
          intro q
          by_cases hq : q = p <;> simp [hq]
        simp only [hsame]
  rw [hfoldl, List.eraseDups_cons, List.nil_append]
  congr 2
  refine List.filter_congr fun p _ => ?_
  by_cases hp : p = root <;> simp [hp]

/-- A trace that read each file once: it read the root and the files visited, and keeps the texts of
these. -/
structure Trace.IsOrderly (root : Path) (t : Trace) : Prop where
  /-- The files that were read, in order. -/
  reads : t.reads = root :: t.visited
  /-- None was read twice. -/
  nodup : t.reads.Nodup
  /-- Their texts are kept. -/
  kept : ∀ p, (t.texts.lookup p).isSome = true ↔ p ∈ t.reads

/-- A step from an orderly trace reads no file twice, and leads to an orderly trace again if it
gives an answer. -/
def Expansion.ReadsOnce (root : Path) {α : Type} (a : Expansion α) : Prop :=
  ∀ t : Trace, t.IsOrderly root → (a t).2.reads.Nodup ∧ ∀ y, (a t).1 = .ok y →
    (a t).2.IsOrderly root

namespace Expansion

variable {root : Path} {α β : Type}

/-- An answer reads no file. -/
theorem ReadsOnce.pure (y : α) : ReadsOnce root (pure y) := fun _ ht => ⟨ht.nodup, fun _ _ => ht⟩

/-- A fault reads no file. -/
theorem ReadsOnce.throw (fault : Fault) : ReadsOnce root (throw fault : Expansion α) :=
  fun _ ht => ⟨ht.nodup, fun _ _ => ht⟩

/-- Two steps read no file twice, if each of them reads none that was read before. -/
theorem ReadsOnce.bind {a : Expansion α} {f : α → Expansion β} (ha : ReadsOnce root a)
    (hf : ∀ y, ReadsOnce root (f y)) :
    ReadsOnce root (a >>= f) := by
  intro t ht
  obtain ⟨hnodup, horderly⟩ := ha t ht
  rw [bind_apply]
  rcases h : a t with ⟨fault | y, t'⟩ <;> rw [h] at hnodup horderly
  · exact ⟨hnodup, fun y hy => by cases hy⟩
  · exact hf y t' (horderly y rfl)

end Expansion

namespace Expander

open Expansion (ReadsOnce)

variable {x : Expander} {place : Place} {read : Reads} {root : Path}

/-- A file whose text is kept is not read, and any other one is for the first time. -/
theorem readsOnce_enter (p : Path) : ReadsOnce root (enter read root p) := by
  intro t ht
  cases h : t.texts.lookup p with
  | some s =>
    -- A file that is kept was noted before.
    have hp : p ∈ root :: t.visited := by
      rw [← ht.reads, ← ht.kept, h]
      rfl
    have hnote : Trace.note root t.visited p = t.visited := if_pos (List.mem_cons.1 hp)
    rw [enter_of_kept read h, hnote]
    exact ⟨ht.nodup, fun _ _ => ht⟩
  | none =>
    have hp : p ∉ t.reads := by
      rw [← ht.kept, h]
      simp
    have hnodup : (t.reads ++ [p]).Nodup :=
      List.nodup_append.2 ⟨ht.nodup, List.pairwise_singleton _ p,
        fun a ha b hb => by rw [List.mem_singleton.1 hb]; exact fun hab => hp (hab ▸ ha)⟩
    rw [enter_of_read read h]
    cases read p with
    | error fault => exact ⟨hnodup, fun y hy => by cases hy⟩
    | ok text =>
      refine ⟨hnodup, fun _ _ => ⟨?_, hnodup, fun q => ?_⟩⟩
      · have hnote : Trace.note root t.visited p = t.visited ++ [p] :=
          if_neg fun h => hp (by rw [ht.reads]; exact List.mem_cons.2 h)
        simp only [hnote, ht.reads, List.cons_append]
      · by_cases hq : q = p
        · simp [hq]
        · rw [List.lookup_cons, beq_false_of_ne hq, ht.kept]
          simp [hq]

/-- Including a file reads none by itself. -/
theorem readsOnce_included (chain : List Path) (reference : List Char) :
    ReadsOnce root (included place root chain reference) := by
  intro t ht
  rw [(included_quiet chain reference t).1]
  exact ⟨ht.nodup, fun _ _ => ht⟩

/-- A property reads no file. -/
theorem readsOnce_property (name : List Char) : ReadsOnce root (x.property name) := by
  intro t ht
  unfold property
  cases x.properties.lookup (String.ofList name) with
  | some value => exact ⟨ht.nodup, fun _ _ => ht⟩
  | none => exact ⟨ht.nodup, fun _ _ => ⟨ht.reads, ht.nodup, ht.kept⟩⟩

/-- Joining the segments of a text reads no file twice, if inserting files does not. -/
theorem readsOnce_join {insert : List Char → Expansion (List Char)}
    (hinsert : ∀ reference, ReadsOnce root (insert reference)) (segments : List Segment) :
    ReadsOnce root (x.join insert segments) := by
  induction segments with
  | nil => exact .pure _
  | cons segment rest ih =>
    have hfirst : ReadsOnce root (x.replacement insert segment) := by
      match segment with
      | .text s => exact .pure _
      | .directive (.property name) raw => exact readsOnce_property name
      | .directive (.file path) raw =>
        simp only [replacement]
        split
        · exact .pure _
        · exact hinsert path
    rw [join_cons]
    exact hfirst.bind fun first => ih.bind fun second => .pure _

/-- An expansion reads no file twice. -/
theorem readsOnce_expand (room : Nat) (chain : List Path) (text : List Char) :
    ReadsOnce root (x.expand place read root room chain text) := by
  -- The induction is on the room, as in `unfolds_of_expand`.
  induction room generalizing chain text with
  | zero =>
    rw [expand_eq_join]
    exact readsOnce_join
      (fun reference => (readsOnce_included chain reference).bind fun p => .throw _) _
  | succ room ih =>
    rw [expand_eq_join]
    refine readsOnce_join (fun reference => ?_) _
    have henter : x.insertion place read root chain (room + 1) reference =
        included place root chain reference >>= fun p =>
          enter read root p >>= x.expand place read root room (p :: chain) := by
      simp only [insertion, enter, bind_assoc, pure_bind]
    rw [henter]
    exact (readsOnce_included chain reference).bind fun p => (readsOnce_enter p).bind fun source =>
      ih (p :: chain) source

/-- Expanding a file reads no file twice, and leads to an orderly trace if it gives an answer. -/
theorem readsOnce_expandFile (x : Expander) (place : Place) (read : Reads) (root : Path) :
    (x.expandFile place read root .start).2.reads.Nodup ∧
      ∀ s, (x.expandFile place read root .start).1 = .ok s →
        (x.expandFile place read root .start).2.IsOrderly root := by
  -- The trace is orderly once the root is read.
  have henter : enter read root root .start = _ := enter_of_read read rfl
  have hnote : Trace.note root [] root = [] := if_pos (.inl rfl)
  rw [expandFile_eq, bind_apply]
  cases hread : read root with
  | error fault =>
    rw [hread] at henter
    rw [henter]
    exact ⟨List.pairwise_singleton _ root, fun s hs => by cases hs⟩
  | ok text =>
    rw [hread] at henter
    rw [henter]
    refine readsOnce_expand _ _ _ _ ⟨?_, List.pairwise_singleton _ root, fun p => ?_⟩
    · simp only [Trace.start, hnote, List.nil_append]
    · by_cases hp : p = root
      · simp [Trace.start, hp]
      · simp [Trace.start, List.lookup_cons, beq_false_of_ne hp, hp]

/-- No file is read twice to resolve a file, whatever fails. If nothing fails then the file and its
dependencies are read, in this order, which is that in which a walk through the tree of includes,
from each file to its parts and from left to right, meets them first. -/
theorem resolve_reads_once (x : Expander) (place : Place) (read : Reads) (root : Path) :
    (x.resolve place read root).2.reads.Nodup ∧
      ((x.resolve place read root).1.isOk = true →
        (x.resolve place read root).2.reads = root :: (x.resolve place read root).1.dependencies ∧
        (x.resolve place read root).1.dependencies.Nodup ∧
          root ∉ (x.resolve place read root).1.dependencies ∧
        ∃ tree, (∀ tree', x.IsTree place read root tree' ↔ tree' = tree) ∧
          root :: (x.resolve place read root).1.dependencies = tree.preorder.eraseDups) := by
  obtain ⟨hnodup, horderly⟩ := readsOnce_expandFile x place read root
  rw [reads_resolve]
  refine ⟨hnodup, fun hok => ?_⟩
  obtain ⟨s, t, hexpand, hresolve⟩ := resolve_isOk_iff_expandFile.1 hok
  rw [hexpand] at hnodup horderly
  have hreads : t.reads = root :: (x.resolve place read root).1.dependencies := by
    rw [(horderly s rfl).reads, hresolve]
  obtain ⟨hroot, hdependencies⟩ := List.nodup_cons.1 (hreads ▸ hnodup)
  obtain ⟨text, u, hread, hunfolds, hunfolded⟩ := resolve_eq_of_isOk hok
  obtain ⟨parts, hparts, hvisits⟩ := hunfolds.exists_forest
  have htree : x.IsTree place read root (.file root parts) := ⟨text, parts, hread, hparts, rfl⟩
  refine ⟨by rw [hexpand, hreads], hdependencies, hroot, .file root parts,
    fun tree' => ⟨htree.unique, fun h => h ▸ htree⟩, ?_⟩
  rw [hunfolded, Trace.cons_foldl_note, IncludeTree.preorder, hvisits]

/-! ## A sample -/

namespace Sample

/-- The first file includes the second, which includes the third, and then the third once more by a
detour. -/
def detour : Reads := fun p =>
  match [(file "a.html", "PageBundler.include('b')PageBundler.include('./x/../c')"),
    (file "b.html", "PageBundler.include('/c.html')"), (file "c.html", "c")].lookup p with
  | some text => .ok text
  | none => .error (.missingText p)

end Sample

open Sample in
/-- A file that is included twice, at two depths and by two names, is read once and listed once. -/
theorem resolve_reads_once_sample :
    (expander.resolve directory detour (file "a.html")).1.isOk = true ∧
      (expander.resolve directory detour (file "a.html")).2.reads =
        [file "a.html", file "b.html", file "c.html"] ∧
      (expander.resolve directory detour (file "a.html")).1.dependencies =
        [file "b.html", file "c.html"] ∧
      ∃ tree, expander.IsTree directory detour (file "a.html") tree ∧
        tree.preorder.eraseDups = [file "a.html", file "b.html", file "c.html"] := by
  have hok : (expander.resolve directory detour (file "a.html")).1.isOk = true := by decide +kernel
  have hdependencies : (expander.resolve directory detour (file "a.html")).1.dependencies =
      [file "b.html", file "c.html"] := by decide +kernel
  obtain ⟨hreads, -, -, tree, htree, hpreorder⟩ :=
    (resolve_reads_once expander directory detour (file "a.html")).2 hok
  rw [hdependencies] at hreads hpreorder
  exact ⟨hok, hreads, hdependencies, tree, (htree tree).2 rfl, hpreorder.symm⟩

end Expander

end StaticSite
