import Mathlib.Logic.Relation
import Mathlib.Data.List.Chain
import StaticSite.Include.Expansion
import StaticSite.Site.Address

/-!
# The include graph

The files that an expansion can meet form a graph: a file includes another if its text holds a
reference that names the other in the directory of the file. What a reference names depends on the
root of the expansion too, from which it may take its suffix, so there is a graph for each root.
`Expandable` says what the part of it that the root reaches has to be like for the root to be
expanded: every file can be read, every reference names something, nothing lies on a cycle, and no
path is longer than the limit of the expander.
-/

namespace StaticSite.Expander

open Relation (ReflTransGen TransGen)

/-- The references among some segments to files that are put in their place. -/
def references (x : Expander) (segments : List Segment) : List (List Char) :=
  segments.filterMap fun
    | .directive (.file path) _ => if x.keepExternal && isExternal path then none else some path
    | _ => none

/-- A file includes another: its text holds a reference that names the other. -/
def Includes (x : Expander) (place : Place) (read : Reads) (root p q : Path) : Prop :=
  ∃ text, read p = .ok text ∧
    ∃ reference ∈ x.references (x.grammar.segments text.toList),
    target place root p reference = .ok q

/-- A file is reached from the root. -/
def Reaches (x : Expander) (place : Place) (read : Reads) (root p : Path) : Prop :=
  ReflTransGen (x.Includes place read root) root p

/-- The part of the include graph that the root reaches can be unfolded. -/
structure Expandable (x : Expander) (place : Place) (read : Reads) (root : Path) : Prop where
  /-- Every file that is reached, the root among them, can be read. -/
  readable : ∀ p, x.Reaches place read root p → ∃ text, read p = .ok text
  /-- No reference in a file that is reached is empty without the separators at its front. -/
  named : ∀ p text, x.Reaches place read root p → read p = .ok text →
    ∀ reference ∈ x.references (x.grammar.segments text.toList), Address.relativeName reference ≠ []
  /-- No file that is reached lies on a cycle. -/
  acyclic : ∀ p, x.Reaches place read root p → ¬TransGen (x.Includes place read root) p p
  /-- No path from the root has more includes than the limit allows; a limit below zero allows
  none. -/
  shallow : ∀ ps, (root :: ps).IsChain (x.Includes place read root) → ps.length ≤ x.depthLimit.toNat

/-- A reference names nothing if and only if it is empty without the separators at its front. -/
theorem target_eq_ok_iff {place : Place} {root container : Path} {reference : List Char} :
    (∃ q, target place root container reference = .ok q) ↔ Address.relativeName reference ≠ [] := by
  by_cases hname : Address.relativeName reference = []
  · have herror : target place root container reference = .error (.emptyReference container) :=
      if_pos (List.isEmpty_iff.2 hname)
    rw [herror]
    exact ⟨fun ⟨_, hq⟩ => (by cases hq), fun h => absurd hname h⟩
  · exact ⟨fun _ => hname, fun _ => ⟨_, if_neg fun h => hname (List.isEmpty_iff.1 h)⟩⟩

variable {x : Expander} {place : Place} {read : Reads} {root : Path}

/-- Every file of a path that ends at `p`, which is listed from its end, leads to `p`. -/
theorem reflTransGen_of_mem_chain {r : Path → Path → Prop} {p q : Path} {chain : List Path}
    (h : (p :: chain).IsChain (fun a b => r b a)) (hq : q ∈ p :: chain) : ReflTransGen r q p := by
  induction chain generalizing p with
  | nil => rw [List.mem_singleton.1 hq]
  | cons a chain ih =>
    obtain ⟨hap, hchain⟩ := List.isChain_cons_cons.1 h
    rcases List.mem_cons.1 hq with rfl | hq
    · exact .refl
    · exact .tail (ih hchain hq) hap

/-- The files of a path from the root are reached, and the path, listed from the root on, is a chain
of includes. -/
theorem Expandable.length_le (h : x.Expandable place read root) {p : Path} {chain : List Path}
    (hchain : (p :: chain).IsChain (fun a b => x.Includes place read root b a))
    (hroot : (p :: chain).getLast? = some root) : chain.length ≤ x.depthLimit.toNat := by
  have hrev : (p :: chain).reverse.IsChain (x.Includes place read root) :=
    List.isChain_reverse.2 hchain
  have hhead : (p :: chain).reverse.head? = some root := by rw [List.head?_reverse, hroot]
  obtain ⟨ps, hps⟩ := List.head?_eq_some_iff.1 hhead
  rw [hps] at hrev
  have hlen := congrArg List.length hps
  have := h.shallow ps hrev
  simp only [List.length_reverse, List.length_cons] at hlen
  omega

end StaticSite.Expander
