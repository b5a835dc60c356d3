import StaticSite.Path.Basic

/-!
# File trees

A tree of directories and files as a finite map from locations to entries. A location is the list of
names from the root; the root is always a directory. Each file carries a stamp, which a write
replaces, so that a reader can tell whether a file was written since it looked. `at_put_self` and
`at_put_of_ne` say what a write does to each location, `at_erase` what a removal does.
-/

namespace StaticSite

/-- A place in a tree: the names from the root on. -/
abbrev Location := List String

/-- When a file was written. -/
inductive Stamp where
  /-- At a time that was set from outside. -/
  | given (time : Int)
  /-- By the write with this number. -/
  | fresh (count : Nat)
deriving DecidableEq, Repr

/-- Two byte arrays are compared byte by byte. -/
instance instDecidableEqBytes : DecidableEq ByteArray := ByteArray.decEq

/-- What stands at a location. -/
inductive Tree.Entry where
  /-- A directory. -/
  | directory
  /-- A file with its bytes. -/
  | file (bytes : ByteArray) (stamp : Stamp)
deriving DecidableEq

/-- Whether an entry is a directory. -/
def Tree.Entry.isDirectory : Tree.Entry → Bool
  | directory => true
  | file _ _ => false

/-- A tree. -/
structure Tree where
  /-- The entries below the root, each location once. -/
  entries : List (Location × Tree.Entry)

namespace Tree

/-- The tree that holds the root alone. -/
def empty : Tree := ⟨[]⟩

/-- What stands at a location. -/
def at? (t : Tree) (l : Location) : Option Entry :=
  if l = [] then some .directory else t.entries.lookup l

/-- The tree with an entry put at a location. -/
def put (t : Tree) (l : Location) (e : Entry) : Tree :=
  ⟨(l, e) :: t.entries.filter fun old => old.1 != l⟩

/-- The tree without a location and all below it. -/
def erase (t : Tree) (l : Location) : Tree := ⟨t.entries.filter fun old => !l.isPrefixOf old.1⟩

/-- The names in a directory, in order. -/
def names (t : Tree) (l : Location) : List String :=
  (t.entries.filterMap fun e =>
    match e.1.getLast? with
    | some name => if e.1.dropLast = l then some name else none
    | none => none).mergeSort fun a b => !(b < a)

/-- Two trees with the same entry at every location. -/
def Same (t u : Tree) : Prop := ∀ l, t.at? l = u.at? l

/-- An entry is found whether or not those at another location are left out. -/
theorem lookup_filter_ne {l k : Location} (es : List (Location × Entry)) (h : l ≠ k) :
    (es.filter fun old => old.1 != k).lookup l = es.lookup l := by
  induction es with
  | nil => rfl
  | cons e es ih =>
    obtain ⟨m, x⟩ := e
    by_cases hm : m = k
    · have hl : (l == m) = false := by simpa [hm] using h
      simp [List.lookup_cons, hm, ih, hm ▸ hl]
    · simp only [List.filter_cons, bne_iff_ne, ne_eq, hm, not_false_eq_true, if_true,
        List.lookup_cons, ih]

/-- The root is a directory. -/
@[simp] theorem at_root (t : Tree) : t.at? [] = some .directory := rfl

/-- A write puts its entry at its location. -/
theorem at_put_self (t : Tree) {l : Location} (e : Entry) (h : l ≠ []) :
    (t.put l e).at? l = some e := by
  simp [at?, put, h]

/-- A write leaves every other location as it was. -/
theorem at_put_of_ne (t : Tree) {l k : Location} (e : Entry) (h : l ≠ k) :
    (t.put k e).at? l = t.at? l := by
  unfold at? put
  by_cases hl : l = []
  · simp [hl]
  · have hk : (l == k) = false := by simpa using h
    simp [hl, List.lookup_cons, hk, lookup_filter_ne _ h]

/-- Without what lies at a location and below, the rest is found and that is not. -/
theorem lookup_filter_prefix {l k : Location} (es : List (Location × Entry)) :
    (es.filter fun old => !k.isPrefixOf old.1).lookup l =
      if k.isPrefixOf l then none else es.lookup l := by
  induction es with
  | nil => simp
  | cons e es ih =>
    obtain ⟨m, x⟩ := e
    by_cases hm : k.isPrefixOf m = true
    · by_cases hl : l = m
      · subst hl
        simp [hm, ih]
      · have hlm : (l == m) = false := by simpa using hl
        simp [hm, ih, List.lookup_cons, hlm]
    · by_cases hl : l = m
      · subst hl
        simp [hm]
      · have hlm : (l == m) = false := by simpa using hl
        simp [hm, ih, List.lookup_cons, hlm]

/-- A removal takes away what stands at a location and below it, and nothing else. -/
theorem at_erase (t : Tree) {l k : Location} (h : l ≠ []) :
    (t.erase k).at? l = if k.isPrefixOf l then none else t.at? l := by
  simp [at?, erase, h, lookup_filter_prefix]

end Tree

end StaticSite
