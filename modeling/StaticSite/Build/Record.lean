import StaticSite.Site.Settings

/-!
# Dependency records

What the last good build of a page or stylesheet was made from. Records are kept by key, the source
with the output filename, in the order in which the keys first came; a new record of a key takes the
place of the old one.
-/

namespace StaticSite

/-- What a record is kept for. -/
inductive RecordKind where
  /-- A page. -/
  | page
  /-- A stylesheet. -/
  | style
deriving DecidableEq, Repr

/-- The name of a kind. -/
def RecordKind.name : RecordKind → String
  | page => "page"
  | style => "style"

/-- The record of a page or stylesheet. -/
structure Record where
  /-- The source. -/
  root : Path
  /-- What was built. -/
  kind : RecordKind
  /-- The output filename of the configuration. -/
  output : String
  /-- The files it was made from: for a stylesheet all of them, for a page all but the source. -/
  dependencies : List Path
deriving DecidableEq, Repr

namespace Record

/-- The key of a record: the source and the output filename. -/
abbrev Key := Path × String

/-- The key of a record. -/
def key (r : Record) : Key := (r.root, r.output)

/-- Whether a file is one of those that a record names. -/
def names (r : Record) (p : Path) : Bool := r.dependencies.contains p

end Record

/-- Records, one for each key. -/
abbrev Records := List Record

namespace Records

/-- The record of a key. -/
def find? (rs : Records) (k : Record.Key) : Option Record := List.find? (fun r => r.key == k) rs

/-- Keeps a record: in the place of the old one of its key, or at the end. -/
def keep (rs : Records) (new : Record) : Records :=
  match rs with
  | [] => [new]
  | r :: rest => if r.key = new.key then new :: rest else r :: keep rest new

/-- The records that name a file. -/
def owners (rs : Records) (p : Path) : Records := rs.filter (·.names p)

/-- A record that was kept is found. -/
@[simp] theorem find?_keep_self (rs : Records) (new : Record) :
    (keep rs new).find? new.key = some new := by
  induction rs with
  | nil => simp [keep, find?]
  | cons r rest ih =>
    by_cases h : r.key = new.key
    · simp [keep, find?, h]
    · have hb : (r.key == new.key) = false := by simpa using h
      simpa [keep, find?, h, List.find?_cons, hb] using ih

/-- Keeping a record changes no other. -/
theorem find?_keep_of_ne (rs : Records) (new : Record) {k : Record.Key} (hk : k ≠ new.key) :
    (keep rs new).find? k = rs.find? k := by
  have hn : (new.key == k) = false := by simpa using Ne.symm hk
  induction rs with
  | nil => simp [keep, find?, hn]
  | cons r rest ih =>
    by_cases h : r.key = new.key
    · have hr : (r.key == k) = false := by simpa [h] using Ne.symm hk
      simp [keep, find?, h, hn]
    · by_cases hr : (r.key == k) = true
      · simp [keep, find?, h, hr]
      · simpa [keep, find?, h, List.find?_cons, hr] using ih

/-- The keys stay in the order in which they first came. -/
theorem map_key_keep (rs : Records) (new : Record) :
    (keep rs new).map Record.key =
      if new.key ∈ rs.map Record.key then rs.map Record.key else rs.map Record.key ++
        [new.key] := by
  induction rs with
  | nil => simp [keep]
  | cons r rest ih =>
    by_cases h : r.key = new.key
    · simp [keep, h]
    · have h' : ¬new.key = r.key := fun e => h e.symm
      simp only [keep, h, if_false, List.map_cons, ih, List.mem_cons, h', false_or]
      split <;> simp

end Records

end StaticSite
