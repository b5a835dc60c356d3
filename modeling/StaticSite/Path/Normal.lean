import StaticSite.Path.Basic

/-!
# Normal paths

Records compare paths by value, so every path that enters one is made absolute and normal first: the
home directory is filled in, a relative path is put below a base, and the name of the parent
directory takes back the name before it. `mem_normalNames` says that no parent directory is left,
and `normalNames_eq_self` that names without one stay as they are.
-/

namespace StaticSite

/-- The home directories of users. -/
structure Homes where
  /-- That of the user who runs the program. -/
  own : String
  /-- Those of all users that the system knows, by their names. -/
  users : List (String × String)
deriving DecidableEq, Repr

/-- A home directory where no other user is known. -/
instance : Coe String Homes := ⟨fun own => ⟨own, []⟩⟩

/-- How deep a program can go down into documents and values before the system stops it. -/
structure Room where
  /-- The number of brackets of a JSON document that may be open at once. -/
  brackets : Nat
  /-- The number of lists and mappings that may lie in one another where days are turned into
  texts. -/
  levels : Nat
deriving DecidableEq, Repr

/-- About the room that a program has if nothing else is asked for. -/
def Room.usual : Room := ⟨960, 480⟩

/-- Where a program runs: the directories that relative paths and home marks refer to, and the room
that it has. -/
structure Place where
  /-- The working directory. -/
  cwd : Path
  /-- The home directories. -/
  home : Homes
  /-- The room. -/
  room : Room
deriving DecidableEq, Repr

namespace Path

/-- Goes on to a name from the names before it: the parent directory takes back the last of them. -/
def enter (names : List String) (name : String) : List String :=
  if name == ".." then names.dropLast else names ++ [name]

/-- The names without the name of the parent directory. -/
def normalNames (names : List String) : List String := names.foldl enter []

/-- A home directory with the names after it. -/
def homeWith (home : String) (rest : List Char) : String :=
  let expanded := (home.toList.reverse.dropWhile (· == '/')).reverse ++ rest
  if expanded.isEmpty then "/" else String.ofList expanded

/-- The home directory of a user; without a name it is that of the user who runs the program. -/
def homeOf? (homes : Homes) (user : List Char) : Option String :=
  if user.isEmpty then some homes.own else homes.users.lookup (String.ofList user)

/-- A text that begins with the home mark with the home directory filled in. The name of a user may
follow the mark; that of one whom the system does not know stays as it is. -/
def expandHome (homes : Homes) (s : String) : String :=
  match s.toList with
  | '~' :: rest =>
    match homeOf? homes (rest.takeWhile (· != '/')) with
    | some home => homeWith home (rest.dropWhile (· != '/'))
    | none => s
  | _ => s

/-- Whether the home directory that a text begins with can be looked up: a user's name holds no null
character. -/
def hasHome (s : String) : Bool :=
  match s.toList with
  | '~' :: rest => !(rest.takeWhile (· != '/')).contains '\x00'
  | _ => true

/-- The path `p` put below `base`, if it is relative. -/
def below (base p : Path) : Path :=
  if p.isAbsolute then p else ⟨base.root, base.names ++ p.names⟩

/-- The absolute, normal path that a text names, relative texts being put below `base`, or below the
working directory if there is no base. -/
def absolute (place : Place) (s : String) (base : Option Path) : Path :=
  let p := ofString (expandHome place.home s)
  let p := below place.cwd (match base with | some b => below b p | none => p)
  ⟨p.root, normalNames p.names⟩

/-- A text that begins otherwise than with the home mark stays. -/
theorem expandHome_eq_self {homes : Homes} {s : String} (h : s.toList.head? ≠ some '~') :
    expandHome homes s = s := by
  unfold expandHome
  split
  · rename_i heq
    rw [heq] at h
    exact absurd rfl h
  · rfl

/-- A text that begins otherwise than with the home mark needs no home directory. -/
theorem hasHome_of_head? {s : String} (h : s.toList.head? ≠ some '~') : hasHome s = true := by
  unfold hasHome
  split
  · rename_i heq
    rw [heq] at h
    exact absurd rfl h
  · rfl

/-- A normal path: it starts at a root and no name of it is the parent directory, the directory
itself, empty, or holds a separator. -/
def IsNormal (p : Path) : Prop :=
  p.root ≠ .relative ∧ ∀ n ∈ p.names, n ≠ ".." ∧ n ≠ "." ∧ n ≠ "" ∧ '/' ∉ n.toList

/-- A name that is left after entering one was there before, or is that one. -/
theorem mem_enter {names : List String} {name n : String} (h : n ∈ enter names name) :
    n ∈ names ∨ (n = name ∧ name ≠ "..") := by
  unfold enter at h
  split at h
  · exact .inl ((List.dropLast_sublist names).subset h)
  · rename_i hn
    rcases List.mem_append.1 h with h | h
    · exact .inl h
    · exact .inr ⟨by simpa using h, by simpa using hn⟩

/-- A name that is left after entering names one by one was there before, and it is none that leads
up if it was entered. -/
theorem mem_foldl_enter {names start : List String} {n : String} (h : n ∈ names.foldl enter start) :
    n ∈ start ∨ (n ∈ names ∧ n ≠ "..") := by
  induction names generalizing start with
  | nil => exact .inl h
  | cons m names ih =>
    rcases ih h with h | ⟨h, hn⟩
    · rcases mem_enter h with h | ⟨rfl, hm⟩
      · exact .inl h
      · exact .inr ⟨by simp, hm⟩
    · exact .inr ⟨by simp [h], hn⟩

/-- A name that is left after normalising was there before, and it is not the parent directory. -/
theorem mem_normalNames {names : List String} {n : String} (h : n ∈ normalNames names) :
    n ∈ names ∧ n ≠ ".." :=
  (mem_foldl_enter h).resolve_left List.not_mem_nil

/-- Names without the parent directory are normal already. -/
theorem normalNames_eq_self {names : List String} (h : ∀ n ∈ names, n ≠ "..") :
    normalNames names = names := by
  have key : ∀ (names start : List String), (∀ n ∈ names, n ≠ "..") →
      names.foldl enter start = start ++ names := by
    intro names
    induction names with
    | nil => simp
    | cons m names ih =>
      intro start h
      have hm : m ≠ ".." := h m (by simp)
      rw [List.foldl_cons, ih _ (fun n hn => h n (by simp [hn]))]
      simp [enter, hm]
  simpa [normalNames] using key names [] h

end Path

end StaticSite
