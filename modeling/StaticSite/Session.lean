import StaticSite.Fault
import StaticSite.Log
import StaticSite.Build.Record

/-!
# Sessions

All that a build changes while it runs: the file tree, the log, the records of what was built, the
names under which stylesheets were written, and whether a pass is running. An action works on a
session and may fail; what it changed before it failed stays changed.
-/

namespace StaticSite

/-- What a session is doing. -/
inductive Phase where
  /-- Nothing. -/
  | idle
  /-- A pass is running. -/
  | building
deriving DecidableEq, Repr

/-- The name of a phase. -/
def Phase.name : Phase → String
  | idle => "idle"
  | building => "building"

/-- The names under which stylesheets with a hash in their name were written, in the order in which
they first came. -/
abbrev OutputNames := List (Stylesheet × String)

/-- Gives a stylesheet its name: in the place of the old one, or at the end. -/
def OutputNames.set (names : OutputNames) (style : Stylesheet) (name : String) : OutputNames :=
  match names with
  | [] => [(style, name)]
  | (s, n) :: rest => if s = style then (s, name) :: rest else (s, n) :: set rest style name

/-- What a chunk manifest held when it was last read, and the stamp it had then. -/
structure ManifestMemory where
  /-- The stamp. -/
  stamp : Option Stamp
  /-- The chunks. -/
  chunks : Mapping

/-- The state of a session; `σ` is what parts supplied from outside remember. -/
structure Session (σ : Type) where
  /-- The file tree. -/
  tree : Tree
  /-- The directories that relative paths and the home mark refer to. -/
  place : Place
  /-- The number of files written. -/
  clock : Nat
  /-- The current day. -/
  today : Day
  /-- The log. -/
  log : List Log.Line
  /-- What the session is doing. -/
  phase : Phase
  /-- The records of what was built. -/
  records : Records
  /-- The names under which stylesheets were written. -/
  names : OutputNames
  /-- What is known of the chunk manifest. -/
  manifest : ManifestMemory
  /-- What parts supplied from outside remember. -/
  memory : σ

/-- A session in which nothing was built. -/
def Session.start {σ : Type} (tree : Tree) (place : Place) (today : Day) (memory : σ) :
    Session σ where
  tree := tree
  place := place
  clock := 0
  today := today
  log := []
  phase := .idle
  records := []
  names := []
  manifest := ⟨none, []⟩
  memory := memory

/-- Something done in a session, which may fail. -/
abbrev Action (σ α : Type) := ExceptT Fault (StateM (Session σ)) α

namespace Action

variable {σ α : Type}

/-- Does something in a session: the answer or fault, and the session after it. -/
def perform (a : Action σ α) (s : Session σ) : Except Fault α × Session σ := a s

/-- Does something and answers its fault instead of failing. -/
def attempt (a : Action σ α) : Action σ (Except Fault α) := fun s =>
  let (result, s) := a s
  (.ok result, s)

/-- Something that is read off a session without changing it. -/
def observe (f : Session σ → Except Fault α) : Action σ α := fun s => (f s, s)

/-- Adds an entry to the log. -/
def say (level : Log.Level) (speaker : Log.Speaker) (message : String) : Action σ Unit :=
  modify fun s => { s with log := s.log ++ [⟨level, speaker, message⟩] }

end Action

end StaticSite
