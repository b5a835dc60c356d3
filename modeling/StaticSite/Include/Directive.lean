import StaticSite.Fault
import StaticSite.Text.Blank
import StaticSite.Text.Letter
import StaticSite.Text.Word

/-!
# Directives

How a text names what it includes. A directive begins with an anchor, in any case of letters, and
goes on with a body. In one mode the anchor is a word of the site's choice with `.include`, and the
body is a property name after a point or a quoted path in parentheses; in the other the anchor is
`import`, with an optional `@`, and the body is a quoted path. A semicolon after the body belongs to
the directive. `segments` cuts a text into directives and the text between them; an anchor without a
body is text.
-/

namespace StaticSite

/-- The modes of directives. -/
inductive IncludeMode where
  /-- Files and properties are named after a word of the site's choice. -/
  | includes
  /-- Files are named after `import`. -/
  | imports
deriving DecidableEq, Repr

namespace IncludeMode

/-- The name of a mode in settings. -/
def name : IncludeMode → String
  | includes => "include"
  | imports => "import"

/-- The mode of a name. -/
def ofName? (s : String) : Option IncludeMode :=
  if s == "include" then some .includes else if s == "import" then some .imports else none

end IncludeMode

/-- What a directive asks for. -/
inductive Directive where
  /-- The value of a property. -/
  | property (name : List Char)
  /-- The content of a file. -/
  | file (path : List Char)
deriving DecidableEq, Repr

/-- A part of a text. -/
inductive Segment where
  /-- Text that stays as it is. -/
  | text (s : List Char)
  /-- A directive with the text it was written as. -/
  | directive (d : Directive) (raw : List Char)
deriving DecidableEq, Repr

/-- The text a segment was cut from. -/
def Segment.source : Segment → List Char
  | text s => s
  | directive _ raw => raw

/-- How directives are written. -/
structure Grammar where
  /-- The word that directives begin with, if the mode has one. -/
  word : List Char
  /-- The mode. -/
  mode : IncludeMode
deriving DecidableEq, Repr

namespace Grammar

/-- The word characters of a text. -/
def wordOf (s : String) : String := String.ofList (s.toList.filter Text.isWord)

/-- The grammar for a word and the name of a mode. Where directives begin with a word, there has to
be one. -/
def make (word mode : String) : Except Fault Grammar :=
  match IncludeMode.ofName? mode with
  | none => .error (.unknownMode mode)
  | some mode =>
    let word := (wordOf word).toList
    if mode = .includes ∧ word = [] then .error .noPrefix else .ok ⟨word, mode⟩

/-- The rest of a text after the anchor at its front. -/
def anchor? (g : Grammar) (s : List Char) : Option (List Char) :=
  match g.mode with
  | .includes => Text.afterLetters? (g.word ++ ".include".toList) s
  | .imports =>
    match s with
    | '@' :: rest => Text.afterLetters? "import".toList rest
    | s => Text.afterLetters? "import".toList s

/-- A character that may stand in a quoted path. -/
def isPathChar (c : Char) : Bool :=
  c == '\\' || c == '/' || c == '-' || c == '.' || c == ':' || c == '~' || Text.isWord c ||
    Text.isBlank c

/-- Whether a character opens and closes a quoted path. -/
def isQuote (c : Char) : Bool := c == '"' || c == '\'' || c == '\x60'

/-- The path between the quotes at the front of a text, without the blanks at its ends, and the
rest. -/
def quoted? : List Char → Option (List Char × List Char)
  | [] => none
  | q :: s =>
    if isQuote q then
      let inside := s.takeWhile (· != q)
      match s.dropWhile (· != q) with
      | [] => none
      | _ :: rest =>
        let path := Text.trim inside
        if inside.all isPathChar && !path.isEmpty then some (path, rest) else none
    else none

/-- A text after the semicolon that may stand at its front, perhaps after blanks. -/
def afterEnd (s : List Char) : List Char :=
  match Text.skipBlanks s with
  | ';' :: rest => rest
  | _ => s

/-- The directive whose body stands at the front of a text, and the rest. -/
def body? (g : Grammar) (s : List Char) : Option (Directive × List Char) :=
  match g.mode with
  | .imports => (quoted? (Text.skipBlanks s)).map fun (path, rest) => (.file path, afterEnd rest)
  | .includes =>
    match Text.skipBlanks s with
    | '.' :: rest =>
      let name := rest.takeWhile Text.isWord
      if name.isEmpty then none else some (.property name, afterEnd (rest.dropWhile Text.isWord))
    | '(' :: rest =>
      match quoted? (Text.skipBlanks rest) with
      | none => none
      | some (path, rest) =>
        match Text.skipBlanks rest with
        | ')' :: rest => some (.file path, afterEnd rest)
        | _ => none
    | _ => none

/-- The directive at the front of a text, and the rest. -/
def directive? (g : Grammar) (s : List Char) : Option (Directive × List Char) :=
  (g.anchor? s).bind g.body?

/-- A directive in a text. -/
structure Found where
  /-- The text before it. -/
  before : List Char
  /-- The directive. -/
  directive : Directive
  /-- The text it was written as. -/
  raw : List Char
  /-- The text after it. -/
  rest : List Char

/-- The first directive of a text that does not begin within the first `skip` characters. After an
anchor without a body the search goes on at the end of the anchor. -/
def find? (g : Grammar) : (skip : Nat) → List Char → Option Found
  | _, [] => none
  | skip + 1, c :: s => (find? g skip s).map fun f => { f with before := c :: f.before }
  | 0, c :: s =>
    match g.anchor? (c :: s) with
    | none => (find? g 0 s).map fun f => { f with before := c :: f.before }
    | some after =>
      match g.body? after with
      | some (d, rest) => some ⟨[], d, (c :: s).take ((c :: s).length - rest.length), rest⟩
      | none => (find? g (s.length - after.length) s).map fun f =>
          { f with before := c :: f.before }

/-- What follows the end of a directive is no longer than the text. -/
theorem length_afterEnd_le (s : List Char) : (afterEnd s).length ≤ s.length := by
  have h := Text.length_skipBlanks_le s
  unfold afterEnd
  split
  · rename_i rest hr
    rw [hr] at h
    simp only [List.length_cons] at h
    omega
  · exact Nat.le_refl _

/-- What follows a quoted path is shorter than the text. -/
theorem length_of_quoted? {s rest path : List Char} (h : quoted? s = some (path, rest)) :
    rest.length < s.length := by
  cases s with
  | nil => simp [quoted?] at h
  | cons q s =>
    simp only [quoted?] at h
    split at h
    · split at h
      · simp at h
      · rename_i c after hd
        have hl := (List.dropWhile_sublist (fun x => x != q) (l := s)).length_le
        rw [hd] at hl
        split at h
        · obtain ⟨-, rfl⟩ : _ ∧ after = rest := by simpa using h
          simp only [List.length_cons] at hl ⊢
          omega
        · simp at h
    · simp at h

/-- A body is not empty. -/
theorem length_of_body? {g : Grammar} {s rest : List Char} {d : Directive}
    (h : g.body? s = some (d, rest)) : rest.length < s.length := by
  have hs := Text.length_skipBlanks_le s
  unfold body? at h
  split at h
  · obtain ⟨⟨path, r⟩, hq, he⟩ := Option.map_eq_some_iff.1 h
    obtain ⟨-, rfl⟩ : _ ∧ afterEnd r = rest := by simpa using he
    have := length_of_quoted? hq
    have := length_afterEnd_le r
    omega
  · split at h
    · rename_i r hr
      rw [hr] at hs
      simp only [List.length_cons] at hs
      have hd := (List.dropWhile_sublist Text.isWord (l := r)).length_le
      have ha := length_afterEnd_le (r.dropWhile Text.isWord)
      simp only at h
      split at h
      · simp at h
      · obtain ⟨-, rfl⟩ : _ ∧ afterEnd (r.dropWhile Text.isWord) = rest := by simpa using h
        omega
    · rename_i r hr
      rw [hr] at hs
      simp only [List.length_cons] at hs
      split at h
      · simp at h
      · rename_i path r' hq
        have h1 := length_of_quoted? hq
        have h2 := Text.length_skipBlanks_le r
        have h3 := Text.length_skipBlanks_le r'
        split at h
        · rename_i r'' hr''
          obtain ⟨-, rfl⟩ : _ ∧ afterEnd r'' = rest := by simpa using h
          have := length_afterEnd_le r''
          rw [hr''] at h3
          simp only [List.length_cons] at h3
          omega
        · simp at h
    · simp at h

/-- An anchor is no longer than the text it stands in. -/
theorem length_of_anchor? {g : Grammar} {s rest : List Char} (h : g.anchor? s = some rest) :
    rest.length ≤ s.length := by
  unfold anchor? at h
  split at h
  · have := Text.length_of_afterLetters? h
    omega
  · split at h
    · have := Text.length_of_afterLetters? h
      simp only [List.length_cons]
      omega
    · have := Text.length_of_afterLetters? h
      omega

/-- A directive in a text leaves less of it. -/
theorem length_of_find? {g : Grammar} {skip : Nat} {s : List Char} {f : Found}
    (h : g.find? skip s = some f) : f.rest.length < s.length := by
  induction s generalizing skip f with
  | nil => cases skip <;> simp [find?] at h
  | cons c s ih =>
    have step : ∀ {skip : Nat},
        (g.find? skip s).map (fun f => { f with before := c :: f.before }) = some f →
        f.rest.length < (c :: s).length := by
      intro skip h
      obtain ⟨f', hf, rfl⟩ := Option.map_eq_some_iff.1 h
      have := ih hf
      simp only [List.length_cons]
      omega
    cases skip with
    | succ skip => exact step h
    | zero =>
      simp only [find?] at h
      split at h
      · exact step h
      · rename_i after ha
        split at h
        · rename_i d rest hb
          obtain rfl := Option.some.inj h
          have := length_of_anchor? ha
          have hr : rest.length < (c :: s).length := by
            have := length_of_body? hb
            omega
          exact hr
        · exact step h

/-- The segments of a text. -/
def segments (g : Grammar) (s : List Char) : List Segment :=
  match _h : g.find? 0 s with
  | none => if s.isEmpty then [] else [.text s]
  | some f =>
    let following := .directive f.directive f.raw :: segments g f.rest
    if f.before.isEmpty then following else .text f.before :: following
termination_by s.length
decreasing_by exact length_of_find? ‹_›

/-- The directives of a text. -/
def directives (g : Grammar) (s : List Char) : List Directive :=
  (g.segments s).filterMap fun
    | .text _ => none
    | .directive d _ => some d

end Grammar

end StaticSite
