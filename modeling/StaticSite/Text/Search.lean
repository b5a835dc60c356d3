/-!
# Searching and cutting texts

Plain search on lists of characters: the first and the last occurrence of a text, replacement of
every occurrence, and splitting at a character.
-/

namespace StaticSite.Text

/-- The rest of a text that begins with `lead`. -/
def after? : List Char → List Char → Option (List Char)
  | [], s => some s
  | _ :: _, [] => none
  | l :: lead, c :: s => if l == c then after? lead s else none

/-- What comes after a lead is the rest of a text that starts with it. -/
theorem after?_eq_some_iff {lead s rest : List Char} :
    after? lead s = some rest ↔ s = lead ++ rest := by
  induction lead generalizing s with
  | nil => simp [after?]
  | cons l lead ih =>
    cases s with
    | nil => simp [after?]
    | cons c s =>
      by_cases h : l = c
      · simp [after?, h, ih]
      · simp [after?, h, Ne.symm h]

/-- The parts of a text before and after the first occurrence of `needle`. -/
def cut? (needle : List Char) : List Char → Option (List Char × List Char)
  | [] => if needle.isEmpty then some ([], []) else none
  | c :: rest =>
    match after? needle (c :: rest) with
    | some found => some ([], found)
    | none => (cut? needle rest).map fun found => (c :: found.1, found.2)

/-- The parts of a text before and after the last occurrence of `needle`. -/
def cutLast? (needle s : List Char) : Option (List Char × List Char) :=
  (cut? needle.reverse s.reverse).map fun found => (found.2.reverse, found.1.reverse)

/-- The text with every occurrence of `needle` replaced, from the left, after `skip` characters have
been dropped. -/
def replaceFrom (needle new : List Char) : Nat → List Char → List Char
  | _, [] => []
  | skip + 1, _ :: rest => replaceFrom needle new skip rest
  | 0, c :: rest =>
    if needle.isPrefixOf (c :: rest) then new ++ replaceFrom needle new (needle.length - 1) rest
    else c :: replaceFrom needle new 0 rest

/-- The text with every occurrence of a non-empty `needle` replaced, from the left. -/
def replaceAll (needle new s : List Char) : List Char := replaceFrom needle new 0 s

/-- The text with the first occurrence of `needle` replaced. -/
def replaceFirst (needle new s : List Char) : List Char :=
  match cut? needle s with
  | some (before, after) => before ++ new ++ after
  | none => s

/-- The parts of a text between the separators. -/
def splitAt (sep : Char) : List Char → List (List Char)
  | [] => [[]]
  | c :: rest =>
    if c == sep then [] :: splitAt sep rest
    else
      match splitAt sep rest with
      | [] => [[c]]
      | part :: parts => (c :: part) :: parts

/-- The parts of a text between the occurrences of a non-empty `sep`, after `skip` characters have
been dropped. -/
def splitFrom (sep : List Char) : Nat → List Char → List (List Char)
  | _, [] => [[]]
  | skip + 1, _ :: rest => splitFrom sep skip rest
  | 0, c :: rest =>
    if sep.isPrefixOf (c :: rest) then [] :: splitFrom sep (sep.length - 1) rest
    else
      match splitFrom sep 0 rest with
      | [] => [[c]]
      | part :: parts => (c :: part) :: parts

/-- The parts of a text between the occurrences of a non-empty `sep`. -/
def splitOnText (sep s : List Char) : List (List Char) := splitFrom sep 0 s

/-- What the first occurrence cuts apart and the needle make up the text. -/
theorem cut?_append {needle s before after : List Char} (h : cut? needle s = some (before, after)) :
    s = before ++ needle ++ after := by
  induction s generalizing before with
  | nil =>
    simp only [cut?] at h
    split at h
    · rename_i hn
      obtain ⟨rfl, rfl⟩ : [] = before ∧ [] = after := by simpa using h
      simp [List.isEmpty_iff.1 hn]
    · simp at h
  | cons c rest ih =>
    simp only [cut?] at h
    split at h
    · rename_i found hp
      obtain ⟨rfl, rfl⟩ : [] = before ∧ found = after := by simpa using h
      simpa using after?_eq_some_iff.1 hp
    · obtain ⟨found, hf, he⟩ := Option.map_eq_some_iff.1 h
      obtain ⟨rfl, rfl⟩ : c :: found.1 = before ∧ found.2 = after := by simpa using he
      simp [@ih found.1 (by simpa using hf)]

end StaticSite.Text
