import StaticSite.Proofs.Text.Split
import StaticSite.Text.Escape

/-!
# References

Reading markup undoes references: a name between an ampersand and a semicolon gives way to the text
that it stands for, if it is known (`undo`). A text whose characters are written as themselves or as
references to themselves, and never an ampersand as itself, is read back whatever it holds
(`undo_flatMap`), and each ampersand in what was written begins a reference (`isClean_flatMap`). All
three ways of escaping are of this kind. That of documents comes to the same as replacing one
character after the other, the ampersand first (`escapeDocument_eq`).
-/

namespace StaticSite.Text

variable {s a rest name : List Char} {c : Char}

/-- The references of a format: the text that a name stands for, if it is known. -/
abbrev References := List Char → Option (List Char)

variable {known known' : References} {write : Char → List Char}

/-- A reference at the front of what follows an ampersand: the text that it stands for, and its
length with the semicolon. -/
def reference? (known : References) (s : List Char) : Option (List Char × Nat) :=
  let name := s.takeWhile (· != ';')
  if name.length < s.length then (known name).map fun text => (text, name.length + 1) else none

/-- A text with its references undone, after `skip` characters have been dropped. -/
def undoFrom (known : References) : Nat → List Char → List Char
  | _, [] => []
  | skip + 1, _ :: rest => undoFrom known skip rest
  | 0, c :: rest =>
    match (if c = '&' then reference? known rest else none) with
    | some (text, length) => text ++ undoFrom known length rest
    | none => c :: undoFrom known 0 rest

/-- A text with its references undone. -/
def undo (known : References) (s : List Char) : List Char := undoFrom known 0 s

/-- The empty text has no reference. -/
@[simp] theorem undo_nil : undo known [] = [] := rfl

/-- Reading goes on after the characters that belong to a reference. -/
theorem undoFrom_length (a rest : List Char) :
    undoFrom known a.length (a ++ rest) = undo known rest := by
  induction a with
  | nil => rfl
  | cons c a ih => exact ih

/-- A reference is known by the name before its semicolon. -/
theorem reference?_append {text : List Char} (hname : ';' ∉ name) (htext : known name = some text)
    (rest : List Char) :
    reference? known (name ++ ';' :: rest) = some (text, name.length + 1) := by
  have htake : (name ++ ';' :: rest).takeWhile (· != ';') = name := by
    rw [List.takeWhile_append_of_pos fun d hd => by simpa using ne_of_mem_of_not_mem hd hname]
    simp
  rw [reference?, htake, if_pos (by simp), htext]
  rfl

/-- A character that starts no reference is read as it is. -/
theorem undo_cons_of_ne (hc : c ≠ '&') (rest : List Char) :
    undo known (c :: rest) = c :: undo known rest := by
  rw [undo, undoFrom, if_neg hc]
  rfl

/-- A reference gives way to what it stands for. -/
theorem undo_reference {text : List Char} (hname : ';' ∉ name) (htext : known name = some text)
    (rest : List Char) :
    undo known ('&' :: name ++ ';' :: rest) = text ++ undo known rest := by
  have hlength : undoFrom known _ _ = _ := undoFrom_length (name ++ [';']) rest
  rw [List.length_append, List.append_assoc] at hlength
  rw [List.cons_append, undo, undoFrom, if_pos rfl, reference?_append hname htext]
  exact congrArg (text ++ ·) hlength

/-- A text without an ampersand has no references. -/
theorem undo_eq_self (h : '&' ∉ s) : undo known s = s := by
  induction s with
  | nil => rfl
  | cons c s ih =>
    obtain ⟨hc, hs⟩ := not_or.1 (mt List.mem_cons.2 h)
    rw [undo_cons_of_ne (Ne.symm hc), ih hs]

/-! ## Escaping -/

/-- How a character may be written, so that it is read back. -/
inductive IsWritten (known : References) (c : Char) : List Char → Prop where
  /-- It stands for itself. -/
  | self (h : c ≠ '&') : IsWritten known c [c]
  /-- It is written as a reference. -/
  | reference (name : List Char) (hampersand : '&' ∉ name) (hsemicolon : ';' ∉ name)
      (h : known name = some [c]) :
    IsWritten known c ('&' :: name ++ [';'])

/-- A way of writing characters, each of which is read back. -/
def IsEscaping (known : References) (write : Char → List Char) : Prop :=
  ∀ c, IsWritten known c (write c)

/-- A character that is written with known references is so when more are known. -/
theorem IsWritten.mono (h : IsWritten known c s)
    (hknown : ∀ name text, known name = some text → known' name = some text) :
    IsWritten known' c s := by
  cases h with
  | self h => exact .self h
  | reference name hampersand hsemicolon h =>
      exact .reference name hampersand hsemicolon (hknown name [c] h)

/-- A character that is written is read back, whatever follows. -/
theorem IsWritten.undo_append (h : IsWritten known c s) (rest : List Char) :
    undo known (s ++ rest) = c :: undo known rest := by
  cases h with
  | self hc => exact undo_cons_of_ne hc rest
  | reference name _ hsemicolon htext =>
    rw [List.append_assoc]
    exact undo_reference hsemicolon htext rest

/-- A text that is escaped is read back, whatever follows. -/
theorem undo_flatMap_append (h : IsEscaping known write) (s rest : List Char) :
    undo known (s.flatMap write ++ rest) = s ++ undo known rest := by
  induction s with
  | nil => rfl
  | cons c s ih =>
      rw [List.flatMap_cons, List.append_assoc, (h c).undo_append, ih, List.cons_append]

/-- A text is read back if each of its characters is escaped. -/
theorem undo_flatMap (h : IsEscaping known write) (s : List Char) :
    undo known (s.flatMap write) = s := by
  have hall := undo_flatMap_append h s []
  rwa [List.append_nil, undo_nil, List.append_nil] at hall

/-- A text without a character that ends it elsewhere, in which each ampersand begins a
reference. -/
structure IsClean (known : References) (s : List Char) : Prop where
  /-- It holds no bracket of a tag and no quote. -/
  flat : ∀ c ∈ s, c ≠ '<' ∧ c ≠ '>' ∧ c ≠ '"' ∧ c ≠ '\''
  /-- What follows an ampersand begins with a reference. -/
  referring : ∀ rest, '&' :: rest <:+ s → (reference? known rest).isSome = true

/-- What begins with a character that a text does not hold begins after it. -/
theorem suffix_of_suffix_append (hc : c ∉ a) (h : c :: rest <:+ a ++ s) : c :: rest <:+ s := by
  induction a with
  | nil => exact h
  | cons d a ih =>
    obtain ⟨hd, ha⟩ := not_or.1 (mt List.mem_cons.2 hc)
    rcases List.suffix_cons_iff.1 h with heq | h
    · exact absurd (List.cons.inj heq).1 hd
    · exact ih ha h

/-- In a text that is escaped each ampersand begins a reference. -/
theorem isClean_flatMap (h : IsEscaping known write)
    (hflat : ∀ c, ∀ d ∈ write c, d ≠ '<' ∧ d ≠ '>' ∧ d ≠ '"' ∧ d ≠ '\'') (s : List Char) :
    IsClean known (s.flatMap write) := by
  refine ⟨fun d hd => ?_, ?_⟩
  · obtain ⟨c, -, hmem⟩ := List.mem_flatMap.1 hd
    exact hflat c d hmem
  · induction s with
    | nil => exact fun rest hrest => absurd (List.suffix_nil.1 hrest) (List.cons_ne_nil _ _)
    | cons c s ih =>
      intro rest hrest
      rw [List.flatMap_cons] at hrest
      have hwritten := h c
      generalize write c = w at hwritten hrest
      cases hwritten with
      | self hc => exact ih rest (suffix_of_suffix_append (by simpa using Ne.symm hc) hrest)
      | reference name hname hsemicolon htext =>
        rw [List.append_assoc, List.cons_append, List.singleton_append,
          List.suffix_cons_iff] at hrest
        rcases hrest with heq | hrest
        · rw [(List.cons.inj heq).2, reference?_append hsemicolon htext]
          rfl
        · have hampersand : '&' ∉ name ++ [';'] := by
            rw [List.mem_append, not_or]
            exact ⟨hname, by simp⟩
          rw [List.append_cons] at hrest
          exact ih rest (suffix_of_suffix_append hampersand hrest)

/-! ## The formats -/

/-- The references of a table. -/
def referencesOf (table : List (String × Char)) : References := fun name =>
  (table.lookup (String.ofList name)).map ([·])

/-- The five references that every document knows. -/
def documentReferences : References :=
  referencesOf [("amp", '&'), ("lt", '<'), ("gt", '>'), ("quot", '"'), ("apos", '\'')]

/-- The references that stand for the characters with a meaning in a page, the single quote by its
number. -/
def attributeReferences : References :=
  referencesOf [("amp", '&'), ("lt", '<'), ("gt", '>'), ("quot", '"'), ("#x27", '\'')]

/-- The characters of attributes are escaped with references of attributes. -/
theorem isEscaping_attributeChar : IsEscaping attributeReferences attributeChar := by
  intro c
  unfold attributeChar
  split
  · exact .reference "amp".toList (by decide) (by decide) (by decide)
  · exact .reference "lt".toList (by decide) (by decide) (by decide)
  · exact .reference "gt".toList (by decide) (by decide) (by decide)
  · exact .reference "quot".toList (by decide) (by decide) (by decide)
  · exact .reference "#x27".toList (by decide) (by decide) (by decide)
  · rename_i hc _ _ _ _
    exact .self hc

/-- Documents know the references that the two formats share. -/
theorem isWritten_attributeChar (hc : c ≠ '\'') :
    IsWritten documentReferences c (attributeChar c) := by
  unfold attributeChar
  split
  · exact .reference "amp".toList (by decide) (by decide) (by decide)
  · exact .reference "lt".toList (by decide) (by decide) (by decide)
  · exact .reference "gt".toList (by decide) (by decide) (by decide)
  · exact .reference "quot".toList (by decide) (by decide) (by decide)
  · contradiction
  · rename_i hampersand _ _ _ _
    exact .self hampersand

/-- The characters of documents are escaped with references of documents. -/
theorem isEscaping_documentChar : IsEscaping documentReferences documentChar := by
  intro c
  unfold documentChar
  split
  · exact .reference "apos".toList (by decide) (by decide) (by decide)
  · rename_i hquote
    exact isWritten_attributeChar hquote

/-- Unquoted characters are escaped with references of documents. -/
theorem isEscaping_unquotedChar : IsEscaping documentReferences unquotedChar := by
  intro c
  unfold unquotedChar
  split
  · exact .self (by simp)
  · split
    · rename_i hquote
      rw [eq_of_beq hquote]
      exact .self (by simp)
    · rename_i hquote
      exact isWritten_attributeChar fun heq => hquote (beq_iff_eq.2 heq)

/-- A character of a document is written without a bracket or a quote. -/
theorem flat_documentChar : ∀ d ∈ documentChar c, d ≠ '<' ∧ d ≠ '>' ∧ d ≠ '"' ∧ d ≠ '\'' := by
  unfold documentChar attributeChar
  split
  · simp
  · split
    · simp
    · simp
    · simp
    · simp
    · contradiction
    · rename_i hless hgreater hdouble hsingle
      simp only [List.mem_singleton, forall_eq]
      exact ⟨hless, hgreater, hdouble, hsingle⟩

/-- A text that is escaped for a document is clean. -/
theorem isClean_escapeDocument (s : String) :
    IsClean documentReferences (escapeDocument s).toList := by
  rw [escapeDocument, String.toList_ofList]
  exact isClean_flatMap isEscaping_documentChar (fun _ => flat_documentChar) s.toList

/-- An unquoted character is written without a bracket. -/
theorem flat_unquotedChar : ∀ d ∈ unquotedChar c, d ≠ '<' ∧ d ≠ '>' := by
  unfold unquotedChar
  split
  · simp
  · split
    · simp
    · unfold attributeChar
      split
      · simp
      · simp
      · simp
      · simp
      · simp
      · rename_i hless hgreater _ _
        simp only [List.mem_singleton, forall_eq]
        exact ⟨hless, hgreater⟩

/-! ## Replacing in turn -/

/-- Replacing a character is writing it otherwise wherever it stands. -/
theorem replaceAll_singleton (c : Char) (new s : List Char) :
    replaceAll [c] new s = s.flatMap fun d => if d = c then new else [d] := by
  induction s with
  | nil => rfl
  | cons d s ih =>
    have hself : [c].isPrefixOf (d :: s) = (c == d) := by simp [List.isPrefixOf]
    rw [List.flatMap_cons, ← ih, replaceAll, replaceFrom, hself]
    by_cases h : d = c
    · rw [if_pos (by simp [h]), if_pos h]
      rfl
    · rw [if_neg (by simpa using Ne.symm h), if_neg h]
      rfl

/-- A text in which the ampersand is replaced by its reference first, then the brackets of tags, and
then the quotes. -/
def replacedInTurn (s : List Char) : List Char :=
  replaceAll ['\''] "&apos;".toList (replaceAll ['"'] "&quot;".toList
    (replaceAll ['<'] "&lt;".toList
      (replaceAll ['>'] "&gt;".toList (replaceAll ['&'] "&amp;".toList s))))

/-- Escaping for a document replaces one character after the other. -/
theorem escapeDocument_eq (s : String) : (escapeDocument s).toList = replacedInTurn s.toList := by
  simp only [replacedInTurn, replaceAll_singleton, List.flatMap_assoc, escapeDocument,
    String.toList_ofList]
  congr 1
  funext c
  unfold documentChar attributeChar
  split
  · decide
  · split
    · decide
    · decide
    · decide
    · decide
    · contradiction
    · rename_i hampersand hless hgreater hdouble hsingle
      simp only [if_neg hampersand, if_neg hless, if_neg hgreater, if_neg hdouble, if_neg hsingle,
        List.flatMap_cons, List.flatMap_nil, List.append_nil]

end StaticSite.Text
