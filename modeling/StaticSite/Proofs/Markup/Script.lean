import StaticSite.Markup.Tag
import StaticSite.Proofs.Text.Front
import StaticSite.Proofs.Text.Reference

/-!
# Reading script tags

A start tag is read the way browsers do it: names, values between quotes or without, and references
undone in them (`startTag?`). The tag of a script is read as its attributes in order and then its
address (`read_scriptTag`). What is between the quotes went through two steps: the characters with a
meaning were escaped, which reading undoes, and every run of blanks in the tag was made one space,
which nothing undoes (`collapseFrom_flatMap` lets the one go past the other). So a value comes back
as it is if and only if its blanks are single spaces (`Text.collapseBlanks_eq_self_iff`).
-/

namespace StaticSite

namespace Text

/-! ## Collapsed texts -/

variable {a s : List Char} {c : Char} {write : Char → List Char}

/-- A run of blanks ends at any other character. -/
theorem collapseFrom_append_cons (hc : isBlank c = false) (inRun : Bool) (a s : List Char) :
    collapseFrom inRun (a ++ c :: s) = collapseFrom inRun a ++ c :: collapseFrom false s := by
  induction a generalizing inRun with
  | nil => simp [collapseFrom, hc]
  | cons d a ih =>
    rw [List.cons_append, collapseFrom, collapseFrom]
    split
    · split
      · exact ih true
      · exact congrArg (' ' :: ·) (ih true)
    · exact congrArg (d :: ·) (ih false)

/-- Collapsing blanks brings no character but the space. -/
theorem mem_of_mem_collapseFrom {inRun : Bool} (h : c ∈ collapseFrom inRun s) :
    c = ' ' ∨ c ∈ s := by
  induction s generalizing inRun with
  | nil => cases h
  | cons d s ih =>
    rw [collapseFrom] at h
    split at h
    · split at h
      · exact (ih h).imp_right (List.mem_cons_of_mem d)
      · rcases List.mem_cons.1 h with rfl | h
        · exact .inl rfl
        · exact (ih h).imp_right (List.mem_cons_of_mem d)
    · rcases List.mem_cons.1 h with rfl | h
      · exact .inr List.mem_cons_self
      · exact (ih h).imp_right (List.mem_cons_of_mem d)

/-- A space that begins a run is kept. -/
theorem collapseFrom_space (s : List Char) :
    collapseFrom false (' ' :: s) = ' ' :: collapseFrom true s := rfl

/-- A space within a run is dropped. -/
theorem collapseFrom_true_space (s : List Char) :
    collapseFrom true (' ' :: s) = collapseFrom true s := rfl

/-- Whether a run was open does not matter to a text that does not start with a blank. -/
theorem collapseFrom_of_head? (h : ∀ c ∈ s.head?, isBlank c = false) (inRun : Bool) :
    collapseFrom inRun s = collapseBlanks s := by
  cases s with
  | nil => rfl
  | cons c s => simp [collapseBlanks, collapseFrom, h c rfl]

/-- Where no character is blank, each one is not. -/
theorem forall_isBlank_eq_false (h : s.any isBlank = false) : ∀ c ∈ s, isBlank c = false := by
  simpa using h

/-- A text without blanks stays as it is, whatever follows. -/
theorem collapseFrom_append (ha : ∀ c ∈ a, isBlank c = false) (s : List Char) :
    collapseFrom false (a ++ s) = a ++ collapseFrom false s := by
  induction a with
  | nil => rfl
  | cons c a ih =>
    obtain ⟨hc, ha⟩ := List.forall_mem_cons.1 ha
    rw [List.cons_append, collapseFrom, hc, ih ha]
    rfl

/-- Collapsing blanks goes past a way of writing characters that leaves blanks alone and makes
none. -/
theorem collapseFrom_flatMap (hblank : ∀ c, isBlank c = true → write c = [c])
    (hother : ∀ c, isBlank c = false → write c ≠ [] ∧ ∀ d ∈ write c, isBlank d = false)
    (inRun : Bool) (s : List Char) :
    collapseFrom inRun (s.flatMap write) = (collapseFrom inRun s).flatMap write := by
  induction s generalizing inRun with
  | nil => rfl
  | cons c s ih =>
    rw [List.flatMap_cons, collapseFrom]
    cases hc : isBlank c with
    | true =>
      rw [hblank c hc, List.singleton_append, collapseFrom, hc, if_pos rfl, if_pos rfl]
      split
      · exact ih true
      · rw [List.flatMap_cons, hblank ' ' rfl, ih]
        rfl
    | false =>
      obtain ⟨hne, hnone⟩ := hother c hc
      obtain ⟨d, w, hw⟩ := List.exists_cons_of_ne_nil hne
      rw [hw] at hnone
      obtain ⟨hd, hnone⟩ := List.forall_mem_cons.1 hnone
      rw [if_neg (by simp), List.flatMap_cons, hw, List.cons_append, List.cons_append, collapseFrom,
        hd, if_neg (by simp), collapseFrom_append hnone, ih]

/-- A text whose blanks are single spaces. -/
structure IsTidy (s : List Char) : Prop where
  /-- Each blank is a space. -/
  space : ∀ c ∈ s, isBlank c = true → c = ' '
  /-- No two spaces stand together. -/
  single : ¬[' ', ' '] <:+: s

/-- A text is tidy if the rest is, and if its first character, where it is blank, is a space that no
blank follows. -/
theorem isTidy_cons_iff : IsTidy (c :: s) ↔
    IsTidy s ∧ (isBlank c = true → c = ' ' ∧ ∀ d ∈ s.head?, isBlank d = false) := by
  have hpair : [' ', ' '] <+: c :: s ↔ c = ' ' ∧ s.head? = some ' ' := by
    cases s <;> simp [List.cons_prefix_cons, eq_comm]
  constructor
  · rintro ⟨hspace, hsingle⟩
    obtain ⟨hc, hs⟩ := List.forall_mem_cons.1 hspace
    rw [List.infix_cons_iff, hpair, not_or] at hsingle
    refine ⟨⟨hs, hsingle.2⟩, fun hblank => ⟨hc hblank, fun d hd => ?_⟩⟩
    by_contra hdblank
    have hdspace := hs d (List.mem_of_mem_head? hd) (by simpa using hdblank)
    exact hsingle.1 ⟨hc hblank, hdspace ▸ hd⟩
  · rintro ⟨⟨hspace, hsingle⟩, hc⟩
    refine ⟨List.forall_mem_cons.2 ⟨fun hblank => (hc hblank).1, hspace⟩, ?_⟩
    rw [List.infix_cons_iff, hpair, not_or]
    refine ⟨?_, hsingle⟩
    rintro ⟨rfl, hhead⟩
    exact absurd ((hc rfl).2 ' ' hhead) (by decide)

/-- Collapsing blanks makes no text longer. -/
theorem length_collapseFrom_le (inRun : Bool) (s : List Char) :
    (collapseFrom inRun s).length ≤ s.length := by
  induction s generalizing inRun with
  | nil => exact Nat.le_refl _
  | cons c s ih =>
    rw [collapseFrom, List.length_cons]
    split
    · split
      · exact Nat.le_succ_of_le (ih true)
      · exact Nat.succ_le_succ (ih true)
    · exact Nat.succ_le_succ (ih false)

/-- Collapsing blanks changes nothing if and only if the text is tidy and does not go on with a
blank run. -/
theorem collapseFrom_eq_self_iff (inRun : Bool) (s : List Char) :
    collapseFrom inRun s = s ↔ IsTidy s ∧ (inRun = true → ∀ c ∈ s.head?, isBlank c = false) := by
  induction s generalizing inRun with
  | nil => exact iff_of_true rfl ⟨⟨by simp, by simp⟩, by simp⟩
  | cons c s ih =>
    rw [isTidy_cons_iff, collapseFrom]
    cases hc : isBlank c with
    | false => simp [ih false, hc]
    | true =>
      cases inRun with
      | false =>
        rw [if_pos rfl, if_neg Bool.false_ne_true, List.cons.injEq, ih true, eq_comm]
        simp only [forall_const, Bool.false_eq_true, IsEmpty.forall_iff, and_true]
        exact and_left_comm
      | true =>
        -- In a run a blank is dropped, and the text gets shorter.
        have hne : collapseFrom true s ≠ c :: s := by
          intro heq
          have hle := length_collapseFrom_le true s
          rw [heq] at hle
          exact absurd hle (Nat.not_succ_le_self _)
        simp [hne, hc]

/-- Collapsing the blanks of a text changes nothing if and only if they are single spaces. -/
theorem collapseBlanks_eq_self_iff (s : List Char) : collapseBlanks s = s ↔ IsTidy s := by
  rw [collapseBlanks, collapseFrom_eq_self_iff]
  simp

end Text

namespace Markup

open Text
    (References attributeChar attributeReferences collapseBlanks collapseFrom escapeAttribute
      isBlank undo)

/-! ## Reading a tag -/

/-- A character that stands between attributes. -/
def isGap (c : Char) : Bool := c == ' ' || c == '\t' || c == '\n' || c == '\x0c' || c == '\x0d'

/-- An attribute. -/
structure Attribute where
  /-- Its name. -/
  name : List Char
  /-- Its value, if it has one. -/
  value : Option (List Char)
deriving DecidableEq, Repr

/-- Where a reader stands in a tag. -/
inductive Reading where
  /-- Before the name of an attribute. -/
  | between
  /-- In a name. -/
  | name (name : List Char)
  /-- After a name. -/
  | afterName (name : List Char)
  /-- After the sign that a value follows. -/
  | beforeValue (name : List Char)
  /-- In a value between quotes. -/
  | quoted (quote : Char) (name value : List Char)
  /-- In a value without quotes. -/
  | unquoted (name value : List Char)
deriving DecidableEq, Repr

/-- Puts an attribute before those that were read after it. -/
def follow (a : Attribute) (read : Option (List Attribute × List Char)) :
    Option (List Attribute × List Char) :=
  read.map fun (attributes, rest) => (a :: attributes, rest)

/-- The attributes up to the end of a tag, with the references in their values undone, and what
follows the tag. -/
def readFrom (known : References) : Reading → List Char → Option (List Attribute × List Char)
  | _, [] => none
  | .between, c :: rest =>
    if isGap c || c == '/' then readFrom known .between rest
    else if c == '>' then some ([], rest)
    else readFrom known (.name [c]) rest
  | .name n, c :: rest =>
    if isGap c then readFrom known (.afterName n) rest
    else if c == '/' then follow ⟨n, none⟩ (readFrom known .between rest)
    else if c == '>' then some ([⟨n, none⟩], rest)
    else if c == '=' then readFrom known (.beforeValue n) rest
    else readFrom known (.name (n ++ [c])) rest
  | .afterName n, c :: rest =>
    if isGap c then readFrom known (.afterName n) rest
    else if c == '/' then follow ⟨n, none⟩ (readFrom known .between rest)
    else if c == '>' then some ([⟨n, none⟩], rest)
    else if c == '=' then readFrom known (.beforeValue n) rest
    else follow ⟨n, none⟩ (readFrom known (.name [c]) rest)
  | .beforeValue n, c :: rest =>
    if isGap c then readFrom known (.beforeValue n) rest
    else if c == '"' || c == '\'' then readFrom known (.quoted c n []) rest
    else if c == '>' then some ([⟨n, some []⟩], rest)
    else readFrom known (.unquoted n [c]) rest
  | .quoted q n v, c :: rest =>
    if c == q then follow ⟨n, some (undo known v)⟩ (readFrom known .between rest)
    else readFrom known (.quoted q n (v ++ [c])) rest
  | .unquoted n v, c :: rest =>
    if isGap c then follow ⟨n, some (undo known v)⟩ (readFrom known .between rest)
    else if c == '>' then some ([⟨n, some (undo known v)⟩], rest)
    else readFrom known (.unquoted n (v ++ [c])) rest

/-- A tag that was read. -/
structure StartTag where
  /-- The name of its element. -/
  element : List Char
  /-- Its attributes in order. -/
  attributes : List Attribute
  /-- What follows it. -/
  rest : List Char
deriving DecidableEq, Repr

/-- The tag that a text begins with, if it begins with one. -/
def startTag? (known : References) : List Char → Option StartTag
  | '<' :: s =>
    let element := s.takeWhile fun c => !isGap c && c != '/' && c != '>'
    if element.head?.any Char.isAlpha then
      (readFrom known .between (s.drop element.length)).map fun (attributes, rest) =>
        ⟨element, attributes, rest⟩
    else none
  | _ => none

variable {known : References} {name value rest : List Char} {c : Char}

/-- A character that a name may hold: no blank, no quote and no sign that means something in a
tag. -/
def IsNameChar (c : Char) : Prop :=
  isBlank c = false ∧ c ≠ '"' ∧ c ≠ '\'' ∧ c ≠ '=' ∧ c ≠ '<' ∧ c ≠ '>' ∧ c ≠ '/'

instance (c : Char) : Decidable (IsNameChar c) := inferInstanceAs (Decidable (_ ∧ _))

/-- A name that can be read as one. -/
structure IsName (name : List Char) : Prop where
  /-- It is not empty. -/
  ne_nil : name ≠ []
  /-- No character of it means something else. -/
  plain : ∀ c ∈ name, IsNameChar c

instance (name : List Char) : Decidable (IsName name) :=
  decidable_of_iff (name ≠ [] ∧ name.all (fun c => decide (IsNameChar c)) = true)
    ⟨fun h => ⟨h.1, by simpa using h.2⟩, fun h => ⟨h.ne_nil, by simpa using h.plain⟩⟩

/-- A gap between attributes is blank. -/
theorem isBlank_of_isGap (h : isGap c = true) : isBlank c = true := by
  simp only [isGap, Bool.or_eq_true, beq_iff_eq] at h
  rcases h with (((rfl | rfl) | rfl) | rfl) | rfl <;> decide

/-- What is not blank is no gap between attributes. -/
theorem isGap_of_isBlank_eq_false (h : isBlank c = false) : isGap c = false := by
  by_contra hgap
  rw [isBlank_of_isGap (by simpa using hgap)] at h
  cases h

/-- The rest of a name goes to its end. -/
theorem readFrom_name_append {m : List Char} (hm : ∀ c ∈ m, IsNameChar c) (n rest : List Char) :
    readFrom known (.name n) (m ++ rest) = readFrom known (.name (n ++ m)) rest := by
  induction m generalizing n with
  | nil => rw [List.append_nil, List.nil_append]
  | cons c m ih =>
    obtain ⟨⟨hblank, -, -, hequals, -, hgreater, hslash⟩, hm⟩ := List.forall_mem_cons.1 hm
    rw [List.cons_append, readFrom, isGap_of_isBlank_eq_false hblank, beq_false_of_ne hslash,
      beq_false_of_ne hgreater, beq_false_of_ne hequals]
    simp only [Bool.false_eq_true, if_false]
    rw [ih hm, List.append_assoc, List.singleton_append]

/-- A name is read from the space before it. -/
theorem readFrom_space (h : IsName name) (rest : List Char) :
    readFrom known .between (' ' :: name ++ rest) = readFrom known (.name name) rest := by
  obtain ⟨c, n, rfl⟩ := List.exists_cons_of_ne_nil h.ne_nil
  obtain ⟨⟨hblank, -, -, -, -, hgreater, hslash⟩, hn⟩ := List.forall_mem_cons.1 h.plain
  have hskip : readFrom known .between (' ' :: c :: n ++ rest) =
    readFrom known .between (c :: n ++ rest) := rfl
  rw [hskip, List.cons_append, readFrom, isGap_of_isBlank_eq_false hblank, beq_false_of_ne hslash,
    beq_false_of_ne hgreater]
  simp only [Bool.or_self, Bool.false_eq_true, if_false]
  exact readFrom_name_append hn [c] rest

/-- A value ends at its quote. -/
theorem readFrom_quoted (hvalue : '"' ∉ value) (n v rest : List Char) :
    readFrom known (.quoted '"' n v) (value ++ '"' :: rest) =
      follow ⟨n, some (undo known (v ++ value))⟩ (readFrom known .between rest) := by
  induction value generalizing v with
  | nil => rw [List.append_nil]; rfl
  | cons c value ih =>
    obtain ⟨hc, hvalue⟩ := not_or.1 (mt List.mem_cons.2 hvalue)
    rw [List.cons_append, readFrom, beq_false_of_ne (Ne.symm hc)]
    simp only [Bool.false_eq_true, if_false]
    rw [ih hvalue, List.append_assoc, List.singleton_append]

/-- An attribute with a value is read from the space before it. -/
theorem readFrom_valued (h : IsName name) (hvalue : '"' ∉ value) (rest : List Char) :
    readFrom known .between (' ' :: name ++ ('=' :: '"' :: value ++ '"' :: rest)) =
      follow ⟨name, some (undo known value)⟩ (readFrom known .between rest) := by
  have hstart : readFrom known (.name name) ('=' :: '"' :: value ++ '"' :: rest) =
      readFrom known (.quoted '"' name []) (value ++ '"' :: rest) := rfl
  rw [readFrom_space h, hstart, readFrom_quoted hvalue, List.nil_append]

/-- An attribute without a value is read from the space before it, if one more follows. -/
theorem readFrom_bare {next : List Char} (h : IsName name) (hnext : IsName next)
    (rest : List Char) :
    readFrom known .between (' ' :: name ++ (' ' :: next ++ rest)) =
      follow ⟨name, none⟩ (readFrom known .between (' ' :: next ++ rest)) := by
  obtain ⟨c, n, rfl⟩ := List.exists_cons_of_ne_nil hnext.ne_nil
  obtain ⟨⟨hblank, -, -, hequals, -, hgreater, hslash⟩, hn⟩ := List.forall_mem_cons.1 hnext.plain
  have hskip : readFrom known (.name name) (' ' :: c :: n ++ rest) =
    readFrom known (.afterName name) (c :: n ++ rest) := rfl
  rw [readFrom_space h, readFrom_space hnext, hskip, List.cons_append, readFrom,
    isGap_of_isBlank_eq_false hblank, beq_false_of_ne hslash, beq_false_of_ne hgreater,
    beq_false_of_ne hequals]
  simp only [Bool.false_eq_true, if_false]
  rw [readFrom_name_append hn]
  rfl

/-! ## Writing attributes -/

/-- An attribute as it is written. -/
def Attribute.written (a : Attribute) : List Char :=
  match a.value with
  | none => a.name
  | some value => a.name ++ '=' :: '"' :: value.flatMap attributeChar ++ ['"']

/-- An attribute with the blanks in its value collapsed. -/
def Attribute.collapsed (a : Attribute) : Attribute := ⟨a.name, a.value.map collapseBlanks⟩

/-- The attributes that a script is configured with: a text is the value of its key, anything else
that counts as true makes its key stand alone, and the rest is left out. -/
def configured (attributes : Mapping) : List Attribute :=
  attributes.filterMap fun (key, value) =>
    match value with
    | .text s => some ⟨key.display.toList, some s.toList⟩
    | v => if v.isTruthy then some ⟨key.display.toList, none⟩ else none

/-- The value of an attribute stays as it is if and only if the blanks in it are single spaces. -/
theorem Attribute.collapsed_eq_self_iff (a : Attribute) :
    a.collapsed = a ↔ ∀ value ∈ a.value, Text.IsTidy value := by
  obtain ⟨name, value⟩ := a
  cases value with
  | none => simp [collapsed]
  | some value => simp [collapsed, Text.collapseBlanks_eq_self_iff]

/-- The attributes of a tag are written one by one. -/
theorem attributeTexts_eq (attributes : Mapping) :
    (attributeTexts attributes).map String.toList =
      (configured attributes).map Attribute.written := by
  rw [attributeTexts, configured, List.map_filterMap, List.map_filterMap]
  refine List.filterMap_congr fun ⟨key, value⟩ _ => ?_
  cases value with
  | text s => simp [Attribute.written, escapeAttribute]
  | null | bool | int | float | bytes | day | moment | list | tuple | set | mapping =>
    simp only
    split <;> simp [Attribute.written]

/-- The names of configured attributes are the keys. -/
theorem isName_of_mem_configured {attributes : Mapping}
    (h : ∀ e ∈ attributes, IsName e.1.display.toList) {a : Attribute}
    (ha : a ∈ configured attributes) : IsName a.name := by
  obtain ⟨⟨key, value⟩, he, hvalue⟩ := List.mem_filterMap.1 ha
  have hkey := h _ he
  cases value with
  | text s => rwa [← Option.some.inj hvalue]
  | null | bool | int | float | bytes | day | moment | list | tuple | set | mapping =>
    simp only at hvalue
    split at hvalue
    · rwa [← Option.some.inj hvalue]
    · cases hvalue

/-- A character of a value is never written with a quote. -/
theorem notMem_attributeChar : '"' ∉ attributeChar c := by
  unfold attributeChar
  split
  · decide
  · decide
  · decide
  · decide
  · decide
  · rename_i _ _ _ hdouble _
    simpa using Ne.symm hdouble

/-- A blank is written as itself. -/
theorem attributeChar_of_isBlank (h : isBlank c = true) : attributeChar c = [c] := by
  unfold attributeChar
  split <;> first | rfl | exact absurd h (by decide)

/-- A character that is not blank is written without a blank. -/
theorem attributeChar_of_isBlank_eq_false (h : isBlank c = false) :
    attributeChar c ≠ [] ∧ ∀ d ∈ attributeChar c, isBlank d = false := by
  unfold attributeChar
  split
  · exact ⟨by decide, Text.forall_isBlank_eq_false (by decide)⟩
  · exact ⟨by decide, Text.forall_isBlank_eq_false (by decide)⟩
  · exact ⟨by decide, Text.forall_isBlank_eq_false (by decide)⟩
  · exact ⟨by decide, Text.forall_isBlank_eq_false (by decide)⟩
  · exact ⟨by decide, Text.forall_isBlank_eq_false (by decide)⟩
  · simpa using h

/-- Collapsing the blanks of a tag collapses those in the value of an attribute and none around
it. -/
theorem collapseFrom_written {a : Attribute} (h : IsName a.name) (s : List Char) :
    collapseFrom false (a.written ++ s) = a.collapsed.written ++ collapseFrom false s := by
  obtain ⟨name, value⟩ := a
  have hname : ∀ c ∈ name, isBlank c = false := fun c hc => (h.plain c hc).1
  cases value with
  | none => exact Text.collapseFrom_append hname s
  | some value =>
    have hfront : ∀ c ∈ name ++ ['=', '"'], isBlank c = false := by
      intro c hc
      rcases List.mem_append.1 hc with hc | hc
      · exact hname c hc
      · simp only [List.mem_cons, List.not_mem_nil, or_false] at hc
        rcases hc with rfl | rfl <;> rfl
    have hvalue : collapseFrom false (value.flatMap attributeChar) =
        (collapseBlanks value).flatMap attributeChar :=
      Text.collapseFrom_flatMap (fun c => attributeChar_of_isBlank)
        (fun c => attributeChar_of_isBlank_eq_false) false value
    calc collapseFrom false (name ++ '=' :: '"' :: value.flatMap attributeChar ++ ['"'] ++ s)
        = collapseFrom false (name ++ ['=', '"'] ++ (value.flatMap attributeChar ++ '"' :: s)) := by
          simp
      _ = name ++ ['=', '"'] ++
          (collapseFrom false (value.flatMap attributeChar) ++ '"' :: collapseFrom false s) := by
        rw [Text.collapseFrom_append hfront, Text.collapseFrom_append_cons rfl]
      _ = name ++ '=' :: '"' :: (collapseBlanks value).flatMap attributeChar ++ ['"'] ++
          collapseFrom false s := by
        rw [hvalue]
        simp

/-- An attribute begins with no blank. -/
theorem head?_written {a : Attribute} (h : IsName a.name) (s : List Char) :
    ∀ c ∈ (a.written ++ s).head?, isBlank c = false := by
  obtain ⟨d, n, hname⟩ := List.exists_cons_of_ne_nil h.ne_nil
  have hd : isBlank d = false := (h.plain d (hname ▸ List.mem_cons_self)).1
  intro c hc
  have hhead : (a.written ++ s).head? = some d := by
    unfold Attribute.written
    split <;> simp [hname]
  rw [hhead] at hc
  rwa [← Option.some.inj hc]

/-- Collapsing the blanks of attributes collapses those in their values. -/
theorem collapseFrom_flatMap_written {as : List Attribute} (h : ∀ a ∈ as, IsName a.name)
    (s : List Char) :
    collapseFrom false (as.flatMap (fun a => ' ' :: a.written) ++ s) =
      as.flatMap (fun a => ' ' :: a.collapsed.written) ++ collapseFrom false s := by
  induction as with
  | nil => rfl
  | cons a as ih =>
    obtain ⟨ha, has⟩ := List.forall_mem_cons.1 h
    rw [List.flatMap_cons, List.append_assoc, List.cons_append]
    rw [Text.collapseFrom_space, Text.collapseFrom_of_head? (head?_written ha _), collapseBlanks,
      collapseFrom_written ha, ih has, List.flatMap_cons, List.append_assoc, List.cons_append]

/-- What stands in the tag of a script after the space behind its attributes. -/
def ending (address : List Char) : List Char :=
  "src=\"".toList ++ (address ++ '"' :: "></script>".toList)

/-- Collapsing the blanks of a tag collapses those in its address. -/
theorem collapseFrom_ending (inRun : Bool) (address : List Char) :
    collapseFrom inRun (ending address) = ending (collapseBlanks address) := by
  have hhead : ∀ c ∈ (ending address).head?, isBlank c = false := by
    intro c hc
    rw [← Option.some.inj hc]
    rfl
  rw [Text.collapseFrom_of_head? hhead, collapseBlanks, ending,
    Text.collapseFrom_append (Text.forall_isBlank_eq_false (by decide)),
    Text.collapseFrom_append_cons rfl]
  rfl

/-- The tag of a script: its attributes, each after a space, and its address, with the blanks in all
values collapsed. -/
theorem scriptTag_eq {address : String} {attributes : Mapping}
    (h : ∀ e ∈ attributes, IsName e.1.display.toList) :
    (scriptTag address attributes).toList = "<script".toList ++
      ((configured attributes).flatMap (fun a => ' ' :: a.collapsed.written) ++
        ' ' :: ending (collapseBlanks address.toList)) := by
  have hnames : ∀ a ∈ configured attributes, IsName a.name :=
    fun a ha => isName_of_mem_configured h ha
  have hparts : (scriptTag address attributes).toList = collapseFrom false ("<script".toList ++
      (' ' :: [' '].intercalate ((configured attributes).map Attribute.written) ++ ' ' ::
        ending address.toList)) := by
    unfold scriptTag
    simp [String.toList_intercalate, attributeTexts_eq, collapseBlanks, ending]
  have hspace : collapseFrom false (' ' :: ending address.toList) =
      ' ' :: ending (collapseBlanks address.toList) := by
    rw [Text.collapseFrom_space, collapseFrom_ending]
  rw [hparts, Text.collapseFrom_append (Text.forall_isBlank_eq_false (by decide))]
  refine congrArg ("<script".toList ++ ·) ?_
  generalize configured attributes = as at hnames
  cases as with
  | nil =>
    rw [List.map_nil, List.intercalate_nil, List.singleton_append, Text.collapseFrom_space,
      Text.collapseFrom_true_space, collapseFrom_ending, List.flatMap_nil, List.nil_append]
  | cons a as =>
    rw [Text.cons_intercalate ' ' (by simp), ← hspace, ← collapseFrom_flatMap_written hnames,
      List.flatMap_map]

/-! ## Reading attributes -/

/-- What attributes are written before begins with the name of one of them, or of what follows. -/
theorem exists_name_of_written {as : List Attribute} (h : ∀ a ∈ as, IsName a.name)
    {next : List Char} (hnext : IsName next) (rest : List Char) :
    ∃ n r, IsName n ∧ as.flatMap (fun a => ' ' :: a.written) ++ (' ' :: next ++ rest) =
      ' ' :: n ++ r := by
  cases as with
  | nil => exact ⟨next, rest, hnext, rfl⟩
  | cons a as =>
    obtain ⟨name, value⟩ := a
    have hname : IsName name := h _ List.mem_cons_self
    cases value with
    | none => exact ⟨name, _, hname, by simp [Attribute.written]; rfl⟩
    | some value => exact ⟨name, _, hname, by simp [Attribute.written]; rfl⟩

/-- Attributes that are written are read in order, before what follows. -/
theorem readFrom_flatMap_written
    (hknown : ∀ name text, attributeReferences name = some text → known name = some text)
    {as as' : List Attribute} (h : ∀ a ∈ as, IsName a.name) {next rest after : List Char}
    (hnext : IsName next)
    (hread : readFrom known .between (' ' :: next ++ rest) = some (as', after)) :
    readFrom known .between (as.flatMap (fun a => ' ' :: a.written) ++ (' ' :: next ++ rest)) =
      some (as ++ as', after) := by
  have hescaping : Text.IsEscaping known attributeChar :=
    fun c => (Text.isEscaping_attributeChar c).mono hknown
  induction as with
  | nil => exact hread
  | cons a as ih =>
    obtain ⟨ha, has⟩ := List.forall_mem_cons.1 h
    obtain ⟨name, value⟩ := a
    have hrest := ih has
    rw [List.flatMap_cons, List.append_assoc]
    cases value with
    | none =>
      obtain ⟨n, r, hn, heq⟩ := exists_name_of_written has hnext rest
      rw [heq] at hrest ⊢
      exact (readFrom_bare ha hn r).trans (by rw [hrest]; rfl)
    | some value =>
      have hvalue : '"' ∉ value.flatMap attributeChar := by
        intro hmem
        obtain ⟨c, -, hc⟩ := List.mem_flatMap.1 hmem
        exact notMem_attributeChar hc
      have hwritten : readFrom known .between _ = _ :=
        readFrom_valued ha hvalue (as.flatMap (fun a => ' ' :: a.written) ++ (' ' :: next ++ rest))
      rw [Text.undo_flatMap hescaping, hrest] at hwritten
      refine Eq.trans (congrArg (readFrom known .between) ?_) hwritten
      simp [Attribute.written]

/-- The end of a tag is read as the address of its script. -/
theorem readFrom_ending {address : List Char} (h : '"' ∉ address) :
    readFrom known .between (' ' :: ending address) =
    some ([⟨"src".toList, some (undo known address)⟩], "</script>".toList) := by
  have hsrc : IsName "src".toList := by decide
  exact readFrom_valued hsrc h "></script>".toList

/-- After the name of its element the attributes of a tag are read. -/
theorem startTag?_script (s : List Char) : startTag? known ("<script".toList ++ ' ' :: s) =
    (readFrom known .between (' ' :: s)).map fun (attributes, rest) =>
      ⟨"script".toList, attributes, rest⟩ := rfl

/-- A script tag is one start tag, whatever references the reader knows beyond those for the
characters that are escaped. It is read as the configured attributes in order, then the address. A
text comes back with each run of blanks made one space, and an address with its references undone
besides; so all of them come back as they are if and only if the blanks in the values are single
spaces and the address is none that this changes. -/
theorem read_scriptTag (hknown : ∀ name text, attributeReferences name = some text →
      known name = some text)
    {address : String} {attributes : Mapping} (haddress : '"' ∉ address.toList)
    (hkeys : ∀ e ∈ attributes, IsName e.1.display.toList) :
    startTag? known (scriptTag address attributes).toList = some ⟨"script".toList,
      (configured attributes).map Attribute.collapsed ++
        [⟨"src".toList, some (undo known (collapseBlanks address.toList))⟩], "</script>".toList⟩ ∧
    ((startTag? known (scriptTag address attributes).toList).map StartTag.attributes =
        some (configured attributes ++ [⟨"src".toList, some address.toList⟩]) ↔
      (∀ a ∈ configured attributes, ∀ value ∈ a.value, Text.IsTidy value) ∧
        undo known (collapseBlanks address.toList) = address.toList) ∧
    ('&' ∉ address.toList →
      (undo known (collapseBlanks address.toList) = address.toList ↔
        Text.IsTidy address.toList)) := by
  have hnames : ∀ a ∈ configured attributes, IsName a.name :=
    fun a ha => isName_of_mem_configured hkeys ha
  have hcollapsed : ∀ {c : Char}, c ≠ ' ' → c ∉ address.toList →
      c ∉ collapseBlanks address.toList := fun hc hmem h =>
    (Text.mem_of_mem_collapseFrom h).elim hc hmem
  have hread : startTag? known (scriptTag address attributes).toList = some ⟨"script".toList,
      (configured attributes).map Attribute.collapsed ++
        [⟨"src".toList, some (undo known (collapseBlanks address.toList))⟩],
          "</script>".toList⟩ := by
    have hsrc : IsName "src".toList := by decide
    have hend : readFrom known .between _ = _ := readFrom_ending (hcollapsed (by decide) haddress)
    have hnames' : ∀ a ∈ (configured attributes).map Attribute.collapsed, IsName a.name := by
      intro a ha
      obtain ⟨b, hb, rfl⟩ := List.mem_map.1 ha
      exact hnames b hb
    have hattributes := readFrom_flatMap_written hknown hnames' hsrc hend
    rw [List.flatMap_map] at hattributes
    obtain ⟨s, hs⟩ : ∃ s, (configured attributes).flatMap (fun a => ' ' :: a.collapsed.written) ++
        ' ' :: ending (collapseBlanks address.toList) = ' ' :: s := by
      cases configured attributes <;> exact ⟨_, rfl⟩
    rw [scriptTag_eq hkeys, hs, startTag?_script, ← hs]
    exact congrArg (Option.map _) hattributes
  refine ⟨hread, ?_, fun hampersand => ?_⟩
  · rw [hread, Option.map_some, Option.some_inj]
    have hmap : (configured attributes).map Attribute.collapsed = configured attributes ↔
        ∀ a ∈ configured attributes, ∀ value ∈ a.value, Text.IsTidy value := by
      nth_rewrite 2 [← List.map_id (configured attributes)]
      rw [List.map_inj_left]
      exact forall₂_congr fun a _ => a.collapsed_eq_self_iff
    rw [← hmap]
    constructor
    · intro heq
      obtain ⟨hall, hlast⟩ := List.append_inj heq (List.length_map _)
      exact ⟨hall, Option.some.inj (congrArg Attribute.value (List.cons.inj hlast).1)⟩
    · rintro ⟨hall, hlast⟩
      simp only [hall, hlast]
  · rw [Text.undo_eq_self (hcollapsed (by decide) hampersand), Text.collapseBlanks_eq_self_iff]

/-- Attributes of every kind: texts with markup in them, one that stands alone and one that is left
out. -/
def sampleAttributes : Mapping :=
  [(.text "data-x", .text "<a & \"b\" 'c'>"), (.text "async", .bool true),
    (.text "defer", .bool false), (.text "id", .text "")]

/-- In the sample the attributes and the address come back as they are. -/
theorem read_scriptTag_sample :
    '"' ∉ "/js/a b.js".toList ∧ (∀ e ∈ sampleAttributes, IsName e.1.display.toList) ∧
      startTag? attributeReferences (scriptTag "/js/a b.js" sampleAttributes).toList =
        some ⟨"script".toList,
          [⟨"data-x".toList, some "<a & \"b\" 'c'>".toList⟩, ⟨"async".toList, none⟩,
          ⟨"id".toList, some []⟩, ⟨"src".toList, some "/js/a b.js".toList⟩],
            "</script>".toList⟩ := by
  have haddress : '"' ∉ "/js/a b.js".toList := by decide
  have hkeys : ∀ e ∈ sampleAttributes, IsName e.1.display.toList := by decide +kernel
  refine ⟨haddress, hkeys, (read_scriptTag (fun _ _ h => h) haddress hkeys).1.trans ?_⟩
  decide +kernel

/-- An attribute with two blanks in its value. -/
def spacedAttributes : Mapping := [(.text "data-x", .text "a  b")]

/-- Two blanks in a value are read as one, and a reference that stands in an address is undone. -/
theorem scriptTag_rewrites_values :
    (∀ e ∈ spacedAttributes, IsName e.1.display.toList ∧ e.1.display ≠ "src") ∧
      '"' ∉ "/a.js".toList ∧
      (startTag? attributeReferences (scriptTag "/a.js" spacedAttributes).toList).map
        StartTag.attributes =
        some [⟨"data-x".toList, some "a b".toList⟩, ⟨"src".toList, some "/a.js".toList⟩] ∧
      (startTag? attributeReferences (scriptTag "/a.js" spacedAttributes).toList).map
        StartTag.attributes ≠
        some (configured spacedAttributes ++ [⟨"src".toList, some "/a.js".toList⟩]) ∧
      (startTag? attributeReferences (scriptTag "/a.js?b&amp;c" []).toList).map
        StartTag.attributes =
        some [⟨"src".toList, some "/a.js?b&c".toList⟩] := by
  decide +kernel

end Markup

end StaticSite
