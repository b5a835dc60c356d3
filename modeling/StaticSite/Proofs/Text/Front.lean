import Mathlib.Data.List.Forall2
import Mathlib.Data.List.TakeWhile
import Mathlib.Tactic.ByContra
import StaticSite.Text.Blank
import StaticSite.Text.Letter

/-!
# The front of a text

What the simplest readers take from the front of a text: the letters of a word
(`afterLetters?_eq_some_iff`), blanks (`skipBlanks_eq_cons_iff`) and the longest run of characters
of a kind (`takeWhile_eq_iff`). They take it from that part alone, whatever follows.
-/

namespace StaticSite.Text

/-- What is left after the blanks at the front of a text begins with no blank. -/
theorem isBlank_of_head?_skipBlanks {s : List Char} {c : Char} (h : (skipBlanks s).head? = some c) :
    isBlank c = false := by
  have hall := List.head?_dropWhile_not isBlank s
  unfold skipBlanks at h
  rw [h] at hall
  simpa using hall

/-- A text that does not start with a blank has none to skip. -/
theorem skipBlanks_eq_self {s : List Char} (h : ∀ c, s.head? = some c → isBlank c = false) :
    skipBlanks s = s := by
  cases s with
  | nil => rfl
  | cons c s => simp [skipBlanks, h c rfl]

/-- In a run of blanks the rest of the run is dropped. -/
theorem collapseFrom_true (s : List Char) :
    collapseFrom true s = collapseBlanks (s.dropWhile isBlank) := by
  induction s with
  | nil => rfl
  | cons c s ih =>
    cases hc : isBlank c <;> simp [collapseFrom, collapseBlanks, hc, ih]

/-- A trimmed text starts what follows the blanks of the text. -/
theorem isPrefix_trim (s : List Char) : trim s <+: skipBlanks s := by
  have hsuffix : skipBlanks (skipBlanks s).reverse <:+ (skipBlanks s).reverse :=
    List.dropWhile_suffix isBlank
  have hprefix := List.reverse_prefix.2 hsuffix
  rwa [List.reverse_reverse] at hprefix

/-- A character of a trimmed text is one of the text. -/
theorem mem_of_mem_trim {s : List Char} {c : Char} (h : c ∈ trim s) : c ∈ s :=
  (List.dropWhile_sublist isBlank).subset ((isPrefix_trim s).subset h)

/-- A text without the blanks at its ends begins with none. -/
theorem isBlank_of_head?_trim {s : List Char} {c : Char} (h : (trim s).head? = some c) :
    isBlank c = false := by
  obtain ⟨v, hv⟩ := isPrefix_trim s
  refine isBlank_of_head?_skipBlanks (s := s) ?_
  rw [← hv, List.head?_append, h]
  rfl

/-- A text without the blanks at its ends ends with none. -/
theorem isBlank_of_getLast?_trim {s : List Char} {c : Char} (h : (trim s).getLast? = some c) :
    isBlank c = false := by
  refine isBlank_of_head?_skipBlanks (s := (skipBlanks s).reverse) ?_
  rw [← List.getLast?_reverse]
  exact h

/-- Without the blanks at its end a text is a start of it. -/
theorem dropTrailingBlanks_prefix (s : List Char) : dropTrailingBlanks s <+: s := by
  have hsuffix : skipBlanks s.reverse <:+ s.reverse := List.dropWhile_suffix isBlank
  have hprefix := List.reverse_prefix.2 hsuffix
  rwa [List.reverse_reverse] at hprefix

/-- The blanks before a character that is none go, whatever follows it. -/
theorem skipBlanks_append_cons {c : Char} (hc : isBlank c = false) (t s : List Char) :
    skipBlanks (t ++ c :: s) = skipBlanks t ++ c :: s := by
  rw [skipBlanks, List.dropWhile_append]
  split
  · rename_i hall
    rw [skipBlanks, List.isEmpty_iff.1 hall,
      List.dropWhile_cons_of_neg (by rw [hc]; exact Bool.false_ne_true), List.nil_append]
  · rfl

/-- The blanks at the end of a text go, whatever stands before a character that is none. -/
theorem dropTrailingBlanks_append {c : Char} (hc : isBlank c = false) (t s : List Char) :
    dropTrailingBlanks (t ++ c :: s) = t ++ c :: dropTrailingBlanks s := by
  have hskip := skipBlanks_append_cons hc s.reverse t.reverse
  simp [dropTrailingBlanks, hskip]

/-- The characters that are no blanks stay when those at the ends go. -/
theorem filter_trim (s : List Char) : (trim s).filter (!isBlank ·) = s.filter (!isBlank ·) := by
  have hskip : ∀ s, (skipBlanks s).filter (!isBlank ·) = s.filter (!isBlank ·) := by
    intro s
    have hblanks : (s.takeWhile isBlank).filter (!isBlank ·) = [] := by
      refine List.filter_eq_nil_iff.2 fun c hc => ?_
      simp [List.mem_takeWhile_imp hc]
    calc (skipBlanks s).filter (!isBlank ·)
        = (s.takeWhile isBlank ++ skipBlanks s).filter (!isBlank ·) := by
          rw [List.filter_append, hblanks, List.nil_append]
      _ = s.filter (!isBlank ·) := by rw [skipBlanks, List.takeWhile_append_dropWhile]
  rw [trim, dropTrailingBlanks, List.filter_reverse, hskip, List.filter_reverse,
    List.reverse_reverse, hskip]

/-- A text with no blank at its ends has none to lose. -/
theorem trim_eq_self {s : List Char} (hfirst : ∀ c, s.head? = some c → isBlank c = false)
    (hlast : ∀ c, s.getLast? = some c → isBlank c = false) : trim s = s := by
  rw [trim, skipBlanks_eq_self hfirst, dropTrailingBlanks,
    skipBlanks_eq_self (by rwa [List.head?_reverse]), List.reverse_reverse]

variable {s t : List Char}

/-- Some characters spell a word letter by letter, in either case. -/
def Spells (word s : List Char) : Prop := List.Forall₂ (fun l c => sameLetter l c = true) word s

/-- Every character is blank. -/
def AllBlank (s : List Char) : Prop := ∀ c ∈ s, isBlank c = true

/-- Letters are found where the text begins with a spelling of them. -/
theorem afterLetters?_eq_some_iff {word rest : List Char} :
    afterLetters? word s = some rest ↔ ∃ a, s = a ++ rest ∧ Spells word a := by
  -- On the letters that are looked for, each of which takes one character.
  induction word generalizing s with
  | nil =>
    simp only [afterLetters?, Option.some.injEq]
    constructor
    · rintro rfl
      exact ⟨[], rfl, .nil⟩
    · rintro ⟨a, rfl, ha⟩
      cases ha
      rfl
  | cons l word ih =>
    cases s with
    | nil =>
      simp only [afterLetters?, reduceCtorEq, false_iff]
      rintro ⟨a, hs, ha⟩
      cases ha
      cases hs
    | cons c s =>
      simp only [afterLetters?]
      constructor
      · intro h
        split at h
        · rename_i hc
          obtain ⟨a, rfl, ha⟩ := ih.1 h
          exact ⟨c :: a, rfl, .cons hc ha⟩
        · cases h
      · rintro ⟨a, hs, ha⟩
        cases ha with
        | cons hc ha =>
          obtain ⟨rfl, rfl⟩ := List.cons.inj hs
          rw [if_pos hc]
          exact ih.2 ⟨_, rfl, ha⟩

/-- What is left after blanks begins with a character that is none. -/
theorem skipBlanks_eq_cons_iff {c : Char} :
    skipBlanks s = c :: t ↔ isBlank c = false ∧ ∃ blanks, AllBlank blanks ∧
      s = blanks ++ c :: t := by
  constructor
  · intro h
    refine ⟨isBlank_of_head?_skipBlanks (s := s) (by rw [h]; rfl), s.takeWhile isBlank, ?_, ?_⟩
    · exact fun c hc => List.mem_takeWhile_imp hc
    · rw [← h]
      exact List.takeWhile_append_dropWhile.symm
  · rintro ⟨hc, blanks, hblanks, rfl⟩
    unfold skipBlanks
    rw [List.dropWhile_append_of_pos hblanks,
      List.dropWhile_cons_of_neg (by rw [hc]; exact Bool.false_ne_true)]

/-- The longest run at the front of a text, and what follows it. -/
theorem takeWhile_eq_iff {p : Char → Bool} {a : List Char} :
    s.takeWhile p = a ∧ s.dropWhile p = t ↔ s = a ++ t ∧ (∀ c ∈ a, p c = true) ∧
      ∀ c, t.head? = some c → p c = false := by
  constructor
  · rintro ⟨rfl, rfl⟩
    refine ⟨List.takeWhile_append_dropWhile.symm, fun c hc => List.mem_takeWhile_imp hc,
      fun c hc => ?_⟩
    have hall := List.head?_dropWhile_not p s
    rw [hc] at hall
    simpa using hall
  · rintro ⟨rfl, ha, ht⟩
    rw [List.takeWhile_append_of_pos ha, List.dropWhile_append_of_pos ha]
    cases t with
    | nil => exact ⟨List.append_nil a, rfl⟩
    | cons c t =>
      have hc : ¬p c = true := by
        rw [ht c rfl]
        exact Bool.false_ne_true
      rw [List.takeWhile_cons_of_neg hc, List.dropWhile_cons_of_neg hc]
      exact ⟨List.append_nil a, rfl⟩

end StaticSite.Text
