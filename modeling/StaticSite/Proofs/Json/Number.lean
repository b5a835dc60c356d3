import Mathlib.Algebra.Group.Nat.Defs
import Mathlib.Data.List.Induction
import StaticSite.Json.Writer
import StaticSite.Json.Reader
import StaticSite.Proofs.Text.Front
import StaticSite.Proofs.Text.Letter

/-!
# Numbers and names in a document

A number or a name is read up to where its member ends, whatever comes then (`scalar_append`), since
neither goes on across a comma or a closing bracket. What is written for a number or a name is one
token (`IsTokenFor`): it reads back as what it was written for, and no character of it is blank or
begins a string, an array or an object. Whole numbers are written so (`isTokenFor_int`), and floats
as far as their texts read back (`isTokenFor_float`).
-/

namespace StaticSite.Json

variable {s r rest : List Char} {v : Json} {c : Char}

/-- Nothing follows a value, or the end of its member does. -/
inductive Ends : List Char → Prop where
  /-- The document ends. -/
  | nil : Ends []
  /-- Another member follows. -/
  | comma (rest : List Char) : Ends (',' :: rest)
  /-- The array ends. -/
  | bracket (rest : List Char) : Ends (']' :: rest)
  /-- The object ends. -/
  | brace (rest : List Char) : Ends ('\x7d' :: rest)

/-! ## Numbers up to their ends -/

/-- A run of digits does not go on across the end of a member. -/
theorem digits_append (hrest : Ends rest) (s : List Char) :
    (s ++ rest).takeWhile Char.isDigit = s.takeWhile Char.isDigit ∧
      (s ++ rest).dropWhile Char.isDigit = s.dropWhile Char.isDigit ++ rest := by
  obtain ⟨hs, hdigits, hstop⟩ := (Text.takeWhile_eq_iff (s := s)).1 ⟨rfl, rfl⟩
  refine Text.takeWhile_eq_iff.2 ⟨?_, hdigits, fun c hc => ?_⟩
  · rw [← List.append_assoc, ← hs]
  · cases hleft : s.dropWhile Char.isDigit with
    | nil =>
      rw [hleft, List.nil_append] at hc
      cases hrest <;> cases hc <;> rfl
    | cons d left =>
      rw [hleft] at hc hstop
      exact hstop c hc

/-- A sign is read alike where the number ends the text. -/
theorem sign_append (hrest : Ends rest) (s : List Char) :
    sign (s ++ rest) = ((sign s).1, (sign s).2 ++ rest) := by
  cases s with
  | nil => cases hrest <;> rfl
  | cons c s => by_cases hc : c = '-' <;> simp [sign, hc]

/-- The digits of a number begin with a zero only if it is the only one. -/
theorem whole_cons (hc : c ≠ '0') (s : List Char) :
    whole (c :: s) = ((c :: s).takeWhile Char.isDigit, (c :: s).dropWhile Char.isDigit) := by
  unfold whole
  split
  · rename_i heq
    exact absurd (List.cons.inj heq).1 hc
  · rfl

/-- The whole digits are read alike where the number ends the text. -/
theorem whole_append (hrest : Ends rest) (s : List Char) :
    whole (s ++ rest) = ((whole s).1, (whole s).2 ++ rest) := by
  cases s with
  | nil => cases hrest <;> rfl
  | cons c s =>
    by_cases hc : c = '0'
    · simp [whole, hc]
    · obtain ⟨htake, hdrop⟩ := digits_append hrest (c :: s)
      rw [whole_cons hc, ← htake, ← hdrop]
      exact whole_cons hc _

/-- A fraction is read alike where the number ends the text. -/
theorem fraction_append (hrest : Ends rest) (s : List Char) :
    fraction (s ++ rest) = ((fraction s).1, (fraction s).2 ++ rest) := by
  cases s with
  | nil => cases hrest <;> rfl
  | cons c s =>
    by_cases hc : c = '.'
    · obtain ⟨htake, hdrop⟩ := digits_append hrest s
      subst hc
      simp only [fraction, List.cons_append, htake, hdrop]
      split <;> rfl
    · simp [fraction, hc]

/-- The sign of an exponent is read alike where the number ends the text. -/
theorem exponentSign_append (hrest : Ends rest) (s : List Char) :
    exponentSign (s ++ rest) = ((exponentSign s).1, (exponentSign s).2 ++ rest) := by
  cases s with
  | nil => cases hrest <;> rfl
  | cons c s => by_cases hminus : c = '-' <;> by_cases hplus : c = '+' <;>
      simp [exponentSign, hminus, hplus]

/-- An exponent is read alike where the number ends the text. -/
theorem exponent_append (hrest : Ends rest) (s : List Char) :
    exponent (s ++ rest) = ((exponent s).1, (exponent s).2 ++ rest) := by
  cases s with
  | nil => cases hrest <;> rfl
  | cons c s =>
    obtain ⟨htake, hdrop⟩ := digits_append hrest (exponentSign s).2
    simp only [exponent, List.cons_append, exponentSign_append hrest, htake, hdrop]
    split
    · split <;> rfl
    · rfl

/-- A number is read up to the end of its member. -/
theorem number_append (hrest : Ends rest) (h : number s = .ok (v, r)) :
    number (s ++ rest) = .ok (v, r ++ rest) := by
  unfold number at h ⊢
  simp only [sign_append hrest, whole_append hrest, fraction_append hrest,
    exponent_append hrest] at h ⊢
  split at h
  · cases h
  rename_i hdigits
  rw [if_neg hdigits]
  split at h
  · rename_i hint
    rw [if_pos hint]
    split at h
    · cases h
    · rename_i hshort
      rw [if_neg hshort]
      cases h
      rfl
  · rename_i hfloat
    rw [if_neg hfloat]
    cases h
    rfl

/-- A digit is worth less than ten. -/
theorem ofDigits_lt {digits : List Char} (h : ∀ c ∈ digits, c.isDigit = true) :
    Decimal.ofDigits 10 (digitsValue digits) < 10 ^ digits.length := by
  induction digits using List.reverseRecOn with
  | nil => decide
  | append_singleton digits c ih =>
    obtain ⟨hdigits, hc⟩ := List.forall_mem_append.1 h
    have hlt := ih hdigits
    have hdigit : c.toNat - 48 < 10 := by
      have hc := hc c List.mem_cons_self
      simp only [Char.isDigit, Bool.and_eq_true, decide_eq_true_eq] at hc
      have hle : c.toNat ≤ 57 := hc.2
      omega
    unfold Decimal.ofDigits digitsValue at hlt ⊢
    rw [List.map_append, List.foldl_append, List.length_append, List.length_singleton, Nat.pow_succ]
    simp only [List.map_cons, List.map_nil, List.foldl_cons, List.foldl_nil]
    omega

/-- The whole part of a number has nothing but digits. -/
theorem digits_of_whole (s : List Char) : ∀ c ∈ (whole s).1, c.isDigit = true := by
  unfold whole
  split
  · intro c hc
    rw [List.mem_singleton.1 hc]
    rfl
  · exact fun c hc => List.mem_takeWhile_imp hc

/-- A whole number that is read has no more digits than the most. -/
theorem number_cases (h : number s = .ok (v, r)) :
    r = (exponent (fraction (whole (sign s).2).2).2).2 ∧
      ((∃ x, v = .float x) ∨ ∃ n : Int, v = .int n ∧ n.natAbs < 10 ^ digitLimit) := by
  unfold number at h
  dsimp only at h
  split at h
  · cases h
  · split at h
    · split at h
      · cases h
      · rename_i hshort
        cases h
        have hlt := ofDigits_lt (digits_of_whole (sign s).2)
        have hle := Nat.pow_le_pow_right (n := 10) (by decide) (Nat.not_lt.1 hshort)
        refine ⟨rfl, .inr ⟨_, rfl, ?_⟩⟩
        split <;> omega
    · cases h
      exact ⟨rfl, .inl ⟨_, rfl⟩⟩

/-! ## Names -/

/-- A character that names and numbers are written with. -/
def isTokenChar (c : Char) : Bool := c.isAlphanum || c == '.' || c == '+' || c == '-'

/-- The first characters tell which ones names and numbers are written with. -/
theorem of_isTokenChar {P : Char → Prop}
    (h : ∀ n < 128, isTokenChar (Char.ofNat n) = true → P (Char.ofNat n))
    (hc : isTokenChar c = true) : P c := by
  refine Text.of_toNat_lt (P := fun c => isTokenChar c = true → P c) h ?_ hc
  have hranges :
    (((decide (c.val ≥ 'A'.val ∧ c.val ≤ 'Z'.val) || c.val ≥ 'a'.val && c.val ≤ 'z'.val) ||
      c.val ≥ '0'.val && c.val ≤ '9'.val) || c == '.' || c == '+' || c == '-') = true := hc
  simp only [Bool.or_eq_true, Bool.and_eq_true, decide_eq_true_eq, beq_iff_eq] at hranges
  rcases hranges with (((((h | h) | h) | rfl) | rfl) | rfl)
  · exact Nat.lt_of_le_of_lt (show c.toNat ≤ 90 from h.2) (by decide)
  · exact Nat.lt_of_le_of_lt (show c.toNat ≤ 122 from h.2) (by decide)
  · exact Nat.lt_of_le_of_lt (show c.toNat ≤ 57 from h.2) (by decide)
  · decide
  · decide
  · decide

/-- A literal has nothing but characters of tokens. -/
theorem isTokenChar_of_mem_literals {l : List Char × Json} (hl : l ∈ literals) :
    ∀ c ∈ l.1, isTokenChar c = true := by
  have hall : literals.all (fun l => l.1.all isTokenChar) = true := rfl
  simp only [List.all_eq_true] at hall
  exact hall l hl

/-- A digit is a character of tokens. -/
theorem isTokenChar_of_isDigit (h : c.isDigit = true) : isTokenChar c = true := by
  simp [isTokenChar, Char.isAlphanum, h]

/-! ## What is left of a text -/

/-- A text, and what is left of it after some characters that names and numbers are written with. -/
inductive Skips : List Char → List Char → Prop where
  /-- All of it is left. -/
  | refl (s : List Char) : Skips s s
  /-- One more character is skipped. -/
  | cons {c : Char} {s r : List Char} (hc : isTokenChar c = true) (h : Skips s r) : Skips (c :: s) r

/-- Two parts that are skipped are skipped together. -/
theorem Skips.trans (h : Skips s t) (h' : Skips t r) : Skips s r := by
  induction h with
  | refl s => exact h'
  | cons hc _ ih => exact .cons hc (ih h')

/-- What follows a skipped part is the end of the text. -/
theorem Skips.suffix (h : Skips s r) : r <:+ s := by
  induction h with
  | refl s => exact List.suffix_refl s
  | cons _ _ ih => exact ih.trans (List.suffix_cons _ _)

/-- Characters of a name are skipped. -/
theorem Skips.append {name : List Char} (hname : ∀ c ∈ name, isTokenChar c = true) (s : List Char) :
    Skips (name ++ s) s := by
  induction name with
  | nil => exact .refl s
  | cons c name ih =>
    obtain ⟨hc, hname⟩ := List.forall_mem_cons.1 hname
    exact .cons hc (ih hname)

/-- So are digits. -/
theorem Skips.dropWhile (s : List Char) : Skips s (s.dropWhile Char.isDigit) := by
  have hdigits : ∀ c ∈ s.takeWhile Char.isDigit, isTokenChar c = true :=
    fun c hc => isTokenChar_of_isDigit (List.mem_takeWhile_imp hc)
  have happend := Skips.append hdigits (s.dropWhile Char.isDigit)
  rwa [List.takeWhile_append_dropWhile] at happend

/-- Reading a sign skips characters of tokens. -/
theorem sign_skips (s : List Char) : Skips s (sign s).2 := by
  unfold sign
  split
  · exact .cons rfl (.refl _)
  · exact .refl _

/-- Reading the whole digits skips characters of tokens. -/
theorem whole_skips (s : List Char) : Skips s (whole s).2 := by
  unfold whole
  split
  · exact .cons rfl (.refl _)
  · exact .dropWhile _

/-- Reading a fraction skips characters of tokens. -/
theorem fraction_skips (s : List Char) : Skips s (fraction s).2 := by
  unfold fraction
  split
  · dsimp only
    split
    · exact .refl _
    · exact .cons rfl (.dropWhile _)
  · exact .refl _

/-- Reading the sign of an exponent skips characters of tokens. -/
theorem exponentSign_skips (s : List Char) : Skips s (exponentSign s).2 := by
  unfold exponentSign
  split
  · exact .cons rfl (.refl _)
  · exact .cons rfl (.refl _)
  · exact .refl _

/-- Reading an exponent skips characters of tokens. -/
theorem exponent_skips (s : List Char) : Skips s (exponent s).2 := by
  unfold exponent
  split
  · split
    · rename_i hmark
      dsimp only
      split
      · exact .refl _
      · refine .cons ?_ ((exponentSign_skips _).trans (.dropWhile _))
        rcases Bool.or_eq_true_iff.1 hmark with h | h <;> rw [beq_iff_eq.1 h] <;> rfl
    · exact .refl _
  · exact .refl _

/-- A number is written with such characters alone. -/
theorem number_skips (h : number s = .ok (v, r)) : Skips s r := by
  rw [(number_cases h).1]
  exact (sign_skips s).trans ((whole_skips _).trans ((fraction_skips _).trans (exponent_skips _)))

/-- A name does not go on across the end of a member. -/
theorem isPrefixOf_append (hrest : Ends rest) {name : List Char}
    (hname : ∀ c ∈ name, isTokenChar c = true) (s : List Char) :
    name.isPrefixOf (s ++ rest) = name.isPrefixOf s := by
  induction name generalizing s with
  | nil => rfl
  | cons a name ih =>
    obtain ⟨ha, hname⟩ := List.forall_mem_cons.1 hname
    cases s with
    | nil =>
      cases hrest with
      | nil => rfl
      | comma | bracket | brace =>
        rw [List.nil_append, List.isPrefixOf_cons_cons, Bool.and_eq_false_imp.2]
        · rfl
        · intro heq
          rw [beq_iff_eq.1 heq] at ha
          cases ha
    | cons b s =>
        rw [List.cons_append, List.isPrefixOf_cons_cons, List.isPrefixOf_cons_cons, ih hname]

/-- A literal is read alike where it ends the text. -/
theorem literal?_append (hrest : Ends rest) (s : List Char) :
    literal? (s ++ rest) = (literal? s).map fun found => (found.1, found.2 ++ rest) := by
  have hliterals : ∀ l ∈ literals, ∀ c ∈ l.1, isTokenChar c = true :=
    fun l hl => isTokenChar_of_mem_literals hl
  unfold literal?
  generalize literals = names at hliterals
  induction names with
  | nil => rfl
  | cons l others ih =>
    obtain ⟨hl, hothers⟩ := List.forall_mem_cons.1 hliterals
    rw [List.findSome?_cons, List.findSome?_cons, isPrefixOf_append hrest hl, ih hothers]
    by_cases hbegins : l.1.isPrefixOf s = true
    · have hlength := (List.isPrefixOf_iff_prefix.1 hbegins).length_le
      simp only [hbegins, if_true, Option.map_some, List.drop_append_of_le_length hlength]
    · simp only [hbegins, Bool.false_eq_true, if_false]

/-- Reading a literal skips characters of tokens. -/
theorem literal?_skips {found : Json × List Char} (h : literal? s = some found) :
    Skips s found.2 := by
  obtain ⟨l, hl, hfound⟩ := List.exists_of_findSome?_eq_some h
  split at hfound
  · rename_i hbegins
    obtain ⟨t, rfl⟩ := List.isPrefixOf_iff_prefix.1 hbegins
    rw [← Option.some.inj hfound, List.drop_left]
    exact .append (isTokenChar_of_mem_literals hl) t
  · cases hfound

/-- A number or a name is read up to the end of its member. -/
theorem scalar_append (hrest : Ends rest) (h : scalar s = .ok (v, r)) :
    scalar (s ++ rest) = .ok (v, r ++ rest) := by
  unfold scalar at h ⊢
  rw [literal?_append hrest]
  cases hliteral : literal? s with
  | none =>
    rw [hliteral] at h
    exact number_append hrest h
  | some found =>
    rw [hliteral] at h
    rw [Except.ok.inj h]
    rfl

/-- A number or a name is written with such characters alone. -/
theorem scalar_skips (h : scalar s = .ok (v, r)) : Skips s r := by
  unfold scalar at h
  split at h
  · rename_i found hliteral
    rw [Except.ok.inj h] at hliteral
    exact literal?_skips hliteral
  · exact number_skips h

/-! ## Tokens -/

/-- A text is one token that reads as a number or as the value of a name. -/
structure IsTokenFor (v : Json) (s : List Char) : Prop where
  /-- It reads so. -/
  reads : scalar s = .ok (v, [])
  /-- It is written with the characters of names and numbers. -/
  chars : ∀ c ∈ s, isTokenChar c = true

/-- A token has a first character. -/
theorem IsTokenFor.exists_cons (h : IsTokenFor v s) : ∃ c t, s = c :: t ∧ isTokenChar c = true := by
  cases s with
  | nil => cases h.reads
  | cons c t => exact ⟨c, t, rfl, h.chars c List.mem_cons_self⟩

/-- What begins with such a character is read as a number or a name. -/
theorem value_of_isTokenChar (fuel : Nat) (hc : isTokenChar c = true) (t : List Char) :
    value (fuel + 1) (c :: t) = scalar (c :: t) := by
  obtain ⟨hquote, hbrace, hbracket⟩ : c ≠ '"' ∧ c ≠ '\x7b' ∧ c ≠ '[' :=
    of_isTokenChar (P := fun c => c ≠ '"' ∧ c ≠ '\x7b' ∧ c ≠ '[') (by decide) hc
  rw [value]
  all_goals simp [hquote, hbrace, hbracket]

/-- A token is read as what it stands for up to the end of its member. -/
theorem IsTokenFor.value_append (h : IsTokenFor v s) (hrest : Ends rest) (fuel : Nat) :
    value (fuel + 1) (s ++ rest) = .ok (v, rest) := by
  obtain ⟨c, t, rfl, hc⟩ := h.exists_cons
  rw [List.cons_append, value_of_isTokenChar fuel hc, ← List.cons_append,
    scalar_append hrest h.reads]
  rfl

/-- The word for nothing is its token. -/
theorem isTokenFor_null : IsTokenFor .null "null".toList := ⟨rfl, List.all_eq_true.1 (by decide)⟩

/-- The words for truth values are their tokens. -/
theorem isTokenFor_bool (b : Bool) :
    IsTokenFor (.bool b) (if b then "true" else "false").toList := by
  cases b
  · exact ⟨rfl, List.all_eq_true.1 (by decide)⟩
  · exact ⟨rfl, List.all_eq_true.1 (by decide)⟩

/-! ## Whole numbers -/

/-- The decimal digits of a number are digits. -/
theorem isDigit_of_mem_toDigits {n : Nat} (h : c ∈ Nat.toDigits 10 n) : c.isDigit = true :=
  Nat.isDigit_of_mem_toDigits (by decide) (by decide) h

/-- Only zero is written with a zero in front. -/
theorem eq_zero_of_head?_toDigits {n : Nat} (h : (Nat.toDigits 10 n).head? = some '0') : n = 0 := by
  induction n using Nat.base_induction 10 (by decide) with
  | single m hm =>
    rw [Nat.toDigits_of_lt_base hm] at h
    revert h
    revert m
    decide
  | digit m k hk hm ih =>
    rw [← Nat.toDigits_append_toDigits (by decide) hm hk,
      List.head?_append_of_ne_nil _ Nat.toDigits_ne_nil] at h
    have := ih h
    omega

/-- The decimal digits of a number are read as its whole part. -/
theorem whole_toDigits (n : Nat) : whole (Nat.toDigits 10 n) = (Nat.toDigits 10 n, []) := by
  by_cases hn : n = 0
  · rw [hn]
    rfl
  · cases hdigits : Nat.toDigits 10 n with
    | nil => exact absurd hdigits Nat.toDigits_ne_nil
    | cons c s =>
      have hc : c ≠ '0' := by
        rintro rfl
        exact hn (eq_zero_of_head?_toDigits (by rw [hdigits]; rfl))
      have hall : ∀ c' ∈ c :: s, c'.isDigit = true :=
        fun c' hc' => isDigit_of_mem_toDigits (hdigits ▸ hc')
      rw [whole_cons hc, List.takeWhile_eq_self_iff.2 hall, List.dropWhile_eq_nil_iff.2 hall]

/-- A number is the value of its decimal digits. -/
theorem ofDigits_toDigits (n : Nat) :
    Decimal.ofDigits 10 (digitsValue (Nat.toDigits 10 n)) = n := by
  unfold Decimal.ofDigits digitsValue
  rw [List.foldl_map]
  exact Nat.ofDigitChars_ten_toDigits

/-- The digits of a number read as it, after a minus as its opposite. -/
theorem number_of_sign {n : Nat} (hn : n < 10 ^ digitLimit) {negative : Bool}
    (hs : sign s = (negative, Nat.toDigits 10 n)) :
    number s = .ok (.int (if negative then -n else n), []) := by
  have hlength : (Nat.toDigits 10 n).length ≤ digitLimit :=
    (Nat.length_toDigits_le_iff (by decide) (by decide)).2 hn
  have hdigits : ¬(Nat.toDigits 10 n).isEmpty = true := by
    rw [List.isEmpty_iff]
    exact Nat.toDigits_ne_nil
  unfold number
  simp only [hs, whole_toDigits, ofDigits_toDigits]
  rw [if_neg hdigits]
  exact if_neg (Nat.not_lt.2 hlength)

/-- No name is written like the digits of a number, and none like their opposite. -/
theorem literal?_toDigits (n : Nat) :
    literal? (Nat.toDigits 10 n) = none ∧ literal? ('-' :: Nat.toDigits 10 n) = none := by
  cases hdigits : Nat.toDigits 10 n with
  | nil => exact absurd hdigits Nat.toDigits_ne_nil
  | cons c t =>
    have hne : ∀ d : Char, d.isDigit = false → d ≠ c := by
      rintro d hd rfl
      rw [isDigit_of_mem_toDigits (n := n) (hdigits ▸ List.mem_cons_self)] at hd
      cases hd
    constructor
    · simp [literal?, literals, hne]
    · simp [literal?, literals, hne]

/-- The decimal digits of a number have no sign. -/
theorem sign_toDigits (n : Nat) : sign (Nat.toDigits 10 n) = (false, Nat.toDigits 10 n) := by
  unfold sign
  split
  · rename_i heq
    have hminus := isDigit_of_mem_toDigits (n := n) (heq ▸ List.mem_cons_self)
    cases hminus
  · rfl

/-- A whole number of not too many digits is written as a token. -/
theorem isTokenFor_int {n : Int} (hn : n.natAbs < 10 ^ digitLimit) :
    IsTokenFor (.int n) (toString n).toList := by
  have hchars : ∀ m, ∀ c ∈ Nat.toDigits 10 m, isTokenChar c = true :=
    fun m c hc => isTokenChar_of_isDigit (isDigit_of_mem_toDigits hc)
  cases n with
  | ofNat m =>
    have htext : (toString (Int.ofNat m)).toList = Nat.toDigits 10 m := Nat.toList_repr
    rw [htext]
    refine ⟨?_, hchars m⟩
    unfold scalar
    rw [(literal?_toDigits m).1]
    exact number_of_sign hn (sign_toDigits m)
  | negSucc m =>
    have htext : (toString (Int.negSucc m)).toList = '-' :: Nat.toDigits 10 (m + 1) := by
      rw [← Nat.toList_repr, show toString (Int.negSucc m) = "-" ++ Nat.repr (m + 1) from rfl,
        String.toList_append]
      rfl
    rw [htext]
    refine ⟨?_, List.forall_mem_cons.2 ⟨rfl, hchars (m + 1)⟩⟩
    unfold scalar
    rw [(literal?_toDigits (m + 1)).2]
    exact number_of_sign (s := '-' :: Nat.toDigits 10 (m + 1)) hn rfl

/-! ## Floats -/

/-- A number is written with characters of tokens. -/
theorem isTokenChar_toString (n : Nat) : ∀ c ∈ (toString n).toList, isTokenChar c = true := by
  intro c hc
  rw [show toString n = n.repr from rfl, Nat.toList_repr] at hc
  exact isTokenChar_of_isDigit (isDigit_of_mem_toDigits hc)

/-- An exponent is written with characters of tokens. -/
theorem isTokenChar_exponentText (e : Int) :
    ∀ c ∈ (Decimal.exponentText e).toList, isTokenChar c = true := by
  have hdigits := isTokenChar_toString e.natAbs
  unfold Decimal.exponentText
  simp only [String.toList_append, List.forall_mem_append]
  refine ⟨⟨List.all_eq_true.1 (by decide), ?_⟩, ?_⟩
  · split <;> exact List.all_eq_true.1 (by decide)
  · split
    · rw [String.toList_append, List.forall_mem_append]
      exact ⟨List.all_eq_true.1 (by decide), hdigits⟩
    · exact hdigits

/-- Digits with a point among them are characters of tokens, if the digits are. -/
theorem isTokenChar_positioned {layout : Decimal.Layout} {digits : List Char}
    (hdigits : ∀ c ∈ digits, isTokenChar c = true) (places : Int) :
    ∀ c ∈ (Decimal.positioned layout digits places).toList, isTokenChar c = true := by
  have hzeros : ∀ n, ∀ c ∈ List.replicate n '0', isTokenChar c = true := by
    intro n c hc
    rw [List.eq_of_mem_replicate hc]
    rfl
  unfold Decimal.positioned
  split
  · cases digits with
    | nil =>
      change ∀ c ∈ "0.0".toList, isTokenChar c = true
      exact List.all_eq_true.1 (by decide)
    | cons d others =>
      obtain ⟨hd, hothers⟩ := List.forall_mem_cons.1 hdigits
      simp only [String.toList_append, List.forall_mem_append, String.toList_singleton,
        List.forall_mem_singleton]
      refine ⟨⟨hd, ?_⟩, isTokenChar_exponentText _⟩
      split
      · rw [String.toList_ofList, List.forall_mem_cons]
        exact ⟨rfl, hothers⟩
      · split <;> exact List.all_eq_true.1 (by decide)
  · split
    · simp only [String.toList_append, List.forall_mem_append, String.toList_ofList]
      exact ⟨List.all_eq_true.1 (by decide), hzeros _, hdigits⟩
    · simp only [String.toList_append, List.forall_mem_append, String.toList_ofList]
      refine ⟨⟨⟨fun c hc => hdigits c (List.mem_of_mem_take hc), hzeros _⟩,
        List.all_eq_true.1 (by decide)⟩, ?_⟩
      split
      · exact List.all_eq_true.1 (by decide)
      · rw [String.toList_ofList]
        exact fun c hc => hdigits c (List.mem_of_mem_drop hc)

/-- A float is written with characters of tokens. -/
theorem isTokenChar_render (x : Float) :
    ∀ c ∈ (Decimal.render .json x).toList, isTokenChar c = true := by
  have hsign : ∀ negative : Bool, ∀ c ∈ (if negative then "-" else "").toList,
      isTokenChar c = true := by
    rintro (_ | _) <;> exact List.all_eq_true.1 (by decide)
  unfold Decimal.render
  split
  · exact List.all_eq_true.1 (by decide)
  · rw [String.toList_append, List.forall_mem_append]
    exact ⟨hsign _, List.all_eq_true.1 (by decide)⟩
  · rw [String.toList_append, List.forall_mem_append]
    refine ⟨hsign _, ?_⟩
    dsimp only
    split
    · exact List.all_eq_true.1 (by decide)
    · exact isTokenChar_positioned (isTokenChar_toString _) _

/-- A text is parsed as the document that its characters are. -/
theorem parse_eq_ok_iff {text : String} : parse text = .ok v ↔ document text.toList = .ok v := by
  unfold parse
  cases hdocument : document text.toList with
  | ok v' => simp
  | error stop => cases stop <;> simp

/-- A document written with the characters of names and numbers is one token. -/
theorem isTokenFor_of_parse {text : String} (hchars : ∀ c ∈ text.toList, isTokenChar c = true)
    (h : parse text = .ok v) :
    IsTokenFor v text.toList := by
  refine ⟨?_, hchars⟩
  rw [parse_eq_ok_iff] at h
  generalize text.toList = s at h hchars
  -- None of the characters is a blank, so that nothing is skipped around the token.
  have hskip : ∀ t, t <:+ s → skipSpace t = t := by
    intro t ht
    cases t with
    | nil => rfl
    | cons c t =>
      have hc : isSpace c = false :=
        of_isTokenChar (P := fun c => isSpace c = false) (by decide)
          (hchars c (ht.subset List.mem_cons_self))
      simp [skipSpace, hc]
  unfold document at h
  split at h
  · cases h
  · rw [hskip s (List.suffix_refl s)] at h
    cases s with
    | nil => cases h
    | cons c t =>
      rw [value_of_isTokenChar _ (hchars c List.mem_cons_self)] at h
      cases hscalar : scalar (c :: t) with
      | error stop =>
        rw [hscalar] at h
        cases h
      | ok found =>
        obtain ⟨v', left⟩ := found
        rw [hscalar] at h
        simp only [bind, Except.bind] at h
        rw [hskip left (scalar_skips hscalar).suffix] at h
        cases left with
        | nil =>
          cases h
          rfl
        | cons c' left => cases h

/-- A float is written as a token if its text reads back. -/
theorem isTokenFor_float {x : Float} (h : parse (Decimal.render .json x) = .ok (.float x)) :
    IsTokenFor (.float x) (Decimal.render .json x).toList :=
  isTokenFor_of_parse (isTokenChar_render x) h

end StaticSite.Json
