import StaticSite.Json.Nesting
import StaticSite.Proofs.Json.Number

/-!
# The compact form of a document

`Written` is the grammar of compact JSON: numbers and names as tokens, strings with their escapes,
and members parted by a comma alone. The compact form of a document is written by it as far as a
text can hold it (`written_of_compact`): the document is proper (`IsProper`), its floats read back,
and no string of it holds half of a surrogate pair. Whatever is written so is tidy (`IsTidy`): its
strings are closed, no blank stands outside them, and no character is a control character.
-/

namespace StaticSite.Json

variable {s t rest : List Char} {c : Char} {v : Json}

/-! ## Strings -/

/-- How a character is written in a string. -/
def written (c : Char) : List Char := (escapedChar? c).getD [c]

/-- Characters as a string in compact form. -/
def quoted (chars : List Char) : List Char := '"' :: chars.flatMap written ++ ['"']

/-- A character is written as itself, or as a backslash and a letter, or by its number. -/
theorem written_cases (c : Char) :
    (written c = [c] ∧ c ≠ '"' ∧ c ≠ '\\' ∧ 32 ≤ c.toNat) ∨
      (∃ e, written c = ['\\', e] ∧ e ≠ 'u' ∧ escaped? e = some c ∧ 32 ≤ e.toNat) ∨
      (written c = '\\' :: 'u' :: Text.hex 4 c.toNat ∧ c.toNat < 32) := by
  unfold written escapedChar?
  split
  case h_8 hquote hbackslash _ _ _ _ _ =>
    split
    · rename_i hcontrol
      exact .inr (.inr ⟨rfl, hcontrol⟩)
    · rename_i hprintable
      exact .inl ⟨rfl, hquote, hbackslash, Nat.not_lt.1 hprintable⟩
  -- Each of the other characters has a letter of its own.
  all_goals exact .inr (.inl ⟨_, rfl, by decide, rfl, by decide⟩)

/-! ## The grammar -/

mutual

/-- A text is the compact form of a document. -/
inductive Written : Json → List Char → Prop where
  /-- A number, or a value with a name. -/
  | token {v : Json} {s : List Char} (h : IsTokenFor v s) : Written v s
  /-- A string. -/
  | string (chars : List Char) : Written (.string (chars.map .char)) (quoted chars)
  /-- An array without members. -/
  | emptyArray : Written (.array []) ['[', ']']
  /-- An array with members. -/
  | array {items : List Json} {s : List Char} (h : WrittenItems items s) : Written (.array items)
      ('[' :: s ++ [']'])
  /-- An object without entries. -/
  | emptyObject : Written (.object []) ['\x7b', '\x7d']
  /-- An object with entries, each with a key of its own. -/
  | object {entries : List (List Symbol × Json)} {s : List Char}
      (once : (entries.map Prod.fst).Nodup)
      (h : WrittenEntries entries s) : Written (.object entries) ('\x7b' :: s ++ ['\x7d'])

/-- A text is the compact form of the members of an array. -/
inductive WrittenItems : List Json → List Char → Prop where
  /-- The last one. -/
  | last {v : Json} {s : List Char} (h : Written v s) : WrittenItems [v] s
  /-- One with others after it. -/
  | cons {v : Json} {items : List Json} {s t : List Char} (h : Written v s)
      (hitems : WrittenItems items t) :
      WrittenItems (v :: items) (s ++ ',' :: t)

/-- A text is the compact form of the entries of an object. -/
inductive WrittenEntries : List (List Symbol × Json) → List Char → Prop where
  /-- The last one. -/
  | last {v : Json} {s : List Char} (key : List Char) (h : Written v s) :
      WrittenEntries [(key.map .char, v)] (quoted key ++ ':' :: s)
  /-- One with others after it. -/
  | cons {v : Json} {entries : List (List Symbol × Json)} {s t : List Char} (key : List Char)
      (h : Written v s)
      (hentries : WrittenEntries entries t) :
      WrittenEntries ((key.map .char, v) :: entries) (quoted key ++ ':' :: s ++ ',' :: t)

end

/-! ## Documents that have a compact form -/

/-- A document with whole numbers of not too many digits and with each key of an object once. -/
inductive IsProper : Json → Prop where
  /-- `null`. -/
  | null : IsProper .null
  /-- `true` or `false`. -/
  | bool (b : Bool) : IsProper (.bool b)
  /-- A whole number of not too many digits. -/
  | int {n : Int} (h : n.natAbs < 10 ^ digitLimit) : IsProper (.int n)
  /-- Any other number. -/
  | float (x : Float) : IsProper (.float x)
  /-- A string. -/
  | string (s : List Symbol) : IsProper (.string s)
  /-- An array with proper members. -/
  | array {items : List Json} (h : ∀ v ∈ items, IsProper v) : IsProper (.array items)
  /-- An object with proper entries, each with a key of its own. -/
  | object {entries : List (List Symbol × Json)} (once : (entries.map Prod.fst).Nodup)
      (h : ∀ e ∈ entries, IsProper e.2) :
      IsProper (.object entries)

mutual

/-- The floats in a document. -/
def floats : Json → List Float
  | .float x => [x]
  | .array items => floatsOfItems items
  | .object entries => floatsOfEntries entries
  | _ => []

/-- The floats in the members of an array. -/
def floatsOfItems : List Json → List Float
  | [] => []
  | v :: rest => v.floats ++ floatsOfItems rest

/-- The floats in the entries of an object. -/
def floatsOfEntries : List (List Symbol × Json) → List Float
  | [] => []
  | (_, v) :: rest => v.floats ++ floatsOfEntries rest

end

/-- A float whose text reads as it. -/
def Rereads (x : Float) : Prop := parse (Decimal.render .json x) = .ok (.float x)

instance (x : Float) : Decidable (Rereads x) :=
  decidable_of_iff (((parse (Decimal.render .json x)).toOption.any fun
    | .float y => decide (y = x)
    | _ => false) = true) <| by
    unfold Rereads
    cases parse (Decimal.render .json x) with
    | error fault => simp [Except.toOption]
    | ok v => cases v <;> simp [Except.toOption]

/-- Texts with the same characters are the same. -/
theorem map_char_injective {a b : List Char} (h : a.map Symbol.char = b.map .char) : a = b :=
  List.map_injective_iff.2 (fun _ _ h => Symbol.char.inj h) h

/-- What stands between brackets that are characters is made of characters if all is. -/
theorem exists_between {a b : Char} {inner : List Symbol}
    (h : s.map Symbol.char = .char a :: inner ++ [.char b]) :
    ∃ t, s = a :: t ++ [b] ∧ t.map Symbol.char = inner := by
  obtain ⟨front, back, rfl, hfront, hback⟩ := List.map_eq_append_iff.1 h
  obtain ⟨a', t, rfl, ha, ht⟩ := List.map_eq_cons_iff.1 hfront
  obtain ⟨b', u, rfl, hb, hu⟩ := List.map_eq_cons_iff.1 hback
  obtain rfl := List.map_eq_nil_iff.1 hu
  cases ha
  cases hb
  exact ⟨t, rfl, ht⟩

/-- What stands before and after a character is made of characters if all is. -/
theorem exists_around {a : Char} {before after : List Symbol}
    (h : s.map Symbol.char = before ++ .char a :: after) :
    ∃ t u, s = t ++ a :: u ∧ t.map Symbol.char = before ∧ u.map Symbol.char = after := by
  obtain ⟨t, back, rfl, ht, hback⟩ := List.map_eq_append_iff.1 h
  obtain ⟨a', u, rfl, ha, hu⟩ := List.map_eq_cons_iff.1 hback
  cases ha
  exact ⟨t, u, rfl, ht, hu⟩

/-- A string whose compact form is made of characters is itself. -/
theorem exists_of_compactString {symbols : List Symbol}
    (h : s.map Symbol.char = compactString symbols) :
    ∃ chars : List Char, symbols = chars.map .char ∧ s = quoted chars := by
  obtain ⟨t, rfl, ht⟩ := exists_between h
  suffices hbody : ∀ {body : List Char}, body.map Symbol.char = symbols.flatMap compactSymbol →
      ∃ chars : List Char, symbols = chars.map .char ∧ body = chars.flatMap written by
    obtain ⟨chars, hsymbols, hchars⟩ := hbody ht
    exact ⟨chars, hsymbols, by rw [hchars]; rfl⟩
  clear h ht
  intro body hbody
  induction symbols generalizing body with
  | nil => exact ⟨[], rfl, List.map_eq_nil_iff.1 hbody⟩
  | cons symbol symbols ih =>
    rw [List.flatMap_cons] at hbody
    obtain ⟨front, back, rfl, hfront, hback⟩ := List.map_eq_append_iff.1 hbody
    obtain ⟨chars, rfl, rfl⟩ := ih hback
    cases symbol with
    | half code =>
      obtain ⟨a, u, -, ha, -⟩ := List.map_eq_cons_iff.1 hfront
      cases ha
    | char c =>
      refine ⟨c :: chars, rfl, ?_⟩
      have hwritten : front.map Symbol.char = (written c).map .char := by
        rw [hfront]
        simp only [compactSymbol, written]
        cases escapedChar? c <;> rfl
      rw [map_char_injective hwritten, List.flatMap_cons]

mutual

/-- The compact form of a proper document is written by the grammar if it is made of characters and
the floats read back. -/
theorem written_of_compact : (d : Json) → d.IsProper → (∀ x ∈ d.floats, Rereads x) →
    ∀ {s : List Char},
    s.map Symbol.char = compact d → Written d s
  | .null, _, _, s, h => by
    rw [map_char_injective h]
    exact .token isTokenFor_null
  | .bool b, _, _, s, h => by
    rw [map_char_injective h]
    exact .token (isTokenFor_bool b)
  | .int n, .int hn, _, s, h => by
    rw [map_char_injective h]
    exact .token (isTokenFor_int hn)
  | .float x, _, hfloats, s, h => by
    rw [map_char_injective h]
    exact .token (isTokenFor_float (hfloats x List.mem_cons_self))
  | .string symbols, _, _, s, h => by
    obtain ⟨chars, rfl, rfl⟩ := exists_of_compactString h
    exact .string chars
  | .array items, .array hproper, hfloats, s, h => by
    obtain ⟨t, rfl, ht⟩ := exists_between h
    by_cases hitems : items = []
    · subst hitems
      obtain rfl := List.map_eq_nil_iff.1 ht
      exact .emptyArray
    · exact .array (writtenItems_of_compact items hitems hproper hfloats ht)
  | .object entries, .object once hproper, hfloats, s, h => by
    obtain ⟨t, rfl, ht⟩ := exists_between h
    by_cases hentries : entries = []
    · subst hentries
      obtain rfl := List.map_eq_nil_iff.1 ht
      exact .emptyObject
    · exact .object once (writtenEntries_of_compact entries hentries hproper hfloats ht)

/-- The members of an array are written in the compact form. -/
theorem writtenItems_of_compact : (items : List Json) → items ≠ [] → (∀ v ∈ items, IsProper v) →
    (∀ x ∈ floatsOfItems items, Rereads x) → ∀ {s : List Char}, s.map Symbol.char =
      compactItems items →
    WrittenItems items s
  | [], hne, _, _, _, _ => absurd rfl hne
  | [v], _, hproper, hfloats, s, h => by
    rw [floatsOfItems, List.forall_mem_append] at hfloats
    exact .last (written_of_compact v (hproper v List.mem_cons_self) hfloats.1 h)
  | v :: w :: rest, _, hproper, hfloats, s, h => by
    obtain ⟨hv, hrest⟩ := List.forall_mem_cons.1 hproper
    rw [floatsOfItems, List.forall_mem_append] at hfloats
    obtain ⟨t, u, rfl, ht, hu⟩ := exists_around h
    exact .cons (written_of_compact v hv hfloats.1 ht)
      (writtenItems_of_compact (w :: rest) (List.cons_ne_nil w rest) hrest hfloats.2 hu)

/-- The entries of an object are written in the compact form. -/
theorem writtenEntries_of_compact :
    (entries : List (List Symbol × Json)) → entries ≠ [] → (∀ e ∈ entries, IsProper e.2) →
    (∀ x ∈ floatsOfEntries entries, Rereads x) → ∀ {s : List Char}, s.map Symbol.char =
      compactEntries entries →
    WrittenEntries entries s
  | [], hne, _, _, _, _ => absurd rfl hne
  | [(k, v)], _, hproper, hfloats, s, h => by
    rw [floatsOfEntries, List.forall_mem_append] at hfloats
    obtain ⟨t, u, rfl, ht, hu⟩ := exists_around h
    obtain ⟨key, rfl, rfl⟩ := exists_of_compactString ht
    exact .last key (written_of_compact v (hproper _ List.mem_cons_self) hfloats.1 hu)
  | (k, v) :: e :: rest, _, hproper, hfloats, s, h => by
    obtain ⟨hv, hrest⟩ := List.forall_mem_cons.1 hproper
    rw [floatsOfEntries, List.forall_mem_append] at hfloats
    obtain ⟨front, u, rfl, hfront, hu⟩ := exists_around h
    obtain ⟨t, w, rfl, ht, hw⟩ := exists_around hfront
    obtain ⟨key, rfl, rfl⟩ := exists_of_compactString ht
    exact .cons key (written_of_compact v hv hfloats.1 hw)
      (writtenEntries_of_compact (e :: rest) (List.cons_ne_nil e rest) hrest hfloats.2 hu)

end

/-! ## Outside strings -/

/-- Where the character after a text stands. -/
def Spot.after (spot : Spot) (s : List Char) : Spot := s.foldl Spot.next spot

/-- The characters outside strings, of a text that begins somewhere; the quote that opens a string
is among them. -/
def outsideFrom (spot : Spot) : List Char → List Char
  | [] => []
  | c :: rest => (if spot = .between then [c] else []) ++ outsideFrom (spot.next c) rest

/-- The characters of a JSON text that stand outside its strings. -/
def outside (s : List Char) : List Char := outsideFrom .between s

/-- A text is left from the spot that its first character leads to. -/
theorem Spot.after_cons (spot : Spot) (c : Char) (s : List Char) :
    spot.after (c :: s) = (spot.next c).after s := rfl

/-- Two texts are left one after the other. -/
theorem Spot.after_append (spot : Spot) (s t : List Char) :
    spot.after (s ++ t) = (spot.after s).after t :=
  List.foldl_append

/-- What lies outside of strings in two texts is what does in each of them. -/
theorem outsideFrom_append (spot : Spot) (s t : List Char) :
    outsideFrom spot (s ++ t) = outsideFrom spot s ++ outsideFrom (spot.after s) t := by
  induction s generalizing spot with
  | nil => rfl
  | cons c s ih =>
    rw [List.cons_append, outsideFrom, outsideFrom, ih, List.append_assoc]
    rfl

/-- The strings of a text are closed, no blank stands outside them, and no character is a control
character. -/
structure IsTidy (s : List Char) : Prop where
  /-- The strings are closed. -/
  closed : Spot.between.after s = .between
  /-- No blank stands outside them. -/
  tight : ∀ c ∈ outside s, Text.isBlank c = false
  /-- No character is a control character. -/
  printable : ∀ c ∈ s, 32 ≤ c.toNat

/-- Two tidy texts one after the other are tidy. -/
theorem IsTidy.append (hs : IsTidy s) (ht : IsTidy t) : IsTidy (s ++ t) where
  closed := by rw [Spot.after_append, hs.closed, ht.closed]
  tight := by
    rw [outside, outsideFrom_append, hs.closed, List.forall_mem_append]
    exact ⟨hs.tight, ht.tight⟩
  printable := List.forall_mem_append.2 ⟨hs.printable, ht.printable⟩

/-- The empty text is tidy. -/
theorem IsTidy.nil : IsTidy [] := ⟨rfl, by simp [outside, outsideFrom], by simp⟩

/-- A character that is neither blank nor a quote may stand before a tidy text. -/
theorem IsTidy.cons (hs : IsTidy s) (hblank : Text.isBlank c = false) (hquote : c ≠ '"')
    (hprintable : 32 ≤ c.toNat) :
    IsTidy (c :: s) := by
  have hnext : Spot.between.next c = .between := if_neg hquote
  refine ⟨?_, ?_, List.forall_mem_cons.2 ⟨hprintable, hs.printable⟩⟩
  · rw [Spot.after_cons, hnext, hs.closed]
  · rw [outside, outsideFrom, hnext, List.forall_mem_append]
    exact ⟨by simpa using hblank, hs.tight⟩

/-- So may a bracket, a brace, a comma or a colon. -/
theorem IsTidy.mark (hc : c ∈ ['[', ']', '\x7b', '\x7d', ',', ':']) (hs : IsTidy s) :
    IsTidy (c :: s) := by
  obtain ⟨hblank, hquote, hprintable⟩ : Text.isBlank c = false ∧ c ≠ '"' ∧ 32 ≤ c.toNat := by
    simp only [List.mem_cons, List.not_mem_nil, or_false] at hc
    rcases hc with rfl | rfl | rfl | rfl | rfl | rfl <;> decide
  exact hs.cons hblank hquote hprintable

/-- A character that is written in a string stays in it, whatever it is. -/
theorem within_written (c : Char) : Spot.within.after (written c) = .within ∧
    outsideFrom .within (written c) = [] ∧
    ∀ d ∈ written c, 32 ≤ d.toNat := by
  rcases written_cases c with ⟨hwritten, hquote, hbackslash, hprintable⟩ | ⟨e, hwritten, -, -,
    he⟩ | ⟨hwritten, -⟩ <;>
    rw [hwritten]
  · simp [Spot.after, Spot.next, outsideFrom, hquote, hbackslash, hprintable]
  · simp [Spot.after, Spot.next, outsideFrom, he]
  · -- The digits are neither quotes nor backslashes.
    have hdigit : ∀ n, Text.hexDigit n ≠ '"' ∧ Text.hexDigit n ≠ '\\' ∧
        32 ≤ (Text.hexDigit n).toNat := by
      intro n
      have hall : ∀ m < 16, Nat.digitChar m ≠ '"' ∧ Nat.digitChar m ≠ '\\' ∧
        32 ≤ (Nat.digitChar m).toNat := by decide
      exact hall _ (Nat.mod_lt _ (by decide))
    simp [Text.hex, Spot.after, Spot.next, outsideFrom, hdigit]

/-- A string in its quotes is tidy. -/
theorem isTidy_quoted (chars : List Char) : IsTidy (quoted chars) := by
  have hbody : Spot.within.after (chars.flatMap written) = .within ∧
    outsideFrom .within (chars.flatMap written) = [] ∧
      ∀ d ∈ chars.flatMap written, 32 ≤ d.toNat := by
    induction chars with
    | nil => exact ⟨rfl, rfl, by simp⟩
    | cons c chars ih =>
      obtain ⟨hafter, hnone, hprintable⟩ := within_written c
      obtain ⟨hafter', hnone', hprintable'⟩ := ih
      rw [List.flatMap_cons, outsideFrom_append, hafter, hnone, hnone', List.forall_mem_append]
      exact ⟨by rw [Spot.after_append, hafter, hafter'], rfl, hprintable, hprintable'⟩
  obtain ⟨hafter, hnone, hprintable⟩ := hbody
  have hquote : Spot.between.next '"' = .within := rfl
  unfold quoted
  refine ⟨?_, ?_, ?_⟩
  · rw [List.cons_append, Spot.after_cons, hquote, Spot.after_append, hafter]
    rfl
  · rw [outside, List.cons_append, outsideFrom, hquote, outsideFrom_append, hafter, hnone]
    exact List.forall_mem_singleton.2 rfl
  · rw [List.forall_mem_append, List.forall_mem_cons, List.forall_mem_singleton]
    exact ⟨⟨by decide, hprintable⟩, by decide⟩

/-- A token is tidy. -/
theorem IsTokenFor.isTidy (h : IsTokenFor v s) : IsTidy s := by
  have hchars := h.chars
  clear h
  induction s with
  | nil => exact .nil
  | cons c s ih =>
    obtain ⟨hc, hs⟩ := List.forall_mem_cons.1 hchars
    obtain ⟨hblank, hquote, hprintable⟩ : Text.isBlank c = false ∧ c ≠ '"' ∧ 32 ≤ c.toNat :=
      of_isTokenChar (P := fun c => Text.isBlank c = false ∧ c ≠ '"' ∧ 32 ≤ c.toNat)
        (by decide +kernel) hc
    exact (ih hs).cons hblank hquote hprintable

mutual

/-- The compact form of a document is tidy. -/
theorem Written.isTidy : ∀ {d : Json} {s : List Char}, Written d s → IsTidy s
  | _, _, .token h => h.isTidy
  | _, _, .string chars => isTidy_quoted chars
  | _, _, .emptyArray => .mark (by decide) (.mark (by decide) .nil)
  | _, _, .array h => (IsTidy.mark (by decide) h.isTidy).append (.mark (by decide) .nil)
  | _, _, .emptyObject => .mark (by decide) (.mark (by decide) .nil)
  | _, _, .object _ h => (IsTidy.mark (by decide) h.isTidy).append (.mark (by decide) .nil)

/-- The written members of an array are tidy. -/
theorem WrittenItems.isTidy : ∀ {items : List Json} {s : List Char}, WrittenItems items s → IsTidy s
  | _, _, .last h => h.isTidy
  | _, _, .cons h hitems => h.isTidy.append (.mark (by decide) hitems.isTidy)

/-- The written entries of an object are tidy. -/
theorem WrittenEntries.isTidy :
    ∀ {entries : List (List Symbol × Json)} {s : List Char}, WrittenEntries entries s → IsTidy s
  | _, _, .last key h => (isTidy_quoted key).append (.mark (by decide) h.isTidy)
  | _, _, .cons key h hentries =>
    ((isTidy_quoted key).append (.mark (by decide) h.isTidy)).append
      (.mark (by decide) hentries.isTidy)

end

end StaticSite.Json
