import StaticSite.Proofs.Json.RoundTrip

/-!
# The height of a document

The height of a document is the number of arrays and objects that lie in one another in it. A text
is nested at least as deep as the document that is read from it is high (`ReadsHigh`), and the
compact form of a document exactly as deep (`Written.nestingFrom_append`). So what is made compact
is nested no deeper than it was (`nesting_le_of_compact`).
-/

namespace StaticSite.Json

open Config (bind_eq_ok)

variable {s t r : List Char} {c : Char} {v : Json} {n fuel : Nat} {spot : Spot}

mutual

/-- The number of arrays and objects in one another, where it is greatest. -/
def height : Json → Nat
  | .null | .bool _ | .int _ | .float _ | .string _ => 0
  | .array items => heightOfItems items + 1
  | .object entries => heightOfEntries entries + 1

/-- The greatest height among the members of an array. -/
def heightOfItems : List Json → Nat
  | [] => 0
  | v :: rest => max v.height (heightOfItems rest)

/-- The greatest height among the values of an object. -/
def heightOfEntries : List (List Symbol × Json) → Nat
  | [] => 0
  | (_, v) :: rest => max v.height (heightOfEntries rest)

end

/-! ## Brackets that are open -/

/-- The brackets that are open before a text count. -/
theorem le_nestingFrom (spot : Spot) (n : Nat) (s : List Char) : n ≤ nestingFrom spot n s := by
  cases s with
  | nil => exact Nat.le_refl n
  | cons c s => exact Nat.le_max_left _ _

/-- A character that opens and closes no bracket does not count. -/
theorem nestingFrom_cons (hc : spot = .between → openAfter n c = n) (s : List Char) :
    nestingFrom spot n (c :: s) = nestingFrom (spot.next c) n s := by
  rw [nestingFrom]
  split
  · rename_i hspot
    rw [hc hspot]
    exact max_eq_right (le_nestingFrom _ _ _)
  · exact max_eq_right (le_nestingFrom _ _ _)

/-- Nor does one outside strings that is neither a bracket nor a quote. -/
theorem nestingFrom_plain (hc : c ∉ ['"', '[', ']', '\x7b', '\x7d']) (s : List Char) :
    nestingFrom .between n (c :: s) = nestingFrom .between n s := by
  simp only [List.mem_cons, List.not_mem_nil, or_false, not_or] at hc
  obtain ⟨hquote, hopen, hclose, hopen', hclose'⟩ := hc
  rw [nestingFrom_cons (fun _ => by simp [openAfter, *])]
  simp [Spot.next, hquote]

/-- A character in a string does not, unless it is a quote or a backslash. -/
theorem nestingFrom_within (hquote : c ≠ '"') (hbackslash : c ≠ '\\') (s : List Char) :
    nestingFrom .within n (c :: s) = nestingFrom .within n s := by
  rw [nestingFrom_cons (fun h => by cases h)]
  simp [Spot.next, hquote, hbackslash]

/-- A character after a backslash does not. -/
theorem nestingFrom_escaped (c : Char) (s : List Char) :
    nestingFrom .escaped n (c :: s) = nestingFrom .within n s :=
  nestingFrom_cons (fun h => by cases h) s

/-- White space does not count. -/
theorem nestingFrom_skipSpace (n : Nat) (s : List Char) :
    nestingFrom .between n (skipSpace s) = nestingFrom .between n s := by
  induction s with
  | nil => rfl
  | cons c s ih =>
    by_cases hc : isSpace c = true
    · have hplain : c ∉ ['"', '[', ']', '\x7b', '\x7d'] := by
        simp only [isSpace, Bool.or_eq_true, beq_iff_eq] at hc
        rcases hc with ((rfl | rfl) | rfl) | rfl <;> decide
      rw [nestingFrom_plain hplain, ← ih]
      exact congrArg _ (List.dropWhile_cons_of_pos hc)
    · exact congrArg _ (List.dropWhile_cons_of_neg hc)

/-- Neither do names and numbers. -/
theorem Skips.nestingFrom_eq (h : Skips s r) (n : Nat) :
    nestingFrom .between n s = nestingFrom .between n r := by
  induction h with
  | refl s => rfl
  | cons hc _ ih =>
    rw [nestingFrom_plain
      (of_isTokenChar (P := fun c => c ∉ ['"', '[', ']', '\x7b', '\x7d']) (by decide) hc), ih]

/-! ## Strings -/

/-- The digits of a number in base sixteen do not end a string. -/
theorem nestingFrom_of_hexQuad? {code : Nat} (h : hexQuad? s = some (code, r)) (n : Nat) :
    nestingFrom .within n s = nestingFrom .within n r := by
  have hdigit : ∀ {c : Char} {k : Nat}, Text.hexValue? c = some k → c ≠ '"' ∧ c ≠ '\\' := by
    intro c k hk
    refine ⟨?_, ?_⟩ <;> rintro rfl <;> cases hk
  unfold hexQuad? at h
  split at h
  · split at h
    · rename_i ha hb hc hd
      cases h
      rw [nestingFrom_within (hdigit ha).1 (hdigit ha).2,
        nestingFrom_within (hdigit hb).1 (hdigit hb).2, nestingFrom_within (hdigit hc).1
          (hdigit hc).2, nestingFrom_within (hdigit hd).1 (hdigit hd).2]
    · cases h
  · cases h

/-- An escape by number, or two of them, do not end a string. -/
theorem nestingFrom_of_unicodeEscape {symbol : Symbol}
    (h : unicodeEscape s = .ok (symbol, r)) (n : Nat) :
    nestingFrom .escaped n s = nestingFrom .within n r := by
  unfold unicodeEscape at h
  split at h
  · rename_i code c rest hquad
    obtain ⟨a, tail, rfl⟩ : ∃ a tail, s = a :: tail := by
      cases s with
      | nil => cases hquad
      | cons a tail => exact ⟨a, tail, rfl⟩
    rw [nestingFrom_escaped, nestingFrom_of_hexQuad? (show hexQuad? tail = _ from hquad)]
    dsimp only at h
    split at h
    · split at h
      · split at h
        · split at h
          · rename_i hquad'
            split at h
            · cases h
              rw [nestingFrom_cons (fun h => by cases h), show Spot.within.next '\\' =
                .escaped from rfl, nestingFrom_escaped, nestingFrom_of_hexQuad? hquad']
            · cases h
              rfl
          · cases h
        · cases h
          rfl
      · cases h
        rfl
    · cases h
      rfl
  · cases h

/-- No bracket in a string counts, and the quote that ends the string is the one that the reader
stops at. -/
theorem nestingFrom_of_stringFrom {start : Nat} {symbols : List Symbol} (n : Nat)
    (h : stringFrom start fuel s = .ok (symbols, r)) :
    nestingFrom .within n s = nestingFrom .between n r := by
  -- On the characters that are read, one or an escape at a time.
  induction fuel generalizing s symbols with
  | zero => cases h
  | succ fuel ih =>
    unfold stringFrom at h
    split at h
    · rename_i heq
      cases heq
    · cases h
    · cases h
      exact nestingFrom_cons (fun h => by cases h) r
    · rename_i fuel' rest heq
      obtain rfl := Nat.succ.inj heq
      rw [nestingFrom_cons (fun h => by cases h), show Spot.within.next '\\' = .escaped from rfl]
      split at h
      · cases h
      · obtain ⟨⟨symbol, after⟩, hescape, h⟩ := bind_eq_ok.1 h
        obtain ⟨⟨others, left⟩, hothers, h⟩ := bind_eq_ok.1 h
        cases h
        rw [nestingFrom_of_unicodeEscape hescape, ih hothers]
      · split at h
        · obtain ⟨⟨others, left⟩, hothers, h⟩ := bind_eq_ok.1 h
          cases h
          rw [nestingFrom_escaped, ih hothers]
        · cases h
    · rename_i fuel' c rest hquote hbackslash heq
      obtain rfl := Nat.succ.inj heq
      split at h
      · cases h
      · obtain ⟨⟨others, left⟩, hothers, h⟩ := bind_eq_ok.1 h
        cases h
        rw [nestingFrom_within hquote hbackslash, ih hothers]

/-- No bracket in a string counts. -/
theorem nestingFrom_of_stringBody {symbols : List Symbol}
    (h : stringBody s = .ok (symbols, r)) (n : Nat) :
    nestingFrom .between n ('"' :: s) = nestingFrom .between n r := by
  rw [nestingFrom_cons (fun _ => rfl), ← nestingFrom_of_stringFrom n h]
  rfl

/-! ## Documents that are read -/

/-- A bracket that is opened counts. -/
theorem nestingFrom_opening (hc : c = '[' ∨ c = '\x7b') (n : Nat) (s : List Char) :
    nestingFrom .between n (c :: s) = nestingFrom .between (n + 1) s := by
  have hle := le_nestingFrom .between (n + 1) s
  rw [nestingFrom]
  rcases hc with rfl | rfl <;> exact max_eq_right (Nat.le_of_succ_le hle)

/-- One that is closed no longer does. -/
theorem nestingFrom_closing (hc : c = ']' ∨ c = '\x7d') (n : Nat) (s : List Char) :
    nestingFrom .between (n + 1) (c :: s) = max (n + 1) (nestingFrom .between n s) := by
  rw [nestingFrom]
  rcases hc with rfl | rfl <;> rfl

/-- Setting a key makes entries no higher than they and the new value are. -/
theorem heightOfEntries_setKey_le (entries : List (List Symbol × Json))
    (key : List Symbol) (v : Json) :
    heightOfEntries (setKey entries key v) ≤ max (heightOfEntries entries) v.height := by
  induction entries with
  | nil => simp [setKey, heightOfEntries]
  | cons e rest ih =>
    obtain ⟨k, w⟩ := e
    rw [setKey]
    split <;> simp only [heightOfEntries] <;> omega

/-- A scalar has no height. -/
theorem height_of_scalar (h : scalar s = .ok (v, r)) : v.height = 0 := by
  unfold scalar at h
  split at h
  · rename_i found hfound
    rw [Except.ok.inj h] at hfound
    obtain ⟨l, hl, hfound⟩ := List.exists_of_findSome?_eq_some hfound
    have hliterals : ∀ l ∈ literals, l.2.height = 0 := by
      simp [literals, height]
    split at hfound
    · cases hfound
      exact hliterals l hl
    · cases hfound
  · rcases (number_cases h).2 with ⟨x, rfl⟩ | ⟨n, rfl, -⟩ <;> rw [height]

/-- Whatever is read with some fuel is no higher than its text is nested deep, wherever that begins.
What is left of the text is nested no deeper either, with the brackets of what was read closed. -/
structure ReadsHigh (fuel : Nat) : Prop where
  /-- A value is. -/
  ofValue {s : List Char} {v : Json} {r : List Char} (h : value fuel s = .ok (v, r)) (n : Nat) :
    n + v.height ≤ nestingFrom .between n s ∧ nestingFrom .between n r ≤ nestingFrom .between n s
  /-- So is an array whose bracket was opened. -/
  ofItems {s : List Char} {v : Json} {r : List Char} (h : items fuel s = .ok (v, r)) (n : Nat) :
    n + v.height ≤ nestingFrom .between (n + 1) s ∧
      nestingFrom .between n r ≤ nestingFrom .between (n + 1) s
  /-- So is an object whose brace was opened, if the entries read before are not higher. -/
  ofMembers {before : List (List Symbol × Json)} {s : List Char} {v : Json} {r : List Char}
    (h : members fuel before s = .ok (v, r)) (n : Nat) :
    n + v.height ≤ max (n + 1 + heightOfEntries before) (nestingFrom .between (n + 1) s) ∧
      nestingFrom .between n r ≤ nestingFrom .between (n + 1) s

/-- A value that is read is no higher than the text is nested. -/
theorem ReadsHigh.value_succ (hfuel : ReadsHigh fuel)
    (h : value (fuel + 1) s = .ok (v, r)) (n : Nat) :
    n + v.height ≤ nestingFrom .between n s ∧
      nestingFrom .between n r ≤ nestingFrom .between n s := by
  unfold value at h
  split at h
  · cases h
  · cases h
  · obtain ⟨⟨symbols, after⟩, hbody, h⟩ := bind_eq_ok.1 h
    cases h
    rw [nestingFrom_of_stringBody hbody, height]
    exact ⟨le_nestingFrom _ _ _, Nat.le_refl _⟩
  · -- An object: its bracket counts one level for all its members.
    rename_i fuel' rest heq
    obtain rfl := Nat.succ.inj heq
    rw [nestingFrom_opening (.inr rfl), ← nestingFrom_skipSpace]
    have hopen := le_nestingFrom .between (n + 1) (skipSpace rest)
    split at h
    · rename_i after hskip
      cases h
      rw [hskip, nestingFrom_closing (.inr rfl), height, heightOfEntries]
      omega
    · obtain ⟨hheight, hleft⟩ := hfuel.ofMembers h n
      rw [heightOfEntries] at hheight
      exact ⟨hheight.trans (Nat.max_le.2 ⟨hopen, Nat.le_refl _⟩), hleft⟩
  · -- An array, in the same way.
    rename_i fuel' rest heq
    obtain rfl := Nat.succ.inj heq
    rw [nestingFrom_opening (.inl rfl), ← nestingFrom_skipSpace]
    split at h
    · rename_i after hskip
      cases h
      rw [hskip, nestingFrom_closing (.inl rfl), height, heightOfItems]
      omega
    · exact hfuel.ofItems h n
  · rw [(scalar_skips h).nestingFrom_eq, height_of_scalar h]
    exact ⟨le_nestingFrom _ _ _, Nat.le_refl _⟩

/-- An array that is read is no higher than the text is nested. -/
theorem ReadsHigh.items_succ (hfuel : ReadsHigh fuel)
    (h : items (fuel + 1) s = .ok (v, r)) (n : Nat) :
    n + v.height ≤ nestingFrom .between (n + 1) s ∧
      nestingFrom .between n r ≤ nestingFrom .between (n + 1) s := by
  unfold items at h
  obtain ⟨⟨first, after⟩, hfirst, h⟩ := bind_eq_ok.1 h
  obtain ⟨hheight, hafter⟩ := hfuel.ofValue hfirst (n + 1)
  rw [← nestingFrom_skipSpace _ after] at hafter
  dsimp only at h
  split at h
  · rename_i left hskip
    cases h
    rw [hskip, nestingFrom_closing (.inl rfl)] at hafter
    simp only [height, heightOfItems]
    omega
  · rename_i left hskip
    obtain ⟨⟨others, left'⟩, hothers, h⟩ := bind_eq_ok.1 h
    rw [hskip, nestingFrom_plain (by decide), ← nestingFrom_skipSpace] at hafter
    obtain ⟨hheight', hleft⟩ := hfuel.ofItems hothers n
    dsimp only at h
    split at h <;> cases h <;> simp only [height, heightOfItems] at hheight' ⊢ <;> omega
  · cases h

/-- An object that is read is no higher than the text is nested, and the entries before. -/
theorem ReadsHigh.members_succ (hfuel : ReadsHigh fuel) {before : List (List Symbol × Json)}
    (h : members (fuel + 1) before s = .ok (v, r)) (n : Nat) :
    n + v.height ≤ max (n + 1 + heightOfEntries before) (nestingFrom .between (n + 1) s) ∧
      nestingFrom .between n r ≤ nestingFrom .between (n + 1) s := by
  unfold members at h
  split at h
  · rename_i rest
    obtain ⟨⟨key, after⟩, hkey, h⟩ := bind_eq_ok.1 h
    rw [nestingFrom_of_stringBody hkey, ← nestingFrom_skipSpace]
    dsimp only at h
    split at h
    · rename_i after' hcolon
      rw [hcolon, nestingFrom_plain (by decide), ← nestingFrom_skipSpace]
      obtain ⟨⟨w, left⟩, hw, h⟩ := bind_eq_ok.1 h
      obtain ⟨hheight, hafter⟩ := hfuel.ofValue hw (n + 1)
      rw [← nestingFrom_skipSpace _ left] at hafter
      have hentries := heightOfEntries_setKey_le before key w
      dsimp only at h
      split at h
      · rename_i left' hskip
        cases h
        rw [hskip, nestingFrom_closing (.inr rfl)] at hafter
        rw [height]
        omega
      · rename_i left' hskip
        rw [hskip, nestingFrom_plain (by decide), ← nestingFrom_skipSpace] at hafter
        obtain ⟨hheight', hleft⟩ := hfuel.ofMembers h n
        omega
      · cases h
    · cases h
  · cases h

/-- Whatever is read is no higher than the text is nested. -/
theorem readsHigh (fuel : Nat) : ReadsHigh fuel := by
  induction fuel with
  | zero => exact ⟨fun h => (by cases h), fun h => (by cases h), fun h => by cases h⟩
  | succ fuel ih => exact ⟨ih.value_succ, ih.items_succ, ih.members_succ⟩

/-- A document that is read is no higher than its text is nested deep. -/
theorem height_le_nesting {text : String} (h : parse text = .ok v) : v.height ≤ nesting text := by
  rw [parse_eq_ok_iff] at h
  unfold nesting readPart
  rw [h]
  unfold document at h
  split at h
  · cases h
  · obtain ⟨⟨w, left⟩, hw, h⟩ := bind_eq_ok.1 h
    have hheight := ((readsHigh _).ofValue hw 0).1
    rw [nestingFrom_skipSpace, Nat.zero_add] at hheight
    dsimp only at h
    split at h
    · cases h
      exact hheight
    · cases h

/-! ## Documents in compact form -/

/-- A string opens no bracket. -/
theorem nestingFrom_quoted (chars : List Char) (n : Nat) (r : List Char) :
    nestingFrom .between n (quoted chars ++ r) = nestingFrom .between n r := by
  rw [quoted_append, nestingFrom_of_stringBody (stringBody_append chars r)]

mutual

/-- The compact form of a document is nested as deep as the document is high. -/
theorem Written.nestingFrom_append :
    ∀ {d : Json} {s : List Char}, Written d s → ∀ (n : Nat) (r : List Char),
    nestingFrom .between n (s ++ r) = max (n + d.height) (nestingFrom .between n r)
  | _, _, .token h, n, r => by
    rw [(Skips.append h.chars r).nestingFrom_eq, height_of_scalar h.reads]
    exact (max_eq_right (le_nestingFrom _ _ _)).symm
  | _, _, .string chars, n, r => by
    rw [nestingFrom_quoted, height]
    exact (max_eq_right (le_nestingFrom _ _ _)).symm
  | _, _, .emptyArray, n, r => by
    rw [List.cons_append, nestingFrom_opening (.inl rfl), List.cons_append,
      nestingFrom_closing (.inl rfl)]
    rfl
  | _, _, .array h, n, r => by
    rw [List.append_assoc, List.cons_append, nestingFrom_opening (.inl rfl), h.nestingFrom_append,
      List.singleton_append, nestingFrom_closing (.inl rfl), height]
    omega
  | _, _, .emptyObject, n, r => by
    rw [List.cons_append, nestingFrom_opening (.inr rfl), List.cons_append,
      nestingFrom_closing (.inr rfl)]
    rfl
  | _, _, .object _ h, n, r => by
    rw [List.append_assoc, List.cons_append, nestingFrom_opening (.inr rfl), h.nestingFrom_append,
      List.singleton_append, nestingFrom_closing (.inr rfl), height]
    omega

/-- The members of an array are nested as deep as they are high. -/
theorem WrittenItems.nestingFrom_append :
    ∀ {items : List Json} {s : List Char}, WrittenItems items s →
    ∀ (n : Nat) (r : List Char),
    nestingFrom .between n (s ++ r) = max (n + heightOfItems items) (nestingFrom .between n r)
  | _, _, .last h, n, r => by
    rw [h.nestingFrom_append, heightOfItems, heightOfItems, Nat.max_zero]
  | _, _, .cons h hitems, n, r => by
    rw [List.append_assoc, List.cons_append, h.nestingFrom_append, nestingFrom_plain (by decide),
      hitems.nestingFrom_append, heightOfItems]
    omega

/-- The entries of an object are nested as deep as they are high. -/
theorem WrittenEntries.nestingFrom_append : ∀ {entries : List (List Symbol × Json)} {s : List Char},
    WrittenEntries entries s → ∀ (n : Nat) (r : List Char),
    nestingFrom .between n (s ++ r) = max (n + heightOfEntries entries) (nestingFrom .between n r)
  | _, _, .last key h, n, r => by
    rw [List.append_assoc, nestingFrom_quoted, List.cons_append, nestingFrom_plain (by decide),
      h.nestingFrom_append, heightOfEntries, heightOfEntries, Nat.max_zero]
  | _, _, .cons key h hentries, n, r => by
    rw [List.append_assoc, List.append_assoc, nestingFrom_quoted, List.cons_append,
      nestingFrom_plain (by decide), h.nestingFrom_append, List.cons_append,
      nestingFrom_plain (by decide), hentries.nestingFrom_append, heightOfEntries]
    omega

end

/-- What is made compact is nested no deeper than it was. -/
theorem nesting_le_of_compact {text out : String} (hproper : v.IsProper)
    (hfloats : ∀ x ∈ v.floats, Rereads x) (h : Symbol.text (compact v) = .ok out)
    (hparsed : parse text = .ok v) : nesting out ≤ nesting text := by
  have hwritten := written_of_compact v hproper hfloats (text_eq_ok_iff.1 h)
  have hheight : nesting out = v.height := by
    have hnested := hwritten.nestingFrom_append 0 []
    rw [List.append_nil, Nat.zero_add, nestingFrom, Nat.max_zero] at hnested
    unfold nesting readPart
    rwa [parse_eq_ok_iff.1 hwritten.parse_eq]
  rw [hheight]
  exact height_le_nesting hparsed

end StaticSite.Json
