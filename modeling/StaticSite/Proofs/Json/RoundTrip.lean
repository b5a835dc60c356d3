import StaticSite.Proofs.Json.Form
import StaticSite.Proofs.Config.Field

/-!
# Documents that are written and read back

The reader reads what the grammar of compact JSON writes as the document that it was written for, up
to the end of its member (`Written.value_append`). Every document that was read is proper
(`isProper_of_parse`), so that its compact form is written so. Hence the compact form of a document
that was read reads back as it, and is its own compact form (`parse_of_compactText`).
-/

namespace StaticSite.Json

open Config (bind_eq_ok ok_bind)

variable {s t rest : List Char} {c : Char} {v : Json} {fuel : Nat}

/-! ## Strings -/

/-- A hexadecimal digit has the value that it was written for. -/
theorem hexValue?_hexDigit (n : Nat) : Text.hexValue? (Text.hexDigit n) = some (n % 16) := by
  have hall : ∀ m < 16, Text.hexValue? (Nat.digitChar m) = some m := by decide
  exact hall _ (Nat.mod_lt _ (by decide))

/-- Four digits in base sixteen stand for the number that they were made of. -/
theorem hexQuad?_hex {n : Nat} (hn : n < 0x10000) (rest : List Char) :
    hexQuad? (Text.hex 4 n ++ rest) = some (n, rest) := by
  simp only [Text.hex, List.nil_append, List.cons_append, hexQuad?, hexValue?_hexDigit]
  congr 2
  omega

/-- An escape by number that is no half of a pair is read without what follows. -/
theorem unicodeEscape_hex {n : Nat} (hn : n < 0xD800) (c : Char) (rest : List Char) :
    unicodeEscape ('u' :: (Text.hex 4 n ++ c :: rest)) = .ok (.char (Char.ofNat n), c :: rest) := by
  have hhalf : ¬0xD800 ≤ n := by omega
  unfold unicodeEscape
  rw [List.tail_cons, hexQuad?_hex (by omega)]
  simp [symbolOf, hhalf]

/-- A character is read from a string as it was written there. -/
theorem stringFrom_written (start fuel : Nat) (c : Char) (hrest : rest ≠ []) :
    stringFrom start (fuel + 1) (written c ++ rest) =
      (stringFrom start fuel rest).map fun read => (.char c :: read.1, read.2) := by
  obtain ⟨d, others, rfl⟩ := List.exists_cons_of_ne_nil hrest
  rcases written_cases c with ⟨hwritten, hquote, hbackslash, hprintable⟩ | ⟨e, hwritten, hu,
    hescaped, -⟩ |
    ⟨hwritten, hcontrol⟩ <;> rw [hwritten]
  · rw [List.singleton_append, stringFrom]
    · rw [if_neg (Nat.not_lt.2 hprintable)]
      rfl
    · exact hquote
    · exact hbackslash
  · rw [List.cons_append, List.cons_append, List.nil_append, stringFrom]
    · rw [hescaped]
      rfl
    · exact hu
  · rw [List.cons_append, List.cons_append, stringFrom, unicodeEscape_hex (by omega),
      Char.ofNat_toNat]
    rfl

/-- A text in a string is written with at least its own characters. -/
theorem length_le_flatMap_written (chars : List Char) :
    chars.length ≤ (chars.flatMap written).length := by
  induction chars with
  | nil => exact Nat.le_refl _
  | cons c chars ih =>
    have hwritten : 0 < (written c).length := by
      rcases written_cases c with ⟨h, -⟩ | ⟨e, h, -⟩ | ⟨h, -⟩ <;> rw [h] <;> exact Nat.succ_pos _
    rw [List.flatMap_cons, List.length_append, List.length_cons]
    omega

/-- Characters between quotes are read as they were written there. -/
theorem stringBody_append (chars rest : List Char) :
    stringBody (chars.flatMap written ++ '"' :: rest) = .ok (chars.map .char, rest) := by
  have hread : ∀ start fuel, chars.length < fuel →
      stringFrom start fuel (chars.flatMap written ++ '"' :: rest) =
        .ok (chars.map .char, rest) := by
    intro start fuel
    induction chars generalizing fuel with
    | nil =>
      intro hfuel
      obtain ⟨fuel, rfl⟩ := Nat.exists_eq_add_one.2 hfuel
      rfl
    | cons c chars ih =>
      intro hfuel
      rw [List.length_cons] at hfuel
      obtain ⟨fuel, rfl⟩ :=
        Nat.exists_eq_add_one_of_ne_zero (Nat.ne_of_gt (Nat.zero_lt_of_lt hfuel))
      rw [List.flatMap_cons, List.append_assoc, stringFrom_written _ _ _ (by simp),
        ih fuel (by omega)]
      rfl
  refine hread _ _ ?_
  have hlength := length_le_flatMap_written chars
  rw [List.length_append]
  omega

/-! ## Values -/

/-- A character that is no space is not skipped. -/
theorem skipSpace_cons (hc : isSpace c = false) (s : List Char) : skipSpace (c :: s) = c :: s :=
  List.dropWhile_cons_of_neg (by simp [hc])

/-- A character that a value can begin with: no white space, no end of an array and no byte order
mark. -/
def Begins (c : Char) : Prop := isSpace c = false ∧ c ≠ ']' ∧ c ≠ '\uFEFF'

instance (c : Char) : Decidable (Begins c) := inferInstanceAs (Decidable (_ ∧ _))

/-- A written value has a first character, which begins a value. -/
theorem Written.exists_cons (h : Written v s) : ∃ c t, s = c :: t ∧ Begins c := by
  cases h with
  | token h =>
    obtain ⟨c, t, rfl, hc⟩ := h.exists_cons
    exact ⟨c, t, rfl, of_isTokenChar (by decide) hc⟩
  | string chars => exact ⟨_, _, rfl, by decide⟩
  | emptyArray | array => exact ⟨_, _, rfl, by decide⟩
  | emptyObject | object => exact ⟨_, _, rfl, by decide⟩

/-- The written members of an array have a first character, which begins a value. -/
theorem WrittenItems.exists_cons {items : List Json} (h : WrittenItems items s) :
    ∃ c t, s = c :: t ∧ Begins c := by
  cases h with
  | last h => exact h.exists_cons
  | cons h _ =>
    obtain ⟨c, t, rfl, hc⟩ := h.exists_cons
    exact ⟨c, _, rfl, hc⟩

/-- The written entries of an object start with a quote. -/
theorem WrittenEntries.exists_cons {entries : List (List Symbol × Json)}
    (h : WrittenEntries entries s) :
    ∃ t, s = '"' :: t := by
  cases h with
  | last => exact ⟨_, rfl⟩
  | cons => exact ⟨_, rfl⟩

/-- A string in its quotes starts with one, and ends with one. -/
theorem quoted_append (chars rest : List Char) :
    quoted chars ++ rest = '"' :: (chars.flatMap written ++ '"' :: rest) := by
  simp [quoted]

/-- What follows an opening bracket is read as members unless it closes the array. -/
theorem value_bracket (hc : Begins c) (fuel : Nat) (s : List Char) :
    value (fuel + 1) ('[' :: c :: s) = items fuel (c :: s) := by
  rw [value, skipSpace_cons hc.1]
  split
  · rename_i heq
    exact absurd (List.cons.inj heq).1 hc.2.1
  · rfl

/-- The last member of an array is read. -/
theorem items_last (h : value fuel s = .ok (v, ']' :: rest)) :
    items (fuel + 1) s = .ok (.array [v], rest) := by
  rw [items, h]
  rfl

/-- A member of an array is read, and those after it. -/
theorem items_cons {others : List Json} (h : value fuel s = .ok (v, ',' :: c :: t)) (hc : Begins c)
    (hothers : items fuel (c :: t) = .ok (.array others, rest)) :
    items (fuel + 1) s = .ok (.array (v :: others), rest) := by
  rw [items, h, ok_bind]
  dsimp only
  rw [skipSpace_cons rfl]
  change (items fuel (skipSpace (c :: t)) >>= _) = _
  rw [skipSpace_cons hc.1, hothers]
  rfl

/-- An entry of an object is read up to what follows its value. -/
theorem members_quoted (key : List Char) (hc : Begins c) (before : List (List Symbol × Json))
    (h : value fuel (c :: t) = .ok (v, rest)) :
    members (fuel + 1) before (quoted key ++ ':' :: c :: t) =
      match skipSpace rest with
      | '\x7d' :: after => .ok (.object (setKey before (key.map .char) v), after)
      | ',' :: after => members fuel (setKey before (key.map .char) v) (skipSpace after)
      | s => stop .comma s := by
  rw [quoted_append, members, stringBody_append, ok_bind]
  dsimp only
  rw [skipSpace_cons rfl]
  change (value fuel (skipSpace (c :: t)) >>= _) = _
  rw [skipSpace_cons hc.1, h]
  rfl

/-- A key that is new to an object comes after the others. -/
theorem setKey_of_notMem {entries : List (List Symbol × Json)} {key : List Symbol}
    (h : key ∉ entries.map Prod.fst) (v : Json) : setKey entries key v = entries ++ [(key, v)] := by
  induction entries with
  | nil => rfl
  | cons e rest ih =>
    rw [List.map_cons, List.mem_cons, not_or] at h
    rw [setKey, if_neg (Ne.symm h.1), ih h.2, List.cons_append]

/-- A key that is there once is not among those before it. -/
theorem notMem_of_once {before rest : List (List Symbol × Json)} {key : List Symbol}
    (once : ((before ++ (key, v) :: rest).map Prod.fst).Nodup) : key ∉ before.map Prod.fst := by
  rw [List.map_append, List.nodup_append] at once
  exact fun hmem => once.2.2 key hmem key List.mem_cons_self rfl

mutual

/-- The compact form of a document is read as it, up to the end of its member. -/
theorem Written.value_append :
    ∀ {d : Json} {s : List Char}, Written d s → ∀ {rest : List Char} {fuel : Nat},
    Ends rest → s.length < fuel → value fuel (s ++ rest) = .ok (d, rest)
  | _, _, .token h, rest, fuel + 1, hrest, _ => h.value_append hrest fuel
  | _, _, .string chars, rest, fuel + 1, _, _ => by
    rw [quoted_append, value, stringBody_append]
    rfl
  | _, _, .emptyArray, rest, fuel + 1, _, _ => rfl
  | _, _, .array h, rest, fuel + 1, _, hfuel => by
    have hitems : items fuel (_ ++ ']' :: rest) = _ := h.items_append (by simpa using hfuel)
    obtain ⟨c, t, rfl, hc⟩ := h.exists_cons
    rw [List.append_assoc, List.cons_append, List.cons_append, value_bracket hc]
    exact hitems
  | _, _, .emptyObject, rest, fuel + 1, _, _ => rfl
  | _, _, .object once h, rest, fuel + 1, _, hfuel => by
    have hmembers : members fuel [] (_ ++ '\x7d' :: rest) = _ :=
      h.members_append once (by simpa using hfuel)
    obtain ⟨t, rfl⟩ := h.exists_cons
    rw [List.append_assoc, List.cons_append, List.cons_append]
    exact hmembers

/-- The written members of an array are read back, given enough fuel. -/
theorem WrittenItems.items_append : ∀ {ds : List Json} {s : List Char}, WrittenItems ds s →
    ∀ {rest : List Char} {fuel : Nat},
    s.length + 1 < fuel → items fuel (s ++ ']' :: rest) = .ok (.array ds, rest)
  | _, _, .last h, rest, fuel + 1, hfuel => items_last (h.value_append (.bracket rest) (by omega))
  | _, _, .cons h hitems, rest, fuel + 1, hfuel => by
    rw [List.length_append, List.length_cons] at hfuel
    have hothers : items fuel (_ ++ ']' :: rest) = _ := hitems.items_append (by omega)
    obtain ⟨c, t, rfl, hc⟩ := hitems.exists_cons
    rw [List.append_assoc, List.cons_append, List.cons_append]
    exact items_cons (h.value_append (.comma _) (by omega)) hc hothers

/-- The written entries of an object are read back after those before them, given enough fuel. -/
theorem WrittenEntries.members_append :
    ∀ {entries : List (List Symbol × Json)} {s : List Char}, WrittenEntries entries s →
    ∀ {before : List (List Symbol × Json)} {rest : List Char} {fuel : Nat},
      ((before ++ entries).map Prod.fst).Nodup →
    s.length + 1 < fuel → members fuel before (s ++ '\x7d' :: rest) =
      .ok (.object (before ++ entries), rest)
  | _, _, .last key h, before, rest, fuel + 1, once, hfuel => by
    rw [List.length_append, List.length_cons] at hfuel
    have hvalue : value fuel _ = _ := h.value_append (.brace rest) (by omega)
    obtain ⟨c, t, rfl, hc⟩ := h.exists_cons
    rw [List.append_assoc, List.cons_append]
    refine (members_quoted key hc before hvalue).trans ?_
    rw [skipSpace_cons rfl, setKey_of_notMem (notMem_of_once once)]
    rfl
  | _, _, @WrittenEntries.cons v entries _ _ key h hentries, before, rest, fuel + 1,
        once, hfuel => by
    rw [List.length_append, List.length_append, List.length_cons, List.length_cons] at hfuel
    have hthen : ((before ++ [(key.map Symbol.char, v)] ++ entries).map Prod.fst).Nodup := by
      rwa [← List.append_cons]
    have hothers : members fuel _ (_ ++ '\x7d' :: rest) = _ :=
      hentries.members_append hthen (by omega)
    rw [← List.append_cons] at hothers
    obtain ⟨u, rfl⟩ := hentries.exists_cons
    have hvalue : value fuel _ = _ :=
      h.value_append (.comma ('"' :: u ++ '\x7d' :: rest)) (by omega)
    obtain ⟨c, t, rfl, hc⟩ := h.exists_cons
    rw [List.append_assoc, List.append_assoc, List.cons_append, List.cons_append]
    refine (members_quoted key hc before hvalue).trans ?_
    rw [skipSpace_cons rfl, setKey_of_notMem (notMem_of_once once)]
    exact hothers

end

/-- The compact form of a document reads as it. -/
theorem Written.parse_eq {text : String} (h : Written v text.toList) : parse text = .ok v := by
  have hvalue : value (2 * text.toList.length + 2) _ = _ := h.value_append .nil (by omega)
  rw [parse_eq_ok_iff]
  rw [List.append_nil] at hvalue
  obtain ⟨c, t, heq, hc⟩ := h.exists_cons
  rw [heq] at hvalue ⊢
  unfold document
  split
  · rename_i hmark
    exact absurd (List.cons.inj hmark).1 hc.2.2
  · rw [skipSpace_cons hc.1, hvalue]
    rfl

/-! ## Documents that were read -/

/-- A scalar is proper. -/
theorem isProper_of_scalar (h : scalar s = .ok (v, rest)) : v.IsProper := by
  unfold scalar at h
  split at h
  · rename_i found hfound
    rw [Except.ok.inj h] at hfound
    obtain ⟨l, hl, hfound⟩ := List.exists_of_findSome?_eq_some hfound
    have hliterals : ∀ l ∈ literals, l.2.IsProper := by
      simp only [literals, List.forall_mem_cons]
      exact ⟨.null, .bool _, .bool _, .float _, .float _, .float _, by simp⟩
    split at hfound
    · cases hfound
      exact hliterals l hl
    · cases hfound
  · rcases (number_cases h).2 with ⟨x, rfl⟩ | ⟨n, rfl, hn⟩
    · exact .float x
    · exact .int hn

/-- The keys of an object stay in order when one of them gets a value, and a new key comes last. -/
theorem keys_setKey (entries : List (List Symbol × Json)) (key : List Symbol) (v : Json) :
    (setKey entries key v).map Prod.fst =
      if key ∈ entries.map Prod.fst then entries.map Prod.fst
        else entries.map Prod.fst ++ [key] := by
  induction entries with
  | nil => rfl
  | cons e rest ih =>
    obtain ⟨k, w⟩ := e
    rw [setKey, List.map_cons]
    by_cases hkey : k = key
    · rw [if_pos hkey, if_pos (List.mem_cons.2 (.inl hkey.symm))]
      rfl
    · rw [if_neg hkey, List.map_cons, ih]
      by_cases hmem : key ∈ rest.map Prod.fst
      · rw [if_pos hmem, if_pos (List.mem_cons_of_mem _ hmem)]
      · rw [if_neg hmem, if_neg (List.not_mem_cons_of_ne_of_not_mem (Ne.symm hkey) hmem),
          List.cons_append]

/-- Once a key is set the entries are those before, and the new one. -/
theorem mem_setKey {entries : List (List Symbol × Json)} {key : List Symbol}
    {e : List Symbol × Json} (h : e ∈ setKey entries key v) : e ∈ entries ∨ e = (key, v) := by
  induction entries with
  | nil => exact .inr (List.mem_singleton.1 h)
  | cons f rest ih =>
    obtain ⟨k, w⟩ := f
    rw [setKey] at h
    split at h
    · rename_i hkey
      rcases List.mem_cons.1 h with rfl | h
      · exact .inr (by rw [hkey])
      · exact .inl (List.mem_cons_of_mem _ h)
    · rcases List.mem_cons.1 h with rfl | h
      · exact .inl List.mem_cons_self
      · exact (ih h).imp_left (List.mem_cons_of_mem _)

/-- An object stays proper when a key of it gets a proper value. -/
theorem IsProper.setKey {entries : List (List Symbol × Json)} (h : IsProper (.object entries))
    (key : List Symbol) (hv : v.IsProper) : IsProper (.object (setKey entries key v)) := by
  cases h with
  | object once h =>
    refine .object ?_ fun e he => ?_
    · rw [keys_setKey]
      split
      · exact once
      · rename_i hnew
        rw [List.nodup_append]
        refine ⟨once, by simp, fun k hk k' hk' heq => hnew ?_⟩
        rw [← List.mem_singleton.1 hk', ← heq]
        exact hk
    · rcases mem_setKey he with he | rfl
      · exact h e he
      · exact hv

/-- The empty object is proper. -/
theorem isProper_empty : IsProper (.object []) := .object (by simp) (by simp)

/-- Whatever is read with some fuel is proper. -/
structure ReadsProper (fuel : Nat) : Prop where
  /-- A value is. -/
  ofValue {s : List Char} {v : Json} {rest : List Char}
    (h : value fuel s = .ok (v, rest)) : v.IsProper
  /-- So is each member of an array. -/
  ofItems {s : List Char} {v : Json} {rest : List Char} (h : items fuel s = .ok (v, rest)) :
    ∃ ds, v = .array ds ∧ ∀ d ∈ ds, d.IsProper
  /-- So is an object if the entries read before are. -/
  ofMembers {before : List (List Symbol × Json)} {s : List Char} {v : Json} {rest : List Char}
    (hbefore : IsProper (.object before)) (h : members fuel before s = .ok (v, rest)) : v.IsProper

/-- A value that is read is proper, if all that is read with less fuel is. -/
theorem ReadsProper.value_succ {fuel : Nat} (hfuel : ReadsProper fuel)
    (h : value (fuel + 1) s = .ok (v, rest)) :
    v.IsProper := by
  unfold value at h
  split at h
  · cases h
  · cases h
  · obtain ⟨read, -, h⟩ := bind_eq_ok.1 h
    cases h
    exact .string _
  · rename_i fuel' _ heq
    obtain rfl := Nat.succ.inj heq
    split at h
    · cases h
      exact isProper_empty
    · exact hfuel.ofMembers isProper_empty h
  · rename_i fuel' _ heq
    obtain rfl := Nat.succ.inj heq
    split at h
    · cases h
      exact .array (by simp)
    · obtain ⟨ds, rfl, hds⟩ := hfuel.ofItems h
      exact .array hds
  · exact isProper_of_scalar h

/-- The members of an array that is read are proper, if all that is read with less fuel is. -/
theorem ReadsProper.items_succ {fuel : Nat} (hfuel : ReadsProper fuel)
    (h : items (fuel + 1) s = .ok (v, rest)) :
    ∃ ds, v = .array ds ∧ ∀ d ∈ ds, d.IsProper := by
  unfold items at h
  obtain ⟨⟨first, after⟩, hfirst, h⟩ := bind_eq_ok.1 h
  have hproper := hfuel.ofValue hfirst
  dsimp only at h
  split at h
  · cases h
    exact ⟨_, rfl, by simpa using hproper⟩
  · obtain ⟨⟨others, left⟩, hothers, h⟩ := bind_eq_ok.1 h
    obtain ⟨ds, rfl, hds⟩ := hfuel.ofItems hothers
    cases h
    exact ⟨_, rfl, List.forall_mem_cons.2 ⟨hproper, hds⟩⟩
  · cases h

/-- An object that is read is proper, if all that is read with less fuel is. -/
theorem ReadsProper.members_succ {fuel : Nat} (hfuel : ReadsProper fuel)
    {before : List (List Symbol × Json)} (hbefore : IsProper (.object before))
    (h : members (fuel + 1) before s = .ok (v, rest)) : v.IsProper := by
  unfold members at h
  split at h
  · obtain ⟨⟨key, after⟩, -, h⟩ := bind_eq_ok.1 h
    dsimp only at h
    split at h
    · obtain ⟨⟨w, left⟩, hw, h⟩ := bind_eq_ok.1 h
      have hentries := hbefore.setKey key (hfuel.ofValue hw)
      dsimp only at h
      split at h
      · cases h
        exact hentries
      · exact hfuel.ofMembers hentries h
      · cases h
    · cases h
  · cases h

/-- All that is read is proper. -/
theorem readsProper (fuel : Nat) : ReadsProper fuel := by
  induction fuel with
  | zero => exact ⟨fun h => (by cases h), fun h => (by cases h), fun _ h => by cases h⟩
  | succ fuel ih => exact ⟨ih.value_succ, ih.items_succ, ih.members_succ⟩

/-- A document that is parsed is proper. -/
theorem isProper_of_parse {text : String} (h : parse text = .ok v) : v.IsProper := by
  rw [parse_eq_ok_iff] at h
  unfold document at h
  split at h
  · cases h
  · obtain ⟨⟨w, left⟩, hw, h⟩ := bind_eq_ok.1 h
    dsimp only at h
    split at h
    · cases h
      exact (readsProper _).ofValue hw
    · cases h

/-! ## Compact texts -/

/-- Symbols are a text if and only if each of them is a character of it. -/
theorem charsFrom_eq_ok_iff {position : Nat} {symbols : List Symbol} {chars : List Char} :
    Symbol.charsFrom position symbols = .ok chars ↔ chars.map .char = symbols := by
  induction symbols generalizing position chars with
  | nil => simp [Symbol.charsFrom, eq_comm]
  | cons symbol symbols ih =>
    cases symbol with
    | half code => simp [Symbol.charsFrom, List.map_eq_cons_iff]
    | char c =>
      rw [Symbol.charsFrom]
      cases hrest : Symbol.charsFrom (position + 1) symbols with
      | error fault =>
        have hnone : ∀ chars : List Char, chars.map .char ≠ symbols := by
          intro chars h
          rw [ih.2 h] at hrest
          cases hrest
        simp [Except.map, List.map_eq_cons_iff, hnone]
      | ok others =>
        obtain rfl := ih.1 hrest
        rw [← List.map_cons, List.map_inj_right fun _ _ h => Symbol.char.inj h]
        simp [Except.map, eq_comm]

/-- A text is that of a list of symbols if they are its characters. -/
theorem text_eq_ok_iff {symbols : List Symbol} {text : String} :
    Symbol.text symbols = .ok text ↔ text.toList.map .char = symbols := by
  unfold Symbol.text
  have hchars : Symbol.charsFrom 0 symbols = .ok text.toList ↔ _ := charsFrom_eq_ok_iff
  rw [← hchars]
  cases Symbol.charsFrom 0 symbols with
  | error fault => simp [Except.map]
  | ok chars => simp [Except.map, ← String.toList_inj, eq_comm]

/-- The compact form of a proper document reads as it if its floats read back, and is tidy. -/
theorem parse_compact (hproper : v.IsProper) (hfloats : ∀ x ∈ v.floats, Rereads x) {text : String}
    (h : Symbol.text (compact v) = .ok text) : parse text = .ok v ∧ IsTidy text.toList := by
  have hwritten := written_of_compact v hproper hfloats (text_eq_ok_iff.1 h)
  exact ⟨hwritten.parse_eq, hwritten.isTidy⟩

end StaticSite.Json
