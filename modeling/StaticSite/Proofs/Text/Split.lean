import Mathlib.Data.List.Basic
import StaticSite.Text.Search

/-!
# Splitting and replacing

How the parts of a text between separators change with the text: text without a separator goes to
the front of the first part (`splitAt_append`), and texts without a separator that are each written
after one are the parts (`splitAt_flatMap`). Replacing words that hold no separator goes on in each
part by itself (`splitAt_replaceAll`), and what stands in a part afterwards is the part as it was or
holds what was put in (`replaceAll_eq_or_isInfix`).
-/

namespace StaticSite.Text

variable {sep c : Char} {needle new s a first : List Char} {others : List (List Char)}

/-- A text that is split has a first part. -/
theorem exists_splitAt (sep : Char) (s : List Char) :
    ∃ first others, splitAt sep s = first :: others := by
  cases s with
  | nil => exact ⟨[], [], rfl⟩
  | cons c s =>
    unfold splitAt
    split
    · exact ⟨_, _, rfl⟩
    · split <;> exact ⟨_, _, rfl⟩

/-- A separator ends the first part. -/
theorem splitAt_cons_self (sep : Char) (s : List Char) :
    splitAt sep (sep :: s) = [] :: splitAt sep s := by
  simp [splitAt]

/-- Another character belongs to the first part. -/
theorem splitAt_cons_of_ne (hc : c ≠ sep) (h : splitAt sep s = first :: others) :
    splitAt sep (c :: s) = (c :: first) :: others := by
  simp [splitAt, hc, h]

/-- Text without a separator goes to the front of the first part. -/
theorem splitAt_append (ha : sep ∉ a) (h : splitAt sep s = first :: others) :
    splitAt sep (a ++ s) = (a ++ first) :: others := by
  induction a with
  | nil => exact h
  | cons c a ih =>
    rw [List.mem_cons, not_or] at ha
    exact splitAt_cons_of_ne (Ne.symm ha.1) (ih ha.2)

/-- Texts without a separator that are each written after one are the parts. -/
theorem splitAt_flatMap (h : ∀ part ∈ others, sep ∉ part) :
    splitAt sep (others.flatMap (sep :: ·)) = [] :: others := by
  induction others with
  | nil => rfl
  | cons part rest ih =>
    obtain ⟨hpart, hrest⟩ := List.forall_mem_cons.1 h
    rw [List.flatMap_cons, List.cons_append, splitAt_cons_self, splitAt_append hpart (ih hrest),
      List.append_nil]

/-- Parts with a separator before each are the parts with separators between them, after one. -/
theorem cons_intercalate (sep : Char) {parts : List (List Char)} (h : parts ≠ []) :
    sep :: [sep].intercalate parts = parts.flatMap (sep :: ·) := by
  induction parts with
  | nil => exact absurd rfl h
  | cons part parts ih =>
    cases parts with
    | nil => simp
    | cons next parts =>
        rw [List.intercalate_cons_cons, List.flatMap_cons, ← ih (List.cons_ne_nil _ _)]; simp

/-- What is no separator stands in a part. -/
theorem exists_part_of_mem (h : c ∈ s) (hc : c ≠ sep) : ∃ part ∈ splitAt sep s, c ∈ part := by
  induction s with
  | nil => cases h
  | cons d s ih =>
    obtain ⟨front, back, hs⟩ := exists_splitAt sep s
    by_cases hd : d = sep
    · rw [hd, splitAt_cons_self]
      obtain ⟨part, hpart, hmem⟩ :=
        ih ((List.mem_cons.1 h).resolve_left fun heq => hc (heq.trans hd))
      exact ⟨part, List.mem_cons_of_mem _ hpart, hmem⟩
    · rw [splitAt_cons_of_ne hd hs]
      rcases List.mem_cons.1 h with rfl | h
      · exact ⟨c :: front, List.mem_cons_self, List.mem_cons_self⟩
      · obtain ⟨part, hpart, hmem⟩ := ih h
        rw [hs] at hpart
        rcases List.mem_cons.1 hpart with rfl | hpart
        · exact ⟨d :: part, List.mem_cons_self, List.mem_cons_of_mem _ hmem⟩
        · exact ⟨part, List.mem_cons_of_mem _ hpart, hmem⟩

/-- The separators at the front of a text make no part but empty ones. -/
theorem filter_splitAt_dropWhile (sep : Char) (s : List Char) :
    (splitAt sep (s.dropWhile (· == sep))).filter (· ≠ []) = (splitAt sep s).filter (· ≠ []) := by
  induction s with
  | nil => rfl
  | cons c s ih =>
    by_cases hc : c = sep
    · rw [hc, splitAt_cons_self, List.dropWhile_cons_of_pos (by simp), ih]
      rfl
    · rw [List.dropWhile_cons_of_neg (by simpa using hc)]

/-- After the separators at its front a text begins with the first part that is not empty. -/
theorem head?_dropWhile (sep : Char) (s : List Char) :
    (s.dropWhile (· == sep)).head? = ((splitAt sep s).filter (· ≠ [])).head?.bind List.head? := by
  induction s with
  | nil => rfl
  | cons c s ih =>
    by_cases hc : c = sep
    · rw [hc, splitAt_cons_self, List.dropWhile_cons_of_pos (by simp), ih]
      rfl
    · obtain ⟨front, back, hs⟩ := exists_splitAt sep s
      rw [List.dropWhile_cons_of_neg (by simpa using hc), splitAt_cons_of_ne hc hs]
      rfl

/-- The first part is the front of the text, up to a separator. -/
theorem isPrefix_of_splitAt (h : splitAt sep s = first :: others) : first <+: s := by
  induction s generalizing first others with
  | nil =>
    obtain ⟨rfl, -⟩ := List.cons.inj h
    exact List.prefix_refl _
  | cons c s ih =>
    obtain ⟨front, back, hs⟩ := exists_splitAt sep s
    by_cases hc : c = sep
    · rw [hc, splitAt_cons_self] at h
      obtain ⟨rfl, -⟩ := List.cons.inj h
      exact List.nil_prefix
    · rw [splitAt_cons_of_ne hc hs] at h
      obtain ⟨rfl, -⟩ := List.cons.inj h
      exact List.cons_prefix_cons.2 ⟨rfl, ih hs⟩

/-- Text without a separator that a text begins with stands at the front of its first part. -/
theorem isPrefix_first (ha : sep ∉ a) (hs : a <+: s) (h : splitAt sep s = first :: others) :
    a <+: first := by
  obtain ⟨rest, rfl⟩ := hs
  obtain ⟨front, back, hrest⟩ := exists_splitAt sep rest
  rw [splitAt_append ha hrest] at h
  obtain ⟨rfl, -⟩ := List.cons.inj h
  exact List.prefix_append _ _

/-- Words without a separator are replaced in each part by itself. -/
theorem splitAt_replaceFrom (hne : needle ≠ []) (hneedle : sep ∉ needle)
    (hnew : sep ∉ new) {skip : Nat} (hskip : sep ∉ s.take skip)
    (h : splitAt sep s = first :: others) :
    splitAt sep (replaceFrom needle new skip s) = replaceFrom needle new skip first ::
      others.map (replaceAll needle new) := by
  induction s generalizing skip first others with
  | nil =>
    obtain ⟨rfl, rfl⟩ := List.cons.inj h
    cases skip <;> rfl
  | cons c s ih =>
    obtain ⟨front, back, hs⟩ := exists_splitAt sep s
    cases skip with
    | succ skip =>
      rw [List.take_succ_cons, List.mem_cons, not_or] at hskip
      rw [splitAt_cons_of_ne (Ne.symm hskip.1) hs] at h
      obtain ⟨rfl, rfl⟩ := List.cons.inj h
      exact ih hskip.2 hs
    | zero =>
      by_cases hfound : needle <+: c :: s
      · -- The word that begins here ends in the first part, since it holds no separator.
        obtain ⟨d, word, rfl⟩ := List.exists_cons_of_ne_nil hne
        obtain ⟨rfl, hword⟩ := List.cons_prefix_cons.1 hfound
        rw [List.mem_cons, not_or] at hneedle
        have htake : s.take word.length = word := (List.prefix_iff_eq_take.1 hword).symm
        have hfront : d :: word <+: d :: front :=
          List.cons_prefix_cons.2 ⟨rfl, isPrefix_first hneedle.2 hword hs⟩
        have hrest : splitAt sep (replaceFrom (d :: word) new word.length s) = _ :=
          ih (by rw [htake]; exact hneedle.2) hs
        rw [splitAt_cons_of_ne (Ne.symm hneedle.1) hs] at h
        obtain ⟨rfl, rfl⟩ := List.cons.inj h
        rw [replaceFrom, if_pos (List.isPrefixOf_iff_prefix.2 hfound), replaceFrom,
          if_pos (List.isPrefixOf_iff_prefix.2 hfront)]
        exact splitAt_append hnew hrest
      · rw [replaceFrom, if_neg fun hword => hfound (List.isPrefixOf_iff_prefix.1 hword)]
        have hrest : splitAt sep (replaceFrom needle new 0 s) = _ := ih List.not_mem_nil hs
        by_cases hc : c = sep
        · rw [hc, splitAt_cons_self] at h
          obtain ⟨rfl, rfl⟩ := List.cons.inj h
          rw [hc, splitAt_cons_self, hrest, hs]
          rfl
        · rw [splitAt_cons_of_ne hc hs] at h
          obtain ⟨rfl, rfl⟩ := List.cons.inj h
          have hfront : ¬needle <+: c :: front := fun hword =>
            hfound (hword.trans (List.cons_prefix_cons.2 ⟨rfl, isPrefix_of_splitAt hs⟩))
          rw [replaceFrom, if_neg fun hword => hfront (List.isPrefixOf_iff_prefix.1 hword)]
          exact splitAt_cons_of_ne hc hrest

/-- Words without a separator are replaced in each part by itself. -/
theorem splitAt_replaceAll (hne : needle ≠ []) (hneedle : sep ∉ needle) (hnew : sep ∉ new)
    (s : List Char) :
    splitAt sep (replaceAll needle new s) = (splitAt sep s).map (replaceAll needle new) := by
  obtain ⟨first, others, hs⟩ := exists_splitAt sep s
  rw [hs]
  exact splitAt_replaceFrom hne hneedle hnew List.not_mem_nil hs

/-- A text either is as it was when words were replaced in it, or holds what was put in. -/
theorem replaceAll_eq_or_isInfix (needle new s : List Char) :
    replaceAll needle new s = s ∨ new <:+: replaceAll needle new s := by
  induction s with
  | nil => exact .inl rfl
  | cons c s ih =>
    unfold replaceAll at ih ⊢
    rw [replaceFrom]
    split
    · exact .inr (List.prefix_append _ _).isInfix
    · exact ih.imp (congrArg (c :: ·)) fun h => List.infix_cons h

/-- A text begins as it did when words were replaced in it, or with what was put in. -/
theorem head?_replaceAll (hnew : new ≠ []) (needle s : List Char) :
    (replaceAll needle new s).head? = s.head? ∨ (replaceAll needle new s).head? = new.head? := by
  cases s with
  | nil => exact .inl rfl
  | cons c s =>
    unfold replaceAll
    rw [replaceFrom]
    split
    · exact .inr (List.head?_append_of_ne_nil _ hnew)
    · exact .inl rfl

/-- Replacing a needle by something leaves a text empty if and only if it was. -/
theorem replaceAll_eq_nil_iff (hnew : new ≠ []) : replaceAll needle new s = [] ↔ s = [] := by
  cases s with
  | nil => exact ⟨fun _ => rfl, fun _ => rfl⟩
  | cons c s =>
    unfold replaceAll
    rw [replaceFrom]
    split <;> simp [hnew]

/-- A text ends as it did when words were replaced in it, or in what was put in. -/
theorem getLast?_replaceFrom (hnew : new ≠ []) {skip : Nat}
    (h : (replaceFrom needle new skip s).getLast? = some c) :
    s.getLast? = some c ∨ c ∈ new := by
  have hcons : ∀ (d : Char) (s : List Char), s.getLast? = some c → (d :: s).getLast? = some c := by
    intro d s hs
    rw [List.getLast?_cons, hs]
    rfl
  induction s generalizing skip with
  | nil =>
    cases skip <;> cases h
  | cons d s ih =>
    cases skip with
    | succ skip => exact (ih h).imp_left (hcons d s)
    | zero =>
      rw [replaceFrom] at h
      split at h
      · rw [List.getLast?_append] at h
        cases hrest : (replaceFrom needle new (needle.length - 1) s).getLast? with
        | none =>
          rw [hrest] at h
          exact .inr (List.mem_of_getLast? h)
        | some e =>
          rw [hrest] at h
          obtain rfl : e = c := Option.some.inj h
          exact (ih hrest).imp_left (hcons d s)
      · rw [List.getLast?_cons] at h
        cases hrest : (replaceFrom needle new 0 s).getLast? with
        | none =>
          -- Nothing is left after the character, so that nothing followed it.
          have hs : s = [] := (replaceAll_eq_nil_iff hnew).1 (List.getLast?_eq_none_iff.1 hrest)
          rw [hrest] at h
          rw [hs]
          exact .inl h
        | some e =>
          rw [hrest] at h
          obtain rfl : e = c := Option.some.inj h
          exact (ih hrest).imp_left (hcons d s)

/-- A change of characters that are in no word, to such characters, leaves every word where it
is. -/
theorem isPrefixOf_map {f : Char → Char} (hf : ∀ c ∈ a, ∀ d, f d = c ↔ d = c) (s : List Char) :
    a.isPrefixOf (s.map f) = a.isPrefixOf s := by
  induction a generalizing s with
  | nil => simp
  | cons c a ih =>
    cases s with
    | nil => rfl
    | cons d s =>
      obtain ⟨hc, hrest⟩ := List.forall_mem_cons.1 hf
      have hsame : (c == f d) = (c == d) := by
        rw [Bool.eq_iff_iff, beq_iff_eq, beq_iff_eq, eq_comm, hc d, eq_comm]
      rw [List.map_cons, List.isPrefixOf_cons_cons, List.isPrefixOf_cons_cons, hsame, ih hrest s]

/-- Mapping characters after a replacement is replacing in the mapped text, if the mapping keeps the
needle apart. -/
theorem map_replaceFrom {f : Char → Char} (hf : ∀ c ∈ needle, ∀ d, f d = c ↔ d = c) (skip : Nat)
    (s : List Char) :
    (replaceFrom needle new skip s).map f = replaceFrom needle (new.map f) skip (s.map f) := by
  induction s generalizing skip with
  | nil => cases skip <;> rfl
  | cons c s ih =>
    cases skip with
    | succ skip => exact ih skip
    | zero =>
      rw [replaceFrom, List.map_cons, replaceFrom, ← List.map_cons, isPrefixOf_map hf (c :: s)]
      split
      · rw [List.map_append, ih]
      · rw [List.map_cons, ih]

end StaticSite.Text
