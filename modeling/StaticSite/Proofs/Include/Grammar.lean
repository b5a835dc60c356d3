import StaticSite.Include.Directive
import StaticSite.Proofs.Text.Front

/-!
# The grammar of directives

What a directive looks like, said without a reader: an anchor, and a body that is read as far as it
goes (`IsDirective`). The readers read exactly that (`directive?_eq_some_iff`): each of them takes
from the front of a text what is written by its rule, and no other part of the text is written by
it.
-/

namespace StaticSite

open Text (Spells AllBlank)

namespace Grammar

/-! ## Directives as they are written -/

/-- How an anchor is written: as the word of the grammar with `.include`, or as `import`, perhaps
after an `@`. -/
inductive IsAnchor (g : Grammar) : List Char → Prop where
  /-- The word with `.include`. -/
  | word {a : List Char} (hmode : g.mode = .includes)
      (h : Spells (g.word ++ ".include".toList) a) : IsAnchor g a
  /-- The keyword. -/
  | keyword {a : List Char} (hmode : g.mode = .imports)
      (h : Spells "import".toList a) : IsAnchor g a
  /-- The keyword after an `@`. -/
  | marked {a : List Char} (hmode : g.mode = .imports) (h : Spells "import".toList a) :
      IsAnchor g ('@' :: a)

/-- How a path is written in quotes. It has no blanks at its ends, and is not empty without them. -/
inductive IsQuoted : List Char → List Char → Prop where
  /-- A quote, characters that may stand in a path, and the same quote. -/
  | quote {q : Char} {inside : List Char} (hquote : isQuote q = true)
      (hchars : ∀ c ∈ inside, isPathChar c = true)
      (hne : Text.trim inside ≠ []) : IsQuoted (Text.trim inside) (q :: (inside ++ [q]))

/-- How a directive ends before what follows it. -/
inductive IsEnd : List Char → List Char → Prop where
  /-- A semicolon, perhaps after blanks. -/
  | semicolon {blanks : List Char} (hblanks : AllBlank blanks) (rest : List Char) : IsEnd
      (blanks ++ [';']) rest
  /-- Nothing, if no semicolon follows. -/
  | nothing {rest : List Char}
      (h : ∀ blanks after, AllBlank blanks → rest ≠ blanks ++ ';' :: after) : IsEnd [] rest

/-- How the body of a directive is written before what follows it. -/
inductive IsBody (g : Grammar) : Directive → List Char → List Char → Prop where
  /-- A full stop and the longest word after it. -/
  | property {blanks name ending rest : List Char} (hmode : g.mode = .includes)
      (hblanks : AllBlank blanks)
      (hname : name ≠ []) (hword : ∀ c ∈ name, Text.isWord c = true)
      (hlongest : ∀ c, (ending ++ rest).head? = some c → Text.isWord c = false)
        (hend : IsEnd ending rest) :
      IsBody g (.property name) (blanks ++ '.' :: (name ++ ending)) rest
  /-- A path in quotes and parentheses. -/
  | file {blanks inner outer path quoted ending rest : List Char} (hmode : g.mode = .includes)
      (hblanks : AllBlank blanks)
      (hinner : AllBlank inner) (hquoted : IsQuoted path quoted) (houter : AllBlank outer)
        (hend : IsEnd ending rest) :
      IsBody g (.file path) (blanks ++ '(' :: (inner ++ (quoted ++ (outer ++ ')' :: ending)))) rest
  /-- A path in quotes. -/
  | bare {blanks path quoted ending rest : List Char} (hmode : g.mode = .imports)
      (hblanks : AllBlank blanks)
      (hquoted : IsQuoted path quoted) (hend : IsEnd ending rest) :
      IsBody g (.file path) (blanks ++ (quoted ++ ending)) rest

/-- How a directive is written before what follows it. -/
inductive IsDirective (g : Grammar) : Directive → List Char → List Char → Prop where
  /-- An anchor with a body. -/
  | anchored {d : Directive} {anchor body rest : List Char} (hanchor : g.IsAnchor anchor)
      (hbody : g.IsBody d body rest) :
      IsDirective g d (anchor ++ body) rest

/-! ## Readers -/

variable {g : Grammar} {s rest path : List Char} {d : Directive}

/-- An anchor is found where the text begins with one. -/
theorem anchor?_eq_some_iff : g.anchor? s = some rest ↔ ∃ a, s = a ++ rest ∧ g.IsAnchor a := by
  -- The keyword does not begin with an `@`.
  have hmarked : ∀ t, Text.afterLetters? "import".toList ('@' :: t) = none := fun t => rfl
  unfold anchor?
  cases hmode : g.mode with
  | includes =>
    simp only
    rw [Text.afterLetters?_eq_some_iff]
    constructor
    · rintro ⟨a, hs, ha⟩
      exact ⟨a, hs, .word hmode ha⟩
    · rintro ⟨a, hs, ha⟩
      cases ha with
      | word _ ha => exact ⟨a, hs, ha⟩
      | keyword hmode' => cases hmode.symm.trans hmode'
      | marked hmode' => cases hmode.symm.trans hmode'
  | imports =>
    simp only
    constructor
    · intro h
      split at h
      · obtain ⟨a, hs, ha⟩ := Text.afterLetters?_eq_some_iff.1 h
        exact ⟨'@' :: a, by rw [hs, List.cons_append], .marked hmode ha⟩
      · obtain ⟨a, hs, ha⟩ := Text.afterLetters?_eq_some_iff.1 h
        exact ⟨a, hs, .keyword hmode ha⟩
    · rintro ⟨a, rfl, ha⟩
      cases ha with
      | word hmode' => cases hmode.symm.trans hmode'
      | keyword _ ha =>
        have hread : Text.afterLetters? "import".toList (a ++ rest) = some rest :=
          Text.afterLetters?_eq_some_iff.2 ⟨a, rfl, ha⟩
        split
        · rename_i t ht
          rw [ht, hmarked] at hread
          cases hread
        · exact hread
      | marked _ ha => exact Text.afterLetters?_eq_some_iff.2 ⟨_, rfl, ha⟩

/-- No quote may stand in a path. -/
theorem ne_of_isPathChar {q c : Char} (hq : isQuote q = true) (hc : isPathChar c = true) :
    (c != q) = true := by
  rw [bne_iff_ne]
  rintro rfl
  obtain rfl | rfl | rfl : c = '"' ∨ c = '\'' ∨ c = '\x60' := by simpa [isQuote, or_assoc] using hq
  all_goals cases hc

/-- A quoted path is found where the text begins with one. -/
theorem quoted?_eq_some_iff : quoted? s = some (path, rest) ↔ ∃ a, s = a ++ rest ∧
    IsQuoted path a := by
  constructor
  · intro h
    cases s with
    | nil => simp [quoted?] at h
    | cons q s =>
      simp only [quoted?] at h
      split at h
      · rename_i hquote
        split at h
        · cases h
        · rename_i c after hafter
          split at h
          · rename_i hpath
            obtain ⟨rfl, rfl⟩ := Prod.mk.inj (Option.some.inj h)
            obtain ⟨hs, -, hc⟩ := Text.takeWhile_eq_iff.1 ⟨rfl, hafter⟩
            obtain rfl : c = q := by simpa using hc c rfl
            obtain ⟨hchars, hne⟩ : (∀ c' ∈ s.takeWhile (· != c), isPathChar c' = true) ∧
                Text.trim (s.takeWhile (· != c)) ≠ [] := by simpa using hpath
            refine ⟨_, ?_, .quote hquote hchars hne⟩
            rw [List.cons_append, List.append_assoc, List.singleton_append, ← hs]
          · cases h
      · cases h
  · rintro ⟨a, rfl, ⟨hquote, hchars, hne⟩⟩
    rename_i q inside
    -- A quote is no character of a path, so the path ends where the quotes do.
    obtain ⟨htake, hdrop⟩ : (inside ++ q :: rest).takeWhile (· != q) = inside ∧
        (inside ++ q :: rest).dropWhile (· != q) = q :: rest :=
      Text.takeWhile_eq_iff.2 ⟨rfl, fun c hc => ne_of_isPathChar hquote (hchars c hc),
          fun c hc => by
        rw [← Option.some.inj hc]
        simp⟩
    have hpath : (inside.all isPathChar && !(Text.trim inside).isEmpty) = true := by
      simpa using ⟨hchars, hne⟩
    simp only [quoted?, List.cons_append, List.append_assoc, List.nil_append, hquote, htake, hdrop,
      hpath, if_true]

/-- What follows the end of a directive is the rest after its end. -/
theorem afterEnd_eq_iff : afterEnd s = rest ↔ ∃ e, s = e ++ rest ∧ IsEnd e rest := by
  -- A semicolon that follows is taken.
  have htaken : ∀ blanks after, AllBlank blanks → afterEnd (blanks ++ ';' :: after) = after := by
    intro blanks after hblanks
    have hskip : Text.skipBlanks (blanks ++ ';' :: after) = ';' :: after :=
      Text.skipBlanks_eq_cons_iff.2 ⟨by decide, blanks, hblanks, rfl⟩
    simp only [afterEnd, hskip]
  -- Nothing is taken where none follows.
  have hopen : ∀ {s}, (∀ blanks after, AllBlank blanks → s ≠ blanks ++ ';' :: after) →
      afterEnd s = s := by
    intro s hnone
    unfold afterEnd
    split
    · rename_i after hafter
      obtain ⟨-, blanks, hblanks, hs⟩ := Text.skipBlanks_eq_cons_iff.1 hafter
      exact absurd hs (hnone blanks after hblanks)
    · rfl
  constructor
  · rintro rfl
    by_cases h : ∃ blanks after, AllBlank blanks ∧ s = blanks ++ ';' :: after
    · obtain ⟨blanks, after, hblanks, rfl⟩ := h
      rw [htaken blanks after hblanks]
      exact ⟨blanks ++ [';'], by rw [List.append_assoc, List.singleton_append],
        .semicolon hblanks after⟩
    · have hnone : ∀ blanks after, AllBlank blanks → s ≠ blanks ++ ';' :: after :=
        fun blanks after hblanks hs => h ⟨blanks, after, hblanks, hs⟩
      rw [hopen hnone]
      exact ⟨[], rfl, .nothing hnone⟩
  · rintro ⟨e, rfl, hend⟩
    cases hend with
    | semicolon hblanks =>
      rw [List.append_assoc]
      exact htaken _ rest hblanks
    | nothing hnone => exact hopen hnone

/-- What is written in quotes begins with a quote, which is not blank. -/
theorem IsQuoted.exists_cons {quoted : List Char} (h : IsQuoted path quoted) :
    ∃ q t, quoted = q :: t ∧ Text.isBlank q = false := by
  obtain ⟨hquote, -, -⟩ := h
  rename_i q inside
  refine ⟨q, inside ++ [q], rfl, ?_⟩
  obtain rfl | rfl | rfl : q = '"' ∨ q = '\'' ∨ q = '\x60' := by
    simpa [isQuote, or_assoc] using hquote
  all_goals rfl

/-- A path in quotes is read after blanks. -/
theorem quoted?_skipBlanks_iff :
    quoted? (Text.skipBlanks s) = some (path, rest) ↔
      ∃ blanks a, s = blanks ++ (a ++ rest) ∧ AllBlank blanks ∧ IsQuoted path a := by
  rw [quoted?_eq_some_iff]
  constructor
  · rintro ⟨a, hs, ha⟩
    obtain ⟨q, t, rfl, -⟩ := ha.exists_cons
    obtain ⟨-, blanks, hblanks, hs⟩ := Text.skipBlanks_eq_cons_iff.1 hs
    exact ⟨blanks, q :: t, hs, hblanks, ha⟩
  · rintro ⟨blanks, a, hs, hblanks, ha⟩
    obtain ⟨q, t, rfl, hq⟩ := ha.exists_cons
    exact ⟨q :: t, Text.skipBlanks_eq_cons_iff.2 ⟨hq, blanks, hblanks, hs⟩, ha⟩

/-- Where directives are imports, a body is a path in quotes. -/
theorem body?_imports_iff (hmode : g.mode = .imports) :
    g.body? s = some (d, rest) ↔ ∃ b, s = b ++ rest ∧ g.IsBody d b rest := by
  unfold body?
  simp only [hmode]
  rw [Option.map_eq_some_iff]
  constructor
  · rintro ⟨⟨path, after⟩, hquoted, hd⟩
    obtain ⟨rfl, hafter⟩ := Prod.mk.inj hd
    obtain ⟨blanks, a, rfl, hblanks, ha⟩ := quoted?_skipBlanks_iff.1 hquoted
    obtain ⟨e, rfl, hend⟩ := afterEnd_eq_iff.1 hafter
    exact ⟨blanks ++ (a ++ e), by simp only [List.append_assoc], .bare hmode hblanks ha hend⟩
  · rintro ⟨b, rfl, hbody⟩
    cases hbody with
    | property hmode' => cases hmode.symm.trans hmode'
    | file hmode' => cases hmode.symm.trans hmode'
    | @bare blanks path quoted ending _ _ hblanks hquoted hend =>
      refine ⟨(path, ending ++ rest), ?_, ?_⟩
      · exact quoted?_skipBlanks_iff.2
          ⟨blanks, quoted, by simp only [List.append_assoc], hblanks, hquoted⟩
      · rw [afterEnd_eq_iff.2 ⟨ending, rfl, hend⟩]

/-- Where directives begin with a word, a body is a name after a full stop, or a path in quotes and
parentheses. -/
theorem body?_includes_iff (hmode : g.mode = .includes) :
    g.body? s = some (d, rest) ↔ ∃ b, s = b ++ rest ∧ g.IsBody d b rest := by
  unfold body?
  simp only [hmode]
  constructor
  · intro h
    split at h
    · -- After a full stop: a name, as long as can be, and the end of the directive.
      rename_i after hafter
      obtain ⟨-, blanks, hblanks, rfl⟩ := Text.skipBlanks_eq_cons_iff.1 hafter
      split at h
      · cases h
      · rename_i hname
        obtain ⟨rfl, hrest⟩ := Prod.mk.inj (Option.some.inj h)
        obtain ⟨e, he, hend⟩ := afterEnd_eq_iff.1 hrest
        obtain ⟨hsplit, hword, hlongest⟩ := Text.takeWhile_eq_iff.1 ⟨rfl, he⟩
        refine ⟨blanks ++ '.' :: (after.takeWhile Text.isWord ++ e), ?_,
          .property hmode hblanks (by simpa using hname) hword hlongest hend⟩
        rw [List.append_assoc, List.cons_append, List.append_assoc, ← hsplit]
    · -- After a parenthesis: a path in quotes, another parenthesis and the end.
      rename_i after hafter
      obtain ⟨-, blanks, hblanks, rfl⟩ := Text.skipBlanks_eq_cons_iff.1 hafter
      split at h
      · cases h
      · rename_i path after' hquoted
        obtain ⟨inner, a, rfl, hinner, ha⟩ := quoted?_skipBlanks_iff.1 hquoted
        split at h
        · rename_i after'' hclose
          obtain ⟨-, outer, houter, rfl⟩ := Text.skipBlanks_eq_cons_iff.1 hclose
          obtain ⟨rfl, hrest⟩ := Prod.mk.inj (Option.some.inj h)
          obtain ⟨e, rfl, hend⟩ := afterEnd_eq_iff.1 hrest
          exact ⟨blanks ++ '(' :: (inner ++ (a ++ (outer ++ ')' :: e))),
            by simp only [List.append_assoc, List.cons_append],
            .file hmode hblanks hinner ha houter hend⟩
        · cases h
    · cases h
  · rintro ⟨b, rfl, hbody⟩
    cases hbody with
    | @property blanks name ending _ _ hblanks hname hword hlongest hend =>
      have hskip : Text.skipBlanks (blanks ++ '.' :: (name ++ ending) ++ rest) =
          '.' :: (name ++ (ending ++ rest)) :=
        Text.skipBlanks_eq_cons_iff.2
          ⟨by decide, blanks, hblanks, by simp only [List.append_assoc, List.cons_append]⟩
      obtain ⟨htake, hdrop⟩ := Text.takeWhile_eq_iff.2 ⟨rfl, hword, hlongest⟩
      have hne : name.isEmpty = false := by simpa using hname
      simp only [hskip, htake, hdrop, hne, Bool.false_eq_true, if_false,
        afterEnd_eq_iff.2 ⟨ending, rfl, hend⟩]
    | @file blanks inner outer path quoted ending _ _ hblanks hinner hquoted houter hend =>
      have hskip : Text.skipBlanks
        (blanks ++ '(' :: (inner ++ (quoted ++ (outer ++ ')' :: ending))) ++ rest) =
          '(' :: (inner ++ (quoted ++ (outer ++ ')' :: (ending ++ rest)))) :=
        Text.skipBlanks_eq_cons_iff.2
          ⟨by decide, blanks, hblanks, by simp only [List.append_assoc, List.cons_append]⟩
      have hread : quoted?
        (Text.skipBlanks (inner ++ (quoted ++ (outer ++ ')' :: (ending ++ rest))))) =
          some (path, outer ++ ')' :: (ending ++ rest)) :=
        quoted?_skipBlanks_iff.2 ⟨inner, quoted, rfl, hinner, hquoted⟩
      have hclose : Text.skipBlanks (outer ++ ')' :: (ending ++ rest)) = ')' :: (ending ++ rest) :=
        Text.skipBlanks_eq_cons_iff.2 ⟨by decide, outer, houter, rfl⟩
      simp only [hskip, hread, hclose, afterEnd_eq_iff.2 ⟨ending, rfl, hend⟩]
    | bare hmode' => cases hmode.symm.trans hmode'

/-- The body of a directive is found where the text begins with one. -/
theorem body?_eq_some_iff : g.body? s = some (d, rest) ↔ ∃ b, s = b ++ rest ∧
    g.IsBody d b rest := by
  cases hmode : g.mode with
  | includes => exact body?_includes_iff hmode
  | imports => exact body?_imports_iff hmode

/-- A directive is read at the front of a text if and only if one is written there. -/
theorem directive?_eq_some_iff : g.directive? s = some (d, rest) ↔ ∃ raw, s = raw ++ rest ∧
    g.IsDirective d raw rest := by
  unfold directive?
  rw [Option.bind_eq_some_iff]
  constructor
  · rintro ⟨after, hanchor, hbody⟩
    obtain ⟨a, rfl, ha⟩ := anchor?_eq_some_iff.1 hanchor
    obtain ⟨b, rfl, hb⟩ := body?_eq_some_iff.1 hbody
    exact ⟨a ++ b, (List.append_assoc ..).symm, .anchored ha hb⟩
  · rintro ⟨raw, rfl, ⟨ha, hb⟩⟩
    rename_i a b
    exact ⟨b ++ rest, anchor?_eq_some_iff.2 ⟨a, List.append_assoc .., ha⟩,
      body?_eq_some_iff.2 ⟨b, rfl, hb⟩⟩

end Grammar

end StaticSite
