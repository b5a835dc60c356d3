import Mathlib.Data.List.Forall2
import StaticSite.Proofs.Include.Segments
import StaticSite.Proofs.Text.Letter

/-!
# Leftmost first

A text is cut at the leftmost directive, and what follows it is cut again (`segments_leftmost`).
Where an anchor has no body the search goes on after the anchor, so that a directive which begins
within such an anchor is passed over. Two anchors lie in each other that way only if the word of the
grammar begins as `include` ends and goes on from there (`Recurs`). For each anchor has one full
stop, after its word: the second anchor begins after the stop of the first, and if its word ended
with the first anchor, then its stop would make the first anchor that of a property.
-/

namespace StaticSite

namespace Text

/-- Two texts are spelled in one after the other by two parts. -/
theorem spells_append_iff {u v a : List Char} :
    Spells (u ++ v) a ↔ ∃ x y, a = x ++ y ∧ Spells u x ∧ Spells v y := by
  constructor
  · intro h
    refine ⟨a.take u.length, a.drop u.length, (List.take_append_drop _ a).symm, ?_, ?_⟩
    · have htake := List.forall₂_take u.length h
      rwa [List.take_left] at htake
    · have hdrop := List.forall₂_drop u.length h
      rwa [List.drop_left] at hdrop
  · rintro ⟨x, y, rfl, hx, hy⟩
    exact List.rel_append hx hy

/-- Where a word is spelled in two parts, each part spells a part of it. -/
theorem Spells.exists_append {word x y : List Char} (h : Spells word (x ++ y)) :
    ∃ u v, word = u ++ v ∧ Spells u x ∧ Spells v y := by
  refine ⟨word.take x.length, word.drop x.length, (List.take_append_drop _ word).symm, ?_, ?_⟩
  · have htake := List.forall₂_take x.length h
    rwa [List.take_left] at htake
  · have hdrop := List.forall₂_drop x.length h
    rwa [List.drop_left] at hdrop

/-- A text spells itself. -/
theorem spells_self (a : List Char) : Spells a a := List.forall₂_same.2 fun c _ => sameLetter_self c

/-- What spells word characters has no full stop. -/
theorem Spells.notMem {word a : List Char} (hword : ∀ c ∈ word, isWord c = true)
    (h : Spells word a) : '.' ∉ a := by
  induction h with
  | nil => exact List.not_mem_nil
  | cons hc _ ih =>
    rw [List.mem_cons, not_or]
    refine ⟨?_, ih fun c hc => hword c (List.mem_cons_of_mem _ hc)⟩
    rintro rfl
    exact not_sameLetter_dot (hword _ List.mem_cons_self) hc

end Text

open Text (Spells)

/-- A text as segments: none if it is empty. -/
def Segment.ofText (s : List Char) : List Segment := if s.isEmpty then [] else [.text s]

/-- What stands before the first directive is seen from the segments. -/
theorem Segment.ofText_inj {s t raw raw' : List Char} {d d' : Directive}
    {segments segments' : List Segment}
    (h : ofText s ++ .directive d raw :: segments = ofText t ++ .directive d' raw' :: segments') :
    s = t := by
  cases s <;> cases t <;> simp [ofText] at h ⊢
  exact h.1

namespace Grammar

variable {g : Grammar} {s t before : List Char} {d : Directive}

/-! ## Cuts -/

/-- A directive is written at the front of a text. -/
def Starts (g : Grammar) (s : List Char) : Prop :=
  ∃ d raw rest, s = raw ++ rest ∧ g.IsDirective d raw rest

/-- No directive begins in what stands before a text. -/
def Passes (g : Grammar) (s before : List Char) : Prop :=
  ∀ u v, before = u ++ v → v ≠ [] → ¬g.Starts (v ++ s)

/-- A search goes over what stands before a text: a character where no anchor begins, or the whole
of an anchor that no directive begins with. -/
inductive Tries (g : Grammar) (s : List Char) : List Char → Prop where
  /-- There is nothing to go over. -/
  | nil : Tries g s []
  /-- No anchor begins. -/
  | char {c : Char} {before : List Char} (h : ∀ a t, c :: (before ++ s) = a ++ t → ¬g.IsAnchor a)
      (hrest : Tries g s before) : Tries g s (c :: before)
  /-- An anchor has no body. -/
  | anchor {a before : List Char} (ha : g.IsAnchor a) (h : ¬g.Starts (a ++ (before ++ s)))
      (hrest : Tries g s before) :
      Tries g s (a ++ before)

/-- A text is cut at the directives that are met when what stands before each of them is passed
over. -/
inductive CutBy (g : Grammar) (passed : List Char → List Char → Prop) :
    List Char → List Segment → Prop where
  /-- The whole text is passed over. -/
  | text {s : List Char} (h : passed [] s) : CutBy g passed s (Segment.ofText s)
  /-- A directive is met, and the rest is cut again. -/
  | directive {before raw rest : List Char} {d : Directive} {segments : List Segment}
      (hbefore : passed (raw ++ rest) before)
      (h : g.IsDirective d raw rest) (hrest : CutBy g passed rest segments) :
      CutBy g passed (before ++ (raw ++ rest))
        (Segment.ofText before ++ .directive d raw :: segments)

/-- A text is cut in the same way if more may be passed over. -/
theorem CutBy.mono {passed passed' : List Char → List Char → Prop}
    (hpassed : ∀ s before, passed s before → passed' s before) {segments : List Segment}
    (h : g.CutBy passed s segments) : g.CutBy passed' s segments := by
  induction h with
  | text h => exact .text (hpassed _ _ h)
  | directive hbefore h _ ih => exact .directive (hpassed _ _ hbefore) h ih

/-- A text is cut either before no directive, or at one after which the rest is cut. -/
theorem CutBy.cases {passed : List Char → List Char → Prop} {segments : List Segment}
    (h : g.CutBy passed s segments) : (passed [] s ∧ segments = Segment.ofText s) ∨
    ∃ before d raw rest segments', s = before ++ (raw ++ rest) ∧
      passed (raw ++ rest) before ∧ g.IsDirective d raw rest ∧ g.CutBy passed rest segments' ∧
      segments = Segment.ofText before ++ .directive d raw :: segments' := by
  cases h with
  | text h => exact .inl ⟨h, rfl⟩
  | directive hbefore h hrest => exact .inr ⟨_, _, _, _, _, rfl, hbefore, h, hrest, rfl⟩

/-- An anchor is not empty. -/
theorem IsAnchor.ne_nil {a : List Char} (h : g.IsAnchor a) : a ≠ [] := by
  rintro rfl
  cases h with
  | word _ h => simpa using h.length_eq
  | keyword _ h => simpa using h.length_eq

/-- A directive starts the text that it begins. -/
theorem IsDirective.starts {raw rest : List Char} (h : g.IsDirective d raw rest) :
    g.Starts (raw ++ rest) :=
  ⟨d, raw, rest, rfl, h⟩

/-- A directive is not empty. -/
theorem IsDirective.ne_nil {raw rest : List Char} (h : g.IsDirective d raw rest) : raw ≠ [] := by
  obtain ⟨ha, -⟩ := h
  exact List.append_ne_nil_of_left_ne_nil ha.ne_nil _

/-- A text starts with a directive if and only if one can be read from it. -/
theorem starts_iff : g.Starts s ↔ g.directive? s ≠ none := by
  constructor
  · rintro ⟨d, raw, rest, hs, h⟩
    rw [directive?_eq_some_iff.2 ⟨raw, hs, h⟩]
    exact Option.some_ne_none _
  · intro h
    obtain ⟨⟨d, rest⟩, hread⟩ := Option.ne_none_iff_exists'.1 h
    obtain ⟨raw, hs, hd⟩ := directive?_eq_some_iff.1 hread
    exact ⟨d, raw, rest, hs, hd⟩

/-- A directive begins with an anchor if and only if a body is read after it. -/
theorem IsAnchor.starts_iff {a : List Char} (h : g.IsAnchor a) :
    g.Starts (a ++ t) ↔ g.body? t ≠ none := by
  rw [Grammar.starts_iff, directive?, anchor?_eq_some_iff.2 ⟨a, rfl, h⟩, Option.bind_some]

/-- One directive at most is written at the front of a text. -/
theorem IsDirective.unique {raw raw' rest rest' : List Char} {d d' : Directive}
    (h : g.IsDirective d raw rest) (h' : g.IsDirective d' raw' rest')
    (hs : raw ++ rest = raw' ++ rest') : d' = d ∧ raw' = raw ∧ rest' = rest := by
  have hread := directive?_eq_some_iff.2 ⟨raw, rfl, h⟩
  have hread' := directive?_eq_some_iff.2 ⟨raw', rfl, h'⟩
  rw [hs, hread'] at hread
  obtain ⟨rfl, rfl⟩ := Prod.mk.inj (Option.some.inj hread)
  exact ⟨rfl, (List.append_cancel_right hs).symm, rfl⟩

/-- No directive begins in what stands before a text, if none is read from any place in it. -/
theorem passes_of_directive? (h : ∀ n < before.length, g.directive? ((before ++ s).drop n) = none) :
    g.Passes s before := by
  rintro u v rfl hv hstarts
  have hlt : u.length < (u ++ v).length := by
    rw [List.length_append]
    exact Nat.lt_add_of_pos_right (List.length_pos_iff.2 hv)
  have hnone := h u.length hlt
  rw [List.append_assoc, List.drop_left] at hnone
  exact starts_iff.1 hstarts hnone

/-- A directive begins after what is passed over. -/
theorem Passes.isPrefix {s' before' : List Char} (h : g.Passes s before) (hs : g.Starts s')
    (hsame : before ++ s = before' ++ s') : before <+: before' := by
  rcases List.append_eq_append_iff.1 hsame with ⟨m, rfl, -⟩ | ⟨m, rfl, rfl⟩
  · exact List.prefix_append _ _
  · by_cases hm : m = []
    · simp [hm]
    · exact absurd hs (h before' m rfl hm)

/-- A text is cut at leftmost directives in one way. -/
theorem CutBy.unique {segments segments' : List Segment} (h : g.CutBy g.Passes s segments)
    (h' : g.CutBy g.Passes s segments') : segments' = segments := by
  -- A text with a directive in it is not passed over.
  have hdirective : ∀ {before raw rest : List Char} {d : Directive}, g.IsDirective d raw rest →
      ¬g.Passes [] (before ++ (raw ++ rest)) := by
    intro before raw rest d hd hpasses
    refine hpasses before (raw ++ rest) rfl (List.append_ne_nil_of_left_ne_nil hd.ne_nil rest) ?_
    rw [List.append_nil]
    exact hd.starts
  induction h generalizing segments' with
  | text h =>
    rcases h'.cases with ⟨-, hsegments⟩ | ⟨before, d, raw, rest, segments', rfl, -, hd, -, -⟩
    · exact hsegments
    · exact absurd h (hdirective hd)
  | @directive before raw rest d segments hbefore hd _ ih =>
    rcases h'.cases with ⟨hpasses, -⟩ | ⟨before', d', raw', rest', segments', hsame, hbefore',
      hd', hrest', rfl⟩
    · exact absurd hpasses (hdirective hd)
    · obtain rfl : before = before' := (hbefore.isPrefix hd'.starts hsame).eq_of_length_le
        (hbefore'.isPrefix hd.starts hsame.symm).length_le
      obtain ⟨rfl, rfl, rfl⟩ := hd.unique hd' (List.append_cancel_left hsame)
      rw [ih hrest']

/-! ## Searches -/

/-- Searching on from behind a text finds what searching in the rest of it finds. -/
theorem find?_skip (a t : List Char) :
    g.find? a.length (a ++ t) = (g.find? 0 t).map fun f => { f with before := a ++ f.before } := by
  induction a with
  | nil => cases h : g.find? 0 t <;> simp [h]
  | cons c a ih =>
    rw [List.length_cons, List.cons_append, find?, ih, Option.map_map]
    rfl

/-- A search goes over what is tried without success. -/
theorem find?_of_tries (h : g.Tries s before) :
    g.find? 0 (before ++ s) = (g.find? 0 s).map fun f =>
      { f with before := before ++ f.before } := by
  induction h with
  | nil => cases h : g.find? 0 s <;> simp [h]
  | @char c before h _ ih =>
    have hanchor : g.anchor? (c :: (before ++ s)) = none := by
      by_contra hsome
      obtain ⟨t, ht⟩ := Option.ne_none_iff_exists'.1 hsome
      obtain ⟨a, hs, ha⟩ := anchor?_eq_some_iff.1 ht
      exact h a t hs ha
    simp only [List.cons_append, find?, hanchor, ih, Option.map_map]
    rfl
  | @anchor a before ha h _ ih =>
    have hbody : g.body? (before ++ s) = none := by
      by_contra hsome
      exact h (ha.starts_iff.2 hsome)
    have hanchor : g.anchor? (a ++ (before ++ s)) = some (before ++ s) :=
      anchor?_eq_some_iff.2 ⟨a, rfl, ha⟩
    obtain ⟨c, a, rfl⟩ := List.exists_cons_of_ne_nil ha.ne_nil
    rw [List.cons_append] at hanchor
    have hskip : (a ++ (before ++ s)).length - (before ++ s).length = a.length := by
      rw [List.length_append, Nat.add_sub_cancel]
    simp only [List.append_assoc, List.cons_append, find?, hanchor, hbody, hskip, find?_skip, ih,
      Option.map_map]
    rfl

/-- A directive at the start of a text is the first one that is found. -/
theorem find?_of_directive {raw rest : List Char} (h : g.IsDirective d raw rest) :
    g.find? 0 (raw ++ rest) = some ⟨[], d, raw, rest⟩ := by
  obtain ⟨after, hanchor, hbody⟩ :=
    Option.bind_eq_some_iff.1 (directive?_eq_some_iff.2 ⟨raw, rfl, h⟩)
  rw [find?_of_body? hanchor hbody, List.length_append, Nat.add_sub_cancel, List.take_left]

/-- Every text is tried as far as a directive, or to its end. -/
theorem exists_tries (g : Grammar) (s : List Char) :
    ∃ before after, s = before ++ after ∧ g.Tries after before ∧ (after = [] ∨ g.Starts after) := by
  induction hn : s.length using Nat.strongRecOn generalizing s with
  | _ n ih =>
    by_cases hstarts : g.Starts s
    · exact ⟨[], s, rfl, .nil, .inr hstarts⟩
    cases s with
    | nil => exact ⟨[], [], rfl, .nil, .inl rfl⟩
    | cons c s =>
      by_cases hanchor : ∃ a t, c :: s = a ++ t ∧ g.IsAnchor a
      · obtain ⟨a, t, hs, ha⟩ := hanchor
        have hshorter : t.length < n := by
          have hlength := congrArg List.length hs
          have := List.length_pos_iff.2 ha.ne_nil
          rw [List.length_append] at hlength
          omega
        obtain ⟨before, after, rfl, htries, hafter⟩ := ih _ hshorter t rfl
        rw [hs] at hstarts
        exact ⟨a ++ before, after, by rw [hs, List.append_assoc], .anchor ha hstarts htries, hafter⟩
      · obtain ⟨before, after, rfl, htries, hafter⟩ :=
          ih s.length (by rw [← hn]; exact Nat.lt_succ_self _) s rfl
        exact ⟨c :: before, after, rfl,
          .char (fun a t hs ha => hanchor ⟨a, t, hs, ha⟩) htries, hafter⟩

/-- Every text can be cut at the first directives. -/
theorem exists_cutBy (g : Grammar) (s : List Char) : ∃ segments, g.CutBy g.Tries s segments := by
  induction hn : s.length using Nat.strongRecOn generalizing s with
  | _ n ih =>
    obtain ⟨before, after, rfl, htries, rfl | ⟨d, raw, rest, rfl, hd⟩⟩ := g.exists_tries s
    · exact ⟨_, .text (by rwa [List.append_nil])⟩
    · have hshorter : rest.length < n := by
        have := List.length_pos_iff.2 hd.ne_nil
        simp only [List.length_append] at hn
        omega
      obtain ⟨segments, hrest⟩ := ih _ hshorter rest rfl
      exact ⟨_, .directive htries hd hrest⟩

/-- There is one way to cut a text at the first directives, which is that of its segments. -/
theorem CutBy.eq_segments {segments : List Segment} (h : g.CutBy g.Tries s segments) :
    segments = g.segments s := by
  induction h with
  | @text s h =>
    have hfind := find?_of_tries h
    rw [List.append_nil] at hfind
    exact (segments_eq_nil_or_text hfind).symm
  | @directive before raw rest d segments hbefore hd _ ih =>
    have hfind : g.find? 0 (before ++ (raw ++ rest)) = some ⟨before, d, raw, rest⟩ := by
      rw [find?_of_tries hbefore, find?_of_directive hd, Option.map_some, List.append_nil]
    rw [segments_eq_cons hfind, ih]
    rfl

/-- The segments of a text are those that it is cut into where anchors without a body are gone
over. -/
theorem cutBy_tries_iff {segments : List Segment} : g.CutBy g.Tries s segments ↔
    segments = g.segments s := by
  refine ⟨CutBy.eq_segments, ?_⟩
  rintro rfl
  obtain ⟨segments, h⟩ := g.exists_cutBy s
  rwa [h.eq_segments] at h

/-! ## Anchors in each other -/

/-- A grammar as it is made: its word has word characters only, and is not empty where directives
begin with it. -/
structure IsMade (g : Grammar) : Prop where
  /-- The word has word characters only. -/
  word : ∀ c ∈ g.word, Text.isWord c = true
  /-- The word is not empty where directives begin with it. -/
  ne_nil : g.mode = .includes → g.word ≠ []

/-- A grammar that is made is one of those that words give. -/
theorem isMade_of_make {word mode : String} (h : make word mode = .ok g) : g.IsMade := by
  unfold make at h
  split at h
  · cases h
  · simp only at h
    split at h
    · cases h
    · rename_i hne
      obtain rfl := Except.ok.inj h
      refine ⟨fun c hc => ?_, fun hmode hnil => hne ⟨hmode, hnil⟩⟩
      simp only [wordOf, String.toList_ofList, List.mem_filter] at hc
      exact hc.2

/-- The word of a grammar begins as `include` ends, in some case of letters, and goes on from
there. -/
def Recurs (g : Grammar) : Prop :=
  g.mode = .includes ∧ ∃ head tail lead more shared, "include".toList = head ++ tail ∧
    g.word = lead ++ more ∧
    shared ≠ [] ∧ more ≠ [] ∧ Spells tail shared ∧ Spells lead shared

/-- An anchor that begins with the word of the grammar has one full stop. -/
theorem IsAnchor.exists_stop {a : List Char} (hmade : g.IsMade) (hmode : g.mode = .includes)
    (h : g.IsAnchor a) :
    ∃ x y, a = x ++ '.' :: y ∧ Spells g.word x ∧ Spells "include".toList y ∧ '.' ∉ x ∧ '.' ∉ y := by
  have hinclude : ∀ c ∈ "include".toList, Text.isWord c = true := List.all_eq_true.1 (by decide)
  cases h with
  | word _ h =>
    obtain ⟨x, stop, rfl, hx, hstop⟩ := Text.spells_append_iff.1 h
    cases hstop with
    | cons hc hy =>
      obtain rfl := Text.eq_dot_of_sameLetter hc
      exact ⟨x, _, rfl, hx, hy, hx.notMem hmade.word, Spells.notMem hinclude hy⟩
  | keyword hmode' => cases hmode.symm.trans hmode'
  | marked hmode' => cases hmode.symm.trans hmode'

/-- A full stop and a word character make a body where directives begin with a word. -/
theorem body?_stop {c : Char} (hmode : g.mode = .includes) (hc : Text.isWord c = true) :
    g.body? ('.' :: c :: t) ≠ none := by
  have hskip : Text.skipBlanks ('.' :: c :: t) = '.' :: c :: t := rfl
  simp [body?, hmode, hskip, hc]

/-- A body does not begin with a word character where directives begin with a word. -/
theorem body?_isWord {c : Char} (hmode : g.mode = .includes) (hc : Text.isWord c = true) :
    g.body? (c :: t) = none := by
  have hskip : Text.skipBlanks (c :: t) = c :: t :=
    Text.skipBlanks_eq_self fun c' hc' => by
      obtain rfl : c = c' := Option.some.inj hc'
      exact Text.isBlank_of_isWord hc
  have hstop : c ≠ '.' := by
    rintro rfl
    cases hc
  have hopen : c ≠ '(' := by
    rintro rfl
    cases hc
  unfold body?
  simp only [hmode, hskip]
  split
  · rename_i h
    exact absurd (List.cons.inj h).1 hstop
  · rename_i h
    exact absurd (List.cons.inj h).1 hopen
  · rfl

/-- One of two ways to cut a text ends before a character, or goes on after it. -/
theorem exists_of_append_cons {u p x y : List Char} {c : Char} (h : u ++ p = x ++ c :: y) :
    (∃ q, x = u ++ q ∧ p = q ++ c :: y) ∨ ∃ q, u = x ++ c :: q ∧ y = q ++ p := by
  rcases List.append_eq_append_iff.1 h with ⟨q, hx, hp⟩ | ⟨q, rfl, hq⟩
  · exact .inl ⟨q, hx, hp⟩
  · cases q with
    | nil => exact .inl ⟨[], by simp, hq.symm⟩
    | cons c' q =>
      obtain ⟨rfl, rfl⟩ := List.cons.inj hq
      exact .inr ⟨q, rfl, rfl⟩

/-- The first full stop of a text is in one place. -/
theorem eq_of_stop {x x' y y' : List Char} (hx : '.' ∉ x) (hx' : '.' ∉ x')
    (h : x ++ '.' :: y = x' ++ '.' :: y') :
    x = x' := by
  have hbefore : ∀ {x y : List Char}, '.' ∉ x → (x ++ '.' :: y).takeWhile (· != '.') = x := by
    intro x y hx
    refine (Text.takeWhile_eq_iff (t := '.' :: y).2 ⟨rfl, fun c hc => ?_, fun c hc => ?_⟩).1
    · rw [bne_iff_ne]
      rintro rfl
      exact hx hc
    · cases hc
      rfl
  rw [← hbefore hx, h, hbefore hx']

/-- Where an anchor begins within another one that begins with the word of the grammar, the first
has a body or the word recurs. -/
theorem IsAnchor.starts_or_recurs {u p a r : List Char} (hmade : g.IsMade)
    (hmode : g.mode = .includes) (h : g.IsAnchor (u ++ p)) (hu : u ≠ []) (hp : p ≠ [])
    (ha : g.IsAnchor a) (hs : p ++ t = a ++ r) :
    g.Starts (u ++ p ++ t) ∨ g.Recurs := by
  obtain ⟨x, y, hxy, hx, hy, hxstop, hystop⟩ := h.exists_stop hmade hmode
  obtain ⟨x', y', rfl, hx', hy', hxstop', -⟩ := ha.exists_stop hmade hmode
  rw [List.append_assoc, List.cons_append] at hs
  rcases exists_of_append_cons hxy with ⟨q, rfl, rfl⟩ | ⟨q, rfl, rfl⟩
  · -- The second anchor would have its stop where the first one has it, after a shorter word.
    rw [List.append_assoc, List.cons_append] at hs
    obtain rfl := eq_of_stop (fun h => hxstop (List.mem_append_right _ h)) hxstop' hs
    have hlength := hx.length_eq.symm.trans hx'.length_eq
    rw [List.length_append] at hlength
    exact absurd (List.length_eq_zero_iff.1 (by omega)) hu
  · obtain ⟨head, tail, hsplit, -, htail⟩ := hy.exists_append
    rcases exists_of_append_cons hs with ⟨q', rfl, rfl⟩ | ⟨q', rfl, -⟩
    · obtain ⟨lead, more, hword, hlead, hmore⟩ := hx'.exists_append
      by_cases hnil : more = []
      · -- The second stop follows the first anchor.
        subst hnil
        cases hmore
        cases hy' with
        | cons hc _ => exact .inl (h.starts_iff.2 (body?_stop hmode (Text.isWord_of_sameLetter hc)))
      · exact .inr ⟨hmode, head, tail, lead, more, p, hsplit, hword, hp, hnil, htail, hlead⟩
    · exact absurd (List.mem_append_right _ (List.mem_append_right _ List.mem_cons_self)) hystop

/-- Nothing that begins within `import` is the beginning of an anchor. -/
theorem not_within_import {u p a r : List Char} (hmode : g.mode = .imports)
    (h : Spells "import".toList (u ++ p)) (hu : u ≠ []) (hp : p ≠ []) (ha : g.IsAnchor a) :
    p ++ t ≠ a ++ r := by
  have hletters :
    ("mport".toList.all fun l => !Text.sameLetter l '@' &&
      decide (∀ n ∈ Text.forms l, n ∉ Text.forms 'i')) =
      true := by decide
  have hkeyword : "import".toList = 'i' :: "mport".toList := rfl
  obtain ⟨c, p, rfl⟩ := List.exists_cons_of_ne_nil hp
  -- The character is a letter of the keyword, but not the first one.
  obtain ⟨l, hl, hc⟩ : ∃ l ∈ "mport".toList, Text.sameLetter l c = true := by
    obtain ⟨head, tail, hsplit, hhead, htail⟩ := h.exists_append
    cases htail with
    | @cons l _ tail _ hc _ =>
      refine ⟨l, ?_, hc⟩
      cases hhead with
      | nil => exact absurd rfl hu
      | cons =>
        obtain ⟨-, hrest⟩ := List.cons.inj (hkeyword.symm.trans hsplit)
        rw [hrest]
        exact List.mem_append_right _ List.mem_cons_self
  obtain ⟨hmark, hforms⟩ : Text.sameLetter l '@' = false ∧
      ∀ n ∈ Text.forms l, n ∉ Text.forms 'i' := by
    simpa only [Bool.and_eq_true, Bool.not_eq_true', decide_eq_true_eq]
      using List.all_eq_true.1 hletters l hl
  intro hs
  cases ha with
  | word hmode' => cases hmode.symm.trans hmode'
  | keyword _ ha =>
    rw [hkeyword] at ha
    cases ha with
    | cons hc' _ =>
      obtain ⟨rfl, -⟩ := List.cons.inj hs
      exact hforms _ (Text.sameLetter_iff.1 hc) (Text.sameLetter_iff.1 hc')
  | marked _ _ =>
    obtain ⟨rfl, -⟩ := List.cons.inj hs
    rw [hmark] at hc
    cases hc

/-- Where an anchor begins within another one that is `import`, perhaps after an `@`, both are
followed by the same. -/
theorem IsAnchor.eq_of_imports {u p a r : List Char} (hmode : g.mode = .imports)
    (h : g.IsAnchor (u ++ p)) (hu : u ≠ []) (hp : p ≠ []) (ha : g.IsAnchor a)
    (hs : p ++ t = a ++ r) : r = t := by
  generalize hwhole : u ++ p = whole at h
  cases h with
  | word hmode' => cases hmode.symm.trans hmode'
  | keyword _ h =>
    rw [← hwhole] at h
    exact absurd hs (not_within_import hmode h hu hp ha)
  | @marked keyword _ h =>
    cases u with
    | nil => exact absurd rfl hu
    | cons c u =>
      obtain ⟨rfl, rfl⟩ := List.cons.inj hwhole
      by_cases hnil : u = []
      · subst hnil
        cases ha with
        | word hmode' => cases hmode.symm.trans hmode'
        | keyword _ ha =>
          exact (List.append_inj_right hs (h.length_eq.symm.trans ha.length_eq)).symm
        | marked =>
          rw [show "import".toList = 'i' :: "mport".toList from rfl] at h
          cases h with
          | cons hc _ =>
            obtain ⟨rfl, -⟩ := List.cons.inj hs
            cases hc
      · exact absurd hs (not_within_import hmode h hnil hp ha)

/-- Where a directive begins within an anchor, one begins with the anchor or the word of the grammar
recurs. -/
theorem IsAnchor.starts_of_starts {u p : List Char} (hmade : g.IsMade) (h : g.IsAnchor (u ++ p))
    (hu : u ≠ []) (hp : p ≠ []) (hstarts : g.Starts (p ++ t)) :
    g.Starts (u ++ p ++ t) ∨ g.Recurs := by
  obtain ⟨d, raw, rest, hs, hd⟩ := hstarts
  obtain ⟨ha, hbody⟩ := hd
  rename_i a body
  rw [List.append_assoc] at hs
  cases hmode : g.mode with
  | includes => exact h.starts_or_recurs hmade hmode hu hp ha hs
  | imports =>
    obtain rfl := h.eq_of_imports hmode hu hp ha hs
    rw [h.starts_iff, body?_eq_some_iff.2 ⟨body, rfl, hbody⟩]
    exact .inl (Option.some_ne_none _)

/-- What is tried without success is passed over, if the word of the grammar does not recur. -/
theorem Tries.passes (hmade : g.IsMade) (hrecurs : ¬g.Recurs) (h : g.Tries s before) :
    g.Passes s before := by
  induction h with
  | nil =>
    intro u v huv hv
    exact absurd (List.append_eq_nil_iff.1 huv.symm).2 hv
  | @char c before h _ ih =>
    intro u v huv hv hstarts
    cases u with
    | nil =>
      obtain ⟨d, raw, rest, hs, ha, hbody⟩ := hstarts
      rename_i a body
      exact h a (body ++ rest) (by rw [← List.cons_append, huv, ← List.append_assoc, ← hs]; rfl) ha
    | cons c' u => exact ih u v (List.cons.inj huv).2 hv hstarts
  | @anchor a before ha h _ ih =>
    intro u v huv hv hstarts
    rcases List.append_eq_append_iff.1 huv with ⟨q, rfl, rfl⟩ | ⟨q, rfl, rfl⟩
    · exact ih q v rfl hv hstarts
    · -- The directive begins within the anchor, or with what follows it.
      by_cases hq : q = []
      · subst hq
        exact ih [] before rfl hv hstarts
      · rw [List.append_assoc q] at hstarts
        by_cases hu : u = []
        · subst hu
          exact h hstarts
        · exact (ha.starts_of_starts hmade hu hq hstarts).elim h hrecurs

/-! ## Words that recur -/

/-- If the word of a grammar recurs, there is a text with a directive that begins within an
anchor. -/
theorem exists_of_recurs (hmade : g.IsMade) (h : g.Recurs) :
    ∃ u p t, u ≠ [] ∧ p ≠ [] ∧ g.IsAnchor (u ++ p) ∧
    ¬g.Starts (u ++ (p ++ t)) ∧ g.Starts (p ++ t) := by
  obtain ⟨hmode, head, tail, lead, more, shared, hsplit, hword, hshared, hmore, htail, hlead⟩ := h
  have hstop : ".include".toList = '.' :: (head ++ tail) := by rw [← hsplit]; rfl
  have hanchor : g.IsAnchor (g.word ++ '.' :: head ++ shared) := by
    refine .word hmode ?_
    rw [hstop, List.append_assoc, List.cons_append]
    exact List.rel_append (Text.spells_self _)
      (.cons (Text.sameLetter_self _) (List.rel_append (Text.spells_self _) htail))
  have hanchor' : g.IsAnchor (shared ++ more ++ ".include".toList) := by
    refine .word hmode ?_
    rw [hword]
    exact List.rel_append (List.rel_append hlead (Text.spells_self _)) (Text.spells_self _)
  refine ⟨g.word ++ '.' :: head, shared, more ++ ".include('x')".toList, by simp, hshared,
    hanchor, ?_, ?_⟩
  · obtain ⟨c, more, rfl⟩ := List.exists_cons_of_ne_nil hmore
    have hc : Text.isWord c = true := hmade.word c (by rw [hword]; simp)
    rw [← List.append_assoc, hanchor.starts_iff, List.cons_append, body?_isWord hmode hc]
    exact fun h => h rfl
  · have hbody : g.body? "('x')".toList = some (.file ['x'], []) := by
      simp only [body?, hmode]
      rfl
    have hstarts : g.Starts (shared ++ more ++ ".include".toList ++ "('x')".toList) := by
      rw [hanchor'.starts_iff, hbody]
      exact Option.some_ne_none _
    rw [List.append_assoc, List.append_assoc] at hstarts
    exact hstarts

/-- If the word of a grammar recurs, there is a text that is not cut at its leftmost directives. -/
theorem exists_not_cutBy (hmade : g.IsMade) (h : g.Recurs) :
    ∃ s, ¬g.CutBy g.Passes s (g.segments s) := by
  obtain ⟨u, p, t, hu, hp, hanchor, hnot, hstarts⟩ := exists_of_recurs hmade h
  refine ⟨u ++ (p ++ t), fun hcut => ?_⟩
  have hfind : g.find? 0 (u ++ (p ++ t)) = (g.find? 0 t).map fun f =>
    { f with before := u ++ p ++ f.before } := by
      have htries : g.Tries t (u ++ p ++ []) :=
        .anchor hanchor (by rwa [List.nil_append, List.append_assoc]) .nil
      rw [List.append_nil] at htries
      rw [← List.append_assoc, find?_of_tries htries]
  rcases hcut.cases with ⟨hpasses, -⟩ | ⟨before, d, raw, rest, segments, hs, hbefore, hd,
    -, hsegments⟩
  · refine hpasses u (p ++ t) rfl (List.append_ne_nil_of_left_ne_nil hp t) ?_
    rwa [List.append_nil]
  · have hfront : before <+: u := hbefore.isPrefix hstarts hs.symm
    cases hrest : g.find? 0 t with
    | none =>
      rw [hrest, Option.map_none] at hfind
      rw [segments_eq_nil_or_text hfind] at hsegments
      have hmem : Segment.directive d raw ∈ Segment.ofText before ++ .directive d raw ::
        segments := by simp
      rw [← hsegments] at hmem
      split at hmem <;> simp at hmem
    | some f =>
      rw [hrest, Option.map_some] at hfind
      rw [segments_eq_cons hfind] at hsegments
      have hlength := hfront.length_le
      have := List.length_pos_iff.2 hp
      rw [← Segment.ofText_inj hsegments, List.length_append, List.length_append] at hlength
      omega

/-- The segments of a text are those that it is cut into by going to the next directive again and
again, where the search goes on after each anchor that has no body. They are those that it is cut
into at its leftmost directives, for every text, if and only if the word of the grammar does not
recur. -/
theorem segments_leftmost {word mode : String} (h : make word mode = .ok g) :
    (∀ s segments, g.CutBy g.Tries s segments ↔ segments = g.segments s) ∧
      ((∀ s segments, g.CutBy g.Passes s segments ↔ segments = g.segments s) ↔ ¬g.Recurs) := by
  have hmade := isMade_of_make h
  refine ⟨fun s segments => cutBy_tries_iff, fun hall hrecurs => ?_,
    fun hrecurs s segments => ⟨fun hcut => ?_, ?_⟩⟩
  · obtain ⟨s, hs⟩ := exists_not_cutBy hmade hrecurs
    exact hs ((hall s _).2 rfl)
  · have htries : g.CutBy g.Tries s (g.segments s) := cutBy_tries_iff.2 rfl
    exact ((htries.mono fun _ _ => Tries.passes hmade hrecurs).unique hcut)
  · rintro rfl
    have htries : g.CutBy g.Tries s (g.segments s) := cutBy_tries_iff.2 rfl
    exact htries.mono fun _ _ => Tries.passes hmade hrecurs

namespace Sample

/-- A grammar whose word recurs. -/
def engine : Grammar := ⟨"engine".toList, .includes⟩

/-- A text with a directive that begins within an anchor. -/
def enclosed : List Char := "engine.includengine.include('a')".toList

/-- The word of the sample recurs in itself. -/
theorem recurs_engine : engine.Recurs :=
  ⟨rfl, "includ".toList, "e".toList, "e".toList, "ngine".toList, "e".toList, rfl, rfl,
    by decide, by decide, Text.spells_self _, Text.spells_self _⟩

end Sample

/-- At a word that recurs, not every text is cut at its leftmost directives. -/
theorem segments_leftmost_engine : make "engine" "include" = .ok Sample.engine ∧
    (∀ s segments, Sample.engine.CutBy Sample.engine.Tries s segments ↔
      segments = Sample.engine.segments s) ∧
    ¬∀ s segments, Sample.engine.CutBy Sample.engine.Passes s segments ↔
      segments = Sample.engine.segments s := by
  have hmake : make "engine" "include" = .ok Sample.engine := rfl
  obtain ⟨htries, hpasses⟩ := segments_leftmost hmake
  exact ⟨hmake, htries, fun h => hpasses.1 h Sample.recurs_engine⟩

/-- A text that is one segment, though a directive begins in it. -/
theorem segments_leftmost_fails : make "engine" "include" = .ok Sample.engine ∧
    Sample.engine.CutBy Sample.engine.Passes Sample.enclosed
      [.text "engine.includ".toList, .directive (.file "a".toList) "engine.include('a')".toList] ∧
    Sample.engine.segments Sample.enclosed = [.text Sample.enclosed] := by
  refine ⟨rfl, ?_, ?_⟩
  · have hread : Sample.engine.IsDirective (.file "a".toList) "engine.include('a')".toList [] := by
      obtain ⟨raw, hraw, hd⟩ := directive?_eq_some_iff.1
        (show Sample.engine.directive? "engine.include('a')".toList =
          some (.file "a".toList, []) by decide)
      rw [hraw, List.append_nil]
      exact hd
    have hpasses : Sample.engine.Passes ("engine.include('a')".toList ++ [])
        "engine.includ".toList :=
      passes_of_directive? (by decide)
    exact .directive hpasses hread
      (.text fun u v huv hv => absurd (List.append_eq_nil_iff.1 huv.symm).2 hv)
  · exact segments_of_text (by decide) (by decide)

end Grammar

end StaticSite
