import Mathlib.Data.List.TakeWhile
import StaticSite.Proofs.Markup.Substitute
import StaticSite.Proofs.Text.Front
import StaticSite.Proofs.Text.Search
import StaticSite.Style.Compact

/-!
# What compacting keeps

Comments aside, a compact stylesheet is the stylesheet without blanks and without semicolons before
a closing brace (`compact_outside`). Three of the four rewrites replace parts of a text that hold no
mark of a comment by such parts (`Tightens`), so that they neither make nor break a comment. The
removal of comments keeps what stands outside them only in a text that is `Regular`: its reading of
a comment begins after the first character, goes on in the comments that stay, and puts side by side
what stood around a comment.
-/

namespace StaticSite

open Markup (substitute substitute_of_none substitute_append substitute_append_of_none)

namespace Style

/-! ## What stands outside comments -/

/-- A text without its comments; `inside` tells that one is open. A comment runs from `/*` to the
first `*/` after it, or to the end of the text. -/
def outsideFrom : (inside : Bool) → List Char → List Char
  | false, '/' :: '*' :: s => outsideFrom true s
  | false, c :: s => c :: outsideFrom false s
  | true, '*' :: '/' :: s => outsideFrom false s
  | true, _ :: s => outsideFrom true s
  | _, [] => []

/-- A text without its comments. -/
def outside (s : List Char) : List Char := outsideFrom false s

/-- A text without the semicolons that stand directly before a closing brace. -/
def dropEnds : List Char → List Char
  | [] => []
  | c :: s => if c = ';' ∧ (dropEnds s).head? = some '\x7d' then dropEnds s else c :: dropEnds s

/-- A text without its blanks, and then without the semicolons that stand directly before a closing
brace. -/
def squeeze (s : List Char) : List Char := dropEnds (s.filter fun c => !Text.isBlank c)

variable {inside : Bool} {lead s s' t u v : List Char} {c : Char}

/-- A blank is squeezed out. -/
@[simp] theorem squeeze_of_isBlank (hc : Text.isBlank c = true) : squeeze (c :: s) = squeeze s := by
  simp [squeeze, hc]

/-- Squeezing a text does not look at what stands before it. -/
theorem squeeze_cons (h : squeeze s = squeeze s') : squeeze (c :: s) = squeeze (c :: s') := by
  unfold squeeze at h ⊢
  cases hc : Text.isBlank c <;> simp [hc, dropEnds, h]

/-- Texts that are squeezed alike are so after any other text. -/
theorem squeeze_append (u : List Char) (h : squeeze s = squeeze s') :
    squeeze (u ++ s) = squeeze (u ++ s') := by
  induction u with
  | nil => exact h
  | cons c u ih => exact squeeze_cons ih

/-- A run of blanks is squeezed out. -/
theorem squeeze_blanks (hu : ∀ c ∈ u, Text.isBlank c = true) : squeeze (u ++ s) = squeeze s := by
  induction u with
  | nil => rfl
  | cons c u ih =>
    rw [List.cons_append, squeeze_of_isBlank (hu c List.mem_cons_self),
      ih fun c' hc' => hu c' (List.mem_cons_of_mem c hc')]

/-- A semicolon before the end of a block is squeezed out. -/
theorem squeeze_end : squeeze (';' :: '\x7d' :: s) = squeeze ('\x7d' :: s) := by
  simp [squeeze, Text.isBlank, Text.inRanges, Text.blankRanges, dropEnds]

/-! ## Reading on -/

/-- The character that may be the first of two that open or close a comment. -/
def mark (inside : Bool) : Char := if inside then '*' else '/'

/-- What a reader has taken that may open or close a comment with what follows. -/
def Leads (inside : Bool) (lead : List Char) : Prop := lead = [] ∨ lead = [mark inside]

/-- One character more is read in the same way whatever follows it. -/
theorem outsideFrom_cons (h : Leads inside lead) (c : Char) :
    ∃ out inside' lead', Leads inside' lead' ∧
    ∀ s, outsideFrom inside (lead ++ c :: s) = out ++ outsideFrom inside' (lead' ++ s) := by
  rcases h with rfl | rfl
  · by_cases hc : c = mark inside
    · exact ⟨[], inside, [c], .inr (by rw [hc]), fun s => rfl⟩
    · cases inside with
      | false =>
          exact ⟨[c], false, [], .inl rfl, fun s => by simp [outsideFrom, show c ≠ '/' from hc]⟩
      | true => exact ⟨[], true, [], .inl rfl, fun s => by simp [outsideFrom, show c ≠ '*' from hc]⟩
  · cases inside with
    | false =>
      by_cases hopen : c = '*'
      · exact ⟨[], true, [], .inl rfl, fun s => by simp [mark, outsideFrom, hopen]⟩
      · by_cases hc : c = '/'
        · exact ⟨['/'], false, ['/'], .inr rfl, fun s => by simp [mark, outsideFrom, hc]⟩
        · exact ⟨['/', c], false, [], .inl rfl, fun s => by simp [mark, outsideFrom, hopen, hc]⟩
    | true =>
      by_cases hclose : c = '/'
      · exact ⟨[], false, [], .inl rfl, fun s => by simp [mark, outsideFrom, hclose]⟩
      · by_cases hc : c = '*'
        · exact ⟨[], true, ['*'], .inr rfl, fun s => by simp [mark, outsideFrom, hc]⟩
        · exact ⟨[], true, [], .inl rfl, fun s => by simp [mark, outsideFrom, hclose, hc]⟩

/-- Some characters, none of which is part of what opens or closes a comment. -/
structure Unmarked (u : List Char) : Prop where
  /-- There are some. -/
  ne_nil : u ≠ []
  /-- No character is a slash or an asterisk. -/
  none : ∀ c ∈ u, c ≠ '/' ∧ c ≠ '*'

/-- A character of no mark is unmarked. -/
theorem unmarked_singleton (h : c ≠ '/' ∧ c ≠ '*') : Unmarked [c] := ⟨by simp, by simpa using h⟩

/-- Characters that are no marks are read as they stand. -/
theorem Unmarked.outsideFrom (hu : Unmarked u) (h : Leads inside lead) (s : List Char) :
    Style.outsideFrom inside (lead ++ (u ++ s)) = (if inside then [] else lead ++ u) ++
      Style.outsideFrom inside s := by
  obtain ⟨c, u, rfl⟩ := List.exists_cons_of_ne_nil hu.ne_nil
  obtain ⟨hslash, hstar⟩ := hu.none c List.mem_cons_self
  have hfirst : ∀ t, Style.outsideFrom inside (lead ++ c :: t) =
      (if inside then [] else lead ++ [c]) ++ Style.outsideFrom inside t := by
    intro t
    rcases h with rfl | rfl <;> cases inside <;> simp [Style.outsideFrom, mark, hslash, hstar]
  have hrest : Style.outsideFrom inside (u ++ s) = (if inside then [] else u) ++
      Style.outsideFrom inside s := by
    have hnone : ∀ c ∈ u, c ≠ '/' ∧ c ≠ '*' := fun c hc => hu.none c (List.mem_cons_of_mem _ hc)
    clear hfirst hu
    induction u with
    | nil => cases inside <;> rfl
    | cons c u ih =>
      obtain ⟨hslash, hstar⟩ := hnone c List.mem_cons_self
      have := ih fun c hc => hnone c (List.mem_cons_of_mem _ hc)
      cases inside <;> simp_all [Style.outsideFrom]
  rw [List.cons_append, hfirst, hrest]
  cases inside <;> simp

/-- A text is rewritten so that parts of it without a mark become other such parts, that are the
same but for blanks and semicolons before a closing brace. Blanks at the end go. -/
inductive Tightens : List Char → List Char → Prop where
  /-- Blanks at the end go. -/
  | blanks {u : List Char} (hu : ∀ c ∈ u, Text.isBlank c = true) : Tightens u []
  /-- A character stays. -/
  | char (c : Char) {s s' : List Char} (h : Tightens s s') : Tightens (c :: s) (c :: s')
  /-- A part is replaced. -/
  | part {u v s s' : List Char} (hu : Unmarked u) (hv : Unmarked v)
      (hsame : ∀ t, squeeze (u ++ t) = squeeze (v ++ t))
      (h : Tightens s s') : Tightens (u ++ s) (v ++ s')

/-- A blank is not part of a mark. -/
theorem ne_of_isBlank (hc : Text.isBlank c = true) : c ≠ '/' ∧ c ≠ '*' := by
  constructor <;> rintro rfl <;> cases hc

/-- What stands outside comments stays but for blanks and semicolons before a closing brace. -/
theorem Tightens.outsideFrom (h : Tightens s s') (hlead : Leads inside lead) :
    squeeze (Style.outsideFrom inside (lead ++ s')) =
      squeeze (Style.outsideFrom inside (lead ++ s)) := by
  -- On how the text was tightened, with what the reader has held back as a variable.
  induction h generalizing inside lead with
  | @blanks u hu =>
    by_cases hnil : u = []
    · rw [hnil]
    · have hread := Unmarked.outsideFrom ⟨hnil, fun c hc => ne_of_isBlank (hu c hc)⟩ hlead []
      have hend : Style.outsideFrom inside (lead ++ []) = if inside then [] else lead := by
        rcases hlead with rfl | rfl <;> cases inside <;> rfl
      rw [List.append_nil] at hread
      rw [hread, hend]
      cases inside with
      | false =>
        show squeeze lead = squeeze (lead ++ u ++ [])
        calc squeeze lead
            = squeeze (lead ++ []) := by rw [List.append_nil]
          _ = squeeze (lead ++ (u ++ [])) := squeeze_append lead (squeeze_blanks hu).symm
          _ = squeeze (lead ++ u ++ []) := by rw [List.append_assoc]
      | true => rfl
  | char c _ ih =>
    obtain ⟨out, inside', lead', hlead', hread⟩ := outsideFrom_cons hlead c
    rw [hread, hread]
    exact squeeze_append out (ih hlead')
  | @part u v s s' hu hv hsame _ ih =>
    rw [hu.outsideFrom hlead, hv.outsideFrom hlead]
    have hrest : squeeze (Style.outsideFrom inside s') = squeeze (Style.outsideFrom inside s) :=
      ih (.inl rfl)
    cases inside with
    | true => exact hrest
    | false =>
      simp only [Bool.false_eq_true, if_false, List.append_assoc]
      refine squeeze_append lead ?_
      calc squeeze (v ++ Style.outsideFrom false s')
          = squeeze (v ++ Style.outsideFrom false s) := squeeze_append v hrest
        _ = squeeze (u ++ Style.outsideFrom false s) := (hsame _).symm

/-- A tightened text is the same outside of comments, but for what is squeezed out. -/
theorem Tightens.outside (h : Tightens s s') :
    squeeze (Style.outside s') = squeeze (Style.outside s) :=
  h.outsideFrom (.inl rfl)

/-! ## The rewrites -/

/-- Runs of blanks become one space. -/
theorem tightens_collapseBlanks (s : List Char) : Tightens s (Text.collapseBlanks s) := by
  induction hn : s.length using Nat.strongRecOn generalizing s with
  | _ n ih =>
    cases s with
    | nil => exact .blanks (by simp)
    | cons c s =>
      cases hc : Text.isBlank c with
      | false =>
        have hrest : Text.collapseBlanks (c :: s) = c :: Text.collapseBlanks s := by
          simp [Text.collapseBlanks, Text.collapseFrom, hc]
        rw [hrest]
        exact .char c (ih s.length (by rw [← hn]; exact Nat.lt_succ_self _) s rfl)
      | true =>
        have hrest : Text.collapseBlanks (c :: s) = [' '] ++ Text.collapseBlanks
            (s.dropWhile Text.isBlank) := by
          simp [Text.collapseBlanks, Text.collapseFrom, hc, Text.collapseFrom_true]
        have hblanks : ∀ c' ∈ c :: s.takeWhile Text.isBlank, Text.isBlank c' = true := by
          intro c' hc'
          rcases List.mem_cons.1 hc' with rfl | hc'
          · exact hc
          · exact List.mem_takeWhile_imp hc'
        have hparts : c :: s = (c :: s.takeWhile Text.isBlank) ++ s.dropWhile Text.isBlank := by
          rw [List.cons_append, List.takeWhile_append_dropWhile]
        have hle := (List.dropWhile_sublist Text.isBlank (l := s)).length_le
        rw [hrest, hparts]
        refine .part ⟨List.cons_ne_nil _ _, fun c' hc' => ne_of_isBlank (hblanks c' hc')⟩
          (unmarked_singleton (by decide))
          (fun t => ?_) (ih _ ?_ _ rfl)
        · rw [squeeze_blanks hblanks]
          exact (squeeze_of_isBlank rfl).symm
        · rw [List.length_cons] at hn
          omega

/-- At most one space. -/
def IsGap (u : List Char) : Prop := u = [] ∨ u = [' ']

/-- A text is a gap and what comes after it. -/
theorem exists_afterSpace (s : List Char) : ∃ u, IsGap u ∧ s = u ++ afterSpace s := by
  unfold afterSpace
  split
  · exact ⟨[' '], .inr rfl, rfl⟩
  · exact ⟨[], .inl rfl, rfl⟩

/-- The rule for separators drops the gaps around one. -/
theorem exists_of_separatorRule {new : List Char} {width : Nat}
    (h : separatorRule s = some (new, width)) :
    ∃ d before after rest, isSeparator d = true ∧ IsGap before ∧ IsGap after ∧
      s = (before ++ d :: after) ++ rest ∧
      new = [d] ∧ width = (before ++ d :: after).length := by
  obtain ⟨before, hbefore, hs⟩ := exists_afterSpace s
  unfold separatorRule at h
  split at h
  · rename_i d rest hrest
    split at h
    · rename_i hd
      obtain ⟨rfl, rfl⟩ := Prod.mk.inj (Option.some.inj h)
      obtain ⟨after, hafter, hrest'⟩ := exists_afterSpace rest
      have hparts : s = (before ++ d :: after) ++ afterSpace rest := by
        rw [hs, hrest, List.append_assoc, List.cons_append, ← hrest']
      refine ⟨d, before, after, afterSpace rest, hd, hbefore, hafter, hparts, rfl, ?_⟩
      rw [hparts, List.length_append, Nat.add_sub_cancel]
    · cases h
  · cases h

/-- Spaces next to a separator go. -/
theorem tightens_separators (s : List Char) : Tightens s (substitute separatorRule s) := by
  -- On the length, as the rule may take more than one character at once.
  induction hn : s.length using Nat.strongRecOn generalizing s with
  | _ n ih =>
    cases hrule : separatorRule s with
    | none =>
      cases s with
      | nil => exact .blanks (by simp)
      | cons c s =>
        rw [substitute_of_none hrule]
        exact .char c (ih s.length (by rw [← hn]; exact Nat.lt_succ_self _) s rfl)
    | some replaced =>
      obtain ⟨new, width⟩ := replaced
      obtain ⟨d, before, after, rest, hd, hbefore, hafter, rfl, rfl, rfl⟩ :=
        exists_of_separatorRule hrule
      have hmarks : d ≠ '/' ∧ d ≠ '*' := by
        constructor <;> rintro rfl <;> cases hd
      have hgap : ∀ {u : List Char}, IsGap u → ∀ c ∈ u, Text.isBlank c = true := by
        rintro u (rfl | rfl) c hc
        · cases hc
        · rw [List.mem_singleton.1 hc]
          rfl
      rw [substitute_append (by simp) hrule]
      refine .part ⟨by simp, fun c hc => ?_⟩ (unmarked_singleton hmarks) (fun t => ?_)
        (ih _ ?_ _ rfl)
      · rcases List.mem_append.1 hc with hc | hc
        · exact ne_of_isBlank (hgap hbefore c hc)
        · rcases List.mem_cons.1 hc with rfl | hc
          · exact hmarks
          · exact ne_of_isBlank (hgap hafter c hc)
      · rw [List.append_assoc, squeeze_blanks (hgap hbefore)]
        exact squeeze_cons (squeeze_blanks (hgap hafter))
      · simp only [List.length_append, List.length_cons] at hn
        omega

/-- A semicolon before a closing brace goes. -/
theorem tightens_ends (s : List Char) : Tightens s (Text.replaceAll [';', '\x7d'] ['\x7d'] s) := by
  induction hn : s.length using Nat.strongRecOn generalizing s with
  | _ n ih =>
    cases s with
    | nil => exact .blanks (by simp)
    | cons c s =>
      by_cases hend : [';', '\x7d'] <+: c :: s
      · obtain ⟨rest, hrest⟩ := hend
        have hreplace : Text.replaceAll [';', '\x7d'] ['\x7d'] ([';', '\x7d'] ++ rest) =
            ['\x7d'] ++ Text.replaceAll [';', '\x7d'] ['\x7d'] rest := by
          simp [Text.replaceAll, Text.replaceFrom]
        have hshorter : rest.length < n := by
          rw [← hn, ← hrest]
          simp only [List.length_append, List.length_cons]
          omega
        rw [← hrest, hreplace]
        exact .part ⟨by simp, by simp⟩ (unmarked_singleton (by decide)) (fun t => squeeze_end)
          (ih _ hshorter rest rfl)
      · have hreplace : Text.replaceAll [';', '\x7d'] ['\x7d'] (c :: s) =
            c :: Text.replaceAll [';', '\x7d'] ['\x7d'] s := by
          have hfront : [';', '\x7d'].isPrefixOf (c :: s) = false := by
            rw [Bool.eq_false_iff]
            exact fun h => hend (List.isPrefixOf_iff_prefix.1 h)
          simp only [Text.replaceAll, Text.replaceFrom, hfront, Bool.false_eq_true, if_false]
        rw [hreplace]
        exact .char c (ih s.length (by rw [← hn]; exact Nat.lt_succ_self _) s rfl)

/-- Blanks at the end of a text can be tightened away. -/
theorem tightens_append (s : List Char) (hu : ∀ c ∈ u, Text.isBlank c = true) :
    Tightens (s ++ u) s := by
  induction s with
  | nil => exact .blanks hu
  | cons c s ih => exact .char c ih

/-- Blanks at either end go. -/
theorem squeeze_outside_trim (s : List Char) :
    squeeze (outside (Text.trim s)) = squeeze (outside s) := by
  have hfront : squeeze (outside (Text.skipBlanks s)) = squeeze (outside s) := by
    have hblanks : ∀ c ∈ s.takeWhile Text.isBlank, Text.isBlank c = true :=
      fun c hc => List.mem_takeWhile_imp hc
    have hparts : s.takeWhile Text.isBlank ++ Text.skipBlanks s = s :=
      List.takeWhile_append_dropWhile
    by_cases hnil : s.takeWhile Text.isBlank = []
    · rw [hnil, List.nil_append] at hparts
      rw [hparts]
    · have hread : outsideFrom false ([] ++ (s.takeWhile Text.isBlank ++ Text.skipBlanks s)) = _ :=
        Unmarked.outsideFrom ⟨hnil, fun c hc => ne_of_isBlank (hblanks c hc)⟩ (.inl rfl)
          (Text.skipBlanks s)
      rw [List.nil_append, hparts] at hread
      unfold outside
      rw [hread]
      exact (squeeze_blanks hblanks).symm
  have hend : squeeze (outside (Text.dropTrailingBlanks (Text.skipBlanks s))) =
      squeeze (outside (Text.skipBlanks s)) := by
    generalize Text.skipBlanks s = s
    have hparts : Text.dropTrailingBlanks s ++ (s.reverse.takeWhile Text.isBlank).reverse = s := by
      rw [Text.dropTrailingBlanks, ← List.reverse_append, Text.skipBlanks,
        List.takeWhile_append_dropWhile, List.reverse_reverse]
    have htightens :=
      tightens_append (Text.dropTrailingBlanks s) (u := (s.reverse.takeWhile Text.isBlank).reverse)
        fun c hc => List.mem_takeWhile_imp (List.mem_reverse.1 hc)
    rw [hparts] at htightens
    exact htightens.outside
  exact hend.trans hfront

/-- What follows the removal of comments keeps what stands outside them. -/
theorem squeeze_outside_compact (s : List Char) :
    squeeze (outside (compact s)) = squeeze (outside (substitute commentRule s)) := by
  unfold compact
  simp only
  generalize substitute commentRule s = s
  calc squeeze (outside (Text.trim (Text.replaceAll [';', '\x7d'] ['\x7d']
        (substitute separatorRule (Text.collapseBlanks s)))))
      = squeeze
          (outside
            (Text.replaceAll [';', '\x7d'] ['\x7d']
              (substitute separatorRule (Text.collapseBlanks s)))) :=
        squeeze_outside_trim _
    _ = squeeze (outside (substitute separatorRule (Text.collapseBlanks s))) :=
      (tightens_ends _).outside
    _ = squeeze (outside (Text.collapseBlanks s)) := (tightens_separators _).outside
    _ = squeeze (outside s) := (tightens_collapseBlanks s).outside

/-! ## The removal of comments -/

/-- What closes a comment. -/
def close : List Char := ['*', '/']

/-- A comment is removed that begins at the front of a text, if one begins there: it does not begin
with an exclamation mark, and is closed after its first character. -/
def Goes (s : List Char) : Prop := ∃ c t, s = '/' :: '*' :: c :: t ∧ c ≠ '!' ∧ close <:+: t

/-- A text whose comments are removed as they stand; `slash` tells that a slash stands before it
outside comments, if only by their removal. -/
inductive Regular : (slash : Bool) → List Char → Prop where
  /-- The text ends. -/
  | nil {slash : Bool} : Regular slash []
  /-- A character outside comments, which does not come to open a comment by the removal of
  others. -/
  | char {slash : Bool} {c : Char} {s : List Char} (hopens : ∀ t, c :: s ≠ '/' :: '*' :: t)
      (hjoins : slash = true → c ≠ '*')
      (h : Regular (c == '/') s) : Regular slash (c :: s)
  /-- A comment that is removed. It is not empty. -/
  | removed {slash : Bool} {c : Char} {body s : List Char} (hmarked : c ≠ '!')
      (hclosed : ¬close <:+: c :: body)
      (h : Regular slash s) : Regular slash ('/' :: '*' :: c :: (body ++ (close ++ s)))
  /-- A comment that stays. None that would be removed begins in it. -/
  | kept {slash : Bool} {body s : List Char} (hclosed : ¬close <:+: '!' :: body)
      (hinside : ∀ v, v <:+ '!' :: (body ++ close) → v ≠ [] → ¬Goes (v ++ s))
        (h : Regular false s) :
      Regular slash ('/' :: '*' :: '!' :: (body ++ (close ++ s)))
  /-- An empty comment, after which no comment is closed. -/
  | empty {slash : Bool} {s : List Char} (h : ¬close <:+: s) : Regular slash
      ('/' :: '*' :: (close ++ s))
  /-- A comment that is not closed. -/
  | unclosed {slash : Bool} {s : List Char} (h : ¬close <:+: s) : Regular slash ('/' :: '*' :: s)

/-- The rule for comments does not apply if and only if no comment goes here. -/
theorem commentRule_eq_none_iff : commentRule s = none ↔ ¬Goes s := by
  constructor
  · rintro hrule ⟨c, t, rfl, hc, hclose⟩
    have hcut : Text.cut? ['*', '/'] t = none := by simpa [commentRule, hc] using hrule
    exact Text.cut?_eq_none_iff.1 hcut hclose
  · intro hgoes
    unfold commentRule
    split
    · rename_i c t
      split
      · rfl
      · rename_i hc
        have hcut : Text.cut? ['*', '/'] t = none :=
          Text.cut?_eq_none_iff.2 fun hclose => hgoes ⟨c, t, rfl, by simpa using hc, hclose⟩
        rw [hcut, Option.map_none]
    · rfl

/-- A mark that closes is in a text with an asterisk after it only if it is in the text. -/
theorem close_infix_of_concat (h : close <:+: s ++ ['*']) : close <:+: s := by
  obtain ⟨u, v, huv⟩ := h
  rcases List.eq_nil_or_concat v with rfl | ⟨v, c, rfl⟩
  · rw [List.append_nil, close, show u ++ ['*', '/'] = (u ++ ['*']) ++ ['/'] by simp] at huv
    cases (List.append_inj' huv rfl).2
  · rw [List.concat_eq_append, ← List.append_assoc] at huv
    exact ⟨u, v, (List.append_inj' huv rfl).1⟩

/-- A comment that is not empty is cut at its end. -/
theorem commentRule_removed {body : List Char} (hc : c ≠ '!') (hclosed : ¬close <:+: body) :
    commentRule ('/' :: '*' :: c :: (body ++ (close ++ s))) =
      some ([], ('/' :: '*' :: c :: (body ++ close)).length) := by
  have hcut : Text.cut? close (body ++ (close ++ s)) = some (body, s) := by
    rw [Text.cut?_eq_some_iff (by simp [close])]
    refine ⟨(List.append_assoc ..).symm, fun h => hclosed (close_infix_of_concat ?_)⟩
    rwa [close, List.dropLast_append_of_ne_nil (by simp)] at h
  rw [close] at hcut ⊢
  simp only [commentRule, hcut]
  simp [hc]
  omega

/-- A comment is left at its first close. -/
theorem outsideFrom_close {body : List Char} (h : ¬close <:+: body) (s : List Char) :
    outsideFrom true (body ++ (close ++ s)) = outside s := by
  induction body with
  | nil => rfl
  | cons c body ih =>
    rw [List.infix_cons_iff, not_or] at h
    have hfirst : ∀ t, c :: (body ++ (close ++ s)) ≠ '*' :: '/' :: t := by
      intro t ht
      obtain ⟨rfl, hrest⟩ := List.cons.inj ht
      cases body with
      | nil => cases hrest
      | cons c' body =>
        obtain ⟨rfl, -⟩ := List.cons.inj hrest
        exact h.1 ⟨body, rfl⟩
    rw [List.cons_append, outsideFrom, ih h.2]
    exact fun t hc ht => hfirst t (by rw [hc, ht])

/-- The slash that stands before a text. -/
def before (slash : Bool) : List Char := if slash then ['/'] else []

/-- The start of a comment leads into it. -/
theorem outsideFrom_open (slash : Bool) (s : List Char) :
    outsideFrom false (before slash ++ '/' :: '*' :: s) = before slash ++ outsideFrom true s := by
  cases slash <;> rfl

/-- No comment is removed that begins in a part of a text after which none is closed. -/
theorem not_goes_of_suffix (hv : v <:+ s) (ht : t <:+ s) (hlength : s.length ≤ t.length + 3)
    (h : ¬close <:+: t) :
    ¬Goes v := by
  rintro ⟨c, rest, rfl, -, hclose⟩
  have hrest : rest <:+ s := (List.suffix_append ['/', '*', c] rest).trans hv
  have hle := hv.length_le
  simp only [List.length_cons] at hle
  exact h (hclose.trans (List.suffix_of_suffix_length_le hrest ht (by omega)).isInfix)

/-- A text in which no comment goes anywhere is kept. -/
theorem substitute_eq_self (h : ∀ v, v <:+ s → ¬Goes v) : substitute commentRule s = s := by
  have hstays : substitute commentRule (s ++ []) = s ++ substitute commentRule [] :=
    substitute_append_of_none fun v hv _ => by
      rw [List.append_nil]
      exact commentRule_eq_none_iff.2 (h v hv)
  rw [List.append_nil] at hstays
  rw [hstays]
  exact List.append_nil s

/-- The removal of comments keeps what stands outside them in a regular text. -/
theorem Regular.outside_substitute {slash : Bool} (h : Regular slash s) :
    outsideFrom false (before slash ++ substitute commentRule s) = before slash ++ outside s := by
  induction h with
  | @nil slash => cases slash <;> rfl
  | @char slash c s hopens hjoins _ ih =>
    have hnone : commentRule (c :: s) = none :=
      commentRule_eq_none_iff.2 fun ⟨c', t, hs, _⟩ => hopens (c' :: t) hs
    have hread : outside (c :: s) = c :: outside s := by
      rw [outside, outsideFrom, outside]
      exact fun t hc hs => hopens t (by rw [hc, hs])
    rw [substitute_of_none hnone, hread]
    -- A slash is held back, since what comes next may open a comment with it.
    by_cases hc : c = '/'
    · subst hc
      cases slash with
      | false => exact ih
      | true =>
        show '/' :: outsideFrom false ('/' :: substitute commentRule s) = _
        exact congrArg _ ih
    · have hslash : (c == '/') = false := by simpa using hc
      have hrest : outsideFrom false (c :: substitute commentRule s) = c :: outside s := by
        rw [hslash] at ih
        rw [outsideFrom]
        · exact congrArg _ ih
        · exact fun _ hc' => absurd hc' hc
      cases slash with
      | false => exact hrest
      | true =>
        show outsideFrom false ('/' :: c :: substitute commentRule s) = '/' :: c :: outside s
        rw [outsideFrom, hrest]
        intro t _ hs
        exact hjoins rfl (List.cons.inj hs).1
  | @removed slash c body s hmarked hclosed _ ih =>
    -- The rule takes the comment away, and the reader skips it.
    have hrule :=
      commentRule_removed (s := s) hmarked fun h =>
        hclosed (h.trans (List.suffix_cons c body).isInfix)
    have hparts : '/' :: '*' :: c :: (body ++ (close ++ s)) =
      ('/' :: '*' :: c :: (body ++ close)) ++ s := by simp
    have hread : outside ('/' :: '*' :: c :: (body ++ (close ++ s))) = outside s :=
      outsideFrom_close hclosed s
    rw [hread, ← ih]
    rw [hparts] at hrule ⊢
    rw [substitute_append (by simp) hrule, List.nil_append]
  | @kept slash body s hclosed hinside _ ih =>
    -- No comment that goes begins in one that stays.
    have hstays : substitute commentRule (('/' :: '*' :: '!' :: (body ++ close)) ++ s) =
        '/' :: '*' :: ('!' :: body ++ (close ++ substitute commentRule s)) := by
      rw [substitute_append_of_none fun v hv hne => commentRule_eq_none_iff.2 ?_]
      · simp
      · rcases List.suffix_cons_iff.1 hv with rfl | hv
        · rintro ⟨c, t, hs, hc, -⟩
          obtain ⟨rfl, -⟩ := List.cons.inj (List.cons.inj (List.cons.inj hs).2).2
          exact hc rfl
        · rcases List.suffix_cons_iff.1 hv with rfl | hv
          · rintro ⟨c, t, hs, -, -⟩
            cases hs
          · exact hinside v hv hne
    have hparts : '/' :: '*' :: '!' :: (body ++ (close ++ s)) =
      ('/' :: '*' :: '!' :: (body ++ close)) ++ s := by simp
    have hread : outside ('/' :: '*' :: '!' :: (body ++ (close ++ s))) = outside s :=
      outsideFrom_close hclosed s
    rw [hread, hparts, hstays, outsideFrom_open, outsideFrom_close hclosed]
    exact congrArg _ ih
  | @empty slash s h =>
    -- The end that follows at once does not count, and there is no other.
    have hself : substitute commentRule ('/' :: '*' :: (close ++ s)) =
        '/' :: '*' :: (close ++ s) := by
      refine substitute_eq_self fun v hv =>
        not_goes_of_suffix hv (t := '/' :: s) ?_ (Nat.le_refl _) ?_
      · exact List.suffix_append ['/', '*', '*'] ('/' :: s)
      · rw [List.infix_cons_iff, not_or]
        exact ⟨fun hfront => absurd (List.cons_prefix_cons.1 hfront).1 (by decide), h⟩
    rw [hself, outsideFrom_open]
    rfl
  | @unclosed slash s h =>
    -- Without an end nothing is taken away, and the reader never leaves the comment.
    have hself : substitute commentRule ('/' :: '*' :: s) = '/' :: '*' :: s :=
      substitute_eq_self fun v hv =>
        not_goes_of_suffix hv (List.suffix_append ['/', '*'] s) (by simp) h
    rw [hself, outsideFrom_open]
    rfl

/-- A compact stylesheet keeps what stands outside comments once these are removed, but for blanks
and for semicolons before a closing brace. In a regular text this is what stands outside its
comments. -/
theorem compact_outside (s : List Char) :
    squeeze (outside (compact s)) = squeeze (outside (substitute commentRule s)) ∧
    (Regular false s → squeeze (outside (compact s)) = squeeze (outside s)) := by
  refine ⟨squeeze_outside_compact s, fun h => ?_⟩
  rw [squeeze_outside_compact]
  exact congrArg squeeze h.outside_substitute

/-- A text without marks is regular. -/
theorem regular_of_notMem {slash : Bool} (hslash : '/' ∉ s) (hstar : '*' ∉ s) :
    Regular slash s := by
  induction s generalizing slash with
  | nil => exact .nil
  | cons c s ih =>
    rw [List.mem_cons, not_or] at hslash hstar
    exact .char (fun t ht => hslash.1 (List.cons.inj ht).1.symm) (fun _ => Ne.symm hstar.1)
      (ih hslash.2 hstar.2)

namespace Sample

/-- A stylesheet with a comment that stays, one that goes, and a rule. -/
def banner : List Char := "/*! keep */\n/* drop */\nbody \x7b\n  color : red ;\n\x7d".toList

/-- The banner of the sample is regular. -/
theorem regular_banner : Regular false banner := by
  have hinside : ∀ v ∈ "! keep */".toList.tails, v ≠ [] →
      commentRule (v ++ "\n/* drop */\nbody \x7b\n  color : red ;\n\x7d".toList) = none := by decide
  show Regular false ('/' :: '*' :: '!' :: (" keep ".toList ++ (close ++ _)))
  refine .kept (by decide) (fun v hv hne => ?_) ?_
  · exact commentRule_eq_none_iff.1 (hinside v ((List.mem_tails _ _).2 hv) hne)
  · refine .char (fun t ht => by cases ht) (fun h => by cases h) ?_
    show Regular _ ('/' :: '*' :: ' ' :: ("drop ".toList ++ (close ++ _)))
    refine .removed (by decide) (by decide) ?_
    exact regular_of_notMem (by decide) (by decide)

end Sample

/-- A regular stylesheet keeps its rule. -/
theorem compact_outside_sheet : Regular false Sample.banner ∧
    squeeze (outside (compact Sample.banner)) = squeeze (outside Sample.banner) ∧
    squeeze (outside Sample.banner) = "body\x7bcolor:red\x7d".toList :=
  ⟨Sample.regular_banner, (compact_outside Sample.banner).2 Sample.regular_banner, by decide⟩

/-- A rule between an empty comment and the next one is lost. -/
theorem compact_loses_rule :
    squeeze (outside "/**/a\x7b\x7d/* x */".toList) = "a\x7b\x7d".toList ∧
      compact "/**/a\x7b\x7d/* x */".toList = [] := by
  decide

end Style

end StaticSite
