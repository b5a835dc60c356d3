import Mathlib.Data.List.Infix
import StaticSite.Markup.Minify
import StaticSite.Proofs.Text.Front
import StaticSite.Proofs.Text.Letter

/-!
# Protected elements

A page is cut into markup and protected elements in one way (`cuts_pieces`, `Cuts.eq_pieces`): an
element ends with the first closing tag of its name, and none begins in the markup before it. That
an element is found whatever follows it (`exists_of_afterProtected?`) rests on the names: they are
written with characters that are neither blank nor a mark of a tag, in whatever form
(`isSolid_lower`), so that the only `>` of a closing tag is its last character.
-/

namespace StaticSite.Markup

open Text (Spells AllBlank)

variable {s t u v w rest name tag : List Char} {c : Char}

/-! ## The characters of names -/

/-- The codes of the blanks and of the marks of a tag. -/
def gapCodes : List Nat :=
  [0x3C, 0x3E] ++ Text.blankRanges.flatMap fun r => List.range' r.1 (r.2 + 1 - r.1)

/-- A character is neither blank nor a mark of a tag. -/
def isSolid (c : Char) : Bool := !gapCodes.contains c.toNat

/-- The codes of gaps are those of brackets and blanks. -/
theorem mem_gapCodes_iff : c.toNat ∈ gapCodes ↔ c = '<' ∨ c = '>' ∨ Text.isBlank c = true := by
  have hblank : c.toNat ∈ Text.blankRanges.flatMap (fun r => List.range' r.1 (r.2 + 1 - r.1)) ↔
      Text.isBlank c = true := by
    simp only [Text.isBlank, Text.inRanges_iff, List.mem_flatMap, List.mem_range'_1]
    refine exists_congr fun r => and_congr_right fun _ => and_congr_right fun hle => ?_
    omega
  have hmark : ∀ d : Char, c.toNat = d.toNat ↔ c = d := fun d => Char.toNat_inj
  rw [gapCodes, List.mem_append, hblank, List.mem_cons, List.mem_singleton,
    show 0x3C = '<'.toNat from rfl, show 0x3E = '>'.toNat from rfl, hmark, hmark, or_assoc]

/-- A character is solid if it is neither a bracket nor blank. -/
theorem isSolid_iff : isSolid c = true ↔ c ≠ '<' ∧ c ≠ '>' ∧ Text.isBlank c = false := by
  rw [isSolid, Bool.not_eq_true', List.contains_eq_mem, decide_eq_false_iff_not, mem_gapCodes_iff,
    not_or, not_or, Bool.not_eq_true]

/-- Letter case keeps blanks and marks apart from other characters. -/
theorem isSolid_lower (c : Char) : isSolid (Text.lower c) = isSolid c := by
  by_cases hc : c.toNat < 128
  · exact Text.of_toNat_lt (P := fun c => isSolid (Text.lower c) = isSolid c) (by decide +kernel) hc
  · have hruns : ∀ r ∈ Text.capitalRuns, ∀ n ∈ gapCodes,
      ¬(r.2.2.2 ≤ n ∧ n ≤ r.2.2.2 + (r.2.1 - r.1)) := by decide +kernel
    have hself : ∀ n ∈ gapCodes, (Text.lower (Char.ofNat n)).toNat = n := by decide +kernel
    have hiff : (Text.lower c).toNat ∈ gapCodes ↔ c.toNat ∈ gapCodes := by
      constructor
      · intro h
        have hne : (Text.lower c).toNat ≠ 0 := fun h0 => absurd (h0 ▸ h) (by decide)
        rcases Text.toNat_of_lower (by omega) hne with heq | ⟨r, hr, hle, hle', -⟩
        · rwa [heq]
        · exact absurd ⟨hle, hle'⟩ (hruns r hr _ h)
      · intro h
        have := hself _ h
        rw [Char.ofNat_toNat] at this
        rwa [this]
    simp only [isSolid, List.contains_eq_mem, hiff]

/-- What a solid word is in other cases is solid. -/
theorem solid_of_map_lower (h : s.map Text.lower = t.map Text.lower)
    (ht : ∀ c ∈ t, isSolid c = true) :
    ∀ c ∈ s, isSolid c = true := by
  intro c hc
  have hmem : Text.lower c ∈ t.map Text.lower := h ▸ List.mem_map_of_mem hc
  obtain ⟨d, hd, heq⟩ := List.mem_map.1 hmem
  rw [← isSolid_lower, ← heq, isSolid_lower]
  exact ht d hd

/-- Every form of every letter of a word is solid. -/
def IsSolidWord (word : List Char) : Prop :=
  ∀ l ∈ word, ∀ n ∈ Text.forms l, isSolid (Char.ofNat n) = true

-- The instance is named, since there is one too that goes through all characters.
instance (word : List Char) : Decidable (IsSolidWord word) :=
  List.decidableBAll (fun l => ∀ n ∈ Text.forms l, isSolid (Char.ofNat n) = true) word

/-- A letter that is the same as one of a solid word is solid. -/
theorem IsSolidWord.solid_of_sameLetter {l : Char} (hname : IsSolidWord name) (hl : l ∈ name)
    (h : Text.sameLetter l c = true) : isSolid c = true := by
  have hform := hname l hl _ (Text.sameLetter_iff.1 h)
  rwa [Char.ofNat_toNat, isSolid_lower] at hform

/-- What spells a solid word is solid. -/
theorem IsSolidWord.solid_of_spells (hname : IsSolidWord name) (h : Spells name s) :
    ∀ c ∈ s, isSolid c = true := by
  induction h with
  | nil => simp
  | cons hletter _ ih =>
    refine List.forall_mem_cons.2 ⟨hname.solid_of_sameLetter List.mem_cons_self hletter, ?_⟩
    exact ih (List.forall_mem_cons.1 hname).2

/-- The names of protected elements are solid words. -/
theorem isSolidWord_of_mem_protectedNames (h : name ∈ protectedNames) : IsSolidWord name := by
  revert name
  decide +kernel

/-- No text spells two of the protected names. -/
theorem eq_of_spells {name' tag' rest' : List Char} (hname : name ∈ protectedNames)
    (hname' : name' ∈ protectedNames) (h : Spells name tag) (h' : Spells name' tag')
    (heq : tag ++ rest = tag' ++ rest') : name = name' := by
  have hdiffer : ∀ name ∈ protectedNames, ∀ name' ∈ protectedNames, name ≠ name' →
      ∃ p ∈ name.zip name', ∀ n ∈ Text.forms p.1, n ∉ Text.forms p.2 := by decide +kernel
  have hcommon : ∀ p ∈ name.zip name', ∃ n ∈ Text.forms p.1, n ∈ Text.forms p.2 := by
    clear hname hname' hdiffer
    induction h generalizing name' tag' with
    | nil => simp
    | @cons l c name tag hletter _ ih =>
      cases h' with
      | nil => simp
      | @cons l' c' name' tag' hletter' h' =>
        obtain ⟨rfl, hrest⟩ := List.cons.inj heq
        exact List.forall_mem_cons.2
          ⟨⟨_, Text.sameLetter_iff.1 hletter, Text.sameLetter_iff.1 hletter'⟩, ih h' hrest⟩
  by_contra hne
  obtain ⟨p, hp, hdisjoint⟩ := hdiffer name hname name' hname' hne
  obtain ⟨n, hn, hn'⟩ := hcommon p hp
  exact hdisjoint n hn hn'

/-! ## Closing tags -/

/-- How the closing tag of an element is written. -/
inductive IsClosing (name : List Char) : List Char → Prop where
  /-- The name in either case, and perhaps blanks. -/
  | intro {n blanks : List Char} (hname : n.map Text.lower = name.map Text.lower)
      (hblanks : AllBlank blanks) :
      IsClosing name ('<' :: '/' :: (n ++ (blanks ++ ['>'])))

/-- The rest of a text that begins with a closing tag. -/
def closingAt? (name s : List Char) : Option (List Char) :=
  (Text.after? ['<', '/'] s).bind fun rest =>
    (afterLowered? name rest).bind fun rest =>
      match Text.skipBlanks rest with
      | '>' :: rest => some rest
      | _ => none

/-- The end of an element is searched for from the next character on if it is not here. -/
theorem afterClosing?_cons (name : List Char) (c : Char) (s : List Char) :
    afterClosing? name (c :: s) = (closingAt? name (c :: s)).or (afterClosing? name s) := by
  rw [afterClosing?]
  split
  · next rest hat =>
    have hat : closingAt? name (c :: s) = some rest := hat
    rw [hat, Option.some_or]
  · next hat =>
    have hat : closingAt? name (c :: s) = none := hat
    rw [hat, Option.none_or]

/-- A word that is compared in lower case is found where the text begins with it in any case. -/
theorem afterLowered?_eq_some_iff :
    afterLowered? name s = some rest ↔ ∃ n, n.map Text.lower = name.map Text.lower ∧
      s = n ++ rest := by
  induction name generalizing s with
  | nil => simp [afterLowered?]
  | cons l name ih =>
    cases s with
    | nil =>
      simp only [afterLowered?, reduceCtorEq, false_iff]
      rintro ⟨n, hn, hs⟩
      rw [(List.append_eq_nil_iff.1 hs.symm).1] at hn
      cases hn
    | cons c s =>
      simp only [afterLowered?, beq_iff_eq, List.map_cons]
      constructor
      · intro h
        split at h
        · rename_i hc
          obtain ⟨n, hn, rfl⟩ := ih.1 h
          exact ⟨c :: n, by rw [List.map_cons, hn, hc], rfl⟩
        · cases h
      · rintro ⟨n, hn, hs⟩
        cases n with
        | nil => cases hn
        | cons d n =>
          obtain ⟨rfl, rfl⟩ := List.cons.inj hs
          obtain ⟨hc, hn⟩ := List.cons.inj hn
          rw [if_pos hc.symm]
          exact ih.2 ⟨n, hn, rfl⟩

/-- An end tag is found where the text begins with it. -/
theorem closingAt?_eq_some_iff : closingAt? name s = some rest ↔ ∃ w, IsClosing name w ∧
    s = w ++ rest := by
  simp only [closingAt?, Option.bind_eq_some_iff, Text.after?_eq_some_iff,
    afterLowered?_eq_some_iff]
  constructor
  · rintro ⟨_, rfl, _, ⟨n, hn, rfl⟩, hskip⟩
    split at hskip
    · rename_i hskipped
      obtain ⟨-, blanks, hblanks, rfl⟩ := Text.skipBlanks_eq_cons_iff.1 hskipped
      cases hskip
      exact ⟨_, .intro hn hblanks, by simp⟩
    · cases hskip
  · rintro ⟨_, @⟨n, blanks, hn, hblanks⟩, rfl⟩
    have hskip : Text.skipBlanks (blanks ++ '>' :: rest) = '>' :: rest :=
      Text.skipBlanks_eq_cons_iff.2 ⟨by decide, blanks, hblanks, rfl⟩
    refine ⟨_, rfl, _, ⟨n, hn, (List.append_assoc ..)⟩, ?_⟩
    simp only [List.append_assoc, List.singleton_append, hskip]

/-- No closing tag follows if and only if none is in what follows. -/
theorem afterClosing?_eq_none_iff : afterClosing? name s = none ↔
    ∀ w, IsClosing name w → ¬w <:+: s := by
  induction s with
  | nil =>
    simp only [afterClosing?, List.infix_nil, true_iff]
    rintro _ ⟨⟩
    exact List.cons_ne_nil _ _
  | cons c s ih =>
    rw [afterClosing?_cons, Option.or_eq_none_iff, ih, Option.eq_none_iff_forall_ne_some]
    simp only [List.infix_cons_iff, not_or, forall_and, ne_eq, closingAt?_eq_some_iff,
      not_exists, not_and]
    refine and_congr_left fun _ => ?_
    constructor
    · rintro h w hw ⟨rest, hrest⟩
      exact h rest w hw hrest.symm
    · exact fun h rest w hw hs => h w hw ⟨rest, hs.symm⟩

/-- A closing tag is the first one if none begins before it. -/
theorem afterClosing?_eq_some_iff : afterClosing? name s = some rest ↔
    ∃ u w, IsClosing name w ∧ s = u ++ (w ++ rest) ∧ ∀ v, v <:+ u → v ≠ [] →
      closingAt? name (v ++ (w ++ rest)) = none := by
  -- On the text: either a closing tag begins it, or the first one is the first one of the rest.
  induction s with
  | nil =>
    simp only [afterClosing?, reduceCtorEq, false_iff]
    rintro ⟨u, w, ⟨⟩, hs, -⟩
    simp at hs
  | cons c s ih =>
    rw [afterClosing?_cons]
    cases hat : closingAt? name (c :: s) with
    | some rest' =>
      simp only [Option.some_or, Option.some.injEq]
      constructor
      · rintro rfl
        obtain ⟨w, hw, hs⟩ := closingAt?_eq_some_iff.1 hat
        exact ⟨[], w, hw, hs, fun v hv hne => absurd (List.suffix_nil.1 hv) hne⟩
      · rintro ⟨u, w, hw, hs, hbefore⟩
        cases u with
        | nil =>
          rw [hs, List.nil_append, closingAt?_eq_some_iff.2 ⟨w, hw, rfl⟩] at hat
          exact (Option.some.inj hat).symm
        | cons d u =>
          have hnone := hbefore (d :: u) List.suffix_rfl (List.cons_ne_nil d u)
          rw [← hs, hat] at hnone
          cases hnone
    | none =>
      rw [Option.none_or, ih]
      constructor
      · rintro ⟨u, w, hw, rfl, hbefore⟩
        refine ⟨c :: u, w, hw, rfl, fun v hv hne => ?_⟩
        rcases List.suffix_cons_iff.1 hv with rfl | hv
        · exact hat
        · exact hbefore v hv hne
      · rintro ⟨u, w, hw, hs, hbefore⟩
        cases u with
        | nil =>
          rw [hs, List.nil_append, closingAt?_eq_some_iff.2 ⟨w, hw, rfl⟩] at hat
          cases hat
        | cons d u =>
          obtain ⟨rfl, rfl⟩ := List.cons.inj hs
          exact ⟨u, w, hw, rfl, fun v hv hne => hbefore v (hv.trans (List.suffix_cons c u)) hne⟩

/-- The only `>` of a closing tag is its last character. -/
theorem IsClosing.exists_concat (hname : ∀ c ∈ name, isSolid c = true) (h : IsClosing name w) :
    ∃ front, w = front ++ ['>'] ∧ '>' ∉ front := by
  obtain @⟨n, blanks, hn, hblanks⟩ := h
  refine ⟨'<' :: '/' :: (n ++ blanks), by simp, ?_⟩
  simp only [List.mem_cons, List.mem_append, not_or]
  refine ⟨by decide, by decide, fun hmem => ?_, fun hmem => ?_⟩
  · exact (isSolid_iff.1 (solid_of_map_lower hn hname _ hmem)).2.1 rfl
  · exact absurd (hblanks _ hmem) (by decide)

/-- A closing tag at the front of a text does not go beyond a `>`. -/
theorem IsClosing.isPrefix (hname : ∀ c ∈ name, isSolid c = true) (h : IsClosing name w)
    (hw : w <+: t ++ s) (ht : '>' ∈ t) : w <+: t := by
  rcases List.prefix_or_prefix_of_prefix hw (List.prefix_append t s) with hle | hle
  · exact hle
  · obtain ⟨front, rfl, hfront⟩ := h.exists_concat hname
    rcases List.prefix_concat_iff.1 hle with heq | hle
    · exact heq ▸ List.prefix_rfl
    · exact absurd (hle.subset ht) hfront

/-- The first closing tag is found whatever follows it. -/
theorem exists_of_afterClosing? (hname : ∀ c ∈ name, isSolid c = true)
    (h : afterClosing? name s = some rest) :
    ∃ front, s = front ++ ['>'] ++ rest ∧ ∀ rest', afterClosing? name (front ++ ['>'] ++ rest') =
      some rest' := by
  obtain ⟨u, w, hw, rfl, hbefore⟩ := afterClosing?_eq_some_iff.1 h
  obtain ⟨front, rfl, hfront⟩ := hw.exists_concat hname
  refine ⟨u ++ front, by simp,
    fun rest' => afterClosing?_eq_some_iff.2 ⟨u, _, hw, by simp, fun v hv hne => ?_⟩⟩
  -- A closing tag that begins before this one ends with it at the latest, and would have been found
  -- before.
  rw [Option.eq_none_iff_forall_ne_some]
  intro r hr
  obtain ⟨w', hw', heq⟩ := closingAt?_eq_some_iff.1 hr
  have hprefix : w' <+: v ++ (front ++ ['>']) := by
    refine hw'.isPrefix hname (s := rest') ⟨r, ?_⟩ (by simp)
    rw [← heq, ← List.append_assoc]
  obtain ⟨r', hr'⟩ := hprefix
  have hfound : closingAt? name (v ++ (front ++ ['>'] ++ rest)) = some (r' ++ rest) :=
    closingAt?_eq_some_iff.2 ⟨w', hw', by rw [← List.append_assoc, ← hr', List.append_assoc]⟩
  rw [hbefore v hv hne] at hfound
  cases hfound

/-! ## Elements -/

/-- A word is found where the text begins with a spelling of it and no further letter follows. -/
theorem afterWord?_eq_some_iff : afterWord? name s = some rest ↔
    ∃ tag, Spells name tag ∧ s = tag ++ rest ∧ rest.head?.any Text.isWord = false := by
  rw [afterWord?, Option.filter_eq_some_iff, Text.afterLetters?_eq_some_iff, Bool.not_eq_true']
  constructor
  · rintro ⟨⟨tag, hs, htag⟩, hword⟩
    exact ⟨tag, htag, hs, hword⟩
  · rintro ⟨tag, htag, hs, hword⟩
    exact ⟨⟨tag, hs, htag⟩, hword⟩

/-- An element is at the front of a text if and only if one of the names is, as a word, and a
closing tag follows. -/
theorem afterProtected?_eq_some_iff : afterProtected? ('<' :: s) = some rest ↔
    ∃ name ∈ protectedNames, ∃ tag inside,
    Spells name tag ∧ s = tag ++ inside ∧ inside.head?.any Text.isWord = false ∧
      afterClosing? tag inside = some rest := by
  have hfound : ∀ name,
    ((afterWord? name s).bind fun rest => afterClosing? (s.take name.length) rest) = some rest ↔
      ∃ tag inside, Spells name tag ∧ s = tag ++ inside ∧ inside.head?.any Text.isWord = false ∧
        afterClosing? tag inside = some rest := by
    intro name
    simp only [Option.bind_eq_some_iff, afterWord?_eq_some_iff]
    constructor
    · rintro ⟨inside, ⟨tag, htag, rfl, hword⟩, hclosing⟩
      rw [htag.length_eq, List.take_left] at hclosing
      exact ⟨tag, inside, htag, rfl, hword, hclosing⟩
    · rintro ⟨tag, inside, htag, rfl, hword, hclosing⟩
      refine ⟨inside, ⟨tag, htag, rfl, hword⟩, ?_⟩
      rwa [htag.length_eq, List.take_left]
  rw [afterProtected?]
  constructor
  · intro h
    obtain ⟨name, hname, h⟩ := List.exists_of_findSome?_eq_some h
    exact ⟨name, hname, (hfound name).1 h⟩
  · rintro ⟨name, hname, tag, inside, htag, rfl, hword, hclosing⟩
    cases hfind : protectedNames.findSome? fun name =>
        (afterWord? name (tag ++ inside)).bind fun rest =>
          afterClosing? ((tag ++ inside).take name.length) rest with
    | none =>
      have hnone := List.findSome?_eq_none_iff.1 hfind name hname
      rw [(hfound name).2 ⟨tag, inside, htag, rfl, hword, hclosing⟩] at hnone
      cases hnone
    | some rest' =>
      -- It is the same name that was found.
      obtain ⟨name', hname', h'⟩ := List.exists_of_findSome?_eq_some hfind
      simp only [Option.bind_eq_some_iff, afterWord?_eq_some_iff] at h'
      obtain ⟨inside', ⟨tag', htag', heq, -⟩, hclosing'⟩ := h'
      obtain rfl := eq_of_spells hname hname' htag htag' heq
      have hlength : tag.length = tag'.length := htag.length_eq.symm.trans htag'.length_eq
      obtain ⟨rfl, rfl⟩ := List.append_inj heq hlength
      rw [htag.length_eq, List.take_left, hclosing] at hclosing'
      exact hclosing'.symm

/-- No protected element starts without a bracket. -/
theorem afterProtected?_eq_none_of_ne (hc : c ≠ '<') : afterProtected? (c :: s) = none := by
  unfold afterProtected?
  split
  · rename_i heq
    exact absurd (List.cons.inj heq).1 hc
  · rfl

/-- An element begins with `<` and ends with `>`, and is found whatever follows it. -/
theorem exists_of_afterProtected? (h : afterProtected? s = some rest) :
    ∃ front, s = ('<' :: front ++ ['>']) ++ rest ∧
      ∀ rest', afterProtected? (('<' :: front ++ ['>']) ++ rest') = some rest' := by
  cases s with
  | nil => cases h
  | cons c s =>
    by_cases hc : c = '<'
    · subst hc
      obtain ⟨name, hname, tag, inside, htag, rfl, hword, hclosing⟩ :=
        afterProtected?_eq_some_iff.1 h
      have hsolid := (isSolidWord_of_mem_protectedNames hname).solid_of_spells htag
      obtain ⟨front, rfl, hall⟩ := exists_of_afterClosing? hsolid hclosing
      refine ⟨tag ++ front, by simp, fun rest' => ?_⟩
      have hparts : ('<' :: (tag ++ front) ++ ['>']) ++ rest' =
        '<' :: (tag ++ (front ++ ['>'] ++ rest')) := by simp
      rw [hparts]
      refine afterProtected?_eq_some_iff.2 ⟨name, hname, tag, _, htag, rfl, ?_, hall rest'⟩
      -- Something stands in the element after its name.
      rw [List.head?_append_of_ne_nil _ (by simp)] at hword ⊢
      exact hword
    · rw [afterProtected?_eq_none_of_ne hc] at h
      cases h

/-- A text that starts no protected element starts none with less after it. -/
theorem afterProtected?_eq_none_of_append {b : List Char} (h : afterProtected? (s ++ b) = none) :
    afterProtected? s = none := by
  rw [Option.eq_none_iff_forall_ne_some]
  intro rest hfound
  obtain ⟨front, rfl, hall⟩ := exists_of_afterProtected? hfound
  rw [List.append_assoc, hall] at h
  cases h

/-! ## Parts -/

/-- The text of a part. -/
def Piece.text : Piece → List Char
  | markup s => s
  | element s => s

/-- No element begins in the text before another one. -/
def Plain (t s : List Char) : Prop := ∀ v, v <:+ t → v ≠ [] → afterProtected? (v ++ s) = none

/-- The empty text is plain. -/
@[simp] theorem plain_nil (s : List Char) : Plain [] s :=
  fun _ hv hne => absurd (List.suffix_nil.1 hv) hne

/-- A text is plain if no protected element starts at it and the rest is plain. -/
theorem plain_cons_iff : Plain (c :: t) s ↔ afterProtected? (c :: (t ++ s)) = none ∧ Plain t s := by
  constructor
  · intro h
    exact ⟨h (c :: t) List.suffix_rfl (List.cons_ne_nil c t),
      fun v hv => h v (hv.trans (List.suffix_cons c t))⟩
  · rintro ⟨hfront, h⟩ v hv hne
    rcases List.suffix_cons_iff.1 hv with rfl | hv
    · exact hfront
    · exact h v hv hne

/-- A protected element. -/
def IsElement (e : List Char) : Prop := afterProtected? e = some []

/-- A text that begins with an element begins with it whatever follows. -/
theorem IsElement.append {e : List Char} (h : IsElement e) (s : List Char) :
    afterProtected? (e ++ s) = some s := by
  obtain ⟨front, heq, hall⟩ := exists_of_afterProtected? h
  rw [List.append_nil] at heq
  rw [heq]
  exact hall s

/-- An element starts and ends with a bracket. -/
theorem IsElement.exists_eq {e : List Char} (h : IsElement e) :
    ∃ front, e = '<' :: front ++ ['>'] := by
  obtain ⟨front, heq, -⟩ := exists_of_afterProtected? h
  exact ⟨front, by rwa [List.append_nil] at heq⟩

/-- A protected element that is found is an element, with the rest after it. -/
theorem exists_isElement (h : afterProtected? s = some rest) :
    ∃ e, IsElement e ∧ s = e ++ rest := by
  obtain ⟨front, heq, hall⟩ := exists_of_afterProtected? h
  exact ⟨_, by simpa [IsElement] using hall [], heq⟩

/-- A text is cut into parts: markup in which no element begins, and elements in between. -/
inductive Cuts : List Char → List Piece → Prop where
  /-- The last part is markup. -/
  | markup {t : List Char} (h : Plain t []) : Cuts t [.markup t]
  /-- Markup and an element. -/
  | element {t e s : List Char} {ps : List Piece} (h : Plain t (e ++ s)) (he : IsElement e)
      (rest : Cuts s ps) :
      Cuts (t ++ (e ++ s)) (.markup t :: .element e :: ps)

variable {ps : List Piece}

/-- What is cut into parts is what they make up. -/
theorem Cuts.flatMap_text (h : Cuts s ps) : ps.flatMap Piece.text = s := by
  induction h with
  | markup => simp [Piece.text]
  | element _ _ _ ih => simp [Piece.text, ih]

/-- A text is cut with one more character at its start, if no protected element starts there. -/
theorem Cuts.cons (h : Cuts s ps) (hc : afterProtected? (c :: s) = none) :
    Cuts (c :: s) (Piece.prepend c ps) := by
  cases h with
  | markup ht => exact .markup (plain_cons_iff.2 ⟨by rwa [List.append_nil], ht⟩)
  | element ht he rest => exact .element (plain_cons_iff.2 ⟨hc, ht⟩) he rest

/-- The pieces of a text from some character on are those of the rest. -/
theorem piecesFrom_eq_drop (skip : Nat) (s : List Char) :
    piecesFrom skip s = pieces (s.drop skip) := by
  induction skip generalizing s with
  | zero => rfl
  | succ skip ih =>
    cases s with
    | nil => rfl
    | cons c s => exact ih s

/-- A character at which no protected element starts belongs to the first piece. -/
theorem pieces_of_none (h : afterProtected? (c :: s) = none) :
    pieces (c :: s) = Piece.prepend c (pieces s) := by
  simp only [pieces, piecesFrom, h]

/-- The pieces of a text that starts with an element are this element and those of the rest. -/
theorem IsElement.pieces_append {e : List Char} (h : IsElement e) (s : List Char) :
    pieces (e ++ s) = .markup [] :: .element e :: pieces s := by
  have hfound := h.append s
  obtain ⟨front, rfl⟩ := h.exists_eq
  rw [List.cons_append, List.cons_append] at hfound ⊢
  simp only [pieces, piecesFrom, hfound]
  have hwidth : ('<' :: (front ++ ['>'] ++ s)).length - s.length =
    ('<' :: (front ++ ['>'])).length := by simp; omega
  rw [hwidth, piecesFrom_eq_drop, List.length_cons, Nat.add_sub_cancel, List.drop_left,
    List.take_succ_cons, List.take_left]
  rfl

/-- The parts of a text are parts that it can be cut into. -/
theorem cuts_pieces (s : List Char) : Cuts s (pieces s) := by
  induction hn : s.length using Nat.strongRecOn generalizing s with
  | _ n ih =>
    cases s with
    | nil => exact .markup (plain_nil [])
    | cons c s =>
      cases hat : afterProtected? (c :: s) with
      | none =>
        rw [pieces_of_none hat]
        exact (ih s.length (by rw [← hn]; exact Nat.lt_succ_self _) s rfl).cons hat
      | some rest =>
        obtain ⟨e, he, heq⟩ := exists_isElement hat
        have hshorter : rest.length < n := by
          obtain ⟨front, rfl⟩ := he.exists_eq
          rw [← hn, heq]
          simp
          omega
        rw [heq, he.pieces_append]
        exact .element (plain_nil _) he (ih _ hshorter rest rfl)

/-- Where no element begins in a text, none begins in the text without its end. -/
theorem Plain.of_append {b : List Char} (h : Plain t (s ++ b)) : Plain t s :=
  fun v hv hne =>
    afterProtected?_eq_none_of_append (b := b) (by rw [List.append_assoc]; exact h v hv hne)

/-- There is one way to cut a text. -/
theorem Cuts.eq_pieces (h : Cuts s ps) : pieces s = ps := by
  induction h with
  | @markup t h =>
    induction t with
    | nil => rfl
    | cons c t ih =>
      obtain ⟨hc, ht⟩ := plain_cons_iff.1 h
      rw [List.append_nil] at hc
      rw [pieces_of_none hc, ih ht]
      rfl
  | @element t e s ps h he _ ih =>
    induction t with
    | nil => rw [List.nil_append, he.pieces_append, ih]
    | cons c t iht =>
      obtain ⟨hc, ht⟩ := plain_cons_iff.1 h
      rw [List.cons_append, pieces_of_none hc, iht ht]
      rfl

/-- The protected element that a part is. -/
def Piece.element? : Piece → Option (List Char)
  | markup _ => none
  | element e => some e

/-- The protected elements of a page, in order. -/
def elements (s : List Char) : List (List Char) := (pieces s).filterMap Piece.element?

/-- The elements of a text are elements. -/
theorem isElement_of_mem_elements {e : List Char} (h : e ∈ elements s) : IsElement e := by
  have hmem : ∀ {s : List Char} {ps : List Piece}, Cuts s ps → .element e ∈ ps → IsElement e := by
    intro s ps hcuts he
    induction hcuts with
    | markup => simp at he
    | element _ he' _ ih =>
      rcases List.mem_cons.1 he with heq | he
      · cases heq
      · rcases List.mem_cons.1 he with heq | he
        · exact Piece.element.inj heq ▸ he'
        · exact ih he
  obtain ⟨p, hp, hpe⟩ := List.mem_filterMap.1 h
  cases p with
  | markup => cases hpe
  | element e' =>
    obtain rfl := Option.some.inj hpe
    exact hmem (cuts_pieces s) hp

end StaticSite.Markup
