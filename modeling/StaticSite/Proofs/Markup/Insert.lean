import Mathlib.Data.List.Infix
import StaticSite.Markup.Insert
import StaticSite.Proofs.Text.Search

/-!
# Inserting at once

Tags that are inserted one after another are inserted at once: those before the end of the head
before the first `</head>` of the page as it was, those before the end of the body before its last
`</body>` (`insertInHead_inserted`, `insertInBody_inserted`). An end tag begins with the only `<` in
it, and so does whatever is inserted and whatever it is inserted before. So no end tag goes over
from one of them into another, and none comes to be or is lost.
-/

namespace StaticSite.Markup

variable {needle n s t u v : List Char} {c : Char}

/-! ## Places -/

/-- A text begins at a place of another one, and at no place before. -/
def IsFirst (needle s : List Char) (i : Nat) : Prop :=
  needle <+: s.drop i ∧ ∀ j < i, ¬needle <+: s.drop j

/-- A text begins at a place of another one, and at no place after. -/
def IsLast (needle s : List Char) (i : Nat) : Prop :=
  needle <+: s.drop i ∧ ∀ j < s.length, i < j → ¬needle <+: s.drop j

instance (needle s : List Char) (i : Nat) : Decidable (IsFirst needle s i) :=
  inferInstanceAs (Decidable (_ ∧ _))

instance (needle s : List Char) (i : Nat) : Decidable (IsLast needle s i) :=
  inferInstanceAs (Decidable (_ ∧ _))

/-- A page with tags right before its first `</head>` and others right before its last `</body>`, as
far as it has them. -/
def inserted (head body s : List Char) : List Char :=
  s.zipIdx.flatMap fun (c, i) =>
    (if IsFirst headEnd s i then head else []) ++ (if IsLast bodyEnd s i then body else []) ++ [c]

/-- A text occurs in another one if and only if the other one has it at some place. -/
theorem infix_iff_exists_drop (hne : needle ≠ []) :
    needle <:+: s ↔ ∃ j < s.length, needle <+: s.drop j := by
  induction s with
  | nil => simp [hne]
  | cons c s ih =>
    rw [List.infix_cons_iff, ih]
    constructor
    · rintro (h | ⟨j, hj, h⟩)
      · exact ⟨0, Nat.succ_pos _, h⟩
      · exact ⟨j + 1, Nat.succ_lt_succ hj, h⟩
    · rintro ⟨j, hj, h⟩
      cases j with
      | zero => exact .inl h
      | succ j => exact .inr ⟨j, Nat.lt_of_succ_lt_succ hj, h⟩

/-- The first place is the start if and only if the needle stands there. -/
theorem isFirst_zero : IsFirst needle (c :: s) 0 ↔ needle <+: c :: s := by
  simp [IsFirst]

/-- The first place is a later one if and only if the needle does not stand at the start. -/
theorem isFirst_succ {i : Nat} : IsFirst needle (c :: s) (i + 1) ↔ ¬needle <+: c :: s ∧
    IsFirst needle s i := by
  unfold IsFirst
  rw [List.drop_succ_cons]
  constructor
  · rintro ⟨h, hbefore⟩
    exact ⟨hbefore 0 (Nat.succ_pos i), h, fun j hj => hbefore (j + 1) (Nat.succ_lt_succ hj)⟩
  · rintro ⟨hfirst, h, hbefore⟩
    refine ⟨h, fun j hj => ?_⟩
    cases j with
    | zero => exact hfirst
    | succ j => exact hbefore j (Nat.lt_of_succ_lt_succ hj)

/-- The last place is the start if and only if the needle stands there and occurs nowhere after it.
-/
theorem isLast_zero (hne : needle ≠ []) : IsLast needle (c :: s) 0 ↔ needle <+: c :: s ∧
    ¬needle <:+: s := by
  unfold IsLast
  rw [infix_iff_exists_drop hne, List.drop_zero]
  refine and_congr_right fun _ => ⟨?_, ?_⟩
  · rintro h ⟨j, hj, hfront⟩
    exact h (j + 1) (Nat.succ_lt_succ hj) (Nat.succ_pos j) hfront
  · intro h j hj hpos hfront
    cases j with
    | zero => exact absurd hpos (Nat.lt_irrefl 0)
    | succ j => exact h ⟨j, Nat.lt_of_succ_lt_succ hj, hfront⟩

/-- The last place is a later one if and only if it is that of the rest. -/
theorem isLast_succ {i : Nat} : IsLast needle (c :: s) (i + 1) ↔ IsLast needle s i := by
  unfold IsLast
  rw [List.drop_succ_cons]
  refine and_congr_right fun _ => ⟨?_, ?_⟩
  · intro h j hj hlt
    exact h (j + 1) (Nat.succ_lt_succ hj) (Nat.succ_lt_succ hlt)
  · intro h j hj hlt
    cases j with
    | zero => exact absurd hlt (Nat.not_lt_zero _)
    | succ j => exact h j (Nat.lt_of_succ_lt_succ hj) (Nat.lt_of_succ_lt_succ hlt)

/-- The end of a body is not empty. -/
theorem bodyEnd_ne_nil : bodyEnd ≠ [] := by decide

/-- The tags that are inserted right before a text. -/
def tagsBefore (head body s : List Char) : List Char :=
  (if headEnd <+: s then head else []) ++
    (if bodyEnd <+: s ∧ ¬bodyEnd <:+: s.tail then body else [])

/-- What is inserted into a text is inserted before it or into its rest. -/
theorem inserted_cons (head body : List Char) (c : Char) (s : List Char) :
    inserted head body (c :: s) =
      tagsBefore head body (c :: s) ++ c ::
        inserted (if headEnd <+: c :: s then [] else head) body s := by
  have hrest : (s.zipIdx 1).flatMap (fun x => (if IsFirst headEnd (c :: s) x.2 then head else []) ++
        (if IsLast bodyEnd (c :: s) x.2 then body else []) ++ [x.1]) =
      inserted (if headEnd <+: c :: s then [] else head) body s := by
    rw [List.zipIdx_succ, List.flatMap_map]
    unfold inserted
    simp only [isFirst_succ, isLast_succ]
    by_cases h : headEnd <+: c :: s <;> simp [h]
  rw [← hrest, inserted, List.zipIdx_cons, List.flatMap_cons]
  simp only [isFirst_zero, isLast_zero bodyEnd_ne_nil, tagsBefore, List.tail_cons,
    List.append_assoc, List.singleton_append]
  rfl

/-- Without tags nothing is inserted. -/
theorem inserted_nil_nil (s : List Char) : inserted [] [] s = s := by
  induction s with
  | nil => rfl
  | cons c s ih =>
    simp only [inserted_cons, tagsBefore, ite_self, ih]
    rfl

/-- Without a `</body>` it does not matter what would be inserted before it. -/
theorem inserted_of_absent (h : ¬bodyEnd <:+: s) (head body body' : List Char) :
    inserted head body s = inserted head body' s := by
  have hlast : ∀ i, ¬IsLast bodyEnd s i :=
    fun i hi => h (hi.1.isInfix.trans (List.drop_suffix i s).isInfix)
  simp [inserted, hlast]

/-! ## End tags -/

/-- A text begins with the only `<` in it. -/
def IsFronted (needle : List Char) : Prop := ∃ n, needle = '<' :: n ∧ '<' ∉ n

/-- The end tag of the head is fronted. -/
theorem isFronted_headEnd : IsFronted headEnd := ⟨"/head>".toList, rfl, by decide⟩

/-- The end tag of the body is fronted. -/
theorem isFronted_bodyEnd : IsFronted bodyEnd := ⟨"/body>".toList, rfl, by decide⟩

/-- A text that begins with `<`, if it is not empty. -/
def Begins (v : List Char) : Prop := ∀ c, v.head? = some c → c = '<'

/-- What has no `<` does not go over into what begins with one. -/
theorem prefix_of_begins (hn : '<' ∉ n) (hv : Begins v) (h : n <+: u ++ v) : n <+: u := by
  induction n generalizing u with
  | nil => exact List.nil_prefix
  | cons d n ih =>
    rw [List.mem_cons, not_or] at hn
    cases u with
    | nil =>
      obtain ⟨t, rfl⟩ := h
      exact absurd (hv d rfl).symm hn.1
    | cons c u =>
      rw [List.cons_append, List.cons_prefix_cons] at h
      exact List.cons_prefix_cons.2 ⟨h.1, ih hn.2 h.2⟩

/-- What starts with a bracket does not help a fronted text to begin within what stands before it.
-/
theorem IsFronted.prefix_of_append (hneedle : IsFronted needle) (hv : Begins v) (hu : u ≠ [])
    (h : needle <+: u ++ v) :
    needle <+: u := by
  obtain ⟨n, rfl, hn⟩ := hneedle
  obtain ⟨c, u, rfl⟩ := List.exists_cons_of_ne_nil hu
  rw [List.cons_append, List.cons_prefix_cons] at h
  exact List.cons_prefix_cons.2 ⟨h.1, prefix_of_begins hn hv h.2⟩

/-- An end tag is in one of two parts if the second one begins with `<`. -/
theorem IsFronted.infix_append_iff (hneedle : IsFronted needle) (hv : Begins v) :
    needle <:+: u ++ v ↔ needle <:+: u ∨ needle <:+: v := by
  constructor
  · induction u with
    | nil => exact .inr
    | cons c u ih =>
      rw [List.cons_append, List.infix_cons_iff, List.infix_cons_iff]
      rintro (h | h)
      · exact .inl (.inl (hneedle.prefix_of_append hv (List.cons_ne_nil c u) h))
      · exact (ih h).imp_left .inr
  · rintro (h | h)
    · exact h.trans (List.infix_append' [] u v)
    · exact h.trans (List.suffix_append u v).isInfix

/-- Text that may be inserted without making an end tag. -/
structure AreTags (t : List Char) : Prop where
  /-- It begins with `<`, if it is not empty. -/
  begins : Begins t
  /-- There is no `</head>` in it. -/
  head : ¬headEnd <:+: t
  /-- There is no `</body>` in it. -/
  body : ¬bodyEnd <:+: t

/-- No tag is a list of tags. -/
theorem AreTags.nil : AreTags [] := ⟨fun _ h => (by cases h), by decide, by decide⟩

/-- Two lists of tags are one. -/
theorem AreTags.append (ht : AreTags t) (hu : AreTags u) : AreTags (t ++ u) := by
  refine ⟨fun c hc => ?_, ?_, ?_⟩
  · cases t with
    | nil => exact hu.begins c hc
    | cons => exact ht.begins c hc
  · rw [isFronted_headEnd.infix_append_iff hu.begins, not_or]
    exact ⟨ht.head, hu.head⟩
  · rw [isFronted_bodyEnd.infix_append_iff hu.begins, not_or]
    exact ⟨ht.body, hu.body⟩

/-- Tags in a row are tags. -/
theorem AreTags.flatten {tags : List (List Char)} (h : ∀ t ∈ tags, AreTags t) :
    AreTags tags.flatten := by
  induction tags with
  | nil => exact .nil
  | cons t tags ih =>
      exact (h t List.mem_cons_self).append (ih fun t ht => h t (List.mem_cons_of_mem _ ht))

variable {head body : List Char}

/-- What stands before a text once tags are inserted is tags. -/
theorem areTags_tagsBefore (hhead : AreTags head) (hbody : AreTags body) (s : List Char) :
    AreTags (tagsBefore head body s) := by
  unfold tagsBefore
  refine AreTags.append ?_ ?_
  · split
    · exact hhead
    · exact .nil
  · split
    · exact hbody
    · exact .nil

/-- Tags are inserted before a `<` only. -/
theorem begins_of_tagsBefore (h : tagsBefore head body s ≠ []) : Begins s := by
  have hbegins : ∀ {needle : List Char}, IsFronted needle → needle <+: s → Begins s := by
    rintro _ ⟨n, rfl, -⟩ ⟨t, rfl⟩ c hc
    exact (Option.some.inj hc).symm
  by_cases hhead : headEnd <+: s
  · exact hbegins isFronted_headEnd hhead
  · by_cases hbody : bodyEnd <+: s
    · exact hbegins isFronted_bodyEnd hbody
    · exact absurd (by simp [tagsBefore, hhead, hbody]) h

/-- What has no `<` is at the front of a page with tags if it is there without them. -/
theorem prefix_inserted_iff (hn : '<' ∉ n) (hhead : AreTags head) (hbody : AreTags body) :
    n <+: inserted head body s ↔ n <+: s := by
  induction s generalizing n head with
  | nil => rfl
  | cons c s ih =>
    rw [inserted_cons]
    cases n with
    | nil => simp
    | cons d n =>
      rw [List.mem_cons, not_or] at hn
      by_cases hnil : tagsBefore head body (c :: s) = []
      · have hrest : AreTags (if headEnd <+: c :: s then [] else head) := by
          split
          · exact .nil
          · exact hhead
        rw [hnil, List.nil_append, List.cons_prefix_cons, List.cons_prefix_cons, ih hn.2 hrest]
      · -- Either text begins with `<`.
        obtain ⟨c', tags, htags⟩ := List.exists_cons_of_ne_nil hnil
        obtain rfl := (areTags_tagsBefore hhead hbody (c :: s)).begins c' (by rw [htags]; rfl)
        obtain rfl := begins_of_tagsBefore hnil c rfl
        rw [htags, List.cons_append, List.cons_prefix_cons, List.cons_prefix_cons]
        simp [Ne.symm hn.1]

/-- An end tag is at the front of a character and a page with tags if it is there without them. -/
theorem IsFronted.prefix_cons_inserted_iff (hneedle : IsFronted needle) (hhead : AreTags head)
    (hbody : AreTags body) :
    needle <+: c :: inserted head body s ↔ needle <+: c :: s := by
  obtain ⟨n, rfl, hn⟩ := hneedle
  rw [List.cons_prefix_cons, List.cons_prefix_cons, prefix_inserted_iff hn hhead hbody]

/-- Tags make and break no `</body>`. -/
theorem infix_inserted_iff (hhead : AreTags head) (hbody : AreTags body) :
    bodyEnd <:+: inserted head body s ↔ bodyEnd <:+: s := by
  induction s generalizing head with
  | nil => rfl
  | cons c s ih =>
    have hrest : AreTags (if headEnd <+: c :: s then [] else head) := by
      split
      · exact .nil
      · exact hhead
    have htags := areTags_tagsBefore hhead hbody (c :: s)
    rw [inserted_cons, List.infix_cons_iff, ← ih hrest,
      ← isFronted_bodyEnd.prefix_cons_inserted_iff hrest hbody, ← List.infix_cons_iff]
    by_cases hnil : tagsBefore head body (c :: s) = []
    · rw [hnil, List.nil_append]
    · have hbegins : Begins (c :: inserted (if headEnd <+: c :: s then [] else head) body s) :=
        fun c' hc' => begins_of_tagsBefore hnil c' hc'
      rw [isFronted_bodyEnd.infix_append_iff hbegins, or_iff_right htags.body]

/-! ## Tags of the head -/

/-- Tags in the head stand before the first end of the head, which is here or in the rest. -/
theorem insertInHead_cons (tags : List Char) (c : Char) (s : List Char) :
    insertInHead tags (c :: s) = if headEnd <+: c :: s then tags ++ c :: s
      else c :: insertInHead tags s := by
  unfold insertInHead Text.replaceFirst
  by_cases h : headEnd <+: c :: s
  · obtain ⟨rest, hrest⟩ := h
    have hafter : Text.after? headEnd (c :: s) = some rest := Text.after?_eq_some_iff.2 hrest.symm
    rw [if_pos ⟨rest, hrest⟩]
    simp only [Text.cut?, hafter, List.nil_append, List.append_assoc, hrest]
  · rw [if_neg h]
    simp only [Text.cut?, Text.after?_eq_none_iff.2 h]
    cases Text.cut? headEnd s <;> rfl

/-- What has no `</head>` is passed over. -/
theorem insertInHead_append (hu : ¬headEnd <:+: u) (hv : Begins v) (tags : List Char) :
    insertInHead tags (u ++ v) = u ++ insertInHead tags v := by
  induction u with
  | nil => rfl
  | cons c u ih =>
    rw [List.infix_cons_iff, not_or] at hu
    rw [List.cons_append, insertInHead_cons, if_neg, ih hu.2]
    · rfl
    · exact fun h => hu.1 (isFronted_headEnd.prefix_of_append hv (List.cons_ne_nil c u) h)

/-- No page has both end tags in one place. -/
theorem not_prefix_bodyEnd (h : headEnd <+: s) : ¬bodyEnd <+: s := by
  intro h'
  have hsame := List.prefix_of_prefix_length_le h h' (by decide)
  exact absurd hsame (by decide)

/-- Tags that go before the end of the head come after those that went there. -/
theorem insertInHead_inserted (hhead : AreTags head) (hbody : AreTags body) (tags : List Char) :
    insertInHead tags (inserted head body s) = inserted (head ++ tags) body s := by
  induction s with
  | nil => rfl
  | cons c s ih =>
    have hbefore := areTags_tagsBefore hhead hbody (c :: s)
    -- The tags that are there are passed over, up to the end of the head if it follows.
    have hpassed : ∀ t, insertInHead tags (tagsBefore head body (c :: s) ++ c :: t) =
        tagsBefore head body (c :: s) ++ insertInHead tags (c :: t) := by
      intro t
      by_cases hnil : tagsBefore head body (c :: s) = []
      · rw [hnil]
        rfl
      · refine insertInHead_append hbefore.head (fun c' hc' => ?_) tags
        exact (Option.some.inj hc').symm.trans (begins_of_tagsBefore hnil c rfl)
    rw [inserted_cons, inserted_cons, hpassed, insertInHead_cons]
    by_cases h : headEnd <+: c :: s
    · have hnobody := not_prefix_bodyEnd h
      rw [if_pos h, if_pos h, if_pos ((isFronted_headEnd.prefix_cons_inserted_iff .nil hbody).2 h)]
      simp [tagsBefore, h, hnobody]
    · rw [if_neg h, if_neg h,
        if_neg (mt (isFronted_headEnd.prefix_cons_inserted_iff hhead hbody).1 h), ih]
      simp [tagsBefore, h]

/-! ## Tags of the body -/

/-- Inserts tags before the end of the body. A page without it stays. -/
def insertInBody (tags page : List Char) : List Char := (insertInBody? tags page).getD page

/-- Without an end of the body no tag is inserted in it. -/
theorem insertInBody_of_absent (h : ¬bodyEnd <:+: s) (tags : List Char) :
    insertInBody tags s = s := by
  rw [insertInBody, insertInBody?, Text.cutLast?_eq_none_iff.2 h]
  rfl

/-- Tags in the body stand before the last end of the body. -/
theorem insertInBody_of_cut {before after : List Char}
    (h : Text.cutLast? bodyEnd s = some (before, after)) (tags : List Char) :
    insertInBody tags s = before ++ tags ++ bodyEnd ++ after := by
  rw [insertInBody, insertInBody?, h]
  rfl

/-- Tags in the body stand in the rest, if it has an end of the body, or here if one begins here. -/
theorem insertInBody_cons (tags : List Char) (c : Char) (s : List Char) :
    insertInBody tags (c :: s) =
    if bodyEnd <:+: s then c :: insertInBody tags s else if bodyEnd <+: c :: s then tags ++ c :: s
      else c :: s := by
  by_cases hrest : bodyEnd <:+: s
  · obtain ⟨⟨before, after⟩, hcut⟩ : ∃ parts, Text.cutLast? bodyEnd s = some parts :=
      Option.ne_none_iff_exists'.1 fun h => Text.cutLast?_eq_none_iff.1 h hrest
    obtain ⟨hs, hlast⟩ := (Text.cutLast?_eq_some_iff bodyEnd_ne_nil).1 hcut
    have hcut' : Text.cutLast? bodyEnd (c :: s) = some (c :: before, after) :=
      (Text.cutLast?_eq_some_iff bodyEnd_ne_nil).2 ⟨by rw [hs]; rfl, hlast⟩
    rw [if_pos hrest, insertInBody_of_cut hcut, insertInBody_of_cut hcut']
    rfl
  · rw [if_neg hrest]
    by_cases hhere : bodyEnd <+: c :: s
    · obtain ⟨after, hafter⟩ := hhere
      have hcut : Text.cutLast? bodyEnd (c :: s) = some ([], after) :=
        (Text.cutLast?_eq_some_iff bodyEnd_ne_nil).2 ⟨hafter.symm, by rwa [hafter]⟩
      rw [if_pos ⟨after, hafter⟩, insertInBody_of_cut hcut, List.nil_append,
        List.append_assoc, hafter]
    · rw [if_neg hhere]
      refine insertInBody_of_absent ?_ tags
      rw [List.infix_cons_iff, not_or]
      exact ⟨hhere, hrest⟩

/-- What stands before a text with a `</body>` is passed over. -/
theorem insertInBody_append (hv : bodyEnd <:+: v) (u tags : List Char) :
    insertInBody tags (u ++ v) = u ++ insertInBody tags v := by
  induction u with
  | nil => rfl
  | cons c u ih =>
    rw [List.cons_append, insertInBody_cons, if_pos (hv.trans (List.suffix_append u v).isInfix), ih]
    rfl

/-- Tags that go before the end of the body come after those that went there. -/
theorem insertInBody_inserted (hhead : AreTags head) (hbody : AreTags body) (tags : List Char) :
    insertInBody tags (inserted head body s) = inserted head (body ++ tags) s := by
  induction s generalizing head with
  | nil => rfl
  | cons c s ih =>
    by_cases hin : bodyEnd <:+: c :: s
    · have hrest : AreTags (if headEnd <+: c :: s then [] else head) := by
        split
        · exact .nil
        · exact hhead
      have hfollows : bodyEnd <:+: c ::
          inserted (if headEnd <+: c :: s then [] else head) body s := by
        rw [List.infix_cons_iff, isFronted_bodyEnd.prefix_cons_inserted_iff hrest hbody,
          infix_inserted_iff hrest hbody, ← List.infix_cons_iff]
        exact hin
      rw [inserted_cons, inserted_cons, insertInBody_append hfollows, insertInBody_cons]
      by_cases hlater : bodyEnd <:+: s
      · rw [if_pos ((infix_inserted_iff hrest hbody).2 hlater), ih hrest]
        simp [tagsBefore, hlater]
      · have hhere : bodyEnd <+: c :: s := (List.infix_cons_iff.1 hin).resolve_right hlater
        have hnohead : ¬headEnd <+: c :: s := fun h => not_prefix_bodyEnd h hhere
        rw [if_neg (mt (infix_inserted_iff hrest hbody).1 hlater),
          if_pos ((isFronted_bodyEnd.prefix_cons_inserted_iff hrest hbody).2 hhere),
          inserted_of_absent hlater _ body (body ++ tags)]
        simp [tagsBefore, hlater, hhere, hnohead]
    · rw [insertInBody_of_absent (mt (infix_inserted_iff hhead hbody).1 hin)]
      exact inserted_of_absent hin head body (body ++ tags)

example : inserted "<h>".toList "<b>".toList "</body></head></head></body>!".toList =
    "</body><h></head></head><b></body>!".toList := by decide +kernel

end StaticSite.Markup
