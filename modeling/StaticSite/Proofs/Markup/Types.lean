import StaticSite.Proofs.Markup.Element
import StaticSite.Proofs.Markup.Substitute

/-!
# Type attributes

No reader of a type attribute takes the end of a tag, so that the attributes go on either side of a
`>` by themselves (`minifyElement_append`). An element loses those of its opening tag, and what
stands behind that tag stays if and only if none that goes stands in it
(`minifyElement_eq_self_iff`).
-/

namespace StaticSite.Markup

variable {s t u rest after new name : List Char} {names values : List (List Char)} {c : Char}
    {width : Nat}

/-! ## Readers stop at the end of a tag -/

section Readers

variable (b : List Char)

/-- A solid word is read off alike before the end of a tag. -/
theorem afterLetters?_append (hname : IsSolidWord name) (s : List Char) :
    Text.afterLetters? name (s ++ '>' :: b) = (Text.afterLetters? name s).map (· ++ '>' :: b) := by
  induction name generalizing s with
  | nil => rfl
  | cons l name ih =>
    cases s with
    | nil =>
      have hl : ¬Text.sameLetter l '>' = true :=
        fun h => absurd (hname.solid_of_sameLetter List.mem_cons_self h) (by decide)
      simp only [List.nil_append, Text.afterLetters?, if_neg hl, Option.map_none]
    | cons c s =>
      simp only [List.cons_append, Text.afterLetters?, ih (List.forall_mem_cons.1 hname).2]
      split <;> rfl

/-- A solid word that ends here is read off alike before the end of a tag. -/
theorem afterWord?_append (hname : IsSolidWord name) (s : List Char) :
    afterWord? name (s ++ '>' :: b) = (afterWord? name s).map (· ++ '>' :: b) := by
  rw [afterWord?, afterWord?, afterLetters?_append b hname, Option.filter_map]
  congr 2
  funext rest
  cases rest <;> rfl

/-- A quote of either kind is skipped. -/
theorem afterQuote_cons (c : Char) (s : List Char) :
    afterQuote (c :: s) = if c = '"' ∨ c = '\'' then s else c :: s := by
  by_cases hc : c = '"'
  · subst hc
    rfl
  · simp [afterQuote, hc]

/-- A quote is skipped alike before the end of a tag. -/
theorem afterQuote_append (s : List Char) :
    afterQuote (s ++ '>' :: b) = afterQuote s ++ '>' :: b := by
  cases s with
  | nil => rfl
  | cons c s =>
    rw [List.cons_append, afterQuote_cons, afterQuote_cons]
    split <;> rfl

/-- The first of several answers depends on the answers alone. -/
theorem findSome?_congr {α β : Type} {l : List α} {f g : α → Option β} (h : ∀ a ∈ l, f a = g a) :
    l.findSome? f = l.findSome? g := by
  induction l with
  | nil => rfl
  | cons a l ih =>
    obtain ⟨ha, hrest⟩ := List.forall_mem_cons.1 h
    rw [List.findSome?_cons, List.findSome?_cons, ha, ih hrest]

/-- A type attribute is read off alike before the end of a tag. -/
theorem afterType?_append (hvalues : ∀ value ∈ values, IsSolidWord value) (s : List Char) :
    afterType? values (s ++ '>' :: b) = (afterType? values s).map (· ++ '>' :: b) := by
  have hhead : (s ++ '>' :: b).head?.any Text.isBlank = s.head?.any Text.isBlank := by
    cases s <;> rfl
  have hskip : ∀ s, Text.skipBlanks (s ++ '>' :: b) = Text.skipBlanks s ++ '>' :: b :=
    fun s => Text.skipBlanks_append_cons (by decide) s b
  have htype : IsSolidWord "type".toList := by decide +kernel
  unfold afterType?
  rw [hhead, hskip, afterLetters?_append b htype]
  split
  · rfl
  · rw [Option.map_bind, Option.bind_map]
    congr 1
    funext rest
    simp only [Function.comp_apply, hskip]
    cases Text.skipBlanks rest with
    | nil => rfl
    | cons d rest =>
      by_cases hd : d = '='
      · subst hd
        simp only [List.cons_append, hskip, afterQuote_append]
        rw [List.map_findSome?]
        refine findSome?_congr fun value hvalue => ?_
        rw [afterLetters?_append b (hvalues value hvalue), Function.comp_apply, Option.map_map,
          Option.map_map]
        congr 1
        funext after
        exact afterQuote_append b after
      · simp [hd]

/-- A type attribute is cut alike before the end of a tag. -/
theorem cutType?_append (hvalues : ∀ value ∈ values, IsSolidWord value) (s : List Char) :
    cutType? values (s ++ '>' :: b) = (cutType? values s).map fun (before, after) =>
      (before, after ++ '>' :: b) := by
  induction s with
  | nil =>
    have hnone : afterType? values ('>' :: b) = none := afterType?_append b hvalues []
    simp only [List.nil_append, cutType?, hnone]
    rfl
  | cons c s ih =>
    simp only [List.cons_append, cutType?]
    rw [← List.cons_append, afterType?_append b hvalues]
    cases afterType? values (c :: s) with
    | some after => rfl
    | none =>
      simp only [Option.map_none, ih]
      split
      · rfl
      · simp only [Option.map_map]
        rfl

/-- The first half of a text is what is taken without the length of the second. -/
theorem take_length_sub (s t : List Char) : (s ++ t).take ((s ++ t).length - t.length) = s := by
  rw [List.length_append, Nat.add_sub_cancel, List.take_left]

/-- Whether the rule for types applies is known from the tag alone. -/
theorem typeRule_append (hnames : ∀ name ∈ names, IsSolidWord name)
    (hvalues : ∀ value ∈ values, IsSolidWord value) (s : List Char) :
    typeRule names values (s ++ '>' :: b) = typeRule names values s := by
  cases s with
  | nil => rfl
  | cons c s =>
    by_cases hc : c = '<'
    · subst hc
      simp only [List.cons_append, typeRule]
      refine findSome?_congr fun name hname => ?_
      rw [afterWord?_append b (hnames name hname), Option.bind_map]
      refine Option.bind_congr fun inside hinside => ?_
      obtain ⟨tag, -, rfl, -⟩ := afterWord?_eq_some_iff.1 hinside
      rw [Function.comp_apply, cutType?_append b hvalues, Option.map_map]
      congr 1
      funext ⟨before, after⟩
      have hwidth : ('<' :: (tag ++ inside ++ '>' :: b)).length - (after ++ '>' :: b).length =
          ('<' :: (tag ++ inside)).length - after.length := by
        simp
        omega
      simp only [Function.comp_apply, hwidth]
      have htake := take_length_sub ('<' :: tag) inside
      have htake' := take_length_sub ('<' :: tag) (inside ++ '>' :: b)
      rw [List.cons_append] at htake htake'
      rw [List.append_assoc, htake, htake']
    · simp [typeRule, hc]

end Readers

/-! ## What goes -/

/-- What follows a quote is the end of the text. -/
theorem afterQuote_suffix (s : List Char) : afterQuote s <:+ s := by
  cases s with
  | nil => exact List.suffix_rfl
  | cons c s =>
    rw [afterQuote_cons]
    split
    · exact List.suffix_cons c s
    · exact List.suffix_rfl

/-- A type attribute takes some of the text. -/
theorem exists_of_afterType? (h : afterType? values s = some after) :
    ∃ gone, gone ≠ [] ∧ s = gone ++ after := by
  -- Each stage of the reader leaves an end of what it is given.
  have hletters : ∀ {word s rest : List Char}, Text.afterLetters? word s = some rest →
      rest <:+ s := by
    intro word s rest hword
    obtain ⟨a, rfl, -⟩ := Text.afterLetters?_eq_some_iff.1 hword
    exact List.suffix_append a rest
  have hskip : ∀ s, Text.skipBlanks s <:+ s := fun _ => List.dropWhile_suffix Text.isBlank
  unfold afterType? at h
  split at h
  · cases h
  · rename_i hblank
    obtain ⟨rest, htype, h⟩ := Option.bind_eq_some_iff.1 h
    split at h
    · rename_i rest' hequals
      obtain ⟨value, -, h⟩ := List.exists_of_findSome?_eq_some h
      obtain ⟨rest'', hvalue, rfl⟩ := Option.map_eq_some_iff.1 h
      have hafter : afterQuote rest'' <:+ Text.skipBlanks s := by
        calc afterQuote rest'' <:+ rest'' := afterQuote_suffix _
          _ <:+ afterQuote (Text.skipBlanks rest') := hletters hvalue
          _ <:+ Text.skipBlanks rest' := afterQuote_suffix _
          _ <:+ rest' := hskip _
          _ <:+ Text.skipBlanks rest := by rw [hequals]; exact List.suffix_cons '=' rest'
          _ <:+ rest := hskip _
          _ <:+ Text.skipBlanks s := hletters htype
      obtain ⟨gone, hgone⟩ := hafter
      refine ⟨s.takeWhile Text.isBlank ++ gone, ?_, ?_⟩
      · obtain ⟨c, s, rfl⟩ : ∃ c s', s = c :: s' :=
          List.exists_cons_of_ne_nil (by rintro rfl; exact hblank rfl)
        have hc : Text.isBlank c = true := by simpa using hblank
        simp [hc]
      · rw [List.append_assoc, hgone]
        exact List.takeWhile_append_dropWhile.symm
    · cases h

/-- A type attribute that is cut is not empty. -/
theorem exists_of_cutType? {before : List Char} (h : cutType? values s = some (before, after)) :
    ∃ gone, gone ≠ [] ∧ s = before ++ (gone ++ after) := by
  induction s generalizing before with
  | nil => cases h
  | cons c s ih =>
    rw [cutType?] at h
    split at h
    · rename_i htype
      obtain ⟨rfl, rfl⟩ := Prod.mk.inj (Option.some.inj h)
      exact exists_of_afterType? htype
    · split at h
      · cases h
      · obtain ⟨⟨before', after'⟩, hcut, heq⟩ := Option.map_eq_some_iff.1 h
        obtain ⟨rfl, rfl⟩ := Prod.mk.inj heq
        obtain ⟨gone, hgone, rfl⟩ := ih hcut
        exact ⟨gone, hgone, rfl⟩

/-- The rule for types removes something. -/
theorem removes_typeRule (names values : List (List Char)) : Removes (typeRule names values) := by
  intro s new width h
  unfold typeRule at h
  split at h
  · rename_i rest
    obtain ⟨name, -, h⟩ := List.exists_of_findSome?_eq_some h
    obtain ⟨inside, hword, h⟩ := Option.bind_eq_some_iff.1 h
    obtain ⟨⟨before, after⟩, hcut, heq⟩ := Option.map_eq_some_iff.1 h
    obtain ⟨rfl, rfl⟩ := Prod.mk.inj heq
    obtain ⟨tag, -, rfl, -⟩ := afterWord?_eq_some_iff.1 hword
    obtain ⟨gone, hgone, rfl⟩ := exists_of_cutType? hcut
    have htake := take_length_sub ('<' :: tag) (before ++ (gone ++ after))
    rw [List.cons_append] at htake
    rw [htake]
    refine ⟨gone, after, by simp, hgone, by simp, ?_⟩
    simp
    omega
  · cases h

/-! ## Elements -/

/-- The rule for scripts removes something. -/
theorem removes_scriptTypeRule : Removes scriptTypeRule := removes_typeRule _ _

/-- The rule for styles removes something. -/
theorem removes_styleTypeRule : Removes styleTypeRule := removes_typeRule _ _

/-- Whether the rule for scripts applies is known from the tag alone. -/
theorem scriptTypeRule_append (b s : List Char) :
    scriptTypeRule (s ++ '>' :: b) = scriptTypeRule s :=
  typeRule_append b (by decide +kernel) (by decide +kernel) s

/-- Whether the rule for styles applies is known from the tag alone. -/
theorem styleTypeRule_append (b s : List Char) : styleTypeRule (s ++ '>' :: b) = styleTypeRule s :=
  typeRule_append b (by decide +kernel) (by decide +kernel) s

/-- A type attribute that goes stands in a text. -/
def HoldsType (o : MinifyOptions) (s : List Char) : Prop :=
  ∃ v, v <:+ s ∧
    (o.scriptTypes = true ∧ scriptTypeRule v ≠ none ∨ o.styleTypes = true ∧ styleTypeRule v ≠ none)

/-- What stands on either side of a `>` is minified by itself. -/
theorem minifyElement_append (o : MinifyOptions) (s b : List Char) :
    minifyElement o (s ++ '>' :: b) = minifyElement o s ++ '>' :: minifyElement o b := by
  have hscript := removes_scriptTypeRule.substitute_append_cons (scriptTypeRule_append b)
  have hstyle : ∀ s b, substitute styleTypeRule (s ++ '>' :: b) = substitute styleTypeRule s ++
      '>' :: substitute styleTypeRule b :=
    fun s b => removes_styleTypeRule.substitute_append_cons (styleTypeRule_append b) s
  cases hs : o.scriptTypes <;> cases ht : o.styleTypes <;>
    simp [minifyElement, step, hs, ht, hscript, hstyle]

/-- A step that removes something leaves part of the text. -/
theorem step_sublist {rule : List Char → Option (List Char × Nat)} (h : Removes rule) (on : Bool)
    (s : List Char) : (step on (substitute rule) s).Sublist s := by
  cases on with
  | false => exact .refl s
  | true => exact h.sublist s

/-- A step changes nothing if and only if it is off or its rule applies nowhere in the text. -/
theorem step_eq_self_iff {rule : List Char → Option (List Char × Nat)} (h : Removes rule)
    (on : Bool) (s : List Char) :
    step on (substitute rule) s = s ↔ ∀ v, v <:+ s → on = true → rule v = none := by
  cases on with
  | false => simp [step]
  | true => simpa [step] using h.eq_self_iff s

/-- An element only loses characters. -/
theorem minifyElement_sublist (o : MinifyOptions) (s : List Char) : (minifyElement o s).Sublist s :=
  (step_sublist removes_styleTypeRule _ _).trans (step_sublist removes_scriptTypeRule _ _)

/-- A text stays if and only if no type attribute that goes stands in it. -/
theorem minifyElement_eq_self_iff (o : MinifyOptions) (s : List Char) :
    minifyElement o s = s ↔ ¬HoldsType o s := by
  have hboth : minifyElement o s = s ↔
      step o.scriptTypes (substitute scriptTypeRule) s = s ∧
        step o.styleTypes (substitute styleTypeRule) s = s := by
    constructor
    · intro h
      -- What the second step leaves is no longer than what the first one does.
      have hle : (minifyElement o s).Sublist (step o.scriptTypes (substitute scriptTypeRule) s) :=
        step_sublist removes_styleTypeRule _ _
      rw [h] at hle
      have hscript : step o.scriptTypes (substitute scriptTypeRule) s = s :=
        (step_sublist removes_scriptTypeRule _ _).antisymm hle
      refine ⟨hscript, ?_⟩
      rwa [minifyElement, hscript] at h
    · rintro ⟨hscript, hstyle⟩
      rw [minifyElement, hscript, hstyle]
  rw [hboth, step_eq_self_iff removes_scriptTypeRule,
    step_eq_self_iff removes_styleTypeRule, HoldsType]
  simp only [not_exists, not_and, not_or, ne_eq, not_not, ← forall_and]

/-- A minified element starts and ends with a bracket. -/
theorem IsElement.exists_minify_eq {e : List Char} (h : IsElement e) (o : MinifyOptions) :
    ∃ front, minifyElement o e = '<' :: front ++ ['>'] := by
  obtain ⟨front, rfl⟩ := h.exists_eq
  have hhead : (minifyElement o ('<' :: front)).head? = some '<' := by
    have hstep : ∀ {rule : List Char → Option (List Char × Nat)}, Removes rule → ∀ on s,
        (step on (substitute rule) s).head? = s.head? := by
      intro rule hrule on s
      cases on with
      | false => rfl
      | true => exact hrule.head?_eq s
    exact (hstep removes_styleTypeRule _ _).trans (hstep removes_scriptTypeRule _ _)
  obtain ⟨front', heq⟩ := List.head?_eq_some_iff.1 hhead
  have hnil : minifyElement o [] = [] := List.sublist_nil.1 (minifyElement_sublist o [])
  exact ⟨front', by rw [minifyElement_append, heq, hnil]⟩

/-! ## Elements in a page -/

/-- Some texts stand in a text one after another. -/
inductive InOrder : List (List Char) → List Char → Prop where
  /-- None of them. -/
  | nil (s : List Char) : InOrder [] s
  /-- One of them, and others behind it. -/
  | cons (t e : List Char) {es : List (List Char)} {s : List Char} (h : InOrder es s) : InOrder
      (e :: es) (t ++ (e ++ s))

variable {es : List (List Char)}

/-- Elements stand in their order in a text with more before it. -/
theorem InOrder.append (h : InOrder es s) (t : List Char) : InOrder es (t ++ s) := by
  cases h with
  | nil => exact .nil _
  | cons u e h =>
    rw [← List.append_assoc]
    exact .cons (t ++ u) e h

/-- Texts that begin and end with marks of a tag stand there still when the blanks at the ends
go. -/
theorem InOrder.trim (h : InOrder es s) (hes : ∀ e ∈ es, ∃ front, e = '<' :: front ++ ['>']) :
    InOrder es (Text.trim s) := by
  have hskip : InOrder es (Text.skipBlanks s) := by
    cases h with
    | nil => exact .nil _
    | @cons t e es s h =>
      obtain ⟨front, rfl⟩ := hes e List.mem_cons_self
      have heq : Text.skipBlanks (t ++ ('<' :: front ++ ['>'] ++ s)) = Text.skipBlanks t ++
          ('<' :: front ++ ['>'] ++ s) :=
        Text.skipBlanks_append_cons (by decide) t _
      rw [heq]
      exact .cons _ _ h
  rw [Text.trim]
  clear h
  generalize Text.skipBlanks s = s at hskip
  induction hskip with
  | nil => exact .nil _
  | @cons t e es s _ ih =>
    obtain ⟨hfirst, hrest⟩ := List.forall_mem_cons.1 hes
    obtain ⟨front, rfl⟩ := hfirst
    have heq : Text.dropTrailingBlanks (t ++ ('<' :: front ++ ['>'] ++ s)) =
        t ++ ('<' :: front ++ ['>'] ++ Text.dropTrailingBlanks s) := by
      simpa using Text.dropTrailingBlanks_append (c := '>') (by decide) (t ++ '<' :: front) s
    rw [heq]
    exact .cons t _ (ih hrest)

/-- The elements of pieces stand in their order in the minified text of these. -/
theorem inOrder_flatMap_minify (o : MinifyOptions) (ps : List Piece) :
    InOrder ((ps.filterMap Piece.element?).map (minifyElement o))
      (ps.flatMap (Piece.minify o)) := by
  induction ps with
  | nil => exact .nil _
  | cons p ps ih =>
    cases p with
    | markup t => exact ih.append (minifyMarkup o t)
    | element e => exact .cons [] (minifyElement o e) ih

/-- The protected elements stand in a minified page, in order, each as it is minified by itself: its
opening tag only loses characters, and what stands behind that tag stays exactly if no type
attribute that goes stands in it. -/
theorem minify_elements (o : MinifyOptions) (s : List Char) :
    InOrder ((elements s).map (minifyElement o)) (minify o s) ∧
      ∀ e ∈ elements s, ∀ tag inner, e = tag ++ '>' :: inner → ∃ tag', tag'.Sublist tag ∧
        minifyElement o e = tag' ++ '>' :: minifyElement o inner ∧
          (minifyElement o inner = inner ↔ ¬HoldsType o inner) := by
  have horder : InOrder ((elements s).map (minifyElement o))
      ((pieces s).flatMap (Piece.minify o)) :=
    inOrder_flatMap_minify o (pieces s)
  constructor
  · rw [minify]
    cases o.blanks with
    | false => exact horder
    | true =>
      refine horder.trim fun m hm => ?_
      obtain ⟨e, he, rfl⟩ := List.mem_map.1 hm
      exact (isElement_of_mem_elements he).exists_minify_eq o
  · rintro _ - tag inner rfl
    exact ⟨minifyElement o tag, minifyElement_sublist o tag, minifyElement_append o tag inner,
      minifyElement_eq_self_iff o inner⟩

/-- Nothing but type attributes goes. -/
def MinifyOptions.onlyTypes : MinifyOptions := ⟨false, false, false, false, true, true⟩

/-- What stands behind the opening tag of a text area: an element that is written with a type
attribute. -/
def sampleArea : List Char := "<script type=\"text/javascript\"></script></textarea>".toList

/-- The script's own type attribute goes, and the text in it stays. -/
theorem minify_elements_sample :
    ∃ tag', tag'.Sublist "<script type=\"text/javascript\"".toList ∧
      minifyElement .onlyTypes "<script type=\"text/javascript\">x > y</script>".toList =
        tag' ++ '>' :: "x > y</script>".toList := by
  obtain ⟨tag', htag, heq, hself⟩ :=
    (minify_elements .onlyTypes "a<script type=\"text/javascript\">x > y</script>".toList).2
      "<script type=\"text/javascript\">x > y</script>".toList (by decide +kernel)
      "<script type=\"text/javascript\"".toList "x > y</script>".toList (by decide +kernel)
  have hstays : minifyElement .onlyTypes "x > y</script>".toList = "x > y</script>".toList := by
    decide +kernel
  exact ⟨tag', htag, by rw [heq, hstays]⟩

/-- A type attribute within a text area goes, though the text area is protected. -/
theorem minify_rewrites_contents :
    elements ("<textarea".toList ++ '>' :: sampleArea) = ["<textarea".toList ++ '>' :: sampleArea] ∧
      ¬sampleArea <:+: minify .onlyTypes ("<textarea".toList ++ '>' :: sampleArea) := by
  decide +kernel

end StaticSite.Markup
