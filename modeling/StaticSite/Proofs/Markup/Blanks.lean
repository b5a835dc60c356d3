import StaticSite.Proofs.Markup.Element
import StaticSite.Proofs.Markup.Substitute

/-!
# Collapsing blanks

Where nothing but blanks collapses, a minified page is the page with fewer blanks: its elements are
the same, a run of blanks in its markup is a single space, and minifying it again changes nothing
(`minify_onlyBlanks`). What carries this is that fewer blanks make no element: a closing tag that is
found in the thinner text was there before (`Thins.closes`), so that the thinner parts are the parts
of the thinner page (`Cuts.tidy`).
-/

namespace StaticSite.Markup

open Text (Spells AllBlank)

variable {s s' t t' u v x x' rest name tag : List Char} {c : Char} {ps qs rs : List Piece}

/-! ## Tidy markup -/

/-- Some blanks. -/
structure IsRun (u : List Char) : Prop where
  /-- There are some. -/
  ne_nil : u ≠ []
  /-- They are blanks. -/
  blank : AllBlank u

/-- Markup in which runs of blanks are single spaces, and none stands between two tags. -/
structure Tidy (s : List Char) : Prop where
  /-- The only blank is the space. -/
  spaces : ∀ c ∈ s, Text.isBlank c = true → c = ' '
  /-- No space follows another one. -/
  single : ¬[' ', ' '] <:+: s
  /-- None stands between two tags. -/
  tight : ¬['>', ' ', '<'] <:+: s

/-- A part of a tidy text is tidy. -/
theorem Tidy.of_infix (h : Tidy s) (hs : s' <:+: s) : Tidy s' where
  spaces c hc := h.spaces c (hs.subset hc)
  single hin := h.single (hin.trans hs)
  tight hin := h.tight (hin.trans hs)

/-- Markup with its blanks collapsed. -/
def tidy (s : List Char) : List Char := Text.collapseBlanks (substitute gapRule s)

/-- The rule for gaps applies to blanks between the end of a tag and the start of the next. -/
theorem gapRule_eq_some_iff {new : List Char} {width : Nat} : gapRule s = some (new, width) ↔
    ∃ u rest, IsRun u ∧ s = '>' :: (u ++ '<' :: rest) ∧ new = ['>', '<'] ∧
      width = ('>' :: (u ++ ['<'])).length := by
  constructor
  · intro h
    unfold gapRule at h
    split at h
    · rename_i s
      split at h
      · rename_i c u after hrun hskip
        obtain ⟨rfl, rfl⟩ := Prod.mk.inj (Option.some.inj h)
        obtain ⟨hs, hblank, -⟩ := Text.takeWhile_eq_iff.1 ⟨hrun, hskip⟩
        refine ⟨c :: u, after, ⟨List.cons_ne_nil c u, hblank⟩, by rw [hs], rfl, ?_⟩
        rw [hs]
        simp
        omega
      · cases h
    · cases h
  · rintro ⟨u, rest, ⟨hne, hblank⟩, rfl, rfl, rfl⟩
    have hends : ∀ c, ('<' :: rest).head? = some c → Text.isBlank c = false := by
      intro c hc
      rw [← Option.some.inj hc]
      rfl
    obtain ⟨hrun, hskip⟩ := Text.takeWhile_eq_iff.2 ⟨rfl, hblank, hends⟩
    obtain ⟨c, u, rfl⟩ := List.exists_cons_of_ne_nil hne
    simp only [gapRule, hrun, Text.skipBlanks, hskip]
    simp
    omega

/-- A text and the same with its blanks collapsed. -/
inductive Tidied : List Char → List Char → Prop where
  /-- There is nothing. -/
  | nil : Tidied [] []
  /-- A character that is no blank, and after which no blanks go. -/
  | char {c : Char} {s s' : List Char} (hc : Text.isBlank c = false)
      (hgap : gapRule (c :: s) = none) (h : Tidied s s') :
      Tidied (c :: s) (c :: s')
  /-- Blanks between two tags. -/
  | gap {u s s' : List Char} (hu : IsRun u) (h : Tidied ('<' :: s) s') : Tidied
      ('>' :: (u ++ '<' :: s)) ('>' :: s')
  /-- Other blanks. -/
  | run {u s s' : List Char} (hu : IsRun u) (hs : ∀ c, s.head? = some c → Text.isBlank c = false)
      (h : Tidied s s') :
      Tidied (u ++ s) (' ' :: s')

/-- Removing gaps does not change the first character. -/
theorem head?_substitute_gapRule (s : List Char) : (substitute gapRule s).head? = s.head? := by
  cases s with
  | nil => rfl
  | cons c s =>
    cases hrule : gapRule (c :: s) with
    | none => rw [substitute_of_none hrule]; rfl
    | some replaced =>
      obtain ⟨new, width⟩ := replaced
      obtain ⟨u, rest, -, heq, rfl, rfl⟩ := gapRule_eq_some_iff.1 hrule
      simp only [substitute, substituteFrom, hrule]
      rw [heq]
      rfl

/-- A run of blanks before another character becomes one space. -/
theorem collapseBlanks_run (hu : IsRun u) (hs : ∀ c, s.head? = some c → Text.isBlank c = false) :
    Text.collapseBlanks (u ++ s) = ' ' :: Text.collapseBlanks s := by
  obtain ⟨c, u, rfl⟩ := List.exists_cons_of_ne_nil hu.ne_nil
  obtain ⟨hc, hblank⟩ := List.forall_mem_cons.1 hu.blank
  rw [List.cons_append, Text.collapseBlanks, Text.collapseFrom, if_pos hc,
    if_neg Bool.false_ne_true, Text.collapseFrom_true, List.dropWhile_append_of_pos hblank]
  exact congrArg (' ' :: Text.collapseBlanks ·) (Text.skipBlanks_eq_self hs)

/-- A character that is not blank is kept. -/
theorem collapseBlanks_cons (hc : Text.isBlank c = false) :
    Text.collapseBlanks (c :: s) = c :: Text.collapseBlanks s := by
  simp [Text.collapseBlanks, Text.collapseFrom, hc]

/-- No gap starts where no tag ends. -/
theorem gapRule_of_ne (hc : c ≠ '>') : gapRule (c :: s) = none := by
  rw [Option.eq_none_iff_forall_ne_some]
  rintro ⟨new, width⟩ h
  obtain ⟨u, rest, -, heq, -⟩ := gapRule_eq_some_iff.1 h
  exact hc (List.cons.inj heq).1

/-- A tidied text is what tidying makes of the text. -/
theorem tidied_tidy (s : List Char) : Tidied s (tidy s) := by
  induction hn : s.length using Nat.strongRecOn generalizing s with
  | _ n ih =>
    cases s with
    | nil => exact .nil
    | cons c s =>
      cases hrule : gapRule (c :: s) with
      | some replaced =>
        obtain ⟨new, width⟩ := replaced
        obtain ⟨u, rest, hu, heq, rfl, rfl⟩ := gapRule_eq_some_iff.1 hrule
        have hparts : '>' :: (u ++ '<' :: rest) = ('>' :: (u ++ ['<'])) ++ rest := by simp
        have htidy : tidy ('>' :: (u ++ '<' :: rest)) = '>' :: tidy ('<' :: rest) := by
          rw [heq, hparts] at hrule
          rw [tidy, tidy, hparts, substitute_append (List.cons_ne_nil _ _) hrule,
            substitute_of_none (gapRule_of_ne (by decide))]
          exact collapseBlanks_cons rfl
        rw [heq, htidy]
        refine .gap hu (ih _ ?_ _ rfl)
        rw [← hn, heq]
        simp only [List.length_cons, List.length_append]
        omega
      | none =>
        cases hc : Text.isBlank c with
        | false =>
          have htidy : tidy (c :: s) = c :: tidy s := by
            rw [tidy, substitute_of_none hrule, collapseBlanks_cons hc, tidy]
          rw [htidy]
          exact .char hc hrule (ih s.length (by rw [← hn]; exact Nat.lt_succ_self _) s rfl)
        | true =>
          -- The run that begins here, and what follows it.
          obtain ⟨u, rest, rfl, hblank, hends⟩ : ∃ u rest, s = u ++ rest ∧ AllBlank u ∧
              ∀ c, rest.head? = some c → Text.isBlank c = false :=
                ⟨_, _, Text.takeWhile_eq_iff.1 ⟨rfl, rfl⟩⟩
          have hu : IsRun (c :: u) := ⟨List.cons_ne_nil c u, List.forall_mem_cons.2 ⟨hc, hblank⟩⟩
          have htidy : tidy (c :: (u ++ rest)) = ' ' :: tidy rest := by
            have hstays : substitute gapRule ((c :: u) ++ rest) =
                (c :: u) ++ substitute gapRule rest := by
              refine substitute_append_of_none fun v hv hne => ?_
              obtain ⟨d, v, rfl⟩ := List.exists_cons_of_ne_nil hne
              refine gapRule_of_ne ?_
              rintro rfl
              exact absurd (hu.blank _ (hv.subset List.mem_cons_self)) (by decide)
            rw [tidy, ← List.cons_append, hstays, collapseBlanks_run hu, tidy]
            rw [head?_substitute_gapRule]
            exact hends
          rw [htidy, ← List.cons_append]
          refine .run hu hends (ih _ ?_ _ rfl)
          rw [← hn]
          simp only [List.length_cons, List.length_append]
          omega

namespace Tidied

/-- The characters that are not blank are the same. -/
theorem filter_eq (h : Tidied s s') : s'.filter (!Text.isBlank ·) = s.filter (!Text.isBlank ·) := by
  have hblanks : ∀ {u : List Char}, IsRun u → u.filter (!Text.isBlank ·) = [] := by
    intro u hu
    refine List.filter_eq_nil_iff.2 fun c hc => ?_
    rw [hu.blank c hc]
    exact Bool.false_ne_true
  induction h with
  | nil => rfl
  | char hc _ _ ih =>
      rw [List.filter_cons_of_pos (by simp [hc]), List.filter_cons_of_pos (by simp [hc]), ih]
  | gap hu _ ih =>
    rw [List.filter_cons_of_pos (by decide), List.filter_cons_of_pos (by decide),
      List.filter_append, hblanks hu, ih]
    rfl
  | run hu _ _ ih =>
    rw [List.filter_cons_of_neg (by simp), List.filter_append, hblanks hu, ih]
    rfl

/-- What begins with a character that is no blank begins with it still. -/
theorem head?_eq (h : Tidied (c :: s) s') (hc : Text.isBlank c = false) : s'.head? = some c := by
  generalize heq : c :: s = x at h
  cases h with
  | nil => cases heq
  | char | gap =>
    obtain ⟨rfl, -⟩ := List.cons.inj heq
    rfl
  | run hu =>
    obtain ⟨d, u, rfl⟩ := List.exists_cons_of_ne_nil hu.ne_nil
    obtain ⟨rfl, -⟩ := List.cons.inj heq
    rw [hu.blank c List.mem_cons_self] at hc
    cases hc

/-- The empty text is tidied to itself. -/
theorem eq_nil (h : Tidied [] s') : s' = [] := by
  generalize heq : [] = x at h
  cases h with
  | nil => rfl
  | char | gap => cases heq
  | run hu => exact absurd (List.append_eq_nil_iff.1 heq.symm).1 hu.ne_nil

/-- A space stands for blanks. -/
theorem exists_of_space (h : Tidied s (' ' :: s')) : ∃ u rest, IsRun u ∧ s = u ++ rest ∧
    (∀ c, rest.head? = some c → Text.isBlank c = false) ∧ Tidied rest s' := by
  cases h with
  | char hc => cases hc
  | run hu hs h => exact ⟨_, _, hu, rfl, hs, h⟩

/-- A tidied text is tidy. -/
theorem tidy (h : Tidied s s') : Tidy s' := by
  induction h with
  | nil => exact ⟨by simp, by simp, by simp⟩
  | @char c s s' hc hgap h ih =>
    refine ⟨fun d hd hblank => ?_, ?_, ?_⟩
    · rcases List.mem_cons.1 hd with rfl | hd
      · rw [hc] at hblank
        cases hblank
      · exact ih.spaces d hd hblank
    · rw [List.infix_cons_iff, not_or]
      refine ⟨fun hpre => ?_, ih.single⟩
      obtain ⟨rfl, -⟩ := List.cons_prefix_cons.1 hpre
      cases hc
    · rw [List.infix_cons_iff, not_or]
      refine ⟨fun hpre => ?_, ih.tight⟩
      -- Blanks before a tag would have gone after this one.
      obtain ⟨rfl, rest', rfl⟩ := List.cons_prefix_cons.1 hpre
      obtain ⟨u, rest, hu, rfl, hrest, h⟩ := h.exists_of_space
      cases rest with
      | nil => cases h.eq_nil
      | cons d rest =>
        have hd := h.head?_eq (hrest d rfl)
        obtain rfl : '<' = d := Option.some.inj hd
        rw [gapRule_eq_some_iff.2 ⟨u, rest, hu, rfl, rfl, rfl⟩] at hgap
        cases hgap
  | @gap u s s' hu h ih =>
    have hhead := h.head?_eq rfl
    refine ⟨fun d hd hblank => ?_, ?_, ?_⟩
    · rcases List.mem_cons.1 hd with rfl | hd
      · cases hblank
      · exact ih.spaces d hd hblank
    · rw [List.infix_cons_iff, not_or]
      refine ⟨fun hpre => ?_, ih.single⟩
      exact absurd (List.cons_prefix_cons.1 hpre).1 (by decide)
    · rw [List.infix_cons_iff, not_or]
      refine ⟨fun hpre => ?_, ih.tight⟩
      obtain ⟨-, rest', rfl⟩ := List.cons_prefix_cons.1 hpre
      cases hhead
  | @run u s s' hu hs h ih =>
    refine ⟨fun d hd hblank => ?_, ?_, ?_⟩
    · rcases List.mem_cons.1 hd with rfl | hd
      · rfl
      · exact ih.spaces d hd hblank
    · rw [List.infix_cons_iff, not_or]
      refine ⟨fun hpre => ?_, ih.single⟩
      obtain ⟨-, rest', rfl⟩ := List.cons_prefix_cons.1 hpre
      obtain ⟨u', rest, hu', rfl, -⟩ := h.exists_of_space
      obtain ⟨d, u', rfl⟩ := List.exists_cons_of_ne_nil hu'.ne_nil
      have hd := hs d rfl
      rw [hu'.blank d List.mem_cons_self] at hd
      cases hd
    · rw [List.infix_cons_iff, not_or]
      exact ⟨fun hpre => absurd (List.cons_prefix_cons.1 hpre).1 (by decide), ih.tight⟩

end Tidied

/-- Tidy markup is left as it is. -/
theorem Tidy.tidy_eq (h : Tidy s) : tidy s = s := by
  have hgaps : substitute gapRule s = s := by
    have hstays : substitute gapRule (s ++ []) = s ++ substitute gapRule [] := by
      refine substitute_append_of_none fun v hv _ => ?_
      rw [List.append_nil, Option.eq_none_iff_forall_ne_some]
      rintro ⟨new, width⟩ hrule
      obtain ⟨u, rest, hu, rfl, -⟩ := gapRule_eq_some_iff.1 hrule
      have htidy := h.of_infix hv.isInfix
      -- The blanks are a single space, and it stands between two tags.
      obtain ⟨c, u, rfl⟩ := List.exists_cons_of_ne_nil hu.ne_nil
      have hspace : ∀ d ∈ c :: u, d = ' ' :=
        fun d hd =>
          htidy.spaces d (List.mem_cons_of_mem _ (List.mem_append_left _ hd)) (hu.blank d hd)
      obtain rfl := hspace c List.mem_cons_self
      cases u with
      | nil => exact htidy.tight ⟨[], rest, rfl⟩
      | cons d u =>
        obtain rfl := hspace d (by simp)
        exact htidy.single ⟨['>'], u ++ '<' :: rest, rfl⟩
    simpa [substitute, substituteFrom] using hstays
  rw [tidy, hgaps]
  clear hgaps
  induction s with
  | nil => rfl
  | cons c s ih =>
    have hrest := ih (h.of_infix (List.suffix_cons c s).isInfix)
    cases hc : Text.isBlank c with
    | false => rw [collapseBlanks_cons hc, hrest]
    | true =>
      obtain rfl := h.spaces c List.mem_cons_self hc
      have hhead : ∀ d, s.head? = some d → Text.isBlank d = false := by
        intro d hd
        rw [Bool.eq_false_iff]
        intro hblank
        obtain ⟨rest, rfl⟩ : ∃ rest, s = d :: rest := List.head?_eq_some_iff.1 hd
        obtain rfl := h.spaces d (by simp) hblank
        exact h.single ⟨[], rest, rfl⟩
      have hcollapse := collapseBlanks_run (u := [' ']) ⟨by simp, by simp [AllBlank]⟩ hhead
      rw [hrest] at hcollapse
      exact hcollapse

/-! ## Thinner texts -/

/-- A text and one with fewer blanks: some of them become a space, or go before a tag. -/
inductive Thins : List Char → List Char → Prop where
  /-- There is nothing. -/
  | nil : Thins [] []
  /-- A character stays. -/
  | char (c : Char) {s s' : List Char} (h : Thins s s') : Thins (c :: s) (c :: s')
  /-- Blanks become a space. -/
  | run {u s s' : List Char} (hu : IsRun u) (h : Thins s s') : Thins (u ++ s) (' ' :: s')
  /-- Blanks before a tag go. -/
  | gap {u s s' : List Char} (hu : IsRun u) (h : Thins s s') : Thins (u ++ '<' :: s) ('<' :: s')

namespace Thins

/-- What is thinned at its end is thinned. -/
theorem append (t : List Char) (h : Thins s s') : Thins (t ++ s) (t ++ s') := by
  induction t with
  | nil => exact h
  | cons c t ih => exact .char c ih

/-- What is thinned to nothing was nothing. -/
theorem eq_nil (h : Thins s []) : s = [] := by
  cases h
  rfl

/-- Behind a tag's first character too a text is thinner. -/
theorem tail (h : Thins ('<' :: s) ('<' :: s')) : Thins s s' := by
  generalize heq : '<' :: s = x at h
  cases h with
  | char _ hrest =>
    obtain ⟨-, rfl⟩ := List.cons.inj heq
    exact hrest
  | gap hu =>
    obtain ⟨c, u, rfl⟩ := List.exists_cons_of_ne_nil hu.ne_nil
    obtain ⟨rfl, -⟩ := List.cons.inj heq
    exact absurd (hu.blank '<' List.mem_cons_self) (by decide)

/-- A solid character of the thinner text stands in the other one. -/
theorem exists_of_solid (h : Thins s (c :: s')) (hc : isSolid c = true) :
    ∃ rest, s = c :: rest ∧ Thins rest s' := by
  cases h with
  | char _ h => exact ⟨_, rfl, h⟩
  | run => cases hc
  | gap => cases hc

/-- So do some of them. -/
theorem exists_of_solids (h : Thins s (t ++ s')) (ht : ∀ c ∈ t, isSolid c = true) :
    ∃ rest, s = t ++ rest ∧ Thins rest s' := by
  induction t generalizing s with
  | nil => exact ⟨s, rfl, h⟩
  | cons c t ih =>
    obtain ⟨hc, htail⟩ := List.forall_mem_cons.1 ht
    obtain ⟨rest, rfl, hrest⟩ := h.exists_of_solid hc
    obtain ⟨rest, rfl, hend⟩ := ih hrest htail
    exact ⟨rest, rfl, hend⟩

/-- Blanks and the end of a tag stand for blanks and the end of a tag. -/
theorem exists_of_blanks (h : Thins s (t ++ '>' :: s')) (ht : AllBlank t) :
    ∃ u rest, s = u ++ '>' :: rest ∧ AllBlank u ∧ Thins rest s' := by
  induction t generalizing s with
  | nil =>
    cases h with
    | char _ hrest => exact ⟨[], _, rfl, by simp [AllBlank], hrest⟩
  | cons c t ih =>
    obtain ⟨hc, htail⟩ := List.forall_mem_cons.1 ht
    generalize heq : c :: t ++ '>' :: s' = x at h
    cases h with
    | nil => cases heq
    | char _ hrest =>
      obtain ⟨rfl, rfl⟩ := List.cons.inj heq
      obtain ⟨u, rest, rfl, hu, hend⟩ := ih hrest htail
      exact ⟨c :: u, rest, rfl, List.forall_mem_cons.2 ⟨hc, hu⟩, hend⟩
    | @run u₀ _ _ hu₀ hrest =>
      obtain ⟨rfl, rfl⟩ := List.cons.inj heq
      obtain ⟨u, rest, rfl, hu, hend⟩ := ih hrest htail
      refine ⟨u₀ ++ u, rest, by rw [List.append_assoc], fun d hd => ?_, hend⟩
      exact (List.mem_append.1 hd).elim (hu₀.blank d) (hu d)
    | gap =>
      obtain ⟨rfl, -⟩ := List.cons.inj heq
      cases hc

/-- Where a tag begins in the thinner text one begins in the other. -/
theorem exists_of_tag (h : Thins s (t ++ '<' :: s')) :
    ∃ u rest, s = u ++ '<' :: rest ∧ Thins rest s' := by
  induction t generalizing s with
  | nil =>
    cases h with
    | char _ hrest => exact ⟨[], _, rfl, hrest⟩
    | @gap u _ _ _ hrest => exact ⟨u, _, rfl, hrest⟩
  | cons c t ih =>
    generalize heq : c :: t ++ '<' :: s' = x at h
    cases h with
    | nil => cases heq
    | char d hrest =>
      obtain ⟨-, rfl⟩ := List.cons.inj heq
      obtain ⟨u, rest, rfl, hend⟩ := ih hrest
      exact ⟨d :: u, rest, rfl, hend⟩
    | @run u₀ _ _ _ hrest =>
      obtain ⟨-, rfl⟩ := List.cons.inj heq
      obtain ⟨u, rest, rfl, hend⟩ := ih hrest
      exact ⟨u₀ ++ u, rest, by rw [List.append_assoc], hend⟩
    | @gap u₀ _ _ _ hrest =>
      obtain ⟨-, rfl⟩ := List.cons.inj heq
      obtain ⟨u, rest, rfl, hend⟩ := ih hrest
      exact ⟨u₀ ++ '<' :: u, rest, by simp, hend⟩

/-- A closing tag in the thinner text is one in the other, perhaps with more blanks. -/
theorem closes (hname : ∀ c ∈ name, isSolid c = true) (h : Thins s s')
    (hnone : afterClosing? name s = none) :
    afterClosing? name s' = none := by
  rw [afterClosing?_eq_none_iff] at hnone ⊢
  rintro _ @⟨n, blanks, hn, hblanks⟩ ⟨before, after, rfl⟩
  have hparts : before ++ ('<' :: '/' :: (n ++ (blanks ++ ['>']))) ++ after =
      before ++ '<' :: ('/' :: n ++ (blanks ++ '>' :: after)) := by simp
  rw [hparts] at h
  obtain ⟨u, rest, rfl, htag⟩ := h.exists_of_tag
  have hsolid : ∀ c ∈ '/' :: n, isSolid c = true :=
    List.forall_mem_cons.2 ⟨by decide, solid_of_map_lower hn hname⟩
  obtain ⟨rest, rfl, hend⟩ := htag.exists_of_solids hsolid
  obtain ⟨blanks', rest, rfl, hblanks', -⟩ := hend.exists_of_blanks hblanks
  exact hnone _ (.intro hn hblanks') ⟨u, rest, by simp⟩

/-- No element begins where none began in the text with more blanks. -/
theorem protects (h : Thins s s') (hnone : afterProtected? (c :: s) = none) :
    afterProtected? (c :: s') = none := by
  by_cases hc : c = '<'
  · subst hc
    rw [Option.eq_none_iff_forall_ne_some]
    intro rest' hfound
    obtain ⟨name, hname, tag, inside', htag, rfl, hword, hclosing⟩ :=
      afterProtected?_eq_some_iff.1 hfound
    have hsolid := (isSolidWord_of_mem_protectedNames hname).solid_of_spells htag
    obtain ⟨inside, rfl, hinside⟩ := h.exists_of_solids hsolid
    have hword' : inside.head?.any Text.isWord = false := by
      cases hinside with
      | nil => rfl
      | char => exact hword
      | run hu | gap hu =>
        obtain ⟨d, u, rfl⟩ := List.exists_cons_of_ne_nil hu.ne_nil
        have hblank := hu.blank d List.mem_cons_self
        simp only [List.cons_append, List.head?_cons, Option.any_some]
        rw [Bool.eq_false_iff]
        intro hd
        rw [Text.isBlank_of_isWord hd] at hblank
        cases hblank
    cases hclosed : afterClosing? tag inside with
    | none =>
      rw [hinside.closes hsolid hclosed] at hclosing
      cases hclosing
    | some rest =>
      rw [afterProtected?_eq_some_iff.2 ⟨name, hname, tag, inside, htag, rfl, hword', hclosed⟩]
        at hnone
      cases hnone
  · exact afterProtected?_eq_none_of_ne hc

end Thins

/-! ## Parts of a thinner page -/

/-- Tidied markup is thinner, and no element begins in it if none began before. -/
theorem Tidied.plain (h : Tidied t t') (hs : Thins s s') (hplain : Plain t s) :
    Plain t' s' ∧ Thins (t ++ s) (t' ++ s') := by
  induction h with
  | nil => exact ⟨plain_nil s', hs⟩
  | @char c t t' _ _ _ ih =>
    obtain ⟨hnone, hplain⟩ := plain_cons_iff.1 hplain
    obtain ⟨hplain', hthins⟩ := ih hplain
    exact ⟨plain_cons_iff.2 ⟨hthins.protects hnone, hplain'⟩, .char c hthins⟩
  | @gap u t t' hu h ih =>
    have hinner : Plain ('<' :: t) s :=
      fun v hv => hplain v (hv.trans (List.suffix_append ('>' :: u) ('<' :: t)))
    obtain ⟨hplain', hthins⟩ := ih hinner
    refine ⟨plain_cons_iff.2 ⟨afterProtected?_eq_none_of_ne (by decide), hplain'⟩, .char '>' ?_⟩
    obtain ⟨rest, rfl⟩ := List.head?_eq_some_iff.1 (h.head?_eq rfl)
    have hrest : Thins (u ++ '<' :: (t ++ s)) ('<' :: (rest ++ s')) := .gap hu hthins.tail
    simpa using hrest
  | @run u t t' hu _ _ ih =>
    have hinner : Plain t s := fun v hv => hplain v (hv.trans (List.suffix_append u t))
    obtain ⟨hplain', hthins⟩ := ih hinner
    refine ⟨plain_cons_iff.2 ⟨afterProtected?_eq_none_of_ne (by decide), hplain'⟩, ?_⟩
    have hrest : Thins (u ++ (t ++ s)) (' ' :: (t' ++ s')) := .run hu hthins
    simpa using hrest

/-- A part with its blanks collapsed. -/
def Piece.tidy : Piece → Piece
  | markup s => markup (Markup.tidy s)
  | element e => element e

/-- The parts with their blanks collapsed are the parts of what they make up. -/
theorem Cuts.tidy (h : Cuts s ps) :
    Cuts ((ps.map Piece.tidy).flatMap Piece.text) (ps.map Piece.tidy) ∧
      Thins s ((ps.map Piece.tidy).flatMap Piece.text) := by
  induction h with
  | @markup t ht =>
    obtain ⟨hplain, hthins⟩ := (tidied_tidy t).plain .nil ht
    simp only [List.append_nil] at hthins
    simpa [Piece.tidy, Piece.text] using And.intro (Cuts.markup hplain) hthins
  | @element t e s ps ht he _ ih =>
    obtain ⟨hcuts, hthins⟩ := ih
    obtain ⟨hplain, hthins'⟩ := (tidied_tidy t).plain (hthins.append e) ht
    exact ⟨.element hplain he hcuts, hthins'⟩

/-! ## Blanks at the ends -/

/-- Parts with the same elements, and pieces of the markup in between. -/
structure Shortens (ps qs : List Piece) : Prop where
  /-- The elements are the same, in order. -/
  elements : qs.filterMap Piece.element? = ps.filterMap Piece.element?
  /-- Markup is a piece of markup. -/
  markup : ∀ m, .markup m ∈ qs → ∃ t, .markup t ∈ ps ∧ m <:+: t

namespace Shortens

/-- Pieces are shortened to themselves. -/
theorem refl (ps : List Piece) : Shortens ps ps := ⟨rfl, fun m hm => ⟨m, hm, List.infix_rfl⟩⟩

/-- Pieces that are shortened twice are shortened. -/
theorem trans (h : Shortens ps qs) (h' : Shortens qs rs) : Shortens ps rs := by
  refine ⟨h'.elements.trans h.elements, fun m hm => ?_⟩
  obtain ⟨t, ht, hmt⟩ := h'.markup m hm
  obtain ⟨u, hu, htu⟩ := h.markup t ht
  exact ⟨u, hu, hmt.trans htu⟩

/-- Pieces of markup before parts with the same elements. -/
theorem cons (h : Shortens ps qs) (ht : t' <:+: t) :
    Shortens (.markup t :: ps) (.markup t' :: qs) := by
  refine ⟨by simpa [List.filterMap_cons, Piece.element?] using h.elements, fun m hm => ?_⟩
  rcases List.mem_cons.1 hm with heq | hm
  · obtain rfl := Piece.markup.inj heq
    exact ⟨t, List.mem_cons_self, ht⟩
  · obtain ⟨u, hu, hmu⟩ := h.markup m hm
    exact ⟨u, List.mem_cons_of_mem _ hu, hmu⟩

/-- Pieces are shortened after an element that is kept. -/
theorem element (h : Shortens ps qs) (e : List Char) :
    Shortens (.element e :: ps) (.element e :: qs) := by
  refine ⟨by simpa [List.filterMap_cons, Piece.element?] using h.elements, fun m hm => ?_⟩
  rcases List.mem_cons.1 hm with heq | hm
  · cases heq
  · obtain ⟨u, hu, hmu⟩ := h.markup m hm
    exact ⟨u, List.mem_cons_of_mem _ hu, hmu⟩

end Shortens

/-- Without the blanks at its start a text is cut into shortened pieces. -/
theorem Cuts.skipBlanks (h : Cuts s ps) : ∃ qs, Cuts (Text.skipBlanks s) qs ∧ Shortens ps qs := by
  have hsuffix : ∀ t, Text.skipBlanks t <:+ t := fun _ => List.dropWhile_suffix Text.isBlank
  cases h with
  | @markup t ht =>
    exact ⟨_, .markup fun v hv => ht v (hv.trans (hsuffix s)),
      (Shortens.refl []).cons (hsuffix s).isInfix⟩
  | @element t e s ps ht he hrest =>
    have hskip : Text.skipBlanks (t ++ (e ++ s)) = Text.skipBlanks t ++ (e ++ s) := by
      obtain ⟨front, rfl⟩ := he.exists_eq
      exact Text.skipBlanks_append_cons (by decide) t _
    rw [hskip]
    exact ⟨_, .element (fun v hv => ht v (hv.trans (hsuffix t))) he hrest,
      ((Shortens.refl ps).element e).cons (hsuffix t).isInfix⟩

/-- Without the blanks at its end a text is cut into shortened pieces. -/
theorem Cuts.dropTrailingBlanks (h : Cuts s ps) : ∃ qs, Cuts (Text.dropTrailingBlanks s) qs ∧
    Shortens ps qs := by
  induction h with
  | @markup t ht =>
    obtain ⟨b, hb⟩ := Text.dropTrailingBlanks_prefix t
    refine ⟨_, .markup fun v hv hne => ?_,
      (Shortens.refl []).cons (Text.dropTrailingBlanks_prefix t).isInfix⟩
    obtain ⟨u, hu⟩ := hv
    have hnone := ht (v ++ b) ⟨u, by rw [← List.append_assoc, hu, hb]⟩ (by simp [hne])
    rw [List.append_nil] at hnone ⊢
    exact afterProtected?_eq_none_of_append hnone
  | @element t e s ps ht he hrest ih =>
    obtain ⟨qs, hqs, hshort⟩ := ih
    obtain ⟨b, hb⟩ := Text.dropTrailingBlanks_prefix s
    have hdrop : Text.dropTrailingBlanks (t ++ (e ++ s)) =
        t ++ (e ++ Text.dropTrailingBlanks s) := by
      obtain ⟨front, rfl⟩ := he.exists_eq
      simpa using Text.dropTrailingBlanks_append (c := '>') (by decide) (t ++ '<' :: front) s
    rw [hdrop]
    refine ⟨_, .element ?_ he hqs, (hshort.element e).cons List.infix_rfl⟩
    refine Plain.of_append (b := b) ?_
    rwa [List.append_assoc, hb]

/-! ## Minifying blanks -/

/-- Nothing but blanks collapses. -/
def MinifyOptions.onlyBlanks : MinifyOptions := ⟨false, true, false, false, false, false⟩

example : MinifyOptions.ofMapping
    [(.text "collapse_whitespace", .bool true), (.text "keep_closing_slash", .bool true)] =
      .onlyBlanks := by decide

/-- Every option is off. -/
def MinifyOptions.none : MinifyOptions := ⟨false, false, false, false, false, false⟩

/-- With blanks as the only thing to lose, a page is the trimmed text of its tidied pieces. -/
theorem minify_onlyBlanks_eq (s : List Char) :
    minify .onlyBlanks s = Text.trim (((pieces s).map Piece.tidy).flatMap Piece.text) := by
  rw [List.flatMap_map]
  refine congrArg Text.trim (List.flatMap_congr fun p _ => ?_)
  cases p <;> rfl

/-- The parts of the minified page are the tidied parts of the page, less the blanks at the ends. -/
theorem exists_cuts_minify (s : List Char) :
    ∃ qs, Cuts (minify .onlyBlanks s) qs ∧ Shortens ((pieces s).map Piece.tidy) qs := by
  obtain ⟨qs, hqs, hshort⟩ := (cuts_pieces s).tidy.1.skipBlanks
  obtain ⟨rs, hrs, hshort'⟩ := hqs.dropTrailingBlanks
  rw [minify_onlyBlanks_eq]
  exact ⟨rs, hrs, hshort.trans hshort'⟩

/-- The markup of a minified page is tidy. -/
theorem tidy_of_mem_minify {m : List Char}
    (h : .markup m ∈ pieces (minify .onlyBlanks s)) : Tidy m := by
  obtain ⟨qs, hqs, hshort⟩ := exists_cuts_minify s
  rw [hqs.eq_pieces] at h
  obtain ⟨t, ht, hm⟩ := hshort.markup m h
  obtain ⟨p, -, hp⟩ := List.mem_map.1 ht
  cases p with
  | markup u =>
    obtain rfl := Piece.markup.inj hp
    exact (tidied_tidy u).tidy.of_infix hm
  | element => cases hp

/-- A minified page has the elements of the page. -/
theorem elements_minify (s : List Char) : elements (minify .onlyBlanks s) = elements s := by
  obtain ⟨qs, hqs, hshort⟩ := exists_cuts_minify s
  rw [elements, hqs.eq_pieces, hshort.elements, List.filterMap_map]
  refine List.filterMap_congr fun p _ => ?_
  cases p <;> rfl

/-- A minified page has the characters of the page that are not blank. -/
theorem filter_minify (s : List Char) :
    (minify .onlyBlanks s).filter (!Text.isBlank ·) = s.filter (!Text.isBlank ·) := by
  have hpart : ∀ p : Piece, p.tidy.text.filter (!Text.isBlank ·) =
      p.text.filter (!Text.isBlank ·) := by
    intro p
    cases p with
    | markup t => exact (tidied_tidy t).filter_eq
    | element => rfl
  rw [minify_onlyBlanks_eq, Text.filter_trim, List.flatMap_map, List.filter_flatMap]
  simp only [hpart]
  rw [← List.filter_flatMap, (cuts_pieces s).flatMap_text]

/-- Minifying a page twice is minifying it once. -/
theorem minify_minify (s : List Char) :
    minify .onlyBlanks (minify .onlyBlanks s) = minify .onlyBlanks s := by
  have hparts : (pieces (minify .onlyBlanks s)).map Piece.tidy = pieces (minify .onlyBlanks s) := by
    refine (List.map_congr_left fun p hp => ?_).trans (List.map_id _)
    cases p with
    | markup m => exact congrArg Piece.markup (tidy_of_mem_minify hp).tidy_eq
    | element => rfl
  rw [minify_onlyBlanks_eq (minify .onlyBlanks s), hparts, (cuts_pieces _).flatMap_text,
    minify_onlyBlanks_eq]
  exact Text.trim_eq_self (fun _ => Text.isBlank_of_head?_trim)
    (fun _ => Text.isBlank_of_getLast?_trim)

/-- Without an option a page is not changed. -/
theorem minify_none (s : List Char) : minify .none s = s := by
  have hparts : (pieces s).flatMap (Piece.minify .none) = (pieces s).flatMap Piece.text := by
    refine List.flatMap_congr fun p _ => ?_
    cases p <;> rfl
  exact hparts.trans (cuts_pieces s).flatMap_text

/-- Collapsing blanks loses none of the other characters and no element, and leaves single spaces in
markup, none of them between two tags or at an end; doing so again changes nothing. With every
option off the page stays as it is. -/
theorem minify_onlyBlanks (s : List Char) :
    (minify .onlyBlanks s).filter (!Text.isBlank ·) = s.filter (!Text.isBlank ·) ∧
      elements (minify .onlyBlanks s) = elements s ∧
      (∀ m, .markup m ∈ pieces (minify .onlyBlanks s) → Tidy m) ∧
      (∀ c, (minify .onlyBlanks s).head? = some c ∨ (minify .onlyBlanks s).getLast? = some c →
        Text.isBlank c = false) ∧
      minify .onlyBlanks (minify .onlyBlanks s) = minify .onlyBlanks s ∧ minify .none s = s := by
  refine ⟨filter_minify s, elements_minify s, fun m => tidy_of_mem_minify, fun c hc => ?_,
    minify_minify s, minify_none s⟩
  rw [minify_onlyBlanks_eq] at hc
  exact hc.elim Text.isBlank_of_head?_trim Text.isBlank_of_getLast?_trim

example : minify .onlyBlanks " <p> a\n b </p>\n<pre> c\n</pre> <br /> \n<Pre> d ".toList =
    "<p> a b </p> <pre> c\n</pre> <br /><Pre> d".toList := by decide +kernel

end StaticSite.Markup
