import Mathlib.Data.List.Chain
import StaticSite.Proofs.Include.Grammar

/-!
# Cutting a text into segments

The segments of a text make up the text again, and each of them is cut from its own text alone as it
was cut from the whole (`segments_stand_alone`). Two facts about how a directive is written carry
this. What is a body before something else is one when nothing follows it (`IsBody.alone`), so a
directive stands alone. And a body is one still when the text goes on, if perhaps a longer one
(`IsBody.exists_append`), so that cutting a text short gives no anchor a body that it did not have,
and a text between directives stands alone too (`find?_before`).
-/

namespace StaticSite

/-- What a directive asks for is named as it should be: a property by a word, and a file by a path
of characters that may stand in one, without blanks at its ends. -/
def Directive.IsNamed : Directive → Prop
  | property name => name ≠ [] ∧ ∀ c ∈ name, Text.isWord c = true
  | file path => path ≠ [] ∧ (∀ c ∈ path, Grammar.isPathChar c = true) ∧
      (∀ c, path.head? = some c → Text.isBlank c = false) ∧ ∀ c, path.getLast? = some c →
        Text.isBlank c = false

namespace Grammar

variable {g : Grammar} {s rest path : List Char} {d : Directive}

/-! ## Directives and what follows them -/

/-- An anchor is found whatever follows it. -/
theorem exists_of_anchor? (h : g.anchor? s = some rest) :
    ∃ a, s = a ++ rest ∧ ∀ t, g.anchor? (a ++ t) = some t := by
  obtain ⟨a, hs, ha⟩ := anchor?_eq_some_iff.1 h
  exact ⟨a, hs, fun t => anchor?_eq_some_iff.2 ⟨a, rfl, ha⟩⟩

/-- What is written in quotes is named as a file should be. -/
theorem IsQuoted.isNamed {quoted : List Char} (h : IsQuoted path quoted) :
    (Directive.file path).IsNamed := by
  obtain ⟨-, hchars, hne⟩ := h
  exact ⟨hne, fun c hc => hchars c (Text.mem_of_mem_trim hc),
    fun _ => Text.isBlank_of_head?_trim, fun _ => Text.isBlank_of_getLast?_trim⟩

/-- What a body asks for is named as it should be. -/
theorem IsBody.isNamed {body : List Char} (h : g.IsBody d body rest) : d.IsNamed := by
  cases h with
  | property _ _ hname hword => exact ⟨hname, hword⟩
  | file _ _ _ hquoted => exact hquoted.isNamed
  | bare _ _ hquoted => exact hquoted.isNamed

/-- The end of a directive is one when nothing follows it. -/
theorem IsEnd.alone {ending : List Char} (h : IsEnd ending rest) : IsEnd ending [] := by
  cases h with
  | semicolon hblanks => exact .semicolon hblanks []
  | nothing => exact .nothing fun blanks after _ => by simp

/-- A body is one when nothing follows it. -/
theorem IsBody.alone {body : List Char} (h : g.IsBody d body rest) : g.IsBody d body [] := by
  cases h with
  | property hmode hblanks hname hword hlongest hend =>
    refine .property hmode hblanks hname hword (fun c hc => hlongest c ?_) hend.alone
    rw [List.append_nil] at hc
    rw [List.head?_append, hc]
    rfl
  | file hmode hblanks hinner hquoted houter hend =>
    exact .file hmode hblanks hinner hquoted houter hend.alone
  | bare hmode hblanks hquoted hend => exact .bare hmode hblanks hquoted hend.alone

/-- A text begins with the end of a directive, if perhaps an empty one. -/
theorem exists_isEnd (s : List Char) : ∃ ending rest, s = ending ++ rest ∧ IsEnd ending rest := by
  obtain ⟨ending, hs, hend⟩ := (afterEnd_eq_iff (s := s)).1 rfl
  exact ⟨ending, _, hs, hend⟩

/-- A body is one still when the text goes on, if perhaps a longer one. -/
theorem IsBody.exists_append {body : List Char} (h : g.IsBody d body rest) (t : List Char) :
    ∃ d' body' rest', body ++ rest ++ t = body' ++ rest' ∧ g.IsBody d' body' rest' := by
  cases h with
  | @property blanks name ending _ hmode hblanks hname hword =>
    -- A name that ended with the text goes on with the word characters that follow.
    obtain ⟨more, after, hmore, hstop, hfollows⟩ : ∃ more after,
        (∀ c ∈ more, Text.isWord c = true) ∧
        (∀ c, after.head? = some c → Text.isWord c = false) ∧
          ending ++ (rest ++ t) = more ++ after := by
      obtain ⟨hsplit, hmore, hstop⟩ :=
        (Text.takeWhile_eq_iff (p := Text.isWord) (s := ending ++ (rest ++ t))).1 ⟨rfl, rfl⟩
      exact ⟨_, _, hmore, hstop, hsplit⟩
    obtain ⟨ending', rest', rfl, hend⟩ := exists_isEnd after
    have hbody : g.IsBody (.property (name ++ more)) (blanks ++ '.' :: (name ++ more ++ ending'))
        rest' := by
      refine .property hmode hblanks (by simp [hname]) (fun c hc => ?_) hstop hend
      exact (List.mem_append.1 hc).elim (hword c) (hmore c)
    refine ⟨_, _, rest', ?_, hbody⟩
    simp only [List.append_assoc, List.cons_append, hfollows]
  | @file blanks inner outer path quoted ending _ hmode hblanks hinner hquoted houter =>
    obtain ⟨ending', rest', hrest, hend⟩ := exists_isEnd (ending ++ (rest ++ t))
    refine ⟨_, _, rest', ?_, .file hmode hblanks hinner hquoted houter hend⟩
    simp only [List.append_assoc, List.cons_append, hrest]
  | @bare blanks path quoted ending _ hmode hblanks hquoted =>
    obtain ⟨ending', rest', hrest, hend⟩ := exists_isEnd (ending ++ (rest ++ t))
    refine ⟨_, _, rest', ?_, .bare hmode hblanks hquoted hend⟩
    simp only [List.append_assoc, hrest]

/-- A body is read still when the text goes on, if perhaps a longer one. -/
theorem isSome_body?_append (h : g.body? s = some (d, rest)) (t : List Char) :
    (g.body? (s ++ t)).isSome = true := by
  obtain ⟨body, rfl, hbody⟩ := body?_eq_some_iff.1 h
  obtain ⟨d', body', rest', hs, hbody'⟩ := hbody.exists_append t
  rw [body?_eq_some_iff.2 ⟨body', hs, hbody'⟩]
  rfl

/-! ## Searching -/

/-- A directive that was found in a text: the parts make up the text, and it stands alone. -/
structure Found.IsIn (g : Grammar) (s : List Char) (f : Found) : Prop where
  /-- The parts make up the text. -/
  parts : s = f.before ++ (f.raw ++ f.rest)
  /-- The directive is found in the text it was written as, and nothing besides. -/
  alone : g.find? 0 f.raw = some ⟨[], f.directive, f.raw, []⟩
  /-- What it asks for is named as it should be. -/
  named : f.directive.IsNamed

/-- A directive that stands at the front of a text is found there. -/
theorem find?_of_body? {after : List Char} (hanchor : g.anchor? s = some after)
    (hbody : g.body? after = some (d, rest)) :
    g.find? 0 s = some ⟨[], d, s.take (s.length - rest.length), rest⟩ := by
  have hlength := length_of_body? hbody
  have hlength' := length_of_anchor? hanchor
  cases s with
  | nil =>
    rw [List.length_nil] at hlength'
    omega
  | cons c s => simp only [find?, hanchor, hbody]

/-- A directive at the front of a text is made up of an anchor and a body, and stands alone. -/
theorem isIn_of_body? {after : List Char} (hanchor : g.anchor? s = some after)
    (hbody : g.body? after = some (d, rest)) :
    Found.IsIn g s ⟨[], d, s.take (s.length - rest.length), rest⟩ := by
  obtain ⟨a, hs, ha⟩ := exists_of_anchor? hanchor
  obtain ⟨u, hu, hbody'⟩ := body?_eq_some_iff.1 hbody
  have hsplit : s = (a ++ u) ++ rest := by rw [hs, hu, List.append_assoc]
  have hraw : s.take (s.length - rest.length) = a ++ u := by
    rw [hsplit, List.length_append, Nat.add_sub_cancel, List.take_left']
    rfl
  rw [hraw]
  have hread : g.body? u = some (d, []) :=
    body?_eq_some_iff.2 ⟨u, (List.append_nil u).symm, hbody'.alone⟩
  have halone := find?_of_body? (ha u) hread
  rw [List.length_nil, Nat.sub_zero, List.take_length] at halone
  exact ⟨hsplit, halone, hbody'.isNamed⟩

/-- A directive that is found lies in the text where it was found. -/
theorem isIn_of_find? {skip : Nat} {f : Found} (h : g.find? skip s = some f) : f.IsIn g s := by
  induction s generalizing skip f with
  | nil => cases skip <;> simp [find?] at h
  | cons c s ih =>
    -- One character more before the directive.
    have step : ∀ {skip : Nat},
        (g.find? skip s).map (fun f => { f with before := c :: f.before }) = some f →
          f.IsIn g (c :: s) := by
      intro skip h
      obtain ⟨f', hf, rfl⟩ := Option.map_eq_some_iff.1 h
      obtain ⟨hparts, halone, hnamed⟩ := ih hf
      exact ⟨by rw [hparts, List.cons_append], halone, hnamed⟩
    cases skip with
    | succ skip => exact step h
    | zero =>
      cases hanchor : g.anchor? (c :: s) with
      | none =>
        simp only [find?, hanchor] at h
        exact step h
      | some after =>
        cases hbody : g.body? after with
        | none =>
          simp only [find?, hanchor, hbody] at h
          exact step h
        | some read =>
          obtain ⟨d, rest⟩ := read
          obtain rfl := Option.some.inj ((find?_of_body? hanchor hbody).symm.trans h)
          exact isIn_of_body? hanchor hbody

/-- No directive begins within the characters that are skipped. -/
theorem skip_le_of_find? {skip : Nat} {f : Found} (h : g.find? skip s = some f) :
    skip ≤ f.before.length := by
  induction s generalizing skip f with
  | nil => cases skip <;> simp [find?] at h
  | cons c s ih =>
    cases skip with
    | zero => exact Nat.zero_le _
    | succ skip =>
      simp only [find?] at h
      obtain ⟨f', hf, rfl⟩ := Option.map_eq_some_iff.1 h
      have hle := ih hf
      simp only [List.length_cons]
      omega

/-- No directive is found in what stands before the first one, though the text is cut short. -/
theorem find?_before {skip : Nat} {f : Found} (h : g.find? skip s = some f) :
    g.find? skip f.before = none := by
  induction s generalizing skip f with
  | nil => cases skip <;> simp [find?] at h
  | cons c s ih =>
    cases skip with
    | succ skip =>
      simp only [find?] at h
      obtain ⟨f', hf, rfl⟩ := Option.map_eq_some_iff.1 h
      simp [find?, ih hf]
    | zero =>
      cases hanchor : g.anchor? (c :: s) with
      | none =>
        simp only [find?, hanchor] at h
        obtain ⟨f', hf, rfl⟩ := Option.map_eq_some_iff.1 h
        -- An anchor in the text that is cut short would be one in the whole.
        have hnone : g.anchor? (c :: f'.before) = none := by
          by_contra hsome
          obtain ⟨r, hr⟩ := Option.ne_none_iff_exists'.1 hsome
          obtain ⟨a, ha, hread⟩ := exists_of_anchor? hr
          have hwhole : c :: s = a ++ (r ++ (f'.raw ++ f'.rest)) := by
            rw [(isIn_of_find? hf).parts, ← List.append_assoc a, ← ha, List.cons_append]
          rw [hwhole, hread] at hanchor
          cases hanchor
        simp [find?, hnone, ih hf]
      | some after =>
        cases hbody : g.body? after with
        | some read =>
          obtain ⟨d, rest⟩ := read
          obtain rfl := Option.some.inj ((find?_of_body? hanchor hbody).symm.trans h)
          rfl
        | none =>
          simp only [find?, hanchor, hbody] at h
          obtain ⟨f', hf, rfl⟩ := Option.map_eq_some_iff.1 h
          have hskip := skip_le_of_find? hf
          have hparts := (isIn_of_find? hf).parts
          obtain ⟨a, ha, hread⟩ := exists_of_anchor? hanchor
          -- The anchor ends before the first directive, and what follows it there is no body
          -- either.
          have hlength : s.length + 1 = a.length + after.length := by
            rw [← List.length_cons (a := c), ha, List.length_append]
          have hle : a.length ≤ (c :: f'.before).length := by
            simp only [List.length_cons]
            omega
          have hprefix : a <+: c :: f'.before := by
            have hwhole : c :: f'.before <+: c :: s :=
              ⟨f'.raw ++ f'.rest, by rw [List.cons_append, ← hparts]⟩
            exact List.prefix_of_prefix_length_le ⟨after, ha.symm⟩ hwhole hle
          obtain ⟨r, hr⟩ := hprefix
          have hafter : after = r ++ (f'.raw ++ f'.rest) := by
            have hboth : a ++ after = a ++ (r ++ (f'.raw ++ f'.rest)) := calc
              a ++ after = c :: (f'.before ++ (f'.raw ++ f'.rest)) := by rw [← ha, ← hparts]
              _ = (a ++ r) ++ (f'.raw ++ f'.rest) := by rw [hr, List.cons_append]
              _ = a ++ (r ++ (f'.raw ++ f'.rest)) := List.append_assoc ..
            exact List.append_cancel_left hboth
          have hnone : g.body? r = none := by
            by_contra hsome
            obtain ⟨⟨d, rest⟩, hread'⟩ := Option.ne_none_iff_exists'.1 hsome
            have hbody' := isSome_body?_append hread' (f'.raw ++ f'.rest)
            rw [← hafter, hbody] at hbody'
            cases hbody'
          have hsame : f'.before.length - r.length = s.length - after.length := by
            have hr' := congrArg List.length hr
            rw [List.length_append, List.length_cons] at hr'
            omega
          have hanchor' : g.anchor? (c :: f'.before) = some r := by rw [← hr, hread]
          simp only [find?, hanchor', hnone, hsame, ih hf, Option.map_none]

/-! ## Segments -/

/-- A text without a directive is one segment, or none if it is empty. -/
theorem segments_eq_nil_or_text (h : g.find? 0 s = none) :
    g.segments s = if s.isEmpty then [] else [.text s] := by
  rw [segments]
  split
  · rfl
  · rename_i f hf
    rw [h] at hf
    cases hf

/-- A text with a directive is cut before it and after it. -/
theorem segments_eq_cons {f : Found} (h : g.find? 0 s = some f) : g.segments s =
    (if f.before.isEmpty then [] else [.text f.before]) ++ .directive f.directive f.raw ::
      g.segments f.rest := by
  rw [segments]
  split
  · rename_i hf
    rw [h] at hf
    cases hf
  · rename_i f' hf
    obtain rfl := Option.some.inj (hf.symm.trans h)
    simp only
    split <;> rfl

/-- A text without directives is one segment. -/
theorem segments_of_text (h : g.find? 0 s = none) (hs : s ≠ []) : g.segments s = [.text s] := by
  rw [segments_eq_nil_or_text h, if_neg (by simpa using hs)]

/-- What a directive was written as is one segment. -/
theorem Found.IsIn.segments_raw {f : Found} (h : f.IsIn g s) :
    g.segments f.raw = [.directive f.directive f.raw] := by
  rw [segments_eq_cons h.alone, segments_eq_nil_or_text (by rfl)]
  rfl

/-- A segment as it should be: a text that is not empty, or a directive that asks for something that
is named as it should be. -/
def Segment.IsProper : Segment → Prop
  | .text t => t ≠ []
  | .directive d _ => d.IsNamed

/-- The segments of a text make up the text. No text among them is empty or stands next to another,
and what the directives among them ask for is named as it should be. Each segment is cut from its
own text alone. -/
theorem segments_stand_alone (g : Grammar) (s : List Char) :
    (g.segments s).flatMap Segment.source = s ∧
      (∀ segment ∈ g.segments s, Segment.IsProper segment ∧ g.segments segment.source = [segment]) ∧
      (g.segments s).IsChain fun a b => ∀ t u, ¬(a = .text t ∧ b = .text u) := by
  induction hn : s.length using Nat.strongRecOn generalizing s with
  | _ n ih =>
    cases hfind : g.find? 0 s with
    | none =>
      -- A text without directives is its only segment.
      by_cases hs : s = []
      · subst hs
        rw [segments_eq_nil_or_text hfind]
        exact ⟨rfl, fun segment h => (by cases h), .nil⟩
      · rw [segments_of_text hfind hs]
        refine ⟨by simp [Segment.source], fun segment h => ?_, .singleton _⟩
        rw [List.mem_singleton.1 h]
        exact ⟨hs, segments_of_text hfind hs⟩
    | some f =>
      have hin := isIn_of_find? hfind
      have hshorter : f.rest.length < n := hn ▸ length_of_find? hfind
      obtain ⟨hsource, hproper, hchain⟩ := ih f.rest.length hshorter f.rest rfl
      have hdirective : Segment.IsProper (.directive f.directive f.raw) ∧
          g.segments (Segment.directive f.directive f.raw).source =
            [.directive f.directive f.raw] :=
        ⟨hin.named, hin.segments_raw⟩
      have hchain' : (Segment.directive f.directive f.raw :: g.segments f.rest).IsChain
          fun a b => ∀ t u, ¬(a = .text t ∧ b = .text u) := by
        refine List.isChain_cons.2 ⟨fun b _ t u h => ?_, hchain⟩
        cases h.1
      rw [segments_eq_cons hfind]
      by_cases hbefore : f.before = []
      · have hs : s = f.raw ++ f.rest := by
          rw [hin.parts, hbefore, List.nil_append]
        simp only [hbefore, List.isEmpty_nil, if_true, List.nil_append]
        refine ⟨?_, List.forall_mem_cons.2 ⟨hdirective, hproper⟩, hchain'⟩
        rw [List.flatMap_cons, hsource, hs]
        rfl
      · have htext : Segment.IsProper (.text f.before) ∧
            g.segments (Segment.text f.before).source = [.text f.before] :=
          ⟨hbefore, segments_of_text (find?_before hfind) hbefore⟩
        simp only [List.isEmpty_eq_false_iff.2 hbefore, Bool.false_eq_true, if_false,
          List.singleton_append]
        refine ⟨?_,
          List.forall_mem_cons.2 ⟨htext, List.forall_mem_cons.2 ⟨hdirective, hproper⟩⟩, ?_⟩
        · rw [List.flatMap_cons, List.flatMap_cons, hsource]
          exact hin.parts.symm
        · refine List.isChain_cons.2 ⟨fun b hb t u h => ?_, hchain'⟩
          rw [List.head?_cons, Option.mem_some_iff] at hb
          rw [← hb] at h
          cases h.2

end Grammar

end StaticSite
