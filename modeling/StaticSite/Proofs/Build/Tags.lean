import StaticSite.Proofs.Build.Incremental
import StaticSite.Proofs.Build.Page

/-!
# The tags of a page

A page gets all its tags at once (`render_inserts`): the links, the canonical address and the
scripts of the head before its first `</head>`, the scripts of the body before its last `</body>`.
Each chunk is asked for in its turn and leads to one tag or to one warning (`Asked`). The scripts of
a page are grouped by their placement before they are inserted, in one of five ways (`Grouped`), and
the groups are inserted into a page with tags by what is known of one insertion.
-/

namespace StaticSite.Rendering

open Markup
    (AreTags Begins inserted insertInHead insertInBody insertInHead_inserted insertInBody_inserted)

variable {σ : Type} {chunkFile : String → Action σ (Option String)} {s s' : Session σ}

/-! ## What becomes of chunks -/

/-- What becomes of a chunk. -/
inductive Outcome where
  /-- A tag in the head. -/
  | head (tag : List Char)
  /-- A tag in the body. -/
  | body (tag : List Char)
  /-- A warning that it was not found. -/
  | missing (warning : String)

namespace Outcome

/-- What becomes of a chunk for which a file was found, or none. -/
def of (chunk : ScriptChunk) (file? : Option String) : Outcome :=
  match file?.filter (!·.isEmpty) with
  | some file =>
    let tag := (Markup.scriptTag (Address.ofFile file) chunk.attributes).toList
    if chunk.placement = "head" then head tag else body tag
  | none => missing ("Script chunk not found: " ++ chunk.name)

/-- The tag in the head. -/
def headTag? : Outcome → Option (List Char)
  | head tag => some tag
  | _ => none

/-- The tag in the body. -/
def bodyTag? : Outcome → Option (List Char)
  | body tag => some tag
  | _ => none

/-- The warning. -/
def warning? : Outcome → Option String
  | missing warning => some warning
  | _ => none

end Outcome

/-- Chunks are asked for one after another, with no more done in between than what is logged, and
this becomes of them. -/
inductive Asked (chunkFile : String → Action σ (Option String)) :
    List ScriptChunk → List Outcome → Session σ → Session σ → Prop where
  /-- There is nothing to ask for. -/
  | nil (s : Session σ) (log : List Log.Line) : Asked chunkFile [] [] s { s with log }
  /-- A chunk is asked for, and then the others. -/
  | cons {chunk : ScriptChunk} {chunks : List ScriptChunk} {outcomes : List Outcome}
      {file? : Option String}
      {s s₁ s' : Session σ} (log : List Log.Line)
        (h : chunkFile chunk.name { s with log } = (.ok file?, s₁))
      (hrest : Asked chunkFile chunks outcomes s₁ s') :
      Asked chunkFile (chunk :: chunks) (.of chunk file? :: outcomes) s s'

/-- What becomes of chunks does not depend on what was logged before they are asked for. -/
theorem Asked.of_log {chunks : List ScriptChunk} {outcomes : List Outcome} {log : List Log.Line}
    (h : Asked chunkFile chunks outcomes { s with log } s') :
    Asked chunkFile chunks outcomes s s' := by
  cases h with
  | nil _ log => exact .nil s log
  | cons log h hrest => exact .cons log h hrest

/-- What becomes of chunks does not depend on what is logged afterwards. -/
theorem Asked.logged {chunks : List ScriptChunk} {outcomes : List Outcome}
    (h : Asked chunkFile chunks outcomes s s') (log : List Log.Line) :
    Asked chunkFile chunks outcomes s { s' with log } := by
  induction h with
  | nil s _ => exact .nil s log
  | cons log' h _ ih => exact .cons log' h ih

/-! ## Groups of tags -/

/-- Tags grouped by their placement. -/
inductive Grouped : List ScriptGroup → (head body : List Char) → Prop where
  /-- There are no tags. -/
  | none : Grouped [] [] []
  /-- All tags are in the head. -/
  | head (tags : List Char) : Grouped [⟨"head", tags⟩] tags []
  /-- All tags are in the body. -/
  | body (tags : List Char) : Grouped [⟨"body", tags⟩] [] tags
  /-- A tag in the head came first. -/
  | headFirst (head body : List Char) : Grouped [⟨"head", head⟩, ⟨"body", body⟩] head body
  /-- A tag in the body came first. -/
  | bodyFirst (head body : List Char) : Grouped [⟨"body", body⟩, ⟨"head", head⟩] head body

variable {groups : List ScriptGroup} {head body head' body' : List Char}

/-- A tag that is added to the head comes last in the head. -/
theorem Grouped.addHead (h : Grouped groups head body) (tag : List Char) :
    Grouped (addTag groups "head" tag) (head ++ tag) body := by
  cases h with
  | none => exact .head tag
  | head => exact .head (head ++ tag)
  | body => exact .bodyFirst tag body
  | headFirst head body => exact .headFirst (head ++ tag) body
  | bodyFirst head body => exact .bodyFirst (head ++ tag) body

/-- A tag that is added to the body comes last in the body. -/
theorem Grouped.addBody (h : Grouped groups head body) (tag : List Char) :
    Grouped (addTag groups "body" tag) head (body ++ tag) := by
  cases h with
  | none => exact .body tag
  | head => exact .headFirst head tag
  | body => exact .body (body ++ tag)
  | headFirst head body => exact .headFirst head (body ++ tag)
  | bodyFirst head body => exact .bodyFirst head (body ++ tag)

/-- The groups are inserted at once with the tags that are there. -/
theorem Grouped.withGroups_inserted (h : Grouped groups head' body') (hhead : AreTags head)
    (hbody : AreTags body) (hhead' : AreTags head') (hbody' : AreTags body') (text : List Char) :
    withGroups (inserted head body text) groups = inserted (head ++ head')
      (body ++ body') text := by
  have hplacement : ¬("body" == "head") = true := by decide
  cases h with
  | none => simp only [withGroups, List.foldl_nil, List.append_nil]
  | head tags =>
    simp only [withGroups, List.foldl_cons, List.foldl_nil, beq_self_eq_true, if_true,
      List.append_nil, insertInHead_inserted hhead hbody]
  | body tags =>
    simp only [withGroups, List.foldl_cons, List.foldl_nil, if_neg hplacement, List.append_nil,
      insertInBody_inserted hhead hbody]
  | headFirst =>
    simp only [withGroups, List.foldl_cons, List.foldl_nil, beq_self_eq_true, if_true,
      if_neg hplacement, insertInHead_inserted hhead hbody,
      insertInBody_inserted (hhead.append hhead') hbody]
  | bodyFirst =>
    simp only [withGroups, List.foldl_cons, List.foldl_nil, beq_self_eq_true, if_true,
      if_neg hplacement, insertInBody_inserted hhead hbody,
      insertInHead_inserted hhead (hbody.append hbody')]

/-! ## Scripts -/

/-- The tags of chunks are grouped by their placement, after those that are there. -/
theorem scriptGroups_asked (hfile : ∀ name s, ∃ file? s', chunkFile name s = (.ok file?, s'))
    {chunks : List ScriptChunk}
    (hplacement : ∀ chunk ∈ chunks, chunk.placement = "head" ∨ chunk.placement = "body")
    (hgroups : Grouped groups head body) (s : Session σ) :
    ∃ outcomes s' groups', Asked chunkFile chunks outcomes s s' ∧
      scriptGroups chunkFile groups chunks s =
        (.ok (groups', outcomes.filterMap Outcome.warning?), s') ∧
      Grouped groups' (head ++ (outcomes.filterMap Outcome.headTag?).flatten)
        (body ++ (outcomes.filterMap Outcome.bodyTag?).flatten) := by
  induction chunks generalizing groups head body s with
  | nil => exact ⟨[], s, groups, .nil s s.log, rfl, by simpa using hgroups⟩
  | cons chunk chunks ih =>
    obtain ⟨file?, s₁, hasked⟩ := hfile chunk.name s
    have hrest := fun c hc => hplacement c (List.mem_cons_of_mem chunk hc)
    unfold scriptGroups
    rw [bind_apply_ok hasked]
    cases hfound : file?.filter (!·.isEmpty) with
    | none =>
      -- The warning is logged before the others are asked for.
      obtain ⟨outcomes, s', groups', hothers, happly, hgrouped⟩ := ih hrest hgroups
        { s₁ with log := s₁.log ++ [⟨.warning, .tags, "Script chunk not found: " ++ chunk.name⟩] }
      have houtcome : Outcome.of chunk file? =
          .missing ("Script chunk not found: " ++ chunk.name) := by
        simp only [Outcome.of, hfound]
      refine ⟨.of chunk file? :: outcomes, s', groups', .cons s.log hasked hothers.of_log, ?_, ?_⟩
      · simp only
        rw [bind_apply_ok (Action.say_apply _ _ _ _), bind_apply_ok happly, houtcome]
        rfl
      · rw [houtcome]
        exact hgrouped
    | some file =>
      simp only
      generalize htag : (Markup.scriptTag (Address.ofFile file) chunk.attributes).toList = tag
      rcases hplacement chunk List.mem_cons_self with hhead | hbody
      · have houtcome : Outcome.of chunk file? = .head tag := by
          simp only [Outcome.of, hfound, htag, hhead, if_true]
        obtain ⟨outcomes, s', groups', hothers, happly, hgrouped⟩ :=
          ih hrest (hgroups.addHead tag) s₁
        refine ⟨.of chunk file? :: outcomes, s', groups', .cons s.log hasked hothers, ?_, ?_⟩
        · rw [hhead, houtcome]
          exact happly
        · rw [houtcome]
          simpa [List.filterMap_cons, Outcome.headTag?, Outcome.bodyTag?] using hgrouped
      · have hne : ¬chunk.placement = "head" := by
          rw [hbody]
          decide
        have houtcome : Outcome.of chunk file? = .body tag := by
          simp only [Outcome.of, hfound, htag, if_neg hne]
        obtain ⟨outcomes, s', groups', hothers, happly, hgrouped⟩ :=
          ih hrest (hgroups.addBody tag) s₁
        refine ⟨.of chunk file? :: outcomes, s', groups', .cons s.log hasked hothers, ?_, ?_⟩
        · rw [hbody, houtcome]
          exact happly
        · rw [houtcome]
          simpa [List.filterMap_cons, Outcome.headTag?, Outcome.bodyTag?] using hgrouped

/-- The scripts of chunks are inserted in groups. -/
theorem insertScripts_asked (hfile : ∀ name s, ∃ file? s', chunkFile name s = (.ok file?, s'))
    {chunks : List ScriptChunk}
    (hplacement : ∀ chunk ∈ chunks, chunk.placement = "head" ∨ chunk.placement = "body")
    (page : List Char) (s : Session σ) :
    ∃ outcomes s' groups, Asked chunkFile chunks outcomes s s' ∧
      insertScripts chunkFile chunks page s =
        (.ok (withGroups page groups, outcomes.filterMap Outcome.warning?), s') ∧
      Grouped groups (outcomes.filterMap Outcome.headTag?).flatten
        (outcomes.filterMap Outcome.bodyTag?).flatten := by
  obtain ⟨outcomes, s₁, groups, hasked, hgroups, hgrouped⟩ :=
    scriptGroups_asked hfile hplacement .none s
  obtain ⟨log, hinsert⟩ := insertGroups_answers page groups s₁
  refine ⟨outcomes, { s₁ with log }, groups, hasked.logged log, ?_, hgrouped⟩
  unfold insertScripts
  rw [bind_apply_ok hgroups]
  simp only
  rw [bind_apply_ok hinsert]
  rfl

/-! ## The tags of a page -/

/-- The links to some stylesheets. -/
def linkTags (names : OutputNames) (styles : List Stylesheet) : List (List Char) :=
  styles.map fun style => (Markup.linkTag ((names.lookup style).getD style.filename)).toList

/-- The link to the canonical address of a page, if it has one. -/
def canonicalTags (page : Page) : List (List Char) :=
  match page.canonical, page.filename with
  | some c, some filename =>
      if filename.isEmpty then [] else [(Markup.canonicalTag c filename).toList]
  | _, _ => []

/-- The links of a page: to the shared stylesheets, to its own, and to its canonical address. -/
def links (page : Page) (shared : Option Page) (names : OutputNames) : List (List Char) :=
  linkTags names ((shared.map (·.styles)).getD []) ++ linkTags names page.styles ++
    canonicalTags page

variable {r : Renderer σ} {page : Page} {shared : Option Page} {names : OutputNames}
    {outcomes outcomes' : List Outcome}

/-- A text that starts with a bracket begins a tag, whatever follows. -/
theorem begins_append {u : List Char} (h : u.head? = some '<') (v : List Char) :
    Begins (u ++ v) := by
  intro c hc
  rw [List.head?_append, h] at hc
  exact (Option.some.inj hc).symm

/-- The link to a stylesheet begins a tag. -/
theorem begins_linkTag (filename : String) : Begins (Markup.linkTag filename).toList := by
  have hfirst : "<link rel=\"stylesheet\" href=\"".toList.head? = some '<' := by decide +kernel
  unfold Markup.linkTag
  simp only [String.toList_append, List.append_assoc]
  exact begins_append hfirst _

/-- The link to a canonical address begins a tag. -/
theorem begins_canonicalTag (canonical : Canonical) (filename : String) :
    Begins (Markup.canonicalTag canonical filename).toList := by
  have hfirst : "<link rel=\"canonical\" href=\"".toList.head? = some '<' := by decide +kernel
  unfold Markup.canonicalTag
  simp only [String.toList_append, List.append_assoc]
  exact begins_append hfirst _

/-- A script begins a tag. -/
theorem begins_scriptTag (address : String) (attributes : Mapping) :
    Begins (Markup.scriptTag address attributes).toList := by
  have hcollapse : ∀ s, Begins (Text.collapseBlanks ('<' :: s)) := fun s =>
    begins_append (u := ['<']) rfl (Text.collapseFrom false s)
  simp only [Markup.scriptTag, String.toList_append, String.toList_ofList, List.append_assoc]
  exact hcollapse _

/-- Each link of a page begins a tag. -/
theorem begins_of_mem_links {tag : List Char} (h : tag ∈ links page shared names) : Begins tag := by
  have hlink : ∀ {styles}, tag ∈ linkTags names styles → Begins tag := by
    intro styles h
    obtain ⟨style, -, rfl⟩ := List.mem_map.1 h
    exact begins_linkTag _
  rcases List.mem_append.1 h with h | h
  · exact (List.mem_append.1 h).elim hlink hlink
  · unfold canonicalTags at h
    split at h
    · split at h
      · cases h
      · rw [List.mem_singleton.1 h]
        exact begins_canonicalTag _ _
    · cases h

/-- The tag that a chunk leads to is a script. -/
theorem Outcome.tag_of {chunk : ScriptChunk} {file? : Option String} {tag : List Char}
    (h : (of chunk file?).headTag? = some tag ∨ (of chunk file?).bodyTag? = some tag) :
    ∃ file, tag = (Markup.scriptTag (Address.ofFile file) chunk.attributes).toList := by
  cases hfound : file?.filter (!·.isEmpty) with
  | none => simp [of, hfound, headTag?, bodyTag?] at h
  | some file =>
    refine ⟨file, ?_⟩
    by_cases hhead : chunk.placement = "head"
    · simpa [of, hfound, hhead, headTag?, bodyTag?, eq_comm] using h
    · simpa [of, hfound, hhead, headTag?, bodyTag?, eq_comm] using h

/-- Each tag of a chunk begins a tag. -/
theorem Asked.begins {chunks : List ScriptChunk} (h : Asked chunkFile chunks outcomes s s')
    {o : Outcome} (ho : o ∈ outcomes) {tag : List Char}
    (htag : o.headTag? = some tag ∨ o.bodyTag? = some tag) : Begins tag := by
  induction h with
  | nil => cases ho
  | cons _ _ _ ih =>
    rcases List.mem_cons.1 ho with rfl | ho
    · obtain ⟨file, rfl⟩ := Outcome.tag_of htag
      exact begins_scriptTag _ _
    · exact ih ho

/-- Tags of chunks may be inserted if they hold no end tag. -/
theorem Asked.areTags {chunks : List ScriptChunk} (h : Asked chunkFile chunks outcomes s s')
    (hnone : ∀ o ∈ outcomes, ∀ tag, o.headTag? = some tag ∨ o.bodyTag? = some tag →
      ¬Markup.headEnd <:+: tag ∧ ¬Markup.bodyEnd <:+: tag) :
    AreTags (outcomes.filterMap Outcome.headTag?).flatten ∧
      AreTags (outcomes.filterMap Outcome.bodyTag?).flatten := by
  have hone : ∀ o ∈ outcomes, ∀ tag, o.headTag? = some tag ∨ o.bodyTag? = some tag → AreTags tag :=
    fun o ho tag htag => ⟨h.begins ho htag, (hnone o ho tag htag).1, (hnone o ho tag htag).2⟩
  constructor
  · refine .flatten fun tag ht => ?_
    obtain ⟨o, ho, htag⟩ := List.mem_filterMap.1 ht
    exact hone o ho tag (.inl htag)
  · refine .flatten fun tag ht => ?_
    obtain ⟨o, ho, htag⟩ := List.mem_filterMap.1 ht
    exact hone o ho tag (.inr htag)

/-- Links to stylesheets come after the other tags in the head. -/
theorem insertLinks_inserted (hhead : AreTags head) (hbody : AreTags body) (names : OutputNames)
    (styles : List Stylesheet) (text : List Char) :
    Markup.insertLinks (names.lookup ·) styles (inserted head body text) =
      inserted (head ++ (linkTags names styles).flatten) body text := by
  unfold Markup.insertLinks linkTags
  rw [← List.flatMap_def]
  cases styles with
  | nil => simp
  | cons style styles => exact insertInHead_inserted hhead hbody _

/-- The links to the shared stylesheets and those to the own ones are tags, if all links are. -/
theorem areTags_flatten_links (h : ∀ tag ∈ links page shared names, AreTags tag) :
    AreTags (linkTags names ((shared.map (·.styles)).getD [])).flatten ∧
      AreTags (linkTags names page.styles).flatten :=
  ⟨.flatten fun tag ht => h tag (List.mem_append_left _ (List.mem_append_left _ ht)),
    .flatten fun tag ht => h tag (List.mem_append_left _ (List.mem_append_right _ ht))⟩

/-- The links of a page are inserted at once. -/
theorem withLinks_eq (h : ∀ tag ∈ links page shared names, AreTags tag) (text : List Char) :
    withLinks page shared names text = inserted (links page shared names).flatten [] text := by
  obtain ⟨hshared, hown⟩ := areTags_flatten_links h
  have hstyles : Markup.insertLinks (names.lookup ·) page.styles
        (Markup.insertLinks (names.lookup ·) ((shared.map (·.styles)).getD []) text) =
      inserted
        ((linkTags names ((shared.map (·.styles)).getD [])).flatten ++
          (linkTags names page.styles).flatten) []
        text := by
    have hfirst := insertLinks_inserted .nil .nil names ((shared.map (·.styles)).getD []) text
    rw [Markup.inserted_nil_nil, List.nil_append] at hfirst
    rw [hfirst, insertLinks_inserted hshared .nil]
  simp only [withLinks, links, List.flatten_append, hstyles, canonicalTags]
  cases page.canonical with
  | none => simp only [List.flatten_nil, List.append_nil]
  | some canonical =>
    cases page.filename with
    | none => simp only [List.flatten_nil, List.append_nil]
    | some filename =>
      by_cases hempty : filename.isEmpty = true
      · simp only [if_pos hempty, List.flatten_nil, List.append_nil]
      · simp only [if_neg hempty, Markup.insertCanonical,
          insertInHead_inserted (hshared.append hown) .nil, List.flatten_singleton]

/-- A page as it is rendered from its text, if this became of its chunks: what was missing is told
in their order, and if no tag holds an end tag, then the tags stand in their order before the first
`</head>` and the last `</body>` of the text. -/
structure IsTagged (page : Page) (shared : Option Page) (names : OutputNames) (expanded : Bundle)
    (content : List Char) (outcomes : List Outcome) (rendered : Rendered) : Prop where
  /-- The bundle is that of the page. -/
  bundle : rendered.bundle = expanded
  /-- What was missing is told after the warnings of the bundle. -/
  warnings : rendered.warnings = expanded.warnings ++ outcomes.filterMap Outcome.warning?
  /-- The tags are inserted at once. -/
  text : (∀ tag ∈ links page shared names ++ outcomes.filterMap Outcome.headTag? ++
    outcomes.filterMap Outcome.bodyTag?,
      ¬Markup.headEnd <:+: tag ∧ ¬Markup.bodyEnd <:+: tag) →
    rendered.text =
      inserted (links page shared names ++ outcomes.filterMap Outcome.headTag?).flatten
      (outcomes.filterMap Outcome.bodyTag?).flatten content

/-- A page with a source is rendered to its text with all its tags inserted at once, if its text is
made and no lookup of a chunk fails. Each chunk is asked for once, the shared ones first, and leads
to a tag or to a warning. -/
theorem render_inserts {source : Path} (hsource : page.source = some source)
    (hfile : ∀ name s, ∃ file? s', r.parts.chunkFile name s = (.ok file?, s'))
    (hplacement : ∀ chunk ∈ (shared.map (·.chunks)).getD [] ++ page.chunks,
      chunk.placement = "head" ∨ chunk.placement = "body")
    {bundle : Bundle} {text : List Char} {s₁ s₂ : Session σ}
    (hbundle : expandPage r source s = (.ok bundle, s₁))
    (htext : minified r bundle.content s₁ = (.ok text, s₂)) :
    ∃ outcomes outcomes' s₃ s₄ rendered, Asked r.parts.chunkFile ((shared.map (·.chunks)).getD [])
      outcomes s₂ s₃ ∧
      Asked r.parts.chunkFile page.chunks outcomes' s₃ s₄ ∧
        render r page shared s = (.ok rendered, s₄) ∧
      IsTagged page shared s₂.names bundle text (outcomes ++ outcomes') rendered := by
  obtain ⟨outcomes, s₃, groups, hasked, hinsert, hgrouped⟩ := insertScripts_asked hfile
    (fun chunk h => hplacement chunk (List.mem_append_left _ h))
      (withLinks page shared s₂.names text) s₂
  obtain ⟨outcomes', s₄, groups', hasked', hinsert', hgrouped'⟩ := insertScripts_asked hfile
    (fun chunk h => hplacement chunk (List.mem_append_right _ h))
    (withGroups (withLinks page shared s₂.names text) groups) s₃
  refine ⟨outcomes, outcomes', s₃, s₄,
    ⟨withGroups (withGroups (withLinks page shared s₂.names text) groups) groups', bundle,
      bundle.warnings ++ outcomes.filterMap Outcome.warning? ++
        outcomes'.filterMap Outcome.warning?⟩,
    hasked, hasked', ?_, rfl, ?_, fun htags => ?_⟩
  · rw [render_eq_bind shared hsource, bind_apply_ok hbundle, bind_apply_ok htext,
      bind_apply_ok (get_apply s₂)]
    unfold withScripts
    rw [bind_apply_ok hinsert]
    simp only
    rw [bind_apply_ok hinsert']
    rfl
  · rw [List.filterMap_append, ← List.append_assoc]
  · -- What is inserted begins with a tag, and holds no end tag.
    have hlinks : AreTags (links page shared s₂.names).flatten ∧ ∀ tag ∈ links page shared s₂.names,
        AreTags tag := by
      have hlink : ∀ tag ∈ links page shared s₂.names, AreTags tag := fun tag ht =>
        have hnone := htags tag (List.mem_append_left _ (List.mem_append_left _ ht))
        ⟨begins_of_mem_links ht, hnone.1, hnone.2⟩
      exact ⟨.flatten hlink, hlink⟩
    have hscripts : ∀ o ∈ outcomes ++ outcomes', ∀ tag, o.headTag? = some tag ∨
      o.bodyTag? = some tag →
        ¬Markup.headEnd <:+: tag ∧ ¬Markup.bodyEnd <:+: tag := by
      rintro o ho tag (htag | htag)
      · exact htags tag
          (List.mem_append_left _ (List.mem_append_right _ (List.mem_filterMap.2 ⟨o, ho, htag⟩)))
      · exact htags tag (List.mem_append_right _ (List.mem_filterMap.2 ⟨o, ho, htag⟩))
    obtain ⟨hhead, hbody⟩ := hasked.areTags fun o ho => hscripts o (List.mem_append_left _ ho)
    obtain ⟨hhead', hbody'⟩ := hasked'.areTags fun o ho => hscripts o (List.mem_append_right _ ho)
    simp only
    rw [withLinks_eq hlinks.2, hgrouped.withGroups_inserted hlinks.1 .nil hhead hbody,
      hgrouped'.withGroups_inserted (hlinks.1.append hhead) (AreTags.nil.append hbody)
        hhead' hbody']
    simp only [List.filterMap_append, List.flatten_append, List.nil_append, List.append_assoc]

open Builder.Sample (path)

namespace Sample

/-- A renderer that finds the file of one chunk. -/
def renderer : Renderer Unit :=
  let site := Builder.Sample.site []
  let chunkFile name := pure (if name = "app" then some "js/app.js" else none)
  { site.renderer with parts := { site.parts with chunkFile } }

/-- A page with links and two chunks, one of which has no file. -/
def home : Page :=
  ⟨.text "a", some (path "a.html"), some "a.html", [⟨path "a.css", "a.css"⟩],
    [⟨"none", "head", []⟩, ⟨"app", "body", []⟩], some ⟨"https://site", false⟩⟩

/-- A shared page with a stylesheet and a chunk. -/
def common : Page := ⟨.text "s", none, none, [⟨path "s.css", "s.css"⟩], [⟨"app", "head", []⟩], none⟩

/-- The text of the page, which ends its head and its body twice. -/
def text : String := "<head></head><body></body></head></body>"

/-- A session in which the page has its text. -/
def session : Session Unit := Builder.Sample.session [("a.html", text)]

end Sample

open Sample in
/-- The page of the sample is rendered with the tags of its three chunks and links, as far as they
have files. -/
theorem render_inserts_sample :
    home.source = some (path "a.html") ∧
      (∀ name s, ∃ file? s', renderer.parts.chunkFile name s = (.ok file?, s')) ∧
      (∀ chunk ∈ ((some common).map (·.chunks)).getD [] ++ home.chunks,
        chunk.placement = "head" ∨ chunk.placement = "body") ∧
      ∃ bundle s₂ outcomes outcomes' s₃ s₄ rendered,
        bundle.content = text.toList ∧
        expandPage renderer (path "a.html") session = (.ok bundle, s₂) ∧
        minified renderer bundle.content s₂ = (.ok bundle.content, s₂) ∧
        Asked renderer.parts.chunkFile common.chunks outcomes s₂ s₃ ∧
        Asked renderer.parts.chunkFile home.chunks outcomes' s₃ s₄ ∧
        render renderer home (some common) session = (.ok rendered, s₄) ∧
        IsTagged home (some common) s₂.names bundle bundle.content (outcomes ++ outcomes')
          rendered := by
  have hsource : home.source = some (path "a.html") := rfl
  have hfile : ∀ name s, ∃ file? s', renderer.parts.chunkFile name s = (.ok file?, s') :=
    fun name s => ⟨_, s, rfl⟩
  have hplacement : ∀ chunk ∈ ((some common).map (·.chunks)).getD [] ++ home.chunks,
      chunk.placement = "head" ∨ chunk.placement = "body" := by decide
  have hcontent : (renderer.expander.resolve session.place (renderer.parts.store.readText session)
      (path "a.html")).1.content = text.toList := by
    decide +kernel
  have hbundle := expandPage_apply renderer (path "a.html") session
  obtain ⟨outcomes, outcomes', s₃, s₄, rendered, hasked, hasked', hrender, htagged⟩ :=
    render_inserts hsource hfile hplacement hbundle rfl
  exact ⟨hsource, hfile, hplacement, _, _, outcomes, outcomes', s₃, s₄, rendered, hcontent, hbundle,
    rfl, hasked, hasked', hrender, htagged⟩

end StaticSite.Rendering
