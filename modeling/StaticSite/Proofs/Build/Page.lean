import StaticSite.Build.Pass
import StaticSite.Proofs.Markup.Insert
import StaticSite.Proofs.Output

/-!
# What a page is made of

Rendering a page changes no more than the log and what the minifier and the lookup of chunks change
(`render_within`), which is what is known of the chunk manifest where none of them is supplied from
outside (`render_isQuiet`). Without a manifest its answer comes from nothing but what its source
expands to and the names of the stylesheets that it links (`render_congr`). `build_spec` says what
building does with it.
-/

namespace StaticSite

variable {σ α β : Type}

/-- A session agrees with an earlier one in all but the log and what is known of the chunk
manifest. -/
def Session.AgreesWith (s s' : Session σ) : Prop :=
  ∃ log manifest, s' = { s with log, manifest }

instance : Std.Refl (Session.AgreesWith : Session σ → Session σ → Prop) where
  refl s := ⟨s.log, s.manifest, rfl⟩

instance : IsTrans (Session σ) Session.AgreesWith where
  trans _ _ _ := by
    rintro ⟨log, manifest, rfl⟩ ⟨log', manifest', rfl⟩
    exact ⟨log', manifest', rfl⟩

namespace Action

/-- An action changes nothing but the log and what is known of the chunk manifest. -/
abbrev IsQuiet (a : Action σ α) : Prop := a.Within Session.AgreesWith

/-- An action changes nothing but the log, and its answer is the same in every session. -/
def Answers (a : Action σ α) (x : Except Fault α) : Prop := ∀ s, ∃ log, a s = (x, { s with log })

/-- What is logged changes nothing but the log. -/
theorem isQuiet_say (level : Log.Level) (speaker : Log.Speaker) (message : String) :
    (say level speaker message : Action σ Unit).IsQuiet := fun s => ⟨_, s.manifest, rfl⟩

/-- Actions whose answers do not depend on the session compose to one whose answer does not either.
-/
theorem Answers.bind {a : Action σ α} {f : α → Action σ β} {x : α} {y : Except Fault β}
    (ha : a.Answers (.ok x)) (hf : (f x).Answers y) : (a >>= f).Answers y := by
  intro s
  obtain ⟨log, h⟩ := ha s
  rw [bind_apply_ok h]
  obtain ⟨log', h'⟩ := hf { s with log }
  exact ⟨log', h'⟩

/-- An answer without an effect does not depend on the session. -/
theorem Answers.pure (x : α) : (pure x : Action σ α).Answers (.ok x) := fun s => ⟨s.log, rfl⟩

/-- Logging answers alike in every session. -/
theorem Answers.say (level : Log.Level) (speaker : Log.Speaker) (message : String) :
    (say level speaker message : Action σ Unit).Answers (.ok ⟨⟩) := fun _ => ⟨_, rfl⟩

end Action

namespace Chunk

open StaticSite.Action (Within isQuiet_say)

/-- Looking up a chunk is quiet. -/
theorem lookupFor_isQuiet (settings : Settings) (name : String) :
    (lookupFor settings name : Action σ (Option String)).IsQuiet := by
  -- A manifest is read once and remembered, which is all that changes.
  have hload : ∀ p, (loadManifest p : Action σ Mapping).IsQuiet := by
    intro p
    refine Within.get.bind fun s => ?_
    split
    · exact (isQuiet_say _ _ _).bind fun _ => .pure _
    · exact .throw _
    · exact .throw _
    · split
      · exact .pure _
      · exact (Within.liftM _).bind fun _ => Within.bind (fun s => ⟨s.log, _, rfl⟩) fun _ => .pure _
  unfold lookupFor
  cases settings.manifest with
  | none => exact .pure _
  | some p =>
    refine (hload p).bind fun chunks => ?_
    cases lookup chunks name <;> exact .pure _

/-- Without a manifest a chunk has the same file in every session. -/
theorem lookupFor_answers {settings : Settings} (h : settings.manifest = none) (name : String) :
    (lookupFor settings name : Action σ (Option String)).Answers
      (.ok (lookup (ofLists settings.chunks) name)) := by
  unfold lookupFor
  rw [h]
  exact .pure _

end Chunk

namespace Rendering

variable {chunkFile : String → Action σ (Option String)}

section Within

variable {R : Session σ → Session σ → Prop} [Std.Refl R] [IsTrans (Session σ) R]

/-- Collecting the tags of chunks changes a session only as looking up their files does, and logs.
-/
theorem scriptGroups_within (hlog : ∀ s log, R s { s with log })
    (h : ∀ name, (chunkFile name).Within R) (groups : List ScriptGroup)
    (chunks : List ScriptChunk) : (scriptGroups chunkFile groups chunks).Within R := by
  induction chunks generalizing groups with
  | nil => exact .pure _
  | cons chunk rest ih =>
    unfold scriptGroups
    refine (h chunk.name).bind fun file? => ?_
    cases file?.filter (!·.isEmpty) with
    | some file => exact ih _
    | none => exact Action.Within.bind (fun s => hlog s _) fun _ => (ih _).bind fun _ => .pure _

/-- Inserting tags by their placement changes nothing but the log. -/
theorem insertGroups_within (hlog : ∀ s log, R s { s with log }) (page : List Char)
    (groups : List ScriptGroup) : (insertGroups page groups : Action σ (List Char)).Within R := by
  induction groups generalizing page with
  | nil => exact .pure _
  | cons g rest ih =>
    unfold insertGroups
    split
    · exact ih _
    · split
      · exact ih _
      · exact Action.Within.bind (fun s => hlog s _) fun _ => ih _

/-- Inserting the scripts of a page changes a session only as looking up files of chunks does, and
logs. -/
theorem insertScripts_within (hlog : ∀ s log, R s { s with log })
    (h : ∀ name, (chunkFile name).Within R) (chunks : List ScriptChunk) (page : List Char) :
    (insertScripts chunkFile chunks page).Within R :=
  (scriptGroups_within hlog h [] chunks).bind fun _ =>
    (insertGroups_within hlog _ _).bind fun _ => .pure _

end Within

/-- The tags of chunks do not depend on the session if their files do not. -/
theorem scriptGroups_answers (h : ∀ name, ∃ x, (chunkFile name).Answers (.ok x))
    (groups : List ScriptGroup) (chunks : List ScriptChunk) :
    ∃ x, (scriptGroups chunkFile groups chunks).Answers (.ok x) := by
  induction chunks generalizing groups with
  | nil => exact ⟨_, .pure _⟩
  | cons chunk rest ih =>
    obtain ⟨file?, hfile⟩ := h chunk.name
    unfold scriptGroups
    cases hfilter : file?.filter (!·.isEmpty) with
    | some file =>
      obtain ⟨x, hx⟩ :=
        ih (addTag groups (if chunk.placement.isEmpty then "body" else chunk.placement)
          (Markup.scriptTag (Address.ofFile file) chunk.attributes).toList)
      refine ⟨x, hfile.bind ?_⟩
      rw [hfilter]
      exact hx
    | none =>
      -- A chunk without a file adds no tag, but a warning.
      obtain ⟨⟨groups', warnings⟩, hx⟩ := ih groups
      refine ⟨(groups', ("Script chunk not found: " ++ chunk.name) :: warnings), hfile.bind ?_⟩
      rw [hfilter]
      exact (Action.Answers.say _ _ _).bind (hx.bind (.pure _))

/-- A page with the tags of each placement. -/
def withGroups (page : List Char) (groups : List ScriptGroup) : List Char :=
  groups.foldl
    (fun page g => if g.placement == "head" then Markup.insertInHead g.tags page
      else Markup.insertInBody g.tags page)
    page

/-- The page with its tags does not depend on the session. -/
theorem insertGroups_answers (page : List Char) (groups : List ScriptGroup) :
    (insertGroups page groups : Action σ (List Char)).Answers (.ok (withGroups page groups)) := by
  induction groups generalizing page with
  | nil => exact .pure _
  | cons g groups ih =>
    unfold insertGroups withGroups
    rw [List.foldl_cons]
    by_cases hplacement : (g.placement == "head") = true
    · rw [if_pos hplacement, if_pos hplacement]
      exact ih _
    · rw [if_neg hplacement, if_neg hplacement, Markup.insertInBody]
      cases Markup.insertInBody? g.tags page with
      | some page' => exact ih page'
      | none => exact (Action.Answers.say _ _ _).bind (ih page)

/-- The page with its scripts does not depend on the session if the files of chunks do not. -/
theorem insertScripts_answers (h : ∀ name, ∃ x, (chunkFile name).Answers (.ok x))
    (chunks : List ScriptChunk) (page : List Char) :
    ∃ x, (insertScripts chunkFile chunks page).Answers (.ok x) := by
  obtain ⟨⟨groups, warnings⟩, hgroups⟩ := scriptGroups_answers h [] chunks
  exact ⟨_, hgroups.bind ((insertGroups_answers page groups).bind (.pure _))⟩

variable {r : Renderer σ} {page : Page} {shared : Option Page} {settings : Settings}

/-- Adds the links to a page. -/
def withLinks (page : Page) (shared : Option Page) (names : OutputNames)
    (text : List Char) : List Char :=
  let text := Markup.insertLinks (names.lookup ·) ((shared.map (·.styles)).getD []) text
  let text := Markup.insertLinks (names.lookup ·) page.styles text
  match page.canonical, page.filename with
  | some c, some filename =>
      if filename.isEmpty then text else Markup.insertCanonical c filename text
  | _, _ => text

/-- An expanded page with its links. -/
def linked (r : Renderer σ) (page : Page) (shared : Option Page) (names : OutputNames)
    (content : List Char) : List Char :=
  withLinks page shared names
    (if r.optimized then Markup.minify (.ofMapping r.minify) content else content)

/-- Adds the scripts to a page with its links. -/
def withScripts (r : Renderer σ) (page : Page) (shared : Option Page) (bundle : Bundle)
    (text : List Char) :
    Action σ Rendered := do
  let (text, sharedWarnings) ← insertScripts r.parts.chunkFile
    ((shared.map (·.chunks)).getD []) text
  let (text, warnings) ← insertScripts r.parts.chunkFile page.chunks text
  return ⟨text, bundle, bundle.warnings ++ sharedWarnings ++ warnings⟩

/-- Minifies a page that is made for visitors. -/
def minified (r : Renderer σ) (content : List Char) : Action σ (List Char) :=
  if r.optimized then r.parts.minify content r.minify else pure content

/-- A page is expanded, minified, linked and given its scripts. -/
theorem render_eq_bind (shared : Option Page) {source : Path}
    (hsource : page.source = some source) :
    render r page shared = (do
      let bundle ← expandPage r source
      let text ← minified r bundle.content
      withScripts r page shared bundle (withLinks page shared (← get).names text)) := by
  unfold render minified
  rw [hsource]
  by_cases h : r.optimized = true
  · simp only [h, if_true]
    rfl
  · simp only [h, Bool.false_eq_true, if_false]
    rfl

/-- Expanding a page adds to the log. -/
theorem expandPage_apply (r : Renderer σ) (source : Path) (s : Session σ) : expandPage r source s =
    (.ok (r.expander.resolve s.place (r.parts.store.readText s) source).1,
      { s with log :=
        s.log ++ (r.expander.resolve s.place (r.parts.store.readText s) source).2.log }) := by
  unfold expandPage
  rw [bind_apply_ok (get_apply s)]
  rfl

section Within

variable {R : Session σ → Session σ → Prop} [Std.Refl R] [IsTrans (Session σ) R]

/-- Adding the scripts to a page changes a session only as looking up files of chunks does, and
logs. -/
theorem withScripts_within (hlog : ∀ s log, R s { s with log })
    (hchunk : ∀ name, (r.parts.chunkFile name).Within R) (page : Page) (shared : Option Page)
    (bundle : Bundle) (text : List Char) : (withScripts r page shared bundle text).Within R :=
  (insertScripts_within hlog hchunk _ _).bind fun _ =>
    (insertScripts_within hlog hchunk _ _).bind fun _ => .pure _

/-- Rendering a page changes no more than the log and what the minifier and the lookup of chunks
change. -/
theorem render_within (hlog : ∀ s log, R s { s with log })
    (hminify : ∀ text options, (r.parts.minify text options).Within R)
    (hchunk : ∀ name, (r.parts.chunkFile name).Within R) (page : Page) (shared : Option Page) :
    (render r page shared).Within R := by
  cases hsource : page.source with
  | none =>
    unfold render
    rw [hsource]
    exact .throw _
  | some source =>
    rw [render_eq_bind shared hsource]
    refine Action.Within.bind ?_ fun bundle => Action.Within.bind ?_ fun text =>
      Action.Within.get.bind fun s =>
        withScripts_within hlog hchunk page shared bundle _
    · intro s
      rw [expandPage_apply]
      exact hlog s _
    · unfold minified
      split
      · exact hminify _ _
      · exact .pure _

end Within

/-- The links of a text depend on the names of its stylesheets alone. -/
theorem insertLinks_congr {nameOf nameOf' : Stylesheet → Option String} {styles : List Stylesheet}
    (h : ∀ style ∈ styles, nameOf' style = nameOf style) (text : List Char) :
    Markup.insertLinks nameOf' styles text = Markup.insertLinks nameOf styles text := by
  have htags : (styles.flatMap fun s => (Markup.linkTag ((nameOf' s).getD s.filename)).toList) =
      styles.flatMap fun s => (Markup.linkTag ((nameOf s).getD s.filename)).toList :=
    List.flatMap_congr fun s hs => by rw [h s hs]
  unfold Markup.insertLinks
  rw [htags]

/-- The links of a page come from the names of the stylesheets that it links. -/
theorem withLinks_congr {names names' : OutputNames}
    (hshared : ∀ style ∈ (shared.map (·.styles)).getD [],
      names'.lookup style = names.lookup style)
    (hown : ∀ style ∈ page.styles, names'.lookup style = names.lookup style) (text : List Char) :
    withLinks page shared names' text = withLinks page shared names text := by
  simp only [withLinks, insertLinks_congr hshared, insertLinks_congr hown]

/-- The links of a page depend on the names of the stylesheets that it or the shared page has. -/
theorem linked_congr {names names' : OutputNames}
    (hshared : ∀ style ∈ (shared.map (·.styles)).getD [],
      names'.lookup style = names.lookup style)
    (hown : ∀ style ∈ page.styles, names'.lookup style = names.lookup style) (content : List Char) :
    linked r page shared names' content = linked r page shared names content :=
  withLinks_congr hshared hown _

/-- A page is expanded and linked before its scripts are added. -/
theorem render_apply (shared : Option Page) (hparts : r.parts = .standard settings) {source : Path}
    (hsource : page.source = some source) (s : Session σ) :
    ∃ log, render r page shared s =
      withScripts r page shared (r.expander.resolve s.place s.readText source).1
        (linked r page shared s.names (r.expander.resolve s.place s.readText source).1.content)
        { s with log } := by
  have hexpand : expandPage r source s = (.ok (r.expander.resolve s.place s.readText source).1,
      { s with log := s.log ++ (r.expander.resolve s.place s.readText source).2.log }) := by
    rw [expandPage_apply, hparts]
    rfl
  -- Minifying neither fails nor changes the session.
  have hminify : ∀ content s', minified r content s' =
      (.ok (if r.optimized then Markup.minify (.ofMapping r.minify) content else content), s') := by
    intro content s'
    unfold minified
    rw [hparts]
    split <;> rfl
  refine ⟨s.log ++ (r.expander.resolve s.place s.readText source).2.log, ?_⟩
  rw [render_eq_bind shared hsource, bind_apply_ok hexpand, bind_apply_ok (hminify _ _),
    bind_apply_ok (get_apply _)]
  rfl

/-- Rendering a page is quiet. -/
theorem render_isQuiet (hparts : r.parts = .standard settings) (page : Page)
    (shared : Option Page) : (render r page shared).IsQuiet := by
  refine render_within (fun s log => ⟨log, s.manifest, rfl⟩) ?_ ?_ page shared
  · rw [hparts]
    exact fun _ _ => .pure _
  · rw [hparts]
    exact Chunk.lookupFor_isQuiet settings

/-- The bundle of a page that is rendered is what its source expands to. -/
theorem bundle_of_render {source : Path} (hsource : page.source = some source) {s : Session σ}
    {rendered : Rendered} (h : (render r page shared s).1 = .ok rendered) :
    rendered.bundle = (r.expander.resolve s.place (r.parts.store.readText s) source).1 := by
  generalize hs : render r page shared s = result at h
  obtain ⟨x, s'⟩ := result
  obtain rfl : x = .ok rendered := h
  rw [render_eq_bind shared hsource] at hs
  obtain ⟨bundle, s₁, hexpand, hs⟩ := bind_apply_eq_ok.1 hs
  obtain ⟨text, s₂, -, hs⟩ := bind_apply_eq_ok.1 hs
  obtain ⟨s₃, s₄, -, hs⟩ := bind_apply_eq_ok.1 hs
  obtain ⟨first, s₅, -, hs⟩ := bind_apply_eq_ok.1 hs
  obtain ⟨second, s₆, -, hs⟩ := bind_apply_eq_ok.1 hs
  cases hs
  -- Adding links and scripts does not touch the bundle.
  rw [expandPage_apply] at hexpand
  cases hexpand
  rfl

/-- A page that is rendered has a source. -/
theorem source_of_render {s : Session σ} {rendered : Rendered}
    (h : (render r page shared s).1 = .ok rendered) :
    ∃ source, page.source = some source := by
  cases hsource : page.source with
  | none =>
    unfold render at h
    rw [hsource] at h
    cases h
  | some source => exact ⟨source, rfl⟩

/-- Without a manifest the scripts of a page are the same in every session. -/
theorem withScripts_answers (hparts : r.parts = .standard settings)
    (hmanifest : settings.manifest = none) (page : Page) (shared : Option Page) (bundle : Bundle)
    (text : List Char) :
    ∃ rendered, (withScripts r page shared bundle text).Answers (.ok rendered) ∧
      rendered.bundle = bundle := by
  have hchunk : ∀ name, ∃ x, (r.parts.chunkFile name).Answers (.ok x) := by
    intro name
    rw [hparts]
    exact ⟨_, Chunk.lookupFor_answers hmanifest name⟩
  obtain ⟨⟨text', sharedWarnings⟩, hshared⟩ :=
    insertScripts_answers hchunk ((shared.map (·.chunks)).getD []) text
  obtain ⟨⟨text'', warnings⟩, hown⟩ := insertScripts_answers hchunk page.chunks text'
  exact ⟨⟨text'', bundle, bundle.warnings ++ sharedWarnings ++ warnings⟩,
    hshared.bind (hown.bind (.pure _)), rfl⟩

/-- Without a manifest, what a page is rendered to comes from what its source expands to and the
names of the stylesheets that it links. -/
theorem render_congr (hparts : r.parts = .standard settings) (hmanifest : settings.manifest = none)
    {source : Path} (hsource : page.source = some source) {s s' : Session σ}
    (hbundle : (r.expander.resolve s'.place s'.readText source).1 =
      (r.expander.resolve s.place s.readText source).1)
    (hshared : ∀ style ∈ (shared.map (·.styles)).getD [], s'.names.lookup style =
      s.names.lookup style)
    (hown : ∀ style ∈ page.styles, s'.names.lookup style = s.names.lookup style) :
    (render r page shared s').1 = (render r page shared s).1 := by
  obtain ⟨log, h⟩ := render_apply shared hparts hsource s
  obtain ⟨log', h'⟩ := render_apply shared hparts hsource s'
  -- From here on both sessions do the same, which adds scripts to the same text.
  rw [hbundle, linked_congr hshared hown] at h'
  obtain ⟨rendered, hanswers, -⟩ := withScripts_answers hparts hmanifest page shared
    (r.expander.resolve s.place s.readText source).1
    (linked r page shared s.names (r.expander.resolve s.place s.readText source).1.content)
  obtain ⟨log₁, h₁⟩ := hanswers { s with log }
  obtain ⟨log₂, h₂⟩ := hanswers { s' with log := log' }
  rw [h, h', h₁, h₂]

/-- The file to which a page is written. -/
def outputPath (r : Renderer σ) (place : Place) (page : Page) : Path :=
  Output.path place r.output (outputName page)

/-- How the building of a page ends in a session: it cannot be rendered, its file is refused, or it
is written. -/
inductive Built (r : Renderer σ) (page : Page) (shared : Option Page) (s : Session σ) :
    Except Fault Written → Session σ → Prop where
  /-- It cannot be rendered. -/
  | failed (fault : Fault) (log : List Log.Line) (manifest : ManifestMemory)
      (hrender : (render r page shared s).1 = .error fault) :
      Built r page shared s (.error fault) { s with log, manifest }
  /-- The tree does not accept its file. -/
  | refused (rendered : Rendered) (fault : Fault) (tree : Tree) (clock : Nat) (log : List Log.Line)
      (manifest : ManifestMemory) (hrender : (render r page shared s).1 = .ok rendered)
      (hrefused : ¬s.tree.Accepts (outputPath r s.place page))
      (htree : Tree.Grows (outputPath r s.place page).names.dropLast s.tree tree) :
      Built r page shared s (.error fault) { s with tree, clock, log, manifest }
  /-- It is written. -/
  | written (rendered : Rendered) (source : Path) (tree : Tree) (clock : Nat) (log : List Log.Line)
      (manifest : ManifestMemory) (hrender : (render r page shared s).1 = .ok rendered)
      (hsource : page.source = some source)
      (haccepts : s.tree.Accepts (outputPath r s.place page))
      (htree : Tree.Wrote (outputPath r s.place page).names
        (Text.encode (String.ofList rendered.text))
        s.tree tree) :
      Built r page shared s
        (.ok ⟨source, outputName page, outputPath r s.place page, rendered.bundle,
          rendered.warnings⟩)
        { s with tree, clock, log, manifest }

/-- Building a page ends in one of three ways. -/
theorem build_spec (hparts : r.parts = .standard settings) (page : Page) (shared : Option Page)
    {s : Session σ} (hcwd : s.place.cwd.isAbsolute = true) :
    ∃ x s', build r page shared s = (x, s') ∧ Built r page shared s x s' := by
  -- Rendering left the tree and the place alone, so that the file is written as from the first
  -- session.
  obtain ⟨log, manifest, hquiet⟩ := render_isQuiet hparts page shared s
  cases hrender : (render r page shared s).1 with
  | error fault =>
    have happly : render r page shared s = (.error fault, { s with log, manifest }) :=
      Prod.ext hrender hquiet
    unfold build
    rw [bind_apply_error happly]
    exact ⟨_, _, rfl, .failed fault log manifest hrender⟩
  | ok rendered =>
    have happly : render r page shared s = (.ok rendered, { s with log, manifest }) :=
      Prod.ext hrender hquiet
    obtain ⟨source, hsource⟩ := source_of_render hrender
    unfold build
    rw [bind_apply_ok happly, hparts]
    obtain ⟨tree, clock, log', ⟨haccepts, hwrote, hwrite⟩ | ⟨hrefused, hgrows, fault, hwrite⟩⟩ :=
      Output.write_spec r.output (outputName page) (String.ofList rendered.text)
        (s := { s with log, manifest }) hcwd
    · simp only [Collaborators.standard]
      rw [bind_apply_ok hwrite, bind_apply_ok (Action.say_apply _ _ _ _), hsource]
      exact ⟨_, _, rfl, .written rendered source tree clock _ manifest hrender hsource
        haccepts hwrote⟩
    · simp only [Collaborators.standard]
      rw [bind_apply_error hwrite]
      exact ⟨_, _, rfl, .refused rendered fault tree clock log' manifest hrender hrefused hgrows⟩

end Rendering

end StaticSite
