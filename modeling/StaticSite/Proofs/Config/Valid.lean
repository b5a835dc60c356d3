import StaticSite.Build.Pass
import StaticSite.Config.Bundled
import StaticSite.Proofs.Config.Field
import StaticSite.Proofs.Config.Libraries

/-!
# Valid configurations make settings

The schema of configurations and the making of settings are two descriptions of one format. Here
they are held against each other: for each schema of `Config.Rules` a lemma says what is made of a
value that satisfies it. Nothing in a valid configuration is of the wrong kind, so that only two
things are left that can keep settings from being made: a path that begins with the home mark and a
user's name that cannot be looked up, and a name that is a whole number of too many digits
(`IsSpelled`). `valid_buildable` says that these are all.
-/

namespace StaticSite

/-- An entry is what an item of a configuration describes: a directory if the item has a source
path, and otherwise a page. -/
def SiteEntry.IsOf (item : Value × Value) : SiteEntry → Prop
  | .assets a => a.key = item.1 ∧ ∃ m, item.2.member? "src_path" = some m
  | .page p => p.key = item.1 ∧ item.2.member? "src_path" = none

namespace Config

open Schema

variable {α : Type}

/-! ### The parts of an entry -/

section

variable {v : Value} {place : Place} {root : Path}

/-- A text is a path if and only if the home directory in it is known. -/
theorem makes_pathOf (place : Place) (root : Path) (s : String) :
    Makes (pathOf place root (.text s)) ↔ Path.hasHome s = true := by
  rw [pathOf, textOf_text, ok_bind]
  split <;> rename_i h
  · exact iff_of_true (makes_pure _) h
  · exact iff_of_false (not_makes_error _) h

/-- A stylesheet is made if its source can be looked up. -/
theorem makes_stylesheetOf (h : Rules.stylesheet.Accepts v) :
    Makes (stylesheetOf place root v) ↔ ∀ s ∈ v.textsAt "import", Path.hasHome s = true := by
  obtain ⟨entries, rfl, hrules⟩ := exists_of_object h
  simp only [List.forall_mem_cons, holds_required, holds_properties] at hrules
  obtain ⟨⟨⟨source, hsource⟩, ⟨filename, hfilename⟩, -⟩, ⟨himport, hname, -⟩, -⟩ := hrules
  obtain ⟨s, rfl⟩ := exists_of_nonEmptyText (himport source hsource)
  obtain ⟨t, rfl⟩ := exists_of_nonEmptyText (hname filename hfilename)
  have htexts : (Value.mapping entries).textsAt "import" = [s] := by
    simp only [Value.textsAt, Value.member?, hsource]
  rw [htexts, List.forall_mem_singleton, ← makes_pathOf place root, stylesheetOf,
    need_mapping hsource, ok_bind, need_mapping hfilename]
  exact makes_bind_of_makes fun p => makes_pure _

/-- A script chunk is made. -/
theorem makes_scriptChunkOf (h : Rules.scriptChunk.Accepts v) : Makes (scriptChunkOf v) := by
  obtain ⟨entries, rfl, hrules⟩ := exists_of_object h
  simp only [List.forall_mem_cons, holds_required, holds_properties] at hrules
  obtain ⟨⟨⟨name, hname⟩, -⟩, ⟨htext, hinject, hattributes, -⟩, -⟩ := hrules
  obtain ⟨s, rfl⟩ := exists_of_nonEmptyText (htext name hname)
  obtain ⟨placement, hplacement, -⟩ := fieldOr_text entries "inject" "body" fun m hm =>
    (exists_of_oneOfTexts (hinject m hm)).imp fun _ h => h.2
  have hfield := fieldOr_entries entries "attributes" fun m hm =>
    (exists_of_object (hattributes m hm)).imp fun _ h => h.1
  rw [scriptChunkOf, need_mapping hname, ok_bind, textOf_text, ok_bind, hplacement,
    ok_bind, textOf_text, ok_bind, hfield]
  exact makes_pure _

/-- Of a value that is there and counts as true something is made, if it can be made of that
value. -/
theorem makes_ifTruthy {o : Option Value} {f : Value → Except Fault α}
    (h : ∀ m, o = some m → m.isTruthy = true → Makes (f m)) : Makes (ifTruthy o f) := by
  unfold ifTruthy
  cases o with
  | none => exact makes_ok _
  | some m =>
    dsimp only
    split <;> rename_i htruthy
    · exact makes_map.2 (h m rfl htruthy)
    · exact makes_ok _

/-- The rule for canonical addresses is made. -/
theorem makes_canonicalOf {o : Option Value} (h : ∀ m, o = some m → Rules.canonical.Accepts m) :
    Makes (canonicalOf o) := by
  refine makes_ifTruthy fun m hm _ => ?_
  obtain ⟨entries, rfl, hrules⟩ := exists_of_object (h m hm)
  simp only [List.forall_mem_cons, holds_required, holds_properties] at hrules
  obtain ⟨⟨⟨origin, horigin⟩, -⟩, ⟨htext, -⟩, -⟩ := hrules
  obtain ⟨s, rfl⟩ := accepts_anyText.1 (htext origin horigin)
  rw [need_mapping horigin, ok_bind, textOf_text]
  exact ⟨_, rfl⟩

/-! ### Entries -/

/-- The texts of an item of a configuration that are read as paths. -/
def itemPaths (item : Value) : List String :=
  item.textsAt "src_path" ++ item.textsAt "import" ++ (item.listAt "styles").flatMap
    (·.textsAt "import")

/-- A path is made of a text that is there and not empty, if it can be looked up. -/
theorem makes_ifTruthy_pathOf {key : String}
    (h : ∀ m, v.member? key = some m → m.isTruthy = true → ∃ s, m = .text s) :
    Makes (ifTruthy (v.member? key) (pathOf place root)) ↔
      ∀ s ∈ v.textsAt key, Path.hasHome s = true := by
  unfold ifTruthy Value.textsAt
  cases hm : v.member? key with
  | none => exact iff_of_true (makes_ok _) (fun _ hs => nomatch hs)
  | some m =>
    dsimp only
    by_cases htruthy : m.isTruthy = true
    · obtain ⟨s, rfl⟩ := h m hm htruthy
      rw [if_pos htruthy, makes_map, makes_pathOf, List.forall_mem_singleton]
    · rw [if_neg htruthy]
      refine iff_of_true (makes_ok _) fun s hs => ?_
      -- Only a text gives a path, and a text that counts as false is empty.
      cases m with
      | text t =>
        have hempty : t = "" := by simpa [Value.isTruthy] using htruthy
        rw [List.mem_singleton.1 hs, hempty]
        rfl
      | _ => cases hs

/-- A text that is there and not empty is taken as it is. -/
theorem makes_ifTruthy_textOf {o : Option Value} (h : ∀ m, o = some m → ∃ s, m = .text s) :
    Makes (ifTruthy o textOf) := by
  refine makes_ifTruthy fun m hm _ => ?_
  obtain ⟨s, rfl⟩ := h m hm
  exact ⟨s, textOf_text s⟩

/-- An item with a source path is made a directory if the path can be looked up. -/
theorem makes_entryOf_assets (key : Value) (h : Rules.assetDirectory.Accepts v) :
    (Makes (entryOf place root key v) ↔ ∀ s ∈ itemPaths v, Path.hasHome s = true) ∧
      ∀ e, entryOf place root key v = .ok e → e.IsOf (key, v) := by
  obtain ⟨entries, rfl, hrules⟩ := exists_of_object h
  simp only [List.forall_mem_cons, holds_required, holds_properties, holds_noOthers] at hrules
  obtain ⟨⟨⟨source, hsource⟩, -⟩, ⟨hpath, htarget, -⟩, hothers, -⟩ := hrules
  obtain ⟨s, rfl⟩ := accepts_anyText.1 (hpath source hsource)
  obtain ⟨target, hfield, -⟩ := fieldOr_text entries "dest_path" "" fun m hm =>
    accepts_anyText.1 (htarget m hm)
  -- The item has no other key, so the only path in it is the source.
  have hnone : ∀ key, key ∉ ["src_path", "dest_path"] →
      (Value.mapping entries).member? key = none :=
    fun key hkey => find?_eq_none_of_noOthers hothers hkey
  have hpaths : itemPaths (.mapping entries) = [s] := by
    have hmember : (Value.mapping entries).member? "src_path" = some (.text s) := hsource
    rw [itemPaths, Value.textsAt_of_member?_eq_some hmember,
      Value.textsAt_of_member?_eq_none (hnone "import" (by decide)),
      Value.listAt_of_member?_eq_none (hnone "styles" (by decide))]
    rfl
  have hholds : holds (.mapping entries) "src_path" = .ok true := by
    rw [holds, hsource]
    rfl
  have hentry : entryOf place root key (.mapping entries) =
      (pathOf place root (.text s) >>= fun p => pure (.assets ⟨key, p, target⟩)) := by
    rw [entryOf, hholds, ok_bind, if_pos rfl, need_mapping hsource, ok_bind]
    simp only [hfield, ok_bind, textOf_text]
  rw [hentry, hpaths, List.forall_mem_singleton, ← makes_pathOf place root]
  refine ⟨makes_bind_of_makes fun p => makes_pure _, fun e he => ?_⟩
  obtain ⟨p, -, he⟩ := bind_eq_ok.1 he
  rw [← Except.ok.inj he]
  exact ⟨rfl, .text s, hsource⟩

/-- An item without a source path is made a page if its source and those of its stylesheets can be
looked up. -/
theorem makes_entryOf_page (key : Value) (h : Rules.page.Accepts v) :
    (Makes (entryOf place root key v) ↔ ∀ s ∈ itemPaths v, Path.hasHome s = true) ∧
      ∀ e, entryOf place root key v = .ok e → e.IsOf (key, v) := by
  obtain ⟨entries, rfl, hrules⟩ := exists_of_object h
  simp only [List.forall_mem_cons, holds_never, holds_properties] at hrules
  obtain ⟨hnever, ⟨himport, hfilename, hstyles, hchunks, hcanonical, -⟩, -⟩ := hrules
  have hsource : (Value.mapping entries).member? "src_path" = none := by
    rw [Option.eq_none_iff_forall_ne_some]
    intro m hm
    refine hnever (accepts_iff.2 ?_)
    simpa using ⟨m, hm⟩
  have hholds : holds (.mapping entries) "src_path" = .ok false := by
    have hfind : Mapping.find? entries "src_path" = none := hsource
    rw [holds, hfind]
    rfl
  obtain ⟨hstyles, hsheets⟩ := fieldOr_items_of_accepts entries "styles" hstyles
  obtain ⟨hlist, hchunks⟩ := fieldOr_items_of_accepts entries "jschunks" hchunks
  have hpaths : itemPaths (.mapping entries) = (Value.mapping entries).textsAt "import" ++
      ((Value.mapping entries).listAt "styles").flatMap (·.textsAt "import") := by
    rw [itemPaths, Value.textsAt_of_member?_eq_none hsource, List.nil_append]
  -- Script chunks, the canonical address and the filename are made in any case.
  obtain ⟨chunks, hchunks⟩ : Makes
      (((Value.mapping entries).listAt "jschunks").mapM scriptChunkOf) :=
    makes_mapM.2 fun m hm => makes_scriptChunkOf (accepts_shared.1 (hchunks m hm))
  obtain ⟨canonical, hcanonical⟩ : Makes
      (canonicalOf ((Value.mapping entries).member? "canonical")) :=
    makes_canonicalOf fun m hm => accepts_shared.1 (hcanonical m hm)
  obtain ⟨filename, hfilename⟩ : Makes
      (ifTruthy ((Value.mapping entries).member? "filename") textOf) :=
    makes_ifTruthy_textOf fun m hm => exists_of_nonEmptyText (hfilename m hm)
  have hsheets : Makes (((Value.mapping entries).listAt "styles").mapM (stylesheetOf place root)) ↔
      ∀ s ∈ ((Value.mapping entries).listAt "styles").flatMap (·.textsAt "import"),
        Path.hasHome s = true := by
    rw [makes_mapM, List.forall_mem_flatMap]
    exact forall₂_congr fun m hm => makes_stylesheetOf (accepts_shared.1 (hsheets m hm))
  have himport : Makes (ifTruthy ((Value.mapping entries).member? "import") (pathOf place root)) ↔
      ∀ s ∈ (Value.mapping entries).textsAt "import", Path.hasHome s = true :=
    makes_ifTruthy_pathOf fun m hm _ => exists_of_nonEmptyText (himport m hm)
  have hentry : entryOf place root key (.mapping entries) =
      (((Value.mapping entries).listAt "styles").mapM (stylesheetOf place root) >>= fun styles =>
        ifTruthy ((Value.mapping entries).member? "import") (pathOf place root) >>= fun source =>
          pure (.page ⟨key, source, filename, styles, chunks, canonical⟩)) := by
    rw [entryOf, hholds, ok_bind, if_neg Bool.false_ne_true, hstyles]
    simp only [hlist, members, ok_bind, hchunks, field?_mapping, hcanonical, hfilename]
  rw [hentry, hpaths, List.forall_mem_append, ← hsheets, ← himport, makes_bind]
  constructor
  · constructor
    · rintro ⟨styles, hstyles, h⟩
      obtain ⟨source, hsource, -⟩ := makes_bind.1 h
      exact ⟨⟨source, hsource⟩, styles, hstyles⟩
    · rintro ⟨⟨source, hsource⟩, styles, hstyles⟩
      exact ⟨styles, hstyles, makes_bind.2 ⟨source, hsource, makes_pure _⟩⟩
  · intro e he
    obtain ⟨styles, -, he⟩ := bind_eq_ok.1 he
    obtain ⟨source, -, he⟩ := bind_eq_ok.1 he
    rw [← Except.ok.inj he]
    exact ⟨rfl, hsource⟩

/-- An item of a valid configuration is made the entry that it describes, if its paths can be looked
up. -/
theorem makes_entryOf (key : Value)
    (h : Accepts
      [.exactlyOne
        [[.shared "assetDirEntry" Rules.assetDirectory], [.shared "pageEntry" Rules.page]]] v) :
    (Makes (entryOf place root key v) ↔ ∀ s ∈ itemPaths v, Path.hasHome s = true) ∧
      ∀ e, entryOf place root key v = .ok e → e.IsOf (key, v) := by
  obtain ⟨s, hs, hv⟩ := exists_of_exactlyOne h
  rcases List.mem_pair.1 hs with rfl | rfl
  · exact makes_entryOf_assets key (accepts_shared.1 hv)
  · exact makes_entryOf_page key (accepts_shared.1 hv)

end

/-! ### The other parts of a configuration -/

section

variable {v : Value} {entries : Mapping}

/-- Texts are taken as they are. -/
theorem makes_mapM_textOf {items : List Value} (h : ∀ m ∈ items, Rules.anyText.Accepts m) :
    Makes (items.mapM textOf) := by
  refine makes_mapM.2 fun m hm => ?_
  obtain ⟨s, rfl⟩ := accepts_anyText.1 (h m hm)
  exact ⟨s, textOf_text s⟩

/-- The rules for the sitemap are made. -/
theorem makes_sitemapOf {o : Option Value}
    (h : ∀ m, o = some m →
      Accepts [.exactlyOne [[.shapes [.null]], [.shared "sitemap" Rules.sitemap]]] m) :
    Makes (sitemapOf o) := by
  refine makes_ifTruthy fun m hm htruthy => ?_
  obtain ⟨s, hs, hm⟩ := exists_of_exactlyOne (h m hm)
  rcases List.mem_pair.1 hs with rfl | rfl
  · have hnull : m = .null := by
      simpa only [accepts_shapes, List.mem_singleton, exists_eq_left, has_null] using hm
    rw [hnull] at htruthy
    cases htruthy
  · obtain ⟨entries, rfl, hrules⟩ := exists_of_object (accepts_shared.1 hm)
    simp only [List.forall_mem_cons, holds_required, holds_properties] at hrules
    obtain ⟨⟨⟨origin, horigin⟩, -⟩, ⟨htext, hday, hexclude, hlisted, -⟩, -⟩ := hrules
    obtain ⟨s, rfl⟩ := accepts_anyText.1 (htext origin horigin)
    obtain ⟨day, hday⟩ : Makes (ifTruthy ((Value.mapping entries).member? "lastmod") textOf) :=
      makes_ifTruthy_textOf fun m hm => accepts_anyText.1 (hday m hm)
    obtain ⟨hfield, hexclude⟩ := fieldOr_items_of_accepts entries "exclude" hexclude
    obtain ⟨exclude, hexclude⟩ := makes_mapM_textOf hexclude
    simp only [field?_mapping, ok_bind, need_mapping horigin, textOf_text, hday, hfield,
      members, hexclude]
    cases hm : (Value.mapping entries).member? "include" with
    | none => exact ⟨_, rfl⟩
    | some m =>
      obtain ⟨items, rfl, hitems⟩ := exists_of_items (hlisted m hm)
      obtain ⟨listed, hlisted⟩ := makes_mapM_textOf hitems
      simp only [ok_bind, hlisted]
      exact ⟨_, rfl⟩

/-- A whole number is taken for one. -/
theorem makes_intOf (h : Shape.integer.has v = true) : Makes (intOf v) := by
  cases v with
  | int n => exact makes_ok n
  | float x =>
    have hparts : (Decimal.integral? x).isSome = true := h
    unfold Decimal.integral? at hparts
    rw [intOf]
    unfold Decimal.truncated?
    split at hparts
    · exact ⟨_, rfl⟩
    · cases hparts
  | _ => cases h

/-- The schema of the rules for includes. -/
abbrev includeRules : Schema := [
  .shapes [.object],
  .properties [
    ("prefix", Rules.anyText),
    ("pattern", [.oneOfTexts ["include", "import"]]),
    ("max_depth", [.shapes [.integer], .least 1])]]

/-- The rules for includes are made, with a mode that is known. -/
theorem exists_includesOf (h : ∀ m, Mapping.find? entries "includes" = some m →
      includeRules.Accepts m) :
    ∃ o mode, includesOf (.mapping entries) = .ok o ∧ IncludeMode.ofName? o.mode = some mode ∧
      o.properties = ((Value.mapping ((Value.mapping entries).mappingAt "includes")).member?
        "properties").getD (.mapping []) := by
  obtain ⟨hfield, hrules⟩ :=
    fieldOr_entries_of_accepts entries "includes" h (by simp [Mapping.find?])
  simp only [List.forall_mem_cons, holds_properties] at hrules
  obtain ⟨⟨hstart, hpattern, hlimit, -⟩, -⟩ := hrules
  generalize (Value.mapping entries).mappingAt "includes" = includes
    at hfield hstart hpattern hlimit ⊢
  obtain ⟨word, hword, -⟩ := fieldOr_text includes "prefix" "PageBundler" fun m hm =>
    accepts_anyText.1 (hstart m hm)
  obtain ⟨name, hname, hmode⟩ := fieldOr_text includes "pattern" "include" fun m hm =>
    (exists_of_oneOfTexts (hpattern m hm)).imp fun _ h => h.2
  obtain ⟨mode, hmode⟩ : ∃ mode, IncludeMode.ofName? name = some mode := by
    rcases hmode with ⟨rfl, -⟩ | hmode
    · exact ⟨.includes, rfl⟩
    · obtain ⟨t, ht, heq⟩ := exists_of_oneOfTexts (hpattern _ hmode)
      rw [Value.text.inj heq]
      rcases List.mem_pair.1 ht with rfl | rfl
      · exact ⟨.includes, rfl⟩
      · exact ⟨.imports, rfl⟩
  obtain ⟨limit, hlimit⟩ : Makes (intOf ((((Value.mapping includes).member? "max_depth").filter
      Value.isTruthy).getD (.int 32))) := by
    cases hm : ((Value.mapping includes).member? "max_depth").filter Value.isTruthy with
    | none => exact makes_ok 32
    | some m =>
      have hshape := hlimit m (Option.filter_eq_some_iff.1 hm).1
      simp only [accepts_iff, List.forall_mem_cons, holds_shapes, List.mem_singleton,
        exists_eq_left] at hshape
      exact makes_intOf hshape.1
  refine ⟨⟨word, name, ((Value.mapping includes).member? "properties").getD (.mapping []), limit⟩,
    mode, ?_, hmode, rfl⟩
  rw [includesOf, hfield]
  simp only [ok_bind, hword, hname, field?_mapping, fieldOr_mapping includes "max_depth",
    textOf_text, hlimit]
  rfl

/-- Script chunks are made if their names can be written. -/
theorem makes_chunksOf
    (hchunks : ∀ m, Mapping.find? entries "chunks" = some m → Accepts [
      .shapes [.object], .others [.exactlyOne [Rules.anyText, Rules.textList]]] m) :
    Makes (chunksOf (.mapping entries)) ↔
      ∀ e ∈ (Value.mapping entries).mappingAt "chunks", e.1.isWritable = true := by
  obtain ⟨hfield, hrules⟩ :=
    fieldOr_entries_of_accepts entries "chunks" hchunks (by simp [otherEntries])
  simp only [List.forall_mem_cons, holds_others] at hrules
  obtain ⟨hfiles, -⟩ := hrules
  simp only [namedKeys, otherEntries_nil] at hfiles
  rw [chunksOf, hfield, ok_bind, Config.entries, ok_bind]
  refine makes_foldlM [] fun e he chunks => ?_
  obtain ⟨files, hfiles⟩ : Makes (filesOf e.2) := by
    obtain ⟨s, hs, hv⟩ := exists_of_exactlyOne (hfiles e he)
    rcases List.mem_pair.1 hs with rfl | rfl
    · obtain ⟨s, hs⟩ := accepts_anyText.1 hv
      rw [hs]
      exact makes_ok _
    · obtain ⟨items, hitems, htexts⟩ := exists_of_items hv
      rw [hitems]
      exact makes_mapM_textOf htexts
  rw [hfiles, ok_bind, makes_bind_of_makes fun name => makes_pure _, textOf]
  split <;> rename_i hwritable
  · exact iff_of_true (makes_ok _) hwritable
  · exact iff_of_false (not_makes_error _) hwritable

end

/-! ### Whole configurations -/

/-- The texts of a configuration that are read as paths. -/
def paths (config : Value) : List String :=
  config.textsAt "output_path" ++ config.textsAt "chunk_manifest" ++
    (config.mappingAt "entry").flatMap fun item => itemPaths item.2

/-- The properties that a configuration gives directives. -/
def propertiesOf (config : Value) : Value :=
  ((Value.mapping (config.mappingAt "includes")).member? "properties").getD (.mapping [])

/-- What is left to ask of a valid configuration: the home directory of each path can be looked up,
and the name of each script chunk and of each property that is a text can be written. -/
structure IsSpelled (config : Value) : Prop where
  homes : ∀ s ∈ paths config, Path.hasHome s = true
  chunks : ∀ e ∈ config.mappingAt "chunks", e.1.isWritable = true
  properties : ∀ e ∈ (Value.mapping (config.mappingAt "includes")).mappingAt "properties",
    ∀ s, e.2 = .text s → e.1.isWritable = true

section

variable {v : Value}

/-- The output directory is made of its text, if that can be looked up, or is the default. -/
theorem exists_output {entries : Mapping}
    (h : ∀ m, Mapping.find? entries "output_path" = some m → Rules.nonEmptyText.Accepts m) :
    ∃ s, fieldOr (.mapping entries) "output_path" (.text "dist") = .ok (.text s) ∧
      (Path.hasHome s = true ↔ ∀ t ∈ (Value.mapping entries).textsAt "output_path",
        Path.hasHome t = true) := by
  obtain ⟨s, hs, htext⟩ :=
    fieldOr_text entries "output_path" "dist" fun m hm => exists_of_nonEmptyText (h m hm)
  refine ⟨s, hs, ?_⟩
  rcases htext with ⟨rfl, hempty⟩ | hmember
  · exact iff_of_true rfl fun t ht => hempty t ht ▸ rfl
  · rw [Value.textsAt_of_member?_eq_some hmember, List.forall_mem_singleton]

/-- Settings are made of a valid configuration if its paths can be looked up and the names of its
script chunks can be written. -/
theorem makes_settingsOf (place : Place) (root : Path) (h : Rules.configuration.Accepts v) :
    (Makes (settingsOf place root v) ↔
      (∀ s ∈ paths v, Path.hasHome s = true) ∧ ∀ e ∈ v.mappingAt "chunks", e.1.isWritable = true) ∧
    ∀ settings, settingsOf place root v = .ok settings →
      List.Forall₂ SiteEntry.IsOf (v.mappingAt "entry") settings.entries ∧
      (∃ mode, IncludeMode.ofName? settings.includes.mode = some mode) ∧
      settings.includes.properties = propertiesOf v := by
  have hrules := accepts_iff.1 h
  simp only [Rules.configuration, List.forall_mem_cons] at hrules
  obtain ⟨-, -, hshape, -, hfields, -⟩ := hrules
  simp only [holds_shapes, List.mem_singleton, exists_eq_left, has_object] at hshape
  obtain ⟨entries, rfl⟩ := hshape
  simp only [holds_properties, List.forall_mem_cons] at hfields
  obtain ⟨hmode, houtput, -, hincludes, hminify, hchunks, hmanifest, hentry, hsitemap, -⟩ := hfields
  -- What is made in any case.
  obtain ⟨includes, known, hincludes, hknown, hproperties⟩ := exists_includesOf hincludes
  obtain ⟨mode, hmode, -⟩ := fieldOr_text entries "mode" "development" fun m hm =>
    (exists_of_oneOfTexts (hmode m hm)).imp fun _ h => h.2
  have hminify :=
    fieldOr_entries entries "minify" fun m hm =>
      (exists_of_object (hminify m hm)).imp fun _ h => h.1
  obtain ⟨sitemap, hsitemap⟩ : Makes (sitemapOf ((Value.mapping entries).member? "sitemap")) :=
    makes_sitemapOf hsitemap
  -- What is made under a condition.
  have hchunks := makes_chunksOf hchunks
  obtain ⟨output, hfield, houtput⟩ := exists_output houtput
  have hmanifest : Makes
    (ifTruthy ((Value.mapping entries).member? "chunk_manifest") (pathOf place root)) ↔
      ∀ s ∈ (Value.mapping entries).textsAt "chunk_manifest", Path.hasHome s = true := by
    refine makes_ifTruthy_pathOf fun m hm htruthy => ?_
    have hshapes := hmanifest m hm
    simp only [accepts_shapes, List.mem_cons, List.not_mem_nil, or_false, exists_eq_or_imp,
      exists_eq_left, has_string, has_null] at hshapes
    rcases hshapes with htext | rfl
    · exact htext
    · cases htruthy
  obtain ⟨hitems, hentries⟩ :=
    fieldOr_entries_of_accepts entries "entry" hentry (by simp [otherEntries])
  simp only [List.forall_mem_singleton, holds_others, namedKeys, otherEntries_nil] at hentries
  have hmake : settingsOf place root (.mapping entries) =
      (chunksOf (.mapping entries) >>= fun chunks =>
        pathOf place root (.text output) >>= fun output =>
        ifTruthy ((Value.mapping entries).member? "chunk_manifest") (pathOf place root) >>=
            fun manifest =>
        ((Value.mapping entries).mappingAt "entry").mapM
            (fun e => entryOf place root e.1 e.2) >>= fun items =>
        pure ⟨root, output, mode,
          ((Value.mapping entries).member? "clean").any Value.isTruthy, includes,
            (Value.mapping entries).mappingAt "minify", chunks, manifest, items, sitemap⟩) := by
    rw [settingsOf, hincludes, ok_bind]
    simp only [field?_mapping, ok_bind, hfield, hmode, textOf_text, hminify, mappingOf, hitems,
      Config.entries, hsitemap]
  have hpaths : (∀ s ∈ paths (.mapping entries), Path.hasHome s = true) ↔
      (∀ t ∈ (Value.mapping entries).textsAt "output_path", Path.hasHome t = true) ∧
      (∀ s ∈ (Value.mapping entries).textsAt "chunk_manifest", Path.hasHome s = true) ∧
      ∀ e ∈ (Value.mapping entries).mappingAt "entry", ∀ s ∈ itemPaths e.2,
          Path.hasHome s = true := by
    rw [paths, List.forall_mem_append, List.forall_mem_append, List.forall_mem_flatMap, and_assoc]
  have hitems : Makes
    (((Value.mapping entries).mappingAt "entry").mapM fun e => entryOf place root e.1 e.2) ↔
      ∀ e ∈ (Value.mapping entries).mappingAt "entry", ∀ s ∈ itemPaths e.2,
        Path.hasHome s = true := by
    rw [makes_mapM]
    exact forall₂_congr fun e he => (makes_entryOf e.1 (hentries e he)).1
  rw [hmake]
  constructor
  · rw [hpaths, ← houtput, ← makes_pathOf place root output, ← hmanifest, ← hitems, ← hchunks]
    constructor
    · intro h
      obtain ⟨chunks, hchunks, h⟩ := makes_bind.1 h
      obtain ⟨output, houtput, h⟩ := makes_bind.1 h
      obtain ⟨manifest, hmanifest, h⟩ := makes_bind.1 h
      obtain ⟨items, hitems, -⟩ := makes_bind.1 h
      exact ⟨⟨⟨output, houtput⟩, ⟨manifest, hmanifest⟩, ⟨items, hitems⟩⟩, ⟨chunks, hchunks⟩⟩
    · rintro ⟨⟨⟨output, houtput⟩, ⟨manifest, hmanifest⟩, ⟨items, hitems⟩⟩, ⟨chunks, hchunks⟩⟩
      rw [hchunks, ok_bind, houtput, ok_bind, hmanifest, ok_bind, hitems]
      exact makes_ok _
  · intro settings h
    obtain ⟨chunks, -, h⟩ := bind_eq_ok.1 h
    obtain ⟨output, -, h⟩ := bind_eq_ok.1 h
    obtain ⟨manifest, -, h⟩ := bind_eq_ok.1 h
    obtain ⟨items, hitems, h⟩ := bind_eq_ok.1 h
    rw [← Except.ok.inj h]
    refine ⟨?_, ⟨known, hknown⟩, hproperties⟩
    have hmade := (List.forall₂_and_left _ _).2 ⟨hentries, mapM_eq_ok.1 hitems⟩
    exact hmade.imp fun e entry h => (makes_entryOf e.1 h.1).2 entry h.2

end

/-! ### The builder -/

section

variable {σ : Type}

/-- The names of the properties in a configuration can be written if those of its texts can be. -/
theorem areNamed_propertiesOf (v : Value) :
    Properties.areNamed (propertiesOf v) = true ↔
      ∀ e ∈ (Value.mapping (v.mappingAt "includes")).mappingAt "properties",
        ∀ s, e.2 = .text s → e.1.isWritable = true := by
  unfold propertiesOf
  generalize Value.mapping (v.mappingAt "includes") = includes
  unfold Value.mappingAt
  cases includes.member? "properties" with
  | none => exact iff_of_true rfl fun _ he => absurd he List.not_mem_nil
  | some m =>
    cases m with
    | mapping entries =>
      rw [Option.getD_some, Properties.areNamed, List.all_eq_true]
      refine forall₂_congr fun e _ => ?_
      cases e.2 <;> simp
    | _ => exact iff_of_true rfl fun _ he => absurd he List.not_mem_nil

/-- The word that directives begin with is its own word. -/
theorem wordOf_wordOf (s : String) : Grammar.wordOf (Grammar.wordOf s) = Grammar.wordOf s := by
  unfold Grammar.wordOf
  rw [String.toList_ofList, List.filter_filter]
  simp only [Bool.and_self]

/-- A builder is made of settings with a known mode if the names of the properties can be
written. -/
theorem makes_builder {settings : Settings} (parts : Collaborators σ) {mode : IncludeMode}
    (h : IncludeMode.ofName? settings.includes.mode = some mode) :
    Makes (Builder.make settings parts) ↔
      Properties.areNamed settings.includes.properties = true := by
  -- The word is not empty, so that directives can be told from text.
  obtain ⟨grammar, hgrammar⟩ : Makes
      (Grammar.make (if (Grammar.wordOf settings.includes.word).isEmpty then
      Expander.defaultName else Grammar.wordOf settings.includes.word) settings.includes.mode) := by
    unfold Grammar.make
    rw [h]
    dsimp only
    rw [if_neg]
    · exact makes_ok _
    · rintro ⟨-, hempty⟩
      split at hempty <;> rename_i hword
      · revert hempty
        decide
      · rw [wordOf_wordOf] at hempty
        exact hword (by simpa using hempty)
  unfold Builder.make Expander.make
  simp only [hgrammar, ok_bind]
  cases Properties.areNamed settings.includes.properties with
  | false => exact iff_of_false (fun ⟨_, h⟩ => nomatch h) Bool.false_ne_true
  | true => exact iff_of_true ⟨_, rfl⟩ rfl

end

/-- Every configuration that a validator finds valid makes settings and a builder, if its paths can
be looked up and its names can be written, and the entries of the settings are what its items
describe, in order. -/
theorem valid_buildable {lib : Libraries} (hlib : lib.ChecksRules) {σ : Type} (s : Session σ)
    (place : Place) (root : Path) (parts : Settings → Collaborators σ) {v : Value}
    (h : Bundled.check lib s "config.schema" v = .ok ()) :
    (IsSpelled v ↔ ∃ settings b, settingsOf place root v = .ok settings ∧
      Builder.make settings (parts settings) = .ok b) ∧
    ∀ settings, settingsOf place root v = .ok settings →
      List.Forall₂ SiteEntry.IsOf (v.mappingAt "entry") settings.entries := by
  obtain ⟨hmakes, hmade⟩ := makes_settingsOf place root (hlib v (check_eq_ok_iff.1 h))
  refine ⟨⟨fun hspelled => ?_, ?_⟩, fun settings hsettings => (hmade settings hsettings).1⟩
  · obtain ⟨settings, hsettings⟩ := hmakes.2 ⟨hspelled.homes, hspelled.chunks⟩
    obtain ⟨-, ⟨mode, hmode⟩, hproperties⟩ := hmade settings hsettings
    obtain ⟨b, hb⟩ := (makes_builder (parts settings) hmode).2 (by
      rw [hproperties]
      exact (areNamed_propertiesOf v).2 hspelled.properties)
    exact ⟨settings, b, hsettings, hb⟩
  · rintro ⟨settings, b, hsettings, hb⟩
    obtain ⟨-, ⟨mode, hmode⟩, hproperties⟩ := hmade settings hsettings
    obtain ⟨homes, chunks⟩ := hmakes.1 ⟨settings, hsettings⟩
    have hnamed := (makes_builder (parts settings) hmode).1 ⟨b, hb⟩
    exact ⟨homes, chunks, (areNamed_propertiesOf v).1 (hproperties ▸ hnamed)⟩

/-! ## Sample configurations -/

namespace Sample

/-- A session in an empty tree. -/
def session : Session Unit :=
  .start Tree.empty ⟨⟨.absolute, ["site"]⟩, "/home", .usual⟩ ⟨2024, 5, 6⟩ ()

/-- The directory that the relative paths of the samples start from. -/
def root : Path := ⟨.absolute, ["site"]⟩

/-- A configuration of a directory and a page, whose key and properties are not all texts. -/
def valid : Value := .mapping [
  (.text "entry", .mapping [
    (.text "static",
      .mapping [(.text "src_path", .text "~/assets"), (.text "dest_path", .text "")]),
    (.int 404, .mapping [
      (.text "import", .text "src/missing.html"),
      (.text "filename", .text "404.html"),
      (.text "styles", .list [
        .mapping [(.text "import", .text "src/m.css"),
          (.text "filename", .text "m.[contenthash].css")]])])]),
  (.text "includes",
    .mapping [(.text "properties", .mapping [(.bool true, .text "yes"), (.null, .list [])])]),
  (.text "chunks", .mapping [(.int 1, .list [.text "one.js"])]),
  (.text "sitemap", .null)]

/-- A configuration whose output directory is that of a user whose name holds a null character. -/
def homeless : Value :=
  .mapping [(.text "output_path", .text "~\x00"), (.text "entry", .mapping [])]

/-- A name that is a number of too many digits. -/
def longName : Value := .int (Nat.pow 10 Value.digitLimit)

/-- A configuration with a script chunk whose name is a number of too many digits. -/
def numbered : Value := .mapping [
  (.text "chunks", .mapping [(longName, .text "one.js")]), (.text "entry", .mapping [])]

/-- A configuration with a property whose name is a number of too many digits. -/
def propertied : Value := .mapping [
  (.text "includes", .mapping [
    (.text "properties", .mapping [(longName, .text "one")])]),
  (.text "entry", .mapping [])]

end Sample

open Sample in
/-- The sample is valid and can be looked up and written, so that a builder is made of it. -/
theorem valid_buildable_sample :
    Libraries.standard.ChecksRules ∧ Bundled.check .standard session "config.schema" valid =
      .ok () ∧ IsSpelled valid ∧
      ∃ settings b, settingsOf session.place root valid = .ok settings ∧
        Builder.make settings (Collaborators.standard settings : Collaborators Unit) = .ok b ∧
        List.Forall₂ SiteEntry.IsOf (valid.mappingAt "entry") settings.entries := by
  have hcheck : Bundled.check .standard session "config.schema" valid = .ok () :=
    check_eq_ok_iff.2
      (Libraries.violations_standard_eq_nil_iff.2 ⟨by decide +kernel, by decide +kernel⟩)
  have hspelled : IsSpelled valid := by
    refine ⟨by decide +kernel, by decide +kernel, (areNamed_propertiesOf valid).1 ?_⟩
    decide +kernel
  obtain ⟨hmakes, hentries⟩ := valid_buildable Libraries.checksRules_standard
    session session.place root Collaborators.standard hcheck
  obtain ⟨settings, b, hsettings, hb⟩ := hmakes.1 hspelled
  exact ⟨Libraries.checksRules_standard, hcheck, hspelled, settings, b, hsettings, hb,
    hentries settings hsettings⟩

open Sample in
/-- The name of the sample is too long to be written. -/
theorem Sample.not_isWritable_longName : ¬ longName.isWritable = true := by
  decide +kernel

open Sample in
/-- Valid configurations of which no settings or no builder can be made: one whose output directory
cannot be looked up, and two with a name that cannot be written. -/
theorem valid_unbuildable :
    (Bundled.check .standard session "config.schema" homeless = .ok () ∧
      settingsOf session.place root homeless =
        .error (.tree .nullCharacter ⟨.relative, ["~\x00"]⟩)) ∧
    (Bundled.check .standard session "config.schema" numbered = .ok () ∧
      ¬ ∃ settings, settingsOf session.place root numbered = .ok settings) ∧
    (Bundled.check .standard session "config.schema" propertied = .ok () ∧
      ∃ settings, settingsOf session.place root propertied = .ok settings ∧
        ¬ ∃ b, Builder.make settings
          (Collaborators.standard settings : Collaborators Unit) = .ok b) := by
  have hcheck : ∀ v, Rules.configuration.Accepts v →
    rulesTell (namedKeys Rules.configuration) v Rules.configuration = true →
      Bundled.check .standard session "config.schema" v = .ok () := fun v haccepts htells =>
    check_eq_ok_iff.2 (Libraries.violations_standard_eq_nil_iff.2 ⟨haccepts, htells⟩)
  have hnumbered : Rules.configuration.Accepts numbered := by decide +kernel
  have hpropertied : Rules.configuration.Accepts propertied := by decide +kernel
  refine ⟨⟨hcheck homeless (by decide +kernel) (by decide +kernel), rfl⟩,
    ⟨hcheck numbered hnumbered (by decide +kernel), fun h => ?_⟩,
    hcheck propertied hpropertied (by decide +kernel), ?_⟩
  · have hchunks := ((makes_settingsOf session.place root hnumbered).1.1 h).2
    have hmem : (longName, Value.text "one.js") ∈ numbered.mappingAt "chunks" := by
      simp [numbered, Value.mappingAt, Value.member?, Mapping.find?, Mapping.get?]
    exact not_isWritable_longName (hchunks (longName, .text "one.js") hmem)
  · obtain ⟨hmakes, hmade⟩ := makes_settingsOf session.place root hpropertied
    obtain ⟨settings, hsettings⟩ := hmakes.2 ⟨by decide +kernel, by decide +kernel⟩
    obtain ⟨-, ⟨mode, hmode⟩, hproperties⟩ := hmade settings hsettings
    refine ⟨settings, hsettings, fun hb => ?_⟩
    have hnamed := (makes_builder (Collaborators.standard settings) hmode).1 hb
    have hmem : (longName, Value.text "one") ∈
        (Value.mapping (propertied.mappingAt "includes")).mappingAt "properties" := by
      simp [propertied, Value.mappingAt, Value.member?, Mapping.find?, Mapping.get?]
    rw [hproperties] at hnamed
    exact not_isWritable_longName
      ((areNamed_propertiesOf propertied).1 hnamed (longName, .text "one") hmem "one" rfl)

end Config

end StaticSite
