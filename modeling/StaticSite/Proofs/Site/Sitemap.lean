import StaticSite.Output
import StaticSite.Proofs.Config.Field
import StaticSite.Proofs.Effect
import StaticSite.Proofs.Text.Reference
import StaticSite.Proofs.Text.Search
import StaticSite.Site.Sitemap

/-!
# Reading sitemaps

A sitemap is read as its tags and the texts between them, and these as items (`read?`), strictly:
anything else is refused. The document of some addresses is read as the items that were written
(`read?_document`), and the addresses come back when references are undone (`read_make`). The
address of a page tells its file: an address that is empty or ends in a separator stands for the
index there (`pageAt_relative`), so that two pages at one address are written to one file.
-/

namespace StaticSite

namespace Address

/-! ## The pages at addresses -/

variable {filename other : String}

/-- The suffix of pages. -/
def pageSuffix : List Char := ".html".toList

/-- The name of the page that is found at an address below that of the site. -/
def pageAt (address : List Char) : List Char :=
  if address = [] ∨ address.getLast? = some '/' then address ++ indexName else address

/-- The suffix of a page stays when the separators at its front are dropped. -/
theorem exists_relativeName_eq (h : pageSuffix <:+ filename.toList) :
    ∃ front, relativeName filename.toList = front ++ pageSuffix := by
  obtain ⟨front, hfront⟩ := h
  have hsuffix : pageSuffix.map (fun c => if c == '\\' then '/' else c) = pageSuffix := by decide
  have hpoint : pageSuffix.dropWhile (· == '/') = pageSuffix := by decide
  rw [relativeName, ← hfront, List.map_append, hsuffix, List.dropWhile_append]
  split
  · exact ⟨[], hpoint⟩
  · exact ⟨_, rfl⟩

/-- The page at the address of a page is that page. -/
theorem pageAt_relative (h : pageSuffix <:+ filename.toList) :
    pageAt (relative filename.toList) = relativeName filename.toList := by
  obtain ⟨front, hname⟩ := exists_relativeName_eq h
  have hlast : (relativeName filename.toList).getLast? = some 'l' := by
    rw [hname, List.getLast?_append]
    rfl
  unfold relative
  generalize relativeName filename.toList = name at hlast
  by_cases hindex : name = indexName
  · rw [hindex]
    decide
  -- A page does not end in a line feed.
  have hfeed : name ≠ indexName ++ ['\n'] := by
    rintro rfl
    rw [List.getLast?_concat] at hlast
    exact absurd hlast (by decide)
  simp only [beq_eq_false_iff_ne.2 hindex, beq_eq_false_iff_ne.2 hfeed,
    Bool.false_eq_true, if_false]
  unfold replaceEnding
  simp only
  cases hafter : Text.after? ('/' :: indexName).reverse name.reverse with
  | some rest =>
    have hparts : name = rest.reverse ++ '/' :: indexName := by
      rw [← List.reverse_inj, Text.after?_eq_some_iff.1 hafter]
      simp
    simp only [Option.map_some]
    rw [pageAt, if_pos (.inr (List.getLast?_concat ..)), hparts, List.append_assoc]
    rfl
  | none =>
    have hself : pageAt name = name := by
      refine if_neg ?_
      rintro (rfl | hslash)
      · cases hlast
      · exact absurd (hslash.symm.trans hlast) (by decide)
    simp only [Option.map_none]
    split
    · rename_i rest hreverse
      rw [← List.head?_reverse, hreverse] at hlast
      exact absurd (Option.some.inj hlast) (by decide)
    · exact hself

/-- Pages at one address are written to one file. -/
theorem locate_eq_of_ofPage_eq {origin : String} (h : pageSuffix <:+ filename.toList)
    (hother : pageSuffix <:+ other.toList) (heq : ofPage origin filename = ofPage origin other)
    (place : Place) (directory : Path) :
    Output.locate place directory filename = Output.locate place directory other := by
  have hrelative : relative filename.toList = relative other.toList :=
    (List.cons.inj (List.append_cancel_left (String.ofList_inj.1 heq))).2
  have hname : relativeName filename.toList = relativeName other.toList := by
    rw [← pageAt_relative h, hrelative, pageAt_relative hother]
  unfold Output.locate Output.path Output.nameOf
  rw [hname]

end Address

namespace Sitemap

open Text (splitAt cut?)

/-! ## Reading -/

/-- A tag, with the text up to the next one. -/
structure Piece where
  /-- What stands between the brackets. -/
  tag : List Char
  /-- The text after it. -/
  text : List Char
deriving DecidableEq, Repr

/-- A tag that no text follows. -/
def bare (tag : String) : Piece := ⟨tag.toList, []⟩

/-- The tags of a text that begins with one, if each of them is closed. -/
def pieces? (s : List Char) : Option (List Piece) :=
  match splitAt '<' s with
  | [] :: parts => parts.mapM fun part => (cut? ['>'] part).map fun (tag, text) => ⟨tag, text⟩
  | _ => none

/-- What a sitemap tells of a page, as it is written there. -/
structure Item where
  /-- The text of its location. -/
  location : List Char
  /-- The text of the day of its last change, if that is told. -/
  day : Option (List Char)
deriving DecidableEq, Repr

/-- The items between the tags of the outermost element. -/
def items? : List Piece → Option (List Item)
  | [] => some []
  | url :: loc :: locEnd :: last :: rest =>
    if url = bare "url" ∧ loc.tag = "loc".toList ∧ locEnd = bare "/loc" then
      if last = bare "/url" then (items? rest).map (⟨loc.text, none⟩ :: ·)
      else
        match rest with
        | dayEnd :: urlEnd :: rest =>
          if last.tag = "lastmod".toList ∧ dayEnd = bare "/lastmod" ∧ urlEnd = bare "/url" then
            (items? rest).map (⟨loc.text, some last.text⟩ :: ·)
          else none
        | _ => none
    else none
  | _ => none

/-- The tag that says what the document is written in. -/
def declaration : String := "?xml version=\"1.0\" encoding=\"UTF-8\"?"

/-- The tag of the outermost element. -/
def root : String := "urlset xmlns=\"http://www.sitemaps.org/schemas/sitemap/0.9\""

/-- The items of a sitemap, if it is one. -/
def read? (s : List Char) : Option (List Item) :=
  match pieces? s with
  | some (first :: second :: rest) =>
    if first = bare declaration ∧ second = bare root ∧
      rest.getLast? = some (bare "/urlset") then items? rest.dropLast
    else none
  | _ => none

/-! ## Writing -/

/-- A tag and what follows it, as they are written. -/
def Piece.written (p : Piece) : List Char := '<' :: p.tag ++ '>' :: p.text

/-- The tags of an item. -/
def Item.pieces (i : Item) : List Piece :=
  let day := match i.day with
    | none => []
    | some day => [⟨"lastmod".toList, day⟩, bare "/lastmod"]
  [bare "url", ⟨"loc".toList, i.location⟩, bare "/loc"] ++ day ++ [bare "/url"]

/-- The item of an address. -/
def itemOf (lastModified : Option String) (address : String) : Item :=
  ⟨(Text.escapeDocument address).toList,
    (lastModified.filter (!·.isEmpty)).map fun day => (Text.escapeUnquoted day).toList⟩

/-- No bracket stands in a tag, and none that opens one in the text after it. -/
def Piece.IsPlain (p : Piece) : Prop := '<' ∉ p.tag ∧ '>' ∉ p.tag ∧ '<' ∉ p.text

instance (p : Piece) : Decidable p.IsPlain := inferInstanceAs (Decidable (_ ∧ _ ∧ _))

/-- An element of a sitemap is written from its pieces. -/
theorem element_eq (lastModified : Option String) (address : String) :
    (element lastModified address).toList = (itemOf lastModified address).pieces.flatMap
      Piece.written := by
  unfold element itemOf
  cases lastModified with
  | none => simp [Item.pieces, Piece.written, bare]
  | some day =>
    rw [Option.filter_some]
    cases hday : day.isEmpty with
    | true => simp [hday, Item.pieces, Piece.written, bare]
    | false => simp [hday, Item.pieces, Piece.written, bare]

/-- The tags of a document. -/
def documentPieces (items : List Item) : List Piece :=
  [bare declaration, bare root] ++ items.flatMap Item.pieces ++ [bare "/urlset"]

/-- A sitemap is written from its pieces. -/
theorem document_eq (lastModified : Option String) (addresses : List String) :
    (document lastModified addresses).toList =
      (documentPieces (addresses.map (itemOf lastModified))).flatMap Piece.written := by
  have hitems : (addresses.map (element lastModified)).flatMap String.toList =
      ((addresses.map (itemOf lastModified)).flatMap Item.pieces).flatMap Piece.written := by
    rw [List.flatMap_map, List.flatMap_map, List.flatMap_assoc]
    exact List.flatMap_congr fun address _ => element_eq lastModified address
  have hfront : "<?xml version=\"1.0\" encoding=\"UTF-8\"?>".toList ++
      "<urlset xmlns=\"http://www.sitemaps.org/schemas/sitemap/0.9\">".toList =
      [bare declaration, bare root].flatMap Piece.written := by decide +kernel
  have hend : "</urlset>".toList = [bare "/urlset"].flatMap Piece.written := by decide +kernel
  unfold document
  rw [String.toList_append, String.toList_append, String.toList_append, String.toList_join,
    hitems, hfront, hend, documentPieces, List.flatMap_append, List.flatMap_append]

/-! ## Reading what was written -/

/-- Tags are found again if no bracket stands in them or in the texts between. -/
theorem pieces?_written {ps : List Piece} (h : ∀ p ∈ ps, p.IsPlain) :
    pieces? (ps.flatMap Piece.written) = some ps := by
  have hparts : splitAt '<' (ps.flatMap Piece.written) = [] :: ps.map fun p =>
    p.tag ++ '>' :: p.text := by
      have hflat : ∀ part ∈ ps.map fun p => p.tag ++ '>' :: p.text, '<' ∉ part := by
        intro part hpart
        obtain ⟨p, hp, rfl⟩ := List.mem_map.1 hpart
        obtain ⟨htag, -, htext⟩ := h p hp
        simp [htag, htext]
      have hsplit := Text.splitAt_flatMap hflat
      rwa [List.flatMap_map] at hsplit
  have hcut : ∀ p ∈ ps, cut? ['>'] (p.tag ++ '>' :: p.text) = some (p.tag, p.text) := by
    intro p hp
    rw [Text.cut?_eq_some_iff (List.cons_ne_nil _ _), List.append_assoc, List.dropLast_concat]
    exact ⟨rfl, fun hmem => (h p hp).2.1 (hmem.subset List.mem_cons_self)⟩
  rw [pieces?, hparts]
  simp only
  clear hparts
  induction ps with
  | nil => rfl
  | cons p ps ih =>
    obtain ⟨hfirst, hrest⟩ := List.forall_mem_cons.1 hcut
    rw [List.map_cons, List.mapM_cons, hfirst, ih (List.forall_mem_cons.1 h).2 hrest]
    rfl

/-- The tags of an item are read as the item. -/
theorem items?_append (i : Item) (rest : List Piece) :
    items? (i.pieces ++ rest) = (items? rest).map (i :: ·) := by
  obtain ⟨location, day⟩ := i
  cases day with
  | none =>
    show items? (bare "url" :: ⟨"loc".toList, location⟩ :: bare "/loc" :: bare "/url" :: rest) = _
    rw [items?.eq_def]
    simp only [and_self, if_true]
  | some day =>
    have hlast : (⟨"lastmod".toList, day⟩ : Piece) ≠ bare "/url" := by
      intro heq
      have htag : "lastmod".toList = "/url".toList := congrArg Piece.tag heq
      exact absurd htag (by decide)
    show items? (bare "url" :: ⟨"loc".toList, location⟩ :: bare "/loc" :: ⟨"lastmod".toList, day⟩ ::
      bare "/lastmod" ::
      bare "/url" :: rest) = _
    rw [items?.eq_def]
    simp only [and_self, if_true, if_neg hlast]

/-- The items of a sitemap are read back from their pieces. -/
theorem items?_flatMap (items : List Item) : items? (items.flatMap Item.pieces) = some items := by
  induction items with
  | nil => rfl
  | cons i items ih => rw [List.flatMap_cons, items?_append, ih, Option.map_some]

/-- The pieces of an item are plain, if its texts start no tag. -/
theorem isPlain_of_mem_pieces {i : Item} (hlocation : '<' ∉ i.location)
    (hday : ∀ day ∈ i.day, '<' ∉ day) {p : Piece} (hp : p ∈ i.pieces) : p.IsPlain := by
  obtain ⟨location, day⟩ := i
  have hends : (bare "url").IsPlain ∧ (bare "/loc").IsPlain ∧ (bare "/lastmod").IsPlain ∧
    (bare "/url").IsPlain := by decide
  have htags : ('<' ∉ "loc".toList ∧ '>' ∉ "loc".toList) ∧ '<' ∉ "lastmod".toList ∧
    '>' ∉ "lastmod".toList := by decide
  obtain ⟨hurl, hloc, hlastmod, hend⟩ := hends
  cases day with
  | none =>
    simp only [Item.pieces, List.append_nil, List.cons_append, List.nil_append, List.mem_cons,
      List.not_mem_nil, or_false] at hp
    rcases hp with rfl | rfl | rfl | rfl
    · exact hurl
    · exact ⟨htags.1.1, htags.1.2, hlocation⟩
    · exact hloc
    · exact hend
  | some day =>
    simp only [Item.pieces, List.cons_append, List.nil_append, List.mem_cons, List.not_mem_nil,
      or_false] at hp
    rcases hp with rfl | rfl | rfl | rfl | rfl | rfl
    · exact hurl
    · exact ⟨htags.1.1, htags.1.2, hlocation⟩
    · exact hloc
    · exact ⟨htags.2.1, htags.2.2, hday day rfl⟩
    · exact hlastmod
    · exact hend

/-- The pieces of a sitemap are plain. -/
theorem isPlain_of_mem_documentPieces {lastModified : Option String}
    {addresses : List String} {p : Piece}
    (hp : p ∈ documentPieces (addresses.map (itemOf lastModified))) : p.IsPlain := by
  have hends : ∀ p ∈ [bare declaration, bare root] ++ [bare "/urlset"], p.IsPlain := by
    decide +kernel
  simp only [documentPieces, List.mem_append, List.mem_flatMap, List.mem_map] at hp
  rcases hp with (hp | ⟨_, ⟨address, -, rfl⟩, hp⟩) | hp
  · exact hends p (List.mem_append_left _ hp)
  · refine isPlain_of_mem_pieces ?_ ?_ hp
    · exact fun hmem => ((Text.isClean_escapeDocument address).flat '<' hmem).1 rfl
    · intro day hday hmem
      obtain ⟨text, -, rfl⟩ := Option.map_eq_some_iff.1 hday
      rw [Text.escapeUnquoted, String.toList_ofList] at hmem
      obtain ⟨c, -, hc⟩ := List.mem_flatMap.1 hmem
      exact (Text.flat_unquotedChar '<' hc).1 rfl
  · exact hends p (List.mem_append_right _ hp)

/-- A document is read as the items of its addresses. -/
theorem read?_document (lastModified : Option String) (addresses : List String) :
    read? (document lastModified addresses).toList =
      some (addresses.map (itemOf lastModified)) := by
  have hpieces : pieces?
      ((documentPieces (addresses.map (itemOf lastModified))).flatMap Piece.written) = _ :=
    pieces?_written fun p hp => isPlain_of_mem_documentPieces hp
  rw [document_eq, read?, hpieces, documentPieces, List.append_assoc]
  simp only [List.cons_append, List.nil_append, List.getLast?_concat, List.dropLast_concat,
    and_self, if_true, items?_flatMap]

/-! ## The documents of sites -/

variable {engine : Engine} {o : SitemapOptions} {filenames : List String} {today : Day}

/-- A document is made of the addresses of a site, of which there are some. -/
theorem make_eq_ok_some {text : String} (h : make engine o filenames today = .ok (some text)) :
    ∃ urls, addresses engine o filenames = .ok urls ∧
      text = document (lastModified o today) urls := by
  obtain ⟨urls, hurls, hmade⟩ := Config.bind_eq_ok.1 h
  refine ⟨urls, hurls, ?_⟩
  split at hmade
  · cases hmade
  · exact (Option.some.inj (Except.ok.inj hmade)).symm

/-- Without a list of addresses and without patterns every page is listed. -/
theorem addresses_of_plain (hlisted : o.listed = none) (hexclude : o.exclude = [])
    {urls : List String} (h : addresses engine o filenames = .ok urls) :
    urls = (filenames.filter fun name => ".html".toList.isSuffixOf name.toList).map
      (Address.ofPage o.origin) := by
  unfold addresses at h
  simp only [hlisted] at h
  obtain ⟨ps, hps, h⟩ := Config.bind_eq_ok.1 h
  rw [hexclude] at hps
  obtain rfl := Except.ok.inj hps
  have hall := Except.ok.inj h
  rw [← hall]
  simp

/-- The location in an item of a sitemap is clean. -/
theorem isClean_location (lastModified : Option String) (address : String) :
    Text.IsClean Text.documentReferences (itemOf lastModified address).location :=
  Text.isClean_escapeDocument address

/-- The location in an item is read back as the address. -/
theorem undo_location (lastModified : Option String) (address : String) :
    Text.undo Text.documentReferences (itemOf lastModified address).location = address.toList := by
  rw [itemOf, Text.escapeDocument, String.toList_ofList,
    Text.undo_flatMap Text.isEscaping_documentChar]

/-- The day in an item is read back as the day of the last change. -/
theorem undo_day (lastModified : Option String) (address : String) :
    (itemOf lastModified address).day.map (Text.undo Text.documentReferences) =
      (lastModified.filter (!·.isEmpty)).map String.toList := by
  rw [itemOf, Option.map_map]
  refine congrArg (Option.map · _) (funext fun day => ?_)
  rw [Function.comp_apply, Text.escapeUnquoted, String.toList_ofList,
    Text.undo_flatMap Text.isEscaping_unquotedChar]

/-- A sitemap can be read back, whatever engine reads the patterns. The document of a site is read
as items, whose locations are the addresses of the site in their order once references are undone.
What is written for a location holds no bracket or quote, each ampersand in it begins a reference,
and it is what comes of replacing these characters in turn. All items tell the same day, which is
that of the options unless it is empty. Without a list of addresses and without patterns there is an
address for each page, in order, and pages at one address are written to one file. -/
theorem read_make {text : String} (h : make engine o filenames today = .ok (some text)) :
    ∃ urls items, addresses engine o filenames = .ok urls ∧ read? text.toList = some items ∧
      items.map (fun i => Text.undo Text.documentReferences i.location) = urls.map String.toList ∧
      items.map Item.location = urls.map (fun url => Text.replacedInTurn url.toList) ∧
      (∀ i ∈ items, Text.IsClean Text.documentReferences i.location) ∧
      (∃ day, (∀ i ∈ items, i.day = day) ∧ day.map (Text.undo Text.documentReferences) =
        ((lastModified o today).filter (!·.isEmpty)).map String.toList) ∧
      (o.listed = none → o.exclude = [] →
        urls = (filenames.filter fun name => ".html".toList.isSuffixOf name.toList).map
          (Address.ofPage o.origin) ∧
        ∀ a ∈ filenames, ∀ b ∈ filenames, ".html".toList <:+ a.toList →
          ".html".toList <:+ b.toList →
          Address.ofPage o.origin a = Address.ofPage o.origin b →
          ∀ place directory, Output.locate place directory a =
            Output.locate place directory b) := by
  obtain ⟨urls, hurls, rfl⟩ := make_eq_ok_some h
  refine ⟨urls, urls.map (itemOf (lastModified o today)), hurls, read?_document _ urls, ?_,
    ?_, ?_, ?_, ?_⟩
  · rw [List.map_map]
    exact List.map_congr_left fun url _ => undo_location _ url
  · rw [List.map_map]
    exact List.map_congr_left fun url _ => Text.escapeDocument_eq url
  · intro i hi
    obtain ⟨url, -, rfl⟩ := List.mem_map.1 hi
    exact isClean_location _ url
  · refine ⟨(itemOf (lastModified o today) "").day, fun i hi => ?_, undo_day _ ""⟩
    obtain ⟨url, -, rfl⟩ := List.mem_map.1 hi
    rfl
  · intro hlisted hexclude
    exact ⟨addresses_of_plain hlisted hexclude hurls, fun a _ b _ ha hb heq place directory =>
      Address.locate_eq_of_ofPage_eq ha hb heq place directory⟩

namespace Sample

/-- Options with markup in the origin and in the day. -/
def options : SitemapOptions := ⟨"https://a.example/?x=1&y=<2>/", some "\"<&amp;>'", [], none⟩

/-- The files of some pages, two of them one file, and of something else. -/
def files : List String :=
  ["/index.html", "a&amp;'b.html", "feed.xml", "\\about\\index.html", "about/index.html"]

/-- The addresses of the pages. -/
def urls : List String :=
  ["https://a.example/?x=1&y=<2>/", "https://a.example/?x=1&y=<2>/a&amp;'b.html",
    "https://a.example/?x=1&y=<2>/about/", "https://a.example/?x=1&y=<2>/about/"]

end Sample

open Sample in
/-- In the sample the addresses are read back, and the two that are equal are of one file. -/
theorem read_make_sample :
    ∃ text items, make patternEngine options files ⟨2024, 5, 6⟩ = .ok (some text) ∧
      read? text.toList = some items ∧
      items.map (fun i => Text.undo Text.documentReferences i.location) = urls.map String.toList ∧
      Output.locate ⟨⟨.absolute, ["site"]⟩, "/home", .usual⟩ ⟨.absolute, ["site", "dist"]⟩
        "\\about\\index.html" =
        Output.locate ⟨⟨.absolute, ["site"]⟩, "/home", .usual⟩ ⟨.absolute, ["site", "dist"]⟩
          "about/index.html" := by
  have haddresses : addresses patternEngine options files = .ok urls :=
    toOption_eq_some_iff.1 (by decide +kernel)
  have hmake : make patternEngine options files ⟨2024, 5, 6⟩ =
      .ok (some (document (lastModified options ⟨2024, 5, 6⟩) urls)) := by
    rw [make, haddresses]
    rfl
  obtain ⟨urls', items, hurls, hread, hundo, -, -, -, hplain⟩ := read_make hmake
  obtain rfl := Except.ok.inj (haddresses.symm.trans hurls)
  refine ⟨_, items, hmake, hread, hundo, ?_⟩
  exact (hplain rfl rfl).2 _ (by decide) _ (by decide) (by decide) (by decide)
    (by decide +kernel) _ _

end Sitemap

end StaticSite
