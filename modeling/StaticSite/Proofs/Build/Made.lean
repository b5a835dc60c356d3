import StaticSite.Proofs.Build.Pass
import StaticSite.Proofs.Include.Locality
import StaticSite.Proofs.Reading

/-!
# What entries are made into

A stylesheet and a page are built in the same way: what they are made into (`Work.made`) is a text
for a file, a name and a record, and building does nothing else with a session than to put these in
their places (`ends_spec`). What an entry is made into depends on the texts that are read for it
and, for a page, on the names of the stylesheets that it links (`made_congr`).
-/

namespace StaticSite

variable {σ : Type}

/-- What a stylesheet is made into depends on what its source expands to. -/
theorem Style.product_congr {settings : Settings} {style : Stylesheet} {x : Expander}
    (hx : importer settings.includes.depthLimit = .ok x) {s s' : Session σ}
    (hplace : s'.place = s.place)
    (hbundle :
      (x.resolve s.place s'.readText (Path.absolute s.place style.source.toString none)).1 =
        (x.resolve s.place s.readText (Path.absolute s.place style.source.toString none)).1) :
    product settings s' style = product settings s style := by
  unfold product compiled
  simp only [hx, bind, Except.bind, hplace, hbundle]

/-- A stylesheet is made from its source and the dependencies of that. -/
theorem Style.product_eq_ok {settings : Settings} {style : Stylesheet} {x : Expander}
    (hx : importer settings.includes.depthLimit = .ok x) {s : Session σ}
    (hcwd : s.place.cwd.IsNormal) {root : Path}
    (hroot : Path.absolute s.place style.source.toString none = root) {m : Product}
    (h : product settings s style = .ok m) : (x.resolve s.place s.readText root).1.isOk = true ∧
      m.sources = root :: (x.resolve s.place s.readText root).1.dependencies := by
  have hnormal : root.IsNormal := hroot ▸ Path.isNormal_absolute hcwd _ fun d hd => (by cases hd)
  unfold product at h
  simp only [hx, bind, Except.bind] at h
  cases hcompiled : compiled x s.place s.readText style.source settings.isOptimized with
  | error fault => rw [hcompiled] at h; cases h
  | ok c =>
    rw [hcompiled] at h
    obtain ⟨hok, hloaded⟩ := loaded_of_compiled hcompiled
    rw [hroot] at hok hloaded
    refine ⟨hok, ?_⟩
    -- The files are listed by the texts of their paths, which are read back as the paths.
    have habsolute : ∀ q ∈ c.loaded, Path.absolute s.place q.toString none = q := by
      intro q hq
      rw [hloaded, List.mem_cons] at hq
      rcases hq with rfl | hq
      · exact Path.absolute_toString hnormal
      · exact Path.absolute_toString (Expander.isNormal_of_mem_dependencies hcwd hnormal hq)
    rw [← Except.ok.inj h, ← hloaded]
    exact (List.map_congr_left habsolute).trans (List.map_id' _)

namespace Builder

/-- What an entry is made into. -/
structure Made where
  /-- The path of its file. -/
  path : Path
  /-- The text of its file. -/
  text : String
  /-- The name that a stylesheet gets, if its filename holds the mark for a hash. -/
  name : Option (Stylesheet × String)
  /-- The record that is kept of it, if it could be expanded. -/
  record : Option Record

/-- Names once an entry was made. -/
def Made.namesFrom (m : Made) (names : OutputNames) : OutputNames :=
  match m.name with
  | some (sheet, name) => names.set sheet name
  | none => names

/-- Records once an entry was made and written. -/
def Made.recordsFrom (m : Made) (records : Records) : Records :=
  match m.record with
  | some record => records.keep record
  | none => records

/-- What a stylesheet is made into. -/
def Made.ofStyle (b : Builder σ) (place : Place) (sheet : Stylesheet)
    (m : Style.Product) : Made where
  path := Style.outputPath b.settings place sheet m.text
  text := m.text
  name := if Style.isHashed sheet.filename then some
    (sheet, Style.writtenName sheet m.text) else none
  record := some ⟨sheet.source, .style, sheet.filename, m.sources⟩

/-- What a page is made into. -/
def Made.ofPage (b : Builder σ) (place : Place) (p : Page) (source : Path)
    (rendered : Rendering.Rendered) :
    Made where
  path := Rendering.outputPath b.renderer place p
  text := String.ofList rendered.text
  name := none
  record :=
    if rendered.bundle.isOk then some
      ⟨source, .page, Rendering.outputName p, rendered.bundle.dependencies⟩
    else none

namespace Work

/-- A piece of work that builds a stylesheet or a page. -/
def IsEntry : Work → Prop
  | .style _ | .page _ => True
  | .assets _ | .clean _ | .sitemap _ _ => False

/-- What an entry is made into in a session, if it can be. -/
def made (b : Builder σ) (s : Session σ) : Work → Option Made
  | .style sheet => (Style.product b.settings s sheet).toOption.map (Made.ofStyle b s.place sheet)
  | .page p =>
    p.source.bind fun source =>
      (Rendering.render b.renderer p b.settings.shared? s).1.toOption.map
        (Made.ofPage b s.place p source)
  | .assets _ | .clean _ | .sitemap _ _ => none

/-- The files that are read for an entry, whether they are there or not. -/
def reads (b : Builder σ) (s : Session σ) : Work → List Path
  | .style sheet =>
    match Style.importer b.settings.includes.depthLimit with
    | .ok x =>
        (x.resolve s.place s.readText (Path.absolute s.place sheet.source.toString none)).2.reads
    | .error _ => []
  | .page p =>
    match p.source with
    | some source => (b.expander.resolve s.place s.readText source).2.reads
    | none => []
  | .assets _ | .clean _ | .sitemap _ _ => []

/-- The stylesheets that an entry links. -/
def links (b : Builder σ) : Work → Set Stylesheet
  | .page p => {style | b.Links p style}
  | .assets _ | .clean _ | .style _ | .sitemap _ _ => ∅

/-- The source of a page starts at a root and never goes back up. -/
def IsGrounded : Work → Prop
  | .page p => ∀ source, p.source = some source → source.IsGrounded
  | .assets _ | .clean _ | .style _ | .sitemap _ _ => True

/-- How building an entry ends in a session, and whether it does so without an error. -/
inductive Ends (b : Builder σ) (w : Work) (s : Session σ) : Bool → Session σ → Prop where
  /-- It cannot be made. -/
  | failed {s' : Session σ} (hmade : w.made b s = none) (hbook : s.KeepsBook s')
      (htree : s'.tree = s.tree) :
      Ends b w s false s'
  /-- The tree does not accept its file. -/
  | refused {s' : Session σ} (m : Made) (hmade : w.made b s = some m)
      (hrefused : ¬s.tree.Accepts m.path)
      (hplace : s'.place = s.place) (hnames : s'.names = m.namesFrom s.names)
      (hrecords : s'.records = s.records)
        (htree : Tree.Grows m.path.names.dropLast s.tree s'.tree) :
      Ends b w s false s'
  /-- It is written. -/
  | written {s' : Session σ} (m : Made) (hmade : w.made b s = some m)
      (haccepts : s.tree.Accepts m.path)
      (hplace : s'.place = s.place) (hnames : s'.names = m.namesFrom s.names)
      (hrecords : s'.records = m.recordsFrom s.records)
      (htree : Tree.Wrote m.path.names (Text.encode m.text) s.tree s'.tree) :
      Ends b w s m.record.isSome s'

variable {b : Builder σ} {w : Work} {s s' : Session σ} {m : Made}

/-- A stylesheet is made into what its text comes to. -/
theorem made_style_eq_some {sheet : Stylesheet} :
    (Work.style sheet).made b s = some m ↔
      ∃ product, Style.product b.settings s sheet = .ok product ∧
        m = .ofStyle b s.place sheet product := by
  simp only [made]
  cases Style.product b.settings s sheet <;> simp [Except.toOption, eq_comm]

/-- A page is made into what it is rendered to. -/
theorem made_page_eq_some {p : Page} :
    (Work.page p).made b s = some m ↔
      ∃ source rendered, p.source = some source ∧
        (Rendering.render b.renderer p b.settings.shared? s).1 = .ok rendered ∧
        m = .ofPage b s.place p source rendered := by
  simp only [made]
  cases p.source with
  | none => simp
  | some source =>
    cases (Rendering.render b.renderer p b.settings.shared? s).1 <;> simp [Except.toOption, eq_comm]

/-- What an entry is made into belongs to it. -/
theorem candidates_of_made (h : w.made b s = some m) :
    m.path.names ∈ w.candidates b.settings s.place := by
  cases w with
  | assets | clean | sitemap => cases h
  | style sheet =>
    obtain ⟨product, -, rfl⟩ := made_style_eq_some.1 h
    exact ⟨product.text, rfl⟩
  | page p =>
    obtain ⟨source, rendered, -, -, rfl⟩ := made_page_eq_some.1 h
    rfl

/-- The record of what a piece of work made is under one of its keys. -/
theorem keys_of_made (h : w.made b s = some m) {record : Record}
    (hrecord : m.record = some record) :
    record.key ∈ w.keys := by
  cases w with
  | assets | clean | sitemap => cases h
  | style style =>
    obtain ⟨product, -, rfl⟩ := made_style_eq_some.1 h
    rw [← Option.some.inj hrecord]
    rfl
  | page p =>
    obtain ⟨source, rendered, hsource, -, rfl⟩ := made_page_eq_some.1 h
    unfold Made.ofPage at hrecord
    simp only at hrecord
    split at hrecord
    · rw [← Option.some.inj hrecord]
      exact ⟨source, hsource, rfl⟩
    · cases hrecord

end Work

/-- A stylesheet is given the name of its text. -/
theorem Made.namesFrom_ofStyle {b : Builder σ} (place : Place) (sheet : Stylesheet)
    (m : Style.Product) (names : OutputNames) :
    (ofStyle b place sheet m).namesFrom names = Style.named names sheet m.text := by
  unfold namesFrom ofStyle Style.named
  by_cases hhashed : Style.isHashed sheet.filename = true <;> simp [hhashed]

namespace Work

variable {b : Builder σ} {w : Work} {s s' : Session σ} {m : Made}

/-- Building a stylesheet ends in one of three ways, and the report has no error afterwards only if
there was none. -/
theorem ends_style (hb : b.IsStandard) (sheet : Stylesheet) (r : Report)
    (hcwd : s.place.cwd.isAbsolute = true) :
    ∃ r' s' isClean, b.work r (.style sheet) s = (.ok r', s') ∧
      (Work.style sheet).Ends b s isClean s' ∧ (r'.errors = [] → isClean = true) := by
  obtain ⟨x, s₁, hbundled, log, h⟩ := buildStyle_spec hb r sheet hcwd
  have hmade : ∀ product, Style.product b.settings s sheet = .ok product →
      (Work.style sheet).made b s = some (.ofStyle b s.place sheet product) :=
    fun product hproduct => made_style_eq_some.2 ⟨product, hproduct, rfl⟩
  have hnames : ∀ product : Style.Product, Style.named s.names sheet product.text =
      (Made.ofStyle b s.place sheet product).namesFrom s.names :=
    fun product => (Made.namesFrom_ofStyle s.place sheet product s.names).symm
  simp only [work, h]
  cases hbundled with
  | failed fault log' hproduct =>
    refine ⟨_, _, false, rfl, .failed ?_ ⟨rfl, rfl, rfl, rfl⟩ rfl, fun herrors => ?_⟩
    · simp [made, hproduct, Except.toOption]
    · simp [Report.addError] at herrors
  | refused product fault tree clock log' hproduct hrefused htree =>
    -- The name is given before the file is refused.
    refine ⟨_, _, false, rfl, .refused _ (hmade product hproduct) hrefused rfl
      (hnames product) rfl htree, fun herrors => ?_⟩
    simp [Report.addError] at herrors
  | written product tree clock log' hproduct haccepts htree =>
    exact ⟨_, _, true, rfl, .written _ (hmade product hproduct) haccepts rfl
      (hnames product) rfl htree, fun _ => rfl⟩

/-- Building a page always ends the piece of work, and without an error if none is told. -/
theorem ends_page (hb : b.IsStandard) (p : Page) (r : Report)
    (hcwd : s.place.cwd.isAbsolute = true) :
    ∃ r' s' isClean, b.work r (.page p) s = (.ok r', s') ∧ (Work.page p).Ends b s isClean s' ∧
      (r'.errors = [] → isClean = true) := by
  obtain ⟨x, s₁, hbuilt, log, h⟩ := buildPage_spec hb r p hcwd
  simp only [work, map_apply, h]
  cases hbuilt with
  | failed fault log' manifest hrender =>
    refine ⟨_, _, false, rfl, .failed ?_ ⟨rfl, rfl, rfl, rfl⟩ rfl, fun herrors => ?_⟩
    · cases hsource : p.source <;> simp [made, hsource, hrender, Except.toOption]
    · simp [Report.addError] at herrors
  | refused rendered fault tree clock log' manifest hrender hrefused htree =>
    obtain ⟨source, hsource⟩ := Rendering.source_of_render hrender
    have hmade := made_page_eq_some.2 ⟨source, rendered, hsource, hrender, rfl⟩
    refine ⟨_, _, false, rfl, .refused _ hmade hrefused rfl rfl rfl htree, fun herrors => ?_⟩
    simp [Report.addError] at herrors
  | written rendered source tree clock log' manifest hrender hsource haccepts htree =>
    have hmade := made_page_eq_some.2 ⟨source, rendered, hsource, hrender, rfl⟩
    simp only
    cases herror : rendered.bundle.error with
    | none =>
      have hrecord : (Made.ofPage b s.place p source rendered).record =
          some ⟨source, .page, Rendering.outputName p, rendered.bundle.dependencies⟩ := by
        simp [Made.ofPage, Bundle.isOk, herror]
      refine ⟨_, _, _, rfl, .written _ hmade haccepts rfl rfl ?_ htree,
        fun _ => by rw [hrecord]; rfl⟩
      unfold Made.recordsFrom
      rw [hrecord]
    | some error =>
      -- A page whose includes fail is written with the fault in its text, and keeps the record it
      -- had.
      have hrecord : (Made.ofPage b s.place p source rendered).record = none := by
        simp [Made.ofPage, Bundle.isOk, herror]
      refine ⟨_, _, _, rfl, .written _ hmade haccepts rfl rfl ?_ htree, fun herrors => ?_⟩
      · unfold Made.recordsFrom
        rw [hrecord]
      · simp [Report.addError] at herrors

/-- Building an entry ends in one of three ways, and the report has no error afterwards only if
there was none. -/
theorem ends_spec (hb : b.IsStandard) (hw : w.IsEntry) (r : Report)
    (hcwd : s.place.cwd.isAbsolute = true) :
    ∃ r' s' isClean, b.work r w s = (.ok r', s') ∧ w.Ends b s isClean s' ∧
      (r'.errors = [] → isClean = true) := by
  cases w with
  | assets | clean | sitemap => exact hw.elim
  | style sheet => exact ends_style hb sheet r hcwd
  | page p => exact ends_page hb p r hcwd

/-! ## What is read for an entry -/

/-- A stylesheet reads what its importer reads. -/
theorem reads_style {x : Expander} (hx : Style.importer b.settings.includes.depthLimit = .ok x)
    (sheet : Stylesheet) (s : Session σ) : (Work.style sheet).reads b s =
      (x.resolve s.place s.readText
        (Path.absolute s.place sheet.source.toString none)).2.reads := by
  simp only [reads, hx]

/-- A page reads what its expander reads. -/
theorem reads_page {p : Page} {source : Path} (hsource : p.source = some source) (s : Session σ) :
    (Work.page p).reads b s = (b.expander.resolve s.place s.readText source).2.reads := by
  simp only [reads, hsource]

/-- Files are read by paths that start at a root and never go back up. -/
theorem isGrounded_of_mem_reads (hcwd : s.place.cwd.isAbsolute = true)
    (hw : w.IsGrounded) {q : Path} (hq : q ∈ w.reads b s) : q.IsGrounded := by
  cases w with
  | assets | clean | sitemap => cases hq
  | style sheet =>
    obtain ⟨x, hx⟩ := Style.exists_importer b.settings.includes.depthLimit
    rw [reads_style hx] at hq
    exact Expander.isGrounded_of_mem_reads hcwd (Path.isGrounded_absolute hcwd _ _) hq
  | page p =>
    cases hsource : p.source with
    | none => simp only [reads, hsource] at hq; cases hq
    | some source =>
      rw [reads_page hsource] at hq
      exact Expander.isGrounded_of_mem_reads hcwd (hw source hsource) hq

/-- What is read for an entry, and what it is made into, is the same in two sessions in which the
files have the same texts that are read for it in both and the stylesheets that it links the same
names. -/
theorem reads_congr (hplace : s'.place = s.place)
    (hread : ∀ q ∈ w.reads b s, q ∈ w.reads b s' → s'.readText q = s.readText q) :
    w.reads b s' = w.reads b s := by
  cases w with
  | assets | clean | sitemap => rfl
  | style sheet =>
    obtain ⟨x, hx⟩ := Style.exists_importer b.settings.includes.depthLimit
    simp only [reads_style hx, hplace] at hread ⊢
    rw [Expander.resolve_congr hread]
  | page p =>
    cases hsource : p.source with
    | none => simp only [reads, hsource]
    | some source =>
      simp only [reads_page hsource, hplace] at hread ⊢
      rw [Expander.resolve_congr hread]

/-- What an entry is made into depends on what it reads and on the names of what it links. -/
theorem made_congr (hb : b.IsStandard) (hmanifest : b.settings.manifest = none)
    (hplace : s'.place = s.place)
    (hread : ∀ q ∈ w.reads b s, q ∈ w.reads b s' → s'.readText q = s.readText q)
    (hnames : ∀ style ∈ w.links b, s'.names.lookup style = s.names.lookup style) :
    w.made b s' = w.made b s := by
  cases w with
  | assets | clean | sitemap => rfl
  | style sheet =>
    obtain ⟨x, hx⟩ := Style.exists_importer b.settings.includes.depthLimit
    simp only [reads_style hx, hplace] at hread
    have hresolve := Expander.resolve_congr hread
    simp only [made]
    rw [Style.product_congr hx hplace (congrArg Prod.fst hresolve), hplace]
  | page p =>
    have hparts : b.renderer.parts = .standard b.settings := hb
    cases hsource : p.source with
    | none => simp only [made, hsource, Option.bind_none]
    | some source =>
      simp only [reads_page hsource, hplace] at hread
      -- The page is expanded to the same text, from which it is rendered with the same links.
      have hresolve := Expander.resolve_congr hread
      have hrender : (Rendering.render b.renderer p b.settings.shared? s').1 =
          (Rendering.render b.renderer p b.settings.shared? s).1 := by
        refine Rendering.render_congr hparts hmanifest hsource ?_ ?_ ?_
        · rw [hplace]
          exact congrArg Prod.fst hresolve
        · -- The stylesheets of the shared page are links of every page.
          intro style hstyle
          refine hnames style (.inr ?_)
          cases hshared : b.settings.shared? with
          | none => rw [hshared] at hstyle; cases hstyle
          | some shared =>
            rw [hshared] at hstyle
            exact ⟨shared, rfl, hstyle⟩
        · exact fun style hstyle => hnames style (.inl hstyle)
      simp only [made, hrender, hplace]

/-- What is read for an entry that is made and recorded is there, and is among the files of the
record or is the source of the page. -/
theorem mem_reads_of_made (hb : b.IsStandard) (hcwd : s.place.cwd.IsNormal)
    (hmade : w.made b s = some m) {record : Record} (hrecord : m.record = some record) {q : Path}
    (hq : q ∈ w.reads b s) :
    (∃ text, s.readText q = .ok text) ∧
      (q ∈ record.dependencies ∨ ∃ p, w = .page p ∧ p.source = some q) := by
  cases w with
  | assets | clean | sitemap => cases hq
  | style sheet =>
    obtain ⟨x, hx⟩ := Style.exists_importer b.settings.includes.depthLimit
    obtain ⟨product, hproduct, rfl⟩ := made_style_eq_some.1 hmade
    obtain ⟨hok, hsources⟩ := Style.product_eq_ok hx hcwd rfl hproduct
    rw [reads_style hx] at hq
    obtain ⟨hmem, htext⟩ := Expander.mem_reads_of_isOk hok hq
    -- The record of a stylesheet lists its source too.
    refine ⟨htext, .inl ?_⟩
    rw [← Option.some.inj hrecord]
    simp only [hsources, List.mem_cons]
    exact hmem
  | page p =>
    have hparts : b.renderer.parts = .standard b.settings := hb
    obtain ⟨source, rendered, hsource, hrender, rfl⟩ := made_page_eq_some.1 hmade
    have hbundle := Rendering.bundle_of_render hsource hrender
    rw [hparts] at hbundle
    unfold Made.ofPage at hrecord
    simp only at hrecord
    split at hrecord
    · rename_i hok
      rw [← Option.some.inj hrecord]
      simp only [hbundle] at hok ⊢
      rw [reads_page hsource] at hq
      obtain ⟨hmem, htext⟩ := Expander.mem_reads_of_isOk hok hq
      refine ⟨htext, ?_⟩
      rcases hmem with rfl | hmem
      · exact .inr ⟨p, rfl, hsource⟩
      · exact .inl hmem
    · cases hrecord

end Work

end Builder

end StaticSite
