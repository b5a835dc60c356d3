import StaticSite.Proofs.Build.Entry
import StaticSite.Proofs.Build.Incremental

/-!
# The names of stylesheets

A session remembers the name that each stylesheet with a mark for a hash was given
(`Session.names`), and pages link the stylesheet under it. The name is given after the stylesheet is
compiled and before it is written, so that over any run of bundlings the session knows the name of
the last one that came to be written (`names_of_bundlings`), whether or not its file was: where no
write fails, that is the name of the last one that was.
-/

namespace StaticSite.Style

variable {σ : Type}

/-- A stylesheet that is bundled, and the session in which that is done. -/
structure Bundling (σ : Type) where
  /-- The stylesheet. -/
  style : Stylesheet
  /-- The session. -/
  before : Session σ

/-- Compiles and finishes a stylesheet, up to the text that is to be written. -/
def ready (c : Collaborators σ) (optimized : Bool) (style : Stylesheet) : Action σ String := do
  let compiled ← c.compile style.source optimized
  let css ← finished c optimized compiled.css
  return String.ofList css

section

variable (c : Collaborators σ) (directory : Path) (optimized : Bool)

/-- The name that a bundling gives a stylesheet with a mark, if it comes to write it. -/
def Bundling.given? (t : Bundling σ) : Option String :=
  match ((ready c optimized t.style).perform t.before).1 with
  | .ok text => if isHashed t.style.filename then some (outputName t.style.filename text) else none
  | .error _ => none

/-- The name under which a bundling wrote a stylesheet with a mark, if it did. -/
def Bundling.written? (t : Bundling σ) : Option String :=
  match ((bundle c directory optimized t.style).perform t.before).1 with
  | .ok w => if isHashed t.style.filename then some w.filename else none
  | .error _ => none

/-- Sessions in which some stylesheets were bundled one after the other, from a session without
names. Between two bundlings anything may happen that leaves the names alone. -/
inductive Bundlings : List (Bundling σ) → Session σ → Prop where
  /-- No stylesheet was bundled. -/
  | start (s : Session σ) (h : s.names = []) : Bundlings [] s
  /-- One more is bundled. -/
  | bundle {l : List (Bundling σ)} {s : Session σ} (h : Bundlings l s) (style : Stylesheet) :
    Bundlings (l ++ [⟨style, s⟩]) ((bundle c directory optimized style).perform s).2
  /-- Something else is done. -/
  | between {l : List (Bundling σ)} {s s' : Session σ} (h : Bundlings l s)
      (hnames : s'.names = s.names) :
    Bundlings l s'

end

/-- The last name that one of some bundlings has for a stylesheet. -/
def lastName (name? : Bundling σ → Option String) (style : Stylesheet) (l : List (Bundling σ)) :
    Option String :=
  (l.filterMap fun t => if t.style = style then name? t else none).getLast?

/-- The last name of a stylesheet is that of the last bundling, if it has one, or else that of those
before. -/
theorem lastName_append (name? : Bundling σ → Option String) (style : Stylesheet)
    (l : List (Bundling σ)) (t : Bundling σ) :
    lastName name? style (l ++ [t]) = if t.style = style then (name? t).or (lastName name? style l)
      else lastName name? style l := by
  unfold lastName
  rw [List.filterMap_append, List.getLast?_append]
  by_cases h : t.style = style
  · rw [if_pos h, List.filterMap_cons, if_pos h]
    cases name? t <;> rfl
  · rw [if_neg h, List.filterMap_cons, if_neg h]
    rfl

variable {c : Collaborators σ} {directory : Path} {optimized : Bool}

/-- How bundling a stylesheet ends: it is not made ready and keeps its name, or it takes the name of
its text, whether its file is then refused or written. -/
theorem bundle_cases (hparts : c.IsFiling) (directory : Path) (optimized : Bool)
    (style : Stylesheet) (s : Session σ) :
    (∃ fault s', bundle c directory optimized style s = (.error fault, s') ∧
      (ready c optimized style s).1 = .error fault ∧ s'.names = s.names) ∨
    ∃ text s', (ready c optimized style s).1 = .ok text ∧ s'.names = named s.names style text ∧
      ((∃ fault, bundle c directory optimized style s = (.error fault, s')) ∨
        ∃ w s₁ s₂, bundle c directory optimized style s = (.ok w, s') ∧
          w.filename = writtenName style text ∧
          (Output.write c.store directory w.filename text).perform s₁ = (.ok w.output, s₂)) := by
  rw [bundle_eq_bind]
  unfold ready
  have hcompile := hparts.compile style.source optimized s
  rcases hcompiled : c.compile style.source optimized s with ⟨fault | compiled, s₁⟩ <;>
    rw [hcompiled] at hcompile
  · rw [bind_apply_error hcompiled, bind_apply_error hcompiled]
    exact .inl ⟨fault, s₁, rfl, rfl, hcompile.names⟩
  rw [bind_apply_ok hcompiled, bind_apply_ok hcompiled]
  have hfinish := isFiling_finished hparts optimized compiled.css s₁
  rcases hfinished : finished c optimized compiled.css s₁ with ⟨fault | css, s₂⟩ <;>
    rw [hfinished] at hfinish
  · rw [bind_apply_error hfinished, bind_apply_error hfinished]
    exact .inl ⟨fault, s₂, rfl, rfl, hfinish.names.trans hcompile.names⟩
  rw [bind_apply_ok hfinished, bind_apply_ok hfinished, bind_apply_ok (modify_apply _ _)]
  have hnames : s₂.names = s.names := hfinish.names.trans hcompile.names
  -- From here on the stylesheet has its name, and writing leaves the names alone.
  generalize hs₃ : { s₂ with names := named s₂.names style (String.ofList css) } = s₃
  have hgiven : s₃.names = named s.names style (String.ofList css) := by rw [← hs₃, ← hnames]
  have hwrite :=
    Output.isFiling_write hparts.store directory (writtenName style (String.ofList css))
      (String.ofList css) s₃
  rcases hwritten : Output.write c.store directory (writtenName style (String.ofList css))
    (String.ofList css) s₃
    with ⟨fault | output, s₄⟩ <;> rw [hwritten] at hwrite
  · rw [bind_apply_error hwritten]
    exact .inr ⟨String.ofList css, s₄, rfl, hwrite.names.trans hgiven, .inl ⟨fault, rfl⟩⟩
  · rw [bind_apply_ok hwritten, bind_apply_ok (Action.say_apply _ _ _ _),
      bind_apply_ok (get_apply _)]
    refine .inr ⟨String.ofList css, _, rfl, ?_, .inr ⟨_, s₃, s₄, rfl, rfl, ?_⟩⟩
    · exact hwrite.names.trans hgiven
    · rw [Action.perform_apply]
      exact hwritten

/-- A bundling with a text to write gives a name, if the filename has a mark. -/
theorem given?_of_ready_eq_ok {t : Bundling σ} {text : String}
    (h : (ready c optimized t.style t.before).1 = .ok text) :
    t.given? c optimized = if isHashed t.style.filename then some (writtenName t.style text)
      else none := by
  unfold Bundling.given? writtenName
  rw [Action.perform_apply, h]
  by_cases hhashed : isHashed t.style.filename = true
  · simp only [hhashed, if_true]
  · simp only [hhashed]
    rfl

/-- A bundling that fails before it writes gives no name. -/
theorem given?_of_ready_eq_error {t : Bundling σ} {fault : Fault}
    (h : (ready c optimized t.style t.before).1 = .error fault) : t.given? c optimized = none := by
  unfold Bundling.given?
  rw [Action.perform_apply, h]

/-- A bundling gives its stylesheet the name that it has for it, and changes no name if it has
none. -/
theorem names_bundle (hparts : c.IsFiling) (directory : Path) (t : Bundling σ) :
    ((bundle c directory optimized t.style).perform t.before).2.names =
      match t.given? c optimized with
      | some name => t.before.names.set t.style name
      | none => t.before.names := by
  rw [Action.perform_apply]
  rcases bundle_cases hparts directory optimized t.style t.before with
    ⟨fault, s', hbundle, hready, hnames⟩ | ⟨text, s', hready, hnames, hends⟩
  · rw [hbundle, given?_of_ready_eq_error hready]
    exact hnames
  · have hsession : (bundle c directory optimized t.style t.before).2 = s' := by
      rcases hends with ⟨fault, hbundle⟩ | ⟨w, s₁, s₂, hbundle, -⟩ <;> rw [hbundle]
    rw [hsession, hnames, given?_of_ready_eq_ok hready, named]
    split <;> rfl

/-- After a bundling a stylesheet has the name that it was given, or else the one from before. -/
theorem lookup_names_bundle (hparts : c.IsFiling) (directory : Path) (t : Bundling σ)
    (style : Stylesheet) :
    ((bundle c directory optimized t.style).perform t.before).2.names.lookup style =
      if t.style = style then (t.given? c optimized).or (t.before.names.lookup style)
      else t.before.names.lookup style := by
  rw [names_bundle hparts]
  cases t.given? c optimized with
  | none => exact (ite_self _).symm
  | some name =>
    by_cases h : t.style = style
    · rw [if_pos h, h]
      exact OutputNames.lookup_set_self _ style name
    · rw [if_neg h]
      exact OutputNames.lookup_set_of_ne _ name (Ne.symm h)

/-- A stylesheet is written under the name that it was given, with the text that names it. -/
theorem exists_ready_of_bundle (hparts : c.IsFiling) {style : Stylesheet} {s s' : Session σ}
    {w : Written} (h : (bundle c directory optimized style).perform s = (.ok w, s')) :
    ∃ text, ((ready c optimized style).perform s).1 = .ok text ∧
      w.filename = writtenName style text ∧
      ∃ s₁ s₂, (Output.write c.store directory w.filename text).perform s₁ =
        (.ok w.output, s₂) := by
  rw [Action.perform_apply] at h ⊢
  rcases bundle_cases hparts directory optimized style s with
    ⟨fault, s', hbundle, -⟩ | ⟨text, s', hready, -,
      ⟨fault, hbundle⟩ | ⟨w', s₁, s₂, hbundle, hname, hwrite⟩⟩
  · cases hbundle.symm.trans h
  · cases hbundle.symm.trans h
  · cases hbundle.symm.trans h
    exact ⟨text, hready, hname, s₁, s₂, hwrite⟩

/-- A name under which a stylesheet was written was given to it. -/
theorem given?_of_written? (hparts : c.IsFiling) {t : Bundling σ} {name : String}
    (h : t.written? c directory optimized = some name) : t.given? c optimized = some name := by
  unfold Bundling.written? at h
  rcases hbundle : (bundle c directory optimized t.style).perform t.before with ⟨fault | w, s'⟩ <;>
    rw [hbundle] at h
  · cases h
  · obtain ⟨text, hready, hname, -⟩ := exists_ready_of_bundle hparts hbundle
    rw [Action.perform_apply] at hready
    rw [given?_of_ready_eq_ok hready, ← hname]
    exact h

/-- The last name depends only on the names that the bundlings have. -/
theorem lastName_congr {name? name?' : Bundling σ → Option String} {l : List (Bundling σ)}
    (h : ∀ t ∈ l, name? t = name?' t) (style : Stylesheet) :
    lastName name? style l = lastName name?' style l := by
  unfold lastName
  congr 1
  exact List.filterMap_congr fun t ht => by rw [h t ht]

/-- The session knows a stylesheet by the last name that a bundling gave it. -/
theorem Bundlings.lookup_names (hparts : c.IsFiling) {l : List (Bundling σ)} {s : Session σ}
    (h : Bundlings c directory optimized l s) (style : Stylesheet) :
    s.names.lookup style = lastName (·.given? c optimized) style l := by
  induction h with
  | start s h =>
    rw [h]
    rfl
  | @bundle l s _ sheet ih =>
    rw [lookup_names_bundle hparts directory ⟨sheet, s⟩ style, lastName_append, ih]
  | between _ hnames ih => rw [hnames, ih]

/-- After any run of bundlings a session knows for each stylesheet the name that the last bundling
gave it which came to write it; a bundling that does not come so far changes no name, and one that
succeeds writes the text that its name is made of. So the names are those of the last writes if no
write failed. -/
theorem names_of_bundlings (hparts : c.IsFiling) {l : List (Bundling σ)} {s : Session σ}
    (h : Bundlings c directory optimized l s) :
    (∀ style, s.names.lookup style = lastName (·.given? c optimized) style l) ∧
    (∀ t : Bundling σ, t.given? c optimized = none →
      ((bundle c directory optimized t.style).perform t.before).2.names = t.before.names) ∧
    (∀ (t : Bundling σ) w s', (bundle c directory optimized t.style).perform t.before =
      (.ok w, s') →
      ∃ text, ((ready c optimized t.style).perform t.before).1 = .ok text ∧
        w.filename = writtenName t.style text ∧
        ∃ s₁ s₂, (Output.write c.store directory w.filename text).perform s₁ = (.ok w.output, s₂)) ∧
    ((∀ t ∈ l, t.written? c directory optimized = none → t.given? c optimized = none) →
      ∀ style, s.names.lookup style = lastName (·.written? c directory optimized) style l) := by
  refine ⟨h.lookup_names hparts, fun t hnone => ?_,
    fun t w s' hw => exists_ready_of_bundle hparts hw, ?_⟩
  · rw [names_bundle hparts, hnone]
  · intro hwrites style
    rw [h.lookup_names hparts style]
    refine lastName_congr (fun t ht => ?_) style
    cases hwritten : t.written? c directory optimized with
    | none => exact hwrites t ht hwritten
    | some name => exact given?_of_written? hparts hwritten

/-! ## A sample -/

namespace Sample

/-- The parts of a build. -/
def parts : Collaborators Unit := (Builder.Sample.site []).parts

/-- The output directory. -/
def output : Path := (Builder.Sample.site []).settings.output

/-- A session in which a file stands where the output directory should be. -/
def blocked : Session Unit :=
  let s := Builder.Sample.session [("m.css", "a")]
  { s with tree := s.tree.put ["site", "dist"] (.file ByteArray.empty (.given 1000)) }

/-- The session after a stylesheet could not be written. -/
def refused : Session Unit := ((bundle parts output false Builder.Sample.sheet).perform blocked).2

/-- The session with the way made free and the stylesheet changed. -/
def freed : Session Unit :=
  Builder.Sample.edit "m.css" "b"
    { refused with tree := (Builder.Sample.session [("m.css", "a")]).tree }

end Sample

open Sample Builder.Sample in
/-- In the sample the second bundling is written, and the stylesheet has its name. -/
theorem names_of_bundlings_sample :
    ∃ s, Bundlings parts output false [⟨sheet, blocked⟩, ⟨sheet, freed⟩] s ∧
      (∀ style, s.names.lookup style =
        lastName (·.given? parts false) style [⟨sheet, blocked⟩, ⟨sheet, freed⟩]) ∧
      s.names.lookup sheet = some "m.92eb5ffee6ae2fec3ad71c77.css" := by
  have hblocked : Bundlings parts output false [⟨sheet, blocked⟩] refused :=
    .bundle (.start blocked rfl) sheet
  have hfreed : Bundlings parts output false [⟨sheet, blocked⟩] freed := .between hblocked rfl
  have hbundlings := Bundlings.bundle hfreed sheet
  refine ⟨_, hbundlings, (names_of_bundlings (Collaborators.isFiling_standard _) hbundlings).1, ?_⟩
  decide +kernel

open Sample Builder.Sample in
/-- A stylesheet that was never written has a name after its file was refused. -/
theorem names_of_refused :
    ∃ s, Bundlings parts output false [⟨sheet, blocked⟩] s ∧
      (∀ t ∈ [(⟨sheet, blocked⟩ : Bundling Unit)], t.written? parts output false = none) ∧
      blocked.names = [] ∧ s.names.lookup sheet = some "m.0cc175b9c0f1b6a831c399e2.css" := by
  refine ⟨refused, .bundle (.start blocked rfl) sheet, ?_⟩
  decide +kernel

end StaticSite.Style
