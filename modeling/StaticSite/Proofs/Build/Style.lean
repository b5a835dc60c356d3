import StaticSite.Build.Pass
import StaticSite.Proofs.Output

/-!
# What a stylesheet is made of

Compiling a stylesheet changes nothing but the log, and its answer is that of the expansion of its
source (`compile_apply`). From it come the text that is written and the files that are recorded
(`Product`). `bundle_spec` says what bundling does with them.
-/

namespace StaticSite

/-- The digits of a number are hexadecimal digits. -/
theorem Text.mem_hex {width n : Nat} {c : Char} (h : c ∈ hex width n) : ∃ k, c = hexDigit k := by
  induction width generalizing n with
  | zero => cases h
  | succ width ih =>
    rcases List.mem_append.1 h with h | h
    · exact ih h
    · exact ⟨n, List.mem_singleton.1 h⟩

namespace Style

variable {σ : Type}

/-- The hash of a text is cut from digits in base sixteen. -/
theorem exists_hexDigit_of_mem_contentHash {text : String} {c : Char}
    (h : c ∈ (contentHash text).toList) :
    ∃ n, c = Text.hexDigit n := by
  unfold contentHash Md5.digest at h
  rw [String.toList_ofList, String.toList_ofList] at h
  obtain ⟨byte, -, hbyte⟩ := List.mem_flatMap.1 (List.mem_of_mem_take h)
  exact Text.mem_hex hbyte

/-- The hash of a text is not empty. -/
theorem contentHash_ne_nil (text : String) : (contentHash text).toList ≠ [] := by
  have hlength : 0 < (contentHash text).toList.length := by
    unfold contentHash Md5.digest
    simp [Md5.littleEndian]
  exact List.ne_nil_of_length_pos hlength

/-- The hash of a text holds no separator of either kind. -/
theorem flat_contentHash {text : String} {c : Char} (h : c ∈ (contentHash text).toList) :
    c ≠ '/' ∧ c ≠ '\\' := by
  have hdigits : ∀ k < 16, Nat.digitChar k ≠ '/' ∧ Nat.digitChar k ≠ '\\' := by decide
  obtain ⟨n, rfl⟩ := exists_hexDigit_of_mem_contentHash h
  exact hdigits _ (Nat.mod_lt _ (by decide))

/-- Imports can be expanded whatever the limit. -/
theorem exists_importer (depthLimit : Int) : ∃ x, importer depthLimit = .ok x := by
  have hmode : IncludeMode.ofName? IncludeMode.imports.name = some .imports := rfl
  unfold importer Expander.make Grammar.make
  simp only [hmode, reduceCtorEq, false_and, if_false]
  exact ⟨_, rfl⟩

/-- The compiled form of a stylesheet in files that are read by `read`. -/
def compiled (x : Expander) (place : Place) (read : Reads) (source : Path) (optimized : Bool) :
    Except Fault CompiledStyle :=
  let root := Path.absolute place source.toString none
  let bundle := (x.resolve place read root).1
  match bundle.error with
  | some error => .error (.stylesheet source error)
  | none =>
      .ok ⟨if optimized then compact bundle.content else bundle.content,
        root :: bundle.dependencies⟩

/-- A compiled stylesheet lists its source and the dependencies of that. -/
theorem loaded_of_compiled {x : Expander} {place : Place} {read : Reads} {source : Path}
    {optimized : Bool} {c : CompiledStyle} (h : compiled x place read source optimized = .ok c) :
    (x.resolve place read (Path.absolute place source.toString none)).1.isOk = true ∧
      c.loaded = Path.absolute place source.toString none ::
        (x.resolve place read (Path.absolute place source.toString none)).1.dependencies := by
  unfold compiled at h
  simp only at h
  split at h
  · cases h
  · rename_i hnone
    rw [← Except.ok.inj h]
    exact ⟨by rw [Bundle.isOk, hnone]; rfl, rfl⟩

/-- Compiling gives the compiled form and adds to the log, whatever the store is. -/
theorem compile_apply (store : FileStore σ) {depthLimit : Int} {x : Expander}
    (hx : importer depthLimit = .ok x) (source : Path) (optimized : Bool) (s : Session σ) :
    ∃ log, compile store depthLimit source optimized s =
      (compiled x s.place (store.readText s) source optimized, { s with log }) := by
  unfold compile compiled
  have himporter : (liftM (importer depthLimit) : Action σ Expander) s = (.ok x, s) := by
    rw [liftM_apply, hx]
  rw [bind_apply_ok himporter, bind_apply_ok (get_apply s)]
  refine ⟨s.log ++
    (x.resolve s.place (store.readText s) (Path.absolute s.place source.toString none)).2.log, ?_⟩
  dsimp only
  generalize x.resolve s.place (store.readText s)
    (Path.absolute s.place source.toString none) = resolved
  obtain ⟨bundle, trace⟩ := resolved
  unfold addLog
  rw [bind_apply_ok (modify_apply _ s)]
  cases bundle.error <;> rfl

/-- What a stylesheet is made into. -/
structure Product where
  /-- The text that is written. -/
  text : String
  /-- The files that it was made from. -/
  sources : List Path

/-- What a stylesheet is made into in a session. -/
def product (settings : Settings) (s : Session σ) (style : Stylesheet) : Except Fault Product := do
  let x ← importer settings.includes.depthLimit
  (compiled x s.place s.readText style.source settings.isOptimized).map fun c =>
    ⟨String.ofList c.css, c.loaded.map fun p => Path.absolute s.place p.toString none⟩

/-- The name under which a stylesheet is written with some text. -/
def writtenName (style : Stylesheet) (text : String) : String :=
  if isHashed style.filename then outputName style.filename text else style.filename

/-- The names of stylesheets once one was given that of a text. -/
def named (names : OutputNames) (style : Stylesheet) (text : String) : OutputNames :=
  if isHashed style.filename then names.set style (writtenName style text) else names

/-- The file to which a stylesheet is written with some text. -/
def outputPath (settings : Settings) (place : Place) (style : Stylesheet) (text : String) : Path :=
  Output.path place settings.output (writtenName style text)

/-- How the bundling of a stylesheet ends in a session: it cannot be compiled, its file is refused,
or it is written. -/
inductive Bundled (settings : Settings) (style : Stylesheet) (s : Session σ) :
    Except Fault Written → Session σ → Prop where
  /-- It cannot be compiled. -/
  | failed (fault : Fault) (log : List Log.Line)
      (hproduct : product settings s style = .error fault) :
      Bundled settings style s (.error fault) { s with log }
  /-- The tree does not accept its file. -/
  | refused (m : Product) (fault : Fault) (tree : Tree) (clock : Nat) (log : List Log.Line)
      (hproduct : product settings s style = .ok m)
      (hrefused : ¬s.tree.Accepts (outputPath settings s.place style m.text))
      (htree : Tree.Grows (outputPath settings s.place style m.text).names.dropLast s.tree tree) :
      Bundled settings style s (.error fault)
        { s with tree, clock, log, names := named s.names style m.text }
  /-- It is written. -/
  | written (m : Product) (tree : Tree) (clock : Nat) (log : List Log.Line)
      (hproduct : product settings s style = .ok m)
      (haccepts : s.tree.Accepts (outputPath settings s.place style m.text))
      (htree : Tree.Wrote (outputPath settings s.place style m.text).names (Text.encode m.text)
        s.tree tree) :
      Bundled settings style s
        (.ok ⟨style.source, writtenName style m.text,
          outputPath settings s.place style m.text, m.sources⟩)
        { s with tree, clock, log, names := named s.names style m.text }

/-- Works on a compiled stylesheet that is made for visitors. -/
def finished (c : Collaborators σ) (optimized : Bool) (css : List Char) : Action σ (List Char) :=
  if optimized then c.postProcess css else pure css

/-- A stylesheet is compiled, finished, named and written. -/
theorem bundle_eq_bind (c : Collaborators σ) (directory : Path) (optimized : Bool)
    (style : Stylesheet) :
    bundle c directory optimized style = (do
      let compiled ← c.compile style.source optimized
      let css ← finished c optimized compiled.css
      modify fun s => { s with names := named s.names style (String.ofList css) }
      let output ← Output.write c.store directory (writtenName style (String.ofList css))
        (String.ofList css)
      Action.say .info .styles ("Stylesheet " ++ style.source.toString ++ " -> " ++ output.toString)
      let place := (← get).place
      return ⟨style.source, writtenName style (String.ofList css), output,
        compiled.loaded.map fun p => Path.absolute place p.toString none⟩) := by
  unfold bundle finished named writtenName
  refine bind_congr fun compiled => ?_
  by_cases hoptimized : optimized = true <;> by_cases hhashed : isHashed style.filename = true <;>
    simp only [hoptimized, hhashed, if_true, if_false, Bool.false_eq_true] <;> rfl

/-- Bundling a stylesheet ends in one of three ways. -/
theorem bundle_spec (settings : Settings) (style : Stylesheet) {s : Session σ}
    (hcwd : s.place.cwd.isAbsolute = true) :
    ∃ r s', bundle (.standard settings) settings.output settings.isOptimized style s = (r, s') ∧
      Bundled settings style s r s' := by
  obtain ⟨x, hx⟩ := exists_importer settings.includes.depthLimit
  obtain ⟨log, hcompile⟩ : ∃ log,
    (Collaborators.standard settings).compile style.source settings.isOptimized s =
      (compiled x s.place s.readText style.source settings.isOptimized, { s with log }) :=
    compile_apply .onTree hx style.source settings.isOptimized s
  rw [bundle_eq_bind]
  have hproduct : product settings s style = (compiled x s.place s.readText style.source
      settings.isOptimized).map fun c =>
        ⟨String.ofList c.css, c.loaded.map fun p => Path.absolute s.place p.toString none⟩ := by
    unfold product
    simp only [hx, bind, Except.bind]
  cases hcompiled : compiled x s.place s.readText style.source settings.isOptimized with
  | error fault =>
    rw [hcompiled] at hcompile hproduct
    exact ⟨_, _, bind_apply_error hcompile, .failed fault log hproduct⟩
  | ok c =>
    rw [hcompiled] at hcompile hproduct
    -- A standard build does nothing to a stylesheet once it is compiled.
    have hfinished : ∀ s' : Session σ, finished (.standard settings) settings.isOptimized c.css s' =
        (.ok c.css, s') := by
      intro s'
      unfold finished
      split <;> rfl
    have hstore : (Collaborators.standard settings : Collaborators σ).store = .onTree := rfl
    rw [bind_apply_ok hcompile, bind_apply_ok (hfinished _),
      bind_apply_ok (modify_apply _ _), hstore]
    -- From here on the product goes by one name, in the answer as in the session.
    generalize hm :
      (⟨String.ofList c.css, c.loaded.map fun p => Path.absolute s.place p.toString none⟩ :
      Product) = m
    have htext : String.ofList c.css = m.text := by rw [← hm]
    have hsources : (c.loaded.map fun p => Path.absolute s.place p.toString none) = m.sources := by
      rw [← hm]
    have hproduct' : product settings s style = .ok m := by
      rw [hproduct, ← hm]
      rfl
    rw [htext]
    obtain ⟨tree, clock, log', ⟨haccepts, hwrote, hwrite⟩ | ⟨hrefused, hgrows, fault, hwrite⟩⟩ :=
      Output.write_spec settings.output (writtenName style m.text) m.text
        (s := { s with log, names := named s.names style m.text }) hcwd
    · rw [bind_apply_ok hwrite, bind_apply_ok (Action.say_apply _ _ _ _),
        bind_apply_ok (get_apply _)]
      simp only [hsources]
      exact ⟨_, _, rfl, .written m tree clock _ hproduct' haccepts hwrote⟩
    · rw [bind_apply_error hwrite]
      exact ⟨_, _, rfl, .refused m fault tree clock log' hproduct' hrefused hgrows⟩

end Style

end StaticSite
