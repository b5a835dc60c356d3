import StaticSite.Proofs.Build.Style
import StaticSite.Proofs.Include.Locality

/-!
# What a result depends on

The files that a result lists are all that it depends on. A bundle without an error is the same in
any other store in which its root and its dependencies have the same texts, and so is a compiled
stylesheet where the files it was made from have them (`eq_of_agree_on_dependencies`): what both
runs try to read is listed by the first (`Expander.mem_reads_of_isOk`), so that they never part
(`Expander.resolve_congr`).
-/

namespace StaticSite

variable {σ τ : Type}

/-- A bundle without an error is that of every store that agrees on its root and its
dependencies. -/
theorem Expander.resolve_eq_of_agree {x : Expander} {place : Place} {read read' : Reads}
    {root : Path} (hok : (x.resolve place read root).1.isOk = true)
    (hagree : ∀ q, q = root ∨ q ∈ (x.resolve place read root).1.dependencies → read' q = read q) :
    x.resolve place read' root = x.resolve place read root :=
  resolve_congr fun q hq _ => hagree q (mem_reads_of_isOk hok hq).1

namespace Style

/-- The answer of a compilation is the compiled form. -/
theorem perform_compile (store : FileStore σ) {depthLimit : Int} {x : Expander}
    (hx : importer depthLimit = .ok x) (source : Path) (optimized : Bool) (s : Session σ) :
    ((compile store depthLimit source optimized).perform s).1 =
      compiled x s.place (store.readText s) source optimized := by
  obtain ⟨log, h⟩ := compile_apply store hx source optimized s
  rw [Action.perform_apply, h]

variable {x : Expander} {place : Place} {read read' : Reads} {source : Path} {optimized : Bool}
    {c : CompiledStyle}

/-- A compiled stylesheet is that of every store that agrees on the files it was made from. -/
theorem compiled_eq_of_agree (h : compiled x place read source optimized = .ok c)
    (hagree : ∀ q ∈ c.loaded, read' q = read q) :
    compiled x place read' source optimized = .ok c := by
  obtain ⟨hok, hloaded⟩ := loaded_of_compiled h
  have hresolve :=
    Expander.resolve_eq_of_agree hok fun q hq => hagree q (by rw [hloaded, List.mem_cons]; exact hq)
  rw [← h]
  simp only [compiled, hresolve]

end Style

/-- What a file without an error is resolved to, with its dependencies and warnings, is the same in
every store in which the file and its dependencies have the same texts, and what a stylesheet is
compiled to, with the files it was made from, is the same in every store in which these have the
same texts. -/
theorem eq_of_agree_on_dependencies :
    (∀ (x : Expander) (place : Place) (read read' : Reads) (root : Path),
      (x.resolve place read root).1.isOk = true →
      (∀ q, q = root ∨ q ∈ (x.resolve place read root).1.dependencies → read' q = read q) →
      x.resolve place read' root = x.resolve place read root) ∧
    (∀ (store : FileStore σ) (store' : FileStore τ) (depthLimit : Int) (source : Path)
      (optimized : Bool) (s : Session σ) (s' : Session τ) (c : CompiledStyle), s'.place = s.place →
      ((Style.compile store depthLimit source optimized).perform s).1 = .ok c →
      (∀ q ∈ c.loaded, store'.readText s' q = store.readText s q) →
      ((Style.compile store' depthLimit source optimized).perform s').1 = .ok c) := by
  constructor
  · intro x place read read' root hok hagree
    exact Expander.resolve_eq_of_agree hok hagree
  · intro store store' depthLimit source optimized s s' c hplace hcompile hagree
    obtain ⟨x, hx⟩ := Style.exists_importer depthLimit
    rw [Style.perform_compile store hx] at hcompile
    rw [Style.perform_compile store' hx, hplace]
    exact Style.compiled_eq_of_agree hcompile hagree

/-! ## A sample -/

namespace Expander.Sample

/-- A store in which a file has a text of its own, or one that is the same for all. -/
def filled (read : Reads) : Reads := fun p =>
  match read p with
  | .ok text => .ok text
  | .error _ => .ok "@import 'elsewhere';"

/-- A file that can be read has its own text in the filled store. -/
theorem filled_eq {read : Reads} {p : Path} (h : (read p).toOption.isSome = true) :
    filled read p = read p := by
  unfold filled
  cases hp : read p with
  | ok text => rfl
  | error fault => rw [hp] at h; cases h

/-- A stylesheet and what it imports, one address of the web among it. -/
def sheets : Reads := fun p =>
  match [(file "main.css", "@import 'base'; p { top: 0; }"),
    (file "base.css", "@import '//cdn/x.css'; b { top: 0; }")].lookup p with
  | some text => .ok text
  | none => .error (.missingText p)

/-- A store that reads texts in one way, whatever the session is. -/
def storeOf (read : Reads) : FileStore Unit := { FileStore.onTree with readText := fun _ => read }

/-- A session in the directory of the sample. -/
def session : Session Unit := .start ⟨[]⟩ directory ⟨2024, 5, 6⟩ ()

end Expander.Sample

open Expander.Sample in
/-- Neither the page of the sample nor the stylesheet depends on what lies elsewhere. -/
theorem eq_of_agree_on_dependencies_sample :
    ((expander.resolve directory reads (file "a.html")).1.isOk = true ∧
      (expander.resolve directory reads (file "a.html")).1.dependencies =
        [file "b.html", file "c.html"] ∧
      expander.resolve directory (filled reads)
        (file "a.html") = expander.resolve directory reads (file "a.html")) ∧
    ∃ c, c.loaded = [file "main.css", file "base.css"] ∧
      ((Style.compile (storeOf sheets) 2 (file "main.css") false).perform session).1 = .ok c ∧
      ((Style.compile (storeOf (filled sheets)) 2 (file "main.css") false).perform session).1 =
        .ok c := by
  have hpage : (expander.resolve directory reads (file "a.html")).1.isOk = true ∧
      (expander.resolve directory reads (file "a.html")).1.dependencies =
        [file "b.html", file "c.html"] := by
    decide +kernel
  obtain ⟨hok, hdependencies⟩ := hpage
  have hloaded :
    (((Style.compile (storeOf sheets) 2 (file "main.css") false).perform session).1.toOption.map
      (·.loaded)) = some [file "main.css", file "base.css"] := by
    decide +kernel
  refine ⟨⟨hok, hdependencies, ?_⟩, ?_⟩
  · refine (eq_of_agree_on_dependencies (σ := Unit) (τ := Unit)).1 _ _ _ _ _ hok
      fun q hq => filled_eq ?_
    rw [hdependencies] at hq
    have hthere : ∀ q ∈ [file "a.html", file "b.html", file "c.html"],
        (reads q).toOption.isSome = true := by
      decide +kernel
    exact hthere q (List.mem_cons.2 hq)
  · rcases hcompile : ((Style.compile (storeOf sheets) 2 (file "main.css") false).perform session).1
      with fault | c
    · rw [hcompile] at hloaded
      cases hloaded
    · rw [hcompile] at hloaded
      have hfiles : c.loaded = [file "main.css", file "base.css"] := Option.some.inj hloaded
      refine ⟨c, hfiles, rfl, ?_⟩
      refine eq_of_agree_on_dependencies.2 _ _ _ _ _ session session c rfl hcompile
        fun q hq => filled_eq ?_
      rw [hfiles] at hq
      have hthere : ∀ q ∈ [file "main.css", file "base.css"],
          (sheets q).toOption.isSome = true := by
        decide +kernel
      exact hthere q hq

end StaticSite
