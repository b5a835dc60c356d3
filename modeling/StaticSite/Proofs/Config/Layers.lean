import StaticSite.Config.Load
import StaticSite.Proofs.Config.Environment
import StaticSite.Proofs.Config.Valid
import StaticSite.Proofs.Effect

/-!
# The layers of a configuration

A configuration is loaded from its layers alone (`load_fst`): the defaults, the project's file, the
environment and what the caller says. All of them are proper mappings, so that at every path of keys
the highest layer counts which says anything of it (`at?_stack`). What is loaded holds that, with
the days and moments in its lists and mappings written as text (`precedence_by_path`). Those in a
tuple or a set stay as they are, as in `load_keeps_day`.
-/

namespace StaticSite

open Value

/-! ## Stacks of mappings -/

/-- Some mappings laid over one another, the highest first. -/
def Mapping.stack (lowest : Mapping) : List Mapping → Mapping
  | [] => lowest
  | upper :: below => merge (stack lowest below) upper

/-- A value, of which it only counts that it is a mapping if it is one. -/
def Value.outline : Value → Value
  | .mapping _ => .mapping []
  | v => v

/-- Laying a value over another keeps its outline. -/
theorem Value.outline_laidOver (lower : Option Value) (v : Value) :
    (laidOver lower v).outline = v.outline := by
  unfold laidOver
  split <;> rfl

/-- At every path of a stack stands what the highest mapping says of it that says anything; of a
mapping there, that it is one. -/
theorem Mapping.at?_stack {layers : List Mapping} (h : ∀ m ∈ layers, isProper m = true)
    (lowest : Mapping) (path : List Value) :
    ((mapping (stack lowest layers)).at? path).map outline =
      ((layers ++ [lowest]).findSome? fun m => (mapping m).says? path).join.map outline := by
  induction layers with
  | nil =>
    rw [stack, at?_eq, List.nil_append, List.findSome?_singleton]
  | cons upper below ih =>
    obtain ⟨hupper, hbelow⟩ := List.forall_mem_cons.1 h
    rw [stack, at?_merge _ hupper, List.cons_append, List.findSome?_cons]
    rcases (mapping upper).says? path with _ | _ | v
    · exact ih hbelow
    · rfl
    · exact congrArg some (outline_laidOver _ v)

/-! ## Days and moments -/

mutual

/-- Whether there is no day or moment among the values in a value. Keys do not count, and neither
does what tuples and sets hold. -/
def Value.isDateless : Value → Bool
  | .day _ | .moment _ => false
  | .list items => Value.areDateless items
  | .mapping entries => Mapping.isDateless entries
  | _ => true

/-- Whether there is no day or moment among the members of a list. -/
def Value.areDateless : List Value → Bool
  | [] => true
  | v :: rest => v.isDateless && Value.areDateless rest

/-- Whether there is no day or moment among the values of a mapping. -/
def Mapping.isDateless : List (Value × Value) → Bool
  | [] => true
  | (_, v) :: rest => v.isDateless && Mapping.isDateless rest

end

mutual

/-- No value holds a day once days are made texts. -/
theorem isDateless_withDatesAsText : (v : Value) → v.withDatesAsText.isDateless = true
  | .null | .bool _ | .int _ | .float _ | .text _ | .bytes _ | .day _ | .moment _ | .tuple
      _ | .set _ => by
    simp [withDatesAsText, isDateless]
  | .list items => by
    rw [withDatesAsText, isDateless]
    exact areDateless_withDatesAsTextList items
  | .mapping entries => by
    rw [withDatesAsText, isDateless]
    exact isDateless_withDatesAsTextEntries entries

/-- No list holds a day once days in it are made texts. -/
theorem areDateless_withDatesAsTextList :
    (items : List Value) → areDateless (withDatesAsTextList items) = true
  | [] => by rw [withDatesAsTextList, areDateless]
  | v :: rest => by
    rw [withDatesAsTextList, areDateless, isDateless_withDatesAsText v,
      areDateless_withDatesAsTextList rest]
    rfl

/-- No mapping holds a day once days in it are made texts. -/
theorem isDateless_withDatesAsTextEntries : (entries : List (Value × Value)) →
    Mapping.isDateless (withDatesAsTextEntries entries) = true
  | [] => by rw [withDatesAsTextEntries, Mapping.isDateless]
  | (k, v) :: rest => by
    rw [withDatesAsTextEntries, Mapping.isDateless, isDateless_withDatesAsText v,
      isDateless_withDatesAsTextEntries rest]
    rfl

end

/-- What a key leads to is what it led to, with days made texts. -/
theorem get?_withDatesAsTextEntries (m : Mapping) (key : Value) :
    Mapping.get? (withDatesAsTextEntries m) key = (m.get? key).map withDatesAsText := by
  induction m with
  | nil => rw [withDatesAsTextEntries, Mapping.get?_nil, Option.map_none]
  | cons e rest ih =>
    rw [withDatesAsTextEntries, Mapping.get?_cons, Mapping.get?_cons, ih]
    split <;> rfl

/-- Making days texts makes nothing a mapping or the contrary. -/
theorem isMapping_withDatesAsText (v : Value) : v.withDatesAsText.isMapping = v.isMapping := by
  cases v <;> rw [withDatesAsText] <;> first | rfl | simp

/-- With days and moments written as text the same stands at every path, written so. -/
theorem at?_withDatesAsText (v : Value) (path : List Value) :
    v.withDatesAsText.at? path = (v.at? path).map withDatesAsText := by
  induction path generalizing v with
  | nil => simp
  | cons key path ih =>
    rcases mapping_or v with ⟨m, rfl⟩ | hv
    · rw [withDatesAsText, at?_mapping_cons, at?_mapping_cons, get?_withDatesAsTextEntries]
      cases Mapping.get? m key with
      | none => rfl
      | some w => exact ih w
    · rw [at?_cons_of_not_isMapping hv,
        at?_cons_of_not_isMapping (by rw [isMapping_withDatesAsText, hv])]
      rfl

namespace Config

section

variable {σ : Type} {lib : Libraries} {source : Source} {s : Session σ}

/-! ## The project's file -/

/-- The mapping in the configuration file in effect; without one, the empty mapping. -/
def Source.own (lib : Libraries) (source : Source) (s : Session σ) : Except Fault Mapping := do
  match ← source.file? s with
  | some p => loadFile lib s p
  | none => return []

/-- A document that is read is proper, if the library reads proper values. -/
theorem isProper_readDocument (hlib : lib.ReadsProper) {p : Path} {default v : Value}
    (hdefault : default.isProper = true) (h : readDocument lib s p default = .ok v) :
    v.isProper = true := by
  unfold readDocument at h
  obtain ⟨found?, -, h⟩ := bind_eq_ok.1 h
  split at h
  · cases h
  · cases h
  · obtain ⟨document, hdocument, h⟩ := bind_eq_ok.1 h
    split at h
    · rwa [← Except.ok.inj h]
    · rw [← Except.ok.inj h]
      exact hlib _ _ _ hdocument

/-- The mapping that a file gives is proper, if the library reads proper values. -/
theorem isProper_loadFile (hlib : lib.ReadsProper) {p : Path} {own : Mapping}
    (h : loadFile lib s p = .ok own) :
    Mapping.isProper own = true := by
  unfold loadFile at h
  split at h
  · cases h
  · cases h
  · rename_i entries hread
    rw [← Except.ok.inj h, ← isProper_mapping]
    exact isProper_readDocument hlib (by simp) hread
  · cases h

/-- The mapping in the configuration file in effect is proper. -/
theorem isProper_own (hlib : lib.ReadsProper) {own : Mapping} (h : source.own lib s = .ok own) :
    Mapping.isProper own = true := by
  obtain ⟨file?, -, h⟩ := bind_eq_ok.1 h
  cases file? with
  | some p => exact isProper_loadFile hlib h
  | none =>
    rw [← Except.ok.inj h]
    exact Mapping.isProper_nil

/-! ## Loading -/

/-- The defaults with some layers over them, the highest first. -/
def stacked (layers : List Mapping) : Mapping := Mapping.stack (entriesOf defaults) layers

/-- The configuration that layers make up, the highest first. -/
def layered (layers : List Mapping) : Mapping := withDatesAsTextEntries (stacked layers)

/-- A configuration is finished if and only if there is room for its levels. -/
theorem finish_eq_ok_iff {limit : Nat} {config finished : Mapping} :
    finish limit config = .ok finished ↔ (mapping config).levels ≤ limit ∧
      withDatesAsTextEntries config = finished := by
  unfold finish
  split
  · rename_i h
    exact iff_of_false (by simp) fun hfinished => absurd hfinished.1 (Nat.not_le_of_lt h)
  · rename_i h
    simp [Nat.le_of_not_lt h]

/-- The check that ends the loading of a configuration does not depend on what was logged on the
way. -/
theorem checked_fst (lib : Libraries) (validate : Bool) (config : Mapping) (s s' : Session σ) :
    ((if validate then do
        Action.observe fun s => Bundled.check lib s "config.schema" (.mapping config)
        pure config
      else pure config : Action σ Mapping) s').1 =
    (do
      if validate then Bundled.check lib s "config.schema" (.mapping config)
      return config) := by
  cases validate with
  | false => rfl
  | true =>
    have hcheck : Bundled.check lib s' "config.schema" (.mapping config) =
        Bundled.check lib s "config.schema" (.mapping config) := by
      rw [check_configuration, check_configuration]
    rw [if_pos rfl, bind_apply, Action.observe_apply, hcheck]
    cases Bundled.check lib s "config.schema" (.mapping config) <;> rfl

/-- Loading a configuration lays its layers over one another and checks the result. -/
theorem load_fst (lib : Libraries) (source : Source) (validate : Bool) (overrides : Mapping)
    (s : Session σ) : (load lib source validate overrides s).1 = (do
      let own ← source.own lib s
      let said ← (Environment.read s.place.room.brackets source.environment).result
      let config ← finish s.place.room.levels (stacked [overrides, entriesOf said, own])
      if validate then Bundled.check lib s "config.schema" (.mapping config)
      return config) := by
  have hover : ∀ own said,
    Mapping.merge (Mapping.merge (Mapping.merge (entriesOf defaults) own) said) overrides =
      stacked [overrides, said, own] := fun _ _ => rfl
  have hnone : entriesOf defaults = Mapping.merge (entriesOf defaults) [] :=
    (Mapping.merge_nil _).symm
  unfold load Source.own note Action.say
  cases hfile : source.file? s with
  | error fault =>
    simp only [bind_apply, Action.observe_apply, hfile]
    rfl
  | ok file =>
    cases file with
    | none =>
      simp only [bind_apply, Action.observe_apply, hfile, modify_apply, pure_apply, get_apply,
        liftM_apply, ok_bind]
      cases (Environment.read s.place.room.brackets source.environment).result with
      | error fault => rfl
      | ok said =>
        simp only [ok_bind, pure_bind]
        -- No file is a layer that says nothing.
        rw [hnone, hover]
        cases finish s.place.room.levels (stacked [overrides, entriesOf said, []]) with
        | error fault => rfl
        | ok config => exact checked_fst lib validate config s _
    | some p =>
      have hload : ∀ log, loadFile lib { s with log } p = loadFile lib s p := fun _ => rfl
      simp only [bind_apply, Action.observe_apply, hfile, modify_apply, pure_apply, get_apply,
        liftM_apply, ok_bind, hload]
      cases loadFile lib s p with
      | error fault => rfl
      | ok own =>
        simp only [ok_bind, hover]
        cases (Environment.read s.place.room.brackets source.environment).result with
        | error fault => rfl
        | ok said =>
          simp only [ok_bind]
          cases finish s.place.room.levels (stacked [overrides, entriesOf said, own]) with
          | error fault => rfl
          | ok config => exact checked_fst lib validate config s _

/-- At every path of a configuration stands what the highest of its layers says of it that says
anything, with days and moments written as text; of a mapping there, that it is one. -/
theorem at?_layered {layers : List Mapping} (h : ∀ m ∈ layers, Mapping.isProper m = true)
    (path : List Value) : ((mapping (layered layers)).at? path).map outline =
      ((layers ++ [entriesOf defaults]).findSome? fun m => (mapping m).says? path).join.map
        fun v => v.withDatesAsText.outline := by
  have houtline : ∀ o : Option Value,
      (o.map outline).map (fun v => v.withDatesAsText.outline) = o.map fun v =>
        v.withDatesAsText.outline := by
    intro o
    rw [Option.map_map]
    refine congrArg (fun f => o.map f) (funext fun v => ?_)
    cases v <;> simp [outline, withDatesAsText, withDatesAsTextEntries]
  calc ((mapping (layered layers)).at? path).map outline
      = ((mapping (Mapping.stack (entriesOf defaults) layers)).at? path).map fun v =>
        v.withDatesAsText.outline := by
          rw [layered, ← withDatesAsText, at?_withDatesAsText, Option.map_map]
          rfl
    _ = _ := by rw [← houtline, Mapping.at?_stack h, houtline]

/-- A mapping merged with another holds at every path of keys what that says of it, and where that
says nothing what was there before; merging again changes nothing. A configuration that is loaded
with a reader of proper values holds at every path what the highest of its layers says of it that
says anything, the highest being what the caller says, then the environment, the project's file and
the defaults, with every day and moment written as text that lies in it but for those in a tuple or
a set. -/
theorem precedence_by_path :
    (∀ lower upper : Mapping, Mapping.isProper upper = true →
      Mapping.IsOver lower upper (Mapping.merge lower upper) ∧
        Mapping.merge (Mapping.merge lower upper) upper = Mapping.merge lower upper) ∧
    ∀ (lib : Libraries) (source : Source) (validate : Bool) (overrides config : Mapping)
      (s s' : Session σ),
      lib.ReadsProper → Mapping.isProper overrides = true → load lib source validate overrides s =
        (.ok config, s') →
        ∃ own said, source.own lib s = .ok own ∧
          (Environment.read s.place.room.brackets source.environment).result = .ok (.mapping said) ∧
          config = layered [overrides, said, own] ∧
          (∀ path, ((mapping config).at? path).map outline =
            ([overrides, said, own, entriesOf defaults].findSome? fun m => (mapping m).says?
              path).join.map
              fun v => v.withDatesAsText.outline) ∧
          Mapping.isDateless config = true := by
  refine ⟨fun lower upper h => ⟨Mapping.isOver_merge lower h,
    Mapping.merge_merge_self lower upper h⟩, ?_⟩
  intro lib source validate overrides config s s' hlib hoverrides h
  have hload := load_fst lib source validate overrides s
  rw [h] at hload
  obtain ⟨own, hown, hload⟩ := bind_eq_ok.1 hload.symm
  obtain ⟨value, hvalue, hload⟩ := bind_eq_ok.1 hload
  obtain ⟨said, rfl, hsaid⟩ := Environment.exists_mapping_of_read hvalue
  obtain ⟨finished, hfinish, hload⟩ := bind_eq_ok.1 hload
  obtain rfl : layered [overrides, said, own] = finished := (finish_eq_ok_iff.1 hfinish).2
  -- A check refuses the configuration or leaves it as it is.
  obtain rfl : layered [overrides, said, own] = config := by
    cases validate with
    | false => exact Except.ok.inj hload
    | true =>
      rw [if_pos rfl] at hload
      obtain ⟨_, -, hload⟩ := bind_eq_ok.1 hload
      exact Except.ok.inj hload
  have hproper : ∀ m ∈ [overrides, said, own], Mapping.isProper m = true := by
    simp only [List.forall_mem_cons]
    exact ⟨hoverrides, hsaid, isProper_own hlib hown, fun m hm => by cases hm⟩
  exact ⟨own, said, hown, hvalue, rfl, at?_layered hproper, isDateless_withDatesAsTextEntries _⟩

end

namespace Sample

/-- A session in which the configuration file of the project has a text. -/
def sessionWith (text : String) : Session Unit := .start
  ⟨[(["site"], .directory), (["site", "pagebundler.yaml"], .file (Text.encode text) (.given 0))]⟩
  ⟨⟨.absolute, ["site"]⟩, "/home", .usual⟩ ⟨2024, 5, 6⟩ ()

/-- A session with a configuration file, in which a value is a day and a mapping of the defaults is
a number. -/
def layeredSession : Session Unit := sessionWith "minify: 5\nchunks:\n  a: [2024-01-02]\n  1: x\n"

/-- A source with a variable for a key of what is a number in the file, and one for the output
directory. -/
def layeredSource : Source :=
  ⟨root, none,
    [("HOME", "/home"), ("PAGEBUNDLER_MINIFY__REMOVE_COMMENTS", "False"),
      ("PAGEBUNDLER_OUTPUT_PATH", "out")]⟩

/-- What the caller says: another output directory, and nothing for a key of the file, written as a
float. -/
def layeredOverrides : Mapping :=
  [(.text "output_path", .text "elsewhere"), (.text "chunks", .mapping [(.float 1.0, .null)])]

/-- A configuration is loaded from the layers of the sample. -/
theorem makes_load_layered :
    Makes (load .standard layeredSource false layeredOverrides layeredSession).1 := by
  have hsorted : Environment.ownVariables layeredSource.environment =
      [("PAGEBUNDLER_MINIFY__REMOVE_COMMENTS", "False"), ("PAGEBUNDLER_OUTPUT_PATH", "out")] :=
    List.mergeSort_of_pairwise (by decide +kernel)
  rw [load_fst, Environment.read, hsorted]
  exact makes_iff_isOk.2 (by decide +kernel)

/-- A session with a configuration file in which a day is a member of a pair. -/
def pairSession : Session Unit := sessionWith "x: !!omap [a: 2024-01-01]\n"

/-- Whether a configuration was loaded in which the first of a pair is a text and the second a
day. -/
def keepsDay (loaded : Except Fault Mapping) : Bool :=
  match loaded with
  | .ok config =>
    match Mapping.find? config "x" with
    | some (.list [.tuple [.text "a", .day d]]) => d == ⟨2024, 1, 1⟩
    | _ => false
  | .error _ => false

end Sample

open Sample in
/-- A configuration is loaded from the sample's layers, in which each path is told by the highest
layer that says anything of it; and what the caller says is laid over the defaults. -/
theorem precedence_by_path_sample :
    Libraries.standard.ReadsProper ∧ Mapping.isProper layeredOverrides = true ∧
    (∃ config own said,
      (load .standard layeredSource false layeredOverrides layeredSession).1 = .ok config ∧
        (∀ path, ((mapping config).at? path).map outline =
          ([layeredOverrides, said, own, entriesOf defaults].findSome? fun m => (mapping m).says?
            path).join.map
          fun v => v.withDatesAsText.outline)) ∧
    Mapping.IsOver (entriesOf defaults) layeredOverrides
      (Mapping.merge (entriesOf defaults) layeredOverrides) := by
  have hproper : Mapping.isProper layeredOverrides = true := by decide +kernel
  obtain ⟨config, hconfig⟩ := makes_load_layered
  rcases hload : load .standard layeredSource false layeredOverrides layeredSession
    with ⟨answer, s'⟩
  rw [hload] at hconfig
  obtain rfl : answer = .ok config := hconfig
  obtain ⟨own, said, -, -, -, hpath, -⟩ :=
    precedence_by_path.2 .standard layeredSource false layeredOverrides config
      layeredSession s' Libraries.readsProper_standard hproper hload
  exact ⟨Libraries.readsProper_standard, hproper, ⟨config, own, said, rfl, hpath⟩,
    ((precedence_by_path (σ := Unit)).1 (entriesOf defaults) layeredOverrides hproper).1⟩

open Sample in
/-- A day that is a member of a pair stays a day in the configuration that is loaded. -/
theorem load_keeps_day :
    ∃ config, (load .standard ⟨root, none, []⟩ false [] pairSession).1 = .ok config ∧
      Mapping.find? config "x" = some (.list [.tuple [.text "a", .day ⟨2024, 1, 1⟩]]) := by
  have hkeeps : keepsDay (load .standard ⟨root, none, []⟩ false [] pairSession).1 = true := by
    decide +kernel
  unfold keepsDay at hkeeps
  split at hkeeps
  · split at hkeeps
    · rename_i config hload _ d hfind
      exact ⟨config, hload, by rw [hfind, eq_of_beq hkeeps]⟩
    · cases hkeeps
  · cases hkeeps

end Config

end StaticSite
