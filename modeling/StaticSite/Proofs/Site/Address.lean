import StaticSite.Proofs.Build.Links
import StaticSite.Proofs.Build.Naming
import StaticSite.Proofs.Path.Inside
import StaticSite.Proofs.Text.Split

/-!
# Addresses and output files

The address of a file is made from its filename by turning its separators into one kind and making
each run of them one; its output file is found by taking the separators at the front away and
putting the rest below the output directory. Both come to the same names if the filename leads
straight down (`IsDirect`): the address is the path from the output directory to the file
(`IsDirect.ofFile_eq_relativeTo`). A hash that takes the place of a mark brings no separator and
makes no part a parent directory (`IsDirect.outputName`), so that a stylesheet is linked at the
place where its last bundling wrote it (`links_name_outputs`).
-/

namespace StaticSite

open Text (splitAt exists_splitAt splitAt_cons_self splitAt_cons_of_ne)

namespace Address

variable {s first : List Char} {others : List (List Char)} {filename : String}

/-- A text with separators of one kind. -/
def unified (s : List Char) : List Char := s.map fun c => if c == '\\' then '/' else c

/-- The parts of a filename between separators of either kind. -/
def parts (filename : String) : List (List Char) := splitAt '/' (unified filename.toList)

/-- The names in a filename: its parts but the empty ones. -/
def names (filename : String) : List (List Char) := (parts filename).filter (· ≠ [])

/-- A filename that leads straight down to a file, with separators of either kind and in any
number. -/
structure IsDirect (filename : String) : Prop where
  /-- It is not empty. -/
  ne_empty : filename ≠ ""
  /-- No part of it is the directory itself or its parent. -/
  down : ∀ part ∈ parts filename, part ≠ ['.'] ∧ part ≠ ['.', '.']
  /-- Its first name does not begin with the home mark. -/
  homeless : ∀ name ∈ (names filename).head?, name.head? ≠ some '~'
  /-- It does not end in a separator. -/
  ending : ∀ c ∈ filename.toList.getLast?, (c == '\\' || c == '/') = false

instance (filename : String) : Decidable (IsDirect filename) :=
  decidable_of_iff (filename ≠ "" ∧ (∀ part ∈ parts filename, part ≠ ['.'] ∧ part ≠ ['.', '.']) ∧
      (∀ name ∈ (names filename).head?, name.head? ≠ some '~') ∧
      filename.toList.getLast?.any (fun c => c == '\\' || c == '/') = false)
    ⟨fun h => ⟨h.1, h.2.1, h.2.2.1, (Option.any_eq_false _ _).1 h.2.2.2⟩,
      fun h => ⟨h.ne_empty, h.down, h.homeless, (Option.any_eq_false _ _).2 h.ending⟩⟩

/-- Either separator is unified to the same one. -/
theorem unified_cons_separator {c : Char} (hc : (c == '\\' || c == '/') = true) (s : List Char) :
    unified (c :: s) = '/' :: unified s := by
  rcases Bool.or_eq_true_iff.1 hc with hc | hc <;> simp [unified, eq_of_beq hc]

/-- What is no separator is kept. -/
theorem unified_cons_other {c : Char} (hc : (c == '\\' || c == '/') = false) (s : List Char) :
    unified (c :: s) = c :: unified s := by
  obtain ⟨hback, -⟩ := Bool.or_eq_false_iff.1 hc
  simp only [unified, List.map_cons, hback, Bool.false_eq_true, if_false]

/-- What is left of a text when each run of separators is made one: its first part, and each name
after it. -/
theorem collapseSeparators_eq (hend : ∀ c, s.getLast? = some c → (c == '\\' || c == '/') = false)
    (h : splitAt '/' (unified s) = first :: others) :
    collapseSeparators s = first ++ (others.filter (· ≠ [])).flatMap ('/' :: ·) := by
  induction s generalizing first others with
  | nil =>
    obtain ⟨rfl, rfl⟩ := List.cons.inj h
    rfl
  | cons c s ih =>
    obtain ⟨front, back, hs⟩ := exists_splitAt '/' (unified s)
    cases hc : (c == '\\' || c == '/') with
    | true =>
      rw [unified_cons_separator hc, splitAt_cons_self, hs] at h
      obtain ⟨rfl, rfl⟩ := List.cons.inj h
      cases s with
      | nil =>
        rw [hend c rfl] at hc
        cases hc
      | cons d rest =>
        have hrest := ih hend hs
        obtain ⟨front', back', hs'⟩ := exists_splitAt '/' (unified rest)
        cases hd : (d == '\\' || d == '/') with
        | true =>
          -- The part between the two separators is empty and makes no name.
          rw [unified_cons_separator hd, splitAt_cons_self] at hs
          obtain ⟨rfl, -⟩ := List.cons.inj hs
          simp only [collapseSeparators, hc, hd, Bool.and_self, if_true, hrest]
          rfl
        | false =>
          -- A name begins after the separator.
          obtain ⟨-, hslash⟩ := Bool.or_eq_false_iff.1 hd
          rw [unified_cons_other hd, splitAt_cons_of_ne (by simpa using hslash) hs'] at hs
          obtain ⟨rfl, -⟩ := List.cons.inj hs
          have hone : (if c == '\\' then '/' else c) = '/' := by
            rcases Bool.or_eq_true_iff.1 hc with hc | hc <;> simp [eq_of_beq hc]
          simp only [collapseSeparators, hd, Bool.and_false, Bool.false_eq_true,
            if_false, hone, hrest]
          rfl
    | false =>
      obtain ⟨hback, hslash⟩ := Bool.or_eq_false_iff.1 hc
      rw [unified_cons_other hc, splitAt_cons_of_ne (by simpa using hslash) hs] at h
      obtain ⟨rfl, rfl⟩ := List.cons.inj h
      cases s with
      | nil =>
        obtain ⟨rfl, rfl⟩ := List.cons.inj hs
        simp only [collapseSeparators, hback, Bool.false_eq_true, if_false]
        rfl
      | cons d rest =>
        simp only [collapseSeparators, hback, hslash, Bool.or_self, Bool.false_and,
          Bool.false_eq_true, if_false, ih hend hs]
        rfl

namespace IsDirect

/-- A direct filename has a name. -/
theorem names_ne_nil (h : IsDirect filename) : names filename ≠ [] := by
  have hne : filename.toList ≠ [] := by simpa using h.ne_empty
  obtain ⟨c, hc⟩ : ∃ c, filename.toList.getLast? = some c := ⟨_, List.getLast?_eq_some_getLast hne⟩
  -- The last character is no separator, so that it stands in a name.
  obtain ⟨hback, hslash⟩ := Bool.or_eq_false_iff.1 (h.ending c hc)
  have hmem : c ∈ unified filename.toList := by
    refine List.mem_map.2 ⟨c, List.mem_of_getLast? hc, ?_⟩
    rw [hback]
    rfl
  obtain ⟨part, hpart, hcpart⟩ := Text.exists_part_of_mem hmem (by simpa using hslash)
  have hname : part ∈ names filename :=
    List.mem_filter.2 ⟨hpart, decide_eq_true (List.ne_nil_of_mem hcpart)⟩
  exact List.ne_nil_of_mem hname

/-- The address of a file from the root of the site: its names, each after a separator. -/
theorem ofFile_eq (h : IsDirect filename) :
    ofFile filename = "/" ++ "/".intercalate ((names filename).map String.ofList) := by
  have hne : filename.toList ≠ [] := by simpa using h.ne_empty
  have hsplit : splitAt '/' (unified ('/' :: filename.toList)) = [] :: parts filename := by
    rw [unified_cons_separator rfl, splitAt_cons_self]
    rfl
  have hend : ∀ c, ('/' :: filename.toList).getLast? = some c →
      (c == '\\' || c == '/') = false := by
    rw [List.getLast?_cons_of_ne_nil hne]
    exact h.ending
  apply String.toList_inj.1
  rw [ofFile, String.toList_ofList, collapseSeparators_eq hend hsplit, List.nil_append,
    String.toList_append, String.toList_intercalate, List.map_map]
  exact (Text.cons_intercalate '/' h.names_ne_nil).symm.trans (by simp)

/-- The names of the path that a direct filename stands for are its own. -/
theorem namesOf_relativeName (h : IsDirect filename) :
    Path.namesOf (relativeName filename.toList) = (names filename).map String.ofList := by
  have hselves : (names filename).filter (· ≠ ['.']) = names filename :=
    List.filter_eq_self.2 fun part hpart =>
      decide_eq_true (h.down part (List.mem_filter.1 hpart).1).1
  have hnames : (splitAt '/' (relativeName filename.toList)).filter (· ≠ []) = names filename :=
    Text.filter_splitAt_dropWhile '/' (unified filename.toList)
  have hpart : ∀ part : List Char, (String.ofList part != "" && String.ofList part != ".") =
      (decide (part ≠ ['.']) && decide (part ≠ [])) := by
    intro part
    have hself : String.ofList part = "." ↔ part = ['.'] := String.ofList_inj
    rw [Bool.eq_iff_iff]
    simp [String.ofList_eq_empty_iff, hself, and_comm]
  rw [Path.namesOf, List.filter_map, ← hselves, ← hnames, List.filter_filter]
  exact congrArg (List.map String.ofList) (List.filter_congr fun part _ => hpart part)

/-- A direct filename does not start in a home directory. -/
theorem head?_relativeName (h : IsDirect filename) :
    (relativeName filename.toList).head? ≠ some '~' := by
  have hhead : (relativeName filename.toList).head? = (names filename).head?.bind List.head? :=
    Text.head?_dropWhile '/' (unified filename.toList)
  intro heq
  rw [hhead] at heq
  obtain ⟨name, hname, hmark⟩ := Option.bind_eq_some_iff.1 heq
  exact h.homeless name hname hmark

/-- The output file of a direct filename lies at its names below the output directory. -/
theorem output_eq (h : IsDirect filename) {directory : Path} (hdirectory : directory.IsNormal)
    (place : Place) :
    Output.path place directory filename =
      ⟨directory.root, directory.names ++ (names filename).map String.ofList⟩ := by
  have hup : ∀ n ∈ directory.names ++ (names filename).map String.ofList, n ≠ ".." := by
    intro n hn
    rcases List.mem_append.1 hn with hn | hn
    · exact (hdirectory.2 n hn).1
    · obtain ⟨part, hpart, rfl⟩ := List.mem_map.1 hn
      intro heq
      exact (h.down part (List.mem_filter.1 hpart).1).2 (String.ofList_inj.1 heq)
  have hbelow : Path.below directory ⟨.relative, (names filename).map String.ofList⟩ =
      ⟨directory.root, directory.names ++ (names filename).map String.ofList⟩ := rfl
  have hhome : Path.hasHome (Output.nameOf filename) = true :=
    Path.hasHome_of_head? (by rw [Output.nameOf, String.toList_ofList]; exact h.head?_relativeName)
  rw [Path.output_eq_below hdirectory hhome, Path.ofFilename_eq h.head?_relativeName,
    h.namesOf_relativeName, hbelow]
  simp only [Path.normalNames_eq_self hup]

end IsDirect

/-! ## Names with a hash -/

/-- A hash has no character that means something in a filename. -/
theorem of_mem_contentHash {text : String} {c : Char} (h : c ∈ (Style.contentHash text).toList) :
    c ≠ '/' ∧ c ≠ '\\' ∧ c ≠ '.' ∧ c ≠ '~' := by
  have hdigits : ∀ k < 16, Nat.digitChar k ≠ '/' ∧ Nat.digitChar k ≠ '\\' ∧ Nat.digitChar k ≠ '.' ∧
      Nat.digitChar k ≠ '~' := by decide
  obtain ⟨n, rfl⟩ := Style.exists_hexDigit_of_mem_contentHash h
  exact hdigits _ (Nat.mod_lt _ (by decide))

/-- A hash in place of its marks changes no separator of a filename. -/
theorem parts_outputName (filename text : String) : parts (Style.outputName filename text) =
    (parts filename).map (Text.replaceAll Style.hashMark (Style.contentHash text).toList) := by
  have hmark : ∀ c ∈ Style.hashMark, ∀ d, (if d == '\\' then '/' else d) = c ↔ d = c := by
    have hslash : '/' ∉ Style.hashMark := by decide
    have hback : '\\' ∉ Style.hashMark := by decide
    intro c hc d
    by_cases hd : d = '\\'
    · subst hd
      exact iff_of_false (fun heq : '/' = c => hslash (heq ▸ hc)) (fun heq => hback (heq ▸ hc))
    · simp [hd]
  have hslash : '/' ∉ (Style.contentHash text).toList := fun hmem => (of_mem_contentHash hmem).1 rfl
  have hback : '\\' ∉ (Style.contentHash text).toList :=
    fun hmem => (of_mem_contentHash hmem).2.1 rfl
  rw [parts, Style.outputName, String.toList_ofList]
  -- The digits of the hash do not matter any more, only that they hold no separator.
  generalize (Style.contentHash text).toList = hash at hslash hback
  have hhash : unified hash = hash := by
    refine (List.map_congr_left fun c hc => ?_).trans (List.map_id _)
    have hne : c ≠ '\\' := fun heq => hback (heq ▸ hc)
    simp [hne]
  have hunified : unified (Text.replaceAll Style.hashMark hash filename.toList) =
      Text.replaceAll Style.hashMark hash (unified filename.toList) := by
    refine (Text.map_replaceFrom hmark 0 filename.toList).trans ?_
    exact congrArg (fun new => Text.replaceAll Style.hashMark new (unified filename.toList)) hhash
  rw [hunified, parts]
  exact Text.splitAt_replaceAll (by decide) (by decide) hslash _

/-- A hash in place of its marks changes no name of a filename into an empty one. -/
theorem names_outputName (filename text : String) : names (Style.outputName filename text) =
    (names filename).map (Text.replaceAll Style.hashMark (Style.contentHash text).toList) := by
  rw [names, parts_outputName, List.filter_map, names]
  congr 1
  refine List.filter_congr fun part _ => ?_
  simp [Text.replaceAll_eq_nil_iff (Style.contentHash_ne_nil text)]

/-- A direct filename stays direct when a hash takes the place of its marks. -/
theorem IsDirect.outputName (h : IsDirect filename) (text : String) :
    IsDirect (Style.outputName filename text) := by
  have hnew := Style.contentHash_ne_nil text
  have hne : filename.toList ≠ [] := by simpa using h.ne_empty
  refine ⟨?_, ?_, ?_, ?_⟩
  · rw [Style.outputName, ne_eq, String.ofList_eq_empty_iff, Text.replaceAll_eq_nil_iff hnew]
    exact hne
  · intro part hpart
    rw [parts_outputName] at hpart
    obtain ⟨old, hold, rfl⟩ := List.mem_map.1 hpart
    rcases Text.replaceAll_eq_or_isInfix Style.hashMark
      (Style.contentHash text).toList old with hsame | hholds
    · rw [hsame]
      exact h.down old hold
    · -- A part that holds the hash does not consist of points.
      obtain ⟨c, hc⟩ := List.exists_mem_of_ne_nil _ hnew
      have hpoint := (of_mem_contentHash hc).2.2.1
      have hmem := hholds.subset hc
      constructor <;> intro heq <;> rw [heq] at hmem <;> simp [hpoint] at hmem
  · intro name hname
    rw [names_outputName, List.head?_map] at hname
    obtain ⟨old, hold, rfl⟩ := Option.map_eq_some_iff.1 hname
    -- The name begins as it did, or with a digit of the hash.
    rcases Text.head?_replaceAll hnew Style.hashMark old with hhead | hhead
    · rw [hhead]
      exact h.homeless old hold
    · rw [hhead]
      exact fun heq => (of_mem_contentHash (List.mem_of_head? heq)).2.2.2 rfl
  · intro c hc
    rw [Style.outputName, String.toList_ofList] at hc
    rcases Text.getLast?_replaceFrom hnew hc with hlast | hmem
    · exact h.ending c hlast
    · obtain ⟨hslash, hback, -⟩ := of_mem_contentHash hmem
      simp [hslash, hback]

/-- A stylesheet with a direct filename is written under a direct one. -/
theorem IsDirect.writtenName {style : Stylesheet} (h : IsDirect style.filename) (text : String) :
    IsDirect (Style.writtenName style text) := by
  unfold Style.writtenName
  split
  · exact h.outputName text
  · exact h

end Address

namespace Path

variable {place : Place}

/-- A path from a directory that it lies in, or that it is. -/
def relativeTo? (p directory : Path) : Option Path :=
  if p.root = directory.root ∧ directory.names <+: p.names then
    some ⟨.relative, p.names.drop directory.names.length⟩
  else none

/-- What lies below a directory is relative to it by its names there. -/
@[simp] theorem relativeTo?_below (directory : Path) (names : List String) :
    relativeTo? ⟨directory.root, directory.names ++ names⟩ directory = some ⟨.relative, names⟩ := by
  simp [relativeTo?]

/-- A path that a text names from the root is normal once it is made absolute, wherever that is
done. -/
theorem isNormal_absolute_of_isAbsolute {s : String} (h : (ofString s).isAbsolute = true) :
    (absolute place s none).IsNormal := by
  have hhead : s.toList.head? ≠ some '~' := by
    intro hhead
    obtain ⟨rest, hrest⟩ : ∃ rest, s.toList = '~' :: rest := by
      cases hs : s.toList with
      | nil => simp [hs] at hhead
      | cons c rest => exact ⟨rest, by rw [hs] at hhead; rw [Option.some.inj hhead]⟩
    simp [ofString, isAbsolute, hrest, rootOf] at h
  have hbelow : ∀ cwd, below cwd (ofString s) = ofString s := fun _ => if_pos h
  -- The working directory plays no part.
  have hroot : absolute place s none =
      absolute ⟨⟨.absolute, []⟩, place.home, place.room⟩ s none := by
    unfold absolute
    simp only [expandHome_eq_self hhead, hbelow]
  rw [hroot]
  exact isNormal_absolute ⟨by simp, by simp⟩ s (by simp)

end Path

/-! ## Links -/

/-- Whatever the store is, a file that was written is the output file of its name. -/
theorem Output.eq_path_of_write {σ : Type} {store : FileStore σ} {directory output : Path}
    {filename text : String} {s s' : Session σ}
    (h : (write store directory filename text).perform s = (.ok output, s')) :
    output = path s.place directory filename := by
  rw [Action.perform_apply, write] at h
  obtain ⟨p, s₀, hlocate, h⟩ := bind_apply_eq_ok.1 h
  rw [Action.observe_apply] at hlocate
  rw [path_of_locate (Prod.mk.inj hlocate).1]
  obtain ⟨_, s₁, -, h⟩ := bind_apply_eq_ok.1 h
  obtain ⟨_, s₂, -, h⟩ := bind_apply_eq_ok.1 h
  rw [bind_apply_ok (Action.say_apply _ _ _ s₂)] at h
  obtain ⟨hanswer, -⟩ := Prod.mk.inj h
  exact (Except.ok.inj hanswer).symm

namespace Style

variable {σ : Type} {c : Collaborators σ} {directory : Path} {optimized : Bool}

/-- A stylesheet without a mark is given no name. -/
theorem lastName_of_plain {style : Stylesheet} (hplain : isHashed style.filename = false)
    (l : List (Bundling σ)) :
    lastName (·.given? c optimized) style l = none := by
  have hnone : ∀ t ∈ l, (if t.style = style then t.given? c optimized else none) = none := by
    intro t _
    split
    · rename_i heq
      unfold Bundling.given?
      rw [heq, hplain]
      split <;> rfl
    · rfl
  rw [lastName, List.filterMap_eq_nil_iff.2 hnone]
  rfl

/-- A stylesheet is linked under the name that its last bundling wrote it under, if that
succeeded. -/
theorem linkName_of_written (hparts : c.IsFiling) {before after : List (Bundling σ)}
    {t : Bundling σ} {s : Session σ} (h : Bundlings c directory optimized (before ++ t :: after) s)
    (hafter : ∀ u ∈ after, u.style ≠ t.style) {w : Written} {s' : Session σ}
    (hw : (bundle c directory optimized t.style).perform t.before = (.ok w, s')) :
    s.names.linkName t.style = w.filename := by
  obtain ⟨text, hready, hname, -⟩ := exists_ready_of_bundle hparts hw
  rw [Action.perform_apply] at hready
  rw [OutputNames.linkName, h.lookup_names hparts, hname, writtenName]
  cases hhashed : isHashed t.style.filename with
  | false =>
    rw [lastName_of_plain hhashed]
    rfl
  | true =>
    have hlater : after.filterMap
        (fun u => if u.style = t.style then u.given? c optimized else none) = [] :=
      List.filterMap_eq_nil_iff.2 fun u hu => if_neg (hafter u hu)
    have hgiven : t.given? c optimized = _ := given?_of_ready_eq_ok hready
    rw [lastName, List.filterMap_append, List.filterMap_cons, if_pos rfl, hlater, hgiven, hhashed,
      writtenName, hhashed]
    simp

end Style

namespace Address

variable {σ : Type} {c : Collaborators σ}

/-- The address of a file from the root of the site is the path of its output file from the output
directory, after a separator. -/
theorem IsDirect.ofFile_eq_relativeTo {filename : String} (h : IsDirect filename) {directory : Path}
    (hdirectory : directory.IsNormal) (place : Place) :
    ∃ q, (Output.path place directory filename).relativeTo? directory = some q ∧
      ofFile filename = "/" ++ q.toString := by
  refine ⟨⟨.relative, (names filename).map String.ofList⟩, ?_, ?_⟩
  · rw [h.output_eq hdirectory, Path.relativeTo?_below]
  · obtain ⟨name, rest, hnames⟩ := List.exists_cons_of_ne_nil h.names_ne_nil
    rw [h.ofFile_eq, hnames]
    rfl

/-- Links point at the files that are written. Below an output directory that is given from the
root, the address of a filename that leads straight down is the path from the output directory to
its output file, whatever separators it has; and a stylesheet with such a filename is linked at the
path of the file that its last bundling wrote, with a hash in its name or without. -/
theorem links_name_outputs (hparts : c.IsFiling) {output : String}
    (habsolute : (Path.ofString output).isAbsolute = true) (place : Place) (optimized : Bool) :
    let directory := Path.absolute place output none
    (∀ (place : Place) (filename : String), IsDirect filename →
      ∃ q, (Output.path place directory filename).relativeTo? directory = some q ∧
        ofFile filename = "/" ++ q.toString) ∧
    (∀ (before after : List (Style.Bundling σ)) (t : Style.Bundling σ) (s s' : Session σ)
      (w : Style.Written), Style.Bundlings c directory optimized (before ++ t :: after) s →
        (∀ u ∈ after, u.style ≠ t.style) →
      (Style.bundle c directory optimized t.style).perform t.before = (.ok w, s') →
        IsDirect t.style.filename →
      ∃ q, w.output.relativeTo? directory = some q ∧
        Markup.linkTag (s.names.linkName t.style) =
          "<link rel=\"stylesheet\" href=\"" ++ ("/" ++ q.toString) ++ "\">") := by
  intro directory
  -- All that is used of the output directory is that it is normal.
  have hnormal : directory.IsNormal := Path.isNormal_absolute_of_isAbsolute habsolute
  clear_value directory
  refine ⟨fun place filename h => h.ofFile_eq_relativeTo hnormal place, ?_⟩
  intro before after t s s' w hbundlings hafter hw hdirect
  obtain ⟨text, -, hname, s₁, s₂, hwrite⟩ := Style.exists_ready_of_bundle hparts hw
  have houtput : w.output = Output.path s₁.place directory w.filename :=
    Output.eq_path_of_write hwrite
  have hwritten : IsDirect w.filename := by
    rw [hname]
    exact hdirect.writtenName text
  obtain ⟨q, hq, haddress⟩ := hwritten.ofFile_eq_relativeTo hnormal s₁.place
  rw [houtput]
  refine ⟨q, hq, ?_⟩
  unfold Markup.linkTag
  rw [Style.linkName_of_written hparts hbundlings hafter hw, haddress]

/-! ### A sample -/

namespace Sample

open Style.Sample Builder.Sample

/-- A stylesheet whose filename mixes separators and holds a mark for a hash. -/
def mixed : Stylesheet := ⟨path "m.css", "\\\\css//a\\m.[contenthash].css"⟩

/-- A session with its source. -/
def fresh : Session Unit := session [("m.css", "a")]

/-- The session after it was bundled. -/
def bundled : Session Unit := ((Style.bundle Style.Sample.parts output false mixed).perform fresh).2

/-- What its bundling tells. -/
def written : Style.Written :=
  ⟨path "m.css", "\\\\css//a\\m.0cc175b9c0f1b6a831c399e2.css",
    ⟨.absolute, ["site", "dist", "css", "a", "m.0cc175b9c0f1b6a831c399e2.css"]⟩, [path "m.css"]⟩

end Sample

open Style.Sample Sample in
/-- In the sample the stylesheet is linked at the place of its file. -/
theorem links_name_outputs_sample :
    (Path.ofString "/site/./dist").isAbsolute = true ∧
      Path.absolute fresh.place "/site/./dist" none = output ∧
      IsDirect mixed.filename ∧ ofFile mixed.filename = "/css/a/m.[contenthash].css" ∧
      (Style.bundle Style.Sample.parts output false mixed).perform fresh = (.ok written, bundled) ∧
      ∃ q, written.output.relativeTo? output = some q ∧
        q.toString = "css/a/m.0cc175b9c0f1b6a831c399e2.css" ∧
        Markup.linkTag (bundled.names.linkName mixed) = "<link rel=\"stylesheet\" href=\"" ++
          ("/" ++ q.toString) ++ "\">" := by
  have hdirect : IsDirect mixed.filename := by decide +kernel
  have hdirectory : Path.absolute fresh.place "/site/./dist" none = output := by decide +kernel
  have habsolute : (Path.ofString "/site/./dist").isAbsolute = true := by decide +kernel
  have hanswer : ((Style.bundle Style.Sample.parts output false mixed).perform fresh).1 =
      .ok written := by
    have hsome : ((Style.bundle Style.Sample.parts output false mixed).perform fresh).1.toOption =
        some written := by
      decide +kernel
    exact toOption_eq_some_iff.1 hsome
  have hwritten : (Style.bundle Style.Sample.parts output false mixed).perform fresh =
      (.ok written, bundled) :=
    Prod.ext hanswer rfl
  have hrelative : written.output.relativeTo? output =
      some ⟨.relative, ["css", "a", "m.0cc175b9c0f1b6a831c399e2.css"]⟩ := by decide +kernel
  obtain ⟨-, hlinks⟩ :=
    links_name_outputs (Collaborators.isFiling_standard (Builder.Sample.site []).settings) habsolute
      fresh.place false
  rw [hdirectory] at hlinks
  obtain ⟨q, hq, hlink⟩ :=
    hlinks [] [] ⟨mixed, fresh⟩ bundled bundled written (.bundle (.start fresh rfl) mixed)
      (fun u hu => absurd hu List.not_mem_nil) hwritten hdirect
  refine ⟨habsolute, hdirectory, hdirect, by decide +kernel, hwritten, q, hq, ?_, hlink⟩
  rw [Option.some.inj (hq.symm.trans hrelative)]
  decide +kernel

end Address

end StaticSite
