import Mathlib.Data.List.Basic
import StaticSite.Proofs.Output

/-!
# The texts of normal paths

A normal path is read back from its text (`ofString_toString`), so that making its text absolute
gives the path again, wherever that is done (`absolute_toString`). Every path that is made absolute
is normal, as long as the directories that it is put below are (`isNormal_absolute`). An output file
with a plain filename lies in the output directory itself (`IsPlain.names_output`).
-/

namespace StaticSite

open Text (splitAt)

/-- Splitting a text at a separator is splitting the list of its characters. -/
theorem Text.splitAt_eq_splitOn (sep : Char) (s : List Char) : splitAt sep s = s.splitOn sep := by
  induction s with
  | nil => rfl
  | cons c rest ih =>
    unfold splitAt
    rw [ih, List.splitOn_cons_eq_if_modifyHead]
    by_cases hc : (c == sep) = true
    · simp only [hc, if_true]
    · simp only [hc]
      cases h : List.splitOn sep rest with
      | nil => exact absurd h (List.splitOn_ne_nil sep rest)
      | cons part parts => rfl

/-- No part holds the separator. -/
theorem Text.notMem_of_mem_splitAt {sep : Char} {s part : List Char} (h : part ∈ splitAt sep s) :
    sep ∉ part := by
  induction s generalizing part with
  | nil =>
    rw [List.mem_singleton.1 h]
    exact List.not_mem_nil
  | cons c rest ih =>
    unfold splitAt at h
    split at h
    · rcases List.mem_cons.1 h with rfl | h
      · exact List.not_mem_nil
      · exact ih h
    · rename_i hc
      have hne : sep ≠ c := fun heq => hc (by simp [heq])
      split at h
      · rw [List.mem_singleton.1 h]
        simpa using hne
      · rename_i first parts hsplit
        rw [hsplit] at ih
        rcases List.mem_cons.1 h with rfl | h
        · exact fun hmem => (List.mem_cons.1 hmem).elim hne (ih List.mem_cons_self)
        · exact ih (List.mem_cons_of_mem _ h)

namespace Path

variable {p : Path} {place : Place}

/-- A normal path is grounded. -/
theorem IsNormal.isGrounded (h : p.IsNormal) : p.IsGrounded where
  absolute := by simpa [isAbsolute] using h.1
  descends hmem := (h.2 ".." hmem).1 rfl

/-- The parent of a normal path is normal. -/
theorem IsNormal.parent (h : p.IsNormal) : p.parent.IsNormal :=
  ⟨h.1, fun n hn => h.2 n (List.dropLast_subset p.names hn)⟩

/-- A name of a text is neither empty nor the directory itself, and holds no separator. -/
theorem of_mem_namesOf {s : List Char} {n : String} (h : n ∈ namesOf s) :
    n ≠ "." ∧ n ≠ "" ∧ '/' ∉ n.toList := by
  obtain ⟨hmem, hn⟩ := List.mem_filter.1 h
  obtain ⟨part, hpart, rfl⟩ := List.mem_map.1 hmem
  rw [Bool.and_eq_true, bne_iff_ne, bne_iff_ne] at hn
  exact ⟨hn.2, hn.1, by rw [String.toList_ofList]; exact Text.notMem_of_mem_splitAt hpart⟩

/-- The names of a text in which they stand with separators between them. -/
theorem namesOf_joined {names : List String} (h : ∀ n ∈ names, n ≠ "." ∧ n ≠ "" ∧ '/' ∉ n.toList) :
    namesOf ("/".intercalate names).toList = names := by
  unfold namesOf
  rw [String.toList_intercalate, Text.splitAt_eq_splitOn]
  rcases List.eq_nil_or_concat names with rfl | hne
  · rfl
  · have hnames : names ≠ [] := by
      obtain ⟨above, name, rfl⟩ := hne
      simp
    -- The parts are the names themselves, and none of them is left out.
    have hparts : ∀ part ∈ names.map String.toList, '/' ∉ part := by
      intro part hpart
      obtain ⟨n, hn, rfl⟩ := List.mem_map.1 hpart
      exact (h n hn).2.2
    rw [show "/".toList = ['/'] from rfl,
      List.splitOn_intercalate '/' hparts (by simpa using hnames)]
    rw [List.map_map]
    have hofList : names.map (String.ofList ∘ String.toList) = names := by
      simp
    rw [hofList, List.filter_eq_self]
    intro n hn
    simp [h n hn]

/-- A separator at the start of a text gives it no name. -/
theorem namesOf_cons (s : List Char) : namesOf ('/' :: s) = namesOf s := by
  simp [namesOf, splitAt]

/-- What comes after the separators of a root does not begin with one. -/
theorem rootOf_text {root : Root} (hroot : root ≠ .relative) {s : List Char}
    (h : s.head? ≠ some '/') :
    rootOf (root.text.toList ++ s) = root := by
  cases root with
  | relative => exact absurd rfl hroot
  | absolute | doubled =>
    rcases s with _ | ⟨c, s⟩
    · rfl
    · have hc : c ≠ '/' := fun heq => h (by rw [heq]; rfl)
      simp [Root.text, rootOf, hc]

/-- A normal path is read back from its text. -/
theorem ofString_toString (h : p.IsNormal) : ofString p.toString = p := by
  have hnames : ∀ n ∈ p.names, n ≠ "." ∧ n ≠ "" ∧ '/' ∉ n.toList := fun n hn => (h.2 n hn).2
  -- The text of the names begins with that of the first, which is not empty and holds no separator.
  have hhead : ("/".intercalate p.names).toList.head? ≠ some '/' := by
    rcases hlist : p.names with _ | ⟨n, rest⟩
    · simp
    · have hn := hnames n (by rw [hlist]; exact List.mem_cons_self)
      have hne : n.toList ≠ [] := by simpa using hn.2.1
      obtain ⟨c, cs, hcs⟩ := List.exists_cons_of_ne_nil hne
      have hc : c ≠ '/' := by
        rintro rfl
        exact hn.2.2 (by rw [hcs]; exact List.mem_cons_self)
      rw [String.toList_intercalate, List.map_cons]
      cases rest with
      | nil => simpa [hcs] using hc
      | cons m rest => simpa [hcs, List.intercalate_cons_cons] using hc
  unfold ofString
  rw [h.isGrounded.toString_eq, String.toList_append, rootOf_text h.1 hhead]
  have hjoined := namesOf_joined hnames
  have hall : namesOf (p.root.text.toList ++ ("/".intercalate p.names).toList) = p.names := by
    -- Each separator of the root makes an empty part, which is no name.
    cases hroot : p.root with
    | relative => exact hjoined
    | absolute => exact (namesOf_cons _).trans hjoined
    | doubled => exact (namesOf_cons _).trans ((namesOf_cons _).trans hjoined)
  rw [hall]

/-- Making the text of a normal path absolute gives the path. -/
theorem absolute_toString (h : p.IsNormal) : absolute place p.toString none = p := by
  -- A text that begins with a separator has no home mark, and is put below nothing.
  have hhome : expandHome place.home p.toString = p.toString := by
    have htext := h.isGrounded.toString_eq
    unfold expandHome
    cases hroot : p.root with
    | relative => exact absurd hroot h.1
    | absolute | doubled =>
      rw [hroot] at htext
      rw [htext, String.toList_append]
      rfl
  have hbelow : below place.cwd p = p := if_pos h.isGrounded.absolute
  unfold absolute
  rw [hhome, ofString_toString h]
  simp only [hbelow, normalNames_eq_self fun n hn => (h.2 n hn).1]

/-- The names of a path put below another are names of either. -/
theorem mem_names_below {base q : Path} {n : String} (h : n ∈ (below base q).names) :
    n ∈ base.names ∨ n ∈ q.names := by
  unfold below at h
  split at h
  · exact .inr h
  · exact List.mem_append.1 h

/-- A path that is made absolute is normal if the directories it is put below are. -/
theorem isNormal_absolute (hcwd : place.cwd.IsNormal) (s : String) {base : Option Path}
    (hbase : ∀ d, base = some d → d.IsNormal) : (absolute place s base).IsNormal := by
  refine ⟨(isGrounded_absolute hcwd.isGrounded.absolute s base).root_ne, fun n hn => ?_⟩
  obtain ⟨hmem, hup⟩ := mem_normalNames hn
  refine ⟨hup, ?_⟩
  -- The name is one of the working directory, of the base or of the text.
  rcases mem_names_below hmem with hmem | hmem
  · exact (hcwd.2 n hmem).2
  · cases base with
    | none => exact of_mem_namesOf hmem
    | some d =>
      rcases mem_names_below hmem with hmem | hmem
      · exact ((hbase d rfl).2 n hmem).2
      · exact of_mem_namesOf hmem

/-- A name of a file that stands for itself: it is neither empty nor a directory's name for itself
or its parent, does not begin with the home mark and holds no separator. -/
structure IsPlain (filename : String) : Prop where
  /-- It is not empty. -/
  ne_empty : filename ≠ ""
  /-- It is not the directory itself. -/
  ne_self : filename ≠ "."
  /-- It is not the parent directory. -/
  ne_parent : filename ≠ ".."
  /-- It does not begin with the home mark. -/
  homeless : filename.toList.head? ≠ some '~'
  /-- It holds no separator of either kind. -/
  flat : ∀ c ∈ filename.toList, c ≠ '/' ∧ c ≠ '\\'

/-- A plain filename has one name, its own. -/
theorem IsPlain.ofString_eq {filename : String} (h : IsPlain filename) :
    ofString filename = ⟨.relative, [filename]⟩ := by
  obtain ⟨c, cs, hchars⟩ :=
    List.exists_cons_of_ne_nil (show filename.toList ≠ [] by simpa using h.ne_empty)
  have hroot : rootOf filename.toList = .relative := by
    have hc := (h.flat c (by rw [hchars]; exact List.mem_cons_self)).1
    rw [hchars]
    unfold rootOf
    split <;> simp_all
  have hsplit : splitAt '/' filename.toList = [filename.toList] := by
    rw [Text.splitAt_eq_splitOn]
    exact List.splitOn_eq_singleton fun hmem => (h.flat '/' hmem).1 rfl
  unfold ofString namesOf
  rw [hroot, hsplit]
  simp [h.ne_empty, h.ne_self]

/-- An output file with a plain name lies in the output directory itself. -/
theorem IsPlain.names_output {directory : Path} (hdirectory : directory.IsNormal)
    {filename : String} (h : IsPlain filename) :
    (Output.path place directory filename).names = directory.names ++ [filename] := by
  obtain ⟨c, cs, hchars⟩ :=
    List.exists_cons_of_ne_nil (show filename.toList ≠ [] by simpa using h.ne_empty)
  -- No step on the way to the file changes anything of a plain name.
  have hrelative : Address.relativeName filename.toList = filename.toList := by
    have hmap : filename.toList.map (fun c => if c == '\\' then '/' else c) = filename.toList := by
      refine (List.map_congr_left fun c hc => ?_).trans (List.map_id _)
      simp [(h.flat c hc).2]
    have hc := (h.flat c (by rw [hchars]; exact List.mem_cons_self)).1
    unfold Address.relativeName
    rw [hmap, hchars]
    simp [hc]
  have hnames : ∀ n ∈ directory.names ++ [filename], n ≠ ".." := by
    intro n hn
    rcases List.mem_append.1 hn with hn | hn
    · exact (hdirectory.2 n hn).1
    · rw [List.mem_singleton.1 hn]
      exact h.ne_parent
  have hbelow : below place.cwd (below directory ⟨.relative, [filename]⟩) =
      ⟨directory.root, directory.names ++ [filename]⟩ := by
    simp [below, isAbsolute, hdirectory.1]
  unfold Output.path Output.nameOf absolute
  rw [hrelative, String.ofList_toList, if_pos (hasHome_of_head? h.homeless),
    expandHome_eq_self h.homeless, h.ofString_eq]
  simp only [hbelow, normalNames_eq_self hnames]

end Path

end StaticSite
