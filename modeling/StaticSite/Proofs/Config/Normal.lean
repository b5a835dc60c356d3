import StaticSite.Proofs.Config.Field
import StaticSite.Proofs.Path.Text

/-!
# The paths of settings

Every path in settings is normal (`isNormal_of_mem_paths`): each comes from `pathOf`, which puts a
text below the directory that relative paths start from, and that directory is made absolute itself.
-/

namespace StaticSite

/-- The paths of an entry. -/
def SiteEntry.paths : SiteEntry → List Path
  | .page p => p.source.toList ++ p.styles.map (·.source)
  | .assets a => [a.source]

/-- The paths in settings. -/
def Settings.paths (s : Settings) : List Path :=
  s.root :: s.output :: s.manifest.toList ++ s.entries.flatMap SiteEntry.paths

namespace Config

variable {α β : Type} {place : Place} {root p : Path} {v : Value}

/-- What is made of a list is made of its members. -/
theorem exists_of_mem_mapM {f : α → Except Fault β} {l : List α} {l' : List β}
    (h : l.mapM f = .ok l') {b : β} (hb : b ∈ l') : ∃ a ∈ l, f a = .ok b := by
  have hmade := mapM_eq_ok.1 h
  clear h
  induction hmade with
  | nil => cases hb
  | cons hfirst _ ih =>
    rcases List.mem_cons.1 hb with rfl | hb
    · exact ⟨_, List.mem_cons_self, hfirst⟩
    · obtain ⟨a, ha, hmade⟩ := ih hb
      exact ⟨a, List.mem_cons_of_mem _ ha, hmade⟩

/-- A path of the configuration is normal. -/
theorem isNormal_of_pathOf (hcwd : place.cwd.IsNormal) (hroot : root.IsNormal)
    (h : pathOf place root v = .ok p) :
    p.IsNormal := by
  obtain ⟨s, -, h⟩ := bind_eq_ok.1 h
  split at h
  · rw [← Except.ok.inj h]
    exact Path.isNormal_absolute hcwd s fun d hd => Option.some.inj hd ▸ hroot
  · cases h

/-- What is made of a value that counts as true is made of that value. -/
theorem exists_of_ifTruthy {f : Value → Except Fault α} {v : Option Value} {a : α}
    (h : ifTruthy v f = .ok (some a)) :
    ∃ m, f m = .ok a := by
  unfold ifTruthy at h
  cases v with
  | none => cases h
  | some m =>
    simp only at h
    split at h
    · rw [map_eq_pure_bind] at h
      obtain ⟨b, hb, h⟩ := bind_eq_ok.1 h
      obtain rfl := Option.some.inj (Except.ok.inj h)
      exact ⟨m, hb⟩
    · cases h

/-- The source of a configured stylesheet is normal. -/
theorem isNormal_of_stylesheetOf (hcwd : place.cwd.IsNormal) (hroot : root.IsNormal)
    {sheet : Stylesheet} (h : stylesheetOf place root v = .ok sheet) : sheet.source.IsNormal := by
  simp only [stylesheetOf, bind_eq_ok] at h
  obtain ⟨_, -, source, hsource, _, -, _, -, h⟩ := h
  rw [← Except.ok.inj h]
  exact isNormal_of_pathOf hcwd hroot hsource

/-- The paths of a configured entry are normal. -/
theorem isNormal_of_entryOf (hcwd : place.cwd.IsNormal) (hroot : root.IsNormal) {key : Value}
    {entry : SiteEntry} (h : entryOf place root key v = .ok entry) :
    ∀ p ∈ entry.paths, p.IsNormal := by
  obtain ⟨isDirectory, -, h⟩ := bind_eq_ok.1 h
  cases isDirectory with
  | true =>
    simp only [if_true, bind_eq_ok] at h
    obtain ⟨_, -, source, hsource, _, -, _, -, h⟩ := h
    rw [← Except.ok.inj h]
    intro p hp
    rw [List.mem_singleton.1 hp]
    exact isNormal_of_pathOf hcwd hroot hsource
  | false =>
    simp only [Bool.false_eq_true, if_false, bind_eq_ok] at h
    obtain ⟨_, -, _, -, styles, hstyles, _, -, _, -, _, -, _, -, _, -, _, -, source, hsource, _, -,
      _, -, h⟩ := h
    rw [← Except.ok.inj h]
    intro p hp
    rcases List.mem_append.1 hp with hp | hp
    · obtain rfl : source = some p := Option.mem_toList.1 hp
      obtain ⟨m, hm⟩ := exists_of_ifTruthy hsource
      exact isNormal_of_pathOf hcwd hroot hm
    · obtain ⟨sheet, hsheet, rfl⟩ := List.mem_map.1 hp
      obtain ⟨m, -, hm⟩ := exists_of_mem_mapM hstyles hsheet
      exact isNormal_of_stylesheetOf hcwd hroot hm

/-- Every path in the settings of a configuration is normal. -/
theorem isNormal_of_mem_paths (hcwd : place.cwd.IsNormal) (hroot : root.IsNormal)
    {settings : Settings} (h : settingsOf place root v = .ok settings) :
    ∀ p ∈ settings.paths, p.IsNormal := by
  simp only [settingsOf, bind_eq_ok] at h
  obtain ⟨_, -, _, -, _, -, _, -, output, houtput, _, -, _, -, _, -, _, -, _, -, manifest,
    hmanifest, _, -, _, -, items, hitems, _, -, _, -, h⟩ := h
  rw [← Except.ok.inj h]
  intro p hp
  simp only [Settings.paths, List.mem_append, List.mem_cons, Option.mem_toList,
    List.mem_flatMap] at hp
  rcases hp with (rfl | rfl | hp) | ⟨entry, hentry, hp⟩
  · exact hroot
  · exact isNormal_of_pathOf hcwd hroot houtput
  · obtain rfl : manifest = some p := hp
    obtain ⟨m, hm⟩ := exists_of_ifTruthy hmanifest
    exact isNormal_of_pathOf hcwd hroot hm
  · obtain ⟨e, -, he⟩ := exists_of_mem_mapM hitems hentry
    exact isNormal_of_entryOf hcwd hroot he p hp

end Config

end StaticSite
