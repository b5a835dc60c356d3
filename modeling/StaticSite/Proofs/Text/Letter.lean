import StaticSite.Text.Blank
import StaticSite.Text.Letter
import StaticSite.Text.Word

/-!
# Characters that are the same letter

Which characters are the same letter as another is seen from the codes of the lower-case forms
(`sameLetter_iff`), and the runs of capitals tell which characters have a form (`toNat_of_lower`).
From this it follows that the full stop is no letter, in either place, and what the first letter of
`include` may be written as.
-/

namespace StaticSite.Text

/-- The codes of the lower-case forms of the characters that are the same letter as another one. -/
def forms (p : Char) : List Nat :=
  (lower p).toNat :: (letterVariants.lookup (lower p).toNat).getD []

/-- A character matches a letter if it is one of its forms in lower case. -/
theorem sameLetter_iff {p c : Char} : sameLetter p c = true ↔ (lower c).toNat ∈ forms p := by
  unfold sameLetter forms
  rw [Bool.or_eq_true, beq_iff_eq, List.contains_iff_mem, List.mem_cons, Char.toNat_inj]

/-- A character matches itself. -/
@[simp] theorem sameLetter_self (c : Char) : sameLetter c c = true :=
  sameLetter_iff.2 List.mem_cons_self

/-- What holds of the first characters by their codes holds of each of them. -/
theorem of_toNat_lt {P : Char → Prop} (h : ∀ n < 128, P (Char.ofNat n)) {c : Char}
    (hc : c.toNat < 128) : P c := by
  have := h c.toNat hc
  rwa [Char.ofNat_toNat] at this

/-- A code that a character has is its code. -/
theorem toNat_ofNat {n : Nat} (h : (Char.ofNat n).toNat ≠ 0) : (Char.ofNat n).toNat = n := by
  by_cases hn : n.isValidChar
  · have hchar : Char.ofNat n = Char.ofNatAux n hn := dif_pos hn
    rw [hchar]
    rfl
  · have hchar : Char.ofNat n = '\x00' := dif_neg hn
    rw [hchar] at h
    exact absurd rfl h

/-- A character past the first ones is its own lower-case form, or is in a run of capitals. -/
theorem toNat_of_lower {c : Char} (hc : 128 ≤ c.toNat) (hne : (lower c).toNat ≠ 0) :
    c.toNat = (lower c).toNat ∨ ∃ r ∈ capitalRuns, r.2.2.2 ≤ (lower c).toNat ∧
      (lower c).toNat ≤ r.2.2.2 + (r.2.1 - r.1) ∧ c.toNat = r.1 + ((lower c).toNat - r.2.2.2) := by
  revert hne
  unfold lower
  rw [if_neg (by omega)]
  cases hfind : capitalRuns.find? fun r =>
    r.1 ≤ c.toNat && c.toNat ≤ r.2.1 && (c.toNat - r.1) % r.2.2.1 == 0 with
  | none => exact fun _ => .inl rfl
  | some r =>
    obtain ⟨first, last, step, image⟩ := r
    intro hne
    have hin := List.find?_some hfind
    simp only [Bool.and_eq_true, decide_eq_true_eq] at hin hne ⊢
    obtain ⟨⟨hfirst, hlast⟩, -⟩ := hin
    rw [toNat_ofNat hne]
    exact .inr ⟨_, List.mem_of_find?_eq_some hfind, by simp only; omega, by simp only; omega,
      by simp only; omega⟩

/-- Nothing but the full stop has it for a lower-case form. -/
theorem eq_dot_of_lower {c : Char} (h : (lower c).toNat = 46) : c = '.' := by
  by_cases hc : c.toNat < 128
  · exact of_toNat_lt (P := fun c => (lower c).toNat = 46 → c = '.') (by decide +kernel) hc h
  · have hruns : ∀ r ∈ capitalRuns, 46 < r.2.2.2 := by decide +kernel
    rcases toNat_of_lower (by omega : 128 ≤ c.toNat) (by omega) with heq | ⟨r, hr, hle, -, -⟩
    · omega
    · have := hruns r hr
      omega

/-- No other character matches a dot. -/
theorem eq_dot_of_sameLetter {c : Char} (h : sameLetter '.' c = true) : c = '.' := by
  have hforms : forms '.' = [46] := by decide
  rw [sameLetter_iff, hforms, List.mem_singleton] at h
  exact eq_dot_of_lower h

/-- A word character is never the full stop. -/
theorem not_sameLetter_dot {p : Char} (hp : isWord p = true) : ¬sameLetter p '.' = true := by
  have hlower : (lower '.').toNat = 46 := by decide
  have hvariants : ∀ e ∈ letterVariants, 46 ∉ e.2 := by decide
  rw [sameLetter_iff, hlower]
  intro h
  rcases List.mem_cons.1 h with h | h
  · rw [eq_dot_of_lower h.symm] at hp
    cases hp
  · cases hlookup : letterVariants.lookup (lower p).toNat with
    | none => simp [hlookup] at h
    | some others =>
      rw [hlookup] at h
      obtain ⟨before, after, hmem, -⟩ := List.lookup_eq_some_iff.1 hlookup
      exact hvariants _ (hmem ▸ List.mem_append_right before List.mem_cons_self) h

/-- Whatever is the letter that `include` begins with is a word character. -/
theorem isWord_of_sameLetter {c : Char} (h : sameLetter 'i' c = true) : isWord c = true := by
  have hforms : forms 'i' = [0x69, 0x131] := by decide
  rw [sameLetter_iff, hforms] at h
  by_cases hc : c.toNat < 128
  · exact of_toNat_lt (P := fun c => (lower c).toNat ∈ [0x69, 0x131] → isWord c = true)
      (by decide +kernel) hc h
  · have hruns : ∀ r ∈ capitalRuns, ∀ n ∈ [0x69, 0x131], r.2.2.2 ≤ n → n ≤ r.2.2.2 + (r.2.1 - r.1) →
        isWord (Char.ofNat (r.1 + (n - r.2.2.2))) = true := by decide +kernel
    have hself : ∀ n ∈ [0x69, 0x131], isWord (Char.ofNat n) = true := by decide +kernel
    have hne : (lower c).toNat ≠ 0 := by
      intro h0
      rw [h0] at h
      simp at h
    rw [← Char.ofNat_toNat c]
    rcases toNat_of_lower (by omega) hne with heq | ⟨r, hr, hle, hle', heq⟩
    · rw [heq]
      exact hself _ h
    · rw [heq]
      exact hruns r hr _ h hle hle'

/-- No word character is blank. -/
theorem isBlank_of_isWord {c : Char} (h : isWord c = true) : isBlank c = false := by
  by_cases hc : c.toNat < 128
  · exact of_toNat_lt (P := fun c => isWord c = true → isBlank c = false) (by decide +kernel) hc h
  · -- The blanks past the first characters are few.
    have hblanks : ∀ r ∈ blankRanges, ∀ n ∈ List.range' r.1 (r.2 + 1 - r.1), 128 ≤ n →
        inRanges wordRanges n = false := by
      decide +kernel
    rw [Bool.eq_false_iff]
    intro hblank
    obtain ⟨r, hr, hle, hle'⟩ := inRanges_iff.1 hblank
    have hword := hblanks r hr c.toNat (List.mem_range'_1.2 ⟨hle, by omega⟩) (by omega)
    unfold isWord at h
    rw [if_neg hc, hword] at h
    cases h

end StaticSite.Text
