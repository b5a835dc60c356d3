import StaticSite.Command.Run
import StaticSite.Proofs.Text.Infix

/-!
# What an answer shows

A text is shown by an answer if it stands in what is printed, on either output, as it is or as a
string of a JSON document (`Outcome.Shows`). A text that is a value, a member or the value of a key
anywhere in a document that is printed is shown (`shows_printedJson`), and so is one that stands in
a printed line (`shows_printed`).
-/

namespace StaticSite

open Text (isInfix_intercalate isInfix_join isInfix_append_left isInfix_append_right)

/-- A text stands somewhere in a value: as the value itself, as a member of a list, or as the value
of a key. -/
inductive Value.Occurs (t : String) : Value → Prop where
  /-- The value is the text. -/
  | text : Occurs t (.text t)
  /-- The text stands in a member of a list. -/
  | item {v : Value} {items : List Value} (hmem : v ∈ items) (h : Occurs t v) : Occurs t
      (.list items)
  /-- The text stands in the value of a key. -/
  | entry {k v : Value} {entries : List (Value × Value)} (hmem : (k, v) ∈ entries)
      (h : Occurs t v) :
    Occurs t (.mapping entries)

namespace Json

/-- A member of a list is on one of the lines that the list is written on. -/
theorem exists_of_indentedItems {depth : Nat} {items : List Value} {lines : List String}
    (h : indentedItems depth items = .ok lines) {v : Value} (hv : v ∈ items) :
    ∃ s, indentedAt depth v = .ok s ∧ lineStart depth ++ s ∈ lines := by
  induction items generalizing lines with
  | nil => cases hv
  | cons w rest ih =>
    simp only [indentedItems, bind, Except.bind] at h
    split at h
    · cases h
    · rename_i first hfirst
      split at h
      · cases h
      · rename_i others hothers
        cases h
        rcases List.mem_cons.1 hv with rfl | hv
        · exact ⟨first, hfirst, List.mem_cons_self⟩
        · obtain ⟨s, hs, hmem⟩ := ih hothers hv
          exact ⟨s, hs, List.mem_cons_of_mem _ hmem⟩

/-- A value of a mapping is on one of the lines that the mapping is written on. -/
theorem exists_of_indentedEntries {depth : Nat} {entries : List (Value × Value)}
    {lines : List String} (h : indentedEntries depth entries = .ok lines) {k v : Value}
    (hv : (k, v) ∈ entries) :
    ∃ start s, indentedAt depth v = .ok s ∧ start ++ s ∈ lines := by
  induction entries generalizing lines with
  | nil => cases hv
  | cons entry rest ih =>
    obtain ⟨k', v'⟩ := entry
    simp only [indentedEntries, bind, Except.bind] at h
    split at h
    · cases h
    · rename_i key hkey
      split at h
      · cases h
      · rename_i first hfirst
        split at h
        · cases h
        · rename_i others hothers
          cases h
          rcases List.mem_cons.1 hv with heq | hv
          · cases heq
            exact ⟨_, first, hfirst, List.mem_cons_self⟩
          · obtain ⟨start, s, hs, hmem⟩ := ih hothers hv
            exact ⟨start, s, hs, List.mem_cons_of_mem _ hmem⟩

/-- A text that stands in a value stands in its document, as a string. -/
theorem isInfix_indentedAt {t : String} {v : Value} (h : v.Occurs t) {depth : Nat} {s : String}
    (hs : indentedAt depth v = .ok s) : (asciiString t).toList <:+: s.toList := by
  induction h generalizing depth s with
  | text =>
    cases hs
    exact List.infix_rfl
  | @item v items hmem h ih =>
    cases items with
    | nil => cases hmem
    | cons w rest =>
      simp only [indentedAt, bind, Except.bind] at hs
      split at hs
      · cases hs
      · rename_i lines hlines
        cases hs
        obtain ⟨inner, hinner, hline⟩ := exists_of_indentedItems hlines hmem
        have hstands :=
          (isInfix_append_right (ih hinner)).trans (@isInfix_intercalate "," _ _ hline)
        exact isInfix_append_left (isInfix_append_left (isInfix_append_right hstands))
  | @entry k v entries hmem h ih =>
    cases entries with
    | nil => cases hmem
    | cons w rest =>
      simp only [indentedAt, bind, Except.bind] at hs
      split at hs
      · cases hs
      · rename_i lines hlines
        cases hs
        obtain ⟨start, inner, hinner, hline⟩ := exists_of_indentedEntries hlines hmem
        have hstands :=
          (isInfix_append_right (ih hinner)).trans (@isInfix_intercalate "," _ _ hline)
        exact isInfix_append_left (isInfix_append_left (isInfix_append_right hstands))

end Json

namespace Command

/-- A text stands in what an outcome prints, on either output. -/
def Outcome.Prints (x : Outcome) (t : String) : Prop :=
  t.toList <:+: x.out.toList ∨ t.toList <:+: x.err.toList

/-- A text stands in what an outcome prints, as it is or as a string of a JSON document. -/
def Outcome.Shows (x : Outcome) (t : String) : Prop := x.Prints t ∨ x.Prints (Json.asciiString t)

/-- A printed line shows what occurs in it. -/
theorem shows_printed {t : String} {lines : List String} {l : String} (hl : l ∈ lines)
    (ht : t.toList <:+: l.toList) (status : Nat) : (printed status lines).Shows t :=
  .inl (.inl ((isInfix_append_left ht).trans (isInfix_join (List.mem_map_of_mem hl))))

/-- A text that occurs in a value occurs in what the value is written as. -/
theorem jsonText_shows {t : String} {v : Value} (h : v.Occurs t) {s : String}
    (hs : jsonText v = .ok s) : (Json.asciiString t).toList <:+: s.toList := by
  unfold jsonText at hs
  cases hjson : Json.indented v with
  | error key => rw [hjson] at hs; cases hs
  | ok text =>
    rw [hjson] at hs
    cases hs
    exact Json.isInfix_indentedAt h hjson

/-- A document is printed if and only if it can be written. -/
theorem printedJson_eq_ok_iff {status : Nat} {m : Mapping} {x : Outcome} :
    printedJson status m = .ok x ↔ ∃ text, jsonText (.mapping m) = .ok text ∧
      printed status [text] = x := by
  unfold printedJson
  cases jsonText (.mapping m) with
  | error fault => exact ⟨fun h => (by cases h), fun ⟨_, h, _⟩ => (by cases h)⟩
  | ok text =>
      exact ⟨fun h => ⟨text, rfl, Except.ok.inj h⟩,
        fun ⟨_, h, hx⟩ => (by cases h; exact congrArg _ hx)⟩

/-- What stands in a document that is printed is shown. -/
theorem shows_printedJson {t : String} {m : Mapping} (h : (Value.mapping m).Occurs t) {status : Nat}
    {x : Outcome} (hx : printedJson status m = .ok x) : x.Shows t := by
  obtain ⟨text, htext, rfl⟩ := printedJson_eq_ok_iff.1 hx
  exact .inr (.inl ((isInfix_append_left (jsonText_shows h htext)).trans
    (isInfix_join (List.mem_map_of_mem List.mem_cons_self))))

/-- The outcome of a fault shows its wording. -/
theorem shows_failure (fault : Fault) : (failure fault).Shows fault.message :=
  .inl (.inr (isInfix_append_left (isInfix_append_right List.infix_rfl)))

/-- What stands for a fault in the form of a command shows the wording of the fault. -/
theorem shows_refused {json : Bool} {code : String} {fault : Fault} {x : Outcome}
    (hx : refused json code fault = .ok x) : x.status = 1 ∧ x.Shows fault.message := by
  cases json with
  | false =>
    cases hx
    exact ⟨rfl, shows_failure fault⟩
  | true =>
    simp only [refused, if_true, bind, Except.bind] at hx
    split at hx
    · cases hx
    · rename_i text htext
      cases hx
      refine ⟨rfl, .inr (.inr (isInfix_append_left (jsonText_shows ?_ htext)))⟩
      -- The wording is the value of a key, whether or not the fault has a name.
      unfold faultMapping Fault.payload
      split
      · exact .entry (k := .text "message") (by simp) .text
      · exact .entry (k := .text "message") (by simp) .text

end Command

end StaticSite
