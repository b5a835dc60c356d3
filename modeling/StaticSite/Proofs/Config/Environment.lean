import Mathlib.Data.List.Induction
import StaticSite.Config.Environment
import StaticSite.Proofs.Config.Field
import StaticSite.Proofs.Text.Search
import StaticSite.Proofs.Value.Document
import StaticSite.Proofs.Value.Merge

/-!
# Which variables can be given their places

The variables of the environment are assigned one after the other, each at a place in a mapping that
the earlier ones made. That fails where what is no mapping stands on the way (`makes_assign`). What
an earlier assignment has to do with that is told by the two places: of all assignments that are
made on the way to a place or beyond it the last one counts (`says?_perform`, `hides`). So it is
said without running anything when an environment can be read (`IsReadable`, `makes_read`).
-/

namespace StaticSite.Config.Environment

open Value

variable {new v w : Value} {place path : List String} {limit : Nat}

/-! ## One assignment -/

/-- The keys of a place. -/
def keysOf (place : List String) : List Value := place.map .text

/-- An assignment to the whole replaces it. -/
theorem assign_nil (new v : Value) : assign new [] v = .ok new := by
  rw [assign]

/-- An assignment in a mapping is made in what the mapping holds under the first key. -/
theorem assign_cons_mapping (new : Value) (key : String) (place : List String) (m : Mapping) :
    assign new (key :: place) (.mapping m) = (do
      let inner ← assign new place ((Mapping.find? m key).getD (.mapping []))
      return .mapping (Mapping.set m (.text key) inner)) := by
  cases place with
  | nil =>
    rw [assign_nil]
    rfl
  | cons next rest => rw [assign]; rintro ⟨⟩

/-- What is no mapping cannot be entered. -/
theorem assign_cons_of_not_isMapping (new : Value) (key : String) (place : List String)
    (h : v.isMapping = false) :
    ∃ use kind, assign new (key :: place) v = .error (.misuse use kind) := by
  cases place <;> cases v <;> first | exact ⟨_, _, rfl⟩ | cases h

/-- An assignment can be made unless what is no mapping stands on the way. -/
theorem makes_assign : Makes (assign new place v) ↔ v.says? (keysOf place) ≠ some none := by
  induction place generalizing v with
  | nil =>
    rw [assign_nil]
    exact iff_of_true (makes_ok _) (by simp [keysOf])
  | cons key place ih =>
    rw [keysOf, List.map_cons, ← keysOf]
    rcases mapping_or v with ⟨m, rfl⟩ | hv
    · rw [assign_cons_mapping, makes_bind_of_makes fun _ => makes_pure _, ih, says?_mapping_cons,
        ← Mapping.find?]
      cases Mapping.find? m key with
      | some inner => rfl
      | none =>
        -- A mapping is made on the way.
        refine iff_of_true ?_ (by simp)
        rw [Option.getD_none]
        cases place <;> simp [keysOf, says?_mapping_cons]
    · obtain ⟨use, kind, h⟩ := assign_cons_of_not_isMapping new key place hv
      rw [h, says?_cons_of_not_isMapping hv]
      exact iff_of_false (not_makes_error _) (fun h => h rfl)

/-- The only fault of an assignment is that something is entered which is no mapping. -/
theorem exists_misuse_of_assign {fault : Fault} (h : assign new place v = .error fault) :
    ∃ use kind, fault = .misuse use kind := by
  induction place generalizing v with
  | nil =>
    rw [assign_nil] at h
    cases h
  | cons key place ih =>
    rcases mapping_or v with ⟨m, rfl⟩ | hv
    · rw [assign_cons_mapping] at h
      cases hinner : assign new place ((Mapping.find? m key).getD (.mapping [])) with
      | error inner =>
        rw [hinner] at h
        exact ih (hinner.trans (congrArg Except.error (Except.error.inj h)))
      | ok inner =>
        rw [hinner] at h
        cases h
    · obtain ⟨use, kind, herror⟩ := assign_cons_of_not_isMapping new key place hv
      rw [herror] at h
      exact ⟨use, kind, (Except.error.inj h).symm⟩

/-- What stands at a place after an assignment: below the place that was assigned what the value
says, on the way to it a mapping, and elsewhere what was there. -/
theorem says?_assign (h : assign new place v = .ok w) (path : List String) :
    (place <+: path → w.says? (keysOf path) = new.says? (keysOf (path.drop place.length))) ∧
    (path <+: place → path ≠ place → w.says? (keysOf path) ≠ some none) ∧
    (¬ place <+: path → ¬ path <+: place → w.says? (keysOf path) = v.says? (keysOf path)) := by
  -- On the place, each key of which goes one mapping further down.
  induction place generalizing v w path with
  | nil =>
    rw [assign_nil] at h
    obtain rfl := Except.ok.inj h
    exact ⟨fun _ => rfl, fun hpath hne => absurd (List.prefix_nil.1 hpath) hne,
      fun hpath => absurd List.nil_prefix hpath⟩
  | cons key place ih =>
    rcases mapping_or v with ⟨m, rfl⟩ | hv
    · rw [assign_cons_mapping] at h
      obtain ⟨inner, hinner, h⟩ := bind_eq_ok.1 h
      obtain rfl := Except.ok.inj h
      cases path with
      | nil =>
          exact ⟨fun h => absurd h (by simp), fun _ _ => by simp [keysOf],
            fun _ h => absurd List.nil_prefix h⟩
      | cons key' path =>
        have hsaid : ∀ m' : Mapping, (mapping m').says? (keysOf (key' :: path)) =
            (m'.get? (.text key')).bind fun u => u.says? (keysOf path) :=
              fun m' => says?_mapping_cons m' _ _
        rw [hsaid, hsaid, Mapping.get?_set, sameKey_text]
        by_cases hkey : key = key'
        · subst hkey
          obtain ⟨hbelow, hway, helse⟩ := ih hinner path
          simp only [beq_self_eq_true, if_true, Option.bind_some, List.cons_prefix_cons,
            true_and, ne_eq, List.cons.injEq, List.length_cons, List.drop_succ_cons]
          refine ⟨hbelow, hway, fun hplace hpath => ?_⟩
          rw [helse hplace hpath, ← Mapping.find?]
          cases Mapping.find? m key with
          | some u => rfl
          | none =>
            obtain ⟨next, rest, rfl⟩ :=
              List.exists_cons_of_ne_nil (show path ≠ [] by rintro rfl; exact hpath List.nil_prefix)
            rfl
        · have hkey' : (key == key') = false := by simpa using hkey
          simp [hkey', List.cons_prefix_cons, hkey, Ne.symm hkey]
    · obtain ⟨use, kind, herror⟩ := assign_cons_of_not_isMapping new key place hv
      rw [herror] at h
      cases h

/-- An assignment of a proper value leaves a value proper. -/
theorem isProper_assign (h : assign new place v = .ok w) (hnew : new.isProper = true)
    (hv : v.isProper = true) :
    w.isProper = true := by
  induction place generalizing v w with
  | nil =>
    rw [assign_nil] at h
    rwa [← Except.ok.inj h]
  | cons key place ih =>
    rcases mapping_or v with ⟨m, rfl⟩ | hmapping
    · rw [isProper_mapping] at hv
      rw [assign_cons_mapping] at h
      obtain ⟨inner, hinner, h⟩ := bind_eq_ok.1 h
      rw [← Except.ok.inj h, isProper_mapping]
      refine Mapping.isProper_set hv (isKey_text key) (ih hinner ?_)
      cases hfind : Mapping.find? m key with
      | none => simp
      | some u => exact Mapping.isProper_of_get? hv hfind
    · obtain ⟨use, kind, herror⟩ := assign_cons_of_not_isMapping new key place hmapping
      rw [herror] at h
      cases h

/-- An assignment at a place within a mapping leaves it a mapping. -/
theorem isMapping_assign (h : assign new place v = .ok w) (hplace : place ≠ []) :
    w.isMapping = true := by
  obtain ⟨key, place, rfl⟩ := List.exists_cons_of_ne_nil hplace
  rcases mapping_or v with ⟨m, rfl⟩ | hmapping
  · rw [assign_cons_mapping] at h
    obtain ⟨inner, -, h⟩ := bind_eq_ok.1 h
    rw [← Except.ok.inj h]
    rfl
  · obtain ⟨use, kind, herror⟩ := assign_cons_of_not_isMapping new key place hmapping
    rw [herror] at h
    cases h

/-! ## The value of a variable -/

/-- Whether a text is a whole number of more digits than are read. -/
def isLongNumber (text : String) : Bool :=
  let digits := (splitSign (Text.trim text.toList)).2
  (Decimal.nat? digits).isSome && Json.digitLimit < digits.length

/-- A text without its sign is no longer than with it. -/
theorem length_splitSign_le (s : List Char) : (splitSign s).2.length ≤ s.length := by
  unfold splitSign
  split <;> simp

/-- The value of a whole number, unless it has too many digits. -/
theorem int?_eq (s : List Char) : int? s = (Decimal.nat? (splitSign s).2).map fun n =>
    if Json.digitLimit < (splitSign s).2.length then .error (.longNumber (splitSign s).2.length)
    else .ok (if (splitSign s).1 then -(n : Int) else n) := by
  unfold int?
  rcases splitSign s with ⟨negative, digits⟩
  cases hdigits : Decimal.nat? digits <;> simp [hdigits]

/-- Whether a text has the form of a list or a mapping. -/
def hasBrackets (s : List Char) : Bool := isBracketed '\x7b' '\x7d' s || isBracketed '[' ']' s

/-- Whether a text has the form of a list or a mapping and is nested deeper than is read. -/
def isTooNested (limit : Nat) (text : String) : Bool :=
  hasBrackets (Text.trim text.toList) && limit <
    Json.nesting (String.ofList (Text.trim text.toList))

/-- Whether a text has a value: it is no whole number of too many digits and is not nested too
deep. -/
def isFit (limit : Nat) (text : String) : Bool := !isLongNumber text && !isTooNested limit text

/-- A text of the form of a list or a mapping begins with no digit, no sign and no letter. -/
theorem exists_of_hasBrackets {s : List Char} (h : hasBrackets s = true) :
    ∃ c rest, s = c :: rest ∧ (c = '\x7b' ∨ c = '[') := by
  cases s with
  | nil => cases h
  | cons c rest =>
    refine ⟨c, rest, rfl, ?_⟩
    simp only [hasBrackets, isBracketed, List.head?_cons, Bool.or_eq_true,
      Bool.and_eq_true, beq_iff_eq, Option.some.injEq] at h
    exact h.imp And.left And.left

/-- A text in brackets has no sign. -/
theorem splitSign_of_hasBrackets {s : List Char} (h : hasBrackets s = true) :
    splitSign s = (false, s) := by
  obtain ⟨c, rest, rfl, rfl | rfl⟩ := exists_of_hasBrackets h <;> rfl

/-- A text in brackets is no whole number. -/
theorem nat?_of_hasBrackets {s : List Char} (h : hasBrackets s = true) : Decimal.nat? s = none := by
  obtain ⟨c, rest, rfl, rfl | rfl⟩ := exists_of_hasBrackets h <;> rfl

/-- A text in brackets is no float. -/
theorem float?_of_hasBrackets {s : List Char} (h : hasBrackets s = true) : float? s = none := by
  rw [float?, splitSign_of_hasBrackets h]
  obtain ⟨c, rest, rfl, hc⟩ := exists_of_hasBrackets h
  -- What stands before a point begins with the bracket.
  have hdigit : Text.digit? c = none := by rcases hc with rfl | rfl <;> rfl
  have hpoint : Text.after? ['.'] (c :: rest) = none := by rcases hc with rfl | rfl <;> rfl
  simp only [Text.cut?, hpoint]
  cases Text.cut? ['.'] rest with
  | none => rfl
  | some found => simp [List.mapM_cons, hdigit]

/-- The value of a text of the form of a list or a mapping. -/
theorem valueOf_of_hasBrackets {text : String} (h : hasBrackets (Text.trim text.toList) = true) :
    valueOf limit text = match Json.load limit (String.ofList (Text.trim text.toList)) with
      | .ok document => .ok document.toValue
      | .error (.json _) => .ok (.text (String.ofList (Text.trim text.toList)))
      | .error fault => .error fault := by
  unfold valueOf
  generalize Text.trim text.toList = s at h ⊢
  have hbool :
    ((String.ofList (s.map Char.toLower) == "true") ||
      (String.ofList (s.map Char.toLower) == "false")) =
      false := by
    obtain ⟨c, rest, rfl, rfl | rfl⟩ := exists_of_hasBrackets h <;> simp [String.ext_iff]
  have hint : int? s = none := by
    rw [int?_eq, splitSign_of_hasBrackets h, nat?_of_hasBrackets h]; rfl
  simp only [hbool, hint, float?_of_hasBrackets h]
  rw [← hasBrackets, h]
  rfl

/-- Reading a document fails because of its form, or because it is nested too deep. -/
theorem load_cases (limit : Nat) (text : String) :
    limit < Json.nesting text ∧ Json.load limit text = .error .tooNested ∨
    Json.nesting text ≤ limit ∧ ((∃ document, Json.load limit text = .ok document) ∨
      ∃ cause, Json.load limit text = .error (.json cause)) := by
  unfold Json.load
  split
  · exact .inl ⟨‹_›, rfl⟩
  · refine .inr ⟨Nat.le_of_not_lt ‹_›, ?_⟩
    cases Json.parse text with
    | error cause => exact .inr ⟨cause, rfl⟩
    | ok document => exact .inl ⟨document, rfl⟩

/-- A text has a value unless it is a number of too many digits or nested too deep. -/
theorem valueOf_cases (limit : Nat) (text : String) :
    isLongNumber text = true ∧ (∃ digits, valueOf limit text = .error (.longNumber digits)) ∨
    isTooNested limit text = true ∧ valueOf limit text = .error .tooNested ∨
    isFit limit text = true ∧ ∃ v, valueOf limit text = .ok v := by
  -- What stands in brackets is read as a document, and anything else as a truth value, a number
  -- or a text, in this order.
  by_cases hbrackets : hasBrackets (Text.trim text.toList) = true
  · have hshort : isLongNumber text = false := by
      rw [isLongNumber, splitSign_of_hasBrackets hbrackets, nat?_of_hasBrackets hbrackets]
      rfl
    rw [valueOf_of_hasBrackets hbrackets, isFit, hshort, isTooNested, hbrackets]
    rcases load_cases limit (String.ofList (Text.trim text.toList)) with ⟨hdeep, hload⟩ | ⟨hflat,
      ⟨v, hload⟩ | ⟨cause, hload⟩⟩
    · exact .inr (.inl ⟨by simpa using hdeep, by rw [hload]⟩)
    · exact .inr (.inr ⟨by simpa using hflat, _, by rw [hload]⟩)
    · exact .inr (.inr ⟨by simpa using hflat, _, by rw [hload]⟩)
  · rw [Bool.not_eq_true] at hbrackets
    rw [isFit, isTooNested, hbrackets]
    have hlong : isLongNumber text = ((Decimal.nat? (splitSign (Text.trim text.toList)).2).isSome &&
        Json.digitLimit < (splitSign (Text.trim text.toList)).2.length) := rfl
    rw [hlong, valueOf]
    rw [hasBrackets] at hbrackets
    generalize Text.trim text.toList = s at hbrackets
    split
    · -- A truth value is too short for a number of many digits.
      rename_i hbool
      refine .inr (.inr ⟨?_, _, rfl⟩)
      have hlength : s.length ≤ 5 := by
        have hletters : (String.ofList (s.map Char.toLower)).toList.length ≤ 5 := by
          rcases Bool.or_eq_true_iff.1 hbool with h | h <;> rw [eq_of_beq h] <;> decide
        rwa [String.toList_ofList, List.length_map] at hletters
      have hdigits := length_splitSign_le s
      have hlimit : Json.digitLimit = 4300 := rfl
      have hfew : ¬ Json.digitLimit < (splitSign s).2.length := by omega
      simp [hfew]
    · rw [int?_eq]
      cases hdigits : Decimal.nat? (splitSign s).2 with
      | some n =>
        by_cases hmany : Json.digitLimit < (splitSign s).2.length
        · simp [hmany, Except.map]
        · simp [hmany, Except.map]
      | none =>
        refine .inr (.inr ⟨rfl, ?_⟩)
        simp only [Option.map_none]
        split
        · exact ⟨_, rfl⟩
        · rw [hbrackets]
          exact ⟨_, rfl⟩

/-- A variable has a value if and only if its text is fit for one. -/
theorem makes_valueOf {text : String} : Makes (valueOf limit text) ↔ isFit limit text = true := by
  rcases valueOf_cases limit text with ⟨hlong, digits, h⟩ | ⟨hdeep, h⟩ | ⟨hfit, v, h⟩
  · rw [h, isFit, hlong]
    exact iff_of_false (not_makes_error _) (by simp)
  · rw [h, isFit, hdeep]
    exact iff_of_false (not_makes_error _) (by simp)
  · rw [h]
    exact iff_of_true (makes_ok v) hfit

/-! ## All assignments -/

/-- The assignments that an environment asks for in order, each with its place and the text of its
value. -/
def assignments (environment : List (String × String)) : List (List String × String) :=
  (ownVariables environment).filterMap fun v => (placeOf? v.1).map fun place => (place, v.2)

/-- Makes an assignment. -/
def perform (limit : Nat) (config : Value) (a : List String × String) : Except Fault Value := do
  assign (← valueOf limit a.2) a.1 config

/-- A further variable is assigned if it is one of the program, and left alone if not. -/
theorem result_next (r : Reading) (variable' : String × String) : (r.next limit variable').result =
    match placeOf? variable'.1 with
    | none => r.result
    | some place => r.result >>= fun config => perform limit config (place, variable'.2) := by
  unfold Reading.next
  rcases hresult : r.result with fault | config
  · cases placeOf? variable'.1 <;> exact hresult
  · cases hplace : placeOf? variable'.1 <;> first | exact hresult | rfl

/-- What the environment says is what the assignments make of an empty mapping. -/
theorem result_read (limit : Nat) (environment : List (String × String)) :
    (read limit environment).result = (assignments environment).foldlM (perform limit)
      (.mapping []) := by
  unfold read assignments
  have hrun : ∀ (own : List (String × String)) (r : Reading),
    (own.foldl (Reading.next limit) r).result =
      r.result >>= fun config =>
        (own.filterMap fun v => (placeOf? v.1).map fun place => (place, v.2)).foldlM
            (perform limit) config := by
    intro own r
    induction own generalizing r with
    | nil => exact (bind_pure r.result).symm
    | cons v rest ih =>
      rw [List.foldl_cons, ih, result_next, List.filterMap_cons]
      cases placeOf? v.1 with
      | none => rfl
      | some place => rw [bind_assoc]; simp only [Option.map_some, List.foldlM_cons]
  exact hrun _ _

/-- The last of some assignments that is made on the way to a place, at it or beyond it. -/
def lastOnWay? (as : List (List String × String)) (place : List String) :
    Option (List String × String) :=
  as.reverse.find? fun a => a.1.isPrefixOf place || place.isPrefixOf a.1

/-- Whether some assignments leave what is no mapping on the way to a place: the last of them that
is made on that way says so. -/
def hides (limit : Nat) (as : List (List String × String)) (place : List String) : Bool :=
  match lastOnWay? as place with
  | none => false
  | some a =>
    match valueOf limit a.2 with
    | .error _ => false
    | .ok v =>
        a.1.isPrefixOf place && ((v.says? (keysOf (place.drop a.1.length))).any Option.isNone)

variable {as : List (List String × String)}

/-- The last assignment on the way to a place is the newest, if that one is on it. -/
theorem lastOnWay?_concat (as : List (List String × String)) (a : List String × String)
    (place : List String) :
    lastOnWay? (as ++ [a]) place =
      if a.1 <+: place ∨ place <+: a.1 then some a else lastOnWay? as place := by
  unfold lastOnWay?
  rw [List.reverse_append, List.reverse_singleton, List.singleton_append, List.find?_cons]
  by_cases h : a.1 <+: place ∨ place <+: a.1
  · have hfound : (a.1.isPrefixOf place || place.isPrefixOf a.1) = true := by simpa using h
    rw [hfound, if_pos h]
  · have hfound : (a.1.isPrefixOf place || place.isPrefixOf a.1) = false := by
      rw [← Bool.not_eq_true]
      simpa using h
    rw [hfound, if_neg h]

/-- Assignments are performed in their order, the newest last. -/
theorem foldlM_concat (as : List (List String × String)) (a : List String × String) (v : Value) :
    (as ++ [a]).foldlM (perform limit) v =
      (as.foldlM (perform limit) v >>= fun config => perform limit config a) := by
  simp only [List.foldlM_append, List.foldlM_cons, List.foldlM_nil, bind_pure]

/-- What is no mapping stands on the way to a place after all assignments if and only if the last of
them on that way says so. -/
theorem says?_perform (h : as.foldlM (perform limit) (.mapping []) = .ok w) (place : List String) :
    w.says? (keysOf place) = some none ↔ hides limit as place = true := by
  induction as using List.reverseRecOn generalizing w with
  | nil =>
    rw [← Except.ok.inj h]
    cases place <;> simp [keysOf, says?_mapping_cons, hides, lastOnWay?]
  | append_singleton as a ih =>
    rw [foldlM_concat] at h
    obtain ⟨config, hconfig, h⟩ := bind_eq_ok.1 h
    obtain ⟨new, hnew, hassign⟩ := bind_eq_ok.1 h
    obtain ⟨hbelow, hway, helse⟩ := says?_assign hassign place
    rw [hides, lastOnWay?_concat]
    by_cases hprefix : a.1 <+: place
    · rw [hbelow hprefix, if_pos (.inl hprefix)]
      simp only [hnew, List.isPrefixOf_iff_prefix.2 hprefix, Bool.true_and]
      rcases new.says? _ with _ | _ | _ <;> simp
    · by_cases hpath : place <+: a.1
      · have hne : place ≠ a.1 := fun h => hprefix (h ▸ List.prefix_rfl)
        rw [if_pos (.inr hpath)]
        simp [hnew, hprefix, hway hpath hne]
      · rw [if_neg (by rintro (h | h) <;> contradiction), helse hprefix hpath, ih hconfig]
        rfl

/-- Some assignments can be made one after the other: each text has a value, and none of them leaves
what is no mapping on the way of a later one. -/
def AreAssignable (limit : Nat) (as : List (List String × String)) : Prop :=
  ∀ i (h : i < as.length), isFit limit as[i].2 = true ∧ hides limit (as.take i) as[i].1 = false

instance (limit : Nat) (as : List (List String × String)) : Decidable (AreAssignable limit as) :=
  inferInstanceAs
    (Decidable (∀ i (h : i < as.length), isFit limit as[i].2 = true ∧
      hides limit (as.take i) as[i].1 = false))

/-- Assignments can be performed if and only if all but the newest can and no text stands in the way
of that one. -/
theorem areAssignable_concat (as : List (List String × String)) (a : List String × String) :
    AreAssignable limit (as ++ [a]) ↔ AreAssignable limit as ∧ isFit limit a.2 = true ∧
      hides limit as a.1 = false := by
  unfold AreAssignable
  constructor
  · intro h
    refine ⟨fun i hi => ?_, ?_⟩
    · have hlast := h i (by rw [List.length_append]; omega)
      rwa [List.getElem_append_left hi, List.take_append_of_le_length (Nat.le_of_lt hi)] at hlast
    · have hlast := h as.length (by simp)
      rwa [List.getElem_concat_length rfl, List.take_left] at hlast
  · rintro ⟨h, hlast⟩ i hi
    rw [List.length_append, List.length_singleton] at hi
    by_cases hlength : i < as.length
    · rw [List.getElem_append_left hlength, List.take_append_of_le_length (Nat.le_of_lt hlength)]
      exact h i hlength
    · obtain rfl : i = as.length := by omega
      rwa [List.getElem_concat_length rfl, List.take_left]

/-- Assignments can be made if and only if each has a value and finds its way open. -/
theorem makes_foldlM : Makes (as.foldlM (perform limit) (.mapping [])) ↔
    AreAssignable limit as := by
  induction as using List.reverseRecOn with
  | nil => exact iff_of_true (makes_ok _) fun i hi => absurd hi (Nat.not_lt_zero i)
  | append_singleton as a ih =>
    rw [foldlM_concat, areAssignable_concat, ← ih, ← makes_valueOf]
    constructor
    · intro h
      obtain ⟨config, hconfig, h⟩ := makes_bind.1 h
      obtain ⟨new, hnew, h⟩ := makes_bind.1 h
      refine ⟨⟨config, hconfig⟩, ⟨new, hnew⟩, ?_⟩
      rw [← Bool.not_eq_true, ← says?_perform hconfig]
      exact makes_assign.1 h
    · rintro ⟨⟨config, hconfig⟩, ⟨new, hnew⟩, hopen⟩
      rw [← Bool.not_eq_true, ← says?_perform hconfig] at hopen
      exact makes_bind.2 ⟨config, hconfig, makes_bind.2 ⟨new, hnew, makes_assign.2 hopen⟩⟩

/-- The faults that assignments can end with. -/
theorem fault_of_foldlM {fault : Fault} {v : Value}
    (h : as.foldlM (perform limit) v = .error fault) : (∃ use kind, fault = .misuse use kind) ∨
    (∃ digits, fault = .longNumber digits) ∨ fault = .tooNested := by
  induction as generalizing v with
  | nil => cases h
  | cons a rest ih =>
    rw [List.foldlM_cons] at h
    rcases hperform : perform limit v a with fault' | config
    · rw [hperform] at h
      obtain rfl := Except.error.inj h
      unfold perform at hperform
      rcases valueOf_cases limit a.2 with ⟨-, digits, hvalue⟩ | ⟨-, hvalue⟩ | ⟨-, new, hvalue⟩
      · rw [hvalue] at hperform
        exact .inr (.inl ⟨digits, (Except.error.inj hperform).symm⟩)
      · rw [hvalue] at hperform
        exact .inr (.inr (Except.error.inj hperform).symm)
      · rw [hvalue] at hperform
        exact .inl (exists_misuse_of_assign hperform)
    · rw [hperform] at h
      exact ih h

/-! ## The environment as a whole -/

/-- The variables of an environment can be given their places. -/
def IsReadable (limit : Nat) (environment : List (String × String)) : Prop :=
  AreAssignable limit (assignments environment)

instance (limit : Nat) (environment : List (String × String)) :
    Decidable (IsReadable limit environment) :=
  inferInstanceAs (Decidable (AreAssignable _ _))

/-- The variables can be read if and only if all their texts are fit and none of their assignments
meets a text. -/
theorem makes_read {environment : List (String × String)} :
    Makes (read limit environment).result ↔ IsReadable limit environment := by
  rw [result_read]
  exact makes_foldlM

/-- Reading the variables fails on a text that is assigned into, on a number that is too long, or on
a document that is nested too deep. -/
theorem fault_of_read {environment : List (String × String)} {fault : Fault}
    (h : (read limit environment).result = .error fault) :
    (∃ use kind, fault = .misuse use kind) ∨ (∃ digits, fault = .longNumber digits) ∨
      fault = .tooNested := by
  rw [result_read] at h
  exact fault_of_foldlM h

/-- A variable names a place within the configuration. -/
theorem placeOf?_ne_nil {name : String} (h : placeOf? name = some place) : place ≠ [] := by
  unfold placeOf? at h
  dsimp only at h
  split at h
  · cases h
  · rw [← Option.some.inj h, ne_eq, List.map_eq_nil_iff]
    exact Text.splitFrom_ne_nil _ _ _

/-- The value of a variable is proper. -/
theorem isProper_valueOf {text : String} (h : valueOf limit text = .ok v) : v.isProper = true := by
  unfold valueOf at h
  dsimp only at h
  split at h
  · rw [← Except.ok.inj h]
    rfl
  · split at h
    · rename_i n _
      cases n with
      | error fault => cases h
      | ok n =>
        rw [← Except.ok.inj h]
        rfl
    · split at h
      · rw [← Except.ok.inj h]
        rfl
      · split at h
        · split at h
          · rw [← Except.ok.inj h]
            exact Json.isProper_toValue _
          · rw [← Except.ok.inj h]
            rfl
          · cases h
        · rw [← Except.ok.inj h]
          rfl

/-- What the environment says is a proper mapping. -/
theorem exists_mapping_of_read {environment : List (String × String)}
    (h : (read limit environment).result = .ok v) :
    ∃ m, v = .mapping m ∧ Mapping.isProper m = true := by
  have hplaces : ∀ a ∈ assignments environment, a.1 ≠ [] := by
    intro a ha
    obtain ⟨variable', -, hplace⟩ := List.mem_filterMap.1 ha
    obtain ⟨place, hname, rfl⟩ := Option.map_eq_some_iff.1 hplace
    exact placeOf?_ne_nil hname
  rw [result_read] at h
  -- Each assignment leaves it a proper mapping.
  have hmapping : v.isMapping = true ∧ v.isProper = true := by
    refine foldlM_invariant (P := fun w : Value => w.isMapping = true ∧ w.isProper = true)
      ⟨rfl, by simp⟩
      (fun a ha before after hbefore hperform => ?_) h
    obtain ⟨new, hnew, hassign⟩ := bind_eq_ok.1 hperform
    exact ⟨isMapping_assign hassign (hplaces a ha),
      isProper_assign hassign (isProper_valueOf hnew) hbefore.2⟩
  rcases mapping_or v with ⟨m, rfl⟩ | hv
  · exact ⟨m, rfl, by simpa using hmapping.2⟩
  · rw [hv] at hmapping
    exact absurd hmapping.1 Bool.false_ne_true

end StaticSite.Config.Environment
