import StaticSite.Proofs.Path.Text

/-!
# Paths below a directory

A list of names leads some directories up and then down again (`route`). Below a normal directory it
ends inside that directory if and only if the way down takes back the way up and goes on
(`Route.staysIn_iff`). So it is decided whether an output file lies in the output directory
(`isAbove_output_iff`): one whose filename has no home mark, never leads up and ends below always
does (`staysIn_of_route`).
-/

namespace StaticSite

namespace Path

variable {d p : Path} {names start : List String} {place : Place}

/-- A directory lies above a path. -/
structure IsAbove (d p : Path) : Prop where
  /-- They start at the same root. -/
  root : p.root = d.root
  /-- The names of the directory come first. -/
  names : d.names <+: p.names
  /-- They are not all. -/
  ne : p.names ≠ d.names

instance (d p : Path) : Decidable (d.IsAbove p) :=
  decidable_of_iff (p.root = d.root ∧ d.names <+: p.names ∧ p.names ≠ d.names)
    ⟨fun h => ⟨h.1, h.2.1, h.2.2⟩, fun h => ⟨h.root, h.names, h.ne⟩⟩

/-- A path inside a directory lies in that directory or in one inside it. -/
theorem IsAbove.isPrefix_parent (h : d.IsAbove p) : d.names <+: p.parent.names :=
  Tree.isPrefix_dropLast h.names h.ne.symm

/-! ## Where names lead -/

/-- Where names lead: some directories up, and then down along names. -/
structure Route where
  /-- How many directories up. -/
  up : Nat
  /-- The names on the way down. -/
  down : List String
deriving DecidableEq, Repr

/-- Goes on to a name. The parent directory takes back the last name on the way down, or goes up. -/
def Route.enter (r : Route) (name : String) : Route :=
  if name == ".." then
    match r.down with
    | [] => ⟨r.up + 1, []⟩
    | _ :: _ => ⟨r.up, r.down.dropLast⟩
  else ⟨r.up, r.down ++ [name]⟩

/-- Where names lead. -/
def route (names : List String) : Route := names.foldl Route.enter ⟨0, []⟩

/-- Where a route ends that starts below some names. -/
def Route.ending (r : Route) (start : List String) : List String :=
  start.take (start.length - r.up) ++ r.down

/-- Going on from the end of a route is going on with it. -/
theorem Route.enter_ending (r : Route) (start : List String) (name : String) :
    Path.enter (r.ending start) name = (r.enter name).ending start := by
  obtain ⟨up, down⟩ := r
  unfold Path.enter Route.enter Route.ending
  split
  · cases down with
    | nil =>
      simp only [List.append_nil]
      rw [List.dropLast_eq_take, List.length_take, List.take_take]
      congr 1
      omega
    | cons n down => rw [List.dropLast_append_of_ne_nil (List.cons_ne_nil n down)]
  · rw [List.append_assoc]

/-- Where names lead from a directory is where their route ends. -/
theorem foldl_enter_ending (names start : List String) (r : Route) :
    names.foldl enter (r.ending start) = (names.foldl Route.enter r).ending start := by
  induction names generalizing r with
  | nil => rfl
  | cons name names ih => rw [List.foldl_cons, List.foldl_cons, r.enter_ending, ih]

/-- Below a directory without a parent directory among its names, names lead where their route
ends. -/
theorem normalNames_append (hstart : ∀ n ∈ start, n ≠ "..") (names : List String) :
    normalNames (start ++ names) = (route names).ending start := by
  have hself : (⟨0, []⟩ : Route).ending start = start := by simp [Route.ending]
  have hfirst : start.foldl enter [] = start := normalNames_eq_self hstart
  have hrest := foldl_enter_ending names start ⟨0, []⟩
  rw [hself] at hrest
  rw [normalNames, List.foldl_append, hfirst, hrest, route]

/-- A route stays inside the names that it starts from: the way down takes back the way up, and goes
on. -/
structure Route.StaysIn (r : Route) (start : List String) : Prop where
  /-- The way down takes back the way up. -/
  back : start.drop (start.length - r.up) <+: r.down
  /-- It goes on. -/
  on : r.down ≠ start.drop (start.length - r.up)

instance (r : Route) (start : List String) : Decidable (r.StaysIn start) :=
  decidable_of_iff (start.drop (start.length - r.up) <+: r.down ∧
    r.down ≠ start.drop (start.length - r.up))
    ⟨fun h => ⟨h.1, h.2⟩, fun h => ⟨h.back, h.on⟩⟩

/-- A route that stays inside ends inside, and no other does. -/
theorem Route.staysIn_iff (r : Route) (start : List String) :
    r.StaysIn start ↔ start <+: r.ending start ∧ r.ending start ≠ start := by
  unfold Route.ending
  have hparts : start = start.take (start.length - r.up) ++ start.drop (start.length - r.up) :=
    (List.take_append_drop _ _).symm
  have hfront : start <+: start.take (start.length - r.up) ++ r.down ↔
      start.drop (start.length - r.up) <+: r.down := by
    nth_rewrite 1 [hparts]
    exact List.prefix_append_right_inj _
  have heq : start.take (start.length - r.up) ++ r.down = start ↔
      r.down = start.drop (start.length - r.up) := by
    refine ⟨fun h => List.append_cancel_left (h.trans hparts), fun h => ?_⟩
    rw [h]
    exact hparts.symm
  rw [hfront, ne_eq, heq]
  exact ⟨fun h => ⟨h.back, h.on⟩, fun h => ⟨h.1, h.2⟩⟩

/-! ## Output files -/

/-- The path that the filename of an output file names. -/
def ofFilename (place : Place) (filename : String) : Path :=
  ofString (expandHome place.home (Output.nameOf filename))

/-- A filename stays in a directory: its names do, or the place that a home mark stands for is
there. -/
inductive StaysIn (place : Place) (d : Path) (filename : String) : Prop where
  /-- Its names lead below the directory. -/
  | route (h : (ofFilename place filename).isAbsolute = false)
      (hroute : (Path.route (ofFilename place filename).names).StaysIn d.names) :
        StaysIn place d filename
  /-- It begins with a home mark, and the home directory is there. -/
  | home (h : (ofFilename place filename).isAbsolute = true)
      (habove : d.IsAbove
        ⟨(ofFilename place filename).root, normalNames (ofFilename place filename).names⟩) :
      StaysIn place d filename

/-- A filename stays in a directory if its route does, or, where it is absolute, if it leads there.
-/
theorem staysIn_iff (d : Path) (filename : String) : StaysIn place d filename ↔
    (ofFilename place filename).isAbsolute = false ∧
      (route (ofFilename place filename).names).StaysIn d.names ∨
        (ofFilename place filename).isAbsolute = true ∧
        d.IsAbove
          ⟨(ofFilename place filename).root, normalNames (ofFilename place filename).names⟩ := by
  constructor
  · rintro (⟨h, hroute⟩ | ⟨h, habove⟩)
    · exact .inl ⟨h, hroute⟩
    · exact .inr ⟨h, habove⟩
  · rintro (⟨h, hroute⟩ | ⟨h, habove⟩)
    · exact .route h hroute
    · exact .home h habove

instance (place : Place) (d : Path) (filename : String) : Decidable (StaysIn place d filename) :=
  decidable_of_iff _ (staysIn_iff d filename).symm

/-- The path of an output file, with what its filename names put below the output directory. -/
theorem output_eq_below (hd : d.IsNormal) {filename : String}
    (hhome : hasHome (Output.nameOf filename) = true) :
    Output.path place d filename =
      ⟨(below d (ofFilename place filename)).root,
        normalNames (below d (ofFilename place filename)).names⟩ := by
  have hbelow : below place.cwd (below d (ofFilename place filename)) =
      below d (ofFilename place filename) :=
    if_pos (isAbsolute_below hd.isGrounded.absolute _)
  unfold Output.path absolute
  rw [if_pos hhome]
  simp only
  rw [← ofFilename, hbelow]

/-- What stands for an output file whose home directory cannot be looked up lies in the output
directory. -/
theorem isAbove_output_of_homeless (hd : d.IsNormal) {filename : String}
    (hhome : hasHome (Output.nameOf filename) ≠ true) :
    d.IsAbove (Output.path place d filename) := by
  have hnames : ofString (expandHome place.home "\x00/\x00") = ⟨.relative, ["\x00", "\x00"]⟩ := by
    rw [expandHome_eq_self (by decide)]
    decide
  have hbelow : below place.cwd (below d ⟨.relative, ["\x00", "\x00"]⟩) =
      ⟨d.root, d.names ++ ["\x00", "\x00"]⟩ :=
    if_pos hd.isGrounded.absolute
  have hup : ∀ n ∈ d.names ++ ["\x00", "\x00"], n ≠ ".." := by
    intro n hn
    rcases List.mem_append.1 hn with hn | hn
    · exact (hd.2 n hn).1
    · rcases List.mem_pair.1 hn with rfl | rfl <;> decide
  unfold Output.path absolute
  rw [if_neg hhome]
  simp only [hnames, hbelow, normalNames_eq_self hup]
  exact ⟨rfl, List.prefix_append _ _, by simp⟩

/-- An output file lies in the output directory if and only if its filename stays there. -/
theorem isAbove_output_iff (hd : d.IsNormal) {filename : String}
    (hhome : hasHome (Output.nameOf filename) = true) :
    d.IsAbove (Output.path place d filename) ↔ StaysIn place d filename := by
  rw [output_eq_below hd hhome, staysIn_iff, below]
  cases hroot : (ofFilename place filename).isAbsolute with
  | true => simp
  | false =>
    simp only [Bool.false_eq_true, if_false, true_and, false_and, or_false]
    rw [normalNames_append fun n hn => (hd.2 n hn).1, Route.staysIn_iff]
    exact ⟨fun h => ⟨h.names, h.ne⟩, fun h => ⟨rfl, h.1, h.2⟩⟩

/-- A filename without a home mark names a path below the output directory. -/
theorem ofFilename_eq {filename : String}
    (h : (Address.relativeName filename.toList).head? ≠ some '~') :
    ofFilename place filename = ⟨.relative, namesOf (Address.relativeName filename.toList)⟩ := by
  have hhead : (Address.relativeName filename.toList).head? ≠ some '/' := by
    have hall :=
      List.head?_dropWhile_not (· == '/')
        (filename.toList.map fun c => if c == '\\' then '/' else c)
    intro hslash
    unfold Address.relativeName at hslash
    rw [hslash] at hall
    exact absurd hall (by simp)
  have hroot : rootOf (Address.relativeName filename.toList) = .relative := by
    generalize Address.relativeName filename.toList = s at hhead
    unfold rootOf
    split <;> simp_all
  unfold ofFilename Output.nameOf
  rw [expandHome_eq_self (by rwa [String.toList_ofList]), ofString, String.toList_ofList, hroot]

/-- A filename without a home mark stays in every directory if its names never lead up and end
below. -/
theorem staysIn_of_route {filename : String}
    (hhome : (Address.relativeName filename.toList).head? ≠ some '~')
    (hup : (route (namesOf (Address.relativeName filename.toList))).up = 0)
    (hdown : (route (namesOf (Address.relativeName filename.toList))).down ≠ []) (d : Path) :
    StaysIn place d filename := by
  refine .route (by rw [ofFilename_eq hhome]; rfl) ?_
  rw [ofFilename_eq hhome]
  refine ⟨?_, ?_⟩
  · rw [hup, Nat.sub_zero, List.drop_length]
    exact List.nil_prefix
  · rwa [hup, Nat.sub_zero, List.drop_length]

end Path

end StaticSite
