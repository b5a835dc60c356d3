import StaticSite.Text.Range

/-!
# Blank characters

White space of every script, the separators U+001C to U+001F among it. `skipBlanks` drops a leading
run of it, `trim` drops it at both ends, and `collapseBlanks` turns every run into one space.
-/

namespace StaticSite.Text

/-- The blank characters, as ascending ranges. -/
def blankRanges : List (Nat × Nat) :=
  [(0x09, 0x0D), (0x1C, 0x20), (0x85, 0x85), (0xA0, 0xA0), (0x1680, 0x1680), (0x2000, 0x200A),
    (0x2028, 0x2029), (0x202F, 0x202F), (0x205F, 0x205F), (0x3000, 0x3000)]

/-- A blank character: white space of any script. -/
def isBlank (c : Char) : Bool := inRanges blankRanges c.toNat

/-- A space is blank. -/
@[simp] theorem isBlank_space : isBlank ' ' = true := rfl

/-- The end of a line is blank. -/
@[simp] theorem isBlank_newline : isBlank '\n' = true := rfl

/-- The text without its leading blanks. -/
def skipBlanks (s : List Char) : List Char := s.dropWhile isBlank

/-- A text without the blanks at its start is no longer. -/
theorem length_skipBlanks_le (s : List Char) : (skipBlanks s).length ≤ s.length :=
  (List.dropWhile_sublist isBlank).length_le

/-- The text without its trailing blanks. -/
def dropTrailingBlanks (s : List Char) : List Char := (skipBlanks s.reverse).reverse

/-- The text without the blanks at its ends. -/
def trim (s : List Char) : List Char := dropTrailingBlanks (skipBlanks s)

/-- The text with every run of blanks turned into one space; `inRun` tells that a run is open. -/
def collapseFrom (inRun : Bool) : List Char → List Char
  | [] => []
  | c :: rest =>
    if isBlank c then if inRun then collapseFrom true rest else ' ' :: collapseFrom true rest
    else c :: collapseFrom false rest

/-- The text with every run of blanks turned into one space. -/
def collapseBlanks (s : List Char) : List Char := collapseFrom false s

/-- A string without the blanks at its ends. -/
def trimString (s : String) : String := String.ofList (trim s.toList)

end StaticSite.Text
