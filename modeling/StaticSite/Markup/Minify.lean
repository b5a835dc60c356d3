import StaticSite.Value.Basic
import StaticSite.Text.Blank
import StaticSite.Text.Letter
import StaticSite.Text.Search
import StaticSite.Text.Word

/-!
# Minifying pages

A page is cut into markup and protected elements, whose content stays as it is. In markup, comments
go, the document type becomes short, type attributes that say what is understood anyway go, and
blanks collapse, each as an option says; in a protected element only such attributes go. `pieces` is
the cut and `minify` the whole.
-/

namespace StaticSite.Markup

/-- The elements whose content is protected. -/
def protectedNames : List (List Char) :=
  ["pre".toList, "textarea".toList, "script".toList, "style".toList]

/-- The rest of a text after a whole word in either case: no word character follows. -/
def afterWord? (word s : List Char) : Option (List Char) :=
  (Text.afterLetters? word s).filter fun rest => !rest.head?.any Text.isWord

/-- The rest of a text that begins with the lower-case form of `lead`, letter by letter. -/
def afterLowered? : (lead : List Char) → List Char → Option (List Char)
  | [], s => some s
  | _ :: _, [] => none
  | l :: lead, c :: s => if Text.lower l == Text.lower c then afterLowered? lead s else none

/-- The text after the first closing tag of an element. -/
def afterClosing? (name : List Char) : List Char → Option (List Char)
  | [] => none
  | c :: s =>
    let here? : Option (List Char) :=
      (Text.after? ['<', '/'] (c :: s)).bind fun rest =>
        (afterLowered? name rest).bind fun rest =>
          match Text.skipBlanks rest with
          | '>' :: rest => some rest
          | _ => none
    match here? with
    | some rest => some rest
    | none => afterClosing? name s

/-- The text after the protected element at the front of a text. -/
def afterProtected? (s : List Char) : Option (List Char) :=
  match s with
  | '<' :: s =>
    protectedNames.findSome? fun name =>
      (afterWord? name s).bind fun rest => afterClosing? (s.take name.length) rest
  | _ => none

/-- A part of a page. -/
inductive Piece where
  /-- Markup. -/
  | markup (s : List Char)
  /-- A protected element. -/
  | element (s : List Char)
deriving DecidableEq, Repr

/-- Puts a character in front of the markup that pieces begin with. -/
def Piece.prepend (c : Char) : List Piece → List Piece
  | markup s :: rest => markup (c :: s) :: rest
  | rest => markup [c] :: rest

/-- The parts of a page, less the first `skip` characters, which belong to an element. Markup and
elements take turns, and markup comes first and last. -/
def piecesFrom : (skip : Nat) → List Char → List Piece
  | _, [] => [.markup []]
  | skip + 1, _ :: s => piecesFrom skip s
  | 0, c :: s =>
    match afterProtected? (c :: s) with
    | none => Piece.prepend c (piecesFrom 0 s)
    | some rest =>
      let width := (c :: s).length - rest.length
      .markup [] :: .element ((c :: s).take width) :: piecesFrom (width - 1) s

/-- The parts of a page. -/
def pieces (s : List Char) : List Piece := piecesFrom 0 s

/-- A text with its parts replaced from the left. `rule` gives what stands for the front of a text,
and how many characters it stands for, which are at least one; the first `skip` characters were
replaced before. -/
def substituteFrom (rule : List Char → Option (List Char × Nat)) :
    (skip : Nat) → List Char → List Char
  | _, [] => []
  | skip + 1, _ :: s => substituteFrom rule skip s
  | 0, c :: s =>
    match rule (c :: s) with
    | some (new, width) => new ++ substituteFrom rule (width - 1) s
    | none => c :: substituteFrom rule 0 s

/-- A text with its parts replaced from the left. -/
def substitute (rule : List Char → Option (List Char × Nat)) (s : List Char) : List Char :=
  substituteFrom rule 0 s

/-- A comment goes, unless it is conditional or marked to stay. -/
def commentRule (s : List Char) : Option (List Char × Nat) :=
  (Text.after? "<!--".toList s).bind fun rest =>
    if "[if".toList.isPrefixOf rest || "!".toList.isPrefixOf rest ||
      "<!".toList.isPrefixOf rest then none
    else (Text.cut? "-->".toList rest).map fun (_, after) => ([], s.length - after.length)

/-- The document type becomes short. -/
def doctypeRule (s : List Char) : Option (List Char × Nat) :=
  (Text.afterLetters? "<!doctype".toList s).bind fun rest =>
    match rest.dropWhile (· != '>') with
    | _ :: after => some ("<!DOCTYPE html>".toList, s.length - after.length)
    | [] => none

/-- Blanks between two tags go. -/
def gapRule (s : List Char) : Option (List Char × Nat) :=
  match s with
  | '>' :: rest =>
    match rest.takeWhile Text.isBlank, Text.skipBlanks rest with
    | _ :: _, '<' :: after => some (['>', '<'], s.length - after.length)
    | _, _ => none
  | _ => none

/-- The slash at the end of a tag goes, with the blanks before it. -/
def slashRule (s : List Char) : Option (List Char × Nat) :=
  (Text.after? ['/', '>'] (Text.skipBlanks s)).map fun after => (['>'], s.length - after.length)

/-- A text after the quote that may stand at its front. -/
def afterQuote : List Char → List Char
  | '"' :: rest => rest
  | c :: rest => if c == '\'' then rest else c :: rest
  | [] => []

/-- The text after a type attribute at the front of a text, with the blanks before it, if its value
is one of some. -/
def afterType? (values : List (List Char)) (s : List Char) : Option (List Char) :=
  if !s.head?.any Text.isBlank then none
  else
    (Text.afterLetters? "type".toList (Text.skipBlanks s)).bind fun rest =>
      match Text.skipBlanks rest with
      | '=' :: rest =>
        let rest := afterQuote (Text.skipBlanks rest)
        values.findSome? fun value => (Text.afterLetters? value rest).map afterQuote
      | _ => none

/-- The first type attribute within a tag whose value is one of some: what stands before it in the
tag, and what stands after it. -/
def cutType? (values : List (List Char)) : List Char → Option (List Char × List Char)
  | [] => none
  | c :: s =>
    match afterType? values (c :: s) with
    | some after => some ([], after)
    | none => if c == '>' then none else (cutType? values s).map fun (before, after) =>
        (c :: before, after)

/-- A type attribute of a tag goes if its value is one of some. -/
def typeRule (names values : List (List Char)) (s : List Char) : Option (List Char × Nat) :=
  match s with
  | '<' :: rest =>
    names.findSome? fun name =>
      (afterWord? name rest).bind fun inside =>
        (cutType? values inside).map fun (before, after) =>
          (s.take (s.length - inside.length) ++ before, s.length - after.length)
  | _ => none

/-- The type attribute of a script goes if it names the usual language. -/
def scriptTypeRule : List Char → Option (List Char × Nat) :=
  typeRule ["script".toList] ["text/javascript".toList, "application/javascript".toList]

/-- The type attribute of a style or link goes if it names the usual language. -/
def styleTypeRule : List Char → Option (List Char × Nat) :=
  typeRule ["style".toList, "link".toList] ["text/css".toList]

/-- Whether an option is on. -/
def isOn (options : Mapping) (name : String) : Bool := (options.find? name).any Value.isTruthy

/-- The options for minifying, as far as they are understood. -/
structure MinifyOptions where
  /-- Comments go. -/
  comments : Bool
  /-- Blanks collapse. -/
  blanks : Bool
  /-- The slash at the end of a tag goes. -/
  slashes : Bool
  /-- The document type becomes short. -/
  doctype : Bool
  /-- Type attributes of scripts go. -/
  scriptTypes : Bool
  /-- Type attributes of styles and links go. -/
  styleTypes : Bool
deriving DecidableEq, Repr

/-- The options in a mapping. The slash at the end of a tag goes only if keeping it is switched
off. -/
def MinifyOptions.ofMapping (m : Mapping) : MinifyOptions where
  comments := isOn m "remove_comments"
  blanks := isOn m "collapse_whitespace"
  slashes := (m.find? "keep_closing_slash").any fun v => !v.isTruthy
  doctype := isOn m "use_short_doctype"
  scriptTypes := isOn m "remove_script_type_attributes"
  styleTypes := isOn m "remove_style_link_type_attributes"

/-- Applies a step if it is switched on. -/
def step (on : Bool) (f : List Char → List Char) (s : List Char) : List Char :=
  if on then f s else s

/-- Minifies markup. -/
def minifyMarkup (o : MinifyOptions) (s : List Char) : List Char :=
  let s := step o.comments (substitute commentRule) s
  let s := step o.doctype (substitute doctypeRule) s
  let s := step o.styleTypes (substitute styleTypeRule) s
  let s := step o.blanks (fun s => Text.collapseBlanks (substitute gapRule s)) s
  step o.slashes (substitute slashRule) s

/-- Minifies a protected element. -/
def minifyElement (o : MinifyOptions) (s : List Char) : List Char :=
  let s := step o.scriptTypes (substitute scriptTypeRule) s
  step o.styleTypes (substitute styleTypeRule) s

/-- Minifies a part of a page. -/
def Piece.minify (o : MinifyOptions) : Piece → List Char
  | markup s => minifyMarkup o s
  | element s => minifyElement o s

/-- Minifies a page. -/
def minify (o : MinifyOptions) (s : List Char) : List Char :=
  step o.blanks Text.trim ((pieces s).flatMap (Piece.minify o))

end StaticSite.Markup
