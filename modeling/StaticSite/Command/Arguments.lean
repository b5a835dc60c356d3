import StaticSite.Text.Search
import StaticSite.Text.Digit

/-!
# Command-line arguments

A command line consists of options and words. An option may be shortened as long as it stays unique,
may have its value behind `=`, and single letters may share one hyphen; after `--` all is words.
What a parser allows is written down as a `Spec`, and `Spec.read` reads arguments by it.
-/

namespace StaticSite.Command

/-- What an option does. -/
inductive OptionKind where
  /-- Shows how to call the program. -/
  | help
  /-- Shows the version of the program. -/
  | version
  /-- Switches something on. -/
  | switch
  /-- Gives something a value, one of `choices` if there are any. -/
  | value (choices : Option (List String))
deriving DecidableEq, Repr

/-- An option. -/
structure OptionSpec where
  /-- The name of what it sets. -/
  name : String
  /-- The texts it is written as. -/
  flags : List String
  /-- What it does. -/
  kind : OptionKind
deriving DecidableEq, Repr

/-- The words that a parser takes. -/
inductive Words where
  /-- None. -/
  | none
  /-- One. -/
  | one
  /-- One or none. -/
  | optional
  /-- One or more. -/
  | many
  /-- A command, which takes all that follows, or none. -/
  | command
deriving DecidableEq, Repr

/-- What a parser allows. -/
structure Spec where
  /-- The options. -/
  options : List OptionSpec
  /-- The words. -/
  words : Words
deriving DecidableEq, Repr

/-- Why arguments are not read to their end. -/
inductive Stop where
  /-- The caller wants to know how to call the program. -/
  | help
  /-- The caller wants to know the version of the program. -/
  | version
  /-- The arguments cannot be used. -/
  | misuse
deriving DecidableEq, Repr

/-- What arguments say. -/
structure Given where
  /-- The switches that are on. -/
  switches : List String
  /-- The values, the last one of a name first. -/
  values : List (String × String)
  /-- The words, if any were taken. -/
  words : Option (List String)
  /-- Whether there are arguments that no one takes. -/
  hasExcess : Bool
deriving Repr

/-- What an argument is. -/
inductive Mark where
  /-- A word. -/
  | word (s : String)
  /-- The mark after which all is words. -/
  | dashes
  /-- An option, with the value joined to it. -/
  | option (o : OptionSpec) (joined : Option String)
  /-- An option given by its letter, with the characters after it. -/
  | letters (o : OptionSpec) (rest : List Char)
  /-- An option that the parser does not know. -/
  | unknown

namespace Mark

/-- The text of a word or of the mark before words. -/
def text? : Mark → Option String
  | word s => some s
  | dashes => some "--"
  | _ => none

/-- Whether this is the mark before words. -/
def isDashes : Mark → Bool
  | dashes => true
  | _ => false

end Mark

namespace Spec

/-- The option that is written as a text. -/
def find? (spec : Spec) (flag : String) : Option OptionSpec :=
  spec.options.find? (·.flags.contains flag)

/-- The options with a text that begins with `start`, once for each such text. -/
def completions (spec : Spec) (start : List Char) : List (OptionSpec × String) :=
  spec.options.flatMap fun o =>
    (o.flags.filter fun flag => start.isPrefixOf flag.toList).map fun flag => (o, flag)

/-- A text up to its first `=`, and what follows. -/
def cutValue (s : List Char) : List Char × Option String :=
  match Text.cut? ['='] s with
  | some (flag, value) => (flag, some (String.ofList value))
  | none => (s, none)

/-- The options that an argument may mean by a shortened text or by its letters. -/
def candidates (spec : Spec) (s : List Char) : List Mark :=
  match s with
  | '-' :: '-' :: _ =>
    let (start, value) := cutValue s
    (spec.completions start).map fun (o, _) => .option o value
  | '-' :: c :: rest =>
    let short := String.ofList ['-', c]
    let letter := match spec.find? short with
      | some o => [.letters o rest]
      | none => []
    letter ++ ((spec.completions s).filter fun (_, flag) => flag != short).map fun (o, _) =>
      .option o none
  | _ => []

/-- Whether a text is a number below zero. -/
def isNegative (s : List Char) : Bool :=
  match s with
  | '-' :: rest =>
    match Text.cut? ['.'] rest with
    | none => !rest.isEmpty && rest.all Text.isDecimal
    | some (whole, fraction) =>
      whole.all Text.isDecimal && !fraction.isEmpty && fraction.all Text.isDecimal
  | _ => false

/-- What an argument is, unless it may mean several options. -/
def mark (spec : Spec) (arg : String) : Except Stop Mark :=
  let s := arg.toList
  if s.head? != some '-' then .ok (.word arg)
  else
    match spec.find? arg with
    | some o => .ok (.option o none)
    | none =>
      if s.length == 1 then .ok (.word arg)
      else
        let (flag, value) := cutValue s
        match if value.isSome then spec.find? (String.ofList flag) else none with
        | some o => .ok (if flag.length == 2 then .letters o (s.drop 2) else .option o value)
        | none =>
          match spec.candidates s with
          | [m] => .ok m
          | [] => .ok (if isNegative s || s.contains ' ' then .word arg else .unknown)
          | _ => .error .misuse

/-- What arguments are. -/
def marks (spec : Spec) : List String → Except Stop (List Mark)
  | [] => .ok []
  | arg :: rest =>
    if arg == "--" then .ok (.dashes :: rest.map .word)
    else do
      let m ← spec.mark arg
      return m :: (← spec.marks rest)

/-- The number of arguments that the words of a parser take of the words and dashes at the front. -/
def wordCount (words : Words) (leading : List Mark) : Nat :=
  let dashes := (leading.takeWhile (·.isDashes)).length
  let after := leading.drop dashes
  let trailing := ((after.drop 1).takeWhile (·.isDashes)).length
  match words, after with
  | .none, _ | .command, _ => 0
  | .one, [] => 0
  | .one, _ :: _ => dashes + 1 + trailing
  | .optional, [] => dashes
  | .optional, _ :: _ => dashes + 1 + trailing
  | .many, [] => 0
  | .many, _ :: _ => leading.length

/-- Lets an option do what it does. -/
def act (o : OptionSpec) (value : Option String) (g : Given) : Except Stop Given :=
  match o.kind, value with
  | .help, _ => .error .help
  | .version, _ => .error .version
  | .switch, _ => .ok { g with switches := o.name :: g.switches }
  | .value choices, some v =>
    if choices.all (·.contains v) then .ok { g with values := (o.name, v) :: g.values }
    else .error .misuse
  | .value _, none => .error .misuse

/-- Whether an option takes a value. -/
def takesValue (o : OptionSpec) : Bool :=
  match o.kind with
  | .value _ => true
  | _ => false

/-- The options that share one hyphen, given by their letters: an option that takes a value takes
the rest as its value, any other leaves it to the next letter. The answer tells also whether all
letters are known. -/
def shared (spec : Spec) (o : OptionSpec) : (rest : List Char) →
    Except Stop (List (OptionSpec × Option String) × Bool)
  | [] => if takesValue o then .error .misuse else .ok ([(o, none)], true)
  | c :: rest =>
    if takesValue o then .ok
      ([(o, some (String.ofList (if c == '=' then rest else c :: rest)))], true)
    else if c == '=' || c == '-' then .error .misuse
    else
      match spec.find? (String.ofList ['-', c]) with
      | none => .ok ([(o, none)], false)
      | some next => do
        let (more, isKnown) ← spec.shared next rest
        return ((o, none) :: more, isKnown)

/-- Reads arguments from left to right. For a command the answer holds it and all that follows. -/
def readMarks (spec : Spec) : (fuel : Nat) → List Mark → List String → Given → Except Stop Given
  | 0, _, _, g => .ok g
  | _, [], _, g => .ok g
  | fuel + 1, m :: marks, args, g =>
    match m with
    | .unknown => readMarks spec fuel marks (args.drop 1) { g with hasExcess := true }
    | .option o (some value) => do
      if takesValue o then readMarks spec fuel marks (args.drop 1) (← act o (some value) g)
      else throw .misuse
    | .option o none => do
      if takesValue o then
        match marks with
        | .word value :: marks => readMarks spec fuel marks (args.drop 2) (← act o (some value) g)
        | _ => throw .misuse
      else readMarks spec fuel marks (args.drop 1) (← act o none g)
    | .letters o rest => do
      let (options, isKnown) ← spec.shared o rest
      let g ← options.foldlM (fun g e => act e.1 e.2 g) g
      readMarks spec fuel marks (args.drop 1) { g with hasExcess := g.hasExcess || !isKnown }
    | .word _ | .dashes =>
      let leading := (m :: marks).takeWhile (·.text?.isSome)
      if g.words.isSome then
        readMarks spec fuel ((m :: marks).drop leading.length) (args.drop leading.length)
          { g with hasExcess := true }
      else if spec.words = .command then .ok { g with words := some args }
      else
        let count := wordCount spec.words leading
        if count == 0 then
          readMarks spec fuel ((m :: marks).drop leading.length) (args.drop leading.length)
            { g with hasExcess := true }
        else
          readMarks spec fuel ((m :: marks).drop count) (args.drop count)
            { g with words := some (((leading.take count).filterMap (·.text?)).erase "--") }

/-- Reads arguments. -/
def read (spec : Spec) (args : List String) : Except Stop Given := do
  let marks ← spec.marks args
  let g ← readMarks spec (args.length + 1) marks args ⟨[], [], none, false⟩
  match spec.words with
  | .one | .many => if g.words.isNone then throw .misuse else return g
  | _ => return g

end Spec

end StaticSite.Command
