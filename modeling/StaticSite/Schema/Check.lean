import StaticSite.Config.Libraries
import StaticSite.Schema.Basic

/-!
# Checking values

What a value violates of a schema: a list of places in the value with a message for each, in the
order of the rules and of the value. A message shows values, which fails for a whole number of too
many digits (`tells`).
-/

namespace StaticSite

/-- A violation within a member of a value. -/
def Config.Violation.within (key : Value) (v : Violation) : Violation :=
  { v with place := key :: v.place }

namespace Schema

open Config (Violation)

/-- The one violation of a value, if a condition fails. -/
def orSay (holds : Bool) (message : String) : List Violation :=
  if holds then [] else [⟨[], message⟩]

mutual

/-- What a value violates of a rule. `named` are the keys that the schema of the rule names. -/
def ruleViolations (named : List String) (v : Value) : Rule → List Violation
  | .shapes l =>
    orSay (l.any (·.has v))
      (v.shown ++ " is not of type " ++ ", ".intercalate (l.map fun s => Text.quoted s.name))
  | .oneOfTexts l =>
    orSay (l.any fun t => v.sameKey (.text t)) (v.shown ++ " is not one of " ++ (texts l).shown)
  | .required l =>
    match v with
    | .mapping entries =>
      l.flatMap fun key =>
        orSay (Mapping.find? entries key).isSome (Text.quoted key ++ " is a required property")
    | _ => []
  | .properties fields =>
    match v with
    | .mapping entries => fieldViolations entries fields
    | _ => []
  | .others s =>
    match v with
    | .mapping entries =>
      (otherEntries named entries).flatMap fun (key, member) =>
        (rulesViolations (namedKeys s) member s).map (·.within key)
    | _ => []
  | .noOthers =>
    match v with
    | .mapping entries =>
      let others := (otherEntries named entries).map fun e => e.1
      let sorted := others.mergeSort fun a b => !(b.display < a.display)
      orSay others.isEmpty ("Additional properties are not allowed (" ++
        ", ".intercalate (sorted.map Value.shown) ++
          (if others.length == 1 then " was" else " were") ++
        " unexpected)")
    | _ => []
  | .items s =>
    match v with
    | .list members =>
      (members.zipIdx).flatMap fun (member, i) =>
        (rulesViolations (namedKeys s) member s).map (·.within (.int i))
    | _ => []
  | .leastLength n =>
    match v with
    | .text t =>
      orSay (n ≤ t.length) (v.shown ++ (if n == 1 then " should be non-empty" else " is too short"))
    | _ => []
  | .least n => orSay (!isBelow n v) (v.shown ++ " is less than the minimum of " ++ toString n)
  | .exactlyOne choices =>
    match satisfied v choices with
    | [] => [⟨[], v.shown ++ " is not valid under any of the given schemas"⟩]
    | [_] => []
    | first :: more =>
      [⟨[], v.shown ++ " is valid under each of " ++ ", ".intercalate (more ++ [first])⟩]
  | .never s =>
    orSay (!(rulesViolations (namedKeys s) v s).isEmpty)
      (v.shown ++ " should not be valid under " ++ (Value.mapping (entriesOf s)).shown)
  | .shared _ s => rulesViolations (namedKeys s) v s
  | .note _ _ => []

/-- What a value violates of some rules of a schema. -/
def rulesViolations (named : List String) (v : Value) : List Rule → List Violation
  | [] => []
  | r :: rest => ruleViolations named v r ++ rulesViolations named v rest

/-- What the values of keys violate of the schemas for them. -/
def fieldViolations (entries : Mapping) : List (String × List Rule) → List Violation
  | [] => []
  | (key, s) :: rest =>
    match Mapping.find? entries key with
    | some member => (rulesViolations (namedKeys s) member s).map (·.within (.text key)) ++
      fieldViolations entries rest
    | none => fieldViolations entries rest

/-- The texts of those of some schemas that a value satisfies. -/
def satisfied (v : Value) : List (List Rule) → List String
  | [] => []
  | s :: rest =>
    if (rulesViolations (namedKeys s) v s).isEmpty then (Value.mapping (entriesOf s)).shown ::
      satisfied v rest
    else satisfied v rest

end

mutual

/-- Whether everything that is to be said of a value and a rule can be written: a value is shown
where it violates the rule. -/
def ruleTells (named : List String) (v : Value) : Rule → Bool
  | .shapes l => l.any (·.has v) || v.isWritable
  | .oneOfTexts l => (l.any fun t => v.sameKey (.text t)) || v.isWritable
  | .required _ => true
  | .properties fields =>
    match v with
    | .mapping entries => fieldsTell entries fields
    | _ => true
  | .others s =>
    match v with
    | .mapping entries =>
      (otherEntries named entries).all fun e => rulesTell (namedKeys s) e.2 s
    | _ => true
  | .noOthers =>
    match v with
    | .mapping entries => (otherEntries named entries).all fun e => e.1.isWritable
    | _ => true
  | .items s =>
    match v with
    | .list members => members.all fun member => rulesTell (namedKeys s) member s
    | _ => true
  | .leastLength _ => true
  | .least n => !isBelow n v || v.isWritable
  -- A choice is tried even if another one is satisfied.
  | .exactlyOne choices =>
      choicesTell v choices && ((satisfied v choices).length == 1 || v.isWritable)
  | .never s =>
      rulesTell (namedKeys s) v s && (!(rulesViolations (namedKeys s) v s).isEmpty || v.isWritable)
  | .shared _ s => rulesTell (namedKeys s) v s
  | .note _ _ => true

/-- Whether everything that is to be said of a value and some rules of a schema can be written. -/
def rulesTell (named : List String) (v : Value) : List Rule → Bool
  | [] => true
  | r :: rest => ruleTells named v r && rulesTell named v rest

/-- Whether everything that is to be said of the values of keys and the schemas for them can be
written. -/
def fieldsTell (entries : Mapping) : List (String × List Rule) → Bool
  | [] => true
  | (key, s) :: rest =>
    match Mapping.find? entries key with
    | some member => rulesTell (namedKeys s) member s && fieldsTell entries rest
    | none => fieldsTell entries rest

/-- Whether everything that is to be said of a value and some schemas can be written. -/
def choicesTell (v : Value) : List (List Rule) → Bool
  | [] => true
  | s :: rest => rulesTell (namedKeys s) v s && choicesTell v rest

end

/-- What a value violates of a schema. -/
def violations (v : Value) (s : List Rule) : List Violation := rulesViolations (namedKeys s) v s

/-- What a value violates of a schema, if everything that is to be said of it can be written. -/
def check (s : Schema) (v : Value) : Except Fault (List Violation) :=
  if rulesTell (namedKeys s) v s then .ok (violations v s) else .error .unwritableNumber

end Schema

end StaticSite
