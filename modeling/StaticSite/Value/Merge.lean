import StaticSite.Value.Basic

/-!
# Merging mappings

A mapping laid over another: mappings merge key by key, every other value of the upper one replaces
what is below it, lists included. The keys of the lower mapping keep their order and new keys
follow.
-/

namespace StaticSite

mutual

/-- The value at a key after `upper` was laid over what was there. -/
def Value.laidOver (lower : Option Value) (upper : Value) : Value :=
  match lower, upper with
  | some (.mapping below), .mapping above => .mapping (Mapping.merge below above)
  | _, upper => upper
termination_by structural upper

/-- The mapping `lower` with `upper` laid over it. -/
def Mapping.merge (lower : Mapping) (upper : List (Value × Value)) : Mapping :=
  match upper with
  | [] => lower
  | (k, v) :: rest =>
      Mapping.merge (Mapping.set lower k (Value.laidOver (Mapping.get? lower k) v)) rest
termination_by structural upper

end

/-- Laying an empty mapping over another changes nothing. -/
@[simp] theorem Mapping.merge_nil (lower : Mapping) : Mapping.merge lower [] = lower := by
  rw [Mapping.merge]

mutual

/-- How many lists and mappings lie in one another in a value. -/
def Value.levels : Value → Nat
  | .list items => levelsOfList items + 1
  | .mapping entries => levelsOfEntries entries + 1
  | _ => 0

/-- How many lists and mappings lie in one another in the members of a list. -/
def levelsOfList : List Value → Nat
  | [] => 0
  | v :: rest => max v.levels (levelsOfList rest)

/-- How many lists and mappings lie in one another in the values of a mapping. -/
def levelsOfEntries : List (Value × Value) → Nat
  | [] => 0
  | (_, v) :: rest => max v.levels (levelsOfEntries rest)

end

mutual

/-- A value with every day and moment in it written as text, but for what tuples and sets hold. -/
def Value.withDatesAsText : Value → Value
  | .day d => .text d.iso
  | .moment m => .text (m.iso "T")
  | .list items => .list (withDatesAsTextList items)
  | .mapping entries => .mapping (withDatesAsTextEntries entries)
  | v => v

/-- The members of a list with every day and moment in them written as text, but for what tuples and
sets hold. -/
def withDatesAsTextList : List Value → List Value
  | [] => []
  | v :: rest => v.withDatesAsText :: withDatesAsTextList rest

/-- The entries of a mapping with every day and moment in their values written as text, but for what
tuples and sets hold. Keys stay. -/
def withDatesAsTextEntries : List (Value × Value) → List (Value × Value)
  | [] => []
  | (k, v) :: rest => (k, v.withDatesAsText) :: withDatesAsTextEntries rest

end

end StaticSite
