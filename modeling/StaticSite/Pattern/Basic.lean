import StaticSite.Text.Blank
import StaticSite.Text.Digit
import StaticSite.Text.Word

/-!
# Patterns

The patterns by which pages are kept out of the sitemap. A pattern is an expression over characters,
classes of characters, places in the text, sequence, choice and repetition. `Pattern.ends` gives the
places where a match that begins at a place can end, the preferred one first, and `Pattern.occursIn`
asks whether there is a match anywhere.
-/

namespace StaticSite

/-- The classes of characters that have an escape of their own. -/
inductive Category where
  /-- Decimal digits. -/
  | digit
  /-- Word characters. -/
  | word
  /-- Blanks. -/
  | blank
deriving DecidableEq, Repr

/-- Whether a character is of a class. -/
def Category.has : Category → Char → Bool
  | digit, c => Text.isDecimal c
  | word, c => Text.isWord c
  | blank, c => Text.isBlank c

/-- A member of a class of characters. -/
inductive ClassItem where
  /-- The characters from one to another. -/
  | range (first last : Char)
  /-- The characters of a class, or those outside it. -/
  | category (kind : Category) (inverted : Bool)
deriving DecidableEq, Repr

/-- Whether a character is covered by a member of a class. -/
def ClassItem.has : ClassItem → Char → Bool
  | range first last, c => first ≤ c && c ≤ last
  | category kind inverted, c => kind.has c != inverted

/-- A condition on a place in the text. -/
inductive Anchor where
  /-- The start of the text. -/
  | start
  /-- The end of the text, or the place before a line feed that ends it. -/
  | finish
  /-- The very end of the text. -/
  | veryEnd
  /-- A place between a word character and another, or a place that is none. -/
  | boundary (inverted : Bool)
deriving DecidableEq, Repr

/-- How a repetition chooses among the numbers of times it can match. -/
inductive Greed where
  /-- As often as possible first. -/
  | greedy
  /-- As rarely as possible first. -/
  | reluctant
  /-- As often as possible, once and for all. -/
  | possessive
deriving DecidableEq, Repr

/-- A pattern. -/
inductive Pattern where
  /-- The empty text. -/
  | empty
  /-- A character. -/
  | char (c : Char)
  /-- Any character but a line feed. -/
  | any
  /-- A character of a class, or one outside it. -/
  | oneOf (items : List ClassItem) (inverted : Bool)
  /-- The empty text at a place. -/
  | anchor (a : Anchor)
  /-- One pattern after the other. -/
  | seq (first second : Pattern)
  /-- One pattern or the other. -/
  | choice (first second : Pattern)
  /-- A pattern some number of times. -/
  | repeated (least : Nat) (most : Option Nat) (greed : Greed) (body : Pattern)
  /-- The empty text at a place where a pattern matches, or does not. -/
  | ahead (inverted : Bool) (body : Pattern)
  /-- The preferred match of a pattern, once and for all. -/
  | atomic (body : Pattern)
deriving Repr, Inhabited

namespace Pattern

/-- Whether the condition holds at a place of a text. -/
def holdsAt (text : Array Char) (place : Nat) : Anchor → Bool
  | .start => place == 0
  | .veryEnd => place == text.size
  | .finish => place == text.size || (place + 1 == text.size && text[place]? == some '\n')
  | .boundary inverted =>
    let before := if place == 0 then false else (text[place - 1]?).any Text.isWord
    let after := (text[place]?).any Text.isWord
    text.size != 0 && ((before != after) != inverted)

/-- The places a repetition can end at, given those of one more round: `rounds` have been made, and
a round that matches the empty text is the last. -/
def repeatEnds (round : Nat → List Nat) (least : Nat) (most : Option Nat) (greed : Greed) :
    (fuel rounds place : Nat) → List Nat
  | 0, _, place => [place]
  | fuel + 1, rounds, place =>
    let further :=
      if most.any (· ≤ rounds) then []
      else
        (round place).flatMap fun next =>
          if next == place then if rounds + 1 < least then repeatEnds round least most greed fuel
            (rounds + 1) place else [place]
          else repeatEnds round least most greed fuel (rounds + 1) next
    let here := if least ≤ rounds then [place] else []
    (match greed with
      | .reluctant => here ++ further
      | _ => further ++ here).eraseDups

/-- The places of a text where a match that begins at a place can end, the preferred one first. -/
def ends (text : Array Char) : Pattern → Nat → List Nat
  | .empty, place => [place]
  | .char c, place => if text[place]? == some c then [place + 1] else []
  | .any, place => if (text[place]?).any (· != '\n') then [place + 1] else []
  | .oneOf items inverted, place =>
    if (text[place]?).any fun c => (items.any fun i => i.has c) != inverted then [place + 1] else []
  | .anchor a, place => if holdsAt text place a then [place] else []
  | .seq first second, place => ((ends text first place).flatMap (ends text second)).eraseDups
  | .choice first second, place => (ends text first place ++ ends text second place).eraseDups
  | .repeated least most greed body, place =>
    let found := repeatEnds (ends text body) least most greed (text.size + least + 1) 0 place
    if greed == .possessive then found.take 1 else found
  | .ahead inverted body, place =>
      if (ends text body place).isEmpty == inverted then [place] else []
  | .atomic body, place => (ends text body place).take 1

/-- Whether a pattern matches anywhere in a text. -/
def occursIn (p : Pattern) (s : String) : Bool :=
  let text := s.toList.toArray
  (List.range (text.size + 1)).any fun place => !(ends text p place).isEmpty

end Pattern

end StaticSite
