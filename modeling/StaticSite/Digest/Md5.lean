import StaticSite.Text.Hex

/-!
# The MD5 digest

The digest by which a stylesheet's name follows its content. The message is padded to blocks of 64
bytes with its length at the end, and each block of sixteen little-endian words is mixed into a
state of four words by 64 steps.
-/

namespace StaticSite.Md5

/-- The words added in the steps: the integral parts of `2 ^ 32 * |sin (i + 1)|`. -/
def sines : Array UInt32 := #[
  0xD76AA478, 0xE8C7B756, 0x242070DB, 0xC1BDCEEE, 0xF57C0FAF, 0x4787C62A, 0xA8304613, 0xFD469501,
  0x698098D8, 0x8B44F7AF, 0xFFFF5BB1, 0x895CD7BE, 0x6B901122, 0xFD987193, 0xA679438E, 0x49B40821,
  0xF61E2562, 0xC040B340, 0x265E5A51, 0xE9B6C7AA, 0xD62F105D, 0x02441453, 0xD8A1E681, 0xE7D3FBC8,
  0x21E1CDE6, 0xC33707D6, 0xF4D50D87, 0x455A14ED, 0xA9E3E905, 0xFCEFA3F8, 0x676F02D9, 0x8D2A4C8A,
  0xFFFA3942, 0x8771F681, 0x6D9D6122, 0xFDE5380C, 0xA4BEEA44, 0x4BDECFA9, 0xF6BB4B60, 0xBEBFBC70,
  0x289B7EC6, 0xEAA127FA, 0xD4EF3085, 0x04881D05, 0xD9D4D039, 0xE6DB99E5, 0x1FA27CF8, 0xC4AC5665,
  0xF4292244, 0x432AFF97, 0xAB9423A7, 0xFC93A039, 0x655B59C3, 0x8F0CCC92, 0xFFEFF47D, 0x85845DD1,
  0x6FA87E4F, 0xFE2CE6E0, 0xA3014314, 0x4E0811A1, 0xF7537E82, 0xBD3AF235, 0x2AD7D2BB, 0xEB86D391]

/-- The distances of the rotations, four for each round of sixteen steps. -/
def rotations : Array UInt32 := #[7, 12, 17, 22, 5, 9, 14, 20, 4, 11, 16, 23, 6, 10, 15, 21]

/-- The state of the digest. -/
structure State where
  /-- The first word. -/
  a : UInt32
  /-- The second word. -/
  b : UInt32
  /-- The third word. -/
  c : UInt32
  /-- The fourth word. -/
  d : UInt32
deriving DecidableEq, Repr

/-- The state before the first block. -/
def State.initial : State := ⟨0x67452301, 0xEFCDAB89, 0x98BADCFE, 0x10325476⟩

/-- A word rotated to the left. -/
def rotate (x n : UInt32) : UInt32 := (x <<< n) ||| (x >>> (32 - n))

/-- Step `i` of the mixing of a block. -/
def step (block : Array UInt32) (s : State) (i : Nat) : State :=
  let (mixed, k) : UInt32 × Nat :=
    if i < 16 then ((s.b &&& s.c) ||| (~~~s.b &&& s.d), i)
    else if i < 32 then ((s.d &&& s.b) ||| (~~~s.d &&& s.c), (5 * i + 1) % 16)
    else if i < 48 then (s.b ^^^ s.c ^^^ s.d, (3 * i + 5) % 16)
    else (s.c ^^^ (s.b ||| ~~~s.d), 7 * i % 16)
  let sum := s.a + mixed + sines.getD i 0 + block.getD k 0
  ⟨s.d, s.b + rotate sum (rotations.getD (i / 16 * 4 + i % 4) 0), s.b, s.c⟩

/-- Mixes a block into the state. -/
def mix (s : State) (block : Array UInt32) : State :=
  let t := (List.range 64).foldl (step block) s
  ⟨s.a + t.a, s.b + t.b, s.c + t.c, s.d + t.d⟩

/-- The words that bytes make up, the lowest byte of a word first. -/
def words : List UInt8 → List UInt32
  | a :: b :: c :: d :: rest =>
    (a.toUInt32 ||| b.toUInt32 <<< 8 ||| c.toUInt32 <<< 16 ||| d.toUInt32 <<< 24) :: words rest
  | _ => []

/-- The lowest `count` bytes of a number, the lowest first. -/
def littleEndian : (count : Nat) → Nat → List UInt8
  | 0, _ => []
  | count + 1, n => UInt8.ofNat (n % 256) :: littleEndian count (n / 256)

/-- The message with a mark, zeros, and its length in bits. -/
def pad (message : List UInt8) : List UInt8 :=
  let n := message.length
  message ++ 0x80 :: List.replicate ((119 - n % 64) % 64) 0 ++ littleEndian 8 (8 * n)

/-- The blocks of sixteen words, `fuel` of them at most. -/
def blocks : (fuel : Nat) → List UInt32 → List (Array UInt32)
  | 0, _ => []
  | fuel + 1, ws => if ws.isEmpty then [] else (ws.take 16).toArray :: blocks fuel (ws.drop 16)

/-- The digest of some bytes in base sixteen. -/
def digest (bytes : ByteArray) : String :=
  let ws := words (pad bytes.toList)
  let s := (blocks ws.length ws).foldl mix .initial
  let out := [s.a, s.b, s.c, s.d].flatMap fun w => littleEndian 4 w.toNat
  String.ofList (out.flatMap fun b => Text.hex 2 b.toNat)

end StaticSite.Md5
