/-
# SHA-1

The hash of FIPS 180-4: the message is padded to blocks of 64 bytes, and each block is mixed into
five words in eighty rounds.

* `digest` is the hash, as twenty bytes.
-/

namespace Ownership.Sha1

/-! ## 1. Padding -/

/-- A number as eight bytes, the highest first. -/
def lengthBytes (n : Nat) : List UInt8 :=
  (List.range 8).map fun i => UInt8.ofNat (n >>> (8 * (7 - i)))

/-- How many zeros stand between the closing bit and the length. -/
def paddingZeros (size : Nat) : Nat := (119 - size % 64) % 64

/-- The message with a closing bit, zeros, and its length in bits. -/
def pad (message : ByteArray) : ByteArray :=
  let tail := 0x80 :: List.replicate (paddingZeros message.size) 0 ++ lengthBytes (8 * message.size)
  tail.foldl ByteArray.push message

/-! ## 2. One block -/

/-- The byte at a place, zero beyond the end. -/
def byteAt (bytes : ByteArray) (i : Nat) : UInt8 := if h : i < bytes.size then bytes[i] else 0

/-- Four bytes as a word, the highest first. -/
def wordAt (bytes : ByteArray) (i : Nat) : UInt32 :=
  ((byteAt bytes i).toUInt32 <<< 24) ||| ((byteAt bytes (i + 1)).toUInt32 <<< 16) |||
    ((byteAt bytes (i + 2)).toUInt32 <<< 8) ||| (byteAt bytes (i + 3)).toUInt32

/-- A word turned left by `n` bits. -/
def rotl (x : UInt32) (n : UInt32) : UInt32 := (x <<< n) ||| (x >>> (32 - n))

/-- The word of the schedule that stands `back` places before the end. -/
def earlier (w : Array UInt32) (back : Nat) : UInt32 := w.getD (w.size - back) 0

/-- The eighty words of a block: sixteen are read, each further one mixes four earlier ones. -/
def schedule (bytes : ByteArray) (start : Nat) : Array UInt32 :=
  let first : Array UInt32 := Array.ofFn fun i : Fin 16 => wordAt bytes (start + 4 * i.val)
  (List.range 64).foldl
    (fun w _ => w.push (rotl (earlier w 3 ^^^ earlier w 8 ^^^ earlier w 14 ^^^ earlier w 16) 1))
    first

/-- The five words that are carried from block to block. -/
structure State where
  a : UInt32
  b : UInt32
  c : UInt32
  d : UInt32
  e : UInt32

/-- The words before the first block. -/
def State.initial : State := ⟨0x67452301, 0xEFCDAB89, 0x98BADCFE, 0x10325476, 0xC3D2E1F0⟩

/-- What a round mixes of three words. -/
def mix (t : Nat) (b c d : UInt32) : UInt32 :=
  if t < 20 then (b &&& c) ||| (~~~b &&& d)
  else if t < 40 then b ^^^ c ^^^ d
  else if t < 60 then (b &&& c) ||| (b &&& d) ||| (c &&& d)
  else b ^^^ c ^^^ d

/-- The constant of a round. -/
def roundConstant (t : Nat) : UInt32 :=
  if t < 20 then 0x5A827999
  else if t < 40 then 0x6ED9EBA1
  else if t < 60 then 0x8F1BBCDC
  else 0xCA62C1D6

/-- One round. -/
def round (w : Array UInt32) (s : State) (t : Nat) : State :=
  ⟨rotl s.a 5 + mix t s.b s.c s.d + s.e + roundConstant t + w.getD t 0,
    s.a, rotl s.b 30, s.c, s.d⟩

/-- The words after a block. -/
def compress (bytes : ByteArray) (s : State) (start : Nat) : State :=
  let w := schedule bytes start
  let r := (List.range 80).foldl (round w) s
  ⟨s.a + r.a, s.b + r.b, s.c + r.c, s.d + r.d, s.e + r.e⟩

/-! ## 3. The hash -/

/-- The four bytes of a word, the highest first. -/
def wordBytes (x : UInt32) : List UInt8 :=
  [(x >>> 24).toUInt8, (x >>> 16).toUInt8, (x >>> 8).toUInt8, x.toUInt8]

/-- The hash of a message. -/
def digest (message : ByteArray) : List UInt8 :=
  let bytes := pad message
  let s := (List.range (bytes.size / 64)).foldl (fun s i => compress bytes s (64 * i)) .initial
  [s.a, s.b, s.c, s.d, s.e].flatMap wordBytes

end Ownership.Sha1
