import StridedViews.Word

/-!
The 64-bit XXH3 hash of a byte string, with seed 0.

Five schemes share the work by length: up to 16 bytes are folded into one or two words, up to 128
bytes are mixed in pairs of 16-byte chunks from both ends, up to 240 bytes chunk by chunk, and longer
strings run through eight accumulating lanes, one 64-byte stripe at a time. Every scheme keys its
input with words of a fixed secret and ends in an avalanche, which spreads each bit over the word.
-/

namespace StridedViews.Xxh3

/-- The bytes that inputs are keyed with. -/
def secret : List UInt8 :=
  [0xb8, 0xfe, 0x6c, 0x39, 0x23, 0xa4, 0x4b, 0xbe, 0x7c, 0x01, 0x81, 0x2c, 0xf7, 0x21, 0xad, 0x1c,
   0xde, 0xd4, 0x6d, 0xe9, 0x83, 0x90, 0x97, 0xdb, 0x72, 0x40, 0xa4, 0xa4, 0xb7, 0xb3, 0x67, 0x1f,
   0xcb, 0x79, 0xe6, 0x4e, 0xcc, 0xc0, 0xe5, 0x78, 0x82, 0x5a, 0xd0, 0x7d, 0xcc, 0xff, 0x72, 0x21,
   0xb8, 0x08, 0x46, 0x74, 0xf7, 0x43, 0x24, 0x8e, 0xe0, 0x35, 0x90, 0xe6, 0x81, 0x3a, 0x26, 0x4c,
   0x3c, 0x28, 0x52, 0xbb, 0x91, 0xc3, 0x00, 0xcb, 0x88, 0xd0, 0x65, 0x8b, 0x1b, 0x53, 0x2e, 0xa3,
   0x71, 0x64, 0x48, 0x97, 0xa2, 0x0d, 0xf9, 0x4e, 0x38, 0x19, 0xef, 0x46, 0xa9, 0xde, 0xac, 0xd8,
   0xa8, 0xfa, 0x76, 0x3f, 0xe3, 0x9c, 0x34, 0x3f, 0xf9, 0xdc, 0xbb, 0xc7, 0xc7, 0x0b, 0x4f, 0x1d,
   0x8a, 0x51, 0xe0, 0x4b, 0xcd, 0xb4, 0x59, 0x31, 0xc8, 0x9f, 0x7e, 0xc9, 0xd9, 0x78, 0x73, 0x64,
   0xea, 0xc5, 0xac, 0x83, 0x34, 0xd3, 0xeb, 0xc3, 0xc5, 0x81, 0xa0, 0xff, 0xfa, 0x13, 0x63, 0xeb,
   0x17, 0x0d, 0xdd, 0x51, 0xb7, 0xf0, 0xda, 0x49, 0xd3, 0x16, 0x55, 0x26, 0x29, 0xd4, 0x68, 0x9e,
   0x2b, 0x16, 0xbe, 0x58, 0x7d, 0x47, 0xa1, 0xfc, 0x8f, 0xf8, 0xb8, 0xd1, 0x7a, 0xd0, 0x31, 0xce,
   0x45, 0xcb, 0x3a, 0x8f, 0x95, 0x16, 0x04, 0x28, 0xaf, 0xd7, 0xfb, 0xca, 0xbb, 0x4b, 0x40, 0x7e]

def prime32₁ : UInt64 := 0x9E3779B1
def prime32₂ : UInt64 := 0x85EBCA77
def prime32₃ : UInt64 := 0xC2B2AE3D
def prime64₁ : UInt64 := 0x9E3779B185EBCA87
def prime64₂ : UInt64 := 0xC2B2AE3D27D4EB4F
def prime64₃ : UInt64 := 0x165667B19E3779F9
def prime64₄ : UInt64 := 0x85EBCA77C2B2AE63
def prime64₅ : UInt64 := 0x27D4EB2F165667C5

/-- The multiplier of the avalanche. -/
def avalanchePrime : UInt64 := 0x165667919E3779F9

/-- The multiplier of the mix that ends strings of 4 to 8 bytes. -/
def shortPrime : UInt64 := 0x9FB21C651E98DF25

/-! ### Words -/

/-- The 64-bit word that starts at byte `i`. -/
def word64 (bs : List UInt8) (i : Nat) : UInt64 := (Word.ofLittleEndian ((bs.drop i).take 8)).toUInt64

/-- The 32-bit word that starts at byte `i`. -/
def word32 (bs : List UInt8) (i : Nat) : UInt64 := (Word.ofLittleEndian ((bs.drop i).take 4)).toUInt64

/-- The 64-bit word of the secret at byte `i`. -/
def key (i : Nat) : UInt64 := word64 secret i

def rotateLeft (x n : UInt64) : UInt64 := (x <<< n) ||| (x >>> (64 - n))

/-- A word with its bytes in the opposite order. -/
def swapBytes (x : UInt64) : UInt64 :=
  (List.range 8).foldl (fun n i => (n <<< 8) ||| ((x >>> (8 * i).toUInt64) &&& 0xFF)) 0

/-- The low half of the 128-bit product, with the high half folded onto it. -/
def foldedProduct (a b : UInt64) : UInt64 :=
  let p := a.toNat * b.toNat
  p.toUInt64 ^^^ (p >>> 64).toUInt64

/-- A word with its upper bits folded onto the lower ones, `n` bits down. -/
def foldDown (x n : UInt64) : UInt64 := x ^^^ (x >>> n)

/-- The closing mix of all but the shortest strings. -/
def avalanche (h : UInt64) : UInt64 := foldDown (foldDown h 37 * avalanchePrime) 32

/-- The closing mix of strings of at most 3 bytes. -/
def tinyAvalanche (h : UInt64) : UInt64 :=
  foldDown (foldDown (foldDown h 33 * prime64₂) 29 * prime64₃) 32

/-- The closing mix of strings of 4 to 8 bytes. -/
def shortAvalanche (h length : UInt64) : UInt64 :=
  let h := (h ^^^ rotateLeft h 49 ^^^ rotateLeft h 24) * shortPrime
  foldDown ((h ^^^ ((h >>> 35) + length)) * shortPrime) 28

/-- The 16 bytes from `i` on, keyed with the 16 secret bytes from `k` on. -/
def mixChunk (bs : List UInt8) (i k : Nat) : UInt64 :=
  foldedProduct (word64 bs i ^^^ key k) (word64 bs (i + 8) ^^^ key (k + 8))

/-! ### The schemes by length -/

/-- At most 3 bytes: the first, the middle and the last byte make one word with the length. -/
def hashTiny (bs : List UInt8) : UInt64 :=
  let n := bs.length
  let byte (i : Nat) : UInt64 := (bs[i]?.getD 0).toUInt64
  if n = 0 then
    tinyAvalanche (key 56 ^^^ key 64)
  else
    let word := (byte 0 <<< 16) ||| (byte (n / 2) <<< 24) ||| byte (n - 1) ||| (n.toUInt64 <<< 8)
    tinyAvalanche (word ^^^ word32 secret 0 ^^^ word32 secret 4)

/-- From 4 to 8 bytes: the first and the last four make one word. -/
def hashShort (bs : List UInt8) : UInt64 :=
  let n := bs.length
  let word := word32 bs (n - 4) + (word32 bs 0 <<< 32)
  shortAvalanche (word ^^^ key 8 ^^^ key 16) n.toUInt64

/-- From 9 to 16 bytes: the first and the last eight make two words. -/
def hashMedium (bs : List UInt8) : UInt64 :=
  let n := bs.length
  let lo := word64 bs 0 ^^^ key 24 ^^^ key 32
  let hi := word64 bs (n - 8) ^^^ key 40 ^^^ key 48
  avalanche (n.toUInt64 + swapBytes lo + hi + foldedProduct lo hi)

/-- From 17 to 128 bytes: pairs of chunks, from both ends towards the middle. -/
def hashPairs (bs : List UInt8) : UInt64 :=
  let n := bs.length
  let pair (i : Nat) : UInt64 :=
    mixChunk bs (16 * i) (32 * i) + mixChunk bs (n - 16 * (i + 1)) (32 * i + 16)
  avalanche ((List.range ((n - 1) / 32 + 1)).foldl (fun h i => h + pair i)
    (n.toUInt64 * prime64₁))

/-- From 129 to 240 bytes: eight chunks, the further whole chunks, and the last 16 bytes. -/
def hashChunks (bs : List UInt8) : UInt64 :=
  let n := bs.length
  let first := (List.range 8).foldl (fun h i => h + mixChunk bs (16 * i) (16 * i))
    (n.toUInt64 * prime64₁)
  let further := (List.range (n / 16 - 8)).foldl
    (fun h i => h + mixChunk bs (16 * (i + 8)) (16 * i + 3)) (avalanche first)
  avalanche (further + mixChunk bs (n - 16) 119)

/-! ### Long strings -/

/-- The words of a stripe, eight bytes each. -/
def words (stripe : List UInt8) : List UInt64 := (List.range 8).map fun i => word64 stripe (8 * i)

/-- The eight secret words from byte `k` on. -/
def keys (k : Nat) : List UInt64 := (List.range 8).map fun i => key (k + 8 * i)

/-- The lanes before any input. -/
def freshLanes : List UInt64 :=
  [prime32₃, prime64₁, prime64₂, prime64₃, prime64₄, prime32₂, prime64₅, prime32₁]

/-- Each word changes places with its neighbour. -/
def swapNeighbours : List UInt64 → List UInt64
  | a :: b :: rest => b :: a :: swapNeighbours rest
  | rest => rest

/-- The product of the two halves of a word. -/
def halvesProduct (x : UInt64) : UInt64 := (x % 0x100000000) * (x / 0x100000000)

/-- Takes one stripe into the lanes: each lane gains its neighbour's word and the product of the
halves of its own keyed word. -/
def absorb (lanes : List UInt64) (stripe : List UInt8) (k : Nat) : List UInt64 :=
  let input := words stripe
  let products := input.zipWith (fun x k => halvesProduct (x ^^^ k)) (keys k)
  (lanes.zipWith (· + ·) (swapNeighbours input)).zipWith (· + ·) products

/-- Scrambles the lanes at the end of a block. -/
def scramble (lanes : List UInt64) : List UInt64 :=
  lanes.zipWith (fun lane k => (foldDown lane 47 ^^^ k) * prime32₁) (keys 128)

/-- Takes `stripes` stripes into the lanes, the first of them at place `place` of its block of 16;
each place has its own secret words, and behind the last the lanes are scrambled. -/
def absorbStripes : (stripes place : Nat) → List UInt8 → List UInt64 → List UInt64
  | 0, _, _, lanes => lanes
  | stripes + 1, place, bs, lanes =>
    let lanes := absorb lanes (bs.take 64) (8 * place)
    if place = 15 then
      absorbStripes stripes 0 (bs.drop 64) (scramble lanes)
    else
      absorbStripes stripes (place + 1) (bs.drop 64) lanes

/-- The lanes folded onto `h`, two by two. -/
def mergeLanes : (k : Nat) → List UInt64 → UInt64 → UInt64
  | k, a :: b :: rest, h =>
      mergeLanes (k + 16) rest (h + foldedProduct (a ^^^ key k) (b ^^^ key (k + 8)))
  | _, _, h => h

/-- More than 240 bytes: all whole stripes short of the last byte, then the last 64 bytes. -/
def hashLong (bs : List UInt8) : UInt64 :=
  let n := bs.length
  let lanes := absorbStripes ((n - 1) / 64) 0 bs freshLanes
  avalanche (mergeLanes 11 (absorb lanes (bs.drop (n - 64)) 121) (n.toUInt64 * prime64₁))

/-- The hash of a byte string. -/
def hash (bs : List UInt8) : UInt64 :=
  if bs.length ≤ 3 then hashTiny bs
  else if bs.length ≤ 8 then hashShort bs
  else if bs.length ≤ 16 then hashMedium bs
  else if bs.length ≤ 128 then hashPairs bs
  else if bs.length ≤ 240 then hashChunks bs
  else hashLong bs

example : hash [0] ≠ hash [1] := by decide

end StridedViews.Xxh3
