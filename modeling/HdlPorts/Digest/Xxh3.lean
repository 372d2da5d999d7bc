/-! The 128-bit XXH3 checksum, with seed zero and the standard secret.

Inputs fall into classes by length. Up to sixteen bytes are mixed as one or two numbers; up to 128
bytes in pairs of blocks taken from both ends; up to 240 bytes in blocks from the front; longer ones
run through eight accumulators, a stripe of 64 bytes at a time. All numbers are little-endian words
of 64 bits and wrap.
-/

set_option autoImplicit false

namespace HdlPorts.Xxh3

/-- A checksum as its low and its high word. -/
structure Sum where
  low : UInt64
  high : UInt64
  deriving DecidableEq

/-- The bytes mixed into every input. -/
def secret : ByteArray := ⟨#[
  0xb8, 0xfe, 0x6c, 0x39, 0x23, 0xa4, 0x4b, 0xbe, 0x7c, 0x01, 0x81, 0x2c, 0xf7, 0x21, 0xad, 0x1c,
  0xde, 0xd4, 0x6d, 0xe9, 0x83, 0x90, 0x97, 0xdb, 0x72, 0x40, 0xa4, 0xa4, 0xb7, 0xb3, 0x67, 0x1f,
  0xcb, 0x79, 0xe6, 0x4e, 0xcc, 0xc0, 0xe5, 0x78, 0x82, 0x5a, 0xd0, 0x7d, 0xcc, 0xff, 0x72, 0x21,
  0xb8, 0x08, 0x46, 0x74, 0xf7, 0x43, 0x24, 0x8e, 0xe0, 0x35, 0x90, 0xe6, 0x81, 0x3a, 0x26, 0x4c,
  0x3c, 0x28, 0x52, 0xbb, 0x91, 0xc3, 0x00, 0xcb, 0x88, 0xd0, 0x65, 0x8b, 0x1b, 0x53, 0x2e, 0xa3,
  0x71, 0x64, 0x48, 0x97, 0xa2, 0x0d, 0xf9, 0x4e, 0x38, 0x19, 0xef, 0x46, 0xa9, 0xde, 0xac, 0xd8,
  0xa8, 0xfa, 0x76, 0x3f, 0xe3, 0x9c, 0x34, 0x3f, 0xf9, 0xdc, 0xbb, 0xc7, 0xc7, 0x0b, 0x4f, 0x1d,
  0x8a, 0x51, 0xe0, 0x4b, 0xcd, 0xb4, 0x59, 0x31, 0xc8, 0x9f, 0x7e, 0xc9, 0xd9, 0x78, 0x73, 0x64,
  0xea, 0xc5, 0xac, 0x83, 0x34, 0xd3, 0xeb, 0xc3, 0xc5, 0x81, 0xa0, 0xff, 0xfa, 0x13, 0x63, 0xeb,
  0x17, 0x0d, 0xdd, 0x51, 0xb7, 0xf0, 0xda, 0x49, 0xd3, 0x16, 0x55, 0x26, 0x29, 0xd4, 0x68, 0x9e,
  0x2b, 0x16, 0xbe, 0x58, 0x7d, 0x47, 0xa1, 0xfc, 0x8f, 0xf8, 0xb8, 0xd1, 0x7a, 0xd0, 0x31, 0xce,
  0x45, 0xcb, 0x3a, 0x8f, 0x95, 0x16, 0x04, 0x28, 0xaf, 0xd7, 0xfb, 0xca, 0xbb, 0x4b, 0x40, 0x7e]⟩

def prime32A : UInt64 := 0x9E3779B1
def prime32B : UInt64 := 0x85EBCA77
def prime32C : UInt64 := 0xC2B2AE3D
def prime64A : UInt64 := 0x9E3779B185EBCA87
def prime64B : UInt64 := 0xC2B2AE3D27D4EB4F
def prime64C : UInt64 := 0x165667B19E3779F9
def prime64D : UInt64 := 0x85EBCA77C2B2AE63
def prime64E : UInt64 := 0x27D4EB2F165667C5

def byte (data : ByteArray) (offset : Nat) : UInt64 :=
  if h : offset < data.size then data[offset].toUInt64 else 0

def read32 (data : ByteArray) (offset : Nat) : UInt64 :=
  byte data offset ||| byte data (offset + 1) <<< 8 ||| byte data (offset + 2) <<< 16
    ||| byte data (offset + 3) <<< 24

def read64 (data : ByteArray) (offset : Nat) : UInt64 :=
  read32 data offset ||| read32 data (offset + 4) <<< 32

def lowHalf (word : UInt64) : UInt64 := word &&& 0xFFFFFFFF

/-- The lower half of a word with its bytes in the opposite order. -/
def swap32 (word : UInt64) : UInt64 :=
  (word &&& 0xFF) <<< 24 ||| (word >>> 8 &&& 0xFF) <<< 16 ||| (word >>> 16 &&& 0xFF) <<< 8
    ||| word >>> 24 &&& 0xFF

def swap64 (word : UInt64) : UInt64 := swap32 word <<< 32 ||| swap32 (word >>> 32)

/-- The lower half of a word turned left by thirteen places. -/
def turn13 (word : UInt64) : UInt64 := lowHalf (word <<< 13 ||| lowHalf word >>> 19)

def product (a b : UInt64) : Sum :=
  let full := a.toNat * b.toNat
  ⟨UInt64.ofNat full, UInt64.ofNat (full >>> 64)⟩

/-- The two halves of a product, one laid over the other. -/
def fold (a b : UInt64) : UInt64 :=
  let full := product a b
  full.low ^^^ full.high

/-- Spread the bits of a word over the word. -/
def scatter (word : UInt64) : UInt64 :=
  let first := (word ^^^ word >>> 37) * 0x165667919E3779F9
  first ^^^ first >>> 32

/-- A stronger spreading, for short inputs. -/
def scatterTwice (word : UInt64) : UInt64 :=
  let first := (word ^^^ word >>> 33) * prime64B
  let second := (first ^^^ first >>> 29) * prime64C
  second ^^^ second >>> 32

/-- Two words of the secret, one laid over the other. -/
def secretPair (first second : Nat) : UInt64 := read64 secret first ^^^ read64 secret second

def sumOfNone : Sum := ⟨scatterTwice (secretPair 64 72), scatterTwice (secretPair 80 88)⟩

def sumTo3 (data : ByteArray) : Sum :=
  let length := data.size
  let low := byte data 0 <<< 16 ||| byte data (length / 2) <<< 24 ||| byte data (length - 1)
    ||| length.toUInt64 <<< 8
  let high := turn13 (swap32 low)
  ⟨scatterTwice (low ^^^ read32 secret 0 ^^^ read32 secret 4),
    scatterTwice (high ^^^ read32 secret 8 ^^^ read32 secret 12)⟩

def sumTo8 (data : ByteArray) : Sum :=
  let length := data.size
  let both := read32 data 0 + read32 data (length - 4) <<< 32
  let mixed := product (both ^^^ secretPair 16 24) (prime64A + 4 * length.toUInt64)
  let high := mixed.high + mixed.low <<< 1
  let low := mixed.low ^^^ high >>> 3
  let low := (low ^^^ low >>> 35) * 0x9FB21C651E98DF25
  ⟨low ^^^ low >>> 28, scatter high⟩

def sumTo16 (data : ByteArray) : Sum :=
  let length := data.size
  let first := read64 data 0
  let last := read64 data (length - 8)
  let mixed := product (first ^^^ last ^^^ secretPair 32 40) prime64A
  let low := mixed.low + (length - 1).toUInt64 <<< 54
  let last := last ^^^ secretPair 48 56
  let high := mixed.high + last + lowHalf last * (prime32B - 1)
  let mixed := product (low ^^^ swap64 high) prime64B
  ⟨scatter mixed.low, scatter (mixed.high + high * prime64B)⟩

/-- Sixteen bytes of data against sixteen bytes of secret. -/
def mixBlock (data : ByteArray) (offset secretOffset : Nat) : UInt64 :=
  fold (read64 data offset ^^^ read64 secret secretOffset)
    (read64 data (offset + 8) ^^^ read64 secret (secretOffset + 8))

/-- The sum of the two words of a block. -/
def blockSum (data : ByteArray) (offset : Nat) : UInt64 :=
  read64 data offset + read64 data (offset + 8)

/-- Mix two blocks of sixteen bytes into a running checksum. -/
def mixPair (data : ByteArray) (sum : Sum) (first second secretOffset : Nat) : Sum :=
  ⟨(sum.low + mixBlock data first secretOffset) ^^^ blockSum data second,
    (sum.high + mixBlock data second (secretOffset + 16)) ^^^ blockSum data first⟩

/-- The running checksum of an input of middle length before anything is mixed in. -/
def seedOf (length : Nat) : Sum := ⟨length.toUInt64 * prime64A, 0⟩

/-- The checksum that a running one of an input of middle length ends in. -/
def finish (sum : Sum) (length : Nat) : Sum :=
  ⟨scatter (sum.low + sum.high),
    0 - scatter (sum.low * prime64A + sum.high * prime64D + length.toUInt64 * prime64B)⟩

/-- Seventeen to 128 bytes: pairs of blocks from both ends, the innermost pair first. -/
def sumTo128 (data : ByteArray) : Sum :=
  let length := data.size
  let pairs := (length - 1) / 32 + 1
  let sum := (List.range pairs).reverse.foldl
    (fun sum pair => mixPair data sum (16 * pair) (length - 16 * (pair + 1)) (32 * pair))
    (seedOf length)
  finish sum length

/-- From 129 to 240 bytes: pairs of neighbouring blocks, with a spreading after the fourth pair, and
the last two blocks in the opposite order. -/
def sumTo240 (data : ByteArray) : Sum :=
  let length := data.size
  let sum := (List.range 4).foldl
    (fun sum pair => mixPair data sum (32 * pair) (32 * pair + 16) (32 * pair)) (seedOf length)
  let sum := (List.range' 4 (length / 32 - 4)).foldl
    (fun sum pair => mixPair data sum (32 * pair) (32 * pair + 16) (3 + 32 * (pair - 4)))
    ⟨scatter sum.low, scatter sum.high⟩
  finish (mixPair data sum (length - 16) (length - 32) 103) length

/-- What the accumulators start from. -/
def accumulators : List UInt64 :=
  [prime32C, prime64A, prime64B, prime64C, prime64D, prime32B, prime64E, prime32A]

/-- Take one stripe into the accumulators: each gets its neighbour's word and the product of the
halves of its own word, covered by the secret. -/
def takeStripe (data : ByteArray) (sums : List UInt64) (offset secretOffset : Nat) : List UInt64 :=
  sums.mapIdx fun lane sum =>
    let own := read64 data (offset + 8 * lane) ^^^ read64 secret (secretOffset + 8 * lane)
    let neighbour := lane ^^^ 1
    sum + read64 data (offset + 8 * neighbour) + lowHalf own * (own >>> 32)

/-- Mix each accumulator within itself, at the end of a block of sixteen stripes. -/
def scramble (sums : List UInt64) : List UInt64 :=
  sums.mapIdx fun lane (sum : UInt64) =>
    (sum ^^^ sum >>> 47 ^^^ read64 secret (128 + 8 * lane)) * prime32A

def takeStripes (data : ByteArray) (sums : List UInt64) (block count : Nat) : List UInt64 :=
  (List.range count).foldl
    (fun sums stripe => takeStripe data sums (1024 * block + 64 * stripe) (8 * stripe)) sums

/-- Fold neighbouring accumulators into one word. -/
def merge (start : UInt64) : List UInt64 → Nat → UInt64
  | first :: second :: rest, secretOffset =>
    merge (start + fold (first ^^^ read64 secret secretOffset)
      (second ^^^ read64 secret (secretOffset + 8))) rest (secretOffset + 16)
  | _, _ => scatter start

def sumOfLong (data : ByteArray) : Sum :=
  let length := data.size
  let blocks := (length - 1) / 1024
  let sums := (List.range blocks).foldl
    (fun sums block => scramble (takeStripes data sums block 16)) accumulators
  let sums := takeStripes data sums blocks ((length - 1 - 1024 * blocks) / 64)
  let sums := takeStripe data sums (length - 64) 121
  ⟨merge (length.toUInt64 * prime64A) sums 11, merge (~~~(length.toUInt64 * prime64B)) sums 117⟩

def sum (data : ByteArray) : Sum :=
  if data.size = 0 then sumOfNone
  else if data.size ≤ 3 then sumTo3 data
  else if data.size ≤ 8 then sumTo8 data
  else if data.size ≤ 16 then sumTo16 data
  else if data.size ≤ 128 then sumTo128 data
  else if data.size ≤ 240 then sumTo240 data
  else sumOfLong data

end HdlPorts.Xxh3
