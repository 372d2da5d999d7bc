import HdlPorts.Digest.Xxh3

/-! Digests: sixteen bytes that stand for a longer sequence of bytes.

A session keeps the digest of the declaration that an entity was built from, and takes two
declarations of one name to be the same if their digests are.
-/

set_option autoImplicit false

namespace HdlPorts

structure Digest where
  bytes : List UInt8
  length_eq : bytes.length = 16
  deriving DecidableEq

namespace Digest

def littleEndian (word : UInt64) : List UInt8 :=
  (List.range 8).map fun place => (word >>> (8 * place).toUInt64).toUInt8

theorem length_littleEndian (word : UInt64) : (littleEndian word).length = 8 := by
  simp [littleEndian]

/-- The bytes of a checksum, low word first. -/
def ofSum (sum : Xxh3.Sum) : Digest where
  bytes := littleEndian sum.low ++ littleEndian sum.high
  length_eq := by simp [length_littleEndian]

def ofBytes (bytes : List UInt8) : Digest := ofSum (Xxh3.sum ⟨bytes.toArray⟩)

def hexByte (byte : UInt8) : List Char :=
  [Nat.digitChar (byte.toNat / 16), Nat.digitChar (byte.toNat % 16)]

def hex (digest : Digest) : String := String.ofList (digest.bytes.flatMap hexByte)

/-- The first two bytes in hexadecimal, to tell digests apart at a glance. -/
def brief (digest : Digest) : String :=
  "ContentHash(" ++ String.ofList ((digest.bytes.take 2).flatMap hexByte) ++ "..)"

end Digest

end HdlPorts
