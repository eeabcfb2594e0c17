/-!
# Byte strings, blocks and little-endian words

File contents are byte strings of any length; a field of a record is a block
whose length is part of its type. Numbers are stored least significant byte
first, and every field is cut out of its block at a stated offset.
-/
namespace Cartridge

abbrev Bytes := Array UInt8

abbrev Block (n : Nat) := Vector UInt8 n

/-- The number that a list of bytes spells, least significant byte first. -/
def littleEndian : List UInt8 → Nat
  | [] => 0
  | b :: rest => b.toNat + 256 * littleEndian rest

/-- The `width` low bytes of a number, least significant byte first. -/
def octets : Nat → Nat → List UInt8
  | 0, _ => []
  | width + 1, value => UInt8.ofNat value :: octets width (value / 256)

@[simp] theorem length_octets (width value : Nat) : (octets width value).length = width := by
  induction width generalizing value with
  | zero => rfl
  | succ width ih => simp [octets, ih]

/-- The UTF-8 form of a text. -/
def utf8 (s : String) : List UInt8 := s.toList.flatMap String.utf8EncodeChar

namespace Bytes

/-- The first `n` bytes, if there are that many. -/
def block? (n : Nat) (b : Bytes) : Option (Block n) :=
  if _h : n ≤ b.size then some ⟨b.extract 0 n, by simp only [Array.size_extract]; omega⟩
  else none

/-- Whether the bytes from `start` on begin with `expected`. -/
def hasAt (b : Bytes) (start : Nat) (expected : List UInt8) : Bool :=
  (b.extract start (start + expected.length)).toList == expected

/-- Consecutive pieces of `size` bytes, the last one possibly shorter. -/
def pieces (size : Nat) (b : List UInt8) : List (List UInt8) :=
  if _h : b = [] ∨ size = 0 then []
  else b.take size :: pieces size (b.drop size)
termination_by b.length
decreasing_by
  obtain ⟨hb, hs⟩ := not_or.mp _h
  have := List.length_pos_iff.mpr hb
  simp only [List.length_drop]
  omega

end Bytes

namespace Block

/-- The `length` bytes from `start` on. -/
def cut {n : Nat} (b : Block n) (start length : Nat)
    (fits : start + length ≤ n := by decide) : Block length :=
  (b.extract start (start + length)).cast (by omega)

def byteAt {n : Nat} (b : Block n) (start : Nat) (fits : start < n := by decide) : UInt8 :=
  b[start]

def word {n : Nat} (b : Block n) : Nat := littleEndian b.toList

def word16 {n : Nat} (b : Block n) (start : Nat) (fits : start + 2 ≤ n := by decide) : UInt16 :=
  UInt16.ofNat (b.cut start 2 fits).word

def word32 {n : Nat} (b : Block n) (start : Nat) (fits : start + 4 ≤ n := by decide) : UInt32 :=
  UInt32.ofNat (b.cut start 4 fits).word

def word64 {n : Nat} (b : Block n) (start : Nat) (fits : start + 8 ≤ n := by decide) : UInt64 :=
  UInt64.ofNat (b.cut start 8 fits).word

/-- The number in a block of eight bytes. -/
def toWord64 (b : Block 8) : UInt64 := UInt64.ofNat b.word

theorem secondOfTwo : 4 + 4 ≤ 8 := by decide

theorem thirdOfFour : 8 + 4 ≤ 16 := by decide

theorem fourthOfFour : 12 + 4 ≤ 16 := by decide

/-- A number stored in `n` bytes. -/
def ofNat (n value : Nat) : Block n :=
  ⟨(octets n value).toArray, by simp⟩

def ofByte (b : UInt8) : Block 1 := #v[b]

def ofWord16 (w : UInt16) : Block 2 := ofNat 2 w.toNat

def ofWord32 (w : UInt32) : Block 4 := ofNat 4 w.toNat

def ofWord64 (w : UInt64) : Block 8 := ofNat 8 w.toNat

def isZero {n : Nat} (b : Block n) : Bool := b.toList.all (· == 0)

/-- The `count` pieces of `width` bytes each that lie one after the other from `start` on. -/
def row {n : Nat} (b : Block n) (start width count : Nat)
    (fits : start + width * count ≤ n := by decide) : Vector (Block width) count :=
  Vector.ofFn fun i => b.cut (start + width * i) width (by
    have : width * (i + 1) ≤ width * count := Nat.mul_le_mul_left width i.isLt
    rw [Nat.mul_add, Nat.mul_one] at this
    omega)

/-- Blocks of one width written one after the other. -/
def concat {width count : Nat} (blocks : Vector (Block width) count) : Block (count * width) :=
  blocks.flatten

end Block

end Cartridge
