import Cartridge.Bytes
import Mathlib.Algebra.Group.Nat.Defs

/-!
# Blocks and numbers as lists of bytes

A block is a list of bytes of known length, a piece that is cut out of it is a
piece of that list, and what `octets` writes is what `littleEndian` reads.
-/
namespace Cartridge

theorem littleEndian_lt (b : List UInt8) : littleEndian b < 256 ^ b.length := by
  induction b with
  | nil => decide
  | cons x rest ih =>
    have := x.toNat_lt
    simp only [littleEndian, List.length_cons, Nat.pow_succ]
    omega

/-- A number is read back up to the bytes that were not written. -/
theorem littleEndian_octets (width value : Nat) :
    littleEndian (octets width value) = value % 256 ^ width := by
  induction width generalizing value with
  | zero => simp [octets, littleEndian, Nat.mod_one]
  | succ width ih =>
    rw [octets, littleEndian, ih, Nat.pow_succ', Nat.mod_mul]
    simp

/-- What `littleEndian` reads is what `octets` writes. -/
theorem octets_littleEndian (b : List UInt8) : octets b.length (littleEndian b) = b := by
  induction b with
  | nil => rfl
  | cons x rest ih =>
    have hlow : UInt8.ofNat (x.toNat + 256 * littleEndian rest) = x := by
      apply UInt8.toNat_inj.mp
      rw [UInt8.toNat_ofNat']
      have := x.toNat_lt
      omega
    have hhigh : (x.toNat + 256 * littleEndian rest) / 256 = littleEndian rest := by
      have := x.toNat_lt
      omega
    rw [List.length_cons, littleEndian, octets, hlow, hhigh, ih]

/-- A number stands in a block exactly if it is the one read there. -/
theorem octets_eq_iff {width value : Nat} {b : List UInt8} (hlength : b.length = width)
    (hvalue : value < 256 ^ width) : b = octets width value ↔ littleEndian b = value := by
  constructor
  · rintro rfl
    rw [littleEndian_octets, Nat.mod_eq_of_lt hvalue]
  · rintro rfl
    rw [← hlength, octets_littleEndian]

/-- The number stored in `width` bytes at a place of a file. -/
def wordAt (b : List UInt8) (start width : Nat) : Nat := littleEndian ((b.drop start).take width)

theorem wordAt_lt (b : List UInt8) (start width : Nat) : wordAt b start width < 256 ^ width := by
  have hlength : ((b.drop start).take width).length ≤ width := List.length_take_le ..
  exact Nat.lt_of_lt_of_le (littleEndian_lt _) (Nat.pow_le_pow_right (by decide) hlength)

/-- A piece of a piece is a piece of the whole. -/
theorem window_window (b : List UInt8) (start length : Nat) {place width : Nat}
    (h : place + width ≤ length) :
    ((((b.drop start).take length).drop place).take width) =
      (b.drop (start + place)).take width := by
  rw [List.drop_take, List.take_take, List.drop_drop, Nat.min_eq_left (by omega)]

theorem wordAt_window (b : List UInt8) (start length : Nat) {place width : Nat}
    (h : place + width ≤ length) :
    wordAt ((b.drop start).take length) place width = wordAt b (start + place) width := by
  rw [wordAt, window_window b start length h, wordAt]

/-- Places in the lower half of the numbers are added without overflow. -/
theorem toNat_add_of_low {a b : UInt64} (ha : a.toNat < 2 ^ 63) (hb : b.toNat < 2 ^ 63) :
    (a + b).toNat = a.toNat + b.toNat := by
  rw [UInt64.toNat_add]
  omega

namespace Bytes

theorem block?_eq_none {n : Nat} {b : Bytes} (h : b.size < n) : b.block? n = none := by
  simp [block?, Nat.not_le.mpr h]

theorem block?_of_le {n : Nat} {b : Bytes} (h : n ≤ b.size) :
    ∃ block, b.block? n = some block ∧ block.toList = b.toList.take n := by
  refine ⟨⟨b.extract 0 n, by simp only [Array.size_extract]; omega⟩, by simp [block?, h], ?_⟩
  simp [Vector.toList]

/-- The first block of a byte string is a list of its first bytes. -/
theorem block?_eq_some_iff {n : Nat} {b : Bytes} {block : Block n} :
    b.block? n = some block ↔ n ≤ b.size ∧ block.toList = b.toList.take n := by
  by_cases hlong : n ≤ b.size
  · obtain ⟨found, hfound, hlist⟩ := block?_of_le hlong
    rw [hfound, Option.some.injEq, ← Vector.toList_inj, hlist]
    exact ⟨fun h => ⟨hlong, h.symm⟩, fun h => h.2.symm⟩
  · rw [block?_eq_none (Nat.not_le.mp hlong)]
    exact iff_of_false nofun fun h => hlong h.1

end Bytes

namespace Block

/-- A block is what is read of it from its start. -/
theorem toList_eq_window {n : Nat} (b : Block n) : b.toList = (b.toList.drop 0).take n := by
  rw [List.drop_zero, List.take_of_length_le (Nat.le_of_eq b.length_toList)]

@[simp] theorem toList_cut {n : Nat} (b : Block n) (start length : Nat)
    (fits : start + length ≤ n) :
    (b.cut start length fits).toList = (b.toList.drop start).take length := by
  rw [cut, Vector.toList_cast, Vector.toList_extract, Nat.add_sub_cancel_left]

theorem word_cut {n : Nat} (b : Block n) (start length : Nat) (fits : start + length ≤ n) :
    (b.cut start length fits).word = littleEndian ((b.toList.drop start).take length) := by
  rw [word, toList_cut]

theorem toNat_word16 {n : Nat} (b : Block n) (start : Nat) (fits : start + 2 ≤ n) :
    (b.word16 start fits).toNat = wordAt b.toList start 2 := by
  rw [word16, word_cut]
  exact UInt16.toNat_ofNat_of_lt' (wordAt_lt b.toList start 2)

theorem toNat_word32 {n : Nat} (b : Block n) (start : Nat) (fits : start + 4 ≤ n) :
    (b.word32 start fits).toNat = wordAt b.toList start 4 := by
  rw [word32, word_cut]
  exact UInt32.toNat_ofNat_of_lt' (wordAt_lt b.toList start 4)

theorem toNat_word64 {n : Nat} (b : Block n) (start : Nat) (fits : start + 8 ≤ n) :
    (b.word64 start fits).toNat = wordAt b.toList start 8 := by
  rw [word64, word_cut]
  exact UInt64.toNat_ofNat_of_lt' (wordAt_lt b.toList start 8)

theorem byteAt_eq {n : Nat} (b : Block n) (start : Nat) (fits : start < n) :
    b.byteAt start fits = b.toList.getD start 0 := by
  simp [byteAt, fits]

theorem toNat_byteAt {n : Nat} (b : Block n) (start : Nat) (fits : start < n) :
    (b.byteAt start fits).toNat = wordAt b.toList start 1 := by
  have hlength : start < b.toList.length := by
    rw [Vector.length_toList]
    exact fits
  rw [byteAt_eq, wordAt, List.drop_eq_getElem_cons hlength, List.take_succ_cons, List.take_zero,
    List.getD_eq_getElem?_getD, List.getElem?_eq_getElem hlength]
  rfl

end Block

end Cartridge
