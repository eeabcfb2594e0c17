import Cartridge.Record.ContentFlags
import Cartridge.Record.ExtendedHeader
import Mathlib.Algebra.Group.Nat.Defs

/-!
# Packed fields as numbers

A word of packed fields is the sum of its fields, each times the power of two at which its run of
bits begins. The runs fill the word, so reading the fields and adding them up undo each other.
-/
namespace Cartridge

/-- Joined runs of bits are the sum of their numbers, the higher one shifted. -/
theorem toNat_append_bits {m n : Nat} (high : BitVec m) (low : BitVec n) :
    (high ++ low).toNat = 2 ^ n * high.toNat + low.toNat := by
  rw [BitVec.toNat_append, ← Nat.shiftLeft_add_eq_or_of_lt low.isLt, Nat.shiftLeft_eq,
    Nat.mul_comm]

theorem ofBool_getLsbD {w : Nat} (b : BitVec w) (i : Nat) :
    BitVec.ofBool (b.getLsbD i) = b.extractLsb' i 1 := by
  apply BitVec.eq_of_getLsbD_eq
  intro j hj
  obtain rfl : j = 0 := by omega
  simp

theorem ofBool_beq_one (bit : Bool) : (BitVec.ofBool bit == 1#1) = bit := by
  cases bit <;> rfl

namespace ContentType

def number (t : ContentType) : Nat :=
  t.data.toNat + 2 * t.executable.toNat + 2 ^ 2 * t.systemUpdate.toNat + 2 ^ 3 * t.manual.toNat +
    2 ^ 4 * t.child.toNat + 2 ^ 5 * t.trial.toNat + 2 ^ 6 * t.reserved.toNat

theorem toNat_toBits (t : ContentType) : t.toBits.toNat = t.number := by
  simp only [toBits, toNat_append_bits, BitVec.toNat_ofBool, number]
  omega

theorem ofBits_toBits (t : ContentType) : ofBits t.toBits = t := by
  simp (disch := decide) only [ofBits, toBits, BitVec.getLsbD_eq_extractLsb',
    BitVec.extractLsb'_append_eq_of_add_le, BitVec.extractLsb'_append_eq_of_le, Nat.reduceSub,
    BitVec.extractLsb'_eq_self, ofBool_beq_one]

theorem toBits_ofBits (b : BitVec 8) : (ofBits b).toBits = b := by
  simp only [ofBits, toBits, ofBool_getLsbD]
  simp (disch := decide) only [BitVec.extractLsb'_append_extractLsb'_eq_extractLsb']
  exact BitVec.extractLsb'_eq_self

end ContentType

namespace ContentFlags

/-- The word of the flags: from the lowest byte on three reserved bytes, the crypto method, the
platform, the content type, the unit size and a byte of single flags. -/
def number (f : ContentFlags) : Nat :=
  f.reserved0.toNat + 2 ^ 24 * f.cryptoMethod.toNat + 2 ^ 32 * f.platform.toNat +
    2 ^ 40 * f.contentType.number + 2 ^ 48 * f.unitSize.toNat + 2 ^ 56 * f.fixedCryptoKey.toNat +
    2 ^ 57 * f.noMountRomFs.toNat + 2 ^ 58 * f.noCrypto.toNat + 2 ^ 59 * f.reserved1.toNat +
    2 ^ 61 * f.seedCrypto.toNat + 2 ^ 62 * f.reserved2.toNat

theorem toNat_toBits (f : ContentFlags) : f.toBits.toNat = f.number := by
  simp only [toBits, toNat_append_bits, BitVec.toNat_ofBool, ContentType.toNat_toBits, number]
  omega

theorem ofBits_toBits (f : ContentFlags) : ofBits f.toBits = f := by
  simp (disch := decide) only [ofBits, toBits, BitVec.getLsbD_eq_extractLsb',
    BitVec.extractLsb'_append_eq_of_add_le, BitVec.extractLsb'_append_eq_of_le, Nat.reduceSub,
    BitVec.extractLsb'_eq_self, ofBool_beq_one, ContentType.ofBits_toBits]

theorem toBits_ofBits (b : BitVec 64) : (ofBits b).toBits = b := by
  simp only [ofBits, toBits, ofBool_getLsbD, ContentType.toBits_ofBits]
  simp (disch := decide) only [BitVec.extractLsb'_append_extractLsb'_eq_extractLsb']
  exact BitVec.extractLsb'_eq_self

theorem number_lt (f : ContentFlags) : f.number < 2 ^ 64 := by
  rw [← toNat_toBits]
  exact f.toBits.isLt

/-- The flags that are read from a word are those that add up to it. -/
theorem ofBits_eq_iff (b : BitVec 64) (f : ContentFlags) :
    ofBits b = f ↔ b.toNat = f.number := by
  rw [← toNat_toBits, BitVec.toNat_inj]
  constructor
  · rintro rfl
    rw [toBits_ofBits]
  · rintro rfl
    rw [ofBits_toBits]

end ContentFlags

namespace ProcessorFlags

def number (f : ProcessorFlags) : Nat :=
  f.idealProcessor.toNat + 2 ^ 2 * f.affinityMask.toNat + 2 ^ 4 * f.systemMode.toNat

theorem toNat_toByte (f : ProcessorFlags) : f.toByte.toNat = f.number := by
  show (f.systemMode ++ f.affinityMask ++ f.idealProcessor).toNat = f.number
  simp only [toNat_append_bits, number]
  omega

theorem ofByte_toByte (f : ProcessorFlags) : ofByte f.toByte = f := by
  simp (disch := decide) only [ofByte, toByte, BitVec.extractLsb'_append_eq_of_add_le,
    BitVec.extractLsb'_append_eq_of_le, Nat.reduceSub, BitVec.extractLsb'_eq_self]

theorem toByte_ofByte (b : UInt8) : (ofByte b).toByte = b := by
  apply UInt8.toBitVec_inj.mp
  simp only [ofByte, toByte]
  simp (disch := decide) only [BitVec.extractLsb'_append_extractLsb'_eq_extractLsb']
  exact BitVec.extractLsb'_eq_self

theorem ofByte_eq_iff (b : UInt8) (f : ProcessorFlags) : ofByte b = f ↔ b.toNat = f.number := by
  rw [← toNat_toByte, UInt8.toNat_inj]
  constructor
  · rintro rfl
    rw [toByte_ofByte]
  · rintro rfl
    rw [ofByte_toByte]

end ProcessorFlags

end Cartridge
