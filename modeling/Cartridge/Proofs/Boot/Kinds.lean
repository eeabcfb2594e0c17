import Cartridge.Boot.FileKind
import Cartridge.Proofs.Bytes

/-!
# What the contents of a file show

The type of a file is told from the magic numbers near its start, in a fixed order. The name of the
file only has a say if none of them is there.
-/
namespace Cartridge

namespace FileKind

/-- The magic numbers of the executables that are neither containers nor images. -/
def foreignMagics : List (List UInt8) := [[0x33, 0x44, 0x53, 0x58], [0x7f, 0x45, 0x4c, 0x46]]

variable {fs : FileSystem} {path : Path} {number : Nat} {b : Bytes}

/-- As many bytes as show the type of a file begin with what the file begins with. -/
theorem hasAt_probe (b : Bytes) {start n : Nat} {expected : List UInt8}
    (hlength : expected.length = n) (h : start + n ≤ probeSize) :
    Bytes.hasAt (b.extract 0 probeSize) start expected =
      ((b.toList.drop start).take n == expected) := by
  have hwindow := window_window b.toList 0 probeSize h
  rw [List.drop_zero, Nat.zero_add] at hwindow
  simp only [Bytes.hasAt, hlength, Array.toList_extract, List.extract_eq_take_drop, List.drop_zero,
    Nat.sub_zero, Nat.add_sub_cancel_left, hwindow]

/-- The magic numbers in the order in which they are looked for. -/
theorem ofBytes_probe (b : Bytes) :
    ofBytes (b.extract 0 probeSize) =
      if b.toList.take 4 = [0x33, 0x44, 0x53, 0x58] then .threeDsx
      else if b.toList.take 4 = [0x7f, 0x45, 0x4c, 0x46] then .elf
      else if (b.toList.drop 0x100).take 4 = containerMagic then .cxi
      else if (b.toList.drop 0x100).take 4 = imageMagic then .cci
      else .unknown := by
  unfold ofBytes
  rw [hasAt_probe _ (n := 4) rfl (by decide),
    hasAt_probe _ (n := 4) rfl (by decide),
    hasAt_probe _ (n := 4) rfl (by decide),
    hasAt_probe _ (n := 4) rfl (by decide), List.drop_zero]
  simp only [beq_iff_eq]

theorem ofContents_of_file (hopen : fs.openHandle path = .ok (.file number)) :
    ofContents fs path = ofBytes ((fs.bytesOf number).extract 0 probeSize) := by
  unfold ofContents
  rw [hopen]
  rfl

theorem ofBytes_probe_eq_cxi_iff :
    ofBytes (b.extract 0 probeSize) = .cxi ↔
      b.toList.take 4 ∉ foreignMagics ∧ (b.toList.drop 0x100).take 4 = containerMagic := by
  rw [ofBytes_probe, foreignMagics]
  grind

theorem ofBytes_probe_eq_cci_iff :
    ofBytes (b.extract 0 probeSize) = .cci ↔
      b.toList.take 4 ∉ foreignMagics ∧ (b.toList.drop 0x100).take 4 = imageMagic := by
  have hne : containerMagic ≠ imageMagic := by decide
  rw [ofBytes_probe, foreignMagics]
  grind

/-- Contents of no known type have neither of the magic numbers that the headers need. -/
theorem magic_of_probe_eq_unknown (h : ofBytes (b.extract 0 probeSize) = .unknown) :
    (b.toList.drop 0x100).take 4 ≠ containerMagic ∧ (b.toList.drop 0x100).take 4 ≠ imageMagic := by
  rw [ofBytes_probe] at h
  grind

/-- The name only has a say if the contents have none. -/
theorem ofContents_of_resolve {kind : FileKind} (h : resolve fs path = kind) :
    ofContents fs path = kind ∨ ofContents fs path = .unknown := by
  unfold resolve at h
  split at h
  · exact Or.inr ‹_›
  · exact Or.inl h

theorem resolve_of_ofContents {kind : FileKind} (h : ofContents fs path = kind)
    (hknown : kind ≠ .unknown) : resolve fs path = kind := by
  unfold resolve
  split
  · exact absurd (h.symm.trans ‹_›) hknown
  · exact h

end FileKind

end Cartridge
