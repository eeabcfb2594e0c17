import Cartridge.Proofs.Bytes
import Cartridge.Storage.Access

/-!
# Reading from an open file

A read succeeds exactly if the bytes are there, and what it gives is a piece of the file.
-/
namespace Cartridge.FileSystem

variable {fs : FileSystem} {file : Handle} {offset : UInt64} {n : Nat}

/-- The bytes behind an open handle. A directory has none. -/
def bytesBehind (fs : FileSystem) : Handle → List UInt8
  | .file number => (fs.bytesOf number).toList
  | .directory => []

/-- Whether this many bytes can be read at a place: none can at 2^63 and above. -/
def Readable (fs : FileSystem) (file : Handle) (start length : Nat) : Prop :=
  start < 2 ^ 63 ∧ start + length ≤ (fs.bytesBehind file).length

instance {start length : Nat} : Decidable (fs.Readable file start length) := by
  unfold Readable
  infer_instance

/-- Why bytes cannot be read at a place. -/
def refusal (file : Handle) (start : Nat) : StorageFault :=
  if 2 ^ 63 ≤ start then .invalidArgument
  else
    match file with
    | .directory => .isADirectory
    | .file _ => .endOfFile

theorem readExactly_of_readable (hn : 0 < n)
    (h : fs.Readable file offset.toNat n) :
    ∃ bytes, fs.readExactly file offset n = .ok bytes ∧
      bytes.toList = ((fs.bytesBehind file).drop offset.toNat).take n := by
  obtain ⟨hoffset, hbytes⟩ := h
  cases file with
  | directory =>
    simp only [bytesBehind, List.length_nil] at hbytes
    omega
  | file number =>
    simp only [bytesBehind, Array.length_toList] at hbytes
    have hlow : ¬(0x8000000000000000 : UInt64) ≤ offset := by
      rw [UInt64.le_iff_toNat_le]
      exact Nat.not_le.mpr hoffset
    refine ⟨(fs.bytesOf number).extract offset.toNat (offset.toNat + n), ?_, ?_⟩
    · simp only [readExactly, readAt, Nat.ne_of_gt hn, if_false, hlow, hbytes, if_true]
      rfl
    · simp [bytesBehind]

/-- What is read fills a block. -/
theorem readExactly_block (hn : 0 < n) (h : fs.Readable file offset.toNat n) :
    ∃ bytes block, fs.readExactly file offset n = .ok bytes ∧
      bytes.block? n = some block ∧
      block.toList = ((fs.bytesBehind file).drop offset.toNat).take n := by
  obtain ⟨bytes, hread, hbytes⟩ := readExactly_of_readable hn h
  have hsize : n ≤ bytes.size := by
    have hfits := h.2
    rw [← Array.length_toList, hbytes, List.length_take, List.length_drop]
    omega
  obtain ⟨block, hblock, htake⟩ := Bytes.block?_of_le hsize
  refine ⟨bytes, block, hread, hblock, ?_⟩
  rw [htake, hbytes, List.take_take, Nat.min_self]

theorem readExactly_of_not_readable (hn : 0 < n)
    (h : ¬fs.Readable file offset.toNat n) :
    fs.readExactly file offset n =
      .error (.shortRead offset n (refusal file offset.toNat)) := by
  simp only [readExactly, readAt, refusal, Nat.ne_of_gt hn, if_false]
  by_cases hhigh : (0x8000000000000000 : UInt64) ≤ offset
  · have hplace : 2 ^ 63 ≤ offset.toNat := UInt64.le_iff_toNat_le.mp hhigh
    simp only [hhigh, hplace, if_true]
    rfl
  · have hplace : ¬2 ^ 63 ≤ offset.toNat := fun h => hhigh (UInt64.le_iff_toNat_le.mpr h)
    simp only [hhigh, hplace, if_false]
    cases file with
    | directory => rfl
    | file number =>
      have hbytes : ¬offset.toNat + n ≤ (fs.bytesOf number).size := fun hbytes =>
        h ⟨Nat.not_le.mp hplace, by simpa only [bytesBehind, Array.length_toList] using hbytes⟩
      simp only [hbytes, if_false]
      rfl

end Cartridge.FileSystem
