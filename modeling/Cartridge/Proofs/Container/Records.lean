import Cartridge.Proofs.Container.Loading
import Cartridge.Proofs.Record.Fields
import Cartridge.Proofs.Storage.Access

/-!
# Records in the bytes of a file

A record can be read at a place exactly if its bytes are there, and is then made of these bytes.
-/
namespace Cartridge.Container

variable {fs : FileSystem} {file : Handle} {start : UInt64}

/-- The error of a read that cannot be done. -/
def shortRead (file : Handle) (start length : Nat) : ContainerError :=
  .file (.shortRead (UInt64.ofNat start) length (FileSystem.refusal file start))

theorem readExactly_shortRead {n : Nat} (hn : 0 < n) (h : ¬fs.Readable file start.toNat n) :
    (fs.readExactly file start n).mapError ContainerError.file =
      .error (shortRead file start.toNat n) := by
  rw [FileSystem.readExactly_of_not_readable hn h, shortRead, UInt64.ofNat_toNat]
  rfl

theorem headerAt_of_not_readable (h : ¬fs.Readable file start.toNat 0x200) :
    headerAt fs file start = .error (shortRead file start.toNat 0x200) := by
  rw [headerAt, readExactly_shortRead (n := ContainerHeader.byteSize) (by decide) h]
  rfl

theorem headerAt_of_readable (h : fs.Readable file start.toNat 0x200) :
    ∃ block : Block ContainerHeader.byteSize,
      block.toList = ((fs.bytesBehind file).drop start.toNat).take 0x200 ∧
      headerAt fs file start =
        (do
          (ContainerHeader.ofBlock block).validate.mapError .header
          return .ofBlock block) := by
  obtain ⟨bytes, block, hbytes, hblock, hlist⟩ :=
    FileSystem.readExactly_block (n := ContainerHeader.byteSize) (by decide) h
  have hofBytes : ContainerHeader.ofBytes bytes = .ok (.ofBlock block) := by
    simp only [ContainerHeader.ofBytes, hblock]
  refine ⟨block, hlist, ?_⟩
  simp only [headerAt, hbytes, hofBytes, ok_mapError_bind]

theorem extendedAt_of_not_readable (h : ¬fs.Readable file start.toNat 0x800) :
    extendedAt fs file start = .error (shortRead file start.toNat 0x800) := by
  rw [extendedAt, readExactly_shortRead (n := ExtendedHeader.byteSize) (by decide) h]
  rfl

theorem extendedAt_of_readable (h : fs.Readable file start.toNat 0x800) :
    ∃ block : Block ExtendedHeader.byteSize,
      block.toList = ((fs.bytesBehind file).drop start.toNat).take 0x800 ∧
      extendedAt fs file start = .ok (.ofBlock block) := by
  obtain ⟨bytes, block, hbytes, hblock, hlist⟩ :=
    FileSystem.readExactly_block (n := ExtendedHeader.byteSize) (by decide) h
  have hofBytes : ExtendedHeader.ofBytes bytes = .ok (.ofBlock block) := by
    simp only [ExtendedHeader.ofBytes, hblock]
  refine ⟨block, hlist, ?_⟩
  rw [extendedAt, hbytes, ok_mapError_bind, hofBytes]
  rfl

theorem tableAt_of_not_readable {limit : UInt64} (h : ¬fs.Readable file start.toNat 0x200) :
    tableAt fs file start limit = .error (shortRead file start.toNat 0x200) := by
  rw [tableAt, readExactly_shortRead (n := SectionTable.byteSize) (by decide) h]
  rfl

theorem tableAt_of_readable (limit : UInt64) (h : fs.Readable file start.toNat 0x200) :
    ∃ block : Block SectionTable.byteSize,
      block.toList = ((fs.bytesBehind file).drop start.toNat).take 0x200 ∧
      tableAt fs file start limit =
        (do
          (SectionTable.boundsAt (fs.bytesBehind file) start.toNat limit).mapError .sectionTable
          return .ofBlock block) := by
  obtain ⟨bytes, block, hbytes, hblock, hlist⟩ :=
    FileSystem.readExactly_block (n := SectionTable.byteSize) (by decide) h
  have hofBytes : SectionTable.ofBytes bytes = .ok (.ofBlock block) := by
    simp only [SectionTable.ofBytes, hblock]
  refine ⟨block, hlist, ?_⟩
  simp only [tableAt, hbytes, hofBytes, ok_mapError_bind, SectionTable.checkBounds_ofBlock hlist]

theorem readable_of_tableAt {limit : UInt64} {table : SectionTable}
    (h : tableAt fs file start limit = .ok table) : fs.Readable file start.toNat 0x200 := by
  by_cases hread : fs.Readable file start.toNat 0x200
  · exact hread
  · rw [tableAt_of_not_readable hread] at h
    cases h

/-- What can be read from is a file, and has the size that is shown for it. -/
theorem sizeOf_le_of_readable {n : Nat} (hn : 0 < n) (h : fs.Readable file start.toNat n) :
    (fs.sizeOf file).toNat ≤ (fs.bytesBehind file).length := by
  cases file with
  | directory =>
    have hfits := h.2
    simp only [FileSystem.bytesBehind, List.length_nil] at hfits
    omega
  | file number =>
    rw [FileSystem.sizeOf, FileSystem.bytesBehind, UInt64.toNat_ofNat', Array.length_toList]
    exact Nat.mod_le _ _

end Cartridge.Container
