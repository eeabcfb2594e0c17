import Cartridge.Proofs.Boot.Record

/-!
# Which files are booted

The type of a file is told from its first bytes or else from its name, and the place of the
container to boot is told again from the header of the image or of the container. The magic numbers
that the headers need are the ones that show the type: what only the name suggests is never booted.
-/
namespace Cartridge

open Procedure Container

namespace BootRecord

variable {fs : FileSystem} {path : Path} {offset : UInt64} {naming : Naming} {record : BootRecord}
  {number : Nat} {kind : FileKind}

/-! ## When a boot succeeds -/

/-- A first load succeeds exactly if the container is loaded after it. -/
theorem run_load_eq_ok_iff :
    ((Session.begin path offset naming).run fs .load).1 = .ok .done ↔
      (Session.loading fs path offset naming).container.stage = .loaded := by
  obtain ⟨houtcome, -, hstage⟩ := load_requirements fs path offset naming
  have hnext : (Session.loading fs path offset naming).container.stage = _ := hstage
  rw [houtcome, hnext]
  cases firstFailure (requirements fs path offset naming) with
  | ok _ => exact iff_of_true rfl rfl
  | error e => exact iff_of_false nofun nofun

/-- A boot succeeds if there is a container to boot and it can be loaded. -/
theorem outcome_boot_eq_ok_iff :
    (boot fs path naming record).outcome = .ok kind ↔
      FileKind.resolve fs path = kind ∧ ∃ offset, bootOffset fs path kind = .ok offset ∧
        (Session.loading fs path offset naming).container.stage = .loaded := by
  constructor
  · intro h
    have hends := booted fs path naming record
    cases hboot : boot fs path naming record with
    | mk outcome noted log =>
      rw [hboot] at hends h
      cases hends with
      | refused => cases h
      | @done offset _ _ _ hplace hloaded =>
        cases h
        exact ⟨rfl, offset, hplace, hloaded.stage_eq⟩
  · rintro ⟨rfl, offset, hplace, hstage⟩
    obtain ⟨_, _, _, -, hboot⟩ := boot_of_loaded hplace hstage record
    rw [hboot]

/-- After a boot that succeeds the record names the program in the header of the container. -/
theorem programId_boot (hkind : FileKind.resolve fs path = kind)
    (hplace : bootOffset fs path kind = .ok offset)
    (hstage : (Session.loading fs path offset naming).container.stage = .loaded)
    (hopen : fs.openHandle path = .ok (.file number)) :
    (boot fs path naming record).record.programId =
      some (UInt64.ofNat (wordAt (fs.bytesOf number).toList (offset.toNat + 0x118) 8)) := by
  subst hkind
  obtain ⟨file, header, _, hloaded, hboot⟩ := boot_of_loaded hplace hstage record
  have hfile : fs.openPath path = .ok (.file number) := by
    rw [FileSystem.openPath, hopen]
    rfl
  cases hfile.symm.trans hloaded.file_at
  obtain ⟨block, rfl, -, hlist⟩ := headerAt_eq_ok hloaded.header_read
  have hid := ContainerHeader.programId_ofBlock hlist
  rw [hloaded.offset_eq] at hid
  rw [hboot, noting, ← UInt64.ofNat_toNat (x := (ContainerHeader.ofBlock block).programId), hid]
  rfl

/-- What is loaded is a file, and has the magic number of a container. -/
theorem file_of_loaded
    (hstage : (Session.loading fs path offset naming).container.stage = .loaded) :
    ∃ number, fs.openHandle path = .ok (.file number) ∧
      ((fs.bytesOf number).toList.drop (offset.toNat + 0x100)).take 4 = containerMagic := by
  obtain ⟨file, _, hloaded, -⟩ := load_of_stage hstage
  obtain ⟨⟨⟨hlow, hfits⟩, hmagic, -⟩, -⟩ := (loaded_iff hloaded.file_at).mp hstage
  cases file with
  | directory =>
    simp only [FileSystem.bytesBehind, List.length_nil] at hfits
    omega
  | file number =>
    exact ⟨number, mapError_eq_ok.mp hloaded.file_at, hmagic⟩

/-- An image has a place to boot from if its first partition has a size. -/
theorem imageOffset_eq_ok_iff (hopen : fs.openHandle path = .ok (.file number)) :
    let b := (fs.bytesOf number).toList
    imageOffset fs path = .ok offset ↔
      (b.drop 0x100).take 4 = imageMagic ∧ 0x200 ≤ b.length ∧ wordAt b 0x124 4 ≠ 0 ∧
        offset = UInt64.ofNat (0x200 * wordAt b 0x120 4) := by
  intro b
  have hfile : fs.openPath path = .ok (.file number) := by
    rw [FileSystem.openPath, hopen]
    rfl
  unfold imageOffset
  rw [hfile, ok_mapError_bind]
  by_cases hread : fs.Readable (.file number) (0 : UInt64).toNat 0x200
  · obtain ⟨bytes, block, hbytes, hblock, hlist⟩ :=
      FileSystem.readExactly_block (n := ImageHeader.byteSize) (by decide) hread
    have hfits : 0x200 ≤ b.length := by
      have hend := hread.2
      rw [UInt64.toNat_zero, Nat.zero_add] at hend
      exact hend
    have hmagic := ImageHeader.magic_ofBlock hlist
    have hpartition := ImageHeader.partitionOffset_ofBlock hlist 0 (by decide)
    simp only [UInt64.toNat_zero, Nat.zero_add, Nat.mul_zero, Nat.add_zero] at hmagic hpartition
    rw [hbytes, ok_mapError_bind, bind_eq_ok]
    simp only [mapError_eq_ok, ImageHeader.ofBytes_eq_ok_iff, hblock, hfits, true_and]
    constructor
    · rintro ⟨_, ⟨_, ⟨rfl⟩, rfl, hnamed⟩, hoffset⟩
      rw [hpartition] at hoffset
      split at hoffset
      · cases hoffset
      · rename_i hsize
        cases hoffset
        exact ⟨hmagic.symm.trans hnamed, hsize, rfl⟩
    · rintro ⟨hnamed, hsize, rfl⟩
      refine ⟨_, ⟨block, rfl, rfl, hmagic.trans hnamed⟩, ?_⟩
      rw [hpartition]
      exact if_neg hsize
  · have hfail :=
      FileSystem.readExactly_of_not_readable (n := ImageHeader.byteSize) (by decide) hread
    have hshort : ¬0x200 ≤ b.length := fun hfits =>
      hread ⟨by decide, by rw [UInt64.toNat_zero, Nat.zero_add]; exact hfits⟩
    rw [hfail, error_mapError_bind]
    constructor
    · intro hoffset
      cases hoffset
    · intro hall
      exact absurd hall.2.1 hshort

/-! ## Containers and images -/

/-- The contents that are booted: as what, and from where. The load is the first one of a container
at that place. -/
inductive Bootable (fs : FileSystem) (path : Path) (naming : Naming) (b : List UInt8) :
    FileKind → UInt64 → Prop
  | container (start : b.take 4 ∉ FileKind.foreignMagics)
      (magic : (b.drop 0x100).take 4 = containerMagic)
      (loads : ((Session.begin path 0 naming).run fs .load).1 = .ok .done) :
      Bootable fs path naming b .cxi 0
  | image {offset : UInt64} (start : b.take 4 ∉ FileKind.foreignMagics)
      (magic : (b.drop 0x100).take 4 = imageMagic)
      (fits : 0x200 ≤ b.length)
      (size_ne : wordAt b 0x124 4 ≠ 0)
      (place : offset.toNat = 0x200 * wordAt b 0x120 4)
      (loads : ((Session.begin path offset naming).run fs .load).1 = .ok .done) :
      Bootable fs path naming b .cci offset

theorem Bootable.resolve_eq {offset : UInt64}
    (hopen : fs.openHandle path = .ok (.file number))
    (h : Bootable fs path naming (fs.bytesOf number).toList kind offset) :
    FileKind.resolve fs path = kind := by
  have hshown := FileKind.ofContents_of_file hopen
  cases h with
  | container hstart hmagic _ =>
    rw [FileKind.ofBytes_probe_eq_cxi_iff.mpr ⟨hstart, hmagic⟩] at hshown
    exact FileKind.resolve_of_ofContents hshown nofun
  | image hstart hmagic _ _ _ _ =>
    rw [FileKind.ofBytes_probe_eq_cci_iff.mpr ⟨hstart, hmagic⟩] at hshown
    exact FileKind.resolve_of_ofContents hshown nofun

theorem Bootable.loaded {offset : UInt64} {b : List UInt8}
    (h : Bootable fs path naming b kind offset) :
    (Session.loading fs path offset naming).container.stage = .loaded := by
  cases h with
  | container _ _ hloads => exact run_load_eq_ok_iff.mp hloads
  | image _ _ _ _ _ hloads => exact run_load_eq_ok_iff.mp hloads

theorem Bootable.bootOffset_eq {offset : UInt64}
    (hopen : fs.openHandle path = .ok (.file number))
    (h : Bootable fs path naming (fs.bytesOf number).toList kind offset) :
    bootOffset fs path kind = .ok offset := by
  cases h with
  | container => rfl
  | image _ hmagic hfits hsize hplace _ =>
    refine (imageOffset_eq_ok_iff hopen).mpr ⟨hmagic, hfits, hsize, ?_⟩
    rw [← hplace, UInt64.ofNat_toNat]

/-- What is booted as a container or as an image shows it in its contents: the header that was
needed has the magic number, so that the name had no say. -/
theorem bootable_of_loaded (hopen : fs.openHandle path = .ok (.file number))
    (hkind : FileKind.resolve fs path = kind) (hplace : bootOffset fs path kind = .ok offset)
    (hstage : (Session.loading fs path offset naming).container.stage = .loaded) :
    Bootable fs path naming (fs.bytesOf number).toList kind offset := by
  have hloads := run_load_eq_ok_iff.mpr hstage
  have hresolved := FileKind.ofContents_of_resolve hkind
  rw [FileKind.ofContents_of_file hopen] at hresolved
  cases kind with
  | cxi =>
    cases hplace
    obtain ⟨found, hfound, hmagic⟩ := file_of_loaded hstage
    cases hopen.symm.trans hfound
    rw [UInt64.toNat_zero, Nat.zero_add] at hmagic
    rcases hresolved with hshown | hunknown
    · exact .container (FileKind.ofBytes_probe_eq_cxi_iff.mp hshown).1 hmagic hloads
    · exact absurd hmagic (FileKind.magic_of_probe_eq_unknown hunknown).1
  | cci =>
    obtain ⟨hmagic, hfits, hsize, rfl⟩ := (imageOffset_eq_ok_iff hopen).mp hplace
    have hlow : 0x200 * wordAt (fs.bytesOf number).toList 0x120 4 < 2 ^ 64 := by
      have hword := wordAt_lt (fs.bytesOf number).toList 0x120 4
      omega
    rcases hresolved with hshown | hunknown
    · exact .image (FileKind.ofBytes_probe_eq_cci_iff.mp hshown).1 hmagic hfits hsize
        (UInt64.toNat_ofNat_of_lt' hlow) hloads
    · exact absurd hmagic (FileKind.magic_of_probe_eq_unknown hunknown).2
  | elf => cases hplace
  | threeDsx => cases hplace
  | raw => cases hplace
  | unreadable => cases hplace
  | unknown => cases hplace

/-- A file is booted exactly if its contents show a container or an image, and the container itself
or the one in the first partition can be loaded. The record then names the program of that
container. Contents of no known type are not booted, whatever the name suggests. -/
theorem outcome_boot_iff (fs : FileSystem) (path : Path) (naming : Naming) (record : BootRecord) :
    let report := boot fs path naming record
    (∀ kind, report.outcome = .ok kind ↔ ∃ number offset,
      fs.openHandle path = .ok (.file number) ∧
        Bootable fs path naming (fs.bytesOf number).toList kind offset) ∧
    (∀ kind number offset, fs.openHandle path = .ok (.file number) →
      Bootable fs path naming (fs.bytesOf number).toList kind offset →
      report.record.programId =
        some (UInt64.ofNat (wordAt (fs.bytesOf number).toList (offset.toNat + 0x118) 8))) ∧
    (FileKind.ofContents fs path = .unknown → ∀ kind, report.outcome ≠ .ok kind) := by
  intro report
  have hiff : ∀ kind, report.outcome = .ok kind ↔ ∃ number offset,
      fs.openHandle path = .ok (.file number) ∧
        Bootable fs path naming (fs.bytesOf number).toList kind offset := by
    intro kind
    rw [outcome_boot_eq_ok_iff]
    constructor
    · rintro ⟨hkind, offset, hplace, hstage⟩
      obtain ⟨number, hopen, -⟩ := file_of_loaded hstage
      exact ⟨number, offset, hopen, bootable_of_loaded hopen hkind hplace hstage⟩
    · rintro ⟨number, offset, hopen, hbootable⟩
      exact ⟨hbootable.resolve_eq hopen, offset, hbootable.bootOffset_eq hopen, hbootable.loaded⟩
  refine ⟨hiff, fun kind number offset hopen hbootable => ?_, fun hunknown kind hok => ?_⟩
  · exact programId_boot (hbootable.resolve_eq hopen) (hbootable.bootOffset_eq hopen)
      hbootable.loaded hopen
  · obtain ⟨number, offset, hopen, hbootable⟩ := (hiff kind).mp hok
    rw [FileKind.ofContents_of_file hopen] at hunknown
    have hmagic := FileKind.magic_of_probe_eq_unknown hunknown
    cases hbootable with
    | container _ hnamed _ => exact hmagic.1 hnamed
    | image _ hnamed _ _ _ _ => exact hmagic.2 hnamed

/-- A container with nothing in it but its header, for the program of this number. -/
def bareContainer (id : Nat) : List UInt8 :=
  List.replicate 0x100 0 ++ containerMagic ++ List.replicate 0x14 0 ++ octets 8 id ++
    List.replicate 0xe0 0

/-- An image with this container right after its header, in the first partition. -/
def imageOf (container : List UInt8) : List UInt8 :=
  List.replicate 0x100 0 ++ imageMagic ++ List.replicate 0x1c 0 ++ octets 4 1 ++ octets 4 1 ++
    List.replicate 0xd8 0 ++ container

/-- An image with the name of raw code, and a text with the name of a container. -/
def misnamed : FileSystem where
  contents := #[(imageOf (bareContainer 0x4000000123400)).toArray,
    (List.replicate 0x200 0x2e).toArray]
  entries := [(["game.bin"], .file 0), (["notes.cxi"], .file 1)]
  workingDirectory := []

/-- The image is booted, and the text is not. -/
theorem outcome_boot_misnamed :
    let image := boot misnamed ⟨"game.bin"⟩ .standard .empty
    let text := boot misnamed ⟨"notes.cxi"⟩ .standard .empty
    image.outcome = .ok .cci ∧ image.record.programId = some 0x4000000123400 ∧
      ∀ kind, text.outcome ≠ .ok kind := by
  have hopen : misnamed.openHandle ⟨"game.bin"⟩ = .ok (.file 0) := rfl
  have hloaded :
      (Session.loading misnamed ⟨"game.bin"⟩ 0x200 .standard).container.stage = .loaded :=
    loading_of_requirements (by decide +kernel)
  have hbootable :
      Bootable misnamed ⟨"game.bin"⟩ .standard (misnamed.bytesOf 0).toList .cci 0x200 :=
    .image (by decide +kernel) (by decide +kernel) (by decide +kernel) (by decide +kernel)
      (by decide +kernel) (run_load_eq_ok_iff.mpr hloaded)
  have hunknown : FileKind.ofContents misnamed ⟨"notes.cxi"⟩ = .unknown := by decide +kernel
  obtain ⟨hiff, hprogram, -⟩ := outcome_boot_iff misnamed ⟨"game.bin"⟩ .standard .empty
  obtain ⟨-, -, hrefused⟩ := outcome_boot_iff misnamed ⟨"notes.cxi"⟩ .standard .empty
  refine ⟨(hiff .cci).mpr ⟨0, 0x200, hopen, hbootable⟩, ?_, hrefused hunknown⟩
  rw [hprogram .cci 0 0x200 hopen hbootable]
  decide +kernel

end BootRecord
end Cartridge
