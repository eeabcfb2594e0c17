import Cartridge.Boot.Record
import Cartridge.Proofs.Boot.Kinds
import Cartridge.Proofs.Container.AfterLoad

/-!
# What a boot leaves in the record

A boot either fails and leaves the record as it is, or notes the program identifier of the container
that it loaded and, if that container has a RomFS, the place of it. A container without a RomFS does
not clear the place that an earlier boot has noted: only then is the record wrong about the
container.
-/
namespace Cartridge

open Procedure Container

namespace BootRecord

variable {fs : FileSystem} {path : Path} {offset : UInt64} {naming : Naming} {record : BootRecord}
  {file : Handle} {header : ContainerHeader} {c : Container}

/-! ## The ends of a boot -/

/-- What the record says after a boot that loaded this container. -/
def noting (fs : FileSystem) (c : Container) (file : Handle) (header : ContainerHeader)
    (record : BootRecord) : BootRecord where
  programId := some header.programId
  romfs := (romfsAnswer fs c file).toOption.or record.romfs

/-- The two ways in which a boot ends. -/
inductive Booted (fs : FileSystem) (path : Path) (naming : Naming) (record : BootRecord) :
    Report → Prop
  | refused (e : ContainerError) (log : Log) : Booted fs path naming record ⟨.error e, record, log⟩
  | done {offset : UInt64} {file : Handle} {header : ContainerHeader} (log : Log)
      (place : bootOffset fs path (FileKind.resolve fs path) = .ok offset)
      (loaded : FirstLoaded fs path offset naming file header
        (Session.loading fs path offset naming).container) :
      Booted fs path naming record
        ⟨.ok (FileKind.resolve fs path),
          noting fs (Session.loading fs path offset naming).container file header record, log⟩

theorem loadProgram_error {e : ContainerError} {next : Container}
    (h : Runs (load fs) c (.error e) next) : Runs (loadProgram fs) c (.error e) next :=
  .bind_error h

theorem loadProgram_ok (h : LoadedOn fs file header c) {start : Container}
    (hload : Runs (load fs) start (.ok ()) c) :
    Runs (loadProgram fs) start (.ok header.programId) c := by
  have hread := readProgramId_ready h.ready fs
  rw [h.header_eq] at hread
  exact .bind hload hread

theorem registerRomfs_of_ready (h : Ready c file) (fs : FileSystem) (kind : FileKind)
    (record : BootRecord) (log : Log) :
    ∃ after, registerRomfs fs kind record ⟨c, log⟩ =
      ⟨.ok kind, { record with romfs := (romfsAnswer fs c file).toOption.or record.romfs },
        after⟩ := by
  obtain ⟨after, hafter⟩ := locateRomfs_ready h fs log
  unfold registerRomfs
  rw [hafter]
  cases hanswer : romfsAnswer fs c file with
  | ok range => exact ⟨_, rfl⟩
  | error e =>
    dsimp only
    rw [if_pos (status_of_romfsAnswer hanswer)]
    exact ⟨_, rfl⟩

theorem boot_of_loaded (hplace : bootOffset fs path (FileKind.resolve fs path) = .ok offset)
    (hstage : (Session.loading fs path offset naming).container.stage = .loaded)
    (record : BootRecord) :
    ∃ file header log,
      FirstLoaded fs path offset naming file header
        (Session.loading fs path offset naming).container ∧
      boot fs path naming record =
        ⟨.ok (FileKind.resolve fs path),
          noting fs (Session.loading fs path offset naming).container file header record, log⟩ := by
  obtain ⟨file, header, hloaded, hload⟩ := load_of_stage hstage
  obtain ⟨middle, hmiddle⟩ := loadProgram_ok hloaded.toLoadedOn hload
    (FileKind.disagreement fs path ++
      [⟨.info, s!"Loading file {path.text} as {(FileKind.resolve fs path).text}..."⟩])
  change (loadProgram fs).perform ⟨(Container.new path offset).withNaming naming, _⟩ = _ at hmiddle
  obtain ⟨after, hafter⟩ := registerRomfs_of_ready hloaded.ready fs
    (FileKind.resolve fs path) { record with programId := some header.programId } middle
  refine ⟨file, header, after, hloaded, ?_⟩
  unfold boot
  rw [hloaded.file_at]
  dsimp only
  rw [hplace]
  dsimp only
  rw [hmiddle]
  dsimp only
  rw [hafter]
  rfl

theorem boot_cxi (hkind : FileKind.resolve fs path = .cxi)
    (hstage : (Session.loading fs path 0 naming).container.stage = .loaded) (record : BootRecord) :
    ∃ file header log,
      FirstLoaded fs path 0 naming file header (Session.loading fs path 0 naming).container ∧
      boot fs path naming record =
        ⟨.ok .cxi, noting fs (Session.loading fs path 0 naming).container file header record,
          log⟩ := by
  rw [← hkind]
  exact boot_of_loaded (by rw [hkind]; rfl) hstage record

theorem outcome_boot_cxi (hkind : FileKind.resolve fs path = .cxi)
    (hstage : (Session.loading fs path 0 naming).container.stage = .loaded) (record : BootRecord) :
    (boot fs path naming record).outcome = .ok .cxi := by
  obtain ⟨_, _, _, -, hboot⟩ := boot_cxi hkind hstage record
  rw [hboot]

theorem booted (fs : FileSystem) (path : Path) (naming : Naming) (record : BootRecord) :
    Booted fs path naming record (boot fs path naming record) := by
  cases hopen : fs.openPath path with
  | error e =>
    unfold boot
    rw [hopen]
    exact .refused _ _
  | ok _ =>
    cases hplace : bootOffset fs path (FileKind.resolve fs path) with
    | error e =>
      unfold boot
      rw [hopen]
      dsimp only
      rw [hplace]
      exact .refused _ _
    | ok offset =>
      by_cases hstage : (Session.loading fs path offset naming).container.stage = .loaded
      · obtain ⟨file, header, log, hloaded, hboot⟩ := boot_of_loaded hplace hstage record
        rw [hboot]
        exact .done log hplace hloaded
      · obtain ⟨e, next, hload⟩ := load_of_stage_ne hstage
        obtain ⟨after, hafter⟩ := loadProgram_error hload
          (FileKind.disagreement fs path ++
            [⟨.info, s!"Loading file {path.text} as {(FileKind.resolve fs path).text}..."⟩])
        change (loadProgram fs).perform ⟨(Container.new path offset).withNaming naming, _⟩ = _
          at hafter
        unfold boot
        rw [hopen]
        dsimp only
        rw [hplace]
        dsimp only
        rw [hafter]
        exact .refused _ _

/-! ## The record and the container that was booted -/

/-- The record says of a container what it answers itself. -/
structure Describes (fs : FileSystem) (path : Path) (offset : UInt64) (naming : Naming)
    (record : BootRecord) : Prop where
  programId_iff : ∀ id, record.programId = some id ↔
    ((Session.loading fs path offset naming).run fs .readProgramId).1 = .ok (.programId id)
  romfs_iff : ∀ range, record.romfs = some range ↔
    ((Session.loading fs path offset naming).run fs .locateRomfs).1 = .ok (.range range)

/-- A container has a RomFS if a file overrides it or its header gives it a size. -/
def HasRomfs (fs : FileSystem) (path : Path) (offset : UInt64) (naming : Naming) : Prop :=
  fs.isFile (path.withSuffix naming.romfsSuffix) = true ∨
    ∃ file, fs.openPath path = .ok file ∧
      wordAt (fs.bytesBehind file) (offset.toNat + 0x1b4) 4 ≠ 0

section

variable (h : FirstLoaded fs path offset naming file header c)
include h

theorem overrideRomfsAnswer_isSome :
    (overrideRomfsAnswer fs c).toOption.isSome =
      fs.isFile (path.withSuffix naming.romfsSuffix) := by
  unfold overrideRomfsAnswer
  rw [h.romfs_recorded, Source.ofFile]
  cases hfile : fs.isFile (path.withSuffix naming.romfsSuffix) with
  | false => rfl
  | true =>
    rw [if_pos rfl]
    dsimp only
    unfold FileSystem.isFile at hfile
    unfold FileSystem.openPath
    cases hopen : fs.openHandle (path.withSuffix naming.romfsSuffix) with
    | error fault =>
      rw [hopen] at hfile
      cases hfile
    | ok opened => rfl

theorem romfsAnswer_isSome_iff :
    (romfsAnswer fs c file).toOption.isSome = true ↔ HasRomfs fs path offset naming := by
  have hoverride := overrideRomfsAnswer_isSome h
  have hembedded := embeddedRomfsAnswer_isSome h.toLoadedOn
  obtain ⟨block, rfl, -, hlist⟩ := headerAt_eq_ok h.header_read
  have hsize := ContainerHeader.hasRomfs_ofBlock hlist
  rw [h.offset_eq, ← hembedded] at hsize
  have hfile : (∃ found, fs.openPath path = .ok found ∧
      wordAt (fs.bytesBehind found) (offset.toNat + 0x1b4) 4 ≠ 0) ↔
      wordAt (fs.bytesBehind file) (offset.toNat + 0x1b4) 4 ≠ 0 := by
    rw [h.file_at]
    simp
  rw [HasRomfs, hfile, ← hsize, ← hoverride]
  unfold romfsAnswer
  cases overrideRomfsAnswer fs c with
  | ok range => exact iff_of_true rfl (Or.inl rfl)
  | error e => simp [Except.toOption]

end

section

variable (h : FirstLoaded fs path offset naming file header
  (Session.loading fs path offset naming).container)
include h

theorem programId_noting_iff (record : BootRecord) (id : UInt64) :
    (noting fs (Session.loading fs path offset naming).container file header record).programId =
        some id ↔
      ((Session.loading fs path offset naming).run fs .readProgramId).1 = .ok (.programId id) := by
  have hprogram := h.ready.outcome_run fs .readProgramId
  simp only [answer, h.header_eq, Option.map_some, Option.getD_some] at hprogram
  rw [hprogram, noting]
  simp

/-- What is noted of a container is right, but for the RomFS of another one that stays noted if it
has none itself. -/
theorem describes_noting_iff (record : BootRecord) :
    Describes fs path offset naming
        (noting fs (Session.loading fs path offset naming).container file header record) ↔
      HasRomfs fs path offset naming ∨ record.romfs = none := by
  have hromfs : ((Session.loading fs path offset naming).run fs .locateRomfs).1 =
      (romfsAnswer fs (Session.loading fs path offset naming).container file).map .range :=
    h.ready.outcome_run fs .locateRomfs
  have hnoted : (∀ range, (noting fs (Session.loading fs path offset naming).container file header
        record).romfs = some range ↔
      ((Session.loading fs path offset naming).run fs .locateRomfs).1 = .ok (.range range)) ↔
      HasRomfs fs path offset naming ∨ record.romfs = none := by
    rw [hromfs, ← romfsAnswer_isSome_iff h, noting]
    cases romfsAnswer fs (Session.loading fs path offset naming).container file with
    | ok range => simp [Except.toOption, Except.map]
    | error e => simp [Except.toOption, Except.map, Option.eq_none_iff_forall_ne_some]
  constructor
  · intro hdescribes
    exact hnoted.mp hdescribes.romfs_iff
  · intro hclear
    exact ⟨programId_noting_iff h record, hnoted.mpr hclear⟩

end

/-! ## Boots of containers -/

section

variable (hkind : FileKind.resolve fs path = .cxi)
  (hstage : (Session.loading fs path 0 naming).container.stage = .loaded)
include hkind hstage

theorem romfs_boot_ne_none (hromfs : HasRomfs fs path 0 naming) (record : BootRecord) :
    (boot fs path naming record).record.romfs ≠ none := by
  obtain ⟨file, header, _, hloaded, hboot⟩ := boot_cxi hkind hstage record
  have hanswer := (romfsAnswer_isSome_iff hloaded).mpr hromfs
  obtain ⟨range, hrange⟩ := Option.isSome_iff_exists.mp hanswer
  rw [hboot, noting, hrange]
  exact nofun

theorem romfs_boot_of_not_hasRomfs (hnone : ¬HasRomfs fs path 0 naming) (record : BootRecord) :
    (boot fs path naming record).record.romfs = record.romfs ∧
      (Describes fs path 0 naming (boot fs path naming record).record ↔ record.romfs = none) := by
  obtain ⟨file, header, _, hloaded, hboot⟩ := boot_cxi hkind hstage record
  have hanswer := hnone
  rw [← romfsAnswer_isSome_iff hloaded, Option.not_isSome_iff_eq_none] at hanswer
  rw [hboot]
  refine ⟨by rw [noting, hanswer, Option.none_or], ?_⟩
  rw [describes_noting_iff hloaded record, or_iff_right hnone]

end

/-- A container that is cut off in its header cannot be loaded. -/
theorem outcome_boot_of_short (hkind : FileKind.resolve fs path = .cxi)
    (hopen : fs.openPath path = .ok file) (hshort : ¬fs.Readable file 0 0x200)
    (record : BootRecord) : ∃ e, (boot fs path naming record).outcome = .error e := by
  have hends := booted fs path naming record
  cases hboot : boot fs path naming record with
  | mk outcome noted log =>
    rw [hboot] at hends
    cases hends with
    | refused e => exact ⟨e, rfl⟩
    | @done offset found header _ hplace hloaded =>
      rw [hkind] at hplace
      cases hplace
      cases hopen.symm.trans hloaded.file_at
      have hread := hloaded.header_read
      rw [hloaded.offset_eq, headerAt_of_not_readable hshort] at hread
      cases hread

/-- A file is taken for a container by the magic number of its header. -/
theorem resolve_eq_cxi {number : Nat} (hopen : fs.openHandle path = .ok (.file number))
    (hstart : (fs.bytesOf number).toList.take 4 ∉ FileKind.foreignMagics)
    (hmagic : ((fs.bytesOf number).toList.drop 0x100).take 4 = containerMagic) :
    FileKind.resolve fs path = .cxi := by
  have hshown := FileKind.ofContents_of_file hopen
  rw [FileKind.ofBytes_probe_eq_cxi_iff.mpr ⟨hstart, hmagic⟩] at hshown
  exact FileKind.resolve_of_ofContents hshown nofun

/-- A container with nothing in it but a RomFS of this many units after its header. -/
def romfsContainer (units : Nat) : List UInt8 :=
  List.replicate 0x100 0 ++ containerMagic ++ List.replicate 0xac 0 ++ octets 4 1 ++
    octets 4 units ++ List.replicate 0x48 0 ++ List.replicate (0x200 * units) 0

/-- A container with a RomFS, one without, and the start of one that is cut off in its header. -/
def threeContainers : FileSystem where
  contents := #[(romfsContainer 1).toArray, (romfsContainer 0).toArray,
    ((romfsContainer 1).take 0x104).toArray]
  entries := [(["game.cxi"], .file 0), (["demo.cxi"], .file 1), (["cut.cxi"], .file 2)]
  workingDirectory := []

theorem resolve_game : FileKind.resolve threeContainers ⟨"game.cxi"⟩ = .cxi :=
  resolve_eq_cxi rfl (by decide +kernel) (by decide +kernel)

theorem resolve_demo : FileKind.resolve threeContainers ⟨"demo.cxi"⟩ = .cxi :=
  resolve_eq_cxi rfl (by decide +kernel) (by decide +kernel)

theorem resolve_cut : FileKind.resolve threeContainers ⟨"cut.cxi"⟩ = .cxi :=
  resolve_eq_cxi rfl (by decide +kernel) (by decide +kernel)

theorem loaded_game :
    (Session.loading threeContainers ⟨"game.cxi"⟩ 0 .standard).container.stage = .loaded :=
  loading_of_requirements (by decide +kernel)

theorem loaded_demo :
    (Session.loading threeContainers ⟨"demo.cxi"⟩ 0 .standard).container.stage = .loaded :=
  loading_of_requirements (by decide +kernel)

theorem outcome_boot_cut (record : BootRecord) :
    ∃ e, (boot threeContainers ⟨"cut.cxi"⟩ .standard record).outcome = .error e := by
  have hopen : threeContainers.openPath ⟨"cut.cxi"⟩ = .ok (.file 2) := rfl
  exact outcome_boot_of_short resolve_cut hopen (by decide +kernel) record

theorem hasRomfs_game : HasRomfs threeContainers ⟨"game.cxi"⟩ 0 .standard :=
  Or.inr ⟨.file 0, rfl, by decide +kernel⟩

theorem not_hasRomfs_demo : ¬HasRomfs threeContainers ⟨"demo.cxi"⟩ 0 .standard := by
  rintro (hfile | ⟨file, hopen, hsize⟩)
  · exact absurd hfile (by decide +kernel)
  · cases hopen
    exact hsize (by decide +kernel)

/-! ## The record after a boot -/

/-- After a boot that succeeds, the record names the program that was booted, and is right about the
container exactly if that has a RomFS or no earlier boot had noted one. Else the noted one stays. -/
theorem describes_boot_iff (fs : FileSystem) (path : Path) (naming : Naming) (record : BootRecord)
    {kind : FileKind} (h : (boot fs path naming record).outcome = .ok kind) :
    let after := (boot fs path naming record).record
    ∃ offset, bootOffset fs path kind = .ok offset ∧
      (Session.loading fs path offset naming).container.stage = .loaded ∧
      (∀ id, after.programId = some id ↔
        ((Session.loading fs path offset naming).run fs .readProgramId).1 = .ok (.programId id)) ∧
      (Describes fs path offset naming after ↔
        HasRomfs fs path offset naming ∨ record.romfs = none) ∧
      (¬HasRomfs fs path offset naming → after.romfs = record.romfs) := by
  intro after
  have hends := booted fs path naming record
  cases hboot : boot fs path naming record with
  | mk outcome noted log =>
    have hafter : after = noted := congrArg Report.record hboot
    rw [hboot] at hends h
    rw [hafter]
    cases hends with
    | refused => cases h
    | @done offset file header _ hplace hloaded =>
      cases h
      refine ⟨offset, hplace, hloaded.stage_eq, programId_noting_iff hloaded record,
        describes_noting_iff hloaded record, fun hnone => ?_⟩
      rw [← romfsAnswer_isSome_iff hloaded, Option.not_isSome_iff_eq_none] at hnone
      rw [noting, hnone, Option.none_or]

/-- A container that has a RomFS, booted after one that has none. -/
theorem describes_boot_game :
    let first := boot threeContainers ⟨"demo.cxi"⟩ .standard .empty
    let second := boot threeContainers ⟨"game.cxi"⟩ .standard first.record
    second.outcome = .ok .cxi ∧
      Describes threeContainers ⟨"game.cxi"⟩ 0 .standard second.record := by
  have hboot : ∀ record, (boot threeContainers ⟨"game.cxi"⟩ .standard record).outcome = .ok .cxi ∧
      Describes threeContainers ⟨"game.cxi"⟩ 0 .standard
        (boot threeContainers ⟨"game.cxi"⟩ .standard record).record := by
    intro record
    have houtcome := outcome_boot_cxi resolve_game loaded_game record
    obtain ⟨offset, hplace, -, -, hdescribes, -⟩ :=
      describes_boot_iff threeContainers ⟨"game.cxi"⟩ .standard record houtcome
    cases Except.ok.inj hplace
    exact ⟨houtcome, hdescribes.mpr (Or.inl hasRomfs_game)⟩
  exact hboot _

/-- The RomFS of the first container stays noted when one that has none is booted after it. -/
theorem romfs_left_behind :
    let first := boot threeContainers ⟨"game.cxi"⟩ .standard .empty
    let second := boot threeContainers ⟨"demo.cxi"⟩ .standard first.record
    first.outcome = .ok .cxi ∧ second.outcome = .ok .cxi ∧
      ¬HasRomfs threeContainers ⟨"demo.cxi"⟩ 0 .standard ∧
      second.record.romfs = first.record.romfs ∧
      ¬Describes threeContainers ⟨"demo.cxi"⟩ 0 .standard second.record := by
  have hsecond := romfs_boot_of_not_hasRomfs resolve_demo loaded_demo not_hasRomfs_demo
  exact ⟨outcome_boot_cxi resolve_game loaded_game _, outcome_boot_cxi resolve_demo loaded_demo _,
    not_hasRomfs_demo, (hsecond _).1,
    fun hdescribes => romfs_boot_ne_none resolve_game loaded_game hasRomfs_game _
      ((hsecond _).2.mp hdescribes)⟩

/-- A boot that fails leaves the record as it was. -/
theorem record_of_boot_error (fs : FileSystem) (path : Path) (naming : Naming) (record : BootRecord)
    {e : ContainerError} (h : (boot fs path naming record).outcome = .error e) :
    (boot fs path naming record).record = record := by
  have hends := booted fs path naming record
  cases hboot : boot fs path naming record with
  | mk outcome noted log =>
    rw [hboot] at hends h
    cases hends with
    | refused => rfl
    | done => cases h

/-- A boot that fails, after one that has noted a program and its RomFS. -/
theorem record_of_boot_cut :
    let first := boot threeContainers ⟨"game.cxi"⟩ .standard .empty
    let second := boot threeContainers ⟨"cut.cxi"⟩ .standard first.record
    (∃ e, second.outcome = .error e) ∧ first.record.romfs ≠ none ∧
      second.record = first.record := by
  have hfirst := romfs_boot_ne_none resolve_game loaded_game hasRomfs_game .empty
  have hboot : ∀ record,
      (∃ e, (boot threeContainers ⟨"cut.cxi"⟩ .standard record).outcome = .error e) ∧
        (boot threeContainers ⟨"cut.cxi"⟩ .standard record).record = record := by
    intro record
    obtain ⟨e, he⟩ := outcome_boot_cut record
    exact ⟨⟨e, he⟩, record_of_boot_error threeContainers ⟨"cut.cxi"⟩ .standard record he⟩
  exact ⟨(hboot _).1, hfirst, (hboot _).2⟩

end BootRecord
end Cartridge
