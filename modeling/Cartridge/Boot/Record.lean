import Cartridge.Boot.FileKind
import Cartridge.Container.Read

/-!
# Booting

Booting a file finds its type, loads the container that it is or holds, and notes the
program identifier and the place of the RomFS. Of an image, the container in the first
partition is booted. What an earlier boot has noted stays until a later one replaces it.
-/
namespace Cartridge

/-- What the last boots have left behind. -/
structure BootRecord where
  programId : Option UInt64
  romfs : Option FileRange
  deriving DecidableEq, Repr

namespace BootRecord

def empty : BootRecord := ⟨none, none⟩

/-- The outcome of a boot, the record after it, and what was logged. -/
structure Report where
  outcome : Except ContainerError FileKind
  record : BootRecord
  log : Log

/-- Where the container of an image starts. -/
def imageOffset (fs : FileSystem) (path : Path) : Except ContainerError UInt64 := do
  let file ← (fs.openPath path).mapError .file
  let bytes ← (fs.readExactly file 0 ImageHeader.byteSize).mapError .file
  let header ← (ImageHeader.ofBytes bytes).mapError .image
  (header.partitionOffset 0).mapError .image

/-- Where the container to boot starts in a file of this type. -/
def bootOffset (fs : FileSystem) (path : Path) (kind : FileKind) : Except ContainerError UInt64 :=
  match kind with
  | .cxi => .ok 0
  | .cci => imageOffset fs path
  | .elf | .threeDsx | .raw => .error (.notImplemented kind.text)
  | .unreadable | .unknown => .error (.unknownKind path)

/-- Loads a container and reads its program identifier. -/
def loadProgram (fs : FileSystem) : Procedure UInt64 := do
  Container.load fs
  Container.readProgramId fs

/-- Notes the RomFS of a loaded container. One without a RomFS changes nothing. -/
def registerRomfs (fs : FileSystem) (kind : FileKind) (record : BootRecord)
    (session : Session) : Report :=
  match (Container.locateRomfs fs).perform session with
  | (.ok range, after) =>
    let line := s!"Registered RomFS archive at {Hex.short range.offset.toNat}, " ++
      s!"size {Hex.short range.size.toNat}"
    ⟨.ok kind, { record with romfs := some range }, after.log ++ [⟨.debug, line⟩]⟩
  | (.error e, after) =>
    if e.status = .notUsed then
      let line := s!"{after.container.path.text} has no RomFS to register"
      ⟨.ok kind, record, after.log ++ [⟨.info, line⟩]⟩
    else ⟨.error e, record, after.log⟩

/-- Boots a file into a record. -/
def boot (fs : FileSystem) (path : Path) (naming : Naming) (record : BootRecord) : Report :=
  match fs.openPath path with
  | .error e => ⟨.error (.file e), record, [⟨.error, s!"Failed to open {path.text}"⟩]⟩
  | .ok _ =>
    let kind := FileKind.resolve fs path
    let log := FileKind.disagreement fs path ++
      [⟨.info, s!"Loading file {path.text} as {kind.text}..."⟩]
    match bootOffset fs path kind with
    | .error e =>
      let last :=
        match e with
        | .unknownKind _ => [⟨.error, s!"File {path.text} is of unknown type."⟩]
        | _ => []
      ⟨.error e, record, log ++ last⟩
    | .ok offset =>
      let session := ⟨(Container.new path offset).withNaming naming, log⟩
      match (loadProgram fs).perform session with
      | (.error e, after) => ⟨.error e, record, after.log⟩
      | (.ok programId, after) =>
        registerRomfs fs kind { record with programId := some programId } after

end BootRecord

end Cartridge
