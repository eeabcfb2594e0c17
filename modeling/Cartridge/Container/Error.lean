import Cartridge.Compression.Backward
import Cartridge.Record.ContainerHeader
import Cartridge.Record.ExtendedHeader
import Cartridge.Record.ImageHeader
import Cartridge.Record.SectionTable
import Cartridge.Storage.Error

/-!
# Failures of a container

Why loading a container or reading from it fails. Every failure has a status, the coarse
outcome that a container remembers once its loading has failed.
-/
namespace Cartridge

/-- The coarse outcome of a failure. -/
inductive Status where
  | failed
  | invalidFormat
  | encrypted
  | notUsed
  | notFound
  | notImplemented
  deriving DecidableEq, Repr

def Status.text : Status → String
  | .failed => "error"
  | .invalidFormat => "invalid format"
  | .encrypted => "encrypted"
  | .notUsed => "not used"
  | .notFound => "not found"
  | .notImplemented => "not implemented"

inductive ContainerError where
  | file (error : AccessError)
  | header (error : HeaderError)
  | extendedHeader (error : ExtendedHeaderError)
  | sectionTable (error : SectionTableError)
  | image (error : ImageError)
  | compression (error : Compression.Error)
  /-- A region that a header declares ends after the end of its file. -/
  | regionOutOfBounds (what : String) (offset size fileSize : UInt64)
  /-- The two headers name different programs. -/
  | encrypted (programId extendedProgramId : UInt64)
  /-- An optional part is asked for and not there. -/
  | notUsed (what : String)
  /-- The conventions name no override file for a section. -/
  | notFound (name : String)
  | notImplemented (kind : String)
  | unknownKind (path : Path)
  | previouslyFailed (status : Status)
  deriving DecidableEq

namespace ContainerError

def message : ContainerError → String
  | .file error => error.message
  | .header error => error.message
  | .extendedHeader error => error.message
  | .sectionTable error => error.message
  | .image error => error.message
  | .compression error => error.message
  | .regionOutOfBounds what offset size fileSize =>
    s!"{what} at {Hex.short offset.toNat} with size {Hex.short size.toNat} " ++
      s!"extends past the end of the file ({Hex.short fileSize.toNat} bytes)"
  | .encrypted programId extendedProgramId =>
    s!"extended header program ID {Hex.id extendedProgramId} does not match " ++
      s!"{Hex.id programId}, the container is probably encrypted"
  | .notUsed what => s!"the container has no {what}"
  | .notFound name => s!"no override file is known for section '{name}'"
  | .notImplemented kind => s!"loading {kind} files is not implemented"
  | .unknownKind path => s!"'{path.text}' is of unknown type"
  | .previouslyFailed status => s!"the container previously failed to load ({status.text})"

/-- Too few bytes for a record count as a failed read, all other faults of a record as
an invalid format. -/
def status : ContainerError → Status
  | .file _ => .failed
  | .header (.tooSmall ..) => .failed
  | .header (.invalidMagic _) => .invalidFormat
  | .extendedHeader (.tooSmall ..) => .failed
  | .sectionTable (.tooSmall ..) => .failed
  | .sectionTable (.sectionOutOfBounds ..) => .invalidFormat
  | .image (.tooSmall ..) => .failed
  | .image _ => .invalidFormat
  | .compression _ => .invalidFormat
  | .regionOutOfBounds .. => .invalidFormat
  | .encrypted .. => .encrypted
  | .notUsed _ => .notUsed
  | .notFound _ => .notFound
  | .notImplemented _ => .notImplemented
  | .unknownKind _ => .invalidFormat
  | .previouslyFailed status => status

end ContainerError

end Cartridge
