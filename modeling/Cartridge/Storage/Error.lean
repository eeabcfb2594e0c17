import Cartridge.Storage.Path
import Cartridge.Text.Hex

/-!
# Failures of storage

What the storage itself reports, and what a reader of files makes of it: the path
it could not open, or the place and length of the read that came out short.
-/
namespace Cartridge

/-- What the storage reports. -/
inductive StorageFault where
  | notFound
  | alreadyExists
  | notADirectory
  | isADirectory
  | invalidArgument
  | nameTooLong
  | nulInPath
  | endOfFile
  | writerFull
  | invalidText
  deriving DecidableEq, Repr

def StorageFault.message : StorageFault → String
  | .notFound => "No such file or directory (os error 2)"
  | .alreadyExists => "File exists (os error 17)"
  | .notADirectory => "Not a directory (os error 20)"
  | .isADirectory => "Is a directory (os error 21)"
  | .invalidArgument => "Invalid argument (os error 22)"
  | .nameTooLong => "File name too long (os error 36)"
  | .nulInPath => "file name contained an unexpected NUL byte"
  | .endOfFile => "failed to fill whole buffer"
  | .writerFull => "failed to write whole buffer"
  | .invalidText => "stream did not contain valid UTF-8"

/-- Why a file could not be opened, created, read or written. -/
inductive AccessError where
  | cannotOpen (path : Path) (fault : StorageFault)
  | shortRead (offset : UInt64) (expected : Nat) (fault : StorageFault)
  | storage (fault : StorageFault)
  deriving DecidableEq, Repr

def AccessError.message : AccessError → String
  | .cannotOpen path fault => s!"failed to open '{path.text}': {fault.message}"
  | .shortRead offset expected fault =>
    s!"expected {Hex.short expected} bytes at offset {Hex.short offset.toNat} " ++
      s!"but read failed: {fault.message}"
  | .storage fault => fault.message

end Cartridge
