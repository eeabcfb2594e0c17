import Cartridge.Storage.FileSystem

/-!
# Access to files

Opening, reading and writing, with failures that name the path or the place of the read.
-/
namespace Cartridge.FileSystem

def openPath (fs : FileSystem) (p : Path) : Except AccessError Handle :=
  (fs.openHandle p).mapError (.cannotOpen p)

/-- Reads exactly `length` bytes at an offset. -/
def readExactly (fs : FileSystem) (handle : Handle) (offset : UInt64) (length : Nat) :
    Except AccessError Bytes :=
  (fs.readAt handle offset length).mapError (.shortRead offset length)

/-- All bytes of a file, if it can be opened and read. -/
def wholeFile? (fs : FileSystem) (p : Path) : Option Bytes := do
  let handle ← (fs.openHandle p).toOption
  (fs.readAll handle).toOption

/-- Writes a whole file, over the one that is there. -/
def store (fs : FileSystem) (p : Path) (bytes : Bytes) : Except AccessError FileSystem :=
  (fs.writeFile p bytes).mapError (.cannotOpen p)

end Cartridge.FileSystem
