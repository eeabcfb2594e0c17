/-!
# Naming conventions of override files

Override files lie next to a container and are found by their names: the name of the
container with a suffix, or a file of a given name in the directory with a suffix.
-/
namespace Cartridge

/-- The file name that overrides a section. -/
structure SectionFile where
  name : String
  fileName : String
  deriving DecidableEq, Repr

structure Naming where
  directorySuffix : String
  imageSuffix : String
  romfsSuffix : String
  files : List SectionFile
  deriving DecidableEq, Repr

namespace Naming

/-- The conventions that hold where nothing else is said. -/
def standard : Naming where
  directorySuffix := ".exefsdir"
  imageSuffix := ".exefs"
  romfsSuffix := ".romfs"
  files := [⟨".code", "code.bin"⟩, ⟨"logo", "logo.bcma.lz"⟩, ⟨"icon", "icon.icn"⟩,
    ⟨"banner", "banner.bnr"⟩]

/-- The file name of a section; of several, the first. -/
def fileName? (n : Naming) (name : String) : Option String :=
  (n.files.find? fun entry => entry.name = name).map SectionFile.fileName

end Naming

end Cartridge
