import Cartridge.Log
import Cartridge.Override.Naming
import Cartridge.Storage.FileSystem

/-!
# Override files

Where a section, the whole ExeFS or the RomFS is read from: the container itself,
or a file that was found next to it. The files are looked for once, and what happens to them
later does not change the answer.
-/
namespace Cartridge

inductive Source where
  | embedded
  | override (path : Path)
  deriving DecidableEq, Repr

namespace Source

def path? : Source → Option Path
  | .embedded => none
  | .override path => some path

def isOverride (s : Source) : Bool := s.path?.isSome

/-- A path if there is a file at it. -/
def ofFile (fs : FileSystem) (path : Path) : Source :=
  if fs.isFile path then .override path else .embedded

end Source

/-- The override files that were found for a container. -/
structure OverrideSet where
  exefs : Source
  romfs : Source
  sections : List (String × Path)
  deriving DecidableEq, Repr

namespace OverrideSet

def empty : OverrideSet := ⟨.embedded, .embedded, []⟩

/-- The files for sections: every entry of the conventions whose file is there, in their
order, provided that the directory is. -/
def sectionFiles (fs : FileSystem) (path : Path) (naming : Naming) : List (String × Path) :=
  let directory := path.withSuffix naming.directorySuffix
  if fs.isDirectory directory then
    (naming.files.map fun entry => (entry.name, directory.join entry.fileName)).filter
      fun entry => fs.isFile entry.2
  else []

/-- Looks for the override files of the container at a path. -/
def resolve (fs : FileSystem) (path : Path) (naming : Naming) : OverrideSet where
  exefs := .ofFile fs (path.withSuffix naming.imageSuffix)
  romfs := .ofFile fs (path.withSuffix naming.romfsSuffix)
  sections := sectionFiles fs path naming

/-- Where a section is read from, whatever the whole ExeFS is read from. -/
def section? (o : OverrideSet) (name : String) : Source :=
  match o.sections.lookup name with
  | some path => .override path
  | none => .embedded

/-- Whether any part of the container is overridden. -/
def isTainted (o : OverrideSet) : Bool :=
  o.exefs.isOverride || o.romfs.isOverride || !o.sections.isEmpty

/-- The lines that are logged when these files have been found. -/
def log (o : OverrideSet) : Log :=
  o.sections.map fun (name, path) =>
    ⟨.debug, s!"Section '{name}' will be read from {path.text}"⟩

end OverrideSet

end Cartridge
