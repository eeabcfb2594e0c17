import Cartridge.Container.Error
import Cartridge.Log
import Cartridge.Override.Set

/-!
# Containers

A container is known by the path of its file and its offset in that file. Its headers
are read once and kept; sections and the RomFS are read when they are asked for. Which parts a
container has is noted beside the parts, at the step of the loading that finds it out, and it is by
these notes that the parts are used and shown.
-/
namespace Cartridge

/-- How far the loading of a container has come. -/
inductive Stage where
  | unopened
  | opened
  | headerValidated
  | loaded
  | failed (status : Status)
  deriving DecidableEq, Repr

/-- The ExeFS that sections are read from. -/
structure SectionStore where
  file : Handle
  /-- Where the section table starts in the file. -/
  base : UInt64
  table : SectionTable
  /-- Whether the file is the container or an override image. -/
  source : Source
  deriving DecidableEq

structure Container where
  path : Path
  offset : UInt64
  naming : Naming
  stage : Stage
  file : Option Handle
  overrides : OverrideSet
  header : Option ContainerHeader
  extended : Option ExtendedHeader
  store : Option SectionStore
  hasHeader : Bool
  hasExtended : Bool
  /-- Whether there is an ExeFS, in the container or as an override image. -/
  hasExefs : Bool
  hasRomfs : Bool
  isCompressed : Bool
  /-- Where the ExeFS starts in the container, zero if an image overrides it. -/
  exefsOffset : UInt64
  deriving DecidableEq

namespace Container

/-- A container of which nothing has been read. -/
def new (path : Path) (offset : UInt64) : Container where
  path := path
  offset := offset
  naming := Naming.standard
  stage := .unopened
  file := none
  overrides := .empty
  header := none
  extended := none
  store := none
  hasHeader := false
  hasExtended := false
  hasExefs := false
  hasRomfs := false
  isCompressed := false
  exefsOffset := 0

/-- The same container with other naming conventions, which hold for what is loaded after. -/
def withNaming (c : Container) (naming : Naming) : Container := { c with naming := naming }

/-- Keeps a header, and notes which parts it declares. -/
def keepHeader (c : Container) (header : ContainerHeader) : Container :=
  { c with
    header := some header
    hasHeader := true
    hasExtended := header.hasExtended
    hasExefs := header.hasExefs
    hasRomfs := header.hasRomfs }

/-- Keeps an override image, which is an ExeFS whatever the header declares. -/
def keepImage (c : Container) (store : SectionStore) : Container :=
  { c with store := some store, hasExefs := true, exefsOffset := 0 }

/-- Whether the sections come from an override image. -/
def usesImage (c : Container) : Bool := c.store.any fun store => store.source.isOverride

def isTainted (c : Container) : Bool := c.overrides.isTainted

def isLoaded (c : Container) : Bool := c.stage == .loaded

/-- The header, once it has been read and found valid. -/
def header? (c : Container) : Option ContainerHeader := if c.hasHeader then c.header else none

/-- The place of the RomFS in the container, as the header has it. -/
def romfsRegion (c : Container) : HashedRegion :=
  match c.header with
  | some header => header.romfs
  | none => ⟨0, 0, 0, 0⟩

/-- The extended header of a container that is loaded. -/
def extended? (c : Container) : Option ExtendedHeader :=
  if c.hasExtended && c.isLoaded then c.extended else none

/-- The ExeFS that is in use. -/
def store? (c : Container) : Option SectionStore := if c.hasExefs then c.store else none

/-- The section table that is in use. -/
def table? (c : Container) : Option SectionTable := c.store?.map SectionStore.table

end Container

end Cartridge
