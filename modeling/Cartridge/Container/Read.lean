import Cartridge.Container.Load
import Cartridge.Storage.FileRange

/-!
# Reading from a container

Sections come from their override file, from the logo region, or from the ExeFS in use, in
this order; only code that comes from the ExeFS is decompressed. The RomFS is located and
never read here.
-/
namespace Cartridge.Container

open Arithmetic Procedure

variable {m : Type → Type} [Monad m] [Arithmetic m]

/-- The section that holds the program code. -/
def codeSection : String := ".code"

/-- The section that holds the logo, which newer containers keep in a region of its own. -/
def logoSection : String := "logo"

/-- Reads a region after checking that it lies within its file. -/
def readRegion (fs : FileSystem) (file : Handle) (offset size : UInt64) (what : String) :
    Except ContainerError Bytes :=
  let fileSize := fs.sizeOf file
  if fileSize.toNat < offset.toNat + size.toNat then
    .error (.regionOutOfBounds what offset size fileSize)
  else (fs.readExactly file offset size.toNat).mapError .file

/-- Reads a section from its override file, as it is. -/
def readOverrideSection (fs : FileSystem) (name : String) : ProcedureOver m Bytes := do
  load fs
  let c ← container
  if c.naming.fileName? name = none then throw (.notFound name)
  match c.overrides.section? name with
  | .override path =>
    match fs.wholeFile? path with
    | some bytes =>
      note .warning s!"File {path.text} overriding built-in ExeFS file"
      return bytes
    | none =>
      note .warning s!"Override {path.text} could not be read, using the built-in section"
  | .embedded => pure ()
  throw (.notUsed s!"override for section '{name}'")

/-- Reads the logo from its own region. -/
def readLogo (fs : FileSystem) (region : Region) : ProcedureOver m Bytes := do
  let file ← openFile fs
  let offset ← sum (← container).offset (← unitBytesM region.offset)
  let size ← unitBytesM region.size
  match readRegion fs file offset size "logo region" with
  | .ok bytes => return bytes
  | .error e =>
    note .error "Could not read NCCH logo"
    throw e

/-- Reads a section from the ExeFS in use. -/
def readStoredSection (fs : FileSystem) (name : String) : ProcedureOver m Bytes := do
  let c ← container
  let some store := c.store? | throw (.notUsed "ExeFS")
  let some index := store.table.position? name | throw (.notUsed s!"ExeFS section '{name}'")
  let slot := store.table.slots.get index
  note .debug <|
    s!"{index.val} - offset: {Hex.wide 8 slot.offset.toNat}, " ++
      s!"size: {Hex.wide 8 slot.size.toNat}, name: {slot.name.text}"
  let data ← sum store.base (UInt64.ofNat SectionTable.byteSize)
  let offset ← sum data slot.offset.toUInt64
  let bytes ← ofExcept id
    (readRegion fs store.file offset slot.size.toUInt64 s!"ExeFS section '{name}'")
  if name = codeSection && c.isCompressed then
    ofExcept .compression (Compression.decompress bytes)
  else return bytes

/-- Whether a failure to read an override file leaves the built-in section to be read. -/
def fallsBack (e : ContainerError) : Bool := e.status == .notUsed || e.status == .notFound

/-- Reads a section, from wherever it is to be read. -/
def readSection (fs : FileSystem) (name : String) : ProcedureOver m Bytes := do
  load fs
  match ← attempt (readOverrideSection fs name) with
  | .ok bytes => return bytes
  | .error e => if !fallsBack e then throw e
  let c ← container
  if name = logoSection && !c.overrides.exefs.isOverride then
    match c.header with
    | some header => if header.logo.isPresent then return ← readLogo fs header.logo
    | none => pure ()
    note .info "Attempting to load logo from the ExeFS"
  readStoredSection fs name

/-- Locates the RomFS that overrides the one of the container. -/
def locateOverrideRomfs (fs : FileSystem) : ProcedureOver m FileRange := do
  ensureHeader fs
  match (← container).overrides.romfs with
  | .override path =>
    match fs.openPath path with
    | .ok file =>
      note .warning s!"File {path.text} overriding built-in RomFS"
      return ⟨file, path, 0, fs.sizeOf file⟩
    | .error e => note .warning s!"Override {path.text} could not be opened: {e.message}"
  | .embedded => pure ()
  throw (.notUsed "RomFS override")

/-- Locates the RomFS that the header declares. -/
def locateEmbeddedRomfs (fs : FileSystem) : ProcedureOver m FileRange := do
  let c ← container
  if c.hasRomfs then
    let offset ← sum c.offset (← unitBytesM c.romfsRegion.offset)
    let size ← unitBytesM c.romfsRegion.size
    note .debug s!"RomFS offset:                {Hex.wide 8 offset.toNat}"
    note .debug s!"RomFS size:                  {Hex.wide 8 size.toNat}"
    let file ← openFile fs
    return ⟨file, c.path, offset, size⟩
  else
    note .debug "RomFS requested from NCCH which has no RomFS"
    throw (.notUsed "RomFS")

/-- Locates the RomFS; one that overrides comes first. -/
def locateRomfs (fs : FileSystem) : ProcedureOver m FileRange := do
  ensureHeader fs
  match ← attempt (locateOverrideRomfs fs) with
  | .ok range => return range
  | .error _ => locateEmbeddedRomfs fs

/-- The program identifier that the header holds. -/
def readProgramId (fs : FileSystem) : ProcedureOver m UInt64 := do
  ensureHeader fs
  match (← container).header with
  | some header => return header.programId
  | none => return 0

end Cartridge.Container
