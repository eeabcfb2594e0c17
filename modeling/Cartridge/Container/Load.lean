import Cartridge.Container.Session
import Cartridge.Storage.Access

/-!
# Loading a container

The file is opened, the header read and checked, the override files looked for, the
extended header read and compared with the header, and the section table read from the
container or from an override image. A container that has been loaded stays so,
and one whose loading failed answers with the same status from then on.
-/
namespace Cartridge.Container

open Arithmetic Procedure

variable {m : Type → Type} [Monad m]

def yesNo (b : Bool) : String := if b then "yes" else "no"

/-- Opens the file of the container, if it is not open already. -/
def openFile (fs : FileSystem) : ProcedureOver m Handle := do
  let c ← container
  match c.file with
  | some file => return file
  | none =>
    match fs.openPath c.path with
    | .error e =>
      note .warning s!"Failed to open {c.path.text}"
      throw (.file e)
    | .ok file =>
      note .debug s!"Opened {c.path.text}"
      update fun c => { c with file := some file, stage := .opened }
      return file

def readHeader (fs : FileSystem) (file : Handle) : ProcedureOver m ContainerHeader := do
  let c ← container
  let bytes ← ofExcept .file (fs.readExactly file c.offset ContainerHeader.byteSize)
  let header ← ofExcept .header (ContainerHeader.ofBytes bytes)
  ofExcept .header header.validate
  update fun c => c.keepHeader header
  note .debug s!"Program ID:                  {Hex.id header.programId}"
  note .debug s!"Product code:                {header.productCode.text}"
  return header

/-- Looks for override files. Done once while loading, and again whenever it is asked for. -/
def findOverrides (fs : FileSystem) : ProcedureOver m Unit := do
  let c ← container
  let found := OverrideSet.resolve fs c.path c.naming
  append found.log
  update fun c => { c with overrides := found }
  if found.isTainted then
    note .warning
      s!"Loaded NCCH {c.path.text} is tainted, application behavior may not be as expected!"
  else
    note .debug s!"Loaded NCCH {c.path.text} is not tainted"

def noteExtended (extended : ExtendedHeader) : ProcedureOver m Unit := do
  let code := extended.codeSet
  let system := extended.capabilities.system
  note .debug s!"Name:                        {code.name.text}"
  note .debug s!"Code compressed:             {yesNo code.isCompressed}"
  note .debug s!"Entry point:                 {Hex.wide 8 code.text.address.toNat}"
  note .debug s!"Code size:                   {Hex.wide 8 code.text.size.toNat}"
  note .debug s!"Stack size:                  {Hex.wide 8 code.stackSize.toNat}"
  note .debug s!"Bss size:                    {Hex.wide 8 code.bssSize.toNat}"
  note .debug s!"Core version:                {system.coreVersion}"
  note .debug s!"Thread priority:             {Hex.short system.priority.toNat}"
  note .debug s!"Resource limit category:     {system.resourceLimitCategory}"
  note .debug s!"System mode:                 {system.processor.systemMode.toNat}"

variable [Arithmetic m]

/-- Reads the extended header. It has to name the program that the header names: if it does
not, it is still encrypted. -/
def readExtended (fs : FileSystem) (file : Handle) (header : ContainerHeader) :
    ProcedureOver m Unit := do
  let c ← container
  let start ← sum c.offset (UInt64.ofNat ContainerHeader.byteSize)
  let bytes ← ofExcept .file (fs.readExactly file start ExtendedHeader.byteSize)
  let extended ← ofExcept .extendedHeader (ExtendedHeader.ofBytes bytes)
  update fun c => { c with isCompressed := extended.codeSet.isCompressed }
  noteExtended extended
  if !header.flags.noCrypto then
    note .info
      s!"NCCH {c.path.text} does not set the no-crypto flag, assuming it was decrypted"
  if extended.programId != header.programId then
    note .error "ExHeader program ID mismatch: the ROM is probably encrypted."
    throw (.encrypted header.programId extended.programId)
  update fun c => { c with extended := some extended }

/-- The file at a path, and the section table at its start. -/
def imageTable? (fs : FileSystem) (path : Path) : Option (Handle × SectionTable) := do
  let file ← (fs.openPath path).toOption
  let bytes ← (fs.readExactly file 0 SectionTable.byteSize).toOption
  return (file, ← (SectionTable.ofBytes bytes).toOption)

/-- The section table of an override image, if the image can be read and all of its used
sections end within it. -/
def imageStoreM (fs : FileSystem) (path : Path) : m (Option SectionStore) := do
  let some (file, table) := imageTable? fs path | return none
  match ← table.checkBoundsM (fs.sizeOf file) with
  | .ok () => return some ⟨file, 0, table, .override path⟩
  | .error _ => return none

def imageStore? (fs : FileSystem) (path : Path) : Option SectionStore :=
  Id.run (imageStoreM fs path)

/-- Reads the section table of the container itself, if it has an ExeFS. -/
def readEmbeddedTable (fs : FileSystem) (file : Handle) (header : ContainerHeader) :
    ProcedureOver m Unit := do
  if (← container).hasExefs then
    let place ← unitBytesM header.exefs.offset
    let size ← unitBytesM header.exefs.size
    update fun c => { c with exefsOffset := place }
    note .debug s!"ExeFS offset:                {Hex.wide 8 place.toNat}"
    note .debug s!"ExeFS size:                  {Hex.wide 8 size.toNat}"
    let base ← sum (← container).offset place
    let bytes ← ofExcept .file (fs.readExactly file base SectionTable.byteSize)
    let table ← ofExcept .sectionTable (SectionTable.ofBytes bytes)
    ofExcept .sectionTable (← table.checkBoundsM size)
    update fun c => { c with store := some ⟨file, base, table, .embedded⟩ }

/-- Finds the ExeFS to use. An override image that cannot be used is forgotten. -/
def readTable (fs : FileSystem) (file : Handle) (header : ContainerHeader) :
    ProcedureOver m Unit := do
  match (← container).overrides.exefs with
  | .embedded => readEmbeddedTable fs file header
  | .override path =>
    match fs.openPath path with
    | .error e => note .debug e.message
    | .ok _ => pure ()
    match ← imageStoreM fs path with
    | some store =>
      note .debug s!"Loading ExeFS section from {path.text}"
      update fun c => c.keepImage store
    | none =>
      note .warning s!"Ignoring unreadable ExeFS override {path.text}"
      update fun c => { c with overrides := { c.overrides with exefs := .embedded } }
      readEmbeddedTable fs file header

/-- All steps of the loading, one after the other. -/
def loadSteps (fs : FileSystem) : ProcedureOver m Unit := do
  let file ← openFile fs
  let header ← readHeader fs file
  update fun c => { c with stage := .headerValidated }
  findOverrides fs
  if (← container).hasExtended then readExtended fs file header
  readTable fs file header

/-- Loads the container, unless that was done before. -/
def load (fs : FileSystem) : ProcedureOver m Unit := do
  match (← container).stage with
  | .loaded => return
  | .failed status => throw (.previouslyFailed status)
  | .unopened | .opened | .headerValidated =>
    match ← attempt (loadSteps fs) with
    | .ok () => update fun c => { c with stage := .loaded }
    | .error e =>
      update fun c => { c with stage := .failed e.status }
      throw e

/-- Loads the container, and is content with a valid header: what fails after it concerns only
the executable sections. -/
def ensureHeader (fs : FileSystem) : ProcedureOver m Unit := do
  match ← attempt (load fs) with
  | .ok () => return
  | .error e =>
    if (← container).hasHeader then
      note .debug s!"Using the header of a partially loaded container: {e.message}"
    else throw e

end Cartridge.Container
