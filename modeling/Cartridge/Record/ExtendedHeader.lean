import Cartridge.Text.FixedName
import Cartridge.Text.Hex
import Cartridge.Text.Listing

/-!
# Extended headers

The 0x800 bytes after a container header: how the code is laid out in memory
and what the program may do. The capabilities stand there twice, the second time inside
the signed access descriptor, and both copies have one shape.
-/
namespace Cartridge

/-- Where one segment of the code goes. -/
structure CodeSegment where
  address : UInt32
  maxPages : UInt32
  size : UInt32
  deriving DecidableEq, Repr

namespace CodeSegment

def ofBlock (b : Block 12) : CodeSegment := ⟨b.word32 0, b.word32 4, b.word32 8⟩

def toBlock (s : CodeSegment) : Block 12 :=
  Block.ofWord32 s.address ++ Block.ofWord32 s.maxPages ++ Block.ofWord32 s.size

def lines (s : CodeSegment) : List String :=
  [s!"Address ....... : {Hex.short s.address.toNat}",
   s!"Max pages ..... : {Hex.short s.maxPages.toNat}",
   s!"Size .......... : {Hex.short s.size.toNat}"]

end CodeSegment

structure CodeSet where
  name : FixedName 8
  reservedFlags : Block 5
  flag : UInt8
  remasterVersion : UInt16
  text : CodeSegment
  stackSize : UInt32
  readOnly : CodeSegment
  reserved : Block 4
  data : CodeSegment
  bssSize : UInt32
  deriving DecidableEq

namespace CodeSet

def ofBlock (b : Block 0x40) : CodeSet where
  name := ⟨b.cut 0 8⟩
  reservedFlags := b.cut 8 5
  flag := b.byteAt 0xd
  remasterVersion := b.word16 0xe
  text := CodeSegment.ofBlock (b.cut 0x10 12)
  stackSize := b.word32 0x1c
  readOnly := CodeSegment.ofBlock (b.cut 0x20 12)
  reserved := b.cut 0x2c 4
  data := CodeSegment.ofBlock (b.cut 0x30 12)
  bssSize := b.word32 0x3c

def toBlock (c : CodeSet) : Block 0x40 :=
  c.name.bytes ++ c.reservedFlags ++ Block.ofByte c.flag ++ Block.ofWord16 c.remasterVersion ++
    c.text.toBlock ++ Block.ofWord32 c.stackSize ++ c.readOnly.toBlock ++ c.reserved ++
    c.data.toBlock ++ Block.ofWord32 c.bssSize

/-- The lowest bit of the flag byte. -/
def isCompressed (c : CodeSet) : Bool := c.flag &&& 1 != 0

/-- The second bit of the flag byte. -/
def isSdApplication (c : CodeSet) : Bool := c.flag &&& 2 != 0

end CodeSet

structure SystemInfo where
  saveDataSize : UInt64
  jumpId : UInt64
  reserved : Block 0x30
  deriving DecidableEq

namespace SystemInfo

def ofBlock (b : Block 0x40) : SystemInfo := ⟨b.word64 0, b.word64 8, b.cut 0x10 0x30⟩

def toBlock (s : SystemInfo) : Block 0x40 :=
  Block.ofWord64 s.saveDataSize ++ Block.ofWord64 s.jumpId ++ s.reserved

end SystemInfo

structure StorageInfo where
  extSaveDataId : Block 8
  systemSaveDataId : Block 8
  reserved : Block 8
  accessInfo : Block 7
  otherAttributes : UInt8
  deriving DecidableEq

namespace StorageInfo

def ofBlock (b : Block 0x20) : StorageInfo where
  extSaveDataId := b.cut 0 8
  systemSaveDataId := b.cut 8 8
  reserved := b.cut 0x10 8
  accessInfo := b.cut 0x18 7
  otherAttributes := b.byteAt 0x1f

def toBlock (s : StorageInfo) : Block 0x20 :=
  s.extSaveDataId ++ s.systemSaveDataId ++ s.reserved ++ s.accessInfo ++
    Block.ofByte s.otherAttributes

end StorageInfo

/-- Three fields in one byte, from the lowest bit on. -/
structure ProcessorFlags where
  idealProcessor : BitVec 2
  affinityMask : BitVec 2
  systemMode : BitVec 4
  deriving DecidableEq, Repr

namespace ProcessorFlags

def ofByte (b : UInt8) : ProcessorFlags where
  idealProcessor := b.toBitVec.extractLsb' 0 2
  affinityMask := b.toBitVec.extractLsb' 2 2
  systemMode := b.toBitVec.extractLsb' 4 4

def toByte (f : ProcessorFlags) : UInt8 := ⟨f.systemMode ++ f.affinityMask ++ f.idealProcessor⟩

end ProcessorFlags

/-- What the program may use of the system. -/
structure LocalCapabilities where
  programId : UInt64
  coreVersion : UInt32
  reservedFlags : Block 2
  processor : ProcessorFlags
  priority : UInt8
  resourceLimits : Vector (Block 2) 0x10
  storage : StorageInfo
  serviceAccess : Vector (Block 8) 0x20
  extraServiceAccess : Vector (Block 8) 2
  reserved : Block 0xf
  resourceLimitCategory : UInt8
  deriving DecidableEq

namespace LocalCapabilities

def ofBlock (b : Block 0x170) : LocalCapabilities where
  programId := b.word64 0
  coreVersion := b.word32 8
  reservedFlags := b.cut 0xc 2
  processor := ProcessorFlags.ofByte (b.byteAt 0xe)
  priority := b.byteAt 0xf
  resourceLimits := b.row 0x10 2 0x10
  storage := StorageInfo.ofBlock (b.cut 0x30 0x20)
  serviceAccess := b.row 0x50 8 0x20
  extraServiceAccess := b.row 0x150 8 2
  reserved := b.cut 0x160 0xf
  resourceLimitCategory := b.byteAt 0x16f

def toBlock (c : LocalCapabilities) : Block 0x170 :=
  Block.ofWord64 c.programId ++ Block.ofWord32 c.coreVersion ++ c.reservedFlags ++
    Block.ofByte c.processor.toByte ++ Block.ofByte c.priority ++
    Block.concat c.resourceLimits ++ c.storage.toBlock ++ Block.concat c.serviceAccess ++
    Block.concat c.extraServiceAccess ++ c.reserved ++ Block.ofByte c.resourceLimitCategory

/-- The names of the services that may be used; blank entries are left out. -/
def services (c : LocalCapabilities) : List String :=
  ((c.serviceAccess.toList ++ c.extraServiceAccess.toList).filter (!·.isZero)).map
    fun b => FixedName.text ⟨b⟩

end LocalCapabilities

structure KernelCapabilities where
  descriptors : Vector (Block 4) 28
  reserved : Block 0x10
  deriving DecidableEq

namespace KernelCapabilities

def ofBlock (b : Block 0x80) : KernelCapabilities := ⟨b.row 0 4 28, b.cut 0x70 0x10⟩

def toBlock (c : KernelCapabilities) : Block 0x80 := Block.concat c.descriptors ++ c.reserved

end KernelCapabilities

structure AccessControl where
  descriptors : Block 15
  version : UInt8
  deriving DecidableEq

namespace AccessControl

def ofBlock (b : Block 0x10) : AccessControl := ⟨b.cut 0 15, b.byteAt 15⟩

def toBlock (a : AccessControl) : Block 0x10 := a.descriptors ++ Block.ofByte a.version

end AccessControl

/-- Everything that a program is allowed, in the shape that occurs twice. -/
structure Capabilities where
  system : LocalCapabilities
  kernel : KernelCapabilities
  access : AccessControl
  deriving DecidableEq

namespace Capabilities

def ofBlock (b : Block 0x200) : Capabilities where
  system := LocalCapabilities.ofBlock (b.cut 0 0x170)
  kernel := KernelCapabilities.ofBlock (b.cut 0x170 0x80)
  access := AccessControl.ofBlock (b.cut 0x1f0 0x10)

def toBlock (c : Capabilities) : Block 0x200 :=
  c.system.toBlock ++ c.kernel.toBlock ++ c.access.toBlock

end Capabilities

/-- The capabilities once more, with a signature over them. -/
structure AccessDescriptor where
  signature : Block 0x100
  modulus : Block 0x100
  capabilities : Capabilities
  deriving DecidableEq

namespace AccessDescriptor

def ofBlock (b : Block 0x400) : AccessDescriptor :=
  ⟨b.cut 0 0x100, b.cut 0x100 0x100, Capabilities.ofBlock (b.cut 0x200 0x200)⟩

def toBlock (d : AccessDescriptor) : Block 0x400 :=
  d.signature ++ d.modulus ++ d.capabilities.toBlock

end AccessDescriptor

structure ExtendedHeader where
  codeSet : CodeSet
  dependencyIds : Vector (Block 8) 0x30
  systemInfo : SystemInfo
  capabilities : Capabilities
  descriptor : AccessDescriptor
  deriving DecidableEq

/-- Why bytes are no extended header. -/
inductive ExtendedHeaderError where
  | tooSmall (expected actual : Nat)
  deriving DecidableEq, Repr

def ExtendedHeaderError.message : ExtendedHeaderError → String
  | .tooSmall expected actual =>
    s!"expected {Hex.short expected} bytes for extended header but had only {Hex.short actual}"

namespace ExtendedHeader

def byteSize : Nat := 0x800

def ofBlock (b : Block byteSize) : ExtendedHeader where
  codeSet := CodeSet.ofBlock (b.cut 0 0x40)
  dependencyIds := b.row 0x40 8 0x30
  systemInfo := SystemInfo.ofBlock (b.cut 0x1c0 0x40)
  capabilities := Capabilities.ofBlock (b.cut 0x200 0x200)
  descriptor := AccessDescriptor.ofBlock (b.cut 0x400 0x400)

def toBlock (h : ExtendedHeader) : Block byteSize :=
  h.codeSet.toBlock ++ Block.concat h.dependencyIds ++ h.systemInfo.toBlock ++
    h.capabilities.toBlock ++ h.descriptor.toBlock

/-- The extended header at the start of a byte string. -/
def ofBytes (b : Bytes) : Except ExtendedHeaderError ExtendedHeader :=
  match b.block? byteSize with
  | some block => .ok (ofBlock block)
  | none => .error (.tooSmall byteSize b.size)

def programId (h : ExtendedHeader) : UInt64 := h.capabilities.system.programId

/-- The identifiers of the modules that the program needs; zero entries are left out. -/
def dependencies (h : ExtendedHeader) : List UInt64 :=
  (h.dependencyIds.toList.map Block.toWord64).filter (· != 0)

def lines (h : ExtendedHeader) : List String :=
  let code := h.codeSet
  let system := h.capabilities.system
  [s!"Name .................... : {code.name.text}",
   s!"Code compressed ......... : {code.isCompressed}",
   s!"SD application .......... : {code.isSdApplication}",
   s!"Remaster version ........ : {code.remasterVersion}"] ++
  Listing.part "Text" code.text.lines ++
  Listing.part "Read-only data" code.readOnly.lines ++
  Listing.part "Data" code.data.lines ++
  [s!"Stack size .............. : {Hex.short code.stackSize.toNat}",
   s!"BSS size ................ : {Hex.short code.bssSize.toNat}",
   s!"Save data size .......... : {Hex.short h.systemInfo.saveDataSize.toNat}",
   s!"Jump ID ................. : {Hex.id h.systemInfo.jumpId}",
   s!"Program ID .............. : {Hex.id system.programId}",
   s!"Core version ............ : {Hex.short system.coreVersion.toNat}",
   s!"Priority ................ : {system.priority}",
   s!"Ideal processor ......... : {system.processor.idealProcessor.toNat}",
   s!"Affinity mask ........... : {Hex.short system.processor.affinityMask.toNat}",
   s!"System mode ............. : {system.processor.systemMode.toNat}",
   s!"Resource limit category . : {system.resourceLimitCategory}"] ++
  Listing.part "Services" system.services ++
  Listing.part "Dependencies" (h.dependencies.map Hex.id)

end ExtendedHeader

end Cartridge
