import Cartridge.Record.ContentFlags
import Cartridge.Text.FixedName
import Cartridge.Text.Listing

/-!
# Container headers

The first 0x200 bytes of an NCCH container: identification, the flags and the
places of its regions. Reading never looks at what the bytes mean; the magic
number is a check of its own.
-/
namespace Cartridge

/-- The magic number of a container. -/
def containerMagic : List UInt8 := [0x4e, 0x43, 0x43, 0x48]

structure ContainerHeader where
  signature : Block 0x100
  magic : FixedName 4
  contentSize : UInt32
  partitionId : Block 8
  makerCode : FixedName 2
  version : UInt16
  reserved0 : Block 4
  programId : UInt64
  reserved1 : Block 0x10
  logoHash : Block 0x20
  productCode : FixedName 0x10
  extendedHash : Block 0x20
  extendedSize : UInt32
  reserved2 : Block 4
  flags : ContentFlags
  plain : Region
  logo : Region
  exefs : HashedRegion
  romfs : HashedRegion
  exefsHash : Block 0x20
  romfsHash : Block 0x20
  deriving DecidableEq

/-- Why bytes are no container header. -/
inductive HeaderError where
  | tooSmall (expected actual : Nat)
  | invalidMagic (magic : FixedName 4)
  deriving DecidableEq

def HeaderError.message : HeaderError → String
  | .tooSmall expected actual =>
    s!"expected {Hex.short expected} bytes for header but had only {Hex.short actual}"
  | .invalidMagic magic => s!"expected magic \"NCCH\" but got {magic.quoted}"

namespace ContainerHeader

def byteSize : Nat := 0x200

def ofBlock (b : Block byteSize) : ContainerHeader where
  signature := b.cut 0 0x100
  magic := ⟨b.cut 0x100 4⟩
  contentSize := b.word32 0x104
  partitionId := b.cut 0x108 8
  makerCode := ⟨b.cut 0x110 2⟩
  version := b.word16 0x112
  reserved0 := b.cut 0x114 4
  programId := b.word64 0x118
  reserved1 := b.cut 0x120 0x10
  logoHash := b.cut 0x130 0x20
  productCode := ⟨b.cut 0x150 0x10⟩
  extendedHash := b.cut 0x160 0x20
  extendedSize := b.word32 0x180
  reserved2 := b.cut 0x184 4
  flags := ContentFlags.ofBlock (b.cut 0x188 8)
  plain := Region.ofBlock (b.cut 0x190 8)
  logo := Region.ofBlock (b.cut 0x198 8)
  exefs := HashedRegion.ofBlock (b.cut 0x1a0 0x10)
  romfs := HashedRegion.ofBlock (b.cut 0x1b0 0x10)
  exefsHash := b.cut 0x1c0 0x20
  romfsHash := b.cut 0x1e0 0x20

/-- The fields one after the other. -/
def toBlock (h : ContainerHeader) : Block byteSize :=
  h.signature ++ h.magic.bytes ++ Block.ofWord32 h.contentSize ++ h.partitionId ++
    h.makerCode.bytes ++ Block.ofWord16 h.version ++ h.reserved0 ++ Block.ofWord64 h.programId ++
    h.reserved1 ++ h.logoHash ++ h.productCode.bytes ++ h.extendedHash ++
    Block.ofWord32 h.extendedSize ++ h.reserved2 ++ h.flags.toBlock ++ h.plain.toBlock ++
    h.logo.toBlock ++ h.exefs.toBlock ++ h.romfs.toBlock ++ h.exefsHash ++ h.romfsHash

/-- The header at the start of a byte string. -/
def ofBytes (b : Bytes) : Except HeaderError ContainerHeader :=
  match b.block? byteSize with
  | some block => .ok (ofBlock block)
  | none => .error (.tooSmall byteSize b.size)

/-- Refuses every magic number but that of a container. -/
def validate (h : ContainerHeader) : Except HeaderError Unit :=
  if h.magic.bytes.toList = containerMagic then .ok () else .error (.invalidMagic h.magic)

def hasExtended (h : ContainerHeader) : Bool := h.extendedSize != 0

def hasExefs (h : ContainerHeader) : Bool := h.exefs.size != 0

def hasRomfs (h : ContainerHeader) : Bool := h.romfs.size != 0

def lines (h : ContainerHeader) : List String :=
  [s!"Magic ................... : {h.magic.text}",
   s!"Content size ............ : {DataSize.text (unitBytes h.contentSize).toNat}",
   s!"Program ID .............. : {Hex.id h.programId}",
   s!"Partition ID ............ : {Hex.id h.partitionId.toWord64}",
   s!"Maker code .............. : {h.makerCode.text}",
   s!"Version ................. : {h.version}",
   s!"Product code ............ : {h.productCode.text}",
   s!"ExHeader size ........... : {Hex.short h.extendedSize.toNat}",
   s!"ExHeader hash ........... : {Hex.ofBytes h.extendedHash.toList}"] ++
  Listing.part "Flags" h.flags.lines ++
  Listing.part "Plain region" h.plain.lines ++
  Listing.part "Logo region" h.logo.lines ++
  Listing.part "ExeFS" h.exefs.lines ++
  Listing.part "RomFS" h.romfs.lines

end ContainerHeader

end Cartridge
