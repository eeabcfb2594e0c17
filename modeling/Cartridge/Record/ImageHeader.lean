import Cartridge.Record.Region
import Cartridge.Text.FixedName

/-!
# Image headers

An NCSD image packs up to eight containers into partitions. Its header places them
in media units; a partition of size zero is empty.
-/
namespace Cartridge

/-- The magic number of an image. -/
def imageMagic : List UInt8 := [0x4e, 0x43, 0x53, 0x44]

structure ImageHeader where
  signature : Block 0x100
  magic : FixedName 4
  imageSize : UInt32
  mediaId : UInt64
  fileSystemTypes : Block 8
  cryptTypes : Block 8
  partitions : Vector Region 8
  reserved : Block 0xa0
  deriving DecidableEq

/-- What is wrong with an image header, or with a request for a partition. -/
inductive ImageError where
  | tooSmall (expected actual : Nat)
  | invalidMagic (magic : FixedName 4)
  | noPartition (index : Nat)
  deriving DecidableEq

def ImageError.message : ImageError → String
  | .tooSmall expected actual =>
    s!"expected {Hex.short expected} bytes for NCSD header but had only {Hex.short actual}"
  | .invalidMagic magic => s!"expected magic \"NCSD\" but got {magic.quoted}"
  | .noPartition index => s!"NCSD image has no partition {index}"

namespace ImageHeader

def byteSize : Nat := 0x200

def ofBlock (b : Block byteSize) : ImageHeader where
  signature := b.cut 0 0x100
  magic := ⟨b.cut 0x100 4⟩
  imageSize := b.word32 0x104
  mediaId := b.word64 0x108
  fileSystemTypes := b.cut 0x110 8
  cryptTypes := b.cut 0x118 8
  partitions := (b.row 0x120 8 8).map Region.ofBlock
  reserved := b.cut 0x160 0xa0

def toBlock (h : ImageHeader) : Block byteSize :=
  h.signature ++ h.magic.bytes ++ Block.ofWord32 h.imageSize ++ Block.ofWord64 h.mediaId ++
    h.fileSystemTypes ++ h.cryptTypes ++ Block.concat (h.partitions.map Region.toBlock) ++
    h.reserved

/-- The header at the start of a byte string, if it has the magic number of an image. -/
def ofBytes (b : Bytes) : Except ImageError ImageHeader :=
  match b.block? byteSize with
  | none => .error (.tooSmall byteSize b.size)
  | some block =>
    let header := ofBlock block
    if header.magic.bytes.toList = imageMagic then .ok header
    else .error (.invalidMagic header.magic)

/-- Where the container of a partition starts, in bytes. -/
def partitionOffset (h : ImageHeader) (index : Nat) : Except ImageError UInt64 :=
  match h.partitions[index]? with
  | some partition =>
    if partition.size = 0 then .error (.noPartition index) else .ok partition.byteOffset
  | none => .error (.noPartition index)

end ImageHeader

end Cartridge
