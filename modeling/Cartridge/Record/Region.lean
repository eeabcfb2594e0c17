import Cartridge.Arithmetic
import Cartridge.Bytes
import Cartridge.Text.DataSize
import Cartridge.Text.Hex

/-!
# Regions

A header places its regions in media units of 0x200 bytes, counted from the start
of the container. Both numbers have 32 bits, so the byte counts fit into 64 bits
with room to spare.
-/
namespace Cartridge

/-- Bytes in one media unit. -/
def mediaUnit : UInt64 := 0x200

section

variable {m : Type → Type} [Monad m] [Arithmetic m]

/-- Media units as bytes. -/
def unitBytesM (units : UInt32) : m UInt64 := Arithmetic.product units.toUInt64 mediaUnit

end

def unitBytes (units : UInt32) : UInt64 := Id.run (unitBytesM units)

structure Region where
  offset : UInt32
  size : UInt32
  deriving DecidableEq, Repr

/-- A region with a hashed part at its start. -/
structure HashedRegion where
  offset : UInt32
  size : UInt32
  hashedSize : UInt32
  reserved : UInt32
  deriving DecidableEq, Repr

/-- The lines that every region shows of itself. -/
def placeLines (offset size : UInt64) : List String :=
  [s!"Offset ........ : {Hex.short offset.toNat}",
   s!"Size .......... : {Hex.short size.toNat} ({DataSize.text size.toNat})"]

namespace Region

def ofBlock (b : Block 8) : Region := ⟨b.word32 0, b.word32 4 Block.secondOfTwo⟩

def toBlock (r : Region) : Block 8 := Block.ofWord32 r.offset ++ Block.ofWord32 r.size

def byteOffset (r : Region) : UInt64 := unitBytes r.offset

def byteSize (r : Region) : UInt64 := unitBytes r.size

/-- A region is present if neither its offset nor its size is zero. -/
def isPresent (r : Region) : Bool := r.offset != 0 && r.size != 0

def lines (r : Region) : List String := placeLines r.byteOffset r.byteSize

end Region

namespace HashedRegion

def ofBlock (b : Block 16) : HashedRegion :=
  ⟨b.word32 0, b.word32 4, b.word32 8 Block.thirdOfFour, b.word32 12 Block.fourthOfFour⟩

def toBlock (r : HashedRegion) : Block 16 :=
  Block.ofWord32 r.offset ++ Block.ofWord32 r.size ++ Block.ofWord32 r.hashedSize ++
    Block.ofWord32 r.reserved

def byteOffset (r : HashedRegion) : UInt64 := unitBytes r.offset

def byteSize (r : HashedRegion) : UInt64 := unitBytes r.size

def lines (r : HashedRegion) : List String :=
  placeLines r.byteOffset r.byteSize ++
    [s!"Hashed size ... : {Hex.short (unitBytes r.hashedSize).toNat}"]

end HashedRegion

end Cartridge
