import Cartridge.Record.Region

/-!
# Content flags

Eight bytes of the container header, read as one word of 64 bits. Every field is
a run of bits; the fields lie one after the other from the lowest bit on and fill the word.
-/
namespace Cartridge

/-- What kinds of content a container holds, a byte of the flags. -/
structure ContentType where
  data : Bool
  executable : Bool
  systemUpdate : Bool
  manual : Bool
  child : Bool
  trial : Bool
  reserved : BitVec 2
  deriving DecidableEq, Repr

namespace ContentType

def ofBits (b : BitVec 8) : ContentType where
  data := b.getLsbD 0
  executable := b.getLsbD 1
  systemUpdate := b.getLsbD 2
  manual := b.getLsbD 3
  child := b.getLsbD 4
  trial := b.getLsbD 5
  reserved := b.extractLsb' 6 2

def toBits (t : ContentType) : BitVec 8 :=
  t.reserved ++ BitVec.ofBool t.trial ++ BitVec.ofBool t.child ++ BitVec.ofBool t.manual ++
    BitVec.ofBool t.systemUpdate ++ BitVec.ofBool t.executable ++ BitVec.ofBool t.data

/-- The names of the kinds that are set. -/
def names (t : ContentType) : List String :=
  [(t.data, "data"), (t.executable, "executable"), (t.systemUpdate, "system update"),
    (t.manual, "manual"), (t.child, "child"), (t.trial, "trial")].filterMap
    fun (set, name) => if set then some name else none

def text (t : ContentType) : String :=
  if t.names.isEmpty then "none" else String.intercalate ", " t.names

end ContentType

structure ContentFlags where
  reserved0 : BitVec 24
  cryptoMethod : BitVec 8
  platform : BitVec 8
  contentType : ContentType
  unitSize : BitVec 8
  fixedCryptoKey : Bool
  noMountRomFs : Bool
  noCrypto : Bool
  reserved1 : BitVec 2
  seedCrypto : Bool
  reserved2 : BitVec 2
  deriving DecidableEq, Repr

namespace ContentFlags

def ofBits (b : BitVec 64) : ContentFlags where
  reserved0 := b.extractLsb' 0 24
  cryptoMethod := b.extractLsb' 24 8
  platform := b.extractLsb' 32 8
  contentType := ContentType.ofBits (b.extractLsb' 40 8)
  unitSize := b.extractLsb' 48 8
  fixedCryptoKey := b.getLsbD 56
  noMountRomFs := b.getLsbD 57
  noCrypto := b.getLsbD 58
  reserved1 := b.extractLsb' 59 2
  seedCrypto := b.getLsbD 61
  reserved2 := b.extractLsb' 62 2

def toBits (f : ContentFlags) : BitVec 64 :=
  f.reserved2 ++ BitVec.ofBool f.seedCrypto ++ f.reserved1 ++ BitVec.ofBool f.noCrypto ++
    BitVec.ofBool f.noMountRomFs ++ BitVec.ofBool f.fixedCryptoKey ++ f.unitSize ++
    f.contentType.toBits ++ f.platform ++ f.cryptoMethod ++ f.reserved0

def ofBlock (b : Block 8) : ContentFlags := ofBits b.toWord64.toBitVec

def toBlock (f : ContentFlags) : Block 8 := Block.ofWord64 ⟨f.toBits⟩

/-- The content unit in bytes; exponents above 16 count as 16. -/
def unitBytes (f : ContentFlags) : Nat := 0x200 <<< min f.unitSize.toNat 16

def lines (f : ContentFlags) : List String :=
  [s!"Crypto method ...... : {Hex.short f.cryptoMethod.toNat}",
   s!"Content platform ... : {f.platform.toNat}",
   s!"Content type ....... : {f.contentType.text}",
   s!"Content unit size .. : {Hex.short f.unitBytes}",
   s!"Fixed crypto key ... : {f.fixedCryptoKey}",
   s!"No RomFS mount ..... : {f.noMountRomFs}",
   s!"No crypto .......... : {f.noCrypto}",
   s!"Seed crypto ........ : {f.seedCrypto}"]

end ContentFlags

end Cartridge
