import Cartridge.Arithmetic
import Cartridge.Text.FixedName
import Cartridge.Text.Hex
import Cartridge.Text.Listing

/-!
# Section tables

An ExeFS begins with a table of eight slots; a slot of size zero is unused. The
sections follow the table, and their offsets count from its end. A section is found by its name
only if the name in the slot is that name and zeros: of equal names, the lowest slot wins.
-/
namespace Cartridge

/-- A slot of the table. -/
structure Slot where
  name : FixedName 8
  offset : UInt32
  size : UInt32
  deriving DecidableEq

namespace Slot

def ofBlock (b : Block 0x10) : Slot :=
  ⟨⟨b.cut 0 8⟩, b.word32 8 Block.thirdOfFour, b.word32 12 Block.fourthOfFour⟩

def toBlock (s : Slot) : Block 0x10 :=
  s.name.bytes ++ Block.ofWord32 s.offset ++ Block.ofWord32 s.size

def isUsed (s : Slot) : Bool := s.size != 0

end Slot

structure SectionTable where
  slots : Vector Slot 8
  reserved : Block 0x80
  /-- SHA-256 hashes of the sections, the last one for the first slot. -/
  hashes : Vector (Block 0x20) 8
  deriving DecidableEq

/-- What is wrong with a section table. -/
inductive SectionTableError where
  | tooSmall (expected actual : Nat)
  | sectionOutOfBounds (name : String) (offset size : UInt32) (limit : UInt64)
  deriving DecidableEq, Repr

def SectionTableError.message : SectionTableError → String
  | .tooSmall expected actual =>
    s!"expected {Hex.short expected} bytes for ExeFS header but had only {Hex.short actual}"
  | .sectionOutOfBounds name offset size limit =>
    s!"section '{name}' at {Hex.short offset.toNat}+{Hex.short size.toNat} " ++
      s!"exceeds the ExeFS size {Hex.short limit.toNat}"

namespace SectionTable

def byteSize : Nat := 0x200

def ofBlock (b : Block byteSize) : SectionTable where
  slots := (b.row 0 0x10 8).map Slot.ofBlock
  reserved := b.cut 0x80 0x80
  hashes := b.row 0x100 0x20 8

def toBlock (t : SectionTable) : Block byteSize :=
  Block.concat (t.slots.map Slot.toBlock) ++ t.reserved ++ Block.concat t.hashes

/-- The table at the start of a byte string. -/
def ofBytes (b : Bytes) : Except SectionTableError SectionTable :=
  match b.block? byteSize with
  | some block => .ok (ofBlock block)
  | none => .error (.tooSmall byteSize b.size)

/-- The lowest used slot with this name. -/
def position? (t : SectionTable) (name : String) : Option (Fin 8) :=
  t.slots.findFinIdx? fun slot => slot.isUsed && slot.name.isNamed name

def find? (t : SectionTable) (name : String) : Option Slot :=
  (t.position? name).map t.slots.get

/-- The hash of the section in a slot. -/
def hash? (t : SectionTable) (slot : Nat) : Option (Block 0x20) :=
  if slot < 8 then t.hashes[7 - slot]? else none

def used (t : SectionTable) : List Slot := t.slots.toList.filter Slot.isUsed

section

variable {m : Type → Type} [Monad m] [Arithmetic m]

/-- The end of a section, counted from the start of the table. -/
def sectionEndM (s : Slot) : m UInt64 := do
  Arithmetic.sum (← Arithmetic.sum 0x200 s.offset.toUInt64) s.size.toUInt64

/-- Refuses a table with a used section that ends above `limit`, naming the first such section. -/
def checkBoundsM (t : SectionTable) (limit : UInt64) : m (Except SectionTableError Unit) := do
  match ← t.used.findM? fun slot => return limit < (← sectionEndM slot) with
  | some slot => return .error (.sectionOutOfBounds slot.name.text slot.offset slot.size limit)
  | none => return .ok ()

end

def sectionEnd (s : Slot) : UInt64 := Id.run (sectionEndM s)

def checkBounds (t : SectionTable) (limit : UInt64) : Except SectionTableError Unit :=
  Id.run (t.checkBoundsM limit)

/-- The line of one slot. -/
def slotLine (t : SectionTable) (index : Nat) (slot : Slot) : String :=
  s!"{index}: {Listing.padRight 8 slot.name.text} offset {Hex.wide 6 slot.offset.toNat} " ++
    s!"size {Hex.wide 6 slot.size.toNat} sha256 " ++
    ((t.hash? index).map fun hash => Hex.ofBytes hash.toList).getD ""

/-- One line for each used slot. -/
def lines (t : SectionTable) : List String :=
  (t.slots.toList.zipIdx.filter fun (slot, _) => slot.isUsed).map
    fun (slot, index) => t.slotLine index slot

end SectionTable

end Cartridge
