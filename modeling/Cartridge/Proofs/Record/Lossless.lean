import Cartridge.Proofs.Record.Fields
import Cartridge.Proofs.Record.Flags
import Cartridge.Proofs.Record.Layout

/-!
# Records are read without loss

Where in a block the fields of each record stand, nested records included. They fill the block, so
a decoder that takes each field from its place has read all of the block, and the block can be
written again from the record.
-/
namespace Cartridge

namespace Block

@[simp] theorem toList_ofByte (x : UInt8) : (ofByte x).toList = [x] := rfl

@[simp] theorem toList_ofWord16 (w : UInt16) : (ofWord16 w).toList = octets 2 w.toNat := rfl

@[simp] theorem toList_ofWord32 (w : UInt32) : (ofWord32 w).toList = octets 4 w.toNat := rfl

@[simp] theorem toList_ofWord64 (w : UInt64) : (ofWord64 w).toList = octets 8 w.toNat := rfl

end Block

theorem FixedName.mk_eq_iff {n : Nat} (x : Block n) (name : FixedName n) :
    FixedName.mk x = name ↔ x = name.bytes := by
  cases name
  rw [mk.injEq]

/-! ## Headers of containers and images -/

namespace Region

def fields (r : Region) : List Field :=
  [⟨0, octets 4 r.offset.toNat⟩, ⟨4, octets 4 r.size.toNat⟩]

theorem laidOut : LaidOut ofBlock toBlock fields where
  tiles r := by simp [fields]
  joined_eq r := by
    simp only [toBlock, Vector.toList_append]
    simp [fields]
  shows_iff b r := by
    cases r
    simp (disch := decide) only [fields, shows_cons, shows_nil, Block.standsIn_word32, and_true,
      ofBlock, mk.injEq]

end Region

namespace HashedRegion

def fields (r : HashedRegion) : List Field :=
  [⟨0, octets 4 r.offset.toNat⟩, ⟨4, octets 4 r.size.toNat⟩, ⟨8, octets 4 r.hashedSize.toNat⟩,
    ⟨12, octets 4 r.reserved.toNat⟩]

theorem laidOut : LaidOut ofBlock toBlock fields where
  tiles r := by simp [fields]
  joined_eq r := by
    simp only [toBlock, Vector.toList_append]
    simp [fields]
  shows_iff b r := by
    cases r
    simp (disch := decide) only [fields, shows_cons, shows_nil, Block.standsIn_word32, and_true,
      ofBlock, mk.injEq]

end HashedRegion

namespace ContentFlags

theorem toList_toBlock (f : ContentFlags) : f.toBlock.toList = octets 8 f.number := by
  rw [← toNat_toBits]
  rfl

theorem standsIn_iff {n : Nat} (b : Block n) (start : Nat) (f : ContentFlags)
    (fits : start + 8 ≤ n) :
    (Field.mk start (octets 8 f.number)).StandsIn b.toList ↔ ofBlock (b.cut start 8 fits) = f := by
  have hword : (b.cut start 8 fits).toWord64.toBitVec.toNat = (b.cut start 8 fits).word :=
    Block.toNat_word64 b start fits |>.trans (Block.word_cut b start 8 fits).symm
  rw [Block.standsIn_octets b start fits f.number_lt, ofBlock, ofBits_eq_iff, hword]

end ContentFlags

namespace ContainerHeader

def fields (h : ContainerHeader) : List Field :=
  [⟨0, h.signature.toList⟩, ⟨0x100, h.magic.bytes.toList⟩, ⟨0x104, octets 4 h.contentSize.toNat⟩,
    ⟨0x108, h.partitionId.toList⟩, ⟨0x110, h.makerCode.bytes.toList⟩,
    ⟨0x112, octets 2 h.version.toNat⟩, ⟨0x114, h.reserved0.toList⟩,
    ⟨0x118, octets 8 h.programId.toNat⟩, ⟨0x120, h.reserved1.toList⟩,
    ⟨0x130, h.logoHash.toList⟩, ⟨0x150, h.productCode.bytes.toList⟩,
    ⟨0x160, h.extendedHash.toList⟩, ⟨0x180, octets 4 h.extendedSize.toNat⟩,
    ⟨0x184, h.reserved2.toList⟩, ⟨0x188, octets 8 h.flags.number⟩] ++
  moved 0x190 h.plain.fields ++ moved 0x198 h.logo.fields ++ moved 0x1a0 h.exefs.fields ++
  moved 0x1b0 h.romfs.fields ++ [⟨0x1c0, h.exefsHash.toList⟩, ⟨0x1e0, h.romfsHash.toList⟩]

theorem laidOut : LaidOut ofBlock toBlock fields where
  tiles h := by
    simp [fields, Region.laidOut.length_joined, HashedRegion.laidOut.length_joined,
      Region.laidOut.tiles_moved, HashedRegion.laidOut.tiles_moved]
  joined_eq h := by
    unfold toBlock byteSize
    simp only [Vector.toList_append]
    simp [fields, Region.laidOut.joined_eq, HashedRegion.laidOut.joined_eq,
      ContentFlags.toList_toBlock]
  shows_iff b h := by
    cases h
    simp (disch := decide) only [fields, shows_cons, shows_append, shows_nil,
      Block.standsIn_block, FixedName.mk_eq_iff, Block.standsIn_word16, Block.standsIn_word32,
      Block.standsIn_word64, ContentFlags.standsIn_iff, Region.laidOut.shows_moved,
      HashedRegion.laidOut.shows_moved, and_true, and_assoc, ofBlock, mk.injEq]

end ContainerHeader

namespace ImageHeader

def fields (h : ImageHeader) : List Field :=
  [⟨0, h.signature.toList⟩, ⟨0x100, h.magic.bytes.toList⟩, ⟨0x104, octets 4 h.imageSize.toNat⟩,
    ⟨0x108, octets 8 h.mediaId.toNat⟩, ⟨0x110, h.fileSystemTypes.toList⟩,
    ⟨0x118, h.cryptTypes.toList⟩] ++
  row 0x120 8 (h.partitions.toList.map Region.fields) ++ [⟨0x160, h.reserved.toList⟩]

theorem laidOut : LaidOut ofBlock toBlock fields where
  tiles h := by
    simp [fields, Region.laidOut.joined_row, Region.laidOut.tiles_row]
  joined_eq h := by
    unfold toBlock byteSize
    simp only [Vector.toList_append]
    simp [fields, Region.laidOut.joined_row]
  shows_iff b h := by
    cases h
    simp (disch := decide) only [fields, shows_cons, shows_append, shows_nil,
      Block.standsIn_block, FixedName.mk_eq_iff, Block.standsIn_word32,
      Block.standsIn_word64, Region.laidOut.shows_row, and_true, and_assoc, ofBlock, mk.injEq]

end ImageHeader

/-! ## Section tables -/

namespace Slot

def fields (s : Slot) : List Field :=
  [⟨0, s.name.bytes.toList⟩, ⟨8, octets 4 s.offset.toNat⟩, ⟨12, octets 4 s.size.toNat⟩]

theorem laidOut : LaidOut ofBlock toBlock fields where
  tiles s := by simp [fields]
  joined_eq s := by
    simp only [toBlock, Vector.toList_append]
    simp [fields]
  shows_iff b s := by
    cases s
    simp (disch := decide) only [fields, shows_cons, shows_nil, Block.standsIn_block,
      Block.standsIn_word32, FixedName.mk_eq_iff, and_true, ofBlock, mk.injEq]

end Slot

namespace SectionTable

def fields (t : SectionTable) : List Field :=
  row 0 0x10 (t.slots.toList.map Slot.fields) ++ [⟨0x80, t.reserved.toList⟩] ++
    row 0x100 0x20 (t.hashes.toList.map fun hash => [⟨0, hash.toList⟩])

theorem laidOut : LaidOut ofBlock toBlock fields where
  tiles t := by
    simp [fields, Slot.laidOut.joined_row, Slot.laidOut.tiles_row, (laidOut_bytes 0x20).tiles_row]
  joined_eq t := by
    unfold toBlock byteSize
    simp only [Vector.toList_append]
    simp [fields, Slot.laidOut.joined_row, (laidOut_bytes 0x20).joined_row]
  shows_iff b t := by
    cases t
    simp (disch := decide) only [fields, shows_cons, shows_append, shows_nil,
      Block.standsIn_block, Slot.laidOut.shows_row, (laidOut_bytes 0x20).shows_row, and_true,
      and_assoc, ofBlock, mk.injEq, Vector.map_id]

end SectionTable

/-! ## Extended headers -/

namespace CodeSegment

def fields (s : CodeSegment) : List Field :=
  [⟨0, octets 4 s.address.toNat⟩, ⟨4, octets 4 s.maxPages.toNat⟩, ⟨8, octets 4 s.size.toNat⟩]

theorem laidOut : LaidOut ofBlock toBlock fields where
  tiles s := by simp [fields]
  joined_eq s := by
    simp only [toBlock, Vector.toList_append]
    simp [fields]
  shows_iff b s := by
    cases s
    simp (disch := decide) only [fields, shows_cons, shows_nil, Block.standsIn_word32, and_true,
      ofBlock, mk.injEq]

end CodeSegment

namespace CodeSet

def fields (c : CodeSet) : List Field :=
  [⟨0, c.name.bytes.toList⟩, ⟨8, c.reservedFlags.toList⟩, ⟨0xd, [c.flag]⟩,
    ⟨0xe, octets 2 c.remasterVersion.toNat⟩] ++
  moved 0x10 c.text.fields ++ [⟨0x1c, octets 4 c.stackSize.toNat⟩] ++
  moved 0x20 c.readOnly.fields ++ [⟨0x2c, c.reserved.toList⟩] ++
  moved 0x30 c.data.fields ++ [⟨0x3c, octets 4 c.bssSize.toNat⟩]

theorem laidOut : LaidOut ofBlock toBlock fields where
  tiles c := by
    simp [fields, CodeSegment.laidOut.length_joined, CodeSegment.laidOut.tiles_moved]
  joined_eq c := by
    simp only [toBlock, Vector.toList_append]
    simp [fields, CodeSegment.laidOut.joined_eq]
  shows_iff b c := by
    cases c
    simp (disch := decide) only [fields, shows_cons, shows_append, shows_nil,
      Block.standsIn_block, Block.standsIn_byte, Block.standsIn_word16, Block.standsIn_word32,
      FixedName.mk_eq_iff, CodeSegment.laidOut.shows_moved, and_true, and_assoc, ofBlock,
      mk.injEq]

end CodeSet

namespace SystemInfo

def fields (s : SystemInfo) : List Field :=
  [⟨0, octets 8 s.saveDataSize.toNat⟩, ⟨8, octets 8 s.jumpId.toNat⟩, ⟨0x10, s.reserved.toList⟩]

theorem laidOut : LaidOut ofBlock toBlock fields where
  tiles s := by simp [fields]
  joined_eq s := by
    simp only [toBlock, Vector.toList_append]
    simp [fields]
  shows_iff b s := by
    cases s
    simp (disch := decide) only [fields, shows_cons, shows_nil, Block.standsIn_block,
      Block.standsIn_word64, and_true, ofBlock, mk.injEq]

end SystemInfo

namespace StorageInfo

def fields (s : StorageInfo) : List Field :=
  [⟨0, s.extSaveDataId.toList⟩, ⟨8, s.systemSaveDataId.toList⟩, ⟨0x10, s.reserved.toList⟩,
    ⟨0x18, s.accessInfo.toList⟩, ⟨0x1f, [s.otherAttributes]⟩]

theorem laidOut : LaidOut ofBlock toBlock fields where
  tiles s := by simp [fields]
  joined_eq s := by
    simp only [toBlock, Vector.toList_append]
    simp [fields]
  shows_iff b s := by
    cases s
    simp (disch := decide) only [fields, shows_cons, shows_nil, Block.standsIn_block,
      Block.standsIn_byte, and_true, ofBlock, mk.injEq]

end StorageInfo

namespace ProcessorFlags

theorem octets_number (f : ProcessorFlags) : octets 1 f.number = [f.toByte] := by
  rw [← toNat_toByte, octets, octets, UInt8.ofNat_toNat]

theorem standsIn_iff {n : Nat} (b : Block n) (start : Nat) (f : ProcessorFlags)
    (fits : start < n) :
    (Field.mk start (octets 1 f.number)).StandsIn b.toList ↔ ofByte (b.byteAt start fits) = f := by
  rw [octets_number, Block.standsIn_byte, ofByte_eq_iff, ← toNat_toByte, UInt8.toNat_inj]

end ProcessorFlags

namespace LocalCapabilities

def fields (c : LocalCapabilities) : List Field :=
  [⟨0, octets 8 c.programId.toNat⟩, ⟨8, octets 4 c.coreVersion.toNat⟩,
    ⟨0xc, c.reservedFlags.toList⟩, ⟨0xe, octets 1 c.processor.number⟩, ⟨0xf, [c.priority]⟩] ++
  row 0x10 2 (c.resourceLimits.toList.map fun limit => [⟨0, octets 2 limit.word⟩]) ++
  moved 0x30 c.storage.fields ++
  row 0x50 8 (c.serviceAccess.toList.map fun name => [⟨0, name.toList⟩]) ++
  row 0x150 8 (c.extraServiceAccess.toList.map fun name => [⟨0, name.toList⟩]) ++
  [⟨0x160, c.reserved.toList⟩, ⟨0x16f, [c.resourceLimitCategory]⟩]

theorem laidOut : LaidOut ofBlock toBlock fields where
  tiles c := by
    simp [fields, (laidOut_number 2).joined_row, (laidOut_number 2).tiles_row,
      (laidOut_bytes 8).joined_row, (laidOut_bytes 8).tiles_row,
      StorageInfo.laidOut.length_joined, StorageInfo.laidOut.tiles_moved]
  joined_eq c := by
    simp only [toBlock, Vector.toList_append]
    simp [fields, (laidOut_number 2).joined_row, (laidOut_bytes 8).joined_row,
      StorageInfo.laidOut.joined_eq, ProcessorFlags.octets_number]
  shows_iff b c := by
    cases c
    simp (disch := decide) only [fields, shows_cons, shows_append, shows_nil,
      Block.standsIn_block, Block.standsIn_byte, Block.standsIn_word32, Block.standsIn_word64,
      ProcessorFlags.standsIn_iff, (laidOut_number 2).shows_row, (laidOut_bytes 8).shows_row,
      StorageInfo.laidOut.shows_moved, Vector.map_id, and_true, and_assoc, ofBlock, mk.injEq]

end LocalCapabilities

namespace KernelCapabilities

def fields (c : KernelCapabilities) : List Field :=
  row 0 4 (c.descriptors.toList.map fun descriptor => [⟨0, octets 4 descriptor.word⟩]) ++
    [⟨0x70, c.reserved.toList⟩]

theorem laidOut : LaidOut ofBlock toBlock fields where
  tiles c := by simp [fields, (laidOut_number 4).joined_row, (laidOut_number 4).tiles_row]
  joined_eq c := by
    simp only [toBlock, Vector.toList_append]
    simp [fields, (laidOut_number 4).joined_row]
  shows_iff b c := by
    cases c
    simp (disch := decide) only [fields, shows_cons, shows_append, shows_nil,
      Block.standsIn_block, (laidOut_number 4).shows_row, Vector.map_id, and_true, ofBlock,
      mk.injEq]

end KernelCapabilities

namespace AccessControl

def fields (a : AccessControl) : List Field := [⟨0, a.descriptors.toList⟩, ⟨15, [a.version]⟩]

theorem laidOut : LaidOut ofBlock toBlock fields where
  tiles a := by simp [fields]
  joined_eq a := by
    simp only [toBlock, Vector.toList_append]
    simp [fields]
  shows_iff b a := by
    cases a
    simp (disch := decide) only [fields, shows_cons, shows_nil, Block.standsIn_block,
      Block.standsIn_byte, and_true, ofBlock, mk.injEq]

end AccessControl

namespace Capabilities

def fields (c : Capabilities) : List Field :=
  moved 0 c.system.fields ++ moved 0x170 c.kernel.fields ++ moved 0x1f0 c.access.fields

theorem laidOut : LaidOut ofBlock toBlock fields where
  tiles c := by
    simp [fields, LocalCapabilities.laidOut.length_joined, LocalCapabilities.laidOut.tiles_moved,
      KernelCapabilities.laidOut.length_joined, KernelCapabilities.laidOut.tiles_moved,
      AccessControl.laidOut.tiles_moved]
  joined_eq c := by
    simp only [toBlock, Vector.toList_append]
    simp [fields, LocalCapabilities.laidOut.joined_eq, KernelCapabilities.laidOut.joined_eq,
      AccessControl.laidOut.joined_eq]
  shows_iff b c := by
    cases c
    simp (disch := decide) only [fields, shows_append, LocalCapabilities.laidOut.shows_moved,
      KernelCapabilities.laidOut.shows_moved, AccessControl.laidOut.shows_moved, and_assoc,
      ofBlock, mk.injEq]

end Capabilities

namespace AccessDescriptor

def fields (d : AccessDescriptor) : List Field :=
  [⟨0, d.signature.toList⟩, ⟨0x100, d.modulus.toList⟩] ++ moved 0x200 d.capabilities.fields

theorem laidOut : LaidOut ofBlock toBlock fields where
  tiles d := by simp [fields, Capabilities.laidOut.tiles_moved]
  joined_eq d := by
    simp only [toBlock, Vector.toList_append]
    simp [fields, Capabilities.laidOut.joined_eq]
  shows_iff b d := by
    cases d
    simp (disch := decide) only [fields, shows_cons, shows_append, shows_nil,
      Block.standsIn_block, Capabilities.laidOut.shows_moved, and_true, and_assoc, ofBlock,
      mk.injEq]

end AccessDescriptor

namespace ExtendedHeader

def fields (h : ExtendedHeader) : List Field :=
  moved 0 h.codeSet.fields ++
  row 0x40 8 (h.dependencyIds.toList.map fun id => [⟨0, octets 8 id.word⟩]) ++
  moved 0x1c0 h.systemInfo.fields ++ moved 0x200 h.capabilities.fields ++
  moved 0x400 h.descriptor.fields

theorem laidOut : LaidOut ofBlock toBlock fields where
  tiles h := by
    simp [fields, CodeSet.laidOut.length_joined, CodeSet.laidOut.tiles_moved,
      (laidOut_number 8).joined_row, (laidOut_number 8).tiles_row,
      SystemInfo.laidOut.length_joined, SystemInfo.laidOut.tiles_moved,
      Capabilities.laidOut.length_joined, Capabilities.laidOut.tiles_moved,
      AccessDescriptor.laidOut.tiles_moved]
  joined_eq h := by
    unfold toBlock byteSize
    simp only [Vector.toList_append]
    simp [fields, CodeSet.laidOut.joined_eq, (laidOut_number 8).joined_row,
      SystemInfo.laidOut.joined_eq, Capabilities.laidOut.joined_eq,
      AccessDescriptor.laidOut.joined_eq]
  shows_iff b h := by
    cases h
    simp (disch := decide) only [fields, shows_append, CodeSet.laidOut.shows_moved,
      (laidOut_number 8).shows_row, SystemInfo.laidOut.shows_moved,
      Capabilities.laidOut.shows_moved, AccessDescriptor.laidOut.shows_moved, Vector.map_id,
      and_assoc, ofBlock, mk.injEq]

end ExtendedHeader

/-! ## Decoders -/

/-- A decoder loses nothing: its record is the first `size` bytes of the input, field for field. -/
structure Lossless {ε α : Type} (size : Nat) (ofBytes : Bytes → Except ε α)
    (required : List Field) (fields : α → List Field) : Prop where
  /-- The fields fill the bytes of a record with no gap and no overlap. -/
  fills : ∀ r, Tiles 0 (fields r) ∧ (joined (fields r)).length = size
  /-- Every input that is long enough and shows what is required is read. -/
  reads_iff : ∀ b, (∃ r, ofBytes b = .ok r) ↔ size ≤ b.size ∧ Shows (b.toList.take size) required
  /-- The fields that were read stand in the input at their places. -/
  placed : ∀ b r, ofBytes b = .ok r → Shows b.toList (fields r)
  /-- Writing the fields back, over anything, gives the bytes that were read. -/
  written_back : ∀ b r buffer, ofBytes b = .ok r → buffer.length = size →
    writeFields (fields r) buffer = b.toList.take size
  /-- Bytes that were written from a record are read as that record, whatever follows them. -/
  read_back : ∀ r buffer rest, required ⊆ fields r → buffer.length = size →
    ofBytes (writeFields (fields r) buffer ++ rest).toArray = .ok r
  /-- Inputs that are read as the same record begin with the same bytes. -/
  same_bytes : ∀ b c r, ofBytes b = .ok r → ofBytes c = .ok r →
    b.toList.take size = c.toList.take size

/-- Fields that the start of some bytes shows are shown by all of them. -/
theorem shows_of_take {b : List UInt8} {n : Nat} {fields : List Field} (h : Tiles 0 fields)
    (hlength : (joined fields).length = n) (hshows : Shows (b.take n) fields) :
    Shows b fields := by
  have hsame : moved 0 fields = fields := by simp [moved]
  rw [← hsame, shows_moved h hlength, List.drop_zero]
  exact hshows

section

variable {n : Nat} {ε α : Type} {ofBlock : Block n → α} {toBlock : α → Block n}
  {fields : α → List Field} {ofBytes : Bytes → Except ε α} {required : List Field}

variable (h : LaidOut ofBlock toBlock fields) (hread : ∀ b r, ofBytes b = .ok r ↔
  ∃ block, b.block? n = some block ∧ r = ofBlock block ∧ Shows block.toList required)
include h hread

/-- The record of an accepted input is written as what the input begins with. -/
theorem LaidOut.block_of_ok {b : Bytes} {r : α} (hr : ofBytes b = .ok r) :
    n ≤ b.size ∧ (toBlock r).toList = b.toList.take n ∧ Shows (b.toList.take n) required := by
  obtain ⟨block, hsome, rfl, hshows⟩ := (hread b r).mp hr
  obtain ⟨hlong, hlist⟩ := Bytes.block?_eq_some_iff.mp hsome
  rw [h.toBlock_ofBlock, ← hlist]
  exact ⟨hlong, rfl, hshows⟩

/-- A decoder that reads laid out records, and refuses only blocks without the required fields,
is lossless. -/
theorem LaidOut.lossless : Lossless n ofBytes required fields where
  fills r := ⟨h.tiles r, h.length_joined r⟩
  reads_iff b := by
    constructor
    · rintro ⟨r, hr⟩
      obtain ⟨hlong, -, hshows⟩ := h.block_of_ok hread hr
      exact ⟨hlong, hshows⟩
    · rintro ⟨hlong, hshows⟩
      obtain ⟨block, hsome, hlist⟩ := Bytes.block?_of_le hlong
      rw [← hlist] at hshows
      exact ⟨ofBlock block, (hread b _).mpr ⟨block, hsome, rfl, hshows⟩⟩
  placed b r hr := by
    obtain ⟨-, hblock, -⟩ := h.block_of_ok hread hr
    have hshows := h.shows_toBlock r
    rw [hblock] at hshows
    exact shows_of_take (h.tiles r) (h.length_joined r) hshows
  written_back b r buffer hr hlength := by
    obtain ⟨-, hblock, -⟩ := h.block_of_ok hread hr
    rw [h.writeFields_eq r hlength, hblock]
  read_back r buffer rest hrequired hlength := by
    have hlist : (toBlock r).toList = ((toBlock r).toList ++ rest).toArray.toList.take n := by
      rw [List.take_left' Vector.length_toList]
    have hsome := Bytes.block?_eq_some_iff.mpr ⟨by simp, hlist⟩
    rw [h.writeFields_eq r hlength, hread]
    exact ⟨_, hsome, (h.ofBlock_toBlock r).symm, fun f hf => h.shows_toBlock r f (hrequired hf)⟩
  same_bytes b c r hb hc := by
    obtain ⟨-, hblock, -⟩ := h.block_of_ok hread hb
    obtain ⟨-, hblock', -⟩ := h.block_of_ok hread hc
    rw [← hblock, hblock']

end

/-- The four records lose nothing: container headers, image headers with their magic number,
section tables and extended headers. -/
theorem lossless_records :
    Lossless 0x200 ContainerHeader.ofBytes [] ContainerHeader.fields ∧
    Lossless 0x200 ImageHeader.ofBytes [⟨0x100, imageMagic⟩] ImageHeader.fields ∧
    Lossless 0x200 SectionTable.ofBytes [] SectionTable.fields ∧
    Lossless 0x800 ExtendedHeader.ofBytes [] ExtendedHeader.fields := by
  refine ⟨ContainerHeader.laidOut.lossless fun b r => ?_,
    ImageHeader.laidOut.lossless fun b r => ?_, SectionTable.laidOut.lossless fun b r => ?_,
    ExtendedHeader.laidOut.lossless fun b r => ?_⟩
  · rw [ContainerHeader.ofBytes]
    cases b.block? ContainerHeader.byteSize <;> simp [eq_comm]
  · have hmagic (block : Block ImageHeader.byteSize) :
        Shows block.toList [⟨0x100, imageMagic⟩] ↔
          (ImageHeader.ofBlock block).magic.bytes.toList = imageMagic := by
      rw [ImageHeader.magic_ofBlock block.toList_eq_window]
      simp [Field.StandsIn, imageMagic]
    simp only [ImageHeader.ofBytes_eq_ok_iff, hmagic]
  · rw [SectionTable.ofBytes]
    cases b.block? SectionTable.byteSize <;> simp [eq_comm]
  · rw [ExtendedHeader.ofBytes]
    cases b.block? ExtendedHeader.byteSize <;> simp [eq_comm]

end Cartridge
