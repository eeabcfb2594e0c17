import Cartridge.Proofs.Arithmetic
import Cartridge.Proofs.Bytes
import Cartridge.Record.ContainerHeader
import Cartridge.Record.ExtendedHeader
import Cartridge.Record.ImageHeader
import Cartridge.Record.SectionTable

/-!
# Fields of records

Where in its bytes a record has the fields that decide whether a container loads, and where its
sections are.
-/
namespace Cartridge

/-- Bytes that fill a name are that name. -/
theorem FixedName.padded_toList {n : Nat} (name : FixedName n)
    (fits : name.bytes.toList.length ≤ n) :
    FixedName.mk (padded n name.bytes.toList fits) = name := by
  cases name with
  | mk bytes =>
    refine congrArg FixedName.mk (Vector.toList_inj.mp ?_)
    simp [padded, Vector.toList]

/-- Bytes are called by a text if they are that text and zeros after it. -/
theorem FixedName.isNamed_iff {n : Nat} (name : FixedName n) (s : String) :
    name.isNamed s = true ↔
      name.bytes.toList = utf8 s ++ List.replicate (n - (utf8 s).length) 0 := by
  have hlength : name.bytes.toList.length = n := Vector.length_toList
  simp only [isNamed, Bool.and_eq_true, decide_eq_true_eq, beq_iff_eq, List.all_eq_true]
  constructor
  · rintro ⟨⟨hfits, htake⟩, hzeros⟩
    have hdrop : name.bytes.toList.drop (utf8 s).length =
        List.replicate (n - (utf8 s).length) 0 := by
      rw [List.eq_replicate_iff, List.length_drop, hlength]
      exact ⟨rfl, hzeros⟩
    rw [← List.take_append_drop (utf8 s).length name.bytes.toList, htake, hdrop]
  · intro h
    have hfits : (utf8 s).length ≤ n := by
      rw [h, List.length_append, List.length_replicate] at hlength
      omega
    rw [h, List.take_left, List.drop_left]
    exact ⟨⟨hfits, rfl⟩, fun x hx => List.eq_of_mem_replicate hx⟩

/-! ## Section tables -/

theorem find?_finRange_eq_some_iff {n : Nat} {p : Fin n → Bool} {i : Fin n} :
    (List.finRange n).find? p = some i ↔ p i ∧ ∀ j < i, ¬p j := by
  rw [List.find?_eq_some_iff_getElem]
  constructor
  · rintro ⟨hi, k, hk, rfl, hbefore⟩
    refine ⟨hi, fun j hj => ?_⟩
    have hlow : (j : Nat) < k := by simpa [Fin.lt_def] using hj
    simpa using hbefore j hlow
  · rintro ⟨hi, hbefore⟩
    refine ⟨hi, i, by simp, by simp, fun j hj => ?_⟩
    simpa using hbefore ⟨j, Nat.lt_trans hj i.isLt⟩ hj

theorem findFinIdx?_eq_some_iff {α : Type} {n : Nat} {v : Vector α n} {p : α → Bool} {i : Fin n} :
    v.findFinIdx? p = some i ↔ p (v.get i) ∧ ∀ j < i, ¬p (v.get j) := by
  obtain ⟨xs, rfl⟩ := v
  have hfind : (Vector.mk xs rfl).findFinIdx? p = xs.findFinIdx? p := by simp [Vector.findFinIdx?]
  rw [hfind]
  exact Array.findFinIdx?_eq_some_iff

namespace SectionTable

variable {b : List UInt8} {start : Nat}

/-- The name in a slot of the table at a place. -/
def nameBytes (b : List UInt8) (start slot : Nat) : List UInt8 :=
  (b.drop (start + 0x10 * slot)).take 8

def offsetNumber (b : List UInt8) (start slot : Nat) : Nat := wordAt b (start + 0x10 * slot + 8) 4

def sizeNumber (b : List UInt8) (start slot : Nat) : Nat := wordAt b (start + 0x10 * slot + 12) 4

/-- A slot is inside if it is unused, or its section ends at or below the limit. -/
def Inside (b : List UInt8) (start limit slot : Nat) : Prop :=
  sizeNumber b start slot = 0 ∨ 0x200 + offsetNumber b start slot + sizeNumber b start slot ≤ limit

instance {limit slot : Nat} : Decidable (Inside b start limit slot) := by
  unfold Inside
  infer_instance

/-- The first slot that is not inside. -/
def outside? (b : List UInt8) (start limit : Nat) : Option (Fin 8) :=
  (List.finRange 8).find? fun slot => !decide (Inside b start limit slot)

theorem outside?_eq_none {limit : Nat} :
    outside? b start limit = none ↔ ∀ slot : Fin 8, Inside b start limit slot := by
  simp [outside?, List.find?_eq_none]

/-- The lowest slot in use that has this name. -/
def slotNamed? (b : List UInt8) (start : Nat) (name : String) : Option (Fin 8) :=
  (List.finRange 8).find? fun slot =>
    sizeNumber b start slot ≠ 0 ∧
      nameBytes b start slot = utf8 name ++ List.replicate (8 - (utf8 name).length) 0

/-- The error that names a slot. -/
def slotError (b : List UInt8) (start slot : Nat) (limit : UInt64) : SectionTableError :=
  .sectionOutOfBounds
    (String.ofList (((nameBytes b start slot).takeWhile (· != 0)).map fun c => Char.ofNat c.toNat))
    (UInt32.ofNat (offsetNumber b start slot)) (UInt32.ofNat (sizeNumber b start slot)) limit

/-- What the table at a place says of a limit: the first slot that is not inside, if any. -/
def boundsAt (b : List UInt8) (start : Nat) (limit : UInt64) : Except SectionTableError Unit :=
  match outside? b start limit.toNat with
  | some slot => .error (slotError b start slot limit)
  | none => .ok ()

theorem boundsAt_eq_ok_iff (b : List UInt8) (start : Nat) (limit : UInt64) :
    boundsAt b start limit = .ok () ↔ ∀ slot : Fin 8, Inside b start limit.toNat slot := by
  rw [← outside?_eq_none, boundsAt]
  cases outside? b start limit.toNat <;> simp

/-- A slot as it is read. -/
def slotOf (block : Block byteSize) (i : Fin 8) : Slot :=
  Slot.ofBlock (block.cut (0 + 0x10 * i) 0x10 (by unfold byteSize; omega))

theorem slots_ofBlock (block : Block byteSize) :
    (ofBlock block).slots.toList = (List.finRange 8).map (slotOf block) := by
  rw [ofBlock, Vector.toList_map, Block.row, Vector.toList_ofFn, List.finRange, List.map_ofFn,
    List.map_ofFn]
  rfl

theorem get_slots_ofBlock (block : Block byteSize) (i : Fin 8) :
    (ofBlock block).slots.get i = slotOf block i := by
  simp only [ofBlock, Block.row, Vector.get, Vector.toArray_map, Vector.toArray_ofFn,
    Array.getElem_map, Array.getElem_ofFn]
  rfl

section

variable {block : Block byteSize} (h : block.toList = (b.drop start).take byteSize)
include h

theorem slotOf_name (i : Fin 8) :
    (slotOf block i).name.bytes.toList = nameBytes b start i := by
  simp only [slotOf, Slot.ofBlock, Block.toList_cut, nameBytes, h]
  rw [window_window _ _ _ (by decide), window_window _ _ _ (by unfold byteSize; omega),
    Nat.zero_add, Nat.add_zero]

theorem slotOf_offset (i : Fin 8) : (slotOf block i).offset.toNat = offsetNumber b start i := by
  simp only [slotOf, Slot.ofBlock, Block.toNat_word32, Block.toList_cut, offsetNumber, h]
  rw [wordAt_window _ _ _ (by decide), wordAt_window _ _ _ (by unfold byteSize; omega),
    Nat.zero_add, Nat.add_assoc]

theorem slotOf_size (i : Fin 8) : (slotOf block i).size.toNat = sizeNumber b start i := by
  simp only [slotOf, Slot.ofBlock, Block.toNat_word32, Block.toList_cut, sizeNumber, h]
  rw [wordAt_window _ _ _ (by decide), wordAt_window _ _ _ (by unfold byteSize; omega),
    Nat.zero_add, Nat.add_assoc]

theorem slotOf_isUsed (i : Fin 8) :
    (slotOf block i).isUsed = true ↔ sizeNumber b start i ≠ 0 := by
  rw [← slotOf_size h, Slot.isUsed, bne_iff_ne, ne_eq, ← UInt32.toNat_inj]
  rfl

/-- A section is looked for by the raw bytes of its name. -/
theorem position?_ofBlock (name : String) :
    (ofBlock block).position? name = slotNamed? b start name := by
  have hmatch (i : Fin 8) : ((slotOf block i).isUsed && (slotOf block i).name.isNamed name) =
      decide (sizeNumber b start i ≠ 0 ∧
        nameBytes b start i = utf8 name ++ List.replicate (8 - (utf8 name).length) 0) := by
    rw [Bool.eq_iff_iff, Bool.and_eq_true, slotOf_isUsed h, FixedName.isNamed_iff, slotOf_name h,
      decide_eq_true_eq]
  refine Option.ext fun i => ?_
  rw [position?, slotNamed?, findFinIdx?_eq_some_iff, find?_finRange_eq_some_iff]
  simp only [get_slots_ofBlock, hmatch]

/-- Used and ending above the limit is the same as not inside. -/
theorem used_and_above_iff (limit : UInt64) (i : Fin 8) :
    ((slotOf block i).isUsed ∧ limit < sectionEnd (slotOf block i)) ↔
      ¬Inside b start limit.toNat i := by
  rw [slotOf_isUsed h, UInt64.lt_iff_toNat_lt, toNat_sectionEnd, slotOf_offset h, slotOf_size h, Inside]
  omega

/-- The check of a table finds the first slot that is not inside. -/
theorem checkBounds_ofBlock (limit : UInt64) :
    (ofBlock block).checkBounds limit = boundsAt b start limit := by
  have hfind : (ofBlock block).used.find? (fun slot => limit < sectionEnd slot) =
      (outside? b start limit.toNat).map (slotOf block) := by
    rw [used, slots_ofBlock, List.find?_filter, List.find?_map, outside?]
    congr 2
    funext i
    simp only [Function.comp_apply, decide_eq_true_eq, used_and_above_iff h, decide_not]
  rw [checkBounds_eq_find?, hfind, boundsAt]
  cases outside? b start limit.toNat with
  | none => rfl
  | some i =>
    simp only [Option.map_some, slotError, ← slotOf_name h, ← slotOf_offset h, ← slotOf_size h,
      UInt32.ofNat_toNat, FixedName.text]

end

end SectionTable

/-! ## Container headers -/

theorem toNat_unitBytes_lt (units : UInt32) : (unitBytes units).toNat < 2 ^ 41 := by
  have hunits := units.toNat_lt
  rw [toNat_unitBytes]
  omega

/-- Places that are given in units are in the lower half of the numbers. -/
theorem unitBytes_lt (units : UInt32) : (unitBytes units).toNat < 2 ^ 63 :=
  Nat.lt_trans (toNat_unitBytes_lt units) (by decide)

theorem Region.byteOffset_lt (r : Region) : r.byteOffset.toNat < 2 ^ 63 := unitBytes_lt r.offset

theorem HashedRegion.byteOffset_lt (r : HashedRegion) : r.byteOffset.toNat < 2 ^ 63 :=
  unitBytes_lt r.offset

namespace ContainerHeader

variable {b : List UInt8} {start : Nat} {block : Block byteSize}
  (h : block.toList = (b.drop start).take byteSize)
include h

theorem magic_ofBlock :
    (ofBlock block).magic.bytes.toList = (b.drop (start + 0x100)).take 4 := by
  simp only [ofBlock, Block.toList_cut, h]
  exact window_window _ _ _ (by decide)

theorem programId_ofBlock : (ofBlock block).programId.toNat = wordAt b (start + 0x118) 8 := by
  simp only [ofBlock, Block.toNat_word64, h]
  exact wordAt_window _ _ _ (by decide)

theorem hasExtended_ofBlock :
    (ofBlock block).hasExtended = true ↔ wordAt b (start + 0x180) 4 ≠ 0 := by
  have hword : (ofBlock block).extendedSize.toNat = wordAt b (start + 0x180) 4 := by
    simp only [ofBlock, Block.toNat_word32, h]
    exact wordAt_window _ _ _ (by decide)
  rw [← hword, hasExtended, bne_iff_ne, ne_eq, ← UInt32.toNat_inj]
  rfl

theorem logo_offset_ofBlock : (ofBlock block).logo.offset.toNat = wordAt b (start + 0x198) 4 := by
  simp only [ofBlock, Region.ofBlock, Block.toNat_word32, Block.toList_cut, h]
  rw [wordAt_window _ _ _ (by decide), wordAt_window _ _ _ (by decide)]

theorem logo_size_ofBlock : (ofBlock block).logo.size.toNat = wordAt b (start + 0x19c) 4 := by
  simp only [ofBlock, Region.ofBlock, Block.toNat_word32, Block.toList_cut, h]
  rw [wordAt_window _ _ _ (by decide), wordAt_window _ _ _ (by decide)]

theorem logo_byteOffset_ofBlock :
    (ofBlock block).logo.byteOffset.toNat = 0x200 * wordAt b (start + 0x198) 4 := by
  rw [Region.byteOffset, toNat_unitBytes, logo_offset_ofBlock h]

theorem logo_byteSize_ofBlock :
    (ofBlock block).logo.byteSize.toNat = 0x200 * wordAt b (start + 0x19c) 4 := by
  rw [Region.byteSize, toNat_unitBytes, logo_size_ofBlock h]

theorem logo_isPresent_ofBlock :
    (ofBlock block).logo.isPresent = true ↔
      wordAt b (start + 0x198) 4 ≠ 0 ∧ wordAt b (start + 0x19c) 4 ≠ 0 := by
  rw [← logo_offset_ofBlock h, ← logo_size_ofBlock h, Region.isPresent, Bool.and_eq_true,
    bne_iff_ne, bne_iff_ne, ne_eq, ne_eq, ← UInt32.toNat_inj, ← UInt32.toNat_inj]
  rfl

theorem exefs_offset_ofBlock :
    (ofBlock block).exefs.offset.toNat = wordAt b (start + 0x1a0) 4 := by
  simp only [ofBlock, HashedRegion.ofBlock, Block.toNat_word32, Block.toList_cut, h]
  rw [wordAt_window _ _ _ (by decide), wordAt_window _ _ _ (by decide)]

theorem exefs_size_ofBlock : (ofBlock block).exefs.size.toNat = wordAt b (start + 0x1a4) 4 := by
  simp only [ofBlock, HashedRegion.ofBlock, Block.toNat_word32, Block.toList_cut, h]
  rw [wordAt_window _ _ _ (by decide), wordAt_window _ _ _ (by decide)]

theorem exefs_byteOffset_ofBlock :
    (ofBlock block).exefs.byteOffset.toNat = 0x200 * wordAt b (start + 0x1a0) 4 := by
  rw [HashedRegion.byteOffset, toNat_unitBytes, exefs_offset_ofBlock h]

theorem exefs_byteSize_ofBlock :
    (ofBlock block).exefs.byteSize.toNat = 0x200 * wordAt b (start + 0x1a4) 4 := by
  rw [HashedRegion.byteSize, toNat_unitBytes, exefs_size_ofBlock h]

theorem hasExefs_ofBlock :
    (ofBlock block).hasExefs = true ↔ wordAt b (start + 0x1a4) 4 ≠ 0 := by
  rw [← exefs_size_ofBlock h, hasExefs, bne_iff_ne, ne_eq, ← UInt32.toNat_inj]
  rfl

end ContainerHeader

namespace ExtendedHeader

variable {b : List UInt8} {start : Nat} {block : Block byteSize}
  (h : block.toList = (b.drop start).take byteSize)
include h

theorem programId_ofBlock : (ofBlock block).programId.toNat = wordAt b (start + 0x200) 8 := by
  simp only [programId, ofBlock, Capabilities.ofBlock, LocalCapabilities.ofBlock,
    Block.toNat_word64, Block.toList_cut, h]
  rw [wordAt_window _ _ _ (by decide), wordAt_window _ _ _ (by decide),
    wordAt_window _ _ _ (by decide)]

theorem isCompressed_ofBlock :
    (ofBlock block).codeSet.isCompressed = true ↔ wordAt b (start + 0xd) 1 % 2 = 1 := by
  have hflag : (ofBlock block).codeSet.flag.toNat = wordAt b (start + 0xd) 1 := by
    simp only [ofBlock, CodeSet.ofBlock]
    rw [Block.toNat_byteAt, Block.toList_cut, h, wordAt_window _ _ _ (by decide),
      wordAt_window _ _ _ (by decide)]
  have hzero : (0 : UInt8).toNat = 0 := rfl
  have hone : (1 : UInt8).toNat = 1 := rfl
  rw [← hflag, CodeSet.isCompressed, bne_iff_ne, ne_eq, ← UInt8.toNat_inj, UInt8.toNat_and, hone,
    hzero, Nat.and_one_is_mod]
  omega

end ExtendedHeader

/-! ## Image headers -/

namespace ImageHeader

variable {b : List UInt8} {start : Nat} {block : Block byteSize}

section

variable (h : block.toList = (b.drop start).take byteSize)
include h

theorem magic_ofBlock :
    (ofBlock block).magic.bytes.toList = (b.drop (start + 0x100)).take 4 := by
  simp only [ofBlock, Block.toList_cut, h]
  exact window_window _ _ _ (by decide)

/-- The place and the size of a partition, in units, are two numbers of the header. -/
theorem partition_ofBlock (index : Nat) (hindex : index < 8) :
    ∃ partition, (ofBlock block).partitions[index]? = some partition ∧
      partition.offset.toNat = wordAt b (start + (0x120 + 8 * index)) 4 ∧
      partition.size.toNat = wordAt b (start + (0x124 + 8 * index)) 4 := by
  have hplace : 0x120 + 8 * index + 8 ≤ byteSize := by
    unfold byteSize
    omega
  refine ⟨Region.ofBlock (block.cut (0x120 + 8 * index) 8 hplace), ?_, ?_, ?_⟩
  · rw [Vector.getElem?_eq_getElem hindex]
    simp only [ofBlock, Block.row, Vector.getElem_map, Vector.getElem_ofFn]
  · simp only [Region.ofBlock, Block.toNat_word32, Block.toList_cut, h]
    rw [wordAt_window _ _ _ (by decide), wordAt_window _ _ _ (by unfold byteSize; omega),
      Nat.add_zero]
  · simp only [Region.ofBlock, Block.toNat_word32, Block.toList_cut, h]
    rw [wordAt_window _ _ _ (by decide), wordAt_window _ _ _ (by unfold byteSize; omega)]
    congr 1
    omega

/-- A partition has a place unless its size is given as zero. -/
theorem partitionOffset_ofBlock (index : Nat) (hindex : index < 8) :
    (ofBlock block).partitionOffset index =
      if wordAt b (start + (0x124 + 8 * index)) 4 = 0 then .error (.noPartition index)
      else .ok (UInt64.ofNat (0x200 * wordAt b (start + (0x120 + 8 * index)) 4)) := by
  obtain ⟨partition, hpartition, hoffset, hsize⟩ := partition_ofBlock h index hindex
  have hempty : partition.size = 0 ↔ wordAt b (start + (0x124 + 8 * index)) 4 = 0 := by
    rw [← hsize, ← UInt32.toNat_inj]
    rfl
  have hbytes : partition.byteOffset =
      UInt64.ofNat (0x200 * wordAt b (start + (0x120 + 8 * index)) 4) := by
    rw [← hoffset, ← toNat_unitBytes, UInt64.ofNat_toNat]
    rfl
  rw [partitionOffset, hpartition]
  dsimp only
  rw [hbytes]
  simp only [hempty]

end

/-- The bytes of an image start with an image header. -/
theorem ofBytes_eq_ok_iff {bytes : Bytes} {header : ImageHeader} :
    ofBytes bytes = .ok header ↔
      ∃ block, bytes.block? byteSize = some block ∧ header = ofBlock block ∧
        (ofBlock block).magic.bytes.toList = imageMagic := by
  unfold ofBytes
  cases bytes.block? byteSize with
  | none => exact iff_of_false nofun fun ⟨_, hblock, _⟩ => nomatch hblock
  | some block =>
    dsimp only
    by_cases hmagic : (ofBlock block).magic.bytes.toList = imageMagic
    · rw [if_pos hmagic]
      constructor
      · rintro ⟨rfl⟩
        exact ⟨block, rfl, rfl, hmagic⟩
      · rintro ⟨_, ⟨rfl⟩, rfl, -⟩
        rfl
    · rw [if_neg hmagic]
      refine iff_of_false nofun ?_
      rintro ⟨_, ⟨rfl⟩, -, hother⟩
      exact hmagic hother

end ImageHeader

end Cartridge
