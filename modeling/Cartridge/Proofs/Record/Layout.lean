import Cartridge.Proofs.Bytes

/-!
# Layouts of records

A record is laid out in a block as fields, bytes that each stand at a place. Fields that lie one
after the other, with no gap and no overlap, make up the whole block: writing them over anything
gives the block, and a block that shows all of them is the one that they make up.
-/
namespace Cartridge

/-- Bytes and the place where they stand. -/
structure Field where
  place : Nat
  bytes : List UInt8
  deriving DecidableEq

namespace Field

/-- Writes a field over what stands at its place. -/
def put (buffer : List UInt8) (f : Field) : List UInt8 :=
  buffer.take f.place ++ f.bytes ++ buffer.drop (f.place + f.bytes.length)

/-- Whether a field stands at its place. -/
def StandsIn (b : List UInt8) (f : Field) : Prop := (b.drop f.place).take f.bytes.length = f.bytes

end Field

/-- Writes fields into a buffer, one after the other. -/
def writeFields (fields : List Field) (buffer : List UInt8) : List UInt8 :=
  fields.foldl Field.put buffer

/-- The bytes of the fields one after the other. -/
def joined (fields : List Field) : List UInt8 := fields.flatMap Field.bytes

/-- Whether every field stands at its place. -/
def Shows (b : List UInt8) (fields : List Field) : Prop := ∀ f ∈ fields, f.StandsIn b

/-- From `start` on, every field begins where the one before it ends. -/
def Tiles : Nat → List Field → Prop
  | _, [] => True
  | start, f :: rest => f.place = start ∧ Tiles (start + f.bytes.length) rest

/-- The fields of a record that itself stands at a place. -/
def moved (start : Nat) (fields : List Field) : List Field :=
  fields.map fun f => ⟨start + f.place, f.bytes⟩

/-- The fields of records of one width that stand one after the other. -/
def row (start width : Nat) : List (List Field) → List Field
  | [] => []
  | record :: rest => moved start record ++ row (start + width) width rest

@[simp] theorem joined_nil : joined [] = [] := rfl

@[simp] theorem joined_cons (f : Field) (fields : List Field) :
    joined (f :: fields) = f.bytes ++ joined fields := rfl

@[simp] theorem joined_append (fields more : List Field) :
    joined (fields ++ more) = joined fields ++ joined more := List.flatMap_append

@[simp] theorem joined_moved (start : Nat) (fields : List Field) :
    joined (moved start fields) = joined fields := by
  simp [joined, moved, List.flatMap_map]

@[simp] theorem shows_nil (b : List UInt8) : Shows b [] := by simp [Shows]

@[simp] theorem shows_cons (b : List UInt8) (f : Field) (fields : List Field) :
    Shows b (f :: fields) ↔ f.StandsIn b ∧ Shows b fields := by
  simp [Shows]

@[simp] theorem shows_append (b : List UInt8) (fields more : List Field) :
    Shows b (fields ++ more) ↔ Shows b fields ∧ Shows b more := by
  simp [Shows, or_imp, forall_and]

@[simp] theorem tiles_nil (start : Nat) : Tiles start [] := trivial

@[simp] theorem tiles_cons (start : Nat) (f : Field) (fields : List Field) :
    Tiles start (f :: fields) ↔ f.place = start ∧ Tiles (start + f.bytes.length) fields := Iff.rfl

@[simp] theorem tiles_append (start : Nat) (fields more : List Field) :
    Tiles start (fields ++ more) ↔
      Tiles start fields ∧ Tiles (start + (joined fields).length) more := by
  induction fields generalizing start with
  | nil => simp
  | cons f fields ih => simp [ih, Nat.add_assoc, and_assoc]

@[simp] theorem tiles_moved (base start : Nat) (fields : List Field) :
    Tiles (base + start) (moved base fields) ↔ Tiles start fields := by
  induction fields generalizing start with
  | nil => simp [moved]
  | cons f fields ih =>
    have hrest := ih (start + f.bytes.length)
    rw [← Nat.add_assoc] at hrest
    simp only [moved, List.map_cons, tiles_cons, Nat.add_left_cancel_iff] at hrest ⊢
    rw [hrest]

theorem joined_row (start width : Nat) (records : List (List Field)) :
    joined (row start width records) = records.flatMap joined := by
  induction records generalizing start with
  | nil => rfl
  | cons record rest ih => simp [row, ih]

theorem tiles_row {start width : Nat} {records : List (List Field)}
    (h : ∀ record ∈ records, Tiles 0 record ∧ (joined record).length = width) :
    Tiles start (row start width records) := by
  induction records generalizing start with
  | nil => exact tiles_nil start
  | cons record rest ih =>
    obtain ⟨hrecord, hrest⟩ := List.forall_mem_cons.mp h
    have hmoved := (tiles_moved start 0 record).mpr hrecord.1
    rw [row, tiles_append, joined_moved, hrecord.2]
    exact ⟨hmoved, ih hrest⟩

theorem shows_row (b : List UInt8) (start width : Nat) (records : List (List Field)) :
    Shows b (row start width records) ↔
      ∀ (i : Nat) (h : i < records.length), Shows b (moved (start + width * i) records[i]) := by
  induction records generalizing start with
  | nil => simp [row]
  | cons record rest ih =>
    have hplace (i : Nat) : start + width + width * i = start + width * (i + 1) := by
      rw [Nat.mul_add, Nat.mul_one, Nat.add_assoc, Nat.add_comm width]
    rw [row, shows_append, ih]
    constructor
    · rintro ⟨hfirst, hrest⟩ i hi
      cases i with
      | zero => exact hfirst
      | succ i =>
        have hshown := hrest i (Nat.lt_of_succ_lt_succ hi)
        rw [hplace] at hshown
        exact hshown
    · intro hall
      refine ⟨hall 0 (Nat.zero_lt_succ _), fun i hi => ?_⟩
      rw [hplace]
      exact hall (i + 1) (Nat.succ_lt_succ hi)

section Tiling

variable {start : Nat} {fields : List Field}

/-- Fields that lie one after the other are written as their bytes, whatever was there. -/
theorem writeFields_of_tiles (front buffer : List UInt8) (h : Tiles start fields)
    (hfront : front.length = start) (hroom : (joined fields).length ≤ buffer.length) :
    writeFields fields (front ++ buffer) =
      front ++ joined fields ++ buffer.drop (joined fields).length := by
  induction fields generalizing start front buffer with
  | nil => simp [writeFields]
  | cons f fields ih =>
    obtain ⟨hplace, hrest⟩ := h
    rw [joined_cons, List.length_append] at hroom
    have hput : f.put (front ++ buffer) = front ++ f.bytes ++ buffer.drop f.bytes.length := by
      rw [Field.put, hplace, ← hfront, List.take_left, List.drop_append]
      simp
    have hnext := ih (front ++ f.bytes) (buffer.drop f.bytes.length) hrest
      (by rw [List.length_append, hfront]) (by rw [List.length_drop]; omega)
    -- what is written so far is the new front, and it ends where the next field begins
    rw [writeFields, List.foldl_cons, ← writeFields, hput, hnext]
    simp [List.append_assoc, List.drop_drop]

/-- The bytes of the fields show them. -/
theorem shows_of_tiles (front rest : List UInt8) (h : Tiles start fields)
    (hfront : front.length = start) : Shows (front ++ joined fields ++ rest) fields := by
  induction fields generalizing start front with
  | nil => exact shows_nil _
  | cons f fields ih =>
    obtain ⟨hplace, hrest⟩ := h
    have hnext := ih (front ++ f.bytes) hrest (by rw [List.length_append, hfront])
    have hbytes : front ++ joined (f :: fields) ++ rest =
        front ++ f.bytes ++ joined fields ++ rest := by simp
    rw [shows_cons, hbytes]
    refine ⟨?_, hnext⟩
    rw [Field.StandsIn, hplace, ← hfront]
    simp

/-- Bytes that show fields one after the other are those of the fields. -/
theorem joined_of_shows {b : List UInt8} (h : Tiles start fields) (hshows : Shows b fields) :
    (b.drop start).take (joined fields).length = joined fields := by
  induction fields generalizing start with
  | nil => simp
  | cons f fields ih =>
    obtain ⟨hplace, hrest⟩ := h
    obtain ⟨hfield, hfields⟩ := (shows_cons b f fields).mp hshows
    have hnext := ih hrest hfields
    rw [Field.StandsIn, hplace] at hfield
    rw [joined_cons, List.length_append, List.take_add, hfield, List.drop_drop, hnext]

/-- A field ends within the bytes that the fields make up. -/
theorem end_le_of_tiles {f : Field} (h : Tiles start fields) (hmem : f ∈ fields) :
    f.place + f.bytes.length ≤ start + (joined fields).length := by
  induction fields generalizing start with
  | nil => cases hmem
  | cons g fields ih =>
    obtain ⟨hplace, hrest⟩ := h
    rw [joined_cons, List.length_append]
    rcases List.mem_cons.mp hmem with rfl | hmem
    · omega
    · have hend := ih hrest hmem
      omega

/-- Fields at a place of a block are fields of the piece that stands there. -/
theorem shows_moved {b : List UInt8} {length : Nat} (h : Tiles 0 fields)
    (hlength : (joined fields).length = length) :
    Shows b (moved start fields) ↔ Shows ((b.drop start).take length) fields := by
  have hfield (f : Field) (hmem : f ∈ fields) :
      (Field.mk (start + f.place) f.bytes).StandsIn b ↔
        f.StandsIn ((b.drop start).take length) := by
    have hend := end_le_of_tiles h hmem
    rw [Field.StandsIn, Field.StandsIn, window_window _ _ _ (by omega)]
  simp only [Shows, moved, List.forall_mem_map]
  exact forall₂_congr hfield

end Tiling

/-! ## Fields of a block -/

namespace Block

theorem toList_concat {width count : Nat} (blocks : Vector (Block width) count) :
    (concat blocks).toList = blocks.toList.flatMap Vector.toList := by
  have hlist : (concat blocks).toList =
      (blocks.toArray.toList.map (Array.toList ∘ Vector.toArray)).flatten := by
    simp [concat, Vector.flatten, Vector.toList]
  rw [hlist, ← List.flatMap_def]
  rfl

variable {n : Nat} (b : Block n) (start : Nat)

theorem length_window {length : Nat} (fits : start + length ≤ n) :
    ((b.toList.drop start).take length).length = length := by
  rw [List.length_take, List.length_drop, Vector.length_toList]
  omega

theorem standsIn_block {length : Nat} (x : Block length) (fits : start + length ≤ n) :
    (Field.mk start x.toList).StandsIn b.toList ↔ b.cut start length fits = x := by
  rw [← Vector.toList_inj, toList_cut, Field.StandsIn, Vector.length_toList]

theorem standsIn_octets {width value : Nat} (fits : start + width ≤ n)
    (hvalue : value < 256 ^ width) :
    (Field.mk start (octets width value)).StandsIn b.toList ↔
      (b.cut start width fits).word = value := by
  rw [word_cut, Field.StandsIn, length_octets,
    octets_eq_iff (length_window b start fits) hvalue]

theorem standsIn_word16 (w : UInt16) (fits : start + 2 ≤ n) :
    (Field.mk start (octets 2 w.toNat)).StandsIn b.toList ↔ b.word16 start fits = w := by
  rw [standsIn_octets b start fits w.toNat_lt, ← UInt16.toNat_inj, toNat_word16, word_cut, wordAt]

theorem standsIn_word32 (w : UInt32) (fits : start + 4 ≤ n) :
    (Field.mk start (octets 4 w.toNat)).StandsIn b.toList ↔ b.word32 start fits = w := by
  rw [standsIn_octets b start fits w.toNat_lt, ← UInt32.toNat_inj, toNat_word32, word_cut, wordAt]

theorem standsIn_word64 (w : UInt64) (fits : start + 8 ≤ n) :
    (Field.mk start (octets 8 w.toNat)).StandsIn b.toList ↔ b.word64 start fits = w := by
  rw [standsIn_octets b start fits w.toNat_lt, ← UInt64.toNat_inj, toNat_word64, word_cut, wordAt]

theorem standsIn_byte (x : UInt8) (fits : start < n) :
    (Field.mk start [x]).StandsIn b.toList ↔ b.byteAt start fits = x := by
  have hlength : start < b.toList.length := by
    rw [Vector.length_toList]
    exact fits
  rw [Field.StandsIn, List.drop_eq_getElem_cons hlength, List.length_singleton,
    List.take_succ_cons, List.take_zero, byteAt_eq, List.getD_eq_getElem?_getD,
    List.getElem?_eq_getElem hlength, List.cons.injEq]
  simp

end Block

/-- A record is laid out if its fields make up the block that it is written as, and a block shows
the fields of exactly one record, the one that is read from it. -/
structure LaidOut {n : Nat} {α : Type} (ofBlock : Block n → α) (toBlock : α → Block n)
    (fields : α → List Field) : Prop where
  tiles : ∀ r, Tiles 0 (fields r)
  joined_eq : ∀ r, joined (fields r) = (toBlock r).toList
  shows_iff : ∀ b r, Shows b.toList (fields r) ↔ ofBlock b = r

namespace LaidOut

variable {n : Nat} {α : Type} {ofBlock : Block n → α} {toBlock : α → Block n}
  {fields : α → List Field} (h : LaidOut ofBlock toBlock fields)
include h

theorem length_joined (r : α) : (joined (fields r)).length = n := by
  rw [h.joined_eq, Vector.length_toList]

/-- The fields lie one after the other wherever the record stands. -/
theorem tiles_moved (start : Nat) (r : α) : Tiles start (moved start (fields r)) :=
  (Cartridge.tiles_moved start 0 (fields r)).mpr (h.tiles r)

/-- Writing the fields over a buffer of the right length gives the block. -/
theorem writeFields_eq (r : α) {buffer : List UInt8} (hlength : buffer.length = n) :
    writeFields (fields r) buffer = (toBlock r).toList := by
  have hjoined := h.length_joined r
  have hwrite := writeFields_of_tiles [] buffer (h.tiles r) rfl (by omega)
  rw [hjoined, ← hlength, List.drop_length, List.append_nil, h.joined_eq] at hwrite
  exact hwrite

/-- What is read is what was written. -/
theorem ofBlock_toBlock (r : α) : ofBlock (toBlock r) = r := by
  have hshows := shows_of_tiles [] [] (h.tiles r) rfl
  rw [List.nil_append, List.append_nil, h.joined_eq] at hshows
  exact (h.shows_iff _ r).mp hshows

/-- What is written shows the fields. -/
theorem shows_toBlock (r : α) : Shows (toBlock r).toList (fields r) :=
  (h.shows_iff _ r).mpr (h.ofBlock_toBlock r)

/-- What is written is what was read. -/
theorem toBlock_ofBlock (b : Block n) : toBlock (ofBlock b) = b := by
  have hjoined := joined_of_shows (h.tiles (ofBlock b)) ((h.shows_iff b _).mpr rfl)
  rw [h.length_joined, ← Block.toList_eq_window, h.joined_eq] at hjoined
  exact (Vector.toList_inj.mp hjoined).symm

/-- A record at a place of a larger block. -/
theorem shows_moved {m : Nat} (b : Block m) (start : Nat) (fits : start + n ≤ m) (r : α) :
    Shows b.toList (moved start (fields r)) ↔ ofBlock (b.cut start n fits) = r := by
  rw [Cartridge.shows_moved (h.tiles r) (h.length_joined r), ← h.shows_iff, Block.toList_cut]

/-- Records in a row are read one by one. -/
theorem shows_row {m count : Nat} (b : Block m) (start : Nat) (fits : start + n * count ≤ m)
    (v : Vector α count) :
    Shows b.toList (row start n (v.toList.map fields)) ↔
      (b.row start n count fits).map ofBlock = v := by
  rw [Cartridge.shows_row, Vector.ext_iff]
  simp only [List.length_map, Vector.length_toList, List.getElem_map, Vector.getElem_toList,
    Vector.getElem_map, Block.row, Vector.getElem_ofFn]
  apply forall₂_congr
  intro i hi
  have hplace : n * (i + 1) ≤ n * count := Nat.mul_le_mul_left n hi
  rw [Nat.mul_add, Nat.mul_one] at hplace
  exact h.shows_moved b (start + n * i) (by omega) v[i]

theorem tiles_row {count : Nat} (start : Nat) (v : Vector α count) :
    Tiles start (row start n (v.toList.map fields)) := by
  apply Cartridge.tiles_row
  intro record hrecord
  obtain ⟨r, -, rfl⟩ := List.mem_map.mp hrecord
  exact ⟨h.tiles r, h.length_joined r⟩

theorem joined_row {count : Nat} (start : Nat) (v : Vector α count) :
    joined (row start n (v.toList.map fields)) = (Block.concat (v.map toBlock)).toList := by
  rw [Cartridge.joined_row, Block.toList_concat, Vector.toList_map, List.flatMap_map,
    List.flatMap_map]
  exact congrArg v.toList.flatMap (funext h.joined_eq)

end LaidOut

/-- A block as a field of its own. -/
theorem laidOut_bytes (n : Nat) : LaidOut (n := n) id id fun x => [⟨0, x.toList⟩] where
  tiles _ := by simp
  joined_eq _ := by simp
  shows_iff b r := by
    rw [shows_cons, and_iff_left (shows_nil b.toList), Field.StandsIn, Vector.length_toList,
      ← Block.toList_eq_window, Vector.toList_inj]
    rfl

theorem octets_word {n : Nat} (x : Block n) : octets n x.word = x.toList := by
  have hoctets := octets_littleEndian x.toList
  rw [Vector.length_toList] at hoctets
  exact hoctets

/-- A block as a number. -/
theorem laidOut_number (n : Nat) : LaidOut (n := n) id id fun x => [⟨0, octets n x.word⟩] := by
  simp only [octets_word]
  exact laidOut_bytes n

end Cartridge
