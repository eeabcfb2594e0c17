import Cartridge.Command.HexDump
import Cartridge.Proofs.Text.Hex
import Mathlib.Algebra.Group.Nat.Defs
import Mathlib.Data.List.Forall2

/-!
# Reading a hex dump

A dump is read line by line without knowing what it was made from. The address ends at the first
space, and the fields after it are read three characters at a time, until one is blank or the
column ends; what the text column looks like does not matter, because it begins in the same place
on every line.
-/
namespace Cartridge

namespace Bytes

variable {size : Nat}

theorem pieces_nil : pieces size [] = [] := by
  rw [pieces, dif_pos (.inl rfl)]

theorem pieces_of_ne_nil (hsize : 0 < size) {b : List UInt8} (hb : b ≠ []) :
    pieces size b = b.take size :: pieces size (b.drop size) := by
  rw [pieces, dif_neg]
  exact not_or.mpr ⟨hb, Nat.pos_iff_ne_zero.mp hsize⟩

/-- The pieces begin at the multiples of their size. -/
theorem getElem?_pieces (hsize : 0 < size) (b : List UInt8) (i : Nat) :
    (pieces size b)[i]? =
      if size * i < b.length then some ((b.drop (size * i)).take size) else none := by
  induction i generalizing b with
  | zero =>
    by_cases hb : b = []
    · simp [hb, pieces_nil]
    · rw [pieces_of_ne_nil hsize hb, if_pos (by simpa using List.length_pos_iff.mpr hb)]
      simp
  | succ i ih =>
    by_cases hb : b = []
    · simp [hb, pieces_nil]
    · rw [pieces_of_ne_nil hsize hb, List.getElem?_cons_succ, ih, List.length_drop, List.drop_drop]
      simp only [Nat.mul_succ, Nat.add_comm, Nat.lt_sub_iff_add_lt]

theorem length_pieces_le_iff (hsize : 0 < size) (b : List UInt8) (i : Nat) :
    (pieces size b).length ≤ i ↔ b.length ≤ size * i := by
  rw [← List.getElem?_eq_none_iff, getElem?_pieces hsize, ite_eq_right_iff]
  simp

theorem flatten_pieces (hsize : 0 < size) (b : List UInt8) : (pieces size b).flatten = b := by
  induction hlength : b.length using Nat.strongRecOn generalizing b with
  | ind n ih =>
    by_cases hb : b = []
    · rw [hb, pieces_nil, List.flatten_nil]
    · have hpos := List.length_pos_iff.mpr hb
      rw [pieces_of_ne_nil hsize hb, List.flatten_cons,
        ih (b.drop size).length (by rw [List.length_drop]; omega) _ rfl, List.take_append_drop]

end Bytes

namespace HexDump

/-! ## The reader -/

/-- The bytes of the fields in front, up to the first that is none. -/
def readFields : List Char → List UInt8
  | ' ' :: high :: low :: rest =>
    match Hex.value? [high, low] with
    | some n => UInt8.ofNat n :: readFields rest
    | none => []
  | _ => []

/-- The bytes of a line, from the column of 48 characters that starts one after the address. -/
def readLine (line : List Char) : List UInt8 :=
  readFields (((line.dropWhile (· != ' ')).drop 1).take 48)

/-- The lines of a text in which every line has an end. -/
def linesOf (s : String) : List (List Char) := (s.toList.splitOn '\n').dropLast

/-- A byte is shown by itself if it is printable ASCII, and else by a dot. -/
def ShownAs (b : UInt8) (c : Char) : Prop :=
  if 0x20 ≤ b ∧ b ≤ 0x7e then c.toNat = b.toNat else c = '.'

/-- A line has three parts: the address, the column of the fields, which is of the same length
however many they are, and the text. -/
structure IsLine (address : Nat) (chunk : List UInt8) (line : List Char) : Prop where
  parts : ∃ digits column glyphs, line = digits ++ column ++ glyphs ∧
    Hex.Spells 8 address digits ∧ column.length = 51 ∧ List.Forall₂ ShownAs chunk glyphs
  readLine_eq : readLine line = chunk

/-! ## Fields -/

theorem readFields_field (b : UInt8) (rest : List Char) :
    readFields (field b ++ rest) = b :: readFields rest := by
  obtain ⟨high, low, hbyte, hvalue⟩ := Hex.byte_eq b
  rw [field, hbyte]
  simp only [List.cons_append, List.nil_append, readFields, hvalue, UInt8.ofNat_toNat]

theorem readFields_spaces (k : Nat) : readFields (List.replicate k ' ') = [] := by
  match k with
  | 0 | 1 | 2 | _ + 3 => rfl

theorem readFields_flatMap_field (chunk : List UInt8) (k : Nat) :
    readFields (chunk.flatMap field ++ List.replicate k ' ') = chunk := by
  induction chunk with
  | nil => exact readFields_spaces k
  | cons b chunk ih => rw [List.flatMap_cons, List.append_assoc, readFields_field, ih]

theorem length_field (b : UInt8) : (field b).length = 3 := by
  obtain ⟨high, low, hbyte, -⟩ := Hex.byte_eq b
  rw [field, hbyte]
  rfl

theorem lineEnd_notMem_field (b : UInt8) : '\n' ∉ field b := by
  obtain ⟨high, low, hbyte, hvalue⟩ := Hex.byte_eq b
  have hdigits := Hex.isSome_digit?_of_extend? hvalue
  rw [field, hbyte, List.mem_cons, not_or]
  exact ⟨by decide, fun hmem => absurd (hdigits _ hmem) (by decide)⟩

theorem toNat_ofNat_byte (b : UInt8) : (Char.ofNat b.toNat).toNat = b.toNat := by
  have hb := b.toNat_lt
  rw [Char.ofNat, dif_pos (.inl (by omega))]
  rfl

theorem shownAs_glyph (b : UInt8) : ShownAs b (glyph b) := by
  unfold ShownAs glyph
  by_cases hshown : 0x20 ≤ b ∧ b ≤ 0x7e
  · rw [if_pos hshown, if_pos (by simpa using hshown), toNat_ofNat_byte]
  · rw [if_neg hshown, if_neg (by simpa using hshown)]

theorem ShownAs.ne_lineEnd {b : UInt8} {c : Char} (h : ShownAs b c) : c ≠ '\n' := by
  rintro rfl
  unfold ShownAs at h
  split at h
  next hshown =>
    have hlow := UInt8.le_iff_toNat_le.mp hshown.1
    rw [← h] at hlow
    exact absurd hlow (by decide)
  next => exact absurd h (by decide)

/-! ## Lines -/

/-- The fields of a chunk, and blanks for those that a short one lacks. -/
def fields (chunk : List UInt8) : List Char :=
  chunk.flatMap field ++ List.replicate (3 * (lineSize - chunk.length)) ' '

theorem length_fields {chunk : List UInt8} (h : chunk.length ≤ lineSize) :
    (fields chunk).length = 48 := by
  unfold lineSize at h
  simp only [fields, lineSize, List.length_append, List.length_flatMap, length_field,
    List.map_const', List.sum_replicate_nat, List.length_replicate]
  omega

theorem line_eq (address : Nat) (chunk : List UInt8) :
    line address chunk =
      Hex.digits 8 address ++ (' ' :: fields chunk ++ [' ', ' ']) ++ chunk.map glyph := by
  simp only [line, fields, List.append_assoc, List.cons_append, List.nil_append]

theorem readLine_line (address : Nat) {chunk : List UInt8} (h : chunk.length ≤ lineSize) :
    readLine (line address chunk) = chunk := by
  have hspace : ' ' ∉ Hex.digits 8 address :=
    (Hex.spells_digits (by decide) address).notMem (by decide)
  have haddress : ∀ c ∈ Hex.digits 8 address, (c != ' ') = true := fun c hc =>
    bne_iff_ne.mpr fun heq => hspace (heq ▸ hc)
  have hdrop : ((line address chunk).dropWhile (· != ' ')).drop 1 =
      fields chunk ++ ([' ', ' '] ++ chunk.map glyph) := by
    rw [line_eq, List.append_assoc, List.dropWhile_append_of_pos haddress]
    simp
  rw [readLine, hdrop, List.take_left' (length_fields h), fields, readFields_flatMap_field]

theorem isLine_line (address : Nat) {chunk : List UInt8} (h : chunk.length ≤ lineSize) :
    IsLine address chunk (line address chunk) where
  parts := by
    refine ⟨_, _, _, line_eq address chunk, Hex.spells_digits (by decide) address, ?_, ?_⟩
    · simp [length_fields h]
    · rw [List.forall₂_map_right_iff]
      exact List.forall₂_same.mpr fun b _ => shownAs_glyph b
  readLine_eq := readLine_line address h

theorem lineEnd_notMem_line (address : Nat) (chunk : List UInt8) :
    '\n' ∉ line address chunk := by
  have haddress : '\n' ∉ Hex.digits 8 address :=
    (Hex.spells_digits (by decide) address).notMem (by decide)
  have hfields : '\n' ∉ fields chunk := by
    rw [fields, List.mem_append, not_or, List.mem_flatMap, List.mem_replicate]
    constructor
    · rintro ⟨b, -, hb⟩
      exact lineEnd_notMem_field b hb
    · rintro ⟨-, hblank⟩
      cases hblank
  have hglyphs : '\n' ∉ chunk.map glyph := by
    intro hmem
    obtain ⟨b, -, hb⟩ := List.mem_map.mp hmem
    exact (shownAs_glyph b).ne_lineEnd hb
  rw [line_eq]
  simp [haddress, hfields, hglyphs]

/-! ## Texts -/

theorem getElem?_lines (base : Nat) (data : List UInt8) (i : Nat) :
    (lines base data)[i]? =
      (Bytes.pieces lineSize data)[i]?.map fun chunk => line (base + lineSize * i) chunk := by
  simp [lines, Function.comp_def]

theorem splitOn_lines {ls : List (List Char)} (h : ∀ l ∈ ls, '\n' ∉ l) :
    (ls.flatMap fun l => l ++ ['\n']).splitOn '\n' = ls ++ [[]] := by
  induction ls with
  | nil => exact List.splitOn_nil '\n'
  | cons l ls ih =>
    obtain ⟨hl, hrest⟩ := List.forall_mem_cons.mp h
    rw [List.flatMap_cons, List.append_assoc, List.singleton_append,
      List.splitOn_append_cons_self_of_not_mem hl, ih hrest, List.cons_append]

theorem linesOf_text (base : Nat) (data : List UInt8) :
    linesOf (text base data) = lines base data := by
  have hlines : ∀ l ∈ lines base data, '\n' ∉ l := by
    intro l hl
    obtain ⟨⟨chunk, i⟩, -, rfl⟩ := List.mem_map.mp hl
    exact lineEnd_notMem_line _ chunk
  rw [linesOf, text, String.toList_ofList, splitOn_lines hlines, List.dropLast_concat]

theorem length_lines (base : Nat) (data : List UInt8) :
    (lines base data).length = (data.length + 15) / 16 := by
  have hpieces := Bytes.length_pieces_le_iff (by decide : 0 < 16) data
  have hle := (hpieces ((data.length + 15) / 16)).mpr (by omega)
  have hge := (hpieces (Bytes.pieces 16 data).length).mp (Nat.le_refl _)
  rw [lines, List.length_map, List.length_zipIdx, lineSize]
  omega

/-- Each line is that of the sixteen bytes at its place. -/
theorem getElem_lines (base : Nat) (data : List UInt8) {i : Nat}
    (hi : i < (lines base data).length) :
    (lines base data)[i] = line (base + 16 * i) ((data.drop (16 * i)).take 16) := by
  have hinside : 16 * i < data.length := by
    rw [length_lines] at hi
    omega
  have hline := getElem?_lines base data i
  rw [lineSize, Bytes.getElem?_pieces (by decide), if_pos hinside, Option.map_some] at hline
  exact (List.getElem?_eq_some_iff.mp hline).2

theorem map_readLine_lines (base : Nat) (data : List UInt8) :
    (lines base data).map readLine = Bytes.pieces 16 data := by
  refine List.ext_getElem? fun i => ?_
  rw [List.getElem?_map, getElem?_lines, lineSize, Bytes.getElem?_pieces (by decide)]
  split
  · rw [Option.map_some, Option.map_some, readLine_line _ (List.length_take_le 16 _)]
  · rfl

/-- A dump has a line for each sixteen bytes and one for the rest. It tells for each line which
bytes are at which address, and for all of them together what was dumped, while the addresses
stay below `2 ^ 64`. -/
theorem text_reads_back (base : UInt64) (data : List UInt8)
    (h : base.toNat + data.length < 2 ^ 64) :
    let text := text base.toNat data
    text.toList = (linesOf text).flatMap (fun line => line ++ ['\n']) ∧
    (linesOf text).length = (data.length + 15) / 16 ∧
    (∀ i line, (linesOf text)[i]? = some line →
      (base + UInt64.ofNat i * 16).toNat = base.toNat + 16 * i ∧
      IsLine (base + UInt64.ofNat i * 16).toNat ((data.drop (16 * i)).take 16) line) ∧
    (linesOf text).flatMap readLine = data := by
  intro text
  rw [linesOf_text]
  refine ⟨String.toList_ofList, length_lines _ data, ?_, ?_⟩
  · intro i line hline
    obtain ⟨hi, rfl⟩ := List.getElem?_eq_some_iff.mp hline
    have haddress : (base + UInt64.ofNat i * 16).toNat = base.toNat + 16 * i := by
      rw [length_lines] at hi
      simp only [UInt64.toNat_add, UInt64.toNat_mul, UInt64.toNat_ofNat', UInt64.reduceToNat]
      omega
    rw [haddress, getElem_lines]
    exact ⟨rfl, isLine_line _ (List.length_take_le ..)⟩
  · rw [List.flatMap_def, map_readLine_lines, Bytes.flatten_pieces (by decide)]

theorem text_reads_back_two_lines :
    let data := utf8 " 20 21  22 23 | \n!"
    (0xfffffff8 : UInt64).toNat + data.length < 2 ^ 64 ∧
    text 0xfffffff8 data =
      "fffffff8  20 32 30 20 32 31 20 20 32 32 20 32 33 20 7c 20   20 21  22 23 | \n" ++
      "100000008  0a 21                                            .!\n" ∧
    (linesOf (text 0xfffffff8 data)).flatMap readLine = data := by
  intro data
  have hbound : (0xfffffff8 : UInt64).toNat + data.length < 2 ^ 64 := by decide +kernel
  exact ⟨hbound, by decide +kernel, (text_reads_back 0xfffffff8 data hbound).2.2.2⟩

end HexDump

end Cartridge
