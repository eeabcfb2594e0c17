import Cartridge.Proofs.Outcome
import Cartridge.Proofs.Storage.Access
import Cartridge.Proofs.Storage.Positions

/-!
# Reading from a range

Which bytes of its file a range reads. The start of the range and the position in it are added as
numbers of 64 bits, and a read whose place does not fit is none: it ends the program.
-/
namespace Cartridge.FileRange

variable {fs : FileSystem} {r : FileRange} {position : UInt64} {length : Nat}

/-- In the range, reading is reading the file. -/
theorem readAt_eq_readExactly (h : position.toNat + length ≤ r.size.toNat) :
    r.readAt fs position length =
      (fs.readExactly r.file (r.offset + position) length).mapError .file := by
  rw [readAt_eq, if_neg (Nat.not_lt.mpr h), FileSystem.readExactly]
  cases fs.readAt r.file (r.offset + position) length with
  | ok bytes => rfl
  | error fault => rfl

theorem readAt_nothing (h : position.toNat ≤ r.size.toNat) : r.readAt fs position 0 = .ok #[] := by
  rw [readAt_eq_readExactly h]
  rfl

/-- The bytes that are in the file at the place of the read. -/
theorem readAt_of_readable (hin : position.toNat + length ≤ r.size.toNat) (hsome : 0 < length)
    (h : fs.Readable r.file (r.offset + position).toNat length) :
    r.readAt fs position length =
      .ok (((fs.bytesBehind r.file).drop (r.offset + position).toNat).take length).toArray := by
  obtain ⟨bytes, hread, hbytes⟩ := FileSystem.readExactly_of_readable hsome h
  rw [readAt_eq_readExactly hin, hread, ← hbytes]
  rfl

theorem readAt_of_not_readable (hin : position.toNat + length ≤ r.size.toNat) (hsome : 0 < length)
    (h : ¬fs.Readable r.file (r.offset + position).toNat length) :
    r.readAt fs position length =
      .error (.file (.shortRead (r.offset + position) length
        (FileSystem.refusal r.file (r.offset + position).toNat))) := by
  rw [readAt_eq_readExactly hin, FileSystem.readExactly_of_not_readable hsome h]
  rfl

/-- In a file that is not too long for a file, bytes can be read where there are any. -/
theorem readable_iff {file : Handle} {start length : Nat}
    (hfile : (fs.bytesBehind file).length ≤ 2 ^ 63) (hsome : 0 < length) :
    fs.Readable file start length ↔ start + length ≤ (fs.bytesBehind file).length := by
  rw [FileSystem.Readable]
  omega

theorem toNat_place (hplace : r.offset.toNat + position.toNat < 2 ^ 64) :
    (r.offset + position).toNat = r.offset.toNat + position.toNat := by
  rw [UInt64.toNat_add, Nat.mod_eq_of_lt hplace]

section

variable (hfile : (fs.bytesBehind r.file).length ≤ 2 ^ 63)
  (hplace : r.offset.toNat + position.toNat < 2 ^ 64)
  (hin : position.toNat + length ≤ r.size.toNat) (hsome : 0 < length)
include hfile hplace hin hsome

/-- A read that does not wrap around gives the bytes of the range, if they are all there. -/
theorem readAt_of_present
    (h : r.offset.toNat + position.toNat + length ≤ (fs.bytesBehind r.file).length) :
    r.readAt fs position length = .ok
      (((fs.bytesBehind r.file).drop (r.offset.toNat + position.toNat)).take length).toArray := by
  have hsum := toNat_place hplace
  rw [readAt_of_readable hin hsome ((readable_iff hfile hsome).mpr (by rwa [hsum])), hsum]

theorem readAt_of_missing
    (h : ¬r.offset.toNat + position.toNat + length ≤ (fs.bytesBehind r.file).length) :
    ∃ place fault,
      r.readAt fs position length = .error (.file (.shortRead place length fault)) := by
  have hsum := toNat_place hplace
  exact ⟨_, _, readAt_of_not_readable hin hsome
    fun hread => h (by rwa [← hsum, ← readable_iff hfile hsome])⟩

end

/-- What a read from a range is to answer. The bytes of the range are those of the file from its
offset on, counted without wrapping around. -/
def Promised (fs : FileSystem) (r : FileRange) (position : UInt64) (length : Nat)
    (outcome : Except RangeError Bytes) : Prop :=
  if r.size.toNat < position.toNat + length then
    outcome = .error (.outOfRange position length r.size)
  else if length = 0 then outcome = .ok #[]
  else if r.offset.toNat + position.toNat + length ≤ (fs.bytesBehind r.file).length then
    outcome =
      .ok (((fs.bytesBehind r.file).drop (r.offset.toNat + position.toNat)).take length).toArray
  else ∃ place fault, outcome = .error (.file (.shortRead place length fault))

/-- A read whose place fits gives the bytes of the range, or says that they are not all there. -/
theorem promised_readAt_of_fits (hfile : (fs.bytesBehind r.file).length ≤ 2 ^ 63)
    (hplace : r.offset.toNat + position.toNat < 2 ^ 64)
    (hin : position.toNat + length ≤ r.size.toNat) :
    Promised fs r position length (r.readAt fs position length) := by
  rw [Promised, if_neg (Nat.not_lt.mpr hin)]
  by_cases hnone : length = 0
  · rw [if_pos hnone]
    subst hnone
    exact readAt_nothing hin
  have hsome := Nat.pos_of_ne_zero hnone
  rw [if_neg hnone]
  split
  · rename_i hpresent
    exact readAt_of_present hfile hplace hin hsome hpresent
  · rename_i hmissing
    exact readAt_of_missing hfile hplace hin hsome hmissing

/-- What a read from a range answers is what it is to answer. It answers unless the position is in
the range and its place does not fit into 64 bits: then the read ends the program. -/
theorem promised_readAt_iff (hfile : (fs.bytesBehind r.file).length ≤ 2 ^ 63) :
    (∀ outcome, r.readAt? fs position length = some outcome →
      Promised fs r position length outcome) ∧
    ((r.readAt? fs position length).isSome ↔
      r.size.toNat < position.toNat + length ∨ r.offset.toNat + position.toNat < 2 ^ 64) := by
  by_cases hbeyond : r.size.toNat < position.toNat + length
  · have hread : r.readAt? fs position length = some (.error (.outOfRange position length r.size)) :=
      readAtM_of_beyond hbeyond
    rw [hread]
    refine ⟨?_, iff_of_true rfl (.inl hbeyond)⟩
    rintro _ ⟨rfl⟩
    rw [Promised, if_pos hbeyond]
  have hin := Nat.not_lt.mp hbeyond
  by_cases hplace : r.offset.toNat + position.toNat < 2 ^ 64
  · have hread : r.readAt? fs position length = some (r.readAt fs position length) :=
      readAtM_of_fits hplace
    rw [hread]
    refine ⟨?_, iff_of_true rfl (.inr hplace)⟩
    rintro _ ⟨rfl⟩
    exact promised_readAt_of_fits hfile hplace hin
  · have hread : r.readAt? fs position length = none := by
      have hsum := Arithmetic.sum_of_not_fits (Nat.not_lt.mp hplace)
      rw [readAt?, readAtM, if_neg hbeyond, hsum]
      rfl
    rw [hread]
    refine ⟨fun outcome hsome => ?_, iff_of_false Bool.false_ne_true fun h => h.elim hbeyond hplace⟩
    cases hsome

/-- A file of four bytes. -/
def fourBytes : FileSystem := ⟨#[#[0x10, 0x11, 0x12, 0x13]], [(["a"], .file 0)], []⟩

/-- The two bytes in the middle. -/
def middle : FileRange := ⟨.file 0, ⟨"a"⟩, 1, 2⟩

theorem promised_readAt_middle :
    (fourBytes.bytesBehind middle.file).length ≤ 2 ^ 63 ∧
      middle.readAt? fourBytes 0 2 = some (.ok #[0x11, 0x12]) ∧
      Promised fourBytes middle 0 2 (.ok #[0x11, 0x12]) := by
  have hfile : (fourBytes.bytesBehind middle.file).length ≤ 2 ^ 63 := by decide
  have hread : middle.readAt? fourBytes 0 2 = some (.ok #[0x11, 0x12]) := rfl
  exact ⟨hfile, hread, (promised_readAt_iff hfile).1 _ hread⟩

/-- A range that begins two places before the end of the numbers. -/
def wrapping : FileRange := ⟨.file 0, ⟨"a"⟩, 0xfffffffffffffffe, 100⟩

/-- The byte at 4 is in the range and not in the file. To read it is an error, and yet the program
ends. -/
theorem unpromised_readAt_wrapping :
    4 + 1 ≤ wrapping.size.toNat ∧ wrapping.readAt? fourBytes 4 1 = none ∧
      ¬∃ outcome, wrapping.readAt? fourBytes 4 1 = some outcome ∧
        Promised fourBytes wrapping 4 1 outcome := by
  have hstop : wrapping.readAt? fourBytes 4 1 = none := rfl
  refine ⟨by decide, hstop, ?_⟩
  rintro ⟨outcome, hread, -⟩
  rw [hstop] at hread
  cases hread

end Cartridge.FileRange
