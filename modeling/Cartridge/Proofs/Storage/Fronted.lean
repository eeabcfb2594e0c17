import Cartridge.Proofs.Outcome
import Cartridge.Proofs.Storage.Access
import Cartridge.Proofs.Storage.Positions
import Mathlib.Data.UInt

/-!
# A file with bytes in front of it

A path leads to a file in two file systems, and in the second the file has more bytes in front. What
was read at some place of it is then read that much further on, and what cannot be read there cannot
be read here. Files that are the same in both are read as before.
-/
namespace Cartridge

/-! ## Failures further on -/

/-- Why a read fails further on: the same, unless no file reaches as far. -/
def StorageFault.at (place : Nat) (fault : StorageFault) : StorageFault :=
  if 2 ^ 63 ≤ place then .invalidArgument else fault

/-- The same failure, `n` bytes further on in the file. -/
inductive AccessError.Moved (n : Nat) : AccessError → AccessError → Prop
  | cannotOpen (path : Path) (fault : StorageFault) :
      Moved n (.cannotOpen path fault) (.cannotOpen path fault)
  | shortRead {offset offset' : UInt64} (length : Nat) (fault : StorageFault)
      (h : offset'.toNat = offset.toNat + n) :
      Moved n (.shortRead offset length fault) (.shortRead offset' length (fault.at offset'.toNat))
  | storage (fault : StorageFault) : Moved n (.storage fault) (.storage fault)

/-- The same failure to read from a range, `n` bytes further on in the file. -/
inductive RangeError.Moved (n : Nat) : RangeError → RangeError → Prop
  | outOfRange (position : UInt64) (length : Nat) (size : UInt64) :
      Moved n (.outOfRange position length size) (.outOfRange position length size)
  | file {e e' : AccessError} (h : e.Moved n e') : Moved n (.file e) (.file e')
  | sink (fault : StorageFault) : Moved n (.sink fault) (.sink fault)

namespace FileSystem

variable {fs moved : FileSystem} {own : Nat} {front : List UInt8} {start : UInt64} {file : Handle}

/-- What is behind the handle is the same in both file systems. -/
def SameBehind (fs moved : FileSystem) (file : Handle) : Prop :=
  ∀ number, file = .file number → moved.bytesOf number = fs.bytesOf number

/-- The path leads to the same in both file systems, and what it leads to is the same. -/
structure SameAt (fs moved : FileSystem) (p : Path) : Prop where
  opens : moved.openHandle p = fs.openHandle p
  same : ∀ file, fs.openHandle p = .ok file → SameBehind fs moved file

/-- The path leads to one file in both file systems, and in the second it has these bytes in front
of it. Offsets reach all of it. -/
structure Fronted (fs moved : FileSystem) (path : Path) (own : Nat) (front : List UInt8) :
    Prop where
  opens : fs.openPath path = .ok (.file own)
  opens_moved : moved.openPath path = .ok (.file own)
  own_eq : (moved.bytesOf own).toList = front ++ (fs.bytesOf own).toList
  low : front.length + (fs.bytesOf own).size < 2 ^ 63

/-! ## Files that are the same -/

section

variable (h : SameBehind fs moved file)
include h

theorem SameBehind.readAt_eq (start : UInt64) (length : Nat) :
    moved.readAt file start length = fs.readAt file start length := by
  cases file with
  | directory => rfl
  | file number =>
    unfold readAt
    dsimp only
    rw [h number rfl]

theorem SameBehind.readAll_eq : moved.readAll file = fs.readAll file := by
  cases file with
  | directory => rfl
  | file number => rw [readAll, readAll, h number rfl]

theorem SameBehind.sizeOf_eq : moved.sizeOf file = fs.sizeOf file := by
  cases file with
  | directory => rfl
  | file number => rw [sizeOf, sizeOf, h number rfl]

theorem SameBehind.readExactly_eq (start : UInt64) (length : Nat) :
    moved.readExactly file start length = fs.readExactly file start length := by
  rw [readExactly, readExactly, h.readAt_eq]

end

section

variable {p : Path} (h : SameAt fs moved p)
include h

theorem SameAt.openPath_eq : moved.openPath p = fs.openPath p := by
  rw [openPath, openPath, h.opens]

theorem SameAt.isFile_eq : moved.isFile p = fs.isFile p := by
  rw [isFile, isFile, h.opens]

theorem SameAt.isDirectory_eq : moved.isDirectory p = fs.isDirectory p := by
  rw [isDirectory, isDirectory, h.opens]

theorem SameAt.wholeFile?_eq : moved.wholeFile? p = fs.wholeFile? p := by
  unfold wholeFile?
  rw [h.opens]
  cases hopen : fs.openHandle p with
  | error fault => rfl
  | ok file =>
    show (moved.readAll file).toOption = (fs.readAll file).toOption
    rw [(h.same file hopen).readAll_eq]

end

/-! ## The file with bytes in front -/

namespace Fronted

variable {path : Path} (h : Fronted fs moved path own front)
include h

theorem toNat_shift : (UInt64.ofNat front.length).toNat = front.length := by
  have hlow := h.low
  rw [UInt64.toNat_ofNat', Nat.mod_eq_of_lt (by omega)]

/-- Places in the lower half are moved without overflow. -/
theorem toNat_add_shift (hstart : start.toNat < 2 ^ 63) :
    (start + UInt64.ofNat front.length).toNat = start.toNat + front.length := by
  have hshift := h.toNat_shift
  have hlow := h.low
  rw [toNat_add_of_low hstart (by omega), hshift]

theorem size_eq : (moved.bytesOf own).size = front.length + (fs.bytesOf own).size := by
  rw [← (fs.bytesOf own).length_toList, ← List.length_append, ← h.own_eq, Array.length_toList]

theorem extract_eq (place length : Nat) :
    (moved.bytesOf own).extract (place + front.length) (place + front.length + length) =
      (fs.bytesOf own).extract place (place + length) := by
  apply Array.toList_inj.mp
  rw [Array.toList_extract, Array.toList_extract, h.own_eq, List.extract_eq_take_drop,
    List.extract_eq_take_drop, Nat.add_sub_cancel_left, Nat.add_sub_cancel_left,
    Nat.add_comm place, List.drop_length_add_append]

/-- What is read at a place is read further on in the file with bytes in front. -/
theorem readAt_own (hstart : start.toNat < 2 ^ 63) (length : Nat) :
    Matches Eq (fun fault fault' => fault' = fault.at (start.toNat + front.length))
      (fs.readAt (.file own) start length)
      (moved.readAt (.file own) (start + UInt64.ofNat front.length) length) := by
  have hplace := h.toNat_add_shift hstart
  have hlow := h.low
  have hstart' : ¬(0x8000000000000000 : UInt64) ≤ start := by
    rw [UInt64.le_iff_toNat_le]
    exact Nat.not_le.mpr hstart
  unfold readAt
  by_cases hnone : length = 0
  · rw [if_pos hnone, if_pos hnone]
    exact .ok rfl
  · rw [if_neg hnone, if_neg hnone, if_neg hstart']
    dsimp only
    rw [h.size_eq, hplace]
    by_cases hhigh : 2 ^ 63 ≤ start.toNat + front.length
    · have hhigh' : (0x8000000000000000 : UInt64) ≤ start + UInt64.ofNat front.length := by
        rw [UInt64.le_iff_toNat_le, hplace]
        exact hhigh
      rw [if_pos hhigh', if_neg (by omega)]
      exact .error (if_pos hhigh).symm
    · have hhigh' : ¬(0x8000000000000000 : UInt64) ≤ start + UInt64.ofNat front.length := by
        rw [UInt64.le_iff_toNat_le, hplace]
        exact hhigh
      rw [if_neg hhigh']
      by_cases hfits : start.toNat + length ≤ (fs.bytesOf own).size
      · rw [if_pos hfits, if_pos (by omega), h.extract_eq]
        exact .ok rfl
      · rw [if_neg hfits, if_neg (by omega)]
        exact .error (if_neg hhigh).symm

theorem sizeOf_own :
    (moved.sizeOf (.file own)).toNat = (fs.sizeOf (.file own)).toNat + front.length := by
  have hlow := h.low
  rw [sizeOf, sizeOf, h.size_eq, UInt64.toNat_ofNat', UInt64.toNat_ofNat',
    Nat.mod_eq_of_lt (by omega), Nat.mod_eq_of_lt (by omega), Nat.add_comm]

theorem readExactly_own (hstart : start.toNat < 2 ^ 63) (length : Nat) :
    Matches Eq (AccessError.Moved front.length) (fs.readExactly (.file own) start length)
      (moved.readExactly (.file own) (start + UInt64.ofNat front.length) length) := by
  refine (h.readAt_own hstart length).mapError fun fault fault' hfault => ?_
  have hplace := h.toNat_add_shift hstart
  rw [hfault, ← hplace]
  exact .shortRead length fault hplace

/-- Nothing is in front of a file that is the same. -/
theorem length_eq_zero (hsame : SameBehind fs moved (.file own)) : front.length = 0 := by
  have hsize := h.size_eq
  rw [hsame own rfl] at hsize
  omega

end Fronted

/-- At an offset that no file reaches the storage refuses to read. -/
theorem at_of_readAt_error {fault : StorageFault} {length : Nat}
    (h : fs.readAt file start length = .error fault) : fault.at start.toNat = fault := by
  unfold readAt at h
  by_cases hnone : length = 0
  · rw [if_pos hnone] at h
    cases h
  · rw [if_neg hnone] at h
    by_cases hhigh : (0x8000000000000000 : UInt64) ≤ start
    · rw [if_pos hhigh] at h
      cases h
      exact ite_self _
    · exact if_neg fun hplace => hhigh (UInt64.le_iff_toNat_le.mpr hplace)

end FileSystem

/-! ## Ranges -/

namespace FileRange

variable {fs moved : FileSystem} {own : Nat} {front : List UInt8} {n : Nat} {r r' : FileRange}

/-- The same range, `n` bytes further on in its file: of both the same bytes are read and copied. -/
structure Moved (fs moved : FileSystem) (n : Nat) (r r' : FileRange) : Prop where
  file_eq : r'.file = r.file
  path_eq : r'.path = r.path
  size_eq : r'.size = r.size
  offset_eq : r'.offset.toNat = r.offset.toNat + n
  readAt : ∀ position length, Matches Eq (RangeError.Moved n) (r.readAt fs position length)
    (r'.readAt moved position length)
  copyTo : ∀ sink, Matches Eq (RangeError.Moved n) (r.copyTo fs sink).1 (r'.copyTo moved sink).1 ∧
    (r'.copyTo moved sink).2 = (r.copyTo fs sink).2

/-- What reads alike is copied alike, piece by piece. -/
theorem copyFrom_of_readAt (hsize : r'.size = r.size)
    (hread : ∀ position length, Matches Eq (RangeError.Moved n) (r.readAt fs position length)
      (r'.readAt moved position length)) (position : Nat) (sink : Sink) :
    Matches Eq (RangeError.Moved n) (r.copyFrom fs position sink).1
        (r'.copyFrom moved position sink).1 ∧
      (r'.copyFrom moved position sink).2 = (r.copyFrom fs position sink).2 := by
  by_cases hwithin : position < r.size.toNat
  · have hpiece := hread (UInt64.ofNat position) (min (r.size.toNat - position) chunkSize)
    rw [copyFrom_eq, copyFrom_eq, hsize, if_pos hwithin, if_pos hwithin]
    dsimp only
    rcases hpiece.eq_ok_or_eq_error with ⟨bytes, _, hbytes, hbytes', rfl⟩ | ⟨e, e', he, he', hmoved⟩
    · rw [hbytes, hbytes']
      dsimp only
      cases sink.write bytes with
      | mk done taken =>
        cases done with
        | false => exact ⟨.error (.sink _), rfl⟩
        | true => exact copyFrom_of_readAt hsize hread _ taken
    · rw [he, he']
      exact ⟨.error hmoved, rfl⟩
  · rw [copyFrom_eq, copyFrom_eq, hsize, if_neg hwithin, if_neg hwithin]
    exact ⟨.ok rfl, rfl⟩
termination_by r.size.toNat - position
decreasing_by
  have : 0 < chunkSize := by decide
  omega

theorem Moved.of_readAt (hfile : r'.file = r.file) (hpath : r'.path = r.path)
    (hsize : r'.size = r.size) (hoffset : r'.offset.toNat = r.offset.toNat + n)
    (hread : ∀ position length, Matches Eq (RangeError.Moved n) (r.readAt fs position length)
      (r'.readAt moved position length)) : Moved fs moved n r r' :=
  ⟨hfile, hpath, hsize, hoffset, hread, fun sink => copyFrom_of_readAt hsize hread 0 sink⟩

/-- A range of the file with bytes in front. -/
theorem moved_own {path : Path} (h : fs.Fronted moved path own front) (hfile : r.file = .file own)
    (hlow : r.offset.toNat + r.size.toNat < 2 ^ 63) :
    Moved fs moved front.length r { r with offset := r.offset + UInt64.ofNat front.length } := by
  refine .of_readAt rfl rfl rfl (h.toNat_add_shift (by omega)) fun position length => ?_
  rw [readAt_eq, readAt_eq]
  dsimp only
  by_cases hbeyond : r.size.toNat < position.toNat + length
  · rw [if_pos hbeyond, if_pos hbeyond]
    exact .error (.outOfRange position length r.size)
  · rw [if_neg hbeyond, if_neg hbeyond, hfile, add_right_comm r.offset]
    have hstart : (r.offset + position).toNat < 2 ^ 63 := by
      rw [toNat_add_of_low (by omega) (by omega)]
      omega
    have hplace := h.toNat_add_shift hstart
    have hread := h.readAt_own hstart length
    rcases hread.eq_ok_or_eq_error with ⟨bytes, _, hbytes, hbytes', rfl⟩ |
      ⟨fault, _, hfault, hfault', rfl⟩
    · rw [hbytes, hbytes']
      exact .ok rfl
    · rw [hfault, hfault', ← hplace]
      exact .error (.file (.shortRead length fault hplace))

/-- A range of a file that is the same is not moved. -/
theorem moved_same (h : fs.SameBehind moved r.file) : Moved fs moved 0 r r := by
  refine .of_readAt rfl rfl rfl rfl fun position length => ?_
  rw [readAt_eq, readAt_eq]
  by_cases hbeyond : r.size.toNat < position.toNat + length
  · rw [if_pos hbeyond, if_pos hbeyond]
    exact .error (.outOfRange position length r.size)
  · rw [if_neg hbeyond, if_neg hbeyond, h.readAt_eq]
    cases hread : fs.readAt r.file (r.offset + position) length with
    | ok bytes => exact .ok rfl
    | error fault =>
      have hsame : AccessError.Moved 0 (.shortRead (r.offset + position) length fault) _ :=
        .shortRead length fault rfl
      rw [FileSystem.at_of_readAt_error hread] at hsame
      exact .error (.file hsame)

end FileRange

end Cartridge
