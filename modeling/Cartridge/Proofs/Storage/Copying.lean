import Cartridge.Proofs.Bytes
import Cartridge.Proofs.Storage.Positions

/-!
# Copied ranges

What a range reads are bytes of its file, as far from the start of the range as the position says. A
copy that ends well has passed on all of them in order, however many pieces it took.
-/
namespace Cartridge

/-- A write that succeeds was taken as a whole. -/
theorem Sink.received_of_write {s taken : Sink} {bytes : Bytes}
    (h : s.write bytes = (true, taken)) : taken.received = s.received ++ bytes := by
  unfold write at h
  by_cases hempty : bytes.size = 0
  · rw [if_pos hempty] at h
    cases h
    rw [Array.eq_empty_of_size_eq_zero hempty, Array.append_empty]
  · rw [if_neg hempty] at h
    dsimp only at h
    by_cases hall : (s.accept bytes).1 = bytes.size
    · rw [if_pos hall] at h
      cases h
      have hcount : min bytes.size (s.limit - s.received.size) = bytes.size := hall
      simp [accept, hcount]
    · rw [if_neg hall] at h
      split at h <;> cases h

theorem Sink.write_of_room {s : Sink} {bytes : Bytes}
    (h : s.received.size + bytes.size ≤ s.limit) :
    ∃ taken, s.write bytes = (true, taken) ∧ taken.limit = s.limit := by
  unfold write
  by_cases hempty : bytes.size = 0
  · rw [if_pos hempty]
    exact ⟨s, rfl, rfl⟩
  · have hall : (s.accept bytes).1 = bytes.size := by
      show min bytes.size (s.limit - s.received.size) = bytes.size
      omega
    rw [if_neg hempty]
    dsimp only
    rw [if_pos hall]
    exact ⟨_, rfl, rfl⟩

theorem FileSystem.readAt_of_fits {fs : FileSystem} {number length : Nat} {offset : UInt64}
    (hlow : offset.toNat < 2 ^ 63) (h : offset.toNat + length ≤ (fs.bytesOf number).size) :
    fs.readAt (.file number) offset length =
      .ok ((fs.bytesOf number).extract offset.toNat (offset.toNat + length)) := by
  unfold readAt
  by_cases hnone : length = 0
  · rw [if_pos hnone, hnone, Nat.add_zero, Array.extract_empty_of_stop_le_start (Nat.le_refl _)]
  · have hhigh : ¬(0x8000000000000000 : UInt64) ≤ offset := by
      rw [UInt64.le_iff_toNat_le]
      exact Nat.not_le.mpr hlow
    rw [if_neg hnone, if_neg hhigh]
    exact if_pos h

namespace FileRange

variable {fs : FileSystem} {r : FileRange} {own length n : Nat} {position : UInt64} {bytes : Bytes}
  {sink taken : Sink}

section

variable (hfile : r.file = .file own) (hlow : r.offset.toNat + r.size.toNat < 2 ^ 64)
include hfile hlow

theorem readAt_eq_ok (h : r.readAt fs position length = .ok bytes) (hsome : 0 < length) :
    bytes = (fs.bytesOf own).extract (r.offset.toNat + position.toNat)
        (r.offset.toNat + position.toNat + length) ∧
      r.offset.toNat + position.toNat + length ≤ (fs.bytesOf own).size := by
  rw [readAt_eq] at h
  by_cases hbeyond : r.size.toNat < position.toNat + length
  · rw [if_pos hbeyond] at h
    cases h
  rw [if_neg hbeyond, hfile] at h
  have hplace : (r.offset + position).toNat = r.offset.toNat + position.toNat := by
    rw [UInt64.toNat_add]
    omega
  unfold FileSystem.readAt at h
  dsimp only at h
  rw [if_neg (by omega : ¬length = 0), hplace] at h
  by_cases hhigh : (0x8000000000000000 : UInt64) ≤ r.offset + position
  · rw [if_pos hhigh] at h
    cases h
  rw [if_neg hhigh] at h
  by_cases hfits : r.offset.toNat + position.toNat + length ≤ (fs.bytesOf own).size
  · rw [if_pos hfits] at h
    cases h
    exact ⟨rfl, hfits⟩
  · rw [if_neg hfits] at h
    cases h

/-- What a copy has passed on from a position to the end of the range. -/
theorem received_of_copyFrom (place : Nat) (sink : Sink) (hplace : place ≤ r.size.toNat)
    (h : r.copyFrom fs place sink = (.ok n, taken)) :
    taken.received = sink.received ++
        (fs.bytesOf own).extract (r.offset.toNat + place) (r.offset.toNat + r.size.toNat) ∧
      (place < r.size.toNat → r.offset.toNat + r.size.toNat ≤ (fs.bytesOf own).size) := by
  rw [copyFrom_eq] at h
  by_cases hwithin : place < r.size.toNat
  · have hchunk : 0 < chunkSize := by decide
    have hnumber : (UInt64.ofNat place).toNat = place := by
      have hsize := r.size.toNat_lt
      rw [UInt64.toNat_ofNat']
      omega
    rw [if_pos hwithin] at h
    dsimp only at h
    cases hread : r.readAt fs (UInt64.ofNat place) (min (r.size.toNat - place) chunkSize) with
    | error e =>
      rw [hread] at h
      cases h
    | ok bytes =>
      rw [hread] at h
      obtain ⟨hbytes, hfits⟩ := readAt_eq_ok hfile hlow hread (by omega)
      rw [hnumber] at hbytes hfits
      dsimp only at h
      cases hwrite : sink.write bytes with
      | mk done after =>
        rw [hwrite] at h
        cases done with
        | false => cases h
        | true =>
          dsimp only at h
          obtain ⟨hreceived, hrest⟩ := received_of_copyFrom
            (place + min (r.size.toNat - place) chunkSize) after (by omega) h
          rw [Sink.received_of_write hwrite, hbytes, Array.append_assoc, ← Nat.add_assoc,
            Array.extract_append_extract, Nat.min_eq_left (by omega), Nat.max_eq_right (by omega)]
            at hreceived
          refine ⟨hreceived, fun _ => ?_⟩
          by_cases hmore : place + min (r.size.toNat - place) chunkSize < r.size.toNat
          · exact hrest hmore
          · omega
  · rw [if_neg hwithin] at h
    have hend : place = r.size.toNat := by omega
    rw [← (Prod.mk.inj h).2, hend, Array.extract_empty_of_stop_le_start (Nat.le_refl _),
      Array.append_empty]
    exact ⟨rfl, fun hless => absurd hless (Nat.lt_irrefl _)⟩
termination_by r.size.toNat - place
decreasing_by
  have : 0 < chunkSize := by decide
  omega

/-- A copy that ends well has passed on the bytes of the range, and they are all in the file. -/
theorem received_of_copyTo (hsome : 0 < r.size.toNat)
    (h : r.copyTo fs (Sink.ofLimit r.size.toNat) = (.ok n, taken)) :
    taken.received =
        (fs.bytesOf own).extract r.offset.toNat (r.offset.toNat + r.size.toNat) ∧
      r.offset.toNat + r.size.toNat ≤ (fs.bytesOf own).size := by
  obtain ⟨hreceived, hfits⟩ := received_of_copyFrom hfile hlow 0 _ (Nat.zero_le _) h
  exact ⟨by simpa [Sink.ofLimit] using hreceived, hfits hsome⟩

end

section

variable (hfile : r.file = .file own) (hlow : r.offset.toNat + r.size.toNat < 2 ^ 63)
  (hfits : r.offset.toNat + r.size.toNat ≤ (fs.bytesOf own).size)
include hfile hlow hfits

theorem readAt_of_fits (hin : position.toNat + length ≤ r.size.toNat) :
    r.readAt fs position length = .ok ((fs.bytesOf own).extract (r.offset.toNat + position.toNat)
      (r.offset.toNat + position.toNat + length)) := by
  have hplace : (r.offset + position).toNat = r.offset.toNat + position.toNat := by
    rw [UInt64.toNat_add]
    omega
  rw [readAt_eq]
  rw [if_neg (by omega), hfile]
  rw [FileSystem.readAt_of_fits (by omega) (by omega), hplace]

/-- A copy ends well if all of the range is in the file and the rest of it has room in the sink. -/
theorem copyFrom_of_fits (place : Nat) (sink : Sink) (hplace : place ≤ r.size.toNat)
    (hroom : sink.received.size + (r.size.toNat - place) ≤ sink.limit) :
    ∃ taken, r.copyFrom fs place sink = (.ok r.size.toNat, taken) := by
  rw [copyFrom_eq]
  by_cases hwithin : place < r.size.toNat
  · have hchunk : 0 < chunkSize := by decide
    have hnumber : (UInt64.ofNat place).toNat = place := by
      rw [UInt64.toNat_ofNat']
      omega
    have hread : r.readAt fs (UInt64.ofNat place) (min (r.size.toNat - place) chunkSize) = _ :=
      readAt_of_fits hfile hlow hfits (by omega)
    rw [hnumber] at hread
    have hsize : ((fs.bytesOf own).extract (r.offset.toNat + place)
        (r.offset.toNat + place + min (r.size.toNat - place) chunkSize)).size =
        min (r.size.toNat - place) chunkSize := by
      rw [Array.size_extract]
      omega
    obtain ⟨after, hwrite, hlimit⟩ := Sink.write_of_room (s := sink) (by rw [hsize]; omega)
    have hreceived := congrArg Array.size (Sink.received_of_write hwrite)
    rw [Array.size_append, hsize] at hreceived
    rw [if_pos hwithin]
    dsimp only
    rw [hread]
    dsimp only
    rw [hwrite]
    exact copyFrom_of_fits (place + min (r.size.toNat - place) chunkSize) after (by omega)
      (by omega)
  · rw [if_neg hwithin]
    have hend : place = r.size.toNat := by omega
    exact ⟨sink, by rw [hend]⟩
termination_by r.size.toNat - place
decreasing_by
  have : 0 < chunkSize := by decide
  omega

/-- A range that is in its file is copied whole. -/
theorem copyTo_of_fits : ∃ taken,
    r.copyTo fs (Sink.ofLimit r.size.toNat) = (.ok r.size.toNat, taken) ∧
      taken.received =
        (fs.bytesOf own).extract r.offset.toNat (r.offset.toNat + r.size.toNat) := by
  obtain ⟨taken, hcopy⟩ := copyFrom_of_fits hfile hlow hfits 0 (Sink.ofLimit r.size.toNat)
    (Nat.zero_le _) (by simp [Sink.ofLimit])
  obtain ⟨hreceived, -⟩ :=
    received_of_copyFrom hfile (by omega) 0 _ (Nat.zero_le _) hcopy
  exact ⟨taken, hcopy, by simpa [Sink.ofLimit] using hreceived⟩

end

/-- Two ranges of the same size from which the same is read. -/
structure Alike (fs there : FileSystem) (r r' : FileRange) : Prop where
  size_eq : r'.size = r.size
  readAt_eq : ∀ position length, r'.readAt there position length = r.readAt fs position length

/-- A file with the bytes of a range is, as a whole, like the range. -/
theorem alike_of_bytes {there : FileSystem} {r' : FileRange} {other : Nat}
    (hfile : r.file = .file own) (hlow : r.offset.toNat + r.size.toNat < 2 ^ 63)
    (hfits : r.offset.toNat + r.size.toNat ≤ (fs.bytesOf own).size)
    (hfile' : r'.file = .file other) (hstart : r'.offset = 0) (hsize : r'.size = r.size)
    (hbytes : there.bytesOf other =
      (fs.bytesOf own).extract r.offset.toNat (r.offset.toNat + r.size.toNat)) :
    Alike fs there r r' := by
  have hwhole : (there.bytesOf other).size = r.size.toNat := by
    rw [hbytes, Array.size_extract]
    omega
  have hzero : r'.offset.toNat = 0 := by
    rw [hstart]
    rfl
  refine ⟨hsize, fun position length => ?_⟩
  by_cases hin : position.toNat + length ≤ r.size.toNat
  · have hthere : r'.readAt there position length = _ := readAt_of_fits hfile'
      (by rw [hsize, hzero]; omega) (by rw [hsize, hzero]; omega) (by rw [hsize]; exact hin)
    rw [hthere, readAt_of_fits hfile hlow hfits hin, hbytes, hzero, Array.extract_extract,
      Nat.min_eq_left (by omega), Nat.zero_add, Nat.add_assoc]
  · rw [readAt_eq, readAt_eq, hsize, if_pos (by omega), if_pos (by omega)]

end FileRange

end Cartridge
