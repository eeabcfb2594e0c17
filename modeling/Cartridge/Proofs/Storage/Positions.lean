import Cartridge.Proofs.Arithmetic
import Cartridge.Storage.FileRange

/-!
# Positions that fit

What reading from a range and copying it come to where places wrap around, and that it is the same
in every arithmetic as long as the end of the range fits into 64 bits: then so does every position
in it.
-/
namespace Cartridge.FileRange

variable {m : Type → Type} [Monad m] [Arithmetic m] {fs : FileSystem} {r : FileRange}
  {position : UInt64} {length : Nat}

/-! ## Where places wrap around -/

theorem readAt_eq (fs : FileSystem) (r : FileRange) (position : UInt64) (length : Nat) :
    r.readAt fs position length =
      if r.size.toNat < position.toNat + length then .error (.outOfRange position length r.size)
      else
        match fs.readAt r.file (r.offset + position) length with
        | .ok bytes => .ok bytes
        | .error fault => .error (.file (.shortRead (r.offset + position) length fault)) := by
  rw [readAt, readAtM]
  split
  · rfl
  · show Id.run (match fs.readAt r.file (r.offset + position) length with
      | .ok _ => _
      | .error _ => _) = _
    cases fs.readAt r.file (r.offset + position) length with
    | ok bytes => rfl
    | error fault => rfl

theorem copyFrom_eq (fs : FileSystem) (r : FileRange) (place : Nat) (sink : Sink) :
    r.copyFrom fs place sink =
      if place < r.size.toNat then
        let length := min (r.size.toNat - place) chunkSize
        match r.readAt fs (UInt64.ofNat place) length with
        | .error e => (.error e, sink)
        | .ok bytes =>
          match sink.write bytes with
          | (false, taken) => (.error (.sink .writerFull), taken)
          | (true, taken) => r.copyFrom fs (place + length) taken
      else (.ok place, sink) := by
  rw [copyFrom, copyFromM]
  by_cases hwithin : place < r.size.toNat
  · rw [dif_pos hwithin, if_pos hwithin]
    show Id.run (match r.readAt fs _ _ with | .error _ => _ | .ok _ => _) = _
    dsimp only
    cases r.readAt fs (UInt64.ofNat place) (min (r.size.toNat - place) chunkSize) with
    | error e => rfl
    | ok bytes =>
      dsimp only
      cases sink.write bytes with
      | mk done taken =>
        cases done with
        | false => rfl
        | true => rfl
  · rw [dif_neg hwithin, if_neg hwithin]
    rfl

/-! ## Where every place fits -/

theorem readAtM_of_beyond (h : r.size.toNat < position.toNat + length) :
    (r.readAtM fs position length : m (Except RangeError Bytes)) =
      pure (.error (.outOfRange position length r.size)) := by
  rw [readAtM, if_pos h]

variable [LawfulMonad m] [LawfulArithmetic m]

theorem readAtM_of_fits (h : r.offset.toNat + position.toNat < 2 ^ 64) :
    (r.readAtM fs position length : m (Except RangeError Bytes)) =
      pure (r.readAt fs position length) := by
  rw [readAt_eq, readAtM]
  split
  · rfl
  · rw [Arithmetic.sum_of_fits h, pure_bind]
    cases fs.readAt r.file (r.offset + position) length with
    | ok bytes => rfl
    | error fault => rfl

section

variable (hlow : r.offset.toNat + r.size.toNat < 2 ^ 64)
include hlow

/-- A position that was found to be in the range can be added to its start. -/
theorem readAtM_eq (fs : FileSystem) (position : UInt64) (length : Nat) :
    (r.readAtM fs position length : m (Except RangeError Bytes)) =
      pure (r.readAt fs position length) := by
  by_cases hbeyond : r.size.toNat < position.toNat + length
  · rw [readAtM_of_beyond hbeyond, readAt_eq, if_pos hbeyond]
  · exact readAtM_of_fits (by omega)

theorem copyFromM_eq (fs : FileSystem) (place : Nat) (sink : Sink) :
    (r.copyFromM fs place sink : m (Except RangeError Nat × Sink)) =
      pure (r.copyFrom fs place sink) := by
  rw [copyFromM, copyFrom_eq]
  by_cases hwithin : place < r.size.toNat
  · rw [dif_pos hwithin, if_pos hwithin]
    dsimp only
    rw [readAtM_eq hlow, pure_bind]
    cases r.readAt fs (UInt64.ofNat place) (min (r.size.toNat - place) chunkSize) with
    | error e => rfl
    | ok bytes =>
      dsimp only
      cases sink.write bytes with
      | mk done taken =>
        cases done with
        | false => rfl
        | true =>
          have hfits : place + min (r.size.toNat - place) chunkSize < UInt64.size := by
            have hsize := r.size.toNat_lt
            have hnumbers : UInt64.size = 2 ^ 64 := rfl
            omega
          dsimp only
          rw [LawfulArithmetic.fit_of_lt hfits, pure_bind]
          exact copyFromM_eq fs _ taken
  · rw [dif_neg hwithin, if_neg hwithin]
termination_by r.size.toNat - place
decreasing_by
  have hsome : 0 < chunkSize := by decide
  omega

end

/-- No sum overflows when bytes are read from the range or copied, whatever the files are then. -/
structure Sums (r : FileRange) : Prop where
  readAt_eq : ∀ fs position length,
    r.readAt? fs position length = some (r.readAt fs position length)
  copyTo_eq : ∀ fs sink, r.copyTo? fs sink = some (r.copyTo fs sink)

/-- A range with an end that fits can be read and copied without an overflow. -/
theorem sums_of_fits (hlow : r.offset.toNat + r.size.toNat < 2 ^ 64) : r.Sums where
  readAt_eq fs position length := readAtM_eq hlow fs position length
  copyTo_eq fs sink := copyFromM_eq hlow fs 0 sink

end Cartridge.FileRange
