import Cartridge.Proofs.Compression.Verbatim

/-!
# Decoding within bounds

The decoder once more, with every difference, every sum and every index checked: one that is out
of range ends the decoding without an outcome, and so does a step that does not bring the read
cursor nearer to the end of the stream, or takes it beyond. None of this happens, whatever the
input, for the cursors stay between fixed bounds.
-/
namespace Cartridge.Compression

/-- A difference that is not negative. -/
def difference? (a b : Nat) : Option Nat := if b ≤ a then some (a - b) else none

theorem difference?_eq {a b : Nat} (h : b ≤ a) : difference? a b = some (a - b) := if_pos h

/-- A sum that lies below `top`. -/
def sumBelow? (top a b : Nat) : Option Nat := if a + b < top then some (a + b) else none

theorem sumBelow?_eq {top a b : Nat} (h : a + b < top) : sumBelow? top a b = some (a + b) :=
  if_pos h

/-- The bytes from `start` up to `stop`, which have to lie within the input in this order. -/
def slice? (input : Bytes) (start stop : Nat) : Option (List UInt8) :=
  if start ≤ stop ∧ stop ≤ input.size then
    some ((input.toList.drop start).take (stop - start))
  else none

theorem slice?_eq (input : Bytes) (start stop : Nat) (h : start ≤ stop ∧ stop ≤ input.size) :
    slice? input start stop = some ((input.toList.drop start).take (stop - start)) := if_pos h

/-! ## The checked decoder -/

/-- Input is read from `low` on and below `high`, output is written and copied below `size`, and
numbers lie below `top`. -/
structure Bounds where
  low : Nat
  high : Nat
  size : Nat
  top : Nat

namespace Bounds

variable (b : Bounds) (input : Bytes)

def byte? (index : Nat) : Option UInt8 :=
  if b.low ≤ index ∧ index < b.high then input[index]? else none

def copied? (output : Bytes) (index : Nat) : Option UInt8 :=
  if index < b.size then output[index]? else none

def written? (output : Bytes) (index : Nat) (byte : UInt8) : Option Bytes :=
  if index < b.size ∧ index < output.size then some (output.setIfInBounds index byte) else none

/-- The copy of a pair, with the write cursor after it. A distance that leads past the end of the
output has no copy, which is an outcome. -/
def copyDown? (distance : Nat) : Nat → Nat → Bytes → Option (Option (Nat × Bytes))
  | 0, write, output => return some (write, output)
  | count + 1, write, output => do
    let write ← difference? write 1
    let source ← sumBelow? b.top write distance
    if b.size ≤ source then return none
    let byte ← b.copied? output source
    copyDown? distance count write (← b.written? output write byte)

def fetchFlags? (c : Cursor) : Option Cursor := do
  let read ← difference? c.read 1
  return { c with read := read, flags := ← b.byte? input read, pending := 8 }

def literal? (c : Cursor) : Option (Except Error Cursor) := do
  let read ← difference? c.read 1
  if c.write = 0 then return .error (.outputOverflow read)
  let write ← difference? c.write 1
  let byte ← b.byte? input read
  let output ← b.written? c.output write byte
  return .ok ⟨read, write, c.flags <<< 1, c.pending - 1, output⟩

def copy? (c : Cursor) : Option (Except Error Cursor) := do
  let left ← difference? c.read b.low
  if left < 2 then return .error (.incompletePair (← difference? c.read 1))
  let read ← difference? c.read 2
  let pair := Pair.ofBytes (← b.byte? input read) (← b.byte? input (← sumBelow? b.top read 1))
  if c.write < pair.length then return .error (.outputOverflow read)
  match ← b.copyDown? pair.distance pair.length c.write c.output with
  | none => return .error (.outOfBounds pair read)
  | some (write, output) => return .ok ⟨read, write, c.flags <<< 1, c.pending - 1, output⟩

def step? (c : Cursor) : Option (Except Error Cursor) :=
  if c.pending = 0 then (b.fetchFlags? input c).map .ok
  else if c.flags &&& 0x80 = 0 then b.literal? input c
  else b.copy? input c

/-- Steps until the read cursor has come to `low`. Each has to bring it nearer, and none beyond. -/
def run? (c : Cursor) : Option (Except Error Bytes) :=
  if b.low < c.read then
    match b.step? input c with
    | none => none
    | some (.error e) => some (.error e)
    | some (.ok d) => if _h : b.low ≤ d.read ∧ d.read < c.read then run? d else none
  else some (.ok c.output)
termination_by c.read
decreasing_by exact _h.2

end Bounds

def footer? (input : Bytes) : Option (Except Error Footer) := do
  if input.size < footerSize then return .error (.noFooter input.size)
  let middle ← difference? input.size 5
  let last ← difference? input.size 4
  let region ← slice? input (← difference? input.size footerSize) middle
  let skip ← input[middle]?
  let growth ← slice? input last input.size
  let footer : Footer := ⟨littleEndian region, skip.toNat, littleEndian growth⟩
  if footer.Fits input.size then return .ok footer
  else return .error (.invalidFooter footer.region footer.skip input.size)

/-- The decompressed string, where all numbers have to lie below `top`. -/
def decompress? (top : Nat) (input : Bytes) : Option (Except Error Bytes) := do
  match ← footer? input with
  | .error e => return .error e
  | .ok footer =>
    let size ← sumBelow? top input.size footer.growth
    if maxSize < size then return .error (.tooLarge size)
    let growth ← difference? size input.size
    let stop ← difference? input.size footer.region
    let read ← difference? input.size footer.skip
    Bounds.run? ⟨stop, read, size, top⟩ input
      ⟨read, size, 0, 0, input ++ Array.replicate growth 0⟩

/-! ## Nothing is out of range -/

/-- The bounds of a decoding: the input reaches up to them, and the numbers beyond the
farthest that a pair may point to. -/
structure Bounds.Sound (b : Bounds) (input : Bytes) : Prop where
  high_le : b.high ≤ input.size
  read_lt : b.high < b.top
  source_lt : b.size + 0x1002 < b.top

/-- A cursor between the bounds, over an output of the size that they allow. -/
structure Bounds.Inside (b : Bounds) (c : Cursor) : Prop where
  low_le : b.low ≤ c.read
  le_high : c.read ≤ b.high
  write_le : c.write ≤ b.size
  size_eq : c.output.size = b.size

theorem distance_ofBytes_le (low high : UInt8) : (Pair.ofBytes low high).distance ≤ 0x1002 := by
  simp only [Pair.ofBytes]
  omega

theorem size_copyDown {distance count write : Nat} {output next : Bytes}
    (h : copyDown distance count write output = some next) : next.size = output.size := by
  induction count generalizing write output with
  | zero =>
    cases h
    rfl
  | succ count ih =>
    rw [copyDown] at h
    split at h
    · cases h
    · rw [ih h, Array.size_setIfInBounds]

namespace Bounds

variable {b : Bounds} {input output : Bytes} {c d : Cursor}

theorem byte?_eq (hsound : b.Sound input) (index : Nat) (h : b.low ≤ index ∧ index < b.high) :
    b.byte? input index = some (input.getD index 0) := by
  have hindex : index < input.size := Nat.lt_of_lt_of_le h.2 hsound.high_le
  rw [byte?, if_pos h]
  simp [hindex]

theorem copied?_eq {index : Nat} (h : index < b.size) :
    b.copied? output index = output[index]? := if_pos h

theorem written?_eq (hsize : output.size = b.size) (index : Nat) (h : index < b.size)
    (byte : UInt8) : b.written? output index byte = some (output.setIfInBounds index byte) :=
  if_pos ⟨h, hsize ▸ h⟩

/-- All sources of a copy that are not past the end of the output can be read. -/
theorem copyDown?_eq (hsound : b.Sound input) {distance : Nat} (hdistance : distance ≤ 0x1002)
    {count write : Nat} (hcount : count ≤ write) (hwrite : write ≤ b.size)
    (hsize : output.size = b.size) :
    b.copyDown? distance count write output =
      some ((copyDown distance count write output).map fun next => (write - count, next)) := by
  induction count generalizing write output with
  | zero => rfl
  | succ count ih =>
    have hone : 1 ≤ write := by omega
    have hsum : write - 1 + distance < b.top := by
      have hlast := hsound.source_lt
      omega
    rw [copyDown?, difference?_eq hone, copyDown]
    simp only [Option.bind_eq_bind, Option.bind_some, sumBelow?_eq hsum]
    by_cases hsource : b.size ≤ write - 1 + distance
    · rw [if_pos hsource, Array.getElem?_eq_none (hsize ▸ hsource)]
      rfl
    · have hinside := Nat.not_le.mp hsource
      obtain ⟨byte, hbyte⟩ : ∃ byte, output[write - 1 + distance]? = some byte :=
        ⟨_, Array.getElem?_eq_getElem (hsize ▸ hinside)⟩
      have hnext : (output.setIfInBounds (write - 1) byte).size = b.size := by
        rw [Array.size_setIfInBounds, hsize]
      have hrest := ih (show count ≤ write - 1 by omega) (by omega) hnext
      rw [if_neg hsource]
      simp only [copied?_eq hinside, hbyte, Option.bind_some,
        written?_eq hsize (write - 1) (by omega), hrest]
      rw [show write - 1 - count = write - (count + 1) by omega]

/-- The step is in range, comes to what the step of the decoder comes to, and leaves a cursor
between the bounds. -/
structure Safe (b : Bounds) (input : Bytes) (c : Cursor) (checked : Option (Except Error Cursor))
    (outcome : Except Error Cursor) : Prop where
  eq : checked = some outcome
  inside : ∀ d, outcome = .ok d → b.Inside d ∧ d.read < c.read

section

variable (hsound : b.Sound input) (h : b.Inside c) (hlow : b.low < c.read)
include hsound h hlow

theorem safe_fetchFlags :
    Safe b input c ((b.fetchFlags? input c).map .ok) (.ok (c.fetchFlags input)) := by
  have hhigh := h.le_high
  have hread : difference? c.read 1 = some (c.read - 1) := difference?_eq (by omega)
  have hbyte := byte?_eq hsound (c.read - 1) (by omega)
  constructor
  · simp only [fetchFlags?, hread, hbyte, Option.bind_eq_bind, Option.bind_some]
    rfl
  · intro d hd
    obtain rfl := Except.ok.inj hd
    refine ⟨⟨?_, ?_, h.write_le, h.size_eq⟩, ?_⟩ <;> simp only [Cursor.fetchFlags] <;> omega

theorem safe_literal : Safe b input c (b.literal? input c) (c.literal input) := by
  have hhigh := h.le_high
  have hread : difference? c.read 1 = some (c.read - 1) := difference?_eq (by omega)
  unfold literal? Cursor.literal
  simp only [hread, Option.bind_eq_bind, Option.bind_some]
  by_cases hwrite : c.write = 0
  · rw [if_pos hwrite, if_pos hwrite]
    exact ⟨rfl, nofun⟩
  · have hbyte := byte?_eq hsound (c.read - 1) (by omega)
    have hroom := h.write_le
    have hput := written?_eq h.size_eq (c.write - 1) (by omega)
      (input.getD (c.read - 1) 0)
    have hsize : (c.output.setIfInBounds (c.write - 1) (input.getD (c.read - 1) 0)).size =
        b.size := by rw [Array.size_setIfInBounds, h.size_eq]
    rw [if_neg hwrite, if_neg hwrite]
    constructor
    · simp only [difference?_eq (Nat.pos_of_ne_zero hwrite), hbyte, hput, Option.bind_some]
      rfl
    · intro d hd
      obtain rfl := Except.ok.inj hd
      refine ⟨⟨?_, ?_, ?_, hsize⟩, ?_⟩ <;> dsimp only <;> omega

theorem safe_copy : Safe b input c (b.copy? input c) (c.copy input b.low) := by
  have hhigh := h.le_high
  have hleft : difference? c.read b.low = some (c.read - b.low) := difference?_eq h.low_le
  unfold copy? Cursor.copy
  rw [hleft]
  by_cases htwo : c.read - b.low < 2
  · have hread : difference? c.read 1 = some (c.read - 1) := difference?_eq (by omega)
    simp only [Option.bind_eq_bind, Option.bind_some, if_pos htwo, hread]
    exact ⟨rfl, nofun⟩
  · have hread : difference? c.read 2 = some (c.read - 2) := difference?_eq (by omega)
    have hnext : sumBelow? b.top (c.read - 2) 1 = some (c.read - 1) := by
      have htop := hsound.read_lt
      rw [sumBelow?_eq (by omega), show c.read - 2 + 1 = c.read - 1 by omega]
    have hfirst := byte?_eq hsound (c.read - 2) (by omega)
    have hsecond := byte?_eq hsound (c.read - 1) (by omega)
    simp only [Option.bind_eq_bind, Option.bind_some, if_neg htwo, hread, hnext, hfirst, hsecond]
    generalize hpair : Pair.ofBytes (input.getD (c.read - 2) 0) (input.getD (c.read - 1) 0) = pair
    by_cases hroom : c.write < pair.length
    · simp only [if_pos hroom]
      exact ⟨rfl, nofun⟩
    · have hdistance : pair.distance ≤ 0x1002 := hpair ▸ distance_ofBytes_le _ _
      simp only [if_neg hroom, Option.bind_some,
        copyDown?_eq hsound hdistance (Nat.not_lt.mp hroom) h.write_le h.size_eq]
      cases hcopy : copyDown pair.distance pair.length c.write c.output with
      | none => exact ⟨rfl, nofun⟩
      | some output =>
        refine ⟨rfl, fun d hd => ?_⟩
        obtain rfl := Except.ok.inj hd
        have hwrite := h.write_le
        refine ⟨⟨?_, ?_, ?_, (size_copyDown hcopy).trans h.size_eq⟩, ?_⟩ <;> dsimp only <;> omega

theorem safe_step : Safe b input c (b.step? input c) (c.step input b.low) := by
  unfold step? Cursor.step
  split
  · exact safe_fetchFlags hsound h hlow
  · split
    · exact safe_literal hsound h hlow
    · exact safe_copy hsound h hlow

end

/-- Between sound bounds the checked decoder comes to the end that the decoder comes to. -/
theorem run?_of_inside {c : Cursor} (hsound : b.Sound input) (h : b.Inside c) :
    b.run? input c = some (c.run input b.low) := by
  by_cases hlow : b.low < c.read
  · obtain ⟨hstep, hnext⟩ := safe_step hsound h hlow
    rw [run?, if_pos hlow, hstep]
    cases houtcome : c.step input b.low with
    | error e => rw [Cursor.run_of_error hlow houtcome]
    | ok d =>
      obtain ⟨hinside, hnearer⟩ := hnext d houtcome
      rw [Cursor.run_of_step hlow houtcome]
      dsimp only
      rw [dif_pos ⟨hinside.low_le, hnearer⟩]
      exact run?_of_inside hsound hinside
  · rw [run?, if_neg hlow, Cursor.run_of_le (Nat.not_lt.mp hlow)]
termination_by c.read

end Bounds

theorem footer?_eq (input : Bytes) : footer? input = some (Footer.ofInput input) := by
  rw [Footer.ofInput_eq, footer?, footerSize]
  by_cases hshort : input.size < 8
  · rw [if_pos hshort, if_pos hshort]
    rfl
  · have hlength : input.toList.length = input.size := Array.length_toList
    have hregion := slice?_eq input (input.size - 8) (input.size - 5) (by omega)
    have hgrowth := slice?_eq input (input.size - 4) input.size (by omega)
    have hskip : input[input.size - 5]? = some (input.toList.getD (input.size - 5) 0) := by
      simp [show input.size - 5 < input.size by omega]
    rw [show input.size - 5 - (input.size - 8) = 3 by omega] at hregion
    have hlast : (input.toList.drop (input.size - 4)).length = input.size - (input.size - 4) := by
      rw [List.length_drop, hlength]
    rw [List.take_of_length_le (Nat.le_of_eq hlast)] at hgrowth
    simp only [if_neg hshort, difference?_eq (show 5 ≤ input.size by omega),
      difference?_eq (show 4 ≤ input.size by omega), difference?_eq (Nat.not_lt.mp hshort), hregion,
      hgrowth, hskip, Option.bind_eq_bind, Option.bind_some, Forward.footer, hlength]
    split <;> rfl

theorem fits_of_ofInput {input : Bytes} {f : Footer} (h : Footer.ofInput input = .ok f) :
    f.Fits input.size ∧ f.growth < 2 ^ 32 := by
  rw [Footer.ofInput_eq] at h
  split at h
  · cases h
  · split at h
    · rename_i hfits
      obtain rfl := Except.ok.inj h
      have hlast : (input.toList.drop (input.toList.length - 4)).length ≤ 4 := by
        rw [List.length_drop]
        omega
      have hfour := Nat.pow_le_pow_right (show 0 < 256 by decide) hlast
      exact ⟨hfits, Nat.lt_of_lt_of_le (littleEndian_lt _) hfour⟩
    · cases h

/-- No difference is negative, no index into the input or the output is out of range and no sum is
too large, the cursor comes nearer to its end with every step, and the decoder comes to its outcome.
Numbers have to reach `2 ^ 32` beyond the size of the input for its declared size to be one of them;
those below `2 ^ 64` do so for all byte strings that fill at most half of a memory that big. -/
theorem decompress?_eq {top : Nat} {input : Bytes} (htop : input.size + 2 ^ 32 ≤ top) :
    decompress? top input = some (Compression.decompress input) := by
  rw [decompress?, footer?_eq]
  simp only [Option.bind_eq_bind, Option.bind_some]
  cases hfooter : Footer.ofInput input with
  | error e =>
    rw [decompress_of_footer_error hfooter]
    rfl
  | ok f =>
    obtain ⟨⟨hskip, hregion, hfit⟩, hgrowth⟩ := fits_of_ofInput hfooter
    have hsum : sumBelow? top input.size f.growth = some (input.size + f.growth) :=
      sumBelow?_eq (by omega)
    simp only [hsum, Option.bind_some]
    by_cases hlarge : maxSize < input.size + f.growth
    · rw [if_pos hlarge, decompress_of_too_large hfooter hlarge]
      rfl
    · have hsound : Bounds.Sound
          ⟨input.size - f.region, input.size - f.skip, input.size + f.growth, top⟩ input := by
        rw [maxSize] at hlarge
        constructor <;> dsimp only <;> omega
      have hstart : Bounds.Inside
          ⟨input.size - f.region, input.size - f.skip, input.size + f.growth, top⟩
          (start input f (input.size + f.growth)) := by
        constructor
        · exact Nat.sub_le_sub_left hregion _
        · exact Nat.le_refl _
        · exact Nat.le_refl _
        · simp [start]
      have hrun := Bounds.run?_of_inside hsound hstart
      have hskipped : f.skip ≤ input.size := Nat.le_trans hregion hfit
      rw [if_neg hlarge, decompress, hfooter]
      simp only [difference?_eq (Nat.le_add_right input.size f.growth), difference?_eq hfit,
        difference?_eq hskipped, Option.bind_some, bind, Except.bind,
        declaredSize_of_le (Nat.not_lt.mp hlarge)]
      exact hrun

/-- The input of a machine of 64 bits, whose cursors meet at the start of the output. -/
theorem decompress?_filling :
    decompress? (2 ^ 64) filling = some (.ok (repeated [0x48, 0x45, 0x41, 0x44])) := by
  rw [← decompress_filling]
  exact decompress?_eq (by decide)

end Cartridge.Compression
