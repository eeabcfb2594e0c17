import Cartridge.Proofs.Bytes
import Cartridge.Proofs.Compression.Forward

/-!
# The backward decoder simulates the forward one

The decoder works in place: its buffer starts as the compressed input, and every write falls
on bytes that were input. What carries the simulation is that the buffer above the write
cursor is exactly the list of the bytes produced, last byte first, and that a copy
never reads below the write cursor.
-/
namespace Cartridge.Compression

open Forward

/-- The input between `stop` and `read`, in the order in which it will be read. -/
def unread (input : Bytes) (stop read : Nat) : List UInt8 :=
  ((input.toList.drop stop).take (read - stop)).reverse

theorem unread_succ {input : Bytes} {stop read : Nat} (hlow : stop ≤ read)
    (hhigh : read < input.size) :
    unread input stop (read + 1) = input.getD read 0 :: unread input stop read := by
  have hlen : read - stop < (input.toList.drop stop).length := by
    rw [List.length_drop, Array.length_toList]
    omega
  have hbyte : (input.toList.drop stop)[read - stop] = input.getD read 0 := by
    simp [show stop + (read - stop) = read by omega, hhigh]
  rw [unread, show read + 1 - stop = read - stop + 1 by omega, List.take_add_one,
    List.getElem?_eq_getElem hlen, hbyte]
  simp [unread]

theorem length_unread {input : Bytes} {stop read : Nat} (hhigh : read ≤ input.size) :
    (unread input stop read).length = read - stop := by
  simp only [unread, List.length_reverse, List.length_take, List.length_drop, Array.length_toList]
  omega

/-- The output above the write cursor is what was produced; below, it is still the buffer. -/
structure Written (buffer : List UInt8) (write : Nat) (output : Bytes)
    (produced : List UInt8) : Prop where
  room : write + produced.length = buffer.length
  bytes : output.toList = buffer.take write ++ produced.reverse

namespace Written

variable {buffer produced : List UInt8} {write : Nat} {output : Bytes}

theorem start (buffer : List UInt8) : Written buffer buffer.length buffer.toArray [] :=
  ⟨by simp, by simp⟩

theorem size_eq (h : Written buffer write output produced) : output.size = buffer.length := by
  have hroom := h.room
  rw [← Array.length_toList, h.bytes, List.length_append, List.length_take, List.length_reverse]
  omega

/-- Writing below the write cursor appends to what was produced. -/
theorem put (h : Written buffer (write + 1) output produced) (byte : UInt8) :
    Written buffer write (output.setIfInBounds write byte) (produced ++ [byte]) := by
  have hroom := h.room
  constructor
  · rw [List.length_append, List.length_singleton]
    omega
  · have hlt : write < buffer.length := by omega
    have hlen : (buffer.take write).length = write := by
      rw [List.length_take]
      omega
    rw [Array.toList_setIfInBounds, h.bytes, List.take_add_one, List.getElem?_eq_getElem hlt,
      Option.toList_some, List.append_assoc, List.set_append_right _ _ (by omega), hlen,
      Nat.sub_self]
    simp

/-- The byte `distance` above the next write is the one `distance` positions back. -/
theorem getElem?_of_le (h : Written buffer (write + 1) output produced) {distance : Nat}
    (hpos : 0 < distance) (hle : distance ≤ produced.length) :
    output[write + distance]? = some (produced.getD (produced.length - distance) 0) := by
  have hroom := h.room
  have hlen : (buffer.take (write + 1)).length = write + 1 := by
    rw [List.length_take]
    omega
  rw [← Array.getElem?_toList, h.bytes, List.getElem?_append_right (by omega), hlen,
    List.getElem?_reverse (by omega), List.getD_eq_getElem?_getD,
    show produced.length - 1 - (write + distance - (write + 1)) = produced.length - distance by
      omega,
    List.getElem?_eq_getElem (by omega), Option.getD_some]

/-- Further back than the first byte there is nothing, whatever the buffer held. -/
theorem getElem?_of_lt (h : Written buffer (write + 1) output produced) {distance : Nat}
    (hlt : produced.length < distance) : output[write + distance]? = none := by
  have hroom := h.room
  apply Array.getElem?_eq_none
  rw [h.size_eq]
  omega

/-- A copy within what was produced is the forward copy. -/
theorem copyDown (h : Written buffer write output produced) {distance : Nat} (count : Nat)
    (hpos : 0 < distance) (hle : distance ≤ produced.length) (hfit : count ≤ write) :
    ∃ next, Compression.copyDown distance count write output = some next ∧
      Written buffer (write - count) next (appendCopies distance count produced) := by
  induction count generalizing write output produced with
  | zero => exact ⟨output, rfl, h⟩
  | succ count ih =>
    obtain ⟨write, rfl⟩ := Nat.exists_eq_succ_of_ne_zero (show write ≠ 0 by omega)
    have hbyte := h.getElem?_of_le hpos hle
    have hput := h.put (produced.getD (produced.length - distance) 0)
    obtain ⟨next, hnext, hwritten⟩ := ih hput (by simp; omega) (by omega)
    refine ⟨next, ?_, by simpa only [Nat.succ_sub_succ, appendCopies] using hwritten⟩
    simpa only [Compression.copyDown, Nat.succ_eq_add_one, Nat.add_sub_cancel, hbyte] using hnext

/-- A copy from before the first produced byte fails at once. -/
theorem copyDown_eq_none (h : Written buffer write output produced) {distance count : Nat}
    (hlt : produced.length < distance) (hcount : 0 < count) (hfit : count ≤ write) :
    Compression.copyDown distance count write output = none := by
  obtain ⟨count, rfl⟩ := Nat.exists_eq_succ_of_ne_zero (show count ≠ 0 by omega)
  obtain ⟨write, rfl⟩ := Nat.exists_eq_succ_of_ne_zero (show write ≠ 0 by omega)
  simp only [Compression.copyDown, Nat.succ_eq_add_one, Nat.add_sub_cancel, h.getElem?_of_lt hlt]

end Written

/-- A cursor of the backward decoder stands for a point of the forward decoding. -/
structure Represents (input : Bytes) (stop : Nat) (buffer : List UInt8) (c : Cursor)
    (flags : List Bool) (stream produced : List UInt8) : Prop where
  pending : c.pending ≤ 8
  flags : flags = (flagsOf c.flags).take c.pending
  low : stop ≤ c.read
  high : c.read ≤ input.size
  stream : stream = unread input stop c.read
  written : Written buffer c.write c.output produced

namespace Represents

variable {input : Bytes} {stop : Nat} {buffer : List UInt8} {c : Cursor} {flags : List Bool}
  {stream produced : List UInt8}

theorem length_stream (h : Represents input stop buffer c flags stream produced) :
    stop + stream.length = c.read := by
  have hlow := h.low
  rw [h.stream, length_unread h.high]
  omega

/-- The output is the buffer with the produced bytes laid over its end. -/
theorem output_eq (h : Represents input stop buffer c flags stream produced) :
    c.output = (overlay buffer produced).toArray := by
  have hroom := h.written.room
  rw [overlay, ← hroom, Nat.add_sub_cancel, ← h.written.bytes, Array.toArray_toList]

/-- The next byte of the stream is the one below the read cursor. -/
theorem next_byte {byte : UInt8} {rest : List UInt8}
    (h : Represents input stop buffer c flags (byte :: rest) produced) :
    stop < c.read ∧ input.getD (c.read - 1) 0 = byte ∧ rest = unread input stop (c.read - 1) := by
  have hlen := h.length_stream
  have hhigh := h.high
  rw [List.length_cons] at hlen
  have hstream := h.stream
  rw [show c.read = c.read - 1 + 1 by omega, unread_succ (by omega) (by omega)] at hstream
  obtain ⟨hbyte, hrest⟩ := List.cons.inj hstream
  exact ⟨by omega, hbyte.symm, hrest⟩

theorem pending_eq_zero (h : Represents input stop buffer c [] stream produced) :
    c.pending = 0 := by
  have hlen := congrArg List.length h.flags
  rw [List.length_take, length_flagsOf, List.length_nil] at hlen
  have hpending := h.pending
  omega

/-- The next flag is the highest bit, and shifting it out leaves the other flags. -/
theorem next_flag {flag : Bool}
    (h : Represents input stop buffer c (flag :: flags) stream produced) :
    c.pending ≠ 0 ∧ (c.flags &&& 0x80 != 0) = flag ∧
      flags = (flagsOf (c.flags <<< 1)).take (c.pending - 1) := by
  have hflags := h.flags
  have hpending := h.pending
  cases hp : c.pending with
  | zero => simp [hp] at hflags
  | succ pending =>
    rw [hp, flagsOf_eq_cons, List.take_succ_cons] at hflags
    obtain ⟨hflag, hrest⟩ := List.cons.inj hflags
    refine ⟨by simp, hflag.symm, ?_⟩
    rw [hrest, flagsOf_shift, Nat.add_sub_cancel, List.take_append_of_le_length]
    simp only [List.length_tail, length_flagsOf]
    omega

/-- Fetching a flag byte begins a group. -/
theorem fetchFlags {byte : UInt8} {rest : List UInt8}
    (h : Represents input stop buffer c [] (byte :: rest) produced) :
    c.step input stop = .ok (c.fetchFlags input) ∧
      Represents input stop buffer (c.fetchFlags input) (flagsOf byte) rest produced := by
  obtain ⟨hlt, hbyte, hrest⟩ := h.next_byte
  have hhigh := h.high
  refine ⟨by simp [Cursor.step, h.pending_eq_zero], ?_⟩
  constructor
  · exact Nat.le_refl 8
  · simp only [Cursor.fetchFlags, hbyte]
    rw [List.take_of_length_le (by simp)]
  · simp only [Cursor.fetchFlags]
    omega
  · simp only [Cursor.fetchFlags]
    omega
  · exact hrest
  · exact h.written

theorem step_literal (h : Represents input stop buffer c (false :: flags) stream produced) :
    c.step input stop = c.literal input := by
  obtain ⟨hpending, hflag, _⟩ := h.next_flag
  simp only [bne_eq_false_iff_eq] at hflag
  simp [Cursor.step, hpending, hflag]

theorem step_copy (h : Represents input stop buffer c (true :: flags) stream produced) :
    c.step input stop = c.copy input stop := by
  obtain ⟨hpending, hflag, _⟩ := h.next_flag
  simp only [bne_iff_ne, ne_eq] at hflag
  simp [Cursor.step, hpending, hflag]

/-- A literal that finds the buffer full fails at its own offset. -/
theorem literal_overflow {byte : UInt8} {rest : List UInt8}
    (h : Represents input stop buffer c (false :: flags) (byte :: rest) produced)
    (hfull : produced.length = buffer.length) :
    c.step input stop = .error (.outputOverflow (stop + rest.length)) := by
  have hlen := h.length_stream
  have hroom := h.written.room
  rw [List.length_cons] at hlen
  rw [h.step_literal, Cursor.literal, if_pos (by omega),
    show c.read - 1 = stop + rest.length by omega]

theorem literal {byte : UInt8} {rest : List UInt8}
    (h : Represents input stop buffer c (false :: flags) (byte :: rest) produced)
    (hroom : produced.length ≠ buffer.length) :
    ∃ d, c.step input stop = .ok d ∧
      Represents input stop buffer d flags rest (produced ++ [byte]) := by
  obtain ⟨hlt, hbyte, hrest⟩ := h.next_byte
  obtain ⟨hpending, hflag, hflags⟩ := h.next_flag
  have hhigh := h.high
  have hle := h.pending
  have hwritten := h.written
  have hwrite : c.write ≠ 0 := by
    intro hzero
    have := hwritten.room
    omega
  rw [show c.write = c.write - 1 + 1 by omega] at hwritten
  refine ⟨_, by rw [h.step_literal, Cursor.literal, if_neg hwrite], ?_⟩
  constructor
  · show c.pending - 1 ≤ 8
    omega
  · exact hflags
  · show stop ≤ c.read - 1
    omega
  · show c.read - 1 ≤ input.size
    omega
  · exact hrest
  · simpa only [hbyte] using hwritten.put byte

/-- The two bytes of a pair lie below the read cursor, the low byte first. -/
theorem next_pair {high low : UInt8} {rest : List UInt8}
    (h : Represents input stop buffer c flags (high :: low :: rest) produced) :
    ¬ c.read - stop < 2 ∧ c.read - 2 = stop + rest.length ∧
      Pair.ofBytes (input.getD (c.read - 2) 0) (input.getD (c.read - 1) 0) = pairOf high low ∧
      rest = unread input stop (c.read - 2) := by
  have hlen := h.length_stream
  have hhigh := h.high
  simp only [List.length_cons] at hlen
  obtain ⟨_, hbyte, hrest⟩ := h.next_byte
  rw [show c.read - 1 = c.read - 2 + 1 by omega, unread_succ (by omega) (by omega)] at hrest
  obtain ⟨hlow, hrest⟩ := List.cons.inj hrest
  exact ⟨by omega, by omega, by rw [hbyte, ← hlow, pairOf_eq], hrest⟩

theorem copy_incomplete {byte : UInt8}
    (h : Represents input stop buffer c (true :: flags) [byte] produced) :
    c.step input stop = .error (.incompletePair stop) := by
  have hlen := h.length_stream
  rw [List.length_singleton] at hlen
  rw [h.step_copy, Cursor.copy, if_pos (by omega), show c.read - 1 = stop by omega]

/-- The room for the whole pair counts first. -/
theorem copy_overflow {high low : UInt8} {rest : List UInt8}
    (h : Represents input stop buffer c (true :: flags) (high :: low :: rest) produced)
    (hfull : buffer.length < produced.length + (pairOf high low).length) :
    c.step input stop = .error (.outputOverflow (stop + rest.length)) := by
  obtain ⟨htwo, hoffset, hpair, _⟩ := h.next_pair
  have hroom := h.written.room
  simp only [h.step_copy, Cursor.copy, if_neg htwo, hpair]
  rw [if_pos (by omega), hoffset]

theorem copy_outOfBounds {high low : UInt8} {rest : List UInt8}
    (h : Represents input stop buffer c (true :: flags) (high :: low :: rest) produced)
    (hfit : ¬ buffer.length < produced.length + (pairOf high low).length)
    (hback : produced.length < (pairOf high low).distance) :
    c.step input stop = .error (.outOfBounds (pairOf high low) (stop + rest.length)) := by
  obtain ⟨htwo, hoffset, hpair, _⟩ := h.next_pair
  have hroom := h.written.room
  have hnone := h.written.copyDown_eq_none hback (length_pairOf_pos high low) (by omega)
  simp only [h.step_copy, Cursor.copy, if_neg htwo, hpair]
  rw [if_neg (by omega), hnone, hoffset]

theorem copy {high low : UInt8} {rest : List UInt8}
    (h : Represents input stop buffer c (true :: flags) (high :: low :: rest) produced)
    (hfit : ¬ buffer.length < produced.length + (pairOf high low).length)
    (hback : ¬ produced.length < (pairOf high low).distance) :
    ∃ d, c.step input stop = .ok d ∧ Represents input stop buffer d flags rest
      (appendCopies (pairOf high low).distance (pairOf high low).length produced) := by
  obtain ⟨htwo, hoffset, hpair, hrest⟩ := h.next_pair
  obtain ⟨_, _, hflags⟩ := h.next_flag
  have hroom := h.written.room
  have hhigh := h.high
  have hpending := h.pending
  obtain ⟨next, hnext, hwritten⟩ := h.written.copyDown (pairOf high low).length
    (distance_pairOf_pos high low) (Nat.not_lt.mp hback) (by omega)
  refine ⟨⟨c.read - 2, c.write - (pairOf high low).length, c.flags <<< 1, c.pending - 1, next⟩,
    ?_, ?_⟩
  · simp only [h.step_copy, Cursor.copy, if_neg htwo, hpair]
    rw [if_neg (by omega), hnext]
  · constructor
    · show c.pending - 1 ≤ 8
      omega
    · exact hflags
    · show stop ≤ c.read - 2
      omega
    · show c.read - 2 ≤ input.size
      omega
    · exact hrest
    · exact hwritten

end Represents

theorem Cursor.run_of_le {input : Bytes} {stop : Nat} {c : Cursor} (h : c.read ≤ stop) :
    c.run input stop = .ok c.output := by
  rw [Cursor.run, dif_neg (Nat.not_lt.mpr h)]

theorem Cursor.run_of_step {input : Bytes} {stop : Nat} {c d : Cursor} (h : stop < c.read)
    (hstep : c.step input stop = .ok d) : c.run input stop = d.run input stop := by
  rw [Cursor.run, dif_pos h]
  split
  case h_1 e herror => rw [hstep] at herror; cases herror
  case h_2 d' hok => rw [hstep] at hok; cases hok; rfl

theorem Cursor.run_of_error {input : Bytes} {stop : Nat} {c : Cursor} {e : Error}
    (h : stop < c.read) (hstep : c.step input stop = .error e) :
    c.run input stop = .error e := by
  rw [Cursor.run, dif_pos h]
  split
  case h_1 e' herror => rw [hstep] at herror; cases herror; rfl
  case h_2 d hok => rw [hstep] at hok; cases hok

/-- Each step of the machine is a step of the forward decoder, so their runs end alike. -/
theorem Represents.run_eq {input : Bytes} {stop : Nat} {buffer : List UInt8} {c : Cursor}
    {flags : List Bool} {stream produced : List UInt8}
    (h : Represents input stop buffer c flags stream produced) :
    c.run input stop =
      (decode buffer.length stop flags stream produced).map
        fun produced => (overlay buffer produced).toArray := by
  fun_induction decode buffer.length stop flags stream produced generalizing c with
  | case1 flags produced =>
    have hlen := h.length_stream
    rw [Cursor.run_of_le (by simp at hlen; omega), h.output_eq]
    rfl
  | case2 byte rest produced ih =>
    obtain ⟨hstep, hnext⟩ := h.fetchFlags
    rw [Cursor.run_of_step h.next_byte.1 hstep, ih hnext]
  | case3 flags byte rest produced hfull =>
    rw [Cursor.run_of_error h.next_byte.1 (h.literal_overflow hfull)]
    rfl
  | case4 flags byte rest produced hroom ih =>
    obtain ⟨d, hstep, hnext⟩ := h.literal hroom
    rw [Cursor.run_of_step h.next_byte.1 hstep, ih hnext]
  | case5 flags byte produced =>
    rw [Cursor.run_of_error h.next_byte.1 h.copy_incomplete]
    rfl
  | case6 flags high low rest produced hfull =>
    rw [Cursor.run_of_error h.next_byte.1 (h.copy_overflow hfull)]
    rfl
  | case7 flags high low rest produced hfit hback =>
    rw [Cursor.run_of_error h.next_byte.1 (h.copy_outOfBounds hfit hback)]
    rfl
  | case8 flags high low rest produced hfit hback ih =>
    obtain ⟨d, hstep, hnext⟩ := h.copy hfit hback
    rw [Cursor.run_of_step h.next_byte.1 hstep, ih hnext]

/-- The last eight bytes of an input hold the fields of its footer. -/
theorem Footer.ofBlock_eq {bytes : List UInt8} {block : Block 8} (hlen : 8 ≤ bytes.length)
    (hblock : block.toList = bytes.drop (bytes.length - 8)) :
    Footer.ofBlock block = Forward.footer bytes := by
  have hskip : bytes.length - 8 + 3 = bytes.length - 5 := by omega
  have hgrowth : bytes.length - 8 + 4 = bytes.length - 4 := by omega
  have hlast : ((bytes.drop (bytes.length - 4)).take 4) = bytes.drop (bytes.length - 4) := by
    apply List.take_of_length_le
    rw [List.length_drop]
    omega
  simp only [Footer.ofBlock, Forward.footer, Block.word_cut, Block.byteAt_eq, hblock,
    List.getD_eq_getElem?_getD, List.getElem?_drop, List.drop_drop, Nat.add_zero, hskip, hgrowth,
    hlast]

/-- The footer that the machine reads is the one that the format describes. -/
theorem Footer.ofInput_eq (input : Bytes) :
    Footer.ofInput input =
      if input.size < 8 then .error (.noFooter input.size)
      else if (Forward.footer input.toList).Fits input.size then .ok (Forward.footer input.toList)
      else .error (.invalidFooter (Forward.footer input.toList).region
        (Forward.footer input.toList).skip input.size) := by
  unfold Footer.ofInput footerSize
  by_cases hsize : input.size < 8
  · rw [Bytes.block?_eq_none (by rw [Array.size_extract]; omega), if_pos hsize]
  · obtain ⟨block, hblock, hlist⟩ :=
      Bytes.block?_of_le (n := 8) (b := input.extract (input.size - 8) input.size)
        (by rw [Array.size_extract]; omega)
    have hbytes : block.toList = input.toList.drop (input.toList.length - 8) := by
      rw [hlist, Array.toList_extract, List.extract_eq_take_drop, Array.length_toList,
        List.take_of_length_le, List.take_of_length_le] <;>
        simp only [List.length_take, List.length_drop, Array.length_toList] <;> omega
    rw [hblock, if_neg hsize]
    simp only [Footer.ofBlock_eq (by simpa using hsize) hbytes]

/-- What the machine answers on an input whose footer is sound. -/
theorem run_start {input : Bytes} {f : Footer} (hfits : f.Fits input.size) :
    (start input f (input.size + f.growth)).run input (input.size - f.region) =
      (decode (input.size + f.growth) (input.size - f.region) []
        (Forward.stream input.toList f.region f.skip) []).map fun produced =>
          (overlay (input.toList ++ List.replicate f.growth 0) produced).toArray := by
  obtain ⟨hskip, hregion, hsize⟩ := hfits
  have hlen : (input.toList ++ List.replicate f.growth 0).length = input.size + f.growth := by
    simp
  have hstart : Represents input (input.size - f.region) (input.toList ++ List.replicate f.growth 0)
      (start input f (input.size + f.growth)) []
      (Forward.stream input.toList f.region f.skip) [] := by
    constructor
    · exact Nat.zero_le 8
    · rfl
    · show input.size - f.region ≤ input.size - f.skip
      omega
    · exact Nat.sub_le _ _
    · show ((_ : List UInt8).take _).reverse =
        ((_ : List UInt8).take (input.size - f.skip - _)).reverse
      rw [Array.length_toList,
        show input.size - f.skip - (input.size - f.region) = f.region - f.skip by omega]
    · have hbuffer := Written.start (input.toList ++ List.replicate f.growth 0)
      have houtput : (input.toList ++ List.replicate f.growth 0).toArray =
          input ++ Array.replicate f.growth 0 := by
        apply Array.toList_inj.mp
        rw [Array.toList_append, Array.toList_replicate]
      rw [hlen, houtput] at hbuffer
      simpa only [start, Nat.add_sub_cancel_left] using hbuffer
  rw [hstart.run_eq, hlen]

theorem declaredSize_of_le {input : Bytes} {f : Footer} (h : input.size + f.growth ≤ maxSize) :
    declaredSize input f = .ok (input.size + f.growth) := by
  rw [declaredSize]
  simp [Nat.not_lt.mpr h]

theorem declaredSize_of_lt {input : Bytes} {f : Footer} (h : maxSize < input.size + f.growth) :
    declaredSize input f = .error (.tooLarge (input.size + f.growth)) := by
  rw [declaredSize]
  simp [h]

/-- What is decoded once the footer is read and the size granted. -/
theorem decompress_of_footer {input : Bytes} {f : Footer} (hfooter : Footer.ofInput input = .ok f)
    (hfits : f.Fits input.size) (hsize : input.size + f.growth ≤ maxSize) :
    Compression.decompress input =
      (decode (input.size + f.growth) (input.size - f.region) []
        (Forward.stream input.toList f.region f.skip) []).map fun produced =>
          (overlay (input.toList ++ List.replicate f.growth 0) produced).toArray := by
  rw [← run_start hfits, Compression.decompress, hfooter]
  simp only [bind, Except.bind, declaredSize_of_le hsize]

theorem decompress_of_footer_error {input : Bytes} {e : Error}
    (hfooter : Footer.ofInput input = .error e) : Compression.decompress input = .error e := by
  rw [Compression.decompress, hfooter]
  rfl

theorem decompress_of_too_large {input : Bytes} {f : Footer}
    (hfooter : Footer.ofInput input = .ok f) (hsize : maxSize < input.size + f.growth) :
    Compression.decompress input = .error (.tooLarge (input.size + f.growth)) := by
  rw [Compression.decompress, hfooter]
  simp only [bind, Except.bind, declaredSize_of_lt hsize]

/-- The machine decodes exactly what the format, read forwards, says, and fails exactly where
and as it does. -/
theorem decompress_eq_forward (input : Bytes) :
    Compression.decompress input = Forward.decompress input := by
  have hfooter := Footer.ofInput_eq input
  simp only [Forward.decompress]
  generalize Forward.footer input.toList = f at hfooter ⊢
  by_cases hshort : input.size < 8
  · rw [if_pos hshort] at hfooter ⊢
    exact decompress_of_footer_error hfooter
  · rw [if_neg hshort] at hfooter ⊢
    by_cases hfits : f.Fits input.size
    · rw [if_pos hfits] at hfooter
      have hsound : ¬ (f.skip < 8 ∨ f.region < f.skip ∨ input.size < f.region) := by
        obtain ⟨hskip, hregion, hsize⟩ := hfits
        rw [footerSize] at hskip
        omega
      rw [if_neg hsound]
      by_cases hsize : maxSize < input.size + f.growth
      · rw [decompress_of_too_large hfooter hsize]
        exact (if_pos hsize).symm
      · rw [decompress_of_footer hfooter hfits (Nat.not_lt.mp hsize)]
        exact (if_neg hsize).symm
    · rw [if_neg hfits] at hfooter
      have hfaulty : f.skip < 8 ∨ f.region < f.skip ∨ input.size < f.region := by
        rw [Footer.Fits, footerSize] at hfits
        omega
      rw [if_pos hfaulty]
      exact decompress_of_footer_error hfooter

end Cartridge.Compression
