import Cartridge.Compression.Backward

/-!
# The compressed format, read forwards

Turned around, the compressed region is an ordinary stream: a flag byte, then up to eight
tokens, which append to the list of the bytes produced so far. A pair copies from
that list and nowhere else. This decoder knows no buffer and no cursor; it fixes what
a compressed string means, and which fault of it counts first.
-/
namespace Cartridge.Compression.Forward

/-- The flags of a group, from the highest bit on. -/
def flagsOf (byte : UInt8) : List Bool := (List.range 8).map byte.toBitVec.getMsbD

/-- Appends `count` bytes, each equal to the byte `distance` positions back. A copy that is
longer than its distance repeats what it has itself produced. -/
def appendCopies (distance : Nat) : Nat → List UInt8 → List UInt8
  | 0, produced => produced
  | count + 1, produced =>
    appendCopies distance count (produced ++ [produced.getD (produced.length - distance) 0])

/-- The high byte of a pair is read first. -/
def pairOf (high low : UInt8) : Pair :=
  let value := 256 * high.toNat + low.toNat
  ⟨(value >>> 12) + 3, (value &&& 0xfff) + 3⟩

/-- Decodes a stream after the bytes produced so far, given the flags that are left of the
current group. At most `capacity` bytes are produced. What is left of the stream lies above
`stop` in the input, so its length gives the offset of a fault. -/
def decode (capacity stop : Nat) :
    List Bool → List UInt8 → List UInt8 → Except Error (List UInt8)
  | _, [], produced => .ok produced
  | [], byte :: rest, produced => decode capacity stop (flagsOf byte) rest produced
  | false :: flags, byte :: rest, produced =>
    if produced.length = capacity then .error (.outputOverflow (stop + rest.length))
    else decode capacity stop flags rest (produced ++ [byte])
  | true :: _, [_], _ => .error (.incompletePair stop)
  | true :: flags, high :: low :: rest, produced =>
    if capacity < produced.length + (pairOf high low).length then
      .error (.outputOverflow (stop + rest.length))
    else if produced.length < (pairOf high low).distance then
      .error (.outOfBounds (pairOf high low) (stop + rest.length))
    else
      decode capacity stop flags rest
        (appendCopies (pairOf high low).distance (pairOf high low).length produced)

/-- The buffer with its last bytes replaced by what was produced, last byte first. -/
def overlay (buffer produced : List UInt8) : List UInt8 :=
  buffer.take (buffer.length - produced.length) ++ produced.reverse

/-- The footer of an input: the region, the skip and the growth stand in its last
eight bytes. -/
def footer (bytes : List UInt8) : Footer where
  region := littleEndian ((bytes.drop (bytes.length - 8)).take 3)
  skip := (bytes.getD (bytes.length - 5) 0).toNat
  growth := littleEndian (bytes.drop (bytes.length - 4))

/-- The stream of an input is the compressed region without footer and padding, turned around. -/
def stream (bytes : List UInt8) (region skip : Nat) : List UInt8 :=
  ((bytes.drop (bytes.length - region)).take (region - skip)).reverse

/-- The meaning of a compressed string. -/
def decompress (input : Bytes) : Except Error Bytes :=
  let f := footer input.toList
  if input.size < 8 then .error (.noFooter input.size)
  else if f.skip < 8 ∨ f.region < f.skip ∨ input.size < f.region then
    .error (.invalidFooter f.region f.skip input.size)
  else if 0x10000000 < input.size + f.growth then .error (.tooLarge (input.size + f.growth))
  else
    (decode (input.size + f.growth) (input.size - f.region) []
      (stream input.toList f.region f.skip) []).map fun produced =>
        (overlay (input.toList ++ List.replicate f.growth 0) produced).toArray

@[simp] theorem length_flagsOf (byte : UInt8) : (flagsOf byte).length = 8 := by simp [flagsOf]

@[simp] theorem length_appendCopies (distance count : Nat) (produced : List UInt8) :
    (appendCopies distance count produced).length = produced.length + count := by
  induction count generalizing produced with
  | zero => rfl
  | succ count ih =>
    rw [appendCopies, ih, List.length_append, List.length_singleton]
    omega

/-- Shifting a flag byte drops its first flag. -/
theorem flagsOf_shift (byte : UInt8) : flagsOf (byte <<< 1) = (flagsOf byte).tail ++ [false] := by
  simp [flagsOf, List.range_succ]

theorem and_highBit (bits : BitVec 8) : (bits &&& 0x80 != 0) = bits.getMsbD 0 := by
  revert bits
  decide +kernel

/-- The first flag is the bit that the backward decoder tests. -/
theorem flagsOf_eq_cons (byte : UInt8) :
    flagsOf byte = (byte &&& 0x80 != 0) :: (flagsOf byte).tail := by
  have hhead : (byte &&& 0x80 != 0) = byte.toBitVec.getMsbD 0 := by
    rw [← and_highBit, bne, bne, Bool.not_inj_iff, Bool.eq_iff_iff, beq_iff_eq, beq_iff_eq,
      ← UInt8.toBitVec_inj]
    rfl
  rw [hhead]
  rfl

theorem pairOf_eq (high low : UInt8) : pairOf high low = Pair.ofBytes low high := by
  have hmask (value : Nat) : value &&& 0xfff = value % 0x1000 :=
    Nat.and_two_pow_sub_one_eq_mod value 12
  simp only [pairOf, Pair.ofBytes, hmask, Nat.shiftRight_eq_div_pow, Nat.reducePow,
    Nat.add_comm (256 * high.toNat)]

theorem distance_pairOf_pos (high low : UInt8) : 0 < (pairOf high low).distance := Nat.succ_pos _

theorem length_pairOf_pos (high low : UInt8) : 0 < (pairOf high low).length := Nat.succ_pos _

end Cartridge.Compression.Forward
