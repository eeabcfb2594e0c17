import Cartridge.Bytes
import Cartridge.Text.Hex

/-!
# Backward compression

Program code is compressed from its end to its start. The last eight bytes of
a compressed string are a footer, and the tokens before it are read downwards:
a flag byte, then up to eight tokens, one for each flag from the highest bit on. A clear
flag stands for a literal byte, a set flag for a pair that copies bytes which lie
at a distance above the write position. What lies below the compressed region is stored
verbatim.

The decoder is a machine with two cursors over one buffer. The buffer starts as the
input followed by zeros, the read cursor falls through the input and the
write cursor falls through the buffer.
-/
namespace Cartridge.Compression

/-- A copy of `length` bytes that lie `distance` above the write position. -/
structure Pair where
  length : Nat
  distance : Nat
  deriving DecidableEq, Repr

namespace Pair

/-- The high four bits hold the length less three, the other twelve the distance less three. -/
def ofBytes (low high : UInt8) : Pair :=
  let value := low.toNat + 256 * high.toNat
  ⟨value / 0x1000 + 3, value % 0x1000 + 3⟩

def text (p : Pair) : String := Hex.short p.distance ++ "+" ++ Hex.short p.length

end Pair

/-- Why a byte string is no compressed string. -/
inductive Error where
  | noFooter (actual : Nat)
  | invalidFooter (region skip length : Nat)
  | tooLarge (size : Nat)
  | incompletePair (offset : Nat)
  | outOfBounds (pair : Pair) (offset : Nat)
  | outputOverflow (offset : Nat)
  deriving DecidableEq, Repr

def footerSize : Nat := 8

/-- No decompressed string is longer, so that a damaged footer asks for no absurd buffer. -/
def maxSize : Nat := 0x10000000

def Error.message : Error → String
  | .noFooter actual =>
    s!"expected at least {Hex.short footerSize} bytes for the footer " ++
      s!"but had only {Hex.short actual}"
  | .invalidFooter region skip length =>
    s!"footer has compressed length {Hex.short region} and footer length {Hex.short skip}, " ++
      s!"which do not fit in {Hex.short length} bytes"
  | .tooLarge size =>
    s!"decompressed size {Hex.short size} exceeds the maximum of {Hex.short maxSize}"
  | .incompletePair offset =>
    s!"expected second byte of length-distance pair at offset {Hex.short offset}"
  | .outOfBounds pair offset =>
    s!"length-distance pair {pair.text} at offset {Hex.short offset} " ++
      "points outside of decompressed stream"
  | .outputOverflow offset =>
    s!"token at offset {Hex.short offset} writes past the start of the decompressed stream"

/-- What the last eight bytes say. The compressed region is counted from the end of the input
and holds the footer, `skip` of its bytes are footer and padding, and the output is
`growth` bytes longer than the input. -/
structure Footer where
  region : Nat
  skip : Nat
  growth : Nat
  deriving DecidableEq, Repr

namespace Footer

/-- Three bytes of region length, one byte of skip, four bytes of growth. -/
def ofBlock (b : Block 8) : Footer :=
  ⟨(b.cut 0 3).word, (b.byteAt 3).toNat, (b.cut 4 4).word⟩

/-- Whether the regions of the footer lie within an input of this length. -/
def Fits (f : Footer) (length : Nat) : Prop :=
  footerSize ≤ f.skip ∧ f.skip ≤ f.region ∧ f.region ≤ length

instance (f : Footer) (length : Nat) : Decidable (f.Fits length) :=
  inferInstanceAs (Decidable (_ ∧ _ ∧ _))

/-- The footer of an input, checked against its length. -/
def ofInput (input : Bytes) : Except Error Footer :=
  match Bytes.block? 8 (input.extract (input.size - footerSize) input.size) with
  | none => .error (.noFooter input.size)
  | some block =>
    let footer := ofBlock block
    if footer.Fits input.size then .ok footer
    else .error (.invalidFooter footer.region footer.skip input.size)

end Footer

/-- The size of the output that a footer declares. -/
def declaredSize (input : Bytes) (footer : Footer) : Except Error Nat :=
  let size := input.size + footer.growth
  if maxSize < size then .error (.tooLarge size) else .ok size

/-- The size that an input has once it is decompressed. -/
def decompressedSize (input : Bytes) : Except Error Nat := do
  declaredSize input (← Footer.ofInput input)

/-- A point of the decoding. Input below `read` is still to come, output from `write` on
is final, and `pending` tokens of the current group are left, whose flags start at the highest
bit of `flags`. -/
structure Cursor where
  read : Nat
  write : Nat
  flags : UInt8
  pending : Nat
  output : Bytes

/-- Writes `count` bytes below `write`, each equal to the byte `distance` above it.
There is no result if such a byte lies past the end of the output. -/
def copyDown (distance : Nat) : Nat → Nat → Bytes → Option Bytes
  | 0, _, output => some output
  | count + 1, write, output =>
    match output[write - 1 + distance]? with
    | none => none
    | some byte => copyDown distance count (write - 1) (output.setIfInBounds (write - 1) byte)

namespace Cursor

/-- Reads the flags of the next group. -/
def fetchFlags (input : Bytes) (c : Cursor) : Cursor :=
  { c with read := c.read - 1, flags := input.getD (c.read - 1) 0, pending := 8 }

def literal (input : Bytes) (c : Cursor) : Except Error Cursor :=
  if c.write = 0 then .error (.outputOverflow (c.read - 1))
  else .ok
    { read := c.read - 1
      write := c.write - 1
      flags := c.flags <<< 1
      pending := c.pending - 1
      output := c.output.setIfInBounds (c.write - 1) (input.getD (c.read - 1) 0) }

def copy (input : Bytes) (stop : Nat) (c : Cursor) : Except Error Cursor :=
  if c.read - stop < 2 then .error (.incompletePair (c.read - 1))
  else
    let pair := Pair.ofBytes (input.getD (c.read - 2) 0) (input.getD (c.read - 1) 0)
    if c.write < pair.length then .error (.outputOverflow (c.read - 2))
    else
      match copyDown pair.distance pair.length c.write c.output with
      | none => .error (.outOfBounds pair (c.read - 2))
      | some output => .ok
        { read := c.read - 2
          write := c.write - pair.length
          flags := c.flags <<< 1
          pending := c.pending - 1
          output := output }

/-- Reads one flag byte or one token. -/
def step (input : Bytes) (stop : Nat) (c : Cursor) : Except Error Cursor :=
  if c.pending = 0 then .ok (c.fetchFlags input)
  else if c.flags &&& 0x80 = 0 then c.literal input
  else c.copy input stop

/-- Every step reads at least one byte. -/
theorem read_lt_of_step {input : Bytes} {stop : Nat} {c d : Cursor} (h : stop < c.read)
    (hstep : c.step input stop = .ok d) : d.read < c.read := by
  unfold step at hstep
  split at hstep
  · obtain rfl := Except.ok.inj hstep
    simp only [fetchFlags]
    omega
  · split at hstep
    · unfold literal at hstep
      split at hstep
      · cases hstep
      · obtain rfl := Except.ok.inj hstep
        show c.read - 1 < c.read
        omega
    · unfold copy at hstep
      split at hstep
      · cases hstep
      · dsimp only at hstep
        split at hstep
        · cases hstep
        · split at hstep
          · cases hstep
          · obtain rfl := Except.ok.inj hstep
            show c.read - 2 < c.read
            omega

/-- Steps until the read cursor has reached the end of the compressed region. -/
def run (input : Bytes) (stop : Nat) (c : Cursor) : Except Error Bytes :=
  if _h : stop < c.read then
    match _hstep : c.step input stop with
    | .error e => .error e
    | .ok d => d.run input stop
  else .ok c.output
termination_by c.read
decreasing_by exact read_lt_of_step _h _hstep

end Cursor

/-- The cursors at the start: reading begins below footer and padding, writing at the end. -/
def start (input : Bytes) (footer : Footer) (size : Nat) : Cursor :=
  { read := input.size - footer.skip
    write := size
    flags := 0
    pending := 0
    output := input ++ Array.replicate (size - input.size) 0 }

/-- The decompressed string. A failure gives no partial output. -/
def decompress (input : Bytes) : Except Error Bytes := do
  let footer ← Footer.ofInput input
  let size ← declaredSize input footer
  (start input footer size).run input (input.size - footer.region)

end Cartridge.Compression
