import Cartridge.Arithmetic
import Cartridge.Storage.FileSystem

/-!
# File ranges

A RomFS is never read as a whole: it is a range of an open file, from which bytes
are read by their position in the range, or which is copied piece by piece to a sink. A range may
begin anywhere, so that the place of a position in it need not be a number of 64 bits.
-/
namespace Cartridge

structure FileRange where
  file : Handle
  path : Path
  offset : UInt64
  size : UInt64
  deriving DecidableEq, Repr

/-- Why reading from a range fails. -/
inductive RangeError where
  | outOfRange (position : UInt64) (length : Nat) (size : UInt64)
  | file (error : AccessError)
  | sink (fault : StorageFault)
  deriving DecidableEq, Repr

def RangeError.message : RangeError → String
  | .outOfRange position length size =>
    s!"cannot read {Hex.short length} bytes at {Hex.short position.toNat} " ++
      s!"from a RomFS of {Hex.short size.toNat} bytes"
  | .file error => error.message
  | .sink fault => fault.message

/-- Where copied bytes go: a writer that takes `limit` bytes in all, and no byte after them.
The sizes that it took are kept call by call. -/
structure Sink where
  limit : Nat
  received : Bytes
  writes : List Nat
  deriving DecidableEq

namespace Sink

def ofLimit (limit : Nat) : Sink := ⟨limit, #[], []⟩

/-- Takes as many of the bytes as the limit allows. -/
def accept (s : Sink) (bytes : Bytes) : Nat × Sink :=
  let count := min bytes.size (s.limit - s.received.size)
  (count, { s with received := s.received ++ bytes.extract 0 count, writes := s.writes ++ [count] })

/-- Writes all of the bytes. What one call does not take is offered again, and a call
that takes nothing ends the writing. -/
def write (s : Sink) (bytes : Bytes) : Bool × Sink :=
  if bytes.size = 0 then (true, s)
  else
    let (count, taken) := s.accept bytes
    if count = bytes.size then (true, taken)
    else if count = 0 then (false, taken)
    else (false, (taken.accept (bytes.extract count bytes.size)).2)

end Sink

namespace FileRange

/-- The most bytes that are copied at a time. -/
def chunkSize : Nat := 0x100000

section

variable {m : Type → Type} [Monad m] [Arithmetic m]

/-- Reads `length` bytes from a position of the range. -/
def readAtM (fs : FileSystem) (r : FileRange) (position : UInt64) (length : Nat) :
    m (Except RangeError Bytes) := do
  if r.size.toNat < position.toNat + length then
    return .error (.outOfRange position length r.size)
  else
    let offset ← Arithmetic.sum r.offset position
    match fs.readAt r.file offset length with
    | .ok bytes => return .ok bytes
    | .error fault => return .error (.file (.shortRead offset length fault))

/-- Copies the range from a position on. -/
def copyFromM (fs : FileSystem) (r : FileRange) (position : Nat) (sink : Sink) :
    m (Except RangeError Nat × Sink) := do
  if _h : position < r.size.toNat then
    let length := min (r.size.toNat - position) chunkSize
    match ← r.readAtM fs (UInt64.ofNat position) length with
    | .error e => return (.error e, sink)
    | .ok bytes =>
      match sink.write bytes with
      | (false, taken) => return (.error (.sink .writerFull), taken)
      | (true, taken) =>
        Arithmetic.fit (position + length)
        r.copyFromM fs (position + length) taken
  else return (.ok position, sink)
termination_by r.size.toNat - position
decreasing_by
  have : 0 < chunkSize := by decide
  omega

/-- Copies the whole range, and answers how many bytes that were. -/
def copyToM (fs : FileSystem) (r : FileRange) (sink : Sink) : m (Except RangeError Nat × Sink) :=
  r.copyFromM fs 0 sink

end

/-! ## Where a place that does not fit wraps around -/

def readAt (fs : FileSystem) (r : FileRange) (position : UInt64) (length : Nat) :
    Except RangeError Bytes :=
  Id.run (r.readAtM fs position length)

def copyFrom (fs : FileSystem) (r : FileRange) (position : Nat) (sink : Sink) :
    Except RangeError Nat × Sink :=
  Id.run (r.copyFromM fs position sink)

def copyTo (fs : FileSystem) (r : FileRange) (sink : Sink) : Except RangeError Nat × Sink :=
  Id.run (r.copyToM fs sink)

/-! ## Where it ends the program -/

def readAt? (fs : FileSystem) (r : FileRange) (position : UInt64) (length : Nat) :
    Option (Except RangeError Bytes) :=
  r.readAtM fs position length

def copyTo? (fs : FileSystem) (r : FileRange) (sink : Sink) :
    Option (Except RangeError Nat × Sink) :=
  r.copyToM fs sink

end FileRange

end Cartridge
