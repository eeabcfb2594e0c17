import Cartridge.Bytes

/-!
# Names of fixed length

A record stores a name in a fixed number of bytes and fills the rest with zeros.
Written from a text, a name is ASCII; read from a file it may hold any bytes.
Two views of it differ on purpose. Its text is what stands before the first zero byte,
each byte shown as the character of that number. It is called by a text only if
its bytes are the UTF-8 form of that text and zeros to the end.
-/
namespace Cartridge

structure FixedName (n : Nat) where
  bytes : Block n
  deriving DecidableEq

/-- Why a text is no name. -/
inductive NameError where
  | tooLong (text : String) (limit : Nat)
  | notAscii (text : String)
  deriving DecidableEq, Repr

def NameError.message : NameError → String
  | .tooLong text limit => s!"the provided string '{text}' is longer than {limit} characters"
  | .notAscii text => s!"the provided string '{text}' contains one or more non-ASCII characters"

/-- Whether a character is one of the 128 that take one byte. -/
def isAscii (c : Char) : Bool := c.toNat < 0x80

namespace FixedName

/-- Bytes with zeros after them up to length `n`, where they fit. -/
def padded (n : Nat) (bytes : List UInt8) (fits : bytes.length ≤ n) : Block n :=
  ⟨(bytes ++ List.replicate (n - bytes.length) 0).toArray, by simp; omega⟩

/-- A text as a name: its length in UTF-8 is checked before its characters are. -/
def ofString (n : Nat) (s : String) : Except NameError (FixedName n) :=
  if h : (utf8 s).length ≤ n then
    if s.toList.all isAscii then .ok ⟨padded n (utf8 s) h⟩ else .error (.notAscii s)
  else .error (.tooLong s n)

/-- The bytes before the first zero, as characters of the same numbers. -/
def text {n : Nat} (a : FixedName n) : String :=
  String.ofList ((a.bytes.toList.takeWhile (· != 0)).map fun b => Char.ofNat b.toNat)

def quoted {n : Nat} (a : FixedName n) : String := "\"" ++ a.text ++ "\""

/-- Whether the bytes are this text and then nothing but zeros. -/
def isNamed {n : Nat} (a : FixedName n) (s : String) : Bool :=
  let name := utf8 s
  name.length ≤ n && a.bytes.toList.take name.length == name &&
    (a.bytes.toList.drop name.length).all (· == 0)

def isBlank {n : Nat} (a : FixedName n) : Bool := a.bytes.isZero

/-- A name of four bytes as one number. -/
def word32 (a : FixedName 4) : UInt32 := a.bytes.word32 0

end FixedName

end Cartridge
