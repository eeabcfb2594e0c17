/-!
# Hexadecimal text

Numbers in lowercase hexadecimal, bare or after `0x`, and byte strings with two
digits for each byte. A width is a least number of digits: shorter numbers
get leading zeros and longer ones keep all their digits.
-/
namespace Cartridge.Hex

/-- The digits of a number, at least `width` of them. -/
def digits (width n : Nat) : List Char :=
  let shortest := Nat.toDigits 16 n
  List.replicate (width - shortest.length) '0' ++ shortest

/-- The two digits of a byte. -/
def byte (b : UInt8) : List Char := digits 2 b.toNat

/-- A number with at least `width` digits and nothing before them. -/
def bare (width n : Nat) : String := String.ofList (digits width n)

/-- A number with at least `width` digits after `0x`. -/
def wide (width n : Nat) : String := "0x" ++ bare width n

/-- A number with as few digits as it has, after `0x`. -/
def short (n : Nat) : String := wide 1 n

/-- Sixteen digits, the written form of an identifier. -/
def id (n : UInt64) : String := bare 16 n.toNat

/-- A byte string with two digits for each byte. -/
def ofBytes (b : List UInt8) : String := String.ofList (b.flatMap byte)

end Cartridge.Hex
