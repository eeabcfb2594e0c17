import Cartridge.Bytes
import Cartridge.Text.Hex

/-!
# Hex dumps

Sixteen bytes to a line: the address of the first, the bytes in hexadecimal, and the bytes as
text. A short last line is filled up, so that its text stands below that of the others.
-/
namespace Cartridge.HexDump

/-- Bytes on a full line. -/
def lineSize : Nat := 16

/-- A byte in the text column: itself if it is a graphic ASCII character or a space, else a dot. -/
def glyph (b : UInt8) : Char := if 0x20 ≤ b && b ≤ 0x7e then Char.ofNat b.toNat else '.'

/-- The column of the bytes in hexadecimal, three characters for each. -/
def field (b : UInt8) : List Char := ' ' :: Hex.byte b

def line (address : Nat) (chunk : List UInt8) : List Char :=
  Hex.digits 8 address ++ [' '] ++ chunk.flatMap field ++
    List.replicate (3 * (lineSize - chunk.length)) ' ' ++ [' ', ' '] ++ chunk.map glyph

/-- The lines of a byte string whose first byte is at an address. -/
def lines (base : Nat) (data : List UInt8) : List (List Char) :=
  (Bytes.pieces lineSize data).zipIdx.map fun (chunk, i) => line (base + lineSize * i) chunk

def text (base : Nat) (data : List UInt8) : String :=
  String.ofList ((lines base data).flatMap fun line => line ++ ['\n'])

end Cartridge.HexDump
