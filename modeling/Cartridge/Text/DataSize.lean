/-!
# Sizes for a reader

A size below a kilobyte is shown in bytes, one below a megabyte in kilobytes,
and any other in megabytes. The size is first rounded to the 24 significant bits of
a binary32 number and then to one decimal; in both steps a tie goes to the even
neighbour. All of it is exact arithmetic on natural numbers.
-/
namespace Cartridge

/-- The integer nearest to `num / den`, the even one of two that are equally near. -/
def roundDiv (num den : Nat) : Nat :=
  let quotient := num / den
  let twice := 2 * (num % den)
  if den < twice ∨ (twice = den ∧ quotient % 2 = 1) then quotient + 1 else quotient

/-- A number rounded to its `bits` leading binary digits. -/
def roundToBits (bits n : Nat) : Nat :=
  let unit := 1 <<< (n.log2 + 1 - bits)
  roundDiv n unit * unit

namespace DataSize

/-- A quotient with one decimal. -/
def tenths (num den : Nat) : String :=
  let rounded := roundDiv (10 * num) den
  s!"{rounded / 10}.{rounded % 10}"

def text (size : Nat) : String :=
  if size < 0x400 then s!"{size}B"
  else if size < 0x100000 then tenths (roundToBits 24 size) 0x400 ++ "kB"
  else tenths (roundToBits 24 size) 0x100000 ++ "MB"

end DataSize

end Cartridge
