/-!
# Arithmetic

Offsets and sizes are numbers of 64 bits, and not every sum or product of two of them is one. What
is then is left open here: a computation is written once, over a monad that knows what to do. In
`Id` the number wraps around; in `Option` the computation ends.
-/
namespace Cartridge

/-- What a computation does with a number that it has come to. -/
class Arithmetic (m : Type → Type) where
  /-- Lets a number pass that fits into 64 bits. -/
  fit : Nat → m Unit

namespace Arithmetic

variable {m : Type → Type} {σ ε : Type}

instance : Arithmetic Id := ⟨fun _ => pure ()⟩

instance : Arithmetic Option := ⟨fun n => if n < UInt64.size then some () else none⟩

instance [Monad m] [Arithmetic m] : Arithmetic (StateT σ m) := ⟨fun n => StateT.lift (fit n)⟩

instance [Monad m] [Arithmetic m] : Arithmetic (ExceptT ε m) := ⟨fun n => ExceptT.lift (fit n)⟩

variable [Monad m] [Arithmetic m]

def sum (a b : UInt64) : m UInt64 := do
  fit (a.toNat + b.toNat)
  return a + b

def product (a b : UInt64) : m UInt64 := do
  fit (a.toNat * b.toNat)
  return a * b

end Arithmetic

end Cartridge
