import Cartridge.Record.Region
import Cartridge.Record.SectionTable
import Mathlib.Algebra.Group.Nat.Defs

/-!
# Numbers that fit

A number that fits into 64 bits is let pass by every arithmetic, so that a computation in which all
numbers fit comes to the same in each of them. Media units and the ends of sections always fit:
their parts are numbers of 32 bits.
-/
namespace Cartridge

/-- An arithmetic that does nothing about a number that fits. -/
class LawfulArithmetic (m : Type → Type) [Monad m] [Arithmetic m] : Prop where
  fit_of_lt : ∀ {n : Nat}, n < UInt64.size → (Arithmetic.fit n : m Unit) = pure ()

namespace Arithmetic

variable {m : Type → Type} {σ ε : Type}

instance : LawfulArithmetic Id := ⟨fun _ => rfl⟩

instance : LawfulArithmetic Option := ⟨fun h => if_pos h⟩

variable [Monad m] [LawfulMonad m] [Arithmetic m] [LawfulArithmetic m]

instance : LawfulArithmetic (StateT σ m) where
  fit_of_lt h := by
    show StateT.lift (fit _) = _
    rw [LawfulArithmetic.fit_of_lt h]
    exact StateT.ext fun s => by rw [StateT.run_lift, pure_bind]; rfl

instance : LawfulArithmetic (ExceptT ε m) where
  fit_of_lt h := by
    show ExceptT.lift (fit _) = _
    rw [LawfulArithmetic.fit_of_lt h]
    exact ExceptT.ext (by rw [ExceptT.run_lift, map_pure]; rfl)

variable {a b : UInt64}

theorem sum_of_fits (h : a.toNat + b.toNat < 2 ^ 64) : (sum a b : m UInt64) = pure (a + b) := by
  rw [sum, LawfulArithmetic.fit_of_lt h, pure_bind]

theorem product_of_fits (h : a.toNat * b.toNat < 2 ^ 64) :
    (product a b : m UInt64) = pure (a * b) := by
  rw [product, LawfulArithmetic.fit_of_lt h, pure_bind]

theorem sum_of_not_fits (h : 2 ^ 64 ≤ a.toNat + b.toNat) : (sum a b : Option UInt64) = none := by
  have hstop : (fit (a.toNat + b.toNat) : Option Unit) = none := if_neg (Nat.not_lt.mpr h)
  rw [sum, hstop]
  rfl

example : (sum 0xfffffffffffffe00 0x200 : Option UInt64) = none := by decide

end Arithmetic

variable {m : Type → Type} [Monad m] [LawfulMonad m] [Arithmetic m] [LawfulArithmetic m]

/-! ## Media units -/

theorem toNat_unitBytes (units : UInt32) : (unitBytes units).toNat = 0x200 * units.toNat := by
  have hunits := units.toNat_lt
  have h200 : mediaUnit.toNat = 0x200 := rfl
  have hproduct : unitBytes units = units.toUInt64 * mediaUnit := rfl
  rw [hproduct, UInt64.toNat_mul, UInt32.toNat_toUInt64, h200]
  omega

theorem unitBytesM_eq (units : UInt32) : (unitBytesM units : m UInt64) = pure (unitBytes units) := by
  have hunits := units.toNat_lt
  have h200 : mediaUnit.toNat = 0x200 := rfl
  exact Arithmetic.product_of_fits (by rw [UInt32.toNat_toUInt64, h200]; omega)

/-! ## Section ends -/

namespace SectionTable

theorem toNat_sectionEnd (s : Slot) :
    (sectionEnd s).toNat = 0x200 + s.offset.toNat + s.size.toNat := by
  have hoffset := s.offset.toNat_lt
  have hsize := s.size.toNat_lt
  have h200 : (0x200 : UInt64).toNat = 0x200 := rfl
  have hsum : sectionEnd s = 0x200 + s.offset.toUInt64 + s.size.toUInt64 := rfl
  rw [hsum, UInt64.toNat_add, UInt64.toNat_add, UInt32.toNat_toUInt64, UInt32.toNat_toUInt64, h200]
  omega

theorem sectionEndM_eq (s : Slot) : (sectionEndM s : m UInt64) = pure (sectionEnd s) := by
  have hoffset := s.offset.toNat_lt
  have hsize := s.size.toNat_lt
  have h200 : (0x200 : UInt64).toNat = 0x200 := rfl
  rw [sectionEndM, Arithmetic.sum_of_fits (by rw [UInt32.toNat_toUInt64, h200]; omega), pure_bind]
  refine Arithmetic.sum_of_fits ?_
  rw [UInt64.toNat_add, UInt32.toNat_toUInt64, UInt32.toNat_toUInt64, h200]
  omega

/-- The check of a table looks for the first used section that ends above the limit. -/
theorem checkBoundsM_eq_find? (t : SectionTable) (limit : UInt64) :
    (t.checkBoundsM limit : m (Except SectionTableError Unit)) = pure
      (match t.used.find? fun slot => limit < sectionEnd slot with
        | some slot => .error (.sectionOutOfBounds slot.name.text slot.offset slot.size limit)
        | none => .ok ()) := by
  simp only [checkBoundsM, sectionEndM_eq, pure_bind, List.findM?_pure]
  cases t.used.find? fun slot => limit < sectionEnd slot with
  | some slot => rfl
  | none => rfl

theorem checkBounds_eq_find? (t : SectionTable) (limit : UInt64) :
    t.checkBounds limit =
      match t.used.find? fun slot => limit < sectionEnd slot with
      | some slot => .error (.sectionOutOfBounds slot.name.text slot.offset slot.size limit)
      | none => .ok () :=
  congrArg Id.run (checkBoundsM_eq_find? t limit)

theorem checkBoundsM_eq (t : SectionTable) (limit : UInt64) :
    (t.checkBoundsM limit : m (Except SectionTableError Unit)) = pure (t.checkBounds limit) := by
  rw [checkBoundsM_eq_find?, checkBounds_eq_find?]

end SectionTable

end Cartridge
