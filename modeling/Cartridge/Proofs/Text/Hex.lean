import Cartridge.Text.Hex
import Mathlib.Data.List.Basic

/-!
# Reading hexadecimal text

A digit is worth its place among the lowercase digits, and a text of digits is read from its first
digit on. What is written for a number is read as that number, is as long as it has to be, and has
zeros in front only where it would be too short without them.
-/
namespace Cartridge.Hex

/-- The place of a character among the digits, if it is one. -/
def digit? (c : Char) : Option Nat := "0123456789abcdef".toList.idxOf? c

/-- The number that digits make when they are put behind a number. -/
def extend? (n : Nat) (cs : List Char) : Option Nat :=
  cs.foldlM (fun n c => (digit? c).map (16 * n + ·)) n

/-- The number that a text of digits stands for. -/
def value? (cs : List Char) : Option Nat := extend? 0 cs

/-- The digits of a number with no more zeros in front of them than the width calls for. -/
structure Spells (width n : Nat) (cs : List Char) : Prop where
  value : value? cs = some n
  width_le : width ≤ cs.length
  head_ne_zero : width < cs.length → cs.head? ≠ some '0'

theorem digit?_digitChar : ∀ d < 16, digit? (Nat.digitChar d) = some d := by
  decide

theorem extend?_append (n : Nat) (a b : List Char) :
    extend? n (a ++ b) = (extend? n a).bind fun m => extend? m b := by
  rw [extend?, List.foldlM_append]
  rfl

theorem extend?_digitChar (n : Nat) {d : Nat} (h : d < 16) :
    extend? n [Nat.digitChar d] = some (16 * n + d) := by
  simp [extend?, digit?_digitChar d h]

/-- A number is its digits but the last, and its last digit behind them. -/
theorem toDigits_of_le {n : Nat} (h : 16 ≤ n) :
    Nat.toDigits 16 n = Nat.toDigits 16 (n / 16) ++ [Nat.digitChar (n % 16)] := by
  rw [Nat.toDigits_eq_if (by decide), if_neg (Nat.not_lt.mpr h)]

theorem value?_toDigits (n : Nat) : value? (Nat.toDigits 16 n) = some n := by
  induction n using Nat.strongRecOn with
  | ind n ih =>
    by_cases hn : n < 16
    · rw [Nat.toDigits_of_lt_base hn, value?, extend?_digitChar 0 hn, Nat.mul_zero, Nat.zero_add]
    · have hprefix := ih (n / 16) (by omega)
      rw [value?] at hprefix
      rw [toDigits_of_le (by omega), value?, extend?_append, hprefix, Option.bind_some,
        extend?_digitChar _ (Nat.mod_lt n (by decide)), Nat.div_add_mod]

theorem head?_toDigits_ne {n : Nat} (h : n ≠ 0) : (Nat.toDigits 16 n).head? ≠ some '0' := by
  induction n using Nat.strongRecOn with
  | ind n ih =>
    by_cases hn : n < 16
    · rw [Nat.toDigits_of_lt_base hn, List.head?_cons, ne_eq, Option.some.injEq,
        Nat.digitChar_eq_zero]
      exact h
    · rw [toDigits_of_le (by omega), List.head?_append_of_ne_nil _ Nat.toDigits_ne_nil]
      exact ih (n / 16) (by omega) (by omega)

theorem value?_zeros_append (k : Nat) (cs : List Char) :
    value? (List.replicate k '0' ++ cs) = value? cs := by
  have hzeros : extend? 0 (List.replicate k '0') = some 0 := by
    induction k with
    | zero => rfl
    | succ k ih =>
      rw [List.replicate_succ', extend?_append, ih]
      rfl
  rw [value?, extend?_append, hzeros]
  rfl

/-- A number is written with its digits, as long as there has to be one. -/
theorem spells_digits {width : Nat} (hwidth : 0 < width) (n : Nat) :
    Spells width n (digits width n) where
  value := by rw [digits, value?_zeros_append, value?_toDigits]
  width_le := by
    rw [digits, List.length_append, List.length_replicate]
    omega
  head_ne_zero := by
    intro hlonger
    rw [digits, List.length_append, List.length_replicate] at hlonger
    have hshort : width - (Nat.toDigits 16 n).length = 0 := by omega
    rw [digits, hshort, List.replicate_zero, List.nil_append]
    refine head?_toDigits_ne ?_
    rintro rfl
    have hone : (Nat.toDigits 16 0).length = 1 := rfl
    omega

theorem isSome_digit?_of_extend? {n m : Nat} {cs : List Char} (h : extend? n cs = some m) :
    ∀ c ∈ cs, (digit? c).isSome := by
  induction cs generalizing n with
  | nil => simp
  | cons c cs ih =>
    obtain ⟨k, hk, hrest⟩ := Option.bind_eq_some_iff.mp h
    obtain ⟨d, hd, -⟩ := Option.map_eq_some_iff.mp hk
    exact List.forall_mem_cons.mpr ⟨hd ▸ rfl, ih hrest⟩

/-- Text of digits has nothing in it that is not a digit. -/
theorem Spells.notMem {width n : Nat} {cs : List Char} (h : Spells width n cs) {c : Char}
    (hc : digit? c = none) : c ∉ cs := fun hmem =>
  by simpa [hc] using isSome_digit?_of_extend? h.value c hmem

/-- A byte is written with two digits. -/
theorem byte_eq (b : UInt8) :
    ∃ high low, byte b = [high, low] ∧ value? [high, low] = some b.toNat := by
  have hspells := spells_digits (by decide : 0 < 2) b.toNat
  have hshort : (Nat.toDigits 16 b.toNat).length ≤ 2 :=
    (Nat.length_toDigits_le_iff (by decide) (by decide)).mpr b.toNat_lt
  have hlength : (byte b).length = 2 := by
    rw [byte, digits, List.length_append, List.length_replicate]
    omega
  obtain ⟨high, low, hbyte⟩ := List.length_eq_two.mp hlength
  exact ⟨high, low, hbyte, hbyte ▸ hspells.value⟩

end Cartridge.Hex
