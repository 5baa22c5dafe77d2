import Mathlib

/-!
# Signed 64-bit arithmetic

An `int64` is an integer in `IsInt64`, and a sum that leaves the range wraps
around. `addInt64_of_fits` and `addInt64_of_overflow` give the sum in exact
integers.
-/

namespace AltNet

/-- The numbers that fit into an `int64`. -/
def IsInt64 (n : Int) : Prop := -2 ^ 63 ≤ n ∧ n < 2 ^ 63

instance (n : Int) : Decidable (IsInt64 n) := inferInstanceAs (Decidable (_ ∧ _))

/-- `int64` addition. -/
def addInt64 (a b : Int) : Int := (a + b).bmod (2 ^ 64)

/-- A sum that fits is the sum. -/
theorem addInt64_of_fits {a b : Int} (h : IsInt64 (a + b)) : addInt64 a b = a + b := by
  obtain ⟨hLow, hHigh⟩ := h
  exact Int.bmod_eq_of_le_mul_two (by omega) (by omega)

/-- A sum of two `int64` that is too large comes out negative. -/
theorem addInt64_of_overflow {a b : Int} (ha : IsInt64 a) (hb : IsInt64 b)
    (h : 2 ^ 63 ≤ a + b) : addInt64 a b = a + b - 2 ^ 64 := by
  obtain ⟨-, haHigh⟩ := ha
  obtain ⟨-, hbHigh⟩ := hb
  have hShift : addInt64 a b = (a + b - 2 ^ 64).bmod (2 ^ 64) :=
    (Int.sub_bmod_right (a + b) (2 ^ 64)).symm
  rw [hShift]
  exact Int.bmod_eq_of_le_mul_two (by omega) (by omega)

theorem addInt64_bmod (a b : Int) : addInt64 (a.bmod (2 ^ 64)) (b.bmod (2 ^ 64)) =
    (a + b).bmod (2 ^ 64) := by
  rw [addInt64, Int.bmod_add_bmod, Int.add_bmod_bmod]

/-- A wrapped count is a larger one only when it is the same and did not wrap. -/
theorem bmod_eq_natCast_iff {n m : Nat} (h : n ≤ m) :
    (n : Int).bmod (2 ^ 64) = m ↔ n = m ∧ m < 2 ^ 63 := by
  constructor
  · intro hEq
    have hLt : (n : Int).bmod (2 ^ 64) < ((2 ^ 64 : Nat) + 1) / 2 := Int.bmod_lt (by decide)
    have hSmall : m < 2 ^ 63 := by omega
    have hSame : (n : Int).bmod (2 ^ 64) = n := Int.bmod_eq_of_le (by omega) (by omega)
    exact ⟨by omega, hSmall⟩
  · rintro ⟨rfl, hSmall⟩
    exact Int.bmod_eq_of_le (by omega) (by omega)

/-- A wrapped sum is its first part only when that did not wrap and the other
part wraps to nothing. -/
theorem bmod_add_eq_natCast_iff {n m : Nat} :
    ((n + m : Nat) : Int).bmod (2 ^ 64) = n ↔ n < 2 ^ 63 ∧ 2 ^ 64 ∣ m := by
  have hLt : ((n + m : Nat) : Int).bmod (2 ^ 64) < ((2 ^ 64 : Nat) + 1) / 2 :=
    Int.bmod_lt (by decide)
  constructor
  · intro hEq
    refine ⟨by omega, ?_⟩
    have hMod : ((n + m : Nat) : Int).bmod (2 ^ 64) % (2 ^ 64 : Nat) =
        (n + m : Nat) % (2 ^ 64 : Nat) := Int.bmod_emod
    omega
  · rintro ⟨hSmall, k, rfl⟩
    rw [Nat.cast_add, Nat.cast_mul, Int.add_mul_bmod_self_left]
    exact Int.bmod_eq_of_le (by omega) (by omega)

end AltNet
