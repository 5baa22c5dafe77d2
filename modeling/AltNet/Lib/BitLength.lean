import Mathlib

/-!
# Numbers by their binary length

`Nat.size` is the number of binary digits. What XOR does to it: of two numbers
of one length the leading digits cancel, and of two lengths the greater stays.

Main results:

* `size_mul_two_pow_add` — digits that are appended;
* `size_xor_lt`, `size_le_size_xor` — the length of a XOR.
-/

namespace AltNet

theorem size_mul_two_pow_add {x k r : Nat} (hx : 0 < x) (hr : r < 2 ^ k) :
    (x * 2 ^ k + r).size = x.size + k := by
  have hPos : 0 < x.size := Nat.size_pos.mpr hx
  apply le_antisymm
  · rw [Nat.size_le, pow_add]
    have hStep : (x + 1) * 2 ^ k ≤ 2 ^ x.size * 2 ^ k :=
      Nat.mul_le_mul_right _ x.lt_size_self
    rw [Nat.add_mul, Nat.one_mul] at hStep
    omega
  · have hLow : 2 ^ (x.size - 1) ≤ x := Nat.lt_size.mp (by omega)
    have hStep : 2 ^ (x.size - 1) * 2 ^ k ≤ x * 2 ^ k := Nat.mul_le_mul_right _ hLow
    rw [← pow_add] at hStep
    have hSize : x.size - 1 + k < (x * 2 ^ k + r).size := Nat.lt_size.mpr (by omega)
    omega

theorem lt_of_size_lt {x y : Nat} (h : x.size < y.size) : x < y := by
  by_contra hGe
  exact absurd (Nat.size_le_size (Nat.le_of_not_lt hGe)) (Nat.not_le.mpr h)

theorem testBit_size_pred {x k : Nat} (h : x.size = k + 1) : x.testBit k = true := by
  refine Nat.testBit_of_two_pow_le_and_two_pow_add_one_gt (Nat.lt_size.mp (by omega)) ?_
  exact Nat.size_le.mp h.le

theorem testBit_of_size_le {x k : Nat} (h : x.size ≤ k) : x.testBit k = false :=
  Nat.testBit_lt_two_pow (Nat.size_le.mp h)

/-- Of two numbers of one length the leading digits cancel. -/
theorem size_xor_lt {x y : Nat} (h : x.size = y.size) (hPos : 0 < x.size) :
    (x ^^^ y).size < x.size := by
  obtain ⟨k, hk⟩ : ∃ k, x.size = k + 1 := ⟨x.size - 1, by omega⟩
  rw [hk, Nat.lt_succ_iff, Nat.size_le]
  refine Nat.lt_pow_two_of_testBit _ fun i hi => ?_
  rw [Nat.testBit_xor]
  rcases Nat.eq_or_lt_of_le hi with rfl | hAbove
  · rw [testBit_size_pred hk, testBit_size_pred (h ▸ hk)]
    rfl
  · rw [testBit_of_size_le (by omega), testBit_of_size_le (by omega)]
    rfl

/-- The leading digit of the longer one stays. -/
theorem size_le_size_xor {x y : Nat} (h : x.size < y.size) : y.size ≤ (x ^^^ y).size := by
  obtain ⟨k, hk⟩ : ∃ k, y.size = k + 1 := ⟨y.size - 1, by omega⟩
  rw [hk, Nat.succ_le_iff, Nat.lt_size]
  apply Nat.ge_two_pow_of_testBit
  rw [Nat.testBit_xor, testBit_size_pred hk, testBit_of_size_le (by omega)]
  rfl

end AltNet
