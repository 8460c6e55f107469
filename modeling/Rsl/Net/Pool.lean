import Rsl.Net.Packet

/-!
# The sizes of the buffer pool

`NextPowerOfTwo` finds the highest bit by halving the width of the value. Its result is the least
power of two that is not below the value, up to `2 ^ 31`. As an `int` that last one is negative, so
a buffer for more than `2 ^ 30` bytes cannot be filled.
-/

set_option autoImplicit false

namespace Rsl.Net

open Wire

/-- The upper half of a value of twice the width. -/
theorem and_upper_half {v w : Nat} (hv : v < 2 ^ (2 * w)) :
    v &&& (2 ^ w - 1) <<< w = v / 2 ^ w * 2 ^ w := by
  have hhalf : v / 2 ^ w < 2 ^ w := by
    rw [Nat.div_lt_iff_lt_mul (Nat.two_pow_pos w), ← Nat.pow_add]
    rwa [← Nat.two_mul]
  calc v &&& (2 ^ w - 1) <<< w = (v >>> w &&& (2 ^ w - 1)) <<< w := by
        apply Nat.eq_of_testBit_eq
        intro i
        rw [Nat.testBit_and, Nat.testBit_shiftLeft, Nat.testBit_shiftLeft, Nat.testBit_and,
          Nat.testBit_shiftRight]
        by_cases hi : w ≤ i
        · rw [Nat.add_sub_cancel' hi]
          simp [hi]
        · simp [hi]
    _ = v / 2 ^ w * 2 ^ w := by
        rw [Nat.and_two_pow_sub_one_eq_mod, Nat.shiftRight_eq_div_pow, Nat.mod_eq_of_lt hhalf,
          Nat.shiftLeft_eq]

/-- The value that is left is the original one without its low bits. -/
structure Narrowed (orig width : Nat) (s : Nat × Nat) : Prop where
  pos : 0 < s.1
  narrow : s.1 < 2 ^ width
  dvd : width ∣ s.2
  low : s.1 * 2 ^ s.2 ≤ orig
  high : orig < (s.1 + 1) * 2 ^ s.2

/-- A round halves the width. -/
theorem Narrowed.step {orig j : Nat} {s : Nat × Nat} (h : Narrowed orig (2 ^ (j + 1)) s) :
    Narrowed orig (2 ^ j) (highestBitStep ((2 ^ 2 ^ j - 1) <<< 2 ^ j) (2 ^ j) s) := by
  obtain ⟨v, k⟩ := s
  obtain ⟨hpos, hnarrow, hdvd, hlow, hhigh⟩ := h
  dsimp only at hpos hnarrow hdvd hlow hhigh
  have hwidth : 2 ^ (j + 1) = 2 * 2 ^ j := by rw [pow_succ, mul_comm]
  rw [hwidth] at hnarrow
  rw [highestBitStep, and_upper_half hnarrow]
  generalize hw : 2 ^ j = w at *
  have htwo : 0 < 2 ^ w := Nat.two_pow_pos w
  by_cases hbig : 2 ^ w ≤ v
  · have hdiv : 0 < v / 2 ^ w := Nat.div_pos hbig htwo
    rw [if_pos (Nat.mul_pos hdiv htwo).ne']
    have hor : k ||| w = k + w := by
      obtain ⟨a, rfl⟩ := hdvd
      rw [← hw]
      exact (Nat.two_pow_add_eq_or_of_lt
        (by rw [pow_succ]; have := Nat.two_pow_pos j; omega) a).symm
    have hsplit := Nat.div_add_mod v (2 ^ w)
    have hmod := Nat.mod_lt v htwo
    refine ⟨?_, ?_, ?_, ?_, ?_⟩
    · rw [Nat.shiftRight_eq_div_pow]
      exact hdiv
    · rw [Nat.shiftRight_eq_div_pow, Nat.div_lt_iff_lt_mul htwo, ← Nat.pow_add, ← Nat.two_mul]
      exact hnarrow
    · rw [hor]
      exact Nat.dvd_add (Nat.dvd_trans ⟨2, by rw [hwidth, mul_comm]⟩ hdvd) (Nat.dvd_refl w)
    · rw [hor, Nat.shiftRight_eq_div_pow]
      calc v / 2 ^ w * 2 ^ (k + w) = 2 ^ w * (v / 2 ^ w) * 2 ^ k := by
            rw [Nat.pow_add]
            ring
        _ ≤ v * 2 ^ k := Nat.mul_le_mul_right _ (by omega)
        _ ≤ orig := hlow
    · rw [hor, Nat.shiftRight_eq_div_pow]
      calc orig < (v + 1) * 2 ^ k := hhigh
        _ ≤ (2 ^ w * (v / 2 ^ w) + 2 ^ w) * 2 ^ k := Nat.mul_le_mul_right _ (by omega)
        _ = (v / 2 ^ w + 1) * 2 ^ (k + w) := by
            rw [Nat.pow_add]
            ring
  · rw [if_neg (by rw [Nat.div_eq_of_lt (by omega), zero_mul]; simp)]
    refine ⟨hpos, by dsimp only; omega, ?_, hlow, hhigh⟩
    exact Nat.dvd_trans ⟨2, by rw [hwidth, mul_comm]⟩ hdvd

/-- `highestBitSet` is the place of the highest bit. -/
theorem highestBitSet_spec {value : Nat} (hpos : 0 < value) (hword : value < 4294967296) :
    2 ^ highestBitSet value ≤ value ∧ value < 2 ^ (highestBitSet value + 1) := by
  have h0 : Narrowed value (2 ^ 5) (value, 0) := by
    refine ⟨hpos, by simpa using hword, Nat.dvd_zero _, ?_, ?_⟩
    · simp
    · simp
  have h := h0.step.step.step.step.step
  obtain ⟨hpos', hnarrow, -, hlow, hhigh⟩ := h
  generalize hr : highestBitStep _ (2 ^ 0) _ = r at hpos' hnarrow hlow hhigh
  have hset : highestBitSet value = r.2 := by rw [← hr]; rfl
  have hone : r.1 = 1 := by
    have : r.1 < 2 := hnarrow
    omega
  rw [hone] at hlow hhigh
  rw [hset, pow_succ]
  omega

/-- Between two powers of two there is none. -/
theorem and_pred_ne_zero {k n : Nat} (hlow : 2 ^ k < n) (hhigh : n < 2 ^ (k + 1)) :
    n &&& (n - 1) ≠ 0 := by
  intro hzero
  have hbit : (n &&& (n - 1)).testBit k = true := by
    rw [Nat.testBit_and, Nat.testBit_of_two_pow_le_and_two_pow_add_one_gt (by omega) hhigh,
      Nat.testBit_of_two_pow_le_and_two_pow_add_one_gt (by omega) (by omega)]
    rfl
  rw [hzero, Nat.zero_testBit] at hbit
  cases hbit

/-- A buffer for up to `2 ^ 30` bytes. -/
theorem getBuffer_eq_some {n : Nat} (hpos : 0 < n) (hn : n ≤ 1073741824) :
    ∃ size, getBuffer n = some size ∧ n ≤ size ∧ size ≤ 1073741824 := by
  have hdouble : asU32 (2 * n) = 2 * n := Nat.mod_eq_of_lt (by omega)
  rw [getBuffer, nextPowerOfTwo]
  by_cases hpower : n &&& (n - 1) = 0
  · rw [if_pos hpower]
    exact ⟨n, by rw [hdouble]; dsimp only; rw [if_pos (by omega)], le_refl n, hn⟩
  · obtain ⟨hlow, hhigh⟩ := highestBitSet_spec hpos (by omega)
    generalize highestBitSet n = k at hlow hhigh
    have hne : 2 ^ k ≠ n := by
      rintro rfl
      rw [Nat.and_two_pow_sub_one_eq_mod, Nat.mod_self] at hpower
      exact hpower rfl
    have hk : k < 30 := by
      rw [← Nat.pow_lt_pow_iff_right (by decide : 1 < 2)]
      omega
    have htop : 2 ^ (k + 1) ≤ 2 ^ 30 := Nat.pow_le_pow_right (by decide) hk
    rw [if_neg hpower, if_neg (by omega), Nat.one_shiftLeft]
    refine ⟨2 ^ (k + 1), ?_, by omega, htop⟩
    dsimp only
    rw [hdouble, if_pos]
    rw [pow_succ] at hhigh ⊢
    omega

/-- A buffer for more has a size that is negative as an `int`. -/
theorem getBuffer_of_gt {n : Nat} (hlow : 1073741824 < n) (hhigh : n < 2147483648) :
    getBuffer n = some 2147483648 := by
  have hdouble : asU32 (2 * n) = 2 * n := Nat.mod_eq_of_lt (by omega)
  obtain ⟨hbit, hbit'⟩ := highestBitSet_spec (by omega : 0 < n) (by omega)
  have hset : highestBitSet n = 30 := by
    have hlt : highestBitSet n < 31 := by
      rw [← Nat.pow_lt_pow_iff_right (by decide : 1 < 2)]
      omega
    have hgt : 30 < highestBitSet n + 1 := by
      rw [← Nat.pow_lt_pow_iff_right (by decide : 1 < 2)]
      omega
    omega
  rw [getBuffer, nextPowerOfTwo, if_neg (@and_pred_ne_zero 30 n hlow hhigh),
    if_neg (by omega), hset]
  dsimp only
  rw [hdouble, if_pos]
  · rfl
  · rw [Nat.one_shiftLeft]
    omega

end Rsl.Net
