import Mathlib

/-!
# Remainder registers over GF(2)

A word of `n` bits is a polynomial over GF(2) of degree below `n`, with its lowest bit as the
coefficient of the highest power. `mulX p` multiplies such a word by `X` modulo `X ^ n + p`: a shift
to the right, and an exclusive or with the tail `p` when a bit falls out. Checksums of the CRC and
Rabin family are iterations of it.

The operational half says how iterations act on bits: they are linear, they undo a left shift, and a
register that takes in digit after digit ends where it would have ended had all digits been there
from the start (`feed_eq_iterate`). The algebraic half says what they compute: `toPoly_feed`.
-/

set_option autoImplicit false

namespace Rsl.Lib.Remainder

/-- Multiplication by `X` modulo `X ^ n + p`, for words of any width `n`. -/
def mulX (p f : Nat) : Nat := (if f.testBit 0 then p else 0) ^^^ (f >>> 1)

/-- A register that takes in one digit of `w` bits after another. -/
def feed (p w f : Nat) (digits : List Nat) : Nat :=
  digits.foldl (fun g d => (mulX p)^[w] (g ^^^ d)) f

/-- The word that has the given digits of `w` bits, the lowest first. -/
def ofDigits (w : Nat) : List Nat → Nat
  | [] => 0
  | d :: ds => d ^^^ (ofDigits w ds <<< w)

section Bits

variable {p : Nat}

theorem mulX_xor (a b : Nat) : mulX p (a ^^^ b) = mulX p a ^^^ mulX p b := by
  apply Nat.eq_of_testBit_eq
  intro i
  simp only [mulX, Nat.testBit_xor, Nat.testBit_shiftRight]
  -- The tail enters the sum for each of the two low bits that is set.
  cases a.testBit 0 <;> cases b.testBit 0 <;>
    simp [Bool.xor_left_comm]

theorem iterate_mulX_xor (k a b : Nat) :
    (mulX p)^[k] (a ^^^ b) = (mulX p)^[k] a ^^^ (mulX p)^[k] b := by
  induction k generalizing a b with
  | zero => rfl
  | succ k ih => rw [Function.iterate_succ_apply, mulX_xor, ih]; rfl

theorem mulX_shiftLeft_succ (a k : Nat) : mulX p (a <<< (k + 1)) = a <<< k := by
  have hlow : (a <<< (k + 1)).testBit 0 = false := by simp
  apply Nat.eq_of_testBit_eq
  intro i
  simp only [mulX, hlow, Bool.false_eq_true, if_false, Nat.zero_xor, Nat.testBit_shiftRight,
    Nat.testBit_shiftLeft]
  congr 1
  · simp only [ge_iff_le, decide_eq_decide]; omega
  · congr 1; omega

/-- As many steps undo a left shift. -/
@[simp]
theorem iterate_mulX_shiftLeft (a k : Nat) : (mulX p)^[k] (a <<< k) = a := by
  induction k with
  | zero => simp
  | succ k ih => rw [Function.iterate_succ_apply, mulX_shiftLeft_succ, ih]

@[simp]
theorem iterate_mulX_zero (k : Nat) : (mulX p)^[k] 0 = 0 := by
  simpa using iterate_mulX_shiftLeft (p := p) 0 k

@[simp]
theorem mulX_one : mulX p 1 = p := by simp [mulX]

/-- A set bit at place `k` reaches the low end after `k` steps and becomes the tail with the
next. -/
theorem iterate_mulX_two_pow (j k : Nat) :
    (mulX p)^[j + 1 + k] (2 ^ k) = (mulX p)^[j] p := by
  rw [Function.iterate_add_apply, ← Nat.one_shiftLeft, iterate_mulX_shiftLeft,
    Function.iterate_succ_apply, mulX_one]

theorem ofDigits_split (w d x : Nat) (hd : d < 2 ^ w) : d ^^^ (x <<< w) = d + 2 ^ w * x := by
  rw [Nat.shiftLeft_eq, mul_comm x, add_comm, Nat.two_pow_add_eq_or_of_lt hd]
  apply Nat.eq_of_testBit_eq
  intro i
  simp only [Nat.testBit_xor, Nat.testBit_or, Nat.testBit_two_pow_mul]
  by_cases hi : w ≤ i
  · have : d.testBit i = false :=
      Nat.testBit_lt_two_pow (hd.trans_le (Nat.pow_le_pow_right (by decide) hi))
    simp [this]
  · simp [hi]

/-- The low `k` bits go through `k` steps on their own, and the others move down. -/
theorem iterate_mulX_split (k f : Nat) :
    (mulX p)^[k] f = (mulX p)^[k] (f % 2 ^ k) ^^^ (f >>> k) := by
  have hsplit : f = f % 2 ^ k ^^^ ((f >>> k) <<< k) := by
    rw [ofDigits_split k _ _ (Nat.mod_lt _ (Nat.two_pow_pos k)), Nat.shiftRight_eq_div_pow,
      Nat.mod_add_div]
  conv_lhs => rw [hsplit]
  rw [iterate_mulX_xor, iterate_mulX_shiftLeft]

theorem feed_append (w f : Nat) (xs ys : List Nat) :
    feed p w f (xs ++ ys) = feed p w (feed p w f xs) ys :=
  List.foldl_append

/-- Taking in the digits one at a time is taking in the whole word at once. -/
theorem feed_eq_iterate (w f : Nat) (ds : List Nat) :
    feed p w f ds = (mulX p)^[w * ds.length] (f ^^^ ofDigits w ds) := by
  induction ds generalizing f with
  | nil => simp [feed, ofDigits]
  | cons d ds ih =>
    have hlen : w * (d :: ds).length = w * ds.length + w := by
      rw [List.length_cons, Nat.mul_succ]
    calc feed p w f (d :: ds)
        = feed p w ((mulX p)^[w] (f ^^^ d)) ds := rfl
      _ = (mulX p)^[w * ds.length] ((mulX p)^[w] (f ^^^ d) ^^^ ofDigits w ds) := ih _
      _ = (mulX p)^[w * ds.length] ((mulX p)^[w] (f ^^^ ofDigits w (d :: ds))) := by
          rw [ofDigits, ← Nat.xor_assoc, iterate_mulX_xor w (f ^^^ d), iterate_mulX_shiftLeft]
      _ = (mulX p)^[w * (d :: ds).length] (f ^^^ ofDigits w (d :: ds)) := by
          rw [hlen, Function.iterate_add_apply]

theorem mulX_lt {n f : Nat} (hp : p < 2 ^ n) (hf : f < 2 ^ n) : mulX p f < 2 ^ n := by
  apply Nat.xor_lt_two_pow
  · split
    · exact hp
    · exact Nat.two_pow_pos n
  · exact (Nat.shiftRight_le f 1).trans_lt hf

theorem iterate_mulX_lt {n f : Nat} (hp : p < 2 ^ n) (hf : f < 2 ^ n) (k : Nat) :
    (mulX p)^[k] f < 2 ^ n := by
  induction k with
  | zero => exact hf
  | succ k ih => rw [Function.iterate_succ_apply']; exact mulX_lt hp ih

end Bits

section Algebra

open Polynomial Finset

/-- The polynomial of a word of `n` bits. -/
noncomputable def toPoly (n w : Nat) : (ZMod 2)[X] :=
  ∑ i ∈ range n, if w.testBit i then X ^ (n - 1 - i) else 0

/-- `X ^ n` plus the polynomial of the tail. -/
noncomputable def modulus (n p : Nat) : (ZMod 2)[X] := X ^ n + toPoly n p

/-- The polynomial of a digit string, the first digit highest. -/
noncomputable def message (w : Nat) : List Nat → (ZMod 2)[X]
  | [] => 0
  | d :: ds => toPoly w d * X ^ (w * ds.length) + message w ds

theorem toPoly_xor (n a b : Nat) : toPoly n (a ^^^ b) = toPoly n a + toPoly n b := by
  rw [toPoly, toPoly, toPoly, ← sum_add_distrib]
  apply sum_congr rfl
  intro i _
  rw [Nat.testBit_xor]
  cases a.testBit i <;> cases b.testBit i <;> simp [CharTwo.add_self_eq_zero]

@[simp]
theorem toPoly_zero (n : Nat) : toPoly n 0 = 0 := by simp [toPoly]

theorem degree_toPoly_lt (n w : Nat) : (toPoly n w).degree < n := by
  rw [← mem_degreeLT]
  apply Submodule.sum_mem
  intro i hi
  have hi : i < n := mem_range.mp hi
  split
  · rw [mem_degreeLT]
    exact lt_of_le_of_lt (degree_X_pow_le _) (by exact_mod_cast (by omega : n - 1 - i < n))
  · exact zero_mem _

theorem modulus_monic (n p : Nat) : (modulus n p).Monic :=
  monic_X_pow_add (degree_toPoly_lt n p)

theorem degree_modulus (n p : Nat) : (modulus n p).degree = n := by
  rw [modulus, degree_add_eq_left_of_degree_lt, degree_X_pow]
  simpa using degree_toPoly_lt n p

/-- A word that is short of the full width stands for a multiple of a power of `X`. -/
theorem toPoly_of_lt {n w d : Nat} (hw : w ≤ n) (hd : d < 2 ^ w) :
    toPoly n d = X ^ (n - w) * toPoly w d := by
  obtain ⟨k, rfl⟩ := Nat.exists_eq_add_of_le hw
  have hhigh : ∀ i, d.testBit (w + i) = false := fun i =>
    Nat.testBit_lt_two_pow (hd.trans_le (Nat.pow_le_pow_right (by decide) (by omega)))
  rw [toPoly, sum_range_add, toPoly, mul_sum, sum_eq_zero (s := range k), add_zero]
  · apply sum_congr rfl
    intro i hi
    have hi : i < w := mem_range.mp hi
    cases d.testBit i
    · simp
    · simp only [if_true, ← pow_add]
      congr 1
      omega
  · intro i _
    simp [hhigh]

/-- Multiplication by `X` is a shift, with the modulus taken off when a bit falls out. -/
theorem X_mul_toPoly {n p f : Nat} (hf : f < 2 ^ n) :
    X * toPoly n f = toPoly n (mulX p f) + if f.testBit 0 then modulus n p else 0 := by
  cases n with
  | zero =>
    obtain rfl : f = 0 := by simpa using hf
    simp [toPoly]
  | succ m =>
    have htop : f.testBit (1 + m) = false := Nat.testBit_lt_two_pow (by rwa [add_comm])
    have hshift : X * toPoly (m + 1) f
        = toPoly (m + 1) (f >>> 1) + if f.testBit 0 then X ^ (m + 1) else 0 := by
      rw [toPoly, toPoly, mul_sum, sum_range_succ', sum_range_succ (n := m)]
      simp only [Nat.testBit_shiftRight, htop, Bool.false_eq_true, if_false, add_zero]
      congr 1
      · apply sum_congr rfl
        intro i hi
        have hi : i < m := mem_range.mp hi
        rw [add_comm 1 i]
        cases f.testBit (i + 1)
        · simp
        · simp only [if_true, ← pow_succ']
          congr 1
          omega
      · cases f.testBit 0
        · simp
        · simp [← pow_succ']
    rw [hshift, mulX, toPoly_xor, modulus]
    cases f.testBit 0
    · simp
    · -- The tail is added twice, by the step and by the modulus.
      simp only [if_true]
      rw [add_comm (X ^ (m + 1)), ← add_assoc, add_right_comm (toPoly _ p),
        CharTwo.add_self_eq_zero, zero_add]

variable {n p : Nat}

variable {f : Nat}

/-- In the ring of remainders a step is a multiplication by the root. -/
theorem mk_mulX (hf : f < 2 ^ n) :
    AdjoinRoot.mk (modulus n p) (toPoly n (mulX p f))
      = AdjoinRoot.root (modulus n p) * AdjoinRoot.mk (modulus n p) (toPoly n f) := by
  have hmod : AdjoinRoot.mk (modulus n p) (if f.testBit 0 then modulus n p else 0) = 0 := by
    split <;> simp
  rw [← AdjoinRoot.mk_X, ← map_mul, X_mul_toPoly (p := p) hf, map_add, hmod, add_zero]

theorem mk_iterate_mulX (hp : p < 2 ^ n) (hf : f < 2 ^ n) (k : Nat) :
    AdjoinRoot.mk (modulus n p) (toPoly n ((mulX p)^[k] f))
      = AdjoinRoot.root (modulus n p) ^ k * AdjoinRoot.mk (modulus n p) (toPoly n f) := by
  induction k with
  | zero => simp
  | succ k ih =>
    rw [Function.iterate_succ_apply', mk_mulX (iterate_mulX_lt hp hf k), ih, pow_succ', mul_assoc]

theorem mk_feed (hp : p < 2 ^ n) {w : Nat} (hw : w ≤ n) (hf : f < 2 ^ n)
    {ds : List Nat} (hds : ∀ d ∈ ds, d < 2 ^ w) :
    AdjoinRoot.mk (modulus n p) (toPoly n (feed p w f ds))
      = AdjoinRoot.mk (modulus n p)
          (X ^ (w * ds.length) * toPoly n f + X ^ n * message w ds) := by
  induction ds generalizing f with
  | nil => simp [feed, message]
  | cons d ds ih =>
    have hd : d < 2 ^ w := hds d List.mem_cons_self
    have hsum : f ^^^ d < 2 ^ n :=
      Nat.xor_lt_two_pow hf (hd.trans_le (Nat.pow_le_pow_right (by decide) hw))
    have hlen : w * (d :: ds).length = w * ds.length + w := by
      rw [List.length_cons, Nat.mul_succ]
    have hstep : feed p w f (d :: ds) = feed p w ((mulX p)^[w] (f ^^^ d)) ds := rfl
    -- The digit enters below the register's top, `w` steps short of the modulus' degree.
    have hsplit : (X : (ZMod 2)[X]) ^ n = X ^ w * X ^ (n - w) := by
      rw [← pow_add, Nat.add_sub_cancel' hw]
    rw [hstep, ih (iterate_mulX_lt hp hsum w) fun e he => hds e (List.mem_cons_of_mem _ he),
      map_add, map_mul, mk_iterate_mulX hp hsum w, ← AdjoinRoot.mk_X, ← map_pow, ← map_mul,
      ← map_mul, ← map_add, toPoly_xor, toPoly_of_lt hw hd, hlen, message, pow_add, hsplit]
    apply congrArg (AdjoinRoot.mk (modulus n p))
    ring

/-- **What a register computes.** After the digits `ds` it holds the remainder of the message they
spell, moved up by the register's width, plus the initial value moved up by the message's length. -/
theorem toPoly_feed (hp : p < 2 ^ n) {w : Nat} (hw : w ≤ n) (hf : f < 2 ^ n)
    {ds : List Nat} (hds : ∀ d ∈ ds, d < 2 ^ w) :
    toPoly n (feed p w f ds)
      = (X ^ (w * ds.length) * toPoly n f + X ^ n * message w ds) %ₘ modulus n p := by
  have hreduced : toPoly n (feed p w f ds) %ₘ modulus n p = toPoly n (feed p w f ds) := by
    rw [modByMonic_eq_self_iff (modulus_monic n p), degree_modulus]
    exact degree_toPoly_lt n _
  rw [← hreduced]
  apply modByMonic_eq_of_dvd_sub (modulus_monic n p)
  exact AdjoinRoot.mk_eq_mk.mp (mk_feed hp hw hf hds)

end Algebra

end Rsl.Lib.Remainder
