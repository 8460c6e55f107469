import Rsl.Lib.Remainder
import Rsl.Wire.Fprint

/-!
# The C++ fingerprint and its Rust port

`msn_fprint.cpp`: the tables as `initbybyte` fills them in place, and `msn_fprint_of` with its three
phases, which depend on the address of the data and on the byte order of the machine. A table is a
function from indices to words, and what `malloc` left in it before is arbitrary.

Both implementations look up the same function of an index, eight (or sixteen, and so on) steps of
the remainder register, so each of their loops is a way to take in a byte string
(`Rsl.Lib.Remainder.feed`), and the fingerprint is a remainder modulo the fixed polynomial of
degree 64.
-/

set_option autoImplicit false

namespace Rsl.Fingerprint

open Lib.Remainder List
open Wire (Bytes leNat poly)

/-- `msn_fprint_data_s`. -/
structure FprintData where
  empty : Nat
  bybyte : Nat → Nat → Nat
  bybyteR : Nat → Nat → Nat

/-- `BYTESWAP_FP`. -/
def byteswapFp (x : Nat) : Nat :=
  (x <<< 56) % 18446744073709551616 ||| (x >>> 56) |||
    ((x &&& 0x0000ff00) <<< 40) ||| ((x >>> 40) &&& 0x0000ff00) |||
    ((x &&& 0x00ff0000) <<< 24) ||| ((x >>> 24) &&& 0x00ff0000) |||
    ((x &&& 0xff000000) <<< 8) ||| ((x >>> 8) &&& 0xff000000)

/-- `for (i = 0x80; i != 0; i >>= 1)`: the single-bit entries of a row, and the next power. -/
def setPowers (poly : Nat) (row : Nat → Nat) (f : Nat) : (Nat → Nat) × Nat :=
  [0x80, 0x40, 0x20, 0x10, 8, 4, 2, 1].foldl
    (fun (row, f) i => (Function.update row i f, (if f &&& 1 = 1 then poly else 0) ^^^ (f >>> 1)))
    (row, f)

/-- The inner loop `for (k = 1; k != i; k++)`, for the first `n` values of `k`. -/
def addPower (row : Nat → Nat) (i n : Nat) : Nat → Nat :=
  (range' 1 n).foldl (fun row' k => Function.update row' (i + k) (row i ^^^ row' k)) row

/-- `for (i = 1; i != 256; i <<= 1)`: the other entries, each the sum of two earlier ones. -/
def setSums (row : Nat → Nat) : Nat → Nat :=
  [1, 2, 4, 8, 16, 32, 64, 128].foldl (fun row i => addPower row i (i - 1)) row

/-- `initbybyte`, up to row `rows`, from what the memory holds. -/
def initbybyte (poly : Nat) (memory : Nat → Nat → Nat) (rows : Nat) : (Nat → Nat → Nat) × Nat :=
  (range rows).foldl
    (fun (bybyte, f) b =>
      let (row, f') := setPowers poly (Function.update (bybyte b) 0 0) f
      (Function.update bybyte b (setSums row), f'))
    (memory, poly)

/-- `msn_fprint_init`, on freshly allocated memory. -/
def msnFprintInit (memory : Nat → Nat → Nat) : FprintData :=
  let bybyte := (initbybyte poly memory 8).1
  { empty := poly
    bybyte := bybyte
    bybyteR := fun i j => byteswapFp (bybyte i j) }

/-- `init = (init >> 8) ^ fp->bybyte[0][(init & 0xff) ^ *p++]`. -/
def byteStep (fp : FprintData) (init : Nat) (byte : UInt8) : Nat :=
  (init >>> 8) ^^^ fp.bybyte 0 ((init &&& 0xff) ^^^ byte.toNat)

/-- The lookups of the little-endian loop, with the highest table for the lowest byte. -/
def sliceLittle (table : Nat → Nat → Nat) (init : Nat) : Nat :=
  table 7 (init &&& 0xff) ^^^ table 6 ((init >>> 8) &&& 0xff) ^^^
    table 5 ((init >>> 16) &&& 0xff) ^^^ table 4 ((init >>> 24) &&& 0xff) ^^^
    table 3 ((init >>> 32) &&& 0xff) ^^^ table 2 ((init >>> 40) &&& 0xff) ^^^
    table 1 ((init >>> 48) &&& 0xff) ^^^ table 0 (init >>> 56)

/-- The lookups of the big-endian loop, with the lowest table for the lowest byte. -/
def sliceBig (table : Nat → Nat → Nat) (init : Nat) : Nat :=
  table 0 (init &&& 0xff) ^^^ table 1 ((init >>> 8) &&& 0xff) ^^^
    table 2 ((init >>> 16) &&& 0xff) ^^^ table 3 ((init >>> 24) &&& 0xff) ^^^
    table 4 ((init >>> 32) &&& 0xff) ^^^ table 5 ((init >>> 40) &&& 0xff) ^^^
    table 6 ((init >>> 48) &&& 0xff) ^^^ table 7 (init >>> 56)

/-- `while (p != e && (((ptrdiff_t) p) & 7L) != 0)`. -/
def alignPhase (fp : FprintData) (p init : Nat) : Bytes → Nat × Bytes
  | [] => (init, [])
  | b :: bs => if p % 8 = 0 then (init, b :: bs) else alignPhase fp (p + 1) (byteStep fp init b) bs

/-- The little-endian `while (p+8 <= e)`. -/
def littlePhase (fp : FprintData) (init : Nat) : Bytes → Nat × Bytes
  | b0 :: b1 :: b2 :: b3 :: b4 :: b5 :: b6 :: b7 :: rest =>
    littlePhase fp
      (sliceLittle fp.bybyte (init ^^^ leNat [b0, b1, b2, b3, b4, b5, b6, b7])) rest
  | rest => (init, rest)

/-- The big-endian `while (p+16 <= e)` on byte-swapped values, then the last word, whose lookups
swap back. A word is loaded with its first byte highest. -/
def bigPhase (fp : FprintData) (init : Nat) : Bytes → Nat × Bytes
  | b0 :: b1 :: b2 :: b3 :: b4 :: b5 :: b6 :: b7 :: rest =>
    let init := init ^^^ leNat [b7, b6, b5, b4, b3, b2, b1, b0]
    if 8 ≤ rest.length then bigPhase fp (sliceBig fp.bybyteR init) rest
    else (sliceBig fp.bybyte init, rest)
  | rest => (init, rest)

/-- The byte order of the machine, `MSN_ENDIAN_LITTLE`. -/
inductive Endian where
  | little
  | big
  deriving DecidableEq, Repr

/-- `msn_fprint_of` on the bytes at address `p`. -/
def msnFprintOf (endian : Endian) (fp : FprintData) (init p : Nat) (data : Bytes) : Nat :=
  let (init, data) := alignPhase fp p init data
  let (init, data) := match endian with
    | .little => littlePhase fp init data
    | .big => if 8 ≤ data.length then bigPhase fp (byteswapFp init) data else (init, data)
  data.foldl (byteStep fp) init

/-! ### The tables -/

/-- `i * X^(64 + 8*b)` for the fixed polynomial, in the words of the source. -/
def power (b i : Nat) : Nat := (mulX poly)^[8 * (b + 1)] i

theorem power_xor (b i k : Nat) : power b (i ^^^ k) = power b i ^^^ power b k :=
  iterate_mulX_xor _ i k

/-- A set bit of the index gives a power of `X` alone. -/
theorem power_two_pow {b j : Nat} (hj : j < 8) :
    power b (2 ^ j) = (mulX poly)^[8 * b + (7 - j)] poly := by
  rw [← iterate_mulX_two_pow (8 * b + (7 - j)) j, power]
  congr 1
  omega

theorem nextPower_eq (p f : Nat) :
    (if f &&& 1 = 1 then p else 0) ^^^ (f >>> 1) = mulX p f := by
  have hbit : (f &&& 1 = 1) ↔ f.testBit 0 = true := by
    rw [Nat.and_one_is_mod, Nat.testBit_zero, decide_eq_true_iff]
  simp only [mulX, hbit]

/-- The inner loop writes the entries above `i` and reads only those up to `i`. -/
theorem addPower_apply (row : Nat → Nat) {i n : Nat} (hn : n < i) (m : Nat) :
    addPower row i n m = if i < m ∧ m ≤ i + n then row i ^^^ row (m - i) else row m := by
  induction n generalizing m with
  | zero => simp [addPower]
  | succ n ih =>
    have hn' : n < i := Nat.lt_of_succ_lt hn
    have hstep : addPower row i (n + 1)
        = Function.update (addPower row i n) (i + (1 + n))
            (row i ^^^ addPower row i n (1 + n)) := by
      simp [addPower, range'_1_concat]
    rw [hstep]
    by_cases hm : m = i + (1 + n)
    · -- The entry written last: `1 + n` is below `i`, where the row is as it was.
      subst hm
      have hlow : ¬ (i < 1 + n ∧ 1 + n ≤ i + n) := by omega
      rw [Function.update_self, ih hn', if_neg hlow, if_pos (by omega)]
      simp
    · rw [Function.update_of_ne hm, ih hn']
      by_cases hmem : i < m ∧ m ≤ i + n
      · rw [if_pos hmem, if_pos (by omega)]
      · rw [if_neg hmem, if_neg (by omega)]

/-- The outer loop completes a row whose single-bit entries are those of a linear function. -/
theorem foldl_addPower {row L : Nat → Nat} (hzero : row 0 = L 0)
    (hL : ∀ i k, L (i ^^^ k) = L i ^^^ L k) {n : Nat} (hrow : ∀ j < n, row (2 ^ j) = L (2 ^ j))
    {j : Nat} (hj : j ≤ n) :
    let row' := ((range j).map (2 ^ ·)).foldl (fun row i => addPower row i (i - 1)) row
    (∀ m < 2 ^ j, row' m = L m) ∧ ∀ m, 2 ^ j ≤ m → row' m = row m := by
  induction j with
  | zero =>
    refine ⟨fun m hm => ?_, fun m _ => rfl⟩
    obtain rfl : m = 0 := by simpa using hm
    exact hzero
  | succ j ih =>
    obtain ⟨hlow, hhigh⟩ := ih (Nat.le_of_succ_le hj)
    rw [range_succ, map_append, foldl_append]
    generalize ((range j).map (2 ^ ·)).foldl (fun row i => addPower row i (i - 1)) row = row'
      at hlow hhigh
    have hpos : 0 < 2 ^ j := Nat.two_pow_pos j
    have hdouble : 2 ^ (j + 1) = 2 ^ j + 2 ^ j := by rw [pow_succ, Nat.mul_two]
    have hbit : row' (2 ^ j) = L (2 ^ j) := by rw [hhigh _ le_rfl, hrow j hj]
    simp only [map_cons, map_nil, foldl_cons, foldl_nil,
      addPower_apply row' (Nat.sub_lt hpos Nat.one_pos)]
    constructor
    · intro m hm
      by_cases hmem : 2 ^ j < m ∧ m ≤ 2 ^ j + (2 ^ j - 1)
      · -- `m` is `2 ^ j` and a smaller index, with no bit in common.
        have hrest : m - 2 ^ j < 2 ^ j := by omega
        have hxor : 2 ^ j ^^^ (m - 2 ^ j) = m := by
          have := ofDigits_split j (m - 2 ^ j) 1 hrest
          rw [Nat.one_shiftLeft, Nat.xor_comm] at this
          omega
        rw [if_pos hmem, hbit, hlow _ hrest, ← hL, hxor]
      · rw [if_neg hmem]
        by_cases heq : m = 2 ^ j
        · rw [heq, hbit]
        · exact hlow m (by omega)
    · intro m hm
      rw [if_neg (by omega), hhigh m (by omega)]

theorem setSums_eq {row L : Nat → Nat} (hzero : row 0 = L 0)
    (hL : ∀ i k, L (i ^^^ k) = L i ^^^ L k) (hrow : ∀ j < 8, row (2 ^ j) = L (2 ^ j))
    {m : Nat} (hm : m < 256) : setSums row m = L m :=
  (foldl_addPower hzero hL hrow (le_refl 8)).1 m hm

/-- The single-bit entries hold consecutive powers, the highest bit the first. -/
theorem setPowers_eq (p : Nat) (row : Nat → Nat) (f : Nat) :
    (setPowers p row f).2 = (mulX p)^[8] f ∧
    (setPowers p row f).1 0 = row 0 ∧
    ∀ j < 8, (setPowers p row f).1 (2 ^ j) = (mulX p)^[7 - j] f := by
  simp only [setPowers, foldl_cons, foldl_nil, nextPower_eq]
  refine ⟨rfl, rfl, fun j hj => ?_⟩
  interval_cases j <;> rfl

/-- **The tables.** Row `b` of the C++ tables holds every byte times `X ^ (64 + 8 * b)`. -/
theorem initbybyte_eq (memory : Nat → Nat → Nat) (rows : Nat) :
    (initbybyte poly memory rows).2 = (mulX poly)^[8 * rows] poly ∧
    ∀ b < rows, ∀ i < 256, (initbybyte poly memory rows).1 b i = power b i := by
  induction rows with
  | zero => exact ⟨rfl, fun b hb => absurd hb (Nat.not_lt_zero b)⟩
  | succ n ih =>
    obtain ⟨hf, htable⟩ := ih
    rw [initbybyte, range_succ, foldl_append] at *
    generalize (range n).foldl _ _ = state at hf htable ⊢
    obtain ⟨bybyte, f⟩ := state
    obtain rfl : f = (mulX poly)^[8 * n] poly := hf
    obtain ⟨hnext, hzero, hbits⟩ :=
      setPowers_eq poly (Function.update (bybyte n) 0 0) ((mulX poly)^[8 * n] poly)
    simp only [foldl_cons, foldl_nil]
    constructor
    · rw [hnext, ← Function.iterate_add_apply]
      congr 1
      omega
    · intro b hb i hi
      by_cases hbn : b = n
      · subst hbn
        rw [Function.update_self]
        refine setSums_eq ?_ (power_xor b) (fun j hj => ?_) hi
        · rw [hzero, Function.update_self, power, iterate_mulX_zero]
        · rw [hbits j hj, power_two_pow hj, add_comm, Function.iterate_add_apply]
      · rw [Function.update_of_ne hbn]
        exact htable b (by omega) i hi

section RustTables

open Wire

theorem powersFrom_eq (n f : Nat) :
    powersFrom n f = ((range n).map ((mulX poly)^[·] f), (mulX poly)^[n] f) := by
  induction n generalizing f with
  | zero => rfl
  | succ n ih =>
    simp only [powersFrom, ih, nextPower, nextPower_eq, range_succ_eq_map, map_cons,
      map_map, Function.iterate_succ_apply, Function.iterate_zero_apply]
    rfl

/-- Doubling the row once for each bit lists a linear function. -/
theorem foldl_double {L : Nat → Nat} (hzero : L 0 = 0) (hL : ∀ i k, L (i ^^^ k) = L i ^^^ L k)
    (n : Nat) :
    ((range n).map (L <| 2 ^ ·)).foldl (fun row xf => row ++ row.map (xf ^^^ ·)) [0]
      = (range (2 ^ n)).map L := by
  induction n with
  | zero => simp [hzero]
  | succ n ih =>
    have hupper : ∀ k ∈ range (2 ^ n), L (2 ^ n) ^^^ L k = L (2 ^ n + k) := by
      intro k hk
      have hsplit := ofDigits_split n k 1 (mem_range.mp hk)
      rw [Nat.one_shiftLeft, mul_one, Nat.xor_comm, add_comm] at hsplit
      rw [← hL, hsplit]
    rw [range_succ, map_append, foldl_append, ih, pow_succ, Nat.mul_two,
      range_add, map_append, map_map]
    simp only [map_cons, map_nil, foldl_cons, foldl_nil, map_map]
    congr 1
    exact map_congr_left hupper

theorem tableOf_powersFrom (b : Nat) :
    tableOf (powersFrom 8 ((mulX poly)^[8 * b] poly)).1 = (range 256).map (power b) := by
  have hzero : power b 0 = 0 := iterate_mulX_zero _
  rw [show 256 = 2 ^ 8 from rfl, ← foldl_double hzero (power_xor b) 8, tableOf, powersFrom_eq]
  congr 1
  -- Bit `j` has the power that stands at place `7 - j` of the eight.
  apply ext_getElem
  · simp
  · intro j hj _
    have hj : j < 8 := by simpa using hj
    simp only [getElem_reverse, getElem_map, getElem_range, length_map, length_range]
    rw [power_two_pow hj, add_comm, Function.iterate_add_apply]

theorem tablesFrom_eq (n b : Nat) :
    tablesFrom n ((mulX poly)^[8 * b] poly)
      = (range n).map fun i => (range 256).map (power (b + i)) := by
  induction n generalizing b with
  | zero => rfl
  | succ n ih =>
    have hnext : (powersFrom 8 ((mulX poly)^[8 * b] poly)).2 = (mulX poly)^[8 * (b + 1)] poly := by
      rw [powersFrom_eq, ← Function.iterate_add_apply, Nat.mul_succ, add_comm]
    have hrest : ∀ i, b + 1 + i = b + (i + 1) := by omega
    rw [range_succ_eq_map (n := n), map_cons, map_map, add_zero, ← tableOf_powersFrom]
    simp only [tablesFrom, hnext, ih, hrest]
    rfl

/-- The Rust tables hold the same entries. -/
theorem byteEntry_eq {b i : Nat} (hb : b < 8) (hi : i < 256) : byteEntry b i = power b i := by
  have htables : bybyte = (range 8).map fun i => (range 256).map (power (0 + i)) :=
    tablesFrom_eq 8 0
  simp only [byteEntry, htables, getD_eq_getElem?_getD, getElem?_map,
    getElem?_range hb, Option.map_some, Option.getD_some, getElem?_range hi, zero_add]

end RustTables

/-! ### The loops -/

/-- The register over a byte string: what every loop below computes. -/
def absorb (init : Nat) (data : Bytes) : Nat := feed poly 8 init (data.map UInt8.toNat)

theorem poly_lt : poly < 2 ^ 64 := by decide

theorem absorb_append (init : Nat) (x y : Bytes) :
    absorb init (x ++ y) = absorb (absorb init x) y := by
  rw [absorb, map_append, feed_append]
  rfl

theorem ofDigits_eq_leNat (data : Bytes) : ofDigits 8 (data.map UInt8.toNat) = leNat data := by
  induction data with
  | nil => rfl
  | cons b bs ih => rw [map_cons, ofDigits, ih, ofDigits_split _ _ _ b.toNat_lt]; rfl

theorem absorb_eq_iterate (init : Nat) (data : Bytes) :
    absorb init data = (mulX poly)^[8 * data.length] (init ^^^ leNat data) := by
  rw [absorb, feed_eq_iterate, ofDigits_eq_leNat, length_map]

variable {init : Nat} {x : Nat} {table : Nat → Nat → Nat} {r : Nat × Bytes}

/-- The register stays a word when it starts as one. -/
theorem absorb_lt (hinit : init < 2 ^ 64) (data : Bytes) :
    absorb init data < 2 ^ 64 := by
  induction data generalizing init with
  | nil => exact hinit
  | cons b bs ih =>
    apply ih
    apply iterate_mulX_lt poly_lt
    exact Nat.xor_lt_two_pow hinit (b.toNat_lt.trans (by decide))

/-- Tables that hold the powers, wherever an index can point. -/
def HoldsPowers (table : Nat → Nat → Nat) : Prop := ∀ b < 8, ∀ i < 256, table b i = power b i

theorem holdsPowers_bybyte (memory : Nat → Nat → Nat) :
    HoldsPowers (msnFprintInit memory).bybyte :=
  (initbybyte_eq memory 8).2

theorem holdsPowers_byteEntry : HoldsPowers Wire.byteEntry := fun _ hb _ hi => byteEntry_eq hb hi

theorem and_ff_lt (x : Nat) : x &&& 0xff < 256 := Nat.lt_succ_of_le Nat.and_le_right

theorem and_ff_eq_mod (x : Nat) : x &&& 0xff = x % 2 ^ 8 := Nat.and_two_pow_sub_one_eq_mod x 8

/-- The lookup for one byte is eight steps of the register. -/
theorem lookup_byte (h : HoldsPowers table) (init : Nat) (b : UInt8) :
    (init >>> 8) ^^^ table 0 ((init &&& 0xff) ^^^ b.toNat) = absorb init [b] := by
  have hb : b.toNat < 2 ^ 8 := b.toNat_lt
  have hindex : (init ^^^ b.toNat) % 2 ^ 8 = (init &&& 0xff) ^^^ b.toNat := by
    rw [and_ff_eq_mod, Nat.xor_mod_two_pow, Nat.mod_eq_of_lt hb]
  have hrest : (init ^^^ b.toNat) >>> 8 = init >>> 8 := by
    rw [Nat.shiftRight_xor_distrib, Nat.shiftRight_eq_div_pow b.toNat, Nat.div_eq_of_lt hb,
      Nat.xor_zero]
  have habsorb : absorb init [b] = (mulX poly)^[8] (init ^^^ b.toNat) := rfl
  rw [habsorb, iterate_mulX_split 8, hindex, hrest, Nat.xor_comm,
    h 0 (by decide) _ (Nat.xor_lt_two_pow (n := 8) (and_ff_lt init) hb)]
  rfl

/-- The lowest byte of a word goes on alone. -/
theorem power_succ (b x : Nat) :
    power (b + 1) x = power (b + 1) (x &&& 0xff) ^^^ power b (x >>> 8) := by
  rw [power, Nat.mul_succ 8 (b + 1), Function.iterate_add_apply, iterate_mulX_split 8,
    iterate_mulX_xor, ← Function.iterate_add_apply, and_ff_eq_mod]
  rfl

/-- Eight lookups are sixty-four steps of the register. -/
theorem sliceLittle_eq (h : HoldsPowers table)
    (hx : x < 2 ^ 64) : sliceLittle table x = (mulX poly)^[64] x := by
  have htop : x >>> 56 < 256 := by
    rw [Nat.shiftRight_eq_div_pow]
    omega
  have hslices : sliceLittle power x = power 7 x := by
    rw [power_succ 6 x, power_succ 5, power_succ 4, power_succ 3, power_succ 2, power_succ 1,
      power_succ 0]
    simp only [← Nat.shiftRight_add, Nat.reduceAdd, ← Nat.xor_assoc]
    rfl
  have hbyte : ∀ b < 8, ∀ y, table b (y &&& 0xff) = power b (y &&& 0xff) :=
    fun b hb y => h b hb _ (and_ff_lt y)
  rw [show (mulX poly)^[64] x = power 7 x from rfl, ← hslices]
  simp (disch := decide) only [sliceLittle, hbyte, h 0 (by decide) _ htop]

/-- `BYTESWAP_FP` moves byte `i / 8` to the opposite end. -/
theorem testBit_byteswapFp (hx : x < 2 ^ 64) {i : Nat} (hi : i < 64) :
    (byteswapFp x).testBit i = x.testBit (8 * (7 - i / 8) + i % 8) := by
  have h64 : (18446744073709551616 : Nat) = 2 ^ 64 := rfl
  have hmask : ∀ k j, ((2 ^ 8 - 1) <<< k).testBit j = (decide (k ≤ j) && decide (j - k < 8)) :=
    fun k j => by rw [Nat.testBit_shiftLeft, Nat.testBit_two_pow_sub_one]
  have hhigh : ∀ k, 64 ≤ k → x.testBit k = false := fun k hk =>
    Nat.testBit_lt_two_pow (hx.trans_le (Nat.pow_le_pow_right (by decide) hk))
  simp only [byteswapFp, h64, Nat.testBit_or, Nat.testBit_mod_two_pow, Nat.testBit_shiftLeft,
    Nat.testBit_shiftRight, Nat.testBit_and, show 0xff00 = (2 ^ 8 - 1) <<< 8 from rfl,
    show 0xff0000 = (2 ^ 8 - 1) <<< 16 from rfl, show 0xff000000 =
      (2 ^ 8 - 1) <<< 24 from rfl, hmask]
  -- One of the eight terms has the bit: which one is a matter of the place.
  interval_cases i <;> simp [hhigh]

theorem byteswapFp_lt (hx : x < 2 ^ 64) : byteswapFp x < 2 ^ 64 := by
  have hright : ∀ k, x >>> k < 2 ^ 64 := fun k => (Nat.shiftRight_le x k).trans_lt hx
  have hmask : ∀ k m, (x >>> k) &&& m < 2 ^ 64 := fun k m =>
    Nat.and_le_left.trans_lt (hright k)
  have hleft : ∀ m k, m <<< k < 2 ^ 64 → (x &&& m) <<< k < 2 ^ 64 := fun m k h => by
    refine lt_of_le_of_lt ?_ h
    simp only [Nat.shiftLeft_eq]
    exact Nat.mul_le_mul_right _ Nat.and_le_right
  refine Nat.or_lt_two_pow (Nat.or_lt_two_pow (Nat.or_lt_two_pow (Nat.or_lt_two_pow
    (Nat.or_lt_two_pow (Nat.or_lt_two_pow (Nat.or_lt_two_pow ?_ (hright 56)) ?_) (hmask 40 _)) ?_)
    (hmask 24 _)) ?_) (hmask 8 _)
  · exact Nat.mod_lt _ (by decide)
  all_goals exact hleft _ _ (by decide)

theorem byteswapFp_xor {x y : Nat} (hx : x < 2 ^ 64) (hy : y < 2 ^ 64) :
    byteswapFp (x ^^^ y) = byteswapFp x ^^^ byteswapFp y := by
  have hxy := Nat.xor_lt_two_pow hx hy
  have hlt := byteswapFp_lt hxy
  have hlt' := Nat.xor_lt_two_pow (byteswapFp_lt hx) (byteswapFp_lt hy)
  apply Nat.eq_of_testBit_eq
  intro i
  by_cases hi : i < 64
  · simp only [Nat.testBit_xor, testBit_byteswapFp hxy hi, testBit_byteswapFp hx hi,
      testBit_byteswapFp hy hi]
  · have hpow : 2 ^ 64 ≤ 2 ^ i := Nat.pow_le_pow_right (by decide) (by omega)
    rw [Nat.testBit_lt_two_pow (hlt.trans_le hpow), Nat.testBit_lt_two_pow (hlt'.trans_le hpow)]

theorem byte_byteswapFp (hx : x < 2 ^ 64) {k : Nat} (hk : k < 8) :
    (byteswapFp x >>> (8 * k)) &&& 0xff = (x >>> (8 * (7 - k))) &&& 0xff := by
  apply Nat.eq_of_testBit_eq
  intro i
  simp only [and_ff_eq_mod, Nat.testBit_mod_two_pow, Nat.testBit_shiftRight]
  by_cases hi : i < 8
  · rw [testBit_byteswapFp hx (by omega)]
    congr 2
    omega
  · simp [hi]

theorem testBit_leNat (data : Bytes) (i : Nat) :
    (leNat data).testBit i = (data.getD (i / 8) 0).toNat.testBit (i % 8) := by
  induction data generalizing i with
  | nil => simp [leNat]
  | cons b bs ih =>
    have hsplit : leNat (b :: bs) = 2 ^ 8 * leNat bs + b.toNat := add_comm _ _
    rw [hsplit, Nat.testBit_two_pow_mul_add _ b.toNat_lt]
    by_cases hi : i < 8
    · rw [if_pos hi, Nat.div_eq_of_lt hi, Nat.mod_eq_of_lt hi]
      rfl
    · obtain ⟨j, rfl⟩ := Nat.exists_eq_add_of_le (le_of_not_gt hi)
      rw [if_neg hi, ih, add_tsub_cancel_left, Nat.add_div_left j (by decide), Nat.add_mod_left]
      rfl

theorem leNat_lt_word (b0 b1 b2 b3 b4 b5 b6 b7 : UInt8) :
    leNat [b0, b1, b2, b3, b4, b5, b6, b7] < 2 ^ 64 :=
  (Wire.leNat_lt _).trans_le (by simp)

/-- A word loaded on a big-endian machine is the byte-swapped one of a little-endian machine. -/
theorem byteswapFp_leNat (b0 b1 b2 b3 b4 b5 b6 b7 : UInt8) :
    byteswapFp (leNat [b0, b1, b2, b3, b4, b5, b6, b7])
      = leNat [b7, b6, b5, b4, b3, b2, b1, b0] := by
  have hlt := byteswapFp_lt (leNat_lt_word b0 b1 b2 b3 b4 b5 b6 b7)
  have hlt' := leNat_lt_word b7 b6 b5 b4 b3 b2 b1 b0
  apply Nat.eq_of_testBit_eq
  intro i
  by_cases hi : i < 64
  · rw [testBit_byteswapFp (leNat_lt_word ..) hi, testBit_leNat, testBit_leNat,
      show (8 * (7 - i / 8) + i % 8) / 8 = 7 - i / 8 by omega,
      show (8 * (7 - i / 8) + i % 8) % 8 = i % 8 by omega]
    have hbyte : i / 8 < 8 := by omega
    generalize i / 8 = k at hbyte
    interval_cases k <;> rfl
  · have hpow : 2 ^ 64 ≤ 2 ^ i := Nat.pow_le_pow_right (by decide) (by omega)
    rw [Nat.testBit_lt_two_pow (hlt.trans_le hpow), Nat.testBit_lt_two_pow (hlt'.trans_le hpow)]

/-- The big-endian lookups on the swapped word are the little-endian ones on the word. -/
theorem sliceBig_byteswapFp (table : Nat → Nat → Nat) (hx : x < 2 ^ 64) :
    sliceBig table (byteswapFp x) = sliceLittle table x := by
  have htop : ∀ y < 2 ^ 64, y >>> 56 = (y >>> 56) &&& 0xff := fun y hy => by
    rw [and_ff_eq_mod, Nat.mod_eq_of_lt]
    rw [Nat.shiftRight_eq_div_pow]
    omega
  have hbyte := fun k (hk : k < 8) => byte_byteswapFp hx hk
  have h0 := hbyte 0 (by decide); have h1 := hbyte 1 (by decide); have h2 := hbyte 2 (by decide)
  have h3 := hbyte 3 (by decide); have h4 := hbyte 4 (by decide); have h5 := hbyte 5 (by decide)
  have h6 := hbyte 6 (by decide); have h7 := hbyte 7 (by decide)
  simp only [mul_zero, Nat.shiftRight_zero, Nat.reduceMul, Nat.reduceSub]
    at h0 h1 h2 h3 h4 h5 h6 h7
  rw [sliceBig, sliceLittle, htop _ (byteswapFp_lt hx), h0, h1, h2, h3, h4, h5, h6, h7, ← htop x hx]
  ac_rfl

/-- What a phase of the loop leaves: the register after the bytes it took, and the bytes left. -/
def Consumes (init : Nat) (data : Bytes) (r : Nat × Bytes) : Prop :=
  ∃ taken, data = taken ++ r.2 ∧ r.1 = absorb init taken

theorem Consumes.refl (init : Nat) (data : Bytes) : Consumes init data (init, data) :=
  ⟨[], rfl, rfl⟩

theorem Consumes.absorb_eq {data : Bytes}
    (h : Consumes init data r) : absorb r.1 r.2 = absorb init data := by
  obtain ⟨taken, hdata, hinit⟩ := h
  rw [hdata, absorb_append, hinit]

theorem Consumes.lt {data : Bytes} (h : Consumes init data r)
    (hinit : init < 2 ^ 64) : r.1 < 2 ^ 64 := by
  obtain ⟨taken, -, hr⟩ := h
  rw [hr]
  exact absorb_lt hinit taken

/-- A phase goes on after some bytes. -/
theorem Consumes.append {taken rest : Bytes}
    (h : Consumes (absorb init taken) rest r) : Consumes init (taken ++ rest) r := by
  obtain ⟨more, hrest, hr⟩ := h
  exact ⟨taken ++ more, by rw [hrest, append_assoc], by rw [hr, absorb_append]⟩

/-- Eight lookups take in eight bytes. -/
theorem sliceLittle_word (h : HoldsPowers table)
    (hinit : init < 2 ^ 64) (b0 b1 b2 b3 b4 b5 b6 b7 : UInt8) :
    sliceLittle table (init ^^^ leNat [b0, b1, b2, b3, b4, b5, b6, b7])
      = absorb init [b0, b1, b2, b3, b4, b5, b6, b7] := by
  rw [sliceLittle_eq h (Nat.xor_lt_two_pow hinit (leNat_lt_word ..)), absorb_eq_iterate]
  rfl

section Phases

variable {fp : FprintData} (hfp : HoldsPowers fp.bybyte)

include hfp

theorem byteStep_eq (init : Nat) (b : UInt8) : byteStep fp init b = absorb init [b] :=
  lookup_byte hfp init b

theorem foldl_byteStep (init : Nat) (data : Bytes) :
    data.foldl (byteStep fp) init = absorb init data := by
  induction data generalizing init with
  | nil => rfl
  | cons b bs ih =>
    rw [foldl_cons, ih, byteStep_eq hfp, ← absorb_append]
    rfl

theorem alignPhase_consumes (p init : Nat) (data : Bytes) :
    Consumes init data (alignPhase fp p init data) := by
  induction data generalizing p init with
  | nil => exact Consumes.refl init []
  | cons b bs ih =>
    rw [alignPhase]
    split
    · exact Consumes.refl init (b :: bs)
    · rw [byteStep_eq hfp]
      exact (ih (p + 1) (absorb init [b])).append

variable {init : Nat}

theorem littlePhase_consumes (hinit : init < 2 ^ 64) (data : Bytes) :
    Consumes init data (littlePhase fp init data) := by
  fun_induction littlePhase fp init data with
  | case1 init b0 b1 b2 b3 b4 b5 b6 b7 rest ih =>
    rw [sliceLittle_word hfp hinit] at ih ⊢
    exact (ih (absorb_lt hinit _)).append
  | case2 init data hshort => exact Consumes.refl init data

theorem bybyte_lt {b i : Nat} (hb : b < 8) (hi : i < 256) : fp.bybyte b i < 2 ^ 64 := by
  rw [hfp b hb i hi]
  exact iterate_mulX_lt poly_lt (hi.trans (by decide)) _

variable (hswap : ∀ i j, fp.bybyteR i j = byteswapFp (fp.bybyte i j))

include hswap

/-- Lookups in the swapped tables give the swapped sum. -/
theorem sliceLittle_swapped {x : Nat} (hx : x < 2 ^ 64) :
    sliceLittle fp.bybyteR x = byteswapFp (sliceLittle fp.bybyte x) := by
  have hentry : ∀ b < 8, ∀ y, fp.bybyte b (y &&& 0xff) < 2 ^ 64 := fun b hb y =>
    bybyte_lt hfp hb (and_ff_lt y)
  have htop : fp.bybyte 0 (x >>> 56) < 2 ^ 64 := by
    apply bybyte_lt hfp (by decide)
    rw [Nat.shiftRight_eq_div_pow]
    omega
  simp only [sliceLittle, hswap]
  rw [byteswapFp_xor _ htop, byteswapFp_xor, byteswapFp_xor, byteswapFp_xor, byteswapFp_xor,
    byteswapFp_xor, byteswapFp_xor]
  all_goals
    repeat' apply Nat.xor_lt_two_pow
    all_goals exact hentry _ (by decide) _

/-- The big-endian loop carries the swapped register and leaves the register itself. -/
theorem bigPhase_consumes (hinit : init < 2 ^ 64) {data : Bytes}
    (hdata : 8 ≤ data.length) : Consumes init data (bigPhase fp (byteswapFp init) data) := by
  generalize hs : byteswapFp init = swapped
  fun_induction bigPhase fp swapped data generalizing init with
  | case1 swapped b0 b1 b2 b3 b4 b5 b6 b7 rest word hrest =>
    rename_i ih
    have hword : word = byteswapFp (init ^^^ leNat [b0, b1, b2, b3, b4, b5, b6, b7]) := by
      rw [byteswapFp_xor hinit (leNat_lt_word ..), byteswapFp_leNat, hs]
    have hlt := Nat.xor_lt_two_pow hinit (leNat_lt_word b0 b1 b2 b3 b4 b5 b6 b7)
    have hnext : byteswapFp (absorb init [b0, b1, b2, b3, b4, b5, b6, b7])
        = sliceBig fp.bybyteR word := by
      rw [hword, sliceBig_byteswapFp _ hlt, sliceLittle_swapped hfp hswap hlt,
        sliceLittle_word hfp hinit]
    exact (ih (absorb_lt hinit _) hrest hnext).append
  | case2 swapped b0 b1 b2 b3 b4 b5 b6 b7 rest word =>
    have hword : word = byteswapFp (init ^^^ leNat [b0, b1, b2, b3, b4, b5, b6, b7]) := by
      rw [byteswapFp_xor hinit (leNat_lt_word ..), byteswapFp_leNat, hs]
    have hlt := Nat.xor_lt_two_pow hinit (leNat_lt_word b0 b1 b2 b3 b4 b5 b6 b7)
    rw [hword, sliceBig_byteswapFp _ hlt, sliceLittle_word hfp hinit]
    exact ⟨[b0, b1, b2, b3, b4, b5, b6, b7], rfl, rfl⟩
  | case3 swapped data hshort =>
    -- Eight bytes are there, so the pattern matched.
    match data, hdata with
    | b0 :: b1 :: b2 :: b3 :: b4 :: b5 :: b6 :: b7 :: rest, _ =>
      exact (hshort _ _ _ _ _ _ _ _ _ rfl).elim

/-- Every phase takes in some bytes, so the loops together take in all of them. -/
theorem msnFprintOf_eq (endian : Endian) (hinit : init < 2 ^ 64) (p : Nat)
    (data : Bytes) : msnFprintOf endian fp init p data = absorb init data := by
  have halign := alignPhase_consumes hfp p init data
  rw [msnFprintOf, ← halign.absorb_eq]
  generalize alignPhase fp p init data = aligned at halign
  obtain ⟨init', data'⟩ := aligned
  have hinit' : init' < 2 ^ 64 := halign.lt hinit
  cases endian with
  | little =>
    simp only [foldl_byteStep hfp]
    exact (littlePhase_consumes hfp hinit' data').absorb_eq
  | big =>
    simp only [foldl_byteStep hfp]
    split
    · next hlen => exact (bigPhase_consumes hfp hswap hinit' hlen).absorb_eq
    · rfl

end Phases

theorem foldl_stepByte (init : Nat) (data : Bytes) :
    data.foldl Wire.stepByte init = absorb init data := by
  induction data generalizing init with
  | nil => rfl
  | cons b bs ih =>
    have hstep : Wire.stepByte init b = absorb init [b] := lookup_byte holdsPowers_byteEntry init b
    rw [foldl_cons, ih, hstep, ← absorb_append]
    rfl

theorem fingerprintWith_eq {init : Nat} (hinit : init < 2 ^ 64) (data : Bytes) :
    Wire.fingerprintWith init data = absorb init data := by
  fun_induction Wire.fingerprintWith init data with
  | case1 init b0 b1 b2 b3 b4 b5 b6 b7 rest ih =>
    have hchunk : Wire.stepChunk init [b0, b1, b2, b3, b4, b5, b6, b7]
        = absorb init [b0, b1, b2, b3, b4, b5, b6, b7] := by
      rw [← sliceLittle_word holdsPowers_byteEntry hinit, Nat.xor_comm]
      rfl
    rw [hchunk] at ih ⊢
    rw [ih (absorb_lt hinit _), ← absorb_append]
    rfl
  | case2 init data hshort => exact foldl_stepByte init data

open Polynomial in
/-- **The fingerprint.** Whatever the tables' memory held, the initial value, the addresses and the
byte order: the C++ loops compute the one-byte-at-a-time recurrence, which is the remainder of the
message modulo the polynomial of degree 64; they can be continued from one byte string to the next;
both byte orders agree; and the Rust port computes the same value. -/
theorem msnFprintOf_correct (memory : Nat → Nat → Nat) (init : UInt64) (x y : Bytes) :
    let fp := msnFprintInit memory
    (∀ endian p, msnFprintOf endian fp init.toNat p x = x.foldl (byteStep fp) init.toNat) ∧
    toPoly 64 (x.foldl (byteStep fp) init.toNat)
      = (X ^ (8 * x.length) * toPoly 64 init.toNat + X ^ 64 * message 8 (x.map UInt8.toNat))
          %ₘ modulus 64 poly ∧
    (∀ endian p q r, msnFprintOf endian fp init.toNat p (x ++ y)
      = msnFprintOf endian fp (msnFprintOf endian fp init.toNat q x) r y) ∧
    (∀ p q, msnFprintOf .little fp init.toNat p x = msnFprintOf .big fp init.toNat q x) ∧
    Wire.fingerprintWith init.toNat x = x.foldl Wire.stepByte init.toNat ∧
    Wire.fingerprintWith init.toNat (x ++ y)
      = Wire.fingerprintWith (Wire.fingerprintWith init.toNat x) y ∧
    (∀ endian p, Wire.fingerprintWith init.toNat x = msnFprintOf endian fp init.toNat p x) ∧
    ∀ endian p, Wire.fingerprint x = msnFprintOf endian fp fp.empty p x := by
  intro fp
  have hfp : HoldsPowers fp.bybyte := holdsPowers_bybyte memory
  have hinit : init.toNat < 2 ^ 64 := init.toNat_lt
  have hof : ∀ endian {i : Nat}, i < 2 ^ 64 → ∀ p data,
      msnFprintOf endian fp i p data = absorb i data := fun endian _ hi p data =>
    msnFprintOf_eq hfp (fun _ _ => rfl) endian hi p data
  have hx := absorb_lt hinit x
  refine ⟨?_, ?_, ?_, ?_, ?_, ?_, ?_, ?_⟩
  · intro endian p
    rw [hof endian hinit, foldl_byteStep hfp]
  · have hbytes : ∀ d ∈ x.map UInt8.toNat, d < 2 ^ 8 := by
      intro d hd
      obtain ⟨b, -, rfl⟩ := mem_map.mp hd
      exact b.toNat_lt
    rw [foldl_byteStep hfp, absorb, toPoly_feed poly_lt (by decide) hinit hbytes, length_map]
  · intro endian p q r
    rw [hof endian hinit, hof endian hinit, hof endian hx, absorb_append]
  · intro p q
    rw [hof .little hinit, hof .big hinit]
  · rw [fingerprintWith_eq hinit, foldl_stepByte]
  · rw [fingerprintWith_eq hinit, fingerprintWith_eq hinit, fingerprintWith_eq hx, absorb_append]
  · intro endian p
    rw [fingerprintWith_eq hinit, hof endian hinit]
  · intro endian p
    exact (fingerprintWith_eq poly_lt x).trans (hof endian poly_lt p x).symm

end Rsl.Fingerprint
