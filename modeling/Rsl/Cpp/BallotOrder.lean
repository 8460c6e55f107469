import Rsl.Wire.Message

/-!
# The order of ballots in both languages

`MemberId::Compare`, the operators of `BallotNumber` and the tests of `Message` for a decree in
`message.cpp`, on ids as they stand in their buffers, beside `cmp` of `types.rs`. Every operator is
a test on the order of Rust (`Ballot.agrees`), so what is behind the terminator of an id plays no
role. It is also the order of the numbers whose digits are the bytes (`compare_number`), which the
protocol has for ids.

The successor of the last decree is 0. `ballot_order` says that only there a message can be of a
lower and of the next decree.
-/

set_option autoImplicit false

namespace Rsl.Wire

/-- `cmp` of `MemberId`. -/
def MemberId.cmp (a b : MemberId) : Ordering :=
  if a.value.length = b.value.length then compare a.value b.value
  else compare a.value.length b.value.length

/-- The id as the number whose digits are its bytes. -/
def MemberId.number (id : MemberId) : Nat := id.value.foldl (fun n b => 256 * n + b.toNat) 0

/-- `cmp` of `BallotNumber`. -/
def BallotNumber.cmp (a b : BallotNumber) : Ordering :=
  (compare a.ballotId b.ballotId).then (a.memberId.cmp b.memberId)

end Rsl.Wire

namespace Rsl.Cpp

open Wire Std

/-- The bytes of a `MemberId`: the id, its terminator and what a message had behind it. -/
structure IdBuffer where
  value : Bytes
  padding : Bytes
  noNul : 0 ∉ value
  size : value.length + 1 + padding.length = 64

def IdBuffer.bytes (id : IdBuffer) : Bytes := id.value ++ 0 :: id.padding

/-- `strncmp` on two buffers of one size. -/
def strncmpBuffer : Bytes → Bytes → Int
  | a :: as, b :: bs =>
    if a ≠ b then (a.toNat : Int) - b.toNat else if a = 0 then 0 else strncmpBuffer as bs
  | _, _ => 0

/-- `MemberId::Compare`, with the length of the id for `m_len`. -/
def IdBuffer.compare (a b : IdBuffer) : Int :=
  if a.value.length = b.value.length then strncmpBuffer a.bytes b.bytes
  else (a.value.length : Int) - b.value.length

structure Ballot where
  ballotId : UInt32
  memberId : IdBuffer

namespace Ballot

/-- `operator <`. -/
def less (a b : Ballot) : Bool :=
  if a.ballotId = b.ballotId then decide (a.memberId.compare b.memberId < 0)
  else decide (a.ballotId < b.ballotId)

/-- `operator >`. -/
def greater (a b : Ballot) : Bool :=
  if a.ballotId = b.ballotId then decide (a.memberId.compare b.memberId > 0)
  else decide (a.ballotId > b.ballotId)

/-- `operator ==`. -/
def equal (a b : Ballot) : Bool :=
  decide (a.ballotId = b.ballotId) && decide (a.memberId.compare b.memberId = 0)

/-- `operator >=`. -/
def atLeast (a b : Ballot) : Bool :=
  if a.ballotId = b.ballotId then decide (a.memberId.compare b.memberId ≥ 0)
  else decide (a.ballotId ≥ b.ballotId)

/-- `operator !=`. -/
def differs (a b : Ballot) : Bool :=
  decide (a.ballotId ≠ b.ballotId) || decide (a.memberId.compare b.memberId ≠ 0)

/-- The order of Rust, on what it reads of a ballot. -/
def cmp (a b : Ballot) : Ordering :=
  BallotNumber.cmp ⟨a.ballotId.toNat, ⟨a.memberId.value⟩⟩ ⟨b.ballotId.toNat, ⟨b.memberId.value⟩⟩

end Ballot

section

variable (decree : UInt64) (ballot : Ballot) (curDecree : UInt64) (curBallot : Ballot)

/-- `Message::IsLowerDecree`. -/
def isLowerDecree : Bool := decide (decree < curDecree) || ballot.less curBallot

/-- `Message::IsHigherDecree`. -/
def isHigherDecree : Bool :=
  (decide (decree > curDecree) && ballot.atLeast curBallot) ||
    (decide (decree = curDecree) && ballot.greater curBallot)

/-- `Message::IsNextDecree`. -/
def isNextDecree : Bool :=
  (decide (decree = curDecree) && ballot.atLeast curBallot) ||
    (decide (decree = curDecree + 1) && ballot.equal curBallot)

/-- `Message::IsSameDecree`. -/
def isSameDecree : Bool := decide (decree = curDecree) && ballot.equal curBallot

end

/-! ## The operators -/

/-- A result of a comparison in C++ and one in Rust. -/
def Means (n : Int) (o : Ordering) : Prop := (n < 0 ↔ o = .lt) ∧ (0 < n ↔ o = .gt)

theorem Means.tests {n : Int} {o : Ordering} (h : Means n o) :
    (n < 0 ↔ o = .lt) ∧ (n > 0 ↔ o = .gt) ∧ (n = 0 ↔ o = .eq) ∧ (n ≥ 0 ↔ o ≠ .lt) ∧
      (n ≠ 0 ↔ o ≠ .eq) := by
  obtain ⟨hlt, hgt⟩ := h
  cases o <;> simp at hlt hgt ⊢ <;> omega

theorem means_sub (m n : Nat) : Means ((m : Int) - n) (compare m n) := by
  rw [Means, Nat.compare_eq_lt, Nat.compare_eq_gt]
  omega

theorem then_of_ne : ∀ {o o' : Ordering}, o ≠ .eq → o.then o' = o := by decide

theorem compare_bytes (a b : UInt8) : compare a b = compare a.toNat b.toNat := by
  simp only [compare, compareOfLessAndEq, UInt8.lt_iff_toNat_lt, ← UInt8.toNat_inj]

/-- The padding is not read. -/
theorem means_strncmpBuffer {v w p q : Bytes} (hv : 0 ∉ v) (hw : 0 ∉ w)
    (hlen : v.length = w.length) :
    Means (strncmpBuffer (v ++ 0 :: p) (w ++ 0 :: q)) (compare v w) := by
  induction v generalizing w with
  | nil =>
    obtain rfl := List.eq_nil_of_length_eq_zero hlen.symm
    simp [strncmpBuffer, Means]
  | cons a v ih =>
    obtain ⟨b, w, rfl⟩ := List.exists_cons_of_length_eq_add_one hlen.symm
    rw [List.mem_cons, not_or] at hv hw
    rw [List.cons_append, List.cons_append, strncmpBuffer, List.compare_cons_cons]
    by_cases hab : a = b
    · subst hab
      rw [if_neg (not_not.mpr rfl), if_neg (Ne.symm hv.1), ReflOrd.compare_self]
      exact ih hv.2 hw.2 (Nat.succ.inj hlen)
    · have hne : compare a.toNat b.toNat ≠ .eq :=
        fun h => hab (UInt8.toNat_inj.mp (Nat.compare_eq_eq.mp h))
      rw [if_pos hab, compare_bytes, then_of_ne hne]
      exact means_sub _ _

theorem IdBuffer.means_compare (a b : IdBuffer) :
    Means (a.compare b) (MemberId.cmp ⟨a.value⟩ ⟨b.value⟩) := by
  rw [IdBuffer.compare, MemberId.cmp]
  by_cases hlen : a.value.length = b.value.length
  · rw [if_pos hlen, if_pos hlen]
    exact means_strncmpBuffer a.noNul b.noNul hlen
  · rw [if_neg hlen, if_neg hlen]
    exact means_sub _ _

/-- The operators of C++ test the order of Rust. -/
def Ballot.Agrees (a b : Ballot) : Prop :=
  (a.less b = true ↔ a.cmp b = .lt) ∧ (a.greater b = true ↔ a.cmp b = .gt) ∧
    (a.equal b = true ↔ a.cmp b = .eq) ∧ (a.atLeast b = true ↔ a.cmp b ≠ .lt) ∧
    (a.differs b = true ↔ a.cmp b ≠ .eq)

theorem Ballot.agrees (a b : Ballot) : a.Agrees b := by
  rw [Agrees, cmp, BallotNumber.cmp, less, greater, equal, atLeast, differs]
  by_cases hid : a.ballotId = b.ballotId
  · simpa [hid] using (a.memberId.means_compare b.memberId).tests
  · have hne : a.ballotId.toNat ≠ b.ballotId.toNat := fun h => hid (UInt32.toNat_inj.mp h)
    rw [then_of_ne (fun h => hne (Nat.compare_eq_eq.mp h))]
    have htests := (means_sub a.ballotId.toNat b.ballotId.toNat).tests
    simpa [hid, hne, Int.sub_eq_zero, UInt32.lt_iff_toNat_lt, UInt32.le_iff_toNat_le] using htests

theorem Ballot.cmp_eq : cmp = compareLex (compareOn fun a : Ballot => a.ballotId.toNat)
    (compareLex (compareOn fun a => a.memberId.value.length)
    (compareOn fun a => a.memberId.value)) := by
  funext a b
  rw [cmp, BallotNumber.cmp, compareLex, compareLex, MemberId.cmp]
  by_cases hlen : a.memberId.value.length = b.memberId.value.length
  · simp [compareOn, hlen]
  · have hne : compareOn (fun a : Ballot => a.memberId.value.length) a b ≠ .eq :=
      fun h => hlen (Nat.compare_eq_eq.mp h)
    rw [if_neg hlen, then_of_ne hne]
    rfl

instance : TransCmp Ballot.cmp := by
  rw [Ballot.cmp_eq]
  infer_instance

/-! ## The decrees -/

/-- No message is of a lower and of the next decree, the same decree is a next one, and a higher
decree is not a lower one. -/
structure Classified (d : UInt64) (b : Ballot) (curDecree : UInt64) (curBallot : Ballot) :
    Prop where
  apart :
    ¬ (isLowerDecree d b curDecree curBallot = true ∧ isNextDecree d b curDecree curBallot = true)
  same : isSameDecree d b curDecree curBallot = true → isNextDecree d b curDecree curBallot = true
  higher : isHigherDecree d b curDecree curBallot = true →
    isLowerDecree d b curDecree curBallot = false

theorem add_one_lt_iff {D : UInt64} : D + 1 < D ↔ D = 18446744073709551615 := by
  rw [UInt64.lt_iff_toNat_lt, ← UInt64.toNat_inj, UInt64.toNat_add]
  have hD := D.toNat_lt
  simp
  omega

theorem classified_iff {d D : UInt64} {a b : Ballot} :
    Classified d a D b ↔ ¬ (D = 18446744073709551615 ∧ d = 0 ∧ a.equal b = true) := by
  obtain ⟨hless, hgreater, hequal, hatLeast, -⟩ := a.agrees b
  have hlower : isLowerDecree d a D b = true ↔ d < D ∨ a.cmp b = .lt := by
    simp [isLowerDecree, hless]
  have hnext : isNextDecree d a D b = true ↔ d = D ∧ a.cmp b ≠ .lt ∨ d = D + 1 ∧ a.cmp b = .eq := by
    simp [isNextDecree, hatLeast, hequal]
  constructor
  · rintro ⟨hapart, -, -⟩ ⟨rfl, rfl, heq⟩
    exact hapart ⟨hlower.mpr (.inl (by decide)), hnext.mpr (.inr ⟨by decide, hequal.mp heq⟩)⟩
  · intro hnot
    constructor
    · rintro ⟨hl, hn⟩
      rw [hlower] at hl
      rcases hnext.mp hn with ⟨rfl, hge⟩ | ⟨rfl, heq⟩
      · exact hl.elim (UInt64.lt_irrefl d) hge
      · rcases hl with hlt | hlt
        · obtain rfl := add_one_lt_iff.mp hlt
          exact hnot ⟨rfl, by decide, hequal.mpr heq⟩
        · rw [heq] at hlt
          cases hlt
    · intro h
      simp only [isSameDecree, Bool.and_eq_true, decide_eq_true_eq, hequal] at h
      exact hnext.mpr (.inl ⟨h.1, by rw [h.2]; decide⟩)
    · intro h
      rw [← Bool.not_eq_true, hlower]
      simp only [isHigherDecree, Bool.or_eq_true, Bool.and_eq_true, decide_eq_true_eq, hatLeast,
        hgreater] at h
      rcases h with ⟨hgt, hge⟩ | ⟨rfl, hgt⟩
      · exact fun hl => hl.elim (UInt64.lt_asymm hgt) hge
      · rw [hgt]
        exact fun hl => hl.elim (UInt64.lt_irrefl d) nofun

/-- The order of C++ is total and strict and the one of Rust, and messages are classified by it
except for the decree 0 behind the last one. -/
theorem ballot_order (a b c : Ballot) (d curDecree : UInt64) :
    a.Agrees b ∧
      (a.less a = false ∧ (a.less b = true → b.less c = true → a.less c = true) ∧
        (a.less b = true ∨ a.equal b = true ∨ b.less a = true)) ∧
      (Classified d a curDecree b ↔
        ¬ (curDecree = 18446744073709551615 ∧ d = 0 ∧ a.equal b = true)) := by
  have hswap : b.cmp a = .lt ↔ a.cmp b = .gt := OrientedCmp.gt_iff_lt.symm
  have hself : a.cmp a = .eq := ReflCmp.compare_self
  refine ⟨a.agrees b, ⟨?_, ?_, ?_⟩, classified_iff⟩
  · rw [← Bool.not_eq_true, (a.agrees a).1, hself]
    decide
  · rw [(a.agrees b).1, (b.agrees c).1, (a.agrees c).1]
    exact TransCmp.lt_trans
  · rw [(a.agrees b).1, (a.agrees b).2.2.1, (b.agrees a).1, hswap]
    cases a.cmp b <;> simp

/-- Behind the last decree, the decree 0 of the current ballot. -/
theorem lower_and_next_zero : ∃ ballot : Ballot,
    isLowerDecree 0 ballot 18446744073709551615 ballot = true ∧
      isNextDecree 0 ballot 18446744073709551615 ballot = true :=
  ⟨⟨0, [], List.replicate 63 0, by simp, rfl⟩, by decide, by decide⟩

/-! ## Ids as numbers -/

/-- One digit more. -/
theorem compare_digit (m n : Nat) (x y : UInt8) :
    compare (256 * m + x.toNat) (256 * n + y.toNat) = (compare m n).then (compare x y) := by
  have hx := x.toNat_lt
  have hy := y.toNat_lt
  rw [compare_bytes]
  rcases Nat.lt_trichotomy m n with h | rfl | h
  · rw [Nat.compare_eq_lt.mpr h, Nat.compare_eq_lt.mpr (by omega)]
    rfl
  · rw [ReflOrd.compare_self, Nat.compare_eq_ite_lt, Nat.compare_eq_ite_lt]
    simp
  · rw [Nat.compare_eq_gt.mpr h, Nat.compare_eq_gt.mpr (by omega)]
    rfl

/-- Numerals of one length behind `m` and `n` compare as their digits do. -/
theorem compare_digits {v w : Bytes} (hlen : v.length = w.length) (m n : Nat) :
    compare (v.foldl (fun n b => 256 * n + b.toNat) m) (w.foldl (fun n b => 256 * n + b.toNat) n) =
      (compare m n).then (compare v w) := by
  induction v generalizing w m n with
  | nil =>
    obtain rfl := List.eq_nil_of_length_eq_zero hlen.symm
    simp
  | cons x v ih =>
    obtain ⟨y, w, rfl⟩ := List.exists_cons_of_length_eq_add_one hlen.symm
    rw [List.foldl_cons, List.foldl_cons, ih (Nat.succ.inj hlen), compare_digit,
      List.compare_cons_cons, Ordering.then_assoc]

/-- What the digits behind `m` can add. -/
theorem digits_bounds (v : Bytes) (m : Nat) :
    m * 256 ^ v.length ≤ v.foldl (fun n b => 256 * n + b.toNat) m ∧
      v.foldl (fun n b => 256 * n + b.toNat) m < (m + 1) * 256 ^ v.length := by
  induction v generalizing m with
  | nil => simp
  | cons x v ih =>
    obtain ⟨hlow, hhigh⟩ := ih (256 * m + x.toNat)
    have hx := x.toNat_lt
    rw [List.foldl_cons, List.length_cons, pow_succ]
    constructor
    · calc m * (256 ^ v.length * 256) = 256 * m * 256 ^ v.length := by ring
        _ ≤ (256 * m + x.toNat) * 256 ^ v.length := Nat.mul_le_mul_right _ (by omega)
        _ ≤ _ := hlow
    · calc _ < (256 * m + x.toNat + 1) * 256 ^ v.length := hhigh
        _ ≤ 256 * (m + 1) * 256 ^ v.length := Nat.mul_le_mul_right _ (by omega)
        _ = (m + 1) * (256 ^ v.length * 256) := by ring

/-- The id with more bytes is the greater number. -/
theorem number_lt {a b : MemberId} (hb : 0 ∉ b.value) (h : a.value.length < b.value.length) :
    a.number < b.number := by
  obtain ⟨w⟩ := b
  obtain _ | ⟨y, w⟩ := w
  · cases h
  have hy : 1 ≤ y.toNat := by
    rw [Nat.one_le_iff_ne_zero]
    exact fun h0 => hb (List.mem_cons.mpr (.inl (UInt8.toNat_inj.mp h0.symm)))
  calc a.number < (0 + 1) * 256 ^ a.value.length := (digits_bounds a.value 0).2
    _ ≤ 1 * 256 ^ w.length := by
      rw [Nat.zero_add, one_mul, one_mul]
      exact Nat.pow_le_pow_right (by decide) (Nat.le_of_lt_succ h)
    _ ≤ y.toNat * 256 ^ w.length := Nat.mul_le_mul_right _ hy
    _ ≤ _ := (digits_bounds w y.toNat).1
    _ = MemberId.number ⟨y :: w⟩ := by simp [MemberId.number]

/-- Ids are ordered as their numbers, so a number stands for an id where only the order counts. -/
theorem compare_number {a b : MemberId} (ha : 0 ∉ a.value) (hb : 0 ∉ b.value) :
    compare a.number b.number = a.cmp b := by
  rw [MemberId.cmp]
  split
  · next hlen =>
    rw [MemberId.number, MemberId.number, compare_digits hlen, ReflOrd.compare_self]
    rfl
  · next hlen =>
    rcases Nat.lt_or_gt_of_ne hlen with h | h
    · rw [Nat.compare_eq_lt.mpr (number_lt hb h), Nat.compare_eq_lt.mpr h]
    · rw [Nat.compare_eq_gt.mpr (number_lt ha h), Nat.compare_eq_gt.mpr h]

end Rsl.Cpp
