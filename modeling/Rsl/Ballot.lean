import Mathlib.Order.Lattice
import Mathlib.Order.BoundedOrder.Basic

/-!
# Ballot numbers and the classification of decrees

`BallotNumber` and the four predicates by which `Message` compares its own `(decree, ballot)` with
a current one. Ballots are compared by ballot id first and by member id second, and this order is
linear with the empty ballot at its bottom. The predicates `isLowerDecree` and `isNextDecree` are
the two tests every vote passes through before it is logged.

A member id is a string of at most 63 bytes, compared by length first and byte by byte second. Only
the order, equality and the empty string are used, so a member id is a natural number here, with `0`
the empty id (`compare_number` gives the number of a string).
-/

set_option autoImplicit false

namespace Rsl

/-- A ballot number: the ballot id and the member that owns it. -/
structure BallotNumber where
  ballotId : Nat
  memberId : Nat
  deriving DecidableEq, Repr

namespace BallotNumber

/-- The default constructed ballot `BallotNumber()`. -/
def empty : BallotNumber := ⟨0, 0⟩

/-- `BallotNumber::operator <`. -/
def blt (a b : BallotNumber) : Bool :=
  if a.ballotId = b.ballotId then decide (a.memberId < b.memberId)
  else decide (a.ballotId < b.ballotId)

/-- `BallotNumber::operator >=` with its operands exchanged. -/
def ble (a b : BallotNumber) : Bool :=
  if b.ballotId = a.ballotId then decide (b.memberId ≥ a.memberId)
  else decide (b.ballotId ≥ a.ballotId)

instance : LT BallotNumber := ⟨fun a b => a.blt b = true⟩

instance : LE BallotNumber := ⟨fun a b => a.ble b = true⟩

instance (a b : BallotNumber) : Decidable (a < b) := inferInstanceAs (Decidable (a.blt b = true))

instance (a b : BallotNumber) : Decidable (a ≤ b) := inferInstanceAs (Decidable (a.ble b = true))

variable {a b : BallotNumber}

theorem lt_iff :
    a < b ↔ a.ballotId < b.ballotId ∨ a.ballotId = b.ballotId ∧ a.memberId < b.memberId := by
  show a.blt b = true ↔ _
  unfold blt
  split <;> simp only [decide_eq_true_eq] <;> omega

theorem le_iff :
    a ≤ b ↔ a.ballotId < b.ballotId ∨ a.ballotId = b.ballotId ∧ a.memberId ≤ b.memberId := by
  show a.ble b = true ↔ _
  unfold ble
  split <;> simp only [decide_eq_true_eq] <;> omega

theorem ext_iff' :
    a = b ↔ a.ballotId = b.ballotId ∧ a.memberId = b.memberId := by
  cases a
  cases b
  simp only [mk.injEq]

/-- Ballots are linearly ordered. -/
instance : LinearOrder BallotNumber where
  le_refl a := by rw [le_iff]; omega
  le_trans a b c := by simp only [le_iff]; omega
  lt_iff_le_not_ge a b := by simp only [le_iff, lt_iff]; omega
  le_antisymm a b := by simp only [le_iff, ext_iff']; omega
  le_total a b := by simp only [le_iff]; omega
  toDecidableLE := inferInstance
  toDecidableEq := inferInstance
  toDecidableLT := inferInstance

/-- The empty ballot is below every ballot. -/
theorem empty_le (a : BallotNumber) : empty ≤ a := by
  rw [le_iff]
  simp only [empty]
  omega

instance : OrderBot BallotNumber where
  bot := empty
  bot_le := empty_le

/-- The ballot kept by a comparison with a new one. -/
theorem ite_lt_eq_max (a b : BallotNumber) : (if a < b then b else a) = max a b := by
  split
  · next h => exact (max_eq_right (le_of_lt h)).symm
  · next h => exact (max_eq_left (not_lt.mp h)).symm

end BallotNumber

/-! ## Decree classification -/

/-- `Message::IsLowerDecree`. -/
def isLowerDecree (decree : Nat) (ballot : BallotNumber) (curDecree : Nat)
    (curBallot : BallotNumber) : Bool :=
  decide (decree < curDecree) || decide (ballot < curBallot)

/-- `Message::IsNextDecree`. -/
def isNextDecree (decree : Nat) (ballot : BallotNumber) (curDecree : Nat)
    (curBallot : BallotNumber) : Bool :=
  (decide (decree = curDecree) && decide (curBallot ≤ ballot)) ||
    (decide (decree = curDecree + 1) && decide (ballot = curBallot))

/-- `Message::IsSameDecree`. -/
def isSameDecree (decree : Nat) (ballot : BallotNumber) (curDecree : Nat)
    (curBallot : BallotNumber) : Bool :=
  decide (decree = curDecree) && decide (ballot = curBallot)

section Classification

variable {d D : Nat} {b B : BallotNumber}

@[simp] theorem isLowerDecree_iff : isLowerDecree d b D B = true ↔ d < D ∨ b < B := by
  simp only [isLowerDecree, Bool.or_eq_true, decide_eq_true_eq]

@[simp] theorem isNextDecree_iff :
    isNextDecree d b D B = true ↔ d = D ∧ B ≤ b ∨ d = D + 1 ∧ b = B := by
  simp only [isNextDecree, Bool.or_eq_true, Bool.and_eq_true, decide_eq_true_eq]

@[simp] theorem isSameDecree_iff : isSameDecree d b D B = true ↔ d = D ∧ b = B := by
  simp only [isSameDecree, Bool.and_eq_true, decide_eq_true_eq]

end Classification

end Rsl
