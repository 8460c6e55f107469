import Mathlib.Data.List.Infix

/-!
# Streams in sealed blocks

A stream is stored in blocks of one size, the last of which may be short. The last `width` elements
of a block are a seal over those before it. `blockAt` cuts the stored elements, `payload` and
`stored` take a block apart, and a block is intact when its seal is that of its payload.
-/

set_option autoImplicit false

namespace Rsl.Lib.Sealed

variable {α : Type}

/-- Block `k` of what is stored. -/
def blockAt (size : Nat) (body : List α) (k : Nat) : List α := (body.drop (k * size)).take size

/-- The elements of a block before its seal. -/
def payload (width : Nat) (block : List α) : List α := block.take (block.length - width)

/-- The seal of a block. -/
def stored (width : Nat) (block : List α) : List α := block.drop (block.length - width)

/-- A block that ends with the seal of its payload. -/
def Intact (width : Nat) (mark : List α → List α) (block : List α) : Prop :=
  width ≤ block.length ∧ stored width block = mark (payload width block)

/-- Elements that come from the payload of one intact block. -/
def Vouched (size width : Nat) (mark : List α → List α) (body elements : List α) : Prop :=
  ∃ k, Intact width mark (blockAt size body k) ∧ elements <:+: payload width (blockAt size body k)

/-- A part of the payload of an intact block. -/
theorem Vouched.of_slice {size width : Nat} {mark : List α → List α} {body : List α} {k : Nat}
    (h : Intact width mark (blockAt size body k)) (skip count : Nat) :
    Vouched size width mark body (((payload width (blockAt size body k)).drop skip).take count) :=
  ⟨k, h, (List.take_prefix _ _).isInfix.trans (List.drop_suffix _ _).isInfix⟩

/-- What one block holds is only vouched for when that block is intact. -/
theorem Vouched.intact_of_length_le {size width : Nat} {mark : List α → List α}
    {body elements : List α} (h : Vouched size width mark body elements) (hwidth : 0 < width)
    (hlength : body.length ≤ size) : Intact width mark body := by
  obtain ⟨k, hintact, -⟩ := h
  cases k with
  | zero =>
    rw [blockAt, Nat.zero_mul, List.drop_zero, List.take_of_length_le hlength] at hintact
    exact hintact
  | succ k =>
    have hempty : body.drop ((k + 1) * size) = [] := by
      apply List.drop_of_length_le
      rw [Nat.succ_mul]
      omega
    have hwide := hintact.1
    rw [blockAt, hempty, List.take_nil, List.length_nil] at hwide
    omega

end Rsl.Lib.Sealed
