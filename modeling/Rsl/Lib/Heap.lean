import Mathlib.Data.List.Infix

/-!
# Blocks of memory and pointers into them

A heap gives every block a number of its own, which is not used again when the block is freed. A
pointer is a block and an offset. `Heap.Designates p data` says that `data` stands at `p` in a block
that is not freed; the lemmas say which operations keep this, and that a copy of the end of a block
is designated by the pointer that is moved with it.
-/

set_option autoImplicit false

namespace Rsl.Lib

open List

variable {α : Type*}

structure Ptr where
  block : Nat
  offset : Nat
deriving Repr, DecidableEq

/-- The cells of a block that have been written. -/
structure Block (α : Type*) where
  cells : List α
  freed : Bool
deriving Repr, DecidableEq

structure Heap (α : Type*) where
  block : Nat → Block α
  next : Nat

namespace Heap

def empty : Heap α := ⟨fun _ => ⟨[], true⟩, 0⟩

/-- A new block that starts with these cells. -/
def alloc (heap : Heap α) (cells : List α) : Heap α :=
  ⟨Function.update heap.block heap.next ⟨cells, false⟩, heap.next + 1⟩

/-- Overwrite the cells of a block from an offset on. -/
def write (heap : Heap α) (p : Ptr) (data : List α) : Heap α :=
  let old := heap.block p.block
  ⟨Function.update heap.block p.block
    ⟨old.cells.take p.offset ++ data ++ old.cells.drop (p.offset + data.length), old.freed⟩,
      heap.next⟩

def free (heap : Heap α) (b : Nat) : Heap α :=
  { heap with block := Function.update heap.block b { heap.block b with freed := true } }

/-- The cells at `p` are `data`, and their block is not freed. A pointer to no cells may be any. -/
def Designates (heap : Heap α) (p : Ptr) (data : List α) : Prop :=
  data ≠ [] → p.block < heap.next ∧ (heap.block p.block).freed = false ∧
    data <+: (heap.block p.block).cells.drop p.offset

variable {heap : Heap α} {p q : Ptr} {data new : List α} {b : Nat}

theorem alloc_block_next (cells : List α) : (heap.alloc cells).block heap.next = ⟨cells, false⟩ :=
  Function.update_self ..

theorem alloc_block_of_lt {cells : List α} (h : b < heap.next) :
    (heap.alloc cells).block b = heap.block b :=
  Function.update_of_ne h.ne ..

theorem free_block_self : (heap.free b).block b = { heap.block b with freed := true } :=
  Function.update_self ..

theorem free_block_of_ne {c : Nat} (h : c ≠ b) : (heap.free b).block c = heap.block c :=
  Function.update_of_ne h ..

theorem write_block_of_ne (h : b ≠ p.block) : (heap.write p new).block b = heap.block b :=
  Function.update_of_ne h ..

theorem write_block_self : (heap.write p new).block p.block =
    ⟨(heap.block p.block).cells.take p.offset ++ new ++
      (heap.block p.block).cells.drop (p.offset + new.length), (heap.block p.block).freed⟩ :=
  Function.update_self ..

/-- A write at the end of a block. -/
theorem write_cells_end (h : (heap.block b).cells.length = p.offset) (hb : p.block = b) :
    ((heap.write p new).block b).cells = (heap.block b).cells ++ new := by
  subst hb
  rw [write_block_self, ← h, take_length, drop_of_length_le (by omega), append_nil]

theorem write_freed (heap : Heap α) (p : Ptr) (new : List α) (b : Nat) :
    ((heap.write p new).block b).freed = (heap.block b).freed := by
  by_cases hb : b = p.block
  · rw [hb, write_block_self]
  · rw [write_block_of_ne hb]

section

variable (h : heap.Designates p data)

include h

theorem Designates.length_le (hdata : data ≠ []) :
    p.offset + data.length ≤ (heap.block p.block).cells.length := by
  have hle := (h hdata).2.2.length_le
  rw [length_drop] at hle
  have hpos := length_pos_of_ne_nil hdata
  omega

/-- A write elsewhere: in another block, before the cells, or behind them. -/
theorem Designates.write
    (hapart : data ≠ [] → p.block = q.block →
      q.offset + new.length ≤ p.offset ∧ q.offset ≤ (heap.block q.block).cells.length ∨
        p.offset + data.length ≤ q.offset) :
    (heap.write q new).Designates p data := by
  intro hdata
  obtain ⟨hlt, hlive, hcells⟩ := h hdata
  refine ⟨hlt, (write_freed heap q new p.block).trans hlive, ?_⟩
  by_cases hb : p.block = q.block
  · have hle := h.length_le hdata
    rw [hb] at hcells hle ⊢
    rw [write_block_self]
    rcases hapart hdata hb with ⟨hbefore, hinside⟩ | hbehind
    · have hlength : ((heap.block q.block).cells.take q.offset ++ new).length =
          q.offset + new.length := by
        rw [length_append, length_take, min_eq_left hinside]
      rw [drop_append, drop_of_length_le (by omega), nil_append, hlength, drop_drop,
        Nat.add_sub_cancel' hbefore]
      exact hcells
    · have hkept : data <+: ((heap.block q.block).cells.take q.offset).drop p.offset := by
        rw [drop_take]
        exact prefix_take_iff.mpr ⟨hcells, by omega⟩
      rw [append_assoc, drop_append]
      exact hkept.trans (prefix_append ..)
  · rwa [write_block_of_ne hb]

/-- What stands in the copied end of a block, with the pointer moved to the copy. -/
theorem Designates.moved {start : Nat} (hstart : start ≤ p.offset) :
    (heap.alloc ((heap.block p.block).cells.drop start)).Designates
    ⟨heap.next, p.offset - start⟩ data := by
  intro hdata
  refine ⟨Nat.lt_succ_self _, ?_, ?_⟩
  · rw [alloc_block_next]
  · rw [alloc_block_next]
    show data <+: (drop start _).drop (p.offset - start)
    rw [drop_drop, Nat.add_sub_cancel' hstart]
    exact (h hdata).2.2

end

end Heap

end Rsl.Lib
