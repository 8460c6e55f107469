import Mathlib.Algebra.Order.Group.Nat

/-!
# Ring buffers

A ring of `size` cells between two indices. When the indices meet, a flag tells a full ring from an
empty one. `toList` is what is in the ring, and the operations are those of a queue on it: `push`
puts elements into the cells behind the last one without wrapping, `pop` drops elements at the front
and `peek` copies them out in at most two parts.
-/

set_option autoImplicit false

namespace Rsl.Lib

open List

/-- A ring: its cells, the first one in use, the one behind the last, and whether it is full. -/
structure RingBuffer (α : Type) where
  cells : Nat → α
  size : Nat
  start : Nat
  stop : Nat
  full : Bool

namespace RingBuffer

variable {α : Type} {r : RingBuffer α}

/-- An index moved on by at most `size`. -/
def wrap (size i : Nat) : Nat := if size ≤ i then i - size else i

/-- How many elements there are. -/
def length (r : RingBuffer α) : Nat :=
  if r.full then r.size
  else if r.start ≤ r.stop then r.stop - r.start
  else r.size - (r.start - r.stop)

/-- The elements, first to last. -/
def toList (r : RingBuffer α) : List α :=
  (range r.length).map fun i => r.cells (wrap r.size (r.start + i))

/-- How many cells can be filled without wrapping. -/
def room (r : RingBuffer α) : Nat :=
  if r.full then 0
  else if r.start ≤ r.stop then r.size - r.stop
  else r.start - r.stop

/-- How many elements there are before the ring wraps. -/
def straight (r : RingBuffer α) : Nat :=
  if r.full then r.size - r.start
  else if r.start ≤ r.stop then r.stop - r.start
  else r.size - r.start

/-- `n` cells from `i` on. -/
def slice (r : RingBuffer α) (i n : Nat) : List α := (range n).map fun k => r.cells (i + k)

/-- The first `n` elements. -/
def peek (r : RingBuffer α) (n : Nat) : List α :=
  if n ≤ r.size - r.start then r.slice r.start n
  else r.slice r.start (r.size - r.start) ++ r.slice 0 (n - (r.size - r.start))

/-- The first `n` elements are dropped. -/
def pop (r : RingBuffer α) (n : Nat) : RingBuffer α :=
  { r with
    start := wrap r.size (r.start + n)
    full := r.full && n = 0 }

/-- The cells from `i` on are overwritten. -/
def store (cells : Nat → α) (i : Nat) : List α → Nat → α
  | [] => cells
  | a :: as => store (Function.update cells i a) (i + 1) as

/-- The next `n` cells become elements. -/
def advance (r : RingBuffer α) (n : Nat) : RingBuffer α :=
  { r with
    stop := wrap r.size (r.stop + n)
    full := r.full || (n ≠ 0 && wrap r.size (r.stop + n) = r.start) }

/-- Elements are put behind the last one. -/
def push (r : RingBuffer α) (as : List α) : RingBuffer α :=
  { r with cells := store r.cells r.stop as }.advance as.length

/-- `n` cells from `i` on, from the first cell on behind the last one. -/
def run (r : RingBuffer α) (i n : Nat) : List α :=
  (range n).map fun k => r.cells (wrap r.size (i + k))

/-- The cells that are not in use, from the one behind the last element on. -/
def free (r : RingBuffer α) : List α := r.run r.stop (r.size - r.length)

/-- `n` cells from `i` on, in at most two parts. -/
def read (r : RingBuffer α) (i n : Nat) : List α :=
  if n ≤ r.size - i then r.slice i n else r.slice i (r.size - i) ++ r.slice 0 (n - (r.size - i))

/-- The cells from `i` on are overwritten, in at most two parts. -/
def write (r : RingBuffer α) (i : Nat) (as : List α) : RingBuffer α :=
  { r with
    cells := if as.length ≤ r.size - i then store r.cells i as
      else store (store r.cells i (as.take (r.size - i))) 0 (as.drop (r.size - i)) }

/-- The indices are inside the ring and meet when it is full. -/
structure Ok (r : RingBuffer α) : Prop where
  start : r.start < r.size
  stop : r.stop < r.size
  full : r.full = true → r.start = r.stop

theorem length_le (h : r.Ok) : r.length ≤ r.size := by
  have := h.start
  have := h.stop
  rw [length]
  split_ifs <;> omega

@[simp] theorem length_toList (r : RingBuffer α) : r.toList.length = r.length := by
  simp [toList]

@[simp] theorem length_run (r : RingBuffer α) (i n : Nat) : (r.run i n).length = n := by
  simp [run]

theorem length_free (r : RingBuffer α) : r.free.length = r.size - r.length := length_run ..

theorem straight_eq (h : r.Ok) : r.straight = min r.length (r.size - r.start) := by
  have := h.start
  have := h.stop
  rw [length, straight]
  split_ifs <;> omega

theorem room_eq (h : r.Ok) : r.room = min (r.size - r.length) (r.size - r.stop) := by
  have := h.start
  have := h.stop
  rw [length, room]
  split_ifs <;> omega

/-- There is room while the ring is not full. -/
theorem room_pos (h : r.Ok) (hlt : r.length < r.size) : 0 < r.room := by
  have := h.stop
  rw [room_eq h]
  omega

theorem stop_eq (h : r.Ok) : r.stop = wrap r.size (r.start + r.length) := by
  have hstart := h.start
  have hstop := h.stop
  have hfull := h.full
  rw [wrap, length]
  split_ifs with hf <;> simp only [hf, true_implies] at hfull <;> omega

variable {i n m : Nat} {as : List α}

theorem wrap_size (size i : Nat) : wrap size (i + size) = i := by
  rw [wrap, if_pos le_add_self, Nat.add_sub_cancel]

theorem wrap_lt (hi : i < r.size) (hn : n ≤ r.size) : wrap r.size (i + n) < r.size := by
  rw [wrap]
  split_ifs <;> omega

theorem wrap_wrap (hi : i < r.size) (hn : n + m ≤ r.size) :
    wrap r.size (wrap r.size (i + n) + m) = wrap r.size (i + (n + m)) := by
  rw [wrap, wrap, wrap]
  split_ifs <;> omega

theorem run_add (hi : i < r.size) (hn : n + m ≤ r.size) :
    r.run i (n + m) = r.run i n ++ r.run (wrap r.size (i + n)) m := by
  rw [run, run, run, range_add, map_append, map_map]
  congr 1
  apply map_congr_left
  intro k hk
  rw [mem_range] at hk
  simp only [Function.comp]
  rw [wrap_wrap hi (by omega)]

/-- The elements, and behind them the other cells. -/
theorem run_start (h : r.Ok) : r.run r.start r.size = r.toList ++ r.free := by
  have hle := Nat.add_sub_of_le (length_le h)
  have hrun := run_add h.start hle.le
  rwa [hle, ← stop_eq h] at hrun

/-- The cells from another one on. -/
theorem run_rotate (hi : i < r.size) (hn : n ≤ r.size) :
    r.run (wrap r.size (i + n)) r.size = (r.run i r.size).drop n ++ (r.run i r.size).take n := by
  obtain ⟨m, hm⟩ := Nat.exists_eq_add_of_le hn
  have hrun := run_add hi hm.symm.le
  have hback := run_add (n := m) (m := n) (wrap_lt hi hn) (by omega)
  rw [wrap_wrap hi hm.symm.le, add_comm m, ← hm, wrap_size] at hback
  rw [← hm] at hrun
  rw [hback, hrun, drop_left' (length_run ..), take_left' (length_run ..)]

theorem run_stop (h : r.Ok) : r.run r.stop r.size = r.free ++ r.toList := by
  rw [stop_eq h, run_rotate h.start (length_le h), run_start h, drop_left' (length_toList r),
    take_left' (length_toList r)]

theorem run_eq_slice (hn : i + n ≤ r.size) : r.run i n = r.slice i n := by
  apply map_congr_left
  intro k hk
  rw [mem_range] at hk
  rw [wrap, if_neg (by omega)]

theorem read_eq (hi : i < r.size) (hn : n ≤ r.size) : r.read i n = r.run i n := by
  rw [read]
  split_ifs with hs
  · exact (run_eq_slice (by omega)).symm
  · obtain ⟨m, rfl⟩ := Nat.exists_eq_add_of_le (le_of_not_ge hs)
    rw [run_add hi hn, add_tsub_cancel_left, run_eq_slice (by omega), Nat.add_sub_of_le (by omega),
      wrap, if_pos (Nat.le_refl _), Nat.sub_self, run_eq_slice (by omega)]

/-- What is read from the elements on from one of them. -/
theorem read_toList (h : r.Ok) (hn : i + n ≤ r.length) :
    r.read (wrap r.size (r.start + i)) n = (r.toList.drop i).take n := by
  obtain ⟨m, hm⟩ := Nat.exists_eq_add_of_le hn
  have hle := length_le h
  have hrun : r.toList = r.run r.start (i + (n + m)) := by rw [run, ← add_assoc, ← hm, toList]
  rw [read_eq (wrap_lt h.start (by omega)) (by omega), hrun, run_add h.start (by omega),
    drop_left' (length_run ..), run_add (wrap_lt h.start (by omega)) (by omega),
    take_left' (length_run ..)]

/-- What is copied out is the front of the queue. -/
theorem peek_eq (h : r.Ok) (hn : n ≤ r.length) : r.peek n = r.toList.take n := by
  have hread := read_toList (i := 0) (n := n) h (by omega)
  have hstart := h.start
  rwa [add_zero, wrap, if_neg (by omega)] at hread

/-- The cells behind the last element, without wrapping. -/
theorem slice_stop (h : r.Ok) : r.slice r.stop r.room = r.free.take r.room := by
  have hroom := room_eq h
  have hstop := h.stop
  obtain ⟨m, hm⟩ := Nat.exists_eq_add_of_le (min_le_left (r.size - r.length) (r.size - r.stop))
  rw [← hroom] at hm
  rw [free, hm, run_add hstop (by omega), take_left' (length_run ..), run_eq_slice (by omega)]

/-- What is copied from the first element on, without wrapping. -/
theorem slice_eq (h : r.Ok) (hn : n ≤ r.straight) (hlen : n ≤ r.length) :
    r.slice r.start n = r.toList.take n := by
  rw [← peek_eq h hlen, peek, if_pos]
  rw [straight_eq h] at hn
  omega

theorem ok_pop (h : r.Ok) (hn : n ≤ r.length) : (r.pop n).Ok := by
  have hle := length_le h
  refine ⟨wrap_lt h.start (by omega), h.stop, fun hf => ?_⟩
  simp only [pop, Bool.and_eq_true, decide_eq_true_eq] at hf
  have hstart := h.start
  simp only [pop, hf.2, add_zero, wrap]
  rw [if_neg (by omega)]
  exact h.full hf.1

theorem length_pop (h : r.Ok) (hn : n ≤ r.length) : (r.pop n).length = r.length - n := by
  have hstart := h.start
  have hstop := h.stop
  have hfull := h.full
  simp only [pop, length, wrap, Bool.and_eq_true, decide_eq_true_eq] at hn ⊢
  cases hf : r.full <;> simp only [hf, true_implies, Bool.false_eq_true, if_false, if_true,
    false_and, true_and] at hfull hn ⊢ <;>
    split_ifs at hn ⊢ <;> omega

/-- What is dropped becomes the last of the other cells. -/
theorem pop_eq (h : r.Ok) (hn : n ≤ r.length) :
    (r.pop n).toList = r.toList.drop n ∧ (r.pop n).free = r.free ++ r.toList.take n := by
  have hle : n ≤ r.toList.length := by rwa [length_toList]
  have hrun := run_rotate h.start (hn.trans (length_le h))
  rw [run_start h, drop_append_of_le_length hle, take_append_of_le_length hle, append_assoc] at hrun
  apply append_inj ((run_start (ok_pop h hn)).symm.trans hrun)
  rw [length_toList, length_pop h hn, length_drop, length_toList]

theorem toList_pop (h : r.Ok) (hn : n ≤ r.length) : (r.pop n).toList = r.toList.drop n :=
  (pop_eq h hn).1

section

variable (h : r.Ok) (hn : r.length + n ≤ r.size)

include h hn

theorem ok_advance : (r.advance n).Ok := by
  refine ⟨h.start, wrap_lt h.stop (by omega), fun hf => ?_⟩
  simp only [advance, Bool.or_eq_true, Bool.and_eq_true, decide_eq_true_eq] at hf ⊢
  rcases hf with hf | hf
  · have hstop := h.stop
    rw [length, if_pos hf] at hn
    rw [wrap, if_neg (by omega), h.full hf]
    omega
  · exact hf.2.symm

theorem length_advance : (r.advance n).length = r.length + n := by
  have hstart := h.start
  have hstop := h.stop
  cases hf : r.full with
  | true =>
    simp only [length, advance, hf, Bool.true_or, if_true] at hn ⊢
    omega
  | false =>
    simp only [length, advance, hf, Bool.false_or, Bool.false_eq_true, if_false,
      Bool.and_eq_true, decide_eq_true_eq] at hn ⊢
    rw [wrap]
    split_ifs at hn ⊢ <;> omega

theorem advance_eq : (r.advance n).toList = r.toList ++ r.free.take n ∧
    (r.advance n).free = r.free.drop n := by
  have hrun : (r.advance n).toList ++ (r.advance n).free = r.toList ++ r.free := by
    rw [← run_start (ok_advance h hn), ← run_start h]
    rfl
  rw [← take_append_drop n r.free, ← append_assoc] at hrun
  apply append_inj hrun
  rw [length_toList, length_advance h hn, length_append, length_take, length_free, length_toList]
  omega

end

theorem store_eq (cells : Nat → α) (i k : Nat) :
    store cells i as k = if i ≤ k then as[k - i]?.getD (cells k) else cells k := by
  induction as generalizing cells i with
  | nil => simp [store]
  | cons a as ih =>
    rw [store, ih]
    rcases lt_trichotomy i k with hlt | rfl | hgt
    · obtain ⟨m, rfl⟩ := Nat.exists_eq_add_of_lt hlt
      rw [if_pos (by omega), if_pos (by omega), Function.update_of_ne (by omega), add_right_comm,
        add_tsub_cancel_left]
      rw [add_assoc, add_tsub_cancel_left, add_comm 1, getElem?_cons_succ]
    · rw [if_neg (by omega), if_pos (Nat.le_refl _), Function.update_self, Nat.sub_self]
      rfl
    · rw [if_neg (by omega), if_neg (by omega), Function.update_of_ne (by omega)]

/-- The cell `k` places behind the first one overwritten. -/
theorem cells_write {k : Nat} (hi : i < r.size) (has : as.length ≤ r.size) (hk : k < r.size) :
    (r.write i as).cells (wrap r.size (i + k)) = as[k]?.getD (r.cells (wrap r.size (i + k))) := by
  simp only [write, wrap]
  split_ifs with hs hw hw
  · rw [store_eq, if_neg (by omega), getElem?_eq_none (by omega)]
    rfl
  · rw [store_eq, if_pos (by omega), add_tsub_cancel_left]
  · rw [store_eq, if_pos (Nat.zero_le _), store_eq, if_neg (by omega), getElem?_drop]
    congr 2
    omega
  · rw [store_eq, if_pos (Nat.zero_le _), store_eq, if_pos (by omega), getElem?_drop,
      getElem?_eq_none (by omega), Nat.add_sub_cancel_left, getElem?_take_of_lt (by omega)]
    rfl

theorem run_write (hi : i < r.size) (has : as.length ≤ r.size) :
    (r.write i as).run i r.size = as ++ (r.run i r.size).drop as.length := by
  apply ext_getElem?
  intro k
  rcases lt_or_ge k r.size with hk | hk
  · have hcell : (r.write i as).cells (wrap r.size (i + k)) = _ := cells_write hi has hk
    have hrun (w : RingBuffer α) : (w.run i r.size)[k]? = some (w.cells (wrap w.size (i + k))) := by
      rw [run, getElem?_map, getElem?_range hk]
      rfl
    rw [hrun, getElem?_append, getElem?_drop]
    refine (congrArg some hcell).trans ?_
    split_ifs with hlt
    · rw [getElem?_eq_getElem hlt, Option.getD_some]
    · rw [getElem?_eq_none (le_of_not_gt hlt), Option.getD_none, Nat.add_sub_of_le (by omega), hrun]
  · rw [getElem?_eq_none (by rwa [length_run]), getElem?_eq_none (by simp; omega)]

theorem ok_write (h : r.Ok) : (r.write i as).Ok := ⟨h.start, h.stop, h.full⟩

theorem run_free (h : r.Ok) (hn : n ≤ r.free.length) :
    r.run (wrap r.size (r.stop + n)) r.size = r.free.drop n ++ (r.toList ++ r.free.take n) := by
  have hle : n ≤ r.size := by
    rw [length_free] at hn
    omega
  rw [run_rotate h.stop hle, run_stop h, drop_append_of_le_length hn,
    take_append_of_le_length hn, append_assoc]

/-- Only cells that are not in use are overwritten. -/
theorem write_eq (h : r.Ok) (hn : n + as.length ≤ r.free.length) :
    (r.write (wrap r.size (r.stop + n)) as).toList = r.toList ∧
      (r.write (wrap r.size (r.stop + n)) as).free =
        r.free.take n ++ (as ++ r.free.drop (n + as.length)) := by
  have hfree : (r.write (wrap r.size (r.stop + n)) as).free.length = r.free.length := by
    rw [length_free, length_free]
    rfl
  have hsize := length_free r
  have hwrite := run_write (wrap_lt h.stop (by omega : n ≤ r.size)) (by omega : as.length ≤ r.size)
  rw [run_free h (by omega), drop_append_of_le_length (by rw [length_drop]; omega), drop_drop,
    ← append_assoc] at hwrite
  obtain ⟨hdrop, hrest⟩ := append_inj ((run_free (ok_write h) (by omega)).symm.trans hwrite) (by
    rw [length_drop, length_append, length_drop]
    omega)
  obtain ⟨htoList, htake⟩ := append_inj hrest (by rw [length_toList, length_toList]; rfl)
  refine ⟨htoList, ?_⟩
  rw [← take_append_drop n (r.write _ as).free, htake, hdrop]

section

variable (h : r.Ok) (has : as.length ≤ r.room)

include h has

theorem push_eq : r.push as = (r.write (wrap r.size (r.stop + 0)) as).advance as.length := by
  have hstop := h.stop
  rw [room_eq h] at has
  rw [add_zero, wrap, if_neg (by omega), write, if_pos (by omega), push]

theorem length_add_le : r.length + as.length ≤ r.size := by
  have hle := length_le h
  rw [room_eq h] at has
  omega

theorem ok_push : (r.push as).Ok := by
  have hle := length_add_le h has
  rw [push_eq h has]
  exact ok_advance (ok_write h) hle

theorem length_push : (r.push as).length = r.length + as.length := by
  have hle := length_add_le h has
  rw [push_eq h has]
  exact length_advance (ok_write h) hle

theorem push_toList_free :
    (r.push as).toList = r.toList ++ as ∧ (r.push as).free = r.free.drop as.length := by
  have hle := length_add_le h has
  obtain ⟨htoList, hfree⟩ := write_eq h (by rw [length_free]; omega : 0 + as.length ≤ _)
  obtain ⟨htoList', hfree'⟩ := advance_eq (ok_write h) hle
  rw [push_eq h has, htoList', hfree', htoList, hfree, take_zero, nil_append, take_left, drop_left,
    zero_add]
  exact ⟨rfl, rfl⟩

theorem toList_push : (r.push as).toList = r.toList ++ as := (push_toList_free h has).1

end

end RingBuffer
end Rsl.Lib
