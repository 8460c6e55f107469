import Mathlib.Data.List.Basic

/-!
# One file on a disk with a volatile cache

A file has the bytes that reads see, the bytes that a power loss keeps, and a name that is itself
volatile until its directory is flushed. A program is a list of operations, and a crash stops it
after any number of steps, where a write takes one step for each byte: `cutOps` is what is left of
the program.

`DiskFile.powerLoss` keeps only what was flushed. A disk may also have written some of the rest, in
any order: `JournaledFile` keeps the changes that no flush has covered, and a power loss leaves any
of them (`Leaves`). `apply_view` says that the two files go through the same operations alike.
-/

set_option autoImplicit false

namespace Rsl.Lib

open List

/-- A file that exists: its content through the cache, the content last flushed, and whether its
directory was flushed since it was created. -/
structure DiskFile where
  content : List UInt8
  synced : List UInt8
  named : Bool
  deriving DecidableEq, Repr

/-- An operation on the file at one path. -/
inductive DiskOp where
  | create
  | syncDir
  | setSize (size : Nat)
  | write (position : Nat) (bytes : List UInt8)
  | syncData
  deriving DecidableEq, Repr

/-- `bytes` cut or extended with zeros to `size`. -/
def resize (bytes : List UInt8) (size : Nat) : List UInt8 :=
  bytes.take size ++ replicate (size - bytes.length) 0

/-- `content` with `bytes` at `position`, a gap before them filled with zeros. -/
def writeAt (content : List UInt8) (position : Nat) (bytes : List UInt8) : List UInt8 :=
  resize (content.take position) position ++ bytes ++ content.drop (position + bytes.length)

/-- What a crash leaves of bytes that were being written: the sectors that reached the disk, and
zeros in place of the others. -/
def tear (sector : Nat) (kept : Nat → Bool) (bytes : List UInt8) : List UInt8 :=
  bytes.zipIdx.map fun (b, i) => if kept (i / sector) then b else 0

namespace DiskOp

/-- The effect of an operation on the file at its path. An operation other than `create` goes
through an open handle, so it has no effect when there is no file. -/
def apply (op : DiskOp) (file : Option DiskFile) : Option DiskFile :=
  match op, file with
  | .create, none => some ⟨[], [], false⟩
  | .create, some f => some f
  | _, none => none
  | .syncDir, some f => some { f with named := true }
  | .setSize size, some f => some { f with content := resize f.content size }
  | .write position bytes, some f => some { f with content := writeAt f.content position bytes }
  | .syncData, some f => some { f with synced := f.content }

/-- The number of steps of an operation. -/
def steps : DiskOp → Nat
  | .write _ bytes => bytes.length
  | _ => 1

/-- What a crash after `k` steps leaves of an operation that takes more. -/
def cut (k : Nat) : DiskOp → List DiskOp
  | .write position bytes => [.write position (bytes.take k)]
  | _ => []

end DiskOp

/-- What a crash after `k` steps leaves of a program. -/
def cutOps : Nat → List DiskOp → List DiskOp
  | _, [] => []
  | k, op :: ops => if op.steps ≤ k then op :: cutOps (k - op.steps) ops else op.cut k

/-- Run operations in order. -/
def runOps (ops : List DiskOp) (file : Option DiskFile) : Option DiskFile :=
  ops.foldl (fun file op => op.apply file) file

/-- A power loss keeps the flushed content of a file with a durable name and nothing else. -/
def DiskFile.powerLoss (file : DiskFile) : Option DiskFile :=
  if file.named then some { file with content := file.synced } else none

@[simp] theorem runOps_nil (file : Option DiskFile) : runOps [] file = file := rfl

@[simp] theorem runOps_cons (op : DiskOp) (ops : List DiskOp) (file : Option DiskFile) :
    runOps (op :: ops) file = runOps ops (op.apply file) := rfl

theorem runOps_append (ops ops' : List DiskOp) (file : Option DiskFile) :
    runOps (ops ++ ops') file = runOps ops' (runOps ops file) := foldl_append

/-- A program that is cut late enough runs to its end. -/
theorem exists_cutOps_eq (ops : List DiskOp) : ∃ k, cutOps k ops = ops := by
  induction ops with
  | nil => exact ⟨0, rfl⟩
  | cons op ops ih =>
    obtain ⟨k, hk⟩ := ih
    refine ⟨op.steps + k, ?_⟩
    rw [cutOps, if_pos (Nat.le_add_right _ _), Nat.add_sub_cancel_left, hk]

/-- A crash in a sequence of two programs is a crash in the first or in the second. -/
theorem cutOps_append (k : Nat) (ops ops' : List DiskOp) :
    cutOps k (ops ++ ops') = cutOps k ops ∨
      ∃ j, cutOps k (ops ++ ops') = ops ++ cutOps j ops' := by
  induction ops generalizing k with
  | nil => exact .inr ⟨k, rfl⟩
  | cons op ops ih =>
    by_cases h : op.steps ≤ k
    · -- the first operation is done in full: look at what follows it
      simp only [cons_append, cutOps, if_pos h]
      rcases ih (k - op.steps) with hk | ⟨j, hj⟩
      · exact .inl (by rw [hk])
      · exact .inr ⟨j, by rw [hj]⟩
    · left
      simp only [cons_append, cutOps, if_neg h]

theorem cutOps_write (k position : Nat) (bytes : List UInt8) :
    cutOps k [.write position bytes] = [.write position (bytes.take k)] := by
  by_cases h : bytes.length ≤ k
  · rw [cutOps, DiskOp.steps, if_pos h, take_of_length_le h]
    rfl
  · rw [cutOps, DiskOp.steps, if_neg h]
    rfl

/-! ## Changes that may survive -/

/-- What an operation does to the content of a file. -/
def DiskOp.edit (content : List UInt8) : DiskOp → List UInt8
  | .setSize size => resize content size
  | .write position bytes => writeAt content position bytes
  | _ => content

/-- A file with the changes of its content since the last flush. -/
structure JournaledFile where
  synced : List UInt8
  pending : List DiskOp
  named : Bool
  deriving DecidableEq, Repr

namespace JournaledFile

/-- The content through the cache. -/
def content (file : JournaledFile) : List UInt8 := file.pending.foldl DiskOp.edit file.synced

/-- The file without its journal. -/
def view (file : JournaledFile) : DiskFile := ⟨file.content, file.synced, file.named⟩

/-- The effect of an operation on the file at its path. -/
def apply (op : DiskOp) (file : Option JournaledFile) : Option JournaledFile :=
  match op, file with
  | .create, none => some ⟨[], [], false⟩
  | .create, some f => some f
  | _, none => none
  | .syncDir, some f => some { f with named := true }
  | .syncData, some f => some ⟨f.content, [], f.named⟩
  | op, some f => some { f with pending := f.pending ++ [op] }

/-- Run operations in order. -/
def run (ops : List DiskOp) (file : Option JournaledFile) : Option JournaledFile :=
  ops.foldl (fun file op => apply op file) file

/-- What a power loss may leave: the flushed content with any of the later changes, or no file when
the name is not durable. -/
def Leaves (file : JournaledFile) (disk : Option (List UInt8)) : Prop :=
  (∃ kept, kept <+ file.pending ∧ disk = some (kept.foldl DiskOp.edit file.synced)) ∨
    (file.named = false ∧ disk = none)

/-- An operation changes the file without its journal as it changes any file. -/
theorem apply_view (op : DiskOp) (file : Option JournaledFile) :
    (apply op file).map view = op.apply (file.map view) := by
  cases file with
  | none => cases op <;> rfl
  | some f =>
    cases op with
    | create | syncDir | syncData => rfl
    | setSize size | write position bytes =>
      simp [apply, DiskOp.apply, view, content, foldl_append, DiskOp.edit]

theorem run_view (ops : List DiskOp) (file : Option JournaledFile) :
    (run ops file).map view = runOps ops (file.map view) := by
  induction ops generalizing file with
  | nil => rfl
  | cons op ops ih =>
    show (run ops (apply op file)).map view = runOps ops (op.apply (file.map view))
    rw [ih, apply_view]

/-- A power loss that keeps only what was flushed is one of those that can happen. -/
theorem leaves_powerLoss (file : JournaledFile) :
    file.Leaves (file.view.powerLoss.map DiskFile.content) := by
  cases hnamed : file.named with
  | false => exact .inr ⟨hnamed, by simp [DiskFile.powerLoss, view, hnamed]⟩
  | true => exact .inl ⟨[], nil_sublist _, by simp [DiskFile.powerLoss, view, hnamed]⟩

end JournaledFile

/-! ## Writes -/

theorem resize_of_le {bytes : List UInt8} {size : Nat} (h : size ≤ bytes.length) :
    resize bytes size = bytes.take size := by
  rw [resize, Nat.sub_eq_zero_of_le h]
  simp

@[simp] theorem length_resize (bytes : List UInt8) (size : Nat) :
    (resize bytes size).length = size := by
  rw [resize, length_append, length_take, length_replicate]
  omega

/-- The bytes that a write puts in a file. -/
theorem getElem?_writeAt_of_mem {content bytes : List UInt8} {position i : Nat}
    (hle : position ≤ i) (hlt : i < position + bytes.length) :
    (writeAt content position bytes)[i]? = bytes[i - position]? := by
  rw [writeAt, append_assoc, getElem?_append_right (by rwa [length_resize]),
    length_resize, getElem?_append_left (by omega)]

/-- A byte of the file that a write does not reach. -/
theorem getElem?_writeAt_of_not_mem {content bytes : List UInt8} {position i : Nat}
    (hi : i < content.length) (hout : i < position ∨ position + bytes.length ≤ i) :
    (writeAt content position bytes)[i]? = content[i]? := by
  rcases hout with hlt | hle
  · rw [writeAt, append_assoc, getElem?_append_left (by rwa [length_resize]), resize,
      getElem?_append_left (by simp only [length_take]; omega),
      getElem?_take_of_lt hlt, getElem?_take_of_lt hlt]
  · rw [writeAt, getElem?_append_right (by rw [length_append, length_resize]; omega),
      length_append, length_resize, getElem?_drop]
    congr 1
    omega

/-- A write inside a file keeps what is before it and what is behind it. -/
theorem writeAt_append (front back bytes : List UInt8) :
    writeAt (front ++ back) front.length bytes = front ++ bytes ++ back.drop bytes.length := by
  rw [writeAt, take_left' rfl, resize_of_le (Nat.le_refl _), take_length, drop_append,
    drop_eq_nil_of_le (Nat.le_add_right _ _), Nat.add_sub_cancel_left, nil_append]

/-- A write at the end of a file appends to it. -/
theorem writeAt_length (content bytes : List UInt8) :
    writeAt content content.length bytes = content ++ bytes := by
  have := writeAt_append content [] bytes
  rwa [append_nil, drop_nil, append_nil] at this

/-! ## Torn writes -/

section Tear

variable (sector : Nat) (kept : Nat → Bool) (bytes : List UInt8)

@[simp] theorem length_tear : (tear sector kept bytes).length = bytes.length := by
  rw [tear, length_map, length_zipIdx]

/-- The front of torn bytes up to a position is what is left of the front. -/
theorem take_tear (n : Nat) :
    (tear sector kept bytes).take n = tear sector kept (bytes.take n) := by
  apply ext_getElem?
  intro i
  simp only [tear, getElem?_take, getElem?_map, getElem?_zipIdx]
  split <;> rfl

/-- What is left behind whole sectors is what is left of the bytes behind them. -/
theorem drop_tear (hsector : 0 < sector) (n : Nat) :
    (tear sector kept bytes).drop (sector * n) =
      tear sector (fun i => kept (i + n)) (bytes.drop (sector * n)) := by
  apply ext_getElem?
  intro i
  simp only [tear, getElem?_drop, getElem?_map, getElem?_zipIdx, Nat.zero_add,
    Option.map_map, Function.comp_def, Nat.mul_add_div hsector, Nat.add_comm n]

variable {sector kept bytes}

/-- A byte that is zero stays zero. -/
theorem getElem?_tear_of_zero {i : Nat} (h : bytes[i]? = some 0) :
    (tear sector kept bytes)[i]? = some 0 := by
  simp only [tear, getElem?_map, getElem?_zipIdx, h, Option.map_some, ite_self]

/-- Bytes all sectors of which were kept are whole. -/
theorem tear_of_kept (h : ∀ i < bytes.length, kept (i / sector) = true) :
    tear sector kept bytes = bytes := by
  apply ext_getElem
  · exact length_tear sector kept bytes
  · intro i _ hi
    simp only [tear, getElem_map, getElem_zipIdx, Nat.zero_add, h i hi, if_true]

/-- Bytes no sector of which was kept are zeros. -/
theorem tear_of_lost (h : ∀ i < bytes.length, kept (i / sector) = false) :
    tear sector kept bytes = replicate bytes.length 0 := by
  apply ext_getElem
  · rw [length_tear, length_replicate]
  · intro i hi _
    rw [length_tear] at hi
    simp only [tear, getElem_map, getElem_zipIdx, Nat.zero_add, h i hi,
      Bool.false_eq_true, if_false, getElem_replicate]

end Tear

end Rsl.Lib
