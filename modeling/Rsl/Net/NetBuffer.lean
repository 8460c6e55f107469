import Rsl.Lib.RingBuffer
import Rsl.Wire.Fprint

/-!
# `NetBuffer` is a queue

`NetBuffer` is a ring, and its callers split the work on it: `CopyFrom` puts bytes into the free
space at any offset and `Fill` makes the next bytes readable; `CopyTo` copies readable bytes out and
`Consume` drops them. Every `LogAssert` that fails ends the process (`none`). The abstract queue
holds the readable bytes and those in the free space, in the order in which they will be filled.
-/

set_option autoImplicit false

namespace Rsl.Net

open Wire Lib RingBuffer List

/-- `NetBuffer`, with positions counted from `m_Buffer` on. -/
abbrev NetBuffer := RingBuffer UInt8

namespace NetBuffer

variable (buf : NetBuffer)

/-- `NetBuffer::NetBuffer(int)`. -/
def new (memory : Nat → UInt8) (bufferSize : Nat) : NetBuffer := ⟨memory, bufferSize, 0, 0, false⟩

/-- `IsEmpty`. -/
def isEmpty : Bool := buf.start = buf.stop && !buf.full

/-- `ReadAvail`. -/
def readAvail : Nat := buf.length

/-- `WriteAvail`. -/
def writeAvail : Nat := buf.size - buf.readAvail

/-- `Consume`. -/
def consume (bytes : Nat) : Option NetBuffer :=
  if bytes ≤ buf.size then some (buf.pop bytes) else none

/-- `Fill`. -/
def fill (bytes : Nat) : Option NetBuffer :=
  if bytes ≤ buf.size then some (buf.advance bytes) else none

/-- `ContiguousReadAvail`. -/
def contiguousReadAvail : Option Nat :=
  if buf.full = true ∧ buf.start ≠ buf.stop then none else some buf.straight

/-- `ContiguousWriteAvail`. -/
def contiguousWriteAvail : Option Nat :=
  if buf.full = true ∧ buf.start ≠ buf.stop then none else some buf.room

/-- `CopyFrom`. -/
def copyFrom (src : Bytes) (offset : Nat) : Option NetBuffer :=
  if src.length + offset ≤ buf.writeAvail then
    some (buf.write (wrap buf.size (buf.stop + offset)) src)
  else none

/-- `CopyTo`. -/
def copyTo (size offset : Nat) : Option (Bytes) :=
  if size + offset ≤ buf.readAvail then
    some (buf.read (wrap buf.size (buf.start + offset)) size)
  else none

/-- `NetBuffer::NetBuffer(const NetBuffer &)`, into new memory. -/
def copy (memory : Nat → UInt8) : Option NetBuffer := do
  let data ← buf.copyTo buf.readAvail 0
  fill (new (store memory 0 data) buf.size) buf.readAvail

/-- What is called on a buffer. What comes after `copy` is called on the copy. -/
inductive Call
  | copyFrom (src : Bytes) (offset : Nat)
  | fill (bytes : Nat)
  | copyTo (size offset : Nat)
  | consume (bytes : Nat)
  | copy (memory : Nat → UInt8)

/-- The buffer after a call. -/
def call : Call → Option NetBuffer
  | .copyFrom src offset => buf.copyFrom src offset
  | .fill bytes => buf.fill bytes
  | .copyTo size offset => (buf.copyTo size offset).map fun _ => buf
  | .consume bytes => buf.consume bytes
  | .copy memory => buf.copy memory

end NetBuffer

/-- A bounded queue: its bytes, and the free space with what stands in it. -/
structure ByteQueue where
  readable : Bytes
  free : Bytes

namespace ByteQueue

variable (q : ByteQueue)

/-- An empty queue. -/
def new (memory : Nat → UInt8) (size : Nat) : ByteQueue := ⟨[], (range size).map memory⟩

/-- The call stays inside the free space or the readable bytes. -/
def Allows : NetBuffer.Call → Prop
  | .copyFrom src offset => offset + src.length ≤ q.free.length
  | .fill bytes => bytes ≤ q.free.length
  | .copyTo size offset => offset + size ≤ q.readable.length
  | .consume bytes => bytes ≤ q.readable.length
  | .copy _ => True

/-- The queue after a call. -/
def call : NetBuffer.Call → ByteQueue
  | .copyFrom src offset =>
    { q with free := q.free.take offset ++ (src ++ q.free.drop (offset + src.length)) }
  | .fill bytes => ⟨q.readable ++ q.free.take bytes, q.free.drop bytes⟩
  | .copyTo _ _ => q
  | .consume bytes => ⟨q.readable.drop bytes, q.free ++ q.readable.take bytes⟩
  | .copy memory =>
    { q with free := (range q.free.length).map fun i => memory (q.readable.length + i) }

/-- Every call of a sequence is allowed. -/
def AllowsAll (q : ByteQueue) : List NetBuffer.Call → Prop
  | [] => True
  | c :: cs => q.Allows c ∧ AllowsAll (q.call c) cs

end ByteQueue

/-! ## One call -/

/-- The ring holds the queue. -/
structure Holds (size : Nat) (buf : NetBuffer) (q : ByteQueue) : Prop where
  ok : buf.Ok
  size : buf.size = size
  readable : buf.toList = q.readable
  free : buf.free = q.free

/-- The readable contents, the counts, the flags and the two ranges are those of the queue. -/
structure Reports (size : Nat) (buf : NetBuffer) (q : ByteQueue) : Prop where
  copyTo : ∀ n offset, offset + n ≤ q.readable.length →
    buf.copyTo n offset = some ((q.readable.drop offset).take n)
  readAvail : buf.readAvail = q.readable.length
  capacity : buf.readAvail + buf.writeAvail = size
  full : buf.full = true ↔ q.readable.length = size
  empty : buf.isEmpty = true ↔ q.readable = []
  ranges : ∃ n m, buf.contiguousReadAvail = some n ∧ buf.contiguousWriteAvail = some m ∧
    buf.slice buf.start n = q.readable.take n ∧ (n = q.readable.length ∨ buf.start + n = size) ∧
    buf.slice buf.stop m = q.free.take m ∧ (m = q.free.length ∨ buf.stop + m = size) ∧
    buf.start + n ≤ size ∧ buf.stop + m ≤ size ∧
    (buf.start + n ≤ buf.stop ∨ buf.stop + m ≤ buf.start)

namespace Holds

variable {size : Nat} {buf : NetBuffer} {q : ByteQueue}

theorem new (memory : Nat → UInt8) (hsize : 0 < size) :
    Holds size (.new memory size) (.new memory size) := by
  have hrun := run_eq_slice (r := NetBuffer.new memory size) (Nat.zero_add size).le
  refine ⟨⟨hsize, hsize, nofun⟩, rfl, rfl, hrun.trans ?_⟩
  simp [slice, NetBuffer.new, ByteQueue.new]

section

variable (h : Holds size buf q)

include h

theorem length_eq : buf.length = q.readable.length := by
  rw [← h.readable, length_toList]

theorem length_add : q.readable.length + q.free.length = size := by
  rw [← h.length_eq, ← h.free, length_free, ← h.size]
  exact Nat.add_sub_of_le (length_le h.ok)

theorem copyTo {n offset : Nat} (hn : offset + n ≤ q.readable.length) :
    buf.copyTo n offset = some ((q.readable.drop offset).take n) := by
  rw [← h.length_eq] at hn
  rw [NetBuffer.copyTo, if_pos (by rwa [Nat.add_comm]), read_toList h.ok hn, h.readable]

theorem call (c : NetBuffer.Call) (hc : q.Allows c) :
    ∃ buf', buf.call c = some buf' ∧ Holds size buf' (q.call c) := by
  have hlen := h.length_eq
  have hsum := h.length_add
  have hsize := h.size
  cases c with
  | copyFrom src offset =>
    rw [ByteQueue.Allows] at hc
    obtain ⟨htoList, hfree⟩ := write_eq h.ok (by rwa [h.free])
    refine ⟨_, if_pos ?_, ok_write h.ok, h.size, htoList.trans h.readable, ?_⟩
    · rw [NetBuffer.writeAvail, NetBuffer.readAvail]
      omega
    · rw [hfree, h.free, ByteQueue.call]
  | fill bytes =>
    rw [ByteQueue.Allows] at hc
    have hle : buf.length + bytes ≤ buf.size := by omega
    obtain ⟨htoList, hfree⟩ := advance_eq h.ok hle
    rw [h.readable, h.free] at htoList
    rw [h.free] at hfree
    exact ⟨_, if_pos (by omega), ok_advance h.ok hle, h.size, htoList, hfree⟩
  | copyTo n offset => exact ⟨buf, by rw [NetBuffer.call, h.copyTo hc]; rfl, h⟩
  | consume bytes =>
    rw [ByteQueue.Allows] at hc
    have hle : bytes ≤ buf.length := by omega
    obtain ⟨htoList, hfree⟩ := pop_eq h.ok hle
    rw [h.readable] at htoList
    rw [h.readable, h.free] at hfree
    exact ⟨_, if_pos (by omega), ok_pop h.ok hle, h.size, htoList, hfree⟩
  | copy memory =>
    -- The copy is a new ring that the readable bytes are pushed on.
    have hnew := Holds.new memory (Nat.zero_lt_of_lt h.ok.start)
    have hroom : q.readable.length ≤ (NetBuffer.new memory buf.size).room := by
      show _ ≤ buf.size - 0
      omega
    have hdata : buf.copyTo buf.readAvail 0 = _ := h.copyTo (by rw [NetBuffer.readAvail]; omega)
    rw [NetBuffer.readAvail, hlen, drop_zero, take_length] at hdata
    obtain ⟨htoList, hfree⟩ := push_toList_free hnew.ok hroom
    have hmove : (ByteQueue.new memory buf.size).free.drop q.readable.length =
        (range q.free.length).map fun i => memory (q.readable.length + i) := by
      rw [ByteQueue.new, hsize, ← hsum, range_add, map_append, drop_left' (by simp), map_map]
      rfl
    rw [hnew.free, hmove] at hfree
    refine ⟨_, ?_, ok_push hnew.ok hroom, h.size, htoList, hfree⟩
    rw [NetBuffer.call, NetBuffer.copy, NetBuffer.readAvail, hlen, hdata]
    exact if_pos (by show _ ≤ buf.size; omega)

/-- A sequence of calls fails no assertion. -/
theorem calls (cs : List NetBuffer.Call) (hcs : q.AllowsAll cs) :
    ∃ buf', cs.foldlM NetBuffer.call buf = some buf' ∧
      Holds size buf' (cs.foldl ByteQueue.call q) := by
  induction cs generalizing buf q with
  | nil => exact ⟨buf, rfl, h⟩
  | cons c cs ih =>
    obtain ⟨buf₁, hcall, h₁⟩ := h.call c hcs.1
    obtain ⟨buf₂, hcalls, h₂⟩ := ih h₁ hcs.2
    exact ⟨buf₂, by rw [foldlM_cons, hcall]; exact hcalls, h₂⟩

theorem reports : Reports size buf q := by
  have hlen := h.length_eq
  have hsum := h.length_add
  have hsize := h.size
  have hstart := h.ok.start
  have hstop := h.ok.stop
  have hfull := h.ok.full
  refine ⟨fun n offset => h.copyTo, hlen, ?_, ?_, ?_, ?_⟩
  · rw [NetBuffer.writeAvail, NetBuffer.readAvail]
    omega
  · rw [← hlen, RingBuffer.length]
    split_ifs <;> simp_all <;> omega
  · rw [← length_eq_zero_iff, ← hlen, NetBuffer.isEmpty, RingBuffer.length, Bool.and_eq_true,
      decide_eq_true_eq, Bool.not_eq_true']
    split_ifs <;> simp_all <;> omega
  · have hguard : ¬ (buf.full = true ∧ buf.start ≠ buf.stop) := fun hg => hg.2 (hfull hg.1)
    have hn := straight_eq h.ok
    have hm := room_eq h.ok
    refine ⟨_, _, if_neg hguard, if_neg hguard, ?_, by omega, ?_, by omega, by omega, by omega, ?_⟩
    · rw [← h.readable]
      exact slice_eq h.ok (Nat.le_refl _) (by omega)
    · rw [← h.free]
      exact slice_stop h.ok
    · rw [straight, room]
      split_ifs with hf
      · exact .inr (hfull hf).ge
      all_goals omega

end

end Holds

/-- From a new buffer on, calls that stay inside the free space and the readable bytes fail no
assertion, and the buffer is the queue after the same calls. -/
theorem netBuffer_queue (memory : Nat → UInt8) {size : Nat} (hsize : 0 < size)
    (cs : List NetBuffer.Call) (hcs : (ByteQueue.new memory size).AllowsAll cs) :
    ∃ buf, cs.foldlM NetBuffer.call (.new memory size) = some buf ∧
      Reports size buf (cs.foldl ByteQueue.call (.new memory size)) := by
  obtain ⟨buf, hcalls, h⟩ := (Holds.new memory hsize).calls cs hcs
  exact ⟨buf, hcalls, h.reports⟩

/-- Three bytes around the end of two cells. -/
theorem netBuffer_queue_wrapped :
    ∃ buf, [.copyFrom [1, 2] 0, .fill 2, .consume 1, .copyFrom [3] 0, .fill 1].foldlM
      NetBuffer.call (.new (fun _ => 0) 2) = some buf ∧ Reports 2 buf ⟨[2, 3], []⟩ :=
  netBuffer_queue (fun _ => 0) (by decide) _
    (by simp [ByteQueue.AllowsAll, ByteQueue.Allows, ByteQueue.call, ByteQueue.new])

end Rsl.Net
