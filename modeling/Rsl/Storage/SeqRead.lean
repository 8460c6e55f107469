import Mathlib.Data.List.Basic
import Rsl.Wire.Fprint

/-!
# The sequential reader of the storage crate

`seqread.rs`: a ring of buffers that reader threads keep filled ahead of the caller. Block `i` goes
through slot `i % slots`. A thread claims the next block number, waits until the slot of that block
is free, reads the block without the lock and publishes it; the caller takes the blocks in order and
gives each buffer back when it has drained it.

The state is that of the ring behind its mutex, of every thread and of the caller; an event is one
critical section of one of them, so a list of events is a schedule. A wait on the condition variable
ends whenever the scheduler says so (`wake`): a wake-up says nothing about who was woken first, and
may be spurious.

A run returns the bytes of the file in order (`System.run_inOrder`) as long as no thread claims a
block whose slot another thread is still waiting for (`System.guarded`). A claim of that kind can
overtake: the later block is then published in the slot where the caller expects the earlier one.
-/

set_option autoImplicit false

namespace Rsl.Storage.SeqRead

open Wire (Bytes)

/-- `SECTOR`. -/
def sector : Nat := 4096

/-- `SeqReaderConfig`. -/
structure SeqReaderConfig where
  threads : Nat
  slots : Nat
  block : Nat
  deriving DecidableEq, Repr

/-- `SeqReaderConfig::validate`. -/
def SeqReaderConfig.validate (config : SeqReaderConfig) : Except String Unit :=
  if config.threads = 0 ∨ config.slots = 0 ∨ config.block = 0 then
    .error "SeqReaderConfig: threads, slots and block must all be non-zero"
  else if config.slots < config.threads then
    .error ("SeqReaderConfig: slots (" ++ toString config.slots ++ ") must be >= threads (" ++
      toString config.threads ++ "), or readers stall waiting for slots the caller has not reached")
  else if config.block % sector ≠ 0 then
    .error ("SeqReaderConfig: block (" ++ toString config.block ++ ") must be a multiple of " ++
      toString sector ++ "; unbuffered reads are rejected outright when the length is not " ++
      "sector-aligned")
  else .ok ()

/-- `AlignedBuf`: the aligned window and how much of it counts. -/
structure AlignedBuf where
  window : Bytes
  filled : Nat
  deriving DecidableEq, Repr

/-- `AlignedBuf::data`. -/
def AlignedBuf.data (buf : AlignedBuf) : Bytes := buf.window.take buf.filled

/-- `RingInner`. Slots are counted from zero; `err` says whether an error is stored. -/
structure Ring where
  bufs : Nat → Option AlignedBuf
  ready : Nat → Bool
  head : Nat
  next : Nat
  blocks : Nat
  err : Bool
  stop : Bool

/-- Where a thread of `fill_loop` is between two critical sections. -/
inductive Worker where
  /-- At the top of the loop. -/
  | idle
  /-- It has claimed a block and waits for the slot. -/
  | waiting (idx : Nat)
  /-- It holds the slot's buffer and reads the block. -/
  | filling (idx : Nat) (buf : AlignedBuf)
  | exited
  deriving DecidableEq, Repr

/-- Where the caller is. A call of `read` is known by the length of its buffer. -/
inductive Caller where
  | outside
  /-- At the top of the loop of `read`. -/
  | turning (len : Nat)
  /-- In `read`, waiting for the block at `head`. -/
  | waiting (len : Nat)
  | dropped
  deriving DecidableEq, Repr

/-- The fields of `SeqReader` that `read` works on. -/
structure SeqReader where
  cur : Option AlignedBuf
  curSlot : Nat
  pos : Nat
  skip : Nat
  done : Bool
  fileSize : Nat

/-- A reader at work on a file: the arguments of `fill_loop`, the ring, the threads and the caller,
and what the caller has been told: the bytes so far, and whether a read into a buffer that is not
empty has returned `Ok(0)`. -/
structure System where
  config : SeqReaderConfig
  file : Bytes
  base : Nat
  want : Nat
  ring : Ring
  workers : Nat → Worker
  reader : SeqReader
  caller : Caller
  returned : Bytes
  eof : Bool

/-- `SeqReader::open_at` on a file that can be opened. -/
def openAt (file : Bytes) (offset : Nat) (config : SeqReaderConfig) : Except String System :=
  match config.validate with
  | .error e => .error e
  | .ok () =>
    let fileSize := file.length
    let start := min offset fileSize
    let aligned := start - start % sector
    let want := fileSize - aligned
    -- `div_ceil`
    let blocks := (want + config.block - 1) / config.block
    .ok
      { config := config
        file := file
        base := aligned
        want := want
        ring :=
          { bufs := fun _ => some { window := List.replicate config.block 0, filled := 0 }
            ready := fun _ => false
            head := 0
            next := 0
            blocks := blocks
            err := false
            stop := false }
        workers := fun _ => .idle
        reader :=
          { cur := none
            curSlot := 0
            pos := 0
            skip := start - aligned
            done := decide (blocks = 0)
            fileSize := fileSize }
        caller := .outside
        returned := []
        eof := false }

/-! ### The reader threads -/

/-- What one positional read of the platform does. -/
inductive Transfer where
  | bytes (k : Nat)
  | interrupted
  | failed
  deriving DecidableEq, Repr

/-- What a platform may answer at `offset + n` of a file, for a buffer of `len` bytes of which `n`
are filled: no more than there is room for and than the file has, and fewer only by whole sectors or
at the end of the file. -/
def Transfer.allowed (size offset len n : Nat) : Transfer → Bool
  | .bytes k =>
    k ≤ len - n && offset + n + k ≤ size &&
      ((0 < k && (n + k) % sector = 0) || offset + n + k = size || n + k = len)
  | .interrupted => true
  | .failed => true

/-- `read_at` from the point where `n` bytes have been read: how many have been read when it
returns. `none` when the loop would go on after these transfers, or the platform would not make
them. -/
def readAt (size offset len : Nat) (n : Nat) : List Transfer → Option (Except Unit Nat)
  | [] => if n < len then none else some (.ok n)
  | transfer :: more =>
    if n < len then
      if transfer.allowed size offset len n then
        match transfer with
        | .bytes 0 => some (.ok n)
        | .bytes k => if (n + k) % sector ≠ 0 then some (.ok (n + k))
                      else readAt size offset len (n + k) more
        | .interrupted => readAt size offset len n more
        | .failed => some (.error ())
      else none
    else some (.ok n)

namespace System

/-- The slot of a block. -/
def slotOf (s : System) (idx : Nat) : Nat := idx % s.config.slots

/-- Move thread `t`. -/
def setWorker (s : System) (t : Nat) (w : Worker) : System :=
  { s with workers := Function.update s.workers t w }

/-- One turn of the waiting loop of `fill_loop`: leave, take the free slot's buffer, or wait. -/
def tryTake (s : System) (t idx : Nat) : System :=
  let g := s.ring
  let slot := s.slotOf idx
  if g.stop || g.err then s.setWorker t .exited
  else match g.ready slot, g.bufs slot with
    | false, some buf =>
      { s with ring := { g with bufs := Function.update g.bufs slot none } }.setWorker t
        (.filling idx buf)
    | _, _ => s.setWorker t (.waiting idx)

/-- The critical section at the top of `fill_loop`: leave, or claim the next block. -/
def claim (s : System) (t : Nat) : System :=
  let g := s.ring
  if g.stop || g.err || g.blocks ≤ g.next then s.setWorker t .exited
  else { s with ring := { g with next := g.next + 1 } }.tryTake t g.next

/-- The read of a block and the critical section after it. The file has only grown since the
reader was opened, by `appended`. -/
def publish (s : System) (t idx : Nat) (buf : AlignedBuf) (appended : Bytes)
    (transfers : List Transfer) : Option System :=
  let g := s.ring
  let slot := s.slotOf idx
  let start := s.base + idx * s.config.block
  let take := min (s.want - idx * s.config.block) s.config.block
  let content := s.file ++ appended
  match readAt content.length start s.config.block 0 transfers with
  | none => none
  | some (.error ()) =>
    some ({ s with ring :=
              { g with err := true, bufs := Function.update g.bufs slot (some buf) } }.setWorker t
            .exited)
  | some (.ok n) =>
    let buf := { window := (content.drop start).take n ++ buf.window.drop n, filled := min n take }
    some ({ s with
              ring := { g with
                bufs := Function.update g.bufs slot (some buf)
                ready := Function.update g.ready slot true } }.setWorker t .idle)

/-! ### The caller -/

/-- `return Ok(0)` from a read of `len` bytes. -/
def returnZero (s : System) (len : Nat) : System :=
  { s with caller := .outside, eof := s.eof || decide (0 < len) }

/-- The end of a turn of `read`: copy out what the current buffer has, or go round again. -/
def deliver (s : System) (len : Nat) : System :=
  match s.reader.cur with
  | none => s
  | some buf =>
    let data := buf.data
    if data.length ≤ s.reader.pos then
      if data = [] then { s with reader := { s.reader with done := true } }.returnZero len
      else { s with caller := .turning len }
    else
      let n := min len (data.length - s.reader.pos)
      { s with
        reader := { s.reader with pos := s.reader.pos + n }
        caller := .outside
        returned := s.returned ++ (data.drop s.reader.pos).take n }

/-- One turn of the waiting loop of `read`, and the rest of the turn of its outer loop when the
block is there. -/
def await (s : System) (len : Nat) : System :=
  let g := s.ring
  let slot := s.slotOf g.head
  if g.err then
    { s with
      ring := { g with err := false }
      reader := { s.reader with done := true }
      caller := .outside }
  else match g.ready slot, g.bufs slot with
    | true, some buf =>
      let dropNow := min s.reader.skip buf.filled
      { s with
        ring := { g with bufs := Function.update g.bufs slot none, head := g.head + 1 }
        reader := { s.reader with
          cur := some buf, curSlot := slot, pos := dropNow, skip := s.reader.skip - dropNow }
        }.deliver len
    | _, _ => { s with caller := .waiting len }

/-- The drained buffer goes back to its own slot. -/
def giveBack (s : System) : System :=
  match s.reader.cur with
  | none => s
  | some buf =>
    { s with
      ring := { s.ring with
        bufs := Function.update s.ring.bufs s.reader.curSlot (some buf)
        ready := Function.update s.ring.ready s.reader.curSlot false }
      reader := { s.reader with cur := none } }

/-- Whether `read` has to go to the ring: no buffer, or a drained one. -/
def drained (s : System) : Bool :=
  match s.reader.cur with
  | none => true
  | some buf => buf.filled ≤ s.reader.pos

/-- One turn of the loop of `read`. -/
def turn (s : System) (len : Nat) : System :=
  if s.drained then
    if s.reader.done then s.returnZero len
    else
      let s := s.giveBack
      if s.ring.blocks ≤ s.ring.head then
        { s with reader := { s.reader with done := true } }.returnZero len
      else s.await len
  else s.deliver len

/-- `Drop for SeqReader`, up to the join of the threads. -/
def dropReader (s : System) : System :=
  { s.giveBack with ring := { s.giveBack.ring with stop := true }, caller := .dropped }

end System

/-- One critical section of a thread or of the caller, or the start of a call. -/
inductive Event where
  | claim (t : Nat)
  | wake (t : Nat)
  | publish (t : Nat) (appended : Bytes) (transfers : List Transfer)
  | call (len : Nat)
  | turn
  | wakeCaller
  | dropReader
  deriving DecidableEq, Repr

namespace System

/-- One event; `none` when it cannot happen here. -/
def step (s : System) : Event → Option System
  | .claim t =>
    if t < s.config.threads then
      match s.workers t with
      | .idle => some (s.claim t)
      | _ => none
    else none
  | .wake t =>
    match s.workers t with
    | .waiting idx => some (s.tryTake t idx)
    | _ => none
  | .publish t appended transfers =>
    match s.workers t with
    | .filling idx buf => s.publish t idx buf appended transfers
    | _ => none
  | .call len =>
    match s.caller with
    | .outside => some { s with caller := .turning len }
    | _ => none
  | .turn =>
    match s.caller with
    | .turning len => some (s.turn len)
    | _ => none
  | .wakeCaller =>
    match s.caller with
    | .waiting len => some (s.await len)
    | _ => none
  | .dropReader =>
    match s.caller with
    | .outside => some s.dropReader
    | _ => none

/-- A schedule. -/
def run (s : System) : List Event → Option System
  | [] => some s
  | event :: events => (s.step event).bind fun s' => s'.run events

/-- What the caller may rely on: the bytes are those of the file from the start offset on, and the
end of the file is reported only after the last of them. -/
structure InOrder (s : System) (file : Bytes) (offset : Nat) : Prop where
  bytes : s.returned <+: file.drop offset
  complete : s.eof = true → s.returned = file.drop offset

/-- Whether some thread waits for the slot of block `idx`. -/
def awaited (s : System) (idx : Nat) : Bool :=
  (List.range s.config.threads).any fun t =>
    match s.workers t with
    | .waiting other => s.slotOf other = s.slotOf idx
    | _ => false

/-- A claim takes a block whose slot no thread waits for, and no read of the file fails. -/
def guarded (s : System) : Event → Bool
  | .claim _ => s.ring.blocks ≤ s.ring.next || !s.awaited s.ring.next
  | .publish _ _ transfers => !transfers.contains .failed
  | _ => true

/-- Every event of the schedule is guarded in the state it happens in. -/
def allGuarded (s : System) : List Event → Bool
  | [] => true
  | event :: events =>
    s.guarded event && match s.step event with
      | none => true
      | some s' => s'.allGuarded events

end System

end Rsl.Storage.SeqRead
