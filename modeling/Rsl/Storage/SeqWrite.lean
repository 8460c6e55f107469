import Rsl.Lib.Disk
import Rsl.Storage.SeqRead

/-!
# The sequential writer of the storage crate

`seqwrite.rs`: the caller fills the buffer of slot `i % slots` and publishes it as block `i`; writer
threads take published buffers out of the ring, write them at `i * block` and give the slot back. On
an inline device the caller issues the blocks itself.

As for the reader (`Rsl.Storage.SeqRead`), the state is that of the ring, of every thread and of the
caller, and an event is one critical section, one transfer of the device or the start of a call. A
call is finished when its reply is appended to `replies`.

`System.run_honest` says what the caller may rely on. It needs that the caller stops after an error:
`check_err`, `publish` and `take_slot` take the stored error out of the ring, so nothing remembers
it once it has been reported.
-/

set_option autoImplicit false

namespace Rsl.Storage.SeqWrite

open Wire (Bytes)
open SeqRead (sector AlignedBuf)
open Lib (resize writeAt)

/-- Offsets and the count of written bytes are of type `u64`. -/
def word : Nat := 2 ^ 64

/-- `SeqWriterConfig`. -/
structure SeqWriterConfig where
  threads : Nat
  slots : Nat
  block : Nat
  deriving DecidableEq, Repr

/-- `SeqWriterConfig::validate`. -/
def SeqWriterConfig.validate (config : SeqWriterConfig) : Except String Unit :=
  if config.threads = 0 ∨ config.block = 0 then
    .error "SeqWriterConfig: threads and block must be non-zero"
  else if config.slots < 2 then
    .error ("SeqWriterConfig: slots must be >= 2; a ring of one is APSEQWRITE's " ++
      "legal-but-pointless depth 1 (apdiskio.cpp:661), which overlaps nothing")
  else if config.slots < config.threads then
    .error ("SeqWriterConfig: slots (" ++ toString config.slots ++ ") must be >= threads (" ++
      toString config.threads ++ "), or writers idle waiting for slots the caller has not filled")
  else if config.block % sector ≠ 0 then
    .error ("SeqWriterConfig: block (" ++ toString config.block ++ ") must be a multiple of " ++
      toString sector ++ "; unbuffered writes are rejected outright when the length is not " ++
      "sector-aligned")
  else .ok ()

/-- `RingInner`. Slots are counted from zero; `err` says whether an error is stored. -/
structure Ring where
  bufs : Nat → Option AlignedBuf
  pending : Nat → Option Nat
  closed : Bool
  err : Bool

/-- Where a thread of `drain_loop` is between two critical sections. -/
inductive Worker where
  /-- At the top of the loop. -/
  | idle
  /-- It has claimed a slot and writes the block. -/
  | writing (slot idx : Nat) (buf : AlignedBuf)
  /-- The write has returned, and the slot goes back next. -/
  | releasing (slot : Nat) (buf : AlignedBuf) (ok : Bool)
  | exited
  deriving DecidableEq, Repr

/-- The calls of the writer's interface. -/
inductive Call where
  | write (data : Bytes)
  | flush
  | finish
  deriving DecidableEq, Repr

/-- What a call came to. -/
inductive Reply where
  /-- A `write` returned `Ok` with the length of these bytes. -/
  | wrote (data : Bytes)
  | flushed
  | finished (n : Nat)
  | error
  /-- The call did not return: it panicked. -/
  | panic
  deriving DecidableEq, Repr

/-- The locals of `write`: the bytes that are copied and those that are left. `room` is known
between the two calls of `available` of one turn. -/
structure Progress where
  done : Bytes
  rest : Bytes
  room : Option Nat
  deriving DecidableEq, Repr

/-- Where the caller is. -/
inductive Caller where
  | outside
  /-- In `available`, before its `check_err`. -/
  | checking (p : Progress)
  /-- In `rotate`, before its `publish`. -/
  | rotating (p : Progress)
  /-- In `rotate`, in the loop of `take_slot`. -/
  | taking (p : Progress)
  /-- In `flush`. -/
  | flushing
  /-- In `finish_inner`, before the tail is handed over. -/
  | finishing
  /-- In `finish_inner`, before the ring is closed. -/
  | closing
  /-- In `finish_inner`, joining the threads. -/
  | joining
  /-- In `finish_inner`, before `set_len_durable`. -/
  | truncating
  /-- After `finish`, or after a panic. -/
  | gone
  deriving DecidableEq, Repr

/-- What the device answers to a write of a block or to `set_len_durable`. A write that fails may
have stored a prefix of `stored` bytes, a length that could not be made durable may have been
set. -/
inductive Answer where
  | done
  | failed (stored : Nat)
  deriving DecidableEq, Repr

/-- What a write of `data` stores. -/
def Answer.stored (data : Bytes) : Answer → Bytes
  | .done => data
  | .failed k => data.take k

/-- A positional write; one that stores nothing does not extend the file. -/
def put (content : Bytes) (position : Nat) (bytes : Bytes) : Bytes :=
  if bytes = [] then content else writeAt content position bytes

/-- A writer at work: the fields of `SeqWriter`, the ring, the threads, the caller, the content of
the file, and what the calls have come to. -/
structure System where
  config : SeqWriterConfig
  inline : Bool
  ring : Ring
  workers : Nat → Worker
  cur : Option AlignedBuf
  curIndex : Nat
  written : Nat
  caller : Caller
  content : Bytes
  replies : List Reply

/-- `AlignedBuf::new`. -/
def newBuf (block : Nat) : AlignedBuf := { window := List.replicate block 0, filled := 0 }

/-- `SeqWriter::create_on`, on a device that can create the file. The threads find nothing to do
before `take_slot(0)` returns, which it does at once. -/
def createOn (inline : Bool) (config : SeqWriterConfig) : Except String System :=
  match config.validate with
  | .error e => .error e
  | .ok () =>
    .ok
      { config := config
        inline := inline
        ring :=
          { bufs := Function.update (fun _ => some (newBuf config.block)) 0 none
            pending := fun _ => none
            closed := false
            err := false }
        workers := fun _ => .idle
        cur := some (newBuf config.block)
        curIndex := 0
        written := 0
        caller := .outside
        content := []
        replies := [] }

namespace System

/-- The slot of a block. -/
def slotOf (s : System) (idx : Nat) : Nat := idx % s.config.slots

/-- Move thread `t`. -/
def setWorker (s : System) (t : Nat) (w : Worker) : System :=
  { s with workers := Function.update s.workers t w }

/-- Put `buf` and `pending` in a slot. -/
def setSlot (s : System) (slot : Nat) (buf : Option AlignedBuf) (pending : Option Nat) : System :=
  { s with ring := { s.ring with
      bufs := Function.update s.ring.bufs slot buf
      pending := Function.update s.ring.pending slot pending } }

/-- `g.err.take()` of a stored error. -/
def takeErr (s : System) : System := { s with ring := { s.ring with err := false } }

/-- A call returns to the caller. -/
def reply (s : System) (r : Reply) : System :=
  { s with caller := .outside, replies := s.replies ++ [r] }

/-- The last call returns, or a call unwinds. -/
def leave (s : System) (r : Reply) : System :=
  { s with caller := .gone, replies := s.replies ++ [r] }

/-- `write_block_at` at the offset of block `idx`. -/
def issue (s : System) (idx : Nat) (data : Bytes) (answer : Answer) : System :=
  { s with content := put s.content (idx * s.config.block % word) (answer.stored data) }

/-! ### The writer threads -/

/-- The critical section at the top of `drain_loop`: leave, claim a slot, or wait. -/
def claim (s : System) (t : Nat) : System :=
  let g := s.ring
  if g.err then s.setWorker t .exited
  else
    match (List.range s.config.slots).find? fun slot =>
      (g.pending slot).isSome && (g.bufs slot).isSome with
    | some slot =>
      match g.pending slot, g.bufs slot with
      | some idx, some buf =>
        (s.setSlot slot none (some idx)).setWorker t (.writing slot idx buf)
      | _, _ => s
    | none => if g.closed then s.setWorker t .exited else s

/-- The write of a claimed block. -/
def transfer (s : System) (t slot idx : Nat) (buf : AlignedBuf) (answer : Answer) : System :=
  (s.issue idx buf.data answer).setWorker t (.releasing slot buf (answer = .done))

/-- The critical section at the end of `drain_loop`. -/
def release (s : System) (t slot : Nat) (buf : AlignedBuf) (ok : Bool) : System :=
  let s := s.setSlot slot (some buf) none
  { s with ring := { s.ring with err := s.ring.err || !ok } }.setWorker t .idle

/-! ### The caller -/

/-- `publish`, and whether it returned `Ok`. -/
def publish (s : System) (idx : Nat) (buf : AlignedBuf) (answer : Answer) : System × Bool :=
  let slot := s.slotOf idx
  if s.inline then
    let ok := decide (answer = .done)
    let s := (s.issue idx buf.data answer).setSlot slot (some buf) none
    ({ s with ring := { s.ring with err := s.ring.err || !ok } }, ok)
  else if s.ring.err then (s.takeErr, false)
  else (s.setSlot slot (some buf) (some idx), true)

/-- The top of the loop of `write`. -/
def turn (s : System) (done rest : Bytes) : System :=
  if rest = [] then s.reply (.wrote done)
  else { s with caller := .checking { done := done, rest := rest, room := none } }

/-- `commit` of `n` bytes, which are in the window already. -/
def commit (s : System) (buf : AlignedBuf) (n : Nat) : Option System :=
  if s.config.block - buf.filled < n then none
  else some
    { s with
      cur := some { buf with filled := buf.filled + n }
      written := (s.written + n) % word }

/-- The rest of the turn of `write` once `available` has a buffer that is not full. -/
def fill (s : System) (p : Progress) : System :=
  match s.cur with
  | none => s.leave .panic
  | some buf =>
    -- `buf.window()[filled..block]`
    if s.config.block < buf.filled ∨ buf.window.length < s.config.block then s.leave .panic
    else
      let available := s.config.block - buf.filled
      match p.room with
      | none =>
        { s with caller := .checking { p with room := some (min available p.rest.length) } }
      | some room =>
        if available < room ∨ p.rest.length < room then s.leave .panic
        else
          let buf := { buf with
            window := buf.window.take buf.filled ++ p.rest.take room ++
              buf.window.drop (buf.filled + room) }
          match s.commit buf room with
          | none => s.reply .error
          | some s => s.turn (p.done ++ p.rest.take room) (p.rest.drop room)

/-- `available`, up to the `publish` of `rotate`. -/
def available (s : System) (p : Progress) : System :=
  if s.ring.err then s.takeErr.reply .error
  else
    match s.cur with
    | none => { s with caller := .rotating p }
    | some buf => if buf.filled = s.config.block then { s with caller := .rotating p } else s.fill p

/-- `rotate`, up to `take_slot`. -/
def rotate (s : System) (p : Progress) (answer : Answer) : System :=
  match s.cur with
  | none => s.leave .panic
  | some buf =>
    match { s with cur := none }.publish s.curIndex buf answer with
    | (s, false) => s.reply .error
    | (s, true) => { s with curIndex := s.curIndex + 1, caller := .taking p }

/-- One turn of the loop of `take_slot`, and the rest of `available` when the slot is free. -/
def takeSlot (s : System) (p : Progress) : System :=
  let slot := s.slotOf s.curIndex
  if s.ring.err then s.takeErr.reply .error
  else
    match s.ring.pending slot, s.ring.bufs slot with
    | none, some buf =>
      { s.setSlot slot none none with cur := some { buf with filled := 0 } }.fill p
    | _, _ => s

/-- `n.next_multiple_of(SECTOR)`. -/
def nextMultiple (n : Nat) : Nat := (n + sector - 1) / sector * sector

/-- `buf.window()[filled..pad].fill(0)`, and `filled` set to `pad`. -/
def padTo (buf : AlignedBuf) (pad : Nat) : AlignedBuf :=
  { window := buf.window.take buf.filled ++ List.replicate (pad - buf.filled) 0 ++
      buf.window.drop pad
    filled := pad }

/-- The first part of `finish_inner`: hand over the tail. -/
def handOver (s : System) (answer : Answer) : System :=
  match s.cur with
  | none => { s with caller := .closing }
  | some buf =>
    let s := { s with cur := none }
    if 0 < buf.filled then
      let pad := nextMultiple buf.filled
      if buf.window.length < pad then s.leave .panic
      else
        match s.publish s.curIndex (padTo buf pad) answer with
        | (s, false) => s.leave .error
        | (s, true) => { s with caller := .closing }
    else
      let slot := s.slotOf s.curIndex
      { s.setSlot slot (some buf) (s.ring.pending slot) with caller := .closing }

/-- Whether all threads have left their loop. -/
def joined (s : System) : Bool :=
  s.inline || (List.range s.config.threads).all fun t => decide (s.workers t = .exited)

/-- The `check_err` behind the join. -/
def checkJoined (s : System) : System :=
  if s.ring.err then s.takeErr.leave .error else { s with caller := .truncating }

/-- `set_len_durable`. -/
def setLen (s : System) (answer : Answer) : System :=
  match answer with
  | .done => { s with content := resize s.content s.written }.leave (.finished s.written)
  | .failed 0 => s.leave .error
  | .failed _ => { s with content := resize s.content s.written }.leave .error

/-- The start of a call. -/
def call (s : System) : Call → System
  | .write data => s.turn [] data
  | .flush => { s with caller := .flushing }
  | .finish => { s with caller := .finishing }

/-- The next critical section or transfer of the caller; `none` when it is in no call, or waits for
a thread to leave. -/
def advance (s : System) (answer : Answer) : Option System :=
  match s.caller with
  | .outside => none
  | .checking p => some (s.available p)
  | .rotating p => some (s.rotate p answer)
  | .taking p => some (s.takeSlot p)
  | .flushing => some (if s.ring.err then s.takeErr.reply .error else s.reply .flushed)
  | .finishing => some (s.handOver answer)
  | .closing => some { s with ring := { s.ring with closed := true }, caller := .joining }
  | .joining => if s.joined then some s.checkJoined else none
  | .truncating => some (s.setLen answer)
  | .gone => none

end System

/-- One critical section or transfer of a thread or of the caller, or the start of a call. -/
inductive Event where
  | claim (t : Nat)
  | transfer (t : Nat) (answer : Answer)
  | release (t : Nat)
  | call (c : Call)
  | advance (answer : Answer)
  deriving DecidableEq, Repr

namespace System

/-- One event; `none` when it cannot happen here. -/
def step (s : System) : Event → Option System
  | .claim t =>
    if t < s.config.threads ∧ s.inline = false then
      match s.workers t with
      | .idle => some (s.claim t)
      | _ => none
    else none
  | .transfer t answer =>
    match s.workers t with
    | .writing slot idx buf => some (s.transfer t slot idx buf answer)
    | _ => none
  | .release t =>
    match s.workers t with
    | .releasing slot buf ok => some (s.release t slot buf ok)
    | _ => none
  | .call c =>
    match s.caller with
    | .outside => some (s.call c)
    | _ => none
  | .advance answer => s.advance answer

/-- A schedule. -/
def run (s : System) : List Event → Option System
  | [] => some s
  | event :: events => (s.step event).bind fun s' => s'.run events

end System

/-- The bytes that a reply says are written. -/
def Reply.passed : Reply → Bytes
  | .wrote data => data
  | _ => []

namespace System

/-- The bytes passed to the successful writes, in order. -/
def passed (s : System) : Bytes := s.replies.flatMap Reply.passed

/-- What the caller may rely on. -/
structure Honest (s : System) : Prop where
  /-- `finish` returns `Ok(n)` only for a file with exactly the `n` bytes passed to the successful
  writes. -/
  finished : ∀ n, .finished n ∈ s.replies → s.content = s.passed ∧ n = s.passed.length
  /-- After an error every call fails. -/
  sticky : s.replies.Pairwise fun earlier later => earlier = .error → later = .error
  noPanic : .panic ∉ s.replies

/-- A call is made while no call has reported an error, or while a further error is stored that the
call is going to look for; and the bytes of the file can be counted. -/
def guarded (s : System) : Event → Bool
  | .call c =>
    (!s.replies.contains .error || (s.ring.err && c ≠ .write [])) &&
      match c with
      | .write data => s.passed.length + data.length < word
      | _ => true
  | _ => true

/-- Every event of the schedule is guarded in the state it happens in. -/
def allGuarded (s : System) : List Event → Bool
  | [] => true
  | event :: events =>
    s.guarded event && match s.step event with
      | none => true
      | some s' => s'.allGuarded events

end System

end Rsl.Storage.SeqWrite
