import Rsl.Cpp.StreamReader

/-!
# The Rust checkpoint reader

`CheckpointReader` of `checkpoint.rs` over a file with checksummed blocks: `next_block` and the
`Read` implementation on top of it. The stream below is a file and a position in it. `read_exact`
either fills the buffer, or fails after some of the bytes and leaves them in the buffer.

`verify_all` calls `next_block` until it fails or ends and `read_all` does the same with `read`, so
both are sequences of the calls modelled here. There is no seek and no skip.
-/

set_option autoImplicit false

namespace Rsl.Storage

open Wire
open Cpp (checksumSize blockMark)

/-- What `read_exact` of the stream below does. -/
inductive Exact where
  | filled
  | failed (k : Nat)
  deriving DecidableEq, Repr

/-- The errors of `next_block`. -/
inductive Reject where
  | blockTooShort
  | blockChecksum
  | io
  deriving DecidableEq, Repr

/-- `CheckpointReader` of a header with blocks. `position` is the one of `inner`. -/
structure BlockReader where
  file : Bytes
  headerLen : Nat
  position : Nat
  blockSize : Nat
  block : Bytes
  pos : Nat
  remaining : Nat
  deriving DecidableEq, Repr

namespace BlockReader

/-- `assemble`, with `inner` at the end of the header. -/
def assemble (file : Bytes) (headerLen blockSize : Nat) : BlockReader :=
  { file := file
    headerLen := headerLen
    position := headerLen
    blockSize := blockSize
    block := []
    pos := 0
    remaining := file.length - headerLen }

/-- `self.block.resize(on_disk, 0)`. -/
def resize (s : BlockReader) (onDisk : Nat) : BlockReader :=
  { s with block := s.block.take onDisk ++ List.replicate (onDisk - s.block.length) 0 }

/-- `self.inner.read_exact(&mut self.block)`; `none` when the stream would not answer so. -/
def readExact (s : BlockReader) : Exact → Option (BlockReader × Bool)
  | .filled =>
    if s.position + s.block.length ≤ s.file.length then
      some ({ s with
        block := (s.file.drop s.position).take s.block.length
        position := s.position + s.block.length }, true)
    else none
  | .failed k =>
    if k ≤ s.block.length ∧ s.position + k ≤ s.file.length then
      some ({ s with
        block := (s.file.drop s.position).take k ++ s.block.drop k
        position := s.position + k }, false)
    else none

/-- The end of `next_block`: the checksum. A block that fails it stays in `self.block`, token
included, and `pos` stays where it was. -/
def checkBlock (s : BlockReader) (onDisk : Nat) : BlockReader × Except Reject (Option Bytes) :=
  let dataLen := onDisk - checksumSize
  let stored := leNat (s.block.drop dataLen)
  if fingerprint (s.block.take dataLen) ≠ stored then (s, .error .blockChecksum)
  else ({ s with block := s.block.take dataLen, pos := 0 }, .ok (some (s.block.take dataLen)))

/-- `next_block`. -/
def nextBlock (s : BlockReader) (answer : Exact) :
    Option (BlockReader × Except Reject (Option Bytes)) :=
  if s.remaining = 0 then some (s, .ok none)
  else
    let onDisk := min s.remaining s.blockSize
    if onDisk ≤ checksumSize then some (s, .error .blockTooShort)
    else
      match (s.resize onDisk).readExact answer with
      | none => none
      | some (s, false) => some (s, .error .io)
      | some (s, true) => some ({ s with remaining := s.remaining - onDisk }.checkBlock onDisk)

/-- The end of `read`: the bytes behind `pos`. The slice panics when `pos` is behind the block. -/
def copyOut (s : BlockReader) (len : Nat) : Option (BlockReader × Bytes) :=
  if s.block.length < s.pos then none
  else
    let n := min len (s.block.length - s.pos)
    some ({ s with pos := s.pos + n }, (s.block.drop s.pos).take n)

/-- How a call of `read` ends. -/
inductive ReadEnd where
  | bytes (data : Bytes)
  | error (e : Reject)
  | panicked
  deriving DecidableEq, Repr

/-- `copyOut` as the end of a call. -/
def finishRead (s : BlockReader) (len : Nat) : BlockReader × ReadEnd :=
  match s.copyOut len with
  | none => (s, .panicked)
  | some (s, data) => (s, .bytes data)

/-- `read` into a buffer of `len` bytes. -/
def read (s : BlockReader) (len : Nat) (answer : Exact) : Option (BlockReader × ReadEnd) :=
  if len = 0 then some (s, .bytes [])
  else if s.pos = s.block.length then
    match s.nextBlock answer with
    | none => none
    | some (s, .error e) => some (s, .error e)
    | some (s, .ok none) => some (s, .bytes [])
    | some (s, .ok (some _)) => some (s.finishRead len)
  else some (s.finishRead len)

/-- What is stored behind the header. -/
def body (s : BlockReader) : Bytes := s.file.drop s.headerLen

end BlockReader

/-! ## Sessions -/

/-- A call of the application. -/
inductive BlockCall where
  | read (len : Nat) (answer : Exact)
  | nextBlock (answer : Exact)
  deriving DecidableEq, Repr

/-- A reader in use: what it has handed out, whether `block` is left over from a block that failed,
whether the stream failed inside a block, and whether the process has panicked. -/
structure BlockSession where
  reader : BlockReader
  handed : List Bytes
  broken : Bool
  torn : Bool
  panicked : Bool
  deriving DecidableEq, Repr

namespace BlockSession

/-- A reader that has just been opened. -/
def start (file : Bytes) (headerLen blockSize : Nat) : BlockSession :=
  { reader := .assemble file headerLen blockSize
    handed := []
    broken := false
    torn := false
    panicked := false }

/-- The session after an error of `next_block`. A block that is too short is found before anything
is read. -/
def fail (s : BlockSession) (reader : BlockReader) (e : Reject) : BlockSession :=
  { s with
    reader := reader
    broken := s.broken || e ≠ .blockTooShort
    torn := s.torn || e = .io }

/-- Whether a `read` begins with a block. -/
def refills (s : BlockSession) (len : Nat) : Bool :=
  len ≠ 0 && s.reader.pos = s.reader.block.length && s.reader.remaining ≠ 0

/-- One call. The application goes on after any error. -/
def step (s : BlockSession) (call : BlockCall) : Option BlockSession :=
  if s.panicked then none
  else
    match call with
    | .read len answer =>
      match s.reader.read len answer with
      | none => none
      | some (reader, .bytes data) =>
        some { s with
          reader := reader
          handed := s.handed ++ [data]
          broken := s.broken && !s.refills len }
      | some (reader, .error e) => some (s.fail reader e)
      | some (reader, .panicked) => some { s with reader := reader, panicked := true }
    | .nextBlock answer =>
      match s.reader.nextBlock answer with
      | none => none
      | some (reader, .ok none) => some { s with reader := reader }
      | some (reader, .ok (some data)) =>
        some { s with reader := reader, handed := s.handed ++ [data], broken := false }
      | some (reader, .error e) => some (s.fail reader e)

/-- A sequence of calls. -/
def run (s : BlockSession) : List BlockCall → Option BlockSession
  | [] => some s
  | call :: calls => (s.step call).bind fun s' => s'.run calls

/-- Every byte handed out is from the payload of an intact block. -/
def Verified (s : BlockSession) : Prop :=
  ∀ data ∈ s.handed, data ≠ [] →
    Lib.Sealed.Vouched s.reader.blockSize checksumSize blockMark s.reader.body data

/-- Bytes are read only while `block` is not left over from a failed block, and another block only
while the stream has not failed. -/
def guarded (s : BlockSession) : BlockCall → Bool
  | .read len _ => len = 0 || !s.broken
  | .nextBlock _ => !s.torn

/-- Every call is guarded in the state it is made in. -/
def allGuarded (s : BlockSession) : List BlockCall → Bool
  | [] => true
  | call :: calls =>
    s.guarded call && match s.step call with
      | none => true
      | some s' => s'.allGuarded calls

end BlockSession
end Rsl.Storage
