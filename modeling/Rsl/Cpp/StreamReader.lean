import Rsl.Lib.Sealed
import Rsl.Cpp.Message
import Rsl.Wire.Writer

/-!
# The C++ checkpoint stream reader

`RSLCheckpointStreamReader` of `rsl.cpp`. Below it `APSEQREAD` reads the file from a position on: it
answers a request with some of the bytes that come next, with the end of the file, or with an error.
How many bytes it gives at a time depends on its own buffers and is part of the call here (`Fetch`).

A reader with block size zero passes the bytes on (`m_dataBlock` is then `NULL`). Otherwise it reads
a block into `m_dataBlock`, takes the checksum off its end and compares it. The members it works on
are updated before the checksum is known to match, and they keep their values when it does not.
-/

set_option autoImplicit false

namespace Rsl.Cpp

open Wire

/-- `s_PageSize`. -/
def pageSize : Nat := 512

/-- `CHECKSUM_SIZE`. -/
def checksumSize : Nat := 8

/-- The checksum of a block as it is stored. -/
def blockMark (data : Bytes) : Bytes := leBytes 8 (fingerprint data)

/-- What `APSEQREAD::GetDataPointer` answers. -/
inductive Fetch where
  | bytes (k : Nat)
  | eof
  | failed
  deriving DecidableEq, Repr

/-- The error codes that the reader tells apart. -/
inductive Code where
  | handleEof
  | crc
  | failed
  deriving DecidableEq, Repr

/-- How a call ends when it does not return `NO_ERROR`: with a code, or in a `LogAssert`. -/
inductive Ended where
  | code (c : Code)
  | aborted
  deriving DecidableEq, Repr

/-- `RSLCheckpointStreamReader`, with the file and the position of its `APSEQREAD`. -/
structure StreamReader where
  file : Bytes
  pos : Nat
  offset : Nat
  defaultBlockSize : Nat
  dataBlock : Bytes
  currentBlockSize : Nat
  dataReadOffset : Nat
  nextblockOffset : Nat
  dataSize : Nat
  deriving DecidableEq, Repr

/-- What a call does: the state after it and how it ended; `none` when `APSEQREAD` would not give
these answers. -/
abbrev Called (α : Type) := Option (StreamReader × Except Ended α)

namespace StreamReader

/-- `Init` for a file with a header of `headerLen` bytes, which gives the block size and the size of
the file. `m_dataBlock` is not initialised: it holds `garbage`. -/
def init (file : Bytes) (headerLen blockSize size : Nat) (garbage : Bytes) :
    Except Ended StreamReader :=
  let reader : StreamReader :=
    { file := file
      pos := headerLen
      offset := headerLen
      defaultBlockSize := blockSize
      dataBlock := garbage
      currentBlockSize := 0
      dataReadOffset := 0
      nextblockOffset := headerLen
      dataSize := 0 }
  if blockSize = 0 then .ok reader
  else if blockSize % pageSize ≠ 0 then .error .aborted
  else if file.length ≠ size then .error (.code .crc)
  else
    let total := file.length - headerLen
    let numberOfFullBlocks := total / blockSize
    let lastBlockSize := total - numberOfFullBlocks * blockSize
    let dataSize := numberOfFullBlocks * (blockSize - checksumSize)
    if lastBlockSize = 0 then .ok { reader with dataSize := dataSize }
    else if lastBlockSize ≤ checksumSize then .error (.code .crc)
    else .ok { reader with dataSize := dataSize + (lastBlockSize - checksumSize) }

/-- `APSEQREAD::GetDataPointer` for `n` bytes. -/
def fetch (s : StreamReader) (n : Nat) : Fetch → Called Bytes
  | .bytes k =>
    if 0 < k ∧ k ≤ n ∧ s.pos + k ≤ s.file.length then
      some ({ s with pos := s.pos + k }, .ok ((s.file.drop s.pos).take k))
    else none
  | .eof => if s.file.length ≤ s.pos then some (s, .error (.code .handleEof)) else none
  | .failed => some (s, .error (.code .failed))

/-- `memcpy(&m_dataBlock[m_currentBlockSize], pb, pcbRead)`, and the size with it. -/
def keep (s : StreamReader) (bytes : Bytes) : StreamReader :=
  { s with
    dataBlock := s.dataBlock.take s.currentBlockSize ++ bytes ++
      s.dataBlock.drop (s.currentBlockSize + bytes.length)
    currentBlockSize := s.currentBlockSize + bytes.length }

/-- The loop of `ReadNextDataBlock`, with `need` bytes to go. -/
def readLoop (s : StreamReader) (need : Nat) : List Fetch → Called Unit
  | [] => if need = 0 then some (s, .ok ()) else none
  | answer :: more =>
    if need = 0 then some (s, .ok ())
    else
      match s.fetch need answer with
      | none => none
      | some (s, .ok bytes) => (s.keep bytes).readLoop (need - bytes.length) more
      | some (s, .error (.code .handleEof)) =>
        if 0 < s.currentBlockSize then some (s, .ok ()) else some (s, .error (.code .handleEof))
      | some (s, .error e) => some (s, .error e)

/-- The end of `ReadNextDataBlock`: the checksum. -/
def verifyBlock (s : StreamReader) : StreamReader × Except Ended Unit :=
  if s.currentBlockSize < checksumSize then (s, .error (.code .crc))
  else
    let s := { s with currentBlockSize := s.currentBlockSize - checksumSize }
    let pstdChecksum := leNat ((s.dataBlock.drop s.currentBlockSize).take checksumSize)
    if pstdChecksum ≠ fingerprint (s.dataBlock.take s.currentBlockSize) then
      (s, .error (.code .crc))
    else if s.currentBlockSize = 0 then (s, .error .aborted)
    else (s, .ok ())

/-- `ReadNextDataBlock`. -/
def readNextDataBlock (s : StreamReader) (answers : List Fetch) : Called Unit :=
  let s := { s with
    dataReadOffset := 0
    currentBlockSize := 0
    nextblockOffset := s.nextblockOffset + s.defaultBlockSize }
  match s.readLoop s.defaultBlockSize answers with
  | none => none
  | some (s, .error e) => some (s, .error e)
  | some (s, .ok ()) => some s.verifyBlock

/-- The difference of two `UInt32`. -/
def sub32 (a b : Nat) : Nat := (a + word - b) % word

/-- How many bytes `GetDataPointer` gives. An offset behind the end of the block makes the length
wrap. -/
def bytesRead (s : StreamReader) (dwNumBytes : Nat) : Nat :=
  let left := sub32 s.currentBlockSize s.dataReadOffset
  if left > dwNumBytes then dwNumBytes else left

/-- The end of `GetDataPointer`: the bytes behind the read offset. -/
def handOut (s : StreamReader) (dwNumBytes : Nat) : StreamReader × Except Ended Bytes :=
  let offset := (s.dataReadOffset + s.bytesRead dwNumBytes) % word
  ({ s with dataReadOffset := offset },
    if offset ≤ s.currentBlockSize then
      .ok ((s.dataBlock.drop s.dataReadOffset).take (s.bytesRead dwNumBytes))
    else .error .aborted)

/-- `GetDataPointer`, and `GetData`, which copies what it points at. -/
def getData (s : StreamReader) (dwNumBytes : Nat) (answers : List Fetch) : Called Bytes :=
  if s.defaultBlockSize = 0 then
    match answers with
    | [] => none
    | answer :: _ => s.fetch dwNumBytes answer
  else if s.dataReadOffset = s.currentBlockSize then
    match s.readNextDataBlock answers with
    | none => none
    | some (s, .error e) => some (s, .error e)
    | some (s, .ok ()) => some (s.handOut dwNumBytes)
  else some (s.handOut dwNumBytes)

/-- Whether `Seek` to `offset` reads a block: the one it needs is not the last that was read. -/
def leaves (s : StreamReader) (offset : Nat) : Bool :=
  s.nextblockOffset ≠
    s.offset + (1 + offset / (s.defaultBlockSize - checksumSize)) * s.defaultBlockSize

/-- `Seek`, of a reader with blocks. `APSEQREAD::Reset` moves the position. -/
def seek (s : StreamReader) (offset : Nat) (answers : List Fetch) : Called Unit :=
  let numblocks := offset / (s.defaultBlockSize - checksumSize)
  let offsetInBlock := offset % (s.defaultBlockSize - checksumSize)
  if s.leaves offset then
    let next := s.offset + numblocks * s.defaultBlockSize
    match { s with nextblockOffset := next, pos := next, currentBlockSize := 0 }.readNextDataBlock
      answers with
    | none => none
    | some (s, result) => some ({ s with dataReadOffset := offsetInBlock }, result)
  else some ({ s with dataReadOffset := offsetInBlock }, .ok ())

/-- The part of a turn of `Skip` that passes over bytes of the current block: how many are left. -/
def passOver (s : StreamReader) (dwNumBytes : Nat) : StreamReader × Nat :=
  let bytesRead := min (s.currentBlockSize - s.dataReadOffset) dwNumBytes
  ({ s with dataReadOffset := s.dataReadOffset + bytesRead }, dwNumBytes - bytesRead)

/-- The loop of `Skip`, of a reader with blocks. There are answers for each block that is read. -/
def skip (s : StreamReader) (dwNumBytes : Nat) (answers : List (List Fetch)) : Called Unit :=
  if dwNumBytes = 0 then some (s, .ok ())
  else if s.currentBlockSize < s.dataReadOffset then some (s, .error .aborted)
  else
    let (s, left) := s.passOver dwNumBytes
    if left = 0 then some (s, .ok ())
    else
      match answers with
      | [] => none
      | first :: more =>
        match s.readNextDataBlock first with
        | none => none
        | some (s, .error e) => some (s, .error e)
        | some (s, .ok ()) => skip s left more

/-- What is stored behind the header. -/
def body (s : StreamReader) : Bytes := s.file.drop s.offset

end StreamReader

/-! ## Sessions -/

/-- A call of the application. -/
inductive ReaderCall where
  | getData (dwNumBytes : Nat) (answers : List Fetch)
  | skip (dwNumBytes : Nat) (answers : List (List Fetch))
  | seek (offset : Nat) (answers : List Fetch)
  deriving DecidableEq, Repr

/-- A reader in use: what it has handed out, whether the last block it tried to read ended in an
error other than the end of the file, and whether the process has ended in a `LogAssert`. -/
structure Session where
  reader : StreamReader
  handed : List Bytes
  broken : Bool
  ended : Bool
  deriving DecidableEq, Repr

namespace Session

/-- The session after a call that ended with `e`. -/
def fail (s : Session) (reader : StreamReader) (e : Ended) : Session :=
  { s with
    reader := reader
    broken := e ≠ .code .handleEof
    ended := e = .aborted }

/-- One call. The application goes on after any code; nothing goes on after a `LogAssert`. -/
def step (s : Session) (call : ReaderCall) : Option Session :=
  if s.ended then none
  else
    match call with
    | .getData n answers =>
      match s.reader.getData n answers with
      | none => none
      | some (reader, .ok bytes) => some { s with reader := reader, handed := s.handed ++ [bytes] }
      | some (reader, .error e) => some (s.fail reader e)
    | .skip n answers =>
      match s.reader.skip n answers with
      | none => none
      | some (reader, .ok ()) => some { s with reader := reader }
      | some (reader, .error e) => some (s.fail reader e)
    | .seek offset answers =>
      match s.reader.seek offset answers with
      | none => none
      | some (reader, .ok ()) =>
        some { s with reader := reader, broken := s.broken && !s.reader.leaves offset }
      | some (reader, .error e) => some (s.fail reader e)

/-- A sequence of calls. -/
def run (s : Session) : List ReaderCall → Option Session
  | [] => some s
  | call :: calls => (s.step call).bind fun s' => s'.run calls

/-- Every byte handed out is from the payload of an intact block. -/
def Verified (s : Session) : Prop :=
  ∀ bytes ∈ s.handed, bytes ≠ [] →
    Lib.Sealed.Vouched s.reader.defaultBlockSize checksumSize blockMark s.reader.body bytes

/-- Bytes are read and skipped only after a block that was read without an error, a read of
gigabytes only inside the block, and `Seek` stays inside the data. -/
def guarded (s : Session) : ReaderCall → Bool
  | .getData n _ =>
    !s.broken && (s.reader.dataReadOffset ≤ s.reader.currentBlockSize ||
      s.reader.dataReadOffset + n < word)
  | .skip _ _ => !s.broken
  | .seek offset _ => offset ≤ s.reader.dataSize

/-- Every call is guarded in the state it is made in. -/
def allGuarded (s : Session) : List ReaderCall → Bool
  | [] => true
  | call :: calls =>
    s.guarded call && match s.step call with
      | none => true
      | some s' => s'.allGuarded calls

end Session
end Rsl.Cpp
