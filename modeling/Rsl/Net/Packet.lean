import Rsl.Lib.Framing
import Rsl.Lib.RingBuffer
import Rsl.Wire.Writer

/-!
# Packet framing

A packet is a header of twenty bytes and a payload. The header holds the size of the whole packet,
two numbers that are always zero, and a checksum over the packet with zeros in the place of the
checksum.

`NetCxn` is the receiving side of the C++ `NetCxn` with its `NetBuffer`: a ring that the socket is
read into, and for a packet that does not fit, a buffer of its own that takes its place until the
packet is complete. The pool's sizes are `UInt32` and `NetBuffer` keeps them as `int`. Every
`LogAssert` on the way, and a `memcpy` of a negative length, ends the process (`aborted`).
Allocations succeed.

`ReadLoop` is the receiving side of the Rust service: `read_loop` of `conn.rs`, which drains a byte
vector with `decode_packet`.
-/

set_option autoImplicit false

namespace Rsl.Net

open Wire Lib

/-- `PacketHdr::SerialLen`. -/
def serialLen : Nat := 20

/-- `MaxNetPacketSize`. -/
def maxNetPacketSize : Nat := 104857600

/-- The maximum that a receiver works with: zero stands for the default. -/
def effectiveMax (maxSize : Nat) : Nat := if maxSize = 0 then maxNetPacketSize else maxSize

/-- `PacketHdr`. -/
structure PacketHdr where
  size : Nat
  protoVersion : Nat
  xid : Nat
  checksum : Nat
  deriving DecidableEq, Repr

/-- `PacketHdr::Serialize` and `PacketHdr::encode`. -/
def PacketHdr.serialize (hdr : PacketHdr) : Bytes :=
  leBytes 4 hdr.size ++ leBytes 4 hdr.protoVersion ++ leBytes 4 hdr.xid ++ leBytes 8 hdr.checksum

/-- `PacketHdr::DeSerialize` and `PacketHdr::decode`, of twenty bytes. -/
def PacketHdr.deSerialize (head : Bytes) : PacketHdr :=
  { size := leNat (head.take 4)
    protoVersion := leNat ((head.drop 4).take 4)
    xid := leNat ((head.drop 8).take 4)
    checksum := leNat ((head.drop 12).take 8) }

/-- `PacketHdr::SetChecksum`. -/
def setChecksum (checksum : Nat) (frame : Bytes) : Bytes :=
  frame.take 12 ++ leBytes 8 checksum ++ frame.drop serialLen

/-- `Packet::Serialize` and `encode_packet`. -/
def serialize (payload : Bytes) : Bytes :=
  let frame := PacketHdr.serialize ⟨asU32 (serialLen + payload.length), 0, 0, 0⟩ ++ payload
  setChecksum (fingerprint frame) frame

/-! ## The C++ receiver -/

/-- An `UInt32` as an `int`. -/
def toInt32 (n : Nat) : Int := if n < 2147483648 then n else (n : Int) - 4294967296

/-- One round of the loop of `NextPowerOfTwo`: the value that is left and the bits that are set. -/
def highestBitStep (base set : Nat) (s : Nat × Nat) : Nat × Nat :=
  if s.1 &&& base ≠ 0 then (s.1 >>> set, s.2 ||| set) else s

/-- `highestBitSet` in `NextPowerOfTwo`. -/
def highestBitSet (value : Nat) : Nat :=
  (highestBitStep 0x2 1 (highestBitStep 0xC 2 (highestBitStep 0xF0 4
    (highestBitStep 0xFF00 8 (highestBitStep 0xFFFF0000 16 (value, 0)))))).2

/-- `BufferPool::NextPowerOfTwo`; `none` is its `LogAssert`. -/
def nextPowerOfTwo (value : Nat) : Option Nat :=
  if value &&& (value - 1) = 0 then some value
  else if 2147483648 ≤ value then none
  else some (1 <<< (highestBitSet value + 1))

/-- `BufferPool::GetBuffer`: the size of the buffer. -/
def getBuffer (bufSize : Nat) : Option Nat :=
  match nextPowerOfTwo bufSize with
  | none => none
  | some size => if bufSize ≤ size ∧ size < asU32 (2 * bufSize) then some size else none

/-- How a receiver is set up. `garbage` is what a new buffer holds. -/
structure Config where
  maxPacketSize : Nat
  readBufferSize : Nat
  garbage : Nat → UInt8

/-- The receiving side of `NetCxn`. `todo` is how much the socket may still be asked for; there is
no bound (`MAX_NBYTES`) while the internal buffer is in use. -/
structure NetCxn where
  netBuffer : RingBuffer UInt8
  usingInternalBuffer : Bool
  packet : Option PacketHdr
  todo : Option Nat
  received : List Bytes
  closed : Bool
  aborted : Bool

/-- An empty buffer. -/
def Config.emptyBuffer (cfg : Config) (size : Nat) : RingBuffer UInt8 :=
  ⟨cfg.garbage, size, 0, 0, false⟩

/-- `InitializeReadWriteContexts`; `none` is its `LogAssert`, and that of `GetBuffer`. -/
def NetCxn.init (cfg : Config) : Option NetCxn :=
  if cfg.readBufferSize < serialLen then none
  else
    match getBuffer cfg.readBufferSize with
    | none => none
    | some size =>
      some
        { netBuffer := cfg.emptyBuffer size
          usingInternalBuffer := true
          packet := none
          todo := none
          received := []
          closed := false
          aborted := false }

/-- The header bytes: in place when they do not wrap, else copied. -/
def headerBytes (buffer : RingBuffer UInt8) : Bytes :=
  if buffer.straight < serialLen then buffer.peek serialLen else buffer.slice buffer.start serialLen

/-- `Packet::DeSerializeHeader`. -/
def deSerializeHeader (cfg : Config) (buffer : RingBuffer UInt8) : Option PacketHdr :=
  let hdr := PacketHdr.deSerialize (headerBytes buffer)
  if hdr.size < serialLen ∨ effectiveMax cfg.maxPacketSize < hdr.size then none else some hdr

/-- `PacketMarshalMemoryManager::ResizeBuffer` of a new packet, whose buffer has room for twelve
bytes of data: whether it returns. -/
def resizeBuffer (length : Nat) : Bool :=
  if length > 12 then (getBuffer (asU32 (serialLen + length))).isSome else true

/-- What `Packet::DeSerialize` ends with. -/
inductive Parsed where
  | payload (bytes : Bytes)
  | invalid
  | aborted
  deriving DecidableEq, Repr

/-- `Packet::VerifyChecksum` on the bytes of the packet, and the payload. -/
def verifyChecksum (frame : Bytes) : Parsed :=
  if (PacketHdr.deSerialize frame).checksum ≠ fingerprint (setChecksum 0 frame) then .invalid
  else .payload (frame.drop serialLen)

namespace NetCxn

/-- `Packet::DeSerialize`. The bytes are copied out of the internal buffer; a buffer of the packet's
own becomes the packet's. -/
def deSerialize (cfg : Config) (c : NetCxn) : Parsed :=
  match deSerializeHeader cfg c.netBuffer with
  | none => .invalid
  | some hdr =>
    if c.usingInternalBuffer then
      if resizeBuffer hdr.size = false then .aborted
      else if toInt32 hdr.size < 0 then .aborted
      else verifyChecksum (c.netBuffer.peek hdr.size)
    else verifyChecksum (c.netBuffer.slice 0 hdr.size)

/-- `ReadMoreData`: a buffer for the whole packet takes the place of the internal one. -/
def readMoreData (cfg : Config) (c : NetCxn) (totalLength : Nat) : NetCxn :=
  match getBuffer totalLength with
  | none => { c with aborted := true }
  | some size =>
    let bytesRead := c.netBuffer.length
    -- `Fill` asserts that the bytes are inside the buffer, whose size is an `int`.
    if toInt32 size < bytesRead then { c with aborted := true }
    else
      { c with
        netBuffer := (cfg.emptyBuffer size).push (c.netBuffer.peek bytesRead)
        usingInternalBuffer := false
        todo := some (totalLength - bytesRead) }

/-- The internal buffer, empty, whose size is that of the first one. -/
def switchBack (cfg : Config) (c : NetCxn) : NetCxn :=
  { c with
    netBuffer := cfg.emptyBuffer ((getBuffer cfg.readBufferSize).getD 0)
    usingInternalBuffer := true
    todo := none }

/-- A packet that is complete. The flag tells whether the loop goes on. -/
def takePacket (cfg : Config) (c : NetCxn) (packetLength : Nat) : NetCxn × Bool :=
  match c.deSerialize cfg with
  | .aborted => ({ c with aborted := true }, false)
  | .invalid => ({ c with closed := true }, false)
  | .payload bytes =>
    let c' := { c with
      netBuffer := c.netBuffer.pop packetLength
      packet := none
      received := c.received ++ [bytes] }
    if c.usingInternalBuffer then (c', true)
    -- `SetBuffer` asserts that nothing is left in the old buffer.
    else if c'.netBuffer.length ≠ 0 then ({ c' with aborted := true }, false)
    else (c'.switchBack cfg, false)

/-- A turn of the loop of `ReadReadyInternal`, with a header in the buffer. -/
def turn (cfg : Config) (c : NetCxn) : NetCxn × Bool :=
  match c.packet.or (deSerializeHeader cfg c.netBuffer) with
  | none => ({ c with closed := true }, false)
  | some hdr =>
    let c := { c with packet := some hdr }
    if toInt32 hdr.size ≤ c.netBuffer.length then c.takePacket cfg hdr.size
    else if toInt32 hdr.size > c.netBuffer.size then
      if c.usingInternalBuffer then (c.readMoreData cfg hdr.size, false)
      else ({ c with aborted := true }, false)
    else (c, false)

/-- The loop of `ReadReadyInternal`, for at most `n` turns. -/
def readReady (cfg : Config) : Nat → NetCxn → NetCxn
  | 0, c => c
  | n + 1, c =>
    if c.netBuffer.length < serialLen then c
    else
      match c.turn cfg with
      | (c, true) => readReady cfg n c
      | (c, false) => c

/-- How much the socket can give at once. -/
def room (c : NetCxn) : Nat :=
  match c.todo with
  | none => c.netBuffer.room
  | some todo => min todo c.netBuffer.room

/-- The socket gives `bytes`; `none` when it would not give that many. Nothing is read from a
connection that is closed. Every packet in the buffer takes a turn, so there are no more turns than
bytes. -/
def receive (cfg : Config) (c : NetCxn) (bytes : Bytes) : Option NetCxn :=
  if c.closed || c.aborted then some c
  else if bytes = [] ∨ c.room < bytes.length then none
  else
    let c := { c with
      netBuffer := c.netBuffer.push bytes
      todo := c.todo.map (· - bytes.length) }
    some (c.readReady cfg c.netBuffer.length)

/-- The reads of a connection. -/
def run (cfg : Config) : NetCxn → List Bytes → Option NetCxn
  | c, [] => some c
  | c, bytes :: cuts => (c.receive cfg bytes).bind fun c => run cfg c cuts

end NetCxn

/-! ## The Rust receiver -/

/-- `FrameError`. -/
inductive FrameError where
  | invalidSize (size max : Nat)
  | checksum (header computed : Nat)
  deriving DecidableEq, Repr

/-- `frame_checksum`: three passes over the frame, with zeros for the checksum. -/
def frameChecksum (frame : Bytes) : Nat :=
  fingerprintWith (fingerprintWith (fingerprint (frame.take 12)) (List.replicate 8 0))
    (frame.drop 20)

/-- `decode_packet`. -/
def decodePacket (maxSize : Nat) (buf : Bytes) : Framing.Step Bytes FrameError :=
  if buf.length < serialLen then .needMore
  else
    let hdr := PacketHdr.deSerialize (buf.take serialLen)
    if hdr.size < serialLen ∨ effectiveMax maxSize < hdr.size then
      .reject (.invalidSize hdr.size (effectiveMax maxSize))
    else if buf.length < hdr.size then .needMore
    else
      let frame := buf.take hdr.size
      let computed := frameChecksum frame
      if computed ≠ hdr.checksum then .reject (.checksum hdr.checksum computed)
      else .frame (frame.drop serialLen) hdr.size

/-- The state of `read_loop`: the payloads it has passed on, the reject it ended with, and its
buffer. -/
abbrev ReadLoop := Framing.Drained UInt8 Bytes FrameError

/-- One round of `read_loop`: a read of the socket, and all packets in the buffer. -/
def ReadLoop.receive (cfg : Config) (s : ReadLoop) (bytes : Bytes) : Option ReadLoop :=
  if s.rejected.isNone ∧ (bytes = [] ∨ cfg.readBufferSize < bytes.length) then none
  else some (Framing.feed (decodePacket cfg.maxPacketSize) s bytes)

/-- The reads of a connection. -/
def ReadLoop.run (cfg : Config) : ReadLoop → List Bytes → Option ReadLoop
  | s, [] => some s
  | s, bytes :: cuts => (ReadLoop.receive cfg s bytes).bind fun s => ReadLoop.run cfg s cuts

/-- A connection that has just been opened. -/
def ReadLoop.init : ReadLoop := ⟨[], none, []⟩

end Rsl.Net
