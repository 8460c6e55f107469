import Rsl.Lib.Cursor
import Rsl.Wire.Message

/-!
# The C++ message readers

`MarshalData` and the `UnMarshal` functions of `message.cpp` and `rsl.cpp`, up to
`Legislator::UnMarshalMessage` and `CheckpointHeader::UnMarshal`. A buffer is its bytes, of a length
that a `UInt32` holds, and a reader moves a read pointer in it. The end of a field is computed in a
`UInt32`, so it wraps at `word`. A reader ends with a value, or it stops: `refused` is `false` (for
`UnMarshalMessage`, `NULL`), `assertion` is a failing `LogAssert`, `fault` is a read outside the
buffer. The overshoot flag is not kept: it is set by a failing read, and every caller returns at the
first one.

The field values are those of `Rsl.Wire`. What the C++ keeps as pointers into a buffer, the primary
cookie and the requests of a vote, is kept so here (`Span`).
-/

set_option autoImplicit false

namespace Rsl.Cpp

-- `Rsl` has its own types of these names for the protocol; here they are the wire's.
export Rsl.Wire (BallotNumber Header MemberId StatusResponse)

open Lib Wire

/-- One more than the greatest `UInt32`. -/
def word : Nat := 4294967296

theorem word_eq : word = 4294967296 := rfl

/-- The readers that only read forward. -/
abbrev Reader := Prog UInt8

/-- `ReadUInt8`. -/
def readUInt8 : Reader Nat := do return leNat (← Prog.read 1)

/-- `ReadBool`. -/
def readBool : Reader Bool := do return (← readUInt8) != 0

/-- `ReadUInt16`. -/
def readUInt16 : Reader Nat := do return leNat (← Prog.read 2)

/-- `ReadUInt32`. -/
def readUInt32 : Reader Nat := do return leNat (← Prog.read 4)

/-- `ReadUInt64`. -/
def readUInt64 : Reader Nat := do return leNat (← Prog.read 8)

/-- `ReadData`. -/
def readData (length : Nat) : Reader Bytes := Prog.read length

/-- A field that is read under a condition, most often on the version, and has a default else. -/
def readIf {α : Type} (present : Bool) (read : Reader α) (default : α) : Reader α :=
  if present then read else pure default

/-- `Message::IsVersionValid`. -/
def isVersionValid (version : Nat) : Bool := decide (1 ≤ version ∧ version ≤ 6)

/-- `MemberId::UnMarshal`. The number of an old version is printed in decimal; a field of a new one
must hold a terminated string. -/
def MemberId.unMarshal (version : ProtocolVersion) : Reader MemberId :=
  if version.raw ≤ 3 then do
    let value ← readUInt64
    return ⟨if value = 0 then [] else (Nat.toDigits 10 value).map fun c => UInt8.ofNat c.toNat⟩
  else do
    let value ← readData 64
    Prog.require (value.contains 0)
    return ⟨value.takeWhile (· != 0)⟩

/-- `BallotNumber::UnMarshal`. -/
def BallotNumber.unMarshal (version : ProtocolVersion) : Reader BallotNumber := do
  let ballotId ← readUInt32
  let memberId ← MemberId.unMarshal version
  return ⟨ballotId, memberId⟩

/-- `Message::UnMarshal`. -/
def Header.unMarshal : Reader Header := do
  let raw ← readUInt16
  Prog.require (isVersionValid raw)
  let version : ProtocolVersion := ⟨raw⟩
  let unMarshalLen ← readUInt32
  let checksum ← readUInt64
  let magic ← readUInt32
  let msgId ← readUInt16
  let memberId ← MemberId.unMarshal version
  let decree ← readUInt64
  let configurationNumber ← readIf (version.raw ≥ 3) readUInt32 1
  let ballot ← BallotNumber.unMarshal version
  let payload ← readIf (version.raw ≥ 6) readUInt64 0
  Prog.require (decide (Header.baseSize version ≤ unMarshalLen))
  Prog.require (magic == magicNumber)
  return ⟨version, unMarshalLen, checksum, magic, msgId, memberId, decree, configurationNumber,
    ballot, payload⟩

/-- The size of `m_hostName`. -/
def hostNameSize : Nat := 256

/-- The body of the loop of `MemberSet::UnMarshal`. The host name is what is copied into
`m_hostName`. -/
def RslNode.unMarshal (version : ProtocolVersion) : Reader RslNode := do
  let memberId ← MemberId.unMarshal version
  let ip ← readUInt32
  let rslPort ← readUInt16
  let port ← readUInt16
  let hostNameLength ← readUInt16
  Prog.assert (decide (hostNameLength < hostNameSize))
  let hostName ← readData hostNameLength
  return if version.raw > 3 then ⟨memberId, ip, rslPort, port, 0, hostName⟩
    else ⟨memberId, ip, rslPort, 0, port, hostName⟩

/-- `MemberSet::UnMarshal`. -/
def MemberSet.unMarshal (version : ProtocolVersion) : Reader MemberSet := do
  let numMembers ← readUInt16
  let members ← (RslNode.unMarshal version).times numMembers
  let cookieLength ← readUInt32
  Prog.require (decide (cookieLength ≤ maxMemberSetCookieLen))
  let cookie ← readIf (cookieLength ≠ 0) (readData cookieLength) []
  return ⟨members, cookie⟩

/-- `PrimaryCookie::UnMarshal` with a copy of the data. -/
def PrimaryCookie.unMarshalCopy : Reader Bytes := do
  let len ← readUInt32
  readIf (len > 0) (readData len) []

/-- `JoinMessage::UnMarshal`. -/
def JoinMessage.unMarshal : Reader JoinMessage := do
  let header ← Header.unMarshal
  Prog.require (header.msgId == msgJoin)
  let learnPort ← readUInt16
  let minDecreeInLog ← readUInt64
  let checkpointedDecree ← readUInt64
  let checkpointSize ← readUInt64
  return ⟨header, learnPort, minDecreeInLog, checkpointedDecree, checkpointSize⟩

/-- `PrepareMsg::UnMarshal`. -/
def PrepareMsg.unMarshal : Reader PrepareMsg := do
  let header ← Header.unMarshal
  Prog.require (header.msgId == msgPrepare)
  let primaryCookie ← readIf (header.version.raw ≥ 2) PrimaryCookie.unMarshalCopy []
  return ⟨header, primaryCookie⟩

/-- `StatusResponse::UnMarshal`. -/
def StatusResponse.unMarshal : Reader StatusResponse := do
  let header ← Header.unMarshal
  Prog.require (header.msgId == msgStatusResponse)
  let queryDecree ← readUInt64
  let queryBallot ← BallotNumber.unMarshal header.version
  let lastReceivedAgo ← readUInt64
  let minDecreeInLog ← readUInt64
  let checkpointedDecree ← readUInt64
  let checkpointSize ← readUInt64
  let maxBallot ← BallotNumber.unMarshal header.version
  let state ← readUInt32
  return ⟨header, queryDecree, queryBallot, lastReceivedAgo, minDecreeInLog, checkpointedDecree,
    checkpointSize, maxBallot, state⟩

/-- `BootstrapMsg::UnMarshal`. -/
def BootstrapMsg.unMarshal : Reader BootstrapMsg := do
  let header ← Header.unMarshal
  Prog.require (header.msgId == msgBootstrap)
  let memberSet ← MemberSet.unMarshal header.version
  return ⟨header, memberSet⟩

/-! ## Votes -/

/-- Readers that move the read pointer of a buffer as they like. -/
abbrev Cursor := StateT Nat (Except Stop)

/-- A pointer into a buffer and a length. -/
structure Span where
  off : Nat
  len : Nat
  deriving DecidableEq, Repr

/-- The bytes a span points at, when they are in the buffer. -/
def Span.bytes (data : Bytes) (span : Span) : Option Bytes :=
  if span.off + span.len ≤ data.length then some ((data.drop span.off).take span.len) else none

/-- Run a forward reader in a buffer. -/
def within {α : Type} (data : Bytes) (p : Reader α) : Cursor α := p.cursor word data

/-- Run a reader in another buffer from `pos` on; it gives its value and its read pointer. -/
def inside {α : Type} (pos : Nat) (x : Cursor α) : Cursor (α × Nat) := fun outerPos =>
  (x pos).bind fun r => .ok (r, outerPos)

/-- Stop unless `c` holds. -/
def stopUnless (c : Bool) (e : Stop) : Cursor Unit := if c then pure () else throw e

/-- `PeekDataPointer`. -/
def peekDataPointer (data : Bytes) (length : Nat) : Cursor Span := fun pos =>
  if data.length < (pos + length) % word then .error .refused else .ok (⟨pos, length⟩, pos)

/-- `ForwardReadPointer`. -/
def forwardReadPointer (data : Bytes) (length : Nat) : Cursor Unit := fun pos =>
  .ok ((), if data.length < (pos + length) % word then data.length else (pos + length) % word)

/-- `TestReadRemaining`. -/
def testReadRemaining (data : Bytes) (length : Nat) : Cursor Bool := fun pos =>
  .ok (decide ((pos + length) % word ≤ data.length), pos)

/-- A cookie of length zero. -/
def PrimaryCookie.empty : Cursor Span := fun pos => .ok (⟨pos, 0⟩, pos)

/-- `PrimaryCookie::UnMarshal` with a pointer to the data. -/
def PrimaryCookie.unMarshal (data : Bytes) : Cursor Span := do
  let len ← within data readUInt32
  if len > 0 then do
    let span ← peekDataPointer data len
    forwardReadPointer data len
    return span
  else PrimaryCookie.empty

/-- The cookie of a vote, which version 1 does not have. -/
def PrimaryCookie.unMarshalFrom (version : ProtocolVersion) (data : Bytes) : Cursor Span :=
  if version.raw ≥ 2 then PrimaryCookie.unMarshal data else PrimaryCookie.empty

/-- `Vote`: the header, the buffer of the whole vote, and what was found in it. -/
structure Vote where
  header : Header
  marshal : Bytes
  primaryCookie : Span
  isReconfiguration : Bool
  membersInNewConfiguration : Option MemberSet
  relinquishPrimary : Bool
  requests : List Span
  deriving DecidableEq, Repr

/-- The reconfiguration flag with its member set, and the flag to give up being primary. -/
def Vote.unMarshalFlags (version : ProtocolVersion) : Reader (Bool × Option MemberSet × Bool) := do
  let isReconfiguration ← readIf (version.raw ≥ 3) readBool false
  let members ← readIf isReconfiguration (some <$> MemberSet.unMarshal version) none
  let relinquishPrimary ← readIf (version.raw ≥ 5) readBool false
  return (isReconfiguration, members, relinquishPrimary)

/-- One round of the loop over the requests: the next request, or none at the end of the vote. -/
def Vote.nextRequest (data : Bytes) (isReconfiguration : Bool) : Cursor (Option Span) := do
  if ← testReadRemaining data 1 then do
    stopUnless (!isReconfiguration) .assertion
    let reqLen ← within data readUInt32
    stopUnless (reqLen != 0) .refused
    let span ← peekDataPointer data reqLen
    forwardReadPointer data reqLen
    return some span
  else return none

/-- The loop over the requests, for at most `fuel` rounds. -/
def Vote.readRequests (data : Bytes) (isReconfiguration : Bool) : Nat → Cursor (List Span)
  | 0 => throw .hangs
  | fuel + 1 => do
    match ← Vote.nextRequest data isReconfiguration with
    | none => return []
    | some span => return span :: (← Vote.readRequests data isReconfiguration fuel)

/-- The part of `Vote::UnMarshal` that runs in the vote's own buffer, before the loop. -/
def Vote.readFields (header : Header) (data : Bytes) :
    Cursor (Span × Bool × Option MemberSet × Bool) := do
  forwardReadPointer data (Header.baseSize header.version)
  let primaryCookie ← PrimaryCookie.unMarshalFrom header.version data
  let flags ← within data (Vote.unMarshalFlags header.version)
  return (primaryCookie, flags)

/-- `RoundUpToSystemPage`. -/
def roundUpToSystemPage (x : Nat) : Nat := (x + 4095) % word / 4096 * 4096

/-- The part of `Vote::UnMarshal` that copies the vote into a buffer of its own. `VirtualAlloc` of
zero bytes gives no buffer. -/
def Vote.copyOut (outer : Bytes) : Cursor (Header × Bytes) := do
  let readPtr ← get
  let header ← within outer Header.unMarshal
  set readPtr
  stopUnless (header.msgId == msgVote) .refused
  stopUnless (roundUpToSystemPage header.unMarshalLen != 0) .assertion
  let data ← within outer (readData header.unMarshalLen)
  return (header, data)

/-- `Vote::UnMarshal`. -/
def Vote.unMarshal (fuel : Nat) (outer : Bytes) : Cursor Vote := do
  let (header, data) ← Vote.copyOut outer
  let ((primaryCookie, isReconfiguration, members, relinquishPrimary), pos) ←
    inside 0 (Vote.readFields header data)
  let (requests, _) ← inside pos (Vote.readRequests data isReconfiguration fuel)
  return ⟨header, data, primaryCookie, isReconfiguration, members, relinquishPrimary, requests⟩

/-- `PrepareAccepted`. -/
structure PrepareAccepted where
  header : Header
  vote : Vote
  deriving DecidableEq, Repr

/-- `PrepareAccepted::UnMarshal`. -/
def PrepareAccepted.unMarshal (fuel : Nat) (data : Bytes) : Cursor PrepareAccepted := do
  let header ← within data Header.unMarshal
  stopUnless (header.msgId == msgPrepareAccepted) .refused
  let vote ← Vote.unMarshal fuel data
  return ⟨header, vote⟩

/-! ## Messages -/

/-- What `UnMarshalMessage` returns. -/
inductive Message where
  | base (header : Header)
  | vote (m : Vote)
  | join (m : JoinMessage)
  | prepare (m : PrepareMsg)
  | prepareAccepted (m : PrepareAccepted)
  | statusResponse (m : StatusResponse)
  | bootstrap (m : BootstrapMsg)
  deriving DecidableEq, Repr

/-- `Message_VoteAccepted`. -/
def msgVoteAccepted : Nat := 2

/-- `Message_NotAccepted`. -/
def msgNotAccepted : Nat := 5

/-- `Message_StatusQuery`. -/
def msgStatusQuery : Nat := 6

/-- `Message_DefunctConfiguration`. -/
def msgDefunctConfiguration : Nat := 11

/-- `Message_JoinRequest`. -/
def msgJoinRequest : Nat := 13

/-- The class that `UnMarshalMessage` makes for a message id. -/
def kindOf (msgId : Nat) : Option MsgKind :=
  if msgId = msgVote then some .vote
  else if msgId = msgPrepareAccepted then some .prepareAccepted
  else if msgId = msgStatusResponse then some .statusResponse
  else if msgId = msgPrepare then some .prepare
  else if msgId = msgJoin then some .join
  else if msgId = msgBootstrap then some .bootstrap
  else if msgId = msgVoteAccepted ∨ msgId = msgNotAccepted ∨ msgId = msgStatusQuery
      ∨ msgId = msgDefunctConfiguration ∨ msgId = msgJoinRequest
      ∨ msgId = msgReconfigurationDecision then some .base
  else none

/-- `UnMarshal` of the class. -/
def Message.unMarshal (fuel : Nat) (data : Bytes) : MsgKind → Cursor Message
  | .base => do return .base (← within data Header.unMarshal)
  | .vote => do return .vote (← Vote.unMarshal fuel data)
  | .join => do return .join (← within data JoinMessage.unMarshal)
  | .prepare => do return .prepare (← within data PrepareMsg.unMarshal)
  | .prepareAccepted => do return .prepareAccepted (← PrepareAccepted.unMarshal fuel data)
  | .statusResponse => do return .statusResponse (← within data StatusResponse.unMarshal)
  | .bootstrap => do return .bootstrap (← within data BootstrapMsg.unMarshal)

/-- `Legislator::UnMarshalMessage`, with at most `fuel` rounds of the loop over a vote's
requests. -/
def unMarshalMessage (fuel : Nat) (data : Bytes) : Except Stop Message := do
  -- Peek leaves the read pointer at the start.
  let (header, _) ← Header.unMarshal.cursor word data 0
  match kindOf header.msgId with
  | none => throw .refused
  | some kind => do
    let (message, _) ← (Message.unMarshal fuel data kind).run 0
    return message

/-! ## Checkpoint headers -/

/-- `ConfigurationInfo`. -/
structure ConfigurationInfo where
  configurationNumber : Nat
  initialDecree : Nat
  memberSet : MemberSet
  deriving DecidableEq, Repr

/-- `ConfigurationInfo::UnMarshal`. -/
def ConfigurationInfo.unMarshal (version : ProtocolVersion) : Reader ConfigurationInfo := do
  let configurationNumber ← readUInt32
  let initialDecree ← readUInt64
  let memberSet ← MemberSet.unMarshal version
  return ⟨configurationNumber, initialDecree, memberSet⟩

/-- `MemberId::operator <`: a shorter id is less, and ids of one length are compared byte by
byte. -/
def MemberId.less (a b : MemberId) : Bool :=
  if a.value.length = b.value.length then decide (a.value < b.value)
  else decide (a.value.length < b.value.length)

/-- `BallotNumber::operator <`. -/
def BallotNumber.less (a b : BallotNumber) : Bool :=
  if a.ballotId = b.ballotId then MemberId.less a.memberId b.memberId
  else decide (a.ballotId < b.ballotId)

/-- What a `CheckpointHeader` keeps beside its vote. -/
structure CheckpointFields where
  unMarshalLen : Nat := 0
  checksum : Nat := 0
  memberId : MemberId := ⟨[]⟩
  lastExecutedDecree : Nat := 0
  maxBallot : BallotNumber := ⟨0, ⟨[]⟩⟩
  stateConfiguration : Option ConfigurationInfo := none
  stateSaved : Bool := true
  size : Nat := 0
  checksumBlockSize : Nat := 0
  deriving DecidableEq, Repr

/-- `CheckpointHeader`. -/
structure CheckpointHeader where
  version : ProtocolVersion
  fields : CheckpointFields
  nextVote : Vote
  deriving DecidableEq, Repr

/-- The fields of `CheckpointHeader::UnMarshal` after the version, for a version that has them. -/
def CheckpointFields.unMarshal (version : ProtocolVersion) : Reader CheckpointFields := do
  let unMarshalLen ← readUInt32
  let checksum ← readUInt64
  let memberId ← MemberId.unMarshal version
  let lastExecutedDecree ← readUInt64
  let maxBallot ← BallotNumber.unMarshal version
  let stateConfiguration ← ConfigurationInfo.unMarshal version
  let stateSaved ← readIf (version.raw ≥ 4) readBool true
  let size ← readIf (version.raw ≥ 4) readUInt64 0
  let checksumBlockSize ← readIf (version.raw ≥ 4) readUInt32 0
  return ⟨unMarshalLen, checksum, memberId, lastExecutedDecree, maxBallot, some stateConfiguration,
    stateSaved, size, checksumBlockSize⟩

/-- The part of `CheckpointHeader::UnMarshal` before the vote. The header of an old version is a
vote alone, read from the start. -/
def CheckpointHeader.readFields (data : Bytes) : Cursor (ProtocolVersion × CheckpointFields) := do
  let raw ← within data readUInt16
  stopUnless (isVersionValid raw) .refused
  if raw ≥ 3 then do
    let fields ← within data (CheckpointFields.unMarshal ⟨raw⟩)
    return (⟨raw⟩, fields)
  else do
    set 0
    return (⟨raw⟩, {})

/-- `VerifyChecksum` on the bytes of a message, which start at `startOffset`. -/
def verifyChecksumAt (data : Bytes) (startOffset : Nat) (header : Header) : Bool :=
  fingerprint (((data.drop startOffset).take header.unMarshalLen).drop (checksumOffset + 8))
    == header.checksum

/-- `CheckpointHeader::UnMarshal`. -/
def CheckpointHeader.unMarshal (fuel : Nat) (data : Bytes) : Cursor CheckpointHeader := do
  let (version, fields) ← CheckpointHeader.readFields data
  let startOffset ← get
  let vote ← Vote.unMarshal fuel data
  stopUnless (decide ((startOffset + vote.header.unMarshalLen) % word ≤ data.length)) .assertion
  stopUnless (verifyChecksumAt data startOffset vote.header) .refused
  if version.raw ≥ 3 then do
    stopUnless (!BallotNumber.less fields.maxBallot vote.header.ballot) .refused
    return ⟨version, fields, vote⟩
  else
    return ⟨version,
      { fields with
        memberId := vote.header.memberId
        maxBallot := vote.header.ballot
        lastExecutedDecree :=
          (vote.header.decree + 18446744073709551615) % 18446744073709551616 },
      vote⟩

end Rsl.Cpp
