import Rsl.Cpp.Message
import Rsl.Wire.Writer

/-!
# The C++ message writers

The constructors and `Marshal` functions of `message.cpp` and `rsl.cpp`. A message is built from its
field values, which are those of `Rsl.Wire`; a vote is built in page-aligned buffers (`Memory`), to
which `AddRequest` adds one when a request does not fit. A failing `LogAssert` ends the process and
is the `panicked` of the Rust writers; so are a write behind the end of a buffer and the use of a
null pointer, which end it as well.

The constructor of `MemberId` from a string leaves the bytes of `m_value` behind the terminator as
they were. They are marshalled with the id, so the writers take them as a parameter (`Fill`).
-/

set_option autoImplicit false

namespace Rsl.Cpp

open Wire

/-- Where a member id stands in a message. -/
inductive Slot where
  | sender
  | ballot
  | queryBallot
  | maxBallot
  | member (whichMember : Nat)
  | nested (slot : Slot)
  deriving DecidableEq, Repr

/-- What the buffers of a message's member ids hold behind their terminators. -/
abbrev Fill := Slot → Nat → UInt8

/-- `MemberId::Size`. -/
def MemberId.bufferSize : Nat := 64

/-- `m_value`: the string, its terminator and what the buffer held. -/
def MemberId.buffer (id : MemberId) (fill : Nat → UInt8) : Bytes :=
  id.value ++ 0 :: (List.range (MemberId.bufferSize - 1 - id.value.length)).map fill

/-- `MemberId::Marshal`. The constructors assert that the string fits the buffer with its
terminator; `ParseMemberIdAsUInt64` asserts that all of it is a number. -/
def MemberId.marshal (id : MemberId) (fill : Nat → UInt8) (version : ProtocolVersion) : Writer :=
  if MemberId.bufferSize ≤ id.value.length then .error .panicked
  else if version.raw ≤ 3 then
    match parseMemberIdU64 id.value with
    | some value => writeU64 value
    | none => .error .panicked
  else writeData (MemberId.buffer id fill)

/-- `BallotNumber::Marshal`. -/
def BallotNumber.marshal (ballot : BallotNumber) (fill : Nat → UInt8) (version : ProtocolVersion) :
    Writer :=
  concat [writeU32 ballot.ballotId, MemberId.marshal ballot.memberId fill version]

/-- `Message::Marshal`, where `GetMarshalLen` of the message's class returns `marshalLen`. -/
def Header.marshal (header : Header) (fill : Fill) (marshalLen : Nat) : Writer :=
  let version := header.version
  if version.raw = 0 then .error .panicked
  else
    concat
      [writeU16 version.raw, writeU32 marshalLen, writeU64 header.checksum, writeU32 header.magic,
        writeU16 header.msgId, MemberId.marshal header.memberId (fill .sender) version,
        writeU64 header.decree, writeIf (version.raw ≥ 3) (writeU32 header.configurationNumber),
        BallotNumber.marshal header.ballot (fill .ballot) version,
        writeIf (version.raw ≥ 6) (writeU64 header.payload)]

/-- The body of the loop of `MemberSet::Marshal`, with the assertion on the host name. -/
def RslNode.marshal (node : RslNode) (fill : Nat → UInt8) (version : ProtocolVersion) : Writer :=
  if hostNameSize ≤ node.hostName.length then .error .panicked
  else
    concat
      [MemberId.marshal node.memberId fill version, writeU32 node.ip, writeU16 node.rslPort,
        writeU16 (if version.raw > 3 then node.rslLearnPort else node.appPort),
        writeU16 node.hostName.length, writeData node.hostName]

/-- `MemberSet::Marshal`. The number of members is cast to a `UInt16`, and that many are written. -/
def MemberSet.marshal (set : MemberSet) (fill : Fill) (version : ProtocolVersion) : Writer :=
  let numMembers := set.members.length % 65536
  concat
    [writeU16 numMembers,
      concat ((set.members.take numMembers).mapIdx fun whichMember node =>
        RslNode.marshal node (fill (.member whichMember)) version),
      writeU32 set.cookie.length, writeData set.cookie]

/-- `MemberSet::GetMarshalLen`. -/
def MemberSet.getMarshalLen (set : MemberSet) (version : ProtocolVersion) : Nat :=
  let nodeMarshalLen := MemberId.baseSize version + 4 + 2 + 2 + 2
  (nodeMarshalLen * set.members.length + 6 + set.cookie.length +
    (set.members.map fun node => node.hostName.length).sum) % word

/-- `PrimaryCookie::Marshal`. -/
def PrimaryCookie.marshal (cookie : Bytes) : Writer :=
  concat [writeU32 cookie.length, writeIf (cookie.length ≠ 0) (writeData cookie)]

/-- `PrimaryCookie::GetMarshalLen`. -/
def PrimaryCookie.getMarshalLen (cookie : Bytes) : Nat := (cookie.length + 4) % word

/-! ## Votes -/

/-- A `MarshalMemoryManager` of a vote: the length of its buffer and the bytes up to its valid
length. -/
structure Memory where
  bufferLength : Nat
  bytes : Bytes
  deriving DecidableEq, Repr

/-- Write at the end of the valid bytes. `EnsureBuffer` asserts that there is room. -/
def Memory.write (memory : Memory) (w : Writer) : Except WriteFailure Memory := do
  let data ← w
  if memory.bufferLength < memory.bytes.length + data.length then .error .panicked
  else return { memory with bytes := memory.bytes ++ data }

/-- `Vote::AddMemory` for a vote that is built. `VirtualAlloc` of zero bytes gives no buffer. -/
def Vote.addMemory (minSize : Nat) : Except WriteFailure Memory :=
  let bufSize := roundUpToSystemPage (max minSize (32 * 1024))
  if bufSize = 0 then .error .panicked else .ok ⟨bufSize, []⟩

/-- A `Vote` that was built here: its fields, and `m_marshal` with its last buffer apart. -/
structure BuiltVote where
  fields : Wire.Vote
  full : List Memory
  back : Memory
  deriving DecidableEq, Repr

/-- The size that `Vote::Init` asks for. It leaves out the byte of `m_relinquishPrimary`. -/
def Vote.minSize (vote : Wire.Vote) : Nat :=
  let version := vote.header.version
  (Header.baseSize version + PrimaryCookie.getMarshalLen vote.primaryCookie +
    (if version.raw ≥ 3 then
      if vote.isReconfiguration then
        1 + (vote.membersInNewConfiguration.map (MemberSet.getMarshalLen · version)).getD 0
      else 1
    else 0)) % word

/-- `Vote::Init`, on a vote without requests. The header's bytes are left for `ReMarshalHeader`. -/
def Vote.init (fill : Fill) (vote : Wire.Vote) : Except WriteFailure BuiltVote := do
  let version := vote.header.version
  if vote.isReconfiguration ∧ version.raw < 3 then .error .panicked
  else do
    let memory ← Vote.addMemory (Vote.minSize vote)
    let memory ← memory.write (writeData (List.replicate (Header.baseSize version) 0))
    let memory ← memory.write (writeIf (version.raw ≥ 2) (PrimaryCookie.marshal vote.primaryCookie))
    let memory ← memory.write (writeIf (version.raw ≥ 3) (concat
      [writeBool vote.isReconfiguration,
        writeIf vote.isReconfiguration (match vote.membersInNewConfiguration with
          | some set => MemberSet.marshal set fill version
          | none => .error .panicked)]))
    let memory ← memory.write (writeIf (version.raw ≥ 5) (writeBool vote.relinquishPrimary))
    return ⟨{ vote with requests := [] }, [], memory⟩

/-- The bytes of one request. -/
def writeRequest (req : Bytes) : Writer := concat [writeU32 req.length, writeData req]

/-- The buffers with room for `spaceNeeded` bytes in the last one. The bytes of its last page move
to the buffer that is added, and a buffer that is left empty is freed. -/
def BuiltVote.makeRoom (vote : BuiltVote) (spaceNeeded : Nat) : Except WriteFailure BuiltVote :=
  let memory := vote.back
  let validLength := memory.bytes.length
  if (spaceNeeded + validLength) % word > memory.bufferLength then do
    let extra := validLength % 4096
    let newMemory ← Vote.addMemory ((spaceNeeded + extra) % word)
    let kept := memory.bytes.take (validLength - extra)
    return { vote with
      full := if kept.length = 0 then vote.full else vote.full ++ [{ memory with bytes := kept }]
      back := { newMemory with bytes := memory.bytes.drop (validLength - extra) } }
  else .ok vote

/-- `Vote::AddRequest`. -/
def BuiltVote.addRequest (vote : BuiltVote) (req : Bytes) : Except WriteFailure BuiltVote :=
  if vote.fields.isReconfiguration then .error .panicked
  else do
    let vote ← vote.makeRoom ((req.length + 4) % word)
    let back ← vote.back.write (writeRequest req)
    return { vote with
      fields := { vote.fields with requests := vote.fields.requests ++ [req] }
      back := back }

/-- The constructor's arguments: `m_version` and `m_memberId` are in the header. -/
def newVote (header : Header) (cookie : Bytes) (relinquishPrimary : Bool) : Wire.Vote :=
  ⟨header, cookie, false, none, relinquishPrimary, []⟩

/-- A vote with these fields: a constructor, and `AddRequest` for each request. -/
def Vote.construct (fill : Fill) (vote : Wire.Vote) : Except WriteFailure BuiltVote := do
  let built ← Vote.init fill vote
  vote.requests.foldlM BuiltVote.addRequest built

namespace BuiltVote

/-- `m_marshal`. -/
def buffers (vote : BuiltVote) : List Memory := vote.full ++ [vote.back]

/-- `Vote::GetMarshalLen`. -/
def getMarshalLen (vote : BuiltVote) : Nat :=
  (vote.buffers.map fun memory => memory.bytes.length).sum % word

/-- `Vote::CalculateChecksum`: the header is put into the first buffer, and the fingerprint goes on
from one buffer to the next. -/
def calculateChecksum (vote : BuiltVote) (fill : Fill) : Except WriteFailure Nat := do
  let header ← Header.marshal vote.fields.header fill vote.getMarshalLen
  match vote.buffers with
  | [] => .error .panicked
  | first :: rest =>
    let data := header ++ first.bytes.drop (Header.baseSize vote.fields.header.version)
    return rest.foldl (fun checksum memory => fingerprintWith checksum memory.bytes)
      (fingerprint (data.drop (checksumOffset + 8)))

/-- `Vote::Marshal`. -/
def marshal (vote : BuiltVote) (fill : Fill) : Writer :=
  match vote.buffers with
  | [] => Header.marshal vote.fields.header fill vote.getMarshalLen
  | first :: rest =>
    concat
      (Header.marshal vote.fields.header fill vote.getMarshalLen ::
        writeData (first.bytes.drop (Header.baseSize vote.fields.header.version)) ::
        rest.map fun memory => writeData memory.bytes)

end BuiltVote

/-! ## Messages -/

/-- A message object. -/
inductive Built where
  | base (header : Header)
  | vote (vote : BuiltVote)
  | join (m : JoinMessage)
  | prepare (m : PrepareMsg)
  | prepareAccepted (header : Header) (vote : BuiltVote)
  | statusResponse (m : StatusResponse)
  | bootstrap (m : BootstrapMsg)
  deriving DecidableEq, Repr

/-- The message object with these fields. -/
def construct (fill : Fill) : Msg → Except WriteFailure Built
  | .base header => .ok (.base header)
  | .vote vote => do return .vote (← Vote.construct fill vote)
  | .join m => .ok (.join m)
  | .prepare m => .ok (.prepare m)
  | .prepareAccepted m => do
    return .prepareAccepted m.header (← Vote.construct (fun slot => fill (.nested slot)) m.vote)
  | .statusResponse m => .ok (.statusResponse m)
  | .bootstrap m => .ok (.bootstrap m)

namespace Built

/-- `GetMarshalLen` of the class. -/
def getMarshalLen : Built → Nat
  | .base header => Header.baseSize header.version
  | .vote m => m.getMarshalLen
  | .join m => Header.baseSize m.header.version + 2 + 8 + 8 + 8
  | .prepare m =>
    ((if m.header.version.raw ≥ 2 then PrimaryCookie.getMarshalLen m.primaryCookie else 0) +
      Header.baseSize m.header.version) % word
  | .prepareAccepted header m =>
    (m.getMarshalLen + Header.baseSize header.version) % word
  | .statusResponse m =>
    let version := m.header.version
    8 + BallotNumber.baseSize version + 8 + 8 + 8 + 8 + BallotNumber.baseSize version + 4 +
      Header.baseSize version
  | .bootstrap m =>
    (Header.baseSize m.header.version + MemberSet.getMarshalLen m.memberSet m.header.version) % word

/-- `Marshal` of the class. -/
def marshal (fill : Fill) (built : Built) : Writer :=
  let len := built.getMarshalLen
  match built with
  | .base header => Header.marshal header fill len
  | .vote m => m.marshal fill
  | .join m =>
    concat
      [Header.marshal m.header fill len, writeU16 m.learnPort, writeU64 m.minDecreeInLog,
        writeU64 m.checkpointedDecree, writeU64 m.checkpointSize]
  | .prepare m =>
    concat
      [Header.marshal m.header fill len,
        writeIf (m.header.version.raw ≥ 2) (PrimaryCookie.marshal m.primaryCookie)]
  | .prepareAccepted header m =>
    concat [Header.marshal header fill len, m.marshal fun slot => fill (.nested slot)]
  | .statusResponse m =>
    let version := m.header.version
    concat
      [Header.marshal m.header fill len, writeU64 m.queryDecree,
        BallotNumber.marshal m.queryBallot (fill .queryBallot) version, writeU64 m.lastReceivedAgo,
        writeU64 m.minDecreeInLog, writeU64 m.checkpointedDecree, writeU64 m.checkpointSize,
        BallotNumber.marshal m.maxBallot (fill .maxBallot) version, writeU32 m.state]
  | .bootstrap m =>
    concat
      [Header.marshal m.header fill len, MemberSet.marshal m.memberSet fill m.header.version]

/-- `Message::CalculateChecksum` on the bytes of a message: the checksum, and the bytes with it. -/
def calculateChecksum (built : Built) (buf : Bytes) : Nat × Bytes :=
  let dataOffset := checksumOffset + 8
  let checksum := fingerprint ((buf.take built.getMarshalLen).drop dataOffset)
  (checksum, buf.take checksumOffset ++ leBytes 8 checksum ++ buf.drop dataOffset)

/-- What is sent, with its checksum. A vote's is computed in its buffers before it is marshalled,
that of the other messages in the bytes they have been marshalled to. -/
def send (fill : Fill) : Built → Except WriteFailure (Nat × Bytes)
  | .vote m => do
    let checksum ← m.calculateChecksum fill
    let header := { m.fields.header with checksum := checksum }
    let bytes ← BuiltVote.marshal { m with fields := { m.fields with header := header } } fill
    return (checksum, bytes)
  | built => do
    let buf ← built.marshal fill
    return built.calculateChecksum buf

end Built

end Rsl.Cpp
