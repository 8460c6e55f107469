import Rsl.Wire.Message

/-!
# Writing messages to the wire

The writers of `rsl-wire`, for every kind of message. A writer appends its fields in order; it ends
in an error of `MarshalError` or in a panic, both of which leave no bytes. A length is a `u32` and
its sums wrap around: the numbers are those of a release build, where overflow is not checked.
-/

set_option autoImplicit false

namespace Rsl.Wire

/-- `MarshalError`. -/
inductive MarshalError where
  | reconfigurationVoteWithRequests
  | reconfigurationVoteWithoutMemberSet
  deriving DecidableEq, Repr

/-- Why a writer returned no bytes. -/
inductive WriteFailure where
  | error (e : MarshalError)
  | panicked
  deriving DecidableEq, Repr

/-- What a writer produces. -/
abbrev Writer := Except WriteFailure Bytes

/-- Run the writers in order, as calls on one `Writer` of the source do. -/
def concat : List Writer → Writer
  | [] => .ok []
  | w :: ws => do
    let first ← w
    let rest ← concat ws
    return first ++ rest

/-- `to_le_bytes`, for a field of `k` bytes. -/
def leBytes : Nat → Nat → Bytes
  | 0, _ => []
  | k + 1, n => UInt8.ofNat n :: leBytes k (n / 256)

/-- `write_bool`. -/
def writeBool (val : Bool) : Writer := .ok [if val then 1 else 0]

/-- `write_u16`. -/
def writeU16 (val : Nat) : Writer := .ok (leBytes 2 val)

/-- `write_u32`. -/
def writeU32 (val : Nat) : Writer := .ok (leBytes 4 val)

/-- `write_u64`. -/
def writeU64 (val : Nat) : Writer := .ok (leBytes 8 val)

/-- `write_data`. -/
def writeData (data : Bytes) : Writer := .ok data

/-- A field that is written when the version carries it. -/
def writeIf (present : Bool) (w : Writer) : Writer := if present then w else .ok []

/-- A length as a `u32`. -/
def asU32 (n : Nat) : Nat := n % 4294967296

/-! ## Shared types -/

/-- `isspace`. -/
def isSpace (b : UInt8) : Bool := b == 32 || (decide (9 ≤ b) && decide (b ≤ 13))

/-- `char::to_digit` on a byte. -/
def toDigit (radix : Nat) (b : UInt8) : Option Nat :=
  let digit :=
    if 48 ≤ b ∧ b ≤ 57 then some (b.toNat - 48)
    else if 97 ≤ b ∧ b ≤ 122 then some (b.toNat - 97 + 10)
    else if 65 ≤ b ∧ b ≤ 90 then some (b.toNat - 65 + 10)
    else none
  digit.filter (· < radix)

/-- The digit loop of `parse_member_id_u64`: the value, whether it overflowed, and what is left. -/
def readDigits (radix : Nat) (acc : Nat) (overflow : Bool) : Bytes → Nat × Bool × Bytes
  | [] => (acc, overflow, [])
  | b :: bs =>
    match toDigit radix b with
    | none => (acc, overflow, b :: bs)
    | some d =>
      let v := acc * radix % 18446744073709551616
      readDigits radix ((v + d) % 18446744073709551616)
        (overflow || decide (18446744073709551616 ≤ acc * radix) ||
          decide (18446744073709551616 ≤ v + d)) bs

/-- The optional sign. -/
def readSign : Bytes → Bool × Bytes
  | 43 :: rest => (false, rest)
  | 45 :: rest => (true, rest)
  | rest => (false, rest)

/-- The base and the digits after its prefix. -/
def readRadix : Bytes → Nat × Bytes
  | 48 :: x :: h :: rest =>
    if (x = 120 ∨ x = 88) ∧ (toDigit 16 h).isSome then (16, h :: rest)
    else (8, 48 :: x :: h :: rest)
  | 48 :: rest => (8, 48 :: rest)
  | rest => (10, rest)

/-- `parse_member_id_u64`; `none` is a panic. -/
def parseMemberIdU64 (value : Bytes) : Option Nat :=
  if value = [] then some 0
  else
    let (negative, signed) := readSign (value.dropWhile isSpace)
    let (radix, digits) := readRadix signed
    let (acc, overflow, rest) := readDigits radix 0 false digits
    if rest = [] ∧ digits ≠ [] then
      some (if overflow then 18446744073709551615
        else if negative then (18446744073709551616 - acc) % 18446744073709551616 else acc)
    else none

/-- `MemberId::marshal`. The fixed field is too short for more than 64 bytes. -/
def MemberId.marshal (id : MemberId) (v : ProtocolVersion) : Writer :=
  if v.memberIdIsFixed64 then
    if id.value.length ≤ 64 then
      writeData (id.value ++ List.replicate (64 - id.value.length) 0)
    else .error .panicked
  else match parseMemberIdU64 id.value with
    | some n => writeU64 n
    | none => .error .panicked

/-- `BallotNumber::marshal`. -/
def BallotNumber.marshal (ballot : BallotNumber) (v : ProtocolVersion) : Writer :=
  concat [writeU32 ballot.ballotId, ballot.memberId.marshal v]

/-- The body of the loop of `MemberSet::marshal`. -/
def RslNode.marshal (node : RslNode) (v : ProtocolVersion) : Writer :=
  concat
    [node.memberId.marshal v, writeU32 node.ip, writeU16 node.rslPort,
      writeU16 (if v.memberSetUsesLearnPort then node.rslLearnPort else node.appPort),
      writeU16 node.hostName.length, writeData node.hostName]

/-- `MemberSet::marshal`. -/
def MemberSet.marshal (set : MemberSet) (v : ProtocolVersion) : Writer :=
  concat
    [writeU16 set.members.length, concat (set.members.map (·.marshal v)),
      writeU32 set.cookie.length, writeData set.cookie]

/-- `MemberSet::marshal_len`. -/
def MemberSet.marshalLen (set : MemberSet) (v : ProtocolVersion) : Nat :=
  let nodeFixed := MemberId.baseSize v + 4 + 2 + 2 + 2
  asU32 (nodeFixed * set.members.length + 6 + set.cookie.length +
    (set.members.map fun node => node.hostName.length).sum)

/-! ## Messages -/

/-- `Header::write`. -/
def Header.write (header : Header) (marshalLen : Nat) : Writer :=
  let v := header.version
  concat
    [writeU16 v.raw, writeU32 marshalLen, writeU64 header.checksum, writeU32 header.magic,
      writeU16 header.msgId, header.memberId.marshal v, writeU64 header.decree,
      writeIf v.hasConfigurationNumber (writeU32 header.configurationNumber),
      header.ballot.marshal v, writeIf v.hasPayload (writeU64 header.payload)]

/-- `finalize`. -/
def finalize (bytes : Bytes) : Bytes :=
  let dataOff := checksumOffset + 8
  bytes.take checksumOffset ++ leBytes 8 (fingerprint (bytes.drop dataOff)) ++ bytes.drop dataOff

/-- `write_primary_cookie`. -/
def writePrimaryCookie (cookie : Bytes) : Writer :=
  concat [writeU32 cookie.length, writeData cookie]

/-- `Vote::body_len`. -/
def Vote.bodyLen (vote : Vote) : Nat :=
  let v := vote.header.version
  asU32 ((if v.hasPrimaryCookie then 4 + asU32 vote.primaryCookie.length else 0) +
    (if v.hasReconfiguration then
      1 + (if vote.isReconfiguration then
        (vote.membersInNewConfiguration.map (·.marshalLen v)).getD 0 else 0)
    else 0) +
    (if v.hasRelinquishPrimary then 1 else 0) +
    (vote.requests.map fun req => 4 + asU32 req.length).sum)

/-- `Vote::marshal_len`. -/
def Vote.marshalLen (vote : Vote) : Nat :=
  asU32 (Header.baseSize vote.header.version + vote.bodyLen)

/-- `Vote::write_to`. -/
def Vote.writeTo (vote : Vote) : Writer :=
  let v := vote.header.version
  if vote.isReconfiguration ∧ v.hasReconfiguration ∧ vote.requests ≠ [] then
    .error (.error .reconfigurationVoteWithRequests)
  else if vote.isReconfiguration ∧ v.hasReconfiguration ∧
      vote.membersInNewConfiguration = none then
    .error (.error .reconfigurationVoteWithoutMemberSet)
  else
    concat
      [vote.header.write vote.marshalLen,
        writeIf v.hasPrimaryCookie (writePrimaryCookie vote.primaryCookie),
        writeIf v.hasReconfiguration (concat
          [writeBool vote.isReconfiguration,
            writeIf vote.isReconfiguration (match vote.membersInNewConfiguration with
              | some set => set.marshal v
              | none => .error .panicked)]),
        writeIf v.hasRelinquishPrimary (writeBool vote.relinquishPrimary),
        concat (vote.requests.map fun req => concat [writeU32 req.length, writeData req])]

/-- `PrepareMsg::marshal_len`. -/
def PrepareMsg.marshalLen (prepare : PrepareMsg) : Nat :=
  let v := prepare.header.version
  asU32 ((if v.hasPrimaryCookie then 4 + asU32 prepare.primaryCookie.length else 0) +
    Header.baseSize v)

/-- `PrepareAccepted::marshal_len`. -/
def PrepareAccepted.marshalLen (accepted : PrepareAccepted) : Nat :=
  asU32 (accepted.vote.marshalLen + Header.baseSize accepted.header.version)

/-- `JoinMessage::marshal_len`. -/
def JoinMessage.marshalLen (join : JoinMessage) : Nat :=
  Header.baseSize join.header.version + 2 + 8 + 8 + 8

/-- `StatusResponse::marshal_len`. -/
def StatusResponse.marshalLen (response : StatusResponse) : Nat :=
  let v := response.header.version
  8 + BallotNumber.baseSize v + 8 + 8 + 8 + 8 + BallotNumber.baseSize v + 4 + Header.baseSize v

/-- `BootstrapMsg::marshal_len`. -/
def BootstrapMsg.marshalLen (bootstrap : BootstrapMsg) : Nat :=
  let v := bootstrap.header.version
  asU32 (Header.baseSize v + bootstrap.memberSet.marshalLen v)

/-- The `marshal_len` of the kind; that of a bare header is its size. -/
def Msg.marshalLen : Msg → Nat
  | .base header => Header.baseSize header.version
  | .vote m => m.marshalLen
  | .join m => m.marshalLen
  | .prepare m => m.marshalLen
  | .prepareAccepted m => m.marshalLen
  | .statusResponse m => m.marshalLen
  | .bootstrap m => m.marshalLen

/-- What a message writes before `finalize`: its header with its length, and its body. -/
def Msg.write : Msg → Writer
  | .base header => header.write (Header.baseSize header.version)
  | .vote m => m.writeTo
  | .join m =>
    concat
      [m.header.write m.marshalLen, writeU16 m.learnPort, writeU64 m.minDecreeInLog,
        writeU64 m.checkpointedDecree, writeU64 m.checkpointSize]
  | .prepare m =>
    concat
      [m.header.write m.marshalLen,
        writeIf m.header.version.hasPrimaryCookie (writePrimaryCookie m.primaryCookie)]
  | .prepareAccepted m =>
    concat [m.header.write m.marshalLen, m.vote.writeTo]
  | .statusResponse m =>
    let v := m.header.version
    concat
      [m.header.write m.marshalLen, writeU64 m.queryDecree,
        m.queryBallot.marshal v, writeU64 m.lastReceivedAgo,
        writeU64 m.minDecreeInLog, writeU64 m.checkpointedDecree,
        writeU64 m.checkpointSize, m.maxBallot.marshal v, writeU32 m.state]
  | .bootstrap m =>
    concat
      [m.header.write m.marshalLen,
        m.memberSet.marshal m.header.version]

/-- `Msg::marshal_with_checksum`. -/
def Msg.marshalWithChecksum (m : Msg) : Writer := m.write.map finalize

end Rsl.Wire
