import Rsl.Lib.Parser
import Rsl.Wire.Fprint

/-!
# Reading messages off the wire

The readers of `rsl-wire`: the common `Header` and the six kinds of message with a body of their
own, with the version rules of `version.rs`. `Reader` is a parser over bytes; its sticky overshoot
flag is failure, since every caller returns at the first failed read. Integers read from the wire
are natural numbers, below `256 ^ k` for a field of `k` bytes.

`local_unmarshal` is what the log rests on: a header occupies at most 172 bytes and its value
depends on those alone, so the first page of a padded record gives the header of the record.
-/

set_option autoImplicit false

namespace Rsl.Wire

open Lib Parser

/-- `Reader`. -/
abbrev Reader := Parser UInt8

/-- `read_bool`. -/
def readBool : Reader Bool := do return leNat (← take 1) != 0

/-- `read_u16`. -/
def readU16 : Reader Nat := do return leNat (← take 2)

/-- `read_u32`. -/
def readU32 : Reader Nat := do return leNat (← take 4)

/-- `read_u64`. -/
def readU64 : Reader Nat := do return leNat (← take 8)

/-- A field that is read when the version carries it and has a default when not. -/
def readIf {α : Type} (present : Bool) (read : Reader α) (default : α) : Reader α :=
  if present then read else pure default

/-! ## Versions -/

/-- `ProtocolVersion`. -/
structure ProtocolVersion where
  raw : Nat
  deriving DecidableEq, Repr

namespace ProtocolVersion

/-- `from_wire`. -/
def fromWire (raw : Nat) : Option ProtocolVersion :=
  if 1 ≤ raw ∧ raw ≤ 6 then some ⟨raw⟩ else none

/-- `member_id_is_fixed64`. -/
def memberIdIsFixed64 (v : ProtocolVersion) : Bool := decide (v.raw > 3)

/-- `has_configuration_number`. -/
def hasConfigurationNumber (v : ProtocolVersion) : Bool := decide (v.raw ≥ 3)

/-- `has_payload`. -/
def hasPayload (v : ProtocolVersion) : Bool := decide (v.raw ≥ 6)

/-- `has_primary_cookie`. -/
def hasPrimaryCookie (v : ProtocolVersion) : Bool := decide (v.raw ≥ 2)

/-- `has_reconfiguration`. -/
def hasReconfiguration (v : ProtocolVersion) : Bool := decide (v.raw ≥ 3)

/-- `has_relinquish_primary`. -/
def hasRelinquishPrimary (v : ProtocolVersion) : Bool := decide (v.raw ≥ 5)

/-- `member_set_uses_learn_port`. -/
def memberSetUsesLearnPort (v : ProtocolVersion) : Bool := decide (v.raw > 3)

end ProtocolVersion

/-! ## Shared types -/

/-- `MemberId`: the id without its terminator and padding. -/
structure MemberId where
  value : Bytes
  deriving DecidableEq, Repr

namespace MemberId

/-- `MemberId::base_size`. -/
def baseSize (v : ProtocolVersion) : Nat := if v.memberIdIsFixed64 then 64 else 8

/-- `MemberId::unmarshal`. -/
def unmarshal (v : ProtocolVersion) : Reader MemberId :=
  if v.memberIdIsFixed64 then do
    let field ← take 64
    -- a field with no terminator is rejected
    check (field.contains 0)
    return ⟨field.takeWhile (· != 0)⟩
  else do
    let value ← readU64
    return ⟨if value = 0 then [] else (Nat.toDigits 10 value).map fun c => UInt8.ofNat c.toNat⟩

end MemberId

/-- `BallotNumber`. -/
structure BallotNumber where
  ballotId : Nat
  memberId : MemberId
  deriving DecidableEq, Repr

namespace BallotNumber

/-- `BallotNumber::base_size`. -/
def baseSize (v : ProtocolVersion) : Nat := 4 + MemberId.baseSize v

/-- `BallotNumber::unmarshal`. -/
def unmarshal (v : ProtocolVersion) : Reader BallotNumber := do
  let ballotId ← readU32
  let memberId ← MemberId.unmarshal v
  return ⟨ballotId, memberId⟩

end BallotNumber

/-- `RslNode`. -/
structure RslNode where
  memberId : MemberId
  ip : Nat
  rslPort : Nat
  rslLearnPort : Nat
  appPort : Nat
  hostName : Bytes
  deriving DecidableEq, Repr

/-- The body of the loop of `MemberSet::unmarshal`. -/
def RslNode.unmarshal (v : ProtocolVersion) : Reader RslNode := do
  let memberId ← MemberId.unmarshal v
  let ip ← readU32
  let rslPort ← readU16
  let port ← readU16
  let hostLen ← readU16
  let hostName ← take hostLen
  return if v.memberSetUsesLearnPort then ⟨memberId, ip, rslPort, port, 0, hostName⟩
    else ⟨memberId, ip, rslPort, 0, port, hostName⟩

/-- `MemberSet`. -/
structure MemberSet where
  members : List RslNode
  cookie : Bytes
  deriving DecidableEq, Repr

/-- `MAX_MEMBER_SET_COOKIE_LEN`. -/
def maxMemberSetCookieLen : Nat := 8192

/-- `MemberSet::unmarshal`. -/
def MemberSet.unmarshal (v : ProtocolVersion) : Reader MemberSet := do
  let numMembers ← readU16
  let members ← replicate (RslNode.unmarshal v) numMembers
  let cookieLen ← readU32
  check (decide (cookieLen ≤ maxMemberSetCookieLen))
  let cookie ← take cookieLen
  return ⟨members, cookie⟩

/-! ## Messages -/

/-- `MAGIC`. -/
def magicNumber : Nat := 0xF00DFACE

/-- `CHECKSUM_OFFSET`. -/
def checksumOffset : Nat := 6

/-- `MSG_VOTE`. -/
def msgVote : Nat := 1

/-- `MSG_PREPARE`. -/
def msgPrepare : Nat := 3

/-- `MSG_PREPARE_ACCEPTED`. -/
def msgPrepareAccepted : Nat := 4

/-- `MSG_STATUS_RESPONSE`. -/
def msgStatusResponse : Nat := 7

/-- `MSG_RECONFIGURATION_DECISION`. -/
def msgReconfigurationDecision : Nat := 10

/-- `MSG_JOIN`. -/
def msgJoin : Nat := 12

/-- `MSG_BOOTSTRAP`. -/
def msgBootstrap : Nat := 14

/-- `Header`. -/
structure Header where
  version : ProtocolVersion
  unMarshalLen : Nat
  checksum : Nat
  magic : Nat
  msgId : Nat
  memberId : MemberId
  decree : Nat
  configurationNumber : Nat
  ballot : BallotNumber
  payload : Nat
  deriving DecidableEq, Repr

namespace Header

/-- `Header::base_size`. -/
def baseSize (v : ProtocolVersion) : Nat :=
  2 + 4 + 8 + 4 + 2 + MemberId.baseSize v + 8 + BallotNumber.baseSize v +
    (if v.hasConfigurationNumber then 4 else 0) + (if v.hasPayload then 8 else 0)

/-- `Header::unmarshal`. The length and the magic number are checked after the whole header has
been read. -/
def unmarshal : Reader Header := do
  let rawVersion ← readU16
  let version ← ofOption (ProtocolVersion.fromWire rawVersion)
  let unMarshalLen ← readU32
  let checksum ← readU64
  let magic ← readU32
  let msgId ← readU16
  let memberId ← MemberId.unmarshal version
  let decree ← readU64
  let configurationNumber ← readIf version.hasConfigurationNumber readU32 1
  let ballot ← BallotNumber.unmarshal version
  let payload ← readIf version.hasPayload readU64 0
  check (decide (baseSize version ≤ unMarshalLen))
  check (decide (magic = magicNumber))
  return ⟨version, unMarshalLen, checksum, magic, msgId, memberId, decree, configurationNumber,
    ballot, payload⟩

end Header

/-- `unmarshal_base`. -/
def unmarshalBase (buf : Bytes) : Option Header := (Header.unmarshal buf).map Prod.fst

/-- `verify_checksum`. -/
def verifyChecksum (buf : Bytes) : Bool :=
  let dataOff := checksumOffset + 8
  decide (dataOff ≤ buf.length) &&
    (decide (leNat ((buf.drop 2).take 4) = buf.length) &&
      decide (fingerprint (buf.drop dataOff) = leNat ((buf.drop checksumOffset).take 8)))

/-- `read_primary_cookie`. -/
def readPrimaryCookie : Reader Bytes := do
  let len ← readU32
  if len = 0 then return [] else take len

/-- The requests of a vote: the loop runs while unread bytes remain. Each round reads at least five
of them, so their number bounds the rounds. -/
def readRequests : Nat → Reader (List Bytes)
  | 0 => pure []
  | fuel + 1 => do
    if (← get).isEmpty then return []
    let reqLen ← readU32
    check (reqLen != 0)
    let req ← take reqLen
    let requests ← readRequests fuel
    return req :: requests

/-- `Vote`. -/
structure Vote where
  header : Header
  primaryCookie : Bytes
  isReconfiguration : Bool
  membersInNewConfiguration : Option MemberSet
  relinquishPrimary : Bool
  requests : List Bytes
  deriving DecidableEq, Repr

/-- The body of a vote after its header. -/
def Vote.readBody (header : Header) : Reader Vote := do
  let v := header.version
  let primaryCookie ← readIf v.hasPrimaryCookie readPrimaryCookie []
  let isReconfiguration ← readIf v.hasReconfiguration readBool false
  let members ← readIf isReconfiguration (some <$> MemberSet.unmarshal v) none
  let relinquishPrimary ← readIf v.hasRelinquishPrimary readBool false
  let requests ← readRequests (← get).length
  return ⟨header, primaryCookie, isReconfiguration, members, relinquishPrimary, requests⟩

/-- `Vote::unmarshal`. The body is read from the bytes that the header's own length covers. -/
def Vote.unmarshal (buf : Bytes) : Option Vote := do
  let header ← unmarshalBase buf
  if header.msgId ≠ msgVote ∨ buf.length < header.unMarshalLen then none
  else
    let body := (buf.take header.unMarshalLen).drop (Header.baseSize header.version)
    ((Vote.readBody header) body).map Prod.fst

/-- `PrepareMsg`. -/
structure PrepareMsg where
  header : Header
  primaryCookie : Bytes
  deriving DecidableEq, Repr

/-- `PrepareMsg::unmarshal`. -/
def PrepareMsg.unmarshal : Reader PrepareMsg := do
  let header ← Header.unmarshal
  check (header.msgId == msgPrepare)
  let primaryCookie ← readIf header.version.hasPrimaryCookie readPrimaryCookie []
  return ⟨header, primaryCookie⟩

/-- `PrepareAccepted`. -/
structure PrepareAccepted where
  header : Header
  vote : Vote
  deriving DecidableEq, Repr

/-- `PrepareAccepted::unmarshal`: a header and, after it, a whole vote. -/
def PrepareAccepted.unmarshal (buf : Bytes) : Option PrepareAccepted :=
  match Header.unmarshal buf with
  | none => none
  | some (header, rest) =>
    if header.msgId ≠ msgPrepareAccepted then none
    else (Vote.unmarshal rest).map fun vote => ⟨header, vote⟩

/-- `JoinMessage`. -/
structure JoinMessage where
  header : Header
  learnPort : Nat
  minDecreeInLog : Nat
  checkpointedDecree : Nat
  checkpointSize : Nat
  deriving DecidableEq, Repr

/-- `JoinMessage::unmarshal`. -/
def JoinMessage.unmarshal : Reader JoinMessage := do
  let header ← Header.unmarshal
  check (header.msgId == msgJoin)
  let learnPort ← readU16
  let minDecreeInLog ← readU64
  let checkpointedDecree ← readU64
  let checkpointSize ← readU64
  return ⟨header, learnPort, minDecreeInLog, checkpointedDecree, checkpointSize⟩

/-- `StatusResponse`. The signed `last_received_ago` is kept as the `u64` it is on the wire. -/
structure StatusResponse where
  header : Header
  queryDecree : Nat
  queryBallot : BallotNumber
  lastReceivedAgo : Nat
  minDecreeInLog : Nat
  checkpointedDecree : Nat
  checkpointSize : Nat
  maxBallot : BallotNumber
  state : Nat
  deriving DecidableEq, Repr

/-- `StatusResponse::unmarshal`. -/
def StatusResponse.unmarshal : Reader StatusResponse := do
  let header ← Header.unmarshal
  check (header.msgId == msgStatusResponse)
  let queryDecree ← readU64
  let queryBallot ← BallotNumber.unmarshal header.version
  let lastReceivedAgo ← readU64
  let minDecreeInLog ← readU64
  let checkpointedDecree ← readU64
  let checkpointSize ← readU64
  let maxBallot ← BallotNumber.unmarshal header.version
  let state ← readU32
  return ⟨header, queryDecree, queryBallot, lastReceivedAgo, minDecreeInLog, checkpointedDecree,
    checkpointSize, maxBallot, state⟩

/-- `BootstrapMsg`. -/
structure BootstrapMsg where
  header : Header
  memberSet : MemberSet
  deriving DecidableEq, Repr

/-- `BootstrapMsg::unmarshal`. -/
def BootstrapMsg.unmarshal : Reader BootstrapMsg := do
  let header ← Header.unmarshal
  check (header.msgId == msgBootstrap)
  let memberSet ← MemberSet.unmarshal header.version
  return ⟨header, memberSet⟩

/-- `Msg`. -/
inductive Msg where
  | base (header : Header)
  | vote (vote : Vote)
  | join (join : JoinMessage)
  | prepare (prepare : PrepareMsg)
  | prepareAccepted (accepted : PrepareAccepted)
  | statusResponse (response : StatusResponse)
  | bootstrap (bootstrap : BootstrapMsg)
  deriving DecidableEq, Repr

/-- `MsgKind`. -/
inductive MsgKind where
  | base
  | vote
  | join
  | prepare
  | prepareAccepted
  | statusResponse
  | bootstrap
  deriving DecidableEq, Repr

/-- `Msg::unmarshal`. -/
def Msg.unmarshal (kind : MsgKind) (buf : Bytes) : Option Msg :=
  match kind with
  | .base => (unmarshalBase buf).map .base
  | .vote => (Vote.unmarshal buf).map .vote
  | .join => ((JoinMessage.unmarshal buf).map Prod.fst).map .join
  | .prepare => ((PrepareMsg.unmarshal buf).map Prod.fst).map .prepare
  | .prepareAccepted => (PrepareAccepted.unmarshal buf).map .prepareAccepted
  | .statusResponse => ((StatusResponse.unmarshal buf).map Prod.fst).map .statusResponse
  | .bootstrap => ((BootstrapMsg.unmarshal buf).map Prod.fst).map .bootstrap

/-! ## A header depends on its own bytes -/

theorem local_readU16 : Local 2 readU16 := (local_take 2).bind fun _ => local_pure _

theorem local_readU32 : Local 4 readU32 := (local_take 4).bind fun _ => local_pure _

theorem local_readU64 : Local 8 readU64 := (local_take 8).bind fun _ => local_pure _

theorem local_readIf {α : Type} {n : Nat} {read : Reader α} (h : Local n read) (present : Bool)
    (default : α) : Local n (readIf present read default) :=
  h.ite ((local_pure default).mono (Nat.zero_le n))

theorem MemberId.local_unmarshal (v : ProtocolVersion) : Local 64 (MemberId.unmarshal v) := by
  unfold MemberId.unmarshal
  split
  · exact (local_take 64).bind fun _ => (local_check _).bind fun _ => local_pure _
  · exact (local_readU64.bind fun _ => local_pure _).mono (by decide)

theorem BallotNumber.local_unmarshal (v : ProtocolVersion) :
    Local 68 (BallotNumber.unmarshal v) :=
  local_readU32.bind fun _ => (MemberId.local_unmarshal v).bind fun _ => local_pure _

theorem Header.local_unmarshal : Local 172 Header.unmarshal :=
  local_readU16.bind fun _ => (local_ofOption _).bind fun version =>
  local_readU32.bind fun _ => local_readU64.bind fun _ =>
  local_readU32.bind fun _ => local_readU16.bind fun _ =>
  (MemberId.local_unmarshal version).bind fun _ => local_readU64.bind fun _ =>
  (local_readIf local_readU32 _ _).bind fun _ =>
    (BallotNumber.local_unmarshal version).bind fun _ =>
  (local_readIf local_readU64 _ _).bind fun _ => (local_check _).bind fun _ =>
  (local_check _).bind fun _ => local_pure _

/-- Two buffers that agree in their first 172 bytes have the same header. -/
theorem unmarshalBase_congr {buf buf' : Bytes} {header : Header}
    (h : unmarshalBase buf = some header) (hpre : buf.take 172 <+: buf') :
    unmarshalBase buf' = some header := by
  obtain ⟨⟨_, rest⟩, hread, rfl⟩ := Option.map_eq_some_iff.mp h
  obtain ⟨rest', hread'⟩ := Header.local_unmarshal.congr hread hpre
  rw [unmarshalBase, hread', Option.map_some]

/-! ## Ranges of what is read -/

theorem ensures_readU64 : Ensures (fun n => n < 18446744073709551616) readU64 := by
  refine (ensures_take 8).bind fun bytes hlen => ensures_pure ?_
  have := leNat_lt bytes
  rwa [hlen] at this

/-- The decree of a header is a `u64`. -/
theorem decree_lt {buf : Bytes} {header : Header} (h : unmarshalBase buf = some header) :
    header.decree < 18446744073709551616 := by
  have hread : Ensures (fun header => header.decree < 18446744073709551616) Header.unmarshal :=
    .skip fun _ => .skip fun _ => .skip fun _ => .skip fun _ => .skip fun _ => .skip fun _ =>
    .skip fun _ => ensures_readU64.bind fun _ hdecree =>
    .skip fun _ => .skip fun _ => .skip fun _ => .skip fun _ => .skip fun _ => ensures_pure hdecree
  obtain ⟨⟨_, rest⟩, hheader, rfl⟩ := Option.map_eq_some_iff.mp h
  exact hread _ _ _ hheader

end Rsl.Wire
