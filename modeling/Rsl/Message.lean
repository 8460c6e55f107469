import Rsl.Ballot

/-!
# Votes, messages and log records

The data that travels between replicas and into their logs. Every message carries a `Header`: the
member that sent it, its decree, configuration number and ballot. A `Vote` adds the requests of the
decree, the member set of the next configuration when it is a configuration-change vote, and the
flag by which a primary gives up its role. The type `ρ` of requests is arbitrary.

The protocol version, the primary cookie, checksums, time stamps and the vote payload play no part
in the functions modelled here.
-/

set_option autoImplicit false

namespace Rsl

/-- The fields common to all messages. -/
structure Header where
  memberId : Nat
  decree : Nat
  configurationNumber : Nat
  ballot : BallotNumber
  deriving DecidableEq, Repr

/-- A vote: the value proposed for a decree. -/
structure Vote (ρ : Type) extends Header where
  /-- The requests of the decree, in order. -/
  requests : List ρ
  /-- `m_isReconfiguration` with `m_membersInNewConfiguration`. -/
  reconfiguration : Option (List Nat)
  /-- `m_relinquishPrimary`. -/
  relinquishPrimary : Bool
  deriving DecidableEq, Repr

/-- What a decree decides: its requests and, for a configuration change, the new members. -/
structure Content (ρ : Type) where
  requests : List ρ
  reconfiguration : Option (List Nat)
  deriving DecidableEq, Repr

namespace Vote

variable {ρ : Type}

/-- The content of a vote. -/
def content (v : Vote ρ) : Content ρ := ⟨v.requests, v.reconfiguration⟩

/-- `m_isReconfiguration`. -/
def isReconfiguration (v : Vote ρ) : Bool := v.reconfiguration.isSome

/-- The constructor `Vote(version, memberId, decree, configurationNumber, ballot, cookie)`: a vote
without requests. It also serves as the placeholder for the first decree of a configuration. -/
def new (memberId decree configurationNumber : Nat) (ballot : BallotNumber) : Vote ρ :=
  { memberId, decree, configurationNumber, ballot
    requests := [], reconfiguration := none, relinquishPrimary := false }

/-- The constructor `Vote(version, other, cookie)`: a copy to be proposed again. -/
def copy (other : Vote ρ) : Vote ρ := { other with relinquishPrimary := false }

end Vote

/-- The record of a log file. -/
inductive Record (ρ : Type) where
  | vote (v : Vote ρ)
  | prepare (h : Header)
  | reconfigurationDecision (h : Header)
  deriving DecidableEq, Repr

/-- The header of a log record. -/
def Record.header {ρ : Type} : Record ρ → Header
  | .vote v => v.toHeader
  | .prepare h => h
  | .reconfigurationDecision h => h

/-- The messages other than votes, by message id, with the fields beyond the header. -/
inductive MessageBody (ρ : Type) where
  | voteAccepted
  | prepare
  | prepareAccepted (vote : Vote ρ)
  | notAccepted
  | statusQuery
  | statusResponse (queryDecree : Nat) (queryBallot : BallotNumber) (minDecreeInLog : Nat)
  | reconfigurationDecision
  | join (minDecreeInLog : Nat)
  | joinRequest
  | defunctConfiguration
  deriving DecidableEq, Repr

/-- A message other than a vote. -/
structure Message (ρ : Type) extends Header where
  body : MessageBody ρ
  deriving DecidableEq, Repr

/-- What a packet carries. -/
inductive Payload (ρ : Type) where
  | vote (v : Vote ρ)
  | message (m : Message ρ)
  deriving DecidableEq, Repr

/-- A packet on the network. -/
structure Packet (ρ : Type) where
  src : Nat
  dst : Nat
  payload : Payload ρ
  deriving DecidableEq, Repr

/-- `ConfigurationInfo`: a configuration's number, its initial decree and its members. -/
structure ConfigurationInfo where
  configurationNumber : Nat
  initialDecree : Nat
  members : List Nat
  deriving DecidableEq, Repr

end Rsl
