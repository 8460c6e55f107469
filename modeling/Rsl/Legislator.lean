import Rsl.Lib.Act
import Rsl.Message

/-!
# The state of a replica and its logging functions

`Legislator` holds the fields of the class of that name that the voting protocol reads and writes.
The functions that change them are actions: an assertion that fails aborts the process in the state
reached so far. This module has the functions that write the log, install a configuration, propose
votes and move between the protocol states. They call each other in a cycle when the quorum is one
replica: installing a configuration restarts the election, which proposes the first vote at once.
The cycle is cut by passing `StartInitializing` as an argument, and `startInitializing` ties the
knot at the depth it can reach.

The log is the sequence of records in all log files. Packets to be sent, votes handed to the
execution queue, votes proposed and configurations installed collect in `outbox`, `passed`,
`proposed` and `installed`; the last two only record what happened.
-/

set_option autoImplicit false

namespace Rsl

open Act

/-- The states of the protocol. -/
inductive LegislatorState where
  | initializing
  | preparing
  | stablePrimary
  | stableSecondary
  | paxosInactive
  deriving DecidableEq, Repr

/-- A remembered `StatusResponse`. -/
structure StatusResponse where
  memberId : Nat
  decree : Nat
  ballot : BallotNumber
  minDecreeInLog : Nat
  deriving DecidableEq, Repr

/-- The state of one replica. -/
structure Legislator (ρ : Type) where
  memberId : Nat
  state : LegislatorState
  paxosConfiguration : ConfigurationInfo
  maxAcceptedVote : Vote ρ
  maxBallot : BallotNumber
  maxSeenBallot : BallotNumber
  outstandingVote : Option (Vote ρ)
  oldFreshestVote : Option (Vote ρ)
  lastPrepareMsg : Option Header
  responseMap : List Nat
  statusMap : List StatusResponse
  relinquishPrimary : Bool
  forceReelection : Bool
  isPrimary : Bool
  highestDefunctConfigurationNumber : Nat
  lastPassedDecree : Nat
  /-- Received votes not yet played, each with the member it came from. -/
  voteCache : List (Nat × Vote ρ)
  /-- The records of all log files, in order. -/
  log : List (Record ρ)
  /-- Votes handed to the execution queue since the current step began. -/
  passed : List (Vote ρ)
  /-- Packets sent since the current step began. -/
  outbox : List (Packet ρ)
  /-- Votes proposed by `SendNextVote` since the current step began. -/
  proposed : List (Vote ρ)
  /-- Configurations installed since the current step began. -/
  installed : List ConfigurationInfo
  deriving DecidableEq, Repr

/-- What the environment decides while one handler runs: clocks, callbacks of the state machine,
random choices, and the records a learn socket delivers. -/
structure Oracle (ρ : Type) where
  /-- `AcceptMessageFromReplica`, asked about the message with this header. -/
  acceptMessage : Header → Bool
  /-- `now >= m_nextElectionTime`. -/
  electionDue : Bool
  /-- No checkpoint is being saved, the queue is ready and `CanBecomePrimary` agrees. -/
  canBecomePrimary : Bool
  /-- The assertion of `ExecuteQueue::Enqueue` holds for the vote of this decree: either it need not
  go into the queue or the queue is in memory. -/
  queueInMemory : Nat → Bool
  /-- `rand()`. -/
  pick : Nat
  /-- `m_minDecree` of the first log file, which depends on how the log is split into files. -/
  minDecreeInLog : Nat
  /-- What `LearnVotes` reads from its socket to the given member; the flag says that the vote cache
  then starts at or below the decree just accepted. -/
  fetched : Nat → List (Record ρ × Bool)

variable {ρ : Type}

namespace Legislator

/-- `PaxosConfiguration()`. -/
def configurationNumber (s : Legislator ρ) : Nat := s.paxosConfiguration.configurationNumber

/-- `m_replicas`: the other members of the configuration. -/
def replicas (s : Legislator ρ) : List Nat :=
  s.paxosConfiguration.members.filter fun r => decide (r ≠ s.memberId)

/-- `QuorumSize()`. -/
def quorumSize (s : Legislator ρ) : Nat := (s.replicas.length + 1) / 2 + 1

/-- `AmPrimary()`. -/
def amPrimary (s : Legislator ρ) : Bool := decide (s.state = .stablePrimary)

/-- The header of a message about the current configuration. -/
def header (s : Legislator ρ) (decree : Nat) (ballot : BallotNumber) : Header :=
  ⟨s.memberId, decree, s.configurationNumber, ballot⟩

/-- `SendResponse`. -/
def send (s : Legislator ρ) (dst : Nat) (p : Payload ρ) : Legislator ρ :=
  { s with outbox := s.outbox ++ [⟨s.memberId, dst, p⟩] }

/-- `SendRequestToAll`. -/
def sendRequestToAll (s : Legislator ρ) (p : Payload ρ) : Legislator ρ :=
  { s with outbox := s.outbox ++ s.replicas.map fun r => ⟨s.memberId, r, p⟩ }

/-- `SetMaxBallot`. -/
def setMaxBallot (s : Legislator ρ) (ballot : BallotNumber) : Legislator ρ :=
  if s.maxBallot < ballot then { s with maxBallot := ballot } else s

/-- Append a record to the log. -/
def append (s : Legislator ρ) (r : Record ρ) : Legislator ρ := { s with log := s.log ++ [r] }

/-- `UpdateDefunctInfo` for a number below the current configuration. -/
def noteDefunct (s : Legislator ρ) (n : Nat) : Legislator ρ :=
  if n ≤ s.highestDefunctConfigurationNumber then s
  else { s with highestDefunctConfigurationNumber := n }

/-- The vote is logged and becomes the max accepted one. -/
def logged (s : Legislator ρ) (vote : Vote ρ) : Legislator ρ :=
  let s := (s.append (.vote vote)).noteDefunct (vote.configurationNumber - 1)
  { s with maxAcceptedVote := vote }.setMaxBallot vote.ballot

/-- The promise is logged. -/
def promised (s : Legislator ρ) (msg : Header) : Legislator ρ :=
  (s.append (.prepare msg)).setMaxBallot msg.ballot

/-- The configuration is installed: ballots and the max accepted vote start over. -/
def install (s : Legislator ρ) (configuration : ConfigurationInfo) : Legislator ρ :=
  { s with
    paxosConfiguration := configuration
    maxSeenBallot := BallotNumber.empty
    maxBallot := ⟨s.maxBallot.ballotId + 1, 0⟩
    maxAcceptedVote := Vote.new s.memberId configuration.initialDecree 0 BallotNumber.empty
    voteCache := []
    installed := s.installed ++ [configuration] }

section

variable (s : Legislator ρ)

include s

theorem setMaxBallot_eq (b : BallotNumber) :
    s.setMaxBallot b = { s with maxBallot := max s.maxBallot b } := by
  rw [← BallotNumber.ite_lt_eq_max]
  unfold setMaxBallot
  split <;> rfl

theorem noteDefunct_eq (n : Nat) :
    ∃ n', s.noteDefunct n = { s with highestDefunctConfigurationNumber := n' } := by
  unfold noteDefunct
  split
  · exact ⟨s.highestDefunctConfigurationNumber, rfl⟩
  · exact ⟨n, rfl⟩

theorem logged_eq (vote : Vote ρ) :
    ∃ n, s.logged vote = { s with
      log := s.log ++ [.vote vote]
      highestDefunctConfigurationNumber := n
      maxAcceptedVote := vote
      maxBallot := max s.maxBallot vote.ballot } := by
  obtain ⟨n, hn⟩ := (s.append (.vote vote)).noteDefunct_eq (vote.configurationNumber - 1)
  refine ⟨n, ?_⟩
  rw [logged, hn, setMaxBallot_eq]
  rfl

theorem logged_buffers (vote : Vote ρ) :
    (s.logged vote).passed = s.passed ∧ (s.logged vote).outbox = s.outbox ∧
      (s.logged vote).proposed = s.proposed ∧ (s.logged vote).installed = s.installed := by
  obtain ⟨n, hn⟩ := s.logged_eq vote
  rw [hn]
  exact ⟨rfl, rfl, rfl, rfl⟩

theorem promised_eq (msg : Header) :
    s.promised msg = { s with
      log := s.log ++ [.prepare msg]
      maxBallot := max s.maxBallot msg.ballot } := by
  rw [promised, setMaxBallot_eq]
  rfl

end

end Legislator

/-! ## Writing the log -/

/-- `LogVote`. A vote with the decree and ballot of the max accepted vote replaces it without being
logged. -/
def logVote (vote : Vote ρ) : Act (Legislator ρ) Unit := do
  let s ← get
  let max := s.maxAcceptedVote
  if isSameDecree max.decree max.ballot vote.decree vote.ballot then
    modify fun s => { s with maxAcceptedVote := vote }
  else do
    assert (isNextDecree vote.decree vote.ballot max.decree max.ballot)
    modify fun s => s.logged vote

/-- `LogPrepare`. -/
def logPrepare (msg : Header) : Act (Legislator ρ) Unit := do
  let s ← get
  assert (decide (s.maxBallot ≤ msg.ballot))
  if msg.ballot = s.maxBallot then
    pure ()
  else
    modify fun s => s.promised msg

/-- `AddToExecutionQueue`, with the part of `ExecuteQueue::Enqueue` that decides whether the vote
has already passed. -/
def addToExecutionQueue (o : Oracle ρ) (vote : Vote ρ) : Act (Legislator ρ) Unit := do
  let s ← get
  if vote.decree = s.lastPassedDecree then
    pure ()
  else do
    assert (o.queueInMemory vote.decree)
    modify fun s =>
      { s with lastPassedDecree := vote.decree, passed := s.passed ++ [vote] }

/-- `LogAndAcceptVote`. -/
def logAndAcceptVote (o : Oracle ρ) (vote : Vote ρ) : Act (Legislator ρ) Unit := do
  let s ← get
  let max := s.maxAcceptedVote
  assert (isNextDecree vote.decree vote.ballot max.decree max.ballot)
  assert (decide (vote.configurationNumber = s.configurationNumber))
  if vote.decree = max.decree + 1 then
    assert (decide (vote.ballot ≠ BallotNumber.empty))
    addToExecutionQueue o max
  logVote vote

/-! ## Configurations -/

section Initializing

variable (startInit : Act (Legislator ρ) Unit)

/-- `SwitchToPaxosInactiveState`. -/
def switchToPaxosInactiveState : Act (Legislator ρ) Unit :=
  modify fun s =>
    if s.state = .paxosInactive then s
    else { s with state := .paxosInactive, statusMap := [], responseMap := [] }

/-- `ChangePaxosConfiguration`. -/
def changePaxosConfiguration (configuration : ConfigurationInfo) : Act (Legislator ρ) Unit := do
  modify fun s => s.install configuration
  let s ← get
  if s.memberId ∈ configuration.members then
    startInit
  else
    switchToPaxosInactiveState

/-- `LogReconfigurationDecision`. -/
def logReconfigurationDecision (o : Oracle ρ) (decision : Header) : Act (Legislator ρ) Unit := do
  let s ← get
  let max := s.maxAcceptedVote
  if decision.decree ≠ max.decree ∨ decision.ballot ≠ max.ballot then
    pure ()
  else do
    assert (decide (decision.configurationNumber = s.configurationNumber))
    match max.reconfiguration with
    | none => abort
    | some members =>
      modify fun s => s.append (.reconfigurationDecision decision)
      addToExecutionQueue o max
      changePaxosConfiguration startInit ⟨s.configurationNumber + 1, max.decree + 1, members⟩

/-- `SendAndLogReconfigurationDecision`. -/
def sendAndLogReconfigurationDecision (o : Oracle ρ) (decree : Nat) (ballot : BallotNumber) :
    Act (Legislator ρ) Unit := do
  let s ← get
  let decision := s.header decree ballot
  modify fun s => s.sendRequestToAll (.message ⟨decision, .reconfigurationDecision⟩)
  logReconfigurationDecision startInit o decision

/-! ## Proposing -/

/-- The decree and ballot under which `SendNextVote` proposes. -/
def Legislator.nextVote (s : Legislator ρ) (vote : Vote ρ) : Vote ρ :=
  { vote with
    decree :=
      if s.maxBallot = s.maxAcceptedVote.ballot then s.maxAcceptedVote.decree + 1
      else s.maxAcceptedVote.decree
    ballot := s.maxBallot
    memberId := s.memberId
    configurationNumber := s.configurationNumber }

/-- `SendNextVote`. -/
def sendNextVote (o : Oracle ρ) (vote : Vote ρ) : Act (Legislator ρ) Unit := do
  let s ← get
  assert (decide (s.maxBallot.memberId = s.memberId))
  assert s.outstandingVote.isNone
  modify fun s => { s with responseMap := [] }
  assert (decide (s.maxAcceptedVote.ballot ≤ s.maxBallot))
  let vote := s.nextVote vote
  if s.relinquishPrimary then
    pure ()
  else do
    modify fun s =>
      { s with relinquishPrimary := vote.relinquishPrimary, proposed := s.proposed ++ [vote] }
    if 1 < s.quorumSize then do
      modify fun s => { s with outstandingVote := some vote }
      logVote vote
      modify fun s => s.sendRequestToAll (.vote vote)
    else if vote.isReconfiguration then do
      logVote vote
      sendAndLogReconfigurationDecision startInit o vote.decree vote.ballot
    else do
      logVote vote
      addToExecutionQueue o vote

/-- `StartBeingStablePrimary`. -/
def startBeingStablePrimary (o : Oracle ρ) : Act (Legislator ρ) Unit := do
  let s ← get
  assert (decide (s.state = .preparing) && decide (s.maxBallot.memberId = s.memberId))
  modify fun s =>
    { s with
      forceReelection := false, state := .stablePrimary
      outstandingVote := none, responseMap := [] }
  match s.oldFreshestVote with
  | none => abort
  | some freshest =>
    sendNextVote startInit o freshest.copy
    modify fun s => { s with oldFreshestVote := none }

/-- `StartBeingStableSecondary`. -/
def startBeingStableSecondary : Act (Legislator ρ) Unit :=
  modify fun s =>
    { s with forceReelection := false, state := .stableSecondary, responseMap := [] }

/-- The ballot `StartPreparing` prepares with. -/
def Legislator.newBallot (s : Legislator ρ) : BallotNumber :=
  let newBallot : BallotNumber :=
    if s.state = .initializing then ⟨s.maxBallot.ballotId + 1, s.memberId⟩ else s.maxBallot
  if newBallot < s.maxSeenBallot then { newBallot with ballotId := s.maxSeenBallot.ballotId + 1 }
  else newBallot

/-- `StartPreparing`. The prepare message is sent before it is logged. -/
def startPreparing (o : Oracle ρ) : Act (Legislator ρ) Unit := do
  let s ← get
  assert (decide (s.state = .initializing) ||
    (decide (s.state = .preparing) && decide (s.maxBallot.memberId = s.memberId)))
  let prepare := s.header s.maxAcceptedVote.decree s.newBallot
  modify fun s =>
    { s with
      state := .preparing, responseMap := []
      oldFreshestVote := some s.maxAcceptedVote, lastPrepareMsg := some prepare }
  if s.quorumSize = 1 then do
    logPrepare prepare
    startBeingStablePrimary startInit o
  else do
    modify fun s => s.sendRequestToAll (.message ⟨prepare, .prepare⟩)
    logPrepare prepare

/-- `MoveToSecondaryOrPrepare`. -/
def moveToSecondaryOrPrepare (o : Oracle ρ) : Act (Legislator ρ) Unit := do
  let s ← get
  if (o.electionDue || decide (s.maxBallot.memberId = s.memberId) || s.forceReelection) &&
      o.canBecomePrimary then
    startPreparing startInit o
  else
    startBeingStableSecondary

end Initializing

/-- `StartInitializing`, nested at most `n` deep through a configuration change. -/
def startInitializingNested (o : Oracle ρ) : Nat → Act (Legislator ρ) Unit
  | 0 => abort
  | n + 1 => do
    modify fun s => { s with state := .initializing, responseMap := [], statusMap := [] }
    let s ← get
    if s.quorumSize = 1 then
      moveToSecondaryOrPrepare (startInitializingNested o n) { o with electionDue := true }
    else
      let query := s.header s.maxAcceptedVote.decree s.maxAcceptedVote.ballot
      modify fun s => s.sendRequestToAll (.message ⟨query, .statusQuery⟩)

/-- `StartInitializing`. Two levels suffice: a configuration change inside it starts from a
placeholder vote, which is not a configuration change. -/
def startInitializing (o : Oracle ρ) : Act (Legislator ρ) Unit := startInitializingNested o 2

end Rsl
