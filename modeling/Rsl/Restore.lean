import Rsl.Legislator

/-!
# Rebuilding a replica from its log

`replayRecord` is the body of the replay loop of `RestoreState` and `executeVote` the part of
`ExecuteVote` it needs; a failed assertion gives no result. `restoreState` replays a whole log
without a checkpoint and then installs the initial members the way `StartImpl` does.

Records whose decree is at or below the last executed decree are skipped. Without a checkpoint the
last executed decree starts at 0, so every record of decree 0 is skipped, and the ballot of such a
record is not restored.
-/

set_option autoImplicit false

namespace Rsl

variable {ρ : Type}

/-- The variables of the replay loop. -/
structure Replay (ρ : Type) where
  memberId : Nat
  stateConfiguration : ConfigurationInfo
  paxosConfiguration : ConfigurationInfo
  maxAcceptedVote : Vote ρ
  maxBallot : BallotNumber
  lastExecutedDecree : Nat
  /-- The votes executed so far, in order. -/
  executed : List (Vote ρ)
  /-- The configurations installed so far by decisions. -/
  installed : List ConfigurationInfo
  deriving DecidableEq, Repr

/-- The configuration of the state after a vote is executed. -/
def Replay.nextConfiguration (r : Replay ρ) (vote : Vote ρ) : ConfigurationInfo :=
  match vote.reconfiguration with
  | none => r.stateConfiguration
  | some members => ⟨r.stateConfiguration.configurationNumber + 1, vote.decree + 1, members⟩

/-- The effect of executing the vote of the next decree. -/
def Replay.execute (r : Replay ρ) (vote : Vote ρ) : Replay ρ :=
  { r with
    stateConfiguration := r.nextConfiguration vote
    lastExecutedDecree := r.lastExecutedDecree + 1
    executed := r.executed ++ [vote] }

/-- `ExecuteVote`. -/
def executeVote (r : Replay ρ) (vote : Vote ρ) : Option (Replay ρ) :=
  if vote.decree = r.lastExecutedDecree + 1 then some (r.execute vote)
  else if vote.decree = r.lastExecutedDecree then some r
  else none

/-- The vote becomes the max accepted one. -/
def Replay.accept (r : Replay ρ) (vote : Vote ρ) : Replay ρ :=
  { r with
    maxAcceptedVote := vote
    maxBallot := if r.maxBallot < vote.ballot then vote.ballot else r.maxBallot }

/-- The configuration of the state becomes the one of the protocol. -/
def Replay.install (r : Replay ρ) (decision : Header) : Replay ρ :=
  { r with
    paxosConfiguration := r.stateConfiguration
    maxAcceptedVote := Vote.new r.memberId (decision.decree + 1) 0 BallotNumber.empty
    maxBallot := ⟨r.maxBallot.ballotId + 1, 0⟩
    installed := r.installed ++ [r.stateConfiguration] }

/-- The assertion on a record that is skipped. A `Prepare` of the last executed decree may also be
one ballot id ahead. -/
def skipAllowed (r : Replay ρ) (record : Record ρ) : Bool :=
  decide (r.maxBallot = BallotNumber.empty) || decide (record.header.ballot ≤ r.maxBallot) ||
    match record with
    | .prepare h =>
      decide (h.decree = r.lastExecutedDecree) &&
        decide (r.maxBallot.ballotId + 1 = h.ballot.ballotId)
    | _ => false

/-- Replay of a reconfiguration decision. -/
def replayDecision (r : Replay ρ) (decision : Header) : Option (Replay ρ) :=
  let max := r.maxAcceptedVote
  if max.decree = decision.decree ∧ decision.ballot ≤ max.ballot ∧ max.isReconfiguration then
    (executeVote r max).map fun r => r.install decision
  else
    none

/-- Replay of a vote: the previous vote is executed when this one is for the next decree. -/
def replayVote (r : Replay ρ) (vote : Vote ρ) : Option (Replay ρ) :=
  let max := r.maxAcceptedVote
  if max.ballot = BallotNumber.empty ∧ max.decree = 0 then
    some (r.accept vote)
  else if isNextDecree vote.decree vote.ballot max.decree max.ballot then
    if vote.decree = max.decree + 1 then (executeVote r max).map fun r => r.accept vote
    else some (r.accept vote)
  else
    none

/-- Replay of a record of a decree that has not been executed. -/
def replayNew (r : Replay ρ) : Record ρ → Option (Replay ρ)
  | .prepare h =>
    some { r with maxBallot := if r.maxBallot < h.ballot then h.ballot else r.maxBallot }
  | .reconfigurationDecision h => replayDecision r h
  | .vote v => replayVote r v

/-- One iteration of the replay loop. -/
def replayRecord (r : Replay ρ) (record : Record ρ) : Option (Replay ρ) :=
  if record.header.ballot = BallotNumber.empty then
    none
  else if record.header.decree ≤ r.lastExecutedDecree then
    if skipAllowed r record then some r else none
  else
    replayNew r record

/-- The replay state before the first record when there is no checkpoint. -/
def Replay.start (memberId : Nat) : Replay ρ :=
  { memberId
    stateConfiguration := ⟨1, 0, []⟩
    paxosConfiguration := ⟨1, 0, []⟩
    maxAcceptedVote := Vote.new memberId 0 1 BallotNumber.empty
    maxBallot := BallotNumber.empty
    lastExecutedDecree := 0
    executed := []
    installed := [] }

/-- The replay loop over a log. -/
def replay (memberId : Nat) (log : List (Record ρ)) : Option (Replay ρ) :=
  log.foldlM replayRecord (Replay.start memberId)

/-- No promise is lost by skipping decree 0: the ballot of every record of decree 0 is reached by a
record of a later decree of the same configuration. -/
def PromisesReplayed (log : List (Record ρ)) : Prop :=
  ∀ x ∈ log, x.header.decree = 0 → ∃ y ∈ log,
    y.header.configurationNumber = x.header.configurationNumber ∧ 1 ≤ y.header.decree ∧
      x.header.ballot ≤ y.header.ballot

instance (log : List (Record ρ)) : Decidable (PromisesReplayed log) :=
  inferInstanceAs (Decidable (∀ x ∈ log, _))

/-- The configuration after a start: the initial members are those passed to `Start` unless the log
has installed a configuration. -/
def Replay.startConfiguration (r : Replay ρ) (members : List Nat) : ConfigurationInfo :=
  if r.stateConfiguration.members = [] then { r.stateConfiguration with members := members }
  else r.paxosConfiguration

/-- The replica right after its start: not yet active, with the given log and replayed state. -/
def Legislator.ofReplay (members : List Nat) (highestDefunct : Nat) (log : List (Record ρ))
    (r : Replay ρ) : Legislator ρ :=
  { memberId := r.memberId
    state := .paxosInactive
    paxosConfiguration := r.startConfiguration members
    maxAcceptedVote := r.maxAcceptedVote
    maxBallot := r.maxBallot
    maxSeenBallot := BallotNumber.empty
    outstandingVote := none
    oldFreshestVote := none
    lastPrepareMsg := none
    responseMap := []
    statusMap := []
    relinquishPrimary := false
    forceReelection := false
    isPrimary := false
    highestDefunctConfigurationNumber := highestDefunct
    lastPassedDecree := r.lastExecutedDecree
    voteCache := []
    log := log
    passed := r.executed
    outbox := []
    proposed := []
    installed := r.installed ++ [r.startConfiguration members] }

/-- `RestoreState` without a checkpoint, followed by the rest of `StartImpl`. -/
def restoreState (memberId : Nat) (members : List Nat) (highestDefunct : Nat)
    (log : List (Record ρ)) : Option (Legislator ρ) := do
  let r ← replay memberId log
  if r.lastExecutedDecree = 0 ∨ r.lastExecutedDecree + 1 = r.maxAcceptedVote.decree then
    some (Legislator.ofReplay members highestDefunct log r)
  else
    none

end Rsl
