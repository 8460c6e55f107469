import Rsl.Handlers
import Rsl.Restore

/-!
# A cluster of replicas

The state of a cluster is the state of each replica, which of them are running, every packet ever
sent, and what ever happened: the votes handed to execution, the votes proposed and the
configurations installed. A packet can be delivered any number of times, in any
order, or never. Each action runs one handler of one replica to its end; a replica whose handler
aborts, or that crashes, keeps its log and can be restarted from it.

`Cluster.step` is a partial function, so that a run is a list of actions, and `Cluster.Reach` is
reachability by steps that satisfy a condition on the state before the step.
-/

set_option autoImplicit false

namespace Rsl

variable {ρ : Type}

/-- The choices of the environment in one action. -/
structure Choice where
  acceptMessage : Header → Bool := fun _ => true
  electionDue : Bool := false
  canBecomePrimary : Bool := true
  queueInMemory : Nat → Bool := fun _ => true
  pick : Nat := 0
  minDecreeInLog : Nat := 0
  /-- How many records arrive before the learn connection ends. -/
  fetchCount : Nat := 0
  /-- Whether the vote cache starts at or below the vote just learned, by the record's position. -/
  cached : Nat → Bool := fun _ => false

/-- The actions of a cluster. The first argument is the replica that acts. -/
inductive Action (ρ : Type) where
  /-- `CheckBootstrap`: a member of its configuration becomes active. -/
  | activate (r : Nat) (c : Choice)
  /-- A packet arrives; a vote goes to the cache, any other message to its handler. -/
  | deliver (r : Nat) (p : Packet ρ) (cacheFull : Bool) (c : Choice)
  /-- `HandleNewVotes` on the cached votes. -/
  | play (r : Nat) (c : Choice)
  /-- The main loop proposes a vote from `m_votesToSend`. -/
  | propose (r : Nat) (vote : Vote ρ) (c : Choice)
  /-- The main loop notices that the replica is not the primary. -/
  | demote (r : Nat)
  /-- The heartbeat section proposes an empty vote. -/
  | heartbeat (r : Nat) (c : Choice)
  /-- `Timer`: the election or action timeout starts the replica over. -/
  | timeout (r : Nat) (c : Choice)
  /-- `Timer`: the current vote or the prepare message is sent again. -/
  | resend (r : Nat)
  /-- `AttemptPromotion`. -/
  | promote (r : Nat)
  /-- `SendJoinMessagesIfNecessary`. -/
  | sendJoin (r : Nat) (c : Choice)
  | crash (r : Nat)
  | restart (r : Nat)

/-- The replica that acts. -/
def Action.actor : Action ρ → Nat
  | .activate r _ | .deliver r _ _ _ | .play r _ | .propose r _ _ | .demote r | .heartbeat r _
  | .timeout r _ | .resend r | .promote r | .sendJoin r _ | .crash r | .restart r => r

/-- The replica with its output buffers emptied. -/
def Legislator.clearBuffers (s : Legislator ρ) : Legislator ρ :=
  { s with outbox := [], passed := [], proposed := [], installed := [] }

/-- The state of a cluster. -/
structure Cluster (ρ : Type) where
  /-- The members passed to `Start`. -/
  members : List Nat
  replica : Nat → Legislator ρ
  up : Nat → Bool
  network : List (Packet ρ)
  executed : List (Nat × Vote ρ)
  /-- Every vote ever proposed. -/
  proposed : List (Vote ρ)
  /-- Every configuration ever installed, with the replica that installed it. -/
  installed : List (Nat × ConfigurationInfo)

/-- The records `FetchVotes` streams for a decree: from the last vote of that decree to the end of
the log. A log without votes counts as having decree 0. -/
def fetchVotes (log : List (Record ρ)) (decree : Nat) : List (Record ρ) :=
  match fromLastVote log with
  | [] => if decree = 0 ∧ log.all (fun r => !isVote r) then log else []
  | stream => stream
where
  /-- The record is a vote. -/
  isVote : Record ρ → Bool
    | .vote _ => true
    | _ => false
  /-- The log from its last vote of the decree on. -/
  fromLastVote : List (Record ρ) → List (Record ρ)
    | [] => []
    | record :: rest =>
      match fromLastVote rest with
      | [] => if isVote record && decide (record.header.decree = decree) then record :: rest else []
      | stream => stream

namespace Cluster

/-- The oracle of an action of replica `r`: learning reads the peer's log as it is now. -/
def oracle (c : Cluster ρ) (r : Nat) (h : Choice) : Oracle ρ where
  acceptMessage := h.acceptMessage
  electionDue := h.electionDue
  canBecomePrimary := h.canBecomePrimary
  queueInMemory := h.queueInMemory
  pick := h.pick
  minDecreeInLog := h.minDecreeInLog
  fetched peer :=
    if c.up peer then
      ((fetchVotes (c.replica peer).log (c.replica r).maxAcceptedVote.decree).take
        h.fetchCount).mapIdx fun i record => (record, h.cached i)
    else
      []

/-- Put back replica `r` after an action, and collect what it sent and passed. -/
def update (c : Cluster ρ) (r : Nat) (s : Legislator ρ) (up : Bool) : Cluster ρ :=
  { c with
    replica := fun r' => if r' = r then s.clearBuffers else c.replica r'
    up := fun r' => if r' = r then up else c.up r'
    network := c.network ++ s.outbox
    executed := c.executed ++ s.passed.map fun v => (r, v)
    proposed := c.proposed ++ s.proposed
    installed := c.installed ++ s.installed.map fun i => (r, i) }

/-- Run an action of replica `r` to its end. -/
def run (c : Cluster ρ) (r : Nat) (f : Act (Legislator ρ) Unit) : Cluster ρ :=
  match f (c.replica r) with
  | (s, some _) => c.update r s true
  | (s, none) => c.update r s false

/-- `Timer`: what a timeout of the given state does. -/
def timeoutAction (o : Oracle ρ) (s : Legislator ρ) : Option (Act (Legislator ρ) Unit) :=
  match s.state with
  | .stableSecondary => if s.voteCache = [] then some (startInitializing o) else none
  | .preparing => some (startInitializing o)
  | .initializing => some (startInitializing o)
  | _ => none

/-- `ReSendCurrentVote` and `ReSendPrepareMsg`: to the replicas that have not answered. -/
def resendAction (s : Legislator ρ) : Option (Act (Legislator ρ) Unit) :=
  let resend (p : Payload ρ) : Act (Legislator ρ) Unit :=
    Act.modify fun s =>
      { s with
        outbox := s.outbox ++
          (s.replicas.filter fun r => decide (r ∉ s.responseMap)).map fun r => ⟨s.memberId, r, p⟩ }
  match s.state with
  | .stablePrimary =>
    some do
      Act.assert s.outstandingVote.isSome
      resend (.vote s.maxAcceptedVote)
  | .preparing => s.lastPrepareMsg.map fun h => resend (.message ⟨h, .prepare⟩)
  | _ => none

/-- The action a running replica performs, if it is enabled. -/
def action (c : Cluster ρ) [DecidableEq ρ] : Action ρ → Option (Act (Legislator ρ) Unit)
  | .activate r h =>
    let s := c.replica r
    if s.state = .paxosInactive ∧ r ∈ s.paxosConfiguration.members then
      some (startInitializing (c.oracle r h))
    else none
  | .deliver r p cacheFull h =>
    if p ∈ c.network ∧ p.dst = r then
      match p.payload with
      | .vote v => some (receiveVote p.src v cacheFull)
      | .message m => some (handleMessage (c.oracle r h) p.src m)
    else none
  | .play r h => some (handleNewVotes (c.oracle r h))
  | .propose r vote h =>
    let s := c.replica r
    if s.amPrimary ∧ s.outstandingVote = none ∧ vote.reconfiguration ≠ some [] then
      some do
        checkNotifyStatus true
        sendNextVote (startInitializing (c.oracle r h)) (c.oracle r h) vote
    else none
  | .demote r => if (c.replica r).amPrimary then none else some (checkNotifyStatus false)
  | .heartbeat r h =>
    let s := c.replica r
    if s.amPrimary ∧ s.isPrimary ∧ s.outstandingVote = none ∧ s.maxBallot.memberId = r then
      some (sendNextVote (startInitializing (c.oracle r h)) (c.oracle r h)
        (Vote.new r 0 0 BallotNumber.empty))
    else none
  | .timeout r h => timeoutAction (c.oracle r h) (c.replica r)
  | .resend r => resendAction (c.replica r)
  | .promote _ => some (Act.modify fun s => { s with forceReelection := true })
  | .sendJoin r h =>
    let s := c.replica r
    if s.configurationNumber ≤ s.highestDefunctConfigurationNumber + 1 then none
    else some (Act.modify fun s =>
      s.sendRequestToAll (.message (s.joinMessage (c.oracle r h))))
  | .crash _ => some Act.abort
  | .restart _ => none

/-- One step of a cluster. A replica that has been started has a non-empty member id. -/
def step [DecidableEq ρ] (c : Cluster ρ) (a : Action ρ) : Option (Cluster ρ) :=
  let r := a.actor
  if r = 0 then none
  else match a with
    | .restart _ =>
      if c.up r then none
      else
        let s := c.replica r
        (restoreState r c.members s.highestDefunctConfigurationNumber s.log).map
          fun s => c.update r s true
    | a => if c.up r then (c.action a).map (c.run r) else none

/-- All replicas started for the first time, with empty logs. -/
def init (members : List Nat) : Cluster ρ where
  members := members
  replica r := (Legislator.ofReplay members 0 [] (Replay.start r)).clearBuffers
  up _ := true
  network := []
  executed := []
  proposed := []
  installed := []

/-- States reachable from the initial one by steps that satisfy `ok` in the state before them. -/
inductive Reach [DecidableEq ρ] (ok : Cluster ρ → Action ρ → Prop) (members : List Nat) :
    Cluster ρ → Prop where
  | init : Reach ok members (init members)
  | step {c c' : Cluster ρ} {a : Action ρ} (h : Reach ok members c) (hok : ok c a)
      (hs : c.step a = some c') : Reach ok members c'

end Cluster

end Rsl
