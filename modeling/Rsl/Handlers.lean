import Rsl.Legislator

/-!
# The message handlers of a replica

Each handler is an action on the `Legislator`. Votes are first collected in a cache and then played
by `handleNewVotes`; all other messages go through `handleMessage`. `learnVotes` reads the records
of a peer's log. No checkpoint exists in the runs considered, so the branches that would copy one
end where the copy fails.
-/

set_option autoImplicit false

namespace Rsl

open Act

variable {ρ : Type}

/-! ## Verification of messages -/

/-- `SendDefunctConfigurationMessage`. -/
def sendDefunctConfigurationMessage (dst : Nat) : Act (Legislator ρ) Unit :=
  modify fun s =>
    s.send dst (.message ⟨⟨s.memberId, 0, s.highestDefunctConfigurationNumber,
      BallotNumber.empty⟩, .defunctConfiguration⟩)

/-- `UpdateDefunctInfo`. -/
def updateDefunctInfo (o : Oracle ρ) (n : Nat) : Act (Legislator ρ) Unit := do
  let s ← get
  if n ≤ s.highestDefunctConfigurationNumber then
    pure ()
  else if s.configurationNumber ≤ n ∧ s.state ≠ .paxosInactive then
    startInitializing o
  else
    modify fun s => { s with highestDefunctConfigurationNumber := n }

/-- `VerifyMessage`. A message counts as coming from a replica when its member id is that of another
member and it came from that member's address. -/
def verifyMessage (src : Nat) (h : Header) : Act (Legislator ρ) Bool := do
  let s ← get
  if h.configurationNumber ≤ s.highestDefunctConfigurationNumber then do
    sendDefunctConfigurationMessage src
    pure false
  else if h.configurationNumber < s.configurationNumber then
    pure false
  else if s.configurationNumber < h.configurationNumber then do
    modify fun s =>
      s.send src (.message ⟨⟨s.memberId, 0, h.configurationNumber, BallotNumber.empty⟩,
        .joinRequest⟩)
    pure false
  else if s.state = .paxosInactive then
    pure false
  else if h.memberId = s.memberId then
    pure false
  else if h.memberId ∉ s.replicas ∨ h.memberId ≠ src then
    pure false
  else do
    modify fun s =>
      if s.maxSeenBallot < h.ballot then { s with maxSeenBallot := h.ballot } else s
    pure true

/-! ## Votes -/

/-- `ProcessReceive` for a vote. The flag says that the cache has exceeded its size. -/
def receiveVote (src : Nat) (vote : Vote ρ) (cacheFull : Bool) : Act (Legislator ρ) Unit := do
  let s ← get
  let discard := match s.voteCache.getLast? with
    | none => false
    | some (_, last) =>
      isLowerDecree vote.decree vote.ballot last.decree last.ballot ||
        isSameDecree vote.decree vote.ballot last.decree last.ballot
  if discard then
    pure ()
  else
    modify fun s =>
      { s with voteCache := (if cacheFull then [] else s.voteCache) ++ [(src, vote)] }

/-- `CheckNotifyStatus`, with the effect of `AbortReplicateRequests` on the outstanding vote. -/
def checkNotifyStatus (curStatus : Bool) : Act (Legislator ρ) Unit :=
  modify fun s =>
    if curStatus = s.isPrimary then s
    else
      { s with
        isPrimary := curStatus
        outstandingVote := if curStatus then s.outstandingVote else none }

/-- The response to a vote that was just accepted, unless the next vote in the queue comes from the
same replica. Returns whether the primary gave up its role with this vote. -/
def respondToVote (o : Oracle ρ) (src : Nat) (vote : Vote ρ) : Act (Legislator ρ) Bool := do
  let s ← get
  let response := s.header s.maxAcceptedVote.decree s.maxBallot
  if vote.ballot < s.maxBallot then do
    modify fun s => s.send src (.message ⟨response, .notAccepted⟩)
    pure vote.relinquishPrimary
  else if o.acceptMessage vote.toHeader then do
    modify fun s => s.send src (.message ⟨response, .voteAccepted⟩)
    pure vote.relinquishPrimary
  else
    pure false

/-- The loop of `HandleNewVotes`. -/
def playVotes (o : Oracle ρ) : List (Nat × Vote ρ) → Bool → Act (Legislator ρ) Unit
  | [], acceptedVote => if acceptedVote then startBeingStableSecondary else pure ()
  | (src, vote) :: rest, acceptedVote => do
    let valid ← verifyMessage src vote.toHeader
    if valid then do
      let s ← get
      let max := s.maxAcceptedVote
      if isLowerDecree vote.decree vote.ballot max.decree max.ballot then do
        if vote.ballot < s.maxBallot ∨ vote.decree + 1 < max.decree then
          modify fun s =>
            s.send src (.message ⟨s.header max.decree s.maxBallot, .notAccepted⟩)
        playVotes o rest acceptedVote
      else if isNextDecree vote.decree vote.ballot max.decree max.ballot then do
        if s.amPrimary ∧ s.maxBallot < vote.ballot then
          startBeingStableSecondary
          checkNotifyStatus false
        logAndAcceptVote o vote
        if rest.head?.map Prod.fst = some src then
          playVotes o rest true
        else do
          let relinquished ← respondToVote o src vote
          if relinquished then
            modify fun s => { s with forceReelection := true }
          else
            playVotes o rest true
      else
        startInitializing o
    else
      playVotes o rest acceptedVote

/-- `HandleNewVotes` on the whole cache. A relinquishing replica returns with votes left in the
local queue, whose destructor asserts that it is empty. -/
def handleNewVotes (o : Oracle ρ) : Act (Legislator ρ) Unit := do
  let s ← get
  if s.state = .initializing ∨ s.voteCache = [] then
    pure ()
  else do
    let queue := s.voteCache
    modify fun s => { s with voteCache := [] }
    if s.relinquishPrimary then
      abort
    else
      playVotes o queue false

/-- `HandleVoteAcceptedMsg`. -/
def handleVoteAcceptedMsg (o : Oracle ρ) (msg : Header) : Act (Legislator ρ) Unit := do
  let s ← get
  let max := s.maxAcceptedVote
  let outstanding : Bool := match s.outstandingVote with
    | none => false
    | some v => isSameDecree v.decree v.ballot max.decree s.maxBallot
  if s.amPrimary && outstanding &&
      isSameDecree msg.decree msg.ballot max.decree s.maxBallot then do
    assert (decide (s.maxBallot = max.ballot))
    modify fun s => { s with responseMap := s.responseMap.insert msg.memberId }
    let s ← get
    if s.quorumSize - 1 ≤ s.responseMap.length then do
      modify fun s => { s with outstandingVote := none }
      if max.isReconfiguration then
        sendAndLogReconfigurationDecision (startInitializing o) o max.decree max.ballot
      else if max.relinquishPrimary then
        -- `ShutDown` exits the process
        abort
      else
        addToExecutionQueue o max

/-! ## Elections -/

/-- `HandlePrepareMsg`. -/
def handlePrepareMsg (o : Oracle ρ) (src : Nat) (msg : Header) : Act (Legislator ρ) Unit := do
  let s ← get
  let max := s.maxAcceptedVote
  if s.relinquishPrimary then
    pure ()
  else if isLowerDecree msg.decree msg.ballot max.decree s.maxBallot then do
    if msg.decree + 1 < max.decree ∨ msg.ballot < s.maxBallot then
      modify fun s => s.send src (.message ⟨s.header max.decree s.maxBallot, .notAccepted⟩)
  else if s.state ≠ .initializing then do
    logPrepare msg
    if o.acceptMessage msg then
      modify fun s =>
        s.send src (.message ⟨s.header msg.decree msg.ballot, .prepareAccepted s.maxAcceptedVote⟩)
    if max.decree < msg.decree then
      startInitializing o
    else
      startBeingStableSecondary

/-- `HandlePrepareAcceptedMsg`. -/
def handlePrepareAcceptedMsg (o : Oracle ρ) (msg : Header) (vote : Vote ρ) :
    Act (Legislator ρ) Unit := do
  let s ← get
  if s.state = .preparing ∧
      isSameDecree msg.decree msg.ballot s.maxAcceptedVote.decree s.maxBallot then do
    assert (decide (s.maxBallot.memberId = s.memberId))
    match s.oldFreshestVote with
    | none => abort
    | some freshest =>
      assert (decide (freshest.decree = s.maxAcceptedVote.decree))
      if msg.decree < vote.decree ∨ msg.ballot < vote.ballot then
        pure ()
      else do
        if vote.decree = freshest.decree ∧ freshest.ballot < vote.ballot then
          modify fun s => { s with oldFreshestVote := some vote }
        modify fun s => { s with responseMap := s.responseMap.insert msg.memberId }
        let s ← get
        if s.quorumSize - 1 ≤ s.responseMap.length then
          startBeingStablePrimary (startInitializing o) o

/-- `HandleNotAcceptedMsg`. -/
def handleNotAcceptedMsg (o : Oracle ρ) (msg : Header) : Act (Legislator ρ) Unit := do
  let s ← get
  let max := s.maxAcceptedVote
  if isLowerDecree msg.decree msg.ballot max.decree max.ballot then
    pure ()
  else if s.state ≠ .initializing then
    if max.decree < msg.decree then
      startInitializing o
    else if s.maxBallot < msg.ballot then do
      logPrepare ⟨msg.memberId, msg.decree, s.configurationNumber, msg.ballot⟩
      startBeingStableSecondary

/-! ## Learning -/

/-- The loop of `LearnVotes` over the records read from the socket. -/
def learnRecords (o : Oracle ρ) :
    List (Record ρ × Bool) → Option (Vote ρ) → Act (Legislator ρ) Bool
  | [], _ => pure false
  | (record, cached) :: rest, lastVote => do
    let s ← get
    let max := s.maxAcceptedVote
    if record.header.configurationNumber ≠ s.configurationNumber then
      pure false
    else match record with
      | .prepare msg => do
        if s.maxBallot < msg.ballot then
          logPrepare msg
        learnRecords o rest lastVote
      | .reconfigurationDecision decision => do
        logReconfigurationDecision (startInitializing o) o decision
        let s ← get
        learnRecords o rest (some s.maxAcceptedVote)
      | .vote vote => do
        let inOrder := match lastVote with
          | some last =>
            isNextDecree vote.decree vote.ballot last.decree last.ballot &&
              decide (max.decree ≤ vote.decree) && decide (vote.decree ≤ max.decree + 1)
          | none => decide (vote.decree = max.decree)
        if !inOrder then
          pure false
        else if vote.ballot < max.ballot then
          learnRecords o rest (some vote)
        else do
          if !isNextDecree vote.decree vote.ballot max.decree max.ballot then
            assert (decide (vote.decree = max.decree + 1) && decide (max.ballot < vote.ballot))
            logAndAcceptVote o { vote.copy with ballot := max.ballot }
          logAndAcceptVote o vote
          if cached then
            pure true
          else
            learnRecords o rest (some vote)

/-- `LearnVotes` from the given member. -/
def learnVotes (o : Oracle ρ) (peer : Nat) : Act (Legislator ρ) Bool :=
  learnRecords o (o.fetched peer) none

/-- `LearnVotesAndTransition`. -/
def learnVotesAndTransition (o : Oracle ρ) (peer : Nat) : Act (Legislator ρ) Unit := do
  let learned ← learnVotes o peer
  if learned then startBeingStableSecondary else startInitializing o

/-- `Message::IsHigherDecree`. -/
def isHigherDecree (decree : Nat) (ballot : BallotNumber) (curDecree : Nat)
    (curBallot : BallotNumber) : Bool :=
  (decide (curDecree < decree) && decide (curBallot ≤ ballot)) ||
    (decide (decree = curDecree) && decide (curBallot < ballot))

/-- `StatusMap::FindHigherLogged`. -/
def findHigherLogged (statusMap : List StatusResponse) (minDecreeInLog decree : Nat)
    (ballot : BallotNumber) : List StatusResponse :=
  statusMap.filter fun r =>
    decide (r.minDecreeInLog ≤ minDecreeInLog) && isHigherDecree r.decree r.ballot decree ballot

/-- `StatusMap::Insert`. -/
def insertStatus (statusMap : List StatusResponse) (r : StatusResponse) : List StatusResponse :=
  statusMap.filter (fun r' => decide (r'.memberId ≠ r.memberId)) ++ [r]

/-- A random member among the responses. -/
def pickResponse (o : Oracle ρ) (responses : List StatusResponse) : Option Nat :=
  responses[o.pick % responses.length]?.map StatusResponse.memberId

/-- `_I64_MAX`. -/
def maxInt64 : Nat := 9223372036854775807

/-- The decree at which the cached votes take over, if they are ahead. -/
def Legislator.minDecreeInCache (s : Legislator ρ) : Nat :=
  match s.voteCache with
  | (_, vote) :: _ => if s.maxAcceptedVote.decree < vote.decree then vote.decree else maxInt64
  | [] => maxInt64

/-- `HandleStatusResponseMsg`. -/
def handleStatusResponseMsg (o : Oracle ρ) (msg : Header) (queryDecree : Nat)
    (queryBallot : BallotNumber) (minDecreeInLog : Nat) : Act (Legislator ρ) Unit := do
  let s ← get
  let max := s.maxAcceptedVote
  if s.amPrimary ∨ queryDecree ≠ max.decree ∨ queryBallot ≠ max.ballot then
    pure ()
  else if s.state ≠ .initializing then
    if msg.decree = max.decree + 1 ∧ max.ballot ≤ msg.ballot ∧ s.voteCache = [] then
      learnVotesAndTransition o msg.memberId
  else do
    let statusMap := insertStatus s.statusMap ⟨msg.memberId, msg.decree, msg.ballot, minDecreeInLog⟩
    modify fun s => { s with statusMap := statusMap }
    if s.quorumSize - 1 ≤ statusMap.length then
      match pickResponse o
        (findHigherLogged statusMap max.decree (s.minDecreeInCache - 1) max.ballot) with
      | some peer => learnVotesAndTransition o peer
      | none =>
        match pickResponse o (findHigherLogged statusMap max.decree max.decree max.ballot) with
        | some peer => learnVotesAndTransition o peer
        | none =>
          if findHigherLogged statusMap maxInt64 max.decree max.ballot = [] then
            moveToSecondaryOrPrepare (startInitializing o) o
          -- every checkpointed decree is 0, and fetching that checkpoint fails
          else if max.decree = 0 then
            startInitializing o

/-- `HandleStatusQueryMsg`. -/
def handleStatusQueryMsg (o : Oracle ρ) (src : Nat) (msg : Header) : Act (Legislator ρ) Unit :=
  modify fun s =>
    if s.relinquishPrimary then s
    else
      s.send src (.message ⟨s.header s.maxAcceptedVote.decree s.maxAcceptedVote.ballot,
        .statusResponse msg.decree msg.ballot o.minDecreeInLog⟩)

/-- `HandleJoinMsg`. -/
def handleJoinMsg (o : Oracle ρ) (src : Nat) (msg : Header) (minDecreeInLog : Nat) :
    Act (Legislator ρ) Unit := do
  let s ← get
  if msg.configurationNumber ≤ s.configurationNumber then
    if msg.configurationNumber ≤ s.highestDefunctConfigurationNumber + 1 then
      sendDefunctConfigurationMessage src
  else if minDecreeInLog ≤ s.maxAcceptedVote.decree ∧ 0 < s.configurationNumber then do
    let _ ← learnVotes o src

/-- `SendJoinMessage`. -/
def Legislator.joinMessage (s : Legislator ρ) (o : Oracle ρ) : Message ρ :=
  ⟨⟨s.memberId, s.paxosConfiguration.initialDecree - 1, s.configurationNumber,
    BallotNumber.empty⟩, .join o.minDecreeInLog⟩

/-- `HandleJoinRequestMsg`. -/
def handleJoinRequestMsg (o : Oracle ρ) (src : Nat) (msg : Header) : Act (Legislator ρ) Unit :=
  modify fun s =>
    if msg.configurationNumber = s.configurationNumber then s.send src (.message (s.joinMessage o))
    else s

/-! ## Dispatch -/

/-- The handlers behind `VerifyMessage`. -/
def handleVerified (o : Oracle ρ) (src : Nat) (msg : Message ρ) : Act (Legislator ρ) Unit :=
  match msg.body with
  | .voteAccepted => handleVoteAcceptedMsg o msg.toHeader
  | .prepare => handlePrepareMsg o src msg.toHeader
  | .prepareAccepted vote => handlePrepareAcceptedMsg o msg.toHeader vote
  | .notAccepted => handleNotAcceptedMsg o msg.toHeader
  | .statusResponse queryDecree queryBallot minDecreeInLog =>
    handleStatusResponseMsg o msg.toHeader queryDecree queryBallot minDecreeInLog
  | .reconfigurationDecision => logReconfigurationDecision (startInitializing o) o msg.toHeader
  | _ => pure ()

/-- `ProcessReceive` and `HandleMessage` for a message other than a vote. -/
def handleMessage (o : Oracle ρ) (src : Nat) (msg : Message ρ) : Act (Legislator ρ) Unit := do
  let s ← get
  match msg.body with
  | .statusQuery => handleStatusQueryMsg o src msg.toHeader
  | .defunctConfiguration => updateDefunctInfo o msg.configurationNumber
  | body =>
    if msg.configurationNumber ≤ s.highestDefunctConfigurationNumber then
      sendDefunctConfigurationMessage src
    else match body with
      | .join minDecreeInLog => handleJoinMsg o src msg.toHeader minDecreeInLog
      | .joinRequest => handleJoinRequestMsg o src msg.toHeader
      | _ => do
        let valid ← verifyMessage src msg.toHeader
        if valid then handleVerified o src msg

end Rsl
