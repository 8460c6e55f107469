import Rsl.Handlers
import Rsl.Restore

/-!
# The local queue of `HandleNewVotes`

The main loop takes the vote cache into a local `VoteQueue`, hands it to `HandleNewVotes`, and
destroys it; the destructor asserts that it is empty. `handleNewVotesOn` is `HandleNewVotes` with
that queue: it returns what is left of it, and which votes were taken out and looked at, with what
came of each. Forgetting both gives back the handler of the protocol (`playLocalQueue_eq`).

Every way through the loop empties the queue. The one return before the loop does not, and
`handleNewVotesOn_drains` says that nothing else goes wrong.
-/

set_option autoImplicit false

namespace Rsl

open Act.Sat Act

variable {ρ : Type}

/-- What comes of a vote that is taken out of the queue. -/
inductive Verdict where
  /-- `VerifyMessage` refuses it. -/
  | invalid
  /-- It is below the max accepted vote. -/
  | lower
  | accepted
  /-- It is neither below nor next: votes in between are missing. -/
  | gap
  deriving DecidableEq, Repr

/-- A vote that was taken out of the queue and looked at. -/
structure Examined (ρ : Type) where
  src : Nat
  vote : Vote ρ
  verdict : Verdict
  deriving DecidableEq, Repr

/-- What `HandleNewVotes` leaves: the local queue, and the votes looked at in their order. -/
structure Leftover (ρ : Type) where
  queue : List (Nat × Vote ρ)
  examined : List (Examined ρ)
  deriving DecidableEq, Repr

/-- The vote is looked at before the others. -/
def Leftover.after (src : Nat) (vote : Vote ρ) (verdict : Verdict) (left : Leftover ρ) :
    Leftover ρ :=
  { left with examined := ⟨src, vote, verdict⟩ :: left.examined }

/-- The loop of `HandleNewVotes` on the local queue. -/
def drainVotes (o : Oracle ρ) : List (Nat × Vote ρ) → Bool → Act (Legislator ρ) (Leftover ρ)
  | [], acceptedVote => do
    if acceptedVote then startBeingStableSecondary
    pure ⟨[], []⟩
  | (src, vote) :: rest, acceptedVote => do
    let valid ← verifyMessage src vote.toHeader
    if valid then do
      let s ← get
      let max := s.maxAcceptedVote
      if isLowerDecree vote.decree vote.ballot max.decree max.ballot then do
        if vote.ballot < s.maxBallot ∨ vote.decree + 1 < max.decree then
          modify fun s =>
            s.send src (.message ⟨s.header max.decree s.maxBallot, .notAccepted⟩)
        let left ← drainVotes o rest acceptedVote
        pure (left.after src vote .lower)
      else if isNextDecree vote.decree vote.ballot max.decree max.ballot then do
        if s.amPrimary ∧ s.maxBallot < vote.ballot then
          startBeingStableSecondary
          checkNotifyStatus false
        logAndAcceptVote o vote
        if rest.head?.map Prod.fst = some src then do
          let left ← drainVotes o rest true
          pure (left.after src vote .accepted)
        else do
          let relinquished ← respondToVote o src vote
          if relinquished then do
            -- The rest of the queue is dequeued without a look at it.
            modify fun s => { s with forceReelection := true }
            pure (Leftover.after src vote .accepted ⟨[], []⟩)
          else do
            let left ← drainVotes o rest true
            pure (left.after src vote .accepted)
      else do
        startInitializing o
        pure (Leftover.after src vote .gap ⟨[], []⟩)
    else do
      let left ← drainVotes o rest acceptedVote
      pure (left.after src vote .invalid)

/-- `HandleNewVotes`. -/
def handleNewVotesOn (o : Oracle ρ) (localQueue : List (Nat × Vote ρ)) :
    Act (Legislator ρ) (Leftover ρ) := do
  let s ← get
  if localQueue = [] then
    pure ⟨[], []⟩
  else if s.relinquishPrimary then
    pure ⟨localQueue, []⟩
  else
    drainVotes o localQueue false

/-- The part of `MainLoop` that plays the votes, with the destructor of the local queue. -/
def playLocalQueue (o : Oracle ρ) : Act (Legislator ρ) Unit := do
  let s ← get
  if s.state = .initializing then
    pure ()
  else do
    modify fun s => { s with voteCache := [] }
    let left ← handleNewVotesOn o s.voteCache
    assert (decide (left.queue = []))

/-! ## The same handler -/

theorem drainVotes_forget (o : Oracle ρ) (queue : List (Nat × Vote ρ)) (acceptedVote : Bool) :
    (do let _ ← drainVotes o queue acceptedVote) = playVotes o queue acceptedVote := by
  have ite_bind : ∀ {α β : Type} (c : Prop) [Decidable c] (f g : Act (Legislator ρ) α)
      (k : α → Act (Legislator ρ) β), (if c then f else g) >>= k =
        if c then f >>= k else g >>= k := by
    intro α β c _ f g k
    split <;> rfl
  induction queue generalizing acceptedVote with
  | nil => cases acceptedVote <;> rfl
  | cons entry rest ih =>
    rw [drainVotes, playVotes]
    simp only [ite_bind, bind_assoc, pure_bind, bind_pure_unit, ih]

/-! ## Draining -/

/-- The queue is empty, votes were looked at in their order, and none was accepted after a gap. -/
structure Drained (queue : List (Nat × Vote ρ)) (left : Leftover ρ) : Prop where
  empty : left.queue = []
  inOrder : (left.examined.map fun e => (e.src, e.vote)) <+: queue
  noneAfterGap : left.examined.Pairwise fun e later => e.verdict = .gap → later.verdict ≠ .accepted

theorem Drained.nil : Drained ([] : List (Nat × Vote ρ)) ⟨[], []⟩ :=
  ⟨rfl, List.prefix_refl _, List.Pairwise.nil⟩

/-- A vote that leaves no gap is looked at before the rest of the queue. -/
theorem Drained.after {src : Nat} {vote : Vote ρ} {verdict : Verdict} {rest : List (Nat × Vote ρ)}
    {left : Leftover ρ} (h : Drained rest left) (hgap : verdict ≠ .gap) :
    Drained ((src, vote) :: rest) (left.after src vote verdict) := by
  refine ⟨h.empty, ?_, ?_⟩
  · exact (List.prefix_cons_inj (src, vote)).mpr h.inOrder
  · exact List.Pairwise.cons (fun _ _ heq => absurd heq hgap) h.noneAfterGap

/-- A vote after which the queue is emptied. -/
theorem Drained.last (src : Nat) (vote : Vote ρ) (verdict : Verdict) (rest : List (Nat × Vote ρ)) :
    Drained ((src, vote) :: rest) (Leftover.after src vote verdict ⟨[], []⟩) := by
  refine ⟨rfl, ?_, List.pairwise_singleton _ _⟩
  exact (List.prefix_cons_inj (src, vote)).mpr (List.nil_prefix)

/-- An action of which nothing is asked. -/
theorem sat_any {α : Type} (f : Act (Legislator ρ) α) (s : Legislator ρ) :
    Sat f s (fun _ _ => True) fun _ => True := by
  unfold Sat
  split <;> trivial

/-- Whatever was done before and is done to the state, the rest of the queue is drained and then the
vote counts as looked at. -/
theorem drainVotes_drains (o : Oracle ρ) (queue : List (Nat × Vote ρ)) (acceptedVote : Bool)
    (s : Legislator ρ) :
    Sat (drainVotes o queue acceptedVote) s (fun left _ => Drained queue left) fun _ => True := by
  induction queue generalizing acceptedVote s with
  | nil =>
    rw [drainVotes]
    refine ite (fun _ => bind (sat_any _ s) fun _ s' _ => ?_) fun _ => ?_
    · exact pure Drained.nil
    · exact pure Drained.nil
  | cons entry rest ih =>
    obtain ⟨src, vote⟩ := entry
    have hrest : ∀ (verdict : Verdict) (b : Bool) (s : Legislator ρ), verdict ≠ .gap →
        Sat (do let left ← drainVotes o rest b; pure (left.after src vote verdict)) s
          (fun left _ => Drained ((src, vote) :: rest) left) fun _ => True := by
      intro verdict b s hgap
      exact bind (ih b s) fun left s' hleft => pure (hleft.after hgap)
    have hlast : ∀ {α : Type} (f : Act (Legislator ρ) α) (verdict : Verdict) (s : Legislator ρ),
        Sat (do let _ ← f; pure (Leftover.after src vote verdict ⟨[], []⟩)) s
          (fun left _ => Drained ((src, vote) :: rest) left) fun _ => True := by
      intro α f verdict s
      exact bind (sat_any f s) fun _ _ _ => pure (Drained.last src vote verdict rest)
    rw [drainVotes]
    refine bind (sat_any _ s) fun valid s _ => ?_
    refine ite (fun _ => get_bind ?_) fun _ => hrest .invalid acceptedVote s (by decide)
    refine ite (fun _ => ?_) fun _ => ite (fun _ => ?_) fun _ => hlast _ .gap s
    · -- Below the max accepted vote: answered or not, the loop goes on.
      refine ite (fun _ => bind (sat_any _ s) fun _ s _ => ?_) fun _ => ?_
      · exact hrest .lower acceptedVote s (by decide)
      · exact hrest .lower acceptedVote s (by decide)
    · -- Next: after it is accepted the loop goes on, or the primary has given up its role.
      have hnext : ∀ s : Legislator ρ, Sat (do
          logAndAcceptVote o vote
          if rest.head?.map Prod.fst = some src then do
            let left ← drainVotes o rest true
            pure (left.after src vote .accepted)
          else do
            let relinquished ← respondToVote o src vote
            if relinquished then do
              modify fun s => { s with forceReelection := true }
              pure (Leftover.after src vote .accepted ⟨[], []⟩)
            else do
              let left ← drainVotes o rest true
              pure (left.after src vote .accepted)) s
          (fun left _ => Drained ((src, vote) :: rest) left) fun _ => True := by
        intro s
        refine bind (sat_any _ s) fun _ s _ => ite (fun _ => ?_) fun _ => ?_
        · exact hrest .accepted true s (by decide)
        · refine bind (sat_any _ s) fun relinquished s _ => ite (fun _ => ?_) fun _ => ?_
          · exact hlast _ .accepted s
          · exact hrest .accepted true s (by decide)
      refine ite (fun _ => ?_) fun _ => hnext s
      refine bind (sat_any _ s) fun _ s _ => ?_
      exact bind (sat_any _ s) fun _ s _ => hnext s

/-- The destructor's assertion holds after the loop. -/
theorem assert_drainVotes (o : Oracle ρ) (queue : List (Nat × Vote ρ)) (acceptedVote : Bool) :
    (do let left ← drainVotes o queue acceptedVote; Act.assert (decide (left.queue = [])))
      = playVotes o queue acceptedVote := by
  rw [← drainVotes_forget]
  funext s
  have hdrains := drainVotes_drains o queue acceptedVote s
  show Act.andThen (drainVotes o queue acceptedVote) _ s =
    Act.andThen (drainVotes o queue acceptedVote) _ s
  unfold Act.Sat at hdrains
  unfold Act.andThen
  cases hrun : drainVotes o queue acceptedVote s with
  | mk s' out =>
    rw [hrun] at hdrains
    cases out with
    | none => rfl
    | some left =>
      show (Act.assert (decide (left.queue = [])) s' : Legislator ρ × Option Unit) = (s', some ())
      rw [hdrains.empty]
      rfl

/-- The handler with the destructor, on a queue that is not empty. -/
theorem assert_handleNewVotesOn (o : Oracle ρ) {queue : List (Nat × Vote ρ)} (hqueue : queue ≠ [])
    (s : Legislator ρ) :
    (do let left ← handleNewVotesOn o queue; Act.assert (decide (left.queue = []))) s
      = (if s.relinquishPrimary then Act.abort else playVotes o queue false) s := by
  show ((if queue = [] then pure ⟨[], []⟩ else if s.relinquishPrimary then pure ⟨queue, []⟩
    else drainVotes o queue false) >>= fun left => assert (decide (left.queue = []))) s = _
  rw [if_neg hqueue]
  by_cases hgives : s.relinquishPrimary = true
  · rw [if_pos hgives, if_pos hgives]
    show (assert (decide (queue = [])) s : Legislator ρ × Option Unit) = (s, none)
    rw [decide_eq_false hqueue]
    rfl
  · rw [if_neg hgives, if_neg hgives]
    exact congrFun (assert_drainVotes o queue false) s

/-- The main loop's part, with the queue and its destructor, is the handler of the protocol. -/
theorem playLocalQueue_eq (o : Oracle ρ) : playLocalQueue o = handleNewVotes o := by
  rw [playLocalQueue, handleNewVotes]
  funext s
  show (if s.state = .initializing then pure () else _ : Act (Legislator ρ) Unit) s
    = (if s.state = .initializing ∨ s.voteCache = [] then pure () else _ :
      Act (Legislator ρ) Unit) s
  by_cases hstate : s.state = .initializing
  · rw [if_pos hstate, if_pos (.inl hstate)]
  · by_cases hcache : s.voteCache = []
    · rw [if_neg hstate, if_pos (.inr hcache), hcache]
      show (({ s with voteCache := [] } : Legislator ρ), some ()) = (s, some ())
      rw [← hcache]
    · rw [if_neg hstate, if_neg (not_or.mpr ⟨hstate, hcache⟩)]
      exact assert_handleNewVotesOn o hcache { s with voteCache := [] }

/-- `HandleNewVotes` drains its queue, in order and without accepting anything after a gap, exactly
if the replica is not giving up its role or there is nothing in the queue. -/
theorem handleNewVotesOn_drains (o : Oracle ρ) (queue : List (Nat × Vote ρ)) (s : Legislator ρ) :
    Sat (handleNewVotesOn o queue) s (fun left _ => Drained queue left) (fun _ => True) ↔
      s.relinquishPrimary = false ∨ queue = [] := by
  rw [handleNewVotesOn]
  constructor
  · intro h
    by_contra hnot
    rw [not_or, Bool.not_eq_false] at hnot
    have hleft : Drained queue ⟨queue, []⟩ := by
      have h := (show Sat (if queue = [] then pure ⟨[], []⟩ else if s.relinquishPrimary then
        pure ⟨queue, []⟩ else drainVotes o queue false) s _ _ from h)
      rw [if_neg hnot.2, if_pos hnot.1] at h
      exact h
    exact hnot.2 hleft.empty
  · intro h
    refine get_bind (ite (fun hnil => ?_) fun hcons => ite (fun hgives => ?_) fun _ => ?_)
    · rw [hnil]
      exact pure Drained.nil
    · rcases h with hkeeps | hnil
      · rw [hkeeps] at hgives
        cases hgives
      · exact absurd hnil hcons
    · exact drainVotes_drains o queue false s

/-- A replica that is giving up its role. -/
def relinquishing : Legislator Unit :=
  { Legislator.ofReplay [1, 2, 3] 0 [] (Replay.start 1) with
    state := .stablePrimary, relinquishPrimary := true }

/-- An environment that agrees to everything. -/
def agreeable : Oracle Unit := ⟨fun _ => true, false, true, fun _ => true, 0, 0, fun _ => []⟩

/-- One vote arrives while the replica gives up its role: it stays in the local queue. -/
theorem not_handleNewVotesOn_drains_relinquishing :
    ¬ Sat (handleNewVotesOn agreeable [(2, Vote.new 2 1 1 ⟨1, 2⟩)]) relinquishing
      (fun left _ => Drained [(2, Vote.new 2 1 1 ⟨1, 2⟩)] left) (fun _ => True) := by
  intro h
  have hleft :
      Drained [(2, Vote.new 2 1 1 ⟨1, 2⟩)] (⟨[(2, Vote.new 2 1 1 ⟨1, 2⟩)], []⟩ : Leftover Unit) := h
  cases hleft.empty

end Rsl
