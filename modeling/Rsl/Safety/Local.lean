import Rsl.Restore
import Rsl.Safety.Grow

/-!
# The invariant of one replica

`Durable` ties what a replica has logged, promised and accepted to the voting histories; it holds at
every point of a handler, also where an assertion fails. `Volatile` is what holds in addition
between handlers of a running replica: what a replica that prepares has collected, and what a
primary knows about its current vote. Both survive the actions of other replicas.
-/

set_option autoImplicit false

namespace Rsl

open Voting

variable {ρ : Type}

/-! ## The log and its replay -/

/-- The order of the records of a log: nothing comes before the decree of an earlier vote, nor at or
before the decree of an earlier decision. -/
def Record.Precedes : Record ρ → Record ρ → Prop
  | .vote v, y => v.decree ≤ y.header.decree
  | .prepare _, _ => True
  | .reconfigurationDecision h, y => h.decree < y.header.decree

/-- The record lies before decree `d`, or at it if it is a vote. -/
def Record.Below (d : Nat) : Record ρ → Prop
  | .vote v => v.decree ≤ d
  | .prepare _ => True
  | .reconfigurationDecision h => h.decree < d

theorem Record.Below.mono {d d' : Nat} (hle : d ≤ d') {x : Record ρ} (hx : x.Below d) :
    x.Below d' := by
  cases x with
  | vote v => exact hx.trans hle
  | prepare h => trivial
  | reconfigurationDecision h => exact hx.trans_le hle

theorem Record.Below.precedes {d : Nat} {x y : Record ρ} (hx : x.Below d)
    (hy : d ≤ y.header.decree) : x.Precedes y := by
  cases x <;> exact hx.mono hy

/-- How the replayed ballot `q` matches the running ballot `b` in configuration `c`: the records of
decree 0 are missing from it, and nothing else. -/
structure BallotMatch (c : Nat) (b : BallotNumber) (log : List (Record ρ)) (q : BallotNumber) :
    Prop where
  le : q ≤ b
  ge : ∀ x ∈ log, x.header.configurationNumber = c → 1 ≤ x.header.decree → x.header.ballot ≤ q
  source : c = 1 → b = ⊥ ∨
    ∃ x ∈ log, x.header.configurationNumber = 1 ∧ x.header.ballot = b
  same : 2 ≤ c → PromisesReplayed log → q = b

/-- How the state replayed from a log matches the state of the running replica. Decree 0 is not
replayed. -/
structure ReplayMatch (g : Ghost ρ) (s : Legislator ρ) (q : Replay ρ) : Prop where
  memberId : q.memberId = s.memberId
  one : s.configurationNumber = 1 →
    q.stateConfiguration = ⟨1, 0, []⟩ ∧ q.paxosConfiguration = ⟨1, 0, []⟩
  later : 2 ≤ s.configurationNumber →
    q.stateConfiguration = s.paxosConfiguration ∧ q.paxosConfiguration = s.paxosConfiguration
  decree : q.maxAcceptedVote.decree = s.maxAcceptedVote.decree
  ballot : 0 < s.maxAcceptedVote.decree → q.maxAcceptedVote.ballot = s.maxAcceptedVote.ballot
  zero : s.maxAcceptedVote.decree = 0 → q.maxAcceptedVote.ballot = ⊥
  vote : g.VoteOk s.configurationNumber q.maxAcceptedVote.ballot q.maxAcceptedVote.decree
    q.maxAcceptedVote.content
  voteConfiguration : q.maxAcceptedVote.ballot ≠ ⊥ →
    q.maxAcceptedVote.configurationNumber = s.configurationNumber
  last : q.lastExecutedDecree = 0 ∧ q.maxAcceptedVote.decree = 0 ∨
    q.lastExecutedDecree + 1 = q.maxAcceptedVote.decree
  executed : ∀ v ∈ q.executed, g.ExecOk v
  installed : ∀ i ∈ q.installed, 1 ≤ i.configurationNumber ∧ i.configurationNumber ≤ g.top ∧
    i = g.info i.configurationNumber
  voteBallot : q.maxAcceptedVote.ballot ≤ q.maxBallot
  ballots : BallotMatch s.configurationNumber s.maxBallot s.log q.maxBallot

/-! ## The invariant -/

/-- What holds of a replica at every point. -/
structure Durable (g : Ghost ρ) (r : Nat) (s : Legislator ρ) : Prop where
  memberId : s.memberId = r
  pos : 1 ≤ s.configurationNumber
  top : s.configurationNumber ≤ g.top
  configuration : s.paxosConfiguration = g.info s.configurationNumber
  bal : (g.hist s.configurationNumber).bal r = s.maxBallot
  owned : g.Owned s.configurationNumber s.maxBallot
  entered : 2 ≤ s.configurationNumber → s.maxBallot ≠ ⊥
  later : ∀ c, s.configurationNumber < c →
    (g.hist c).bal r = ⊥ ∧ ∀ b d, ¬ (g.hist c).acc r b d
  vote : g.VoteOk s.configurationNumber s.maxAcceptedVote.ballot s.maxAcceptedVote.decree
    s.maxAcceptedVote.content
  voteConfiguration : s.maxAcceptedVote.ballot ≠ ⊥ →
    s.maxAcceptedVote.configurationNumber = s.configurationNumber
  voteBallot : s.maxAcceptedVote.ballot ≤ s.maxBallot
  accepted : ∀ b d, g.first s.configurationNumber ≤ d →
    (g.hist s.configurationNumber).acc r b d →
    d < s.maxAcceptedVote.decree ∨ d = s.maxAcceptedVote.decree ∧ b ≤ s.maxAcceptedVote.ballot
  records : ∀ x ∈ s.log, g.RecordOk x
  order : s.log.Pairwise Record.Precedes
  below : ∀ x ∈ s.log, x.Below s.maxAcceptedVote.decree
  configurations : ∀ x ∈ s.log, x.header.configurationNumber ≤ s.configurationNumber
  positive : ∀ x ∈ s.log, 2 ≤ x.header.configurationNumber → 1 ≤ x.header.decree
  replayed : ∀ q, replay s.memberId s.log = some q → ReplayMatch g s q
  passed : ∀ v ∈ s.passed, g.ExecOk v
  outbox : ∀ p ∈ s.outbox, g.PacketOk p
  proposed : ∀ v ∈ s.proposed, g.ProposedOk v
  installed : ∀ i ∈ s.installed, 1 ≤ i.configurationNumber ∧ i.configurationNumber ≤ g.top ∧
    i = g.info i.configurationNumber

/-- The promise of replica `r'` for ballot `b` reports nothing fresher than the vote. -/
def ReportedTo (g : Ghost ρ) (c : Nat) (b : BallotNumber) (freshest : Vote ρ) (r' : Nat) : Prop :=
  ∃ d₀ b₀, Promised (g.first c) (g.hist c) r' b d₀ b₀ ∧
    (d₀ < freshest.decree ∨ d₀ = freshest.decree ∧ b₀ ≤ freshest.ballot)

/-- What a preparing replica has collected. -/
def PreparingOk (g : Ghost ρ) (r : Nat) (s : Legislator ρ) : Prop :=
  ∃ p, s.lastPrepareMsg = some p ∧ p.configurationNumber = s.configurationNumber ∧
    p.memberId = r ∧ p.ballot.memberId = r ∧ g.Issued s.configurationNumber p.ballot ∧
    p.ballot ≤ s.maxBallot ∧
    (s.maxBallot = p.ballot ∨ s.maxBallot.memberId ≠ r) ∧
    (∀ d v, ¬ (g.hist s.configurationNumber).prop p.ballot d v) ∧
    ∀ f, s.oldFreshestVote = some f →
      g.VoteOk s.configurationNumber f.ballot f.decree f.content ∧
      ReportedTo g s.configurationNumber p.ballot f r ∧
      ∀ r' ∈ s.responseMap, r' ≠ r ∧ r' ∈ g.members s.configurationNumber ∧
        ReportedTo g s.configurationNumber p.ballot f r'

/-- What a primary that may propose or count knows about its current vote. -/
structure OwnVote (g : Ghost ρ) (r : Nat) (s : Legislator ρ) : Prop where
  member : r ∈ g.members s.configurationNumber
  owner : s.maxBallot.memberId = r
  ballot : s.maxAcceptedVote.ballot = s.maxBallot
  nonempty : ⊥ < s.maxBallot
  configuration : s.maxAcceptedVote.configurationNumber = s.configurationNumber
  sender : s.maxAcceptedVote.memberId = r
  proposed : (g.hist s.configurationNumber).prop s.maxBallot s.maxAcceptedVote.decree
    s.maxAcceptedVote.content
  last : ∀ d v, (g.hist s.configurationNumber).prop s.maxBallot d v →
    d ≤ s.maxAcceptedVote.decree
  prepared : ∃ dp bf, dp ≤ s.maxAcceptedVote.decree ∧
    Prepared (g.members s.configurationNumber) (g.first s.configurationNumber)
      (g.hist s.configurationNumber) s.maxBallot dp bf
  accepted : (g.hist s.configurationNumber).acc r s.maxBallot s.maxAcceptedVote.decree
  responses : ∀ r' ∈ s.responseMap, r' ≠ r ∧ r' ∈ g.members s.configurationNumber ∧
    (g.hist s.configurationNumber).acc r' s.maxBallot s.maxAcceptedVote.decree
  chosen : s.outstandingVote = none →
    ChosenAt (g.members s.configurationNumber) (g.hist s.configurationNumber) s.maxBallot
      s.maxAcceptedVote.decree ∧ s.maxAcceptedVote.reconfiguration = none

/-- What holds of a running replica between two handlers. -/
structure Volatile (g : Ghost ρ) (r : Nat) (s : Legislator ρ) : Prop where
  nonempty : s.state ≠ .paxosInactive → s.paxosConfiguration.members ≠ []
  cache : ∀ e ∈ s.voteCache, g.SentVoteOk e.1 e.2
  nodup : s.responseMap.Nodup
  preparing : s.state = .preparing → PreparingOk g r s
  primary : s.state = .stablePrimary →
    s.relinquishPrimary = true ∧ s.outstandingVote = none ∨ OwnVote g r s

/-! ## Growth of the histories -/

section Mono

variable {g g' : Ghost ρ} {r r' : Nat} {s : Legislator ρ}

theorem ReplayMatch.mono (hgr : g.Grows r g') (h1 : 1 ≤ s.configurationNumber)
    (h2 : s.configurationNumber ≤ g.top) {q : Replay ρ} (hm : ReplayMatch g s q) :
    ReplayMatch g' s q :=
  { hm with
    vote := hm.vote.mono hgr h1 h2
    executed := fun v hv => (hm.executed v hv).mono hgr
    installed := fun i hi => by
      obtain ⟨hi1, hi2, hi3⟩ := hm.installed i hi
      exact ⟨hi1, hi2.trans hgr.top, by rw [hgr.info _ hi1 hi2]; exact hi3⟩ }

/-- The durable invariant after the histories have grown, given what they say about this replica. -/
theorem Durable.grow (hgr : g.Grows r g') (hd : Durable g r' s)
    (hbal : (g'.hist s.configurationNumber).bal r' = s.maxBallot)
    (hlater : ∀ c, s.configurationNumber < c →
      (g'.hist c).bal r' = ⊥ ∧ ∀ b d, ¬ (g'.hist c).acc r' b d)
    (hacc : ∀ b d, g.first s.configurationNumber ≤ d →
      (g'.hist s.configurationNumber).acc r' b d →
      d < s.maxAcceptedVote.decree ∨ d = s.maxAcceptedVote.decree ∧
        b ≤ s.maxAcceptedVote.ballot) : Durable g' r' s :=
  { hd with
    top := hd.top.trans hgr.top
    configuration := by rw [hgr.info _ hd.pos hd.top]; exact hd.configuration
    bal := hbal
    owned := hd.owned.mono hgr
    later := hlater
    vote := hd.vote.mono hgr hd.pos hd.top
    accepted := fun b d hle => by
      rw [hgr.first_eq hd.pos hd.top] at hle
      exact hacc b d hle
    records := fun x hx => (hd.records x hx).mono hgr
    replayed := fun q hq => (hd.replayed q hq).mono hgr hd.pos hd.top
    passed := fun v hv => (hd.passed v hv).mono hgr
    outbox := fun p hp => (hd.outbox p hp).mono hgr
    proposed := fun v hv => (hd.proposed v hv).mono hgr
    installed := fun i hi => by
      obtain ⟨hi1, hi2, hi3⟩ := hd.installed i hi
      exact ⟨hi1, hi2.trans hgr.top, by rw [hgr.info _ hi1 hi2]; exact hi3⟩ }

/-- The actions of another replica keep the durable invariant. -/
theorem Durable.mono (hgr : g.Grows r g') (hne : r' ≠ r) (hd : Durable g r' s) :
    Durable g' r' s :=
  hd.grow hgr (by rw [hgr.bal _ _ hne]; exact hd.bal)
    (fun c hc => by
      rw [hgr.bal _ _ hne]
      exact ⟨(hd.later c hc).1, fun b d ha => (hd.later c hc).2 b d (hgr.acc _ _ _ _ hne ha)⟩)
    (fun b d hle ha => hd.accepted b d hle (hgr.acc _ _ _ _ hne ha))

theorem ReportedTo.mono (hgr : g.Grows r g') {c : Nat} (h1 : 1 ≤ c) (h2 : c ≤ g.top)
    {b : BallotNumber} {f : Vote ρ} (hr : ReportedTo g c b f r') : ReportedTo g' c b f r' := by
  obtain ⟨d₀, b₀, hp, hle⟩ := hr
  refine ⟨d₀, b₀, ?_, hle⟩
  rw [hgr.first_eq h1 h2]
  exact hp.mono (hgr.hist c)

section

variable (hgr : g.Grows r g') (hd : Durable g r' s) (hnew : ∀ b d v, b.memberId = r' →
  (g'.hist s.configurationNumber).prop b d v → (g.hist s.configurationNumber).prop b d v)

include hgr hd hnew

theorem PreparingOk.mono
    (hp : PreparingOk g r' s) : PreparingOk g' r' s := by
  obtain ⟨p, h1, h2, hid, h3, hi, h4, h5, h6, h7⟩ := hp
  refine ⟨p, h1, h2, hid, h3, hi.mono hgr, h4, h5, fun d v hv => h6 d v (hnew _ _ _ h3 hv),
    fun f hf => ?_⟩
  obtain ⟨hv, hself, hresp⟩ := h7 f hf
  refine ⟨hv.mono hgr hd.pos hd.top, hself.mono hgr hd.pos hd.top, fun x hx => ?_⟩
  obtain ⟨h8, h9, h10⟩ := hresp x hx
  rw [hgr.members_eq hd.pos hd.top]
  exact ⟨h8, h9, h10.mono hgr hd.pos hd.top⟩

theorem OwnVote.mono
    (hp : OwnVote g r' s) : OwnVote g' r' s := by
  have hx := hgr.hist s.configurationNumber
  have hmem := hgr.members_eq hd.pos hd.top
  have hfst := hgr.first_eq hd.pos hd.top
  refine ⟨by rw [hmem]; exact hp.member, hp.owner, hp.ballot, hp.nonempty, hp.configuration,
    hp.sender, hx.prop hp.proposed,
    fun d v hv => hp.last d v (hnew _ _ _ hp.owner hv), ?_, hx.acc hp.accepted,
    fun x hxr => ?_, fun ho => ?_⟩
  · obtain ⟨dp, bf, hle, hprep⟩ := hp.prepared
    rw [hmem, hfst]
    exact ⟨dp, bf, hle, hprep.mono hx⟩
  · obtain ⟨h1, h2, h3⟩ := hp.responses x hxr
    rw [hmem]
    exact ⟨h1, h2, hx.acc h3⟩
  · rw [hmem]
    exact ⟨(hp.chosen ho).1.mono hx, (hp.chosen ho).2⟩

/-- The volatile invariant after the histories have grown without a new proposal of this replica. -/
theorem Volatile.grow
    (hv : Volatile g r' s) : Volatile g' r' s where
  nonempty := hv.nonempty
  cache e he := (hv.cache e he).mono hgr
  nodup := hv.nodup
  preparing hs := (hv.preparing hs).mono hgr hd hnew
  primary hs := (hv.primary hs).imp id fun h => h.mono hgr hd hnew

end

/-- The actions of another replica keep the volatile invariant. -/
theorem Volatile.mono (hgr : g.Grows r g') (hne : r' ≠ r) (hd : Durable g r' s)
    (hv : Volatile g r' s) : Volatile g' r' s :=
  hv.grow hgr hd fun b d v hb hp => by
    rcases hgr.prop _ b d v hp with h | h
    · exact h
    · exact absurd (hb.symm.trans h) hne

end Mono

end Rsl
