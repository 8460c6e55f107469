import Rsl.Cluster
import Rsl.Safety.Learn

/-!
# The invariant of a cluster

`World` says that every replica, packet and event of a cluster stands for something in the voting
histories. It holds initially, and every step keeps it as long as no restart loses a promise and no
primary learns on a `Join` message. Agreement follows
from the histories alone.
-/

set_option autoImplicit false

namespace Rsl

open Cluster List

variable {ρ : Type}

/-! ## The records a learner fetches -/

section Fetch

variable {d : Nat} {log : List (Record ρ)}

/-- The stream from the last vote of a decree is a part of the log that starts with that vote. -/
theorem fromLastVote_spec (log : List (Record ρ)) :
    fetchVotes.fromLastVote d log <:+ log ∧
      ∀ x rest, fetchVotes.fromLastVote d log = x :: rest → ∃ v, x = .vote v ∧ v.decree = d := by
  induction log with
  | nil => exact ⟨suffix_refl _, fun x rest h => absurd h (by simp [fetchVotes.fromLastVote])⟩
  | cons y log ih =>
    unfold fetchVotes.fromLastVote
    split
    · split
      · next h =>
        refine ⟨suffix_refl _, fun x rest hx => ?_⟩
        obtain ⟨rfl, _⟩ := cons.inj hx
        simp only [Bool.and_eq_true, decide_eq_true_eq] at h
        cases y with
        | vote v => exact ⟨v, rfl, h.2⟩
        | prepare p | reconfigurationDecision p => exact absurd h.1 (by simp [fetchVotes.isVote])
      · exact ⟨nil_suffix, fun x rest hx => absurd hx (by simp)⟩
    · exact ⟨ih.1.trans (suffix_cons _ _), ih.2⟩

theorem fetchVotes_suffix : fetchVotes log d <:+ log := by
  unfold fetchVotes
  split
  · split
    · exact suffix_refl _
    · exact nil_suffix
  · exact (fromLastVote_spec log).1

/-- Nothing in the stream lies before the decree it was fetched for. -/
theorem le_decree_of_mem_fetchVotes (hlog : log.Pairwise Record.Precedes) {x : Record ρ}
    (hx : x ∈ fetchVotes log d) : d ≤ x.header.decree := by
  have hspec := fromLastVote_spec (d := d) log
  unfold fetchVotes at hx
  split at hx
  · split at hx
    · next h => omega
    · exact absurd hx not_mem_nil
  · cases hstream : fetchVotes.fromLastVote d log with
    | nil =>
      rw [hstream] at hx
      exact absurd hx not_mem_nil
    | cons y rest =>
      obtain ⟨v, rfl, hv⟩ := hspec.2 y rest hstream
      rw [hstream] at hx hspec
      have hpair := hlog.sublist hspec.1.sublist
      rcases mem_cons.mp hx with rfl | hx
      · exact hv.symm.le
      · have := (pairwise_cons.mp hpair).1 x hx
        rw [← hv]
        exact this

end Fetch

/-! ## The invariant -/

/-- A configuration that was installed is the one the histories have under its number. -/
def Ghost.InstalledOk (g : Ghost ρ) (i : ConfigurationInfo) : Prop :=
  1 ≤ i.configurationNumber ∧ i.configurationNumber ≤ g.top ∧ i = g.info i.configurationNumber

/-- Everything in the cluster stands for something in the histories. -/
structure World (c : Cluster ρ) (g : Ghost ρ) : Prop where
  inv : g.Inv c.members
  logged : ∀ r, ∃ s, Durable g r s ∧ s.log = (c.replica r).log
  running : ∀ r, c.up r = true → Durable g r (c.replica r) ∧ Volatile g r (c.replica r)
  network : ∀ p ∈ c.network, g.PacketOk p
  executed : ∀ e ∈ c.executed, g.ExecOk e.2
  proposed : ∀ v ∈ c.proposed, g.ProposedOk v
  installed : ∀ e ∈ c.installed, g.InstalledOk e.2

section World

variable {c : Cluster ρ} {g g' : Ghost ρ} {r : Nat} {s : Legislator ρ}

theorem Durable.clearBuffers (hd : Durable g r s) : Durable g r s.clearBuffers :=
  hd.frame ⟨rfl, rfl, rfl, rfl, rfl⟩ (fun _ h => absurd h not_mem_nil)
    (fun _ h => absurd h not_mem_nil) (fun _ h => absurd h not_mem_nil)
    (fun _ h => absurd h not_mem_nil)

theorem Volatile.clearBuffers (hv : Volatile g r s) : Volatile g r s.clearBuffers :=
  hv.keep ⟨rfl, rfl, rfl, rfl, rfl, rfl, rfl, rfl, rfl⟩ rfl rfl

/-- Putting a replica back after an action of its own. -/
theorem World.update (hw : World c g) (hgr : g.Grows r g') (hg' : g'.Inv c.members) {up : Bool}
    (hdown : ∃ s₂, Durable g' r s₂ ∧ s₂.log = s.log ∧ s₂.passed = s.passed ∧
      s₂.outbox = s.outbox ∧ s₂.proposed = s.proposed ∧ s₂.installed = s.installed)
    (hup : up = true → Durable g' r s ∧ Volatile g' r s) : World (c.update r s up) g' := by
  obtain ⟨s₂, hd₂, hlog, hpassed, houtbox, hproposed, hinstalled⟩ := hdown
  refine ⟨hg', fun r' => ?_, fun r' hr' => ?_, fun p hp => ?_, fun e he => ?_, fun v hv => ?_,
    fun e he => ?_⟩
  · by_cases hrr : r' = r
    · subst hrr
      refine ⟨s₂, hd₂, hlog.trans ?_⟩
      simp only [update, if_pos, Legislator.clearBuffers]
    · obtain ⟨s', hd', hlog'⟩ := hw.logged r'
      refine ⟨s', hd'.mono hgr hrr, hlog'.trans ?_⟩
      simp only [Cluster.update, if_neg hrr]
  · by_cases hrr : r' = r
    · subst hrr
      simp only [update, if_pos] at hr' ⊢
      exact ⟨(hup hr').1.clearBuffers, (hup hr').2.clearBuffers⟩
    · simp only [Cluster.update, if_neg hrr] at hr' ⊢
      obtain ⟨hd', hv'⟩ := hw.running r' hr'
      exact ⟨hd'.mono hgr hrr, hv'.mono hgr hrr hd'⟩
  · rcases mem_append.mp hp with hp | hp
    · exact (hw.network p hp).mono hgr
    · exact hd₂.outbox p (by rw [houtbox]; exact hp)
  · rcases mem_append.mp he with he | he
    · exact (hw.executed e he).mono hgr
    · obtain ⟨v, hv, rfl⟩ := mem_map.mp he
      exact hd₂.passed v (by rw [hpassed]; exact hv)
  · rcases mem_append.mp hv with hv | hv
    · exact (hw.proposed v hv).mono hgr
    · exact hd₂.proposed v (by rw [hproposed]; exact hv)
  · rcases mem_append.mp he with he | he
    · obtain ⟨h1, h2, h3⟩ := hw.installed e he
      exact ⟨h1, h2.trans hgr.top, by rw [hgr.info _ h1 h2]; exact h3⟩
    · obtain ⟨i, hi, rfl⟩ := mem_map.mp he
      exact hd₂.installed i (by rw [hinstalled]; exact hi)

variable {members : List Nat} {f : Act (Legislator ρ) Unit} {q : Replay ρ} {o : Oracle ρ}
  {a : Action ρ}

/-- Running a function that keeps the invariants of its replica. -/
theorem World.run (hw : World c g) (hf : Keeps c.members g r (c.replica r) f) :
    ∃ g', g.Grows r g' ∧ World (c.run r f) g' := by
  unfold Keeps Runs Act.Sat at hf
  unfold Cluster.run
  cases hrun : f (c.replica r) with
  | mk s result =>
    rw [hrun] at hf
    cases result with
    | some _ =>
      obtain ⟨g', hgr, h', hv'⟩ := hf
      exact ⟨g', hgr, hw.update hgr h'.inv ⟨s, h'.durable, rfl, rfl, rfl, rfl, rfl⟩
        fun _ => ⟨h'.durable, hv'⟩⟩
    | none =>
      obtain ⟨g', s₂, hgr, h', hsame⟩ := hf
      exact ⟨g', hgr, hw.update hgr h'.inv ⟨s₂, h'.durable, hsame⟩
        fun hup => absurd hup (by decide)⟩

/-- What a replica fetches from a running peer may be learned. -/
theorem World.oracleOk (hw : World c g) (hd : Durable g r (c.replica r)) (h : Choice) :
    OracleOk g r (c.replica r) (c.oracle r h) := by
  intro peer
  simp only [oracle]
  split
  · obtain ⟨s, hds, hlog⟩ := hw.logged peer
    rw [← hlog]
    set d := (c.replica r).maxAcceptedVote.decree with hdec
    set stream := (fetchVotes s.log d).take h.fetchCount with hstream
    have hsub : stream.Sublist s.log :=
      (take_sublist _ _).trans fetchVotes_suffix.sublist
    have hmem : ∀ e ∈ stream.mapIdx fun i record => (record, h.cached i), e.1 ∈ stream := by
      intro e he
      obtain ⟨i, hi, rfl⟩ := mem_mapIdx.mp he
      exact getElem_mem hi
    have hmap : (stream.mapIdx fun i record => (record, h.cached i)).map Prod.fst = stream :=
      ext_getElem (by simp) fun i h1 h2 => by simp
    refine ⟨⟨fun e he => hds.records _ (hsub.subset (hmem e he)), ?_, fun e he hlt => ?_⟩,
      fun e he => ?_⟩
    · rw [← pairwise_map, hmap]
      exact hds.order.sublist hsub
    · exact hd.not_alone_later hw.inv (hds.records _ (hsub.subset (hmem e he))) hlt
    · exact le_decree_of_mem_fetchVotes hds.order ((take_sublist _ _).subset (hmem e he))
  · exact ⟨⟨fun e he => absurd he not_mem_nil, Pairwise.nil,
      fun e he => absurd he not_mem_nil⟩, fun e he => absurd he not_mem_nil⟩

/-! ## Steps -/

/-- The replica starts with nothing in its log. -/
theorem durable_start (fixed : Prop) (initial : List Nat) (r : Nat) :
    Durable (Ghost.start fixed initial : Ghost ρ) r
      (Legislator.ofReplay initial 0 [] (Replay.start r)).clearBuffers := by
  have hnil : ∀ {α : Type} {P : α → Prop}, ∀ x ∈ ([] : List α), P x :=
    fun x hx => absurd hx not_mem_nil
  have hone : ¬ 2 ≤ (Legislator.ofReplay initial 0 []
      (Replay.start r : Replay ρ)).clearBuffers.configurationNumber := by
    show ¬ 2 ≤ 1
    decide
  refine ⟨rfl, le_rfl, le_rfl, rfl, rfl, .inl rfl, fun h => absurd h hone,
    fun c _ => ⟨rfl, fun _ _ => id⟩, Ghost.voteOk_placeholder _ 1, fun h => absurd rfl h,
    le_refl _, fun b d _ h => absurd h id, hnil, Pairwise.nil, hnil, hnil, hnil,
    fun q hq => ?_, hnil, hnil, hnil, hnil⟩
  cases hq
  exact ⟨rfl, fun _ => ⟨rfl, rfl⟩, fun h => absurd h hone, rfl, fun _ => rfl, fun _ => rfl,
    Ghost.voteOk_placeholder _ 1, fun h => absurd rfl h, .inl ⟨rfl, rfl⟩, hnil, hnil, le_refl _,
    ⟨le_refl _, hnil, fun _ => .inl rfl, fun h => absurd h hone⟩⟩

theorem world_init (fixed : Prop) (members : List Nat) :
    World (init members : Cluster ρ) (Ghost.start fixed members) where
  inv := Ghost.inv_start fixed members
  logged r := ⟨_, durable_start fixed members r, rfl⟩
  running r _ := ⟨durable_start fixed members r, ⟨fun h => absurd rfl h,
    fun _ he => absurd he not_mem_nil, nodup_nil, fun h => LegislatorState.noConfusion h,
    fun h => LegislatorState.noConfusion h⟩⟩
  network _ h := absurd h not_mem_nil
  executed _ h := absurd h not_mem_nil
  proposed _ h := absurd h not_mem_nil
  installed _ h := absurd h not_mem_nil

/-- The configuration of a restarted replica is the one it had. -/
theorem ReplayMatch.startConfiguration_eq (hg : g.Inv members)
    (hd : Durable g r s) (hm : ReplayMatch g s q) :
    q.startConfiguration members = s.paxosConfiguration := by
  unfold Replay.startConfiguration
  rcases eq_or_lt_of_le hd.pos with h1 | h2
  · have hinfo := hd.configuration
    rw [← h1, hg.info_one] at hinfo
    rw [(hm.one h1.symm).1, if_pos rfl, hinfo]
  · have hne := hg.nonempty _ h2 hd.top
    rw [← hd.configuration] at hne
    rw [(hm.later h2).1, if_neg hne, (hm.later h2).2]

/-- A replica that lost no promise is rebuilt from its log. -/
theorem Durable.restarted (hg : g.Inv members)
    (hd : Durable g r s) (hq : replay r s.log = some q) (hp : PromisesReplayed s.log) (n : Nat) :
    Durable g r (Legislator.ofReplay members n s.log q) := by
  have hm := hd.replayed q (by rw [hd.memberId]; exact hq)
  have hmb : q.maxBallot = s.maxBallot := hm.ballots.eq hd.pos hp
  have hcfg := hm.startConfiguration_eq hg hd
  have hcn : (Legislator.ofReplay members n s.log q).configurationNumber = s.configurationNumber :=
    congrArg ConfigurationInfo.configurationNumber hcfg
  have hid : q.memberId = r := hm.memberId.trans hd.memberId
  refine ⟨hid, by rw [hcn]; exact hd.pos, by rw [hcn]; exact hd.top, ?_, ?_, ?_, ?_, ?_, ?_, ?_,
    hm.voteBallot, ?_, hd.records, hd.order, ?_, ?_, hd.positive, fun q' hq' => ?_, hm.executed,
    fun _ h => absurd h not_mem_nil, fun _ h => absurd h not_mem_nil, fun i hi => ?_⟩
  · rw [hcn]; exact hcfg.trans hd.configuration
  · rw [hcn]; exact hd.bal.trans hmb.symm
  · rw [hcn]
    show g.Owned _ q.maxBallot
    rw [hmb]; exact hd.owned
  · rw [hcn]
    show _ → q.maxBallot ≠ ⊥
    rw [hmb]; exact hd.entered
  · rw [hcn]; exact hd.later
  · rw [hcn]; exact hm.vote
  · rw [hcn]; exact hm.voteConfiguration
  · rw [hcn]
    intro b d hf hacc
    show d < q.maxAcceptedVote.decree ∨ d = q.maxAcceptedVote.decree ∧ b ≤ q.maxAcceptedVote.ballot
    have hpos : 1 ≤ d := (le_max_left _ _).trans hf
    rw [hm.decree]
    refine (hd.accepted b d hf hacc).imp id fun ⟨h1, h2⟩ => ⟨h1, ?_⟩
    rw [hm.ballot (by omega)]
    exact h2
  · show ∀ x ∈ s.log, x.Below q.maxAcceptedVote.decree
    rw [hm.decree]; exact hd.below
  · rw [hcn]; exact hd.configurations
  · -- replaying once more gives the same state, which is now the running one
    have hqq : q' = q := by
      have hq'' : replay q.memberId s.log = some q' := hq'
      rw [hid, hq] at hq''
      exact (Option.some.inj hq'').symm
    subst hqq
    refine ⟨rfl, by rw [hcn]; exact hm.one, ?_, rfl, fun _ => rfl, ?_, by rw [hcn]; exact hm.vote,
      by rw [hcn]; exact hm.voteConfiguration, hm.last, hm.executed, hm.installed,
        hm.voteBallot, ?_⟩
    · rw [hcn]
      show _ → q'.stateConfiguration = q'.startConfiguration members ∧
        q'.paxosConfiguration = q'.startConfiguration members
      rw [hcfg]; exact hm.later
    · intro h0
      exact hm.zero (hm.decree.symm.trans h0)
    · rw [hcn]
      show BallotMatch _ q'.maxBallot s.log q'.maxBallot
      have hb := hm.ballots
      rw [← hmb] at hb
      exact hb
  · rcases mem_append.mp hi with hi | hi
    · exact hm.installed i hi
    · obtain rfl := mem_singleton.mp hi
      rw [hcfg]
      exact ⟨hd.pos, hd.top, hd.configuration⟩

theorem volatile_ofReplay (members : List Nat) (n : Nat) (log : List (Record ρ)) (q : Replay ρ) :
    Volatile g r (Legislator.ofReplay members n log q) :=
  ⟨fun h => absurd rfl h, fun _ he => absurd he not_mem_nil, nodup_nil,
    fun h => LegislatorState.noConfusion h, fun h => LegislatorState.noConfusion h⟩

section

variable (hr : r ≠ 0) (h : Held members g r s) (hv : Volatile g r s)

include hr h hv

/-- A primary proposes a vote of its own. -/
theorem proposeNext_keeps (hst : s.state = .stablePrimary)
    (hout : s.outstandingVote = none) {vote : Vote ρ} (hvalid : g.Valid vote.content) :
    Keeps members g r s (sendNextVote (startInitializing o) o vote) := by
  refine (sendNextVote_runs hr h (hv.ready (by rw [hst]; exact LegislatorState.noConfusion))
    (startInitializing_runs hr o) hst vote fun hrel => ?_).mono fun _ _ _ _ _ hs => hs.volatile
  rcases hv.primary hst with ⟨hrel', _⟩ | ho
  · rw [hrel] at hrel'
    exact absurd hrel' (by decide)
  · exact ⟨ho.member, ho.proposable h.durable hout hvalid⟩

/-- The main loop notes that the replica is the primary and proposes a vote of the application. -/
theorem propose_keeps (hst : s.state = .stablePrimary)
    (hout : s.outstandingVote = none) {vote : Vote ρ} (hvalid : g.Valid vote.content) :
    Keeps members g r s (do checkNotifyStatus true; sendNextVote (startInitializing o) o vote) := by
  refine Runs.modify_bind ?_
  by_cases heq : true = s.isPrimary
  · rw [if_pos heq]
    exact proposeNext_keeps hr h hv hst hout hvalid
  · rw [if_neg heq]
    apply proposeNext_keeps hr
    · exact h.keep ⟨rfl, rfl, rfl, rfl, rfl⟩ rfl rfl rfl rfl
    · exact hv.keep ⟨rfl, rfl, rfl, rfl, rfl, rfl, rfl, rfl, rfl⟩ rfl rfl
    · exact hst
    · exact hout
    · exact hvalid

theorem timeoutAction_keeps
    (hf : timeoutAction o s = some f) : Keeps members g r s f := by
  have hkeep : s.state ≠ .paxosInactive → Keeps members g r s (startInitializing o) :=
    fun hst => startInitializing_keeps hr h (hv.ready hst)
  unfold timeoutAction at hf
  cases hst : s.state <;> simp only [hst] at hf
  · cases hf
    exact hkeep (by rw [hst]; exact LegislatorState.noConfusion)
  · cases hf
    exact hkeep (by rw [hst]; exact LegislatorState.noConfusion)
  · cases hf
  · split at hf
    · cases hf
      exact hkeep (by rw [hst]; exact LegislatorState.noConfusion)
    · cases hf
  · cases hf

end

/-- The current vote or the prepare message is sent again. -/
theorem resendAction_keeps (h : Held members g r s) (hv : Volatile g r s)
    (hf : resendAction s = some f) :
    Keeps members g r s f := by
  have hd := h.durable
  have hsend : ∀ p : Payload ρ, (∀ dst, g.PacketOk ⟨s.memberId, dst, p⟩) →
      Keeps members g r s (Act.modify fun s =>
        { s with
          outbox := s.outbox ++
            (s.replicas.filter fun r => decide (r ∉ s.responseMap)).map fun r =>
              ⟨s.memberId, r, p⟩ }) := by
    intro p hp
    refine Runs.modify ⟨h.inv, hd.sent _ fun p' hp' => ?_⟩
      (hv.keep ⟨rfl, rfl, rfl, rfl, rfl, rfl, rfl, rfl, rfl⟩ rfl rfl)
    obtain ⟨dst, _, rfl⟩ := mem_map.mp hp'
    exact hp dst
  unfold resendAction at hf
  cases hst : s.state <;> simp only [hst] at hf
  · cases hf
  · obtain ⟨p, h1, h2, hid, h3, hi, _⟩ := hv.preparing hst
    rw [h1, Option.map_some] at hf
    cases hf
    refine hsend _ fun _ => ⟨?_, hid.trans h3.symm⟩
    rw [h2]
    exact hi
  · cases hf
    refine Runs.assert_bind h fun hsome => hsend _ fun _ => ?_
    rcases hv.primary hst with ⟨_, hnone⟩ | ho
    · rw [hnone] at hsome
      exact absurd hsome Bool.false_ne_true
    · refine ⟨?_, ne_bot_of_gt (ho.ballot ▸ ho.nonempty), ?_, ?_, ?_, ?_, ?_⟩
      · rw [ho.ballot, ho.owner]; exact hd.memberId
      · rw [ho.configuration]; exact hd.pos
      · rw [ho.configuration]; exact hd.top
      · rw [ho.sender, ho.ballot, ho.owner]
      · rw [ho.configuration, ho.ballot]; exact ho.proposed
      · rw [ho.configuration, ho.ballot, ho.sender]; exact ho.accepted
  · cases hf
  · cases hf

/-- A restart finds every promise made at decree 0 made again at a later one. -/
def Cluster.restartReplays (c : Cluster ρ) : Action ρ → Bool
  | .restart r => decide (PromisesReplayed (c.replica r).log)
  | _ => true

/-- The message delivered does not make a primary learn votes in its role. -/
def Cluster.joinsApart (c : Cluster ρ) : Action ρ → Bool
  | .deliver r ⟨_, _, .message m⟩ _ _ => !joinsAsPrimary (c.replica r) m
  | _ => true

/-- The action does not propose a configuration. -/
def Action.keepsConfiguration : Action ρ → Bool
  | .propose _ vote _ => vote.reconfiguration.isNone
  | _ => true

theorem World.action_keeps [DecidableEq ρ] (hw : World c g) (hjoin : c.joinsApart a)
    (hfixed : g.fixed → a.keepsConfiguration) (hr : a.actor ≠ 0) (hup : c.up a.actor = true)
    (hf : c.action a = some f) : Keeps c.members g a.actor (c.replica a.actor) f := by
  obtain ⟨hd, hv⟩ := hw.running _ hup
  have h : Held c.members g a.actor (c.replica a.actor) := ⟨hw.inv, hd⟩
  cases a with
  | activate r ch =>
    simp only [action] at hf
    split at hf
    · next hc =>
      cases hf
      exact startInitializing_keeps hr h ⟨ne_nil_of_mem hc.2, hv.cache⟩
    · cases hf
  | deliver r p cacheFull ch =>
    obtain ⟨src, dst, payload⟩ := p
    simp only [action, Option.ite_none_right_eq_some] at hf
    have hp := hw.network _ hf.1.1
    cases payload with
    | vote v =>
      cases hf.2
      exact receiveVote_keeps h hv hp cacheFull
    | message m =>
      cases hf.2
      exact handleMessage_keeps hr h hv (hw.oracleOk hd ch) src hp (Bool.not_eq_eq_eq_not.mp hjoin)
  | play r ch =>
    cases hf
    exact handleNewVotes_keeps hr h hv
  | propose r vote ch =>
    simp only [action] at hf
    split at hf
    · next hc =>
      cases hf
      exact propose_keeps hr h hv (of_decide_eq_true hc.1) hc.2.1
        ⟨hc.2.2, fun hg => Option.isNone_iff_eq_none.mp (hfixed hg)⟩
    · cases hf
  | demote r =>
    simp only [action] at hf
    split at hf
    · cases hf
    · next hc =>
      cases hf
      exact (checkNotifyStatus_runs h hv (fun hst => hc (decide_eq_true hst)) false).mono
        fun _ _ _ _ _ hs => hs.1
  | heartbeat r ch =>
    simp only [action] at hf
    split at hf
    · next hc =>
      cases hf
      exact proposeNext_keeps hr h hv (of_decide_eq_true hc.1) hc.2.2.1
        ⟨(Option.some_ne_none _).symm, fun _ => rfl⟩
    · cases hf
  | timeout r ch => exact timeoutAction_keeps hr h hv hf
  | resend r => exact resendAction_keeps h hv hf
  | promote r =>
    cases hf
    exact Runs.modify (h.keep ⟨rfl, rfl, rfl, rfl, rfl⟩ rfl rfl rfl rfl)
      (hv.keep ⟨rfl, rfl, rfl, rfl, rfl, rfl, rfl, rfl, rfl⟩ rfl rfl)
  | sendJoin r ch =>
    simp only [action] at hf
    split at hf
    · cases hf
    · cases hf
      exact Runs.modify ⟨h.inv, hd.sendRequestToAll _ fun _ => hd.joinOk⟩
        (hv.keep ⟨rfl, rfl, rfl, rfl, rfl, rfl, rfl, rfl, rfl⟩ rfl rfl)
  | crash r =>
    cases hf
    exact Runs.abort h
  | restart r => cases hf

/-- A restart whose log makes every promise again at a decree that is replayed. -/
theorem World.restarted (hw : World c g) (hp : PromisesReplayed (c.replica r).log)
    (hq : replay r (c.replica r).log = some q) {n : Nat} :
    World (c.update r (Legislator.ofReplay c.members n (c.replica r).log q) true) g := by
  obtain ⟨s, hd, hlog⟩ := hw.logged r
  rw [← hlog] at hp hq ⊢
  have hd' := hd.restarted hw.inv hq hp n
  exact hw.update (Ghost.Grows.refl r g) hw.inv ⟨_, hd', rfl, rfl, rfl, rfl, rfl⟩
    fun _ => ⟨hd', volatile_ofReplay _ _ _ _⟩

/-- Every step keeps the invariant, if a restart replays its promises and no primary learns on a
`Join` message. -/
theorem World.step [DecidableEq ρ] (hw : World c g) (hrestart : c.restartReplays a)
    (hjoin : c.joinsApart a) (hfixed : g.fixed → a.keepsConfiguration) {c' : Cluster ρ}
    (hs : c.step a = some c') : ∃ g', g'.fixed = g.fixed ∧ World c' g' := by
  unfold Cluster.step at hs
  simp only at hs
  split at hs
  · cases hs
  · next hr =>
    split at hs
    · next r =>
      split at hs
      · cases hs
      · obtain ⟨s', hs', rfl⟩ := Option.map_eq_some_iff.mp hs
        obtain ⟨q, hq, hs'⟩ := Option.bind_eq_some_iff.mp hs'
        split at hs'
        · cases hs'
          exact ⟨g, rfl, hw.restarted (of_decide_eq_true hrestart) hq⟩
        · cases hs'
    · next ha =>
      split at hs
      · next hup =>
        obtain ⟨f, hf, rfl⟩ := Option.map_eq_some_iff.mp hs
        obtain ⟨g', hgr, hw'⟩ := hw.run (hw.action_keeps hjoin hfixed hr hup hf)
        exact ⟨g', hgr.fixed, hw'⟩
      · cases hs

/-- In a run with a fixed configuration, no configuration is ever installed. -/
theorem World.top_eq_one (hw : World c g) (hfixed : g.fixed) : g.top = 1 := by
  by_contra hne
  have htop := hw.inv.top_pos
  obtain ⟨d, v, ms, _, ⟨b, _, _, hp⟩, hms, _⟩ := hw.inv.installed 1 (le_refl _) (by omega)
  rw [(hw.inv.voteOk 1 hp).valid.2 hfixed] at hms
  exact absurd hms.symm (Option.some_ne_none ms)

/-- In a run with a fixed configuration, a `Join` message never comes from a later one. -/
theorem World.joinsApart [DecidableEq ρ] (hw : World c g) (hfixed : g.fixed)
    {c' : Cluster ρ} (hs : c.step a = some c') : c.joinsApart a := by
  cases a with
  | deliver r p cacheFull ch =>
    obtain ⟨src, dst, payload⟩ := p
    simp only [Cluster.step, Option.ite_none_left_eq_some, Option.ite_none_right_eq_some] at hs
    obtain ⟨_, hup, hs⟩ := hs
    obtain ⟨f, hf, _⟩ := Option.map_eq_some_iff.mp hs
    simp only [action, Option.ite_none_right_eq_some] at hf
    have hp := hw.network _ hf.1.1
    have hpos := (hw.running r hup).1.pos
    have htop := hw.top_eq_one hfixed
    cases payload with
    | vote v => rfl
    | message m =>
      obtain ⟨m, body⟩ := m
      cases body with
      | join n =>
        have hle : m.configurationNumber ≤ g.top := hp
        refine Bool.not_eq_eq_eq_not.mpr (decide_eq_false fun hj => ?_)
        have hlt : (c.replica r).configurationNumber < m.configurationNumber := hj.2.1
        omega
      | _ => rfl
  | _ => rfl

end World

/-! ## The invariant along runs -/

section Reach

variable [DecidableEq ρ] {members : List Nat} {c : Cluster ρ}

/-- The steps of a run with a fixed configuration whose restarts replay every promise. -/
def Cluster.FixedStep (c : Cluster ρ) (a : Action ρ) : Prop :=
  c.restartReplays a ∧ a.keepsConfiguration

/-- The steps of a run whose restarts replay every promise and whose primaries do not learn on a
`Join` message. -/
def Cluster.SafeStep (c : Cluster ρ) (a : Action ρ) : Prop :=
  c.restartReplays a ∧ c.joinsApart a

instance (c : Cluster ρ) (a : Action ρ) : Decidable (c.FixedStep a) :=
  inferInstanceAs (Decidable (_ ∧ _))

instance (c : Cluster ρ) (a : Action ρ) : Decidable (c.SafeStep a) :=
  inferInstanceAs (Decidable (_ ∧ _))

theorem Cluster.Reach.world_fixed (h : Reach FixedStep members c) :
    ∃ g, g.fixed ∧ World c g := by
  induction h with
  | init => exact ⟨_, trivial, world_init True members⟩
  | step _ hok hs ih =>
    obtain ⟨g, hfixed, hw⟩ := ih
    obtain ⟨g', hf, hw'⟩ := hw.step hok.1 (hw.joinsApart hfixed hs) (fun _ => hok.2) hs
    exact ⟨g', hf.mpr hfixed, hw'⟩

theorem Cluster.Reach.world (h : Reach SafeStep members c) :
    ∃ g, World c g := by
  suffices ∃ g, ¬ g.fixed ∧ World c g from this.imp fun _ hg => hg.2
  induction h with
  | init => exact ⟨_, id, world_init False members⟩
  | step _ hok hs ih =>
    obtain ⟨g, hfixed, hw⟩ := ih
    obtain ⟨g', hf, hw'⟩ := hw.step hok.1 hok.2 (fun h => absurd h hfixed) hs
    exact ⟨g', fun h => hfixed (hf.mp h), hw'⟩

end Reach

end Rsl
