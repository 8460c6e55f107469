import Rsl.Safety.Run

/-!
# Proposing, preparing and installing configurations

The functions of a replica that call each other in a cycle: a decision installs a configuration and
starts an election, an election of a single replica ends at once with a proposal, and such a
proposal may be decided at once. `startInitializing_runs` closes the cycle by induction on the
nesting. A proposal is safe for one of two reasons, collected in `Proposable`: it is the freshest
vote of a prepared ballot, or it follows a vote of the same ballot that a quorum has accepted.
-/

set_option autoImplicit false

namespace Rsl

open Voting Legislator Runs Ghost List

variable {ρ : Type} {initial : List Nat} {g g' : Ghost ρ} {r : Nat} {s s' : Legislator ρ}

/-! ## Frames of the volatile invariant -/

theorem OwnVote.congr (h : OwnVote g r s) (hcfg : s'.paxosConfiguration = s.paxosConfiguration)
    (hmax : s'.maxAcceptedVote = s.maxAcceptedVote) (hmb : s'.maxBallot = s.maxBallot)
    (hresp : s'.responseMap = s.responseMap) (hout : s'.outstandingVote = s.outstandingVote) :
    OwnVote g r s' := by
  have hcn : s'.configurationNumber = s.configurationNumber :=
    congrArg ConfigurationInfo.configurationNumber hcfg
  refine ⟨?_, ?_, ?_, ?_, ?_, ?_, ?_, ?_, ?_, ?_, ?_, ?_⟩ <;>
    simp only [hcn, hmax, hmb, hresp, hout]
  · exact h.member
  · exact h.owner
  · exact h.ballot
  · exact h.nonempty
  · exact h.configuration
  · exact h.sender
  · exact h.proposed
  · exact h.last
  · exact h.prepared
  · exact h.accepted
  · exact h.responses
  · exact h.chosen

theorem OwnVote.keep (h : OwnVote g r s) (hs : SameVolatile s s')
    (hmax : s'.maxAcceptedVote = s.maxAcceptedVote) (hmb : s'.maxBallot = s.maxBallot) :
    OwnVote g r s' :=
  h.congr hs.paxosConfiguration hmax hmb hs.responseMap hs.outstandingVote

theorem PreparingOk.keep (h : PreparingOk g r s) (hs : SameVolatile s s')
    (hmb : s'.maxBallot = s.maxBallot) : PreparingOk g r s' := by
  unfold PreparingOk
  rw [hs.configurationNumber, hs.lastPrepareMsg, hmb, hs.oldFreshestVote, hs.responseMap]
  exact h

theorem Volatile.keep (h : Volatile g r s) (hs : SameVolatile s s')
    (hmax : s'.maxAcceptedVote = s.maxAcceptedVote) (hmb : s'.maxBallot = s.maxBallot) :
    Volatile g r s' where
  nonempty := by rw [hs.state, hs.paxosConfiguration]; exact h.nonempty
  cache := by rw [hs.voteCache]; exact h.cache
  nodup := by rw [hs.responseMap]; exact h.nodup
  preparing hst := (h.preparing (hs.state.symm.trans hst)).keep hs hmb
  primary hst := by
    rw [hs.relinquishPrimary, hs.outstandingVote]
    exact (h.primary (hs.state.symm.trans hst)).imp id fun ho => ho.keep hs hmax hmb

/-- What `StartInitializing` needs: the configuration has members, and the cached votes were
sent. -/
structure Ready (g : Ghost ρ) (s : Legislator ρ) : Prop where
  nonempty : s.paxosConfiguration.members ≠ []
  cache : ∀ e ∈ s.voteCache, g.SentVoteOk e.1 e.2

theorem Ready.mono (h : Ready g s) (hgr : g.Grows r g') : Ready g' s :=
  ⟨h.nonempty, fun e he => (h.cache e he).mono hgr⟩

theorem Ready.keep (h : Ready g s) (hs : SameVolatile s s') : Ready g s' :=
  ⟨by rw [hs.paxosConfiguration]; exact h.nonempty, by rw [hs.voteCache]; exact h.cache⟩

theorem Volatile.ready (h : Volatile g r s) (hs : s.state ≠ .paxosInactive) : Ready g s :=
  ⟨h.nonempty hs, h.cache⟩

/-- A state in which nothing is collected or proposed. -/
theorem Ready.volatile (h : Ready g s) (hresp : s.responseMap.Nodup)
    (h1 : s.state ≠ .preparing) (h2 : s.state ≠ .stablePrimary) : Volatile g r s :=
  ⟨fun _ => h.nonempty, h.cache, hresp, fun hs => absurd hs h1, fun hs => absurd hs h2⟩

/-! ## Quorums -/

/-- The replica together with the replicas that answered is a majority of the members. -/
theorem Durable.isMajority (hd : Durable g r s) (hmem : r ∈ g.members s.configurationNumber)
    {l : List Nat} (hnodup : l.Nodup) (hl : ∀ x ∈ l, x ≠ r ∧ x ∈ g.members s.configurationNumber)
    (hsize : s.quorumSize - 1 ≤ l.length) :
    IsMajority (g.members s.configurationNumber) (insert r l.toFinset) := by
  have hsub : insert r l.toFinset ⊆ g.members s.configurationNumber := by
    refine Finset.insert_subset hmem fun x hx => ?_
    exact (hl x (mem_toFinset.mp hx)).2
  refine ⟨hsub, ?_⟩
  have hnot : r ∉ l.toFinset := fun h => (hl r (mem_toFinset.mp h)).1 rfl
  have hcard : (insert r l.toFinset).card = l.length + 1 := by
    rw [Finset.card_insert_of_notMem hnot, toFinset_card_of_nodup hnodup]
  have hmembers : g.members s.configurationNumber ⊆ insert r s.replicas.toFinset := by
    intro x hx
    unfold members at hx
    rw [← hd.configuration, mem_toFinset] at hx
    by_cases hxr : x = r
    · exact Finset.mem_insert.mpr (.inl hxr)
    · refine Finset.mem_insert_of_mem (mem_toFinset.mpr ?_)
      exact mem_filter.mpr ⟨hx, by simpa [hd.memberId] using hxr⟩
  have hle := Finset.card_le_card hmembers
  have hins := Finset.card_insert_le r s.replicas.toFinset
  have hrep := toFinset_card_le s.replicas
  unfold Legislator.quorumSize at hsize
  omega

/-- A replica whose quorum is one replica is the only member. -/
theorem Durable.alone (hd : Durable g r s) (hne : s.paxosConfiguration.members ≠ [])
    (hsize : s.quorumSize = 1) : g.members s.configurationNumber = {r} := by
  have hrep : s.replicas = [] := by
    unfold Legislator.quorumSize at hsize
    exact length_eq_zero_iff.mp (by omega)
  have hall : ∀ x ∈ s.paxosConfiguration.members, x = r := by
    intro x hx
    by_contra hxr
    have hmem : x ∈ s.replicas := mem_filter.mpr ⟨hx, by simpa [hd.memberId] using hxr⟩
    rw [hrep] at hmem
    exact absurd hmem not_mem_nil
  unfold members
  rw [← hd.configuration]
  ext x
  rw [mem_toFinset, Finset.mem_singleton]
  refine ⟨hall x, ?_⟩
  rintro rfl
  obtain ⟨y, hy⟩ := exists_mem_of_ne_nil _ hne
  rwa [hall y hy] at hy

/-! ## Proposals -/

/-- The vote that `SendNextVote` makes of the given one may be proposed. -/
structure Proposable (g : Ghost ρ) (s : Legislator ρ) (vote : Vote ρ) : Prop where
  order : (s.nextVote vote).decree = s.maxAcceptedVote.decree ∧
      s.maxAcceptedVote.ballot < s.maxBallot ∨
    (s.nextVote vote).decree = s.maxAcceptedVote.decree + 1 ∧
      s.maxBallot = s.maxAcceptedVote.ballot
  fresh : ∀ d v, (g.hist s.configurationNumber).prop s.maxBallot d v →
    d < (s.nextVote vote).decree
  prepared : ∃ dp bf, dp ≤ (s.nextVote vote).decree ∧
    Prepared (g.members s.configurationNumber) (g.first s.configurationNumber)
      (g.hist s.configurationNumber) s.maxBallot dp bf
  voteOk : (g.propose s.configurationNumber s.maxBallot (s.nextVote vote).decree
    vote.content).VoteOk s.configurationNumber s.maxBallot (s.nextVote vote).decree vote.content

variable {vote : Vote ρ}

/-- The votes that follow an accepted vote of the same ballot. -/
theorem OwnVote.proposable (ho : OwnVote g r s) (hd : Durable g r s)
    (hout : s.outstandingVote = none) (hvalid : g.Valid vote.content) :
    Proposable g s vote := by
  have hdec : (s.nextVote vote).decree = s.maxAcceptedVote.decree + 1 := if_pos ho.ballot.symm
  obtain ⟨dp, bf, hle, hprep⟩ := ho.prepared
  obtain ⟨hchosen, hnone⟩ := ho.chosen hout
  have hinit := hd.vote.init
  have hfirst : g.first s.configurationNumber ≤ s.maxAcceptedVote.decree + 1 := by
    unfold first
    omega
  have hgr := grows_propose (g := g) s.configurationNumber s.maxBallot
    (s.maxAcceptedVote.decree + 1) vote.content
  refine ⟨.inr ⟨hdec, ho.ballot.symm⟩, fun d v hp => ?_, ⟨dp, bf, ?_, hprep⟩, ?_⟩
  · have := ho.last d v hp
    omega
  · omega
  · rw [hdec]
    refine ⟨⟨fun hf => ?_, fun _ => ?_⟩, .inr ⟨_, _, propose_prop_self _ _ _⟩, hvalid, ?_, ?_⟩
    · rw [propose, setHist_hist_self]
      exact safe_propose_next hprep (Nat.lt_succ_of_le hle) hf
    · refine ⟨s.maxBallot, s.maxAcceptedVote.content, ho.nonempty, le_refl _, ?_, ?_, ?_⟩
      · exact hchosen.mono (hgr.hist _)
      · exact (hgr.hist _).prop ho.proposed
      · exact not_not.mpr hnone
    · intro hlt
      exact absurd hlt (not_lt.mpr hfirst)
    · exact Nat.le_succ_of_le hinit

/-- The freshest vote a prepared ballot was told of. -/
theorem PreparingOk.proposable (hp : PreparingOk g r s) (hd : Durable g r s) (hr : r ≠ 0)
    (hmem : r ∈ g.members s.configurationNumber) (hnodup : s.responseMap.Nodup)
    (hsize : s.quorumSize - 1 ≤ s.responseMap.length) (hown : s.maxBallot.memberId = r)
    {f : Vote ρ} (hf : s.oldFreshestVote = some f) (hdec : f.decree = s.maxAcceptedVote.decree) :
    Proposable g s f := by
  obtain ⟨p, _, _, _, _, _, _, h5, h6, h7⟩ := hp
  have hmb : s.maxBallot = p.ballot := h5.resolve_right (not_not.mpr hown)
  obtain ⟨hv, hself, hresp⟩ := h7 f hf
  rw [← hmb] at h6 hself hresp
  have hnb : s.maxBallot ≠ ⊥ := by
    intro h
    rw [h] at hown
    exact hr hown.symm
  -- nothing was proposed at the prepared ballot, so no vote has it yet
  have hne : s.maxBallot ≠ s.maxAcceptedVote.ballot := by
    intro h
    rcases hd.vote.rooted with hbot | ⟨d, v, hprop⟩
    · exact hnb (h.trans hbot)
    · rw [← h] at hprop
      exact h6 d v hprop
  have hnext : (s.nextVote f).decree = f.decree := by
    rw [hdec]
    exact if_neg hne
  have hprep : Prepared (g.members s.configurationNumber) (g.first s.configurationNumber)
      (g.hist s.configurationNumber) s.maxBallot f.decree f.ballot := by
    refine ⟨_, hd.isMajority hmem hnodup (fun x hx => ⟨(hresp x hx).1, (hresp x hx).2.1⟩) hsize,
      fun x hx => ?_⟩
    rcases Finset.mem_insert.mp hx with rfl | hx
    · exact hself
    · exact (hresp x (mem_toFinset.mp hx)).2.2
  have hgr := grows_propose (g := g) s.configurationNumber s.maxBallot f.decree f.content
  refine ⟨.inl ⟨by rw [hnext, hdec], lt_of_le_of_ne hd.voteBallot fun h => hne h.symm⟩,
    fun d v hprop => absurd hprop (h6 d v), ⟨f.decree, f.ballot, by rw [hnext], hprep⟩, ?_⟩
  rw [hnext]
  refine ⟨⟨fun hle => ?_, fun hlt => ?_⟩, .inr ⟨_, _, propose_prop_self _ _ _⟩, hv.valid,
    hv.low, hv.init⟩
  · rw [propose, setHist_hist_self]
    exact safe_propose_freshest hprep hle (hv.proper.safe hle)
  · -- the decree before was passed already for the vote accepted last
    have hpassed := hd.vote.proper.passed (by rw [← hdec]; exact hlt)
    rw [← hdec] at hpassed
    exact (hpassed.of_le hd.voteBallot).mono (hgr.hist _)

/-- The replica proposes, logs and accepts a vote. -/
theorem Held.proposed (h : Held initial g r s) (hr : r ≠ 0)
    (hmem : r ∈ g.members s.configurationNumber) (hown : s.maxBallot.memberId = r)
    (hp : Proposable g s vote) :
    ∃ g', g.Grows r g' ∧ Held initial g' r (s.logged (s.nextVote vote)) ∧
      g'.SentVoteOk r (s.nextVote vote) ∧
      ∀ s', SameCore (s.logged (s.nextVote vote)) s' → s'.responseMap = [] →
        (s'.outstandingVote = none →
          ChosenAt (g'.members s.configurationNumber) (g'.hist s.configurationNumber) s.maxBallot
            (s.nextVote vote).decree ∧ vote.reconfiguration = none) → OwnVote g' r s' := by
  set v := s.nextVote vote with hv
  have hd := h.durable
  have hnb : s.maxBallot ≠ ⊥ := by
    intro hbot
    rw [hbot] at hown
    exact hr hown.symm
  have hnext : isNextDecree v.decree v.ballot s.maxAcceptedVote.decree
      s.maxAcceptedVote.ballot := by
    rw [isNextDecree_iff]
    rcases hp.order with ⟨h1, h2⟩ | ⟨h1, h2⟩
    · exact .inl ⟨h1, le_of_lt h2⟩
    · exact .inr ⟨h1, h2⟩
  -- first the proposal, then the log record, then the acceptance
  have h1 : Held initial (g.propose s.configurationNumber s.maxBallot v.decree vote.content) r s :=
    h.propose hown hmem (fun v' hprop => lt_irrefl _ (hp.fresh _ v' hprop)) hp.voteOk
  have hgr1 := grows_propose (g := g) s.configurationNumber s.maxBallot v.decree vote.content
  rw [hown] at hgr1
  set g1 := g.propose s.configurationNumber s.maxBallot v.decree vote.content with hg1
  have h2 := h1.vote_logged (v := v) hnext hp.voteOk hnb rfl
  have hgr2 := g1.grows_raise s.configurationNumber r v.ballot
  set g2 := g1.raise s.configurationNumber r v.ballot with hg2
  obtain ⟨n, hn⟩ := s.logged_eq v
  have hmax : (s.logged v).maxAcceptedVote = v := by rw [hn]
  have hmb : (s.logged v).maxBallot = s.maxBallot := by
    rw [hn]
    exact max_self _
  have hcn : (s.logged v).configurationNumber = s.configurationNumber :=
    (sameVolatile_logged s v).configurationNumber
  have h3 := h2.accept (by rw [hmax, hmb]; rfl)
  have hle : (g2.hist s.configurationNumber).bal r ≤ s.maxBallot := by
    rw [← hcn, h2.durable.bal, hmb]
  have hgr3 := grows_accept v.decree hle
  rw [hmax, hmb, hcn] at h3
  set g3 := g2.accept s.configurationNumber r s.maxBallot v.decree with hg3
  have hgr : g.Grows r g3 := (hgr1.trans hgr2).trans hgr3
  have hprop : (g3.hist s.configurationNumber).prop s.maxBallot v.decree v.content :=
    ((hgr2.trans hgr3).hist _).prop (propose_prop_self _ _ _)
  have hacc : (g3.hist s.configurationNumber).acc r s.maxBallot v.decree :=
    accept_acc_self _ _
  refine ⟨g3, hgr, h3, ⟨hown.symm, hnb, hd.pos, hd.top, ?_, hprop, ?_⟩, ?_⟩
  · exact hd.memberId.trans hown.symm
  · show (g3.hist s.configurationNumber).acc s.memberId s.maxBallot v.decree
    rw [hd.memberId]
    exact hacc
  · intro s' hs hresp hchosen
    have hcn' : s'.configurationNumber = s.configurationNumber := hs.configurationNumber.trans hcn
    have hmax' := hs.maxAcceptedVote.trans hmax
    have hmb' := hs.maxBallot.trans hmb
    have hlast : ∀ d w, (g3.hist s.configurationNumber).prop s.maxBallot d w → d ≤ v.decree := by
      intro d w hw
      have hw1 := quiet_raise g1 _ _ _ _ _ _ _ (quiet_accept g2 _ _ _ _ _ _ _ _ hw)
      rw [hg1, Ghost.propose, Ghost.setHist_hist_self] at hw1
      rcases hw1 with hw1 | ⟨_, rfl, _⟩
      · exact (hp.fresh d w hw1).le
      · exact le_rfl
    obtain ⟨dp, bf, hdp, hprep⟩ := hp.prepared
    refine ⟨?_, ?_, ?_, ?_, ?_, ?_, ?_, ?_, ⟨dp, bf, ?_⟩, ?_, ?_, fun hout => ?_⟩ <;>
      simp only [hcn', hmax', hmb', hresp]
    · rw [hgr.members_eq hd.pos hd.top]; exact hmem
    · exact hown
    · rfl
    · exact bot_lt_iff_ne_bot.mpr hnb
    · rfl
    · exact hd.memberId
    · exact hprop
    · exact hlast
    · rw [hgr.members_eq hd.pos hd.top, hgr.first_eq hd.pos hd.top]
      exact ⟨hdp, hprep.mono (hgr.hist _)⟩
    · exact hacc
    · intro x hx
      exact absurd hx not_mem_nil
    · exact hchosen hout

/-! ## Configurations -/

/-- Where `StartInitializing` ends when it starts in `s`. Unless the max accepted vote closes the
configuration, either the replica is alone or it only waits for answers. -/
structure Settled (s : Legislator ρ) (r : Nat) (g' : Ghost ρ) (s' : Legislator ρ) : Prop where
  volatile : Volatile g' r s'
  later : s.configurationNumber ≤ s'.configurationNumber
  placed : s.maxAcceptedVote.reconfiguration = none →
    s'.paxosConfiguration = s.paxosConfiguration ∧
      (s'.quorumSize = 1 ∨ s'.state ≠ .stablePrimary ∧ s'.maxAcceptedVote = s.maxAcceptedVote)

/-- Where a replica is after a decision on the max accepted vote of `s` was carried out. -/
structure Moved (s : Legislator ρ) (r : Nat) (g' : Ghost ρ) (s' : Legislator ρ) : Prop where
  volatile : Volatile g' r s'
  configuration : s'.configurationNumber = s.configurationNumber + 1
  placed : s'.quorumSize = 1 ∨ s'.state ≠ .stablePrimary ∧
    s'.maxAcceptedVote.decree = s.maxAcceptedVote.decree + 1 ∧ s'.maxAcceptedVote.ballot = ⊥

/-- What the functions of the cycle assume of `StartInitializing`. -/
def InitRuns (initial : List Nat) (r : Nat) (startInit : Act (Legislator ρ) Unit) : Prop :=
  ∀ g s, Held initial g r s → Ready g s → Runs initial g r s startInit fun _ => Settled s r

variable {startInit : Act (Legislator ρ) Unit} {o : Oracle ρ}

theorem changePaxosConfiguration_runs {i : ConfigurationInfo} (h : Held initial g r (s.install i))
    (hinit : InitRuns initial r startInit) (hnodup : s.responseMap.Nodup) :
    Runs initial g r s (changePaxosConfiguration startInit i) fun _ => Settled (s.install i) r := by
  unfold changePaxosConfiguration
  refine modify_bind (get_bind (ite (fun hmem => ?_) fun _ => ?_))
  · exact hinit g _ h ⟨ne_nil_of_mem hmem, fun e he => absurd he not_mem_nil⟩
  · have hcache : ∀ e ∈ (s.install i).voteCache, g.SentVoteOk e.1 e.2 :=
      fun e he => absurd he not_mem_nil
    unfold switchToPaxosInactiveState
    by_cases hst : s.state = .paxosInactive
    · have hst' : (s.install i).state = .paxosInactive := hst
      have hne :
          (s.install i).state ≠ .stablePrimary := by rw [hst']; exact LegislatorState.noConfusion
      refine modify (by rw [if_pos hst']; exact h) ?_
      rw [if_pos hst']
      exact ⟨⟨fun hs => absurd hst' hs, hcache, hnodup,
        fun hs => absurd (hst'.symm.trans hs) LegislatorState.noConfusion, fun hs => absurd hs hne⟩,
        le_rfl, fun _ => ⟨rfl, .inr ⟨hne, rfl⟩⟩⟩
    · have hst' : ¬ (s.install i).state = .paxosInactive := hst
      refine modify ?_ ?_
      · rw [if_neg hst']
        exact h.keep ⟨rfl, rfl, rfl, rfl, rfl⟩ rfl rfl rfl rfl
      · rw [if_neg hst']
        exact ⟨⟨fun hs => absurd rfl hs, hcache, nodup_nil,
          fun hs => LegislatorState.noConfusion hs, fun hs => LegislatorState.noConfusion hs⟩,
          le_rfl, fun _ => ⟨rfl, .inr ⟨LegislatorState.noConfusion, rfl⟩⟩⟩

/-- `AddToExecutionQueue` changes nothing or passes the vote; it aborts without a change. -/
theorem addToExecutionQueue_sat (v : Vote ρ) :
    (addToExecutionQueue o v).Sat s
      (fun _ s' => s' = s ∨
        s' = { s with lastPassedDecree := v.decree, passed := s.passed ++ [v] })
      (fun s' => s' = s) := by
  unfold addToExecutionQueue
  refine Act.Sat.get_bind (Act.Sat.ite (fun _ => Act.Sat.pure (.inl rfl)) fun _ =>
    Act.Sat.assert_bind (fun _ => Act.Sat.modify (.inr rfl)) rfl)

section

variable (h : Held initial g r s) (hinit : InitRuns initial r startInit)
  (hnodup : s.responseMap.Nodup)

include h hinit hnodup

/-- The decision is logged, the vote it decides is passed and its configuration installed, unless
the decision is about another vote. -/
theorem logReconfigurationDecision_runs {m : Header}
    (hok : m.configurationNumber = s.configurationNumber →
      g.DecisionOk s.configurationNumber m.ballot m.decree) :
    Runs initial g r s (logReconfigurationDecision startInit o m) fun _ g' s' =>
      (m.decree ≠ s.maxAcceptedVote.decree ∨ m.ballot ≠ s.maxAcceptedVote.ballot) ∧
        g' = g ∧ s' = s ∨ Moved s r g' s' := by
  unfold logReconfigurationDecision
  refine get_bind (ite (fun hne => pure h (.inl ⟨hne, rfl, rfl⟩)) fun heq =>
    assert_bind h fun hc => ?_)
  have hd := h.durable
  have hc' := of_decide_eq_true hc
  rw [not_or, not_not, not_not] at heq
  cases hms : s.maxAcceptedVote.reconfiguration with
  | none => exact abort h
  | some ms =>
    have hdec := hok hc'
    have hchosen := h.inv.chosen_of_decision hdec (by rw [heq.1, heq.2]; exact hd.vote)
    obtain ⟨g', hgr, h'⟩ := h.decided hdec hc' heq.1 heq.2 hms
    have hcfg := hd.voteConfiguration (by rw [← heq.2]; exact ne_bot_of_gt hdec.1)
    have hexec : g'.ExecOk s.maxAcceptedVote := by
      refine ExecOk.mono hgr ⟨?_, ?_, fun _ => ?_, fun hlt => ?_⟩ <;>
        simp only [hcfg] at *
      · exact hd.pos
      · exact hd.top
      · rw [← heq.1]; exact hchosen.1
      · exact hd.vote.low hlt
    refine grow hgr (modify_bind (Act.Sat.bind (Act.Sat.mono
      (addToExecutionQueue_sat s.maxAcceptedVote) (fun _ _ => id) ?_) ?_))
    · -- the log has the decision although its configuration was not installed
      rintro _ rfl
      exact ⟨g', { s.decided m ms with installed := s.installed }, Grows.refl r g',
        ⟨h'.inv, h'.durable.frame ⟨rfl, rfl, rfl, rfl, rfl⟩ h'.durable.passed h'.durable.outbox
          h'.durable.proposed fun i hi => h'.durable.installed i (mem_append_left _ hi)⟩,
        rfl, rfl, rfl, rfl, rfl⟩
    · intro _ s₁ hs₁
      have key : Held initial g' r (s₁.install
          ⟨s.configurationNumber + 1, s.maxAcceptedVote.decree + 1, ms⟩) ∧
          s₁.responseMap.Nodup ∧ s₁.memberId = s.memberId := by
        rcases hs₁ with rfl | rfl
        · exact ⟨h', hnodup, rfl⟩
        · refine ⟨⟨h'.inv, h'.durable.frame ⟨rfl, rfl, rfl, rfl, rfl⟩ ?_
            h'.durable.outbox h'.durable.proposed h'.durable.installed⟩, hnodup, rfl⟩
          exact forall_mem_append.mpr
            ⟨h'.durable.passed, forall_mem_singleton.mpr hexec⟩
      refine (changePaxosConfiguration_runs key.1 hinit key.2.1).mono ?_
      intro _ g₂ s₂ _ _ hsettled
      obtain ⟨hpc, hpl⟩ := hsettled.placed rfl
      refine .inr ⟨hsettled.volatile, ?_, hpl.imp id fun ⟨h1, h2⟩ => ⟨h1, ?_, ?_⟩⟩
      · exact congrArg ConfigurationInfo.configurationNumber hpc
      · rw [h2]; rfl
      · rw [h2]; rfl

theorem sendAndLogReconfigurationDecision_runs
    (hok : g.DecisionOk s.configurationNumber s.maxAcceptedVote.ballot s.maxAcceptedVote.decree) :
    Runs initial g r s (sendAndLogReconfigurationDecision startInit o s.maxAcceptedVote.decree
      s.maxAcceptedVote.ballot) fun _ => Moved s r := by
  unfold sendAndLogReconfigurationDecision
  refine get_bind (modify_bind ?_)
  have hd := h.durable
  have hsent := hd.sendRequestToAll (.message ⟨s.header s.maxAcceptedVote.decree
    s.maxAcceptedVote.ballot, .reconfigurationDecision⟩) fun _ => ⟨hd.pos, hd.top, hok⟩
  refine (logReconfigurationDecision_runs (m := s.header s.maxAcceptedVote.decree
    s.maxAcceptedVote.ballot) ⟨h.inv, hsent⟩ hinit hnodup fun _ => hok).mono ?_
  rintro _ g' s' _ _ (⟨hne, _⟩ | hm)
  · rcases hne with hne | hne
    · exact absurd rfl hne
    · exact absurd rfl hne
  · exact ⟨hm.volatile, hm.configuration, hm.placed⟩

end

/-! ## The cycle -/

theorem sameCore_logged (hs : SameCore s s') (v : Vote ρ) :
    SameCore (s.logged v) (s'.logged v) := by
  obtain ⟨n, hn⟩ := s.logged_eq v
  obtain ⟨n', hn'⟩ := s'.logged_eq v
  rw [hn, hn']
  exact ⟨hs.memberId, hs.paxosConfiguration, rfl, by rw [hs.maxBallot], by rw [hs.log]⟩

/-- A replica that is alone has its own vote chosen. -/
theorem Durable.chosenAt_of_alone (hd : Durable g r s)
    (hmem : r ∈ g.members s.configurationNumber) (hsize : ¬ 1 < s.quorumSize) {b : BallotNumber}
    {d : Nat} (hacc : (g.hist s.configurationNumber).acc r b d) :
    ChosenAt (g.members s.configurationNumber) (g.hist s.configurationNumber) b d := by
  have hmaj := hd.isMajority hmem nodup_nil (fun x hx => absurd hx not_mem_nil)
    (by simp only [length_nil]; omega)
  refine ⟨_, hmaj, fun x hx => ?_⟩
  rcases Finset.mem_insert.mp hx with rfl | hx
  · exact hacc
  · exact absurd (mem_toFinset.mp hx) not_mem_nil

/-- The state in which `SendNextVote` logs its vote `v`, when it started in `s`. -/
structure Draft (s : Legislator ρ) (v : Vote ρ) (s₁ : Legislator ρ) : Prop where
  core : SameCore s s₁
  state : s₁.state = s.state
  voteCache : s₁.voteCache = s.voteCache
  responseMap : s₁.responseMap = []
  passed : s₁.passed = s.passed
  outbox : s₁.outbox = s.outbox
  proposed : s₁.proposed = s.proposed ++ [v]
  installed : s₁.installed = s.installed

/-- The state after `SendNextVote` has logged its vote `v` in `s₁`. -/
structure ProposalLogged (s₁ : Legislator ρ) (v : Vote ρ) (r : Nat) (g' : Ghost ρ)
    (s' : Legislator ρ) : Prop where
  ready : Ready g' s'
  member : r ∈ g'.members s'.configurationNumber
  sent : g'.SentVoteOk r v
  same : SameVolatile s₁ s'
  max : s'.maxAcceptedVote = v
  configuration : v.configurationNumber = s'.configurationNumber
  own : (s'.outstandingVote = none →
    ChosenAt (g'.members s'.configurationNumber) (g'.hist s'.configurationNumber)
      v.ballot v.decree ∧
      v.reconfiguration = none) → OwnVote g' r s'

theorem Draft.logVote_runs (hr : r ≠ 0) (h : Held initial g r s) (hready : Ready g s)
    (hmem : r ∈ g.members s.configurationNumber) (hown : s.maxBallot.memberId = r)
    (hp : Proposable g s vote) {s₁ : Legislator ρ} (hs : Draft s (s.nextVote vote) s₁ :=
      by exact ⟨⟨rfl, rfl, rfl, rfl, rfl⟩, rfl, rfl, rfl, rfl, rfl, rfl, rfl⟩) :
    Runs initial g r s₁ (logVote (s.nextVote vote)) fun _ =>
      ProposalLogged s₁ (s.nextVote vote) r := by
  obtain ⟨g', hgr, h', hsent, howner⟩ := h.proposed hr hmem hown hp
  have hready' := hready.mono hgr
  have hd' := h'.durable
  set v := s.nextVote vote with hv
  have hcore := sameCore_logged hs.core v
  have hsame := sameVolatile_logged s₁ v
  have hcn : (s₁.logged v).configurationNumber = s.configurationNumber :=
    hsame.configurationNumber.trans hs.core.configurationNumber
  obtain ⟨hb1, hb2, hb3, hb4⟩ := s.logged_buffers v
  obtain ⟨hc1, hc2, hc3, hc4⟩ := s₁.logged_buffers v
  have horder : isNextDecree v.decree v.ballot s₁.maxAcceptedVote.decree
      s₁.maxAcceptedVote.ballot ∧ (s₁.maxAcceptedVote.decree ≠ v.decree ∨
        s₁.maxAcceptedVote.ballot ≠ v.ballot) := by
    rw [isNextDecree_iff, hs.core.maxAcceptedVote]
    rcases hp.order with ⟨h1, h2⟩ | ⟨h1, h2⟩
    · exact ⟨.inl ⟨h1, le_of_lt h2⟩, .inr (ne_of_lt h2)⟩
    · refine ⟨.inr ⟨h1, h2⟩, .inl ?_⟩
      rw [← hv] at h1
      omega
  refine logVote_next horder.1 horder.2
    ⟨g', hgr, ⟨h'.inv, hd'.frame hcore ?_ ?_ ?_ ?_⟩, ⟨?_, ?_⟩, ?_,
    hsent, hsame, ?_, hcn.symm, fun hch => ?_⟩
  · rw [hc1, hs.passed, ← hb1]; exact hd'.passed
  · rw [hc2, hs.outbox, ← hb2]; exact hd'.outbox
  · rw [hc3, hs.proposed, ← hb3]
    exact forall_mem_append.mpr ⟨hd'.proposed, forall_mem_singleton.mpr hsent.2⟩
  · rw [hc4, hs.installed, ← hb4]; exact hd'.installed
  · rw [hsame.paxosConfiguration, hs.core.paxosConfiguration]; exact hready'.nonempty
  · rw [hsame.voteCache, hs.voteCache]; exact hready'.cache
  · rw [hcn, hgr.members_eq h.durable.pos h.durable.top]; exact hmem
  · obtain ⟨n, hn⟩ := s₁.logged_eq v
    rw [hn]
  · refine howner _ hcore (hsame.responseMap.trans hs.responseMap) fun hout => ?_
    rw [hcn] at hch
    exact hch hout

section Alone

variable {s₁ : Legislator ρ} {v : Vote ρ}

theorem SameVolatile.quorumSize (h : SameVolatile s s') : s'.quorumSize = s.quorumSize := by
  unfold Legislator.quorumSize
  rw [h.replicas]

section

variable (hl : ProposalLogged s₁ v r g' s')

include hl

theorem ProposalLogged.chosenAt (h : Held initial g' r s') (hsize : ¬ 1 < s'.quorumSize) :
    ChosenAt (g'.members s'.configurationNumber) (g'.hist s'.configurationNumber) v.ballot
      v.decree := by
  refine h.durable.chosenAt_of_alone hl.member hsize ?_
  obtain ⟨hsrc, _, _, _, hm, _, hacc⟩ := hl.sent
  rw [← hl.configuration, hsrc, ← hm]
  exact hacc

theorem ProposalLogged.prop :
    (g'.hist s'.configurationNumber).prop v.ballot v.decree v.content := by
  rw [← hl.configuration]
  exact hl.sent.2.2.2.2.2.1

theorem ProposalLogged.execOk (h : Held initial g' r s')
    (hch : ChosenAt (g'.members s'.configurationNumber) (g'.hist s'.configurationNumber) v.ballot
      v.decree) : g'.ExecOk v := by
  have hlow := (h.inv.voteOk _ hl.prop).low
  have hchosen : g'.ChosenIn s'.configurationNumber v.decree v.content :=
    ⟨v.ballot, bot_lt_iff_ne_bot.mpr hl.sent.2.1, hch, hl.prop⟩
  rw [← hl.configuration] at hlow hchosen
  exact ⟨hl.sent.2.2.1, hl.sent.2.2.2.1, fun _ => hchosen, hlow⟩

theorem ProposalLogged.decisionOk (h : Held initial g' r s')
    (hsize : ¬ 1 < s'.quorumSize) (hrec : v.isReconfiguration = true) :
    g'.DecisionOk s'.configurationNumber s'.maxAcceptedVote.ballot s'.maxAcceptedVote.decree := by
  have hfinal : v.content.Final := Option.isSome_iff_ne_none.mp hrec
  rw [hl.max]
  refine ⟨bot_lt_iff_ne_bot.mpr hl.sent.2.1, ?_, hl.chosenAt h hsize, v.content, hl.prop, hfinal⟩
  by_contra hlt
  exact hfinal (congrArg Content.reconfiguration ((h.inv.voteOk _ hl.prop).low (not_le.mp hlt)))

end

end Alone

/-- Where `SendNextVote` ends. Only a configuration change can leave the configuration. -/
structure Sent (s : Legislator ρ) (vote : Vote ρ) (r : Nat) (g' : Ghost ρ) (s' : Legislator ρ) :
    Prop where
  volatile : Volatile g' r s'
  later : s.configurationNumber ≤ s'.configurationNumber
  same : vote.reconfiguration = none → s'.paxosConfiguration = s.paxosConfiguration

/-- A primary whose vote is outstanding or decided. -/
theorem OwnVote.volatile (ho : OwnVote g r s) (hready : Ready g s) (hresp : s.responseMap = [])
    (hstate : s.state = .stablePrimary) : Volatile g r s :=
  ⟨fun _ => hready.nonempty, hready.cache, by rw [hresp]; exact nodup_nil,
    fun hs => LegislatorState.noConfusion (hstate.symm.trans hs), fun _ => .inr ho⟩

theorem sendNextVote_runs (hr : r ≠ 0) (h : Held initial g r s) (hready : Ready g s)
    (hinit : InitRuns initial r startInit) (hstate : s.state = .stablePrimary) (vote : Vote ρ)
    (hp : s.relinquishPrimary = false →
      r ∈ g.members s.configurationNumber ∧ Proposable g s vote) :
    Runs initial g r s (sendNextVote startInit o vote) fun _ => Sent s vote r := by
  have hd := h.durable
  have hcleared : Held initial g r { s with responseMap := [] } :=
    h.keep ⟨rfl, rfl, rfl, rfl, rfl⟩ rfl rfl rfl rfl
  unfold sendNextVote
  refine get_bind (assert_bind h fun hown => assert_bind h fun hout =>
    modify_bind (assert_bind hcleared fun _ => ?_))
  have hown' : s.maxBallot.memberId = r := (of_decide_eq_true hown).trans hd.memberId
  have hout' : s.outstandingVote = none := Option.isNone_iff_eq_none.mp hout
  by_cases hrel : s.relinquishPrimary = true
  · rw [if_pos hrel]
    refine pure hcleared ⟨⟨fun _ => hready.nonempty, hready.cache, nodup_nil, fun hs => ?_,
        fun _ => .inl ⟨hrel, hout'⟩⟩, le_rfl, fun _ => rfl⟩
    exact absurd (hstate.symm.trans hs) LegislatorState.noConfusion
  rw [if_neg hrel]
  obtain ⟨hmem, hp⟩ := hp (Bool.eq_false_iff.mpr hrel)
  refine modify_bind (ite (fun _ => modify_bind ?_) fun hsize =>
    ite (fun hrec => ?_) fun hrec => ?_)
  · -- the vote goes to the other replicas
    refine bind (Draft.logVote_runs hr h hready hmem hown' hp) ?_
    intro _ g' s' _ h' hl
    have ho := hl.own fun hno =>
      absurd (hl.same.outstandingVote.symm.trans hno) (Option.some_ne_none _)
    have hv : Volatile g' r s' := ho.volatile hl.ready hl.same.responseMap
      (hl.same.state.trans hstate)
    refine modify ⟨h'.inv, h'.durable.sendRequestToAll _ fun _ => ?_⟩
      ⟨hv.keep ⟨rfl, rfl, rfl, rfl, rfl, rfl, rfl, rfl, rfl⟩ rfl rfl,
       hl.same.configurationNumber.symm.le, fun _ => hl.same.paxosConfiguration⟩
    show g'.SentVoteOk s'.memberId _
    rw [h'.durable.memberId]
    exact hl.sent
  · -- alone, and the vote closes the configuration
    refine bind (Draft.logVote_runs hr h hready hmem hown' hp) ?_
    intro _ g' s' _ h' hl
    have hmove := sendAndLogReconfigurationDecision_runs (o := o) h' hinit
      (by rw [hl.same.responseMap]; exact nodup_nil)
      (hl.decisionOk h' (by rw [hl.same.quorumSize]; exact hsize) hrec)
    rw [hl.max] at hmove
    refine hmove.mono fun _ g₂ s₂ _ _ hm => ⟨hm.volatile, ?_, fun hnone => ?_⟩
    · rw [hm.configuration, hl.same.configurationNumber]
      exact Nat.le_succ _
    · have hsome : vote.reconfiguration.isSome = true := hrec
      rw [hnone] at hsome
      exact absurd hsome (by decide)
  · -- alone, and the vote is passed at once
    refine bind (Draft.logVote_runs hr h hready hmem hown' hp) ?_
    intro _ g' s' _ h' hl
    have hnone : (s.nextVote vote).reconfiguration = none := by
      simpa [Vote.isReconfiguration] using hrec
    have hch := hl.chosenAt h' (by rw [hl.same.quorumSize]; exact hsize)
    have ho := hl.own fun _ => ⟨hch, hnone⟩
    have hv : Volatile g' r s' := ho.volatile hl.ready hl.same.responseMap
      (hl.same.state.trans hstate)
    refine (addToExecutionQueue_runs o h' (hl.execOk h' hch)).mono ?_
    rintro _ g₂ s₂ _ _ ⟨rfl, hcore, hsame⟩
    exact ⟨hv.keep hsame hcore.maxAcceptedVote hcore.maxBallot,
      le_of_eq (hsame.configurationNumber.trans hl.same.configurationNumber).symm,
      fun _ => hsame.paxosConfiguration.trans hl.same.paxosConfiguration⟩

/-- A replica whose ballot a quorum has promised proposes the freshest vote. -/
theorem startBeingStablePrimary_runs (hr : r ≠ 0) (h : Held initial g r s) (hready : Ready g s)
    (hmem : r ∈ g.members s.configurationNumber) (hinit : InitRuns initial r startInit)
    (hprep : PreparingOk g r s)
    (hnodup : s.responseMap.Nodup) (hsize : s.quorumSize - 1 ≤ s.responseMap.length)
    (hdec : ∀ f, s.oldFreshestVote = some f → f.decree = s.maxAcceptedVote.decree) :
    Runs initial g r s (startBeingStablePrimary startInit o) fun _ g' s' =>
      Volatile g' r s' ∧ s.configurationNumber ≤ s'.configurationNumber ∧
        ∀ f, s.oldFreshestVote = some f → f.reconfiguration = none →
          s'.paxosConfiguration = s.paxosConfiguration := by
  have hd := h.durable
  unfold startBeingStablePrimary
  refine get_bind (assert_bind h fun hassert => modify_bind ?_)
  have hown : s.maxBallot.memberId = r := by
    simp only [Bool.and_eq_true, decide_eq_true_eq] at hassert
    exact hassert.2.trans hd.memberId
  have h' : Held initial g r { s with
      forceReelection := false, state := .stablePrimary, outstandingVote := none
      responseMap := [] } := h.keep ⟨rfl, rfl, rfl, rfl, rfl⟩ rfl rfl rfl rfl
  split
  · exact abort h'
  · next f hf =>
      have hp := hprep.proposable hd hr hmem hnodup hsize hown hf (hdec f hf)
      refine (sendNextVote_runs hr h' ⟨hready.nonempty, hready.cache⟩ hinit rfl f.copy
        fun _ => ⟨hmem, hp.order, hp.fresh, hp.prepared, hp.voteOk⟩).bind ?_
      intro _ g' s' _ hh hs
      have hv := hs.volatile
      refine modify (hh.keep ⟨rfl, rfl, rfl, rfl, rfl⟩ rfl rfl rfl rfl)
        ⟨⟨hv.nonempty, hv.cache, hv.nodup, fun hst => ?_, fun hst => ?_⟩, hs.later, ?_⟩
      · obtain ⟨p, h1, h2, hid, h3, hi, h4, h5, h6, _⟩ := hv.preparing hst
        exact ⟨p, h1, h2, hid, h3, hi, h4, h5, h6, fun f hf =>
          absurd hf.symm (Option.some_ne_none f)⟩
      · exact (hv.primary hst).imp id fun ho => ho.congr rfl rfl rfl rfl rfl
      · rintro f' hf' hnone
        cases hf.symm.trans hf'
        exact hs.same hnone

/-- The ballot of `StartPreparing` is new, above the promise, and owned by the replica. -/
theorem newBallot_spec (hstate : s.state = .initializing) :
    s.maxBallot < s.newBallot ∧ s.newBallot.memberId = s.memberId := by
  unfold Legislator.newBallot
  simp only [if_pos hstate]
  split
  · next hlt =>
    rw [BallotNumber.lt_iff] at hlt ⊢
    simp only at hlt ⊢
    exact ⟨.inl (by omega), trivial⟩
  · refine ⟨?_, rfl⟩
    rw [BallotNumber.lt_iff]
    exact Or.inl (Nat.lt_succ_self _)

variable {m : Header}

theorem logPrepare_next {Q : Unit → Legislator ρ → Prop} {E : Legislator ρ → Prop}
    (hlt : s.maxBallot < m.ballot) (h : Q () (s.promised m)) : (logPrepare m).Sat s Q E := by
  unfold logPrepare
  refine Act.Sat.get_bind ?_
  rw [decide_eq_true (le_of_lt hlt)]
  refine Act.Sat.ite (fun heq => absurd heq.symm (ne_of_lt hlt)) fun _ => h

theorem logPrepare_next_bind {k : Unit → Act (Legislator ρ) Unit}
    {Q : Unit → Legislator ρ → Prop} {E : Legislator ρ → Prop} (hlt : s.maxBallot < m.ballot)
    (h : (k ()).Sat (s.promised m) Q E) : (logPrepare m >>= k).Sat s Q E := by
  refine Act.Sat.bind (logPrepare_next (Q := fun _ s' => s' = s.promised m) hlt rfl) ?_
  rintro _ _ rfl
  exact h

/-- A replica promises a ballot of its own. -/
theorem Held.prepared (h : Held initial g r s)
    (hent : 2 ≤ s.configurationNumber →
      r ∈ g.members s.configurationNumber ∨ g.Entered s.configurationNumber)
        (hc : m.configurationNumber = s.configurationNumber)
    (hdec : m.decree = s.maxAcceptedVote.decree) (hlt : s.maxBallot < m.ballot)
    (hown : m.ballot.memberId = r) :
    (g.raise s.configurationNumber r m.ballot).Issued s.configurationNumber m.ballot ∧
      Held initial (g.raise s.configurationNumber r m.ballot) r (s.promised m) := by
  have hd := h.durable
  have hbal : ((g.raise s.configurationNumber r m.ballot).hist s.configurationNumber).bal r =
      m.ballot := by
    rw [raise_bal_self, hd.bal]
    exact max_eq_right (le_of_lt hlt)
  have hissued : (g.raise s.configurationNumber r m.ballot).Issued s.configurationNumber
      m.ballot := by
    refine ⟨.inr (by rw [hown, hbal]), fun h2 => ?_⟩
    rcases hent h2 with hmem | hent
    · exact ⟨hd.pos, hd.top, r, hmem, by rw [hbal]; exact ne_bot_of_gt hlt⟩
    · exact hent.mono (g.grows_raise _ r _)
  exact ⟨hissued, h.prepare_logged hc hdec.symm.le hlt hissued⟩

/-- What a replica has collected when it has just promised a ballot of its own. -/
theorem Held.preparingOk (h : Held initial g r s)
    (hid : m.memberId = r) (hc : m.configurationNumber = s.configurationNumber)
    (hlt : s.maxBallot < m.ballot) (hown : m.ballot.memberId = r)
    (hi : (g.raise s.configurationNumber r m.ballot).Issued s.configurationNumber m.ballot)
    (hcn : s'.configurationNumber = s.configurationNumber)
    (hmb : s'.maxBallot = m.ballot) (hlast : s'.lastPrepareMsg = some m)
    (hresp : s'.responseMap = []) (hold : s'.oldFreshestVote = some s.maxAcceptedVote) :
    PreparingOk (g.raise s.configurationNumber r m.ballot) r s' := by
  have hd := h.durable
  have hgr := g.grows_raise s.configurationNumber r m.ballot
  refine ⟨m, hlast, by rw [hcn, hc], hid, hown, by rw [hcn]; exact hi, by rw [hmb], .inl hmb, ?_,
    fun f hf => ?_⟩
  · intro d v hp
    have hle := h.inv.issued _ (quiet_raise g _ _ _ _ _ _ _ hp)
    rw [hown, hcn, hd.bal] at hle
    exact absurd hlt (not_lt.mpr hle)
  · cases hold.symm.trans hf
    rw [hcn, hresp]
    refine ⟨hd.vote.mono hgr hd.pos hd.top, ⟨_, _, ⟨?_, ?_⟩, .inr ⟨rfl, le_refl _⟩⟩,
      fun x hx => absurd hx not_mem_nil⟩
    · rw [raise_bal_self]
      exact le_max_right _ _
    · intro b d _ hf hacc
      rw [raise, setHist_hist_self] at hacc
      exact hd.accepted b d hf hacc

section Preparing

variable (hr : r ≠ 0) (h : Held initial g r s) (hready : Ready g s)
    (hent : 2 ≤ s.configurationNumber →
      r ∈ g.members s.configurationNumber ∨ g.Entered s.configurationNumber)
    (hinit : InitRuns initial r startInit) (hstate : s.state = .initializing)

include hr h hready hent hinit hstate

theorem startPreparing_runs :
    Runs initial g r s (startPreparing startInit o) fun _ => Sent s s.maxAcceptedVote r := by
  have hd := h.durable
  obtain ⟨hlt, hown⟩ := newBallot_spec hstate
  rw [hd.memberId] at hown
  unfold startPreparing
  refine get_bind (assert_bind h fun _ => modify_bind ?_)
  set m := s.header s.maxAcceptedVote.decree s.newBallot with hm
  have h₁ : Held initial g r { s with
      state := .preparing, responseMap := [], oldFreshestVote := some s.maxAcceptedVote
      lastPrepareMsg := some m } := h.keep ⟨rfl, rfl, rfl, rfl, rfl⟩ rfl rfl rfl rfl
  obtain ⟨hissued, h₂⟩ := h₁.prepared hent (m := m) rfl rfl hlt hown
  have hgr := g.grows_raise s.configurationNumber r m.ballot
  have hready' := hready.mono hgr
  have hmb : max s.maxBallot m.ballot = m.ballot := max_eq_right (le_of_lt hlt)
  refine ite (fun hsize => ?_) fun _ => modify_bind ?_
  · refine grow hgr (logPrepare_next_bind hlt ?_)
    have hsame := sameVolatile_promised { s with
      state := .preparing, responseMap := [], oldFreshestVote := some s.maxAcceptedVote
      lastPrepareMsg := some m } m
    rw [promised_eq] at h₂ hsame ⊢
    have hprep := h.preparingOk (m := m) hd.memberId rfl hlt hown hissued hsame.configurationNumber
      hmb rfl rfl rfl
    have hmem : r ∈ (g.raise s.configurationNumber r m.ballot).members s.configurationNumber := by
      rw [hgr.members_eq hd.pos hd.top, hd.alone hready.nonempty hsize]
      exact Finset.mem_singleton_self r
    refine (startBeingStablePrimary_runs hr h₂ ⟨hready'.nonempty, hready'.cache⟩ hmem hinit hprep
      nodup_nil ?_ ?_).mono ?_
    · have : s.quorumSize - 1 ≤ 0 := by omega
      exact this
    · rintro f hf
      cases hf
      rfl
    · rintro _ g' s' _ _ ⟨hv, hle, hsm⟩
      exact ⟨hv, hle, fun hnone => hsm _ rfl hnone⟩
  · refine grow hgr (logPrepare_next hlt ⟨_, Grows.refl _ _, ?_, ?_⟩)
    · rw [promised_eq] at h₂ ⊢
      refine ⟨h₂.inv, h₂.durable.frame ⟨rfl, rfl, rfl, rfl, rfl⟩ h₂.durable.passed
        (fun p hp => ?_) h₂.durable.proposed h₂.durable.installed⟩
      rcases mem_append.mp hp with hp | hp
      · exact h₂.durable.outbox p hp
      · obtain ⟨dst, _, rfl⟩ := mem_map.mp hp
        exact ⟨hissued, hd.memberId.trans hown.symm⟩
    · rw [promised_eq]
      exact ⟨⟨fun _ => hready'.nonempty, hready'.cache, nodup_nil,
        fun _ => h.preparingOk (m := m) hd.memberId rfl hlt hown hissued rfl hmb rfl rfl rfl,
        fun hs => LegislatorState.noConfusion hs⟩, le_rfl, fun _ => rfl⟩

theorem moveToSecondaryOrPrepare_runs :
    Runs initial g r s (moveToSecondaryOrPrepare startInit o) fun _ =>
      Sent s s.maxAcceptedVote r := by
  unfold moveToSecondaryOrPrepare
  refine get_bind (ite (fun _ => startPreparing_runs hr h hready hent hinit hstate)
    fun _ => ?_)
  refine modify (h.keep ⟨rfl, rfl, rfl, rfl, rfl⟩ rfl rfl rfl rfl)
    ⟨⟨fun _ => hready.nonempty, hready.cache, nodup_nil, fun hs => LegislatorState.noConfusion hs,
      fun hs => LegislatorState.noConfusion hs⟩, le_rfl, fun _ => rfl⟩

end Preparing

/-- However deep it is nested, `StartInitializing` ends as the functions it calls assume. -/
theorem startInitializingNested_runs (hr : r ≠ 0) (n : Nat) :
    ∀ o : Oracle ρ, InitRuns initial r (startInitializingNested o n) := by
  induction n with
  | zero => exact fun o g s h _ => abort h
  | succ n ih =>
    intro o g s h hready
    have hd := h.durable
    have h' : Held initial g r { s with
        state := .initializing, responseMap := [], statusMap := [] } :=
          h.keep ⟨rfl, rfl, rfl, rfl, rfl⟩ rfl rfl rfl rfl
    have hready' : Ready g { s with
        state := .initializing, responseMap := [], statusMap := [] } :=
      ⟨hready.nonempty, hready.cache⟩
    refine modify_bind (get_bind (ite (fun hsize => ?_) fun _ => ?_))
    · have hmem : r ∈ g.members s.configurationNumber := by
        rw [hd.alone hready.nonempty hsize]
        exact Finset.mem_singleton_self r
      refine (moveToSecondaryOrPrepare_runs hr h' hready' (fun _ => .inl hmem) (ih o) rfl).mono ?_
      rintro _ g' s' _ hh ⟨hv, hle, hsame⟩
      refine ⟨hv, hle, fun hnone => ⟨hsame hnone, .inl ?_⟩⟩
      have hsize' : s.quorumSize = 1 := hsize
      unfold Legislator.quorumSize Legislator.replicas at hsize' ⊢
      rw [hsame hnone, hh.durable.memberId]
      rw [hd.memberId] at hsize'
      exact hsize'
    · refine modify ⟨h'.inv, h'.durable.sendRequestToAll _ fun _ => trivial⟩ ?_
      exact ⟨⟨fun _ => hready.nonempty, hready.cache, nodup_nil,
        fun hs => LegislatorState.noConfusion hs, fun hs => LegislatorState.noConfusion hs⟩,
        le_rfl, fun _ => ⟨rfl, .inr ⟨LegislatorState.noConfusion, rfl⟩⟩⟩

theorem startInitializing_runs (hr : r ≠ 0) (o : Oracle ρ) :
    InitRuns initial r (startInitializing o) :=
  startInitializingNested_runs hr 2 o

end Rsl
