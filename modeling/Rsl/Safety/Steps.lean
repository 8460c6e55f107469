import Rsl.Safety.Replay

/-!
# What a replica does to its invariant

The elementary changes of a replica and what each of them adds to the histories: logging a vote or a
promise raises the ballot, answering a vote is an acceptance, `SendNextVote` is a proposal, and a
decision installs a configuration. `Held` is the invariant of the histories together with that of
the replica; it holds again after each of these changes.
-/

set_option autoImplicit false

namespace Rsl

open Legislator List

variable {ρ : Type}

/-- The histories and the replica satisfy their invariants. -/
structure Held (initial : List Nat) (g : Ghost ρ) (r : Nat) (s : Legislator ρ) : Prop where
  inv : g.Inv initial
  durable : Durable g r s

section Steps

variable {initial : List Nat} {g : Ghost ρ} {r : Nat} {s s' : Legislator ρ}

/-! ## Frames -/

/-- The fields the durable invariant reads are the same, apart from the output buffers. -/
structure SameCore (s s' : Legislator ρ) : Prop where
  memberId : s'.memberId = s.memberId
  paxosConfiguration : s'.paxosConfiguration = s.paxosConfiguration
  maxAcceptedVote : s'.maxAcceptedVote = s.maxAcceptedVote
  maxBallot : s'.maxBallot = s.maxBallot
  log : s'.log = s.log

theorem SameCore.configurationNumber (h : SameCore s s') :
    s'.configurationNumber = s.configurationNumber :=
  congrArg ConfigurationInfo.configurationNumber h.paxosConfiguration

section

variable (hd : Durable g r s)

include hd

/-- Only fields outside the durable invariant and the output buffers change. -/
theorem Durable.frame (hs : SameCore s s')
    (hpassed : ∀ v ∈ s'.passed, g.ExecOk v) (houtbox : ∀ p ∈ s'.outbox, g.PacketOk p)
    (hproposed : ∀ v ∈ s'.proposed, g.ProposedOk v)
    (hinstalled : ∀ i ∈ s'.installed, 1 ≤ i.configurationNumber ∧ i.configurationNumber ≤ g.top ∧
      i = g.info i.configurationNumber) : Durable g r s' := by
  have hcn := hs.configurationNumber
  obtain ⟨h1, h2, h3, h4, h5⟩ := hs
  refine ⟨h1.trans hd.memberId, ?_, ?_, ?_, ?_, ?_, ?_, ?_, ?_, ?_, ?_, ?_, ?_, ?_, ?_, ?_, ?_, ?_,
    hpassed, houtbox, hproposed, hinstalled⟩ <;> simp only [hcn, h1, h2, h3, h4, h5]
  · exact hd.pos
  · exact hd.top
  · exact hd.configuration
  · exact hd.bal
  · exact hd.owned
  · exact hd.entered
  · exact hd.later
  · exact hd.vote
  · exact hd.voteConfiguration
  · exact hd.voteBallot
  · exact hd.accepted
  · exact hd.records
  · exact hd.order
  · exact hd.below
  · exact hd.configurations
  · exact hd.positive
  · intro q hq
    have hm := hd.replayed q hq
    exact hm.keep h1 h2 (by rw [h3]) (by rw [h3]) hm.voteBallot
      (by rw [hcn, h4, h5]; exact hm.ballots)

/-- Packets are sent. -/
theorem Durable.sent (ps : List (Packet ρ)) (hps : ∀ p ∈ ps, g.PacketOk p) :
    Durable g r { s with outbox := s.outbox ++ ps } :=
  hd.frame ⟨rfl, rfl, rfl, rfl, rfl⟩ hd.passed
    (fun p hp => (mem_append.mp hp).elim (hd.outbox p) (hps p)) hd.proposed hd.installed

theorem Durable.send (dst : Nat) (p : Payload ρ)
    (hp : g.PacketOk ⟨s.memberId, dst, p⟩) : Durable g r (s.send dst p) :=
  hd.sent _ fun p' hp' => by
    obtain rfl := mem_singleton.mp hp'
    exact hp

theorem Durable.sendRequestToAll (p : Payload ρ)
    (hp : ∀ dst, g.PacketOk ⟨s.memberId, dst, p⟩) : Durable g r (s.sendRequestToAll p) :=
  hd.sent _ fun p' hp' => by
    obtain ⟨dst, _, rfl⟩ := mem_map.mp hp'
    exact hp dst

end

/-- Only fields outside the invariants change. -/
theorem Held.keep (h : Held initial g r s) (hs : SameCore s s') (hpassed : s'.passed = s.passed)
    (houtbox : s'.outbox = s.outbox) (hproposed : s'.proposed = s.proposed)
    (hinstalled : s'.installed = s.installed) : Held initial g r s' :=
  ⟨h.inv, h.durable.frame hs (by rw [hpassed]; exact h.durable.passed)
    (by rw [houtbox]; exact h.durable.outbox) (by rw [hproposed]; exact h.durable.proposed)
    (by rw [hinstalled]; exact h.durable.installed)⟩

/-! ## The log -/

variable {v : Content ρ} {d : Nat} {m : Header} {ms : List Nat}

/-- From the second configuration on every vote has a positive decree. -/
theorem Ghost.Inv.decree_pos (hg : g.Inv initial) {c d : Nat} {b : BallotNumber}
    (h2 : 2 ≤ c) (htop : c ≤ g.top) (hv : g.VoteOk c b d v) : 1 ≤ d := by
  obtain ⟨d', _, ms, _, _, _, hinfo⟩ := hg.installed (c - 1) (by omega) (by omega)
  have hinit := hv.init
  rw [show c - 1 + 1 = c by omega] at hinfo
  rw [hinfo] at hinit
  exact (Nat.le_add_left 1 d').trans hinit

/-- The later vote is at a higher decree, or at the same decree and no lower ballot. -/
def Vote.Reaches (v w : Vote ρ) : Prop :=
  v.decree < w.decree ∨ v.decree = w.decree ∧ v.ballot ≤ w.ballot

theorem Vote.Reaches.bound {v w : Vote ρ} (h : v.Reaches w) {b : BallotNumber}
    (hb : d < v.decree ∨ d = v.decree ∧ b ≤ v.ballot) :
    d < w.decree ∨ d = w.decree ∧ b ≤ w.ballot := by
  rcases h with h | ⟨h, h'⟩ <;> rcases hb with hb | ⟨hb, hb'⟩
  · left; omega
  · left; omega
  · left; omega
  · exact .inr ⟨by omega, le_trans hb' h'⟩

theorem Vote.reaches_of_next {v w : Vote ρ}
    (h : isNextDecree w.decree w.ballot v.decree v.ballot) : v.Reaches w := by
  rw [isNextDecree_iff] at h
  rcases h with ⟨h, h'⟩ | ⟨h, _⟩
  · exact .inr ⟨h.symm, h'⟩
  · exact .inl (by omega)

section

variable (h : Held initial g r s)

include h

/-- A record is appended, and its ballot promised. -/
theorem Held.append {x : Record ρ}
    (hx : (g.raise s.configurationNumber r x.header.ballot).RecordOk x)
    (hxc : x.header.configurationNumber = s.configurationNumber)
    (hxo : (g.raise s.configurationNumber r x.header.ballot).Owned s.configurationNumber
      x.header.ballot) (hdec : s.maxAcceptedVote.decree ≤ x.header.decree)
    (hs : SameCore { s with
      maxAcceptedVote := s'.maxAcceptedVote
      maxBallot := max s.maxBallot x.header.ballot
      log := s.log ++ [x] } s') (hpassed : s'.passed = s.passed) (houtbox : s'.outbox = s.outbox)
    (hproposed : s'.proposed = s.proposed) (hinstalled : s'.installed = s.installed)
    (hvote : g.VoteOk s.configurationNumber s'.maxAcceptedVote.ballot s'.maxAcceptedVote.decree
      s'.maxAcceptedVote.content)
    (hvc : s'.maxAcceptedVote.ballot ≠ ⊥ →
      s'.maxAcceptedVote.configurationNumber = s.configurationNumber)
    (hvb : s'.maxAcceptedVote.ballot ≤ s'.maxBallot)
    (hreach : s.maxAcceptedVote.Reaches s'.maxAcceptedVote)
    (hbelow : x.Below s'.maxAcceptedVote.decree)
    (hrep : ∀ q q', ReplayMatch g s q → replayRecord q x = some q' → ReplayMatch g s' q') :
    Held initial (g.raise s.configurationNumber r x.header.ballot) r s' := by
  obtain ⟨hg, hd⟩ := h
  have hcn : s'.configurationNumber = s.configurationNumber := hs.configurationNumber
  obtain ⟨h1, h2, h3, h4, h5⟩ := hs
  simp only at h1 h2 h4 h5
  have hgr := g.grows_raise s.configurationNumber r x.header.ballot
  have hle : s.maxAcceptedVote.decree ≤ s'.maxAcceptedVote.decree := by
    rcases hreach with h | ⟨h, _⟩ <;> omega
  have hlog : ∀ {P : Record ρ → Prop}, (∀ y ∈ s.log, P y) → P x → ∀ y ∈ s'.log, P y := by
    intro P hold hnew
    rw [h5]
    exact forall_mem_append.mpr ⟨hold, forall_mem_singleton.mpr hnew⟩
  refine ⟨hg.raise hd.top r _, ⟨h1.trans hd.memberId, by rw [hcn]; exact hd.pos,
    by rw [hcn]; exact hd.top, by rw [hcn, h2]; exact hd.configuration, ?_, ?_, ?_,
      fun c hc => ?_, ?_,
    by rw [hcn]; exact hvc, hvb, ?_, ?_, ?_, ?_, ?_, ?_, fun q' hq' => ?_, ?_, ?_, ?_, ?_⟩⟩
  · rw [hcn, Ghost.raise_bal_self, hd.bal, h4]
  · rw [hcn, h4]
    rcases le_total s.maxBallot x.header.ballot with hle' | hle'
    · rw [max_eq_right hle']; exact hxo
    · rw [max_eq_left hle']; exact hd.owned.mono hgr
  · rw [hcn, h4]
    exact fun h2' => ne_bot_of_le_ne_bot (hd.entered h2') (le_max_left _ _)
  · rw [hcn] at hc
    rw [Ghost.raise, Ghost.setHist_hist_ne _ (by omega)]
    exact hd.later c hc
  · rw [hcn]; exact hvote.mono hgr hd.pos hd.top
  · rw [hcn]
    intro b d hfirst hacc
    rw [Ghost.raise, Ghost.setHist_hist_self] at hacc
    exact hreach.bound (hd.accepted b d hfirst hacc)
  · exact hlog (fun y hy => (hd.records y hy).mono hgr) hx
  · rw [h5, pairwise_append]
    refine ⟨hd.order, pairwise_singleton _ _, fun y hy z hz => ?_⟩
    obtain rfl := mem_singleton.mp hz
    exact (hd.below y hy).precedes hdec
  · exact hlog (fun y hy => (hd.below y hy).mono hle) hbelow
  · rw [hcn]; exact hlog hd.configurations hxc.le
  · refine hlog hd.positive fun h2' => ?_
    exact (hg.decree_pos (hxc ▸ h2') hd.top hd.vote).trans hdec
  · rw [h1, h5] at hq'
    obtain ⟨q, hq, hstep⟩ := replay_append_some hq'
    exact (hrep q q' (hd.replayed q hq) hstep).mono hgr (by rw [hcn]; exact hd.pos)
      (by rw [hcn]; exact hd.top)
  · rw [hpassed]; exact fun v hv => (hd.passed v hv).mono hgr
  · rw [houtbox]; exact fun p hp => (hd.outbox p hp).mono hgr
  · rw [hproposed]; exact fun v hv => (hd.proposed v hv).mono hgr
  · rw [hinstalled]; exact hd.installed

/-- A vote is logged. -/
theorem Held.vote_logged {v : Vote ρ}
    (hnext : isNextDecree v.decree v.ballot s.maxAcceptedVote.decree s.maxAcceptedVote.ballot)
    (hv : g.VoteOk s.configurationNumber v.ballot v.decree v.content) (hb : v.ballot ≠ ⊥)
    (hc : v.configurationNumber = s.configurationNumber) :
    Held initial (g.raise s.configurationNumber r v.ballot) r (s.logged v) := by
  have hd := h.durable
  have hreach : s.maxAcceptedVote.Reaches v := Vote.reaches_of_next hnext
  obtain ⟨n, hn⟩ := s.logged_eq v
  rw [hn]
  refine h.append (x := .vote v) ⟨?_, ?_, hb, ?_⟩ hc
    ((h.inv.owned_of_voteOk hv).mono (g.grows_raise _ r _)) ?_ ⟨rfl, rfl, rfl, rfl, rfl⟩
      rfl rfl rfl rfl
    hv (fun _ => hc) (le_max_right _ _) hreach le_rfl fun q q' hm hq => ?_
  · rw [hc]; exact hd.pos
  · rw [hc]; exact hd.top
  · rw [hc]; exact hv.mono (g.grows_raise _ r _) hd.pos hd.top
  · show s.maxAcceptedVote.decree ≤ v.decree
    rcases hreach with h | ⟨h, _⟩ <;> omega
  · exact hm.vote_logged h.inv hd hnext hv hb hc (fun h2 => h.inv.decree_pos h2 hd.top hv) hq
      rfl rfl rfl rfl rfl

/-- A promise is logged. -/
theorem Held.prepare_logged
    (hc : m.configurationNumber = s.configurationNumber)
    (hdec : s.maxAcceptedVote.decree ≤ m.decree) (hlt : s.maxBallot < m.ballot)
    (hissued : (g.raise s.configurationNumber r m.ballot).Issued s.configurationNumber m.ballot) :
    Held initial (g.raise s.configurationNumber r m.ballot) r (s.promised m) := by
  have hd := h.durable
  rw [promised_eq]
  refine h.append (x := .prepare m) ⟨ne_bot_of_gt hlt, ?_⟩ hc hissued.1 hdec
    ⟨rfl, rfl, rfl, rfl, rfl⟩
    rfl rfl rfl rfl hd.vote hd.voteConfiguration (le_trans hd.voteBallot (le_max_left _ _))
    (.inr ⟨rfl, le_refl _⟩) trivial fun q q' hm hq => ?_
  · rw [hc]; exact hissued
  · refine hm.prepare_logged hd hc hdec (fun h2 => ?_) hq rfl rfl rfl rfl rfl
    exact (h.inv.decree_pos h2 hd.top hd.vote).trans hdec

/-- The max accepted vote is replaced by one of the same decree and ballot. -/
theorem Held.vote_replaced {v : Vote ρ}
    (hdec : v.decree = s.maxAcceptedVote.decree) (hbal : v.ballot = s.maxAcceptedVote.ballot)
    (hv : g.VoteOk s.configurationNumber v.ballot v.decree v.content)
    (hc : v.configurationNumber = s.configurationNumber) :
    Held initial g r { s with maxAcceptedVote := v } := by
  obtain ⟨hg, hd⟩ := h
  refine ⟨hg, { hd with
    vote := hv
    voteConfiguration := fun _ => hc
    voteBallot := by show v.ballot ≤ _; rw [hbal]; exact hd.voteBallot
    accepted := ?_
    below := by
      show ∀ x ∈ s.log, x.Below v.decree
      rw [hdec]; exact hd.below
    replayed := fun q hq => ?_ }⟩
  · show ∀ b d, _ → _ → d < v.decree ∨ d = v.decree ∧ b ≤ v.ballot
    rw [hdec, hbal]; exact hd.accepted
  · have hm := hd.replayed q hq
    exact hm.keep rfl rfl hdec hbal hm.voteBallot hm.ballots

end

/-! ## Histories -/

/-- The replica answers the vote it has just logged at its promised ballot. -/
theorem Held.accept (h : Held initial g r s) (hb : s.maxAcceptedVote.ballot = s.maxBallot) :
    Held initial (g.accept s.configurationNumber r s.maxBallot s.maxAcceptedVote.decree) r s := by
  obtain ⟨hg, hd⟩ := h
  have hle : (g.hist s.configurationNumber).bal r ≤ s.maxBallot := le_of_eq hd.bal
  have hgr := Ghost.grows_accept s.maxAcceptedVote.decree hle
  refine ⟨hg.accept hd.top _ hle, hd.grow hgr ?_ (fun c hc => ?_) fun b d hf hacc => ?_⟩
  · rw [Ghost.accept, Ghost.setHist_hist_self]; exact hd.bal
  · rw [Ghost.accept, Ghost.setHist_hist_ne _ (by omega)]; exact hd.later c hc
  · rcases Ghost.accept_acc_iff.mp hacc with hacc | ⟨_, rfl, rfl⟩
    · exact hd.accepted b d hf hacc
    · exact .inr ⟨rfl, le_of_eq hb.symm⟩

/-- The replica proposes at a ballot of its own. -/
theorem Held.propose (h : Held initial g r s)
    (hown : s.maxBallot.memberId = r) (hmem : r ∈ g.members s.configurationNumber)
    (hnew : ∀ v', ¬ (g.hist s.configurationNumber).prop s.maxBallot d v')
    (hv : (g.propose s.configurationNumber s.maxBallot d v).VoteOk s.configurationNumber
      s.maxBallot d v) :
    Held initial (g.propose s.configurationNumber s.maxBallot d v) r s := by
  obtain ⟨hg, hd⟩ := h
  have hgr := Ghost.grows_propose (g := g) s.configurationNumber s.maxBallot d v
  rw [hown] at hgr
  refine ⟨hg.propose hd.top ?_ (by rw [hown]; exact hmem) hnew hv,
    hd.grow hgr ?_ (fun c hc => ?_) fun b d' hf hacc => ?_⟩
  · rw [hown, hd.bal]
  · rw [Ghost.propose, Ghost.setHist_hist_self]; exact hd.bal
  · rw [Ghost.propose, Ghost.setHist_hist_ne _ (by omega)]; exact hd.later c hc
  · rw [Ghost.propose, Ghost.setHist_hist_self] at hacc
    exact hd.accepted b d' hf hacc

/-! ## Configurations -/

/-- The content that closes a configuration leads to histories in which the next one is
installed. -/
theorem Held.next_installed (h : Held initial g r s)
    (hd : g.first s.configurationNumber ≤ d) (hv : g.ChosenIn s.configurationNumber d v)
    (hms : v.reconfiguration = some ms) (hne : ms ≠ []) :
    ∃ g', g.Grows r g' ∧ Held initial g' r s ∧ s.configurationNumber < g'.top := by
  obtain ⟨hg, hdur⟩ := h
  rcases lt_or_ge s.configurationNumber g.top with hlt | hge
  · exact ⟨g, Ghost.Grows.refl r g, ⟨hg, hdur⟩, hlt⟩
  · have htop : s.configurationNumber = g.top := le_antisymm hdur.top hge
    rw [htop] at hd hv
    have hgr := g.grows_install r ⟨g.top + 1, d + 1, ms⟩
    refine ⟨_, hgr, ⟨hg.install hd hv hms hne, hdur.grow hgr hdur.bal hdur.later hdur.accepted⟩, ?_⟩
    rw [htop]
    exact Nat.lt_succ_self _

/-- The state after a decision on the max accepted vote was logged and carried out. -/
def Legislator.decided (s : Legislator ρ) (m : Header) (ms : List Nat) : Legislator ρ :=
  (s.append (.reconfigurationDecision m)).install
    ⟨s.configurationNumber + 1, s.maxAcceptedVote.decree + 1, ms⟩

section

variable (h : Held initial g r s) (hok : g.DecisionOk s.configurationNumber m.ballot m.decree)
  (hc : m.configurationNumber = s.configurationNumber) (hdec : m.decree = s.maxAcceptedVote.decree)
    (hb : m.ballot = s.maxAcceptedVote.ballot) (hms : s.maxAcceptedVote.reconfiguration = some ms)

include h hok hc hdec hb hms

/-- A decision is logged and its configuration installed, in histories that have it. -/
theorem Held.decided_of_lt (htop : s.configurationNumber < g.top) :
    Held initial
      (g.raise (s.configurationNumber + 1) r ⟨s.maxBallot.ballotId + 1, 0⟩) r
      (s.decided m ms) := by
  obtain ⟨hg, hd⟩ := h
  have hrun := hg.chosen_of_decision hok (by rw [hb, hdec]; exact hd.vote)
  have hinfo := hg.info_succ hd.pos htop hok.2.1 hrun.1 hms
  rw [hdec] at hinfo
  have hpos : 0 < m.decree :=
    Nat.lt_of_lt_of_le (Nat.lt_of_lt_of_le Nat.one_pos (le_max_left _ _)) hok.2.1
  have hgr := g.grows_raise (s.configurationNumber + 1) r ⟨s.maxBallot.ballotId + 1, 0⟩
  have hlater := hd.later _ (Nat.lt_succ_self s.configurationNumber)
  have hlog : ∀ {P : Record ρ → Prop}, (∀ y ∈ s.log, P y) → P (.reconfigurationDecision m) →
      ∀ y ∈ s.log ++ [.reconfigurationDecision m], P y :=
    fun hold hnew => forall_mem_append.mpr ⟨hold, forall_mem_singleton.mpr hnew⟩
  refine ⟨hg.raise htop r _, ⟨hd.memberId, Nat.le_add_left 1 _, htop, hinfo.symm, ?_,
    Or.inl rfl, fun _ hbot => absurd (congrArg BallotNumber.ballotId hbot) (Nat.succ_ne_zero _),
    fun c hlt => ?_, ?_, fun hne => absurd rfl hne, bot_le,
    fun b d _ hacc => ?_, ?_, ?_, ?_, ?_, ?_,
    fun q' hq' => ?_, fun v hv => (hd.passed v hv).mono hgr, fun p hp => (hd.outbox p hp).mono hgr,
    fun v hv => (hd.proposed v hv).mono hgr, fun i hi => ?_⟩⟩
  · show ((g.raise (s.configurationNumber + 1) r _).hist (s.configurationNumber + 1)).bal r = _
    rw [Ghost.raise_bal_self, hlater.1]
    exact max_eq_right bot_le
  · have hlt' : s.configurationNumber + 1 < c := hlt
    rw [Ghost.raise, Ghost.setHist_hist_ne _ (by omega)]
    exact hd.later c (by omega)
  · have hv := g.voteOk_placeholder (s.configurationNumber + 1)
    rw [hinfo] at hv
    exact hv.mono hgr (Nat.le_add_left 1 _) htop
  · exfalso
    refine hlater.2 b d ?_
    have hacc' : ((g.raise (s.configurationNumber + 1) r
      ⟨s.maxBallot.ballotId + 1, 0⟩).hist (s.configurationNumber + 1)).acc r b d := hacc
    rw [Ghost.raise, Ghost.setHist_hist_self] at hacc'
    exact hacc'
  · refine hlog (fun y hy => (hd.records y hy).mono hgr) ⟨?_, ?_, ?_⟩
    · rw [hc]; exact hd.pos
    · rw [hc]; exact hd.top
    · rw [hc]; exact hok.mono hgr hd.pos hd.top
  · show (s.log ++ [_]).Pairwise Record.Precedes
    rw [pairwise_append]
    refine ⟨hd.order, pairwise_singleton _ _, fun y hy z hz => ?_⟩
    obtain rfl := mem_singleton.mp hz
    exact (hd.below y hy).precedes (Nat.le_of_eq hdec.symm)
  · refine hlog (fun y hy => (hd.below y hy).mono (Nat.le_succ _)) ?_
    show m.decree < s.maxAcceptedVote.decree + 1
    omega
  · refine hlog (fun y hy => Nat.le_succ_of_le (hd.configurations y hy)) ?_
    show m.configurationNumber ≤ s.configurationNumber + 1
    omega
  · exact hlog hd.positive fun _ => hpos
  · obtain ⟨q, hq, hstep⟩ := replay_append_some hq'
    refine ReplayMatch.mono hgr ?_ ?_ ((hd.replayed q hq).decision_logged hg hd hok hc hdec hb hms
      htop hstep rfl rfl rfl rfl rfl)
    · exact Nat.le_add_left 1 _
    · exact htop
  · rcases mem_append.mp hi with hi | hi
    · exact hd.installed i hi
    · obtain rfl := mem_singleton.mp hi
      exact ⟨Nat.le_add_left 1 _, htop, hinfo.symm⟩

/-- A decision is logged and its configuration installed. -/
theorem Held.decided :
    ∃ g', g.Grows r g' ∧ Held initial g' r (s.decided m ms) := by
  have hd := h.durable
  have hrun := h.inv.chosen_of_decision hok (by rw [hb, hdec]; exact hd.vote)
  have hne : ms ≠ [] := by
    rintro rfl
    exact hd.vote.valid.1 hms
  obtain ⟨g', hgr, h', htop⟩ := h.next_installed hok.2.1 hrun.1 hms hne
  refine ⟨_, hgr.trans (g'.grows_raise _ r _),
    h'.decided_of_lt (hok.mono hgr hd.pos hd.top) hc hdec hb hms htop⟩

end

end Steps

end Rsl
