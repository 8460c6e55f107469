import Rsl.Safety.Local

/-!
# Appending a record keeps the replayed state in step

For each kind of record the replica logs, the state replayed from the longer log matches the state
of the replica after it has logged the record. Together these lemmas say that replaying a log gives
the running state back, except for what happened at decree 0.
-/

set_option autoImplicit false

namespace Rsl

open List

variable {ρ : Type}

/-! ## The replay loop -/

/-- Replay of a log with one more record. -/
theorem replay_append (m : Nat) (log : List (Record ρ)) (x : Record ρ) :
    replay m (log ++ [x]) = (replay m log).bind fun q => replayRecord q x := by
  unfold replay
  rw [foldlM_append]
  simp only [foldlM_cons, foldlM_nil, bind_pure]
  rfl

/-- A replayed prefix of a replayed log. -/
theorem replay_append_some {m : Nat} {log : List (Record ρ)} {x : Record ρ} {q' : Replay ρ}
    (h : replay m (log ++ [x]) = some q') :
    ∃ q, replay m log = some q ∧ replayRecord q x = some q' := by
  rw [replay_append] at h
  exact Option.bind_eq_some_iff.mp h

theorem PromisesReplayed.of_append {log : List (Record ρ)} {x : Record ρ}
    (hpos : ∀ y ∈ log, 2 ≤ y.header.configurationNumber → 1 ≤ y.header.decree)
    (hx : 2 ≤ x.header.configurationNumber) (hp : PromisesReplayed (log ++ [x])) :
    PromisesReplayed log := by
  intro y hy hzero
  obtain ⟨z, hz, hcfg, hdec, hle⟩ := hp y (mem_append_left _ hy) hzero
  rcases mem_append.mp hz with hz | hz
  · exact ⟨z, hz, hcfg, hdec, hle⟩
  · obtain rfl := mem_singleton.mp hz
    have := hpos y hy (by omega)
    omega

/-! ## The replayed ballot -/

section Ballots

variable {c : Nat} {b q : BallotNumber} {log : List (Record ρ)}

/-- The replayed ballot is the running one if it reaches the promises for decree 0. -/
theorem BallotMatch.eq_of_reached (hm : BallotMatch c b log q) (h1 : 1 ≤ c)
    (hp : 2 ≤ c → PromisesReplayed log)
    (hzero : ∀ y ∈ log, y.header.configurationNumber = c → y.header.decree = 0 →
      y.header.ballot ≤ q) : q = b := by
  rcases eq_or_lt_of_le h1 with rfl | h2
  · refine le_antisymm hm.le ?_
    rcases hm.source rfl with rfl | ⟨y, hy, hyc, rfl⟩
    · exact bot_le
    · by_cases hyd : y.header.decree = 0
      · exact hzero y hy hyc hyd
      · exact hm.ge y hy hyc (by omega)
  · exact hm.same h2 (hp h2)

/-- Without lost promises the replayed ballot is the running one, also when the promises are kept
only by a further record that the replayed ballot reaches. -/
theorem BallotMatch.eq_of_append (hm : BallotMatch c b log q) (h1 : 1 ≤ c)
    (hpos : ∀ y ∈ log, 2 ≤ y.header.configurationNumber → 1 ≤ y.header.decree) {x : Record ρ}
    (hxc : x.header.configurationNumber = c) (hx : x.header.ballot ≤ q)
    (hp : PromisesReplayed (log ++ [x])) : q = b := by
  refine hm.eq_of_reached h1 (fun h2 => hp.of_append hpos (by omega)) fun y hy hyc hyd => ?_
  obtain ⟨z, hz, hzc, hzd, hle⟩ := hp y (mem_append_left _ hy) hyd
  rcases mem_append.mp hz with hz | hz
  · exact le_trans hle (hm.ge z hz (by rw [hzc, hyc]) hzd)
  · obtain rfl := mem_singleton.mp hz
    exact le_trans hle hx

/-- Without lost promises the replayed ballot is the running one. -/
theorem BallotMatch.eq (hm : BallotMatch c b log q) (h1 : 1 ≤ c) (hp : PromisesReplayed log) :
    q = b := by
  refine hm.eq_of_reached h1 (fun _ => hp) fun y hy hyc hyd => ?_
  obtain ⟨z, hz, hzc, hzd, hle⟩ := hp y hy hyd
  exact le_trans hle (hm.ge z hz (by rw [hzc, hyc]) hzd)

/-- The running ballot grows by a record that is skipped, for its decree is 0, or replayed. -/
theorem BallotMatch.append (hm : BallotMatch c b log q)
    (hpos : ∀ y ∈ log, 2 ≤ y.header.configurationNumber → 1 ≤ y.header.decree) (x : Record ρ)
    (hxc : x.header.configurationNumber = c) (hx : 2 ≤ c → 1 ≤ x.header.decree) {q' : BallotNumber}
    (hq : x.header.decree = 0 ∧ q' = q ∨ 1 ≤ x.header.decree ∧ q' = max q x.header.ballot) :
    BallotMatch c (max b x.header.ballot) (log ++ [x]) q' where
  le := by
    rcases hq with ⟨_, rfl⟩ | ⟨_, rfl⟩
    · exact le_trans hm.le (le_max_left _ _)
    · exact max_le_max hm.le (le_refl _)
  ge y hy hyc hyd := by
    have hqq : q ≤ q' := by
      rcases hq with ⟨_, rfl⟩ | ⟨_, rfl⟩
      · exact le_refl _
      · exact le_max_left _ _
    rcases mem_append.mp hy with hy | hy
    · exact le_trans (hm.ge y hy hyc hyd) hqq
    · obtain rfl := mem_singleton.mp hy
      rcases hq with ⟨h0, _⟩ | ⟨_, rfl⟩
      · omega
      · exact le_max_right _ _
  source h1 := by
    rcases le_total b x.header.ballot with hle | hle
    · rw [max_eq_right hle]
      exact .inr ⟨x, mem_append_right _ (mem_singleton_self x), by omega, rfl⟩
    · rw [max_eq_left hle]
      refine (hm.source h1).imp id ?_
      rintro ⟨y, hy, hyc, hyb⟩
      exact ⟨y, mem_append_left _ hy, hyc, hyb⟩
  same h2 hp := by
    have hqb := hm.same h2 (hp.of_append hpos (by omega))
    rcases hq with ⟨h0, _⟩ | ⟨_, rfl⟩
    · have := hx h2
      omega
    · rw [hqb]

end Ballots

section Match

variable {g : Ghost ρ} {initial : List Nat} {r : Nat} {s : Legislator ρ} {q q' : Replay ρ}

/-- The replayed vote may be executed once its content is chosen. -/
theorem ReplayMatch.execOk (hd : Durable g r s) (hm : ReplayMatch g s q)
    (hch : g.first s.configurationNumber ≤ q.maxAcceptedVote.decree →
      g.ChosenIn s.configurationNumber q.maxAcceptedVote.decree q.maxAcceptedVote.content)
    (hb : q.maxAcceptedVote.ballot ≠ ⊥) : g.ExecOk q.maxAcceptedVote := by
  have hcfg := hm.voteConfiguration hb
  refine ⟨by rw [hcfg]; exact hd.pos, by rw [hcfg]; exact hd.top, fun hle => ?_, fun hlt => ?_⟩
  · rw [hcfg] at hle ⊢; exact hch hle
  · rw [hcfg] at hlt
    exact hm.vote.low hlt

/-- A record that is replayed is either skipped or new. -/
theorem replayRecord_cases {x : Record ρ} (hq : replayRecord q x = some q') :
    (x.header.decree ≤ q.lastExecutedDecree ∧ q' = q) ∨
    (q.lastExecutedDecree < x.header.decree ∧ replayNew q x = some q') := by
  unfold replayRecord at hq
  split at hq
  · exact absurd hq (by simp)
  · split at hq
    · next hle =>
      split at hq
      · exact .inl ⟨hle, (Option.some.inj hq).symm⟩
      · exact absurd hq (by simp)
    · next hgt => exact .inr ⟨lt_of_not_ge hgt, hq⟩

variable {s' : Legislator ρ} {v : Vote ρ} {h : Header}

/-- Replaying a vote that follows the max accepted one: decree 0 is skipped; otherwise the vote
becomes the max accepted one, after the previous one was executed where the decree advances. -/
theorem replayRecord_vote (hm : ReplayMatch g s q)
    (hnext : isNextDecree v.decree v.ballot s.maxAcceptedVote.decree s.maxAcceptedVote.ballot)
    (hq : replayRecord q (.vote v) = some q') :
    (v.decree = 0 ∧ q' = q) ∨
    (0 < v.decree ∧ (v.decree = s.maxAcceptedVote.decree ∨ s.maxAcceptedVote.decree = 0) ∧
      q' = q.accept v) ∨
    (0 < s.maxAcceptedVote.decree ∧ v.decree = s.maxAcceptedVote.decree + 1 ∧
      v.ballot = s.maxAcceptedVote.ballot ∧ q' = (q.execute q.maxAcceptedVote).accept v) := by
  have hdec := hm.decree
  have hlast := hm.last
  rw [isNextDecree_iff] at hnext
  rcases replayRecord_cases hq with ⟨hle, rfl⟩ | ⟨hgt, hnew⟩
  · simp only [Record.header] at hle
    refine .inl ⟨?_, rfl⟩
    rcases hnext with ⟨h, _⟩ | ⟨h, _⟩ <;> omega
  · simp only [Record.header] at hgt
    simp only [replayNew, replayVote] at hnew
    split at hnew
    · next hzero =>
      exact .inr (.inl ⟨by omega, .inr (by omega), (Option.some.inj hnew).symm⟩)
    · next hnz =>
      have hpos : 0 < s.maxAcceptedVote.decree := by
        rcases Nat.eq_zero_or_pos s.maxAcceptedVote.decree with h0 | h0
        · exact absurd ⟨hm.zero h0, by omega⟩ hnz
        · exact h0
      split at hnew
      · split at hnew
        · next hsucc =>
          have hexec : q.maxAcceptedVote.decree = q.lastExecutedDecree + 1 := by omega
          rw [executeVote, if_pos hexec, Option.map_some] at hnew
          refine .inr (.inr ⟨hpos, by omega, ?_, (Option.some.inj hnew).symm⟩)
          rcases hnext with ⟨h, _⟩ | ⟨_, h⟩
          · omega
          · exact h
        · refine .inr (.inl ⟨by omega, .inl ?_, (Option.some.inj hnew).symm⟩)
          rcases hnext with ⟨h, _⟩ | ⟨h, _⟩ <;> omega
      · exact absurd hnew (by simp)

/-- The replayed state matches as long as the configuration, the decree and the ballot stay. -/
theorem ReplayMatch.keep (hm : ReplayMatch g s q) {b : BallotNumber}
    (hid : s'.memberId = s.memberId) (hcfg : s'.paxosConfiguration = s.paxosConfiguration)
    (hdec : s'.maxAcceptedVote.decree = s.maxAcceptedVote.decree)
    (hbal : s'.maxAcceptedVote.ballot = s.maxAcceptedVote.ballot)
    (hb : q.maxAcceptedVote.ballot ≤ b)
    (hballots : BallotMatch s'.configurationNumber s'.maxBallot s'.log b) :
    ReplayMatch g s' { q with maxBallot := b } := by
  have hcn : s'.configurationNumber = s.configurationNumber :=
    congrArg ConfigurationInfo.configurationNumber hcfg
  exact ⟨by rw [hid]; exact hm.memberId, by rw [hcn]; exact hm.one,
    by rw [hcn, hcfg]; exact hm.later, by rw [hdec]; exact hm.decree,
    by rw [hdec, hbal]; exact hm.ballot, by rw [hdec]; exact hm.zero, by rw [hcn]; exact hm.vote,
    by rw [hcn]; exact hm.voteConfiguration, hm.last, hm.executed, hm.installed, hb, hballots⟩

/-- A vote that follows the replayed one shows that the replayed one was passed. -/
theorem ReplayMatch.passed (hg : g.Inv initial) (hd : Durable g r s) (hm : ReplayMatch g s q)
    (hv : g.VoteOk s.configurationNumber v.ballot v.decree v.content)
    (hpos : 0 < s.maxAcceptedVote.decree) (hdec : v.decree = s.maxAcceptedVote.decree + 1)
    (hbal : v.ballot = s.maxAcceptedVote.ballot) (hb : v.ballot ≠ ⊥) :
    g.ExecOk q.maxAcceptedVote ∧ q.maxAcceptedVote.reconfiguration = none := by
  have hqb : v.ballot = q.maxAcceptedVote.ballot := by rw [hm.ballot hpos, hbal]
  exact hg.execOk_of_next hd.pos hd.top (hm.voteConfiguration (by rw [← hqb]; exact hb)) hm.vote hv
    (by rw [hm.decree, hdec]) hqb

/-- The replayed state after a vote was taken over, where `n` decrees were executed before it. -/
theorem ReplayMatch.accept (hm : ReplayMatch g s q) {n : Nat} {executed : List (Vote ρ)}
    (hn : n + 1 = v.decree) (hexecuted : ∀ w ∈ executed, g.ExecOk w)
    (hv : g.VoteOk s.configurationNumber v.ballot v.decree v.content)
    (hc : v.configurationNumber = s.configurationNumber)
    (hid : s'.memberId = s.memberId) (hcfg : s'.paxosConfiguration = s.paxosConfiguration)
    (hmax : s'.maxAcceptedVote = v)
    (hballots : BallotMatch s'.configurationNumber s'.maxBallot s'.log (q.accept v).maxBallot) :
    ReplayMatch g s' ({ q with lastExecutedDecree := n, executed := executed }.accept v) := by
  have hcn : s'.configurationNumber = s.configurationNumber :=
    congrArg ConfigurationInfo.configurationNumber hcfg
  refine ⟨by rw [hid]; exact hm.memberId, by rw [hcn]; exact hm.one,
    by rw [hcn, hcfg]; exact hm.later, by rw [hmax]; rfl, fun _ => by rw [hmax]; rfl,
    by rw [hmax]; omega, by rw [hcn]; exact hv, fun _ => by rw [hcn]; exact hc, .inr hn,
    hexecuted, hm.installed, ?_, hballots⟩
  show v.ballot ≤ if q.maxBallot < v.ballot then v.ballot else q.maxBallot
  rw [BallotNumber.ite_lt_eq_max]
  exact le_max_right _ _

/-- The replayed state after a vote was logged. -/
theorem ReplayMatch.vote_logged (hg : g.Inv initial) (hd : Durable g r s) (hm : ReplayMatch g s q)
    (hnext : isNextDecree v.decree v.ballot s.maxAcceptedVote.decree s.maxAcceptedVote.ballot)
    (hv : g.VoteOk s.configurationNumber v.ballot v.decree v.content)
    (hb : v.ballot ≠ ⊥) (hc : v.configurationNumber = s.configurationNumber)
    (hpos : 2 ≤ s.configurationNumber → 1 ≤ v.decree) (hq : replayRecord q (.vote v) = some q')
    (hid : s'.memberId = s.memberId) (hcfg : s'.paxosConfiguration = s.paxosConfiguration)
    (hmax : s'.maxAcceptedVote = v) (hbal : s'.maxBallot = max s.maxBallot v.ballot)
    (hlog : s'.log = s.log ++ [.vote v]) : ReplayMatch g s' q' := by
  have hcn : s'.configurationNumber = s.configurationNumber :=
    congrArg ConfigurationInfo.configurationNumber hcfg
  have hballots : v.decree = 0 ∧ q'.maxBallot = q.maxBallot ∨
      1 ≤ v.decree ∧ q'.maxBallot = max q.maxBallot v.ballot →
      BallotMatch s'.configurationNumber s'.maxBallot s'.log q'.maxBallot := by
    intro h
    rw [hcn, hbal, hlog]
    exact hm.ballots.append hd.positive (.vote v) hc hpos h
  have hdec := hm.decree
  have hlast := hm.last
  rcases replayRecord_vote hm hnext hq with ⟨h0, rfl⟩ | ⟨h1, h2, rfl⟩ | ⟨h1, h2, h3, rfl⟩
  · rw [isNextDecree_iff] at hnext
    have hs0 : s.maxAcceptedVote.decree = 0 := by omega
    refine ⟨by rw [hid]; exact hm.memberId, ?_, ?_, by rw [hmax]; omega, ?_,
      fun _ => hm.zero hs0, ?_, ?_, hlast, hm.executed, hm.installed, hm.voteBallot,
      hballots (.inl ⟨h0, rfl⟩)⟩
    · rw [hcn]; exact hm.one
    · rw [hcn, hcfg]; exact hm.later
    · rw [hmax]; omega
    · rw [hcn]; exact hm.vote
    · rw [hcn]; exact hm.voteConfiguration
  · rw [isNextDecree_iff] at hnext
    have hn : q.lastExecutedDecree + 1 = v.decree := by omega
    exact hm.accept hn hm.executed hv hc hid hcfg hmax
      (hballots (.inr ⟨h1, BallotNumber.ite_lt_eq_max _ _⟩))
  · obtain ⟨hexec, hnone⟩ := hm.passed hg hd hv h1 h2 h3 hb
    have hb := hballots (.inr ⟨by omega, BallotNumber.ite_lt_eq_max _ _⟩)
    have hn : q.lastExecutedDecree + 1 + 1 = v.decree := by omega
    rw [Replay.execute, Replay.nextConfiguration, hnone] at hb ⊢
    exact hm.accept hn
      (forall_mem_append.mpr ⟨hm.executed, forall_mem_singleton.mpr hexec⟩)
      hv hc hid hcfg hmax hb

/-- The replayed state after a promise was logged. -/
theorem ReplayMatch.prepare_logged (hd : Durable g r s) (hm : ReplayMatch g s q)
    (hc : h.configurationNumber = s.configurationNumber)
    (hdec : s.maxAcceptedVote.decree ≤ h.decree) (hpos : 2 ≤ s.configurationNumber → 1 ≤ h.decree)
    (hq : replayRecord q (.prepare h) = some q')
    (hid : s'.memberId = s.memberId) (hcfg : s'.paxosConfiguration = s.paxosConfiguration)
    (hmax : s'.maxAcceptedVote = s.maxAcceptedVote) (hbal : s'.maxBallot = max s.maxBallot h.ballot)
    (hlog : s'.log = s.log ++ [.prepare h]) : ReplayMatch g s' q' := by
  have hballots : h.decree = 0 ∧ q'.maxBallot = q.maxBallot ∨
      1 ≤ h.decree ∧ q'.maxBallot = max q.maxBallot h.ballot →
      BallotMatch s'.configurationNumber s'.maxBallot s'.log q'.maxBallot := by
    intro hh
    unfold Legislator.configurationNumber
    rw [hcfg, hbal, hlog]
    exact hm.ballots.append hd.positive (.prepare h) hc hpos hh
  have hqdec := hm.decree
  have hlast := hm.last
  rcases replayRecord_cases hq with ⟨hle, rfl⟩ | ⟨hgt, hnew⟩
  · have hle' : h.decree ≤ q'.lastExecutedDecree := hle
    exact hm.keep hid hcfg (by rw [hmax]) (by rw [hmax]) hm.voteBallot
      (hballots (.inl ⟨by omega, rfl⟩))
  · have hgt' : q.lastExecutedDecree < h.decree := hgt
    cases hnew
    have hb := hballots (.inr ⟨by omega, BallotNumber.ite_lt_eq_max _ _⟩)
    refine hm.keep hid hcfg (by rw [hmax]) (by rw [hmax]) ?_ hb
    rw [BallotNumber.ite_lt_eq_max]
    exact le_trans hm.voteBallot (le_max_left _ _)

/-- Replaying a decision on the max accepted vote executes that vote and installs what follows. -/
theorem replayRecord_decision (hm : ReplayMatch g s q)
    (hdec : h.decree = s.maxAcceptedVote.decree) (hpos : 0 < h.decree)
    (hq : replayRecord q (.reconfigurationDecision h) = some q') :
    q.lastExecutedDecree + 1 = h.decree ∧ q' = (q.execute q.maxAcceptedVote).install h := by
  have hqdec := hm.decree
  have hlast := hm.last
  rcases replayRecord_cases hq with ⟨hle, rfl⟩ | ⟨hgt, hnew⟩
  · have hle' : h.decree ≤ q'.lastExecutedDecree := hle
    omega
  · simp only [replayNew, replayDecision] at hnew
    split at hnew
    · have hexec : q.maxAcceptedVote.decree = q.lastExecutedDecree + 1 := by omega
      rw [executeVote, if_pos hexec, Option.map_some] at hnew
      exact ⟨by omega, (Option.some.inj hnew).symm⟩
    · exact absurd hnew (by simp)

theorem ReplayMatch.stateNumber (hd : Durable g r s) (hm : ReplayMatch g s q) :
    q.stateConfiguration.configurationNumber = s.configurationNumber := by
  rcases eq_or_lt_of_le hd.pos with h1 | h2
  · rw [(hm.one h1.symm).1, ← h1]
  · rw [(hm.later h2).1]
    rfl

/-- The replayed state after a decision was logged and its configuration installed. -/
theorem ReplayMatch.decision_logged (hg : g.Inv initial) (hd : Durable g r s)
    (hm : ReplayMatch g s q) {ms : List Nat}
    (hok : g.DecisionOk s.configurationNumber h.ballot h.decree)
    (hc : h.configurationNumber = s.configurationNumber)
    (hdec : h.decree = s.maxAcceptedVote.decree) (hb : h.ballot = s.maxAcceptedVote.ballot)
    (hms : s.maxAcceptedVote.reconfiguration = some ms) (htop : s.configurationNumber < g.top)
    (hq : replayRecord q (.reconfigurationDecision h) = some q') (hid : s'.memberId = s.memberId)
    (hcfg : s'.paxosConfiguration =
      ⟨s.configurationNumber + 1, s.maxAcceptedVote.decree + 1, ms⟩)
    (hmax : s'.maxAcceptedVote =
      Vote.new s.memberId (s.maxAcceptedVote.decree + 1) 0 BallotNumber.empty)
    (hbal : s'.maxBallot = ⟨s.maxBallot.ballotId + 1, 0⟩)
    (hlog : s'.log = s.log ++ [.reconfigurationDecision h]) : ReplayMatch g s' q' := by
  have hpos : 0 < h.decree := lt_of_lt_of_le (lt_of_lt_of_le Nat.one_pos
    (le_max_left _ _)) hok.2.1
  have hqb : q.maxAcceptedVote.ballot = h.ballot := by rw [hm.ballot (by omega), hb]
  have hqd : q.maxAcceptedVote.decree = h.decree := by rw [hm.decree, hdec]
  -- both the replayed and the running vote were chosen at the decree of the decision
  have hrun := hg.chosen_of_decision hok (by rw [hb, hdec]; exact hd.vote)
  have hrep := hg.chosen_of_decision hok (by rw [← hqb, ← hqd]; exact hm.vote)
  have hcontent := (hg.closed_unique hok.2.1 hok.2.1 hrun.1 hrep.1 hrun.2 hrep.2).2
  have hqms : q.maxAcceptedVote.reconfiguration = some ms := by
    rw [← hms]; exact (congrArg Content.reconfiguration hcontent).symm
  have hinfo := hg.info_succ hd.pos htop hok.2.1 hrun.1 hms
  rw [hdec] at hinfo
  obtain ⟨hlast, rfl⟩ := replayRecord_decision hm hdec hpos hq
  have hstate : q.nextConfiguration q.maxAcceptedVote =
      ⟨s.configurationNumber + 1, s.maxAcceptedVote.decree + 1, ms⟩ := by
    rw [Replay.nextConfiguration, hqms, hm.stateNumber hd, hm.decree]
  have hcn : s'.configurationNumber = s.configurationNumber + 1 := by
    unfold Legislator.configurationNumber
    rw [hcfg]
    rfl
  have hp := hd.pos
  have hexec : g.ExecOk q.maxAcceptedVote :=
    hm.execOk hd (fun _ => by rw [hqd]; exact hrep.1) (by rw [hqb]; exact (ne_of_gt hok.1))
  refine ⟨by rw [hid]; exact hm.memberId, fun h1 => by omega,
    fun _ => ?_, by rw [hmax, ← hdec]; rfl,
    fun _ => by rw [hmax]; rfl, fun _ => rfl, ?_, fun hne => absurd rfl hne, .inr ?_,
    ?_, ?_, bot_le, ?_⟩
  · rw [hcfg]
    exact ⟨hstate, hstate⟩
  · rw [hcn]
    have hv := g.voteOk_placeholder (s.configurationNumber + 1)
    rw [hinfo, ← hdec] at hv
    exact hv
  · show q.lastExecutedDecree + 1 + 1 = h.decree + 1
    omega
  · exact forall_mem_append.mpr ⟨hm.executed, forall_mem_singleton.mpr hexec⟩
  · refine forall_mem_append.mpr ⟨hm.installed, forall_mem_singleton.mpr ?_⟩
    rw [show (q.execute q.maxAcceptedVote).stateConfiguration = _ from hstate]
    exact ⟨by simp, htop, hinfo.symm⟩
  · show BallotMatch s'.configurationNumber s'.maxBallot s'.log ⟨q.maxBallot.ballotId + 1, 0⟩
    rw [hcn, hbal, hlog]
    refine ⟨?_, fun x hx hxc _ => ?_, fun h1 => by omega, fun _ hpr => ?_⟩
    · have hle := hm.ballots.le
      rw [BallotNumber.le_iff] at hle ⊢
      simp only
      omega
    · -- no record of the new configuration exists yet
      rcases mem_append.mp hx with hx | hx
      · have := hd.configurations x hx
        omega
      · obtain rfl := mem_singleton.mp hx
        have : h.configurationNumber = s.configurationNumber + 1 := hxc
        omega
    · have heq := hm.ballots.eq_of_append hd.pos hd.positive
        (x := .reconfigurationDecision h) hc
          (by show h.ballot ≤ _; rw [← hqb]; exact hm.voteBallot) hpr
      rw [heq]

end Match

end Rsl
