import Rsl.Safety.Steps

/-!
# What the functions of a replica do

`Runs` says that a function of a replica, started in a state that satisfies the invariants, extends
the histories, ends with the invariants in force and, where it aborts, leaves a log from which the
replica can be rebuilt. This module has one such result for each function that logs, proposes,
prepares or installs a configuration.
-/

set_option autoImplicit false

namespace Rsl

open Legislator

variable {ρ : Type} {α β : Type}

/-! ## Runs -/

/-- The process has aborted: its log belongs to some state that satisfies the invariant. That state
need not be the one reached in memory, where a logged decision may not have been carried out. -/
def Down (initial : List Nat) (g : Ghost ρ) (r : Nat) (s : Legislator ρ) : Prop :=
  ∃ g' s₂, g.Grows r g' ∧ Held initial g' r s₂ ∧ s₂.log = s.log ∧ s₂.passed = s.passed ∧
    s₂.outbox = s.outbox ∧ s₂.proposed = s.proposed ∧ s₂.installed = s.installed

/-- The function extends the histories and ends in `F`. -/
def Runs (initial : List Nat) (g : Ghost ρ) (r : Nat) (s : Legislator ρ)
    (f : Act (Legislator ρ) α) (F : α → Ghost ρ → Legislator ρ → Prop) : Prop :=
  f.Sat s (fun a s' => ∃ g', g.Grows r g' ∧ Held initial g' r s' ∧ F a g' s') (Down initial g r)

section Rules

variable {initial : List Nat} {g g' : Ghost ρ} {r : Nat} {s : Legislator ρ}
  {F F' : α → Ghost ρ → Legislator ρ → Prop} {G : β → Ghost ρ → Legislator ρ → Prop}

theorem Held.down (h : Held initial g r s) : Down initial g r s :=
  ⟨g, s, Ghost.Grows.refl r g, h, rfl, rfl, rfl, rfl, rfl⟩

theorem Down.grow (hgr : g.Grows r g') (h : Down initial g' r s) : Down initial g r s := by
  obtain ⟨g₂, s₂, hgr₂, h⟩ := h
  exact ⟨g₂, s₂, hgr.trans hgr₂, h⟩

variable {f : Act (Legislator ρ) α}

theorem Runs.grow (hgr : g.Grows r g') (h : Runs initial g' r s f F) :
    Runs initial g r s f F :=
  Act.Sat.mono h (fun _ _ ⟨g₂, hgr₂, h⟩ => ⟨g₂, hgr.trans hgr₂, h⟩) fun _ => Down.grow hgr

theorem Runs.mono (h : Runs initial g r s f F)
    (hF : ∀ a g' s', g.Grows r g' → Held initial g' r s' → F a g' s' → F' a g' s') :
    Runs initial g r s f F' :=
  Act.Sat.mono h (fun a s' ⟨g₂, hgr, hh, hf⟩ => ⟨g₂, hgr, hh, hF a g₂ s' hgr hh hf⟩) fun _ => id

theorem Runs.bind {k : α → Act (Legislator ρ) β} (hf : Runs initial g r s f F)
    (hk : ∀ a g' s', g.Grows r g' → Held initial g' r s' → F a g' s' →
      Runs initial g' r s' (k a) G) : Runs initial g r s (f >>= k) G :=
  Act.Sat.bind hf fun a s' ⟨g', hgr, hh, hF⟩ => (hk a g' s' hgr hh hF).grow hgr

theorem Runs.get_bind {k : Legislator ρ → Act (Legislator ρ) α}
    (h : Runs initial g r s (k s) F) : Runs initial g r s (Act.get >>= k) F := h

theorem Runs.modify_bind {f : Legislator ρ → Legislator ρ} {k : Unit → Act (Legislator ρ) α}
    (h : Runs initial g r (f s) (k ()) F) : Runs initial g r s (Act.modify f >>= k) F := h

theorem Runs.assert_bind {c : Bool} {k : Unit → Act (Legislator ρ) α}
    (hh : Held initial g r s) (h : c = true → Runs initial g r s (k ()) F) :
    Runs initial g r s (Act.assert c >>= k) F :=
  Act.Sat.assert_bind h hh.down

theorem Runs.pure {a : α} (hh : Held initial g r s) (h : F a g s) :
    Runs initial g r s (Pure.pure a) F :=
  Act.Sat.pure ⟨g, Ghost.Grows.refl r g, hh, h⟩

theorem Runs.modify {f : Legislator ρ → Legislator ρ}
    {F : Unit → Ghost ρ → Legislator ρ → Prop} (hh : Held initial g r (f s)) (h : F () g (f s)) :
    Runs initial g r s (Act.modify f) F :=
  ⟨g, Ghost.Grows.refl r g, hh, h⟩

theorem Runs.abort (hh : Held initial g r s) : Runs initial g r s (Act.abort : Act _ α) F :=
  Act.Sat.abort hh.down

theorem Runs.ite {c : Prop} [Decidable c] {f k : Act (Legislator ρ) α}
    (hf : c → Runs initial g r s f F) (hk : ¬ c → Runs initial g r s k F) :
    Runs initial g r s (if c then f else k) F :=
  Act.Sat.ite hf hk

end Rules

/-! ## What stays -/

/-- The fields the volatile invariant reads are the same, apart from the max accepted vote and the
ballot. -/
structure SameVolatile (s s' : Legislator ρ) : Prop where
  memberId : s'.memberId = s.memberId
  paxosConfiguration : s'.paxosConfiguration = s.paxosConfiguration
  state : s'.state = s.state
  outstandingVote : s'.outstandingVote = s.outstandingVote
  oldFreshestVote : s'.oldFreshestVote = s.oldFreshestVote
  lastPrepareMsg : s'.lastPrepareMsg = s.lastPrepareMsg
  responseMap : s'.responseMap = s.responseMap
  relinquishPrimary : s'.relinquishPrimary = s.relinquishPrimary
  voteCache : s'.voteCache = s.voteCache

section Same

variable {s s' s'' : Legislator ρ}

theorem SameVolatile.refl (s : Legislator ρ) : SameVolatile s s :=
  ⟨rfl, rfl, rfl, rfl, rfl, rfl, rfl, rfl, rfl⟩

theorem SameVolatile.trans (h : SameVolatile s s') (h' : SameVolatile s' s'') :
    SameVolatile s s'' where
  memberId := h'.memberId.trans h.memberId
  paxosConfiguration := h'.paxosConfiguration.trans h.paxosConfiguration
  state := h'.state.trans h.state
  outstandingVote := h'.outstandingVote.trans h.outstandingVote
  oldFreshestVote := h'.oldFreshestVote.trans h.oldFreshestVote
  lastPrepareMsg := h'.lastPrepareMsg.trans h.lastPrepareMsg
  responseMap := h'.responseMap.trans h.responseMap
  relinquishPrimary := h'.relinquishPrimary.trans h.relinquishPrimary
  voteCache := h'.voteCache.trans h.voteCache

theorem SameVolatile.configurationNumber (h : SameVolatile s s') :
    s'.configurationNumber = s.configurationNumber :=
  congrArg ConfigurationInfo.configurationNumber h.paxosConfiguration

theorem SameVolatile.replicas (h : SameVolatile s s') : s'.replicas = s.replicas := by
  unfold Legislator.replicas
  rw [h.memberId, h.paxosConfiguration]

theorem sameVolatile_logged (s : Legislator ρ) (v : Vote ρ) : SameVolatile s (s.logged v) := by
  obtain ⟨n, hn⟩ := s.logged_eq v
  rw [hn]
  exact ⟨rfl, rfl, rfl, rfl, rfl, rfl, rfl, rfl, rfl⟩

theorem sameVolatile_promised (s : Legislator ρ) (m : Header) : SameVolatile s (s.promised m) := by
  rw [promised_eq]
  exact ⟨rfl, rfl, rfl, rfl, rfl, rfl, rfl, rfl, rfl⟩

end Same

/-- The histories have no new proposal. -/
def Quiet (g g' : Ghost ρ) : Prop := ∀ c b d v, (g'.hist c).prop b d v → (g.hist c).prop b d v

theorem Quiet.refl (g : Ghost ρ) : Quiet g g := fun _ _ _ _ => id

theorem quiet_setHist {g : Ghost ρ} {c : Nat} {h : Hist ρ}
    (hh : ∀ b d v, h.prop b d v → (g.hist c).prop b d v) : Quiet g (g.setHist c h) := by
  intro c' b d v hp
  by_cases hc : c' = c
  · subst hc
    rw [Ghost.setHist_hist_self] at hp
    exact hh b d v hp
  · rwa [Ghost.setHist_hist_ne _ hc] at hp

theorem quiet_raise (g : Ghost ρ) (c r : Nat) (b : BallotNumber) : Quiet g (g.raise c r b) :=
  quiet_setHist fun _ _ _ => id

theorem quiet_accept (g : Ghost ρ) (c r : Nat) (b : BallotNumber) (d : Nat) :
    Quiet g (g.accept c r b d) :=
  quiet_setHist fun _ _ _ => id

section Functions

variable {initial : List Nat} {g g' : Ghost ρ} {r : Nat} {s s' : Legislator ρ}

/-- A ballot above one's own promise was issued by someone else. -/
theorem Held.foreign (h : Held initial g r s) (hr : r ≠ 0) {b : BallotNumber}
    (hb : g.Owned s.configurationNumber b) (hlt : s.maxBallot < b) : b.memberId ≠ r := by
  rintro rfl
  rcases hb with hb | hb
  · exact hr hb
  · rw [h.durable.bal] at hb
    exact absurd hlt (not_lt.mpr hb)

/-- A replica that is not the primary logs a record of someone else. -/
theorem Volatile.step (hv : Volatile g r s) (hd : Durable g r s) (hgr : g.Grows r g')
    (hq : Quiet g g') (hs : SameVolatile s s') (hstate : s.state ≠ .stablePrimary)
    (hle : s.maxBallot ≤ s'.maxBallot)
    (hbal : s'.maxBallot = s.maxBallot ∨ s'.maxBallot.memberId ≠ r) : Volatile g' r s' := by
  have hv' := hv.grow hgr hd fun b d v _ hp => hq _ b d v hp
  have hcn := hs.configurationNumber
  refine ⟨?_, ?_, ?_, fun hp => ?_, fun hp => absurd (hs.state.symm.trans hp) hstate⟩
  · rw [hs.state, hs.paxosConfiguration]; exact hv'.nonempty
  · rw [hs.voteCache]; exact hv'.cache
  · rw [hs.responseMap]; exact hv'.nodup
  · obtain ⟨p, h1, h2, hid, h3, hi, h4, h5, h6, h7⟩ := hv'.preparing (hs.state.symm.trans hp)
    refine ⟨p, by rw [hs.lastPrepareMsg]; exact h1, by rw [hcn]; exact h2, hid, h3,
      by rw [hcn]; exact hi, le_trans h4 hle, ?_, by rw [hcn]; exact h6, ?_⟩
    · rcases hbal with hb | hb
      · rw [hb]; exact h5
      · exact .inr hb
    · rw [hcn, hs.responseMap, hs.oldFreshestVote]; exact h7

/-! ## Logging -/

variable {v : Vote ρ}

theorem logVote_next {Q : Unit → Legislator ρ → Prop} {E : Legislator ρ → Prop}
    (hnext : isNextDecree v.decree v.ballot s.maxAcceptedVote.decree s.maxAcceptedVote.ballot)
    (hne : s.maxAcceptedVote.decree ≠ v.decree ∨ s.maxAcceptedVote.ballot ≠ v.ballot)
    (h : Q () (s.logged v)) : (logVote v).Sat s Q E := by
  unfold logVote
  refine Act.Sat.get_bind (Act.Sat.ite (fun hsame => ?_) fun _ => ?_)
  · rw [isSameDecree_iff] at hsame
    rcases hne with hne | hne
    · exact absurd hsame.1 hne
    · exact absurd hsame.2 hne
  · rw [hnext]
    exact h

theorem logVote_runs (h : Held initial g r s)
    (hv : g.VoteOk s.configurationNumber v.ballot v.decree v.content) (hb : v.ballot ≠ ⊥)
    (hc : v.configurationNumber = s.configurationNumber) :
    Runs initial g r s (logVote v) fun _ g' s' =>
      Quiet g g' ∧ SameVolatile s s' ∧ s'.maxAcceptedVote = v ∧
        s'.maxBallot = max s.maxBallot v.ballot := by
  unfold logVote
  refine Runs.get_bind (Runs.ite (fun hsame => ?_) fun hne => ?_)
  · rw [isSameDecree_iff] at hsame
    refine Runs.modify (h.vote_replaced hsame.1.symm hsame.2.symm hv hc)
      ⟨Quiet.refl g, ⟨rfl, rfl, rfl, rfl, rfl, rfl, rfl, rfl, rfl⟩, rfl, ?_⟩
    rw [← hsame.2]
    exact (max_eq_left h.durable.voteBallot).symm
  · refine Runs.assert_bind h fun hnext => ?_
    refine Runs.grow (g.grows_raise s.configurationNumber r v.ballot)
      (Runs.modify (h.vote_logged hnext hv hb hc)
        ⟨quiet_raise _ _ _ _, sameVolatile_logged s v, ?_⟩)
    obtain ⟨n, hn⟩ := s.logged_eq v
    rw [hn]
    exact ⟨rfl, rfl⟩

theorem logPrepare_runs (h : Held initial g r s) {m : Header}
    (hc : m.configurationNumber = s.configurationNumber)
    (hdec : s.maxAcceptedVote.decree ≤ m.decree) (hi : g.Issued s.configurationNumber m.ballot) :
    Runs initial g r s (logPrepare m) fun _ g' s' =>
      Quiet g g' ∧ SameVolatile s s' ∧ s'.maxAcceptedVote = s.maxAcceptedVote ∧
        s.maxBallot ≤ m.ballot ∧ s'.maxBallot = m.ballot := by
  unfold logPrepare
  refine Runs.get_bind (Runs.assert_bind h fun hle => Runs.ite (fun heq => ?_) fun hne => ?_)
  · have hle' := of_decide_eq_true hle
    exact Runs.pure h ⟨Quiet.refl g, SameVolatile.refl s, rfl, hle', heq.symm⟩
  · have hle' := of_decide_eq_true hle
    have hlt : s.maxBallot < m.ballot := lt_of_le_of_ne hle' fun h => hne h.symm
    have hgr := g.grows_raise s.configurationNumber r m.ballot
    refine Runs.grow hgr (Runs.modify (h.prepare_logged hc hdec hlt (hi.mono hgr))
      ⟨quiet_raise _ _ _ _, sameVolatile_promised s m, ?_⟩)
    rw [promised_eq]
    exact ⟨rfl, hle', max_eq_right hle'⟩

theorem addToExecutionQueue_runs (o : Oracle ρ) (h : Held initial g r s) (hv : g.ExecOk v) :
    Runs initial g r s (addToExecutionQueue o v) fun _ g' s' =>
      g' = g ∧ SameCore s s' ∧ SameVolatile s s' := by
  unfold addToExecutionQueue
  refine Runs.get_bind (Runs.ite (fun _ => ?_) fun _ => Runs.assert_bind h fun _ => ?_)
  · exact Runs.pure h ⟨rfl, ⟨rfl, rfl, rfl, rfl, rfl⟩, SameVolatile.refl s⟩
  · refine Runs.modify ⟨h.inv, h.durable.frame ⟨rfl, rfl, rfl, rfl, rfl⟩ ?_
      h.durable.outbox h.durable.proposed h.durable.installed⟩
      ⟨rfl, ⟨rfl, rfl, rfl, rfl, rfl⟩, ⟨rfl, rfl, rfl, rfl, rfl, rfl, rfl, rfl, rfl⟩⟩
    exact List.forall_mem_append.mpr ⟨h.durable.passed, List.forall_mem_singleton.mpr hv⟩

theorem logAndAcceptVote_runs (o : Oracle ρ) (h : Held initial g r s)
    (hv : g.VoteOk s.configurationNumber v.ballot v.decree v.content)
    (hb : v.ballot = ⊥ → v.decree = s.maxAcceptedVote.decree + 1) :
    Runs initial g r s (logAndAcceptVote o v) fun _ g' s' =>
      Quiet g g' ∧ SameVolatile s s' ∧ s'.maxAcceptedVote = v ∧
        s'.maxBallot = max s.maxBallot v.ballot := by
  unfold logAndAcceptVote
  refine Runs.get_bind (Runs.assert_bind h fun hnext => Runs.assert_bind h fun hc => ?_)
  have hd := h.durable
  rw [isNextDecree_iff] at hnext
  refine Runs.ite (fun hsucc => Runs.assert_bind h fun hne => ?_) fun hns =>
    logVote_runs h hv (fun hbot => hns (hb hbot)) (of_decide_eq_true hc)
  have hb' : v.ballot ≠ ⊥ := of_decide_eq_true hne
  have hbal : v.ballot = s.maxAcceptedVote.ballot := by
    rcases hnext with ⟨h1, _⟩ | ⟨_, h1⟩
    · omega
    · exact h1
  have hexec := (h.inv.execOk_of_next hd.pos hd.top
    (hd.voteConfiguration (by rw [← hbal]; exact hb')) hd.vote hv hsucc hbal).1
  refine (addToExecutionQueue_runs o h hexec).bind ?_
  rintro _ g' s' _ h' ⟨rfl, hcore, hsame⟩
  have hcn := hsame.configurationNumber
  refine (logVote_runs h' (by rw [hcn]; exact hv) hb'
    (by rw [hcn]; exact of_decide_eq_true hc)).mono ?_
  rintro _ g₂ s₂ _ _ ⟨hq, hsame', hmax, hmb⟩
  exact ⟨hq, hsame.trans hsame', hmax, by rw [hmb, hcore.maxBallot]⟩

end Functions

end Rsl
