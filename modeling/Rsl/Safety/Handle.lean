import Rsl.Handlers
import Rsl.Safety.Elect

/-!
# What the message handlers do

Every handler keeps the invariants of the replica that runs it, given that the message it handles
was really sent. The result for each handler is a `Keeps` statement; `handleMessage_keeps` and
`handleNewVotes_keeps` collect them.
-/

set_option autoImplicit false

namespace Rsl

open Voting Runs List

variable {ρ : Type} {initial : List Nat} {g : Ghost ρ} {r : Nat} {s : Legislator ρ} {o : Oracle ρ}

/-- The function keeps the invariants of a running replica. -/
def Keeps (initial : List Nat) (g : Ghost ρ) (r : Nat) (s : Legislator ρ)
    (f : Act (Legislator ρ) Unit) : Prop :=
  Runs initial g r s f fun _ g' s' => Volatile g' r s'

theorem keeps_pure (h : Held initial g r s) (hv : Volatile g r s) :
    Keeps initial g r s (pure ()) :=
  pure h hv

theorem startInitializing_keeps (hr : r ≠ 0) (h : Held initial g r s) (hready : Ready g s) :
    Keeps initial g r s (startInitializing o) :=
  (startInitializing_runs hr o g s h hready).mono fun _ _ _ _ _ hs => hs.volatile

/-- A packet is sent. -/
theorem send_keeps (h : Held initial g r s) (hv : Volatile g r s) {dst : Nat}
    {p : Legislator ρ → Payload ρ} (hp : g.PacketOk ⟨s.memberId, dst, p s⟩) :
    Keeps initial g r s (Act.modify fun s => s.send dst (p s)) :=
  modify ⟨h.inv, h.durable.send dst (p s) hp⟩
    (hv.keep ⟨rfl, rfl, rfl, rfl, rfl, rfl, rfl, rfl, rfl⟩ rfl rfl)

/-- Becoming a secondary drops what a primary or a candidate knows. -/
theorem startBeingStableSecondary_keeps (h : Held initial g r s) (hready : Ready g s) :
    Runs initial g r s startBeingStableSecondary fun _ g' s' =>
      Volatile g' r s' ∧ g' = g ∧ SameCore s s' ∧ s'.state = .stableSecondary ∧
        s'.relinquishPrimary = s.relinquishPrimary :=
  modify (h.keep ⟨rfl, rfl, rfl, rfl, rfl⟩ rfl rfl rfl rfl)
    ⟨Ready.volatile ⟨hready.nonempty, hready.cache⟩ nodup_nil LegislatorState.noConfusion
      LegislatorState.noConfusion, rfl, ⟨rfl, rfl, rfl, rfl, rfl⟩, rfl, rfl⟩

/-! ## Verification of messages -/

/-- A verified message comes from another member of the configuration. -/
structure Verified (s : Legislator ρ) (r src : Nat) (m : Header) : Prop where
  configuration : m.configurationNumber = s.configurationNumber
  active : s.state ≠ .paxosInactive
  member : m.memberId ∈ s.paxosConfiguration.members
  other : m.memberId ≠ r
  source : m.memberId = src

variable {src : Nat} {m : Header} {vote : Vote ρ} {x : Nat}

theorem Verified.mem_members (hver : Verified s r src m)
    (hd : Durable g r s) : m.memberId ∈ g.members s.configurationNumber := by
  unfold Ghost.members
  rw [← hd.configuration, mem_toFinset]
  exact hver.member

theorem verifyMessage_runs (h : Held initial g r s) (src : Nat) (m : Header) :
    Runs initial g r s (verifyMessage src m) fun valid g' s' =>
      g' = g ∧ SameCore s s' ∧ SameVolatile s s' ∧ (valid = true → Verified s' r src m) := by
  have hcore : SameCore s s := ⟨rfl, rfl, rfl, rfl, rfl⟩
  unfold verifyMessage
  refine get_bind (ite (fun _ => ?_) fun _ => ite (fun _ => ?_) fun h2 =>
    ite (fun _ => ?_) fun h3 => ite (fun _ => ?_) fun h4 => ite (fun _ => ?_) fun _ =>
    ite (fun _ => ?_) fun h6 => ?_)
  · exact modify_bind (pure ⟨h.inv, h.durable.send _ _ trivial⟩
      ⟨rfl, ⟨rfl, rfl, rfl, rfl, rfl⟩, ⟨rfl, rfl, rfl, rfl, rfl, rfl, rfl, rfl, rfl⟩,
        by simp⟩)
  · exact pure h ⟨rfl, hcore, SameVolatile.refl s, by simp⟩
  · exact modify_bind (pure ⟨h.inv, h.durable.send _ _ trivial⟩
      ⟨rfl, ⟨rfl, rfl, rfl, rfl, rfl⟩, ⟨rfl, rfl, rfl, rfl, rfl, rfl, rfl, rfl, rfl⟩,
        by simp⟩)
  · exact pure h ⟨rfl, hcore, SameVolatile.refl s, by simp⟩
  · exact pure h ⟨rfl, hcore, SameVolatile.refl s, by simp⟩
  · exact pure h ⟨rfl, hcore, SameVolatile.refl s, by simp⟩
  · rw [not_or, not_not, not_not] at h6
    have hmem := mem_filter.mp h6.1
    have hver : Verified s r src m :=
      ⟨by omega, h4, hmem.1, by rw [← h.durable.memberId]; exact of_decide_eq_true hmem.2, h6.2⟩
    refine modify_bind ?_
    by_cases hlt : s.maxSeenBallot < m.ballot
    · rw [if_pos hlt]
      exact pure (h.keep ⟨rfl, rfl, rfl, rfl, rfl⟩ rfl rfl rfl rfl)
        ⟨rfl, ⟨rfl, rfl, rfl, rfl, rfl⟩, ⟨rfl, rfl, rfl, rfl, rfl, rfl, rfl, rfl, rfl⟩,
          fun _ => ⟨hver.configuration, hver.active, hver.member, hver.other, hver.source⟩⟩
    · rw [if_neg hlt]
      exact pure h ⟨rfl, hcore, SameVolatile.refl s, fun _ => hver⟩

theorem sendDefunctConfigurationMessage_keeps (h : Held initial g r s) (hv : Volatile g r s)
    (dst : Nat) : Keeps initial g r s (sendDefunctConfigurationMessage dst) :=
  send_keeps h hv (p := fun s => .message ⟨⟨s.memberId, 0, s.highestDefunctConfigurationNumber,
    BallotNumber.empty⟩, .defunctConfiguration⟩) trivial

theorem updateDefunctInfo_keeps (hr : r ≠ 0) (h : Held initial g r s) (hv : Volatile g r s)
    (n : Nat) : Keeps initial g r s (updateDefunctInfo o n) := by
  unfold updateDefunctInfo
  refine get_bind (ite (fun _ => keeps_pure h hv) fun _ => ite (fun hc => ?_)
    fun _ => ?_)
  · exact startInitializing_keeps hr h (hv.ready hc.2)
  · exact modify (h.keep ⟨rfl, rfl, rfl, rfl, rfl⟩ rfl rfl rfl rfl)
      (hv.keep ⟨rfl, rfl, rfl, rfl, rfl, rfl, rfl, rfl, rfl⟩ rfl rfl)

/-! ## Votes -/

theorem receiveVote_keeps (h : Held initial g r s) (hv : Volatile g r s)
    (hsent : g.SentVoteOk src vote) (cacheFull : Bool) :
    Keeps initial g r s (receiveVote src vote cacheFull) := by
  unfold receiveVote
  refine get_bind (ite (fun _ => keeps_pure h hv) fun _ => ?_)
  refine modify (h.keep ⟨rfl, rfl, rfl, rfl, rfl⟩ rfl rfl rfl rfl)
    ⟨hv.nonempty, fun e he => ?_, hv.nodup, hv.preparing,
      fun hst => (hv.primary hst).imp id fun ho => ho.congr rfl rfl rfl rfl rfl⟩
  rcases mem_append.mp he with he | he
  · cases cacheFull with
    | true => exact absurd he not_mem_nil
    | false => exact hv.cache e he
  · obtain rfl := mem_singleton.mp he
    exact hsent

/-- The promised ballot of a replica in a configuration that was entered was issued. -/
theorem Durable.issued (hd : Durable g r s)
    (hent : 2 ≤ s.configurationNumber → g.Entered s.configurationNumber) :
    g.Issued s.configurationNumber s.maxBallot :=
  ⟨hd.owned, hent⟩

/-- The vote just logged is answered: at the promised ballot this is an acceptance. -/
theorem respondToVote_runs (h : Held initial g r s) (hv : Volatile g r s)
    (hent : 2 ≤ s.configurationNumber → g.Entered s.configurationNumber)
    (hmax : s.maxAcceptedVote = vote) :
    Runs initial g r s (respondToVote o src vote) fun _ g' s' =>
      Volatile g' r s' ∧ s'.relinquishPrimary = s.relinquishPrimary ∧
        s'.paxosConfiguration = s.paxosConfiguration := by
  have hd := h.durable
  unfold respondToVote
  refine get_bind (ite (fun _ => modify_bind ?_) fun hge => ite (fun _ =>
    modify_bind ?_) fun _ => ?_)
  · exact pure ⟨h.inv, hd.send _ _ (hd.issued hent)⟩
      ⟨hv.keep ⟨rfl, rfl, rfl, rfl, rfl, rfl, rfl, rfl, rfl⟩ rfl rfl, rfl, rfl⟩
  · have hb : s.maxAcceptedVote.ballot = s.maxBallot := by
      refine le_antisymm hd.voteBallot ?_
      rw [hmax]
      exact not_lt.mp hge
    have h' := h.accept hb
    have hgr := Ghost.grows_accept s.maxAcceptedVote.decree (le_of_eq hd.bal)
    have hv' : Volatile _ r s := hv.grow hgr hd fun b d v _ hp => quiet_accept g _ _ _ _ _ b d v hp
    refine grow hgr (pure ⟨h'.inv, h'.durable.send _ _ ?_⟩
      ⟨hv'.keep ⟨rfl, rfl, rfl, rfl, rfl, rfl, rfl, rfl, rfl⟩ rfl rfl, rfl, rfl⟩)
    show (Ghost.hist _ s.configurationNumber).acc s.memberId s.maxBallot s.maxAcceptedVote.decree
    rw [hd.memberId]
    exact Ghost.accept_acc_self _ _
  · exact pure h ⟨hv, rfl, rfl⟩

/-- The vote that passed the checks of the loop is logged by a replica that is not the primary. -/
theorem acceptVote_runs (hr : r ≠ 0) (h : Held initial g r s) (hv : Volatile g r s)
    (hstate : s.state ≠ .stablePrimary) (vote : Vote ρ)
    (hb : vote.ballot = ⊥ → vote.decree = s.maxAcceptedVote.decree + 1)
    (hvote : g.VoteOk s.configurationNumber vote.ballot vote.decree vote.content) :
    Runs initial g r s (logAndAcceptVote o vote) fun _ g' s' =>
      Volatile g' r s' ∧ SameVolatile s s' ∧ s'.maxAcceptedVote = vote := by
  refine (logAndAcceptVote_runs o h hvote hb).mono ?_
  rintro _ g' s' hgr _ ⟨hq, hsame, hmax, hmb⟩
  refine ⟨hv.step h.durable hgr hq hsame hstate ?_ ?_, hsame, hmax⟩
  · rw [hmb]; exact le_max_left _ _
  · rw [hmb]
    rcases le_or_gt vote.ballot s.maxBallot with hle | hlt
    · exact .inl (max_eq_left hle)
    · rw [max_eq_right (le_of_lt hlt)]
      exact .inr (h.foreign hr (h.inv.owned_of_voteOk hvote) hlt)

/-- A replica that is not the primary drops its outstanding vote. -/
theorem checkNotifyStatus_runs (h : Held initial g r s) (hv : Volatile g r s)
    (hstate : s.state ≠ .stablePrimary) (status : Bool) :
    Runs initial g r s (checkNotifyStatus status) fun _ g' s' =>
      Volatile g' r s' ∧ g' = g ∧ SameCore s s' ∧ s'.state = s.state ∧
        s'.relinquishPrimary = s.relinquishPrimary := by
  unfold checkNotifyStatus
  by_cases heq : status = s.isPrimary
  · refine modify (by rw [if_pos heq]; exact h) ?_
    rw [if_pos heq]
    exact ⟨hv, rfl, ⟨rfl, rfl, rfl, rfl, rfl⟩, rfl, rfl⟩
  · refine modify ?_ ?_ <;> rw [if_neg heq]
    · exact h.keep ⟨rfl, rfl, rfl, rfl, rfl⟩ rfl rfl rfl rfl
    · exact ⟨⟨hv.nonempty, hv.cache, hv.nodup, hv.preparing, fun hst => absurd hst hstate⟩, rfl,
        ⟨rfl, rfl, rfl, rfl, rfl⟩, rfl, rfl⟩

/-- A primary that has not given up meets only lower votes and votes of higher ballots. -/
theorem Volatile.not_primary_of_vote (hv : Volatile g r s) (hrel : s.relinquishPrimary = false)
    (hsent : g.SentVoteOk src vote) (hsrc : src ≠ r)
    (hnext : isNextDecree vote.decree vote.ballot s.maxAcceptedVote.decree
      s.maxAcceptedVote.ballot) (hnot : ¬ (s.amPrimary = true ∧ s.maxBallot < vote.ballot)) :
    s.state ≠ .stablePrimary := by
  intro hst
  rcases hv.primary hst with ⟨hr', _⟩ | ho
  · rw [hrel] at hr'
    exact absurd hr' (by decide)
  · have hle : vote.ballot ≤ s.maxBallot := by
      rw [not_and, not_lt] at hnot
      exact hnot (decide_eq_true hst)
    have heq : vote.ballot = s.maxBallot := by
      rw [isNextDecree_iff, ho.ballot] at hnext
      rcases hnext with ⟨_, h1⟩ | ⟨_, h1⟩
      · exact le_antisymm hle h1
      · exact h1
    exact hsrc (by rw [hsent.1, heq, ho.owner])

theorem playVotes_keeps (hr : r ≠ 0) (l : List (Nat × Vote ρ)) :
    ∀ (accepted : Bool) (g : Ghost ρ) (s : Legislator ρ), Held initial g r s → Volatile g r s →
      s.relinquishPrimary = false → (∀ e ∈ l, g.SentVoteOk e.1 e.2) →
      (accepted = true → s.paxosConfiguration.members ≠ []) →
      Keeps initial g r s (playVotes o l accepted) := by
  induction l with
  | nil =>
    intro accepted g s h hv _ _ hacc
    refine ite (fun ha => ?_) fun _ => keeps_pure h hv
    exact (startBeingStableSecondary_keeps h ⟨hacc ha, hv.cache⟩).mono fun _ _ _ _ _ hs => hs.1
  | cons e rest ih =>
    obtain ⟨src, vote⟩ := e
    intro accepted g s h hv hrel hl hacc
    have hsent : g.SentVoteOk src vote := hl (src, vote) mem_cons_self
    have hrest : ∀ e ∈ rest, g.SentVoteOk e.1 e.2 := fun e he => hl e (mem_cons_of_mem _ he)
    unfold playVotes
    refine (verifyMessage_runs h src vote.toHeader).bind ?_
    rintro valid g₁ s₁ _ h₁ ⟨rfl, hcore, hsame, hver⟩
    have hv₁ := hv.keep hsame hcore.maxAcceptedVote hcore.maxBallot
    have hrel₁ := hsame.relinquishPrimary.trans hrel
    have hacc₁ : accepted = true → s₁.paxosConfiguration.members ≠ [] := by
      rw [hsame.paxosConfiguration]; exact hacc
    refine ite (fun hvalid => get_bind ?_) fun _ => ih _ _ _ h₁ hv₁ hrel₁ hrest hacc₁
    have hver' := hver hvalid
    have hready := hv₁.ready hver'.active
    have hprop : (g₁.hist s₁.configurationNumber).prop vote.ballot vote.decree vote.content := by
      rw [← hver'.configuration]
      exact hsent.2.2.2.2.2.1
    have hent := h₁.inv.entered_of_prop h₁.durable.pos h₁.durable.top hsent.2.1 hprop
    have hvote : g₁.VoteOk s₁.configurationNumber vote.ballot vote.decree vote.content :=
      h₁.inv.voteOk _ hprop
    -- logging the vote, answering it, and the rest of the queue
    have hplay : ∀ (g₂ : Ghost ρ) (s₂ : Legislator ρ), g₁.Grows r g₂ → Held initial g₂ r s₂ →
        Volatile g₂ r s₂ → s₂.relinquishPrimary = false → s₂.state ≠ .stablePrimary →
        s₂.paxosConfiguration = s₁.paxosConfiguration →
        Keeps initial g₂ r s₂ (do
          logAndAcceptVote o vote
          if rest.head?.map Prod.fst = some src then
            playVotes o rest true
          else do
            let relinquished ← respondToVote o src vote
            if relinquished then
              Act.modify fun s => { s with forceReelection := true }
            else
              playVotes o rest true) := by
      intro g₂ s₂ hgr₂ h₂ hv₂ hrel₂ hst₂ hpc₂
      have hcn₂ : s₂.configurationNumber = s₁.configurationNumber :=
        congrArg ConfigurationInfo.configurationNumber hpc₂
      have hvote₂ : g₂.VoteOk s₂.configurationNumber vote.ballot vote.decree vote.content := by
        rw [hcn₂]; exact hvote.mono hgr₂ h₁.durable.pos h₁.durable.top
      refine (acceptVote_runs hr h₂ hv₂ hst₂ vote (fun hbot => absurd hbot hsent.2.1)
        hvote₂).bind ?_
      rintro _ g₃ s₃ hgr₃ h₃ ⟨hv₃, hsame₃, hmax₃⟩
      have hrel₃ := hsame₃.relinquishPrimary.trans hrel₂
      have hne₃ : s₃.paxosConfiguration.members ≠ [] := by
        rw [hsame₃.paxosConfiguration, hpc₂]; exact hready.nonempty
      have hent₃ : g₃.Entered s₃.configurationNumber := by
        rw [hsame₃.configurationNumber, hcn₂]; exact hent.mono (hgr₂.trans hgr₃)
      have hrest₃ : ∀ e ∈ rest, g₃.SentVoteOk e.1 e.2 :=
        fun e he => (hrest e he).mono (hgr₂.trans hgr₃)
      refine ite (fun _ => ih _ _ _ h₃ hv₃ hrel₃ hrest₃ fun _ => hne₃) fun _ => ?_
      refine (respondToVote_runs h₃ hv₃ (fun _ => hent₃) hmax₃).bind ?_
      rintro relinquished g₄ s₄ hgr₄ h₄ ⟨hv₄, hrel₄, hpc₄⟩
      refine ite (fun _ => ?_) fun _ => ih _ _ _ h₄ hv₄ (hrel₄.trans hrel₃)
        (fun e he => (hrest₃ e he).mono hgr₄) fun _ => ?_
      · exact modify (h₄.keep ⟨rfl, rfl, rfl, rfl, rfl⟩ rfl rfl rfl rfl)
          (hv₄.keep ⟨rfl, rfl, rfl, rfl, rfl, rfl, rfl, rfl, rfl⟩ rfl rfl)
      · rw [hpc₄]; exact hne₃
    refine ite (fun _ => ite (fun _ => modify_bind ?_) fun _ => ?_) fun _ =>
      ite (fun hnext => ite (fun _ => ?_) fun hnot => ?_) fun _ => ?_
    · exact ih _ _ _ ⟨h₁.inv, h₁.durable.send _ _ (h₁.durable.issued fun _ => hent)⟩
        (hv₁.keep ⟨rfl, rfl, rfl, rfl, rfl, rfl, rfl, rfl, rfl⟩ rfl rfl) hrel₁ hrest hacc₁
    · exact ih _ _ _ h₁ hv₁ hrel₁ hrest hacc₁
    · refine (startBeingStableSecondary_keeps h₁ hready).bind ?_
      rintro _ g₂ s₂ hgr₂ h₂ ⟨hv₂, rfl, hcore₂, hst₂, hrel₂⟩
      refine (checkNotifyStatus_runs h₂ hv₂ (by rw [hst₂]; exact LegislatorState.noConfusion)
        false).bind ?_
      rintro _ g₃ s₃ _ h₃ ⟨hv₃, rfl, hcore₃, hst₃, hrel₃⟩
      exact hplay _ _ (Ghost.Grows.refl r _) h₃ hv₃ (hrel₃.trans (hrel₂.trans hrel₁))
        (by rw [hst₃, hst₂]; exact LegislatorState.noConfusion)
        (hcore₃.paxosConfiguration.trans hcore₂.paxosConfiguration)
    · exact hplay _ _ (Ghost.Grows.refl r _) h₁ hv₁ hrel₁
        (hv₁.not_primary_of_vote hrel₁ hsent (by rw [← hver'.source]; exact hver'.other) hnext hnot)
        rfl
    · exact startInitializing_keeps hr h₁ hready

theorem handleNewVotes_keeps (hr : r ≠ 0) (h : Held initial g r s) (hv : Volatile g r s) :
    Keeps initial g r s (handleNewVotes o) := by
  unfold handleNewVotes
  have h' : Held initial g r { s with voteCache := [] } :=
    h.keep ⟨rfl, rfl, rfl, rfl, rfl⟩ rfl rfl rfl rfl
  refine get_bind (ite (fun _ => keeps_pure h hv) fun _ => modify_bind
    (ite (fun _ => abort h') fun hrel => ?_))
  refine playVotes_keeps hr s.voteCache false g _ h' ⟨hv.nonempty, fun e he => ?_, hv.nodup,
    hv.preparing, fun hst => (hv.primary hst).imp id fun ho => ho.congr rfl rfl rfl rfl rfl⟩
    (by simpa using hrel) hv.cache (by simp)
  exact absurd he not_mem_nil

/-! ## Acceptances -/

/-- The responses of an outstanding vote, with one more, and its quorum. -/
theorem OwnVote.insert_response (ho : OwnVote g r s) (hx : x ≠ r)
    (hmem : x ∈ g.members s.configurationNumber)
    (hacc : (g.hist s.configurationNumber).acc x s.maxBallot s.maxAcceptedVote.decree) :
    ∀ r' ∈ s.responseMap.insert x, r' ≠ r ∧ r' ∈ g.members s.configurationNumber ∧
      (g.hist s.configurationNumber).acc r' s.maxBallot s.maxAcceptedVote.decree := by
  intro r' hr'
  rcases mem_insert_iff.mp hr' with rfl | hr'
  · exact ⟨hx, hmem, hacc⟩
  · exact ho.responses r' hr'

/-- A quorum that has accepted the outstanding vote. -/
theorem Durable.chosenAt_of_responses (hd : Durable g r s)
    (hmem : r ∈ g.members s.configurationNumber) (hnodup : s.responseMap.Nodup) {b : BallotNumber}
    {d : Nat} (hself : (g.hist s.configurationNumber).acc r b d)
    (hresp : ∀ r' ∈ s.responseMap, r' ≠ r ∧ r' ∈ g.members s.configurationNumber ∧
      (g.hist s.configurationNumber).acc r' b d) (hsize : s.quorumSize - 1 ≤ s.responseMap.length) :
    ChosenAt (g.members s.configurationNumber) (g.hist s.configurationNumber) b d := by
  refine ⟨_, hd.isMajority hmem hnodup (fun x hx => ⟨(hresp x hx).1, (hresp x hx).2.1⟩) hsize,
    fun x hx => ?_⟩
  rcases Finset.mem_insert.mp hx with rfl | hx
  · exact hself
  · exact (hresp x (mem_toFinset.mp hx)).2.2

section

variable (ho : OwnVote g r s) (h : Held initial g r s)
  (hch : ChosenAt (g.members s.configurationNumber) (g.hist s.configurationNumber) s.maxBallot
    s.maxAcceptedVote.decree)

include ho h hch

/-- The current vote of a primary may be executed once a quorum has accepted it. -/
theorem OwnVote.execOk : g.ExecOk s.maxAcceptedVote := by
  have hd := h.durable
  refine ⟨?_, ?_, fun _ => ?_, ?_⟩ <;> rw [ho.configuration]
  · exact hd.pos
  · exact hd.top
  · exact ⟨s.maxBallot, ho.nonempty, hch, ho.proposed⟩
  · exact hd.vote.low

/-- The current vote of a primary closes the configuration once a quorum has accepted it. -/
theorem OwnVote.decisionOk (hrec : s.maxAcceptedVote.isReconfiguration = true) :
    g.DecisionOk s.configurationNumber s.maxAcceptedVote.ballot s.maxAcceptedVote.decree := by
  have hfinal : s.maxAcceptedVote.content.Final := Option.isSome_iff_ne_none.mp hrec
  rw [ho.ballot]
  refine ⟨ho.nonempty, ?_, hch, _, ho.proposed, hfinal⟩
  by_contra hlt
  exact hfinal (congrArg Content.reconfiguration (h.durable.vote.low (not_le.mp hlt)))

end

theorem handleVoteAcceptedMsg_keeps (hr : r ≠ 0) (h : Held initial g r s) (hv : Volatile g r s)
    (hver : Verified s r src m)
    (hacc : (g.hist m.configurationNumber).acc m.memberId m.ballot m.decree) :
    Keeps initial g r s (handleVoteAcceptedMsg o m) := by
  have hd := h.durable
  unfold handleVoteAcceptedMsg
  refine get_bind (ite (fun hcond => assert_bind h fun _ => modify_bind
    (get_bind ?_)) fun _ => keeps_pure h hv)
  simp only [Bool.and_eq_true, isSameDecree_iff] at hcond
  obtain ⟨⟨hprim, hout⟩, hmd, hmb⟩ := hcond
  have hst : s.state = .stablePrimary := of_decide_eq_true hprim
  have ho : OwnVote g r s := by
    rcases hv.primary hst with ⟨_, hnone⟩ | ho
    · rw [hnone] at hout
      exact absurd hout Bool.false_ne_true
    · exact ho
  have hmm := hver.mem_members hd
  have hresp := ho.insert_response hver.other hmm (by
    rw [← hver.configuration, ← hmd, ← hmb]; exact hacc)
  have hnodup : (s.responseMap.insert m.memberId).Nodup := hv.nodup.insert
  have h₁ : Held initial g r { s with responseMap := s.responseMap.insert m.memberId } :=
    h.keep ⟨rfl, rfl, rfl, rfl, rfl⟩ rfl rfl rfl rfl
  have h₂ : Held initial g r { s with
      responseMap := s.responseMap.insert m.memberId, outstandingVote := none } :=
        h.keep ⟨rfl, rfl, rfl, rfl, rfl⟩ rfl rfl rfl rfl
  have hnp : s.state ≠ .preparing := by rw [hst]; exact LegislatorState.noConfusion
  refine ite (fun hsize => modify_bind ?_) fun _ => ?_
  · have hch := h₁.durable.chosenAt_of_responses ho.member hnodup ho.accepted hresp hsize
    refine ite (fun hrec => ?_) fun hrec => ite (fun _ => abort h₂) fun _ => ?_
    · exact (sendAndLogReconfigurationDecision_runs h₂ (startInitializing_runs hr o) hnodup
        (ho.decisionOk h hch hrec)).mono fun _ _ _ _ _ hm => hm.volatile
    · have hnone : s.maxAcceptedVote.reconfiguration = none := by
        simpa [Vote.isReconfiguration] using hrec
      refine (addToExecutionQueue_runs o h₂ (ho.execOk h hch)).mono ?_
      rintro _ g' s' _ _ ⟨rfl, hcore, hsame⟩
      refine Volatile.keep ?_ hsame hcore.maxAcceptedVote hcore.maxBallot
      exact ⟨hv.nonempty, hv.cache, hnodup, fun hs => absurd hs hnp, fun _ => .inr
        ⟨ho.member, ho.owner, ho.ballot, ho.nonempty, ho.configuration, ho.sender,
          ho.proposed, ho.last,
          ho.prepared, ho.accepted, hresp, fun _ => ⟨hch, hnone⟩⟩⟩
  · exact pure h₁ ⟨hv.nonempty, hv.cache, hnodup, fun hs => absurd hs hnp,
      fun _ => .inr ⟨ho.member, ho.owner, ho.ballot, ho.nonempty, ho.configuration, ho.sender,
        ho.proposed, ho.last, ho.prepared, ho.accepted, hresp, ho.chosen⟩⟩

/-! ## Elections -/

/-- A promise for the ballot of a message is logged and leaves the replica ready. -/
theorem logPrepare_ready (h : Held initial g r s) (hready : Ready g s)
    (hc : m.configurationNumber = s.configurationNumber)
    (hdec : s.maxAcceptedVote.decree ≤ m.decree) (hi : g.Issued s.configurationNumber m.ballot) :
    Runs initial g r s (logPrepare m) fun _ g' s' =>
      Ready g' s' ∧ SameVolatile s s' ∧ s'.maxAcceptedVote = s.maxAcceptedVote ∧
        s'.maxBallot = m.ballot := by
  refine (logPrepare_runs h hc hdec hi).mono ?_
  rintro _ g' s' hgr _ ⟨_, hsame, hmax, _, hmb⟩
  exact ⟨(hready.mono hgr).keep hsame, hsame, hmax, hmb⟩

/-- The answer to a promise reports the max accepted vote. -/
theorem Durable.prepareAcceptedOk (hd : Durable g r s)
    (hdec : s.maxAcceptedVote.decree ≤ m.decree) (hmb : s.maxBallot = m.ballot)
    (hown : m.ballot.memberId ∈ g.members s.configurationNumber) (dst : Nat) :
    g.PacketOk ⟨s.memberId, dst, .message ⟨s.header m.decree m.ballot,
      .prepareAccepted s.maxAcceptedVote⟩⟩ := by
  refine ⟨hd.pos, hd.top, hown, ⟨?_, fun b d _ hf hacc => ?_⟩, hdec, hd.vote⟩
  · show m.ballot ≤ (g.hist s.configurationNumber).bal s.memberId
    rw [hd.memberId, hd.bal, hmb]
  · have hacc' : (g.hist s.configurationNumber).acc s.memberId b d := hacc
    rw [hd.memberId] at hacc'
    exact hd.accepted b d hf hacc'

theorem handlePrepareMsg_keeps (hr : r ≠ 0) (h : Held initial g r s) (hv : Volatile g r s)
    (hver : Verified s r src m)
    (hi : g.Issued m.configurationNumber m.ballot) (hself : m.memberId = m.ballot.memberId) :
    Keeps initial g r s (handlePrepareMsg o src m) := by
  have hready := hv.ready hver.active
  rw [hver.configuration] at hi
  unfold handlePrepareMsg
  refine get_bind (ite (fun _ => keeps_pure h hv) fun _ => ite (fun _ =>
    ite (fun _ => ?_) fun _ => keeps_pure h hv) fun hlow => ite (fun _ => ?_) fun _ =>
    keeps_pure h hv)
  · exact modify ⟨h.inv, h.durable.send _ _ (h.durable.issued hi.2)⟩
      (hv.keep ⟨rfl, rfl, rfl, rfl, rfl, rfl, rfl, rfl, rfl⟩ rfl rfl)
  · rw [isLowerDecree_iff, not_or, not_lt, not_lt] at hlow
    refine (logPrepare_ready h hready hver.configuration hlow.1 hi).bind ?_
    rintro _ g₁ s₁ hgr₁ h₁ ⟨hready₁, hsame₁, hmax₁, hmb₁⟩
    -- whether or not the promise is answered, the replica starts over or becomes a secondary
    have hrest : ∀ s₂ : Legislator ρ, Held initial g₁ r s₂ → Ready g₁ s₂ →
        Keeps initial g₁ r s₂ (if s.maxAcceptedVote.decree < m.decree then startInitializing o
          else startBeingStableSecondary) := by
      intro s₂ h₂ hready₂
      exact ite (fun _ => startInitializing_keeps hr h₂ hready₂) fun _ =>
        (startBeingStableSecondary_keeps h₂ hready₂).mono fun _ _ _ _ _ hs => hs.1
    refine ite (fun _ => modify_bind ?_) fun _ => hrest s₁ h₁ hready₁
    refine hrest _ ⟨h₁.inv, h₁.durable.send _ _ ?_⟩ ⟨hready₁.nonempty, hready₁.cache⟩
    refine h₁.durable.prepareAcceptedOk (by rw [hmax₁]; exact hlow.1) hmb₁ ?_ src
    rw [hsame₁.configurationNumber, hgr₁.members_eq h.durable.pos h.durable.top, ← hself]
    exact hver.mem_members h.durable

theorem ReportedTo.reach {c : Nat} {b : BallotNumber} {f f' : Vote ρ}
    (h : ReportedTo g c b f x) (hf : f.Reaches f') : ReportedTo g c b f' x := by
  obtain ⟨d₀, b₀, hp, hle⟩ := h
  exact ⟨d₀, b₀, hp, hf.bound hle⟩

/-- One more promise for the prepared ballot, with the vote it reports. -/
theorem PreparingOk.respond (hp : PreparingOk g r s) (hown : s.maxBallot.memberId = r)
    {f f' : Vote ρ} (hf : s.oldFreshestVote = some f)
    (hv' : g.VoteOk s.configurationNumber f'.ballot f'.decree f'.content) (hreach : f.Reaches f')
    (hx : x ≠ r) (hmem : x ∈ g.members s.configurationNumber)
    (hrep : ReportedTo g s.configurationNumber s.maxBallot f' x) :
    PreparingOk g r { s with
      oldFreshestVote := some f', responseMap := s.responseMap.insert x } := by
  obtain ⟨p, h1, h2, hid, h3, hi, h4, h5, h6, h7⟩ := hp
  have hmb : s.maxBallot = p.ballot := h5.resolve_right (not_not.mpr hown)
  rw [hmb] at hrep
  refine ⟨p, h1, h2, hid, h3, hi, h4, h5, h6, fun f₁ hf₁ => ?_⟩
  cases hf₁
  obtain ⟨_, hself, hresp⟩ := h7 f hf
  refine ⟨hv', hself.reach hreach, fun y hy => ?_⟩
  rcases mem_insert_iff.mp hy with rfl | hy
  · exact ⟨hx, hmem, hrep⟩
  · obtain ⟨hy1, hy2, hy3⟩ := hresp y hy
    exact ⟨hy1, hy2, hy3.reach hreach⟩

section

variable (hr : r ≠ 0) (h : Held initial g r s) (hv : Volatile g r s) (hver : Verified s r src m)

include hr h hv hver

theorem handlePrepareAcceptedMsg_keeps
    (hm : g.MessageOk ⟨m, .prepareAccepted vote⟩) :
    Keeps initial g r s (handlePrepareAcceptedMsg o m vote) := by
  have hd := h.durable
  unfold handlePrepareAcceptedMsg
  refine get_bind (ite (fun hcond => assert_bind h fun hassert => ?_) fun _ =>
    keeps_pure h hv)
  obtain ⟨hst, hsame⟩ := hcond
  rw [isSameDecree_iff] at hsame
  have hown : s.maxBallot.memberId = r := (of_decide_eq_true hassert).trans hd.memberId
  have hprep := hv.preparing hst
  have hready := hv.ready hver.active
  split
  · exact abort h
  · next f hf =>
    refine assert_bind h fun hdec => ite (fun _ => keeps_pure h hv) fun hnot => ?_
    have hdec' : f.decree = s.maxAcceptedVote.decree := of_decide_eq_true hdec
    obtain ⟨_, _, hmem, hprom, hle, hvok⟩ := hm
    simp only [hver.configuration, hsame.2, hown] at hmem hprom hvok
    have hmm := hver.mem_members hd
    -- the freshest vote after this answer
    have key : ∀ f' : Vote ρ, g.VoteOk s.configurationNumber f'.ballot f'.decree f'.content →
        f'.decree = f.decree → f.Reaches f' → vote.Reaches f' →
        Keeps initial g r { s with
            oldFreshestVote := some f', responseMap := s.responseMap.insert m.memberId }
          (do
            let s ← Act.get
            if s.quorumSize - 1 ≤ s.responseMap.length then
              startBeingStablePrimary (startInitializing o) o) := by
      intro f' hvok' hfd hreach hvreach
      have hp' := hprep.respond hown hf hvok' hreach hver.other hmm
        ⟨vote.decree, vote.ballot, hprom, hvreach⟩
      have h' : Held initial g r { s with
          oldFreshestVote := some f', responseMap := s.responseMap.insert m.memberId } :=
            h.keep ⟨rfl, rfl, rfl, rfl, rfl⟩ rfl rfl rfl rfl
      refine get_bind (ite (fun hsize => ?_) fun _ => pure h' ?_)
      · refine (startBeingStablePrimary_runs hr h' ⟨hready.nonempty, hready.cache⟩ hmem
          (startInitializing_runs hr o) hp' hv.nodup.insert hsize ?_).mono
          fun _ _ _ _ _ hs => hs.1
        rintro f₁ hf₁
        cases hf₁
        exact hfd.trans hdec'
      · exact ⟨hv.nonempty, hv.cache, hv.nodup.insert, fun _ => hp',
          fun hs => LegislatorState.noConfusion (hst.symm.trans hs)⟩
    refine ite (fun hfresh => modify_bind (modify_bind ?_)) fun hstale =>
      modify_bind ?_
    · exact key vote hvok hfresh.1 (.inr ⟨hfresh.1.symm, le_of_lt hfresh.2⟩)
        (.inr ⟨rfl, le_refl _⟩)
    · obtain ⟨_, _, _, _, _, _, _, _, _, h7⟩ := hprep
      have hreach : vote.Reaches f := by
        have hvd : vote.decree ≤ f.decree := by
          rw [hdec', ← hsame.1]
          exact hle
        rcases Nat.lt_or_eq_of_le hvd with hlt | heq
        · exact .inl hlt
        · exact .inr ⟨heq, not_lt.mp fun hlt => hstale ⟨heq, hlt⟩⟩
      have hkey := key f (h7 f hf).1 rfl (.inr ⟨rfl, le_refl _⟩) hreach
      rw [← hf] at hkey
      exact hkey

theorem handleNotAcceptedMsg_keeps
    (hi : g.Issued m.configurationNumber m.ballot) :
    Keeps initial g r s (handleNotAcceptedMsg o m) := by
  have hready := hv.ready hver.active
  unfold handleNotAcceptedMsg
  refine get_bind (ite (fun _ => keeps_pure h hv) fun hlow => ite (fun _ =>
    ite (fun _ => startInitializing_keeps hr h hready) fun _ => ite (fun _ => ?_)
    fun _ => keeps_pure h hv) fun _ => keeps_pure h hv)
  rw [isLowerDecree_iff, not_or, not_lt] at hlow
  refine (logPrepare_ready (m := ⟨m.memberId, m.decree, s.configurationNumber, m.ballot⟩) h hready
    rfl hlow.1 (by rw [← hver.configuration]; exact hi)).bind ?_
  rintro _ g₁ s₁ _ h₁ ⟨hready₁, _⟩
  exact (startBeingStableSecondary_keeps h₁ hready₁).mono fun _ _ _ _ _ hs => hs.1

end

end Rsl
