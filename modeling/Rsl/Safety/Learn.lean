import Rsl.Safety.Handle

/-!
# Learning from the log of a peer

`learnRecords_runs` follows the loop of `LearnVotes`. The records come from the log of a peer in
their order, so nothing in the stream lies before the learner's max accepted decree. The invariant
of the loop relates the last vote read to the max accepted vote; it shows that the decree before a
vote made up by the loop was passed at the ballot the loop gives it. No record belongs to a later
configuration of which the learner is the only member, so a learner never reads on as a primary.
-/

set_option autoImplicit false

namespace Rsl

open Runs

variable {ρ : Type} {initial : List Nat} {g g' : Ghost ρ} {r : Nat} {s s' : Legislator ρ}
  {o : Oracle ρ}

/-- A stream of records that a replica of configuration `c₀` may learn. -/
structure StreamOk (g : Ghost ρ) (r c₀ : Nat) (l : List (Record ρ × Bool)) : Prop where
  records : ∀ e ∈ l, g.RecordOk e.1
  order : l.Pairwise fun e e' => e.1.Precedes e'.1
  later : ∀ e ∈ l, c₀ < e.1.header.configurationNumber →
    e.1.header.configurationNumber ≤ g.top ∧ g.members e.1.header.configurationNumber ≠ {r}

variable {c₀ : Nat} {l : List (Record ρ × Bool)}

theorem StreamOk.mono (h : StreamOk g r c₀ l) (hgr : g.Grows r g') : StreamOk g' r c₀ l where
  records e he := (h.records e he).mono hgr
  order := h.order
  later e he hlt := by
    obtain ⟨h1, h2⟩ := h.later e he hlt
    rw [hgr.members_eq (by omega) h1]
    exact ⟨h1.trans hgr.top, h2⟩

theorem StreamOk.tail {e : Record ρ × Bool} (h : StreamOk g r c₀ (e :: l)) : StreamOk g r c₀ l :=
  ⟨fun x hx => h.records x (List.mem_cons_of_mem _ hx), (List.pairwise_cons.mp h.order).2,
    fun x hx => h.later x (List.mem_cons_of_mem _ hx)⟩

/-- No replica but its only member can have left a record in a configuration of one member. -/
theorem Durable.not_alone_later (hg : g.Inv initial) (hd : Durable g r s) {x : Record ρ}
    (hx : g.RecordOk x) (hlt : s.configurationNumber < x.header.configurationNumber) :
    x.header.configurationNumber ≤ g.top ∧ g.members x.header.configurationNumber ≠ {r} := by
  have hpos := hd.pos
  obtain ⟨hbal, hacc⟩ := hd.later _ hlt
  -- a configuration entered by its only member `r` is not later than that of `r`
  have hent : g.Entered x.header.configurationNumber →
      x.header.configurationNumber ≤ g.top ∧ g.members x.header.configurationNumber ≠ {r} := by
    rintro ⟨_, htop, m, hm, hne⟩
    refine ⟨htop, fun hmem => ?_⟩
    rw [hmem, Finset.mem_singleton] at hm
    rw [hm] at hne
    exact hne hbal
  cases x with
  | vote v =>
    obtain ⟨h1, h2, h3, h4⟩ := hx
    rcases h4.rooted with hbot | ⟨d, w, hp⟩
    · exact absurd hbot h3
    · exact hent (hg.entered_of_prop h1 h2 h3 hp)
  | prepare p =>
    have hlt' : s.configurationNumber < p.configurationNumber := hlt
    exact hent (hx.2.2 (by omega))
  | reconfigurationDecision p =>
    obtain ⟨_, h2, _, _, ⟨S, hS, hall⟩, _⟩ := hx
    refine ⟨h2, fun hmem => ?_⟩
    have hmem' : g.members p.configurationNumber = {r} := hmem
    rw [hmem'] at hS
    have hcard := hS.2
    rw [Finset.card_singleton] at hcard
    obtain ⟨y, hy⟩ := Finset.card_pos.mp (by omega : 0 < S.card)
    have hyr := Finset.mem_singleton.mp (hS.1 hy)
    rw [hyr] at hy
    exact hacc _ _ (hall r hy)

/-- How the last vote read relates to the max accepted vote. -/
def LastOk (g : Ghost ρ) (s : Legislator ρ) (v : Vote ρ) : Prop :=
  g.VoteOk s.configurationNumber v.ballot v.decree v.content ∧
    (v.decree = s.maxAcceptedVote.decree ∧ v.ballot ≤ s.maxAcceptedVote.ballot ∨
      v.decree = s.maxAcceptedVote.decree + 1 ∧ v.ballot < s.maxAcceptedVote.ballot)

theorem LastOk.mono {v : Vote ρ} (h : LastOk g s v) (hd : Durable g r s) (hgr : g.Grows r g')
    (hs : SameVolatile s s') (hmax : s'.maxAcceptedVote = s.maxAcceptedVote) :
    LastOk g' s' v := by
  unfold LastOk
  rw [hs.configurationNumber, hmax]
  exact ⟨h.1.mono hgr hd.pos hd.top, h.2⟩

theorem lastOk_self (hd : Durable g r s) : LastOk g s s.maxAcceptedVote :=
  ⟨hd.vote, .inl ⟨rfl, le_refl _⟩⟩

/-- The vote the loop makes up for a decree it has only at a higher ballot: the last vote read shows
that the decree before was passed. -/
theorem LastOk.missingVote {v last : Vote ρ} (hl : LastOk g s last) (hd : Durable g r s)
    (hv : g.VoteOk s.configurationNumber v.ballot v.decree v.content)
    (hnext : isNextDecree v.decree v.ballot last.decree last.ballot)
    (hdec : v.decree = s.maxAcceptedVote.decree + 1) (hlt : s.maxAcceptedVote.ballot < v.ballot) :
    g.VoteOk s.configurationNumber s.maxAcceptedVote.ballot v.decree v.content := by
  obtain ⟨hlv, hpos⟩ := hl
  have hlast : last.decree = v.decree ∧ last.ballot ≤ s.maxAcceptedVote.ballot := by
    rw [isNextDecree_iff] at hnext
    rcases hpos with ⟨h1, h2⟩ | ⟨h1, h2⟩
    · rcases hnext with ⟨h3, _⟩ | ⟨_, h4⟩
      · omega
      · rw [h4] at hlt
        exact absurd hlt (not_lt.mpr h2)
    · exact ⟨by omega, le_of_lt h2⟩
  refine ⟨⟨fun hf => (hv.proper.safe hf).of_le (le_of_lt hlt), fun hf => ?_⟩, hd.vote.rooted,
    hv.valid, hv.low, hv.init⟩
  rw [← hlast.1] at hf ⊢
  exact (hlv.proper.passed hf).of_le hlast.2

/-- What the loop of `LearnVotes` keeps. -/
structure Learning (g : Ghost ρ) (r c₀ : Nat) (s : Legislator ρ) (l : List (Record ρ × Bool)) :
    Prop where
  volatile : Volatile g r s
  stream : StreamOk g r c₀ l
  configuration : c₀ ≤ s.configurationNumber
  primary : s.state = .stablePrimary → c₀ < s.configurationNumber ∧
    g.members s.configurationNumber = {r}
  ahead : ∀ e ∈ l, e.1.header.configurationNumber = s.configurationNumber →
    s.maxAcceptedVote.decree ≤ e.1.header.decree

theorem Learning.tail {e : Record ρ × Bool} (h : Learning g r c₀ s (e :: l)) :
    Learning g r c₀ s l :=
  ⟨h.volatile, h.stream.tail, h.configuration, h.primary,
    fun e he => h.ahead e (List.mem_cons_of_mem _ he)⟩

theorem Learning.not_primary {e : Record ρ × Bool} (h : Learning g r c₀ s (e :: l))
    (hc : e.1.header.configurationNumber = s.configurationNumber) : s.state ≠ .stablePrimary := by
  intro hst
  obtain ⟨hlt, hmem⟩ := h.primary hst
  rw [← hc] at hlt hmem
  exact (h.stream.later e List.mem_cons_self hlt).2 hmem

/-- The state after a step of the loop that keeps the configuration. -/
theorem Learning.step (hs : StreamOk g r c₀ l)
    (hc₀ : c₀ ≤ s.configurationNumber) (hgr : g.Grows r g') (hsame : SameVolatile s s')
    (hv : Volatile g' r s') (hst : s.state ≠ .stablePrimary)
    (hahead : ∀ e ∈ l, e.1.header.configurationNumber = s.configurationNumber →
      s'.maxAcceptedVote.decree ≤ e.1.header.decree) : Learning g' r c₀ s' l :=
  ⟨hv, hs.mono hgr, by rw [hsame.configurationNumber]; exact hc₀,
    fun h => absurd (hsame.state.symm.trans h) hst, by rw [hsame.configurationNumber]; exact hahead⟩

section

variable (hm : Moved s r g' s') (h' : Held initial g' r s') (h1 : 1 ≤ s.configurationNumber)

include hm h' h1

theorem Moved.nonempty : s'.paxosConfiguration.members ≠ [] := by
  have hcn := hm.configuration
  rw [h'.durable.configuration]
  exact h'.inv.nonempty _ (by omega) h'.durable.top

/-- The state after a decision was carried out. -/
theorem Moved.learning (hs : StreamOk g' r c₀ l) (hc₀ : c₀ ≤ s.configurationNumber)
    (hahead : ∀ e ∈ l, s.maxAcceptedVote.decree < e.1.header.decree) : Learning g' r c₀ s' l := by
  have hcn := hm.configuration
  have hd := h'.durable
  have hne := hm.nonempty h' h1
  refine ⟨hm.volatile, hs, by omega, fun hst => ⟨by omega, ?_⟩, fun e he hec => ?_⟩
  · rcases hm.placed with h1 | ⟨h1, _⟩
    · exact hd.alone hne h1
    · exact absurd hst h1
  · rcases hm.placed with h1 | ⟨_, h1, _⟩
    · refine absurd (hd.alone hne h1) ?_
      rw [← hec]
      exact (hs.later e he (by omega)).2
    · rw [h1]
      exact hahead e he

end

theorem learnRecords_runs (hr : r ≠ 0) (l : List (Record ρ × Bool)) :
    ∀ (last : Option (Vote ρ)) (g : Ghost ρ) (s : Legislator ρ), Held initial g r s →
      Learning g r c₀ s l → (∀ v, last = some v → LastOk g s v) →
      Runs initial g r s (learnRecords o l last) fun _ g' s' =>
        Volatile g' r s' ∧
          (s.paxosConfiguration.members ≠ [] → s'.paxosConfiguration.members ≠ []) := by
  induction l with
  | nil => exact fun _ g s h hl _ => pure h ⟨hl.volatile, id⟩
  | cons e rest ih =>
    obtain ⟨record, cached⟩ := e
    intro last g s h hl hlast
    have hd := h.durable
    have hv := hl.volatile
    have htail := hl.stream.tail
    refine get_bind (ite (fun _ => pure h ⟨hv, id⟩) fun hc => ?_)
    rw [not_not] at hc
    have hst := hl.not_primary hc
    have hrec := hl.stream.records _ List.mem_cons_self
    have hdec := hl.ahead _ List.mem_cons_self hc
    have hprec := (List.pairwise_cons.mp hl.stream.order).1
    cases record with
    | prepare m =>
      have hi : g.Issued s.configurationNumber m.ballot := by
        have hc' : m.configurationNumber = s.configurationNumber := hc
        rw [← hc']
        exact hrec.2
      refine ite (fun hlt => ?_) fun _ => ?_
      · refine (logPrepare_runs h hc hdec hi).bind ?_
        rintro _ g₁ s₁ hgr h₁ ⟨hq, hsame, hmax, hle, hmb⟩
        have hv₁ := hv.step hd hgr hq hsame hst (by rw [hmb]; exact hle)
          (.inr (by rw [hmb]; exact h.foreign hr hi.1 hlt))
        refine (ih last g₁ s₁ h₁ (Learning.step htail hl.configuration hgr hsame hv₁ hst
          (by rw [hmax]; exact hl.tail.ahead)) fun v hlv =>
            (hlast v hlv).mono hd hgr hsame hmax).mono ?_
        rintro _ g₂ s₂ _ _ ⟨hv₂, hne⟩
        rw [hsame.paxosConfiguration] at hne
        exact ⟨hv₂, hne⟩
      · exact ih last g s h hl.tail hlast
    | reconfigurationDecision m =>
      have hok : m.configurationNumber = s.configurationNumber →
          g.DecisionOk s.configurationNumber m.ballot m.decree := by
        intro hc'
        rw [← hc']
        exact hrec.2.2
      refine (logReconfigurationDecision_runs h (startInitializing_runs hr o) hv.nodup hok).bind
        ?_
      rintro _ g₁ s₁ hgr h₁ (⟨_, rfl, rfl⟩ | hm)
      · refine get_bind (ih _ g₁ s₁ h₁ hl.tail ?_)
        rintro v ⟨⟩
        exact lastOk_self hd
      · refine get_bind ((ih _ g₁ s₁ h₁ (hm.learning h₁ hd.pos (htail.mono hgr)
          hl.configuration fun e he => ?_) ?_).mono ?_)
        · exact hdec.trans_lt (hprec e he)
        · rintro v ⟨⟩
          exact lastOk_self h₁.durable
        · rintro _ g₂ s₂ _ _ ⟨hv₂, hne⟩
          exact ⟨hv₂, fun _ => hne (hm.nonempty h₁ hd.pos)⟩
    | vote v =>
      have hc' : v.configurationNumber = s.configurationNumber := hc
      have hvok : g.VoteOk s.configurationNumber v.ballot v.decree v.content := by
        rw [← hc']
        exact hrec.2.2.2
      -- accepting the vote and reading on
      have haccept : ∀ (g₁ : Ghost ρ) (s₁ : Legislator ρ), g.Grows r g₁ →
          Held initial g₁ r s₁ → Volatile g₁ r s₁ → SameVolatile s s₁ →
          Runs initial g₁ r s₁ (do
            logAndAcceptVote o v
            if cached then pure true else learnRecords o rest (some v)) fun _ g' s' =>
            Volatile g' r s' ∧
              (s.paxosConfiguration.members ≠ [] → s'.paxosConfiguration.members ≠ []) := by
        intro g₁ s₁ hgr₁ h₁ hv₁ hsame₁
        have hst₁ : s₁.state ≠ .stablePrimary := by rw [hsame₁.state]; exact hst
        have hvok₁ : g₁.VoteOk s₁.configurationNumber v.ballot v.decree v.content := by
          rw [hsame₁.configurationNumber]
          exact hvok.mono hgr₁ hd.pos hd.top
        refine (acceptVote_runs hr h₁ hv₁ hst₁ v (fun hbot => absurd hbot hrec.2.2.1) hvok₁).bind ?_
        rintro _ g₂ s₂ hgr₂ h₂ ⟨hv₂, hsame₂, hmax₂⟩
        have hsame := hsame₁.trans hsame₂
        refine ite (fun _ => pure h₂ ⟨hv₂, ?_⟩) fun _ =>
          (ih (some v) g₂ s₂ h₂ (Learning.step htail hl.configuration (hgr₁.trans hgr₂) hsame hv₂
            hst ?_) ?_).mono ?_
        · rw [hsame.paxosConfiguration]; exact id
        · intro e he _
          rw [hmax₂]
          exact hprec e he
        · rintro w ⟨⟩
          have := lastOk_self h₂.durable
          rwa [hmax₂] at this
        · rintro _ g₃ s₃ _ _ ⟨hv₃, hne⟩
          rw [hsame.paxosConfiguration] at hne
          exact ⟨hv₃, hne⟩
      refine ite (fun _ => pure h ⟨hv, id⟩) fun hord => ite (fun hlt => ?_)
        fun hge => ite (fun _ => assert_bind h fun hassert => ?_) fun _ =>
        haccept g s (Ghost.Grows.refl r g) h hv (SameVolatile.refl s)
      · -- a vote below the max accepted ballot is passed over
        refine ih (some v) g s h hl.tail ?_
        rintro w ⟨⟩
        refine ⟨hvok, ?_⟩
        have hle : v.decree ≤ s.maxAcceptedVote.decree + 1 := by
          cases last with
          | none | some u => simp at hord; omega
        have hdec' : s.maxAcceptedVote.decree ≤ v.decree := hdec
        rcases eq_or_lt_of_le hdec' with heq | hgt
        · exact .inl ⟨heq.symm, le_of_lt hlt⟩
        · exact .inr ⟨by omega, hlt⟩
      · -- the vote is first logged at the max accepted ballot
        simp only [Bool.and_eq_true, decide_eq_true_eq] at hassert
        cases last with
        | none =>
          simp at hord
          omega
        | some u =>
          simp only [Bool.not_eq_true', Bool.not_eq_false, Bool.and_eq_true,
            decide_eq_true_eq] at hord
          have hmiss := (hlast u rfl).missingVote hd hvok hord.1.1 hassert.1 hassert.2
          refine (acceptVote_runs hr h hv hst { v.copy with ballot := s.maxAcceptedVote.ballot }
            (fun _ => hassert.1) hmiss).bind ?_
          rintro _ g₁ s₁ hgr₁ h₁ ⟨hv₁, hsame₁, _⟩
          exact haccept g₁ s₁ hgr₁ h₁ hv₁ hsame₁

/-! ## The handlers that learn -/

/-- The records that can be fetched may be learned. -/
def OracleOk (g : Ghost ρ) (r : Nat) (s : Legislator ρ) (o : Oracle ρ) : Prop :=
  ∀ peer, StreamOk g r s.configurationNumber (o.fetched peer) ∧
    ∀ e ∈ o.fetched peer, s.maxAcceptedVote.decree ≤ e.1.header.decree

section

variable (hr : r ≠ 0) (h : Held initial g r s) (hv : Volatile g r s) (ho : OracleOk g r s o)

include hr h hv ho

theorem learnVotes_runs (hst : s.state ≠ .stablePrimary) (peer : Nat) :
    Runs initial g r s (learnVotes o peer) fun _ g' s' =>
      Volatile g' r s' ∧
        (s.paxosConfiguration.members ≠ [] → s'.paxosConfiguration.members ≠ []) :=
  learnRecords_runs hr (o.fetched peer) none g s h
    ⟨hv, (ho peer).1, le_rfl, fun hp => absurd hp hst, fun e he _ => (ho peer).2 e he⟩
    fun v hv => absurd hv.symm (Option.some_ne_none v)

theorem learnVotesAndTransition_keeps (hst : s.state ≠ .stablePrimary)
    (hne : s.paxosConfiguration.members ≠ []) (peer : Nat) :
    Keeps initial g r s (learnVotesAndTransition o peer) := by
  refine (learnVotes_runs hr h hv ho hst peer).bind ?_
  rintro learned g₁ s₁ _ h₁ ⟨hv₁, hne₁⟩
  have hready : Ready g₁ s₁ := ⟨hne₁ hne, hv₁.cache⟩
  exact ite (fun _ => (startBeingStableSecondary_keeps h₁ hready).mono
    fun _ _ _ _ _ hs => hs.1) fun _ => startInitializing_keeps hr h₁ hready

theorem handleStatusResponseMsg_keeps {src : Nat} {m : Header}
    (hver : Verified s r src m) (qd : Nat) (qb : BallotNumber) (minDecree : Nat)
    (hm : 2 ≤ m.configurationNumber → m.configurationNumber ≤ g.top ∧
      (g.hist m.configurationNumber).bal m.memberId ≠ ⊥) :
    Keeps initial g r s (handleStatusResponseMsg o m qd qb minDecree) := by
  have hd := h.durable
  have hready := hv.ready hver.active
  unfold handleStatusResponseMsg
  refine get_bind (ite (fun _ => keeps_pure h hv) fun hcond => ite (fun _ =>
    ite (fun _ => ?_) fun _ => keeps_pure h hv) fun hinit => modify_bind ?_)
  · have hst : s.state ≠ .stablePrimary := fun hp => hcond (.inl (decide_eq_true hp))
    exact learnVotesAndTransition_keeps hr h hv ho hst hready.nonempty _
  · rw [not_not] at hinit
    have hst : s.state ≠ .stablePrimary := by rw [hinit]; exact LegislatorState.noConfusion
    set s₁ : Legislator ρ := { s with
      statusMap := insertStatus s.statusMap ⟨m.memberId, m.decree, m.ballot, minDecree⟩ } with hs₁
    have h₁ : Held initial g r s₁ := h.keep ⟨rfl, rfl, rfl, rfl, rfl⟩ rfl rfl rfl rfl
    have hv₁ : Volatile g r s₁ := hv.keep ⟨rfl, rfl, rfl, rfl, rfl, rfl, rfl, rfl, rfl⟩ rfl rfl
    have hlearn : ∀ peer, Keeps initial g r s₁ (learnVotesAndTransition o peer) :=
      learnVotesAndTransition_keeps hr h₁ hv₁ ho hst hready.nonempty
    refine ite (fun _ => ?_) fun _ => keeps_pure h₁ hv₁
    split
    · exact hlearn _
    · split
      · exact hlearn _
      · refine ite (fun _ => ?_) fun _ => ite (fun _ => ?_) fun _ => keeps_pure h₁ hv₁
        · refine (moveToSecondaryOrPrepare_runs hr h₁ ⟨hready.nonempty, hready.cache⟩ (fun h2 => ?_)
            (startInitializing_runs hr o) hinit).mono fun _ _ _ _ _ hs => hs.1
          have h2' : 2 ≤ m.configurationNumber := by rw [hver.configuration]; exact h2
          have hbal := (hm h2').2
          rw [hver.configuration] at hbal
          exact .inr ⟨hd.pos, hd.top, m.memberId, hver.mem_members hd, hbal⟩
        · exact startInitializing_keeps hr h₁ ⟨hready.nonempty, hready.cache⟩

end

theorem handleStatusQueryMsg_keeps (h : Held initial g r s) (hv : Volatile g r s) (src : Nat)
    (m : Header) : Keeps initial g r s (handleStatusQueryMsg o src m) := by
  unfold handleStatusQueryMsg
  have hd := h.durable
  by_cases hrel : s.relinquishPrimary = true
  · refine modify ?_ ?_ <;> rw [if_pos hrel]
    · exact h
    · exact hv
  · refine modify ?_ ?_ <;> rw [if_neg hrel]
    · refine ⟨h.inv, hd.send _ _ fun h2 => ⟨hd.top, ?_⟩⟩
      show (g.hist s.configurationNumber).bal s.memberId ≠ ⊥
      rw [hd.memberId, hd.bal]
      exact hd.entered h2
    · exact hv.keep ⟨rfl, rfl, rfl, rfl, rfl, rfl, rfl, rfl, rfl⟩ rfl rfl

/-- Learning on a `Join` message is safe unless the replica is the primary. -/
theorem handleJoinMsg_keeps (hr : r ≠ 0) (h : Held initial g r s) (hv : Volatile g r s)
    (ho : OracleOk g r s o) (src : Nat) (m : Header) (minDecree : Nat)
    (hst : s.configurationNumber < m.configurationNumber →
      minDecree ≤ s.maxAcceptedVote.decree → s.state ≠ .stablePrimary) :
    Keeps initial g r s (handleJoinMsg o src m minDecree) := by
  unfold handleJoinMsg
  refine get_bind (ite (fun _ => ite (fun _ =>
    sendDefunctConfigurationMessage_keeps h hv src) fun _ => keeps_pure h hv) fun hlt =>
    ite (fun hmin => ?_) fun _ => keeps_pure h hv)
  refine (learnVotes_runs hr h hv ho (hst (lt_of_not_ge hlt) hmin.1) src).bind ?_
  rintro _ g₁ s₁ _ h₁ ⟨hv₁, _⟩
  exact keeps_pure h₁ hv₁

theorem Durable.joinOk (hd : Durable g r s) : g.MessageOk (s.joinMessage o) := hd.top

theorem handleJoinRequestMsg_keeps (h : Held initial g r s) (hv : Volatile g r s) (src : Nat)
    (m : Header) : Keeps initial g r s (handleJoinRequestMsg o src m) := by
  unfold handleJoinRequestMsg
  by_cases heq : m.configurationNumber = s.configurationNumber
  · refine modify ?_ ?_ <;> rw [if_pos heq]
    · exact ⟨h.inv, h.durable.send _ _ h.durable.joinOk⟩
    · exact hv.keep ⟨rfl, rfl, rfl, rfl, rfl, rfl, rfl, rfl, rfl⟩ rfl rfl
  · refine modify ?_ ?_ <;> rw [if_neg heq]
    · exact h
    · exact hv

theorem handleVerified_keeps (hr : r ≠ 0) (h : Held initial g r s) (hv : Volatile g r s)
    (ho : OracleOk g r s o) {src : Nat} {m : Message ρ} (hver : Verified s r src m.toHeader)
    (hm : g.MessageOk m) : Keeps initial g r s (handleVerified o src m) := by
  obtain ⟨m, body⟩ := m
  unfold handleVerified
  cases body with
  | voteAccepted => exact handleVoteAcceptedMsg_keeps hr h hv hver hm
  | prepare => exact handlePrepareMsg_keeps hr h hv hver hm.1 hm.2
  | prepareAccepted vote => exact handlePrepareAcceptedMsg_keeps hr h hv hver hm
  | notAccepted => exact handleNotAcceptedMsg_keeps hr h hv hver hm
  | statusResponse qd qb minDecree =>
    exact handleStatusResponseMsg_keeps hr h hv ho hver qd qb minDecree hm
  | reconfigurationDecision =>
    refine (logReconfigurationDecision_runs h (startInitializing_runs hr o) hv.nodup
      fun hc => ?_).mono ?_
    · rw [← hc]
      exact hm.2.2
    · rintro _ g' s' _ _ (⟨_, rfl, rfl⟩ | hmoved)
      · exact hv
      · exact hmoved.volatile
  | statusQuery | join _ | joinRequest | defunctConfiguration => exact keeps_pure h hv

/-- The message makes the replica learn from its sender while it is the primary. -/
def joinsAsPrimary (s : Legislator ρ) (m : Message ρ) : Bool :=
  match m.body with
  | .join minDecree => decide (s.state = .stablePrimary ∧
      s.configurationNumber < m.configurationNumber ∧ minDecree ≤ s.maxAcceptedVote.decree)
  | _ => false

theorem handleMessage_keeps (hr : r ≠ 0) (h : Held initial g r s) (hv : Volatile g r s)
    (ho : OracleOk g r s o) (src : Nat) {m : Message ρ} (hm : g.MessageOk m)
    (hjoin : joinsAsPrimary s m = false) : Keeps initial g r s (handleMessage o src m) := by
  have hverified : Keeps initial g r s (do
      let valid ← verifyMessage src m.toHeader
      if valid then handleVerified o src m) := by
    refine (verifyMessage_runs h src m.toHeader).bind ?_
    rintro valid g₁ s₁ _ h₁ ⟨rfl, hcore, hsame, hver⟩
    have hv₁ := hv.keep hsame hcore.maxAcceptedVote hcore.maxBallot
    have ho₁ : OracleOk g₁ r s₁ o := by
      unfold OracleOk
      rw [hcore.configurationNumber, hcore.maxAcceptedVote]
      exact ho
    exact ite (fun hvalid => handleVerified_keeps hr h₁ hv₁ ho₁ (hver hvalid) hm) fun _ =>
      keeps_pure h₁ hv₁
  have hdefunct := sendDefunctConfigurationMessage_keeps h hv src
  obtain ⟨m, body⟩ := m
  unfold handleMessage
  refine get_bind ?_
  cases body with
  | statusQuery => exact handleStatusQueryMsg_keeps h hv src m
  | defunctConfiguration => exact updateDefunctInfo_keeps hr h hv m.configurationNumber
  | join minDecree =>
    refine ite (fun _ => hdefunct) fun _ => handleJoinMsg_keeps hr h hv ho src m minDecree ?_
    exact fun hlt hmin hst => of_decide_eq_false hjoin ⟨hst, hlt, hmin⟩
  | joinRequest => exact ite (fun _ => hdefunct) fun _ => handleJoinRequestMsg_keeps h hv src m
  | voteAccepted | prepare | prepareAccepted vote | notAccepted | statusResponse qd qb minDecree
  | reconfigurationDecision =>
    exact ite (fun _ => hdefunct) fun _ => hverified

end Rsl
