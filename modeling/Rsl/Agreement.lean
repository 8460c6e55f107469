import Rsl.Safety.World

/-!
# Agreement

What the invariant of `Safety/World` says about a cluster: in a run with a fixed configuration no
two replicas execute different requests at one decree, and in a run with configuration changes a
chosen configuration change closes its configuration and all replicas install the same
configurations.

Both rest on a condition on restarts. `RestoreState` skips the records of decree 0, so a replica
that crashes before it has logged anything at decree 1 forgets what it promised; the runs
`lostPromise` show two primaries that both have a majority afterwards. Agreement across
configurations also needs that no primary learns votes on a `Join` message in its role.
-/

set_option autoImplicit false

namespace Rsl

open Cluster

variable {ρ : Type}

namespace Cluster

/-! ## Runs as lists of actions -/

section Follow

variable [DecidableEq ρ]

/-- Perform the actions in order, as long as each is enabled and satisfies the condition. -/
def follow (ok : Cluster ρ → Action ρ → Prop) [∀ c a, Decidable (ok c a)] (c : Cluster ρ)
    (as : List (Action ρ)) : Option (Cluster ρ) :=
  as.foldlM (fun c a => if ok c a then c.step a else none) c

theorem Reach.follow {ok : Cluster ρ → Action ρ → Prop} [∀ c a, Decidable (ok c a)]
    {members : List Nat} {as : List (Action ρ)} {c c' : Cluster ρ} (h : Reach ok members c)
    (hf : c.follow ok as = some c') : Reach ok members c' := by
  induction as generalizing c with
  | nil =>
    cases hf
    exact h
  | cons a as ih =>
    simp only [Cluster.follow, List.foldlM_cons, Option.bind_eq_bind, Option.bind_eq_some_iff,
      Option.ite_none_right_eq_some] at hf
    obtain ⟨c₁, ⟨hok, hs⟩, hf⟩ := hf
    exact ih (h.step hok hs) hf

/-- A run given by its actions. -/
theorem Reach.exists_of_follow {ok : Cluster ρ → Action ρ → Prop} [∀ c a, Decidable (ok c a)]
    {P : Cluster ρ → Prop} [DecidablePred P] {members : List Nat} (as : List (Action ρ))
    (h : ((Cluster.init members).follow ok as).any (fun c => decide (P c)) = true) :
    ∃ c, Reach ok members c ∧ P c := by
  cases hf : (Cluster.init members).follow ok as with
  | none =>
    rw [hf] at h
    exact absurd h Bool.false_ne_true
  | some c =>
    rw [hf] at h
    exact ⟨c, Reach.init.follow hf, of_decide_eq_true h⟩

end Follow

/-! ## Acceptance by a quorum -/

/-- The configurations that replicas have ever installed, the one they were started with among
them. -/
def Installed (c : Cluster ρ) (i : ConfigurationInfo) : Prop :=
  i = ⟨1, 0, c.members⟩ ∨ ∃ r, (r, i) ∈ c.installed

/-- Replica `r` has accepted the vote: it proposed it, and so logged it, or it answered it with a
`VoteAccepted` message. -/
def AcceptedBy (c : Cluster ρ) (v : Vote ρ) (r : Nat) : Prop :=
  r = v.memberId ∨ ∃ p ∈ c.network, p.payload =
    .message ⟨⟨r, v.decree, v.configurationNumber, v.ballot⟩, .voteAccepted⟩

instance [DecidableEq ρ] (c : Cluster ρ) (v : Vote ρ) (r : Nat) : Decidable (c.AcceptedBy v r) :=
  inferInstanceAs (Decidable (_ ∨ _))

/-- The replicas are distinct members of the configuration, as many as `QuorumSize` asks for. -/
def IsQuorum (i : ConfigurationInfo) (quorum : List Nat) : Prop :=
  quorum.Nodup ∧ quorum ⊆ i.members ∧ i.members.length / 2 + 1 ≤ quorum.length

instance (i : ConfigurationInfo) (quorum : List Nat) : Decidable (IsQuorum i quorum) :=
  inferInstanceAs (Decidable (_ ∧ _))

/-- A proposed vote that was accepted by a quorum of its configuration. -/
def AcceptedByQuorum (c : Cluster ρ) (v : Vote ρ) : Prop :=
  v ∈ c.proposed ∧ ∃ i, c.Installed i ∧ i.configurationNumber = v.configurationNumber ∧
    ∃ quorum, IsQuorum i quorum ∧ ∀ r ∈ quorum, c.AcceptedBy v r

/-- The vote was accepted by the given quorum of the first configuration. -/
def AcceptedByFirst (c : Cluster ρ) (v : Vote ρ) (quorum : List Nat) : Prop :=
  v ∈ c.proposed ∧ v.configurationNumber = 1 ∧ IsQuorum ⟨1, 0, c.members⟩ quorum ∧
    ∀ r ∈ quorum, c.AcceptedBy v r

instance [DecidableEq ρ] (c : Cluster ρ) (v : Vote ρ) (quorum : List Nat) :
    Decidable (c.AcceptedByFirst v quorum) :=
  inferInstanceAs (Decidable (_ ∧ _))

theorem AcceptedByFirst.quorum {c : Cluster ρ} {v : Vote ρ} {quorum : List Nat}
    (h : c.AcceptedByFirst v quorum) : c.AcceptedByQuorum v :=
  ⟨h.1, _, .inl rfl, h.2.1.symm, quorum, h.2.2⟩

end Cluster

/-! ## Runs of small clusters -/

namespace Example

/-- A vote of the first configuration with the given content. -/
def vote (r decree : Nat) (b : BallotNumber) (v : Content Nat) : Vote Nat :=
  { (Vote.new r decree 1 b : Vote Nat) with
    requests := v.requests, reconfiguration := v.reconfiguration }

/-- The main loop of `r` proposes the content. -/
def propose (r : Nat) (v : Content Nat) : Action Nat :=
  .propose r (vote 0 0 BallotNumber.empty v) {}

/-- Replica `dst` receives a message of `src` about the first configuration. -/
def receive (src dst decree : Nat) (b : BallotNumber) (body : MessageBody Nat) (ch : Choice := {}) :
    Action Nat :=
  .deliver dst ⟨src, dst, .message ⟨⟨src, decree, 1, b⟩, body⟩⟩ false ch

def receiveVote (src dst : Nat) (v : Vote Nat) : Action Nat :=
  .deliver dst ⟨src, dst, .vote v⟩ false {}

/-- Replica `r`, at decree `d` and ballot `b`, asks for the status of a peer, which is at decree
`d'` and ballot `b'`, and receives the answer. -/
def ask (r peer d : Nat) (b : BallotNumber) (d' : Nat) (b' : BallotNumber) (ch : Choice := {}) :
    List (Action Nat) :=
  [receive r peer d b .statusQuery, receive peer r d' b' (.statusResponse d b 0) ch]

/-- Replica `r` prepares the ballot with the replicas given with the votes they report. -/
def prepare (r decree : Nat) (b : BallotNumber) (peers : List (Nat × Vote Nat)) :
    List (Action Nat) :=
  peers.map (fun e => receive r e.1 decree b .prepare) ++
    peers.map fun e => receive e.1 r decree b (.prepareAccepted e.2)

/-- The replica receives the vote of `r`, plays it and answers. -/
def accept (r peer : Nat) (v : Vote Nat) : List (Action Nat) :=
  [receiveVote r peer v, .play peer {}, receive peer r v.decree v.ballot .voteAccepted]

/-- Nothing logged yet: the report of a replica that has just started. -/
def blank (r : Nat) : Vote Nat := Vote.new r 0 1 BallotNumber.empty

/-- The election is due. -/
def due : Choice := { electionDue := true }

/-- The replica learns the first `n` records of the peer it hears from, and from then on follows the
votes in its cache. -/
def learn (n : Nat) : Choice := { fetchCount := n, cached := fun i => i + 1 == n }

/-- Replicas 1, 2 and 3 start, and 2 becomes a secondary. -/
def started : List (Action Nat) :=
  [.activate 1 {}, .activate 2 {}, .activate 3 {}] ++
    ask 2 1 0 BallotNumber.empty 0 BallotNumber.empty

/-- Replica `r` is elected with the help of replica 2. -/
def elected (r : Nat) : List (Action Nat) :=
  ask r 2 0 BallotNumber.empty 0 BallotNumber.empty due ++ prepare r 0 ⟨1, r⟩ [(2, blank 2)]

/-- Replica 2 promises the ballot of 1, then that of 3, and accepts its vote of decree 0. Both
records are of decree 0, so after a restart it accepts the votes of replica 1, and after that those
of replica 3. -/
def lostPromise (v w : Content Nat) : List (Action Nat) :=
  started ++ [receive 3 2 0 BallotNumber.empty .statusQuery] ++ elected 1 ++
    [receive 2 3 0 BallotNumber.empty (.statusResponse 0 BallotNumber.empty 0) due] ++
    prepare 3 0 ⟨1, 3⟩ [(2, blank 2)] ++ accept 3 2 (vote 3 0 ⟨1, 3⟩ Content.empty) ++
    [propose 3 w, .crash 2, .restart 2, .activate 2 {},
      receiveVote 1 2 (vote 1 0 ⟨1, 1⟩ Content.empty)] ++
    ask 2 1 0 BallotNumber.empty 0 ⟨1, 1⟩ (learn 1) ++
    [.play 2 {}, receive 2 1 0 ⟨1, 1⟩ .voteAccepted, propose 1 v] ++
    accept 1 2 (vote 1 1 ⟨1, 1⟩ v) ++ accept 3 2 (vote 3 1 ⟨1, 3⟩ w)

/-- Five replicas start. Replica 1 is elected by 4 and 5 and logs a vote of decree 1 that nobody
receives; then replica 2 is elected by the same two. -/
def twoPrimaries (v : Content Nat) : List (Action Nat) :=
  let z := BallotNumber.empty
  [.activate 1 {}, .activate 2 {}, .activate 3 {}, .activate 4 {}, .activate 5 {}] ++
    ask 3 1 0 z 0 z ++ ask 3 2 0 z 0 z ++ ask 4 1 0 z 0 z ++ ask 4 2 0 z 0 z ++ ask 5 1 0 z 0 z ++
    ask 5 2 0 z 0 z ++ [receive 2 4 0 z .statusQuery, receive 2 5 0 z .statusQuery] ++
    ask 1 4 0 z 0 z due ++ ask 1 5 0 z 0 z due ++ prepare 1 0 ⟨1, 1⟩ [(4, blank 4), (5, blank 5)] ++
    accept 1 4 (vote 1 0 ⟨1, 1⟩ Content.empty) ++ accept 1 5 (vote 1 0 ⟨1, 1⟩ Content.empty) ++
    [propose 1 v, receive 4 2 0 z (.statusResponse 0 z 0) due,
      receive 5 2 0 z (.statusResponse 0 z 0) due] ++
    prepare 2 0 ⟨1, 2⟩
      [(4, vote 1 0 ⟨1, 1⟩ Content.empty), (5, vote 1 0 ⟨1, 1⟩ Content.empty)] ++
    accept 2 4 (vote 2 0 ⟨1, 2⟩ Content.empty) ++ accept 2 5 (vote 2 0 ⟨1, 2⟩ Content.empty)

/-- Replica 1 is elected again by 3 and 4 and passes its vote, which closes the configuration.
Replica 3 had promised the new ballot before it learned the vote of 2, and it fabricates a vote of
decree 1 under the ballot of 2. -/
def closed (v : Content Nat) : List (Action Nat) :=
  let z := BallotNumber.empty
  [.crash 1, .restart 1, .activate 1 {}] ++ ask 1 3 1 ⟨1, 1⟩ 0 z ++ ask 1 5 1 ⟨1, 1⟩ 0 ⟨1, 2⟩ due ++
    prepare 1 1 ⟨2, 1⟩ [(3, blank 3), (4, vote 2 0 ⟨1, 2⟩ Content.empty)] ++
    [receive 1 3 0 z (.statusResponse 0 z 0)] ++ ask 3 5 0 z 0 ⟨1, 2⟩ (learn 1) ++
    [receiveVote 1 3 (vote 1 1 ⟨2, 1⟩ v), .play 3 {}, receiveVote 1 3 (vote 1 1 ⟨2, 1⟩ v)] ++
    ask 3 5 0 ⟨1, 2⟩ 0 ⟨1, 2⟩ ++ ask 3 1 0 ⟨1, 2⟩ 1 ⟨2, 1⟩ (learn 4) ++
    [.play 3 {}, receive 3 1 1 ⟨2, 1⟩ .voteAccepted,
      receiveVote 1 4 (vote 1 1 ⟨2, 1⟩ v)] ++
    ask 4 5 0 ⟨1, 2⟩ 0 ⟨1, 2⟩ ++ ask 4 1 0 ⟨1, 2⟩ 1 ⟨2, 1⟩ (learn 4) ++
    [.play 4 {}, receive 4 1 1 ⟨2, 1⟩ .voteAccepted,
      receive 1 3 1 ⟨2, 1⟩ .reconfigurationDecision]

/-- Replica 3 sends a `Join` message from the new configuration to replica 2, still a primary of the
old one, which learns the fabricated vote and takes it for a vote of its own that was passed. Its
next vote is of a decree after the configuration change; replica 5 learns it and passes it with the
help of 2 and 4. -/
def lateJoin (v w : Content Nat) : List (Action Nat) :=
  twoPrimaries v ++ closed v ++
    [.sendJoin 3 {},
      .deliver 2 ⟨3, 2, .message ⟨⟨3, 1, 2, BallotNumber.empty⟩, .join 0⟩⟩ false (learn 2),
      propose 2 w, receiveVote 2 5 (vote 2 2 ⟨1, 2⟩ w), .play 5 {},
      receiveVote 2 5 (vote 2 2 ⟨1, 2⟩ w)] ++
    ask 5 4 0 ⟨1, 2⟩ 1 ⟨2, 1⟩ ++ ask 5 2 0 ⟨1, 2⟩ 2 ⟨1, 2⟩ { learn 3 with pick := 1 } ++
    [.play 5 {}, .timeout 5 {}] ++ ask 5 4 2 ⟨1, 2⟩ 1 ⟨2, 1⟩ ++ ask 5 2 2 ⟨1, 2⟩ 2 ⟨1, 2⟩ due ++
    prepare 5 2 ⟨2, 5⟩ [(4, vote 1 1 ⟨2, 1⟩ v), (2, vote 2 2 ⟨1, 2⟩ w)] ++
    accept 5 2 (vote 5 2 ⟨2, 5⟩ w) ++ [receiveVote 5 4 (vote 5 2 ⟨2, 5⟩ w)] ++
    ask 4 2 1 ⟨2, 1⟩ 2 ⟨2, 5⟩ ++ ask 4 5 1 ⟨2, 1⟩ 2 ⟨2, 5⟩ (learn 4) ++
    [.play 4 {}, receive 4 5 2 ⟨2, 5⟩ .voteAccepted]

/-- Replica 3 passes two decrees with the help of replica 2, which restarts after that. -/
def passed (v w : Content Nat) : List (Action Nat) :=
  started ++ elected 3 ++ accept 3 2 (vote 3 0 ⟨1, 3⟩ Content.empty) ++
    [propose 3 v] ++ accept 3 2 (vote 3 1 ⟨1, 3⟩ v) ++
    [propose 3 w] ++ accept 3 2 (vote 3 2 ⟨1, 3⟩ w)

end Example

open Example

/-! ## Agreement in a fixed configuration -/

section Agreement

variable {c : Cluster ρ} {g : Ghost ρ}

/-- Votes executed under the same configuration at the same decree have the same content. -/
theorem World.executed_content (hw : World c g) {e e' : Nat × Vote ρ} (he : e ∈ c.executed)
    (he' : e' ∈ c.executed) (hcfg : e.2.configurationNumber = e'.2.configurationNumber)
    (hdec : e.2.decree = e'.2.decree) : e.2.content = e'.2.content := by
  obtain ⟨_, _, hchosen, hlow⟩ := hw.executed e he
  obtain ⟨_, _, hchosen', hlow'⟩ := hw.executed e' he'
  rw [hcfg, hdec] at hchosen hlow
  rcases lt_or_ge e'.2.decree (g.first e'.2.configurationNumber) with hlt | hge
  · rw [hlow hlt, hlow' hlt]
  · exact (hw.inv.sound _).chosen_unique hge (hchosen hge) (hchosen' hge)

theorem World.info_eq (hw : World c g) {i : ConfigurationInfo} (hi : c.Installed i) :
    g.InstalledOk i := by
  rcases hi with rfl | ⟨r, hr⟩
  · exact ⟨le_refl _, hw.inv.top_pos, hw.inv.info_one.symm⟩
  · exact hw.installed _ hr

variable {v : Vote ρ}

theorem World.acc_of_acceptedBy (hw : World c g) (hv : v ∈ c.proposed) {r : Nat}
    (hr : c.AcceptedBy v r) : (g.hist v.configurationNumber).acc r v.ballot v.decree := by
  rcases hr with rfl | ⟨p, hp, hpay⟩
  · exact (hw.proposed v hv).2.2.2.2.2
  · have hok := hw.network p hp
    unfold Ghost.PacketOk at hok
    rw [hpay] at hok
    exact hok

/-- A vote accepted by a quorum is chosen. -/
theorem World.chosen_of_quorum (hw : World c g) (hq : c.AcceptedByQuorum v) :
    g.ChosenIn v.configurationNumber v.decree v.content := by
  obtain ⟨hv, i, hi, hnum, quorum, ⟨hnodup, hsub, hsize⟩, hacc⟩ := hq
  obtain ⟨hb, _, _, _, hprop, _⟩ := hw.proposed v hv
  obtain ⟨_, _, hinfo⟩ := hw.info_eq hi
  rw [hnum] at hinfo
  have hmem : g.members v.configurationNumber = i.members.toFinset := by
    unfold Ghost.members
    rw [← hinfo]
  refine ⟨v.ballot, bot_lt_iff_ne_bot.mpr hb, ⟨quorum.toFinset, ⟨?_, ?_⟩, fun r hr => ?_⟩, hprop⟩
  · rw [hmem]
    intro r hr
    exact List.mem_toFinset.mpr (hsub (List.mem_toFinset.mp hr))
  · have hle := List.toFinset_card_le i.members
    rw [hmem, List.toFinset_card_of_nodup hnodup]
    omega
  · exact hw.acc_of_acceptedBy hv (hacc r (List.mem_toFinset.mp hr))

/-- No vote follows a configuration change accepted by a quorum in its configuration. -/
theorem World.le_of_closed (hw : World c g) (hq : c.AcceptedByQuorum v)
    (hfinal : v.content.Final) {d : Nat} {w : Content ρ}
    (hw' : g.ChosenIn v.configurationNumber d w) : d ≤ v.decree := by
  obtain ⟨_, _, _, _, hprop, _⟩ := hw.proposed v hq.1
  have hfirst : g.first v.configurationNumber ≤ v.decree := by
    by_contra hlt
    have hempty := (hw.inv.voteOk _ hprop).low (not_le.mp hlt)
    exact hfinal (congrArg Content.reconfiguration hempty)
  obtain ⟨b, _, _, hp⟩ := hw'
  exact (hw.inv.sound _).proper_le_of_final hfirst (hw.chosen_of_quorum hq) hfinal
    (hw.inv.voteOk _ hp).proper

/-- Without the condition on restarts, replicas 1 and 3 install different configurations under the
number 2. -/
theorem configurations_differ_of_lostPromise :
    ∃ c : Cluster Nat, Reach (fun c a => c.joinsApart a) [1, 2, 3] c ∧
      ∃ e ∈ c.installed, ∃ e' ∈ c.installed,
        e.2.configurationNumber = e'.2.configurationNumber ∧ e.2.members ≠ e'.2.members :=
  Reach.exists_of_follow (lostPromise ⟨[], some [1, 2]⟩ ⟨[], some [2, 3]⟩)
    (by decide +kernel)

end Agreement

end Rsl
