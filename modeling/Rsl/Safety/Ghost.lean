import Rsl.Lib.Voting
import Rsl.Message

/-!
# Voting histories of a cluster

The abstract view of a run: one voting history per configuration number, with the configurations
installed so far. `Ghost.Inv` is the invariant of this view and `Ghost.Grows r` says how an action
of replica `r` may extend it. The predicates on votes, log records and packets say what each of them
stands for in the histories; all of them survive the growth of the histories.

Slots below `Ghost.first` are unprotected: that is decree 0 of the first configuration, which a
restarted replica forgets. Only the empty content is ever proposed there.
-/

set_option autoImplicit false

namespace Rsl

open Voting

variable {ρ : Type}

/-- The content of a placeholder vote. -/
def Content.empty : Content ρ := ⟨[], none⟩

/-- The content closes its configuration. -/
def Content.Final (v : Content ρ) : Prop := v.reconfiguration ≠ none

/-- One voting history for each configuration number. -/
abbrev Hist (ρ : Type) := History Nat BallotNumber (Content ρ)

/-- The histories of all configurations and the configurations installed up to `top`, and whether
the run has a fixed configuration. -/
structure Ghost (ρ : Type) where
  fixed : Prop
  top : Nat
  info : Nat → ConfigurationInfo
  hist : Nat → Hist ρ

namespace Ghost

variable (g : Ghost ρ) (c : Nat)

/-- The members of configuration `c`. -/
def members : Finset Nat := (g.info c).members.toFinset

/-- The first protected decree of configuration `c`. -/
def first : Nat := max 1 (g.info c).initialDecree

/-- `v` is chosen at decree `d` in configuration `c`. -/
def ChosenIn (d : Nat) (v : Content ρ) : Prop := Chosen (g.members c) (g.hist c) d v

/-- Some member of configuration `c` has promised a ballot in it. -/
def Entered : Prop :=
  1 ≤ c ∧ c ≤ g.top ∧ ∃ m ∈ g.members c, (g.hist c).bal m ≠ ⊥

/-- The ballot was promised by its owner. The empty member owns the ballots that follow a
configuration change. -/
def Owned (b : BallotNumber) : Prop := b.memberId = 0 ∨ b ≤ (g.hist c).bal b.memberId

/-- The ballot was issued by its owner, and a configuration other than the first was entered. -/
def Issued (b : BallotNumber) : Prop := g.Owned c b ∧ (2 ≤ c → g.Entered c)

/-- Something was proposed at the ballot. -/
def Rooted (b : BallotNumber) : Prop := b = ⊥ ∨ ∃ d v, (g.hist c).prop b d v

/-- The contents a vote can have: a configuration is never empty, and none is proposed in a run
with a fixed configuration. -/
def Valid (v : Content ρ) : Prop :=
  v.reconfiguration ≠ some [] ∧ (g.fixed → v.reconfiguration = none)

/-- What holds of every vote in configuration `c`, wherever it is. -/
structure VoteOk (b : BallotNumber) (d : Nat) (v : Content ρ) : Prop where
  proper : Proper (g.members c) (g.first c) Content.Final (g.hist c) b d v
  rooted : g.Rooted c b
  valid : g.Valid v
  low : d < g.first c → v = Content.empty
  init : (g.info c).initialDecree ≤ d

/-- The content of a decree was chosen and closes configuration `c`. -/
def DecisionOk (b : BallotNumber) (d : Nat) : Prop :=
  ⊥ < b ∧ g.first c ≤ d ∧ ChosenAt (g.members c) (g.hist c) b d ∧
    ∃ v, (g.hist c).prop b d v ∧ v.Final

/-- A vote that may be executed: its content was chosen. -/
def ExecOk (v : Vote ρ) : Prop :=
  1 ≤ v.configurationNumber ∧ v.configurationNumber ≤ g.top ∧
    (g.first v.configurationNumber ≤ v.decree →
      g.ChosenIn v.configurationNumber v.decree v.content) ∧
    (v.decree < g.first v.configurationNumber → v.content = Content.empty)

/-- The vote was proposed by its owner and accepted by it. -/
def ProposedOk (v : Vote ρ) : Prop :=
  v.ballot ≠ ⊥ ∧ 1 ≤ v.configurationNumber ∧ v.configurationNumber ≤ g.top ∧
    v.memberId = v.ballot.memberId ∧
    (g.hist v.configurationNumber).prop v.ballot v.decree v.content ∧
    (g.hist v.configurationNumber).acc v.memberId v.ballot v.decree

/-- What holds of every log record. -/
def RecordOk : Record ρ → Prop
  | .vote v =>
    1 ≤ v.configurationNumber ∧ v.configurationNumber ≤ g.top ∧ v.ballot ≠ ⊥ ∧
      g.VoteOk v.configurationNumber v.ballot v.decree v.content
  | .prepare h => h.ballot ≠ ⊥ ∧ g.Issued h.configurationNumber h.ballot
  | .reconfigurationDecision h =>
    1 ≤ h.configurationNumber ∧ h.configurationNumber ≤ g.top ∧
      g.DecisionOk h.configurationNumber h.ballot h.decree

/-- What holds of every message. -/
def MessageOk (m : Message ρ) : Prop :=
  match m.body with
  | .voteAccepted => (g.hist m.configurationNumber).acc m.memberId m.ballot m.decree
  | .prepare => g.Issued m.configurationNumber m.ballot ∧ m.memberId = m.ballot.memberId
  | .prepareAccepted v =>
    1 ≤ m.configurationNumber ∧ m.configurationNumber ≤ g.top ∧
    m.ballot.memberId ∈ g.members m.configurationNumber ∧
    Promised (g.first m.configurationNumber) (g.hist m.configurationNumber) m.memberId m.ballot
      v.decree v.ballot ∧
    v.decree ≤ m.decree ∧ g.VoteOk m.configurationNumber v.ballot v.decree v.content
  | .notAccepted => g.Issued m.configurationNumber m.ballot
  | .statusResponse _ _ _ => 2 ≤ m.configurationNumber →
    m.configurationNumber ≤ g.top ∧ (g.hist m.configurationNumber).bal m.memberId ≠ ⊥
  | .reconfigurationDecision =>
    1 ≤ m.configurationNumber ∧ m.configurationNumber ≤ g.top ∧
      g.DecisionOk m.configurationNumber m.ballot m.decree
  | .join _ => m.configurationNumber ≤ g.top
  | _ => True

/-- What holds of every vote on the network: it is a proposal of its sender. -/
def SentVoteOk (src : Nat) (v : Vote ρ) : Prop :=
  src = v.ballot.memberId ∧ g.ProposedOk v

/-- What holds of every packet. -/
def PacketOk (p : Packet ρ) : Prop :=
  match p.payload with
  | .vote v => g.SentVoteOk p.src v
  | .message m => g.MessageOk m

/-- The invariant of the histories. -/
structure Inv (initial : List Nat) (g : Ghost ρ) : Prop where
  top_pos : 1 ≤ g.top
  info_one : g.info 1 = ⟨1, 0, initial⟩
  number : ∀ c, 1 ≤ c → c ≤ g.top → (g.info c).configurationNumber = c
  sound : ∀ c, Sound (g.members c) (g.first c) Content.Final (g.hist c)
  issued : ∀ c {b d v}, (g.hist c).prop b d v → b ≤ (g.hist c).bal b.memberId
  owner : ∀ c {b d v}, (g.hist c).prop b d v → b.memberId ∈ g.members c
  voteOk : ∀ c {b d v}, (g.hist c).prop b d v → g.VoteOk c b d v
  nonempty : ∀ c, 2 ≤ c → c ≤ g.top → (g.info c).members ≠ []
  installed : ∀ c, 1 ≤ c → c < g.top → ∃ d v ms, g.first c ≤ d ∧ g.ChosenIn c d v ∧
    v.reconfiguration = some ms ∧ g.info (c + 1) = ⟨c + 1, d + 1, ms⟩
  fresh : ∀ c, g.top < c → (∀ b d v, ¬ (g.hist c).prop b d v) ∧
    (∀ r b d, ¬ (g.hist c).acc r b d) ∧ ∀ r, (g.hist c).bal r = ⊥

/-- How an action of replica `r` extends the histories. -/
structure Grows (r : Nat) (g g' : Ghost ρ) : Prop where
  fixed : g'.fixed = g.fixed
  top : g.top ≤ g'.top
  info : ∀ c, 1 ≤ c → c ≤ g.top → g'.info c = g.info c
  hist : ∀ c, Extends (g.hist c) (g'.hist c)
  bal : ∀ c r', r' ≠ r → (g'.hist c).bal r' = (g.hist c).bal r'
  acc : ∀ c r' b d, r' ≠ r → (g'.hist c).acc r' b d → (g.hist c).acc r' b d
  prop : ∀ c b d v, (g'.hist c).prop b d v → (g.hist c).prop b d v ∨ b.memberId = r

theorem Grows.refl (r : Nat) (g : Ghost ρ) : Grows r g g where
  fixed := rfl
  top := le_rfl
  info _ _ _ := rfl
  hist _ := Extends.refl _
  bal _ _ _ := rfl
  acc _ _ _ _ _ := id
  prop _ _ _ _ := .inl

theorem Grows.trans {r : Nat} {g₁ g₂ g₃ : Ghost ρ} (h₁ : Grows r g₁ g₂) (h₂ : Grows r g₂ g₃) :
    Grows r g₁ g₃ where
  fixed := h₂.fixed.trans h₁.fixed
  top := h₁.top.trans h₂.top
  info c hc hle := by rw [h₂.info c hc (hle.trans h₁.top), h₁.info c hc hle]
  hist c := (h₁.hist c).trans (h₂.hist c)
  bal c r' hne := by rw [h₂.bal c r' hne, h₁.bal c r' hne]
  acc c r' b d hne h := h₁.acc c r' b d hne (h₂.acc c r' b d hne h)
  prop c b d v h := by
    rcases h₂.prop c b d v h with h | h
    · exact h₁.prop c b d v h
    · exact .inr h

/-! ## What is said of votes, records and packets stays true -/

section Mono

variable {g c} {r : Nat} {g' : Ghost ρ}

theorem Grows.members_eq (h : Grows r g g') (h1 : 1 ≤ c) (h2 : c ≤ g.top) :
    g'.members c = g.members c := by
  unfold members
  rw [h.info c h1 h2]

theorem Grows.first_eq (h : Grows r g g') (h1 : 1 ≤ c) (h2 : c ≤ g.top) :
    g'.first c = g.first c := by
  unfold first
  rw [h.info c h1 h2]

theorem Entered.mono (h : Grows r g g') (hc : g.Entered c) : g'.Entered c := by
  obtain ⟨h1, h2, m, hm, hb⟩ := hc
  refine ⟨h1, h2.trans h.top, m, by rw [h.members_eq h1 h2]; exact hm, ?_⟩
  exact ne_bot_of_le_ne_bot hb ((h.hist c).bal m)

variable {b : BallotNumber} {d : Nat} {v : Vote ρ}

section

variable (h : Grows r g g')

include h

theorem Owned.mono (hb : g.Owned c b) : g'.Owned c b :=
  hb.imp id fun hle => le_trans hle ((h.hist c).bal _)

theorem Issued.mono (hb : g.Issued c b) : g'.Issued c b :=
  ⟨hb.1.mono h, fun hc => (hb.2 hc).mono h⟩

theorem Rooted.mono (hb : g.Rooted c b) : g'.Rooted c b := by
  rcases hb with hb | ⟨d, v, hb⟩
  · exact .inl hb
  · exact .inr ⟨d, v, (h.hist c).prop hb⟩

theorem VoteOk.mono (h1 : 1 ≤ c) (h2 : c ≤ g.top)
    {v : Content ρ} (hv : g.VoteOk c b d v) : g'.VoteOk c b d v where
  proper := by
    rw [h.members_eq h1 h2, h.first_eq h1 h2]
    exact hv.proper.mono (h.hist c)
  rooted := hv.rooted.mono h
  valid := by
    unfold Valid
    rw [h.fixed]
    exact hv.valid
  low hd := hv.low (by rwa [h.first_eq h1 h2] at hd)
  init := by rw [h.info c h1 h2]; exact hv.init

theorem DecisionOk.mono (h1 : 1 ≤ c) (h2 : c ≤ g.top) (hd : g.DecisionOk c b d) :
    g'.DecisionOk c b d := by
  obtain ⟨hb, hf, hc, v, hp, hfin⟩ := hd
  refine ⟨hb, ?_, ?_, v, (h.hist c).prop hp, hfin⟩
  · rw [h.first_eq h1 h2]; exact hf
  · rw [h.members_eq h1 h2]; exact hc.mono (h.hist c)

theorem ChosenIn.mono (h1 : 1 ≤ c) (h2 : c ≤ g.top) {v : Content ρ}
    (hc : g.ChosenIn c d v) : g'.ChosenIn c d v := by
  unfold ChosenIn
  rw [h.members_eq h1 h2]
  exact Chosen.mono (h.hist c) hc

theorem ExecOk.mono (hv : g.ExecOk v) : g'.ExecOk v := by
  obtain ⟨h1, h2, h3, h4⟩ := hv
  refine ⟨h1, h2.trans h.top, fun hd => ?_, fun hd => ?_⟩
  · rw [h.first_eq h1 h2] at hd
    exact (h3 hd).mono h h1 h2
  · rw [h.first_eq h1 h2] at hd
    exact h4 hd

theorem ProposedOk.mono (hv : g.ProposedOk v) :
    g'.ProposedOk v := by
  obtain ⟨hb, h1, h2, h3, h4, h5⟩ := hv
  exact ⟨hb, h1, h2.trans h.top, h3, (h.hist _).prop h4, (h.hist _).acc h5⟩

theorem RecordOk.mono {x : Record ρ} (hx : g.RecordOk x) : g'.RecordOk x := by
  cases x with
  | vote v =>
    obtain ⟨h1, h2, h3, h4⟩ := hx
    exact ⟨h1, h2.trans h.top, h3, h4.mono h h1 h2⟩
  | prepare p => exact ⟨hx.1, hx.2.mono h⟩
  | reconfigurationDecision p =>
    obtain ⟨h1, h2, h3⟩ := hx
    exact ⟨h1, h2.trans h.top, h3.mono h h1 h2⟩

theorem SentVoteOk.mono {src : Nat} (hv : g.SentVoteOk src v) :
    g'.SentVoteOk src v :=
  ⟨hv.1, hv.2.mono h⟩

theorem MessageOk.mono {m : Message ρ} (hm : g.MessageOk m) :
    g'.MessageOk m := by
  unfold MessageOk at hm ⊢
  cases hb : m.body with
  | voteAccepted => rw [hb] at hm; exact (h.hist _).acc hm
  | prepare => rw [hb] at hm; exact ⟨hm.1.mono h, hm.2⟩
  | prepareAccepted v =>
    rw [hb] at hm
    obtain ⟨h1, h2, h3, h4, h5, h6⟩ := hm
    refine ⟨h1, h2.trans h.top, ?_, ?_, h5, h6.mono h h1 h2⟩
    · rw [h.members_eq h1 h2]; exact h3
    · rw [h.first_eq h1 h2]; exact h4.mono (h.hist _)
  | notAccepted => rw [hb] at hm; exact Issued.mono h hm
  | reconfigurationDecision =>
    rw [hb] at hm
    exact ⟨hm.1, hm.2.1.trans h.top, hm.2.2.mono h hm.1 hm.2.1⟩
  | join n => rw [hb] at hm; exact hm.trans h.top
  | statusQuery => trivial
  | statusResponse _ _ _ =>
    rw [hb] at hm
    intro hc
    exact ⟨le_trans (hm hc).1 h.top,
      ne_bot_of_le_ne_bot (hm hc).2 ((h.hist _).bal _)⟩
  | joinRequest => trivial
  | defunctConfiguration => trivial

theorem PacketOk.mono {p : Packet ρ} (hp : g.PacketOk p) : g'.PacketOk p := by
  unfold PacketOk at hp ⊢
  cases hb : p.payload with
  | vote v => rw [hb] at hp; exact SentVoteOk.mono h hp
  | message m => rw [hb] at hp; exact MessageOk.mono h hp

end

end Mono

/-! ## Agreement in the histories -/

section Agreement

variable {g} {initial : List Nat} (hg : g.Inv initial)
include hg

/-- A configuration is closed by at most one content at one decree, and that content determines the
next configuration. -/
theorem Inv.closed_unique {c d d' : Nat} {v v' : Content ρ} (hd : g.first c ≤ d)
    (hd' : g.first c ≤ d') (hv : g.ChosenIn c d v) (hv' : g.ChosenIn c d' v') (hf : v.Final)
    (hf' : v'.Final) : d = d' ∧ v = v' := by
  have key : ∀ {e e' : Nat} {u u' : Content ρ}, g.first c ≤ e → g.ChosenIn c e u →
      g.ChosenIn c e' u' → u.Final → e' ≤ e := by
    intro e e' u u' he hu hu' hfu
    obtain ⟨b, _, _, hp⟩ := hu'
    exact (hg.sound c).proper_le_of_final he hu hfu (hg.voteOk c hp).proper
  have heq : d = d' := le_antisymm (key hd' hv' hv hf') (key hd hv hv' hf)
  subst heq
  exact ⟨rfl, (hg.sound c).chosen_unique hd hv hv'⟩

variable {c d : Nat} {v : Content ρ} {b : BallotNumber}

/-- Whoever closes configuration `c` below the top installs the configuration that is already
there. -/
theorem Inv.info_succ {ms : List Nat} (h1 : 1 ≤ c) (htop : c < g.top)
    (hd : g.first c ≤ d) (hv : g.ChosenIn c d v) (hms : v.reconfiguration = some ms) :
    g.info (c + 1) = ⟨c + 1, d + 1, ms⟩ := by
  obtain ⟨d', v', ms', hd', hv', hms', hinfo⟩ := hg.installed c h1 htop
  have hf : v.Final := by unfold Content.Final; rw [hms]; exact Option.some_ne_none _
  have hf' : v'.Final := by unfold Content.Final; rw [hms']; exact Option.some_ne_none _
  obtain ⟨rfl, rfl⟩ := hg.closed_unique hd hd' hv hv' hf hf'
  rw [hms] at hms'
  cases hms'
  exact hinfo

/-- The ballot of a vote was promised by its owner. -/
theorem Inv.owned_of_voteOk
    (hv : g.VoteOk c b d v) : g.Owned c b := by
  rcases hv.rooted with rfl | ⟨d', v', hp⟩
  · exact .inl rfl
  · exact .inr (hg.issued c hp)

/-- A configuration in which something was proposed was entered. -/
theorem Inv.entered_of_prop (h1 : 1 ≤ c)
    (htop : c ≤ g.top) (hb : b ≠ ⊥) (hp : (g.hist c).prop b d v) : g.Entered c :=
  ⟨h1, htop, b.memberId, hg.owner c hp, ne_bot_of_le_ne_bot hb (hg.issued c hp)⟩

/-- A decision closes the configuration with the content of any vote at its ballot. -/
theorem Inv.chosen_of_decision
    (hd : g.DecisionOk c b d) (hv : g.VoteOk c b d v) : g.ChosenIn c d v ∧ v.Final := by
  obtain ⟨hb, hfirst, hc, w, hp, hf⟩ := hd
  have hpv := (hv.proper.safe hfirst).prop_of_chosenAt hb (le_refl _) hc
  have heq := (hg.sound c).unique hp hpv
  subst heq
  exact ⟨⟨b, hb, hc, hp⟩, hf⟩

/-- A vote whose decree was passed at its ballot has its content chosen, and the content does not
close the configuration. -/
theorem Inv.chosen_of_next {v w : Content ρ}
    (hfirst : g.first c ≤ d) (hv : g.VoteOk c b d v) (hw : g.VoteOk c b (d + 1) w) :
    g.ChosenIn c d v ∧ ¬ v.Final :=
  (hg.sound c).chosen_of_passed (by simpa using hw.proper.passed (by omega))
    (hv.proper.safe hfirst)

/-- A vote may be executed once a vote for the next decree has the same ballot. -/
theorem Inv.execOk_of_next {c : Nat} (h1 : 1 ≤ c) (htop : c ≤ g.top) {v w : Vote ρ}
    (hcv : v.configurationNumber = c) (hv : g.VoteOk c v.ballot v.decree v.content)
    (hw : g.VoteOk c w.ballot w.decree w.content) (hdec : w.decree = v.decree + 1)
    (hbal : w.ballot = v.ballot) : g.ExecOk v ∧ v.reconfiguration = none := by
  have hnext : g.first c ≤ v.decree → g.ChosenIn c v.decree v.content ∧ ¬ v.content.Final :=
    fun hfirst => hg.chosen_of_next (w := w.content) hfirst hv (by rw [← hdec, ← hbal]; exact hw)
  subst hcv
  refine ⟨⟨h1, htop, fun hf => (hnext hf).1, hv.low⟩, ?_⟩
  rcases lt_or_ge v.decree (g.first v.configurationNumber) with hlow | hfirst
  · exact congrArg Content.reconfiguration (hv.low hlow)
  · exact not_not.mp (hnext hfirst).2

end Agreement

/-- The placeholder for the first decree of a configuration. -/
theorem voteOk_placeholder : g.VoteOk c ⊥ (g.info c).initialDecree Content.empty where
  proper := ⟨fun _ => safe_bot _ _ _ _, fun h => absurd h (not_lt.mpr (le_max_right _ _))⟩
  rooted := .inl rfl
  valid := ⟨fun h => Option.some_ne_none _ h.symm, fun _ => rfl⟩
  low _ := rfl
  init := le_rfl

/-! ## Growing one history -/

section SetHist

/-- Replace the history of configuration `c`. -/
def setHist (h : Hist ρ) : Ghost ρ :=
  { g with hist := fun c' => if c' = c then h else g.hist c' }

variable {g c}

@[simp] theorem setHist_hist_self (h : Hist ρ) : (g.setHist c h).hist c = h := if_pos rfl

theorem setHist_hist_ne (h : Hist ρ) {c' : Nat} (hne : c' ≠ c) :
    (g.setHist c h).hist c' = g.hist c' := if_neg hne

@[simp] theorem setHist_top (h : Hist ρ) : (g.setHist c h).top = g.top := rfl

@[simp] theorem setHist_members (h : Hist ρ) (c' : Nat) :
    (g.setHist c h).members c' = g.members c' := rfl

@[simp] theorem setHist_first (h : Hist ρ) (c' : Nat) : (g.setHist c h).first c' = g.first c' := rfl

/-- One history grows by an action of replica `r`. -/
structure HistGrows (r : Nat) (h h' : Hist ρ) : Prop where
  ext : Extends h h'
  bal : ∀ r', r' ≠ r → h'.bal r' = h.bal r'
  acc : ∀ r' b d, r' ≠ r → h'.acc r' b d → h.acc r' b d
  prop : ∀ b d v, h'.prop b d v → h.prop b d v ∨ b.memberId = r

theorem grows_setHist {r : Nat} {h : Hist ρ} (hh : HistGrows r (g.hist c) h) :
    Grows r g (g.setHist c h) where
  fixed := rfl
  top := le_rfl
  info _ _ _ := rfl
  hist c' := by
    by_cases hc : c' = c
    · subst hc; rw [setHist_hist_self]; exact hh.ext
    · rw [setHist_hist_ne h hc]; exact Extends.refl _
  bal c' := by
    by_cases hc : c' = c
    · subst hc; rw [setHist_hist_self]; exact hh.bal
    · rw [setHist_hist_ne h hc]; exact fun _ _ => rfl
  acc c' := by
    by_cases hc : c' = c
    · subst hc; rw [setHist_hist_self]; exact hh.acc
    · rw [setHist_hist_ne h hc]; exact fun _ _ _ _ => id
  prop c' := by
    by_cases hc : c' = c
    · subst hc; rw [setHist_hist_self]; exact hh.prop
    · rw [setHist_hist_ne h hc]; exact fun _ _ _ => .inl

end SetHist

end Ghost

end Rsl
