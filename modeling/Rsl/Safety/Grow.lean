import Rsl.Safety.Ghost

/-!
# The steps of the histories

An action of a replica extends the histories by promises, acceptances, proposals and installed
configurations. Each of these keeps `Ghost.Inv`, under the conditions the protocol checks before it
takes the step.
-/

set_option autoImplicit false

namespace Rsl

open Voting

namespace Ghost

variable {ρ : Type} {g : Ghost ρ} {initial : List Nat} {c r : Nat}

/-- A history that grows without a new proposal keeps the invariant. -/
theorem Inv.setHist (hg : g.Inv initial) {h : Hist ρ} (hh : HistGrows r (g.hist c) h)
    (hprop : ∀ {b d v}, h.prop b d v → (g.hist c).prop b d v) (hc : c ≤ g.top) :
    (g.setHist c h).Inv initial := by
  have hgr : Grows r g (g.setHist c h) := grows_setHist hh
  have hback : ∀ {c' b d v}, ((g.setHist c h).hist c').prop b d v → (g.hist c').prop b d v := by
    intro c' b d v hp
    by_cases hcc : c' = c
    · subst hcc
      rw [setHist_hist_self] at hp
      exact hprop hp
    · rwa [setHist_hist_ne h hcc] at hp
  refine ⟨hg.top_pos, hg.info_one, hg.number, fun c' => ?_, fun c' {b d v} hp => ?_,
    fun c' {b d v} hp => hg.owner c' (hback hp), fun c' {b d v} hp => ?_, hg.nonempty,
    fun c' h1 h2 => ?_, fun c' hlt => ?_⟩
  · exact (hg.sound c').mono (hgr.hist c') hback
  · exact le_trans (hg.issued c' (hback hp)) ((hgr.hist c').bal _)
  · have hv := hg.voteOk c' (hback hp)
    exact ⟨hv.proper.mono (hgr.hist c'), hv.rooted.mono hgr, hv.valid, hv.low, hv.init⟩
  · obtain ⟨d, v, ms, hd, hv, hms, hinfo⟩ := hg.installed c' h1 h2
    exact ⟨d, v, ms, hd, Chosen.mono (hgr.hist c') hv, hms, hinfo⟩
  · have hne : c' ≠ c := by simp only [setHist_top] at hlt; omega
    rw [setHist_hist_ne h hne]
    exact hg.fresh c' hlt

/-- Replica `r` promises `b` in configuration `c`. -/
def raise (g : Ghost ρ) (c r : Nat) (b : BallotNumber) : Ghost ρ :=
  g.setHist c ((g.hist c).raise r b)

/-- Replica `r` accepts `b` at decree `d` in configuration `c`. -/
def accept (g : Ghost ρ) (c r : Nat) (b : BallotNumber) (d : Nat) : Ghost ρ :=
  g.setHist c ((g.hist c).accept r b d)

/-- The content `v` is proposed at `b` and decree `d` in configuration `c`. -/
def propose (g : Ghost ρ) (c : Nat) (b : BallotNumber) (d : Nat) (v : Content ρ) : Ghost ρ :=
  g.setHist c ((g.hist c).propose b d v)

theorem histGrows_raise (h : Hist ρ) (r : Nat) (b : BallotNumber) :
    HistGrows r h (h.raise r b) where
  ext := extends_raise h r b
  bal r' hne := by simp only [History.raise, if_neg hne]
  acc _ _ _ _ := id
  prop _ _ _ := .inl

variable {b : BallotNumber} {d : Nat}

theorem histGrows_accept (h : Hist ρ) {r : Nat} (hle : h.bal r ≤ b) :
    HistGrows r h (h.accept r b d) where
  ext := extends_accept h hle
  bal _ _ := rfl
  acc r' b' d' hne ha := by
    rcases ha with ha | ⟨heq, _⟩
    · exact ha
    · exact absurd heq hne
  prop _ _ _ := .inl

theorem histGrows_propose (h : Hist ρ) (d : Nat) (v : Content ρ) :
    HistGrows b.memberId h (h.propose b d v) where
  ext := extends_propose h b d v
  bal _ _ := rfl
  acc _ _ _ _ := id
  prop b' d' v' hp := by
    rcases hp with hp | ⟨rfl, _⟩
    · exact .inl hp
    · exact .inr rfl

theorem grows_raise (g : Ghost ρ) (c r : Nat) (b : BallotNumber) : Grows r g (g.raise c r b) :=
  grows_setHist (histGrows_raise _ r b)

theorem Inv.raise (hg : g.Inv initial) (hc : c ≤ g.top) (r : Nat) (b : BallotNumber) :
    (g.raise c r b).Inv initial :=
  hg.setHist (histGrows_raise _ r b) id hc

@[simp] theorem raise_bal_self (b : BallotNumber) :
    ((g.raise c r b).hist c).bal r = max ((g.hist c).bal r) b := by
  simp only [Ghost.raise, setHist_hist_self, History.raise, if_pos]

theorem grows_accept (d : Nat) (hle : (g.hist c).bal r ≤ b) :
    Grows r g (g.accept c r b d) :=
  grows_setHist (histGrows_accept _ hle)

theorem Inv.accept (hg : g.Inv initial) (hc : c ≤ g.top) (d : Nat)
    (hle : (g.hist c).bal r ≤ b) : (g.accept c r b d).Inv initial :=
  hg.setHist (histGrows_accept _ hle) id hc

theorem accept_acc_self (b : BallotNumber) (d : Nat) :
    ((g.accept c r b d).hist c).acc r b d := by
  rw [Ghost.accept, setHist_hist_self]
  exact .inr ⟨rfl, rfl, rfl⟩

theorem accept_acc_iff {b b' : BallotNumber} {d d' r' : Nat} :
    ((g.accept c r b d).hist c).acc r' b' d' ↔
      (g.hist c).acc r' b' d' ∨ r' = r ∧ b' = b ∧ d' = d := by
  simp only [Ghost.accept, setHist_hist_self, History.accept]

theorem grows_propose (c : Nat) (b : BallotNumber) (d : Nat) (v : Content ρ) :
    Grows b.memberId g (g.propose c b d v) :=
  grows_setHist (histGrows_propose _ d v)

theorem propose_prop_self (b : BallotNumber) (d : Nat) (v : Content ρ) :
    ((g.propose c b d v).hist c).prop b d v := by
  rw [Ghost.propose, setHist_hist_self]
  exact .inr ⟨rfl, rfl, rfl⟩

/-- A proper proposal of its owner keeps the invariant. -/
theorem Inv.propose (hg : g.Inv initial) (hc : c ≤ g.top)
    {v : Content ρ} (hissued : b ≤ (g.hist c).bal b.memberId) (hown : b.memberId ∈ g.members c)
    (hnew : ∀ v', ¬ (g.hist c).prop b d v') (hv : (g.propose c b d v).VoteOk c b d v) :
    (g.propose c b d v).Inv initial := by
  have hgr : Grows b.memberId g (g.propose c b d v) := grows_propose c b d v
  have hback : ∀ {c' b' d' v'}, ((g.propose c b d v).hist c').prop b' d' v' →
      (g.hist c').prop b' d' v' ∨ c' = c ∧ b' = b ∧ d' = d ∧ v' = v := by
    intro c' b' d' v' hp
    by_cases hcc : c' = c
    · subst hcc
      simp only [Ghost.propose, setHist_hist_self, History.propose] at hp
      rcases hp with hp | hp
      · exact .inl hp
      · exact .inr ⟨rfl, hp⟩
    · simp only [Ghost.propose, setHist_hist_ne _ hcc] at hp
      exact .inl hp
  refine ⟨hg.top_pos, hg.info_one, hg.number, fun c' => ?_, fun c' {b' d' v'} hp => ?_,
    fun c' {b' d' v'} hp => ?_, fun c' {b' d' v'} hp => ?_, hg.nonempty, fun c' h1 h2 => ?_,
    fun c' hlt => ?_⟩
  · by_cases hcc : c' = c
    · subst hcc
      have hs := (hg.sound c').propose hnew
        (by simpa only [Ghost.propose, setHist_hist_self, setHist_members, setHist_first]
          using hv.proper)
      simpa only [Ghost.propose, setHist_hist_self, setHist_members, setHist_first] using hs
    · have hs := hg.sound c'
      simpa only [Ghost.propose, setHist_hist_ne _ hcc, setHist_members, setHist_first] using hs
  · rcases hback hp with hp | ⟨rfl, rfl, rfl, rfl⟩
    · exact le_trans (hg.issued c' hp) ((hgr.hist c').bal _)
    · exact le_trans hissued ((hgr.hist c').bal _)
  · rcases hback hp with hp | ⟨rfl, rfl, rfl, rfl⟩
    · exact hg.owner c' hp
    · exact hown
  · rcases hback hp with hp | ⟨rfl, rfl, rfl, rfl⟩
    · have hv' := hg.voteOk c' hp
      exact ⟨hv'.proper.mono (hgr.hist c'), hv'.rooted.mono hgr, hv'.valid, hv'.low, hv'.init⟩
    · exact hv
  · obtain ⟨d', v', ms, hd, hv', hms, hinfo⟩ := hg.installed c' h1 h2
    exact ⟨d', v', ms, hd, Chosen.mono (hgr.hist c') hv', hms, hinfo⟩
  · have hlt' : g.top < c' := hlt
    have hne : c' ≠ c := by omega
    simp only [Ghost.propose, setHist_hist_ne _ hne]
    exact hg.fresh c' hlt'

/-! ## Installing a configuration -/

/-- Add the configuration that follows the top one. -/
def install (g : Ghost ρ) (i : ConfigurationInfo) : Ghost ρ :=
  { g with
    top := g.top + 1
    info := fun c => if c = g.top + 1 then i else g.info c }

theorem install_info_self (i : ConfigurationInfo) : (g.install i).info (g.top + 1) = i := if_pos rfl

theorem install_info_of_ne {i : ConfigurationInfo} (hne : c ≠ g.top + 1) :
    (g.install i).info c = g.info c := if_neg hne

theorem grows_install (r : Nat) (i : ConfigurationInfo) : Grows r g (g.install i) where
  fixed := rfl
  top := Nat.le_succ _
  info c _ hle := install_info_of_ne (by omega)
  hist _ := Extends.refl _
  bal _ _ _ := rfl
  acc _ _ _ _ _ := id
  prop _ _ _ _ := .inl

/-- The content that closes the top configuration installs the next one. -/
theorem Inv.install (hg : g.Inv initial) {v : Content ρ} {ms : List Nat}
    (hd : g.first g.top ≤ d) (hv : g.ChosenIn g.top d v) (hms : v.reconfiguration = some ms)
    (hne : ms ≠ []) : (g.install ⟨g.top + 1, d + 1, ms⟩).Inv initial := by
  have hgr : Grows 0 g (g.install ⟨g.top + 1, d + 1, ms⟩) := grows_install 0 _
  have hnone : ∀ b d v, ¬ (g.hist (g.top + 1)).prop b d v := (hg.fresh _ (Nat.lt_succ_self _)).1
  have hinfo : ∀ {c'}, c' ≠ g.top + 1 →
      (g.install ⟨g.top + 1, d + 1, ms⟩).info c' = g.info c' := fun h => install_info_of_ne h
  have hpos := hg.top_pos
  have hmem : ∀ {c'}, c' ≠ g.top + 1 →
      (g.install ⟨g.top + 1, d + 1, ms⟩).members c' = g.members c' := by
    intro c' h
    simp only [members, hinfo h]
  have hfst : ∀ {c'}, c' ≠ g.top + 1 →
      (g.install ⟨g.top + 1, d + 1, ms⟩).first c' = g.first c' := by
    intro c' h
    simp only [first, hinfo h]
  refine ⟨by show 1 ≤ g.top + 1; omega, ?_, fun c' h1 h2 => ?_, fun c' => ?_,
    fun c' {b d v} hp => hg.issued c' hp, fun c' {b d v} hp => ?_, fun c' {b d v} hp => ?_,
    fun c' h1 h2 => ?_, fun c' h1 h2 => ?_, fun c' hlt => ?_⟩
  · rw [hinfo (by omega)]; exact hg.info_one
  · by_cases hc : c' = g.top + 1
    · subst hc; rw [install_info_self]
    · have h2' : c' ≤ g.top + 1 := h2
      rw [hinfo hc]; exact hg.number c' h1 (by omega)
  · by_cases hc : c' = g.top + 1
    · subst hc
      exact ⟨fun h₁ _ => absurd h₁ (hnone _ _ _), fun h₁ => absurd h₁ (hnone _ _ _)⟩
    · rw [hmem hc, hfst hc]; exact hg.sound c'
  · by_cases hc : c' = g.top + 1
    · subst hc; exact absurd hp (hnone _ _ _)
    · rw [hmem hc]; exact hg.owner c' hp
  · by_cases hc : c' = g.top + 1
    · subst hc; exact absurd hp (hnone _ _ _)
    · have hv' := hg.voteOk c' hp
      exact ⟨by rw [hmem hc, hfst hc]; exact hv'.proper, hv'.rooted, hv'.valid,
        by rw [hfst hc]; exact hv'.low, by rw [hinfo hc]; exact hv'.init⟩
  · by_cases hc : c' = g.top + 1
    · subst hc; rw [install_info_self]; exact hne
    · have h2' : c' ≤ g.top + 1 := h2
      rw [hinfo hc]; exact hg.nonempty c' h1 (by omega)
  · have h2' : c' < g.top + 1 := h2
    by_cases hc : c' = g.top
    · subst hc
      refine ⟨d, v, ms, ?_, ?_, hms, install_info_self _⟩
      · rw [hfst (by omega)]; exact hd
      · exact hv.mono hgr h1 le_rfl
    · obtain ⟨d', v', ms', hd', hv', hms', hi⟩ := hg.installed c' h1 (by omega)
      refine ⟨d', v', ms', ?_, ?_, hms', ?_⟩
      · rw [hfst (by omega)]; exact hd'
      · exact hv'.mono hgr h1 (by omega)
      · rw [hinfo (by omega)]; exact hi
  · have hlt' : g.top + 1 < c' := hlt
    exact hg.fresh c' (by omega)

/-- The history before anything has happened. -/
def start (fixed : Prop) (initial : List Nat) : Ghost ρ where
  fixed := fixed
  top := 1
  info _ := ⟨1, 0, initial⟩
  hist _ := History.start fun _ => ⊥

theorem inv_start (fixed : Prop) (initial : List Nat) :
    (start fixed initial : Ghost ρ).Inv initial where
  top_pos := le_rfl
  info_one := rfl
  number c h1 h2 := by
    have h2' : c ≤ 1 := h2
    show 1 = c
    omega
  sound _ := ⟨fun h _ => absurd h id, fun h => absurd h id⟩
  issued _ {_ _ _} h := absurd h id
  owner _ {_ _ _} h := absurd h id
  voteOk _ {_ _ _} h := absurd h id
  nonempty c h1 h2 := by
    have h2' : c ≤ 1 := h2
    omega
  installed c h1 h2 := by
    have h2' : c < 1 := h2
    omega
  fresh _ _ := ⟨fun _ _ _ => id, fun _ _ _ => id, fun _ => rfl⟩

end Ghost

end Rsl
