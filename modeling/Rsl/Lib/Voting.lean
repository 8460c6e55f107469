import Mathlib.Data.Finset.Card

/-!
# Voting histories of a majority protocol over a sequence of slots

A history records which values were proposed at a ballot and a slot, which nodes accepted a ballot
at a slot, and the ballot each node has promised. A value is *safe* at a ballot and a slot when
every lower ballot that could still gather a majority there proposed the same value. Safety of a
value is stable: it survives every extension of the history in which nodes accept only ballots at
or above their promise.

Slots below `first` are not protected. A value can be *final*; then a proper history never goes past
the slot where it is chosen. The main results are `Sound.chosen_unique` (one value is chosen at a
slot), `Sound.proper_le_of_final` (nothing proper lies past a chosen final value), and the two rules
`safe_propose_freshest` and `safe_propose_next` by which a new proposal is safe.
-/

set_option autoImplicit false

namespace Voting

universe u v w

variable {N : Type u} {B : Type v} {V : Type w}

/-! ## Majorities -/

/-- `S` is a majority of the members `M`. -/
def IsMajority (M S : Finset N) : Prop := S ⊆ M ∧ M.card < 2 * S.card

/-- Two majorities of the same members meet. -/
theorem IsMajority.inter [DecidableEq N] {M S T : Finset N} (hS : IsMajority M S)
    (hT : IsMajority M T) : ∃ r, r ∈ S ∧ r ∈ T := by
  by_contra hno
  have hdis : Disjoint S T :=
    Finset.disjoint_left.mpr fun r hrS hrT => hno ⟨r, hrS, hrT⟩
  have hle : (S ∪ T).card ≤ M.card := Finset.card_le_card (Finset.union_subset hS.1 hT.1)
  rw [Finset.card_union_of_disjoint hdis] at hle
  have h1 := hS.2
  have h2 := hT.2
  omega

/-! ## Histories -/

/-- What has happened so far: proposals, acceptances and promised ballots. -/
structure History (N : Type u) (B : Type v) (V : Type w) where
  /-- The value was proposed at the ballot and slot. -/
  prop : B → ℕ → V → Prop
  /-- The node accepted the ballot at the slot. -/
  acc : N → B → ℕ → Prop
  /-- The ballot the node has promised. -/
  bal : N → B

/-- The history in which nothing has happened and every node has promised `b`. -/
def History.start (b : N → B) : History N B V := ⟨fun _ _ _ => False, fun _ _ _ => False, b⟩

section Order

variable [LinearOrder B]

/-- One history extends another: nothing is forgotten, promises grow, and a new acceptance is at or
above the promise the node had before. -/
structure Extends (h h' : History N B V) : Prop where
  prop : ∀ {b d v}, h.prop b d v → h'.prop b d v
  acc : ∀ {r b d}, h.acc r b d → h'.acc r b d
  bal : ∀ r, h.bal r ≤ h'.bal r
  fresh : ∀ {r b d}, h'.acc r b d → h.acc r b d ∨ h.bal r ≤ b

theorem Extends.refl (h : History N B V) : Extends h h :=
  ⟨id, id, fun _ => le_refl _, .inl⟩

theorem Extends.trans {h₁ h₂ h₃ : History N B V} (h₁₂ : Extends h₁ h₂) (h₂₃ : Extends h₂ h₃) :
    Extends h₁ h₃ where
  prop hp := h₂₃.prop (h₁₂.prop hp)
  acc ha := h₂₃.acc (h₁₂.acc ha)
  bal r := le_trans (h₁₂.bal r) (h₂₃.bal r)
  fresh {r b d} ha := by
    rcases h₂₃.fresh ha with h | h
    · exact h₁₂.fresh h
    · exact .inr (le_trans (h₁₂.bal r) h)

/-- Every node of some majority has accepted the ballot at the slot. -/
def ChosenAt (M : Finset N) (h : History N B V) (b : B) (d : ℕ) : Prop :=
  ∃ S, IsMajority M S ∧ ∀ r ∈ S, h.acc r b d

/-- A majority has accepted the ballot at the slot or is still free to do so. -/
def Choosable (M : Finset N) (h : History N B V) (b : B) (d : ℕ) : Prop :=
  ∃ S, IsMajority M S ∧ ∀ r ∈ S, h.acc r b d ∨ h.bal r ≤ b

/-- The node promised `b` when its latest acceptance was of ballot `b₀` at slot `d₀`: whatever it
accepted below `b` comes no later than that. -/
def Promised (first : ℕ) (h : History N B V) (r : N) (b : B) (d₀ : ℕ) (b₀ : B) : Prop :=
  b ≤ h.bal r ∧ ∀ b₁ d, b₁ < b → first ≤ d → h.acc r b₁ d → d < d₀ ∨ d = d₀ ∧ b₁ ≤ b₀

/-- A majority promised `b`; their latest acceptances are at slots up to `dp`, and those at `dp`
itself are of ballots up to `bf`. -/
def Prepared (M : Finset N) (first : ℕ) (h : History N B V) (b : B) (dp : ℕ) (bf : B) : Prop :=
  ∃ S, IsMajority M S ∧
    ∀ r ∈ S, ∃ d₀ b₀, Promised first h r b d₀ b₀ ∧ (d₀ < dp ∨ d₀ = dp ∧ b₀ ≤ bf)

variable {M : Finset N} {b : B} {d : ℕ} {h h' : History N B V} {first : ℕ}

theorem ChosenAt.choosable {h : History N B V} (hc : ChosenAt M h b d) : Choosable M h b d := by
  obtain ⟨S, hS, hacc⟩ := hc
  exact ⟨S, hS, fun r hr => .inl (hacc r hr)⟩

theorem ChosenAt.mono (hx : Extends h h') (hc : ChosenAt M h b d) : ChosenAt M h' b d := by
  obtain ⟨S, hS, hacc⟩ := hc
  exact ⟨S, hS, fun r hr => hx.acc (hacc r hr)⟩

/-- What can still be chosen later could already be chosen earlier. -/
theorem Choosable.anti (hx : Extends h h') (hc : Choosable M h' b d) : Choosable M h b d := by
  obtain ⟨S, hS, hr⟩ := hc
  refine ⟨S, hS, fun r hrS => ?_⟩
  rcases hr r hrS with h1 | h1
  · exact hx.fresh h1
  · exact .inr (le_trans (hx.bal r) h1)

theorem Promised.mono (hx : Extends h h') {r : N} {b b₀ : B}
    {d₀ : ℕ} (hp : Promised first h r b d₀ b₀) : Promised first h' r b d₀ b₀ := by
  refine ⟨le_trans hp.1 (hx.bal r), fun b₁ d hlt hd ha => ?_⟩
  rcases hx.fresh ha with h1 | h1
  · exact hp.2 b₁ d hlt hd h1
  · exact absurd (lt_of_lt_of_le hlt hp.1) (not_lt.mpr h1)

theorem Prepared.mono (hx : Extends h h')
    {b bf : B} {dp : ℕ} (hp : Prepared M first h b dp bf) : Prepared M first h' b dp bf := by
  obtain ⟨S, hS, hr⟩ := hp
  refine ⟨S, hS, fun r hrS => ?_⟩
  obtain ⟨d₀, b₀, h1, h2⟩ := hr r hrS
  exact ⟨d₀, b₀, h1.mono hx, h2⟩

/-- A ballot below a prepared one can be chosen only where the freshest vote of the promises
reaches. -/
theorem Prepared.le_of_choosable [DecidableEq N] {h : History N B V}
    {b b' bf : B} {dp d : ℕ} (hp : Prepared M first h b dp bf) (hlt : b' < b)
    (hd : first ≤ d) (hc : Choosable M h b' d) : d < dp ∨ d = dp ∧ b' ≤ bf := by
  obtain ⟨S, hS, hpr⟩ := hp
  obtain ⟨T, hT, hacc⟩ := hc
  obtain ⟨r, hrS, hrT⟩ := hS.inter hT
  obtain ⟨d₀, b₀, hprom, hle⟩ := hpr r hrS
  rcases hacc r hrT with ha | hbal
  · rcases hprom.2 b' d hlt hd ha with h1 | ⟨h1, h2⟩
    · rcases hle with h3 | ⟨h3, _⟩ <;> left <;> omega
    · rcases hle with h3 | ⟨h3, h4⟩
      · left; omega
      · exact .inr ⟨by omega, le_trans h2 h4⟩
  · exact absurd (lt_of_lt_of_le hlt hprom.1) (not_lt.mpr hbal)

/-! ## Growing a history -/

/-- The node promises ballot `b`. -/
def History.raise [DecidableEq N] (h : History N B V) (r : N) (b : B) : History N B V :=
  { h with bal := fun r' => if r' = r then max (h.bal r) b else h.bal r' }

/-- The node accepts ballot `b` at slot `d`. -/
def History.accept (h : History N B V) (r : N) (b : B) (d : ℕ) : History N B V :=
  { h with acc := fun r' b' d' => h.acc r' b' d' ∨ r' = r ∧ b' = b ∧ d' = d }

/-- The value `v` is proposed at ballot `b` and slot `d`. -/
def History.propose (h : History N B V) (b : B) (d : ℕ) (v : V) : History N B V :=
  { h with prop := fun b' d' v' => h.prop b' d' v' ∨ b' = b ∧ d' = d ∧ v' = v }

theorem extends_raise [DecidableEq N] (h : History N B V) (r : N) (b : B) :
    Extends h (h.raise r b) where
  prop := id
  acc := id
  bal r' := by
    simp only [History.raise]
    split
    · next heq => subst heq; exact le_max_left _ _
    · exact le_refl _
  fresh := .inl

theorem extends_accept (h : History N B V) {r : N} (hle : h.bal r ≤ b) :
    Extends h (h.accept r b d) where
  prop := id
  acc := .inl
  bal _ := le_refl _
  fresh {r' b' d'} ha := by
    rcases ha with ha | ⟨rfl, rfl, rfl⟩
    · exact .inl ha
    · exact .inr hle

theorem extends_propose (h : History N B V) (b : B) (d : ℕ) (v : V) :
    Extends h (h.propose b d v) :=
  ⟨.inl, id, fun _ => le_refl _, .inl⟩

/-! ## Safe values -/

section Bot

variable [OrderBot B]

/-- The value is safe at the ballot and slot: every ballot up to it that can still be chosen there
proposed this value. -/
def Safe (M : Finset N) (h : History N B V) (b : B) (d : ℕ) (v : V) : Prop :=
  ∀ b', ⊥ < b' → b' ≤ b → Choosable M h b' d → h.prop b' d v

/-- The slot was passed at a ballot up to `b`, with a value that is not final. -/
def Passed (M : Finset N) (final : V → Prop) (h : History N B V) (d : ℕ) (b : B) : Prop :=
  ∃ b₁ v, ⊥ < b₁ ∧ b₁ ≤ b ∧ ChosenAt M h b₁ d ∧ h.prop b₁ d v ∧ ¬ final v

variable {M : Finset N} {d : ℕ} {v : V} {h h' : History N B V} {b : B} {final : V → Prop}

theorem Safe.mono (hx : Extends h h') (hs : Safe M h b d v) : Safe M h' b d v :=
  fun b' hb hle hc => hx.prop (hs b' hb hle (hc.anti hx))

theorem Safe.of_le {h : History N B V} {b b' : B}
    (hs : Safe M h b d v) (hle : b' ≤ b) : Safe M h b' d v :=
  fun c hc hcb => hs c hc (le_trans hcb hle)

theorem safe_bot (M : Finset N) (h : History N B V) (d : ℕ) (v : V) : Safe M h ⊥ d v :=
  fun _ hb hle _ => absurd hb (not_lt.mpr hle)

theorem Passed.mono (hx : Extends h h') (hp : Passed M final h d b) : Passed M final h' d b := by
  obtain ⟨b₁, v, h1, h2, h3, h4, h5⟩ := hp
  exact ⟨b₁, v, h1, h2, h3.mono hx, hx.prop h4, h5⟩

theorem Passed.of_le {h : History N B V} {b b' : B}
    (hp : Passed M final h d b) (hle : b ≤ b') : Passed M final h d b' := by
  obtain ⟨b₁, v, h1, h2, h3⟩ := hp
  exact ⟨b₁, v, h1, le_trans h2 hle, h3⟩

/-- What a vote for `v` at `(b, d)` carries wherever it goes: from the first protected slot on the
value is safe, and the slot before was passed. -/
structure Proper (M : Finset N) (first : ℕ) (final : V → Prop) (h : History N B V) (b : B) (d : ℕ)
    (v : V) : Prop where
  safe : first ≤ d → Safe M h b d v
  passed : first < d → Passed M final h (d - 1) b

theorem Proper.mono {first : ℕ} (hx : Extends h h') (hp : Proper M first final h b d v) :
    Proper M first final h' b d v :=
  ⟨fun hd => (hp.safe hd).mono hx, fun hd => (hp.passed hd).mono hx⟩

/-- The value was proposed at the slot at a ballot that a majority accepted. -/
def Chosen (M : Finset N) (h : History N B V) (d : ℕ) (v : V) : Prop :=
  ∃ b, ⊥ < b ∧ ChosenAt M h b d ∧ h.prop b d v

theorem Chosen.mono (hx : Extends h h') (hc : Chosen M h d v) : Chosen M h' d v := by
  obtain ⟨b, h1, h2, h3⟩ := hc
  exact ⟨b, h1, h2.mono hx, hx.prop h3⟩

/-- A sound history: at most one value is proposed at a ballot and slot, and every proposal is
proper. -/
structure Sound (M : Finset N) (first : ℕ) (final : V → Prop) (h : History N B V) : Prop where
  unique : ∀ {b d v v'}, h.prop b d v → h.prop b d v' → v = v'
  proper : ∀ {b d v}, h.prop b d v → Proper M first final h b d v

/-- A safe value is the one proposed wherever a lower ballot was chosen. -/
theorem Safe.prop_of_chosenAt {h : History N B V} {b b₁ : B}
    (hs : Safe M h b d v) (hb : ⊥ < b₁) (hle : b₁ ≤ b) (hc : ChosenAt M h b₁ d) :
    h.prop b₁ d v :=
  hs b₁ hb hle hc.choosable

section Results

variable {M : Finset N} {first : ℕ} {final : V → Prop} {h : History N B V}

variable {d : ℕ}

/-- Two values chosen at one protected slot are equal. -/
theorem Sound.chosen_unique (hs : Sound M first final h) {v v' : V} (hd : first ≤ d)
    (hv : Chosen M h d v) (hv' : Chosen M h d v') : v = v' := by
  obtain ⟨b, hb, hc, hp⟩ := hv
  obtain ⟨b', hb', hc', hp'⟩ := hv'
  rcases le_total b b' with hle | hle
  · exact hs.unique hp (((hs.proper hp').safe hd).prop_of_chosenAt hb hle hc)
  · exact hs.unique (((hs.proper hp).safe hd).prop_of_chosenAt hb' hle hc') hp'

/-- A slot that was passed at a ballot up to `b` has the value of any vote that is safe at `b`
chosen, and this value is not final. -/
theorem Sound.chosen_of_passed (hs : Sound M first final h) {b : B} {v : V}
    (hp : Passed M final h d b) (hv : Safe M h b d v) : Chosen M h d v ∧ ¬ final v := by
  obtain ⟨b₁, v₁, hb, hle, hc, hpr, hnf⟩ := hp
  have hprop := hv.prop_of_chosenAt hb hle hc
  have heq := hs.unique hpr hprop
  subst heq
  exact ⟨⟨b₁, hb, hc, hprop⟩, hnf⟩

/-- No proper vote lies past a slot at which a final value was chosen. -/
theorem Sound.proper_le_of_final (hs : Sound M first final h) {v : V} (hd : first ≤ d)
    (hc : Chosen M h d v) (hf : final v) :
    ∀ {d' : ℕ} {b : B} {v' : V}, Proper M first final h b d' v' → d' ≤ d := by
  intro d'
  induction d' with
  | zero => intro _ _ _; omega
  | succ e ih =>
    intro b v' hp
    by_contra hlt
    -- slot `e ≥ d` was passed with a value that is not final, so `e` is not `d` itself
    obtain ⟨b₁, v₁, hb, _, hc₁, hp₁, hnf⟩ := hp.passed (by omega)
    simp only [Nat.add_sub_cancel] at hc₁ hp₁
    have hle : e ≤ d := ih (hs.proper hp₁)
    have hed : e = d := by omega
    subst hed
    have heq := hs.chosen_unique hd hc ⟨b₁, hb, hc₁, hp₁⟩
    subst heq
    exact hnf hf

end Results

/-! ## Proposing -/

section Propose

variable {M : Finset N} {first : ℕ} {final : V → Prop} {h : History N B V}

variable {v : V}

/-- Proposing the freshest vote reported to a prepared ballot is safe. -/
theorem safe_propose_freshest [DecidableEq N] {b bf : B} {dp : ℕ} (hp : Prepared M first h b dp bf)
    (hd : first ≤ dp) (hv : Safe M h bf dp v) : Safe M (h.propose b dp v) b dp v := by
  intro b' hb hle hc
  rcases lt_or_eq_of_le hle with hlt | heq
  · have hc' := hc.anti (extends_propose h b dp v)
    rcases hp.le_of_choosable hlt hd hc' with h1 | ⟨_, h1⟩
    · omega
    · exact .inl (hv b' hb h1 hc')
  · exact .inr ⟨heq, rfl, rfl⟩

/-- Proposing anything past the slot of a prepared ballot is safe. -/
theorem safe_propose_next [DecidableEq N] {b bf : B} {dp d : ℕ} (hp : Prepared M first h b dp bf)
    (hlt : dp < d) (hd : first ≤ d) : Safe M (h.propose b d v) b d v := by
  intro b' hb hle hc
  rcases lt_or_eq_of_le hle with hlt' | heq
  · rcases hp.le_of_choosable hlt' hd
      (hc.anti (extends_propose h b d v)) with h1 | ⟨h1, _⟩ <;> omega
  · exact .inr ⟨heq, rfl, rfl⟩

/-- A new proper proposal keeps the history sound. -/
theorem Sound.propose (hs : Sound M first final h) {b : B} {d : ℕ}
    (hnew : ∀ v', ¬ h.prop b d v') (hp : Proper M first final (h.propose b d v) b d v) :
    Sound M first final (h.propose b d v) where
  unique {b' d' v₁ v₂} h₁ h₂ := by
    rcases h₁ with h₁ | ⟨rfl, rfl, rfl⟩
    · rcases h₂ with h₂ | ⟨rfl, rfl, rfl⟩
      · exact hs.unique h₁ h₂
      · exact absurd h₁ (hnew _)
    · rcases h₂ with h₂ | ⟨_, _, rfl⟩
      · exact absurd h₂ (hnew _)
      · rfl
  proper {b' d' v'} hpr := by
    rcases hpr with hpr | ⟨rfl, rfl, rfl⟩
    · exact (hs.proper hpr).mono (extends_propose h b d v)
    · exact hp

/-- An extension that proposes nothing new keeps the history sound. -/
theorem Sound.mono {h' : History N B V} (hs : Sound M first final h) (hx : Extends h h')
    (hprop : ∀ {b d v}, h'.prop b d v → h.prop b d v) : Sound M first final h' :=
  ⟨fun h₁ h₂ => hs.unique (hprop h₁) (hprop h₂), fun hp => (hs.proper (hprop hp)).mono hx⟩

end Propose

end Bot

end Order

end Voting
