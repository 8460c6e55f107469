import Mathlib

/-!
# Parsers over lists

A parser takes the unread input and returns a value with what is left of it, or fails. The notion
the results below rest on is `Local n p`: a successful run of `p` depends only on the at most `n`
symbols it consumed, so the same symbols in front of any other rest give the same value. It is
closed under sequencing, branching and guards, so a parser written with `do` inherits it from its
parts.
-/

set_option autoImplicit false

namespace Rsl.Lib

open List

/-- A parser over symbols `τ`: state passing over the unread input, with failure. -/
abbrev Parser (τ : Type) := StateT (List τ) Option

namespace Parser

variable {τ α β : Type}

/-- Read exactly `n` symbols. -/
def take (n : Nat) : Parser τ (List τ) := fun x =>
  if n ≤ x.length then some (x.take n, x.drop n) else none

/-- Fail unless `c` holds. -/
def check (c : Bool) : Parser τ Unit := fun x => if c then some ((), x) else none

/-- Lift an optional value that reads nothing. -/
def ofOption (o : Option α) : Parser τ α := fun x => o.map fun a => (a, x)

/-- Run `p` `n` times and collect the values. -/
def replicate (p : Parser τ α) : Nat → Parser τ (List α)
  | 0 => pure []
  | n + 1 => do
    let a ← p
    let as ← replicate p n
    return a :: as

/-- A successful run of `p` consumes at most `n` symbols and depends on nothing else. -/
def Local (n : Nat) (p : Parser τ α) : Prop :=
  ∀ x a y, p x = some (a, y) → ∃ c, x = c ++ y ∧ c.length ≤ n ∧ ∀ t, p (c ++ t) = some (a, t)

variable {p : Parser τ α} {q : α → Parser τ β} {a : α} {b : β} {n : Nat} {P : α → Prop}
  {Q : β → Nat → Prop}

theorem bind_eq_some {x z : List τ} :
    (p >>= q) x = some (b, z) ↔ ∃ a y, p x = some (a, y) ∧ q a y = some (b, z) := by
  show (p x).bind (fun r => q r.1 r.2) = _ ↔ _
  simp only [Option.bind_eq_some_iff, Prod.exists]

theorem Local.mono {n m : Nat} (hp : Local n p) (h : n ≤ m) : Local m p := by
  intro x a y hx
  obtain ⟨c, hc, hlen, ht⟩ := hp x a y hx
  exact ⟨c, hc, hlen.trans h, ht⟩

theorem local_pure (a : α) : Local (τ := τ) 0 (pure a) := by
  intro x b y h
  obtain ⟨rfl, rfl⟩ : a = b ∧ x = y := by simpa [pure, StateT.pure] using h
  exact ⟨[], rfl, le_refl 0, fun _ => rfl⟩

theorem Local.bind {n m : Nat} (hp : Local n p)
    (hq : ∀ a, Local m (q a)) : Local (n + m) (p >>= q) := by
  intro x b z h
  obtain ⟨a, y, hpx, hqy⟩ := bind_eq_some.mp h
  obtain ⟨c, rfl, hc, hct⟩ := hp x a y hpx
  obtain ⟨d, rfl, hd, hdt⟩ := hq a y b z hqy
  refine ⟨c ++ d, by rw [append_assoc], by rw [length_append]; omega, fun t => ?_⟩
  rw [append_assoc]
  exact bind_eq_some.mpr ⟨a, d ++ t, hct _, hdt t⟩

theorem local_take (n : Nat) : Local (τ := τ) n (take n) := by
  intro x a y h
  unfold take at h
  split at h
  · next hn =>
    obtain ⟨rfl, rfl⟩ : x.take n = a ∧ x.drop n = y := by simpa using h
    have hlen : (x.take n).length = n := by rw [length_take]; omega
    refine ⟨x.take n, (take_append_drop n x).symm, hlen.le, fun t => ?_⟩
    have hle : n ≤ (x.take n ++ t).length := by rw [length_append]; omega
    rw [take, if_pos hle, take_left' hlen, drop_left' hlen]
  · exact absurd h (by simp)

theorem local_check (c : Bool) : Local (τ := τ) 0 (check c) := by
  intro x a y h
  cases c with
  | false => exact absurd h (by simp [check])
  | true =>
    obtain rfl : x = y := by simpa [check] using h
    exact ⟨[], rfl, le_refl 0, fun _ => rfl⟩

theorem local_ofOption (o : Option α) : Local (τ := τ) 0 (ofOption o) := by
  intro x a y h
  cases o with
  | none => exact absurd h (by simp [ofOption])
  | some b =>
    obtain ⟨rfl, rfl⟩ : b = a ∧ x = y := by simpa [ofOption] using h
    exact ⟨[], rfl, le_refl 0, fun _ => rfl⟩

theorem Local.ite {c : Prop} [Decidable c] {p q : Parser τ α} (hp : Local n p)
    (hq : Local n q) : Local n (if c then p else q) := by
  split
  · exact hp
  · exact hq

/-- A local parser gives the same value on every input that agrees with a successful one in its
first `n` symbols. -/
theorem Local.congr (hp : Local n p) {x x' y : List τ}
    (h : p x = some (a, y)) (hx : x.take n <+: x') : ∃ y', p x' = some (a, y') := by
  obtain ⟨c, rfl, hc, ht⟩ := hp x a y h
  obtain ⟨t, rfl⟩ : c <+: x' := by
    refine IsPrefix.trans ?_ hx
    rw [take_append]
    rw [take_of_length_le hc]
    exact prefix_append _ _
  exact ⟨t, ht t⟩

/-! ## What a parser's values satisfy -/

/-- Every value that `p` returns satisfies `P`. -/
def Ensures (P : α → Prop) (p : Parser τ α) : Prop := ∀ x a y, p x = some (a, y) → P a

theorem Ensures.bind {Q : β → Prop}
    (hp : Ensures P p) (hq : ∀ a, P a → Ensures Q (q a)) : Ensures Q (p >>= q) := by
  intro x b z h
  obtain ⟨a, y, hpx, hqy⟩ := bind_eq_some.mp h
  exact hq a (hp x a y hpx) y b z hqy

/-- The first parser of a sequence says nothing about the value. -/
theorem Ensures.skip {Q : β → Prop} (hq : ∀ a, Ensures Q (q a)) : Ensures Q (p >>= q) := by
  intro x b z h
  obtain ⟨a, y, -, hqy⟩ := bind_eq_some.mp h
  exact hq a y b z hqy

theorem ensures_pure (h : P a) : Ensures (τ := τ) P (pure a) := by
  intro x b y hx
  obtain ⟨rfl, -⟩ : a = b ∧ x = y := by simpa [pure, StateT.pure] using hx
  exact h

theorem ensures_take (n : Nat) : Ensures (τ := τ) (fun a => a.length = n) (take n) := by
  intro x a y h
  obtain ⟨hn, rfl, -⟩ : n ≤ x.length ∧ x.take n = a ∧ x.drop n = y := by simpa [take] using h
  rw [length_take]
  omega

/-! ## Reading back what was written -/

/-- `p` reads the string `w` as `a` and leaves what follows it. -/
def Reads (p : Parser τ α) (w : List τ) (a : α) : Prop := ∀ rest, p (w ++ rest) = some (a, rest)

theorem Reads.bind {w v : List τ}
    (hp : Reads p w a) (hq : Reads (q a) v b) : Reads (p >>= q) (w ++ v) b := by
  intro rest
  rw [append_assoc]
  exact bind_eq_some.mpr ⟨a, v ++ rest, hp _, hq rest⟩

theorem reads_pure (a : α) : Reads (τ := τ) (pure a) [] a := fun _ => rfl

theorem reads_take {w : List τ} (hw : w.length = n) : Reads (take n) w w := by
  intro rest
  have hle : n ≤ (w ++ rest).length := by rw [length_append]; omega
  rw [take, if_pos hle, take_left' hw, drop_left' hw]

/-- A passed check reads nothing. -/
theorem Reads.check {c : Bool} (hc : c = true) {q : Unit → Parser τ β} {v : List τ}
    (hq : Reads (q ()) v b) : Reads (check c >>= q) v b := by
  intro rest
  exact bind_eq_some.mpr ⟨(), v ++ rest, by rw [Parser.check, if_pos hc], hq rest⟩

theorem Reads.ofOption {o : Option α} (ho : o = some a) {v : List τ} (hq : Reads (q a) v b) :
    Reads (ofOption o >>= q) v b := by
  intro rest
  exact bind_eq_some.mpr ⟨a, v ++ rest, by rw [Parser.ofOption, ho]; rfl, hq rest⟩

/-- The last step of a sequence makes a value of what has been read. -/
theorem Reads.map {w : List τ} (hp : Reads p w a) (f : α → β) :
    Reads (p >>= fun a => pure (f a)) w (f a) := by
  intro rest
  exact bind_eq_some.mpr ⟨a, rest, hp rest, rfl⟩

/-! ## How much a parser reads -/

/-- Every successful run of `p` returns a value `a` and reads a number `n` of symbols with
`P a n`. -/
def Yields (P : α → Nat → Prop) (p : Parser τ α) : Prop :=
  ∀ x a y, p x = some (a, y) → ∃ n, x.length = n + y.length ∧ P a n

theorem Yields.bind {P : α → Nat → Prop} (hp : Yields P p)
    (hq : ∀ a n, P a n → Yields (fun b m => Q b (n + m)) (q a)) : Yields Q (p >>= q) := by
  intro x b z h
  obtain ⟨a, y, hpx, hqy⟩ := bind_eq_some.mp h
  obtain ⟨n, hx, hP⟩ := hp x a y hpx
  obtain ⟨m, hy, hQ⟩ := hq a n hP y b z hqy
  exact ⟨n + m, by omega, hQ⟩

theorem yields_pure {P : α → Nat → Prop} (h : P a 0) : Yields (τ := τ) P (pure a) := by
  intro x b y hx
  obtain ⟨rfl, rfl⟩ : a = b ∧ x = y := by simpa [pure, StateT.pure] using hx
  exact ⟨0, (zero_add _).symm, h⟩

theorem yields_take (n : Nat) :
    Yields (τ := τ) (fun a m => a.length = n ∧ m = n) (take n) := by
  intro x a y h
  rw [take] at h
  split at h
  · next hn =>
    obtain ⟨rfl, rfl⟩ : x.take n = a ∧ x.drop n = y := by simpa using h
    refine ⟨n, ?_, ?_, rfl⟩
    · rw [length_drop]; omega
    · rw [length_take]; omega
  · cases h

theorem Yields.check {c : Bool} {q : Unit → Parser τ β}
    (hq : c = true → Yields Q (q ())) : Yields Q (check c >>= q) := by
  intro x b z h
  obtain ⟨⟨⟩, y, hpx, hqy⟩ := bind_eq_some.mp h
  rw [Parser.check] at hpx
  split at hpx
  · next hc =>
    obtain rfl : x = y := by simpa using hpx
    exact hq hc x b z hqy
  · cases hpx

theorem Yields.ofOption {o : Option α}
    (hq : ∀ a, o = some a → Yields Q (q a)) : Yields Q (ofOption o >>= q) := by
  intro x b z h
  obtain ⟨a, y, hpx, hqy⟩ := bind_eq_some.mp h
  rw [Parser.ofOption, Option.map_eq_some_iff] at hpx
  obtain ⟨a', ho, heq⟩ := hpx
  obtain ⟨rfl, rfl⟩ := Prod.mk.inj heq
  exact hq a' ho x b z hqy

theorem Yields.mono {P Q : α → Nat → Prop} (hp : Yields P p)
    (h : ∀ a n, P a n → Q a n) : Yields Q p := by
  intro x a y hx
  obtain ⟨n, hlen, hP⟩ := hp x a y hx
  exact ⟨n, hlen, h a n hP⟩

/-- Forgetting what the parser left over. -/
theorem Yields.map_fst {P : α → Nat → Prop} {x : List τ}
    (hp : Yields P p) (h : (p x).map Prod.fst = some a) : ∃ n, P a n := by
  obtain ⟨⟨a', rest⟩, hx, rfl⟩ := Option.map_eq_some_iff.mp h
  obtain ⟨n, -, hP⟩ := hp x a' rest hx
  exact ⟨n, hP⟩

theorem yields_replicate {size : α → Nat} (hp : Yields (fun a n => P a ∧ n = size a) p) (k : Nat) :
    Yields (fun as n => as.length = k ∧ (∀ a ∈ as, P a) ∧ n = (as.map size).sum)
      (replicate p k) := by
  induction k with
  | zero => exact yields_pure ⟨rfl, fun a ha => absurd ha not_mem_nil, rfl⟩
  | succ k ih =>
    refine hp.bind fun a n ⟨hPa, hn⟩ => ih.bind fun as m ⟨hlen, hall, hm⟩ => yields_pure ?_
    refine ⟨by rw [length_cons, hlen], ?_, ?_⟩
    · exact forall_mem_cons.mpr ⟨hPa, hall⟩
    · rw [map_cons, sum_cons]
      omega

end Parser

end Rsl.Lib
