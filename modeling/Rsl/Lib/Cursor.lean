import Rsl.Lib.Parser

/-!
# Read programs

A read program takes fields of given lengths one after another and decides on what it has read. It
ends with a value, or it stops: it refuses its input, or an assertion of it fails. A program has two
meanings. Over a list (`Prog.exact`) a field that is not there is refused. Over a buffer with a read
pointer kept modulo `w` (`Prog.cursor`) the end of a field is computed modulo `w`, so a field that
is not there can pass the test, and reading it leaves the buffer.

The two agree as long as no field ends at `w` or behind it. `Prog.Bounded` gives this for programs
whose fields are short (`cursor_eq_exact`), and `Prog.safe` says on which inputs a program meets
neither a failing assertion nor such a field (`cursor_stops_iff`).
-/

set_option autoImplicit false

namespace Rsl.Lib

open List

theorem bind_eq_ok {ε α β : Type} {x : Except ε α} {f : α → Except ε β} {b : β} :
    x >>= f = .ok b ↔ ∃ a, x = .ok a ∧ f a = .ok b := by
  cases x with
  | error e => exact ⟨nofun, fun ⟨_, h, _⟩ => nomatch h⟩
  | ok a =>
    constructor
    · exact fun h => ⟨a, rfl, h⟩
    · rintro ⟨_, ⟨⟩, h⟩
      exact h

/-- How a reader ends without a value. -/
inductive Stop where
  /-- It reports that its input is not valid. -/
  | refused
  /-- An assertion fails. -/
  | assertion
  /-- It reads outside its buffer. -/
  | fault
  /-- It has not ended in the steps it was given. -/
  | hangs
  deriving DecidableEq, Repr

/-- A program that reads symbols `τ` and returns an `α`. -/
inductive Prog (τ α : Type) where
  | ret (a : α)
  | stop (e : Stop)
  | take (n : Nat) (next : List τ → Prog τ α)

namespace Prog

variable {τ α β : Type}

/-- Run `k` on the value of `p`. -/
def andThen (k : α → Prog τ β) : Prog τ α → Prog τ β
  | ret a => k a
  | stop e => stop e
  | take n next => take n fun x => (next x).andThen k

instance : Monad (Prog τ) where
  pure := ret
  bind p k := p.andThen k

/-- Read exactly `n` symbols. -/
def read (n : Nat) : Prog τ (List τ) := take n ret

/-- Refuse the input unless `c` holds. -/
def require (c : Bool) : Prog τ Unit := if c then ret () else stop .refused

/-- Assert `c`. -/
def assert (c : Bool) : Prog τ Unit := if c then ret () else stop .assertion

/-- Run `p` `n` times and collect the values. -/
def times (p : Prog τ α) : Nat → Prog τ (List α)
  | 0 => pure []
  | n + 1 => do
    let a ← p
    let as ← times p n
    return a :: as

/-- The program over the unread input. -/
def exact : Prog τ α → List τ → Except Stop (α × List τ)
  | ret a, x => .ok (a, x)
  | stop e, _ => .error e
  | take n next, x =>
    if n ≤ x.length then (next (x.take n)).exact (x.drop n) else .error .refused

/-- The program over a buffer, with its read pointer at `pos`. The end of a field is computed modulo
`w`; a field that passes the test and still ends outside the buffer is read outside it. -/
def cursor (w : Nat) (data : List τ) : Prog τ α → Nat → Except Stop (α × Nat)
  | ret a, pos => .ok (a, pos)
  | stop e, _ => .error e
  | take n next, pos =>
    if data.length < (pos + n) % w then .error .refused
    else if data.length < pos + n then .error .fault
    else (next ((data.drop pos).take n)).cursor w data (pos + n)

/-- On the unread input `x`, which starts at `pos`, the program meets no failing assertion and no
field that ends at `w` or behind it. -/
def safe (w : Nat) : Prog τ α → Nat → List τ → Bool
  | ret _, _, _ => true
  | stop e, _, _ => e == .refused
  | take n next, pos, x =>
    decide (pos + n < w) &&
      (decide (x.length < n) || (next (x.take n)).safe w (pos + n) (x.drop n))

/-- The program reads at most `k` symbols and stops only by refusing. -/
def Short : Nat → Prog τ α → Prop
  | _, ret _ => True
  | _, stop e => e = .refused
  | k, take n next => n ≤ k ∧ ∀ x, (next x).Short (k - n)

/-- Every field is at most `b` long. -/
def Bounded (b : Nat) : Prog τ α → Prop
  | ret _ => True
  | stop _ => True
  | take n next => n ≤ b ∧ ∀ x, x.length = n → (next x).Bounded b

section Sequencing

variable (p : Prog τ α) (k : α → Prog τ β)

theorem bind_eq : p >>= k = p.andThen k := rfl

theorem exact_bind (x : List τ) :
    (p >>= k).exact x = (p.exact x).bind fun r => (k r.1).exact r.2 := by
  rw [bind_eq]
  induction p generalizing x with
  | ret a => rfl
  | stop e => rfl
  | take n next ih =>
    simp only [andThen, exact]
    split
    · exact ih _ _
    · rfl

theorem cursor_bind (w : Nat) (data : List τ) (pos : Nat) :
    (p >>= k).cursor w data pos
      = (p.cursor w data pos).bind fun r => (k r.1).cursor w data r.2 := by
  rw [bind_eq]
  induction p generalizing pos with
  | ret a => rfl
  | stop e => rfl
  | take n next ih =>
    simp only [andThen, cursor]
    split
    · rfl
    · split
      · rfl
      · exact ih _ _

variable {p : Prog τ α} {b : Nat}

theorem Bounded.bind {k : α → Prog τ β} (hp : p.Bounded b)
    (hk : ∀ a, (k a).Bounded b) : (p >>= k).Bounded b := by
  rw [bind_eq]
  induction p with
  | ret a => exact hk a
  | stop e => trivial
  | take n next ih => exact ⟨hp.1, fun x hx => ih x (hp.2 x hx)⟩

theorem map_eq (f : α → β) (p : Prog τ α) : f <$> p = p >>= fun a => pure (f a) := rfl

theorem Bounded.map (hp : p.Bounded b) (f : α → β) :
    (f <$> p).Bounded b := by
  rw [map_eq]
  exact hp.bind fun _ => trivial

theorem bounded_read {n b : Nat} (h : n ≤ b) : (read n : Prog τ (List τ)).Bounded b :=
  ⟨h, fun _ _ => trivial⟩

/-- What stands after an assertion or a requirement need only be bounded where it holds. -/
theorem Bounded.guard {k : Unit → Prog τ β} {c : Bool} {e : Stop}
    (hk : c = true → (k ()).Bounded b) :
    ((if c then ret () else stop e : Prog τ Unit) >>= k).Bounded b := by
  cases c with
  | true => exact hk rfl
  | false => trivial

theorem Bounded.times (hp : p.Bounded b) (n : Nat) :
    (p.times n).Bounded b := by
  induction n with
  | zero => trivial
  | succ n ih => exact hp.bind fun a => ih.bind fun as => trivial

theorem Short.mono {m n : Nat} (hp : p.Short m) (h : m ≤ n) : p.Short n := by
  induction p generalizing m n with
  | ret a => trivial
  | stop e => exact hp
  | take l next ih => exact ⟨hp.1.trans h, fun x => ih x (hp.2 x) (by omega)⟩

theorem Short.bind {k : α → Prog τ β} {m n : Nat} (hp : p.Short m)
    (hk : ∀ a, (k a).Short n) : (p >>= k).Short (m + n) := by
  rw [bind_eq]
  induction p generalizing m with
  | ret a => exact (hk a).mono (Nat.le_add_left n m)
  | stop e => exact hp
  | take l next ih =>
    refine ⟨hp.1.trans (Nat.le_add_right m n), fun x => ?_⟩
    have hle := hp.1
    rw [show m + n - l = m - l + n by omega]
    exact ih x (hp.2 x)

theorem short_pure (a : α) : (pure a : Prog τ α).Short 0 := trivial

theorem short_read (n : Nat) : (read n : Prog τ (List τ)).Short n := ⟨le_refl n, fun _ => trivial⟩

theorem short_require (c : Bool) : (require c : Prog τ Unit).Short 0 := by
  cases c
  · exact rfl
  · trivial

theorem Bounded.mono {b c : Nat} (hp : p.Bounded b) (h : b ≤ c) : p.Bounded c := by
  induction p with
  | ret a => trivial
  | stop e => trivial
  | take n next ih => exact ⟨hp.1.trans h, fun x hx => ih x (hp.2 x hx)⟩

theorem Short.bounded {k : Nat} (hp : p.Short k) : p.Bounded k := by
  induction p generalizing k with
  | ret a => trivial
  | stop e => trivial
  | take n next ih => exact ⟨hp.1, fun x _ => (ih x (hp.2 x)).mono (Nat.sub_le k n)⟩

end Sequencing

theorem exact_bind_eq_ok {p : Prog τ α} {k : α → Prog τ β} {x rest : List τ} {b : β} :
    (p >>= k).exact x = .ok (b, rest) ↔
      ∃ a y, p.exact x = .ok (a, y) ∧ (k a).exact y = .ok (b, rest) := by
  rw [exact_bind]
  exact bind_eq_ok.trans ⟨fun ⟨r, h⟩ => ⟨r.1, r.2, h⟩, fun ⟨a, y, h⟩ => ⟨(a, y), h⟩⟩

/-- A field that is read and decoded. -/
theorem exact_field {n : Nat} {f : List τ → α} {k : α → Prog τ β} {x rest : List τ} {b : β}
    (h : ((do return f (← read n)) >>= k : Prog τ β).exact x = .ok (b, rest)) :
    (k (f (x.take n))).exact (x.drop n) = .ok (b, rest) := by
  change (if n ≤ x.length then _ else _) = _ at h
  split at h
  · exact h
  · cases h

theorem exact_guard {c : Bool} {e : Stop} {x rest : List τ} {a : Unit}
    (h : (if c then ret () else stop e : Prog τ Unit).exact x = .ok (a, rest)) : rest = x := by
  cases c <;> cases h
  rfl

/-! ## The two meanings -/

section Meanings

variable {w : Nat} {data : List τ} {pos : Nat}

variable {p : Prog τ α} {a : α} {x rest : List τ}

/-- The read pointer moves forward and stays inside the buffer. -/
theorem cursor_pos_le {pos' : Nat} (hpos : pos ≤ data.length)
    (h : p.cursor w data pos = .ok (a, pos')) : pos ≤ pos' ∧ pos' ≤ data.length := by
  induction p generalizing pos with
  | ret b =>
    cases h
    exact ⟨le_rfl, hpos⟩
  | stop e => cases h
  | take n next ih =>
    rw [cursor] at h
    split at h
    · cases h
    · split at h
      · cases h
      · next hend =>
        have hih := ih _ (le_of_not_gt hend) h
        omega

/-- A value read from a buffer is the value of the unread input. -/
theorem exact_of_cursor {pos' : Nat} (h : p.cursor w data pos = .ok (a, pos')) :
    p.exact (data.drop pos) = .ok (a, data.drop pos') := by
  induction p generalizing pos with
  | ret b =>
    cases h
    rfl
  | stop e => cases h
  | take n next ih =>
    rw [cursor] at h
    split at h
    · cases h
    · split at h
      · cases h
      · next hend =>
        rw [exact, length_drop, if_pos (by omega), drop_drop]
        exact ih _ h

/-- A field that the buffer refuses is not in the unread input. -/
theorem exact_of_cursor_refused (hpos : pos ≤ data.length)
    (h : p.cursor w data pos = .error .refused) : p.exact (data.drop pos) = .error .refused := by
  induction p generalizing pos with
  | ret b => cases h
  | stop e => exact congrArg _ (Except.error.inj h)
  | take n next ih =>
    rw [cursor] at h
    rw [exact, length_drop]
    split at h
    · next hwrap =>
      have hle := Nat.mod_le (pos + n) w
      rw [if_neg (by omega)]
    · split at h
      · cases h
      · next hend =>
        rw [if_pos (by omega), drop_drop]
        exact ih _ (by omega) h

/-- A program leaves no more than it was given. -/
theorem exact_length (h : p.exact x = .ok (a, rest)) :
    rest.length ≤ x.length := by
  induction p generalizing x with
  | ret b =>
    cases h
    exact le_rfl
  | stop e => cases h
  | take n next ih =>
    rw [exact] at h
    split at h
    · have hle := ih _ h
      rw [length_drop] at hle
      omega
    · cases h

theorem exact_drop (h : p.exact x = .ok (a, rest)) :
    x.drop (x.length - rest.length) = rest := by
  induction p generalizing x with
  | ret b =>
    cases h
    rw [tsub_self, drop_zero]
  | stop e => cases h
  | take n next ih =>
    rw [exact] at h
    split at h
    · have hle := exact_length h
      have hdrop := ih _ h
      rw [length_drop] at hle hdrop
      rw [drop_drop, show n + (x.length - n - rest.length) = x.length - rest.length by omega]
        at hdrop
      exact hdrop
    · cases h

/-- Input that a program reads to a value is safe, if it ends below `w`. -/
theorem safe_of_exact (hx : pos + x.length < w)
    (h : p.exact x = .ok (a, rest)) : p.safe w pos x = true := by
  induction p generalizing pos x with
  | ret b => rfl
  | stop e => cases h
  | take n next ih =>
    rw [exact] at h
    split at h
    · next hn =>
      have hlen : pos + n + (x.drop n).length < w := by
        rw [length_drop]
        omega
      have hnext := ih (x.take n) hlen h
      rw [safe, hnext, Bool.or_true, Bool.and_true]
      exact decide_eq_true (by omega)
    · cases h

/-- On safe input a program does on the buffer what it does on the unread input, and ends with a
value or a refusal. -/
theorem cursor_of_safe (hpos : pos ≤ data.length) (h : p.safe w pos (data.drop pos) = true) :
    p.exact (data.drop pos) = (p.cursor w data pos).map (fun r => (r.1, data.drop r.2)) ∧
      ∀ e, p.cursor w data pos = .error e → e = .refused := by
  induction p generalizing pos with
  | ret a => exact ⟨rfl, nofun⟩
  | stop e =>
    refine ⟨rfl, fun e' he => ?_⟩
    cases he
    exact eq_of_beq h
  | take n next ih =>
    simp only [safe, Bool.and_eq_true, Bool.or_eq_true, decide_eq_true_eq, length_drop] at h
    obtain ⟨hlt, h⟩ := h
    rw [exact, cursor, Nat.mod_eq_of_lt hlt, length_drop]
    by_cases hend : pos + n ≤ data.length
    · rw [if_pos (by omega), if_neg (by omega), if_neg (by omega), drop_drop]
      have hsafe := h.resolve_left (by omega)
      rw [drop_drop] at hsafe
      exact ih _ hend hsafe
    · rw [if_neg (by omega), if_pos (by omega)]
      exact ⟨rfl, fun e he => (Except.error.inj he).symm⟩

/-- On any other input a program whose fields are shorter than `w` fails an assertion or leaves the
buffer. -/
theorem cursor_of_not_safe {b : Nat} (hp : p.Bounded b) (hb : b < w)
    (hdata : data.length < w) (hpos : pos ≤ data.length)
    (h : p.safe w pos (data.drop pos) = false) :
    ∃ e, p.cursor w data pos = .error e ∧ e ≠ .refused := by
  induction p generalizing pos with
  | ret a => cases h
  | stop e => exact ⟨e, rfl, by simpa [safe] using h⟩
  | take n next ih =>
    obtain ⟨hn, hnext⟩ := hp
    rw [cursor]
    by_cases hlt : pos + n < w
    · simp only [safe, hlt, decide_true, Bool.true_and, Bool.or_eq_false_iff,
        decide_eq_false_iff_not,
        length_drop] at h
      rw [Nat.mod_eq_of_lt hlt, if_neg (by omega), if_neg (by omega)]
      rw [drop_drop] at h
      exact ih _ (hnext _ (by rw [length_take, length_drop]; omega)) (by omega) h.2
    · -- The end of the field wraps, and to a position before its start.
      have hwrap : (pos + n) % w = pos + n - w := by
        rw [Nat.mod_eq_sub_mod (by omega), Nat.mod_eq_of_lt (by omega)]
      rw [hwrap, if_neg (by omega), if_pos (by omega)]
      exact ⟨.fault, rfl, nofun⟩

/-- A short program that starts early enough is safe on every input. -/
theorem safe_of_short {k : Nat} (hp : p.Short k) (h : pos + k < w) (x : List τ) :
    p.safe w pos x = true := by
  induction p generalizing pos k x with
  | ret a => rfl
  | stop e =>
    have he : e = .refused := hp
    rw [he]
    rfl
  | take n next ih =>
    obtain ⟨hn, hnext⟩ := hp
    rw [safe, ih (x.take n) (hnext _) (by omega) (x.drop n), Bool.or_true, Bool.and_true]
    exact decide_eq_true (by omega)

end Meanings

/-! ## What a program returns -/

section Ensures

variable {p : Prog τ α} {P : α → Prop} {Q : β → Prop} {k : α → Prog τ β}

/-- Every value that the program returns satisfies `P`. -/
def Ensures (P : α → Prop) (p : Prog τ α) : Prop := ∀ x a rest, p.exact x = .ok (a, rest) → P a

theorem ensures_pure {a : α} (h : P a) : Ensures (τ := τ) P (pure a) := by
  intro x b rest hx
  cases hx
  exact h

theorem Ensures.bind (hp : Ensures P p) (hk : ∀ a, P a → Ensures Q (k a)) :
    Ensures Q (p >>= k) := by
  intro x b rest hx
  rw [exact_bind] at hx
  cases hread : p.exact x with
  | error e =>
    rw [hread] at hx
    cases hx
  | ok r =>
    rw [hread] at hx
    exact hk r.1 (hp x r.1 r.2 hread) r.2 b rest hx

/-- The first program of a sequence says nothing about the value. -/
theorem Ensures.skip (hk : ∀ a, Ensures Q (k a)) : Ensures Q (p >>= k) :=
  Ensures.bind (P := fun _ => True) (fun _ _ _ _ => trivial) fun a _ => hk a

end Ensures

/-! ## Programs and parsers -/

section Matches

variable {p : Prog τ α} {q : Parser τ α}

/-- On every input the program does what the parser does. -/
def Matches (p : Prog τ α) (q : Parser τ α) : Prop :=
  ∀ x, p.exact x = (q x).elim (.error .refused) .ok

variable {a : α} {k : α → Prog τ β} {l : α → Parser τ β} {P : α → Prop}

theorem Matches.ok_iff (h : Matches p q) {x rest : List τ} :
    p.exact x = .ok (a, rest) ↔ q x = some (a, rest) := by
  rw [h x]
  cases q x <;> simp

theorem Matches.error (h : Matches p q) {x : List τ} {e : Stop} (he : p.exact x = .error e) :
    e = .refused ∧ q x = none := by
  rw [h x] at he
  cases hq : q x with
  | none =>
    rw [hq] at he
    exact ⟨(Except.error.inj he).symm, rfl⟩
  | some r =>
    rw [hq] at he
    cases he

theorem matches_pure (a : α) : Matches (τ := τ) (pure a) (pure a) := fun _ => rfl

theorem matches_read (n : Nat) : Matches (τ := τ) (read n) (Parser.take n) := by
  intro x
  simp only [read, exact, Parser.take]
  split <;> rfl

theorem Matches.bind (h : Matches p q)
    (hk : ∀ a, Matches (k a) (l a)) : Matches (p >>= k) (q >>= l) := by
  intro x
  have hbind : (q >>= l) x = (q x).bind fun r => l r.1 r.2 := rfl
  rw [exact_bind, h x, hbind]
  cases q x with
  | none => rfl
  | some r => exact hk r.1 r.2

theorem Matches.map (h : Matches p q) (f : α → β) :
    Matches (p >>= fun a => pure (f a)) (q >>= fun a => pure (f a)) :=
  h.bind fun a => matches_pure (f a)

/-- A requirement is a check. -/
theorem matches_require (c : Bool) : Matches (τ := τ) (require c) (Parser.check c) := by
  intro x
  cases c <;> rfl

theorem Matches.check {c : Bool} {k : Unit → Prog τ β} {l : Unit → Parser τ β}
    (hk : Matches (k ()) (l ())) : Matches (require c >>= k) (Parser.check c >>= l) :=
  (matches_require c).bind fun _ => hk

/-- The program returns and refuses as the parser does; it may also fail an assertion. -/
def Follows (p : Prog τ α) (q : Parser τ α) : Prop :=
  ∀ x, (∀ r, p.exact x = .ok r → q x = some r) ∧ (p.exact x = .error .refused → q x = none)

theorem Matches.follows (h : Matches p q) : Follows p q :=
  fun _ => ⟨fun _ hr => h.ok_iff.mp hr, fun he => (h.error he).2⟩

/-- The program returns what the parser does, where the value satisfies `P`. -/
def Covers (P : α → Prop) (p : Prog τ α) (q : Parser τ α) : Prop :=
  ∀ x a rest, q x = some (a, rest) → P a → p.exact x = .ok (a, rest)

/-- The program returns the values of the parser that satisfy `P`, and refuses only what the parser
refuses: where it does neither, an assertion fails. -/
def Sim (P : α → Prop) (p : Prog τ α) (q : Parser τ α) : Prop :=
  ∀ x, (∀ a rest, p.exact x = .ok (a, rest) ↔ q x = some (a, rest) ∧ P a) ∧
    (p.exact x = .error .refused → q x = none)

theorem Sim.follows (h : Sim P p q) : Follows p q :=
  fun x => ⟨fun r hr => (((h x).1 r.1 r.2).mp hr).1, (h x).2⟩

theorem Sim.covers (h : Sim P p q) : Covers P p q :=
  fun x a rest hq hP => ((h x).1 a rest).mpr ⟨hq, hP⟩

theorem Sim.ensures (h : Sim P p q) : Ensures P p :=
  fun x a rest hx => (((h x).1 a rest).mp hx).2

theorem Matches.sim (h : Matches p q) (hP : ∀ x a rest, q x = some (a, rest) → P a) :
    Sim P p q := by
  refine fun x => ⟨fun a rest => ?_, fun he => (h.error he).2⟩
  rw [h.ok_iff]
  exact ⟨fun hq => ⟨hq, hP x a rest hq⟩, fun hq => hq.1⟩

theorem sim_pure {a : α} (h : P a) : Sim (τ := τ) P (pure a) (pure a) := by
  refine (matches_pure a).sim fun x b rest hx => ?_
  cases hx
  exact h

theorem Sim.bind {Q : β → Prop} (h : Sim P p q) (hk : ∀ a, P a → Sim Q (k a) (l a))
    (hP : ∀ a y b z, l a y = some (b, z) → Q b → P a) : Sim Q (p >>= k) (q >>= l) := by
  intro x
  have hbind : (q >>= l) x = (q x).bind fun r => l r.1 r.2 := rfl
  rw [exact_bind, hbind]
  cases hp : p.exact x with
  | ok r =>
    obtain ⟨hq, hPr⟩ := ((h x).1 r.1 r.2).mp hp
    rw [hq]
    exact hk r.1 hPr r.2
  | error e =>
    refine ⟨fun b z => ⟨fun he => (by cases he), fun hx => ?_⟩, fun he => ?_⟩
    · -- The first value would have been returned.
      obtain ⟨⟨a, y⟩, hq, hl⟩ := Option.bind_eq_some_iff.mp hx.1
      have hok := ((h x).1 a y).mpr ⟨hq, hP a y b z hl hx.2⟩
      rw [hp] at hok
      cases hok
    · cases he
      rw [(h x).2 hp]
      rfl

theorem Matches.bind_sim {Q : β → Prop} (h : Matches p q) (hk : ∀ a, Sim Q (k a) (l a)) :
    Sim Q (p >>= k) (q >>= l) :=
  Sim.bind (h.sim fun _ _ _ _ => trivial) (fun a _ => hk a) fun _ _ _ _ _ _ => trivial

/-- The parser does without the assertion, which holds of the values that satisfy `Q`. -/
theorem Sim.assert {c : Bool} {k : Unit → Prog τ β} {l : Parser τ β} {Q : β → Prop}
    (hk : c = true → Sim Q (k ()) l) (hQ : ∀ x b z, l x = some (b, z) → Q b → c = true) :
    Sim Q (assert c >>= k) l := by
  cases c with
  | true => exact hk rfl
  | false =>
    refine fun x => ⟨fun b z => ⟨fun he => (by cases he), fun hx => ?_⟩, fun he => (by cases he)⟩
    exact Bool.noConfusion (hQ x b z hx.1 hx.2)

theorem Sim.times (h : Sim P p q) (n : Nat) :
    Sim (fun as => ∀ a ∈ as, P a) (p.times n) (Parser.replicate q n) := by
  induction n with
  | zero => exact sim_pure fun a ha => absurd ha not_mem_nil
  | succ n ih =>
    refine h.bind (fun a ha => ih.bind (fun as has => ?_) ?_) ?_
    · exact sim_pure (forall_mem_cons.mpr ⟨ha, has⟩)
    · intro as y bs z hread hall
      cases hread
      exact (forall_mem_cons.mp hall).2
    · intro a y bs z hread hall
      obtain ⟨as, y', -, hread⟩ := Parser.bind_eq_some.mp hread
      cases hread
      exact (forall_mem_cons.mp hall).1

/-- The program reads `w` as `a`, whatever follows. -/
def Reads (p : Prog τ α) (w : List τ) (a : α) : Prop := ∀ rest, p.exact (w ++ rest) = .ok (a, rest)

theorem Matches.reads (h : Matches p q) {w : List τ} (hq : Parser.Reads q w a) : Reads p w a :=
  fun rest => h.ok_iff.mpr (hq rest)

theorem Covers.reads (h : Covers P p q) {w : List τ} (hq : Parser.Reads q w a)
    (hP : P a) : Reads p w a :=
  fun rest => h _ a rest (hq rest) hP

theorem reads_pure (a : α) : Reads (τ := τ) (pure a) [] a := fun _ => rfl

theorem Reads.bind {w v : List τ} {b : β} (hp : Reads p w a)
    (hk : Reads (k a) v b) : Reads (p >>= k) (w ++ v) b := by
  intro rest
  rw [exact_bind, append_assoc, hp]
  exact hk rest

/-- What follows a value that was read is left as it is. -/
theorem exact_append {p : Prog τ α} {x rest : List τ} (h : p.exact x = .ok (a, rest)) (y : List τ) :
    p.exact (x ++ y) = .ok (a, rest ++ y) := by
  induction p generalizing x with
  | ret b =>
    cases h
    rfl
  | stop e => cases h
  | take n next ih =>
    rw [exact] at h ⊢
    split at h
    · next hn =>
      rw [if_pos (by rw [length_append]; omega), take_append_of_le_length hn,
        drop_append_of_le_length hn]
      exact ih _ h
    · cases h

/-- In a buffer whose end does not wrap, the cursor moves over what is read. -/
theorem cursor_of_exact {p : Prog τ α} {data rest : List τ} {pos m : Nat} (hpos : pos ≤ data.length)
    (hm : data.length < m) (h : p.exact (data.drop pos) = .ok (a, rest)) :
    p.cursor m data pos = .ok (a, data.length - rest.length) := by
  have hsafe : p.safe m pos (data.drop pos) = true :=
    safe_of_exact (by rw [length_drop]; omega) h
  obtain ⟨hexact, -⟩ := cursor_of_safe hpos hsafe
  rw [h] at hexact
  cases hread : p.cursor m data pos with
  | error e =>
    rw [hread] at hexact
    cases hexact
  | ok r =>
    obtain ⟨b, q⟩ := r
    rw [hread] at hexact
    obtain ⟨rfl, hrest⟩ := Prod.mk.inj (Except.ok.inj hexact)
    obtain ⟨-, hq⟩ := cursor_pos_le hpos hread
    have hlen := congrArg length hrest
    rw [length_drop] at hlen
    have hend : q = data.length - rest.length := by omega
    rw [hend]

theorem Reads.cursor {w v rest : List τ} {m : Nat} (hp : Reads p w a)
    (hm : (v ++ w ++ rest).length < m) :
    p.cursor m (v ++ w ++ rest) v.length = .ok (a, v.length + w.length) := by
  have hdrop : (v ++ w ++ rest).drop v.length = w ++ rest := by
    rw [append_assoc, drop_left]
  have hle : v.length ≤ (v ++ w ++ rest).length := by
    rw [append_assoc, length_append]
    omega
  rw [cursor_of_exact hle hm (by rw [hdrop]; exact hp rest)]
  simp only [length_append, Nat.add_sub_cancel]

end Matches

end Prog

end Rsl.Lib
