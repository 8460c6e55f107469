import Mathlib.Init

/-!
# Actions with assertions

An action on a state returns the new state and either a result or nothing. Nothing means that an
assertion failed and the process aborted; the state is then the one it had reached. `Act.Sat` says
what holds after an action started in a given state, with one postcondition for a normal return and
one for an abort, and the rules below derive it for a program from what holds of its parts.
-/

set_option autoImplicit false

/-- An action on states `σ` with a result in `α`; no result means the process aborted. -/
def Act (σ α : Type) : Type := σ → σ × Option α

namespace Act

variable {σ α β : Type}

/-- Return a value and leave the state alone. -/
protected def ret (a : α) : Act σ α := fun s => (s, some a)

/-- Run one action and feed its result to the next, unless it aborted. -/
protected def andThen (f : Act σ α) (g : α → Act σ β) : Act σ β := fun s =>
  match f s with
  | (s', some a) => g a s'
  | (s', none) => (s', none)

instance : Monad (Act σ) where
  pure := Act.ret
  bind := Act.andThen

theorem andThen_ret (f : Act σ α) : Act.andThen f Act.ret = f := by
  funext s
  unfold Act.andThen
  cases f s with
  | mk s' o => cases o <;> rfl

theorem andThen_assoc {γ : Type} (f : Act σ α) (g : α → Act σ β) (k : β → Act σ γ) :
    Act.andThen (Act.andThen f g) k = Act.andThen f fun a => Act.andThen (g a) k := by
  funext s
  unfold Act.andThen
  cases f s with
  | mk s' o => cases o <;> rfl

instance : LawfulMonad (Act σ) :=
  LawfulMonad.mk' (Act σ) (fun f => andThen_ret f) (fun _ _ => rfl)
    (fun f g k => andThen_assoc f g k)

/-- The current state. -/
def get : Act σ σ := fun s => (s, some s)

/-- Change the state. -/
def modify (f : σ → σ) : Act σ Unit := fun s => (f s, some ())

/-- Abort the process. -/
def abort : Act σ α := fun s => (s, none)

/-- Abort the process unless the condition holds. -/
def assert (c : Bool) : Act σ Unit := fun s => (s, if c then some () else none)

/-! ## Runs -/

/-- Started in `s`, the action either returns with `Q` or aborts with `E`. -/
def Sat (f : Act σ α) (s : σ) (Q : α → σ → Prop) (E : σ → Prop) : Prop :=
  match f s with
  | (s', some a) => Q a s'
  | (s', none) => E s'

section Rules

variable {s : σ} {Q Q' : α → σ → Prop} {R : β → σ → Prop} {E E' : σ → Prop}

theorem Sat.pure {a : α} (h : Q a s) : Sat (Pure.pure a : Act σ α) s Q E := h

theorem Sat.bind {f : Act σ α} {k : α → Act σ β} (hf : Sat f s Q E)
    (hk : ∀ a s', Q a s' → Sat (k a) s' R E) : Sat (f >>= k) s R E := by
  show match Act.andThen f k s with
    | (s', some a) => R a s'
    | (s', none) => E s'
  unfold Sat at hf
  unfold Act.andThen
  cases hrun : f s with
  | mk s' o =>
    rw [hrun] at hf
    cases o with
    | none => exact hf
    | some a => exact hk a s' hf

theorem Sat.get_bind {k : σ → Act σ α} (h : Sat (k s) s Q E) : Sat (Act.get >>= k) s Q E := h

theorem Sat.modify {f : σ → σ} {Q : Unit → σ → Prop} (h : Q () (f s)) :
    Sat (Act.modify f) s Q E := h

theorem Sat.abort (h : E s) : Sat (Act.abort : Act σ α) s Q E := h

theorem Sat.assert_bind {c : Bool} {k : Unit → Act σ α} (h : c = true → Sat (k ()) s Q E)
    (he : E s) : Sat (Act.assert c >>= k) s Q E := by
  cases c with
  | true => exact h rfl
  | false => exact he

theorem Sat.mono {f : Act σ α} (h : Sat f s Q E) (hQ : ∀ a s', Q a s' → Q' a s')
    (hE : ∀ s', E s' → E' s') : Sat f s Q' E' := by
  unfold Sat at h ⊢
  cases hrun : f s with
  | mk s' o =>
    rw [hrun] at h
    cases o with
    | none => exact hE s' h
    | some a => exact hQ a s' h

theorem Sat.ite {c : Prop} [Decidable c] {f g : Act σ α} (hf : c → Sat f s Q E)
    (hg : ¬ c → Sat g s Q E) : Sat (if c then f else g) s Q E := by
  split
  · next h => exact hf h
  · next h => exact hg h

end Rules

end Act
