import Mathlib.Data.List.Basic

/-!
# Frames in a stream

A decoder looks at the start of what has arrived: it takes a frame of some size off it, asks for
more, or rejects it for good. `drain` takes all frames off a buffer. A decoder is stable when a
frame or a rejection does not depend on what comes behind it; then it does not matter how the stream
is cut into pieces (`feed_eq_drain`).
-/

set_option autoImplicit false

namespace Rsl.Lib.Framing

variable {α β ε : Type}

/-- What a decoder makes of the start of a buffer. -/
inductive Step (β ε : Type) where
  | frame (content : β) (size : Nat)
  | needMore
  | reject (reason : ε)
  deriving DecidableEq, Repr

/-- The frames taken off a stream, why it was rejected, and what is left of it. -/
structure Drained (α β ε : Type) where
  frames : List β
  rejected : Option ε
  rest : List α
  deriving DecidableEq, Repr

/-- Frames that came before. -/
def Drained.after (frames : List β) (d : Drained α β ε) : Drained α β ε :=
  { d with frames := frames ++ d.frames }

@[simp] theorem Drained.after_after (first second : List β) (d : Drained α β ε) :
    (d.after second).after first = d.after (first ++ second) := by
  simp [Drained.after]

/-- At most `n` frames off a buffer. -/
def drainN (decode : List α → Step β ε) : Nat → List α → Drained α β ε
  | 0, buffer => ⟨[], none, buffer⟩
  | n + 1, buffer =>
    match decode buffer with
    | .frame content size => (drainN decode n (buffer.drop size)).after [content]
    | .needMore => ⟨[], none, buffer⟩
    | .reject reason => ⟨[], some reason, buffer⟩

/-- All frames off a buffer. -/
def drain (decode : List α → Step β ε) (buffer : List α) : Drained α β ε :=
  drainN decode buffer.length buffer

/-- Frames are not empty and are inside the buffer, nothing is decided on an empty buffer, and
nothing that comes behind a frame or a rejection changes it. -/
structure Stable (decode : List α → Step β ε) : Prop where
  nil : decode [] = .needMore
  pos : ∀ {buffer content size}, decode buffer = .frame content size → 0 < size
  le : ∀ {buffer content size}, decode buffer = .frame content size → size ≤ buffer.length
  frame : ∀ {buffer content size} (more : List α), decode buffer = .frame content size →
    decode (buffer ++ more) = .frame content size
  reject : ∀ {buffer reason} (more : List α), decode buffer = .reject reason →
    decode (buffer ++ more) = .reject reason

variable {decode : List α → Step β ε}

/-- More turns than there are elements change nothing. -/
theorem drainN_enough (h : Stable decode) {m n : Nat} {buffer : List α} (hm : buffer.length ≤ m)
    (hn : buffer.length ≤ n) : drainN decode m buffer = drainN decode n buffer := by
  induction m generalizing n buffer with
  | zero =>
    rw [List.eq_nil_of_length_eq_zero (Nat.le_zero.mp hm)]
    cases n with
    | zero => rfl
    | succ n => rw [drainN, drainN, h.nil]
  | succ m ih =>
    cases n with
    | zero =>
      rw [List.eq_nil_of_length_eq_zero (Nat.le_zero.mp hn), drainN, drainN, h.nil]
    | succ n =>
      rw [drainN, drainN]
      cases hd : decode buffer with
      | frame content size =>
        have hpos := h.pos hd
        have hlen : (buffer.drop size).length = buffer.length - size := List.length_drop
        dsimp only
        rw [@ih n (buffer.drop size) (by omega) (by omega)]
      | needMore => rfl
      | reject reason => rfl

theorem drain_frame (h : Stable decode) {buffer : List α} {content : β} {size : Nat}
    (hd : decode buffer = .frame content size) :
    drain decode buffer = (drain decode (buffer.drop size)).after [content] := by
  have hpos := h.pos hd
  have hle := h.le hd
  have hlen : (buffer.drop size).length = buffer.length - size := List.length_drop
  obtain ⟨k, hk⟩ : ∃ k, buffer.length = k + 1 := ⟨buffer.length - 1, by omega⟩
  rw [drain, hk, drainN, hd]
  dsimp only
  rw [drain, drainN_enough h (by omega) (Nat.le_refl _)]

theorem drain_needMore {buffer : List α} (hd : decode buffer = .needMore) :
    drain decode buffer = ⟨[], none, buffer⟩ := by
  rw [drain]
  cases buffer.length with
  | zero => rfl
  | succ k => rw [drainN, hd]

theorem drain_reject (h : Stable decode) {buffer : List α} {reason : ε}
    (hd : decode buffer = .reject reason) :
    drain decode buffer = ⟨[], some reason, buffer⟩ := by
  have hne : buffer ≠ [] := by
    rintro rfl
    rw [h.nil] at hd
    cases hd
  obtain ⟨k, hk⟩ : ∃ k, buffer.length = k + 1 :=
    ⟨buffer.length - 1, by have := List.length_pos_iff.mpr hne; omega⟩
  rw [drain, hk, drainN, hd]

/-- Reasoning along the frames of a buffer. -/
theorem drain_induct (h : Stable decode) {motive : List α → Prop}
    (frame : ∀ buffer content size, decode buffer = .frame content size →
      motive (buffer.drop size) → motive buffer)
    (needMore : ∀ buffer, decode buffer = .needMore → motive buffer)
    (reject : ∀ buffer reason, decode buffer = .reject reason → motive buffer)
    (buffer : List α) : motive buffer := by
  induction hk : buffer.length using Nat.strongRecOn generalizing buffer with
  | _ k ih =>
    cases hd : decode buffer with
    | frame content size =>
      refine frame buffer content size hd (ih _ ?_ _ rfl)
      have hpos := h.pos hd
      have hle := h.le hd
      rw [List.length_drop]
      omega
    | needMore => exact needMore buffer hd
    | reject reason => exact reject buffer reason hd

/-- What comes behind a part of the stream is drained with what is left of that part. -/
theorem drain_append (h : Stable decode) (buffer more : List α) :
    drain decode (buffer ++ more) =
      match (drain decode buffer).rejected with
      | none => (drain decode ((drain decode buffer).rest ++ more)).after
        (drain decode buffer).frames
      | some reason =>
        ⟨(drain decode buffer).frames, some reason, (drain decode buffer).rest ++ more⟩ := by
  induction buffer using drain_induct h with
  | frame buffer content size hd ih =>
    rw [drain_frame h (h.frame more hd), List.drop_append_of_le_length (h.le hd), ih,
      drain_frame h hd]
    cases hr : (drain decode (buffer.drop size)).rejected with
    | none | some reason => simp [Drained.after, hr]
  | needMore buffer hd => rw [drain_needMore hd]; rfl
  | reject buffer reason hd =>
    rw [drain_reject h hd, drain_reject h (h.reject more hd)]

/-- One piece of the stream arrives. Nothing is read any more from a stream that was rejected. -/
def feed (decode : List α → Step β ε) (d : Drained α β ε) (piece : List α) : Drained α β ε :=
  match d.rejected with
  | none => (drain decode (d.rest ++ piece)).after d.frames
  | some _ => d

/-- The same frames and the same rejection, and the same is left of a stream that goes on. -/
structure Alike (d e : Drained α β ε) : Prop where
  frames : d.frames = e.frames
  rejected : d.rejected = e.rejected
  rest : e.rejected = none → d.rest = e.rest

/-- The pieces that arrive after a part of the stream, against the whole stream. -/
theorem alike_feed (h : Stable decode) {buffer : List α} {d : Drained α β ε}
    (hd : Alike d (drain decode buffer)) (pieces : List (List α)) :
    Alike (pieces.foldl (feed decode) d) (drain decode (buffer ++ pieces.flatten)) := by
  induction pieces generalizing buffer d with
  | nil =>
    rw [List.flatten_nil, List.append_nil]
    exact hd
  | cons piece pieces ih =>
    rw [List.foldl_cons, List.flatten_cons, ← List.append_assoc]
    apply ih
    have happend := drain_append h buffer piece
    cases hr : (drain decode buffer).rejected with
    | none =>
      rw [hr] at happend
      rw [feed, hd.rejected, hr, happend, hd.frames, hd.rest hr]
      exact ⟨rfl, rfl, fun _ => rfl⟩
    | some reason =>
      rw [hr] at happend
      rw [feed, hd.rejected, hr, happend]
      exact ⟨hd.frames, hd.rejected.trans hr, by simp⟩

/-- **Cuts do not matter.** The frames and the rejection are those of the whole stream. -/
theorem feed_eq_drain (h : Stable decode) (pieces : List (List α)) :
    Alike (pieces.foldl (feed decode) ⟨[], none, []⟩) (drain decode pieces.flatten) := by
  have hnil : Alike (⟨[], none, []⟩ : Drained α β ε) (drain decode []) := by
    rw [drain_needMore h.nil]
    exact ⟨rfl, rfl, fun _ => rfl⟩
  exact alike_feed h hnil pieces

end Rsl.Lib.Framing
