import Rsl.Storage.SeqWrite

/-!
# The sequential writer does not panic

What holds at every point of a guarded schedule (`System.Shape`): buffers keep their size, the
caller has a buffer wherever the code expects one, and a call that is made after an error finds
another error stored. One lemma for each critical section; `Shape.step` collects them.
-/

set_option autoImplicit false

namespace Rsl.Storage.SeqWrite

open List

open Wire (Bytes)
open SeqRead (sector AlignedBuf)
open Lib (resize)

theorem SeqWriterConfig.valid_of_validate {config : SeqWriterConfig}
    (h : config.validate = .ok ()) :
    0 < config.threads ∧ 0 < config.block ∧ 2 ≤ config.slots ∧ sector ∣ config.block := by
  unfold validate at h
  split_ifs at h with hzero hring hslots hblock
  · rw [not_or] at hzero
    exact ⟨Nat.pos_of_ne_zero hzero.1, Nat.pos_of_ne_zero hzero.2, Nat.le_of_not_lt hring,
      Nat.dvd_of_mod_eq_zero (not_not.mp hblock)⟩

/-- The buffer a thread holds. -/
def Worker.held : Worker → Option AlignedBuf
  | .idle => none
  | .writing _ _ buf => some buf
  | .releasing _ buf _ => some buf
  | .exited => none

namespace System

/-! ### The shape of the state -/

/-- Some call has reported an error. -/
def Reported (s : System) : Prop := .error ∈ s.replies

/-- The threads are out of their loops. -/
def Joined (s : System) : Prop := s.inline = false → ∀ t < s.config.threads, s.workers t = .exited

/-- The caller works on the current buffer, unless an error is waiting for it. -/
def Ready (s : System) : Prop := (s.Reported → s.ring.err = true) ∧ (¬ s.Reported → s.cur ≠ none)

/-- What holds where the caller is. -/
def Place (s : System) : Caller → Prop
  | .outside => ¬ s.Reported → s.cur ≠ none
  | .checking p => s.Ready ∧ ∀ room, p.room = some room → ∃ buf, s.cur = some buf ∧
      buf.filled < s.config.block ∧ room ≤ s.config.block - buf.filled ∧ room ≤ p.rest.length
  | .rotating p => ¬ s.Reported ∧ s.cur ≠ none ∧ p.room = none
  | .taking p => ¬ s.Reported ∧ p.room = none
  | .flushing => s.Ready
  | .finishing => s.Ready
  | .closing => s.Reported → s.ring.err = true
  | .joining => s.Reported → s.ring.err = true
  | .truncating => ¬ s.Reported ∧ s.ring.err = false ∧ s.Joined
  | .gone => (∃ n, .finished n ∈ s.replies) → ¬ s.Reported ∧ s.ring.err = false ∧ s.Joined

/-- What holds whatever the caller is doing. -/
structure Core (s : System) : Prop where
  valid : s.config.validate = .ok ()
  cur : ∀ buf, s.cur = some buf → buf.window.length = s.config.block ∧ buf.filled ≤ s.config.block
  ring : ∀ slot buf, s.ring.bufs slot = some buf → buf.window.length = s.config.block
  held : ∀ t buf, (s.workers t).held = some buf → buf.window.length = s.config.block
  idle : ∀ t, s.inline = true ∨ s.config.threads ≤ t → s.workers t = .idle
  sticky : s.replies.Pairwise fun earlier later => earlier = .error → later = .error
  noPanic : .panic ∉ s.replies

/-- What holds at every point of a guarded schedule. -/
structure Shape (s : System) : Prop extends Core s where
  place : s.Place s.caller
  finished : ∀ n, .finished n ∈ s.replies → s.caller = .gone

variable {s s' : System}

variable {p : Progress} {buf : AlignedBuf} {t : Nat} {c : Caller}

/-- A thread moves: the caller is where it was, and an error stays stored. -/
theorem Place.mono (h : s.Place c) (hcur : s'.cur = s.cur)
    (hconfig : s'.config = s.config) (hreplies : s'.replies = s.replies)
    (herr : s.ring.err = true → s'.ring.err = true) (hjoined : ¬ s.Joined) : s'.Place c := by
  have hreported : s'.Reported ↔ s.Reported := by rw [Reported, Reported, hreplies]
  have hready : s.Ready → s'.Ready := fun hr =>
    ⟨fun hrep => herr (hr.1 (hreported.mp hrep)),
      fun hrep => by rw [hcur]; exact hr.2 fun h => hrep (hreported.mpr h)⟩
  cases c with
  | outside => exact fun hrep => by rw [hcur]; exact h fun hr => hrep (hreported.mpr hr)
  | checking p =>
    refine ⟨hready h.1, fun room hroom => ?_⟩
    rw [hcur, hconfig]
    exact h.2 room hroom
  | rotating p => exact ⟨fun hr => h.1 (hreported.mp hr), by rw [hcur]; exact h.2.1, h.2.2⟩
  | taking p => exact ⟨fun hr => h.1 (hreported.mp hr), h.2⟩
  | flushing | finishing => exact hready h
  | closing | joining => exact fun hr => herr (h (hreported.mp hr))
  | truncating => exact absurd h.2.2 hjoined
  | gone =>
    rintro ⟨n, hn⟩
    rw [hreplies] at hn
    exact absurd (h ⟨n, hn⟩).2.2 hjoined

/-! ### The threads keep the shape -/

/-- Thread `t` is one of the pool. -/
def Pooled (s : System) (t : Nat) : Prop := s.inline = false ∧ t < s.config.threads

theorem Shape.pooled (h : Shape s) (hidle : s.workers t ≠ .idle) : s.Pooled t := by
  by_contra hpool
  rw [Pooled, not_and_or, Bool.not_eq_false, Nat.not_lt] at hpool
  exact hidle (h.idle t hpool)

theorem Pooled.not_joined (ht : s.Pooled t) (hexit : s.workers t ≠ .exited) :
    ¬ s.Joined := fun hjoined => hexit (hjoined ht.1 t ht.2)

/-- A step of a thread: it changes the ring, the file and its own state. -/
theorem Shape.move (h : Shape s) (ht : s.Pooled t) (hexit : s.workers t ≠ .exited)
    {w : Worker} {ring : Ring} {content : Bytes}
    (hring : ∀ slot buf, ring.bufs slot = some buf → buf.window.length = s.config.block)
    (hheld : ∀ buf, w.held = some buf → buf.window.length = s.config.block)
    (herr : s.ring.err = true → ring.err = true) :
    Shape ({ s with ring := ring, content := content }.setWorker t w) where
  valid := h.valid
  cur := h.cur
  ring := hring
  held u buf hu := by
    rcases eq_or_ne u t with rfl | hne
    · exact hheld buf (by simpa [setWorker] using hu)
    · exact h.held u buf (by simpa [setWorker, hne] using hu)
  idle u hu := by
    have hne : u ≠ t := by
      rintro rfl
      rcases hu with hu | hu
      · exact absurd ht.1 (by rw [show s.inline = true from hu]; simp)
      · exact absurd ht.2 (Nat.not_lt.mpr hu)
    simpa [setWorker, hne] using h.idle u hu
  place := h.place.mono rfl rfl rfl herr (ht.not_joined hexit)
  finished := h.finished
  sticky := h.sticky
  noPanic := h.noPanic

/-- Putting a buffer of the right size in a slot. -/
theorem Shape.ring_update (h : Shape s) {slot : Nat} {b : Option AlignedBuf}
    (hb : ∀ buf, b = some buf → buf.window.length = s.config.block) (slot' : Nat)
    (buf : AlignedBuf) (hbuf : Function.update s.ring.bufs slot b slot' = some buf) :
    buf.window.length = s.config.block := by
  rcases eq_or_ne slot' slot with rfl | hne
  · exact hb buf (by simpa using hbuf)
  · exact h.ring slot' buf (by simpa [hne] using hbuf)

/-- What a thread does at the top of its loop. -/
theorem claim_cases (s : System) (t : Nat) :
    (s.claim t = s.setWorker t .exited ∧
      (s.ring.err = true ∨ s.ring.closed = true ∧ ∀ slot < s.config.slots,
        s.ring.pending slot = none ∨ s.ring.bufs slot = none)) ∨
    (∃ slot idx buf, s.ring.pending slot = some idx ∧ s.ring.bufs slot = some buf ∧
      s.claim t = (s.setSlot slot none (some idx)).setWorker t (.writing slot idx buf)) ∨
    s.claim t = s := by
  rw [System.claim]
  by_cases herr : s.ring.err = true
  · rw [if_pos herr]
    exact .inl ⟨rfl, .inl herr⟩
  rw [if_neg herr]
  split
  · next slot hfind =>
    have hslot := find?_some hfind
    cases hpending : s.ring.pending slot with
    | none => simp [hpending] at hslot
    | some idx =>
      cases hbuf : s.ring.bufs slot with
      | none => simp [hbuf] at hslot
      | some buf => exact .inr (.inl ⟨slot, idx, buf, hpending, hbuf, rfl⟩)
  · next hfind =>
    by_cases hclosed : s.ring.closed = true
    · rw [if_pos hclosed]
      refine .inl ⟨rfl, .inr ⟨hclosed, fun slot hslot => ?_⟩⟩
      have := find?_eq_none.mp hfind slot (mem_range.mpr hslot)
      cases hpending : s.ring.pending slot with
      | none => exact .inl rfl
      | some idx => exact .inr (by simpa [hpending] using this)
    · rw [if_neg hclosed]
      exact .inr (.inr rfl)

theorem Shape.claim (h : Shape s) (ht : s.Pooled t) (hidle : s.workers t = .idle) :
    Shape (s.claim t) := by
  have hrun : s.workers t ≠ .exited := by rw [hidle]; simp
  rcases s.claim_cases t with ⟨heq, -⟩ | ⟨slot, idx, buf, -, hbuf, heq⟩ | heq
  · rw [heq]
    exact h.move ht hrun h.ring (by simp [Worker.held]) id
  · rw [heq]
    refine h.move ht hrun (h.ring_update (by simp)) ?_ id
    intro buf' hbuf'
    rw [← Option.some.inj hbuf']
    exact h.ring slot buf hbuf
  · rw [heq]
    exact h

theorem Shape.transfer (h : Shape s) {t slot idx : Nat} (answer : Answer)
    (hw : s.workers t = .writing slot idx buf) : Shape (s.transfer t slot idx buf answer) := by
  refine h.move (h.pooled (by rw [hw]; simp)) (by rw [hw]; simp) h.ring ?_ id
  intro buf' hbuf'
  rw [← Option.some.inj hbuf']
  exact h.held t buf (by rw [hw]; rfl)

theorem Shape.release (h : Shape s) {t slot : Nat} {ok : Bool}
    (hw : s.workers t = .releasing slot buf ok) : Shape (s.release t slot buf ok) := by
  have hbuf : buf.window.length = s.config.block := h.held t buf (by rw [hw]; rfl)
  refine h.move (h.pooled (by rw [hw]; simp)) (by rw [hw]; simp) (h.ring_update ?_)
    (by simp [Worker.held]) ?_
  · rintro _ ⟨⟩
    exact hbuf
  · intro herr
    show (s.ring.err || !ok) = true
    rw [herr, Bool.true_or]

/-! ### The caller keeps the shape -/

/-- The caller works: its buffer and those of the ring change. -/
theorem Core.work (h : Core s)
    (hcur : ∀ buf, s'.cur = some buf → buf.window.length = s.config.block ∧
      buf.filled ≤ s.config.block)
    (hring : ∀ slot buf, s'.ring.bufs slot = some buf → buf.window.length = s.config.block)
    (hconfig : s'.config = s.config) (hinline : s'.inline = s.inline)
    (hworkers : s'.workers = s.workers) (hreplies : s'.replies = s.replies) :
    Core s' where
  valid := by rw [hconfig]; exact h.valid
  cur := by rw [hconfig]; exact hcur
  ring := by rw [hconfig]; exact hring
  held := by rw [hconfig, hworkers]; exact h.held
  idle := by rw [hconfig, hworkers, hinline]; exact h.idle
  sticky := by rw [hreplies]; exact h.sticky
  noPanic := by rw [hreplies]; exact h.noPanic

/-- A call is over. -/
theorem Core.append_reply (h : Core s) (c : Caller) {r : Reply}
    (hsticky : s.Reported → r = .error) (hpanic : r ≠ .panic) :
    Core { s with caller := c, replies := s.replies ++ [r] } :=
  { h with
    sticky := by
      refine pairwise_append.mpr ⟨h.sticky, pairwise_singleton _ _, ?_⟩
      rintro a ha b hb rfl
      rw [mem_singleton.mp hb]
      exact hsticky ha
    noPanic := by
      intro hmem
      rcases mem_append.mp hmem with hmem | hmem
      · exact h.noPanic hmem
      · exact hpanic (mem_singleton.mp hmem).symm }

/-- No call of `finish` has returned `Ok`. -/
def Unfinished (s : System) : Prop := ∀ n, .finished n ∉ s.replies

theorem Shape.unfinished (h : Shape s) (hc : s.caller = c) (hgone : c ≠ .gone) :
    s.Unfinished :=
  fun n hn => hgone (hc.symm.trans (h.finished n hn))

theorem Unfinished.elim (h : s.Unfinished) {P : Nat → Prop} (n : Nat)
    (hn : .finished n ∈ s.replies) :
    P n :=
  absurd hn (h n)

theorem Unfinished.append (h : s.Unfinished) {r : Reply} (hr : ∀ n, r ≠ .finished n) (n : Nat) :
    .finished n ∉ s.replies ++ [r] := by
  intro hn
  rcases mem_append.mp hn with hn | hn
  · exact h n hn
  · exact hr n (mem_singleton.mp hn).symm

theorem Shape.place_at (h : Shape s) (hc : s.caller = c) : s.Place c := by
  subst hc
  exact h.place

section

variable (h : Core s) (hopen : s.Unfinished)

include h hopen

/-- A call reports an error, and the caller may go on. -/
theorem Core.reply_error : Shape (s.reply .error) where
  toCore := h.append_reply .outside (fun _ => rfl) (by simp)
  place := fun hrep => absurd (mem_append_right _ (mem_singleton.mpr rfl)) hrep
  finished n hn := absurd hn (hopen.append (by simp) n)

/-- A call succeeds, and the caller may go on. -/
theorem Core.reply_ok (hrep : ¬ s.Reported)
    (hcur : s.cur ≠ none) {r : Reply} (hpanic : r ≠ .panic) (hr : ∀ n, r ≠ .finished n) :
    Shape (s.reply r) where
  toCore := h.append_reply .outside (fun hr => absurd hr hrep) hpanic
  place := fun _ => hcur
  finished n hn := absurd hn (hopen.append hr n)

/-- `finish` reports an error. -/
theorem Core.leave_error : Shape (s.leave .error) where
  toCore := h.append_reply .gone (fun _ => rfl) (by simp)
  place := fun ⟨n, hn⟩ => absurd hn (hopen.append (by simp) n)
  finished _ _ := rfl

/-- The caller moves on inside a call. -/
theorem Core.goto (hplace : s.Place c) :
    Shape { s with caller := c } where
  toCore := { h with }
  place := by cases c <;> exact hplace
  finished n hn := absurd hn (hopen n)

theorem Core.turn (hready : s.Ready) {done rest : Bytes}
    (hrest : s.Reported → rest ≠ []) : Shape (s.turn done rest) := by
  rw [System.turn]
  split_ifs with hnil
  · have hrep : ¬ s.Reported := fun hrep => hrest hrep hnil
    exact h.reply_ok hopen hrep (hready.2 hrep) (by simp) (by simp)
  · exact h.goto hopen ⟨hready, by simp⟩

end

/-- The first `available` of a turn finds how much fits. -/
theorem fill_first (hcur : s.cur = some buf)
    (hlen : buf.window.length = s.config.block) (hle : buf.filled ≤ s.config.block)
    (hroom : p.room = none) {room : Nat}
    (hmin : room = min (s.config.block - buf.filled) p.rest.length) :
    s.fill p = { s with caller := .checking ⟨p.done, p.rest, some room⟩ } := by
  simp only [System.fill, hcur]
  rw [if_neg (by omega)]
  simp only [hroom, hmin]

/-- The window of a buffer with `bytes` copied in behind what is filled. -/
def copied (buf : AlignedBuf) (bytes : Bytes) : AlignedBuf :=
  { window := buf.window.take buf.filled ++ bytes ++ buf.window.drop (buf.filled + bytes.length)
    filled := buf.filled + bytes.length }

/-- The second copies that much. -/
theorem fill_second {room : Nat} (hcur : s.cur = some buf)
    (hlen : buf.window.length = s.config.block) (hle : buf.filled ≤ s.config.block)
    (hroom : p.room = some room) (hspace : room ≤ s.config.block - buf.filled)
    (hrest : room ≤ p.rest.length) :
    s.fill p = { s with
        cur := some (copied buf (p.rest.take room))
        written := (s.written + room) % word }.turn
      (p.done ++ p.rest.take room) (p.rest.drop room) := by
  have htake : (p.rest.take room).length = room := by simp [hrest]
  simp only [System.fill, hcur]
  rw [if_neg (by omega)]
  simp only [hroom]
  rw [if_neg (by omega)]
  simp only [commit]
  rw [if_neg (by omega), copied, htake]

theorem Core.fill (h : Core s) (hopen : s.Unfinished) (hrep : ¬ s.Reported)
    (hcur : s.cur = some buf) (hfree : buf.filled < s.config.block)
    (hroom : ∀ room, p.room = some room →
      room ≤ s.config.block - buf.filled ∧ room ≤ p.rest.length) : Shape (s.fill p) := by
  obtain ⟨hlen, hle⟩ := h.cur buf hcur
  cases hp : p.room with
  | none =>
    rw [fill_first hcur hlen hle hp rfl]
    refine h.goto hopen (c := .checking _)
      ⟨⟨fun hr => absurd hr hrep, fun _ => by rw [hcur]; simp⟩, ?_⟩
    rintro room ⟨⟩
    exact ⟨buf, hcur, hfree, Nat.min_le_left _ _, Nat.min_le_right _ _⟩
  | some room =>
    obtain ⟨hspace, hrest⟩ := hroom room hp
    rw [fill_second hcur hlen hle hp hspace hrest]
    have hcore : Core { s with
        cur := some (copied buf (p.rest.take room)), written := (s.written + room) % word } := by
      refine h.work ?_ h.ring rfl rfl rfl rfl
      rintro _ ⟨⟩
      simp only [copied, length_append, length_take, length_drop]
      omega
    exact hcore.turn hopen ⟨fun hr => absurd hr hrep, fun _ => by simp⟩ fun hr => absurd hr hrep

theorem Shape.available (h : Shape s) (hc : s.caller = .checking p) :
    Shape (s.available p) := by
  have hopen := h.unfinished hc nofun
  have hplace := h.place_at hc
  rw [System.available]
  split_ifs with herr
  · exact Core.reply_error { h.toCore with } hopen
  · have hrep : ¬ s.Reported := fun hr => herr (hplace.1.1 hr)
    have hcur := hplace.1.2 hrep
    split
    · next hnone => exact absurd hnone hcur
    · next buf hbuf =>
      split_ifs with hfull
      · refine h.goto hopen ⟨hrep, hcur, ?_⟩
        -- behind the first `available` of a turn the buffer is not full
        cases hroom : p.room with
        | none => rfl
        | some room =>
          obtain ⟨buf', hbuf', hlt, -⟩ := hplace.2 room hroom
          rw [hbuf] at hbuf'
          cases hbuf'
          omega
      · obtain ⟨-, hle⟩ := h.cur buf hbuf
        refine h.toCore.fill hopen hrep hbuf (by omega) fun room hroom => ?_
        obtain ⟨buf', hbuf', -, hspace⟩ := hplace.2 room hroom
        rw [hbuf] at hbuf'
        cases hbuf'
        exact hspace

/-- What `publish` does. -/
theorem publish_cases (s : System) (idx : Nat) (buf : AlignedBuf) (answer : Answer) :
    (s.inline = true ∧ answer = .done ∧
      s.publish idx buf answer =
        ((s.issue idx buf.data .done).setSlot (s.slotOf idx) (some buf) none, true)) ∨
    (∃ ring content, (s.publish idx buf answer) =
      ({ s with ring := ring, content := content }, false) ∧
      (∀ slot buf', ring.bufs slot = some buf' → s.ring.bufs slot = some buf' ∨ buf' = buf)) ∨
    (s.inline = false ∧ s.ring.err = false ∧
      s.publish idx buf answer = (s.setSlot (s.slotOf idx) (some buf) (some idx), true)) := by
  rw [publish]
  dsimp only
  by_cases hinline : s.inline = true
  · rw [if_pos hinline]
    cases answer with
    | done =>
      refine .inl ⟨hinline, rfl, ?_⟩
      simp [setSlot, issue]
    | failed k =>
      refine .inr (.inl ⟨_, _, rfl, fun slot buf' hbuf' => ?_⟩)
      rcases eq_or_ne slot (s.slotOf idx) with rfl | hne
      · exact .inr (by simpa [setSlot, eq_comm] using hbuf')
      · exact .inl (by simpa [setSlot, issue, hne] using hbuf')
  · rw [if_neg hinline]
    by_cases herr : s.ring.err = true
    · rw [if_pos herr]
      exact .inr (.inl ⟨_, _, rfl, fun slot buf' hbuf' => .inl hbuf'⟩)
    · rw [if_neg herr]
      exact .inr (.inr ⟨by simpa using hinline, by simpa using herr, rfl⟩)

theorem Shape.rotate (h : Shape s) (hc : s.caller = .rotating p) (answer : Answer) :
    Shape (s.rotate p answer) := by
  have hopen := h.unfinished hc nofun
  have hplace := h.place_at hc
  obtain ⟨hrep, hcur, hroom⟩ := hplace
  rw [System.rotate]
  split
  · next hnone => exact absurd hnone hcur
  · next buf hbuf =>
    obtain ⟨hlen, -⟩ := h.cur buf hbuf
    have hslot : ∀ b, some buf = some b → b.window.length = s.config.block := by
      rintro _ ⟨⟩
      exact hlen
    rcases { s with cur := none }.publish_cases s.curIndex buf answer with
      ⟨-, -, heq⟩ | ⟨ring, content, heq, hbufs⟩ | ⟨-, -, heq⟩
    · rw [heq]
      exact ⟨h.work (by simp [setSlot, issue]) (h.ring_update hslot) rfl rfl rfl rfl,
        ⟨hrep, hroom⟩, hopen.elim⟩
    · rw [heq]
      refine Core.reply_error (h.work (by simp) (fun slot b hb => ?_) rfl rfl rfl rfl) hopen
      rcases hbufs slot b hb with hold | rfl
      · exact h.ring slot b hold
      · exact hlen
    · rw [heq]
      exact ⟨h.work (by simp [setSlot]) (h.ring_update hslot) rfl rfl rfl rfl,
        ⟨hrep, hroom⟩, hopen.elim⟩

theorem Shape.takeSlot (h : Shape s) (hc : s.caller = .taking p) :
    Shape (s.takeSlot p) := by
  have hopen := h.unfinished hc nofun
  have hplace := h.place_at hc
  obtain ⟨hrep, hroom⟩ := hplace
  obtain ⟨-, hblock, -⟩ := SeqWriterConfig.valid_of_validate h.valid
  rw [System.takeSlot]
  split_ifs with herr
  · exact Core.reply_error { h.toCore with } hopen
  · split
    · next buf _ hbuf =>
      have hcore : Core { s.setSlot (s.slotOf s.curIndex) none none with
          cur := some { buf with filled := 0 } } := by
        refine h.work ?_ (h.ring_update (by simp)) rfl rfl rfl rfl
        rintro _ ⟨⟩
        exact ⟨h.ring _ buf hbuf, Nat.zero_le _⟩
      exact hcore.fill hopen hrep rfl hblock (by simp [hroom])
    · exact h

/-- A partial block is padded inside its buffer. -/
theorem le_nextMultiple (n : Nat) : n ≤ nextMultiple n := by
  unfold nextMultiple sector
  omega

theorem nextMultiple_le {n block : Nat} (hdvd : sector ∣ block) (h : n ≤ block) :
    nextMultiple n ≤ block := by
  obtain ⟨k, rfl⟩ := hdvd
  unfold nextMultiple sector at *
  omega

theorem Shape.handOver (h : Shape s) (hc : s.caller = .finishing) (answer : Answer) :
    Shape (s.handOver answer) := by
  have hopen := h.unfinished hc nofun
  have hplace := h.place_at hc
  have hready : s.Ready := hplace
  obtain ⟨-, -, -, hdvd⟩ := SeqWriterConfig.valid_of_validate h.valid
  rw [System.handOver]
  split
  · exact h.goto hopen hready.1
  · next buf hbuf =>
    obtain ⟨hlen, hle⟩ := h.cur buf hbuf
    have hpad := nextMultiple_le hdvd hle
    have hpad' := le_nextMultiple buf.filled
    dsimp only
    split_ifs with hpos hshort
    · omega
    · have hlen' : (padTo buf (nextMultiple buf.filled)).window.length = s.config.block := by
        simp only [padTo, length_append, length_take, length_replicate, length_drop]
        omega
      have hslot : ∀ b, some (padTo buf (nextMultiple buf.filled)) = some b →
          b.window.length = s.config.block := by
        rintro _ ⟨⟩
        exact hlen'
      rcases { s with cur := none }.publish_cases s.curIndex (padTo buf (nextMultiple buf.filled))
        answer with ⟨-, -, heq⟩ | ⟨ring, content, heq, hbufs⟩ | ⟨-, herr, heq⟩
      · rw [heq]
        refine ⟨h.work (by simp [setSlot, issue]) (h.ring_update hslot) rfl rfl rfl rfl,
          ?_, hopen.elim⟩
        exact hready.1
      · rw [heq]
        refine Core.leave_error (h.work (by simp) (fun slot b hb => ?_) rfl rfl rfl rfl) hopen
        rcases hbufs slot b hb with hold | rfl
        · exact h.ring slot b hold
        · exact hlen'
      · rw [heq]
        refine ⟨h.work (by simp [setSlot]) (h.ring_update hslot) rfl rfl rfl rfl, ?_, hopen.elim⟩
        exact hready.1
    · refine ⟨h.work (by simp [setSlot]) (h.ring_update ?_) rfl rfl rfl rfl, hready.1, hopen.elim⟩
      rintro _ ⟨⟩
      exact hlen

theorem joined_iff (s : System) : s.joined = true ↔ s.Joined := by
  cases hinline : s.inline <;> simp [joined, Joined, hinline]

theorem Shape.checkJoined (h : Shape s) (hc : s.caller = .joining) (hjoined : s.joined = true) :
    Shape s.checkJoined := by
  have hopen := h.unfinished hc nofun
  have hplace := h.place_at hc
  rw [System.checkJoined]
  split_ifs with herr
  · exact Core.leave_error { h.toCore with } hopen
  · exact h.goto hopen (c := .truncating)
      ⟨fun hr => herr (hplace hr), by simpa using herr, s.joined_iff.mp hjoined⟩

theorem Shape.setLen (h : Shape s) (hc : s.caller = .truncating) (answer : Answer) :
    Shape (s.setLen answer) := by
  have hopen := h.unfinished hc nofun
  have hplace := h.place_at hc
  obtain ⟨hrep, herr, hjoined⟩ := hplace
  have hcore : Core { s with content := resize s.content s.written } := { h.toCore with }
  cases answer with
  | done =>
    refine ⟨hcore.append_reply .gone (fun hr => absurd hr hrep) (by simp), ?_, fun _ _ => rfl⟩
    intro _
    refine ⟨fun hr => ?_, herr, hjoined⟩
    rcases mem_append.mp hr with hr | hr
    · exact hrep hr
    · simp at hr
  | failed k =>
    cases k with
    | zero => exact h.leave_error hopen
    | succ k => exact hcore.leave_error hopen

/-- A guarded call finds a buffer, or an error. -/
theorem Shape.ready_of_guarded (h : Shape s) (hc : s.caller = .outside) {c : Call}
    (hg : s.guarded (.call c) = true) : s.Ready ∧ (s.Reported → c ≠ .write []) := by
  have hplace := h.place_at hc
  simp only [guarded, Bool.and_eq_true, Bool.or_eq_true, Bool.not_eq_true',
    contains_eq_mem, decide_eq_false_iff_not, decide_eq_true_eq] at hg
  rcases hg.1 with hrep | ⟨herr, hne⟩
  · exact ⟨⟨fun hr => absurd hr hrep, hplace⟩, fun hr => absurd hr hrep⟩
  · exact ⟨⟨fun _ => herr, hplace⟩, fun _ => hne⟩

theorem Shape.call (h : Shape s) (hc : s.caller = .outside) {c : Call}
    (hg : s.guarded (.call c) = true) : Shape (s.call c) := by
  have hopen := h.unfinished hc nofun
  obtain ⟨hready, hne⟩ := h.ready_of_guarded hc hg
  cases c with
  | write data => exact h.turn hopen hready fun hr hnil => hne hr (by rw [hnil])
  | flush => exact h.goto hopen (c := .flushing) hready
  | finish => exact h.goto hopen (c := .finishing) hready

theorem Shape.advance (h : Shape s) {answer : Answer} (hs : s.advance answer = some s') :
    Shape s' := by
  rw [System.advance] at hs
  split at hs
  · cases hs
  · next p hc => cases hs; exact h.available hc
  · next p hc => cases hs; exact h.rotate hc answer
  · next p hc => cases hs; exact h.takeSlot hc
  · next hc =>
    cases hs
    have hopen := h.unfinished hc nofun
    have hplace := h.place_at hc
    split_ifs with herr
    · exact Core.reply_error { h.toCore with } hopen
    · have hrep : ¬ s.Reported := fun hr => herr (hplace.1 hr)
      exact h.reply_ok hopen hrep (hplace.2 hrep) (by simp) (by simp)
  · next hc => cases hs; exact h.handOver hc answer
  · next hc =>
    cases hs
    have hplace := h.place_at hc
    exact ⟨{ h.toCore with }, hplace, (h.unfinished hc nofun).elim⟩
  · next hc =>
    split_ifs at hs with hjoined
    cases hs
    exact h.checkJoined hc hjoined
  · next hc => cases hs; exact h.setLen hc answer
  · cases hs

/-- What an event is. -/
theorem step_cases {e : Event} (hs : s.step e = some s') :
    (∃ t, e = .claim t ∧ s.Pooled t ∧ s.workers t = .idle ∧ s' = s.claim t) ∨
    (∃ t slot idx buf answer, s.workers t = .writing slot idx buf ∧
      s' = s.transfer t slot idx buf answer) ∨
    (∃ t slot buf ok, s.workers t = .releasing slot buf ok ∧ s' = s.release t slot buf ok) ∨
    (∃ c, e = .call c ∧ s.caller = .outside ∧ s' = s.call c) ∨
    ∃ answer, s.advance answer = some s' := by
  cases e with
  | claim t =>
    simp only [step] at hs
    split_ifs at hs with hpool
    split at hs
    · next hidle => cases hs; exact .inl ⟨t, rfl, ⟨hpool.2, hpool.1⟩, hidle, rfl⟩
    · cases hs
  | transfer t answer =>
    simp only [step] at hs
    split at hs
    · next slot idx buf hw => cases hs; exact .inr (.inl ⟨t, slot, idx, buf, answer, hw, rfl⟩)
    · cases hs
  | release t =>
    simp only [step] at hs
    split at hs
    · next slot buf ok hw => cases hs; exact .inr (.inr (.inl ⟨t, slot, buf, ok, hw, rfl⟩))
    · cases hs
  | call c =>
    simp only [step] at hs
    split at hs
    · next hc => cases hs; exact .inr (.inr (.inr (.inl ⟨c, rfl, hc, rfl⟩)))
    · cases hs
  | advance answer => exact .inr (.inr (.inr (.inr ⟨answer, hs⟩)))

theorem Shape.step (h : Shape s) {e : Event} (hg : s.guarded e = true) (hs : s.step e = some s') :
    Shape s' := by
  rcases step_cases hs with ⟨t, -, hpool, hidle, rfl⟩ | ⟨t, slot, idx, buf, answer, hw, rfl⟩ |
    ⟨t, slot, buf, ok, hw, rfl⟩ | ⟨c, rfl, hc, rfl⟩ | ⟨answer, hadv⟩
  · exact h.claim hpool hidle
  · exact h.transfer answer hw
  · exact h.release hw
  · exact h.call hc hg
  · exact h.advance hadv

theorem Shape.create {inline : Bool} {config : SeqWriterConfig}
    (h : createOn inline config = .ok s) : Shape s := by
  rw [createOn] at h
  split at h
  · cases h
  · next hvalid =>
    cases h
    exact
      { valid := hvalid
        cur := by rintro _ ⟨⟩; simp [newBuf]
        ring := by
          intro slot buf hbuf
          rcases eq_or_ne slot 0 with rfl | hne
          · simp at hbuf
          · simp only [ne_eq, hne, not_false_eq_true, Function.update_of_ne,
              Option.some.injEq] at hbuf
            rw [← hbuf]
            simp [newBuf]
        held := by simp [Worker.held]
        idle := fun _ _ => rfl
        sticky := Pairwise.nil
        noPanic := by simp
        place := by simp [Place]
        finished := by simp }

end System
end Rsl.Storage.SeqWrite
