import Rsl.Storage.SeqRead

/-!
# The sequential reader returns the file in order

The invariant of the ring says where each claimed block is: with the thread that claimed it, or in
its slot, and there only if it is one of the `slots` blocks from the caller's on. Every claim that
is guarded keeps it (`RingInv.claim`), because a slot that is free for a block is free of the block
`slots` before it. The caller then finds the block it wants and no other, and its bytes extend what
has been returned.
-/

set_option autoImplicit false

namespace Rsl.Storage.SeqRead

open Function List

open Wire (Bytes)

/-- Two numbers of one slot that are less than one round apart are the same. -/
theorem eq_of_mod_eq {a b n : Nat} (hmod : a % n = b % n) (hle : a ≤ b) (hlt : b < a + n) :
    a = b := by
  have hzero : (b - a) % n = 0 := Nat.sub_mod_eq_zero_of_mod_eq hmod.symm
  rw [Nat.mod_eq_of_lt (by omega)] at hzero
  omega

theorem eq_of_window {a b low n : Nat} (hmod : a % n = b % n) (ha : low ≤ a) (ha' : a < low + n)
    (hb : low ≤ b) (hb' : b < low + n) : a = b := by
  rcases Nat.le_total a b with hle | hle
  · exact eq_of_mod_eq hmod hle (by omega)
  · exact (eq_of_mod_eq hmod.symm hle (by omega)).symm

/-- The block a thread has claimed and not yet published. -/
def Worker.claimed : Worker → Option Nat
  | .idle => none
  | .waiting idx => some idx
  | .filling idx _ => some idx
  | .exited => none

namespace System

/-- The bytes of a block, as the file had them when the reader was opened. -/
def blockAt (s : System) (idx : Nat) : Bytes :=
  (s.file.drop (s.base + idx * s.config.block)).take s.config.block

/-- A buffer that holds a block, all of it. -/
structure Holds (s : System) (buf : AlignedBuf) (idx : Nat) : Prop where
  data : buf.data = s.blockAt idx
  filled : buf.filled = buf.data.length

/-- The first block whose buffer the caller has not given back. -/
def low (s : System) : Nat := if s.reader.cur.isSome then s.ring.head - 1 else s.ring.head

/-- Where every block is. -/
structure RingInv (s : System) : Prop where
  slots_pos : 0 < s.config.slots
  running : s.ring.stop = false
  noErr : s.ring.err = false
  head_le : s.ring.head ≤ s.ring.next
  next_le : s.ring.next ≤ s.ring.blocks
  outside : ∀ t, s.config.threads ≤ t → (s.workers t).claimed = none
  claimed : ∀ t idx, (s.workers t).claimed = some idx → s.ring.head ≤ idx ∧ idx < s.ring.next
  distinct : ∀ t u idx, (s.workers t).claimed = some idx → (s.workers u).claimed = some idx → t = u
  -- No two threads wait for one slot: what the guard is for.
  alone : ∀ t u i j, s.workers t = .waiting i → s.workers u = .waiting j →
    s.slotOf i = s.slotOf j → i = j
  covered : ∀ idx, s.ring.head ≤ idx → idx < s.ring.next →
    (∃ t, (s.workers t).claimed = some idx) ∨
      (idx < s.low + s.config.slots ∧ s.ring.ready (s.slotOf idx) = true)
  filling : ∀ t idx buf, s.workers t = .filling idx buf →
    idx < s.low + s.config.slots ∧ s.ring.bufs (s.slotOf idx) = none ∧
      s.ring.ready (s.slotOf idx) = false
  published : ∀ slot buf, s.ring.ready slot = true → s.ring.bufs slot = some buf →
    ∃ idx, s.ring.head ≤ idx ∧ idx < s.ring.next ∧ idx < s.low + s.config.slots ∧
      s.slotOf idx = slot ∧ s.Holds buf idx ∧ ∀ t, (s.workers t).claimed ≠ some idx
  current : ∀ buf, s.reader.cur = some buf →
    0 < s.ring.head ∧ s.reader.curSlot = s.slotOf (s.ring.head - 1) ∧
      s.Holds buf (s.ring.head - 1) ∧ s.ring.ready s.reader.curSlot = true ∧
      s.ring.bufs s.reader.curSlot = none

@[simp] theorem setWorker_ring (s : System) (t : Nat) (w : Worker) :
    (s.setWorker t w).ring = s.ring := rfl

theorem setWorker_workers (s : System) (t : Nat) (w : Worker) :
    (s.setWorker t w).workers = update s.workers t w := rfl

variable {s : System}

theorem low_le (s : System) : s.low ≤ s.ring.head := by
  rw [low]
  split <;> omega

theorem head_le_low (s : System) : s.ring.head ≤ s.low + 1 := by
  rw [low]
  split <;> omega

variable {s' : System} {buf : AlignedBuf} {t idx : Nat} {transfers : List Transfer}

/-- A slot that is free for a block is free of the block one round before. -/
theorem RingInv.lt_of_free (h : RingInv s) (hclaim : s.workers t = .waiting idx)
    (hready : s.ring.ready (s.slotOf idx) = false)
    (hbuf : s.ring.bufs (s.slotOf idx) = some buf) : idx < s.low + s.config.slots := by
  by_contra hfar
  have hfar : s.low + s.config.slots ≤ idx := Nat.le_of_not_lt hfar
  obtain ⟨-, hnext⟩ := h.claimed t idx (by rw [hclaim]; rfl)
  have hslot : s.slotOf (idx - s.config.slots) = s.slotOf idx := by
    rw [slotOf, slotOf, ← Nat.mod_eq_sub_mod (by omega)]
  by_cases hhead : s.ring.head ≤ idx - s.config.slots
  · -- The block one round before is still out: its slot would not be free.
    have hslots := h.slots_pos
    rcases h.covered (idx - s.config.slots) hhead (by omega) with ⟨u, hu⟩ | ⟨-, hpub⟩
    · cases hw : s.workers u with
      | idle | exited => rw [hw] at hu; cases hu
      | waiting i =>
        rw [hw] at hu
        cases hu
        have := h.alone u t _ idx hw hclaim hslot
        omega
      | filling i b =>
        rw [hw] at hu
        cases hu
        obtain ⟨-, hnone, -⟩ := h.filling u _ b hw
        rw [hslot, hbuf] at hnone
        cases hnone
    · rw [hslot, hready] at hpub
      cases hpub
  · -- Or it is the caller's current block.
    have hlow := head_le_low s
    cases hcur : s.reader.cur with
    | none =>
      have : s.low = s.ring.head := by simp [low, hcur]
      omega
    | some b =>
      obtain ⟨-, hcurSlot, -, hcurReady, -⟩ := h.current b hcur
      have : idx - s.config.slots = s.ring.head - 1 := by omega
      rw [hcurSlot, ← this, hslot, hready] at hcurReady
      cases hcurReady

/-- What a thread does after a step of thread `t` is what it did before, or the step was its own. -/
theorem update_cases {α : Type} {f : Nat → α} {w v : α} {u : Nat} (h : update f t w u = v) :
    u = t ∧ w = v ∨ u ≠ t ∧ f u = v := by
  by_cases hu : u = t
  · rw [hu, update_self] at h
    exact .inl ⟨hu, h⟩
  · rw [update_of_ne hu] at h
    exact .inr ⟨hu, h⟩

theorem claimed_cases {workers : Nat → Worker} {w : Worker} {u : Nat} {c : Option Nat}
    (h : (update workers t w u).claimed = c) :
    u = t ∧ w.claimed = c ∨ u ≠ t ∧ (workers u).claimed = c := by
  rcases update_cases (Eq.refl (update workers t w u)) with ⟨hu, hw⟩ | ⟨hu, hw⟩
  · exact .inl ⟨hu, hw ▸ h⟩
  · exact .inr ⟨hu, hw ▸ h⟩

theorem claimed_same {w : Worker} (hw : w.claimed = (s.workers t).claimed) (u : Nat) :
    (update s.workers t w u).claimed = (s.workers u).claimed := by
  rcases claimed_cases (Eq.refl (update s.workers t w u).claimed) with ⟨rfl, h⟩ | ⟨-, h⟩
  · rw [← h, hw]
  · exact h.symm

/-- A thread without a claim moves on without one. -/
theorem RingInv.setFree (h : RingInv s) {t : Nat} {w : Worker}
    (hold : (s.workers t).claimed = none) (hw : w.claimed = none) : RingInv (s.setWorker t w) := by
  have hsame := claimed_same (hw.trans hold.symm)
  -- Threads that wait or fill have a claim, so they are not `t`.
  have hother : ∀ u v, update s.workers t w u = v → v.claimed ≠ none →
      s.workers u = v := by
    intro u v hu hv
    rcases update_cases hu with ⟨-, rfl⟩ | ⟨-, hu⟩
    · exact absurd hw hv
    · exact hu
  exact
    { slots_pos := h.slots_pos, running := h.running, noErr := h.noErr, head_le := h.head_le
      next_le := h.next_le
      outside := fun u hu => (hsame u).trans (h.outside u hu)
      claimed := fun u i hu => h.claimed u i ((hsame u).symm.trans hu)
      distinct := fun u v i hu hv =>
        h.distinct u v i ((hsame u).symm.trans hu) ((hsame v).symm.trans hv)
      alone := fun u v i j hu hv =>
        h.alone u v i j (hother u _ hu (Option.some_ne_none i))
          (hother v _ hv (Option.some_ne_none j))
      covered := fun i hlo hhi => (h.covered i hlo hhi).imp_left fun ⟨u, hu⟩ =>
        ⟨u, (hsame u).trans hu⟩
      filling := fun u i b hu => h.filling u i b (hother u _ hu (Option.some_ne_none i))
      published := fun slot b hr hb => by
        obtain ⟨i, hlo, hhi, hlt, hi, hdata, hfree⟩ := h.published slot b hr hb
        exact ⟨i, hlo, hhi, hlt, hi, ⟨hdata.data, hdata.filled⟩,
          fun u => (hsame u).trans_ne (hfree u)⟩
      current := fun b hb => by
        obtain ⟨hpos, hslot, hdata, hr, hnone⟩ := h.current b hb
        exact ⟨hpos, hslot, ⟨hdata.data, hdata.filled⟩, hr, hnone⟩ }

/-- A buffer that was taken from one slot is gone from there, and the others stay. -/
theorem update_none {bufs : Nat → Option AlignedBuf} {slot : Nat} (taken : Nat)
    (h : bufs slot = none) :
    update bufs taken none slot = none := by
  rcases update_cases (Eq.refl (update bufs taken none slot)) with ⟨-, hnone⟩ | ⟨-, hsame⟩
  · exact hnone.symm
  · rw [← hsame, h]

/-- A thread takes the buffer of the free slot it waited for. -/
theorem RingInv.take (h : RingInv s) (hclaim : s.workers t = .waiting idx)
    (hready : s.ring.ready (s.slotOf idx) = false) (hbuf : s.ring.bufs (s.slotOf idx) = some buf) :
    RingInv ({ s with
      ring := { s.ring with bufs := update s.ring.bufs (s.slotOf idx) none } }.setWorker t
        (.filling idx buf)) := by
  have hsame :=
    claimed_same (show (Worker.filling idx buf).claimed = (s.workers t).claimed by rw [hclaim]; rfl)
  have hwaiting : ∀ u i, update s.workers t (.filling idx buf) u = .waiting i →
      s.workers u = .waiting i := by
    intro u i hu
    obtain ⟨-, ⟨⟩⟩ | ⟨-, hu⟩ := update_cases hu
    exact hu
  refine
    { slots_pos := h.slots_pos, running := h.running, noErr := h.noErr, head_le := h.head_le
      next_le := h.next_le
      outside := fun u hu => (hsame u).trans (h.outside u hu)
      claimed := fun u i hu => h.claimed u i ((hsame u).symm.trans hu)
      distinct := fun u v i hu hv =>
        h.distinct u v i ((hsame u).symm.trans hu) ((hsame v).symm.trans hv)
      alone := fun u v i j hu hv => h.alone u v i j (hwaiting u i hu) (hwaiting v j hv)
      covered := fun i hlo hhi => (h.covered i hlo hhi).imp_left fun ⟨u, hu⟩ =>
        ⟨u, (hsame u).trans hu⟩
      filling := ?_, published := ?_, current := ?_ }
  · intro u i b hu
    obtain ⟨-, ⟨⟩⟩ | ⟨-, hu⟩ := update_cases hu
    · exact ⟨h.lt_of_free hclaim hready hbuf, update_self .., hready⟩
    · obtain ⟨hlt, hnone, hnot⟩ := h.filling u i b hu
      exact ⟨hlt, update_none _ hnone, hnot⟩
  · intro slot b hr hb
    have hslot : slot ≠ s.slotOf idx := by
      rintro rfl
      rw [setWorker_ring, hready] at hr
      cases hr
    obtain ⟨i, hlo, hhi, hlt, hi, hdata, hfree⟩ :=
      h.published slot b hr ((update_of_ne hslot ..).symm.trans hb)
    exact ⟨i, hlo, hhi, hlt, hi, ⟨hdata.data, hdata.filled⟩, fun u => (hsame u).trans_ne (hfree u)⟩
  · intro b hcur
    obtain ⟨hpos, hslot, hdata, hr, hnone⟩ := h.current b hcur
    exact ⟨hpos, hslot, ⟨hdata.data, hdata.filled⟩, hr, update_none _ hnone⟩

/-- A turn of the waiting loop. -/
theorem RingInv.tryTake (h : RingInv s) (hclaim : s.workers t = .waiting idx) :
    RingInv (s.tryTake t idx) := by
  have hstay : s.setWorker t (.waiting idx) = s := by
    rw [setWorker, ← hclaim, update_eq_self]
  have hgo : (s.ring.stop || s.ring.err) = false := by rw [h.running, h.noErr]; rfl
  simp only [System.tryTake, hgo, Bool.false_eq_true, if_false]
  split
  · next hready hbuf => exact h.take hclaim hready hbuf
  · rwa [hstay]

theorem not_awaited (h : RingInv s) {idx : Nat} (hguard : s.awaited idx = false) {u j : Nat}
    (hu : s.workers u = .waiting j) : s.slotOf j ≠ s.slotOf idx := by
  intro hslot
  have hthread : u < s.config.threads := by
    by_contra hge
    have := h.outside u (Nat.le_of_not_lt hge)
    rw [hu] at this
    cases this
  have : s.awaited idx = true :=
    any_eq_true.mpr ⟨u, mem_range.mpr hthread, by simp [hu, hslot]⟩
  rw [hguard] at this
  cases this

/-- A thread claims the next block, and has yet to look at its slot. -/
theorem RingInv.claimNext (h : RingInv s) {t : Nat} (ht : t < s.config.threads)
    (hidle : s.workers t = .idle) (hnext : s.ring.next < s.ring.blocks)
    (hguard : s.awaited s.ring.next = false) :
    RingInv ({ s with ring := { s.ring with next := s.ring.next + 1 } }.setWorker t
      (.waiting s.ring.next)) := by
  have hhead := h.head_le
  -- The claims are the old ones and that of `t`.
  have hclaims : ∀ u i, (update s.workers t (.waiting s.ring.next) u).claimed = some i →
      (u = t ∧ i = s.ring.next) ∨ (s.workers u).claimed = some i := by
    intro u i hu
    rcases claimed_cases hu with ⟨hut, hi⟩ | ⟨-, hu⟩
    · exact .inl ⟨hut, (Option.some.inj hi).symm⟩
    · exact .inr hu
  have hwaiting : ∀ u i, update s.workers t (.waiting s.ring.next) u = .waiting i →
      (u = t ∧ i = s.ring.next) ∨ s.workers u = .waiting i := by
    intro u i hu
    rcases update_cases hu with ⟨hut, hi⟩ | ⟨-, hu⟩
    · exact .inl ⟨hut, (Worker.waiting.inj hi).symm⟩
    · exact .inr hu
  have hkeep : ∀ u i, (s.workers u).claimed = some i →
      (update s.workers t (.waiting s.ring.next) u).claimed = some i := by
    intro u i hu
    have hut : u ≠ t := by
      rintro rfl
      rw [hidle] at hu
      cases hu
    rw [update_of_ne hut, hu]
  refine
    { slots_pos := h.slots_pos, running := h.running, noErr := h.noErr
      head_le := Nat.le_succ_of_le h.head_le, next_le := hnext
      outside := ?_, claimed := ?_, distinct := ?_, alone := ?_, covered := ?_, filling := ?_
      published := ?_, current := fun b hb => ?_ }
  · intro u hu
    have hut : u ≠ t := by rintro rfl; exact absurd ht (Nat.not_lt.mpr hu)
    rw [setWorker_workers, update_of_ne hut]
    exact h.outside u hu
  · intro u i hu
    rcases hclaims u i hu with ⟨-, rfl⟩ | hold
    · exact ⟨hhead, Nat.lt_succ_self _⟩
    · have := h.claimed u i hold
      exact ⟨this.1, Nat.lt_succ_of_lt this.2⟩
  · intro u v i hu hv
    rcases hclaims u i hu with ⟨rfl, rfl⟩ | hu' <;> rcases hclaims v _ hv with ⟨rfl, hi⟩ | hv'
    · rfl
    · exact absurd (h.claimed v _ hv').2 (Nat.lt_irrefl _)
    · exact absurd (hi ▸ (h.claimed u _ hu').2) (Nat.lt_irrefl _)
    · exact h.distinct u v i hu' hv'
  · intro u v i j hu hv hslot
    rcases hwaiting u i hu with ⟨rfl, rfl⟩ | hu' <;> rcases hwaiting v j hv with ⟨rfl, rfl⟩ | hv'
    · rfl
    · exact absurd hslot.symm (not_awaited h hguard hv')
    · exact absurd hslot (not_awaited h hguard hu')
    · exact h.alone u v i j hu' hv' hslot
  · intro i hlo hhi
    by_cases hi : i = s.ring.next
    · refine .inl ⟨t, ?_⟩
      rw [setWorker_workers, update_self, hi]
      rfl
    · have hlt : i < s.ring.next := by
        have : i < s.ring.next + 1 := hhi
        omega
      exact (h.covered i hlo hlt).imp_left fun ⟨u, hu⟩ => ⟨u, hkeep u i hu⟩
  · intro u i b hu
    obtain ⟨-, ⟨⟩⟩ | ⟨-, hu⟩ := update_cases hu
    exact h.filling u i b hu
  · intro slot b hr hb
    obtain ⟨i, hlo, hhi, hlt, hi, hdata, hfree⟩ := h.published slot b hr hb
    refine ⟨i, hlo, Nat.lt_succ_of_lt hhi, hlt, hi, ⟨hdata.data, hdata.filled⟩, ?_⟩
    intro u hu
    rcases hclaims u i hu with ⟨-, rfl⟩ | hold
    · exact absurd hhi (Nat.lt_irrefl _)
    · exact hfree u hold
  · obtain ⟨hpos, hslot, hdata, hr, hnone⟩ := h.current b hb
    exact ⟨hpos, hslot, ⟨hdata.data, hdata.filled⟩, hr, hnone⟩

theorem tryTake_setWorker (s : System) (t idx : Nat) (w : Worker) :
    (s.setWorker t w).tryTake t idx = s.tryTake t idx := by
  simp only [System.tryTake, setWorker, slotOf, update_idem]

/-- The critical section at the top of `fill_loop`. -/
theorem RingInv.claim (h : RingInv s) {t : Nat} (ht : t < s.config.threads)
    (hidle : s.workers t = .idle)
    (hguard : s.ring.next < s.ring.blocks → s.awaited s.ring.next = false) :
    RingInv (s.claim t) := by
  have hgo : (s.ring.stop || s.ring.err) = false := by rw [h.running, h.noErr]; rfl
  simp only [System.claim, hgo, Bool.false_or, decide_eq_true_eq]
  split
  · exact h.setFree (by rw [hidle]; rfl) rfl
  · next hnext =>
    have hnext : s.ring.next < s.ring.blocks := Nat.lt_of_not_le hnext
    rw [← tryTake_setWorker _ _ _ (.waiting s.ring.next)]
    apply (h.claimNext ht hidle hnext (hguard hnext)).tryTake
    rw [setWorker_workers, update_self]

/-- A thread puts its block into the slot. -/
theorem RingInv.put (h : RingInv s) {old buf : AlignedBuf}
    (hfill : s.workers t = .filling idx old) (hbuf : s.Holds buf idx) :
    RingInv ({ s with
      ring := { s.ring with
        bufs := update s.ring.bufs (s.slotOf idx) (some buf)
        ready := update s.ring.ready (s.slotOf idx) true } }.setWorker t .idle) := by
  obtain ⟨hlt, hnone, hnot⟩ := h.filling t idx old hfill
  have hmine : (s.workers t).claimed = some idx := by rw [hfill]; rfl
  obtain ⟨hlo, hhi⟩ := h.claimed t idx hmine
  have hlow := low_le s
  have hclaims : ∀ u i, (update s.workers t .idle u).claimed = some i →
      u ≠ t ∧ (s.workers u).claimed = some i := by
    intro u i hu
    obtain ⟨-, ⟨⟩⟩ | hu := claimed_cases hu
    exact hu
  have hother : ∀ u v, update s.workers t .idle u = v → v ≠ .idle →
      u ≠ t ∧ s.workers u = v := by
    intro u v hu hv
    exact (update_cases hu).resolve_left fun hself => hv hself.2.symm
  refine
    { slots_pos := h.slots_pos, running := h.running, noErr := h.noErr, head_le := h.head_le
      next_le := h.next_le
      outside := ?_
      claimed := fun u i hu => h.claimed u i (hclaims u i hu).2
      distinct := fun u v i hu hv => h.distinct u v i (hclaims u i hu).2 (hclaims v i hv).2
      alone := fun u v i j hu hv =>
        h.alone u v i j (hother u _ hu (by simp)).2 (hother v _ hv (by simp)).2
      covered := ?_, filling := ?_, published := ?_, current := ?_ }
  · intro u hu
    rcases claimed_cases (Eq.refl (update s.workers t .idle u).claimed) with ⟨-, hw⟩ | ⟨-, hw⟩
    · exact hw.symm
    · exact hw.symm.trans (h.outside u hu)
  · intro i hi hi'
    have hready : s.ring.ready (s.slotOf i) = true →
        update s.ring.ready (s.slotOf idx) true (s.slotOf i) = true := by
      intro hr
      by_cases hslot : s.slotOf i = s.slotOf idx
      · rw [hslot, update_self]
      · rw [update_of_ne hslot, hr]
    rcases h.covered i hi hi' with ⟨u, hu⟩ | ⟨hi'', hr⟩
    · by_cases hut : u = t
      · obtain rfl : i = idx := by
          rw [hut, hmine] at hu
          exact (Option.some.inj hu).symm
        exact .inr ⟨hlt, update_self ..⟩
      · refine .inl ⟨u, ?_⟩
        rw [setWorker_workers, update_of_ne hut]
        exact hu
    · exact .inr ⟨hi'', hready hr⟩
  · intro u i b hu
    obtain ⟨hut, hu⟩ := hother u _ hu (by simp)
    obtain ⟨hilt, hinone, hinot⟩ := h.filling u i b hu
    have hclaimed : (s.workers u).claimed = some i := by rw [hu]; rfl
    have hslot : s.slotOf i ≠ s.slotOf idx := by
      intro hslot
      obtain rfl : i = idx := eq_of_window hslot
        (Nat.le_trans hlow (h.claimed u i hclaimed).1) hilt (Nat.le_trans hlow hlo) hlt
      exact hut (h.distinct u t i hclaimed hmine)
    exact ⟨hilt, (update_of_ne hslot ..).trans hinone,
      (update_of_ne hslot ..).trans hinot⟩
  · intro slot b hr hb
    by_cases hslot : slot = s.slotOf idx
    · subst hslot
      have hb : update s.ring.bufs (s.slotOf idx) (some buf) (s.slotOf idx) = some b := hb
      rw [update_self] at hb
      cases hb
      refine ⟨idx, hlo, hhi, hlt, rfl, ⟨hbuf.data, hbuf.filled⟩, fun u hu => ?_⟩
      obtain ⟨hut, hu⟩ := hclaims u idx hu
      exact hut (h.distinct u t idx hu hmine)
    · obtain ⟨i, hilo, hihi, hilt, hi, hdata, hfree⟩ := h.published slot b
        ((update_of_ne hslot ..).symm.trans hr)
        ((update_of_ne hslot ..).symm.trans hb)
      exact ⟨i, hilo, hihi, hilt, hi, ⟨hdata.data, hdata.filled⟩,
        fun u hu => hfree u (hclaims u i hu).2⟩
  · intro b hcur
    obtain ⟨hpos, hslot, hdata, hr, hn⟩ := h.current b hcur
    have hne : s.reader.curSlot ≠ s.slotOf idx := by
      intro heq
      rw [heq, hnot] at hr
      cases hr
    exact ⟨hpos, hslot, ⟨hdata.data, hdata.filled⟩, (update_of_ne hne ..).trans hr,
      (update_of_ne hne ..).trans hn⟩

/-- `read_at` fills the buffer or reaches the end of the file. -/
theorem readAt_eq_ok {size offset len n m : Nat}
    (h : readAt size offset len n transfers = some (.ok m)) (hn : n ≤ len)
    (hsize : offset + n ≤ size) : m = min len (size - offset) := by
  induction transfers generalizing n with
  | nil =>
    rw [readAt] at h
    split at h
    · cases h
    · cases h
      omega
  | cons transfer more ih =>
    rw [readAt.eq_def] at h
    by_cases hfull : n < len
    · simp only [if_pos hfull] at h
      split at h
      · next hallowed =>
        cases transfer with
        | interrupted => exact ih h hn hsize
        | failed => cases h
        | bytes k =>
          simp only [Transfer.allowed, Bool.and_eq_true, Bool.or_eq_true, decide_eq_true_eq]
            at hallowed
          obtain ⟨⟨hroom, hthere⟩, hwhy⟩ := hallowed
          cases k with
          | zero =>
            -- Nothing was transferred: the end of the file.
            cases h
            omega
          | succ k =>
            simp only at h
            split at h
            · cases h
              omega
            · exact ih h (by omega) (by omega)
      · cases h
    · simp only [if_neg hfull] at h
      cases h
      omega

/-- Without a failed transfer there is no error. -/
theorem readAt_ne_error {size offset len n : Nat} (hok : transfers.contains .failed = false) :
    readAt size offset len n transfers ≠ some (.error ()) := by
  induction transfers generalizing n with
  | nil =>
    rw [readAt]
    split <;> simp
  | cons transfer more ih =>
    rw [contains_cons, Bool.or_eq_false_iff] at hok
    rw [readAt.eq_def]
    by_cases hfull : n < len
    · simp only [if_pos hfull]
      split
      · cases transfer with
        | interrupted => exact ih hok.2
        | failed => exact absurd hok.1 (by decide)
        | bytes k =>
          cases k with
          | zero => simp
          | succ k =>
            simp only
            split
            · simp
            · exact ih hok.2
      · simp
    · simp [if_neg hfull]

/-- The caller gives its buffer back, which frees the slot for the next round. -/
theorem RingInv.giveBack (h : RingInv s) : RingInv s.giveBack := by
  rw [System.giveBack]
  cases hcur : s.reader.cur with
  | none => exact h
  | some buf =>
    obtain ⟨hpos, hslot, -, hready, -⟩ := h.current buf hcur
    have hlow : s.low = s.ring.head - 1 := by simp [low, hcur]
    have hlow' : s.low ≤ s.ring.head := low_le s
    refine
      { slots_pos := h.slots_pos, running := h.running, noErr := h.noErr, head_le := h.head_le
        next_le := h.next_le, outside := h.outside, claimed := h.claimed, distinct := h.distinct
        alone := h.alone, covered := ?_, filling := ?_, published := ?_
        current := fun b hb => nomatch hb }
    · intro i hlo hhi
      refine (h.covered i hlo hhi).imp_right fun ⟨hlt, hr⟩ => ⟨?_, ?_⟩
      · exact Nat.lt_of_lt_of_le hlt (Nat.add_le_add_right hlow' _)
      · -- A block of the window is not the one given back.
        have hne : s.slotOf i ≠ s.reader.curSlot := by
          rw [hslot]
          intro heq
          have hi : s.ring.head ≤ i := hlo
          have := eq_of_mod_eq heq.symm (by omega) (by omega)
          omega
        exact (update_of_ne hne ..).trans hr
    · intro u i b hu
      obtain ⟨hlt, hnone, hnot⟩ := h.filling u i b hu
      have hne : s.slotOf i ≠ s.reader.curSlot := by
        intro heq
        rw [heq, hready] at hnot
        cases hnot
      exact ⟨Nat.lt_of_lt_of_le hlt (Nat.add_le_add_right hlow' _),
        (update_of_ne hne ..).trans hnone, (update_of_ne hne ..).trans hnot⟩
    · intro slot b hr hb
      have hne : slot ≠ s.reader.curSlot := by
        rintro rfl
        have hr : update s.ring.ready s.reader.curSlot false s.reader.curSlot = true := hr
        rw [update_self] at hr
        cases hr
      obtain ⟨i, hlo, hhi, hlt, hi, hdata, hfree⟩ := h.published slot b
        ((update_of_ne hne ..).symm.trans hr) ((update_of_ne hne ..).symm.trans hb)
      exact ⟨i, hlo, hhi, Nat.lt_of_lt_of_le hlt (Nat.add_le_add_right hlow' _), hi,
        ⟨hdata.data, hdata.filled⟩, hfree⟩

section

variable (h : RingInv s) (hcur : s.reader.cur = none)
  (hready : s.ring.ready (s.slotOf s.ring.head) = true)
  (hbuf : s.ring.bufs (s.slotOf s.ring.head) = some buf)

include h hcur hready hbuf

/-- The block in the slot the caller waits for is the block it wants. -/
theorem RingInv.head_published :
    s.ring.head < s.ring.next ∧ s.Holds buf s.ring.head ∧
      ∀ t, (s.workers t).claimed ≠ some s.ring.head := by
  have hlow : s.low = s.ring.head := by simp [low, hcur]
  obtain ⟨i, hlo, hhi, hlt, hi, hdata, hfree⟩ := h.published _ buf hready hbuf
  obtain rfl : s.ring.head = i := eq_of_mod_eq hi.symm hlo (hlow ▸ hlt)
  exact ⟨hhi, hdata, hfree⟩

/-- The caller takes the next block. -/
theorem RingInv.takeHead (pos skip : Nat) :
    RingInv { s with
      ring := { s.ring with
        bufs := update s.ring.bufs (s.slotOf s.ring.head) none
        head := s.ring.head + 1 }
      reader := { s.reader with
        cur := some buf, curSlot := s.slotOf s.ring.head, pos := pos, skip := skip } } := by
  have hlow : s.low = s.ring.head := by simp [low, hcur]
  obtain ⟨hnext, hdata, hfree⟩ := h.head_published hcur hready hbuf
  refine
    { slots_pos := h.slots_pos, running := h.running, noErr := h.noErr, head_le := hnext
      next_le := h.next_le, outside := h.outside, claimed := ?_, distinct := h.distinct
      alone := h.alone, covered := ?_, filling := ?_, published := ?_, current := ?_ }
  · intro u i hu
    obtain ⟨hlo, hhi⟩ := h.claimed u i hu
    have hne : s.ring.head ≠ i := by rintro rfl; exact hfree u hu
    exact ⟨Nat.lt_of_le_of_ne hlo hne, hhi⟩
  · intro i hlo hhi
    refine (h.covered i (Nat.le_of_succ_le hlo) hhi).imp_right fun ⟨hlt, hr⟩ => ⟨?_, hr⟩
    exact hlow ▸ hlt
  · intro u i b hu
    obtain ⟨hlt, hnone, hnot⟩ := h.filling u i b hu
    refine ⟨hlow ▸ hlt, ?_, hnot⟩
    exact update_none _ hnone
  · intro slot b hr hb
    have hne : slot ≠ s.slotOf s.ring.head := by
      rintro rfl
      have hb : update s.ring.bufs (s.slotOf s.ring.head) none (s.slotOf s.ring.head)
          = some b := hb
      rw [update_self] at hb
      cases hb
    obtain ⟨i, hlo, hhi, hlt, hi, hdata', hfree'⟩ := h.published slot b hr
      ((update_of_ne hne ..).symm.trans hb)
    have hi' : s.ring.head ≠ i := by rintro rfl; exact hne hi.symm
    exact ⟨i, Nat.lt_of_le_of_ne hlo hi', hhi, hlow ▸ hlt, hi, ⟨hdata'.data, hdata'.filled⟩, hfree'⟩
  · intro b hb
    cases hb
    exact ⟨Nat.succ_pos _, rfl, ⟨hdata.data, hdata.filled⟩, hready, update_self ..⟩

end

/-- The ring does not see what the caller has been told. -/
theorem RingInv.congr (h : RingInv s) (hconfig : s'.config = s.config)
    (hfile : s'.file = s.file) (hbase : s'.base = s.base)
    (hring : s'.ring = s.ring) (hworkers : s'.workers = s.workers)
    (hcur : s'.reader.cur = s.reader.cur)
    (hslot : s'.reader.curSlot = s.reader.curSlot) : RingInv s' := by
  have hslotOf : s'.slotOf = s.slotOf := by funext i; rw [slotOf, slotOf, hconfig]
  have hlow : s'.low = s.low := by rw [low, low, hcur, hring]
  have hholds : ∀ b i, s.Holds b i → s'.Holds b i := fun b i hb =>
    ⟨by rw [hb.data, blockAt, blockAt, hfile, hbase, hconfig], hb.filled⟩
  refine
    { slots_pos := hconfig ▸ h.slots_pos, running := hring ▸ h.running, noErr := hring ▸ h.noErr
      head_le := hring ▸ h.head_le, next_le := hring ▸ h.next_le
      outside := by rw [hconfig, hworkers]; exact h.outside
      claimed := by rw [hring, hworkers]; exact h.claimed
      distinct := by rw [hworkers]; exact h.distinct
      alone := by rw [hworkers, hslotOf]; exact h.alone
      covered := by rw [hring, hworkers, hlow, hslotOf, hconfig]; exact h.covered
      filling := by rw [hring, hworkers, hlow, hslotOf, hconfig]; exact h.filling
      published := ?_, current := ?_ }
  · rw [hring, hworkers, hlow, hslotOf, hconfig]
    intro slot b hr hb
    obtain ⟨i, hlo, hhi, hlt, hi, hdata, hfree⟩ := h.published slot b hr hb
    exact ⟨i, hlo, hhi, hlt, hi, hholds b i hdata, hfree⟩
  · rw [hring, hslotOf, hcur, hslot]
    intro b hb
    obtain ⟨hpos, hcurSlot, hdata, hr, hnone⟩ := h.current b hb
    exact ⟨hpos, hcurSlot, hholds b _ hdata, hr, hnone⟩

/-- What `open_at` fixes for good. -/
structure FileInv (s : System) (file : Bytes) (offset : Nat) : Prop where
  file_eq : s.file = file
  block_pos : 0 < s.config.block
  block_sector : s.config.block % sector = 0
  base_eq : s.base + min offset file.length % sector = min offset file.length
  want_eq : s.want = file.length - s.base
  blocks_eq : s.ring.blocks = (s.want + s.config.block - 1) / s.config.block

/-- How many bytes past `base` the caller is. -/
def consumed (s : System) : Nat :=
  match s.reader.cur with
  | none => min (s.ring.head * s.config.block) s.want
  | some _ => (s.ring.head - 1) * s.config.block + s.reader.pos

/-- What the caller has been told, in terms of where it is. -/
structure CallerInv (s : System) (file : Bytes) (offset : Nat) : Prop where
  pos_le : ∀ buf, s.reader.cur = some buf → s.reader.pos ≤ buf.filled
  fresh : s.ring.head = 0 →
    s.reader.skip = min offset file.length % sector ∧ s.returned = []
  underWay : 0 < s.ring.head →
    s.reader.skip = 0 ∧ min offset file.length % sector ≤ s.consumed ∧
      s.returned = (file.drop offset).take (s.consumed - min offset file.length % sector)
  done : s.reader.done = true → s.returned = file.drop offset
  eof : s.eof = true → s.reader.done = true

variable {file : Bytes} {offset : Nat}

section

variable (h : FileInv s file offset)

include h

theorem FileInv.base_le : s.base ≤ file.length := by
  have := h.base_eq
  omega

theorem FileInv.sector_le : sector ≤ s.config.block :=
  Nat.le_of_dvd h.block_pos (Nat.dvd_of_mod_eq_zero h.block_sector)

theorem FileInv.skip_le : min offset file.length % sector ≤ s.want := by
  have := h.base_eq
  have := h.want_eq
  omega

/-- A block that exists has bytes. -/
theorem FileInv.lt_want {idx : Nat} (hidx : idx < s.ring.blocks) :
    idx * s.config.block < s.want := by
  rw [h.blocks_eq] at hidx
  have hmul : (idx + 1) * s.config.block ≤ s.want + s.config.block - 1 :=
    (Nat.le_div_iff_mul_le h.block_pos).mp hidx
  have hpos := h.block_pos
  rw [Nat.succ_mul] at hmul
  omega

/-- The blocks reach to the end of the file. -/
theorem FileInv.want_le {n : Nat} (hn : s.ring.blocks ≤ n) :
    s.want ≤ n * s.config.block := by
  have hlt : (s.want + s.config.block - 1) / s.config.block < n + 1 :=
    Nat.lt_succ_of_le (h.blocks_eq ▸ hn)
  have hmul := (Nat.div_lt_iff_lt_mul h.block_pos).mp hlt
  rw [Nat.succ_mul] at hmul
  omega

theorem FileInv.length_blockAt (idx : Nat) :
    (s.blockAt idx).length = min s.config.block (s.want - idx * s.config.block) := by
  rw [blockAt, length_take, length_drop, h.file_eq, h.want_eq, Nat.sub_add_eq]

end

theorem FileInv.drop_offset (file : Bytes) (offset : Nat) :
    file.drop (min offset file.length) = file.drop offset := by
  rcases Nat.le_total offset file.length with hle | hle
  · rw [Nat.min_eq_left hle]
  · rw [Nat.min_eq_right hle, drop_length, drop_of_length_le hle]

theorem FileInv.congr (h : FileInv s file offset) (hconfig : s'.config = s.config)
    (hfile : s'.file = s.file) (hbase : s'.base = s.base)
    (hwant : s'.want = s.want) (hblocks : s'.ring.blocks = s.ring.blocks) :
    FileInv s' file offset where
  file_eq := hfile.trans h.file_eq
  block_pos := hconfig ▸ h.block_pos
  block_sector := hconfig ▸ h.block_sector
  base_eq := hbase ▸ h.base_eq
  want_eq := by rw [hwant, hbase, h.want_eq]
  blocks_eq := by rw [hblocks, hwant, hconfig, h.blocks_eq]

/-- The invariant of a reader in use. -/
structure Inv (s : System) (file : Bytes) (offset : Nat) : Prop where
  ring : RingInv s
  opened : FileInv s file offset
  caller : CallerInv s file offset

theorem Inv.inOrder (h : Inv s file offset) : s.InOrder file offset where
  bytes := by
    rcases Nat.eq_zero_or_pos s.ring.head with hzero | hpos
    · rw [(h.caller.fresh hzero).2]
      exact nil_prefix
    · rw [(h.caller.underWay hpos).2.2]
      exact take_prefix _ _
  complete := fun heof => h.caller.done (h.caller.eof heof)

/-- The bytes that follow those the caller is past. -/
theorem FileInv.drop_consumed (h : FileInv s file offset) {c : Nat}
    (hc : min offset file.length % sector ≤ c) :
    (file.drop offset).drop (c - min offset file.length % sector) = file.drop (s.base + c) := by
  have hbase := h.base_eq
  rw [← FileInv.drop_offset file offset, drop_drop]
  congr 1
  omega

/-- The end of a turn: the bytes copied out are the next ones of the file. -/
theorem Inv.deliver (h : Inv s file offset) (hcur : s.reader.cur = some buf)
    (len : Nat) : Inv (s.deliver len) file offset := by
  obtain ⟨hhead, -, hholds, -, -⟩ := h.ring.current buf hcur
  obtain ⟨hskip, hpast, hreturned⟩ := h.caller.underWay hhead
  have hbytes : s.consumed = (s.ring.head - 1) * s.config.block + s.reader.pos := by
    simp only [consumed, hcur]
  have hlast : s.ring.head - 1 < s.ring.blocks :=
    Nat.lt_of_lt_of_le (by omega) (Nat.le_trans h.ring.head_le h.ring.next_le)
  have hlength : buf.data.length
      = min s.config.block (s.want - (s.ring.head - 1) * s.config.block) := by
    rw [hholds.data, h.opened.length_blockAt]
  have hnonempty : 0 < buf.data.length := by
    have := h.opened.lt_want hlast
    have := h.opened.block_pos
    omega
  rw [System.deliver, hcur]
  simp only
  split
  · -- The block was skipped as a whole; it is not the end of the file.
    rw [if_neg (ne_nil_of_length_pos hnonempty)]
    exact ⟨h.ring.congr rfl rfl rfl rfl rfl rfl rfl, h.opened.congr rfl rfl rfl rfl rfl,
      ⟨h.caller.pos_le, h.caller.fresh, h.caller.underWay, h.caller.done, h.caller.eof⟩⟩
  · next hpos =>
    have hpos : s.reader.pos < buf.data.length := Nat.lt_of_not_le hpos
    generalize hn : min len (buf.data.length - s.reader.pos) = n
    have hnle : n ≤ buf.data.length - s.reader.pos := by omega
    have hcount : min n (s.config.block - s.reader.pos) = n := by omega
    have hcopied : (buf.data.drop s.reader.pos).take n
        = (file.drop (s.base + s.consumed)).take n := by
      rw [hholds.data, blockAt, h.opened.file_eq, drop_take, take_take, hcount,
        drop_drop, hbytes, add_assoc]
    refine ⟨h.ring.congr rfl rfl rfl rfl rfl rfl rfl, h.opened.congr rfl rfl rfl rfl rfl, ?_⟩
    refine
      { pos_le := ?_, fresh := fun hzero => absurd hzero (Nat.ne_of_gt hhead)
        underWay := fun _ => ⟨hskip, ?_, ?_⟩
        done := ?_, eof := h.caller.eof }
    · intro b hb
      cases hcur.symm.trans hb
      have := hholds.filled
      show s.reader.pos + n ≤ buf.filled
      omega
    · simp only [consumed, hcur]
      omega
    · have hsplit : (s.ring.head - 1) * s.config.block + (s.reader.pos + n)
            - min offset file.length % sector
          = s.consumed - min offset file.length % sector + n := by omega
      simp only [consumed, hcur]
      rw [hcopied, hreturned, hsplit, take_add, h.opened.drop_consumed hpast]
    · intro hdone
      -- Everything had been returned, so nothing was left to copy.
      have hall := h.caller.done hdone
      have hend : (file.drop offset).length ≤ s.consumed - min offset file.length % sector := by
        have := congrArg length (hreturned.symm.trans hall)
        rw [length_take] at this
        omega
      show s.returned ++ _ = _
      rw [hcopied, hall, ← h.opened.drop_consumed hpast, drop_of_length_le hend, take_nil,
        append_nil]

theorem drained_of_none (hcur : s.reader.cur = none) : s.drained = true := by
  rw [drained, hcur]

theorem giveBack_of_none (hcur : s.reader.cur = none) : s.giveBack = s := by
  rw [System.giveBack, hcur]

theorem giveBack_cur (s : System) : s.giveBack.reader.cur = none := by
  rw [System.giveBack]
  cases hcur : s.reader.cur with
  | none => exact hcur
  | some buf => rfl

/-- Giving back a drained buffer ends a block. -/
theorem Inv.giveBack (h : Inv s file offset) (hdrained : s.drained = true) :
    Inv s.giveBack file offset := by
  cases hcur : s.reader.cur with
  | none => rwa [giveBack_of_none hcur]
  | some buf =>
    obtain ⟨hhead, -, hholds, -, -⟩ := h.ring.current buf hcur
    have hfull : buf.filled ≤ s.reader.pos := by simpa [drained, hcur] using hdrained
    have hpos : s.reader.pos = buf.data.length := by
      have := h.caller.pos_le buf hcur
      have := hholds.filled
      omega
    rw [hholds.data, h.opened.length_blockAt] at hpos
    have hlast : s.ring.head - 1 < s.ring.blocks :=
      Nat.lt_of_lt_of_le (by omega) (Nat.le_trans h.ring.head_le h.ring.next_le)
    have hlt := h.opened.lt_want hlast
    have hsucc : s.ring.head * s.config.block
        = (s.ring.head - 1) * s.config.block + s.config.block := by
      rw [← Nat.succ_mul, Nat.succ_eq_add_one, Nat.sub_add_cancel hhead]
    have hconsumed : s.giveBack.consumed = s.consumed := by
      simp only [System.giveBack, hcur, consumed]
      omega
    have hring := h.ring.giveBack
    refine ⟨hring, ?_, ?_⟩
    · simp only [System.giveBack, hcur]
      exact h.opened.congr rfl rfl rfl rfl rfl
    · refine
        { pos_le := fun b hb => by rw [giveBack_cur] at hb; cases hb
          fresh := ?_, underWay := ?_, done := ?_, eof := ?_ }
      · simp only [System.giveBack, hcur]
        exact h.caller.fresh
      · rw [hconsumed]
        simp only [System.giveBack, hcur]
        exact h.caller.underWay
      · simp only [System.giveBack, hcur]
        exact h.caller.done
      · simp only [System.giveBack, hcur]
        exact h.caller.eof

/-- A turn of the waiting loop of `read`: the block the caller waits for, or nothing. -/
theorem Inv.await (h : Inv s file offset) (hcur : s.reader.cur = none)
    (hdone : s.reader.done = false) (len : Nat) : Inv (s.await len) file offset := by
  simp only [System.await]
  rw [if_neg (by simp [h.ring.noErr])]
  split
  · next buf hready hbuf =>
    obtain ⟨hnext, hholds, -⟩ := h.ring.head_published hcur hready hbuf
    have hhead : s.ring.head < s.ring.blocks := Nat.lt_of_lt_of_le hnext h.ring.next_le
    have hlt := h.opened.lt_want hhead
    have hfilled : buf.filled
        = min s.config.block (s.want - s.ring.head * s.config.block) := by
      rw [hholds.filled, hholds.data, h.opened.length_blockAt]
    have hring := h.ring.takeHead hcur hready hbuf (min s.reader.skip buf.filled)
      (s.reader.skip - min s.reader.skip buf.filled)
    refine Inv.deliver ⟨hring, h.opened.congr rfl rfl rfl rfl rfl, ?_⟩ rfl len
    refine
      { pos_le := fun b hb => by cases hb; exact Nat.min_le_right ..
        fresh := fun hzero => absurd hzero (Nat.succ_ne_zero _)
        underWay := fun _ => ?_
        done := fun hd => absurd (hdone.symm.trans hd) (by decide)
        eof := h.caller.eof }
    simp only [consumed, Nat.add_sub_cancel]
    rcases Nat.eq_zero_or_pos s.ring.head with hzero | hpos
    · -- The first block: the bytes below the start offset are all in it.
      obtain ⟨hskip, hreturned⟩ := h.caller.fresh hzero
      have hsector := h.opened.sector_le
      have hstart := h.opened.skip_le
      have hlow : min offset file.length % sector < sector := Nat.mod_lt _ (by decide)
      rw [hzero, Nat.zero_mul] at hfilled ⊢
      have hdrop : min s.reader.skip buf.filled = min offset file.length % sector := by omega
      refine ⟨by omega, by omega, ?_⟩
      rw [hreturned, hdrop, Nat.zero_add, Nat.sub_self, take_zero]
    · obtain ⟨hskip, hpast, hreturned⟩ := h.caller.underWay hpos
      have hconsumed : s.consumed = s.ring.head * s.config.block := by
        simp only [consumed, hcur]
        omega
      rw [hskip, Nat.zero_min, Nat.sub_zero, add_zero, ← hconsumed]
      exact ⟨rfl, hpast, hreturned⟩
  · exact ⟨h.ring.congr rfl rfl rfl rfl rfl rfl rfl, h.opened.congr rfl rfl rfl rfl rfl,
      ⟨h.caller.pos_le, h.caller.fresh, h.caller.underWay, h.caller.done, h.caller.eof⟩⟩

/-- Past the last block everything has been returned. -/
theorem Inv.returned_all (h : Inv s file offset) (hcur : s.reader.cur = none)
    (hend : s.ring.blocks ≤ s.ring.head) : s.returned = file.drop offset := by
  have hwant := h.opened.want_le hend
  have hbase := h.opened.base_eq
  have hsize := h.opened.want_eq
  have hlength : (file.drop offset).length = s.want - min offset file.length % sector := by
    rw [length_drop]
    omega
  rcases Nat.eq_zero_or_pos s.ring.head with hzero | hpos
  · rw [hzero, Nat.zero_mul] at hwant
    rw [(h.caller.fresh hzero).2]
    exact (eq_nil_of_length_eq_zero (by omega)).symm
  · obtain ⟨-, -, hreturned⟩ := h.caller.underWay hpos
    have hconsumed : s.consumed = s.want := by
      simp only [consumed, hcur]
      omega
    rw [hreturned, hconsumed, ← hlength, take_length]

/-- `Ok(0)` once the reader is done. -/
theorem Inv.returnZero (h : Inv s file offset) (hdone : s.reader.done = true) (len : Nat) :
    Inv (s.returnZero len) file offset :=
  ⟨h.ring.congr rfl rfl rfl rfl rfl rfl rfl, h.opened.congr rfl rfl rfl rfl rfl,
    ⟨h.caller.pos_le, h.caller.fresh, h.caller.underWay, h.caller.done, fun _ => hdone⟩⟩

theorem giveBack_ring_head (s : System) :
    s.giveBack.ring.head = s.ring.head ∧ s.giveBack.ring.blocks = s.ring.blocks ∧
      s.giveBack.reader.done = s.reader.done := by
  rw [System.giveBack]
  cases s.reader.cur <;> exact ⟨rfl, rfl, rfl⟩

/-- One turn of `read`. -/
theorem Inv.turn (h : Inv s file offset) (len : Nat) : Inv (s.turn len) file offset := by
  simp only [System.turn]
  split
  · next hdrained =>
    split
    · next hdone => exact h.returnZero hdone len
    · next hdone =>
      have hback := h.giveBack hdrained
      have hcur := giveBack_cur s
      have hnot : s.giveBack.reader.done = false := by
        rw [(giveBack_ring_head s).2.2]
        exact Bool.eq_false_iff.mpr hdone
      generalize s.giveBack = s' at hback hcur hnot
      split
      · next hend =>
        have hall := hback.returned_all hcur hend
        have hfinal : Inv { s' with reader := { s'.reader with done := true } } file offset :=
          ⟨hback.ring.congr rfl rfl rfl rfl rfl rfl rfl, hback.opened.congr rfl rfl rfl rfl rfl,
            ⟨hback.caller.pos_le, hback.caller.fresh, hback.caller.underWay, fun _ => hall,
              fun _ => rfl⟩⟩
        exact hfinal.returnZero rfl len
      · exact hback.await hcur hnot len
  · next hdrained =>
    cases hcur : s.reader.cur with
    | none => exact absurd (drained_of_none hcur) hdrained
    | some buf => exact h.deliver hcur len

/-- A thread's move leaves the caller's side alone. -/
theorem CallerInv.congr (h : CallerInv s file offset)
    (hconfig : s'.config = s.config) (hwant : s'.want = s.want)
    (hhead : s'.ring.head = s.ring.head) (hreader : s'.reader = s.reader)
    (hreturned : s'.returned = s.returned) (heof : s'.eof = s.eof) : CallerInv s' file offset := by
  have hconsumed : s'.consumed = s.consumed := by
    rw [consumed, consumed, hreader, hhead, hconfig, hwant]
  constructor
  · rw [hreader]
    exact h.pos_le
  · rw [hhead, hreader, hreturned]
    exact h.fresh
  · rw [hhead, hreader, hreturned, hconsumed]
    exact h.underWay
  · rw [hreader, hreturned]
    exact h.done
  · rw [heof, hreader]
    exact h.eof

/-- The block a thread has read is the one it claimed. -/
theorem FileInv.holds_read (h : FileInv s file offset) {idx : Nat} (hidx : idx < s.ring.blocks)
    (old : AlignedBuf) (appended : Bytes) {n : Nat}
    (hn : n = min s.config.block
      ((s.file ++ appended).length - (s.base + idx * s.config.block))) :
    s.Holds
      { window := ((s.file ++ appended).drop (s.base + idx * s.config.block)).take n
          ++ old.window.drop n
        filled := min n (min (s.want - idx * s.config.block) s.config.block) } idx := by
  have hlt := h.lt_want hidx
  have hwant := h.want_eq
  have hbase := h.base_le
  rw [length_append, h.file_eq] at hn
  have hrest : (file.drop (s.base + idx * s.config.block)).length
      = s.want - idx * s.config.block := by
    rw [length_drop]
    omega
  have hfilled : min n (min (s.want - idx * s.config.block) s.config.block)
      = min s.config.block (s.want - idx * s.config.block) := by omega
  have hdata : (((file ++ appended).drop (s.base + idx * s.config.block)).take n
      ++ old.window.drop n).take (min s.config.block (s.want - idx * s.config.block))
      = (file.drop (s.base + idx * s.config.block)).take s.config.block := by
    have hmin : min (min s.config.block (s.want - idx * s.config.block)) n
        = min s.config.block (s.want - idx * s.config.block) := by omega
    rw [take_append_of_le_length, take_take, hmin, drop_append_of_le_length (by omega),
      take_append_of_le_length (by omega), ← hrest, ← take_eq_take_min]
    rw [length_take, length_drop, length_append]
    omega
  rw [hfilled]
  constructor
  · rw [AlignedBuf.data, blockAt, h.file_eq]
    exact hdata
  · rw [AlignedBuf.data, h.file_eq]
    simp only
    rw [hdata, length_take, hrest]

/-- What a thread cannot change: the caller, its reader and what it has been told. -/
structure SameCaller (s s' : System) : Prop where
  config : s'.config = s.config
  file : s'.file = s.file
  base : s'.base = s.base
  want : s'.want = s.want
  head : s'.ring.head = s.ring.head
  blocks : s'.ring.blocks = s.ring.blocks
  reader : s'.reader = s.reader
  caller : s'.caller = s.caller
  returned : s'.returned = s.returned
  eof : s'.eof = s.eof

theorem sameCaller_tryTake (s : System) (t idx : Nat) : SameCaller s (s.tryTake t idx) := by
  simp only [System.tryTake]
  split
  · exact ⟨rfl, rfl, rfl, rfl, rfl, rfl, rfl, rfl, rfl, rfl⟩
  · split <;> exact ⟨rfl, rfl, rfl, rfl, rfl, rfl, rfl, rfl, rfl, rfl⟩

theorem sameCaller_claim (s : System) (t : Nat) : SameCaller s (s.claim t) := by
  simp only [System.claim]
  split
  · exact ⟨rfl, rfl, rfl, rfl, rfl, rfl, rfl, rfl, rfl, rfl⟩
  · have h := sameCaller_tryTake { s with ring := { s.ring with next := s.ring.next + 1 } } t
      s.ring.next
    exact ⟨h.config, h.file, h.base, h.want, h.head, h.blocks, h.reader, h.caller,
      h.returned, h.eof⟩

theorem sameCaller_publish {appended : Bytes}
    (h : s.publish t idx buf appended transfers = some s') :
    SameCaller s s' := by
  simp only [System.publish] at h
  split at h <;> cases h <;> exact ⟨rfl, rfl, rfl, rfl, rfl, rfl, rfl, rfl, rfl, rfl⟩

theorem SameCaller.inOrder (h : SameCaller s s') (hs : s.InOrder file offset) :
    s'.InOrder file offset :=
  ⟨h.returned ▸ hs.bytes, by rw [h.eof, h.returned]; exact hs.complete⟩

theorem SameCaller.inv (h : SameCaller s s') (hs : Inv s file offset)
    (hring : RingInv s') : Inv s' file offset :=
  ⟨hring, hs.opened.congr h.config h.file h.base h.want h.blocks,
    hs.caller.congr h.config h.want h.head h.reader h.returned h.eof⟩

/-- A thread that reads its block without an error publishes that block. -/
theorem Inv.publish (h : Inv s file offset)
    {appended : Bytes} (hfill : s.workers t = .filling idx buf)
    (hok : transfers.contains .failed = false)
    (hpublish : s.publish t idx buf appended transfers = some s') : RingInv s' := by
  have hidx : idx < s.ring.blocks :=
    Nat.lt_of_lt_of_le (h.ring.claimed t idx (by rw [hfill]; rfl)).2 h.ring.next_le
  have hlt := h.opened.lt_want hidx
  simp only [System.publish] at hpublish
  split at hpublish
  · cases hpublish
  · next herr => exact absurd herr (readAt_ne_error hok)
  · next n hread =>
    cases hpublish
    apply h.ring.put hfill
    apply h.opened.holds_read hidx
    apply readAt_eq_ok hread (Nat.zero_le _)
    have := h.opened.want_eq
    have := h.opened.base_le
    rw [length_append, h.opened.file_eq]
    omega

/-- A caller that waits has given its buffer back and has not been told of an end. -/
def Waits (s : System) : Prop :=
  ∀ len, s.caller = .waiting len → s.reader.cur = none ∧ s.reader.done = false

theorem waits_deliver (hcur : s.reader.cur = some buf) (len : Nat) :
    (s.deliver len).Waits := by
  intro l hl
  rw [System.deliver, hcur] at hl
  simp only at hl
  split at hl
  · split at hl <;> cases hl
  · cases hl

theorem waits_await (hcur : s.reader.cur = none) (hdone : s.reader.done = false) (len : Nat) :
    (s.await len).Waits := by
  simp only [System.await]
  split
  · intro l hl
    cases hl
  · split
    · exact waits_deliver rfl len
    · exact fun _ _ => ⟨hcur, hdone⟩

theorem waits_turn (s : System) (len : Nat) : (s.turn len).Waits := by
  simp only [System.turn]
  split
  · split
    · intro l hl
      cases hl
    · next hdone =>
      split
      · intro l hl
        cases hl
      · refine waits_await (giveBack_cur s) ?_ len
        rw [(giveBack_ring_head s).2.2]
        exact Bool.eq_false_iff.mpr hdone
  · next hdrained =>
    cases hcur : s.reader.cur with
    | none => exact absurd (drained_of_none hcur) hdrained
    | some buf => exact waits_deliver hcur len

/-- What holds along every guarded run: the caller's view always, and the invariant until the
reader is dropped. -/
structure Good (s : System) (file : Bytes) (offset : Nat) : Prop where
  inOrder : s.InOrder file offset
  inv : s.caller ≠ .dropped → Inv s file offset
  waits : s.Waits

theorem Good.ofInv (h : Inv s file offset) (hwaits : s.Waits) : Good s file offset :=
  ⟨h.inOrder, fun _ => h, hwaits⟩

theorem Good.ofThread (h : Good s file offset) (hsame : SameCaller s s')
    (hring : Inv s file offset → RingInv s') : Good s' file offset where
  inOrder := hsame.inOrder h.inOrder
  inv := fun hcaller =>
    have hs := h.inv (hsame.caller ▸ hcaller)
    hsame.inv hs (hring hs)
  waits := fun len hlen => by
    rw [hsame.reader]
    exact h.waits len (hsame.caller ▸ hlen)

/-- One guarded event. -/
theorem Good.step (h : Good s file offset) {event : Event}
    (hguard : s.guarded event = true) (hstep : s.step event = some s') : Good s' file offset := by
  cases event with
  | claim t =>
    simp only [System.step] at hstep
    split at hstep
    · next ht =>
      split at hstep
      · next hidle =>
        cases hstep
        apply h.ofThread (sameCaller_claim s t)
        intro hs
        apply hs.ring.claim ht hidle
        intro hnext
        have : ¬ s.ring.blocks ≤ s.ring.next := Nat.not_le.mpr hnext
        simpa [guarded, this] using hguard
      · cases hstep
    · cases hstep
  | wake t =>
    simp only [System.step] at hstep
    split at hstep
    · next idx hwait =>
      cases hstep
      exact h.ofThread (sameCaller_tryTake s t idx) fun hs => hs.ring.tryTake hwait
    · cases hstep
  | publish t appended transfers =>
    simp only [System.step] at hstep
    split at hstep
    · next idx buf hfill =>
      have hok : transfers.contains .failed = false := by simpa [guarded] using hguard
      exact h.ofThread (sameCaller_publish hstep) fun hs => hs.publish hfill hok hstep
    · cases hstep
  | call len =>
    simp only [System.step] at hstep
    split at hstep
    · next hcaller =>
      cases hstep
      have hs := h.inv (by rw [hcaller]; decide)
      exact Good.ofInv ⟨hs.ring.congr rfl rfl rfl rfl rfl rfl rfl,
        hs.opened.congr rfl rfl rfl rfl rfl, hs.caller.congr rfl rfl rfl rfl rfl rfl⟩
        fun l hl => nomatch hl
    · cases hstep
  | turn =>
    simp only [System.step] at hstep
    split at hstep
    · next len hcaller =>
      cases hstep
      exact Good.ofInv ((h.inv (by rw [hcaller]; simp)).turn len) (waits_turn s len)
    · cases hstep
  | wakeCaller =>
    simp only [System.step] at hstep
    split at hstep
    · next len hcaller =>
      cases hstep
      have hs := h.inv (by rw [hcaller]; simp)
      obtain ⟨hcur, hdone⟩ := h.waits len hcaller
      exact Good.ofInv (hs.await hcur hdone len) (waits_await hcur hdone len)
    · cases hstep
  | dropReader =>
    simp only [System.step] at hstep
    split at hstep
    · cases hstep
      refine ⟨?_, fun hcaller => absurd rfl hcaller, fun l hl => nomatch hl⟩
      have hback : s.giveBack.returned = s.returned ∧ s.giveBack.eof = s.eof := by
        rw [System.giveBack]
        cases s.reader.cur <;> exact ⟨rfl, rfl⟩
      exact ⟨hback.1.symm ▸ h.inOrder.bytes, by
        simp only [dropReader, hback]
        exact h.inOrder.complete⟩
    · cases hstep

/-- A whole guarded run. -/
theorem Good.run (h : Good s file offset) {events : List Event}
    (hguard : s.allGuarded events = true) (hrun : s.run events = some s') :
    Good s' file offset := by
  induction events generalizing s with
  | nil =>
    cases hrun
    exact h
  | cons event events ih =>
    rw [System.run, Option.bind_eq_some_iff] at hrun
    obtain ⟨mid, hstep, hrest⟩ := hrun
    rw [allGuarded, Bool.and_eq_true, hstep] at hguard
    exact ih (h.step hguard.1 hstep) hguard.2 hrest

theorem validate_eq_ok {config : SeqReaderConfig} (h : config.validate = .ok ()) :
    0 < config.slots ∧ 0 < config.block ∧ config.block % sector = 0 := by
  simp only [SeqReaderConfig.validate] at h
  split at h
  · cases h
  · next hzero =>
    split at h
    · cases h
    · split at h
      · cases h
      · next hsector => exact ⟨by omega, by omega, by omega⟩

/-- A reader that has just been opened. -/
theorem inv_openAt {config : SeqReaderConfig} (h : openAt file offset config = .ok s) :
    Good s file offset := by
  rw [openAt] at h
  cases hvalid : config.validate with
  | error e => rw [hvalid] at h; cases h
  | ok u =>
    obtain ⟨hslots, hblock, hsector⟩ := validate_eq_ok hvalid
    rw [hvalid] at h
    cases h
    have hmod : min offset file.length % sector ≤ min offset file.length := Nat.mod_le _ _
    refine Good.ofInv ⟨?_, ?_, ?_⟩ fun l hl => nomatch hl
    · exact
        { slots_pos := hslots, running := rfl, noErr := rfl, head_le := Nat.le_refl _
          next_le := Nat.zero_le _, outside := fun _ _ => rfl
          claimed := fun _ _ hc => nomatch hc
          distinct := fun _ _ _ hc => nomatch hc
          alone := fun _ _ _ _ hw => nomatch hw
          covered := fun i _ hlt => absurd hlt (Nat.not_lt_zero i)
          filling := fun _ _ _ hf => nomatch hf
          published := fun _ _ hr => nomatch hr
          current := fun _ hc => nomatch hc }
    · exact
        { file_eq := rfl, block_pos := hblock, block_sector := hsector
          base_eq := Nat.sub_add_cancel hmod, want_eq := rfl, blocks_eq := rfl }
    · refine
        { pos_le := fun _ hc => nomatch hc
          fresh := fun _ => ⟨Nat.sub_sub_self hmod, rfl⟩
          underWay := fun hpos => absurd hpos (Nat.lt_irrefl 0)
          done := fun hdone => ?_
          eof := fun heof => nomatch heof }
      -- No blocks: the file ends where the reader starts.
      have hblocks := of_decide_eq_true hdone
      have hwant := (Nat.div_eq_zero_iff_lt hblock).mp hblocks
      refine (drop_of_length_le ?_).symm
      omega

/-- **The reader returns the file in order.** On every schedule of the threads and the caller in
which each claim takes a block whose slot no thread waits for and no read of the file fails, the
bytes returned are those of the file from the offset on, and its end is reported after the last. -/
theorem run_inOrder {config : SeqReaderConfig} (hopen : openAt file offset config = .ok s)
    {events : List Event} {s' : System} (hguard : s.allGuarded events = true)
    (hrun : s.run events = some s') : s'.InOrder file offset :=
  ((inv_openAt hopen).run hguard hrun).inOrder

end System

namespace Example

/-- A block and three bytes. -/
def overBlock : Bytes := replicate 4096 7 ++ [1, 2, 3]

/-- The second thread is the first to publish, and the caller reads to the end of the file. -/
def secondFirst : List Event :=
  [.claim 0, .claim 1, .publish 1 [] [.bytes 3], .publish 0 [] [.bytes 4096],
    .call 10, .turn, .call 10, .turn, .call 10, .turn]

/-- Four blocks of zeros and a last block of one byte. -/
def zerosThenOne : Bytes := replicate 16384 0 ++ [1]

def twoThreads : SeqReaderConfig := { threads := 2, slots := 2, block := 4096 }

/-- Thread 0 claims block 2 and waits for slot 0, thread 1 claims block 3 and waits for slot 1. The
caller drains both slots and waits for block 2. Thread 1 is the first to wake: it publishes block 3,
claims block 4 and finds slot 0 free. -/
def overtaken : List Event :=
  [.claim 0, .claim 1, .publish 0 [] [.bytes 4096], .publish 1 [] [.bytes 4096],
    .claim 0, .call 4096, .turn, .claim 1, .call 4096, .turn, .call 1, .turn,
    .wake 1, .publish 1 [] [.bytes 4096], .claim 1, .publish 1 [] [.bytes 1], .wakeCaller]

/-- What a schedule leaves on a reader that has just been opened. -/
def outcome (file : Bytes) (offset : Nat) (config : SeqReaderConfig) (events : List Event) :
    Option System :=
  (openAt file offset config).toOption.bind (System.run · events)

end Example

open SeqRead.Example

theorem run_inOrder_overBlock :
    ∃ s s', openAt overBlock 4094 twoThreads = .ok s ∧
      s.run secondFirst = some s' ∧ s.allGuarded secondFirst = true ∧
      s'.returned = [7, 7, 1, 2, 3] ∧ s'.eof = true ∧ s'.InOrder overBlock 4094 := by
  have heval : (openAt overBlock 4094 twoThreads).toOption.any (fun s =>
      s.allGuarded secondFirst &&
        (s.run secondFirst).any fun s' => s'.returned == [7, 7, 1, 2, 3] && s'.eof) = true := by
    decide +kernel
  obtain ⟨s, hs, hrun⟩ := (Option.any_eq_true _ _).mp heval
  obtain ⟨hguard, hrun⟩ := Bool.and_eq_true_iff.mp hrun
  obtain ⟨s', hs', hend⟩ := (Option.any_eq_true _ _).mp hrun
  obtain ⟨hreturned, heof⟩ := Bool.and_eq_true_iff.mp hend
  have hopen : openAt overBlock 4094 twoThreads = .ok s := by
    cases h : openAt overBlock 4094 twoThreads with
    | error e => rw [h] at hs; cases hs
    | ok s₀ => rw [h] at hs; cases hs; rfl
  exact ⟨s, s', hopen, hs', hguard, eq_of_beq hreturned, heof,
    System.run_inOrder hopen hguard hs'⟩

/-- The caller gets the byte of block 4 where the first of block 2 belongs. -/
theorem not_inOrder_overtaken :
    ∃ s', outcome zerosThenOne 0 twoThreads overtaken = some s' ∧
      s'.returned[8192]? = some 1 ∧ zerosThenOne[8192]? = some 0 ∧
      ¬ s'.InOrder zerosThenOne 0 := by
  have heval : (outcome zerosThenOne 0 twoThreads overtaken).any
      (fun s' => s'.returned[8192]? == some 1) = true := by decide +kernel
  have hfile : zerosThenOne[8192]? = some 0 := by decide +kernel
  obtain ⟨s', hs', hreturned⟩ := (Option.any_eq_true _ _).mp heval
  have hreturned : s'.returned[8192]? = some 1 := eq_of_beq hreturned
  refine ⟨s', hs', hreturned, hfile, fun h => ?_⟩
  obtain ⟨rest, hrest⟩ := h.bytes
  rw [List.drop_zero] at hrest
  have hlt : 8192 < s'.returned.length := (List.getElem?_eq_some_iff.mp hreturned).1
  rw [← hrest, List.getElem?_append_left hlt, hreturned] at hfile
  exact absurd hfile (by decide)

end Rsl.Storage.SeqRead
