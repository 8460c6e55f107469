import Rsl.Storage.SeqShape

/-!
# Where the accepted bytes of the sequential writer are

While no write has failed (`System.Clean`), every block that was handed over is on disk, in its
slot, or with a thread that is writing it, and the current buffer has the bytes behind them
(`System.Blocks`). One lemma for each thing a thread or the caller does with the ring.
-/

set_option autoImplicit false

namespace Rsl.Storage.SeqWrite

open Function List

open Wire (Bytes)
open SeqRead (sector AlignedBuf)

/-- The slot a thread holds. -/
def Worker.slot : Worker → Option Nat
  | .idle => none
  | .writing slot _ _ => some slot
  | .releasing slot _ _ => some slot
  | .exited => none

/-- The bytes of the current `write` that are in the ring. -/
def Caller.done : Caller → Bytes
  | .checking p => p.done
  | .rotating p => p.done
  | .taking p => p.done
  | _ => []

/-- What is written for the block of `acc` at `idx`: its bytes, padded to whole sectors. -/
def image (block : Nat) (acc : Bytes) (idx : Nat) : Bytes :=
  let data := (acc.drop (idx * block)).take block
  data ++ replicate (System.nextMultiple data.length - data.length) 0

/-- The bytes of the block are in the file. -/
def OnDisk (block : Nat) (content acc : Bytes) (idx : Nat) : Prop :=
  ∀ i, idx * block ≤ i → i < idx * block + block → i < acc.length → content[i]? = acc[i]?

namespace System

/-- The bytes the writer has accepted. -/
def accepted (s : System) : Bytes := s.passed ++ s.caller.done

/-- No write has failed so far, and no call has reported an error. -/
structure Clean (s : System) : Prop where
  noErr : s.ring.err = false
  noReport : ¬ s.Reported
  noFailure : ∀ t slot buf, s.workers t ≠ .releasing slot buf false

/-- Where a block that was handed over can be. -/
def Placed (s : System) (acc : Bytes) (idx : Nat) : Prop :=
  OnDisk s.config.block s.content acc idx ∨
    (s.ring.pending (s.slotOf idx) = some idx ∧ s.ring.bufs (s.slotOf idx) ≠ none) ∨
    ∃ t slot buf, s.workers t = .writing slot idx buf

/-- The block has bytes and is not the one the caller is filling. -/
def HandedOver (s : System) (acc : Bytes) (idx : Nat) : Prop :=
  idx * s.config.block < acc.length ∧ (s.cur ≠ none → idx < s.curIndex)

/-- Where the accepted bytes `acc` are. -/
structure Blocks (s : System) (acc : Bytes) : Prop where
  count : s.written = acc.length
  small : acc.length < word
  cur : ∀ buf, s.cur = some buf → acc.length = s.curIndex * s.config.block + buf.filled ∧
    buf.data = acc.drop (s.curIndex * s.config.block)
  own : s.cur ≠ none → s.ring.pending (s.slotOf s.curIndex) = none
  placed : ∀ idx, s.HandedOver acc idx → s.Placed acc idx
  pending : ∀ slot idx, s.ring.pending slot = some idx → s.slotOf idx = slot ∧
    s.HandedOver acc idx ∧
    ∀ buf, s.ring.bufs slot = some buf → buf.data = image s.config.block acc idx
  writing : ∀ t slot idx buf, s.workers t = .writing slot idx buf →
    s.ring.pending slot = some idx ∧ buf.data = image s.config.block acc idx
  busy : ∀ t slot, (s.workers t).slot = some slot →
    s.ring.pending slot ≠ none ∧ s.ring.bufs slot = none
  apart : ∀ t u slot, (s.workers t).slot = some slot → (s.workers u).slot = some slot → t = u
  exited : ∀ t, s.workers t = .exited → s.ring.closed = true ∧
    ∀ slot, s.ring.pending slot = none ∨ s.ring.bufs slot = none
  inline : s.inline = true → ∀ slot, s.ring.pending slot = none

variable {s : System} {acc : Bytes}

/-! ### The blocks of a stream -/

variable {buf : AlignedBuf} {block : Nat} {idx : Nat}

theorem image_append {acc more : Bytes}
    (h : idx * block + block ≤ acc.length) :
    image block (acc ++ more) idx = image block acc idx := by
  have hdata : ((acc ++ more).drop (idx * block)).take block =
      (acc.drop (idx * block)).take block := by
    rw [drop_append_of_le_length (by omega), take_append_of_le_length]
    rw [length_drop]
    omega
  simp only [image, hdata]

theorem length_image_le (hdvd : sector ∣ block) (acc : Bytes) (idx : Nat) :
    (image block acc idx).length ≤ block := by
  have hle : ((acc.drop (idx * block)).take block).length ≤ block := by
    rw [length_take]
    exact Nat.min_le_left _ _
  have := nextMultiple_le hdvd hle
  have := le_nextMultiple ((acc.drop (idx * block)).take block).length
  simp only [image, length_append, length_replicate]
  omega

theorem getElem?_image {acc : Bytes} {idx i : Nat} (hle : idx * block ≤ i)
    (hlt : i < idx * block + block) (hacc : i < acc.length) :
    i - idx * block < (image block acc idx).length ∧
      (image block acc idx)[i - idx * block]? = acc[i]? := by
  have hlen : i - idx * block < ((acc.drop (idx * block)).take block).length := by
    rw [length_take, length_drop]
    omega
  refine ⟨?_, ?_⟩
  · simp only [image, length_append]
    omega
  · simp only [image]
    rw [getElem?_append_left hlen, getElem?_take_of_lt (by omega), getElem?_drop]
    congr 1
    omega

/-- A write of a block puts it on disk. -/
theorem onDisk_put {content acc : Bytes} :
    OnDisk block (put content (idx * block) (image block acc idx)) acc idx := by
  intro i hle hlt hacc
  obtain ⟨hlen, hget⟩ := getElem?_image hle hlt hacc
  have hne : image block acc idx ≠ [] := by
    intro hnil
    rw [hnil] at hlen
    simp at hlen
  rw [put, if_neg hne, Rsl.Lib.getElem?_writeAt_of_mem hle (by omega), hget]

/-- And leaves the others there. -/
theorem onDisk_put_of_ne {content acc bytes : Bytes} {idx other : Nat}
    (h : OnDisk block content acc idx) (hne : idx ≠ other) (hlen : bytes.length ≤ block) :
    OnDisk block (put content (other * block) bytes) acc idx := by
  intro i hle hlt hacc
  rw [SeqWrite.put]
  split_ifs
  · exact h i hle hlt hacc
  · have hget := h i hle hlt hacc
    have hi : i < content.length := by
      rw [List.getElem?_eq_getElem hacc] at hget
      exact (List.getElem?_eq_some_iff.mp hget).1
    rw [Rsl.Lib.getElem?_writeAt_of_not_mem hi, hget]
    rcases Nat.lt_or_gt_of_ne hne with hlt' | hgt
    · left
      have := Nat.mul_le_mul_right block hlt'
      rw [Nat.succ_mul] at this
      omega
    · right
      have := Nat.mul_le_mul_right block hgt
      rw [Nat.succ_mul] at this
      omega

/-! ### The threads keep the blocks -/

theorem slotOf_lt (hvalid : s.config.validate = .ok ()) (idx : Nat) :
    s.slotOf idx < s.config.slots := by
  obtain ⟨-, -, hslots, -⟩ := SeqWriterConfig.valid_of_validate hvalid
  exact Nat.mod_lt _ (by omega)

/-- What a thread does that is not the one which moved. -/
theorem of_setWorker {t u : Nat} {w w' : Worker} (hne : w ≠ w')
    (hu : (s.setWorker t w).workers u = w') : u ≠ t ∧ s.workers u = w' := by
  rcases eq_or_ne u t with rfl | hut
  · exact absurd (by simpa [setWorker] using hu) hne
  · exact ⟨hut, by simpa [setWorker, hut] using hu⟩

/-- Some other thread, or this one, which now writes. -/
theorem exists_writing_setWorker {t idx : Nat} {w : Worker}
    (hold : ∀ slot buf, s.workers t ≠ .writing slot idx buf)
    (h : ∃ u slot buf, s.workers u = .writing slot idx buf) :
    ∃ u slot buf, (s.setWorker t w).workers u = .writing slot idx buf := by
  obtain ⟨u, slot, buf, hu⟩ := h
  have hne : u ≠ t := by
    rintro rfl
    exact hold slot buf hu
  exact ⟨u, slot, buf, by simpa [setWorker, hne] using hu⟩

section

variable (h : Blocks s acc)

include h

theorem Blocks.exit {t : Nat} (hidle : s.workers t = .idle) (hclosed : s.ring.closed = true)
    (hnone : ∀ slot, s.ring.pending slot = none ∨ s.ring.bufs slot = none) :
    Blocks (s.setWorker t .exited) acc := by
  have hslot : ∀ u slot, ((s.setWorker t .exited).workers u).slot = some slot →
      (s.workers u).slot = some slot := by
    intro u slot hu
    rcases eq_or_ne u t with rfl | hne
    · simp [setWorker, Worker.slot] at hu
    · simpa [setWorker, hne] using hu
  exact
    { h with
      placed := fun idx hidx => (h.placed idx hidx).imp_right
        (.imp_right (exists_writing_setWorker (by rw [hidle]; simp)))
      writing := fun u slot idx buf hu => h.writing u slot idx buf (of_setWorker (by simp) hu).2
      busy := fun u slot hu => h.busy u slot (hslot u slot hu)
      apart := fun u v slot hu hv => h.apart u v slot (hslot u slot hu) (hslot v slot hv)
      exited := fun u _ => ⟨hclosed, hnone⟩ }

theorem Blocks.take {t slot idx : Nat}
    (hidle : s.workers t = .idle) (hpending : s.ring.pending slot = some idx)
    (hbuf : s.ring.bufs slot = some buf) :
    Blocks ((s.setSlot slot none (some idx)).setWorker t (.writing slot idx buf)) acc := by
  obtain ⟨hslotOf, hover, hdata⟩ := h.pending slot idx hpending
  have hsame : update s.ring.pending slot (some idx) = s.ring.pending := by
    rw [← hpending, update_eq_self]
  have hfree : ∀ u, (s.workers u).slot ≠ some slot := fun u hu => by
    have := (h.busy u slot hu).2
    rw [hbuf] at this
    cases this
  have hworkers : ∀ u, u ≠ t → ((s.setSlot slot none (some idx)).setWorker t
      (.writing slot idx buf)).workers u = s.workers u := fun u hne => by
    simp [setWorker, setSlot, hne]
  have hself : ((s.setSlot slot none (some idx)).setWorker t (.writing slot idx buf)).workers t =
      .writing slot idx buf := by simp [setWorker]
  exact
    { h with
      own := fun hcur => by
        show update s.ring.pending slot (some idx) _ = none
        rw [hsame]
        exact h.own hcur
      placed := fun idx' hidx' => by
        rcases h.placed idx' hidx' with hdisk | ⟨hpend, hbufs⟩ | ⟨u, slot', buf', hu⟩
        · exact .inl hdisk
        · rcases eq_or_ne (s.slotOf idx') slot with heq | hne
          · -- the block in the slot is the one that is claimed
            rw [heq, hpending] at hpend
            cases hpend
            exact .inr (.inr ⟨t, slot, buf, hself⟩)
          · refine .inr (.inl ⟨?_, ?_⟩)
            · show update s.ring.pending slot (some idx) _ = _
              rw [hsame]
              exact hpend
            · show update s.ring.bufs slot none (s.slotOf idx') ≠ none
              rw [update_of_ne hne]
              exact hbufs
        · have hne : u ≠ t := by rintro rfl; rw [hidle] at hu; cases hu
          exact .inr (.inr ⟨u, slot', buf', by rw [hworkers u hne]; exact hu⟩)
      pending := fun slot' idx' hp => by
        have hp : s.ring.pending slot' = some idx' := by rw [← hsame]; exact hp
        refine ⟨(h.pending slot' idx' hp).1, (h.pending slot' idx' hp).2.1, fun b hb => ?_⟩
        refine (h.pending slot' idx' hp).2.2 b ?_
        rcases eq_or_ne slot' slot with rfl | hne
        · simp [setSlot, setWorker] at hb
        · simpa [setSlot, setWorker, hne] using hb
      writing := fun u slot' idx' buf' hu => by
        show update s.ring.pending slot (some idx) slot' = _ ∧ _
        rw [hsame]
        rcases eq_or_ne u t with rfl | hne
        · rw [hself] at hu
          cases hu
          exact ⟨hpending, hdata buf hbuf⟩
        · exact h.writing u slot' idx' buf' (by rw [← hworkers u hne]; exact hu)
      busy := fun u slot' hu => by
        show update s.ring.pending slot (some idx) slot' ≠ none ∧
          update s.ring.bufs slot none slot' = none
        rw [hsame]
        rcases eq_or_ne u t with rfl | hne
        · rw [hself] at hu
          cases hu
          exact ⟨by rw [hpending]; simp, by simp⟩
        · rw [hworkers u hne] at hu
          have hslot' : slot' ≠ slot := by rintro rfl; exact hfree u hu
          rw [update_of_ne hslot']
          exact h.busy u slot' hu
      apart := fun u v slot' hu hv => by
        rcases eq_or_ne u t with rfl | hut
        · rcases eq_or_ne v u with rfl | hvu
          · rfl
          · rw [hself] at hu
            rw [hworkers v hvu] at hv
            cases hu
            exact absurd hv (hfree v)
        · rw [hworkers u hut] at hu
          rcases eq_or_ne v t with rfl | hvt
          · rw [hself] at hv
            cases hv
            exact absurd hu (hfree u)
          · rw [hworkers v hvt] at hv
            exact h.apart u v slot' hu hv
      exited := fun u hu => by
        have := (h.exited u (of_setWorker (by simp) hu).2).2 slot
        simp [hpending, hbuf] at this
      inline := fun hin => by
        have := h.inline hin slot
        rw [hpending] at this
        cases this }

theorem Blocks.claim (hclean : Clean s) (hvalid : s.config.validate = .ok ())
    {t : Nat} (hidle : s.workers t = .idle) : Blocks (s.claim t) acc := by
  rcases s.claim_cases t with ⟨heq, hexit⟩ | ⟨slot, idx, buf, hpending, hbuf, heq⟩ | heq
  · rw [heq]
    rcases hexit with herr | ⟨hclosed, hnone⟩
    · rw [hclean.noErr] at herr
      cases herr
    · refine h.exit hidle hclosed fun slot => ?_
      cases hp : s.ring.pending slot with
      | none => exact .inl rfl
      | some idx =>
        obtain ⟨hslot, -⟩ := h.pending slot idx hp
        have hlt := slotOf_lt hvalid idx
        rw [hslot] at hlt
        exact .inr ((hnone slot hlt).resolve_left (by rw [hp]; simp))
  · rw [heq]
    exact h.take hidle hpending hbuf
  · rw [heq]
    exact h

/-- A write that does not fail puts its block on disk. -/
theorem Blocks.transfer (hvalid : s.config.validate = .ok ())
    {t slot idx : Nat} (hw : s.workers t = .writing slot idx buf) :
    Blocks (s.transfer t slot idx buf .done) acc := by
  obtain ⟨-, -, -, hdvd⟩ := SeqWriterConfig.valid_of_validate hvalid
  obtain ⟨hpending, hdata⟩ := h.writing t slot idx buf hw
  obtain ⟨-, ⟨hstart, -⟩, -⟩ := h.pending slot idx hpending
  have hcontent : (s.transfer t slot idx buf .done).content =
      put s.content (idx * s.config.block) (image s.config.block acc idx) := by
    show put s.content (idx * s.config.block % word) buf.data = _
    rw [Nat.mod_eq_of_lt (Nat.lt_trans hstart h.small), hdata]
  have hworkers : ∀ u, u ≠ t → (s.transfer t slot idx buf .done).workers u = s.workers u :=
    fun u hne => by simp [System.transfer, setWorker, issue, hne]
  have hslot : ∀ u, ((s.transfer t slot idx buf .done).workers u).slot = (s.workers u).slot := by
    intro u
    rcases eq_or_ne u t with rfl | hne
    · simp [System.transfer, setWorker, hw, Worker.slot]
    · rw [hworkers u hne]
  exact
    { h with
      placed := fun idx' hidx' => by
        rw [Placed, hcontent]
        rcases eq_or_ne idx' idx with rfl | hne
        · exact .inl onDisk_put
        · rcases h.placed idx' hidx' with hdisk | hring | ⟨u, slot', buf', hu⟩
          · exact .inl (onDisk_put_of_ne hdisk hne (length_image_le hdvd acc idx))
          · exact .inr (.inl hring)
          · have hut : u ≠ t := by rintro rfl; rw [hw] at hu; cases hu; exact hne rfl
            exact .inr (.inr ⟨u, slot', buf', by rw [hworkers u hut]; exact hu⟩)
      writing :=
        fun u slot' idx' buf' hu => h.writing u slot' idx' buf' (of_setWorker (by simp) hu).2
      busy := fun u slot' hu => h.busy u slot' (by rw [← hslot]; exact hu)
      apart := fun u v slot' hu hv =>
        h.apart u v slot' (by rw [← hslot]; exact hu) (by rw [← hslot]; exact hv)
      exited := fun u hu => h.exited u (of_setWorker (by simp) hu).2 }

theorem Blocks.release {t slot : Nat}
    (hw : s.workers t = .releasing slot buf true) : Blocks (s.release t slot buf true) acc := by
  obtain ⟨hpending, hbufs⟩ := h.busy t slot (by rw [hw]; rfl)
  have hworkers : ∀ u, u ≠ t → (s.release t slot buf true).workers u = s.workers u :=
    fun u hne => by simp [System.release, setWorker, setSlot, hne]
  have hself : (s.release t slot buf true).workers t = .idle := by
    simp [System.release, setWorker]
  have hslot : ∀ u slot', ((s.release t slot buf true).workers u).slot = some slot' →
      u ≠ t ∧ slot' ≠ slot ∧ (s.workers u).slot = some slot' := by
    intro u slot' hu
    have hut : u ≠ t := by rintro rfl; rw [hself] at hu; cases hu
    rw [hworkers u hut] at hu
    refine ⟨hut, ?_, hu⟩
    rintro rfl
    exact hut (h.apart u t slot' hu (by rw [hw]; rfl))
  -- the ring differs in this slot only
  have hp : ∀ slot', slot' ≠ slot →
      (s.release t slot buf true).ring.pending slot' = s.ring.pending slot' :=
    fun slot' hne => update_of_ne hne _ _
  have hb : ∀ slot', slot' ≠ slot →
      (s.release t slot buf true).ring.bufs slot' = s.ring.bufs slot' :=
    fun slot' hne => update_of_ne hne _ _
  have hpself : (s.release t slot buf true).ring.pending slot = none := update_self _ _ _
  exact
    { h with
      own := fun hcur => by
        rcases eq_or_ne (s.slotOf s.curIndex) slot with heq | hne
        · show (s.release t slot buf true).ring.pending (s.slotOf s.curIndex) = none
          rw [heq, hpself]
        · exact (hp _ hne).trans (h.own hcur)
      placed := fun idx hidx => by
        rcases h.placed idx hidx with hdisk | ⟨hpend, hbuf⟩ | ⟨u, slot', buf', hu⟩
        · exact .inl hdisk
        · have hne : s.slotOf idx ≠ slot := fun heq => hbuf (by rw [heq, hbufs])
          exact .inr
            (.inl ⟨(hp _ hne).trans hpend, fun hnone => hbuf ((hb _ hne).symm.trans hnone)⟩)
        · have hut : u ≠ t := by rintro rfl; rw [hw] at hu; cases hu
          exact .inr (.inr ⟨u, slot', buf', by rw [hworkers u hut]; exact hu⟩)
      pending := fun slot' idx hpend => by
        have hne : slot' ≠ slot := by
          rintro rfl
          rw [hpself] at hpend
          cases hpend
        obtain ⟨h1, h2, h3⟩ := h.pending slot' idx ((hp slot' hne).symm.trans hpend)
        exact ⟨h1, h2, fun b hb' => h3 b ((hb slot' hne).symm.trans hb')⟩
      writing := fun u slot' idx buf' hu => by
        obtain ⟨-, hne, -⟩ := hslot u slot' (by rw [hu]; rfl)
        rw [hp slot' hne]
        exact h.writing u slot' idx buf' (of_setWorker (by simp) hu).2
      busy := fun u slot' hu => by
        obtain ⟨-, hne, hu'⟩ := hslot u slot' hu
        rw [hp slot' hne, hb slot' hne]
        exact h.busy u slot' hu'
      apart := fun u v slot' hu hv =>
        h.apart u v slot' (hslot u slot' hu).2.2 (hslot v slot' hv).2.2
      exited := fun u hu => by
        obtain ⟨hclosed, hnone⟩ := h.exited u (of_setWorker (by simp) hu).2
        refine ⟨hclosed, fun slot' => ?_⟩
        rcases eq_or_ne slot' slot with rfl | hne
        · exact .inl hpself
        · rw [hp slot' hne, hb slot' hne]
          exact hnone slot'
      inline := fun hin slot' => by
        rcases eq_or_ne slot' slot with rfl | hne
        · exact hpself
        · exact (hp slot' hne).trans (h.inline hin slot') }

end

/-! ### The caller keeps the blocks -/

section

variable (h : Blocks s acc)

include h

/-- A block that is complete does not change when more bytes are accepted. -/
theorem Blocks.complete (hcur : s.cur = some buf)
    (hidx : idx < s.curIndex) : idx * s.config.block + s.config.block ≤ acc.length := by
  have := Nat.mul_le_mul_right s.config.block hidx
  rw [Nat.succ_mul] at this
  have := (h.cur buf hcur).1
  omega

/-- Bytes are copied into the current buffer. -/
theorem Blocks.copy (hblock : 0 < s.config.block) (hcur : s.cur = some buf)
    (hlen : buf.window.length = s.config.block) {bytes : Bytes}
    (hfit : buf.filled + bytes.length ≤ s.config.block)
    (hsmall : acc.length + bytes.length < word) :
    Blocks { s with
      cur := some (copied buf bytes), written := (s.written + bytes.length) % word }
      (acc ++ bytes) := by
  have hsome : s.cur ≠ none := by rw [hcur]; simp
  obtain ⟨hacc, hdata⟩ := h.cur buf hcur
  have hover : ∀ idx, idx < s.curIndex →
      image s.config.block (acc ++ bytes) idx = image s.config.block acc idx :=
    fun idx hidx => image_append (h.complete hcur hidx)
  exact
    { h with
      count := by
        show (s.written + bytes.length) % word = _
        rw [h.count, length_append, Nat.mod_eq_of_lt hsmall]
      small := by rwa [length_append]
      cur := by
        rintro _ ⟨⟩
        refine ⟨by simp only [copied, length_append]; omega, ?_⟩
        show (copied buf bytes).window.take (buf.filled + bytes.length) =
          (acc ++ bytes).drop (s.curIndex * s.config.block)
        rw [drop_append_of_le_length (by omega), ← hdata, AlignedBuf.data]
        simp only [copied]
        have htake : (buf.window.take buf.filled ++ bytes).length = buf.filled + bytes.length := by
          rw [length_append, length_take]
          omega
        rw [← htake, take_left']
        rfl
      own := fun _ => h.own hsome
      placed := fun idx hidx => by
        have hlt : idx < s.curIndex := hidx.2 (by simp)
        have hdone := h.complete hcur hlt
        rcases h.placed idx ⟨by omega, fun _ => hlt⟩ with hdisk | hrest
        · refine .inl fun i hle hi _ => ?_
          have hi : i < idx * s.config.block + s.config.block := hi
          rw [hdisk i hle hi (by omega), getElem?_append_left (by omega)]
        · exact .inr hrest
      pending := fun slot idx hp => by
        obtain ⟨hslot, hidx, himage⟩ := h.pending slot idx hp
        have hlt := hidx.2 hsome
        refine ⟨hslot, ⟨?_, fun _ => hlt⟩, fun b hb => ?_⟩
        · rw [length_append]
          exact Nat.lt_of_lt_of_le hidx.1 (Nat.le_add_right _ _)
        · exact (himage b hb).trans (hover idx hlt).symm
      writing := fun t slot idx b hw => by
        obtain ⟨hp, himage⟩ := h.writing t slot idx b hw
        exact ⟨hp, himage.trans (hover idx ((h.pending slot idx hp).2.1.2 hsome)).symm⟩ }

/-- The current block is its bytes and the padding. -/
theorem Blocks.image_cur (hcur : s.cur = some buf)
    (hle : buf.filled ≤ s.config.block) : image s.config.block acc s.curIndex =
      buf.data ++ replicate (nextMultiple buf.filled - buf.filled) 0 := by
  obtain ⟨hacc, hdata⟩ := h.cur buf hcur
  have hlen : (acc.drop (s.curIndex * s.config.block)).length = buf.filled := by
    rw [length_drop]
    omega
  simp only [image]
  rw [take_of_length_le (by omega), hlen, hdata]

/-- The blocks that are handed over when the caller gives up its buffer. -/
theorem Blocks.handedOver_cases (hcur : s.cur = some buf)
    (hle : buf.filled ≤ s.config.block) (hidx : idx * s.config.block < acc.length) :
    s.HandedOver acc idx ∨ (idx = s.curIndex ∧ 0 < buf.filled) := by
  obtain ⟨hacc, -⟩ := h.cur buf hcur
  rcases Nat.lt_trichotomy idx s.curIndex with hlt | rfl | hgt
  · exact .inl ⟨hidx, fun _ => hlt⟩
  · exact .inr ⟨rfl, by omega⟩
  · have := Nat.mul_le_mul_right s.config.block hgt
    rw [Nat.succ_mul] at this
    omega

/-- The caller publishes its buffer. -/
theorem Blocks.publish {buf b : AlignedBuf} (hcur : s.cur = some buf)
    (hle : buf.filled ≤ s.config.block) (hpos : 0 < buf.filled)
    (hdata : b.data = image s.config.block acc s.curIndex) (hclosed : s.ring.closed = false)
    (hinline : s.inline = false) (n : Nat) :
    Blocks { { s with cur := none }.setSlot (s.slotOf s.curIndex) (some b) (some s.curIndex) with
      curIndex := n } acc := by
  have hsome : s.cur ≠ none := by rw [hcur]; simp
  obtain ⟨hacc, -⟩ := h.cur buf hcur
  have hown := h.own hsome
  generalize hslot : s.slotOf s.curIndex = slot at hown
  have hpself : update s.ring.pending slot (some s.curIndex) slot = some s.curIndex :=
    update_self _ _ _
  have hp : ∀ slot', slot' ≠ slot →
      update s.ring.pending slot (some s.curIndex) slot' = s.ring.pending slot' :=
    fun slot' hne => update_of_ne hne _ _
  have hbself : update s.ring.bufs slot (some b) slot = some b :=
    update_self _ _ _
  have hb : ∀ slot', slot' ≠ slot →
      update s.ring.bufs slot (some b) slot' = s.ring.bufs slot' :=
    fun slot' hne => update_of_ne hne _ _
  have hbusy : ∀ t slot', (s.workers t).slot = some slot' → slot' ≠ slot := by
    rintro t _ ht rfl
    exact (h.busy t _ ht).1 hown
  exact
    { h with
      cur := by rintro _ ⟨⟩
      own := fun hne => absurd rfl hne
      placed := fun idx hidx => by
        rcases h.handedOver_cases hcur hle hidx.1 with hover | ⟨rfl, -⟩
        · rcases h.placed idx hover with hdisk | ⟨hpend, hbufs⟩ | hw
          · exact .inl hdisk
          · have hne : s.slotOf idx ≠ slot := by
              intro heq
              rw [heq, hown] at hpend
              cases hpend
            exact .inr (.inl ⟨(hp _ hne).trans hpend,
              fun hnone => hbufs ((hb _ hne).symm.trans hnone)⟩)
          · exact .inr (.inr hw)
        · refine .inr (.inl ⟨?_, ?_⟩)
          · show update s.ring.pending slot (some s.curIndex) (s.slotOf s.curIndex) = _
            rw [hslot, hpself]
          · show update s.ring.bufs slot (some b) (s.slotOf s.curIndex) ≠ none
            rw [hslot, hbself]
            simp
      pending := fun slot' idx hpend => by
        rcases eq_or_ne slot' slot with rfl | hne
        · cases hpself.symm.trans hpend
          refine ⟨hslot, ⟨?_, fun hne => absurd rfl hne⟩, fun b' hb' => ?_⟩
          · show s.curIndex * s.config.block < acc.length
            omega
          · cases hbself.symm.trans hb'
            exact hdata
        · obtain ⟨h1, h2, h3⟩ := h.pending slot' idx ((hp slot' hne).symm.trans hpend)
          exact ⟨h1, ⟨h2.1, fun hne => absurd rfl hne⟩,
            fun b' hb' => h3 b' ((hb slot' hne).symm.trans hb')⟩
      writing := fun t slot' idx b' hw => by
        have hne := hbusy t slot' (by rw [show s.workers t = _ from hw]; rfl)
        obtain ⟨h1, h2⟩ := h.writing t slot' idx b' hw
        exact ⟨(hp slot' hne).trans h1, h2⟩
      busy := fun t slot' ht => by
        have hne := hbusy t slot' ht
        obtain ⟨h1, h2⟩ := h.busy t slot' ht
        exact ⟨fun hnone => h1 ((hp slot' hne).symm.trans hnone), (hb slot' hne).trans h2⟩
      exited := fun t ht => by
        have := (h.exited t ht).1
        rw [hclosed] at this
        cases this
      inline := fun hin => by
        rw [show s.inline = true from hin] at hinline
        cases hinline }

/-- The caller issues its buffer itself. -/
theorem Blocks.issue (hdvd : sector ∣ s.config.block) {buf b : AlignedBuf}
    (hcur : s.cur = some buf) (hle : buf.filled ≤ s.config.block) (hpos : 0 < buf.filled)
    (hdata : b.data = image s.config.block acc s.curIndex) (hinline : s.inline = true)
    (hidle : ∀ t, s.workers t = .idle) (n : Nat) :
    Blocks { ({ s with cur := none }.issue s.curIndex b.data .done).setSlot (s.slotOf s.curIndex)
      (some b) none with curIndex := n } acc := by
  obtain ⟨hacc, -⟩ := h.cur buf hcur
  have hsmall : s.curIndex * s.config.block % word = s.curIndex * s.config.block :=
    Nat.mod_eq_of_lt (by have := h.small; omega)
  have hnone : ∀ slot, update s.ring.pending (s.slotOf s.curIndex) none slot = none := by
    intro slot
    rcases eq_or_ne slot (s.slotOf s.curIndex) with rfl | hne
    · exact update_self _ _ _
    · exact (update_of_ne hne _ _).trans (h.inline hinline slot)
  have hcontent : put s.content (s.curIndex * s.config.block % word) b.data =
      put s.content (s.curIndex * s.config.block) (image s.config.block acc s.curIndex) := by
    rw [hsmall, hdata]
  have hno : ∀ t w, s.workers t = w → w = .idle := by
    rintro t _ rfl
    exact hidle t
  exact
    { h with
      cur := by rintro _ ⟨⟩
      own := fun hne => absurd rfl hne
      placed := fun idx hidx => by
        left
        show OnDisk s.config.block
          (put s.content (s.curIndex * s.config.block % word) b.data) acc idx
        rw [hcontent]
        rcases h.handedOver_cases hcur hle hidx.1 with hover | ⟨rfl, -⟩
        · have hne : idx ≠ s.curIndex := Nat.ne_of_lt (hover.2 (by rw [hcur]; simp))
          rcases h.placed idx hover with hdisk | ⟨hpend, -⟩ | ⟨t, slot, b', hw⟩
          · exact onDisk_put_of_ne hdisk hne (length_image_le hdvd acc s.curIndex)
          · rw [h.inline hinline] at hpend
            cases hpend
          · cases hno t _ hw
        · exact onDisk_put
      pending := fun slot idx hpend => by
        have := (hnone slot).symm.trans hpend
        cases this
      writing := fun t slot idx b' hw => by cases hno t _ hw
      busy := fun t slot ht => by
        have ht : (s.workers t).slot = some slot := ht
        rw [hidle t] at ht
        cases ht
      exited := fun t ht => by cases hno t _ ht
      inline := fun _ => hnone }

/-- The caller gives an empty buffer back. -/
theorem Blocks.giveBack (hcur : s.cur = some buf)
    (hzero : buf.filled = 0) (hclosed : s.ring.closed = false) :
    Blocks ({ s with cur := none }.setSlot (s.slotOf s.curIndex) (some buf)
      (s.ring.pending (s.slotOf s.curIndex))) acc := by
  have hown := h.own (by rw [hcur]; simp)
  have hsame : update s.ring.pending (s.slotOf s.curIndex)
      (s.ring.pending (s.slotOf s.curIndex)) = s.ring.pending := update_eq_self _ _
  have hb : ∀ slot, slot ≠ s.slotOf s.curIndex →
      update s.ring.bufs (s.slotOf s.curIndex) (some buf) slot = s.ring.bufs slot :=
    fun slot hne => update_of_ne hne _ _
  have hne : ∀ slot, s.ring.pending slot ≠ none → slot ≠ s.slotOf s.curIndex := by
    rintro slot hslot rfl
    exact hslot hown
  have hover : ∀ idx, idx * s.config.block < acc.length → s.HandedOver acc idx := by
    intro idx hidx
    rcases h.handedOver_cases hcur (by omega) hidx with hover | ⟨-, hpos⟩
    · exact hover
    · omega
  exact
    { h with
      cur := by rintro _ ⟨⟩
      own := fun hne => absurd rfl hne
      placed := fun idx hidx => by
        rcases h.placed idx (hover idx hidx.1) with hdisk | ⟨hpend, hbufs⟩ | hw
        · exact .inl hdisk
        · refine .inr (.inl ⟨(congrFun hsame _).trans hpend, fun hnone => hbufs ?_⟩)
          exact (hb _ (hne _ (by rw [hpend]; simp))).symm.trans hnone
        · exact .inr (.inr hw)
      pending := fun slot idx hpend => by
        have hpend := (congrFun hsame slot).symm.trans hpend
        obtain ⟨h1, h2, h3⟩ := h.pending slot idx hpend
        exact ⟨h1, ⟨h2.1, fun hne => absurd rfl hne⟩,
          fun b hb' => h3 b ((hb slot (hne slot (by rw [hpend]; simp))).symm.trans hb')⟩
      writing := fun t slot idx b hw =>
        ⟨(congrFun hsame slot).trans (h.writing t slot idx b hw).1, (h.writing t slot idx b hw).2⟩
      busy := fun t slot ht =>
        ⟨fun hnone => (h.busy t slot ht).1 ((congrFun hsame slot).symm.trans hnone),
          (hb slot (hne slot (h.busy t slot ht).1)).trans (h.busy t slot ht).2⟩
      exited := fun t ht => by
        have := (h.exited t ht).1
        rw [hclosed] at this
        cases this
      inline := fun hin slot => (congrFun hsame slot).trans (h.inline hin slot) }

/-- The caller takes the buffer of a free slot. -/
theorem Blocks.takeSlot (hacc : acc.length = s.curIndex * s.config.block)
    (hfree : s.ring.pending (s.slotOf s.curIndex) = none) (buf : AlignedBuf) :
    Blocks { s.setSlot (s.slotOf s.curIndex) none none with
      cur := some { buf with filled := 0 } } acc := by
  have hp : ∀ slot, update s.ring.pending (s.slotOf s.curIndex) none slot =
      s.ring.pending slot := by
    intro slot
    rw [← hfree, update_eq_self]
  have hb : ∀ slot b, update s.ring.bufs (s.slotOf s.curIndex) none slot = some b →
      s.ring.bufs slot = some b := by
    intro slot b hslot
    rcases eq_or_ne slot (s.slotOf s.curIndex) with rfl | hne
    · simp at hslot
    · simpa [hne] using hslot
  have hnone : ∀ slot, s.ring.bufs slot = none →
      update s.ring.bufs (s.slotOf s.curIndex) none slot = none := by
    intro slot hslot
    rw [Option.eq_none_iff_forall_ne_some]
    intro b hb'
    rw [hb slot b hb'] at hslot
    cases hslot
  have hcount : ∀ idx, s.HandedOver acc idx → idx < s.curIndex := by
    intro idx hidx
    have := hidx.1
    rw [hacc] at this
    exact Nat.lt_of_mul_lt_mul_right this
  exact
    { h with
      cur := by
        rintro _ ⟨⟩
        refine ⟨hacc, ?_⟩
        show buf.window.take 0 = acc.drop (s.curIndex * s.config.block)
        rw [← hacc, drop_length, take_zero]
      own := fun _ => (hp _).trans hfree
      placed := fun idx hidx => by
        rcases h.placed idx ⟨hidx.1, fun _ => hidx.2 (by simp)⟩ with hdisk | ⟨hpend, hbufs⟩ | hw
        · exact .inl hdisk
        · refine .inr (.inl ⟨(hp _).trans hpend, ?_⟩)
          have hne : s.slotOf idx ≠ s.slotOf s.curIndex := by
            intro heq
            rw [heq, hfree] at hpend
            cases hpend
          show update s.ring.bufs (s.slotOf s.curIndex) none (s.slotOf idx) ≠ none
          rw [update_of_ne hne]
          exact hbufs
        · exact .inr (.inr hw)
      pending := fun slot idx hpend => by
        obtain ⟨h1, h2, h3⟩ := h.pending slot idx ((hp slot).symm.trans hpend)
        exact ⟨h1, ⟨h2.1, fun _ => hcount idx h2⟩, fun b hslot => h3 b (hb slot b hslot)⟩
      writing := fun t slot idx b hw =>
        ⟨(hp slot).trans (h.writing t slot idx b hw).1, (h.writing t slot idx b hw).2⟩
      busy := fun t slot ht =>
        ⟨fun hpend => (h.busy t slot ht).1 ((hp slot).symm.trans hpend),
          hnone slot (h.busy t slot ht).2⟩
      exited := fun t ht =>
        ⟨(h.exited t ht).1, fun slot => ((h.exited t ht).2 slot).imp (hp slot).trans (hnone slot)⟩
      inline := fun hin slot => (hp slot).trans (h.inline hin slot) }

end

end System
end Rsl.Storage.SeqWrite
