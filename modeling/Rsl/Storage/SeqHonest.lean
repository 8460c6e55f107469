import Rsl.Storage.SeqBlocks

/-!
# The sequential writer hides no failed write

A write that fails is remembered until some call has reported it (`Clean.of_step`), and as long as
none has failed the blocks are where `Blocks` says (`Kept.step`). A thread leaves only when no block
is left in the ring, so after the join all of them are on disk, and `finish` cuts the file behind
the last byte. Together with `Shape` this gives `System.run_honest`.

The caller must not go on after an error: `flush` takes the stored error with it, the threads are
gone, and `finish` then returns `Ok` over blocks that nobody wrote (`not_honest_flush`).
-/

set_option autoImplicit false

namespace Rsl.Storage.SeqWrite

open List

open Wire (Bytes)
open SeqRead (AlignedBuf)
open Lib (resize)

namespace System

variable {s s' : System}

/-! ### A failed write is remembered -/

/-- What a part of the caller's work leaves behind. -/
structure Follows (s s' : System) : Prop where
  workers : s'.workers = s.workers
  replies : s.replies ⊆ s'.replies
  err : s.ring.err = true → s'.ring.err = true ∨ s'.Reported

theorem Clean.of_follows (h : Clean s') (hf : Follows s s') : Clean s where
  noErr := by
    by_contra herr
    rcases hf.err (by simpa using herr) with herr' | hrep
    · rw [h.noErr] at herr'
      cases herr'
    · exact h.noReport hrep
  noReport hrep := h.noReport (hf.replies hrep)
  noFailure t slot buf := by
    rw [← hf.workers]
    exact h.noFailure t slot buf

theorem Follows.goto (s : System) (c : Caller) : Follows s { s with caller := c } :=
  ⟨rfl, fun _ h => h, .inl⟩

theorem Follows.reply (s : System) (c : Caller) (r : Reply) :
    Follows s { s with caller := c, replies := s.replies ++ [r] } :=
  ⟨rfl, subset_append_left _ _, .inl⟩

/-- An error that is taken out of the ring is reported. -/
theorem Follows.report (s : System) (c : Caller) (ring : Ring) :
    Follows s { s with ring := ring, caller := c, replies := s.replies ++ [.error] } :=
  ⟨rfl, subset_append_left _ _,
    fun _ => .inr (mem_append_right _ (mem_singleton.mpr rfl))⟩

theorem follows_turn (s : System) (done rest : Bytes) : Follows s (s.turn done rest) := by
  rw [turn]
  split_ifs
  · exact .reply s _ _
  · exact .goto s _

theorem follows_fill (s : System) (p : Progress) : Follows s (s.fill p) := by
  rw [fill]
  split
  · exact .reply s _ _
  · next buf _ =>
    dsimp only
    split_ifs
    · exact .reply s _ _
    · split
      · exact .goto s _
      · next room _ =>
        split_ifs
        · exact .reply s _ _
        · simp only [commit]
          split_ifs
          · exact .reply s _ _
          · have := follows_turn { s with
              cur := some { window := buf.window.take buf.filled ++ p.rest.take room ++
                buf.window.drop (buf.filled + room), filled := buf.filled + room }
              written := (s.written + room) % word } (p.done ++ p.rest.take room) (p.rest.drop room)
            exact ⟨this.workers, this.replies, this.err⟩

variable {buf : AlignedBuf} {answer : Answer} {t : Nat} {p : Progress} {ok : Bool} {c : Caller}

theorem follows_advance (hs : s.advance answer = some s') : Follows s s' := by
  rw [advance] at hs
  split at hs
  · cases hs
  · next p hc =>
    cases hs
    rw [available]
    split_ifs
    · exact .report s _ _
    · split
      · exact .goto s _
      · split_ifs
        · exact .goto s _
        · exact follows_fill s p
  · next p hc =>
    cases hs
    rw [rotate]
    split
    · exact .reply s _ _
    · next buf _ =>
      rcases { s with cur := none }.publish_cases s.curIndex buf answer with
        ⟨-, -, heq⟩ | ⟨ring, content, heq, -⟩ | ⟨-, herr, heq⟩
      · rw [heq]
        exact ⟨rfl, fun _ h => h, .inl⟩
      · rw [heq]
        exact ⟨rfl, subset_append_left _ _,
          fun _ => .inr (mem_append_right _ (mem_singleton.mpr rfl))⟩
      · rw [heq]
        exact ⟨rfl, fun _ h => h, .inl⟩
  · next p hc =>
    cases hs
    rw [takeSlot]
    split_ifs
    · exact .report s _ _
    · split
      · next buf _ _ =>
        have := follows_fill { s.setSlot (s.slotOf s.curIndex) none none with
          cur := some { buf with filled := 0 } } p
        exact ⟨this.workers, this.replies, this.err⟩
      · exact ⟨rfl, fun _ h => h, .inl⟩
  · next hc =>
    cases hs
    split_ifs
    · exact .report s _ _
    · exact .reply s _ _
  · next hc =>
    cases hs
    rw [handOver]
    split
    · exact .goto s _
    · next buf _ =>
      dsimp only
      split_ifs
      · exact ⟨rfl, subset_append_left _ _, .inl⟩
      · rcases { s with cur := none }.publish_cases s.curIndex
          (padTo buf (nextMultiple buf.filled)) answer with
          ⟨-, -, heq⟩ | ⟨ring, content, heq, -⟩ | ⟨-, herr, heq⟩
        · rw [heq]
          exact ⟨rfl, fun _ h => h, .inl⟩
        · rw [heq]
          exact ⟨rfl, subset_append_left _ _,
            fun _ => .inr (mem_append_right _ (mem_singleton.mpr rfl))⟩
        · rw [heq]
          exact ⟨rfl, fun _ h => h, .inl⟩
      · exact ⟨rfl, fun _ h => h, .inl⟩
  · cases hs
    exact ⟨rfl, fun _ h => h, .inl⟩
  · split_ifs at hs
    cases hs
    rw [checkJoined]
    split_ifs
    · exact .report s _ _
    · exact .goto s _
  · cases hs
    rw [setLen.eq_def]
    split
    · exact ⟨rfl, subset_append_left _ _, .inl⟩
    · exact .reply s _ _
    · exact ⟨rfl, subset_append_left _ _, .inl⟩
  · cases hs

/-- Another thread's failure is seen in the state before, this one's by its own state. -/
theorem Clean.of_move (h : Clean s') {w : Worker}
    (hworkers : s'.workers = Function.update s.workers t w) (hreplies : s'.replies = s.replies)
    (herr : s'.ring.err = false → s.ring.err = false)
    (hfail : ∀ slot buf, s.workers t ≠ .releasing slot buf false) : Clean s where
  noErr := herr h.noErr
  noReport hrep := h.noReport (by rw [Reported, hreplies]; exact hrep)
  noFailure u slot buf := by
    rcases eq_or_ne u t with rfl | hne
    · exact hfail slot buf
    · have := h.noFailure u slot buf
      rwa [hworkers, Function.update_of_ne hne] at this

theorem Clean.of_claim (h : Clean (s.claim t)) (hidle : s.workers t = .idle) :
    Clean s := by
  have hfail : ∀ slot buf, s.workers t ≠ .releasing slot buf false := by rw [hidle]; simp
  rcases s.claim_cases t with ⟨heq, -⟩ | ⟨slot, idx, buf, -, -, heq⟩ | heq
  · rw [heq] at h
    exact h.of_move rfl rfl id hfail
  · rw [heq] at h
    exact h.of_move rfl rfl id hfail
  · rwa [heq] at h

theorem Clean.of_transfer {t slot idx : Nat}
    (h : Clean (s.transfer t slot idx buf answer)) (hw : s.workers t = .writing slot idx buf) :
    Clean s ∧ answer = .done := by
  refine ⟨h.of_move rfl rfl id (by rw [hw]; simp), ?_⟩
  by_contra hne
  exact h.noFailure t slot buf (by simp [transfer, setWorker, hne])

theorem Clean.of_release {t slot : Nat}
    (h : Clean (s.release t slot buf ok)) (hw : s.workers t = .releasing slot buf ok) :
    Clean s ∧ ok = true := by
  have herr : (s.ring.err || !ok) = false := h.noErr
  rw [Bool.or_eq_false_iff, Bool.not_eq_false'] at herr
  refine ⟨h.of_move rfl rfl (fun _ => herr.1) ?_, herr.2⟩
  rw [hw, herr.2]
  simp

/-! ### While no write fails -/

/-- How far the caller is. -/
def Stage (s : System) : Caller → Prop
  | .checking p => s.ring.closed = false ∧ (s.passed ++ p.done).length + p.rest.length < word
  | .rotating p => s.ring.closed = false ∧ (s.passed ++ p.done).length + p.rest.length < word ∧
      ∃ buf, s.cur = some buf ∧ buf.filled = s.config.block
  | .taking p => s.ring.closed = false ∧ (s.passed ++ p.done).length + p.rest.length < word ∧
      (s.passed ++ p.done).length = s.curIndex * s.config.block
  | .closing => s.cur = none
  | .joining => s.cur = none
  | .truncating => s.cur = none
  | .gone => True
  | _ => s.ring.closed = false

/-- What holds while no write has failed. -/
structure Kept (s : System) : Prop where
  blocks : Blocks s s.accepted
  stage : s.Stage s.caller
  finished : ∀ n, .finished n ∈ s.replies → s.content = s.passed ∧ n = s.passed.length

theorem Kept.blocks_at (h : Kept s) (hc : s.caller = c) :
    Blocks s (s.passed ++ c.done) := by
  subst hc
  exact h.blocks

theorem Kept.stage_at (h : Kept s) (hc : s.caller = c) : s.Stage c := by
  subst hc
  exact h.stage

theorem Kept.claim (h : Kept s) (hshape : Shape s) (hclean : Clean s)
    (hidle : s.workers t = .idle) : Kept (s.claim t) := by
  have hblocks := h.blocks.claim hclean hshape.valid hidle
  rcases s.claim_cases t with ⟨heq, -⟩ | ⟨slot, idx, buf, -, -, heq⟩ | heq
  · rw [heq] at hblocks ⊢
    exact ⟨hblocks, h.stage, h.finished⟩
  · rw [heq] at hblocks ⊢
    exact ⟨hblocks, h.stage, h.finished⟩
  · rw [heq]
    exact h

/-- After `finish` has returned `Ok` no thread is at work. -/
theorem Shape.not_finished (h : Shape s) (hidle : s.workers t ≠ .idle)
    (hexit : s.workers t ≠ .exited) : s.Unfinished := by
  intro n hn
  have hplace := h.place_at (h.finished n hn)
  exact (h.pooled hidle).not_joined hexit (hplace ⟨n, hn⟩).2.2

theorem Kept.transfer (h : Kept s) (hshape : Shape s) {t slot idx : Nat}
    (hw : s.workers t = .writing slot idx buf) : Kept (s.transfer t slot idx buf .done) where
  blocks := h.blocks.transfer hshape.valid hw
  stage := h.stage
  finished n hn := absurd hn (hshape.not_finished (by rw [hw]; simp) (by rw [hw]; simp) n)

theorem Kept.release (h : Kept s) {t slot : Nat}
    (hw : s.workers t = .releasing slot buf true) : Kept (s.release t slot buf true) where
  blocks := h.blocks.release hw
  stage := h.stage
  finished := h.finished

theorem passed_append (s : System) (c : Caller) (r : Reply) :
    { s with caller := c, replies := s.replies ++ [r] }.passed = s.passed ++ r.passed := by
  simp [passed]

theorem Kept.turn {acc : Bytes} (h : Blocks s acc) (hopen : s.Unfinished)
    (hclosed : s.ring.closed = false) {done rest : Bytes} (hacc : acc = s.passed ++ done)
    (hsmall : acc.length + rest.length < word) : Kept (s.turn done rest) := by
  rw [System.turn]
  split_ifs with hnil
  · have hpassed : (s.reply (.wrote done)).passed = acc := by
      rw [reply, passed_append, hacc]
      rfl
    refine ⟨?_, hclosed, fun n hn => absurd hn (hopen.append (by simp) n)⟩
    have haccepted : (s.reply (.wrote done)).accepted = acc := by
      rw [accepted, hpassed]
      exact append_nil acc
    rw [haccepted]
    exact { h with }
  · refine ⟨?_, ⟨hclosed, hacc ▸ hsmall⟩, hopen.elim⟩
    have haccepted : { s with caller := .checking ⟨done, rest, none⟩ }.accepted = acc := hacc.symm
    rw [haccepted]
    exact { h with }

theorem Kept.fill (h : Blocks s (s.passed ++ p.done)) (hblock : 0 < s.config.block)
    (hopen : s.Unfinished) (hclosed : s.ring.closed = false)
    (hcur : s.cur = some buf) (hlen : buf.window.length = s.config.block)
    (hle : buf.filled ≤ s.config.block)
    (hsmall : (s.passed ++ p.done).length + p.rest.length < word)
    (hroom : ∀ room, p.room = some room →
      room ≤ s.config.block - buf.filled ∧ room ≤ p.rest.length) : Kept (s.fill p) := by
  cases hp : p.room with
  | none =>
    rw [fill_first hcur hlen hle hp rfl]
    exact ⟨{ h with }, ⟨hclosed, hsmall⟩, hopen.elim⟩
  | some room =>
    obtain ⟨hspace, hrest⟩ := hroom room hp
    rw [fill_second hcur hlen hle hp hspace hrest]
    have htake : (p.rest.take room).length = room := by simp [hrest]
    have hcopy : Blocks _ (s.passed ++ p.done ++ p.rest.take room) :=
      h.copy hblock hcur hlen (by omega) (by omega)
    rw [htake] at hcopy
    refine Kept.turn hcopy hopen hclosed (append_assoc _ _ _) ?_
    rw [length_append, htake, length_drop]
    omega

/-- The state is clean only if no error was reported. -/
theorem not_clean_report {ring : Ring} :
    ¬ Clean { s with ring := ring, caller := c, replies := s.replies ++ [.error] } :=
  fun h => h.noReport (mem_append_right _ (mem_singleton.mpr rfl))

theorem Kept.available (h : Kept s) (hshape : Shape s) (hclean : Clean s)
    (hc : s.caller = .checking p) : Kept (s.available p) := by
  obtain ⟨-, hblock, -⟩ := SeqWriterConfig.valid_of_validate hshape.valid
  have hopen := hshape.unfinished hc nofun
  have hplace := hshape.place_at hc
  have hblocks : Blocks s (s.passed ++ p.done) := h.blocks_at hc
  obtain ⟨hclosed, hsmall⟩ := h.stage_at hc
  rw [System.available, if_neg (by rw [hclean.noErr]; simp)]
  split
  · next hnone => exact absurd hnone (hplace.1.2 hclean.noReport)
  · next buf hbuf =>
    obtain ⟨hlen, hle⟩ := hshape.cur buf hbuf
    split_ifs with hfull
    · exact ⟨{ hblocks with }, ⟨hclosed, hsmall, buf, hbuf, hfull⟩, hopen.elim⟩
    · refine Kept.fill hblocks hblock hopen hclosed hbuf hlen hle hsmall fun room hroom => ?_
      obtain ⟨buf', hbuf', -, hspace⟩ := hplace.2 room hroom
      rw [hbuf] at hbuf'
      cases hbuf'
      exact hspace

theorem rotate_eq (hcur : s.cur = some buf) (p : Progress) (answer : Answer)
    {x : System} (heq : { s with cur := none }.publish s.curIndex buf answer = (x, ok)) :
    s.rotate p answer =
      if ok then { x with curIndex := x.curIndex + 1, caller := .taking p }
        else x.reply .error := by
  simp only [System.rotate, hcur]
  rw [heq]
  cases ok <;> rfl

theorem Kept.rotate (h : Kept s) (hshape : Shape s) (hc : s.caller = .rotating p)
    (hclean' : Clean (s.rotate p answer)) : Kept (s.rotate p answer) := by
  obtain ⟨-, hblock, -, hdvd⟩ := SeqWriterConfig.valid_of_validate hshape.valid
  have hopen := hshape.unfinished hc nofun
  have hblocks : Blocks s (s.passed ++ p.done) := h.blocks_at hc
  obtain ⟨hclosed, hsmall, buf, hcur, hfull⟩ := h.stage_at hc
  obtain ⟨hlen, hle⟩ := hshape.cur buf hcur
  -- a full buffer needs no padding
  have hdata : buf.data = image s.config.block (s.passed ++ p.done) s.curIndex := by
    rw [hblocks.image_cur hcur hle, hfull,
      Nat.sub_eq_zero_of_le (nextMultiple_le hdvd (Nat.le_refl _)), replicate_zero, append_nil]
  have hend : (s.passed ++ p.done).length = (s.curIndex + 1) * s.config.block := by
    rw [(hblocks.cur buf hcur).1, hfull, Nat.succ_mul]
  rcases { s with cur := none }.publish_cases s.curIndex buf answer with
    ⟨hinline, -, heq⟩ | ⟨ring, content, heq, -⟩ | ⟨hinline, -, heq⟩
  · rw [rotate_eq hcur p answer heq]
    have hidle : ∀ t, s.workers t = .idle := fun t => hshape.idle t (.inl hinline)
    have hissue := hblocks.issue hdvd hcur hle (by omega) hdata hinline hidle (s.curIndex + 1)
    exact ⟨{ hissue with }, ⟨hclosed, hsmall, hend⟩, hopen.elim⟩
  · rw [rotate_eq hcur p answer heq] at hclean'
    exact absurd hclean' (not_clean_report (s := { s with content := content, cur := none }))
  · rw [rotate_eq hcur p answer heq]
    have hpub := hblocks.publish hcur hle (by omega) hdata hclosed hinline (s.curIndex + 1)
    exact ⟨{ hpub with }, ⟨hclosed, hsmall, hend⟩, hopen.elim⟩

theorem Kept.takeSlot (h : Kept s) (hshape : Shape s) (hclean : Clean s)
    (hc : s.caller = .taking p) : Kept (s.takeSlot p) := by
  obtain ⟨-, hblock, -⟩ := SeqWriterConfig.valid_of_validate hshape.valid
  have hopen := hshape.unfinished hc nofun
  have hplace := hshape.place_at hc
  have hblocks : Blocks s (s.passed ++ p.done) := h.blocks_at hc
  obtain ⟨hclosed, hsmall, hend⟩ := h.stage_at hc
  rw [System.takeSlot, if_neg (by rw [hclean.noErr]; simp)]
  split
  · next buf hpending hbuf =>
    have htaken := hblocks.takeSlot hend hpending buf
    exact Kept.fill htaken hblock hopen hclosed rfl (hshape.ring _ buf hbuf) (Nat.zero_le _) hsmall
      (by simp [hplace.2])
  · exact h

theorem data_padTo {pad : Nat} (hle : buf.filled ≤ pad) (hlen : buf.filled ≤ buf.window.length) :
    (padTo buf pad).data = buf.data ++ replicate (pad - buf.filled) 0 := by
  have htake : (buf.window.take buf.filled ++
      replicate (pad - buf.filled) (0 : UInt8)).length = pad := by
    rw [length_append, length_take, length_replicate]
    omega
  simp only [AlignedBuf.data, padTo]
  rw [take_left' htake]

theorem handOver_eq (hcur : s.cur = some buf)
    (hpad : nextMultiple buf.filled ≤ buf.window.length) (hpos : 0 < buf.filled) (answer : Answer)
    {x : System}
    (heq : { s with cur := none }.publish s.curIndex (padTo buf (nextMultiple buf.filled)) answer =
      (x, ok)) :
    s.handOver answer = if ok then { x with caller := .closing } else x.leave .error := by
  simp only [System.handOver, hcur]
  rw [if_pos hpos, if_neg (by omega), heq]
  cases ok <;> rfl

theorem handOver_empty (hcur : s.cur = some buf) (hzero : buf.filled = 0) (answer : Answer) :
    s.handOver answer = { { s with cur := none }.setSlot (s.slotOf s.curIndex) (some buf)
      (s.ring.pending (s.slotOf s.curIndex)) with caller := .closing } := by
  simp only [System.handOver, hcur]
  rw [if_neg (by omega)]
  rfl

theorem Kept.handOver (h : Kept s) (hshape : Shape s) (hclean : Clean s)
    (hc : s.caller = .finishing) (hclean' : Clean (s.handOver answer)) :
    Kept (s.handOver answer) := by
  obtain ⟨-, -, -, hdvd⟩ := SeqWriterConfig.valid_of_validate hshape.valid
  have hopen := hshape.unfinished hc nofun
  have hplace := hshape.place_at hc
  have hclosed : s.ring.closed = false := h.stage_at hc
  have hblocks : Blocks s (s.passed ++ []) := h.blocks_at hc
  obtain ⟨buf, hcur⟩ := Option.ne_none_iff_exists'.mp (hplace.2 hclean.noReport)
  obtain ⟨hlen, hle⟩ := hshape.cur buf hcur
  have hpad := nextMultiple_le hdvd hle
  rcases Nat.eq_zero_or_pos buf.filled with hzero | hpos
  · rw [handOver_empty hcur hzero]
    exact ⟨{ hblocks.giveBack hcur hzero hclosed with }, rfl, hopen.elim⟩
  · have hdata : (padTo buf (nextMultiple buf.filled)).data =
        image s.config.block (s.passed ++ []) s.curIndex := by
      rw [hblocks.image_cur hcur hle, data_padTo (le_nextMultiple _) (by omega)]
    rcases { s with cur := none }.publish_cases s.curIndex (padTo buf (nextMultiple buf.filled))
      answer with ⟨hinline, -, heq⟩ | ⟨ring, content, heq, -⟩ | ⟨hinline, -, heq⟩
    · rw [handOver_eq hcur (by omega) hpos answer heq]
      have hidle : ∀ t, s.workers t = .idle := fun t => hshape.idle t (.inl hinline)
      have hissue := hblocks.issue hdvd hcur hle hpos hdata hinline hidle s.curIndex
      exact ⟨{ hissue with }, rfl, hopen.elim⟩
    · rw [handOver_eq hcur (by omega) hpos answer heq] at hclean'
      exact absurd hclean' (not_clean_report (s := { s with content := content, cur := none }))
    · rw [handOver_eq hcur (by omega) hpos answer heq]
      have hpub := hblocks.publish hcur hle hpos hdata hclosed hinline s.curIndex
      exact ⟨{ hpub with }, rfl, hopen.elim⟩

/-- Once the threads have left, every block is on disk. -/
theorem Blocks.onDisk {acc : Bytes} (h : Blocks s acc) (hshape : Shape s) (hjoined : s.Joined)
    (hcur : s.cur = none) {idx : Nat} (hidx : idx * s.config.block < acc.length) :
    OnDisk s.config.block s.content acc idx := by
  obtain ⟨hthreads, -⟩ := SeqWriterConfig.valid_of_validate hshape.valid
  rcases h.placed idx
    ⟨hidx, fun hne => absurd hcur hne⟩ with hdisk | ⟨hpend, hbufs⟩ | ⟨t, slot, b, hw⟩
  · exact hdisk
  · cases hinline : s.inline with
    | true =>
      rw [h.inline hinline] at hpend
      cases hpend
    | false =>
      rcases (h.exited 0 (hjoined hinline 0 hthreads)).2 (s.slotOf idx) with hnone | hnone
      · rw [hnone] at hpend
        cases hpend
      · exact absurd hnone hbufs
  · have hpool := hshape.pooled (t := t) (by rw [hw]; simp)
    exact absurd hjoined (hpool.not_joined (by rw [hw]; simp))

/-- The file cut to the length of the accepted bytes is these bytes. -/
theorem resize_eq_of_onDisk {block : Nat} (hblock : 0 < block) {content acc : Bytes}
    (h : ∀ idx, idx * block < acc.length → OnDisk block content acc idx) :
    resize content acc.length = acc := by
  have hget : ∀ i < acc.length, content[i]? = acc[i]? := by
    intro i hi
    have hdiv : i / block * block ≤ i := Nat.div_mul_le_self i block
    have hmod := Nat.div_add_mod i block
    have hlt := Nat.mod_lt i hblock
    rw [mul_comm] at hmod
    exact h (i / block) (by omega) i hdiv (by omega) hi
  have hlen : acc.length ≤ content.length := by
    rcases Nat.eq_zero_or_pos acc.length with hzero | hpos
    · omega
    · have hlast := (hget (acc.length - 1) (by omega)).trans (List.getElem?_eq_getElem (by omega))
      have := (List.getElem?_eq_some_iff.mp hlast).1
      omega
  rw [Rsl.Lib.resize_of_le hlen]
  apply ext_getElem?
  intro i
  rcases Nat.lt_or_ge i acc.length with hi | hi
  · rw [getElem?_take_of_lt hi, hget i hi]
  · rw [getElem?_eq_none hi, getElem?_eq_none (by rw [length_take]; omega)]

theorem Kept.setLen (h : Kept s) (hshape : Shape s) (hc : s.caller = .truncating)
    (hclean' : Clean (s.setLen answer)) : Kept (s.setLen answer) := by
  obtain ⟨-, hblock, -⟩ := SeqWriterConfig.valid_of_validate hshape.valid
  have hplace := hshape.place_at hc
  have hcur : s.cur = none := h.stage_at hc
  have hblocks : Blocks s s.passed := append_nil s.passed ▸ h.blocks_at hc
  cases answer with
  | failed k =>
    cases k with
    | zero => exact absurd hclean' (not_clean_report (s := s))
    | succ k =>
      exact absurd hclean'
        (not_clean_report (s := { s with content := resize s.content s.written }))
  | done =>
    have hcontent : resize s.content s.written = s.passed := by
      rw [hblocks.count]
      exact resize_eq_of_onDisk hblock fun idx hidx =>
        hblocks.onDisk hshape hplace.2.2 hcur hidx
    have hpassed : (s.setLen .done).passed = s.passed := by
      rw [System.setLen, System.leave, passed_append]
      exact append_nil _
    have haccepted : (s.setLen .done).accepted = s.passed := by
      rw [accepted, hpassed]
      exact append_nil _
    refine ⟨?_, trivial, fun n hn => ?_⟩
    · rw [haccepted]
      refine { hblocks with placed := fun idx _ => .inl fun i _ _ _ => ?_ }
      show (resize s.content s.written)[i]? = s.passed[i]?
      rw [hcontent]
    · rw [hpassed]
      refine ⟨hcontent, ?_⟩
      rcases mem_append.mp hn with hn | hn
      · exact absurd hn (hshape.unfinished hc nofun n)
      · cases mem_singleton.mp hn
        exact hblocks.count

theorem Kept.call (h : Kept s) (hshape : Shape s) (hc : s.caller = .outside)
    {c : Call} (hg : s.guarded (.call c) = true) : Kept (s.call c) := by
  have hopen := hshape.unfinished hc nofun
  have hstage := h.stage_at hc
  have hblocks : Blocks s (s.passed ++ []) := h.blocks_at hc
  cases c with
  | write data =>
    refine Kept.turn hblocks hopen hstage rfl ?_
    simp only [guarded, Bool.and_eq_true, decide_eq_true_eq] at hg
    rw [append_nil]
    exact hg.2
  | flush | finish => exact ⟨{ hblocks with }, hstage, hopen.elim⟩

theorem Kept.advance (h : Kept s) (hshape : Shape s) (hclean : Clean s)
    (hs : s.advance answer = some s') (hclean' : Clean s') : Kept s' := by
  rw [System.advance] at hs
  split at hs
  · cases hs
  · next p hc => cases hs; exact h.available hshape hclean hc
  · next p hc => cases hs; exact h.rotate hshape hc hclean'
  · next p hc => cases hs; exact h.takeSlot hshape hclean hc
  · next hc =>
    cases hs
    have hopen := hshape.unfinished hc (by simp)
    have hstage := h.stage_at hc
    have hblocks : Blocks s (s.passed ++ []) := h.blocks_at hc
    rw [if_neg (by rw [hclean.noErr]; simp)]
    have hpassed : (s.reply .flushed).accepted = s.passed ++ [] := by
      rw [accepted, System.reply, passed_append]
      simp [Reply.passed, Caller.done]
    refine ⟨?_, hstage, fun n hn => absurd hn (hopen.append (by simp) n)⟩
    rw [hpassed]
    exact { hblocks with }
  · next hc => cases hs; exact h.handOver hshape hclean hc hclean'
  · next hc =>
    cases hs
    have hopen := hshape.unfinished hc (by simp)
    have hstage := h.stage_at hc
    have hblocks : Blocks s (s.passed ++ []) := h.blocks_at hc
    refine ⟨{ hblocks with exited := fun t ht => ⟨rfl, (hblocks.exited t ht).2⟩ },
      hstage, hopen.elim⟩
  · next hc =>
    split_ifs at hs
    cases hs
    have hopen := hshape.unfinished hc (by simp)
    have hstage := h.stage_at hc
    have hblocks : Blocks s (s.passed ++ []) := h.blocks_at hc
    rw [checkJoined, if_neg (by rw [hclean.noErr]; simp)]
    exact ⟨{ hblocks with }, hstage, hopen.elim⟩
  · next hc => cases hs; exact h.setLen hshape hc hclean'
  · cases hs

/-! ### Every guarded schedule -/

/-- What a guarded schedule keeps. -/
structure Inv (s : System) : Prop where
  shape : Shape s
  kept : Clean s → Kept s

theorem Inv.step (h : Inv s) {e : Event} (hg : s.guarded e = true) (hs : s.step e = some s') :
    Inv s' := by
  refine ⟨h.shape.step hg hs, fun hclean' => ?_⟩
  rcases step_cases hs with ⟨t, -, hpool, hidle, rfl⟩ | ⟨t, slot, idx, buf, answer, hw, rfl⟩ |
    ⟨t, slot, buf, ok, hw, rfl⟩ | ⟨c, rfl, hc, rfl⟩ | ⟨answer, hadv⟩
  · have hclean := hclean'.of_claim hidle
    exact (h.kept hclean).claim h.shape hclean hidle
  · obtain ⟨hclean, rfl⟩ := hclean'.of_transfer hw
    exact (h.kept hclean).transfer h.shape hw
  · obtain ⟨hclean, rfl⟩ := hclean'.of_release hw
    exact (h.kept hclean).release hw
  · have hfollows : Follows s (s.call c) := by
      cases c with
      | write data => exact follows_turn s [] data
      | flush | finish => exact .goto s _
    have hclean := hclean'.of_follows hfollows
    exact (h.kept hclean).call h.shape hc hg
  · have hclean := hclean'.of_follows (follows_advance hadv)
    exact (h.kept hclean).advance h.shape hclean hadv hclean'

theorem Inv.run (h : Inv s) {events : List Event} (hg : s.allGuarded events = true)
    (hs : s.run events = some s') : Inv s' := by
  induction events generalizing s with
  | nil =>
    cases hs
    exact h
  | cons e events ih =>
    rw [System.run] at hs
    rw [allGuarded, Bool.and_eq_true] at hg
    cases hstep : s.step e with
    | none =>
      rw [hstep] at hs
      cases hs
    | some s₁ =>
      rw [hstep] at hs hg
      exact ih (h.step hg.1 hstep) hg.2 hs

theorem Inv.create {inline : Bool} {config : SeqWriterConfig}
    (h : createOn inline config = .ok s) : Inv s := by
  refine ⟨Shape.create h, fun _ => ?_⟩
  rw [createOn] at h
  split at h
  · cases h
  · cases h
    refine ⟨?_, rfl, by simp⟩
    have hnil : ∀ idx, ¬ idx * config.block < 0 := fun idx => Nat.not_lt_zero _
    exact
      { count := rfl
        small := by show 0 < word; decide
        cur := by rintro _ ⟨⟩; simp [newBuf, AlignedBuf.data, accepted, passed, Caller.done]
        own := fun _ => rfl
        placed := fun idx hidx => absurd hidx.1 (hnil idx)
        pending := by simp
        writing := by simp
        busy := by simp [Worker.slot]
        apart := by simp [Worker.slot]
        exited := by simp
        inline := fun _ _ => rfl }

/-- A state in which `finish` has returned `Ok` is clean. -/
theorem Shape.clean_of_finished (h : Shape s) {n : Nat} (hn : .finished n ∈ s.replies) :
    Clean s := by
  obtain ⟨hrep, herr, hjoined⟩ := h.place_at (h.finished n hn) ⟨n, hn⟩
  refine ⟨herr, hrep, fun t slot buf hw => ?_⟩
  exact (h.pooled (t := t) (by rw [hw]; simp)).not_joined (by rw [hw]; simp) hjoined

/-- After every guarded schedule of calls, threads and failures: `finish` has returned `Ok(n)` only
for a file with exactly the `n` bytes passed to the successful writes, after an error every call has
failed, and none has panicked. -/
theorem run_honest {inline : Bool} {config : SeqWriterConfig} {s₀ s : System}
    {events : List Event} (hcreate : createOn inline config = .ok s₀)
    (hg : s₀.allGuarded events = true) (hrun : s₀.run events = some s) : Honest s := by
  have hinv := (Inv.create hcreate).run hg hrun
  exact
    { finished := fun n hn => (hinv.kept (hinv.shape.clean_of_finished hn)).finished n hn
      sticky := hinv.shape.sticky
      noPanic := hinv.shape.noPanic }

end System

namespace Example

/-- One thread, two slots of one sector. -/
def oneThread : SeqWriterConfig := { threads := 1, slots := 2, block := 4096 }

/-- A block and one byte are written. The thread writes the block while `flush` runs, and the padded
byte while `finish` waits. -/
def acrossBlocks : List Event :=
  [.call (.write (replicate 4096 1 ++ [2]))] ++ replicate 6 (.advance .done) ++
    [.claim 0, .call .flush, .transfer 0 .done, .advance .done, .release 0, .call .finish,
      .advance .done, .advance .done, .claim 0, .transfer 0 .done, .release 0, .claim 0,
      .advance .done, .advance .done]

/-- The write of the first block fails and the thread leaves. `flush` reports the error; `finish`
finds none, and no thread to write the second block. -/
def reportedOnce : List Event :=
  [.call (.write (replicate 4097 1))] ++ replicate 6 (.advance .done) ++
    [.claim 0, .transfer 0 (.failed 0), .release 0, .claim 0, .call .flush, .advance .done,
      .call .finish, .advance .done, .advance .done, .advance .done, .advance .done]

end Example

open SeqWrite.Example

theorem run_honest_acrossBlocks :
    ∃ s s', createOn false oneThread = .ok s ∧ s.allGuarded acrossBlocks = true ∧
      s.run acrossBlocks = some s' ∧ s'.replies[1]? = some .flushed ∧
      s'.replies[2]? = some (.finished 4097) ∧ s'.content[4096]? = some 2 ∧ s'.Honest := by
  have heval : (createOn false oneThread).toOption.any (fun s =>
      s.allGuarded acrossBlocks && (s.run acrossBlocks).any fun s' =>
        decide (s'.replies[1]? = some .flushed ∧ s'.replies[2]? = some (.finished 4097) ∧
          s'.content[4096]? = some 2)) = true := by
    decide +kernel
  obtain ⟨s, hs, hrun⟩ := (Option.any_eq_true _ _).mp heval
  obtain ⟨hguard, hrun⟩ := Bool.and_eq_true_iff.mp hrun
  obtain ⟨s', hs', hend⟩ := (Option.any_eq_true _ _).mp hrun
  obtain ⟨hflushed, hfinished, hcontent⟩ := of_decide_eq_true hend
  have hcreate : createOn false oneThread = .ok s := by
    cases h : createOn false oneThread with
    | error e => rw [h] at hs; cases hs
    | ok s₀ => rw [h] at hs; cases hs; rfl
  exact ⟨s, s', hcreate, hguard, hs', hflushed, hfinished, hcontent,
    System.run_honest hcreate hguard hs'⟩

/-- `finish` returns `Ok` for a file of zeros, after an error was reported. -/
theorem not_honest_flush :
    ∃ s', (createOn false oneThread).toOption.bind (System.run · reportedOnce) =
        some s' ∧
      s'.replies[1]? = some .error ∧ s'.replies[2]? = some (.finished 4097) ∧
      s'.content[0]? = some 0 ∧ s'.passed[0]? = some 1 ∧ ¬ s'.Honest := by
  have heval : ((createOn false oneThread).toOption.bind
      (System.run · reportedOnce)).any (fun s' =>
        decide (s'.replies[1]? = some .error ∧ s'.replies[2]? = some (.finished 4097) ∧
          s'.content[0]? = some 0 ∧ s'.passed[0]? = some 1)) = true := by decide +kernel
  obtain ⟨s', hs', hend⟩ := (Option.any_eq_true _ _).mp heval
  obtain ⟨herror, hfinished, hcontent, hpassed⟩ := of_decide_eq_true hend
  refine ⟨s', hs', herror, hfinished, hcontent, hpassed, fun h => ?_⟩
  obtain ⟨heq, -⟩ := h.finished 4097 (mem_of_getElem? hfinished)
  rw [heq, hpassed] at hcontent
  exact absurd hcontent (by decide)

end Rsl.Storage.SeqWrite
