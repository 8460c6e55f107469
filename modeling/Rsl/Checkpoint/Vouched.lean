import Rsl.Cpp.StreamReader
import Rsl.Wire.RoundTrip

/-!
# What the C++ checkpoint reader hands out

`Session.run_verified`: in a session whose calls are all guarded, every byte handed to the
application is from the payload of a block with a matching checksum. The invariant is `Loaded`:
unless the last block that was tried ended in an error, `m_dataBlock` starts with the payload of an
intact block, and the file is read next at a block boundary or at its end.
-/

set_option autoImplicit false

namespace Rsl.Cpp

open Wire StreamReader List
open Lib.Sealed (blockAt payload stored Intact Vouched)

namespace StreamReader

variable {s s' : StreamReader}

/-- What the calls of a reader never change. -/
structure Same (s s' : StreamReader) : Prop where
  file : s'.file = s.file
  offset : s'.offset = s.offset
  defaultBlockSize : s'.defaultBlockSize = s.defaultBlockSize
  dataSize : s'.dataSize = s.dataSize
  length : s'.dataBlock.length = s.dataBlock.length

theorem Same.refl (s : StreamReader) : Same s s := ⟨rfl, rfl, rfl, rfl, rfl⟩

theorem Same.trans {s'' : StreamReader} (h : Same s s') (h' : Same s' s'') : Same s s'' :=
  ⟨h'.file.trans h.file, h'.offset.trans h.offset, h'.defaultBlockSize.trans h.defaultBlockSize,
    h'.dataSize.trans h.dataSize, h'.length.trans h.length⟩

/-- The block at `start` is being read: what is there of it so far. -/
structure Reading (s : StreamReader) (start : Nat) : Prop where
  pos : s.pos = start + s.currentBlockSize
  data : s.dataBlock.take s.currentBlockSize = (s.file.drop start).take s.currentBlockSize
  inside : s.currentBlockSize ≤ s.dataBlock.length
  inFile : 0 < s.currentBlockSize → start + s.currentBlockSize ≤ s.file.length

/-- An answer of bytes extends the block. -/
theorem Reading.keep {start n k : Nat} (h : Reading s start) {bytes : Bytes}
    (hroom : s.currentBlockSize + n ≤ s.dataBlock.length)
    (hf : s.fetch n (.bytes k) = some (s', .ok bytes)) :
    Reading (s'.keep bytes) start ∧ Same s (s'.keep bytes) ∧ bytes.length = k ∧ 0 < k ∧ k ≤ n ∧
      (s'.keep bytes).currentBlockSize = s.currentBlockSize + k ∧
      (s'.keep bytes).dataReadOffset = s.dataReadOffset := by
  rw [fetch] at hf
  split_ifs at hf with hk
  cases hf
  obtain ⟨hpos, hle, hend⟩ := hk
  have hlen : ((s.file.drop s.pos).take k).length = k := by
    rw [length_take, length_drop]
    omega
  refine ⟨⟨?_, ?_, ?_, fun _ => ?_⟩, ⟨rfl, rfl, rfl, rfl, ?_⟩, hlen, hpos, hle, ?_, rfl⟩
  · simp only [keep, hlen]
    rw [h.pos]
    omega
  · -- the bytes follow those that are there
    simp only [keep, hlen]
    have hfront : (s.dataBlock.take s.currentBlockSize ++ (s.file.drop s.pos).take k).length =
        s.currentBlockSize + k := by
      rw [length_append, hlen, length_take, min_eq_left h.inside]
    rw [take_left' hfront, h.data, h.pos, take_add, drop_drop]
  · simp only [keep, hlen, length_append, length_take, length_drop]
    omega
  · simp only [keep, hlen]
    rw [h.pos] at hend
    omega
  · simp only [keep, hlen, length_append, length_take, length_drop]
    omega
  · simp only [keep, hlen]

variable {r : Except Ended Unit} {answers : List Fetch} {n : Nat}

/-- What the loop of `ReadNextDataBlock` leaves: the block, as far as the file has it. -/
theorem Reading.readLoop {start need : Nat}
    (h : Reading s start) (hroom : s.currentBlockSize + need ≤ s.dataBlock.length)
    (hr : s.readLoop need answers = some (s', r)) :
    Same s s' ∧ Reading s' start ∧ s'.dataReadOffset = s.dataReadOffset ∧
      (r = .ok () → s'.currentBlockSize = s.currentBlockSize + need ∨
        (0 < s'.currentBlockSize ∧ s'.currentBlockSize ≤ s.currentBlockSize + need ∧
          s.file.length ≤ s'.pos)) ∧
      (r = .error (.code .handleEof) → s'.currentBlockSize = 0 ∧ s.file.length ≤ s'.pos) := by
  induction answers generalizing s need with
  | nil =>
    rw [readLoop] at hr
    split_ifs at hr with hzero
    cases hr
    exact ⟨.refl _, h, rfl, fun _ => .inl (by omega), by simp⟩
  | cons answer more ih =>
    rw [readLoop] at hr
    split_ifs at hr with hzero
    · cases hr
      exact ⟨.refl _, h, rfl, fun _ => .inl (by omega), by simp⟩
    · cases answer with
      | bytes k =>
        cases hf : s.fetch need (.bytes k) with
        | none =>
          rw [hf] at hr
          cases hr
        | some res =>
          obtain ⟨s₁, result⟩ := res
          cases result with
          | error e =>
            rw [fetch] at hf
            split_ifs at hf
            cases hf
          | ok bytes =>
            rw [hf] at hr
            obtain ⟨hreading, hsame, hlen, -, hle, hsize, hoff⟩ := h.keep hroom hf
            have hroom' : (s₁.keep bytes).currentBlockSize + (need - bytes.length) ≤
                (s₁.keep bytes).dataBlock.length := by
              rw [hsame.length, hsize]
              omega
            obtain ⟨h1, h2, h3, h4, h5⟩ := ih hreading hroom' hr
            refine ⟨hsame.trans h1, h2, h3.trans hoff, fun hok => ?_, fun he => ?_⟩
            · rcases h4 hok with heq | ⟨hpos, hle', hend⟩
              · exact .inl (by omega)
              · exact .inr ⟨hpos, by omega, by rw [← hsame.file]; exact hend⟩
            · rw [← hsame.file]
              exact h5 he
      | eof =>
        rw [fetch] at hr
        split_ifs at hr with hend
        dsimp only at hr
        split_ifs at hr with hpos
        · cases hr
          exact ⟨.refl _, h, rfl, fun _ => .inr ⟨hpos, by omega, hend⟩, by simp⟩
        · cases hr
          exact ⟨.refl _, h, rfl, by simp, fun _ => ⟨by omega, hend⟩⟩
      | failed =>
        rw [fetch] at hr
        dsimp only at hr
        cases hr
        exact ⟨.refl _, h, rfl, by simp, by simp⟩

/-- The file is read next at a block boundary or at its end. -/
def Aligned (s : StreamReader) : Prop :=
  (∃ k, s.pos = s.offset + k * s.defaultBlockSize) ∨ s.file.length ≤ s.pos

/-- `m_dataBlock` starts with the payload of an intact block, if any of it counts. -/
structure Loaded (s : StreamReader) : Prop where
  aligned : s.Aligned
  inside : s.currentBlockSize ≤ s.dataBlock.length
  block : 0 < s.currentBlockSize → ∃ k,
    Intact checksumSize blockMark (blockAt s.defaultBlockSize s.body k) ∧
      s.dataBlock.take s.currentBlockSize =
        payload checksumSize (blockAt s.defaultBlockSize s.body k)

/-- What `ReadNextDataBlock` makes of the checksum. -/
theorem verifyBlock_cases (s : StreamReader) :
    s.verifyBlock = (s, .error (.code .crc)) ∨
    (∃ e, e ≠ .code .handleEof ∧ s.verifyBlock =
      ({ s with currentBlockSize := s.currentBlockSize - checksumSize }, .error e)) ∨
    (checksumSize < s.currentBlockSize ∧
      leNat ((s.dataBlock.drop (s.currentBlockSize - checksumSize)).take checksumSize) =
        fingerprint (s.dataBlock.take (s.currentBlockSize - checksumSize)) ∧
      s.verifyBlock =
        ({ s with currentBlockSize := s.currentBlockSize - checksumSize }, .ok ())) := by
  by_cases hshort : s.currentBlockSize < checksumSize
  · exact .inl (by rw [verifyBlock, if_pos hshort])
  · by_cases hsum :
      leNat ((s.dataBlock.drop (s.currentBlockSize - checksumSize)).take checksumSize) =
        fingerprint (s.dataBlock.take (s.currentBlockSize - checksumSize))
    · by_cases hzero : s.currentBlockSize - checksumSize = 0
      · refine .inr (.inl ⟨.aborted, by simp, ?_⟩)
        rw [verifyBlock, if_neg hshort]
        dsimp only
        rw [if_neg (not_not.mpr hsum), if_pos hzero]
      · refine .inr (.inr ⟨by omega, hsum, ?_⟩)
        rw [verifyBlock, if_neg hshort]
        dsimp only
        rw [if_neg (not_not.mpr hsum), if_neg hzero]
    · refine .inr (.inl ⟨.code .crc, by simp, ?_⟩)
      rw [verifyBlock, if_neg hshort]
      dsimp only
      rw [if_pos hsum]

/-- The checksum of a block that was read is right: the block is intact. -/
theorem Reading.verifyBlock {k : Nat} (h : Reading s (s.offset + k * s.defaultBlockSize))
    (hwhole : (s.dataBlock.take s.currentBlockSize) = blockAt s.defaultBlockSize s.body k)
    (hv : s.verifyBlock = (s', .ok ())) :
    Same s s' ∧ s'.pos = s.pos ∧ s'.dataReadOffset = s.dataReadOffset ∧ 0 < s'.currentBlockSize ∧
      s'.currentBlockSize ≤ s.currentBlockSize ∧
      Intact checksumSize blockMark (blockAt s.defaultBlockSize s.body k) ∧
      s'.dataBlock.take s'.currentBlockSize =
        payload checksumSize (blockAt s.defaultBlockSize s.body k) := by
  have hlen : (blockAt s.defaultBlockSize s.body k).length = s.currentBlockSize := by
    rw [← hwhole, length_take, min_eq_left h.inside]
  obtain ⟨hlong, hsum, rfl⟩ : checksumSize < s.currentBlockSize ∧
      leNat ((s.dataBlock.drop (s.currentBlockSize - checksumSize)).take checksumSize) =
        fingerprint (s.dataBlock.take (s.currentBlockSize - checksumSize)) ∧
      s' = { s with currentBlockSize := s.currentBlockSize - checksumSize } := by
    rcases s.verifyBlock_cases with heq | ⟨e, -, heq⟩ | ⟨hlong, hsum, heq⟩
    · rw [heq] at hv
      cases hv
    · rw [heq] at hv
      cases hv
    · rw [heq] at hv
      cases hv
      exact ⟨hlong, hsum, rfl⟩
  have hpayload : s.dataBlock.take (s.currentBlockSize - checksumSize) =
      payload checksumSize (blockAt s.defaultBlockSize s.body k) := by
    rw [payload, hlen, ← hwhole, take_take, min_eq_left (Nat.sub_le _ _)]
  have hstored : (s.dataBlock.drop (s.currentBlockSize - checksumSize)).take checksumSize =
      stored checksumSize (blockAt s.defaultBlockSize s.body k) := by
    rw [stored, hlen, ← hwhole, drop_take]
    congr 1
    omega
  refine ⟨⟨rfl, rfl, rfl, rfl, rfl⟩, rfl, rfl, Nat.sub_pos_of_lt hlong, Nat.sub_le _ _,
    ⟨by omega, ?_⟩, hpayload⟩
  rw [hstored, hpayload] at hsum
  have htoken : (stored checksumSize (blockAt s.defaultBlockSize s.body k)).length = 8 := by
    rw [stored, length_drop, hlen]
    unfold checksumSize at *
    omega
  rw [blockMark, ← hsum, ← htoken, leBytes_leNat]

theorem same_of_verifyBlock (hv : s.verifyBlock = (s', r)) :
    Same s s' := by
  rcases s.verifyBlock_cases with heq | ⟨e, -, heq⟩ | ⟨-, -, heq⟩ <;>
    rw [heq] at hv <;> cases hv <;> exact ⟨rfl, rfl, rfl, rfl, rfl⟩

theorem not_eof_of_verifyBlock (hv : s.verifyBlock = (s', .error (.code .handleEof))) : False := by
  rcases s.verifyBlock_cases with heq | ⟨e, hne, heq⟩ | ⟨-, -, heq⟩
  · rw [heq] at hv
    cases hv
  · rw [heq] at hv
    cases hv
    exact hne rfl
  · rw [heq] at hv
    cases hv

/-- A block that was read to its end or to the end of the file is a block of the file. -/
theorem Reading.whole {k : Nat} (h : Reading s (s.offset + k * s.defaultBlockSize))
    (hle : s.currentBlockSize ≤ s.defaultBlockSize)
    (hend : s.currentBlockSize = s.defaultBlockSize ∨ s.file.length ≤ s.pos) :
    s.dataBlock.take s.currentBlockSize = blockAt s.defaultBlockSize s.body k := by
  rw [h.data, blockAt, body, drop_drop]
  rcases hend with heq | hend
  · rw [heq]
  · rw [h.pos] at hend
    rw [take_of_length_le (by rw [length_drop]; omega),
      take_of_length_le (by rw [length_drop]; omega)]

/-- What `ReadNextDataBlock` leaves when it starts at a block boundary. -/
theorem Aligned.readNextDataBlock (h : s.Aligned) (hlen : s.dataBlock.length = s.defaultBlockSize)
    (hr : s.readNextDataBlock answers = some (s', r)) :
    Same s s' ∧ (r = .ok () ∨ r = .error (.code .handleEof) → Loaded s') ∧
      (r = .ok () → s'.dataReadOffset = 0 ∧ 0 < s'.currentBlockSize) := by
  rw [StreamReader.readNextDataBlock] at hr
  generalize hs₀ : ({ s with
    dataReadOffset := 0
    currentBlockSize := 0
    nextblockOffset := s.nextblockOffset + s.defaultBlockSize } : StreamReader) = s₀ at hr
  have hsame₀ : Same s s₀ := by subst hs₀; exact ⟨rfl, rfl, rfl, rfl, rfl⟩
  have hpos₀ : s₀.pos = s.pos := by subst hs₀; rfl
  have hzero₀ : s₀.currentBlockSize = 0 := by subst hs₀; rfl
  have hoff₀ : s₀.dataReadOffset = 0 := by subst hs₀; rfl
  have hreading : Reading s₀ s.pos := by
    refine ⟨by rw [hzero₀, hpos₀, add_zero], by rw [hzero₀]; simp, by rw [hzero₀]; simp, ?_⟩
    rw [hzero₀]
    intro hlt
    exact absurd hlt (lt_irrefl 0)
  rw [hsame₀.defaultBlockSize] at hr
  cases hloop : s₀.readLoop s.defaultBlockSize answers with
  | none =>
    rw [hloop] at hr
    cases hr
  | some res =>
    obtain ⟨s₁, result⟩ := res
    obtain ⟨hsame, hread, hoff, hok, heof⟩ := hreading.readLoop
      (by rw [hzero₀, hsame₀.length, hlen]; omega) hloop
    have hsame' := hsame₀.trans hsame
    rw [hloop] at hr
    cases result with
    | error e =>
      cases hr
      refine ⟨hsame', fun hcase => ?_, fun hcase => by cases hcase⟩
      rcases hcase with hcase | hcase
      · cases hcase
      · obtain ⟨hzero, hend⟩ := heof hcase
        refine ⟨.inr ?_, by omega, fun hlt => by omega⟩
        rw [hsame'.file, ← hsame₀.file]
        exact hend
    | ok u =>
      have hr : s₁.verifyBlock = (s', r) := Option.some.inj hr
      have hsame₂ : Same s₁ s' := same_of_verifyBlock hr
      have heof : r ≠ .error (.code .handleEof) := fun he => by
        rw [he] at hr
        exact not_eof_of_verifyBlock hr
      -- a block was read, so the reader was not at the end of the file
      have hloaded : r = .ok () → Loaded s' ∧ s'.dataReadOffset = 0 ∧ 0 < s'.currentBlockSize := by
        rintro rfl
        rcases h with ⟨k, hk⟩ | hend
        · rw [hk, ← hsame'.offset, ← hsame'.defaultBlockSize] at hread
          have hfull : s₁.currentBlockSize = s₁.defaultBlockSize ∨ s₁.file.length ≤ s₁.pos := by
            rw [hsame'.defaultBlockSize, hsame.file]
            rcases hok rfl with heq | ⟨-, -, hend⟩
            · exact .inl (by omega)
            · exact .inr hend
          have hle : s₁.currentBlockSize ≤ s₁.defaultBlockSize := by
            rw [hsame'.defaultBlockSize]
            rcases hok rfl with heq | ⟨-, hle, -⟩ <;> omega
          obtain ⟨-, hpos, hoff', hlt, hsize, hintact, hdata⟩ :=
            hread.verifyBlock (hread.whole hle hfull) hr
          have hbody : s'.body = s₁.body := by rw [body, body, hsame₂.file, hsame₂.offset]
          refine ⟨⟨?_, ?_, fun _ => ⟨k, ?_, ?_⟩⟩, by rw [hoff', hoff, hoff₀], hlt⟩
          · rw [Aligned, hpos, hsame₂.offset, hsame₂.defaultBlockSize, hsame₂.file]
            rcases hfull with heq | hend
            · refine .inl ⟨k + 1, ?_⟩
              rw [hread.pos, heq, Nat.succ_mul, add_assoc]
            · exact .inr hend
          · rw [hsame₂.length]
            exact hsize.trans hread.inside
          · rw [hsame₂.defaultBlockSize, hbody]
            exact hintact
          · rw [hsame₂.defaultBlockSize, hbody]
            exact hdata
        · exfalso
          have hzero : s₁.currentBlockSize = 0 := by
            by_contra hne
            have := hread.inFile (by omega)
            rw [hsame'.file] at this
            omega
          rcases s₁.verifyBlock_cases with heq | ⟨e, -, heq⟩ | ⟨hlong, -, heq⟩
          · rw [heq] at hr
            cases hr
          · rw [heq] at hr
            cases hr
          · omega
      refine ⟨hsame'.trans hsame₂, fun hcase => ?_, fun hcase => (hloaded hcase).2⟩
      exact (hloaded (hcase.resolve_right heof)).1

section

variable (hword : s.currentBlockSize < word) (hle : s.dataReadOffset ≤ s.currentBlockSize)

include hword hle

/-- Inside the block, `GetDataPointer` gives what is left of it. -/
theorem bytesRead_of_le :
    s.bytesRead n = min (s.currentBlockSize - s.dataReadOffset) n := by
  have hleft : sub32 s.currentBlockSize s.dataReadOffset =
      s.currentBlockSize - s.dataReadOffset := by
    rw [sub32, Nat.sub_add_comm hle, Nat.add_mod_right, Nat.mod_eq_of_lt (by omega)]
  rw [bytesRead, hleft]
  split_ifs <;> omega

theorem handOut_of_le :
    s.handOut n =
      ({ s with
        dataReadOffset := s.dataReadOffset + min (s.currentBlockSize - s.dataReadOffset) n },
        .ok ((s.dataBlock.drop s.dataReadOffset).take
          (min (s.currentBlockSize - s.dataReadOffset) n))) := by
  rw [handOut, bytesRead_of_le hword hle]
  rw [Nat.mod_eq_of_lt (by omega), if_pos (by omega)]

end

/-- Behind the block, its `LogAssert` fails unless the length wraps. -/
theorem handOut_of_lt (hlt : s.currentBlockSize < s.dataReadOffset)
    (hword : s.dataReadOffset + n < word) : (s.handOut n).2 = .error .aborted := by
  have hleft : sub32 s.currentBlockSize s.dataReadOffset > n := by
    rw [sub32, Nat.mod_eq_of_lt (by omega)]
    omega
  rw [handOut, bytesRead]
  rw [if_pos hleft, Nat.mod_eq_of_lt hword, if_neg (by omega)]

/-- Only the read offset moves. -/
theorem handOut_fst (s : StreamReader) (n : Nat) :
    (s.handOut n).1 = { s with dataReadOffset := (s.dataReadOffset + s.bytesRead n) % word } :=
  rfl

/-- The end of the file is only reported by `ReadNextDataBlock`. -/
theorem handOut_same (s : StreamReader) (n : Nat) :
    Same s (s.handOut n).1 ∧ (s.handOut n).2 ≠ .error (.code .handleEof) := by
  constructor
  · rw [handOut_fst]
    exact ⟨rfl, rfl, rfl, rfl, rfl⟩
  rw [handOut]
  split
  · simp
  · simp

/-- The read offset is not part of what is loaded. -/
theorem Loaded.setOffset (h : Loaded s) (off : Nat) : Loaded { s with dataReadOffset := off } :=
  ⟨h.aligned, h.inside, h.block⟩

/-- Bytes that are handed out are of the block, unless the length wrapped. -/
theorem Loaded.handOut (h : Loaded s) {bytes : Bytes} (hword : s.currentBlockSize < word)
    (hguard : s.dataReadOffset ≤ s.currentBlockSize ∨ s.dataReadOffset + n < word)
    (hr : s.handOut n = (s', .ok bytes)) :
    Loaded s' ∧ Same s s' ∧ (bytes ≠ [] →
      Vouched s.defaultBlockSize checksumSize blockMark s.body bytes) := by
  rcases lt_or_ge s.currentBlockSize s.dataReadOffset with hlt | hle
  · have habort := handOut_of_lt hlt (hguard.resolve_left (by omega))
    rw [hr] at habort
    cases habort
  · rw [handOut_of_le hword hle] at hr
    cases hr
    refine ⟨h.setOffset _, ⟨rfl, rfl, rfl, rfl, rfl⟩, fun hne => ?_⟩
    generalize hn : min (s.currentBlockSize - s.dataReadOffset) n = count at hne
    have hpos : 0 < s.currentBlockSize := by
      by_contra hzero
      obtain rfl : count = 0 := by omega
      exact hne (take_zero)
    obtain ⟨k, hintact, hdata⟩ := h.block hpos
    have hslice : (s.dataBlock.drop s.dataReadOffset).take count =
        ((payload checksumSize (blockAt s.defaultBlockSize s.body k)).drop s.dataReadOffset).take
          count := by
      rw [← hdata, drop_take, take_take, min_eq_left (by omega)]
    rw [hslice]
    exact .of_slice hintact _ _

/-- A call that returns, or reports the end of the file, leaves the reader loaded. -/
def Fine {α : Type} (r : Except Ended α) : Prop :=
  match r with
  | .ok _ => True
  | .error e => e = .code .handleEof

theorem Aligned.fine_readNextDataBlock
    (h : s.Aligned) (hlen : s.dataBlock.length = s.defaultBlockSize)
    (hr : s.readNextDataBlock answers = some (s', r)) : Same s s' ∧ (Fine r → Loaded s') := by
  obtain ⟨hsame, hloaded, -⟩ := h.readNextDataBlock hlen hr
  refine ⟨hsame, fun hfine => hloaded ?_⟩
  cases r with
  | ok u => exact .inl rfl
  | error e => exact .inr (congrArg _ hfine)

theorem Loaded.getData (h : Loaded s) {r : Except Ended Bytes}
    (hsize : s.defaultBlockSize ≠ 0) (hlen : s.dataBlock.length = s.defaultBlockSize)
    (hword : s.defaultBlockSize < word)
    (hguard : s.dataReadOffset ≤ s.currentBlockSize ∨ s.dataReadOffset + n < word)
    (hr : s.getData n answers = some (s', r)) :
    Same s s' ∧ (Fine r → Loaded s') ∧ ∀ bytes, r = .ok bytes → bytes ≠ [] →
      Vouched s.defaultBlockSize checksumSize blockMark s.body bytes := by
  -- handing out from a loaded block, whether or not it was just read
  have hout : ∀ s₁, Loaded s₁ → Same s s₁ →
      (s₁.dataReadOffset ≤ s₁.currentBlockSize ∨ s₁.dataReadOffset + n < word) →
      s₁.handOut n = (s', r) → Same s s' ∧ (Fine r → Loaded s') ∧ ∀ bytes, r = .ok bytes →
        bytes ≠ [] → Vouched s.defaultBlockSize checksumSize blockMark s.body bytes := by
    intro s₁ hloaded hsame hguard hr
    have hcur : s₁.currentBlockSize < word := by
      have := hloaded.inside
      rw [hsame.length] at this
      omega
    cases r with
    | ok bytes =>
      obtain ⟨hloaded', hsame', hvouched⟩ := hloaded.handOut hcur hguard hr
      refine ⟨hsame.trans hsame', fun _ => hloaded', ?_⟩
      rintro _ ⟨⟩
      rwa [hsame.defaultBlockSize, body, hsame.file, hsame.offset] at hvouched
    | error e =>
      obtain ⟨hsame', heof⟩ := s₁.handOut_same n
      rw [hr] at hsame' heof
      exact ⟨hsame.trans hsame', fun hfine => absurd (congrArg _ hfine) heof, by simp⟩
  rw [getData.eq_def, if_neg hsize] at hr
  split_ifs at hr with hdrained
  · cases hread : s.readNextDataBlock answers with
    | none =>
      rw [hread] at hr
      cases hr
    | some res =>
      obtain ⟨s₁, result⟩ := res
      obtain ⟨hsame, hloaded, hok⟩ := h.aligned.readNextDataBlock hlen hread
      rw [hread] at hr
      cases result with
      | error e =>
        cases hr
        exact ⟨hsame, fun hfine => hloaded (.inr (congrArg _ hfine)), by simp⟩
      | ok u =>
        refine hout s₁ (hloaded (.inl rfl)) hsame (.inl ?_) (Option.some.inj hr)
        rw [(hok rfl).1]
        exact Nat.zero_le _
  · exact hout s h (.refl s) hguard (Option.some.inj hr)

theorem Loaded.passOver {left : Nat} (h : Loaded s) (hpass : s.passOver n = (s', left)) :
    Same s s' ∧ Loaded s' := by
  cases hpass
  exact ⟨⟨rfl, rfl, rfl, rfl, rfl⟩, h.setOffset _⟩

/-- The block behind the bytes that were passed over. -/
theorem Loaded.readNext {left : Nat} {s₁ : StreamReader} (h : Loaded s)
    (hlen : s.dataBlock.length = s.defaultBlockSize) (hpass : s.passOver n = (s₁, left))
    (hread : s₁.readNextDataBlock answers = some (s', r)) : Same s s' ∧ (Fine r → Loaded s') := by
  obtain ⟨hsame, hloaded⟩ := h.passOver hpass
  obtain ⟨hsame', hloaded'⟩ := hloaded.aligned.fine_readNextDataBlock
    (by rw [hsame.length, hsame.defaultBlockSize, hlen]) hread
  exact ⟨hsame.trans hsame', hloaded'⟩

theorem Loaded.skip (h : Loaded s) {answers : List (List Fetch)}
    (hlen : s.dataBlock.length = s.defaultBlockSize) (hr : s.skip n answers = some (s', r)) :
    Same s s' ∧ (Fine r → Loaded s') := by
  fun_induction StreamReader.skip s n answers with
  | case1 =>
    cases hr
    exact ⟨.refl _, fun _ => h⟩
  | case2 =>
    cases hr
    exact ⟨.refl _, fun hfine => by cases hfine⟩
  | case3 _ _ _ _ _ _ hpass =>
    cases hr
    obtain ⟨hsame, hloaded⟩ := h.passOver hpass
    exact ⟨hsame, fun _ => hloaded⟩
  | case4 => cases hr
  | case5 => cases hr
  | case6 _ _ _ _ _ _ hpass _ _ _ _ _ hread =>
    cases hr
    exact h.readNext hlen hpass hread
  | case7 _ _ _ _ _ _ hpass _ _ _ _ hread ih =>
    obtain ⟨hsame, hloaded⟩ := h.readNext hlen hpass hread
    obtain ⟨hsame', hloaded'⟩ :=
      ih (hloaded trivial) (by rw [hsame.length, hsame.defaultBlockSize, hlen]) hr
    exact ⟨hsame.trans hsame', hloaded'⟩

/-- `Seek` to another block does not depend on what was loaded. -/
theorem seek_leaves {offset : Nat}
    (hlen : s.dataBlock.length = s.defaultBlockSize) (hleaves : s.leaves offset = true)
    (hr : s.seek offset answers = some (s', r)) : Same s s' ∧ (Fine r → Loaded s') := by
  rw [seek] at hr
  dsimp only at hr
  rw [if_pos hleaves] at hr
  generalize hs₁ : ({ s with
    nextblockOffset := s.offset + offset / (s.defaultBlockSize - checksumSize) * s.defaultBlockSize
    pos := s.offset + offset / (s.defaultBlockSize - checksumSize) * s.defaultBlockSize
    currentBlockSize := 0 } : StreamReader) = s₁ at hr
  have hsame₁ : Same s s₁ := by subst hs₁; exact ⟨rfl, rfl, rfl, rfl, rfl⟩
  have haligned : s₁.Aligned := by subst hs₁; exact .inl ⟨_, rfl⟩
  cases hread : s₁.readNextDataBlock answers with
  | none =>
    rw [hread] at hr
    cases hr
  | some res =>
    obtain ⟨s₂, result⟩ := res
    obtain ⟨hsame₂, hloaded₂⟩ := haligned.fine_readNextDataBlock
      (by rw [hsame₁.length, hsame₁.defaultBlockSize, hlen]) hread
    rw [hread] at hr
    cases hr
    have hsame := hsame₁.trans hsame₂
    exact ⟨⟨hsame.file, hsame.offset, hsame.defaultBlockSize, hsame.dataSize, hsame.length⟩,
      fun hfine => (hloaded₂ hfine).setOffset _⟩

theorem seek_stays {offset : Nat}
    (hleaves : s.leaves offset = false) (hr : s.seek offset answers = some (s', r)) :
    Same s s' ∧ (Loaded s → Loaded s') := by
  rw [seek] at hr
  dsimp only at hr
  rw [hleaves, if_neg Bool.false_ne_true] at hr
  cases hr
  exact ⟨⟨rfl, rfl, rfl, rfl, rfl⟩, fun h => h.setOffset _⟩

end StreamReader

namespace Session

variable {s s' : Session}

/-- What a guarded session keeps. -/
structure Inv (s : Session) : Prop where
  size : s.reader.defaultBlockSize ≠ 0
  word : s.reader.defaultBlockSize < word
  length : s.reader.dataBlock.length = s.reader.defaultBlockSize
  loaded : s.broken = false → Loaded s.reader
  verified : s.Verified

/-- A call leaves the file alone, so what was handed out stays verified. -/
theorem Inv.next (h : Inv s) (hsame : Same s.reader s'.reader)
    (hloaded : s'.broken = false → Loaded s'.reader)
    (hhanded : ∀ bytes ∈ s'.handed, bytes ∈ s.handed ∨ (bytes ≠ [] →
      Vouched s.reader.defaultBlockSize checksumSize blockMark s.reader.body bytes)) : Inv s' where
  size := by rw [hsame.defaultBlockSize]; exact h.size
  word := by rw [hsame.defaultBlockSize]; exact h.word
  length := by rw [hsame.length, hsame.defaultBlockSize]; exact h.length
  loaded := hloaded
  verified bytes hbytes hne := by
    rw [hsame.defaultBlockSize, body, hsame.file, hsame.offset]
    rcases hhanded bytes hbytes with hold | hnew
    · exact h.verified bytes hold hne
    · exact hnew hne

theorem fine_of_fail {s : Session} {reader : StreamReader} {e : Ended}
    (h : (s.fail reader e).broken = false) : e = .code .handleEof := by
  simpa [fail] using h

theorem Inv.step (h : Inv s) {call : ReaderCall} (hg : s.guarded call = true)
    (hs : s.step call = some s') : Inv s' := by
  rw [Session.step.eq_def] at hs
  split_ifs at hs with hended
  cases call with
  | getData n answers =>
    simp only [guarded, Bool.and_eq_true, Bool.not_eq_true', Bool.or_eq_true,
      decide_eq_true_eq] at hg
    have hloaded := h.loaded hg.1
    dsimp only at hs
    split at hs
    · cases hs
    · next reader bytes hr =>
      cases hs
      obtain ⟨hsame, hfine, hvouched⟩ := hloaded.getData h.size h.length h.word hg.2 hr
      refine h.next hsame (fun _ => hfine trivial) fun b hb => ?_
      rcases mem_append.mp hb with hb | hb
      · exact .inl hb
      · rw [mem_singleton.mp hb]
        exact .inr (hvouched bytes rfl)
    · next reader e hr =>
      cases hs
      obtain ⟨hsame, hfine, -⟩ := hloaded.getData h.size h.length h.word hg.2 hr
      exact h.next hsame (fun hb => hfine (fine_of_fail hb)) fun b hb => .inl hb
  | skip n answers =>
    simp only [guarded, Bool.not_eq_true'] at hg
    have hloaded := h.loaded hg
    dsimp only at hs
    split at hs
    · cases hs
    · next reader hr =>
      cases hs
      obtain ⟨hsame, hfine⟩ := hloaded.skip h.length hr
      exact h.next hsame (fun _ => hfine trivial) fun b hb => .inl hb
    · next reader e hr =>
      cases hs
      obtain ⟨hsame, hfine⟩ := hloaded.skip h.length hr
      exact h.next hsame (fun hb => hfine (fine_of_fail hb)) fun b hb => .inl hb
  | seek offset answers =>
    dsimp only at hs
    cases hleaves : s.reader.leaves offset with
    | true =>
      split at hs
      · cases hs
      · next reader hr =>
        cases hs
        obtain ⟨hsame, hfine⟩ := seek_leaves h.length hleaves hr
        exact h.next hsame (fun _ => hfine trivial) fun b hb => .inl hb
      · next reader e hr =>
        cases hs
        obtain ⟨hsame, hfine⟩ := seek_leaves h.length hleaves hr
        exact h.next hsame (fun hb => hfine (fine_of_fail hb)) fun b hb => .inl hb
    | false =>
      split at hs
      · cases hs
      · next reader hr =>
        cases hs
        obtain ⟨hsame, hfine⟩ := seek_stays hleaves hr
        refine h.next hsame (fun hb => hfine (h.loaded ?_)) fun b hb => .inl hb
        simpa [hleaves] using hb
      · next reader e hr =>
        rw [seek] at hr
        dsimp only at hr
        rw [hleaves, if_neg Bool.false_ne_true] at hr
        cases hr

theorem Inv.run (h : Inv s) {calls : List ReaderCall} (hg : s.allGuarded calls = true)
    (hs : s.run calls = some s') : Inv s' := by
  induction calls generalizing s with
  | nil =>
    cases hs
    exact h
  | cons call calls ih =>
    rw [Session.run] at hs
    rw [allGuarded, Bool.and_eq_true] at hg
    cases hstep : s.step call with
    | none =>
      rw [hstep] at hs
      cases hs
    | some s₁ =>
      rw [hstep] at hs hg
      exact ih (h.step hg.1 hstep) hg.2 hs

end Session
end Rsl.Cpp
