import Rsl.Checkpoint.Vouched
import Rsl.Storage.BlockReader

/-!
# What the checkpoint readers hand out

The Rust reader keeps to the same blocks as the C++ one. While the stream below has not failed it
stands at the start of a block or at the end of the file (`Placed`), and while `block` is not left
over from a failed block it is the payload of an intact one (`Held`). `System` puts the two readers
next to each other.
-/

set_option autoImplicit false

namespace Rsl.Storage

open Wire
open Cpp (checksumSize blockMark)
open Lib.Sealed (blockAt payload stored Intact Vouched)

namespace BlockReader

variable {s s' : BlockReader}

/-- What the calls of a reader never change. -/
structure Same (s s' : BlockReader) : Prop where
  file : s'.file = s.file
  headerLen : s'.headerLen = s.headerLen
  blockSize : s'.blockSize = s.blockSize

theorem Same.refl (s : BlockReader) : Same s s := ⟨rfl, rfl, rfl⟩

/-- The stream stands at the start of a block or at the end of the file. -/
def Placed (s : BlockReader) : Prop :=
  s.remaining = s.file.length - s.position ∧
    (s.remaining = 0 ∨ ∃ k, s.position = s.headerLen + k * s.blockSize)

/-- `block` is empty or the payload of an intact block, and `pos` is inside it. -/
def Held (s : BlockReader) : Prop :=
  s.pos ≤ s.block.length ∧
    (s.block = [] ∨ ∃ k, Intact checksumSize blockMark (blockAt s.blockSize s.body k) ∧
      s.block = payload checksumSize (blockAt s.blockSize s.body k))

theorem length_resize (s : BlockReader) (n : Nat) : (s.resize n).block.length = n := by
  simp only [resize, List.length_append, List.length_take, List.length_replicate]
  omega

/-- The bytes that `read_exact` fills in are the next block. -/
theorem blockAt_of_placed {k : Nat} (hremaining : s.remaining = s.file.length - s.position)
    (hat : s.position = s.headerLen + k * s.blockSize) :
    (s.file.drop s.position).take (min s.remaining s.blockSize) = blockAt s.blockSize s.body k := by
  rw [blockAt, body, List.drop_drop, hat, Nat.min_comm, ← List.take_take]
  congr 1
  rw [List.take_of_length_le]
  rw [List.length_drop, hremaining, hat]

/-- Everything `next_block` can do. -/
inductive NextCases (s s' : BlockReader) : Except Reject (Option Bytes) → Prop where
  | none (hs : s' = s) (hremaining : s.remaining = 0) : NextCases s s' (.ok none)
  | tooShort (hs : s' = s) : NextCases s s' (.error .blockTooShort)
  | io (hsame : Same s s') : NextCases s s' (.error .io)
  | checksum (hsame : Same s s') (hat : s'.position = s.position + min s.remaining s.blockSize)
      (hremaining : s'.remaining = s.remaining - min s.remaining s.blockSize) :
      NextCases s s' (.error .blockChecksum)
  | block (onDisk : Bytes) (hsame : Same s s')
      (hat : s'.position = s.position + min s.remaining s.blockSize)
      (hremaining : s'.remaining = s.remaining - min s.remaining s.blockSize)
      (hne : s.remaining ≠ 0)
      (honDisk : onDisk = (s.file.drop s.position).take (min s.remaining s.blockSize))
      (hlength : checksumSize < onDisk.length)
      (hmatch : fingerprint (payload checksumSize onDisk) = leNat (stored checksumSize onDisk))
      (hblock : s'.block = payload checksumSize onDisk) (hpos : s'.pos = 0) :
      NextCases s s' (.ok (some (payload checksumSize onDisk)))

variable {answer : Exact}

theorem nextBlock_cases {r : Except Reject (Option Bytes)}
    (h : s.nextBlock answer = some (s', r)) : NextCases s s' r := by
  rw [nextBlock] at h
  dsimp only at h
  split_ifs at h with hzero hshort
  · cases h
    exact .none rfl hzero
  · cases h
    exact .tooShort rfl
  have hresize := length_resize s (min s.remaining s.blockSize)
  cases answer with
  | failed k =>
    rw [readExact] at h
    split_ifs at h
    cases h
    exact .io ⟨rfl, rfl, rfl⟩
  | filled =>
    rw [readExact, hresize] at h
    split_ifs at h with hinside
    have hinside' : s.position + min s.remaining s.blockSize ≤ s.file.length := hinside
    have hlength : ((s.file.drop s.position).take (min s.remaining s.blockSize)).length =
        min s.remaining s.blockSize := by
      rw [List.length_take, List.length_drop]
      omega
    simp only [checkBlock, Option.some.injEq] at h
    split_ifs at h with hmatch
    · cases h
      exact .checksum ⟨rfl, rfl, rfl⟩ rfl rfl
    · cases h
      have hpayload :
          payload checksumSize ((s.file.drop s.position).take (min s.remaining s.blockSize)) =
          ((s.file.drop s.position).take (min s.remaining s.blockSize)).take
            (min s.remaining s.blockSize - checksumSize) := by
        rw [payload, hlength]
      rw [show (s.resize (min s.remaining s.blockSize)).file = s.file from rfl,
        show (s.resize (min s.remaining s.blockSize)).position = s.position from rfl] at *
      rw [← hpayload]
      refine .block _ ⟨rfl, rfl, rfl⟩ rfl rfl hzero rfl (by omega) ?_ rfl rfl
      rw [hpayload, stored, hlength]
      exact not_not.mp hmatch

/-- A block passed over leaves the stream at the start of the next one. -/
theorem Placed.next (h : s.Placed) (hsame : Same s s')
    (hat : s'.position = s.position + min s.remaining s.blockSize)
    (hremaining : s'.remaining = s.remaining - min s.remaining s.blockSize) : s'.Placed := by
  obtain ⟨hrest, hplace⟩ := h
  refine ⟨by rw [hremaining, hsame.file, hat, hrest, Nat.sub_sub], ?_⟩
  rcases hplace with hzero | ⟨k, hk⟩
  · exact .inl (by omega)
  · rcases le_total s.remaining s.blockSize with hle | hle
    · exact .inl (by omega)
    · refine .inr ⟨k + 1, ?_⟩
      rw [hat, hsame.headerLen, hsame.blockSize, hk, min_eq_right hle, Nat.succ_mul]
      omega

/-- A block that `next_block` returns is the payload of an intact block. -/
theorem Placed.intact (h : s.Placed) (hne : s.remaining ≠ 0) {onDisk : Bytes}
    (honDisk : onDisk = (s.file.drop s.position).take (min s.remaining s.blockSize))
    (hlength : checksumSize < onDisk.length)
    (hmatch : fingerprint (payload checksumSize onDisk) = leNat (stored checksumSize onDisk)) :
    ∃ k, Intact checksumSize blockMark (blockAt s.blockSize s.body k) ∧
      onDisk = blockAt s.blockSize s.body k := by
  obtain ⟨hrest, hplace⟩ := h
  rcases hplace with hzero | ⟨k, hk⟩
  · exact absurd hzero hne
  · have hblock : onDisk = blockAt s.blockSize s.body k :=
      honDisk.trans (blockAt_of_placed hrest hk)
    refine ⟨k, ?_, hblock⟩
    rw [← hblock]
    refine ⟨hlength.le, ?_⟩
    have hwidth : (stored checksumSize onDisk).length = 8 := by
      rw [stored, List.length_drop]
      unfold checksumSize at *
      omega
    rw [blockMark, hmatch, ← hwidth, leBytes_leNat]

/-- What `next_block` leaves when the stream stands at a block. -/
theorem Placed.nextBlock (h : s.Placed) {r : Except Reject (Option Bytes)}
    (hr : s.nextBlock answer = some (s', r)) :
    Same s s' ∧ (r ≠ .error .io → s'.Placed) ∧
      (r = .ok none ∨ r = .error .blockTooShort → s' = s) ∧
      (r = .ok none → s.remaining = 0) ∧
      (∀ data, r = .ok (some data) → s'.Held ∧ s.remaining ≠ 0 ∧
        Vouched s.blockSize checksumSize blockMark s.body data) := by
  cases nextBlock_cases hr with
  | none hs hremaining =>
    subst hs
    exact ⟨.refl _, fun _ => h, fun _ => rfl, fun _ => hremaining, by simp⟩
  | tooShort hs =>
    subst hs
    exact ⟨.refl _, fun _ => h, fun _ => rfl, by simp, by simp⟩
  | io hsame => exact ⟨hsame, by simp, by simp, by simp, by simp⟩
  | checksum hsame hat hremaining =>
    exact ⟨hsame, fun _ => h.next hsame hat hremaining, by simp, by simp, by simp⟩
  | block onDisk hsame hat hremaining hne honDisk hlength hmatch hblock hpos =>
    obtain ⟨k, hintact, rfl⟩ := h.intact hne honDisk hlength hmatch
    have hbody : s'.body = s.body := by rw [body, body, hsame.file, hsame.headerLen]
    refine ⟨hsame, fun _ => h.next hsame hat hremaining, by simp, by simp, ?_⟩
    rintro data ⟨rfl⟩
    refine ⟨⟨by omega, .inr ⟨k, ?_⟩⟩, hne, k, hintact, List.infix_rfl⟩
    rw [hsame.blockSize, hbody]
    exact ⟨hintact, hblock⟩

/-- Bytes copied out of a block that is held are vouched for. -/
theorem Held.finishRead (h : s.Held) (len : Nat) :
    ∃ data, s.finishRead len =
        ({ s with pos := s.pos + min len (s.block.length - s.pos) }, .bytes data) ∧
      Held { s with pos := s.pos + min len (s.block.length - s.pos) } ∧
      (data ≠ [] → Vouched s.blockSize checksumSize blockMark s.body data) := by
  obtain ⟨hpos, hblock⟩ := h
  refine ⟨(s.block.drop s.pos).take (min len (s.block.length - s.pos)), ?_, ⟨?_, hblock⟩, ?_⟩
  · rw [BlockReader.finishRead, copyOut, if_neg (by omega)]
  · dsimp only
    omega
  · intro hne
    rcases hblock with hnil | ⟨k, hintact, hblock⟩
    · rw [hnil] at hne
      simp at hne
    · rw [hblock]
      exact .of_slice hintact _ _

/-- What `read` leaves. -/
theorem Held.read (h : s.Held) (hplaced : s.Placed) {len : Nat} {r : ReadEnd}
    (hr : s.read len answer = some (s', r)) :
    Same s s' ∧ (r ≠ .error .io → s'.Placed) ∧ r ≠ .panicked ∧
      (r ≠ .error .io → r ≠ .error .blockChecksum → s'.Held) ∧
      (∀ data, r = .bytes data → data ≠ [] →
        Vouched s.blockSize checksumSize blockMark s.body data) := by
  rw [BlockReader.read] at hr
  split_ifs at hr with hzero hpos
  · cases hr
    exact ⟨.refl _, fun _ => hplaced, by simp, fun _ _ => h, by simp⟩
  · split at hr
    · cases hr
    · next t e hnext =>
      cases hr
      obtain ⟨hsame, hplaced', hsame', -, -⟩ := hplaced.nextBlock hnext
      refine ⟨hsame, fun hne => hplaced' (by simpa using hne), by simp, fun hio hsum => ?_, by simp⟩
      cases e with
      | blockTooShort =>
        rw [hsame' (.inr rfl)]
        exact h
      | blockChecksum => exact absurd rfl hsum
      | io => exact absurd rfl hio
    · next t hnext =>
      cases hr
      obtain ⟨hsame, hplaced', hsame', -, -⟩ := hplaced.nextBlock hnext
      rw [hsame' (.inl rfl)]
      exact ⟨.refl _, fun _ => hplaced, by simp, fun _ _ => h, by simp⟩
    · next t block hnext =>
      obtain ⟨hsame, hplaced', -, -, hdata⟩ := hplaced.nextBlock hnext
      obtain ⟨hheld, -, -⟩ := hdata block rfl
      obtain ⟨data, hfinish, hheld', hvouched⟩ := hheld.finishRead len
      rw [hfinish] at hr
      cases hr
      rw [hsame.blockSize, show t.body = s.body by rw [body, body, hsame.file, hsame.headerLen]]
        at hvouched
      refine ⟨⟨hsame.file, hsame.headerLen, hsame.blockSize⟩, fun _ => hplaced' (by simp), by simp,
        fun _ _ => hheld', ?_⟩
      rintro _ ⟨rfl⟩
      exact hvouched
  · obtain ⟨data, hfinish, hheld', hvouched⟩ := h.finishRead len
    rw [hfinish] at hr
    cases hr
    refine ⟨⟨rfl, rfl, rfl⟩, fun _ => hplaced, by simp, fun _ _ => hheld', ?_⟩
    rintro _ ⟨rfl⟩
    exact hvouched

end BlockReader

namespace BlockSession

open BlockReader (Same)

variable {s s' : BlockSession}

/-- What a guarded session keeps. -/
structure Inv (s : BlockSession) : Prop where
  placed : s.torn = false → s.reader.Placed
  held : s.broken = false → s.reader.Held
  torn : s.torn = true → s.broken = true
  running : s.panicked = false
  verified : s.Verified

/-- A reader that has just been opened stands at its first block. -/
theorem inv_start (file : Bytes) (headerLen blockSize : Nat) :
    Inv (start file headerLen blockSize) where
  placed _ := ⟨rfl, .inr ⟨0, by simp [start, BlockReader.assemble]⟩⟩
  held _ := ⟨le_rfl, .inl rfl⟩
  torn h := by cases h
  running := rfl
  verified data h := by cases h

/-- A call leaves the file alone, so what was handed out stays verified. -/
theorem Inv.stays (h : Inv s) {reader : BlockReader} (hsame : Same s.reader reader) {data : Bytes}
    (hdata : data ∈ s.handed ∨ (data ≠ [] →
      Vouched s.reader.blockSize checksumSize blockMark s.reader.body data)) (hne : data ≠ []) :
    Vouched reader.blockSize checksumSize blockMark reader.body data := by
  rw [hsame.blockSize, BlockReader.body, hsame.file, hsame.headerLen]
  rcases hdata with hold | hnew
  · exact h.verified data hold hne
  · exact hnew hne

/-- An error keeps what is still needed of the reader. -/
theorem Inv.fail (h : Inv s) {reader : BlockReader} {e : Reject} (hsame : Same s.reader reader)
    (hplaced : s.torn = false → e ≠ .io → reader.Placed)
    (hheld : s.broken = false → e = .blockTooShort → reader.Held) : Inv (s.fail reader e) where
  placed ht := by
    simp only [BlockSession.fail, Bool.or_eq_false_iff, decide_eq_false_iff_not] at ht
    exact hplaced ht.1 ht.2
  held hb := by
    simp only [BlockSession.fail, ne_eq, decide_not, Bool.or_eq_false_iff, Bool.not_eq_false',
      decide_eq_true_eq] at hb
    exact hheld hb.1 hb.2
  torn ht := by
    simp only [BlockSession.fail, Bool.or_eq_true, decide_eq_true_eq] at ht
    rcases ht with ht | rfl
    · simp [BlockSession.fail, h.torn ht]
    · simp [BlockSession.fail]
  running := h.running
  verified _ hdata := h.stays hsame (.inl hdata)

variable {answer : Exact}

theorem Inv.read (h : Inv s) {len : Nat} (hbroken : s.broken = false)
    (hs : s.step (.read len answer) = some s') : Inv s' := by
  have htorn : s.torn = false := by
    cases ht : s.torn with
    | false => rfl
    | true => rw [h.torn ht] at hbroken; cases hbroken
  rw [step, h.running, if_neg Bool.false_ne_true] at hs
  split at hs
  · cases hs
  · next reader data hr =>
    obtain ⟨hsame, hplaced, -, hheld, hvouched⟩ := (h.held hbroken).read (h.placed htorn) hr
    cases hs
    refine ⟨fun _ => hplaced (by simp), fun _ => hheld (by simp) (by simp), ?_, rfl, ?_⟩
    · intro ht
      rw [htorn] at ht
      cases ht
    · intro d hd
      rcases List.mem_append.mp hd with hd | hd
      · exact h.stays hsame (.inl hd)
      · rw [List.mem_singleton.mp hd]
        exact h.stays hsame (.inr (hvouched data rfl))
  · next reader e hr =>
    obtain ⟨hsame, hplaced, -, hheld, -⟩ := (h.held hbroken).read (h.placed htorn) hr
    cases hs
    refine h.fail hsame (fun _ he => hplaced (by simpa using he)) ?_
    rintro - rfl
    exact hheld (by simp) (by simp)
  · next reader hr =>
    obtain ⟨-, -, hrunning, -, -⟩ := (h.held hbroken).read (h.placed htorn) hr
    exact absurd rfl hrunning

theorem Inv.readEmpty (h : Inv s) (hs : s.step (.read 0 answer) = some s') :
    Inv s' := by
  rw [step, h.running, if_neg Bool.false_ne_true, BlockReader.read] at hs
  simp only [↓reduceIte, refills, ne_eq, not_true_eq_false, decide_false, Bool.false_and,
    Bool.not_false, Bool.and_true, Option.some.injEq] at hs
  cases hs
  refine ⟨h.placed, h.held, h.torn, rfl, fun data hdata hne => ?_⟩
  rcases List.mem_append.mp hdata with hdata | hdata
  · exact h.verified data hdata hne
  · exact absurd (List.mem_singleton.mp hdata) hne

theorem Inv.nextBlock (h : Inv s) (htorn : s.torn = false)
    (hs : s.step (.nextBlock answer) = some s') : Inv s' := by
  rw [step, h.running, if_neg Bool.false_ne_true] at hs
  split at hs
  · cases hs
  · next reader hr =>
    obtain ⟨-, -, hstays, -, -⟩ := (h.placed htorn).nextBlock hr
    rw [hstays (.inl rfl)] at hs
    cases hs
    exact ⟨h.placed, h.held, h.torn, rfl, h.verified⟩
  · next reader data hr =>
    obtain ⟨hsame, hplaced, -, -, hdata⟩ := (h.placed htorn).nextBlock hr
    obtain ⟨hheld, -, hvouched⟩ := hdata data rfl
    cases hs
    refine ⟨fun _ => hplaced (by simp), fun _ => hheld, ?_, rfl, ?_⟩
    · intro ht
      rw [htorn] at ht
      cases ht
    · intro d hd
      rcases List.mem_append.mp hd with hd | hd
      · exact h.stays hsame (.inl hd)
      · rw [List.mem_singleton.mp hd]
        exact h.stays hsame (.inr fun _ => hvouched)
  · next reader e hr =>
    obtain ⟨hsame, hplaced, hstays, -, -⟩ := (h.placed htorn).nextBlock hr
    cases hs
    refine h.fail hsame (fun _ he => hplaced (by simpa using he)) ?_
    rintro hb rfl
    rw [hstays (.inr rfl)]
    exact h.held hb

theorem Inv.step (h : Inv s) {call : BlockCall} (hg : s.guarded call = true)
    (hs : s.step call = some s') : Inv s' := by
  cases call with
  | read len answer =>
    simp only [guarded, Bool.or_eq_true, decide_eq_true_eq, Bool.not_eq_true'] at hg
    rcases hg with rfl | hbroken
    · exact h.readEmpty hs
    · exact h.read hbroken hs
  | nextBlock answer =>
    simp only [guarded, Bool.not_eq_true'] at hg
    exact h.nextBlock hg hs

theorem Inv.run (h : Inv s) {calls : List BlockCall} (hg : s.allGuarded calls = true)
    (hs : s.run calls = some s') : Inv s' := by
  induction calls generalizing s with
  | nil =>
    cases hs
    exact h
  | cons call calls ih =>
    rw [BlockSession.run] at hs
    rw [allGuarded, Bool.and_eq_true] at hg
    cases hstep : s.step call with
    | none =>
      rw [hstep] at hs
      cases hs
    | some s₁ =>
      rw [hstep] at hs hg
      exact ih (h.step hg.1 hstep) hg.2 hs

end BlockSession
end Rsl.Storage

namespace Rsl.Cpp.Session

open Wire

/-- A C++ reader that has just been opened. -/
def start (reader : StreamReader) : Session :=
  { reader := reader, handed := [], broken := false, ended := false }

theorem inv_start {file garbage : Bytes} {headerLen blockSize size : Nat} {reader : StreamReader}
    (hblocks : blockSize ≠ 0) (hword : blockSize < word) (hgarbage : garbage.length = blockSize)
    (hinit : StreamReader.init file headerLen blockSize size garbage = .ok reader) :
    Inv (start reader) := by
  obtain ⟨dataSize, rfl⟩ : ∃ dataSize, reader =
      { file := file
        pos := headerLen
        offset := headerLen
        defaultBlockSize := blockSize
        dataBlock := garbage
        currentBlockSize := 0
        dataReadOffset := 0
        nextblockOffset := headerLen
        dataSize := dataSize } := by
    rw [StreamReader.init] at hinit
    dsimp only at hinit
    split_ifs at hinit <;> cases hinit <;> exact ⟨_, rfl⟩
  refine ⟨hblocks, hword, hgarbage, fun _ => ⟨.inl ⟨0, ?_⟩, Nat.zero_le _, ?_⟩, ?_⟩
  · simp [start]
  · intro hpos
    cases hpos
  · intro bytes hbytes
    cases hbytes

end Rsl.Cpp.Session

namespace Rsl.Checkpoint

open Wire
open Cpp (StreamReader Session word)
open Storage (BlockSession)

/-- Both readers over one file. While the application reads and skips only after a block that was
read without an error, no byte of a block that fails its checksum is handed out, and the Rust reader
does not panic. -/
theorem handed_out_verified {file garbage : Bytes} {headerLen blockSize size : Nat}
    (hblocks : blockSize ≠ 0) (hword : blockSize < word) (hgarbage : garbage.length = blockSize) :
    (∀ reader calls s', StreamReader.init file headerLen blockSize size garbage = .ok reader →
      (Session.start reader).allGuarded calls = true →
      (Session.start reader).run calls = some s' → s'.Verified) ∧
    (∀ calls s', (BlockSession.start file headerLen blockSize).allGuarded calls = true →
      (BlockSession.start file headerLen blockSize).run calls = some s' →
      s'.Verified ∧ s'.panicked = false) := by
  constructor
  · intro reader calls s' hinit hguarded hrun
    exact ((Session.inv_start hblocks hword hgarbage hinit).run hguarded hrun).verified
  · intro calls s' hguarded hrun
    have h := (BlockSession.inv_start file headerLen blockSize).run hguarded hrun
    exact ⟨h.verified, h.running⟩

/-- A file of a header page and a block of three bytes with the token `mark`. -/
def threeBytes (mark : Bytes) : Bytes := List.replicate 512 0 ++ ([1, 2, 3] ++ mark)

/-- A file of a header page, an intact block and a short block with the token `mark`. -/
def shortTail (mark : Bytes) : Bytes :=
  List.replicate 512 0 ++ (List.replicate 504 0 ++ Cpp.blockMark (List.replicate 504 0)) ++
    ([1, 2, 3] ++ mark)

/-- The C++ reader of `threeBytes`, opened. -/
def threeBytesReader (mark : Bytes) : StreamReader :=
  { file := threeBytes mark
    pos := 512
    offset := 512
    defaultBlockSize := 512
    dataBlock := List.replicate 512 0
    currentBlockSize := 0
    dataReadOffset := 0
    nextblockOffset := 512
    dataSize := 3 }

theorem handed_out_verified_shortTail :
    (∃ reader s', StreamReader.init (shortTail (Cpp.blockMark [1, 2, 3])) 512 512 1035
        (List.replicate 512 0) = .ok reader ∧
      (Session.start reader).run [.getData 503 [.bytes 512], .getData 3 [],
        .getData 9 [.bytes 11, .eof], .getData 1 [.eof]] = some s' ∧
      s'.handed.map List.length = [503, 1, 3] ∧ s'.Verified) ∧
    ∃ s', (BlockSession.start (shortTail (Cpp.blockMark [1, 2, 3])) 512 512).run
        [.read 503 .filled, .read 3 .filled, .read 9 .filled, .read 1 .filled] = some s' ∧
      s'.handed.map List.length = [503, 1, 3, 0] ∧ s'.Verified ∧ s'.panicked = false := by
  have h := @handed_out_verified (shortTail (Cpp.blockMark [1, 2, 3])) (List.replicate 512 0)
    512 512 1035 (by decide) (by decide) List.length_replicate
  constructor
  · have heval : (StreamReader.init (shortTail (Cpp.blockMark [1, 2, 3])) 512 512 1035
        (List.replicate 512 0)).toOption.any (fun reader =>
        (Session.start reader).allGuarded [.getData 503 [.bytes 512], .getData 3 [],
          .getData 9 [.bytes 11, .eof], .getData 1 [.eof]] &&
        ((Session.start reader).run [.getData 503 [.bytes 512], .getData 3 [],
          .getData 9 [.bytes 11, .eof], .getData 1 [.eof]]).any fun s' =>
            s'.handed.map List.length == [503, 1, 3]) = true := by
      decide +kernel
    obtain ⟨reader, hreader, hrun⟩ := (Option.any_eq_true _ _).mp heval
    obtain ⟨hguarded, hrun⟩ := Bool.and_eq_true_iff.mp hrun
    obtain ⟨s', hs', hhanded⟩ := (Option.any_eq_true _ _).mp hrun
    have hinit : StreamReader.init (shortTail (Cpp.blockMark [1, 2, 3])) 512 512 1035
        (List.replicate 512 0) = .ok reader := by
      cases h : StreamReader.init (shortTail (Cpp.blockMark [1, 2, 3])) 512 512 1035
        (List.replicate 512 0) with
      | error e => rw [h] at hreader; cases hreader
      | ok r => rw [h] at hreader; cases hreader; rfl
    exact ⟨reader, s', hinit, hs', eq_of_beq hhanded, h.1 _ _ s' hinit hguarded hs'⟩
  · obtain ⟨s', hrun, hhanded⟩ := Option.map_eq_some_iff.mp
      (by decide +kernel : ((BlockSession.start (shortTail (Cpp.blockMark [1, 2, 3])) 512 512).run
        [.read 503 .filled, .read 3 .filled, .read 9 .filled, .read 1 .filled]).map
          (·.handed.map List.length) = some [503, 1, 3, 0])
    exact ⟨s', hrun, hhanded, h.2 _ s' (by decide +kernel) hrun⟩

/-- After a block that failed its checksum both readers hand out its bytes when they are asked
again, and the Rust reader panics when the block is shorter than the one before it. -/
theorem not_handed_out_verified :
    (∃ s', (Session.start (threeBytesReader (List.replicate 8 0))).run
        [.getData 3 [.bytes 11, .eof], .getData 3 []] = some s' ∧
      s'.handed = [[1, 2, 3]] ∧ ¬ s'.Verified) ∧
    (∃ s', (BlockSession.start (threeBytes (List.replicate 8 0)) 512 512).run
        [.read 3 .filled, .read 3 .filled] = some s' ∧
      s'.handed = [[1, 2, 3]] ∧ ¬ s'.Verified) ∧
    ∃ s', (BlockSession.start (shortTail (List.replicate 8 0)) 512 512).run
        [.read 504 .filled, .read 3 .filled, .read 3 .filled] = some s' ∧
      s'.panicked = true := by
  have hbad : ¬ Lib.Sealed.Intact Cpp.checksumSize Cpp.blockMark
      ([1, 2, 3] ++ List.replicate 8 0) := by
    rintro ⟨-, h⟩
    revert h
    decide +kernel
  refine ⟨?_, ?_, ?_⟩
  · obtain ⟨s', hrun, hs⟩ := Option.map_eq_some_iff.mp
      (by decide +kernel : ((Session.start (threeBytesReader (List.replicate 8 0))).run
        [.getData 3 [.bytes 11, .eof], .getData 3 []]).map
          (fun s => (s.handed, s.reader.defaultBlockSize, s.reader.body)) =
          some ([[1, 2, 3]], 512, [1, 2, 3] ++ List.replicate 8 0))
    obtain ⟨hhanded, hsize, hbody⟩ : s'.handed = [[1, 2, 3]] ∧ s'.reader.defaultBlockSize = 512 ∧
        s'.reader.body = [1, 2, 3] ++ List.replicate 8 0 := by simpa using hs
    refine ⟨s', hrun, hhanded, fun hv => hbad ?_⟩
    have hvouched := hv [1, 2, 3] (by simp [hhanded]) (by simp)
    rw [hsize, hbody] at hvouched
    exact hvouched.intact_of_length_le (by decide) (by decide)
  · obtain ⟨s', hrun, hs⟩ := Option.map_eq_some_iff.mp
      (by decide +kernel : ((BlockSession.start (threeBytes (List.replicate 8 0)) 512 512).run
        [.read 3 .filled, .read 3 .filled]).map
          (fun s => (s.handed, s.reader.blockSize, s.reader.body)) =
          some ([[1, 2, 3]], 512, [1, 2, 3] ++ List.replicate 8 0))
    obtain ⟨hhanded, hsize, hbody⟩ : s'.handed = [[1, 2, 3]] ∧ s'.reader.blockSize = 512 ∧
        s'.reader.body = [1, 2, 3] ++ List.replicate 8 0 := by simpa using hs
    refine ⟨s', hrun, hhanded, fun hv => hbad ?_⟩
    have hvouched := hv [1, 2, 3] (by simp [hhanded]) (by simp)
    rw [hsize, hbody] at hvouched
    exact hvouched.intact_of_length_le (by decide) (by decide)
  · exact Option.map_eq_some_iff.mp
      (by decide +kernel : ((BlockSession.start (shortTail (List.replicate 8 0)) 512 512).run
        [.read 504 .filled, .read 3 .filled, .read 3 .filled]).map (·.panicked) = some true)

end Rsl.Checkpoint
