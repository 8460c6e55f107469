import Rsl.LogFile.FetchVotes
import Rsl.Cpp.Message
import Rsl.Wire.RoundTrip

/-!
# Readers that trust a length

`Message::ReadFromSocket`, `CheckpointHeader::UnMarshal` from a stream and
`Legislator::ReadNextMessage` read the start of a message, take its length from there, allocate a
buffer and read the rest into it. Each is modelled with what it does to its buffer (`Access`) and
with the results of its arithmetic, which is of 32 bits, next to the exact ones.

`readers_safe_iff` says for which streams all accesses are inside the buffers and no result wraps.
It fails for a message that announces less than the 6 bytes before its length, for a checkpoint
header of length 0, and for lengths that cannot be rounded up to pages.
-/

set_option autoImplicit false

namespace Rsl.Cpp

open Lib Wire List

/-! ## Buffers -/

/-- `count` bytes of a buffer of `capacity` bytes are written or read from `offset` on. -/
structure Access where
  capacity : Nat
  offset : Nat
  count : Nat
deriving Repr, DecidableEq

/-- What a reader does: its accesses, the results of its sums with the exact ones, and how it
ends. -/
structure Run (α : Type) where
  accesses : List Access
  sums : List (Nat × Int)
  result : α

/-- The loop of `ResizeBuffer`, which doubles a `UInt32` until it is large enough or 0. -/
def doubleUntil (length : Nat) : Nat → Nat → Nat
  | 0, rounded => rounded
  | fuel + 1, rounded =>
    if rounded ≠ 0 ∧ rounded < length then doubleUntil length fuel (rounded * 2 % word) else rounded

/-- `StandardMarshalMemoryManager::ResizeBuffer`. -/
def resizeBuffer (bufferLength length : Nat) : Nat :=
  if length > bufferLength then
    let roundedLength := doubleUntil length 32 1
    if roundedLength = 0 then length else roundedLength
  else bufferLength

/-- `a - b` in 32 bits. -/
def sub32 (a b : Nat) : Nat := (a + word - b) % word

/-- A length in whole pages, without a wrap. -/
def wholePages (n : Nat) : Nat := (n + 511) / 512 * 512

/-! ## The readers -/

/-- The version and the length that a stream starts with. -/
def announcedVersion (stream : Bytes) : Nat := leNat (stream.take 2)

def announcedLength (stream : Bytes) : Nat := leNat ((stream.drop 2).take 4)

/-- `Message::ReadFromSocket` for a message of a class. The read returns fewer bytes than it asks
for when the stream ends. -/
def readFromSocket (fuel : Nat) (kind : MsgKind) (maxMessageSize : Nat) (stream : Bytes) :
    Run (Except Stop Message) :=
  let header : Access := ⟨6, 0, 6⟩
  if stream.length < 6 then ⟨[header], [], .error .refused⟩
  else if !isVersionValid (announcedVersion stream) then ⟨[header], [], .error .refused⟩
  else
    let length := announcedLength stream
    if length > maxMessageSize then ⟨[header], [], .error .refused⟩
    else
      let rest := sub32 length 6
      -- The header is copied to the start of the new buffer.
      ⟨[header, ⟨length, 0, 6⟩, ⟨length, 6, rest⟩], [(rest, length - 6)],
        if (stream.drop 6).length < rest then .error .refused
        else ((Message.unMarshal fuel (stream.take length) kind).run 0).map Prod.fst⟩

/-- `CheckpointHeader::UnMarshal` from a stream. -/
def CheckpointHeader.readFrom (fuel : Nat) (stream : Bytes) : Run (Except Stop CheckpointHeader) :=
  let page : Access := ⟨512, 0, 512⟩
  if stream.length < 512 then ⟨[page], [], .error .refused⟩
  else if !isVersionValid (announcedVersion stream) then ⟨[page], [], .error .refused⟩
  else
    let marshalLen := announcedLength stream
    let writeSize := LogFile.roundUpToPage marshalLen
    let capacity := resizeBuffer 512 writeSize
    let rest := sub32 writeSize 512
    ⟨[page, ⟨capacity, 512, rest⟩], [(writeSize, wholePages marshalLen), (rest, writeSize - 512)],
      if (stream.drop 512).length < rest then .error .refused
      -- `SetMarshaledLength` makes the buffer as large as the announced length.
      else ((CheckpointHeader.unMarshal fuel (stream.take marshalLen)).run 0).map Prod.fst⟩

/-- `Legislator::ReadNextMessage` with a buffer that may have served messages before. -/
def readNextMessage (restore : Bool) (bufferLength : Nat) (stream : Bytes) : Run LogFile.ReadNext :=
  let capacity := resizeBuffer bufferLength 10485760
  let page : Access := ⟨capacity, 0, 512⟩
  if stream.length = 0 then ⟨[page], [], .finished⟩
  else if stream.length < 512 then ⟨[page], [], .failed⟩
  else match unmarshalBase (stream.take 512) with
    | none =>
      ⟨[page], [], if restore && LogFile.verifyZeroStream stream then .finished else .failed⟩
    | some header =>
      if !LogFile.isLogged header.msgId then ⟨[page], [], .failed⟩
      else
        let length := header.unMarshalLen
        let writeSize := LogFile.roundUpToPage length
        let bodyLen := sub32 writeSize 512
        let capacity := if bodyLen > 0 then resizeBuffer capacity writeSize else capacity
        -- The checksum is computed over the length that was announced.
        ⟨[page, ⟨capacity, 512, bodyLen⟩, ⟨capacity, 0, length⟩],
          [(writeSize, wholePages length), (bodyLen, writeSize - 512)],
          if (stream.drop 512).length < bodyLen then if restore then .finished else .failed
          else if writeSize < length then .failed
          else
            let message := stream.take length
            let rest := stream.drop writeSize
            if !verifyChecksum message then
              if restore && LogFile.verifyZeroStream rest then .finished else .failed
            else if (LogFile.unMarshalMessage message).isNone then .failed
            else .message message rest⟩

/-- The results are those of the readers of a log in `Rsl.LogFile`, whatever the buffer is. -/
theorem readNextMessage_result (restore : Bool) (bufferLength : Nat) (stream : Bytes) :
    (readNextMessage restore bufferLength stream).result =
      if restore then LogFile.readNextMessage stream else LogFile.readNextFetched stream := by
  have hpage : LogFile.pageSize = 512 := rfl
  rw [readNextMessage, LogFile.readNextMessage, LogFile.readNextFetched, hpage]
  by_cases hempty : stream.length = 0
  · simp only [if_pos hempty, ite_self]
  by_cases hshort : stream.length < 512
  · simp only [if_neg hempty, if_pos hshort, ite_self]
  simp only [if_neg hempty, if_neg hshort]
  cases unmarshalBase (stream.take 512) with
  | none => cases restore <;> rfl
  | some header =>
    have hbody : ∀ n, (n + LogFile.u32Size - 512) % LogFile.u32Size = sub32 n 512 := fun _ => rfl
    simp only [hbody]
    cases LogFile.isLogged header.msgId with
    | false => cases restore <;> rfl
    | true => cases restore <;> simp

/-! ## What is expected, and when -/

/-- Every access is inside its buffer, and no sum wraps. -/
structure Run.Safe {α : Type} (run : Run α) : Prop where
  inside : ∀ access ∈ run.accesses, access.offset + access.count ≤ access.capacity
  exact : ∀ sum ∈ run.sums, (sum.1 : Int) = sum.2

/-- A socket reader is safe, and it fails for a length below the 6 bytes that it has read or above
the limit. -/
structure SocketSafe (maxMessageSize : Nat) (stream : Bytes) (run : Run (Except Stop Message)) :
    Prop where
  safe : run.Safe
  refused : announcedLength stream < 6 ∨ maxMessageSize < announcedLength stream →
    ∃ stop, run.result = .error stop

/-- A checkpoint reader is safe, and it fails for a length whose pages are less than the one it has
read. -/
structure CheckpointSafe (stream : Bytes) (run : Run (Except Stop CheckpointHeader)) : Prop where
  safe : run.Safe
  refused : wholePages (announcedLength stream) < 512 → ∃ stop, run.result = .error stop

/-- A log reader is safe, and it returns no message for such a length. -/
structure LogSafe (stream : Bytes) (run : Run LogFile.ReadNext) : Prop where
  safe : run.Safe
  refused : ∀ header, unmarshalBase (stream.take 512) = some header →
    wholePages header.unMarshalLen < 512 → ∀ message rest, run.result ≠ .message message rest

/-- A message that is not refused for its version or as too large has the 6 bytes. -/
def SocketFits (maxMessageSize : Nat) (stream : Bytes) : Prop :=
  6 ≤ stream.length → isVersionValid (announcedVersion stream) = true →
    announcedLength stream ≤ maxMessageSize → 6 ≤ announcedLength stream

/-- A checkpoint header is not empty, and its length can be rounded up. -/
def CheckpointFits (stream : Bytes) : Prop :=
  512 ≤ stream.length → isVersionValid (announcedVersion stream) = true →
    0 < announcedLength stream ∧ announcedLength stream + 512 ≤ word

/-- The length of a message in a log can be rounded up. -/
def LogFits (stream : Bytes) : Prop :=
  512 ≤ stream.length → ∀ header, unmarshalBase (stream.take 512) = some header →
    LogFile.isLogged header.msgId = true → header.unMarshalLen + 512 ≤ word

/-! ## Sums and buffers -/

theorem sub32_of_le {a b : Nat} (ha : a < word) (h : b ≤ a) : sub32 a b = a - b := by
  have hword := word_eq
  rw [sub32]
  rw [hword] at ha ⊢
  omega

variable {n : Nat}

theorem roundUpToPage_eq_wholePages (h : n + 512 ≤ word) :
    LogFile.roundUpToPage n = wholePages n := by
  have hword := word_eq
  show (n + 511) % 4294967296 / 512 * 512 = _
  rw [wholePages, Nat.mod_eq_of_lt (by omega)]

/-- The rounding is exact if and only if it does not wrap. -/
theorem roundUpToPage_exact_iff (hn : n < word) :
    (LogFile.roundUpToPage n : Int) = wholePages n ↔ n + 512 ≤ word := by
  have hword := word_eq
  refine ⟨fun h => ?_, fun h => by rw [roundUpToPage_eq_wholePages h]⟩
  change (((n + 511) % 4294967296 / 512 * 512 : Nat) : Int) = ((n + 511) / 512 * 512 : Nat) at h
  rw [hword] at hn ⊢
  omega

theorem le_wholePages (n : Nat) : n ≤ wholePages n := by
  rw [wholePages]
  omega

theorem wholePages_lt (h : n + 512 ≤ word) : wholePages n < word := by
  rw [wholePages]
  omega

/-- The doubled length is 0 or large enough. -/
theorem doubleUntil_spec (length : Nat) {k fuel rounded : Nat} (hfuel : k + fuel = 32)
    (hrounded : rounded = 2 ^ k % word) :
    doubleUntil length fuel rounded = 0 ∨ length ≤ doubleUntil length fuel rounded := by
  induction fuel generalizing k rounded with
  | zero =>
    obtain rfl : k = 32 := hfuel
    subst hrounded
    exact .inl rfl
  | succ fuel ih =>
    rw [doubleUntil]
    split_ifs with hmore
    · refine ih (k := k + 1) (by omega) ?_
      rw [hrounded, Nat.mod_mul_mod, pow_succ]
    · omega

theorem le_resizeBuffer (bufferLength length : Nat) :
    length ≤ resizeBuffer bufferLength length := by
  have hspec := @doubleUntil_spec length 0 32 1 rfl rfl
  rw [resizeBuffer]
  by_cases hmore : length > bufferLength
  · rw [if_pos hmore]
    show length ≤ if doubleUntil length 32 1 = 0 then length else doubleUntil length 32 1
    split_ifs with hzero
    · exact le_rfl
    · exact hspec.resolve_left hzero
  · rw [if_neg hmore]
    exact not_lt.mp hmore

theorem announcedLength_lt (stream : Bytes) : announcedLength stream < word := by
  refine (leNat_lt _).trans_le ?_
  rw [length_take]
  exact Nat.pow_le_pow_right (by decide) (min_le_left ..)

/-! ## The readers are safe -/

theorem socketSafe_iff (fuel : Nat) (kind : MsgKind) (maxMessageSize : Nat) (stream : Bytes) :
    SocketSafe maxMessageSize stream (readFromSocket fuel kind maxMessageSize stream) ↔
      SocketFits maxMessageSize stream := by
  have hlt := announcedLength_lt stream
  have hheader : ∀ {result : Except Stop Message}, (Run.mk [⟨6, 0, 6⟩] [] result).Safe :=
    ⟨by simp, by simp⟩
  rw [readFromSocket]
  simp only
  by_cases hshort : stream.length < 6
  · rw [if_pos hshort]
    exact ⟨fun _ hlong => absurd hshort (by omega), fun _ => ⟨hheader, fun _ => ⟨_, rfl⟩⟩⟩
  rw [if_neg hshort]
  by_cases hversion : isVersionValid (announcedVersion stream) = true
  swap
  · rw [if_pos (by simpa using hversion)]
    exact ⟨fun _ _ hvalid => absurd hvalid hversion, fun _ => ⟨hheader, fun _ => ⟨_, rfl⟩⟩⟩
  rw [if_neg (by simpa using hversion)]
  by_cases hlarge : announcedLength stream > maxMessageSize
  · rw [if_pos hlarge]
    exact ⟨fun _ _ _ hle => absurd hle (by omega), fun _ => ⟨hheader, fun _ => ⟨_, rfl⟩⟩⟩
  rw [if_neg hlarge]
  constructor
  · rintro ⟨hsafe, -⟩ - - -
    have hcopy := hsafe.inside ⟨announcedLength stream, 0, 6⟩ (by simp)
    exact (zero_add 6).symm ▸ hcopy
  · intro hfits
    have hsix := hfits (by omega) hversion (by omega)
    have hrest := sub32_of_le hlt hsix
    refine ⟨⟨?_, ?_⟩, fun hout => absurd hout (by omega)⟩
    · simp only [forall_mem_cons, hrest]
      refine ⟨by decide, by omega, by omega, by simp⟩
    · simp only [forall_mem_cons, hrest]
      exact ⟨by omega, by simp⟩

theorem checkpointSafe_iff (fuel : Nat) (stream : Bytes) :
    CheckpointSafe stream (CheckpointHeader.readFrom fuel stream) ↔ CheckpointFits stream := by
  have hlt := announcedLength_lt stream
  have hpage : ∀ {result : Except Stop CheckpointHeader}, (Run.mk [⟨512, 0, 512⟩] [] result).Safe :=
    ⟨by simp, by simp⟩
  rw [CheckpointHeader.readFrom]
  simp only
  by_cases hshort : stream.length < 512
  · rw [if_pos hshort]
    exact ⟨fun _ hlong => absurd hshort (by omega), fun _ => ⟨hpage, fun _ => ⟨_, rfl⟩⟩⟩
  rw [if_neg hshort]
  by_cases hversion : isVersionValid (announcedVersion stream) = true
  swap
  · rw [if_pos (by simpa using hversion)]
    exact ⟨fun _ _ hvalid => absurd hvalid hversion, fun _ => ⟨hpage, fun _ => ⟨_, rfl⟩⟩⟩
  rw [if_neg (by simpa using hversion)]
  constructor
  · rintro ⟨hsafe, -⟩ - -
    have hround := (roundUpToPage_exact_iff hlt).mp (hsafe.exact _ mem_cons_self)
    have hrest := hsafe.exact _ (mem_cons_of_mem _ mem_cons_self)
    refine ⟨Nat.pos_of_ne_zero fun hzero => ?_, hround⟩
    rw [hzero] at hrest
    exact absurd hrest (by decide)
  · intro hfits
    obtain ⟨hpos, hround⟩ := hfits (by omega) hversion
    have hpages : 512 ≤ wholePages (announcedLength stream) := by
      rw [wholePages]
      omega
    have hwrite := roundUpToPage_eq_wholePages hround
    have hrest := sub32_of_le (wholePages_lt hround) hpages
    have hcapacity := le_resizeBuffer 512 (wholePages (announcedLength stream))
    refine ⟨⟨?_, ?_⟩, fun hout => absurd hout (by omega)⟩
    · simp only [forall_mem_cons, hwrite, hrest]
      exact ⟨by decide, by omega, by simp⟩
    · simp only [forall_mem_cons, hwrite, hrest]
      exact ⟨trivial, by omega, by simp⟩

/-- A header that was read announces at least its own size. -/
theorem unMarshalLen_bounds {bytes : Bytes} {header : Wire.Header}
    (h : unmarshalBase bytes = some header) :
    48 ≤ header.unMarshalLen ∧ header.unMarshalLen < word := by
  obtain ⟨⟨_, rest⟩, hread, rfl⟩ := Option.map_eq_some_iff.mp h
  obtain ⟨_, -, -, -, hbase, hlt⟩ := Header.yields _ _ _ hread
  exact ⟨(Header.baseSize_le _).1.trans hbase, hlt⟩

theorem logSafe_iff (restore : Bool) (bufferLength : Nat) (stream : Bytes) :
    LogSafe stream (readNextMessage restore bufferLength stream) ↔ LogFits stream := by
  have hfirst := le_resizeBuffer bufferLength 10485760
  have hpage : ∀ {result : LogFile.ReadNext},
      (Run.mk [⟨resizeBuffer bufferLength 10485760, 0, 512⟩] [] result).Safe := by
    refine ⟨?_, by simp⟩
    simp only [forall_mem_cons]
    exact ⟨by omega, by simp⟩
  rw [readNextMessage]
  simp only
  by_cases hempty : stream.length = 0
  · rw [if_pos hempty]
    exact ⟨fun _ hlong => absurd hempty (by omega), fun _ => ⟨hpage, fun _ _ _ _ _ h => by cases h⟩⟩
  rw [if_neg hempty]
  by_cases hshort : stream.length < 512
  · rw [if_pos hshort]
    exact ⟨fun _ hlong => absurd hshort (by omega), fun _ => ⟨hpage, fun _ _ _ _ _ h => by cases h⟩⟩
  rw [if_neg hshort]
  cases hread : unmarshalBase (stream.take 512) with
  | none =>
    simp only
    refine ⟨fun _ _ header h => ?_, fun _ => ⟨hpage, fun header h => ?_⟩⟩
    · cases hread.symm.trans h
    · cases hread.symm.trans h
  | some header =>
    simp only
    obtain ⟨hbase, hlt⟩ := unMarshalLen_bounds hread
    have hpages : 512 ≤ wholePages header.unMarshalLen := by
      rw [wholePages]
      omega
    have hrefused : ∀ {result : LogFile.ReadNext}, ∀ h, unmarshalBase (stream.take 512) = some h →
        wholePages h.unMarshalLen < 512 → ∀ message rest, result ≠ .message message rest := by
      intro result h hh hsmall
      cases hread.symm.trans hh
      omega
    by_cases hlogged : LogFile.isLogged header.msgId = true
    swap
    · rw [if_pos (by simpa using hlogged)]
      refine ⟨fun _ _ h hh hlog => ?_, fun _ => ⟨hpage, hrefused⟩⟩
      cases hread.symm.trans hh
      exact absurd hlog hlogged
    rw [if_neg (by simpa using hlogged)]
    constructor
    · rintro ⟨hsafe, -⟩ - h hh -
      cases hread.symm.trans hh
      exact (roundUpToPage_exact_iff hlt).mp (hsafe.exact _ mem_cons_self)
    · intro hfits
      have hround := hfits (by omega) header hread hlogged
      have hwrite := roundUpToPage_eq_wholePages hround
      have hrest := sub32_of_le (wholePages_lt hround) hpages
      have hgrown :=
        le_resizeBuffer (resizeBuffer bufferLength 10485760) (wholePages header.unMarshalLen)
      have hle := le_wholePages header.unMarshalLen
      refine ⟨⟨?_, ?_⟩, hrefused⟩
      · simp only [forall_mem_cons, hwrite, hrest]
        refine ⟨by omega, ?_, ?_, by simp⟩
        · split_ifs <;> omega
        · split_ifs <;> omega
      · simp only [forall_mem_cons, hwrite, hrest]
        exact ⟨trivial, by omega, by simp⟩

/-- For every stream, the readers stay inside their buffers, compute without a wrap and refuse what
they have to exactly if the length that the stream announces fits. -/
theorem readers_safe_iff (fuel : Nat) (kind : MsgKind) (maxMessageSize : Nat) (restore : Bool)
    (bufferLength : Nat) (stream : Bytes) :
    (SocketSafe maxMessageSize stream (readFromSocket fuel kind maxMessageSize stream) ↔
        SocketFits maxMessageSize stream) ∧
      (CheckpointSafe stream (CheckpointHeader.readFrom fuel stream) ↔ CheckpointFits stream) ∧
      (LogSafe stream (readNextMessage restore bufferLength stream) ↔ LogFits stream) :=
  ⟨socketSafe_iff fuel kind maxMessageSize stream, checkpointSafe_iff fuel stream,
    logSafe_iff restore bufferLength stream⟩

/-- A page of a log whose message announces `2 ^ 32 - 1` bytes. -/
def hugePage : Bytes :=
  ((Header.write ⟨⟨6⟩, 0, 0, magicNumber, msgVote, ⟨[55]⟩, 3, 1, ⟨5, ⟨[55]⟩⟩, 0⟩
    4294967295).toOption.getD [])
    ++ replicate 340 0

/-- A message of 5 bytes: the 6 bytes that were read do not fit its buffer, and `5 - 6` more are
asked for. A checkpoint header of length 0 asks for `0 - 512` bytes, and so does a message of
`2 ^ 32 - 1` bytes in a log, whose pages wrap to none. -/
theorem not_readers_safe :
    ¬ SocketSafe 1024 [6, 0, 5, 0, 0, 0] (readFromSocket 0 .base 1024 [6, 0, 5, 0, 0, 0]) ∧
    ¬ CheckpointSafe ([3, 0] ++ replicate 510 0)
        (CheckpointHeader.readFrom 0 ([3, 0] ++ replicate 510 0)) ∧
    ¬ LogSafe hugePage (readNextMessage true 0 hugePage) := by
  refine ⟨?_, ?_, ?_⟩
  · rw [socketSafe_iff]
    exact fun hfits => absurd (hfits (by decide) (by decide) (by decide)) (by decide)
  · rw [checkpointSafe_iff]
    exact fun hfits => absurd (hfits (by decide +kernel) (by decide +kernel)).1 (by decide +kernel)
  · rw [logSafe_iff]
    intro hfits
    obtain ⟨header, hread, hheader⟩ := Option.map_eq_some_iff.mp (by decide +kernel :
      ((unmarshalBase (hugePage.take 512)).map fun header =>
        (LogFile.isLogged header.msgId, header.unMarshalLen)) = some (true, 4294967295))
    obtain ⟨hlogged, hlength⟩ := Prod.mk.inj hheader
    have hround := hfits (by decide +kernel) header hread hlogged
    rw [hlength] at hround
    exact absurd hround (by decide)

end Rsl.Cpp
