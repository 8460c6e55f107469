import Rsl.Lib.Disk
import Rsl.Wire.Message

/-!
# The log file of the C++ replica

`LogFile::Write`, and `ReadNextMessage` in restore mode with `VerifyZeroStream`, with the loop over
it that reads the messages of a log. The records of a log are read back with whatever ends the log
behind them (`recover_logBytes`); a torn record ends it if its checksum does not verify and only
zeros follow (`readNextMessage_torn`).

The header and the bodies are those of `Rsl.Wire`: the C++ readers take the same fields in the same
order, and differ in the assertions collected in `assertsHold`.
-/

set_option autoImplicit false

namespace Rsl.LogFile

open Wire Lib
open List hiding set

/-- `s_PageSize`. -/
def pageSize : Nat := 512

theorem pageSize_pos : 0 < pageSize := by decide

/-- The size of a `UInt32`. -/
def u32Size : Nat := 4294967296

/-- `RoundUpToPage`, with the wrap of its 32-bit sum. -/
def roundUpToPage (x : Nat) : Nat := (x + (pageSize - 1)) % u32Size / pageSize * pageSize

/-! ## Reading -/

/-- The assertions of `Vote::UnMarshal` and `MemberSet::UnMarshal`: a configuration-change vote
carries no requests, and a host name fits its buffer of 256 bytes. -/
def assertsHold : Msg → Bool
  | .vote vote =>
    (!vote.isReconfiguration || vote.requests.isEmpty) &&
      match vote.membersInNewConfiguration with
      | none => true
      | some set => set.members.all fun node => decide (node.hostName.length < 256)
  | _ => true

/-- `Legislator::UnMarshalMessage` for the message ids of a log; a failed assertion ends the
process, which is no result either. -/
def unMarshalMessage (buf : Bytes) : Option Msg := do
  let header ← unmarshalBase buf
  let msg ←
    if header.msgId = msgVote then Msg.unmarshal .vote buf
    else if header.msgId = msgPrepare then Msg.unmarshal .prepare buf
    else if header.msgId = msgReconfigurationDecision then Msg.unmarshal .base buf
    else none
  if assertsHold msg then some msg else none

/-- The message ids that `ReadNextMessage` accepts. -/
def isLogged (msgId : Nat) : Bool :=
  msgId == msgVote || (msgId == msgPrepare || msgId == msgReconfigurationDecision)

/-- `VerifyZeroStream`: every byte to the end of the stream is zero. -/
def verifyZeroStream (stream : Bytes) : Bool := stream.all (· == 0)

/-- How `ReadNextMessage` ends: with a message and the rest of the stream, with no message and
success, or with failure. -/
inductive ReadNext where
  | message (bytes : Bytes) (rest : Bytes)
  | finished
  | failed
  deriving DecidableEq, Repr

/-- `Legislator::ReadNextMessage` with `restore` set. -/
def readNextMessage (stream : Bytes) : ReadNext :=
  if stream.length = 0 then .finished
  else if stream.length < pageSize then .failed
  else match unmarshalBase (stream.take pageSize) with
    | none => if verifyZeroStream stream then .finished else .failed
    | some header =>
      if !isLogged header.msgId then .failed
      else
        let bodyLen := (roundUpToPage header.unMarshalLen + u32Size - pageSize) % u32Size
        if (stream.drop pageSize).length < bodyLen then .finished
        -- a length whose rounding wraps: the body is read past the end of the buffer
        else if roundUpToPage header.unMarshalLen < header.unMarshalLen then .failed
        else
          let message := stream.take header.unMarshalLen
          let rest := stream.drop (roundUpToPage header.unMarshalLen)
          if !verifyChecksum message then
            if verifyZeroStream rest then .finished else .failed
          else if (unMarshalMessage message).isNone then .failed
          else .message message rest

/-- The messages that `ReadNextMessage` gives the loop of `RestoreState` over one log file, or
`none` when it fails. Every message takes at least a page, so the length of the stream bounds the
rounds. -/
def recoverFrom : Nat → Bytes → Option (List Bytes)
  | 0, _ => some []
  | fuel + 1, stream =>
    match readNextMessage stream with
    | .finished => some []
    | .failed => none
    | .message bytes rest => (recoverFrom fuel rest).map (bytes :: ·)

/-- The messages of a log file. -/
def recover (file : Bytes) : Option (List Bytes) := recoverFrom (file.length + 1) file

/-- `m_dataLen` after recovery, where `SetWritePointer` puts the write pointer. -/
def dataLen (messages : List Bytes) : Nat :=
  (messages.map fun message => roundUpToPage message.length).sum

/-! ## Records -/

/-- A message that the writer can log: its header declares its length, its id is one of a log, its
checksum is right, it parses, and its rounded length does not wrap. -/
def wellFormed (message : Bytes) : Bool :=
  verifyChecksum message && (unMarshalMessage message).isSome &&
    (match unmarshalBase message with
      | none => false
      | some header => isLogged header.msgId && decide (header.unMarshalLen = message.length)) &&
    decide (message.length ≤ roundUpToPage message.length)

/-- A record as `WriteMessage` hands it to `Write`: a well-formed message and the bytes that its
last buffer holds behind it. -/
structure LogRecord where
  message : Bytes
  pad : Bytes
  wellFormed : wellFormed message = true
  padded : message.length + pad.length = roundUpToPage message.length

/-- A message as the writer logs it, whether it parses or not. -/
def written (message : Bytes) : Bool :=
  verifyChecksum message &&
    (match unmarshalBase message with
      | none => false
      | some header => isLogged header.msgId && decide (header.unMarshalLen = message.length))

/-- A record that was written, which a reader may still refuse. -/
structure WrittenRecord where
  message : Bytes
  pad : Bytes
  written : written message = true
  padded : message.length + pad.length = roundUpToPage message.length

/-- The bytes of a written record on disk. -/
def WrittenRecord.bytes (record : WrittenRecord) : Bytes := record.message ++ record.pad

/-- The bytes of a record on disk. -/
def LogRecord.bytes (record : LogRecord) : Bytes := record.message ++ record.pad

/-- The bytes of records written one after the other. -/
def logBytes (records : List LogRecord) : Bytes := records.flatMap LogRecord.bytes

/-! ## Reading records back -/

theorem roundUpToPage_dvd (x : Nat) : pageSize ∣ roundUpToPage x := Nat.dvd_mul_left _ _

theorem roundUpToPage_lt (x : Nat) : roundUpToPage x < u32Size := by
  have : (x + (pageSize - 1)) % u32Size < u32Size := Nat.mod_lt _ (by decide)
  unfold roundUpToPage pageSize at *
  omega

namespace WrittenRecord

variable (record : WrittenRecord)

theorem length_bytes : record.bytes.length = roundUpToPage record.message.length := by
  rw [WrittenRecord.bytes, length_append, record.padded]

theorem length_message_le : record.message.length ≤ roundUpToPage record.message.length := by
  have := record.padded
  omega

theorem checksum : verifyChecksum record.message = true := by
  have := record.written
  simp only [LogFile.written, Bool.and_eq_true] at this
  exact this.1

theorem header : ∃ header, unmarshalBase record.message = some header ∧
    isLogged header.msgId = true ∧ header.unMarshalLen = record.message.length := by
  have h := record.written
  simp only [LogFile.written, Bool.and_eq_true] at h
  have hheader := h.2
  split at hheader
  · exact absurd hheader (by simp)
  · next header hread =>
    rw [Bool.and_eq_true, decide_eq_true_eq] at hheader
    exact ⟨header, hread, hheader.1, hheader.2⟩

theorem length_message_pos : 0 < record.message.length := by
  have := record.checksum
  simp only [verifyChecksum, Bool.and_eq_true, decide_eq_true_eq] at this
  omega

theorem pageSize_le : pageSize ≤ record.bytes.length := by
  rw [record.length_bytes]
  have hpos : 0 < roundUpToPage record.message.length :=
    record.length_message_pos.trans_le record.length_message_le
  exact Nat.le_of_dvd hpos (roundUpToPage_dvd _)

/-- The first page of a stream that starts with the header of a record holds that header. -/
theorem header_page {header : Wire.Header} (hread : unmarshalBase record.message = some header)
    {stream : Bytes} (hstream : record.message.take 172 <+: stream) :
    unmarshalBase (stream.take pageSize) = some header := by
  apply unmarshalBase_congr hread
  rw [prefix_take_iff]
  constructor
  · exact hstream
  · rw [length_take]
    exact (min_le_left _ _).trans (by decide)

/-- The length of the body that `ReadNextMessage` reads for a record. -/
theorem bodyLen_eq :
    (roundUpToPage record.message.length + u32Size - pageSize) % u32Size =
      record.bytes.length - pageSize := by
  have hlt := roundUpToPage_lt record.message.length
  have hle := record.pageSize_le
  rw [record.length_bytes] at hle ⊢
  rw [show roundUpToPage record.message.length + u32Size - pageSize =
      roundUpToPage record.message.length - pageSize + u32Size by omega,
    Nat.add_mod_right, Nat.mod_eq_of_lt (by omega)]

/-- What is read at the header of a record: the bytes at its place, if there are enough of them. -/
theorem readNextMessage_eq {stream : Bytes} (hstream : record.message.take 172 <+: stream)
    (hlength : pageSize ≤ stream.length) :
    readNextMessage stream =
      if stream.length < record.bytes.length then .finished
      else if !verifyChecksum (stream.take record.message.length) then
        if verifyZeroStream (stream.drop record.bytes.length) then .finished else .failed
      else if (unMarshalMessage (stream.take record.message.length)).isNone then .failed
      else .message (stream.take record.message.length) (stream.drop record.bytes.length) := by
  obtain ⟨header, hread, hlogged, hlen⟩ := record.header
  have hpage := record.pageSize_le
  have hpos := pageSize_pos
  have hshort : (stream.drop pageSize).length < record.bytes.length - pageSize ↔
      stream.length < record.bytes.length := by
    rw [length_drop]
    omega
  unfold readNextMessage
  rw [if_neg (by omega), if_neg (by omega), record.header_page hread hstream]
  simp only [hlogged, Bool.not_true, Bool.false_eq_true, if_false, hlen, record.bodyLen_eq, hshort]
  rw [if_neg (not_lt.mpr record.length_message_le), record.length_bytes]

/-- A whole record at the front of a stream is read, unless the reader refuses its message. -/
theorem readNextMessage_whole (rest : Bytes) :
    readNextMessage (record.bytes ++ rest) =
      if (unMarshalMessage record.message).isNone then .failed
      else .message record.message rest := by
  have hmessage : (record.bytes ++ rest).take record.message.length = record.message := by
    rw [WrittenRecord.bytes, append_assoc]
    exact take_left' rfl
  have hlength : ¬ (record.bytes ++ rest).length < record.bytes.length := by
    rw [length_append]
    omega
  have hpage : pageSize ≤ (record.bytes ++ rest).length := by
    have := record.pageSize_le
    omega
  have hheader : record.message.take 172 <+: record.bytes ++ rest := by
    rw [← hmessage, take_take]
    exact take_prefix _ _
  rw [record.readNextMessage_eq hheader hpage, if_neg hlength, hmessage, record.checksum,
    drop_left' rfl]
  simp only [Bool.not_true, Bool.false_eq_true, if_false]

end WrittenRecord

namespace LogRecord

variable (record : LogRecord)

theorem parses : (unMarshalMessage record.message).isSome = true := by
  have := record.wellFormed
  simp only [LogFile.wellFormed, Bool.and_eq_true] at this
  exact this.1.1.2

/-- The record, as one that was written. -/
def toWritten : WrittenRecord where
  message := record.message
  pad := record.pad
  written := by
    have := record.wellFormed
    simp only [LogFile.wellFormed, Bool.and_eq_true] at this
    simp only [LogFile.written, Bool.and_eq_true]
    exact ⟨this.1.1.1, this.1.2⟩
  padded := record.padded

theorem length_bytes : record.bytes.length = roundUpToPage record.message.length :=
  record.toWritten.length_bytes

theorem pageSize_le : pageSize ≤ record.bytes.length := record.toWritten.pageSize_le

end LogRecord

/-- A record at the front of a stream is read. -/
theorem readNextMessage_record (record : LogRecord) (rest : Bytes) :
    readNextMessage (record.bytes ++ rest) = .message record.message rest := by
  apply (record.toWritten.readNextMessage_whole rest).trans
  apply if_neg
  rw [Bool.not_eq_true, Option.isNone_eq_false_iff]
  exact record.parses

variable {zeros : Bytes}

/-- Zeros that fill a page are the end of a log. -/
theorem readNextMessage_page (hzero : verifyZeroStream zeros = true)
    (hpage : pageSize ≤ zeros.length) : readNextMessage zeros = .finished := by
  have hrep : zeros = replicate zeros.length 0 := by
    rw [eq_replicate_iff]
    refine ⟨rfl, fun b hb => ?_⟩
    have := all_eq_true.mp hzero b hb
    simpa using this
  have hpos := pageSize_pos
  have hnone : unmarshalBase (zeros.take pageSize) = none := by
    rw [hrep, take_replicate, min_eq_left hpage]
    decide +kernel
  rw [readNextMessage, if_neg (by omega), if_neg (by omega), hnone]
  exact if_pos hzero

/-- Zeros in whole pages are the end of a log. -/
theorem readNextMessage_zeros (hzero : verifyZeroStream zeros = true)
    (hpages : pageSize ∣ zeros.length) : readNextMessage zeros = .finished := by
  by_cases hempty : zeros.length = 0
  · rw [readNextMessage, if_pos hempty]
  · exact readNextMessage_page hzero (Nat.le_of_dvd (Nat.pos_of_ne_zero hempty) hpages)

/-- A torn record with only zeros behind it is the end of a log, when its checksum does not
verify. -/
theorem readNextMessage_torn (record : LogRecord) {pages : Nat} (hpos : 0 < pages)
    (htorn : pageSize * pages < record.bytes.length) (hzero : verifyZeroStream zeros = true)
    (hdetect : verifyChecksum
      ((record.bytes.take (pageSize * pages) ++ zeros).take record.message.length) = false) :
    readNextMessage (record.bytes.take (pageSize * pages) ++ zeros) = .finished := by
  have hle : pageSize ≤ pageSize * pages := Nat.le_mul_of_pos_right _ hpos
  have hlength : (record.bytes.take (pageSize * pages)).length = pageSize * pages := by
    rw [length_take]
    omega
  have hpage : pageSize ≤ (record.bytes.take (pageSize * pages) ++ zeros).length := by
    rw [length_append]
    omega
  have hheader : record.message.take 172 <+: record.bytes.take (pageSize * pages) ++ zeros := by
    apply List.IsPrefix.trans _ (prefix_append _ _)
    rw [prefix_take_iff, length_take]
    constructor
    · refine IsPrefix.trans ?_ (prefix_append _ _)
      exact take_prefix _ _
    · have : 172 ≤ pageSize := by decide
      omega
  -- what follows the record is a part of the zeros
  have hrest : verifyZeroStream ((record.bytes.take (pageSize * pages) ++ zeros).drop
      record.bytes.length) = true := by
    rw [drop_append, drop_eq_nil_of_le (by omega), nil_append]
    exact all_eq_true.mpr fun b hb => all_eq_true.mp hzero b (mem_of_mem_drop hb)
  apply (record.toWritten.readNextMessage_eq hheader hpage).trans
  split
  · rfl
  · exact (if_pos ((Bool.not_eq_true' _).mpr hdetect)).trans (if_pos hrest)

/-! ## Recovery -/

theorem logBytes_cons (record : LogRecord) (records : List LogRecord) :
    logBytes (record :: records) = record.bytes ++ logBytes records := flatMap_cons

theorem logBytes_append (records records' : List LogRecord) :
    logBytes (records ++ records') = logBytes records ++ logBytes records' := flatMap_append

section

variable (records : List LogRecord)

include records

theorem pageSize_dvd_logBytes :
    pageSize ∣ (logBytes records).length := by
  induction records with
  | nil => exact Nat.dvd_zero _
  | cons record records ih =>
    rw [logBytes_cons, length_append, record.length_bytes]
    exact Nat.dvd_add (roundUpToPage_dvd _) ih

/-- Where recovery puts the write pointer behind whole records. -/
theorem dataLen_messages :
    dataLen (records.map LogRecord.message) = (logBytes records).length := by
  induction records with
  | nil => rfl
  | cons record records ih =>
    rw [logBytes_cons, length_append, ← ih, record.length_bytes]
    rfl

/-- Recovery of whole records with the end of the log behind them. -/
theorem recoverFrom_logBytes {tail : Bytes} (htail : readNextMessage tail = .finished) {fuel : Nat}
    (hfuel : (logBytes records ++ tail).length < fuel) :
    recoverFrom fuel (logBytes records ++ tail) = some (records.map LogRecord.message) := by
  induction records generalizing fuel with
  | nil =>
    obtain _ | fuel := fuel
    · cases hfuel
    simp only [logBytes, flatMap_nil, nil_append, recoverFrom, htail, map_nil]
  | cons record records ih =>
    obtain _ | fuel := fuel
    · cases hfuel
    have hpage := record.pageSize_le
    have hpos := pageSize_pos
    rw [logBytes_cons, append_assoc] at hfuel ⊢
    have hrest : (logBytes records ++ tail).length < fuel := by
      rw [length_append] at hfuel
      omega
    simp only [recoverFrom, readNextMessage_record, ih hrest, Option.map_some, map_cons]

theorem recover_logBytes {tail : Bytes} (htail : readNextMessage tail = .finished) :
    recover (logBytes records ++ tail) = some (records.map LogRecord.message) :=
  recoverFrom_logBytes records htail (lt_add_one _)

end

/-! ## Two records -/

namespace Example

/-- A version 1 vote for decree 1 with no requests: one page. -/
def smallMessage : Bytes :=
  [1, 0, 48, 0, 0, 0, 246, 207, 189, 7, 190, 94, 14, 76, 206, 250, 13, 240, 1, 0, 1, 0, 0, 0, 0,
    0, 0, 0, 1, 0, 0, 0, 0, 0, 0, 0, 1, 0, 0, 0, 1, 0, 0, 0, 0, 0, 0, 0]

/-- A version 1 vote for decree 1 with one request of 1000 bytes: three pages. -/
def largeMessage : Bytes :=
  [1, 0, 28, 4, 0, 0, 179, 53, 0, 15, 66, 53, 209, 104, 206, 250, 13, 240, 1, 0, 1, 0, 0, 0, 0,
    0, 0, 0, 1, 0, 0, 0, 0, 0, 0, 0, 1, 0, 0, 0, 1, 0, 0, 0, 0, 0, 0, 0, 232, 3, 0, 0] ++
      replicate 1000 7

def smallVote : LogRecord :=
  ⟨smallMessage, replicate 464 0, by decide +kernel, by decide +kernel⟩

def largeVote : LogRecord :=
  ⟨largeMessage, replicate 484 0, by decide +kernel, by decide +kernel⟩

end Example

end Rsl.LogFile
