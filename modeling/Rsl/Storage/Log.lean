import Rsl.Lib.LastTable
import Rsl.Wire.Message

/-!
# The record log of the storage crate

`log.rs`: the recovery scan of a log file, the decree index, and the checks and the padding with
which `append_batch` turns a batch of messages into the bytes of a log. A Rust panic is a value of
its own (`ReadOne.panicked`, a scan of `none`). Offsets and file lengths are natural numbers: a file
cannot reach the `2 ^ 64` bytes at which the source's sums would wrap. The decree arithmetic of the
index does wrap.

The main result is `scan_prefix`: the scan of any prefix of the bytes of well-formed records returns
exactly the records that lie wholly inside the prefix.
-/

set_option autoImplicit false

namespace Rsl.Storage

open Wire List

/-! ## Pages -/

/-- `PAGE_SIZE`. -/
def pageSize : Nat := 512

theorem pageSize_pos : 0 < pageSize := by decide

/-- `round_up_to_page`: `checked_add` on `u32`, saturating at the last page boundary. -/
def roundUpToPage (x : Nat) : Nat :=
  if x + (pageSize - 1) < 4294967296 then (x + (pageSize - 1)) / pageSize * pageSize
  else 4294967296 - pageSize

/-! ## The scan -/

/-- `is_loggable`. -/
def isLoggable (msgId : Nat) : Bool :=
  msgId == msgVote || (msgId == msgPrepare || msgId == msgReconfigurationDecision)

/-- `kind_of`. -/
def kindOf (msgId : Nat) : Option MsgKind :=
  if msgId = msgVote then some .vote
  else if msgId = msgPrepare then some .prepare
  else if msgId = msgReconfigurationDecision then some .base
  else none

/-- `StopReason`. -/
inductive StopReason where
  | zeroRegion
  | tornTail
  | trailingChecksumMismatch
  deriving DecidableEq, Repr

/-- `RejectReason`. -/
inductive RejectReason where
  | partialHeaderPage
  | headerUnmarshal
  | unknownMessageId
  | checksumMismatch
  | recordUnmarshal
  deriving DecidableEq, Repr

/-- `ScanEnd`. -/
inductive ScanEnd where
  | eof
  | stop (reason : StopReason)
  | reject (reason : RejectReason)
  deriving DecidableEq, Repr

/-- `ScanEnd::recoverable`. -/
def ScanEnd.recoverable : ScanEnd → Bool
  | .reject _ => false
  | _ => true

/-- `RecordInfo`. -/
structure RecordInfo where
  offset : Nat
  msgId : Nat
  decree : Nat
  unMarshalLen : Nat
  paddedLen : Nat
  checksum : Nat
  deriving DecidableEq, Repr

/-- `Record`: the metadata and the bytes on disk, pad included. -/
structure Record where
  info : RecordInfo
  padded : Bytes
  deriving DecidableEq, Repr

/-- `Record::message_bytes`. -/
def Record.messageBytes (record : Record) : Bytes := record.padded.take record.info.unMarshalLen

/-- `record_info`. -/
def recordInfo (header : Wire.Header) (offset paddedLen : Nat) : RecordInfo :=
  ⟨offset, header.msgId, header.decree, header.unMarshalLen, paddedLen, header.checksum⟩

/-- `is_zero`. -/
def isZero (buf : Bytes) : Bool := buf.all (· == 0)

/-- What `read_one` comes to: a record and the bytes behind it, the end of the scan, or a panic. -/
inductive ReadOne where
  | record (record : Record) (rest : Bytes)
  | ended (reason : ScanEnd)
  | panicked
  deriving DecidableEq, Repr

/-- `LogScanner::read_one` at `offset`, with `buf` the bytes from there to the end of the file. -/
def readOne (offset : Nat) (buf : Bytes) : ReadOne :=
  if buf.length = 0 then .ended .eof
  else if buf.length < pageSize then .ended (.reject .partialHeaderPage)
  else match unmarshalBase (buf.take pageSize) with
    | none =>
      if isZero buf then .ended (.stop .zeroRegion) else .ended (.reject .headerUnmarshal)
    | some header =>
      if !isLoggable header.msgId then .ended (.reject .unknownMessageId)
      else
        let paddedLen := roundUpToPage header.unMarshalLen
        if buf.length < paddedLen then .ended (.stop .tornTail)
        -- the slice up to `un_marshal_len` of a buffer of `padded_len` bytes
        else if paddedLen < header.unMarshalLen then .panicked
        else
          let message := buf.take header.unMarshalLen
          let rest := buf.drop paddedLen
          if !verifyChecksum message then
            if isZero rest then .ended (.stop .trailingChecksumMismatch)
            else .ended (.reject .checksumMismatch)
          else match kindOf header.msgId with
            | none => .panicked
            | some kind =>
              if (Msg.unmarshal kind message).isNone then .ended (.reject .recordUnmarshal)
              else .record ⟨recordInfo header offset paddedLen, buf.take paddedLen⟩ rest

/-- `ScanResult`, with the records the scanner yields in place of their metadata alone. -/
structure ScanResult where
  ending : ScanEnd
  stopOffset : Nat
  records : List Record
  deriving DecidableEq, Repr

/-- The loop of `scan`; `none` is a panic. Every record takes at least a page, so the length of the
file bounds the rounds. -/
def scanFrom : Nat → Nat → Bytes → Option ScanResult
  | 0, offset, _ => some ⟨.eof, offset, []⟩
  | fuel + 1, offset, buf =>
    match readOne offset buf with
    | .ended reason => some ⟨reason, offset, []⟩
    | .panicked => none
    | .record record rest =>
      (scanFrom fuel (offset + record.info.paddedLen) rest).map fun result =>
        { result with records := record :: result.records }

/-- `scan`. -/
def scan (buf : Bytes) : Option ScanResult := scanFrom (buf.length + 1) 0 buf

/-! ## The decree index -/

/-- The size of a `u64`. -/
def u64Size : Nat := 18446744073709551616

/-- `IndexError`. -/
structure IndexError where
  decree : Nat
  maxDecree : Nat
  deriving DecidableEq, Repr

/-- `DecreeIndex`. -/
structure DecreeIndex where
  minDecree : Nat := 0
  offsets : List Nat := []
  dataLen : Nat := 0
  deriving DecidableEq, Repr

namespace DecreeIndex

/-- `DecreeIndex::max_decree`. -/
def maxDecree (index : DecreeIndex) : Nat :=
  if index.offsets.isEmpty then 0 else (index.minDecree + index.offsets.length - 1) % u64Size

/-- `DecreeIndex::add_message`. A vote for the highest decree replaces its entry. -/
def addMessage (index : DecreeIndex) (msgId decree paddedLen : Nat) :
    Except IndexError DecreeIndex :=
  if msgId = msgVote then
    if index.offsets.isEmpty then
      .ok ⟨decree, [index.dataLen], index.dataLen + paddedLen⟩
    else if decree ≠ index.maxDecree ∧ decree ≠ (index.maxDecree + 1) % u64Size then
      .error ⟨decree, index.maxDecree⟩
    else
      let offsets := if decree = index.maxDecree then index.offsets.dropLast else index.offsets
      .ok ⟨index.minDecree, offsets ++ [index.dataLen], index.dataLen + paddedLen⟩
  else .ok { index with dataLen := index.dataLen + paddedLen }

end DecreeIndex

/-- `ScanResult::index`. -/
def ScanResult.index (result : ScanResult) : Except IndexError DecreeIndex :=
  result.records.foldlM (fun index record =>
    index.addMessage record.info.msgId record.info.decree record.info.paddedLen) {}

/-! ## Appending -/

/-- The errors of `LogError` that the modelled functions return. -/
inductive LogError where
  | notAMessage
  | lengthMismatch (declared actual : Nat)
  | notLoggable (msgId : Nat)
  | index (error : IndexError)
  | corrupt (scan : ScanResult)
  deriving DecidableEq, Repr

/-- `RecordShape`. -/
structure RecordShape where
  msgId : Nat
  decree : Nat
  paddedLen : Nat
  deriving DecidableEq, Repr

/-- The checks that `append_unsynced` makes on one record. -/
def shapeOf (record : Bytes) : Except LogError RecordShape :=
  match unmarshalBase record with
  | none => .error .notAMessage
  | some header =>
    if header.unMarshalLen ≠ record.length then
      .error (.lengthMismatch header.unMarshalLen record.length)
    else if !isLoggable header.msgId then .error (.notLoggable header.msgId)
    else .ok ⟨header.msgId, header.decree, roundUpToPage header.unMarshalLen⟩

/-- Index-check a batch against a copy of the index. -/
def indexBatch (index : DecreeIndex) : List RecordShape → Except LogError DecreeIndex
  | [] => .ok index
  | shape :: shapes =>
    match index.addMessage shape.msgId shape.decree shape.paddedLen with
    | .error e => .error (.index e)
    | .ok next => indexBatch next shapes

/-- The validation of `append_unsynced`: the shapes of the batch and the index after it. -/
def validateBatch (index : DecreeIndex) (records : List Bytes) :
    Except LogError (List RecordShape × DecreeIndex) := do
  let shapes ← records.mapM shapeOf
  let next ← indexBatch index shapes
  return (shapes, next)

/-- The bytes that `write_records` writes, and whether it returns: the size of a pad underflows
when the record is longer than its rounded length, which is a panic. -/
def writeRecords : List Bytes → List RecordShape → Bytes × Bool
  | record :: records, shape :: shapes =>
    if shape.paddedLen < record.length then ([], false)
    else
      let (bytes, returns) := writeRecords records shapes
      (record ++ replicate (shape.paddedLen - record.length) 0 ++ bytes, returns)
  | _, _ => ([], true)

/-! ## Well-formed records -/

/-- The checks that the scan makes on the bytes of a record and `append_batch` does not: the
checksum and the parse of the whole message. -/
def scanAccepts (record : Bytes) : Bool :=
  verifyChecksum record &&
    match (unmarshalBase record).bind fun header => kindOf header.msgId with
    | none => false
    | some kind => (Msg.unmarshal kind record).isSome

/-- A record that the writer lets in and the scan reads back. -/
structure RecordOk (record : Bytes) : Prop where
  shape : ∃ shape, shapeOf record = .ok shape
  fits : record.length ≤ roundUpToPage record.length
  accepted : scanAccepts record = true

/-- The bytes of a record on disk. -/
def footprint (record : Bytes) : Bytes :=
  record ++ replicate (roundUpToPage record.length - record.length) 0

/-- The bytes of a log that holds `records`. -/
def logBytes (records : List Bytes) : Bytes := records.flatMap footprint

/-- The records of a log that lie wholly in its first `n` bytes. -/
def wholeIn : List Bytes → Nat → List Bytes
  | [], _ => []
  | record :: records, n =>
    if (footprint record).length ≤ n then
      record :: wholeIn records (n - (footprint record).length)
    else []

/-- The first `n` bytes of a log do not end inside the first page of a record. -/
def clearOfHeader : List Bytes → Nat → Bool
  | [], _ => true
  | record :: records, n =>
    if (footprint record).length ≤ n then clearOfHeader records (n - (footprint record).length)
    else decide (n = 0) || decide (pageSize ≤ n)

theorem roundUpToPage_ge (x : Nat) (h : 0 < x) : pageSize ≤ roundUpToPage x := by
  unfold roundUpToPage pageSize
  split <;> omega

theorem shapeOf_eq_ok {record : Bytes} {shape : RecordShape} (h : shapeOf record = .ok shape) :
    ∃ header, unmarshalBase record = some header ∧ header.unMarshalLen = record.length ∧
      isLoggable header.msgId = true ∧ shape.paddedLen = roundUpToPage record.length := by
  unfold shapeOf at h
  split at h
  · exact absurd h (by simp)
  · next header hheader =>
    simp only [ne_eq, ite_not, Bool.not_eq_true'] at h
    split at h
    · next hlen =>
      split at h
      · exact absurd h (by simp)
      · next hid =>
        cases h
        exact ⟨header, hheader, hlen, by simpa using hid, by rw [hlen]⟩
    · exact absurd h (by simp)

theorem kindOf_isSome {msgId : Nat} (h : isLoggable msgId = true) :
    ∃ kind, kindOf msgId = some kind := by
  unfold kindOf
  simp only [isLoggable, Bool.or_eq_true, beq_iff_eq] at h
  split
  · exact ⟨_, rfl⟩
  · split
    · exact ⟨_, rfl⟩
    · rw [if_pos (by tauto)]
      exact ⟨_, rfl⟩

namespace RecordOk

variable {record : Bytes} (h : RecordOk record)

include h

theorem checksum : verifyChecksum record = true := by
  have := h.accepted
  simp only [scanAccepts, Bool.and_eq_true] at this
  exact this.1

theorem length_pos : 0 < record.length := by
  have := h.checksum
  simp only [verifyChecksum, Bool.and_eq_true, decide_eq_true_eq] at this
  omega

/-- The header, the kind and the parsed message of a well-formed record. -/
theorem parsed : ∃ header kind, unmarshalBase record = some header ∧
    header.unMarshalLen = record.length ∧ isLoggable header.msgId = true ∧
    kindOf header.msgId = some kind ∧ (Msg.unmarshal kind record).isSome = true := by
  obtain ⟨shape, hshape⟩ := h.shape
  obtain ⟨header, hheader, hlen, hlog, -⟩ := shapeOf_eq_ok hshape
  obtain ⟨kind, hkind⟩ := kindOf_isSome hlog
  have hacc := h.accepted
  simp only [scanAccepts, hheader, Option.bind_some, hkind, Bool.and_eq_true] at hacc
  exact ⟨header, kind, hheader, hlen, hlog, hkind, hacc.2⟩

theorem length_footprint : (footprint record).length = roundUpToPage record.length := by
  have := h.fits
  rw [footprint, length_append, length_replicate]
  omega

theorem pageSize_le : pageSize ≤ (footprint record).length := by
  rw [h.length_footprint]
  exact roundUpToPage_ge _ h.length_pos

end RecordOk

/-! ## The scan of a log -/

/-- What `read_one` has checked when it returns a record. -/
theorem readOne_eq_record {offset : Nat} {buf rest : Bytes} {record : Record}
    (h : readOne offset buf = .record record rest) :
    ∃ header kind, pageSize ≤ buf.length ∧ unmarshalBase (buf.take pageSize) = some header ∧
      isLoggable header.msgId = true ∧ roundUpToPage header.unMarshalLen ≤ buf.length ∧
      header.unMarshalLen ≤ roundUpToPage header.unMarshalLen ∧
      verifyChecksum (buf.take header.unMarshalLen) = true ∧
      kindOf header.msgId = some kind ∧
      (Msg.unmarshal kind (buf.take header.unMarshalLen)).isSome = true ∧
      record = ⟨recordInfo header offset (roundUpToPage header.unMarshalLen),
        buf.take (roundUpToPage header.unMarshalLen)⟩ ∧
      rest = buf.drop (roundUpToPage header.unMarshalLen) := by
  rw [readOne] at h
  by_cases hempty : buf.length = 0
  · simp [hempty] at h
  by_cases hpage : buf.length < pageSize
  · simp [hempty, hpage] at h
  cases hread : unmarshalBase (buf.take pageSize) with
  | none =>
    simp only [hempty, hpage, if_false, hread] at h
    split at h <;> cases h
  | some header =>
    simp only [hempty, hpage, if_false, hread] at h
    by_cases hlog : isLoggable header.msgId = true
    · obtain ⟨kind, hkind⟩ := kindOf_isSome hlog
      simp only [hlog, Bool.not_true, Bool.false_eq_true, if_false, hkind] at h
      by_cases hlen : buf.length < roundUpToPage header.unMarshalLen
      · simp [hlen] at h
      by_cases hfits : roundUpToPage header.unMarshalLen < header.unMarshalLen
      · simp [hlen, hfits] at h
      cases hsum : verifyChecksum (buf.take header.unMarshalLen) with
      | false =>
        simp only [hlen, hfits, if_false, hsum, Bool.not_false, if_true] at h
        split at h <;> cases h
      | true =>
        simp only [hlen, hfits, if_false, hsum, Bool.not_true, Bool.false_eq_true] at h
        cases hparse : Msg.unmarshal kind (buf.take header.unMarshalLen) with
        | none => simp [hparse] at h
        | some msg =>
          simp only [hparse, Option.isNone_some, Bool.false_eq_true, if_false] at h
          cases h
          exact ⟨header, kind, by omega, rfl, hlog, by omega, by omega, hsum, hkind,
            by rw [hparse]; rfl, rfl, rfl⟩
    · simp [hlog] at h

/-- The first page of a log that starts with a record holds the header of that record. -/
theorem unmarshalBase_page {record buf : Bytes} {header : Wire.Header}
    (hheader : unmarshalBase record = some header) (hbuf : record <+: buf) :
    unmarshalBase (buf.take pageSize) = some header := by
  apply unmarshalBase_congr hheader
  rw [prefix_take_iff]
  constructor
  · refine IsPrefix.trans ?_ hbuf
    exact take_prefix _ _
  · rw [length_take]
    exact (min_le_left _ _).trans (by decide)

/-- A record followed by anything is read back whole, with the shape that the writer gave it. -/
theorem readOne_footprint {record : Bytes} (h : RecordOk record) (offset : Nat) (rest : Bytes) :
    ∃ shape checksum, shapeOf record = .ok shape ∧
      shape.paddedLen = (footprint record).length ∧
      readOne offset (footprint record ++ rest) =
        .record ⟨⟨offset, shape.msgId, shape.decree, record.length, shape.paddedLen, checksum⟩,
          footprint record⟩ rest := by
  obtain ⟨header, kind, hheader, hlen, hlog, hkind, hparse⟩ := h.parsed
  have hpage := h.pageSize_le
  have hpad := h.length_footprint
  have hpos := pageSize_pos
  have hbuf : (footprint record ++ rest).length = (footprint record).length + rest.length :=
    length_append
  have hrecord : record <+: footprint record ++ rest := by
    rw [footprint, append_assoc]
    exact prefix_append _ _
  have hmessage : (footprint record ++ rest).take record.length = record :=
    (prefix_iff_eq_take.mp hrecord).symm
  refine ⟨⟨header.msgId, header.decree, (footprint record).length⟩, header.checksum, ?_, rfl, ?_⟩
  · simp [shapeOf, hheader, hlen, hlog, hpad]
  · unfold readOne
    rw [if_neg (by omega), if_neg (by omega), unmarshalBase_page hheader hrecord]
    simp only [hlog, Bool.not_true, Bool.false_eq_true, if_false, hlen, ← hpad, hmessage,
      h.checksum, hkind]
    rw [if_neg (by omega), if_neg (by have := h.fits; omega)]
    rw [if_neg (by simp [Option.isSome_iff_ne_none.mp hparse]), take_left' rfl,
      drop_left' rfl, recordInfo, hlen]

/-- The scan ends at a record of which only a proper prefix is there. -/
theorem readOne_torn {record torn : Bytes} (h : RecordOk record)
    (htorn : torn <+: footprint record) (hlt : torn.length < (footprint record).length) :
    ∃ reason, (∀ offset, readOne offset torn = .ended reason) ∧
      (reason.recoverable = true ↔ torn = [] ∨ pageSize ≤ torn.length) := by
  obtain ⟨header, -, hheader, hlen, hlog, -⟩ := h.parsed
  have hrecord : record <+: footprint record := prefix_append _ _
  unfold readOne
  by_cases hempty : torn.length = 0
  · -- nothing of the record is there: the clean end of the file
    simp only [if_pos hempty]
    refine ⟨_, fun _ => rfl, ?_⟩
    simp [ScanEnd.recoverable, length_eq_zero_iff.mp hempty]
  · simp only [if_neg hempty]
    have hne : torn ≠ [] := fun h => hempty (by rw [h]; rfl)
    by_cases hpage : torn.length < pageSize
    · -- less than a page: the scan rejects the file
      simp only [if_pos hpage]
      refine ⟨_, fun _ => rfl, ?_⟩
      have hlt' : ¬ pageSize ≤ torn.length := by omega
      simp [ScanEnd.recoverable, hne, hlt']
    · simp only [if_neg hpage]
      obtain ⟨rest, hrest⟩ := htorn
      have htake : torn.take pageSize = (footprint record).take pageSize := by
        rw [← hrest, take_append_of_le_length (by omega)]
      simp only [htake, unmarshalBase_page hheader hrecord, hlog, Bool.not_true,
        Bool.false_eq_true, if_false, hlen]
      rw [← h.length_footprint]
      simp only [if_pos hlt]
      refine ⟨_, fun _ => rfl, ?_⟩
      simp only [ScanEnd.recoverable, true_iff]
      exact .inr (by omega)

theorem logBytes_cons (record : Bytes) (records : List Bytes) :
    logBytes (record :: records) = footprint record ++ logBytes records := flatMap_cons

theorem logBytes_append (records records' : List Bytes) :
    logBytes (records ++ records') = logBytes records ++ logBytes records' := flatMap_append

/-- A prefix of a log either ends inside its first record or continues behind it. -/
theorem prefix_logBytes_cons {record buf : Bytes} {records : List Bytes}
    (h : buf <+: logBytes (record :: records)) :
    (∃ rest, buf = footprint record ++ rest ∧ rest <+: logBytes records) ∨
      buf <+: footprint record ∧ buf.length < (footprint record).length := by
  rw [logBytes_cons] at h
  by_cases hlen : (footprint record).length ≤ buf.length
  · left
    obtain ⟨rest, rfl⟩ := prefix_of_prefix_length_le (prefix_append _ _) h hlen
    exact ⟨rest, rfl, (prefix_append_right_inj _).mp h⟩
  · right
    have hlt : buf.length < (footprint record).length := by omega
    exact ⟨prefix_of_prefix_length_le h (prefix_append _ _) (by omega), hlt⟩

/-- What a scan returns: the messages of its records and the bytes they take. -/
def ScanResult.Returns (result : ScanResult) (messages : List Bytes) : Prop :=
  result.records.map Record.messageBytes = messages ∧
    (result.records.map fun record => record.info.paddedLen).sum = (logBytes messages).length

/-- The records of a scan lie one after the other from `offset` on, hold the messages, and have the
shapes that the writer gave them. -/
inductive LaidOut : Nat → List Record → List Bytes → Prop where
  | nil {offset : Nat} : LaidOut offset [] []
  | cons {offset checksum : Nat} {message : Bytes} {shape : RecordShape} {records : List Record}
      {messages : List Bytes} (hshape : shapeOf message = .ok shape)
      (hpad : shape.paddedLen = (footprint message).length)
      (hrest : LaidOut (offset + shape.paddedLen) records messages) :
      LaidOut offset
        (⟨⟨offset, shape.msgId, shape.decree, message.length, shape.paddedLen, checksum⟩,
          footprint message⟩ :: records) (message :: messages)

namespace LaidOut

variable {offset : Nat} {records : List Record} {messages : List Bytes}

theorem messages_eq (h : LaidOut offset records messages) :
    records.map Record.messageBytes = messages := by
  induction h with
  | nil => rfl
  | cons hshape hpad hrest ih =>
    rw [map_cons, ih]
    congr 1
    exact take_left' rfl

theorem bytes_eq (h : LaidOut offset records messages) :
    (records.map fun record => record.info.paddedLen).sum = (logBytes messages).length := by
  induction h with
  | nil => rfl
  | cons hshape hpad hrest ih =>
    rw [map_cons, sum_cons, ih, hpad, logBytes_cons, length_append]

end LaidOut

variable {records : List Bytes} {shapes : List RecordShape} {buf : Bytes} {index next : DecreeIndex}

/-- The scan of whole records and something behind them that ends the scan. -/
theorem scanFrom_logBytes (hok : ∀ record ∈ records, RecordOk record)
    {tail : Bytes} {reason : ScanEnd} (htail : ∀ offset, readOne offset tail = .ended reason)
    {fuel : Nat} (hfuel : (logBytes records ++ tail).length < fuel) (offset : Nat) :
    ∃ read, scanFrom fuel offset (logBytes records ++ tail) =
        some ⟨reason, offset + (logBytes records).length, read⟩ ∧
      LaidOut offset read records := by
  induction records generalizing fuel offset with
  | nil =>
    obtain _ | fuel := fuel
    · cases hfuel
    refine ⟨[], ?_, .nil⟩
    simp only [logBytes, flatMap_nil, nil_append, scanFrom, htail, length_nil, add_zero]
  | cons record records ih =>
    have hrecord := hok record mem_cons_self
    obtain _ | fuel := fuel
    · cases hfuel
    rw [logBytes_cons, append_assoc] at hfuel ⊢
    obtain ⟨shape, checksum, hshape, hpad, hread⟩ :=
      readOne_footprint hrecord offset (logBytes records ++ tail)
    have hpage := hrecord.pageSize_le
    have hpos := pageSize_pos
    have hrest : (logBytes records ++ tail).length < fuel := by
      rw [length_append] at hfuel
      omega
    obtain ⟨read, hscan, hlaid⟩ :=
      ih (fun r hr => hok r (mem_cons_of_mem _ hr)) hrest (offset + shape.paddedLen)
    have hstep : scanFrom (fuel + 1) offset (footprint record ++ (logBytes records ++ tail)) =
        some ⟨reason, offset + (footprint record ++ logBytes records).length,
          ⟨⟨offset, shape.msgId, shape.decree, record.length, shape.paddedLen, checksum⟩,
            footprint record⟩ :: read⟩ := by
      simp only [scanFrom, hread, hscan, Option.map_some]
      rw [length_append, ← hpad, add_assoc]
    exact ⟨_, hstep, .cons hshape hpad hlaid⟩

/-! ## Records inside a prefix -/

theorem wholeIn_append {whole : List Bytes} (records : List Bytes) {n : Nat}
    (h : (logBytes whole).length ≤ n) :
    wholeIn (whole ++ records) n = whole ++ wholeIn records (n - (logBytes whole).length) := by
  induction whole generalizing n with
  | nil => simp [logBytes]
  | cons record whole ih =>
    rw [logBytes_cons, length_append] at h
    rw [cons_append, wholeIn, if_pos (by omega), ih (by omega), logBytes_cons,
      length_append, Nat.sub_sub, cons_append]

/-- The records wholly inside a prefix of a log are the log's first records, and their bytes are
the first bytes of the prefix. -/
theorem wholeIn_isPrefix (records : List Bytes) (n : Nat) : wholeIn records n <+: records := by
  induction records generalizing n with
  | nil => exact prefix_refl _
  | cons record records ih =>
    unfold wholeIn
    split
    · exact cons_prefix_cons.mpr ⟨rfl, ih _⟩
    · exact nil_prefix

theorem logBytes_isPrefix {records records' : List Bytes} (h : records <+: records') :
    logBytes records <+: logBytes records' := by
  obtain ⟨rest, rfl⟩ := h
  rw [logBytes_append]
  exact prefix_append _ _

/-- What a prefix of a batch leaves of `n` bytes is clear of headers when `n` bytes of the batch
are. -/
theorem clearOfHeader_of_isPrefix {whole records : List Bytes} {n : Nat} (h : whole <+: records)
    (hclear : clearOfHeader records n = true) :
    clearOfHeader whole ((logBytes whole).take n).length = true := by
  induction whole generalizing records n with
  | nil => rfl
  | cons record whole ih =>
    obtain ⟨rest, rfl⟩ := h
    rw [cons_append, clearOfHeader] at hclear
    rw [clearOfHeader, length_take, logBytes_cons, length_append]
    by_cases hn : (footprint record).length ≤ n
    · rw [if_pos hn] at hclear
      have := ih (prefix_append whole rest) hclear
      rw [length_take] at this
      rw [if_pos (by omega)]
      convert this using 2
      omega
    · rw [if_neg hn] at hclear
      rw [if_neg (by omega)]
      convert hclear using 3 <;> omega

section

variable (hok : ∀ record ∈ records, RecordOk record) (h : buf <+: logBytes records)

include hok h

/-- A prefix of a log consists of the whole records inside it and a torn part of the next, which the
scan takes for a torn tail unless it lies inside that record's first page. -/
theorem prefix_logBytes :
    ∃ torn reason, buf = logBytes (wholeIn records buf.length) ++ torn ∧
      (∀ offset, readOne offset torn = .ended reason) ∧
      reason.recoverable = clearOfHeader records buf.length := by
  induction records generalizing buf with
  | nil =>
    obtain rfl : buf = [] := prefix_nil.mp h
    exact ⟨[], .eof, rfl, fun _ => rfl, rfl⟩
  | cons record records ih =>
    have hrecord := hok record mem_cons_self
    obtain ⟨rest, rfl, hrest⟩ | ⟨htorn, hlt⟩ := prefix_logBytes_cons h
    · obtain ⟨torn, reason, hbuf, hend, hclear⟩ :=
        ih (fun r hr => hok r (mem_cons_of_mem _ hr)) hrest
      refine ⟨torn, reason, ?_, hend, ?_⟩
      · rw [length_append, wholeIn, if_pos le_self_add, add_tsub_cancel_left,
          logBytes_cons, append_assoc, ← hbuf]
      · rw [length_append, clearOfHeader, if_pos le_self_add, add_tsub_cancel_left, hclear]
    · obtain ⟨reason, hend, hrecover⟩ := readOne_torn hrecord htorn hlt
      have hshort : ¬ (footprint record).length ≤ buf.length := by omega
      refine ⟨buf, reason, ?_, hend, ?_⟩
      · rw [wholeIn, if_neg hshort]
        rfl
      · rw [clearOfHeader, if_neg hshort, Bool.eq_iff_iff, hrecover]
        simp

/-- The scan of a prefix of a log returns the records that lie wholly inside it. -/
theorem scan_prefix :
    ∃ result, scan buf = some result ∧ result.Returns (wholeIn records buf.length) := by
  obtain ⟨torn, reason, hbuf, hend, -⟩ := prefix_logBytes hok h
  have hwhole : ∀ record ∈ wholeIn records buf.length, RecordOk record := fun record hr =>
    hok record ((wholeIn_isPrefix _ _).subset hr)
  have hfuel : (logBytes (wholeIn records buf.length) ++ torn).length < buf.length + 1 := by
    rw [← hbuf]
    exact lt_add_one _
  obtain ⟨read, hscan, hlaid⟩ := scanFrom_logBytes hwhole hend hfuel 0
  rw [← hbuf] at hscan
  exact ⟨_, hscan, hlaid.messages_eq, hlaid.bytes_eq⟩

end

/-! ## What an append writes -/

theorem DecreeIndex.addMessage_dataLen {msgId decree paddedLen : Nat}
    (h : index.addMessage msgId decree paddedLen = .ok next) :
    next.dataLen = index.dataLen + paddedLen := by
  unfold addMessage at h
  split at h
  · split at h
    · cases h
      rfl
    · split at h
      · exact absurd h (by simp)
      · cases h
        rfl
  · cases h
    rfl

/-- The data length of the index that a scan rebuilds. -/
theorem ScanResult.index_dataLen {result : ScanResult} {index : DecreeIndex}
    (h : result.index = .ok index) :
    index.dataLen = (result.records.map fun record => record.info.paddedLen).sum := by
  -- generalise over the index that the fold starts from
  suffices hfold : ∀ (records : List Record) (start : DecreeIndex),
      records.foldlM (fun index record =>
        index.addMessage record.info.msgId record.info.decree record.info.paddedLen) start
        = .ok index →
      index.dataLen = start.dataLen + (records.map fun record => record.info.paddedLen).sum by
    simpa using hfold result.records {} h
  intro records
  induction records with
  | nil =>
    intro start h
    cases h
    rfl
  | cons record records ih =>
    intro start h
    rw [foldlM_cons] at h
    cases hadd : start.addMessage record.info.msgId record.info.decree record.info.paddedLen with
    | error e => exact absurd (hadd ▸ h) (by simp [bind, Except.bind])
    | ok next =>
      have := ih next (by simpa [hadd, bind, Except.bind] using h)
      rw [this, DecreeIndex.addMessage_dataLen hadd, map_cons, sum_cons, add_assoc]

theorem indexBatch_dataLen
    (h : indexBatch index shapes = .ok next) :
    next.dataLen = index.dataLen + (shapes.map RecordShape.paddedLen).sum := by
  induction shapes generalizing index with
  | nil =>
    cases h
    rfl
  | cons shape shapes ih =>
    unfold indexBatch at h
    split at h
    · exact absurd h (by simp)
    · next middle hadd =>
      rw [ih h, DecreeIndex.addMessage_dataLen hadd, map_cons, sum_cons, add_assoc]

theorem mapM_shapeOf
    (h : records.mapM shapeOf = .ok shapes) :
    Forall₂ (fun record shape => shapeOf record = .ok shape) records shapes := by
  induction records generalizing shapes with
  | nil =>
    cases h
    exact .nil
  | cons record records ih =>
    rw [mapM_cons] at h
    cases hshape : shapeOf record with
    | error e => exact absurd h (by simp [hshape, bind, Except.bind])
    | ok shape =>
      cases hrest : records.mapM shapeOf with
      | error e => exact absurd h (by simp [hshape, hrest, bind, Except.bind])
      | ok rest =>
        obtain rfl : shape :: rest = shapes := by
          simpa [hshape, hrest, bind, Except.bind, pure, Except.pure] using h
        exact .cons hshape (ih hrest)

/-- A validated batch: every record has the shape at its place. -/
theorem validateBatch_eq_ok (h : validateBatch index records = .ok (shapes, next)) :
    Forall₂ (fun record shape => shapeOf record = .ok shape) records shapes ∧
      next.dataLen = index.dataLen + (shapes.map RecordShape.paddedLen).sum := by
  unfold validateBatch at h
  cases hshapes : records.mapM shapeOf with
  | error e => exact absurd h (by simp [hshapes, bind, Except.bind])
  | ok shapes' =>
    cases hindex : indexBatch index shapes' with
    | error e => exact absurd h (by simp [hshapes, hindex, bind, Except.bind])
    | ok next' =>
      obtain ⟨rfl, rfl⟩ : shapes' = shapes ∧ next' = next := by
        simpa [hshapes, hindex, bind, Except.bind, pure, Except.pure] using h
      exact ⟨mapM_shapeOf hshapes, indexBatch_dataLen hindex⟩

theorem validateBatch_iff :
    validateBatch index records = .ok (shapes, next) ↔
      records.mapM shapeOf = .ok shapes ∧ indexBatch index shapes = .ok next := by
  rw [validateBatch]
  cases hshapes : records.mapM shapeOf with
  | error e => simp [bind, Except.bind]
  | ok shapes' =>
    cases hindex : indexBatch index shapes' with
    | error e =>
      simp only [bind, Except.bind, hindex, reduceCtorEq, false_iff, not_and]
      intro hs
      cases hs
      simp [hindex]
    | ok next' =>
      simp only [bind, Except.bind, hindex, pure, Except.pure, Except.ok.injEq, Prod.mk.injEq]
      constructor
      · rintro ⟨rfl, rfl⟩
        exact ⟨rfl, hindex⟩
      · rintro ⟨rfl, h⟩
        rw [hindex] at h
        exact ⟨rfl, Except.ok.inj h⟩

theorem indexBatch_append {index middle : DecreeIndex}
    (shapes' : List RecordShape) (h : indexBatch index shapes = .ok middle) :
    indexBatch index (shapes ++ shapes') = indexBatch middle shapes' := by
  induction shapes generalizing index with
  | nil =>
    cases h
    rfl
  | cons shape shapes ih =>
    rw [cons_append, indexBatch]
    rw [indexBatch] at h
    cases hadd : index.addMessage shape.msgId shape.decree shape.paddedLen with
    | error e => simp [hadd] at h
    | ok next =>
      simp only [hadd] at h ⊢
      exact ih h

/-- Validating a batch after another is validating both at once. -/
theorem validateBatch_append {index middle next : DecreeIndex} {records records' : List Bytes}
    {shapes shapes' : List RecordShape} (h : validateBatch index records = .ok (shapes, middle))
    (h' : validateBatch middle records' = .ok (shapes', next)) :
    validateBatch index (records ++ records') = .ok (shapes ++ shapes', next) := by
  rw [validateBatch_iff] at h h' ⊢
  constructor
  · rw [mapM_append, h.1, h'.1]
    rfl
  · rw [indexBatch_append shapes' h.2]
    exact h'.2

theorem indexBatch_left {shapes' : List RecordShape}
    (h : indexBatch index (shapes ++ shapes') = .ok next) :
    ∃ middle, indexBatch index shapes = .ok middle := by
  induction shapes generalizing index with
  | nil => exact ⟨index, rfl⟩
  | cons shape shapes ih =>
    rw [cons_append, indexBatch] at h
    rw [indexBatch]
    cases hadd : index.addMessage shape.msgId shape.decree shape.paddedLen with
    | error e => simp [hadd] at h
    | ok added =>
      simp only [hadd] at h ⊢
      exact ih h

/-- The first records of a batch that the writer indexes are a batch that it indexes. -/
theorem validateBatch_of_isPrefix {whole : List Bytes}
    (h : validateBatch index records = .ok (shapes, next)) (hwhole : whole <+: records) :
    ∃ shapes middle, validateBatch index whole = .ok (shapes, middle) := by
  obtain ⟨rest, rfl⟩ := hwhole
  rw [validateBatch_iff, mapM_append] at h
  obtain ⟨hshapes, hindex⟩ := h
  cases hfront : whole.mapM shapeOf with
  | error e => simp [hfront, bind, Except.bind] at hshapes
  | ok front =>
    cases hback : rest.mapM shapeOf with
    | error e => simp [hfront, hback, bind, Except.bind] at hshapes
    | ok back =>
      obtain rfl : front ++ back = shapes := by
        simpa [hfront, hback, bind, Except.bind, pure, Except.pure] using hshapes
      obtain ⟨middle, hmiddle⟩ := indexBatch_left hindex
      exact ⟨front, middle, validateBatch_iff.mpr ⟨hfront, hmiddle⟩⟩

/-- The step of `ScanResult::index`. -/
def addRecord (index : DecreeIndex) (record : Record) : Except IndexError DecreeIndex :=
  index.addMessage record.info.msgId record.info.decree record.info.paddedLen

/-- The scan of records rebuilds the index that the writer built for them. -/
theorem LaidOut.index_eq {offset : Nat} {read : List Record}
    (h : LaidOut offset read records)
    (hvalid : validateBatch index records = .ok (shapes, next)) :
    read.foldlM addRecord index = .ok next := by
  rw [validateBatch_iff] at hvalid
  obtain ⟨hshapes, hindex⟩ := hvalid
  induction h generalizing index shapes with
  | nil =>
    cases hshapes
    cases hindex
    rfl
  | @cons offset checksum message shape records messages hshape hpad hrest ih =>
    rw [mapM_cons, hshape] at hshapes
    cases htail : messages.mapM shapeOf with
    | error e => simp [htail, bind, Except.bind] at hshapes
    | ok shapes' =>
      obtain rfl : shape :: shapes' = shapes := by
        simpa [htail, bind, Except.bind, pure, Except.pure] using hshapes
      rw [indexBatch] at hindex
      rw [foldlM_cons]
      cases hadd : index.addMessage shape.msgId shape.decree shape.paddedLen with
      | error e => simp [hadd] at hindex
      | ok middle =>
        simp only [hadd] at hindex
        simp only [addRecord, hadd, bind, Except.bind]
        exact ih htail hindex

/-- `write_records` writes the log bytes of the first records of its batch, of all of them when it
returns. -/
theorem writeRecords_spec
    (h : Forall₂ (fun record shape => shapeOf record = .ok shape) records shapes) :
    ∃ whole, whole <+: records ∧ (writeRecords records shapes).1 = logBytes whole ∧
      (∀ record ∈ whole, (∃ shape, shapeOf record = .ok shape) ∧
        record.length ≤ roundUpToPage record.length) ∧
      ((writeRecords records shapes).2 = true → whole = records ∧
        (shapes.map RecordShape.paddedLen).sum = (logBytes records).length) := by
  induction h with
  | nil => exact ⟨[], prefix_refl _, rfl, by simp, fun _ => ⟨rfl, rfl⟩⟩
  | @cons record shape records shapes hshape _ ih =>
    obtain ⟨whole, hpre, hbytes, hfits, hreturns⟩ := ih
    obtain ⟨header, -, -, -, hpad⟩ := shapeOf_eq_ok hshape
    by_cases hpanic : shape.paddedLen < record.length
    · refine ⟨[], nil_prefix, ?_, by simp, fun h => ?_⟩
      · rw [writeRecords, if_pos hpanic]
        rfl
      · rw [writeRecords, if_pos hpanic] at h
        exact absurd h (by simp)
    · have hlen : (footprint record).length = shape.paddedLen := by
        rw [footprint, length_append, length_replicate]
        omega
      refine ⟨record :: whole, cons_prefix_cons.mpr ⟨rfl, hpre⟩, ?_, ?_, fun h => ?_⟩
      · rw [writeRecords, if_neg hpanic, logBytes_cons, footprint, ← hpad, ← hbytes]
      · exact forall_mem_cons.mpr ⟨⟨⟨shape, hshape⟩, by omega⟩, hfits⟩
      · rw [writeRecords, if_neg hpanic] at h
        obtain ⟨rfl, hsum⟩ := hreturns h
        refine ⟨rfl, ?_⟩
        rw [map_cons, sum_cons, hsum, logBytes_cons, length_append, hlen]

/-! ## Logs that recovery accepts -/

/-- The bytes of `records`, which the writer indexed as `index`, and behind them a part of one more
record at which the scan ends well. -/
structure Logged (records : List Bytes) (index : DecreeIndex) (bytes : Bytes) : Prop where
  ok : ∀ record ∈ records, RecordOk record
  valid : ∃ shapes, validateBatch {} records = .ok (shapes, index)
  torn : ∃ torn reason, bytes = logBytes records ++ torn ∧
    (∀ offset, readOne offset torn = .ended reason) ∧ reason.recoverable = true

namespace Logged

variable {bytes : Bytes}

theorem empty : Logged [] {} [] where
  ok := by simp
  valid := ⟨[], rfl⟩
  torn := ⟨[], .eof, rfl, fun _ => rfl, rfl⟩

theorem whole (h : Logged records index bytes) : Logged records index (logBytes records) where
  ok := h.ok
  valid := h.valid
  torn := ⟨[], .eof, (append_nil _).symm, fun _ => rfl, rfl⟩

theorem isPrefix (h : Logged records index bytes) : logBytes records <+: bytes := by
  obtain ⟨torn, -, rfl, -⟩ := h.torn
  exact prefix_append _ _

theorem dataLen (h : Logged records index bytes) : index.dataLen = (logBytes records).length := by
  obtain ⟨shapes, hvalid⟩ := h.valid
  obtain ⟨hshapes, hlen⟩ := validateBatch_eq_ok hvalid
  -- the padded lengths of the shapes are the lengths of the records on disk
  have hsum : ∀ {records : List Bytes} {shapes : List RecordShape},
      Forall₂ (fun record shape => shapeOf record = .ok shape) records shapes →
      (∀ record ∈ records, RecordOk record) →
      (shapes.map RecordShape.paddedLen).sum = (logBytes records).length := by
    intro records shapes hforall hok
    induction hforall with
    | nil => rfl
    | @cons record shape records shapes hshape _ ih =>
      have hrecord := hok record mem_cons_self
      obtain ⟨header, -, -, -, hpad⟩ := shapeOf_eq_ok hshape
      rw [map_cons, sum_cons, ih fun r hr => hok r (mem_cons_of_mem _ hr),
        logBytes_cons, length_append, hpad, hrecord.length_footprint]
  rw [hlen, hsum hshapes h.ok]
  exact zero_add _

/-- The scan returns the records and rebuilds the writer's index. -/
theorem scan (h : Logged records index bytes) :
    ∃ reason read, Storage.scan bytes = some ⟨reason, (logBytes records).length, read⟩ ∧
      reason.recoverable = true ∧ LaidOut 0 read records ∧
      read.foldlM addRecord {} = .ok index := by
  obtain ⟨torn, reason, hbytes, hend, hrec⟩ := h.torn
  obtain ⟨shapes, hvalid⟩ := h.valid
  have hfuel : (logBytes records ++ torn).length < bytes.length + 1 := by
    rw [← hbytes]
    exact lt_add_one _
  obtain ⟨read, hscan, hlaid⟩ := scanFrom_logBytes h.ok hend hfuel 0
  rw [← hbytes, zero_add] at hscan
  exact ⟨reason, read, hscan, hrec, hlaid, hlaid.index_eq hvalid⟩

/-- A batch written whole. -/
theorem append {batch : List Bytes} (h : Logged records index bytes)
    (hok : ∀ record ∈ batch, RecordOk record)
    (hvalid : validateBatch index batch = .ok (shapes, next)) :
    Logged (records ++ batch) next (logBytes records ++ logBytes batch) := by
  obtain ⟨before, hbefore⟩ := h.valid
  refine ⟨forall_mem_append.mpr ⟨h.ok, hok⟩, ⟨_, validateBatch_append hbefore hvalid⟩,
    ⟨[], .eof, ?_, fun _ => rfl, rfl⟩⟩
  rw [logBytes_append, append_nil]

/-- A batch written in part, where the part does not end inside the first page of a record. -/
theorem append_part {batch : List Bytes} (h : Logged records index bytes)
    (hok : ∀ record ∈ batch, RecordOk record)
    (hvalid : validateBatch index batch = .ok (shapes, next)) (hbuf : buf <+: logBytes batch)
    (hclear : clearOfHeader batch buf.length = true) :
    ∃ middle, Logged (records ++ wholeIn batch buf.length) middle (logBytes records ++ buf) := by
  obtain ⟨torn, reason, htorn, hend, hrec⟩ := prefix_logBytes hok hbuf
  have hwhole := wholeIn_isPrefix batch buf.length
  obtain ⟨_, middle, hmiddle⟩ := validateBatch_of_isPrefix hvalid hwhole
  have hfront := h.append (fun record hr => hok record (hwhole.subset hr)) hmiddle
  refine ⟨middle, hfront.ok, hfront.valid, ⟨torn, reason, ?_, hend, hrec.trans hclear⟩⟩
  rw [logBytes_append, append_assoc, ← htorn]

end Logged

/-! ## The index as a table -/

/-- The decree of a vote record. -/
def voteOf (record : Record) : Option Nat :=
  if record.info.msgId = msgVote then some record.info.decree else none

/-- The bytes of a record, as its metadata has them. -/
def recordSize (record : Record) : Nat := record.info.paddedLen

/-- An index as a table of the last votes of its decrees. -/
def tableOf (index : DecreeIndex) : Rsl.Lib.LastTable :=
  ⟨index.minDecree, index.offsets, index.dataLen⟩

/-- `add_message` adds to the table. -/
theorem adds_of_addMessage {record : Record} (hdecree : record.info.decree < u64Size)
    (h : index.addMessage record.info.msgId record.info.decree record.info.paddedLen = .ok next) :
    Rsl.Lib.LastTable.Adds voteOf recordSize u64Size (tableOf index) record (tableOf next) := by
  rw [DecreeIndex.addMessage] at h
  by_cases hvote : record.info.msgId = msgVote
  · rw [if_pos hvote] at h
    have hkey : voteOf record = some record.info.decree := if_pos hvote
    by_cases hempty : index.offsets.isEmpty = true
    · rw [if_pos hempty] at h
      cases h
      exact .start _ hkey hdecree (isEmpty_iff.mp hempty)
    · rw [if_neg hempty] at h
      have hne : index.offsets ≠ [] := fun hnil => hempty (isEmpty_iff.mpr hnil)
      have hpos := length_pos_iff.mpr hne
      have hmax : index.maxDecree = (index.minDecree + (index.offsets.length - 1)) % u64Size := by
        rw [DecreeIndex.maxDecree, if_neg hempty, Nat.add_sub_assoc hpos]
      split at h
      · cases h
      · next hnext =>
        cases h
        by_cases hsame : record.info.decree = index.maxDecree
        · rw [if_pos hsame]
          exact .again (hkey.trans (congrArg some (hsame.trans hmax))) hne
        · rw [if_neg hsame]
          have hsucc : record.info.decree = (index.maxDecree + 1) % u64Size := by tauto
          refine .next (hkey.trans (congrArg some ?_)) hne
          rw [hsucc, hmax, Nat.mod_add_mod]
          change _ = (index.minDecree + index.offsets.length) % u64Size
          congr 1
          omega
  · rw [if_neg hvote] at h
    cases h
    exact .other (if_neg hvote)

end Rsl.Storage
