import Rsl.LogFile

/-!
# Logs with a torn record at their end

A log of records that were written in full, followed by one record of which a crash left any of its
pages and zeros for the others. `recover_torn`: recovery fails, or it returns the records that were
written in full and, behind them, the last one exactly when its message reads back as it was
written. `not_recover_torn_persisted` is a record that reads back although one of its pages was
lost, because it held zeros.
-/

set_option autoImplicit false

namespace Rsl.LogFile

open Wire Lib List

/-! ## Written records -/

/-- The bytes of written records one after the other. -/
def writtenBytes (records : List WrittenRecord) : Bytes := records.flatMap WrittenRecord.bytes

/-- Recovery fails at one of the written records at the front, or it returns all of them and goes
on behind them. -/
theorem recoverFrom_written (records : List WrittenRecord) (tail : Bytes) {fuel : Nat}
    (hfuel : (writtenBytes records ++ tail).length < fuel) :
    recoverFrom fuel (writtenBytes records ++ tail) = none ∨
      ∃ fuel', tail.length < fuel' ∧ recoverFrom fuel (writtenBytes records ++ tail) =
        (recoverFrom fuel' tail).map (records.map WrittenRecord.message ++ ·) := by
  induction records generalizing fuel with
  | nil =>
    right
    refine ⟨fuel, hfuel, ?_⟩
    simp only [writtenBytes, flatMap_nil, nil_append, map_nil]
    exact Option.map_id'.symm
  | cons record records ih =>
    obtain _ | fuel := fuel
    · cases hfuel
    have hpage := record.pageSize_le
    have hpos := pageSize_pos
    rw [show writtenBytes (record :: records) = record.bytes ++ writtenBytes records from
      flatMap_cons, append_assoc] at hfuel ⊢
    have hrest : (writtenBytes records ++ tail).length < fuel := by
      rw [length_append] at hfuel
      omega
    rw [recoverFrom, record.readNextMessage_whole]
    by_cases hparse : (unMarshalMessage record.message).isNone = true
    · left
      rw [if_pos hparse]
    · simp only [if_neg hparse]
      rcases ih hrest with hfail | ⟨fuel', hfuel', hgo⟩
      · left
        rw [hfail, Option.map_none]
      · right
        refine ⟨fuel', hfuel', ?_⟩
        rw [hgo, Option.map_map]
        rfl

/-! ## The torn record -/

namespace WrittenRecord

/-- What a crash leaves of a record: the pages that reached the disk, and zeros for the others. -/
def torn (record : WrittenRecord) (kept : Nat → Bool) : Bytes := tear pageSize kept record.bytes

/-- What is read at the place of the message of a torn record. -/
def tornMessage (record : WrittenRecord) (kept : Nat → Bool) : Bytes :=
  (record.torn kept).take record.message.length

/-- Did all pages of the record reach the disk? -/
def persisted (record : WrittenRecord) (kept : Nat → Bool) : Bool :=
  (range (record.bytes.length / pageSize)).all kept

variable (record : WrittenRecord) (kept : Nat → Bool)

theorem length_torn : (record.torn kept).length = record.bytes.length := length_tear _ _ _

theorem length_message_le_bytes : record.message.length ≤ record.bytes.length := by
  rw [WrittenRecord.bytes, length_append]
  omega

/-- A record all pages of which reached the disk reads back. -/
theorem tornMessage_of_persisted (h : record.persisted kept = true) :
    record.tornMessage kept = record.message := by
  have hdvd : pageSize ∣ record.bytes.length := by
    rw [record.length_bytes]
    exact roundUpToPage_dvd _
  have hkept : ∀ i < record.bytes.length, kept (i / pageSize) = true := by
    intro i hi
    apply all_eq_true.mp h
    exact mem_range.mpr (Nat.div_lt_div_of_lt_of_dvd hdvd hi)
  rw [tornMessage, torn, tear_of_kept hkept, WrittenRecord.bytes]
  exact take_left' rfl

/-- With its first page on disk, a torn record still starts with its header. -/
theorem header_torn (h : kept 0 = true) : record.message.take 172 <+: record.torn kept := by
  have hle := record.pageSize_le
  have hfirst : (record.torn kept).take pageSize = record.bytes.take pageSize := by
    rw [torn, take_tear]
    apply tear_of_kept
    intro i hi
    rw [length_take, min_eq_left hle] at hi
    rwa [Nat.div_eq_of_lt hi]
  have hmessage : record.message.take 172 <+: record.bytes.take pageSize := by
    rw [prefix_take_iff, length_take]
    constructor
    · refine IsPrefix.trans ?_ (prefix_append _ _)
      exact take_prefix _ _
    · exact (min_le_left _ _).trans (by decide)
  refine IsPrefix.trans (hfirst ▸ hmessage) ?_
  exact take_prefix _ _

/-- Without its first page, a torn record starts with a page of zeros. -/
theorem take_torn_of_lost (h : kept 0 = false) :
    (record.torn kept).take pageSize = replicate pageSize 0 := by
  have hle := record.pageSize_le
  have hlength : (record.bytes.take pageSize).length = pageSize := by
    rw [length_take, min_eq_left hle]
  rw [torn, take_tear, tear_of_lost, hlength]
  intro i hi
  rw [hlength] at hi
  rwa [Nat.div_eq_of_lt hi]

end WrittenRecord

/-- Zeros are the end of a log, or they end inside a page. -/
theorem readNextMessage_of_zero {zeros : Bytes} (hzero : verifyZeroStream zeros = true) :
    readNextMessage zeros = .finished ∨ readNextMessage zeros = .failed := by
  by_cases hempty : zeros.length = 0
  · left
    rw [readNextMessage, if_pos hempty]
  by_cases hshort : zeros.length < pageSize
  · right
    rw [readNextMessage, if_neg hempty, if_pos hshort]
  · left
    exact readNextMessage_page hzero (not_lt.mp hshort)

/-- The log of a crash: what was written in full, the torn record, and the zeros behind it. -/
def tornLog (completed : List WrittenRecord) (inFlight : WrittenRecord) (kept : Nat → Bool)
    (zeros : Bytes) : Bytes :=
  writtenBytes completed ++ (inFlight.torn kept ++ zeros)

section TornRecord

variable (inFlight : WrittenRecord) (kept : Nat → Bool) {zeros : Bytes}

/-- What is read at a torn record that does not read back. -/
theorem readNextMessage_lost (hzero : verifyZeroStream zeros = true)
    (hdetect : verifyChecksum (inFlight.tornMessage kept) = false) :
    readNextMessage (inFlight.torn kept ++ zeros) = .finished ∨
      readNextMessage (inFlight.torn kept ++ zeros) = .failed := by
  have hlength := inFlight.length_torn kept
  have hle := inFlight.pageSize_le
  have hpage : pageSize ≤ (inFlight.torn kept ++ zeros).length := by
    rw [length_append]
    omega
  have hpos := pageSize_pos
  cases hfirst : kept 0 with
  | true =>
    -- the header is there: the checksum tells, and only zeros follow the record
    left
    have hmessage : (inFlight.torn kept ++ zeros).take inFlight.message.length =
        inFlight.tornMessage kept := by
      apply take_append_of_le_length
      rw [hlength]
      exact inFlight.length_message_le_bytes
    have hrest : (inFlight.torn kept ++ zeros).drop inFlight.bytes.length = zeros :=
      drop_left' hlength
    rw [inFlight.readNextMessage_eq
        ((inFlight.header_torn kept hfirst).trans (prefix_append _ _)) hpage,
      if_neg (by rw [length_append]; omega), hmessage, hdetect, hrest]
    simp only [Bool.not_false, if_true, hzero]
  | false =>
    -- a page of zeros is no header
    have hnone : unmarshalBase ((inFlight.torn kept ++ zeros).take pageSize) = none := by
      rw [take_append_of_le_length (by omega), inFlight.take_torn_of_lost kept hfirst]
      decide +kernel
    rw [readNextMessage, if_neg (by omega), if_neg (by omega), hnone]
    cases hall : verifyZeroStream (inFlight.torn kept ++ zeros) with
    | true => exact .inl (if_pos rfl)
    | false => exact .inr (if_neg (by simp))

/-- A torn record that reads back is returned, unless the reader refuses its message. -/
theorem readNextMessage_intact (h : inFlight.tornMessage kept = inFlight.message) :
    readNextMessage (inFlight.torn kept ++ zeros) =
      if (unMarshalMessage inFlight.message).isNone then .failed
      else .message inFlight.message zeros := by
  -- its message is what a record with the same message and the bytes read behind it holds
  have hlength := inFlight.length_torn kept
  have hle := inFlight.length_message_le_bytes
  let reread : WrittenRecord :=
    { inFlight with
      pad := (inFlight.torn kept).drop inFlight.message.length
      padded := by
        rw [length_drop, hlength, Nat.add_sub_cancel' hle, inFlight.length_bytes] }
  have hbytes : inFlight.torn kept = reread.bytes := by
    change _ = inFlight.message ++ (inFlight.torn kept).drop inFlight.message.length
    nth_rewrite 1 [← h]
    exact (take_append_drop _ _).symm
  rw [hbytes]
  exact reread.readNextMessage_whole zeros

/-- Recovery from a torn record on. -/
theorem recoverFrom_torn (hzero : verifyZeroStream zeros = true)
    (hdetect : inFlight.tornMessage kept ≠ inFlight.message →
      verifyChecksum (inFlight.tornMessage kept) = false)
    {fuel : Nat} (hfuel : (inFlight.torn kept ++ zeros).length < fuel) :
    recoverFrom fuel (inFlight.torn kept ++ zeros) = none ∨
      recoverFrom fuel (inFlight.torn kept ++ zeros) =
        some (if inFlight.tornMessage kept = inFlight.message then [inFlight.message] else []) := by
  obtain _ | fuel := fuel
  · cases hfuel
  by_cases h : inFlight.tornMessage kept = inFlight.message
  · have hpage := inFlight.pageSize_le
    have hpos := pageSize_pos
    obtain ⟨fuel, rfl⟩ : ∃ fuel', fuel = fuel' + 1 := by
      apply Nat.exists_eq_add_one_of_ne_zero
      rw [length_append, inFlight.length_torn] at hfuel
      omega
    rw [recoverFrom, readNextMessage_intact inFlight kept h, if_pos h]
    by_cases hparse : (unMarshalMessage inFlight.message).isNone = true
    · left
      rw [if_pos hparse]
    · simp only [if_neg hparse]
      -- behind the record there are only zeros
      rcases readNextMessage_of_zero hzero with hend | hend
      · right
        simp only [recoverFrom, hend, Option.map_some]
      · left
        simp only [recoverFrom, hend, Option.map_none]
  · rw [recoverFrom, if_neg h]
    rcases readNextMessage_lost inFlight kept hzero (hdetect h) with hend | hend
    · right
      rw [hend]
    · left
      rw [hend]

end TornRecord

/-- Recovery of a log with a torn record at its end fails, or it returns what was written in full
and behind it the torn record exactly when that reads back, as it does when all its pages are on
disk. The hypothesis is that the checksum detects a record that does not read back. -/
theorem recover_torn (completed : List WrittenRecord) (inFlight : WrittenRecord)
    (kept : Nat → Bool) (zeros : Bytes) (hzero : verifyZeroStream zeros = true)
    (hdetect : inFlight.tornMessage kept ≠ inFlight.message →
      verifyChecksum (inFlight.tornMessage kept) = false) :
    (inFlight.persisted kept = true → inFlight.tornMessage kept = inFlight.message) ∧
      (recover (tornLog completed inFlight kept zeros) = none ∨
        recover (tornLog completed inFlight kept zeros) =
          some (completed.map WrittenRecord.message ++
            if inFlight.tornMessage kept = inFlight.message then [inFlight.message] else [])) := by
  constructor
  · exact inFlight.tornMessage_of_persisted kept
  · rcases recoverFrom_written completed (inFlight.torn kept ++ zeros) (lt_add_one _) with
      hfail | ⟨fuel, hfuel, hgo⟩
    · exact .inl hfail
    · rcases recoverFrom_torn inFlight kept hzero hdetect hfuel with hfail | hread
      · left
        exact hgo.trans (by rw [hfail, Option.map_none])
      · right
        exact hgo.trans (by rw [hread, Option.map_some])

namespace Example

/-- A version 1 vote for decree 1 with one request of 500 zeros: its second page holds zeros. -/
def zeroMessage : Bytes :=
  [1, 0, 40, 2, 0, 0, 228, 95, 251, 54, 115, 209, 192, 198, 206, 250, 13, 240, 1, 0, 1, 0, 0, 0, 0,
    0, 0, 0, 1, 0, 0, 0, 0, 0, 0, 0, 1, 0, 0, 0, 1, 0, 0, 0, 0, 0, 0, 0, 244, 1, 0, 0] ++
    replicate 500 0

def zeroVote : WrittenRecord :=
  ⟨zeroMessage, replicate 472 0, by decide +kernel, by decide +kernel⟩

/-- Only the first page reached the disk. -/
def firstPage (page : Nat) : Bool := page == 0

/-- Only the second page reached the disk. -/
def secondPage (page : Nat) : Bool := page == 1

end Example

open LogFile.Example

theorem recover_torn_secondPage :
    verifyChecksum (zeroVote.tornMessage secondPage) = false ∧
      (recover (tornLog [smallVote.toWritten] zeroVote secondPage []) = none ∨
        recover (tornLog [smallVote.toWritten] zeroVote secondPage []) =
          some ([smallVote.toWritten].map WrittenRecord.message ++
            if zeroVote.tornMessage secondPage = zeroVote.message
            then [zeroVote.message] else [])) :=
  have hdetect : verifyChecksum (zeroVote.tornMessage secondPage) = false := by decide +kernel
  ⟨hdetect, (recover_torn [smallVote.toWritten] zeroVote secondPage [] rfl fun _ => hdetect).2⟩

/-- A record of which only the first page reached the disk and that recovery returns: the lost
page held zeros. -/
theorem not_recover_torn_persisted :
    zeroVote.persisted firstPage = false ∧ zeroVote.tornMessage firstPage = zeroVote.message ∧
      recover (tornLog [] zeroVote firstPage []) = some [zeroVote.message] :=
  ⟨by decide +kernel, by decide +kernel, by decide +kernel⟩

end Rsl.LogFile
