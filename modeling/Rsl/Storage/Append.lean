import Rsl.Storage.Durability

/-!
# Appending to one open log

Calls of `append_unsynced` and `append_batch` on a log that was created and stays open, where a
write may fail with an I/O error after any number of its bytes and a flush may fail. A failed write
moves the position of the file handle and nothing else: the length and the index of the writer stay,
and the next append goes on at the moved position.

`OpenLog.run_intact` says when that does no harm, and `OpenLog.scan_iff` is the round trip of
batches that `append_batch` accepted: the scan returns them exactly when they are records that the
scan accepts.
-/

set_option autoImplicit false

namespace Rsl.Storage

open Wire Lib List

/-- A log open for append, with the records of the calls that returned `Ok`. -/
structure OpenLog where
  content : Bytes := []
  writer : LogWriter := ⟨{}, 0, 0⟩
  appended : List Bytes := []
  deriving DecidableEq, Repr

/-- A call. `failAfter` is the number of bytes after which a write fails, when it does;
`syncFails` says whether a flush, if there is one, fails. -/
inductive Call where
  | appendUnsynced (records : List Bytes) (failAfter : Option Nat)
  | appendBatch (records : List Bytes) (failAfter : Option Nat) (syncFails : Bool)
  deriving DecidableEq, Repr

namespace OpenLog

/-- `append_unsynced`: the log after it and whether it returned `Ok`; `none` is a panic. -/
def write (s : OpenLog) (records : List Bytes) (failAfter : Option Nat) :
    Option (OpenLog × Bool) :=
  if records.isEmpty then some (s, true)
  else match validateBatch s.writer.index records with
    | .error _ => some (s, false)
    | .ok (shapes, next) =>
      let (bytes, returns) := writeRecords records shapes
      match failAfter.filter (· < bytes.length) with
      | some k =>
        -- the handle has moved, the length and the index have not
        some ({ s with
          content := writeAt s.content s.writer.position (bytes.take k)
          writer := { s.writer with position := s.writer.position + k } }, false)
      | none =>
        if returns then
          some ({ s with
            content := writeAt s.content s.writer.position bytes
            writer := { s.writer with
              index := next
              position := s.writer.position + bytes.length } }, true)
        else none

/-- Note the records of a call that returned `Ok`. -/
def acknowledge (s : OpenLog) (records : List Bytes) : OpenLog :=
  { s with appended := s.appended ++ records }

/-- One call. -/
def step (s : OpenLog) : Call → Option OpenLog
  | .appendUnsynced records failAfter =>
    (s.write records failAfter).map fun (s', ok) => if ok then s'.acknowledge records else s'
  | .appendBatch records failAfter syncFails =>
    (s.write records failAfter).map fun (s', ok) =>
      if !ok then s'
      else
        let (flush, synced) := syncWriter s'.writer
        -- a failed flush leaves the index with the records of the call
        if !flush.isEmpty && syncFails then s'
        else { s' with writer := synced }.acknowledge records

/-- A sequence of calls. -/
def run (s : OpenLog) (calls : List Call) : Option OpenLog := calls.foldlM step s

/-- What the log should be: its first bytes are those of the appended records, a scan recovers
exactly these and rebuilds the index, and every offset of the index is that of a vote record of its
decree. -/
structure Intact (s : OpenLog) : Prop where
  data : s.content.take s.writer.index.dataLen = logBytes s.appended
  scanned : ∃ result, scan s.content = some result ∧ result.ending.recoverable = true ∧
    result.records.map Record.messageBytes = s.appended ∧
    result.index = .ok s.writer.index ∧
    ∀ n offset, s.writer.index.offsets[n]? = some offset →
      ∃ record ∈ result.records, record.info.offset = offset ∧ record.info.msgId = msgVote ∧
        record.info.decree = (s.writer.index.minDecree + n) % u64Size

/-! ## Conditions on a call -/

/-- A write that fails, fails before its first byte, or inside its first record and not before the
end of that record's first page. -/
def failsCleanly (records : List Bytes) : Option Nat → Bool
  | none => true
  | some k =>
    decide (k = 0) || decide ((logBytes records).length ≤ k) ||
      match records with
      | [] => true
      | record :: _ => decide (pageSize ≤ k) && decide (k < (footprint record).length)

/-- The condition on a call: the handle stands at the end of the data, the scan accepts the records,
a write that fails does so cleanly, and the flush does not fail. -/
def guarded (s : OpenLog) : Call → Bool
  | .appendUnsynced records failAfter =>
    decide (s.writer.position = s.writer.index.dataLen) && records.all scanAccepts &&
      failsCleanly records failAfter
  | .appendBatch records failAfter syncFails =>
    decide (s.writer.position = s.writer.index.dataLen) && records.all scanAccepts &&
      failsCleanly records failAfter && !syncFails

/-- Every call of a sequence meets the condition. -/
def allGuarded (s : OpenLog) : List Call → Bool
  | [] => true
  | call :: calls => s.guarded call &&
    match s.step call with
    | none => true
    | some s' => s'.allGuarded calls

end OpenLog

/-! ## The index of the records that a scan returns -/

variable {index next : DecreeIndex} {shapes : List RecordShape} {records : List Record}

/-- Every offset of an index is that of a vote record of its decree. -/
def Points (index : DecreeIndex) (records : List Record) : Prop :=
  ∀ n offset, index.offsets[n]? = some offset →
    ∃ record ∈ records, record.info.offset = offset ∧ record.info.msgId = msgVote ∧
      record.info.decree = (index.minDecree + n) % u64Size

/-- Indexing the record at the end of the data keeps the index pointing at its records. -/
theorem Points.addRecord {record : Record}
    (h : Points index records) (hoffset : record.info.offset = index.dataLen)
    (hdecree : record.info.decree < u64Size) (hadd : addRecord index record = .ok next) :
    Points next (records ++ [record]) := by
  intro n offset hn
  rcases (adds_of_addMessage hdecree hadd).entry hn with ⟨hold, hfirst, -⟩ | ⟨rfl, hkey⟩
  · obtain ⟨old, hmem, hentry⟩ := h n offset hold
    have hfirst : next.minDecree = index.minDecree := hfirst
    exact ⟨old, mem_append_left _ hmem, hfirst ▸ hentry⟩
  · obtain ⟨hvote, hdecree⟩ := Option.ite_none_right_eq_some.mp hkey
    exact ⟨record, by simp, hoffset, hvote, Option.some.inj hdecree⟩

theorem shapeOf_decree_lt {message : Bytes} {shape : RecordShape}
    (h : shapeOf message = .ok shape) : shape.decree < u64Size := by
  rw [shapeOf] at h
  cases hheader : unmarshalBase message with
  | none => simp [hheader] at h
  | some header =>
    simp only [hheader] at h
    split at h
    · cases h
    · split at h
      · cases h
      · cases h
        exact decree_lt hheader

/-- The index rebuilt from consecutive records points at them. -/
theorem LaidOut.points {offset : Nat} {messages : List Bytes}
    (h : LaidOut offset records messages) {before : List Record}
    (hoffset : index.dataLen = offset) (hpoints : Points index before)
    (hindex : records.foldlM addRecord index = .ok next) : Points next (before ++ records) := by
  induction h generalizing index before with
  | nil =>
    cases hindex
    rwa [append_nil]
  | @cons offset checksum message shape records messages hshape hpad hrest ih =>
    rw [foldlM_cons] at hindex
    cases hadd : addRecord index
        ⟨⟨offset, shape.msgId, shape.decree, message.length, shape.paddedLen, checksum⟩,
          footprint message⟩ with
    | error e => simp [hadd, bind, Except.bind] at hindex
    | ok middle =>
      simp only [hadd, bind, Except.bind] at hindex
      have hmiddle := hpoints.addRecord hoffset.symm (shapeOf_decree_lt hshape) hadd
      have hlen : middle.dataLen = offset + shape.paddedLen := by
        rw [DecreeIndex.addMessage_dataLen hadd, hoffset]
      have := ih hlen hmiddle hindex
      rwa [append_assoc, singleton_append] at this

/-! ## The invariant of an open log -/

namespace OpenLog

/-- The log holds the appended records, and the handle stands at the end of the file. -/
structure Inv (s : OpenLog) : Prop extends Logged s.appended s.writer.index s.content where
  position : s.writer.position = s.content.length

theorem inv_init : Inv {} := ⟨.empty, rfl⟩

theorem Inv.intact {s : OpenLog} (h : s.Inv) : s.Intact := by
  obtain ⟨torn, reason, hcontent, -⟩ := h.torn
  obtain ⟨reason, read, hscan, hrec, hlaid, hindex⟩ := h.scan
  constructor
  · rw [h.dataLen, hcontent]
    exact take_left' rfl
  · refine ⟨_, hscan, hrec, hlaid.messages_eq, hindex, ?_⟩
    have hnone : Points {} [] := by
      intro n offset hn
      simp at hn
    exact hlaid.points rfl hnone hindex

/-- A handle at the end of the data means that nothing is torn. -/
theorem Inv.content_eq {s : OpenLog} (h : s.Inv)
    (hpos : s.writer.position = s.writer.index.dataLen) : s.content = logBytes s.appended := by
  obtain ⟨torn, reason, hcontent, -⟩ := h.torn
  have hlen : s.content.length = (logBytes s.appended).length := by
    rw [← h.position, hpos, h.dataLen]
  rw [hcontent, length_append] at hlen
  rw [hcontent, length_eq_zero_iff.mp (by omega : torn.length = 0), append_nil]

variable {s s' : OpenLog}

/-- A clean failure after `k` bytes leaves a torn record that the scan cuts off. -/
theorem Inv.torn_write (h : s.Inv) {records whole : List Bytes} {k : Nat}
    (hpos : s.writer.position = s.writer.index.dataLen)
    (hok : ∀ record ∈ whole, RecordOk record) (hwhole : whole <+: records)
    (hk : k < (logBytes whole).length) (hclean : failsCleanly records (some k) = true) :
    Inv { s with
      content := s.content ++ (logBytes whole).take k
      writer := { s.writer with position := s.content.length + k } } := by
  cases whole with
  | nil => exact absurd hk (Nat.not_lt_zero k)
  | cons record rest =>
    obtain ⟨others, rfl⟩ : ∃ others, records = record :: others := by
      obtain ⟨t, rfl⟩ := hwhole
      exact ⟨rest ++ t, rfl⟩
    have hrecord := hok record mem_cons_self
    have hlarge : ¬ (logBytes (record :: others)).length ≤ k := by
      have := (logBytes_isPrefix hwhole).length_le
      omega
    have hinside : k = 0 ∨ pageSize ≤ k ∧ k < (footprint record).length := by
      simpa [failsCleanly, hlarge] using hclean
    have hpage := hrecord.pageSize_le
    have hposPage := pageSize_pos
    have htake : (logBytes (record :: rest)).take k = (footprint record).take k := by
      rw [logBytes_cons, take_append_of_le_length (by omega)]
    have hlen : ((footprint record).take k).length = k := by
      rw [length_take]
      omega
    have hfront := List.take_prefix k (footprint record)
    obtain ⟨reason, hreason, hrec⟩ := readOne_torn hrecord hfront (by rw [hlen]; omega)
    refine ⟨⟨h.ok, h.valid, (footprint record).take k, reason, ?_, hreason, ?_⟩, ?_⟩
    · show s.content ++ (logBytes (record :: rest)).take k = _
      rw [htake, h.content_eq hpos]
    · rw [hrec, hlen]
      rcases hinside with rfl | ⟨hle, -⟩
      · exact .inl take_zero
      · exact .inr hle
    · show s.content.length + k = (s.content ++ (logBytes (record :: rest)).take k).length
      rw [htake, length_append, hlen]

/-- A write that returns keeps the invariant with its records appended, and a write that fails
cleanly keeps it as it is. -/
theorem Inv.write {ok : Bool} (h : s.Inv) {records : List Bytes}
    {failAfter : Option Nat} (hpos : s.writer.position = s.writer.index.dataLen)
    (haccepts : ∀ record ∈ records, scanAccepts record = true)
    (hclean : failsCleanly records failAfter = true)
    (hwrite : s.write records failAfter = some (s', ok)) :
    if ok then (s'.acknowledge records).Inv else s'.Inv := by
  have hcontent := h.content_eq hpos
  have hend : s.writer.position = s.content.length := h.position
  rw [OpenLog.write] at hwrite
  split at hwrite
  · -- an empty batch
    next hempty =>
    obtain rfl : records = [] := isEmpty_iff.mp hempty
    cases hwrite
    simpa [acknowledge] using h
  · cases hvalid : validateBatch s.writer.index records with
    | error e =>
      simp only [hvalid] at hwrite
      cases hwrite
      simpa using h
    | ok validated =>
      obtain ⟨shapes, next⟩ := validated
      simp only [hvalid] at hwrite
      obtain ⟨hshapes, -⟩ := validateBatch_eq_ok hvalid
      obtain ⟨whole, hwhole, hbytes, hfits, hreturns⟩ := writeRecords_spec hshapes
      have hok : ∀ record ∈ whole, RecordOk record := fun record hr =>
        ⟨(hfits record hr).1, (hfits record hr).2, haccepts record (hwhole.subset hr)⟩
      rw [hbytes, hend] at hwrite
      cases hfail : failAfter.filter (· < (logBytes whole).length) with
      | some k =>
        -- the write fails after `k` bytes
        simp only [hfail] at hwrite
        cases hwrite
        obtain ⟨rfl, hk⟩ : failAfter = some k ∧ k < (logBytes whole).length := by
          simpa [Option.filter_eq_some_iff] using hfail
        rw [writeAt_length]
        exact h.torn_write hpos hok hwhole hk hclean
      | none =>
        simp only [hfail] at hwrite
        split at hwrite
        · next hret =>
          cases hwrite
          obtain ⟨rfl, -⟩ := hreturns hret
          rw [writeAt_length]
          refine ⟨?_, ?_⟩
          · rw [hcontent]
            exact h.append hok hvalid
          · show s.content.length + (logBytes whole).length = (s.content ++ logBytes whole).length
            rw [length_append]
        · cases hwrite

/-- The durable length plays no part in the invariant. -/
theorem Inv.sync {s : OpenLog} (h : s.Inv) :
    ({ s with writer := (syncWriter s.writer).2 }).Inv := by
  rw [syncWriter]
  split
  · exact h
  · exact ⟨h.toLogged, h.position⟩

/-- One call keeps the invariant. -/
theorem Inv.step (h : s.Inv) {call : Call} (hguard : s.guarded call = true)
    (hstep : s.step call = some s') : s'.Inv := by
  cases call with
  | appendUnsynced records failAfter =>
    obtain ⟨⟨hpos, haccepts⟩, hclean⟩ : (s.writer.position = s.writer.index.dataLen ∧
        ∀ record ∈ records, scanAccepts record = true) ∧ failsCleanly records failAfter = true := by
      simpa [guarded] using hguard
    obtain ⟨⟨t, ok⟩, hwrite, rfl⟩ := Option.map_eq_some_iff.mp hstep
    have hinv := h.write hpos haccepts hclean hwrite
    cases ok with
    | false => exact hinv
    | true => exact hinv
  | appendBatch records failAfter syncFails =>
    obtain ⟨⟨⟨hpos, haccepts⟩, hclean⟩, rfl⟩ : ((s.writer.position = s.writer.index.dataLen ∧
        ∀ record ∈ records, scanAccepts record = true) ∧
        failsCleanly records failAfter = true) ∧ syncFails = false := by
      simpa [guarded] using hguard
    obtain ⟨⟨t, ok⟩, hwrite, rfl⟩ := Option.map_eq_some_iff.mp hstep
    have hinv := h.write hpos haccepts hclean hwrite
    cases ok with
    | false => exact hinv
    | true =>
      simp only [Bool.not_true, Bool.and_false, Bool.false_eq_true, if_false]
      exact Inv.sync hinv

/-- A sequence of calls keeps the invariant. -/
theorem Inv.run (h : s.Inv) {calls : List Call}
    (hguard : s.allGuarded calls = true) (hrun : s.run calls = some s') : s'.Inv := by
  induction calls generalizing s with
  | nil =>
    cases hrun
    exact h
  | cons call calls ih =>
    rw [OpenLog.run, foldlM_cons] at hrun
    obtain ⟨t, hstep, hrest⟩ := Option.bind_eq_some_iff.mp hrun
    rw [allGuarded, hstep, Bool.and_eq_true] at hguard
    exact ih (h.step hguard.1 hstep) hguard.2 hrest

/-- After any calls that all meet the condition, whether they succeed or fail, the file holds the
records of the successful ones, a scan recovers exactly these, and the index points at them. -/
theorem run_intact (calls : List Call) (hguard : allGuarded {} calls = true) {s : OpenLog}
    (hrun : run {} calls = some s) : s.Intact :=
  (inv_init.run hguard hrun).intact

/-! ## Batches that `append_batch` accepts -/

/-- The log after `append_batch` of a batch, when it returns `Ok`. -/
def acceptBatch (s : OpenLog) (batch : List Bytes) : Option OpenLog :=
  match s.write batch none with
  | some (_, true) => s.step (.appendBatch batch none false)
  | _ => none

/-- The log after batches that were all accepted. -/
def acceptAll (s : OpenLog) (batches : List (List Bytes)) : Option OpenLog :=
  batches.foldlM acceptBatch s

theorem acceptBatch_eq_some {batch : List Bytes} (h : s.acceptBatch batch = some s') :
    ∃ written, s.write batch none = some (written, true) ∧
      s' = { written with writer := (syncWriter written.writer).2 }.acknowledge batch := by
  rw [acceptBatch] at h
  split at h
  · next written hwrite =>
    refine ⟨written, hwrite, ?_⟩
    simpa [OpenLog.step, hwrite] using h.symm
  · cases h

/-- What an accepted batch does to the log. -/
theorem write_eq_ok {s written : OpenLog} {batch : List Bytes}
    (h : s.write batch none = some (written, true)) :
    written.appended = s.appended ∧
      (∀ record ∈ batch, ∃ shape, shapeOf record = .ok shape) ∧
      (s.writer.position = s.writer.index.dataLen →
        written.writer.position = written.writer.index.dataLen) := by
  rw [OpenLog.write] at h
  split at h
  · next hempty =>
    obtain rfl : batch = [] := isEmpty_iff.mp hempty
    cases h
    exact ⟨rfl, by simp, id⟩
  · cases hvalid : validateBatch s.writer.index batch with
    | error e => simp [hvalid] at h
    | ok validated =>
      obtain ⟨shapes, next⟩ := validated
      obtain ⟨hshapes, hnext⟩ := validateBatch_eq_ok hvalid
      obtain ⟨whole, -, hbytes, hfits, hreturns⟩ := writeRecords_spec hshapes
      simp only [hvalid, Option.filter_none, hbytes] at h
      split at h
      · next hret =>
        cases h
        obtain ⟨rfl, hsum⟩ := hreturns hret
        refine ⟨rfl, fun record hr => (hfits record hr).1, fun hpos => ?_⟩
        show s.writer.position + (logBytes whole).length = next.dataLen
        rw [hpos, hnext, hsum]
      · cases h

theorem syncWriter_fst {writer : LogWriter} :
    (syncWriter writer).2.index = writer.index ∧
      (syncWriter writer).2.position = writer.position := by
  rw [syncWriter]
  split
  · exact ⟨rfl, rfl⟩
  · exact ⟨rfl, rfl⟩

/-- Accepted batches stand in the log in order, and each of their records passed the checks of the
writer. -/
theorem acceptAll_appended {batches : List (List Bytes)} (h : s.acceptAll batches = some s') :
    s'.appended = s.appended ++ batches.flatten ∧
      ∀ record ∈ batches.flatten, ∃ shape, shapeOf record = .ok shape := by
  induction batches generalizing s with
  | nil =>
    cases h
    simp
  | cons batch batches ih =>
    rw [acceptAll, foldlM_cons] at h
    obtain ⟨t, hbatch, hrest⟩ := Option.bind_eq_some_iff.mp h
    obtain ⟨written, hwrite, rfl⟩ := acceptBatch_eq_some hbatch
    obtain ⟨happended, hshapes, -⟩ := write_eq_ok hwrite
    obtain ⟨hrestAppended, hrestShapes⟩ := ih hrest
    constructor
    · rw [hrestAppended, flatten_cons, ← append_assoc]
      show written.appended ++ batch ++ batches.flatten = _
      rw [happended]
    · intro record hr
      rcases mem_append.mp (flatten_cons ▸ hr) with hr | hr
      · exact hshapes record hr
      · exact hrestShapes record hr

/-- Accepted batches of records that the scan accepts keep the invariant, with nothing torn. -/
theorem Inv.acceptAll (hinv : s.Inv)
    (hpos : s.writer.position = s.writer.index.dataLen) {batches : List (List Bytes)}
    (haccepts : ∀ record ∈ batches.flatten, scanAccepts record = true)
    (h : s.acceptAll batches = some s') :
    s'.Inv ∧ s'.writer.position = s'.writer.index.dataLen := by
  induction batches generalizing s with
  | nil =>
    cases h
    exact ⟨hinv, hpos⟩
  | cons batch batches ih =>
    rw [OpenLog.acceptAll, foldlM_cons] at h
    obtain ⟨t, hbatch, hrest⟩ := Option.bind_eq_some_iff.mp h
    obtain ⟨written, hwrite, rfl⟩ := acceptBatch_eq_some hbatch
    have hmem : ∀ record ∈ batch, scanAccepts record = true := fun record hr =>
      haccepts record (by simp [hr])
    have hwritten := hinv.write hpos hmem rfl hwrite
    have hnext := (write_eq_ok hwrite).2.2 hpos
    apply ih (Inv.sync hwritten) _ (fun record hr => haccepts record (by simp [hr])) hrest
    show (syncWriter written.writer).2.position = (syncWriter written.writer).2.index.dataLen
    rw [syncWriter_fst.1, syncWriter_fst.2, hnext]

end OpenLog

/-- A record that a scan returns passed the checks of the scan. -/
theorem readOne_accepts {offset : Nat} {buf rest : Bytes} {record : Record}
    (h : readOne offset buf = .record record rest)
    (hheader : (unmarshalBase record.messageBytes).isSome = true) :
    scanAccepts record.messageBytes = true := by
  obtain ⟨header, kind, hpage, hread, hlog, hlen, hfits, hsum, hkind, hparse, hrecord, -⟩ :=
    readOne_eq_record h
  have hmessage : record.messageBytes = buf.take header.unMarshalLen := by
    rw [hrecord, Record.messageBytes, take_take]
    exact congrArg (buf.take ·) (min_eq_left hfits)
  rw [hmessage] at hheader ⊢
  -- the message starts with its own header, which is the one on the page
  obtain ⟨header', hheader'⟩ := Option.isSome_iff_exists.mp hheader
  have hsame : unmarshalBase (buf.take pageSize) = some header' := by
    apply unmarshalBase_congr hheader'
    rw [take_take, prefix_take_iff]
    constructor
    · exact take_prefix _ _
    · rw [length_take]
      have : 172 ≤ pageSize := by decide
      omega
  obtain rfl : header = header' := by
    rw [hread] at hsame
    exact Option.some.inj hsame
  simp [scanAccepts, hsum, hheader', hkind, hparse]

theorem scanFrom_accepts {fuel offset : Nat} {buf : Bytes} {result : ScanResult}
    (h : scanFrom fuel offset buf = some result) :
    ∀ record ∈ result.records, (unmarshalBase record.messageBytes).isSome = true →
      scanAccepts record.messageBytes = true := by
  induction fuel generalizing offset buf result with
  | zero =>
    cases h
    simp
  | succ fuel ih =>
    rw [scanFrom] at h
    cases hread : readOne offset buf with
    | ended reason =>
      simp only [hread] at h
      cases h
      simp
    | panicked => simp [hread] at h
    | record record rest =>
      simp only [hread] at h
      obtain ⟨later, hlater, rfl⟩ := Option.map_eq_some_iff.mp h
      exact forall_mem_cons.mpr ⟨readOne_accepts hread, ih hlater⟩

namespace OpenLog

/-- The scan of the log is an accepting one that returns the records in order, rebuilds the index
of the writer with every offset at its record, and discards nothing. -/
def RoundTrips (s : OpenLog) (records : List Bytes) : Prop :=
  ∃ result, scan s.content = some result ∧ result.ending = .eof ∧
    result.stopOffset = s.content.length ∧
    result.records.map Record.messageBytes = records ∧
    result.index = .ok s.writer.index ∧ Points s.writer.index result.records

/-- Batches that `append_batch` accepted are scanned back exactly when the scan accepts each of
their records. -/
theorem scan_iff {batches : List (List Bytes)} {s : OpenLog} (h : acceptAll {} batches = some s) :
    s.RoundTrips batches.flatten ↔ ∀ record ∈ batches.flatten, scanAccepts record = true := by
  obtain ⟨happended, hshapes⟩ := acceptAll_appended h
  have happended : s.appended = batches.flatten := happended
  constructor
  · rintro ⟨result, hscan, -, -, hmessages, -⟩ record hr
    rw [← hmessages] at hr
    obtain ⟨read, hread, rfl⟩ := mem_map.mp hr
    obtain ⟨shape, hshape⟩ := hshapes _ (hmessages ▸ hr)
    obtain ⟨header, hheader, -⟩ := shapeOf_eq_ok hshape
    exact scanFrom_accepts hscan read hread (by rw [hheader]; rfl)
  · intro haccepts
    obtain ⟨hinv, hpos⟩ := inv_init.acceptAll rfl haccepts h
    have hcontent := hinv.content_eq hpos
    obtain ⟨reason, read, hscan, -, hlaid, hindex⟩ := hinv.scan
    obtain ⟨read', hscan', hlaid'⟩ := scanFrom_logBytes hinv.ok (fun _ => rfl : ∀ offset,
      readOne offset [] = .ended .eof) (lt_add_one _) 0
    rw [append_nil, ← hcontent, zero_add] at hscan'
    obtain ⟨rfl, -, rfl⟩ : reason = .eof ∧ _ ∧ read = read' := by
      have := hscan.symm.trans hscan'
      simpa using this
    have hnone : Points {} [] := by
      intro n offset hn
      simp at hn
    refine ⟨_, hscan', rfl, rfl, ?_, hindex, hlaid.points rfl hnone hindex⟩
    rw [← happended]
    exact hlaid.messages_eq

end OpenLog

/-! ## Runs -/

namespace Example

/-- A call that fails before its first byte, between two that succeed. -/
def failedEarly : List Call :=
  [.appendUnsynced [voteOne] none, .appendBatch [voteOne] (some 0) false,
    .appendBatch [voteOne] none false]

/-- A call that fails after the 48 bytes of its record, and one that succeeds. -/
def failedThenAppended : List Call :=
  [.appendUnsynced [voteOne] (some 48), .appendUnsynced [voteOne] none]

/-- A call that fails inside the first page of its record. -/
def failedInPage : List Call := [.appendUnsynced [voteOne] (some 48)]

/-- A call that fails between its two records. -/
def failedBetween : List Call := [.appendUnsynced [voteOne, voteOne] (some 512)]

/-- A call whose records are written and whose flush fails. -/
def failedFlush : List Call := [.appendBatch [voteOne] none true]

end Example

open OpenLog Storage.Example

theorem run_intact_failedEarly :
    allGuarded {} failedEarly = true ∧ ∃ s, run {} failedEarly = some s ∧ s.Intact := by
  have hguard : allGuarded {} failedEarly = true := by decide +kernel
  have hrun : (run {} failedEarly).isSome = true := by decide +kernel
  obtain ⟨s, hs⟩ := Option.isSome_iff_exists.mp hrun
  exact ⟨hguard, s, hs, run_intact failedEarly hguard hs⟩

/-- Four sequences of calls after which the log is not what its successful calls say: the data of a
successful call is not where the index has it, the scan rejects the file, the scan returns a record
of a failed call, and the length covers a record of a failed call. -/
theorem not_intact_after_failure :
    (∃ s, run {} failedThenAppended = some s ∧
        s.content.take s.writer.index.dataLen ≠ logBytes s.appended) ∧
      (∃ s, run {} failedInPage = some s ∧
        (scan s.content).map (fun result => result.ending.recoverable) = some false) ∧
      (∃ s, run {} failedBetween = some s ∧ s.appended = [] ∧
        (scan s.content).map (fun result => result.records.map Record.messageBytes) =
          some [voteOne]) ∧
      ∃ s, run {} failedFlush = some s ∧
        s.content.take s.writer.index.dataLen ≠ logBytes s.appended := by
  -- each part is a property of the state that the run ends in
  have hfind : ∀ {calls : List Call} {P : OpenLog → Prop} [DecidablePred P],
      (run {} calls).any (fun s => decide (P s)) = true → ∃ s, run {} calls = some s ∧ P s := by
    intro calls P _ h
    obtain ⟨s, hs, hP⟩ := (Option.any_eq_true _ _).mp h
    exact ⟨s, hs, of_decide_eq_true hP⟩
  refine ⟨hfind ?_, hfind ?_, hfind ?_, hfind ?_⟩
  all_goals decide +kernel

theorem scan_iff_voteTwice :
    ∃ s, acceptAll {} [[voteOne], [voteOne]] = some s ∧
      (s.RoundTrips [voteOne, voteOne] ↔
        ∀ record ∈ [[voteOne], [voteOne]].flatten, scanAccepts record = true) := by
  have haccept : (acceptAll {} [[voteOne], [voteOne]]).isSome = true := by decide +kernel
  obtain ⟨s, hs⟩ := Option.isSome_iff_exists.mp haccept
  exact ⟨s, hs, scan_iff hs⟩

/-- `append_batch` accepts a record with a wrong checksum, and the scan does not return it. -/
theorem not_roundTrips_flippedVote :
    ∃ s, acceptAll {} [[flippedVote]] = some s ∧ ¬ s.RoundTrips [flippedVote] := by
  have hlost : (acceptAll {} [[flippedVote]]).any (fun s => decide
      ((scan s.content).map (fun result => result.records.map Record.messageBytes) = some [])) =
      true := by decide +kernel
  obtain ⟨s, hs, hscan⟩ := (Option.any_eq_true _ _).mp hlost
  refine ⟨s, hs, ?_⟩
  rintro ⟨result, hresult, -, -, hmessages, -⟩
  rw [hresult, Option.map_some, hmessages] at hscan
  simp at hscan

end Rsl.Storage
