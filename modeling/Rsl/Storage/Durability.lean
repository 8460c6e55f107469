import Rsl.Lib.Disk
import Rsl.Storage.Log

/-!
# Acknowledged records and power loss

`LogWriter::open_with`, `append_batch` and `sync` as sequences of file operations under the real
durability policy, in histories of one log file with process crashes after any operation and with
power losses. `run_recovers` says that a later reopen succeeds and returns every record acknowledged
by `append_batch`, in every history in which an open never finds a file whose name is not durable,
every appended record passes the checks of the scan, and no crash cuts a write inside the first page
of a record. All three conditions are needed: an open that finds the file there does not flush the
directory, `append_batch` does not verify the checksum of what it is given, and the scan takes less
than a page at the end of a file for damage and not for a torn tail.

File operations do not fail here; a failed write is a matter of its own.
-/

set_option autoImplicit false

namespace Rsl.Storage

open Wire Lib List

/-! ## The writer -/

/-- `LogWriter`: the index, the durable length and the position of the file handle. -/
structure LogWriter where
  index : DecreeIndex
  durableLen : Nat
  position : Nat
  deriving DecidableEq, Repr

/-- How a call ends. -/
inductive Outcome where
  | ok (writer : LogWriter)
  | error (reason : LogError)
  | panicked
  deriving DecidableEq, Repr

/-- The end of `open_with`: cut the discarded tail off and seek to the end of the data. -/
def finishOpen (content : Bytes) (index : DecreeIndex) : List DiskOp × Outcome :=
  (if content.length > index.dataLen then [.setSize index.dataLen] else [],
    .ok ⟨index, index.dataLen, index.dataLen⟩)

/-- `LogWriter::open_with`. Only a file that did not exist has its directory flushed. -/
def openWith (file : Option DiskFile) : List DiskOp × Outcome :=
  match file with
  | some f =>
    match scan f.content with
    | none => ([], .panicked)
    | some result =>
      if !result.ending.recoverable then ([], .error (.corrupt result))
      else match result.index with
        | .error e => ([], .error (.index e))
        | .ok index => finishOpen f.content index
  | none =>
    let (ops, outcome) := finishOpen [] {}
    (.create :: .syncDir :: ops, outcome)

/-- `LogWriter::append_unsynced`. -/
def appendUnsynced (writer : LogWriter) (records : List Bytes) : List DiskOp × Outcome :=
  if records.isEmpty then ([], .ok writer)
  else match validateBatch writer.index records with
    | .error e => ([], .error e)
    | .ok (shapes, next) =>
      let (bytes, returns) := writeRecords records shapes
      ([.write writer.position bytes],
        if returns then
          .ok { writer with index := next, position := writer.position + bytes.length }
        else .panicked)

/-- `LogWriter::sync`. -/
def syncWriter (writer : LogWriter) : List DiskOp × LogWriter :=
  if writer.durableLen = writer.index.dataLen then ([], writer)
  else ([.syncData], { writer with durableLen := writer.index.dataLen })

/-- `LogWriter::append_batch`. -/
def appendBatch (writer : LogWriter) (records : List Bytes) : List DiskOp × Outcome :=
  match appendUnsynced writer records with
  | (ops, .ok written) =>
    let (flush, synced) := syncWriter written
    (ops ++ flush, .ok synced)
  | failed => failed

/-! ## Histories -/

/-- The state of a history: the file, the open writer, and every record acknowledged so far. -/
structure History where
  file : Option DiskFile := none
  writer : Option LogWriter := none
  acked : List Bytes := []
  deriving DecidableEq, Repr

/-- One event of a history. A call runs to its end or the process crashes after some of its
steps. -/
inductive Event where
  | openLog (crashAfter : Option Nat)
  | append (records : List Bytes) (crashAfter : Option Nat)
  | crash
  | powerLoss
  deriving DecidableEq, Repr

namespace History

/-- A call: its operations, the writer it leaves when it fails, and the records that it acknowledges
when it returns `Ok`. -/
def call (s : History) (plan : List DiskOp × Outcome) (crashAfter : Option Nat)
    (onError : Option LogWriter) (records : List Bytes) : History :=
  match crashAfter with
  | some k => { s with file := runOps (cutOps k plan.1) s.file, writer := none }
  | none =>
    let file := runOps plan.1 s.file
    match plan.2 with
    | .ok writer => ⟨file, some writer, s.acked ++ records⟩
    | .error _ => { s with file := file, writer := onError }
    | .panicked => { s with file := file, writer := none }

/-- One event. -/
def step (s : History) : Event → History
  | .openLog crashAfter => s.call (openWith s.file) crashAfter none []
  | .append records crashAfter =>
    match s.writer with
    | none => s
    | some writer => s.call (appendBatch writer records) crashAfter (some writer) records
  | .crash => { s with writer := none }
  | .powerLoss => { s with file := s.file.bind DiskFile.powerLoss, writer := none }

/-- A whole history. -/
def run (s : History) (events : List Event) : History := events.foldl step s

/-- The messages that the scan of a reopen returns, when `open_with` does not refuse the file; a
file that is not there has none. -/
def recovered (s : History) : Option (List Bytes) :=
  match (openWith s.file).2 with
  | .ok _ => match s.file with
    | none => some []
    | some f => (scan f.content).map fun result => result.records.map Record.messageBytes
  | _ => none

/-- The condition on one event: an open that finds the file finds its name durable, the records of
an append are ones that the scan accepts, and a crash does not cut the write of an append inside the
first page of a record. -/
def guarded (s : History) : Event → Bool
  | .openLog _ => match s.file with
    | none => true
    | some f => f.named
  | .append records crashAfter =>
    records.all scanAccepts && crashAfter.all (clearOfHeader records)
  | _ => true

/-- Every event of a history meets the condition. -/
def AllGuarded (s : History) : List Event → Prop
  | [] => True
  | event :: events => s.guarded event = true ∧ (s.step event).AllGuarded events

instance decidableAllGuarded : ∀ (s : History) (events : List Event),
    Decidable (s.AllGuarded events)
  | _, [] => isTrue trivial
  | s, event :: events =>
    @instDecidableAnd _ _ (inferInstance) (decidableAllGuarded (s.step event) events)

end History

/-! ## The invariant -/

/-- `bytes` is a log that recovery accepts, with the acknowledged records among its records. -/
def Holds (acked : List Bytes) (bytes : Bytes) : Prop :=
  ∃ records index, Logged records index bytes ∧ acked.Sublist records

/-- What holds of the file whether or not a writer is open: both contents hold the acknowledged
records, and nothing is acknowledged while the name can still be lost. -/
structure FileOk (acked : List Bytes) (f : DiskFile) : Prop where
  content : Holds acked f.content
  synced : Holds acked f.synced
  named : f.named = true ∨ acked = []

/-- The same for a path, at which there may be no file. -/
def PathOk (acked : List Bytes) : Option DiskFile → Prop
  | none => acked = []
  | some f => FileOk acked f

/-- What holds of the file while `writer` is open: it consists of whole records and the writer
stands at its end. -/
structure WriterOk (acked : List Bytes) (file : Option DiskFile) (writer : LogWriter) : Prop where
  log : ∃ f records, file = some f ∧ f.named = true ∧ Logged records writer.index f.content ∧
    f.content = logBytes records ∧ acked.Sublist records ∧ writer.position = f.content.length
  durable : writer.durableLen ≤ writer.index.dataLen

/-- The invariant of a history. -/
structure History.Inv (s : History) : Prop where
  path : PathOk s.acked s.file
  opened : ∀ writer, s.writer = some writer → WriterOk s.acked s.file writer

theorem holds_nil : Holds [] [] := ⟨[], {}, .empty, Sublist.refl _⟩

variable {file : Option DiskFile} {writer : LogWriter} {acked : List Bytes} {e : LogError}

/-- A flush makes the content the flushed content. -/
theorem PathOk.flush (h : PathOk acked file) :
    PathOk acked (DiskOp.syncData.apply file) := by
  cases file with
  | none => exact h
  | some f => exact ⟨h.content, h.content, h.named⟩

theorem PathOk.powerLoss (h : PathOk acked file) :
    PathOk acked (file.bind DiskFile.powerLoss) := by
  cases file with
  | none => exact h
  | some f =>
    rw [Option.bind_some, DiskFile.powerLoss]
    split
    · exact ⟨h.synced, h.synced, h.named⟩
    · next hnamed =>
      rcases h.named with hn | hacked
      · exact absurd hn hnamed
      · exact hacked

/-! ## What the calls do -/

/-- `open_with` refuses a file, or it keeps the records that the scan returned. -/
theorem openWith_spec {f : DiskFile} {result : ScanResult} {read : List Bytes}
    (hscan : scan f.content = some result)
    (hlen : (result.records.map fun record => record.info.paddedLen).sum = (logBytes read).length)
    (hread : logBytes read <+: f.content) {ops : List DiskOp} {outcome : Outcome}
    (hopen : openWith (some f) = (ops, outcome)) :
    (ops = [] ∧ ∃ e, outcome = .error e) ∨
      (∃ index, outcome = .ok ⟨index, index.dataLen, index.dataLen⟩ ∧
        index.dataLen = (logBytes read).length) ∧
      runOps ops (some f) = some { f with content := logBytes read } ∧
      ∀ k, runOps (cutOps k ops) (some f) = some f ∨ cutOps k ops = ops := by
  rw [openWith] at hopen
  simp only [hscan] at hopen
  split at hopen
  · cases hopen
    exact .inl ⟨rfl, _, rfl⟩
  cases hindex : result.index with
  | error e =>
    rw [hindex] at hopen
    cases hopen
    exact .inl ⟨rfl, _, rfl⟩
  | ok index =>
    simp only [hindex, finishOpen] at hopen
    cases hopen
    have hdata : index.dataLen = (logBytes read).length := by
      rw [result.index_dataLen hindex, hlen]
    have htake : f.content.take index.dataLen = logBytes read := by
      rw [hdata]
      exact (prefix_iff_eq_take.mp hread).symm
    have hle : index.dataLen ≤ f.content.length := hdata ▸ hread.length_le
    refine .inr ⟨⟨index, rfl, hdata⟩, ?_⟩
    split
    · refine ⟨?_, fun k => ?_⟩
      · rw [runOps_cons, runOps_nil, DiskOp.apply, resize_of_le hle, htake]
      · cases k with
        | zero => exact .inl rfl
        | succ k => exact .inr (by simp [cutOps, DiskOp.steps])
    · refine ⟨?_, fun k => .inr rfl⟩
      rw [runOps_nil, ← htake, take_of_length_le (by omega)]

/-- `open_with` accepts a log, cuts off what is torn and takes up the writer's index. -/
theorem Logged.openWith {f : DiskFile} {records : List Bytes} {index : DecreeIndex}
    (h : Logged records index f.content) :
    (openWith (some f)).2 = .ok ⟨index, index.dataLen, index.dataLen⟩ ∧
      runOps (openWith (some f)).1 (some f) = some { f with content := logBytes records } ∧
      ∀ k, runOps (cutOps k (openWith (some f)).1) (some f) = some f ∨
        cutOps k (openWith (some f)).1 = (openWith (some f)).1 := by
  obtain ⟨reason, read, hscan, hrec, hlaid, hindex⟩ := h.scan
  have hdone : (Storage.openWith (some f)).2 = .ok ⟨index, index.dataLen, index.dataLen⟩ := by
    have hindex : ScanResult.index ⟨reason, (logBytes records).length, read⟩ = .ok index := hindex
    rw [Storage.openWith]
    simp only [hscan, hrec, hindex, finishOpen, Bool.not_true, Bool.false_eq_true, if_false]
  rcases hopen : Storage.openWith (some f) with ⟨ops, outcome⟩
  rw [hopen] at hdone
  rcases openWith_spec hscan hlaid.bytes_eq h.isPrefix hopen with
    ⟨-, e, herror⟩ | ⟨-, hrun, hcut⟩
  · exact absurd (hdone.symm.trans herror) (by simp)
  · exact ⟨hdone, hrun, hcut⟩

/-- `append_unsynced` refuses a batch, or its first records, all of them when it returns, go where
the writer stands. -/
theorem appendUnsynced_spec {batch : List Bytes}
    (hbatch : ∀ record ∈ batch, scanAccepts record = true) {ops : List DiskOp} {outcome : Outcome}
    (happend : appendUnsynced writer batch = (ops, outcome)) :
    (ops = [] ∧ ∃ e, outcome = .error e) ∨
      ∃ more, more <+: batch ∧ (∀ record ∈ more, RecordOk record) ∧
        (∀ f : DiskFile, writer.position = f.content.length →
          runOps ops (some f) = some { f with content := f.content ++ logBytes more } ∧
          ∀ k, runOps (cutOps k ops) (some f) =
            some { f with content := f.content ++ (logBytes more).take k }) ∧
        ∃ shapes index, validateBatch writer.index batch = .ok (shapes, index) ∧
        (outcome = .panicked ∨ index.dataLen = writer.index.dataLen + (logBytes batch).length ∧
          outcome = .ok ⟨index, writer.durableLen, writer.position + (logBytes batch).length⟩ ∧
          more = batch) := by
  unfold appendUnsynced at happend
  split at happend
  · next hempty =>
    obtain rfl : batch = [] := isEmpty_iff.mp hempty
    cases happend
    refine .inr ⟨[], prefix_refl _, by simp, fun f _ => ?_, [], writer.index, rfl,
      .inr ⟨rfl, rfl, rfl⟩⟩
    simp [logBytes, cutOps]
  cases hvalid : validateBatch writer.index batch with
  | error e =>
    rw [hvalid] at happend
    cases happend
    exact .inl ⟨rfl, e, rfl⟩
  | ok validated =>
    obtain ⟨shapes, next⟩ := validated
    obtain ⟨hshapes, hnext⟩ := validateBatch_eq_ok hvalid
    obtain ⟨more, hmore, hbytes, hfits, hreturns⟩ := writeRecords_spec hshapes
    simp only [hvalid, hbytes] at happend
    cases happend
    refine .inr ⟨more, hmore, fun record hr =>
      ⟨(hfits record hr).1, (hfits record hr).2, hbatch record (hmore.subset hr)⟩,
      fun f hpos => ?_, shapes, next, rfl, ?_⟩
    · rw [hpos]
      refine ⟨?_, fun k => ?_⟩
      · rw [runOps_cons, runOps_nil, DiskOp.apply, writeAt_length]
      · rw [cutOps_write, runOps_cons, runOps_nil, DiskOp.apply, writeAt_length]
    · split
      · next hret =>
        obtain ⟨rfl, hsum⟩ := hreturns hret
        exact .inr ⟨by rw [hnext, hsum], rfl, rfl⟩
      · exact .inl rfl

/-! ## Opening -/

/-- `open_with` keeps the path's invariant after any number of its operations. -/
theorem openWith_keeps (h : PathOk acked file) (hnamed : ∀ f, file = some f → f.named = true) :
    (∀ k, PathOk acked (runOps (cutOps k (openWith file).1) file)) ∧
      ∀ writer, (openWith file).2 = .ok writer →
        WriterOk acked (runOps (openWith file).1 file) writer := by
  cases file with
  | none =>
    -- a new file: nothing can have been acknowledged yet
    obtain rfl : acked = [] := h
    constructor
    · intro k
      match k with
      | 0 => exact rfl
      | 1 => exact ⟨holds_nil, holds_nil, .inr rfl⟩
      | k + 2 =>
        have hall : cutOps (k + 2) (openWith none).1 = [.create, .syncDir] := by
          simp [openWith, finishOpen, cutOps, DiskOp.steps]
        rw [hall]
        exact ⟨holds_nil, holds_nil, .inr rfl⟩
    · intro writer hwriter
      cases hwriter
      exact ⟨⟨⟨[], [], true⟩, [], rfl, rfl, .empty, rfl, Sublist.refl _, rfl⟩, le_rfl⟩
  | some f =>
    obtain ⟨⟨records, index, hlog, hacked⟩, hsynced, -⟩ := h
    have hf := hnamed f rfl
    obtain ⟨hdone, hrun, hcut⟩ := hlog.openWith
    refine ⟨fun k => ?_, fun writer hwriter => ?_⟩
    · rcases hcut k with h | h
      · rw [h]
        exact ⟨⟨records, index, hlog, hacked⟩, hsynced, .inl hf⟩
      · rw [h, hrun]
        exact ⟨⟨records, index, hlog.whole, hacked⟩, hsynced, .inl hf⟩
    · obtain rfl := Outcome.ok.inj (hdone.symm.trans hwriter)
      exact ⟨⟨_, records, hrun, hf, hlog.whole, rfl, hacked, hlog.dataLen⟩, le_rfl⟩

/-! ## Appending -/

/-- What `append_unsynced` does to an open log: after any number of its writes that does not end
inside the first page of a record, and after all of them, the path's invariant holds, and when it
returns the batch stands behind the records that were there. -/
theorem appendUnsynced_keeps {acked batch : List Bytes} (hpath : PathOk acked file)
    (h : WriterOk acked file writer) (hbatch : ∀ record ∈ batch, scanAccepts record = true) :
    (∀ k, clearOfHeader batch k = true →
      PathOk acked (runOps (cutOps k (appendUnsynced writer batch).1) file)) ∧
      PathOk acked (runOps (appendUnsynced writer batch).1 file) ∧
      ∀ written, (appendUnsynced writer batch).2 = .ok written →
        WriterOk (acked ++ batch) (runOps (appendUnsynced writer batch).1 file) written ∧
        (written.durableLen = written.index.dataLen → batch = []) := by
  obtain ⟨⟨f, records, rfl, hnamed, hlog, hcontent, hacked, hpos⟩, hdurable⟩ := h
  rcases happend : appendUnsynced writer batch with ⟨ops, outcome⟩
  rcases appendUnsynced_spec hbatch happend with
    ⟨rfl, e, rfl⟩ | ⟨more, hmore, hok, hrun, shapes, next, hvalid, hdone⟩
  · exact ⟨fun _ _ => hpath, hpath, fun written hw => absurd hw (by simp)⟩
  obtain ⟨hfull, hcut⟩ := hrun f hpos
  obtain ⟨_, middle, hmiddle⟩ := validateBatch_of_isPrefix hvalid hmore
  have hall := hlog.append hok hmiddle
  have hgrown : acked.Sublist (records ++ more) := hacked.trans (sublist_append_left _ _)
  refine ⟨fun k hclear => ?_, ?_, ?_⟩
  · rw [hcut k, hcontent]
    have hfront : (logBytes more).take k <+: logBytes more := List.take_prefix _ _
    obtain ⟨_, hpart⟩ :=
      hlog.append_part hok hmiddle hfront (clearOfHeader_of_isPrefix hmore hclear)
    exact ⟨⟨_, _, hpart, hacked.trans (sublist_append_left _ _)⟩, hpath.synced, .inl hnamed⟩
  · rw [hfull, hcontent]
    exact ⟨⟨_, _, hall, hgrown⟩, hpath.synced, .inl hnamed⟩
  · rintro written rfl
    obtain ⟨hindex, hwritten, rfl⟩ := hdone.resolve_left (by simp)
    cases hwritten
    have hlogged := hlog.append hok hvalid
    refine ⟨⟨⟨_, records ++ more, hfull, hnamed, ?_, ?_, hacked.append (Sublist.refl _), ?_⟩,
      ?_⟩, ?_⟩
    · rw [hcontent]
      exact hlogged
    · rw [logBytes_append, hcontent]
    · rw [hpos, length_append]
    · show writer.durableLen ≤ next.dataLen
      omega
    · intro heq
      -- a record takes at least a page, so a batch that is not empty moves the data length
      have hstill : writer.durableLen = next.dataLen := heq
      cases more with
      | nil => rfl
      | cons record rest =>
        have hpage := (hok record mem_cons_self).pageSize_le
        rw [logBytes_cons, length_append] at hindex
        have := pageSize_pos
        omega

/-- A flush under an open writer makes everything it wrote durable. -/
theorem WriterOk.flush
    (h : WriterOk acked file writer) :
    PathOk acked (DiskOp.syncData.apply file) ∧
      WriterOk acked (DiskOp.syncData.apply file)
        { writer with durableLen := writer.index.dataLen } := by
  obtain ⟨⟨f, records, rfl, hnamed, hlog, hcontent, hacked, hpos⟩, -⟩ := h
  have hholds : Holds acked f.content := ⟨records, _, hlog, hacked⟩
  constructor
  · exact ⟨hholds, hholds, .inl hnamed⟩
  · exact ⟨⟨{ f with synced := f.content }, records, rfl, hnamed, hlog, hcontent, hacked, hpos⟩,
      le_rfl⟩

/-- `append_batch` keeps the path's invariant after any number of its operations that does not end
inside the first page of a record, and when it returns `Ok` the batch counts as acknowledged. -/
theorem appendBatch_keeps {acked batch : List Bytes} (hpath : PathOk acked file)
    (h : WriterOk acked file writer) (hbatch : ∀ record ∈ batch, scanAccepts record = true) :
    (∀ k, clearOfHeader batch k = true →
      PathOk acked (runOps (cutOps k (appendBatch writer batch).1) file)) ∧
      PathOk acked (runOps (appendBatch writer batch).1 file) ∧
      ∀ synced, (appendBatch writer batch).2 = .ok synced →
        PathOk (acked ++ batch) (runOps (appendBatch writer batch).1 file) ∧
        WriterOk (acked ++ batch) (runOps (appendBatch writer batch).1 file) synced := by
  obtain ⟨hcut, hall, hdone⟩ := appendUnsynced_keeps hpath h hbatch
  unfold appendBatch
  match happend : appendUnsynced writer batch with
  | (ops, .error e) | (ops, .panicked) =>
    rw [happend] at hcut hall
    exact ⟨hcut, hall, fun _ hs => absurd hs (by simp)⟩
  | (ops, .ok written) =>
    rw [happend] at hcut hall hdone
    obtain ⟨hwritten, hskip⟩ := hdone written rfl
    by_cases heq : written.durableLen = written.index.dataLen
    · -- the flush is skipped only when nothing was written
      obtain rfl := hskip heq
      simp only [syncWriter, if_pos heq, append_nil] at hwritten ⊢
      refine ⟨hcut, hall, fun synced hs => ?_⟩
      cases hs
      exact ⟨hall, hwritten⟩
    · simp only [syncWriter, if_neg heq]
      refine ⟨fun k hclear => ?_, ?_, fun synced hs => ?_⟩
      · rcases cutOps_append k ops [.syncData] with hj | ⟨j, hj⟩
        · rw [hj]
          exact hcut k hclear
        · rw [hj, runOps_append]
          cases j with
          | zero => exact hall
          | succ j =>
            have hflush : cutOps (j + 1) [.syncData] = [.syncData] := by
              simp [cutOps, DiskOp.steps]
            rw [hflush]
            exact hall.flush
      · rw [runOps_append]
        exact hall.flush
      · cases hs
        rw [runOps_append]
        exact hwritten.flush

/-- A call that fails has written nothing. -/
theorem appendBatch_error {batch : List Bytes}
    (hbatch : ∀ record ∈ batch, scanAccepts record = true)
    (h : (appendBatch writer batch).2 = .error e) : (appendBatch writer batch).1 = [] := by
  rcases happend : appendUnsynced writer batch with ⟨ops, outcome⟩
  rw [appendBatch, happend] at h ⊢
  rcases appendUnsynced_spec hbatch happend with
    ⟨rfl, e, rfl⟩ | ⟨more, -, -, -, shapes, index, -, rfl | ⟨-, rfl, -⟩⟩
  · rfl
  · cases h
  · cases h

/-! ## Whole histories -/

namespace History

theorem inv_init : Inv {} := ⟨rfl, fun _ h => absurd h (by simp)⟩

variable {s : History}

/-- A call keeps the invariant when its plan does. -/
theorem Inv.call (h : s.Inv) {plan : List DiskOp × Outcome}
    {onError : Option LogWriter} {records : List Bytes} {crashAfter : Option Nat}
    (hcut : ∀ k, crashAfter = some k → PathOk s.acked (runOps (cutOps k plan.1) s.file))
    (hall : PathOk s.acked (runOps plan.1 s.file))
    (hok : ∀ writer, plan.2 = .ok writer → PathOk (s.acked ++ records) (runOps plan.1 s.file) ∧
      WriterOk (s.acked ++ records) (runOps plan.1 s.file) writer)
    (herror : ∀ e, plan.2 = .error e → onError = none ∨ plan.1 = [] ∧ onError = s.writer) :
    (s.call plan crashAfter onError records).Inv := by
  unfold History.call
  cases crashAfter with
  | some k => exact ⟨hcut k rfl, fun _ hw => absurd hw (by simp)⟩
  | none =>
    simp only
    split
    · next writer hwriter =>
      refine ⟨(hok writer hwriter).1, fun w hw => ?_⟩
      cases hw
      exact (hok writer hwriter).2
    · next e he =>
      obtain rfl | ⟨hops, rfl⟩ := herror e he
      · exact ⟨hall, fun _ hw => absurd hw (by simp)⟩
      · refine ⟨hall, fun w hw => ?_⟩
        simp only [hops, runOps_nil]
        exact h.opened w hw
    · exact ⟨hall, fun _ hw => absurd hw (by simp)⟩

/-- One event keeps the invariant. -/
theorem Inv.step (h : s.Inv) {event : Event} (hguard : s.guarded event = true) :
    (s.step event).Inv := by
  cases event with
  | openLog crashAfter =>
    have hnamed : ∀ f, s.file = some f → f.named = true := by
      intro f hf
      simpa [guarded, hf] using hguard
    obtain ⟨hcut, hok⟩ := openWith_keeps h.path hnamed
    obtain ⟨k, hk⟩ := exists_cutOps_eq (openWith s.file).1
    have hdone := hcut k
    rw [hk] at hdone
    apply h.call (fun k _ => hcut k) hdone
    · intro writer hwriter
      rw [append_nil]
      exact ⟨hdone, hok writer hwriter⟩
    · exact fun _ _ => .inl rfl
  | append records crashAfter =>
    unfold History.step
    cases hw : s.writer with
    | none => exact h
    | some writer =>
      obtain ⟨hbatch, hclear⟩ : (∀ record ∈ records, scanAccepts record = true) ∧
          ∀ k, crashAfter = some k → clearOfHeader records k = true := by
        simpa [guarded, Option.all_eq_true] using hguard
      obtain ⟨hcut, hall, hok⟩ := appendBatch_keeps h.path (h.opened writer hw) hbatch
      exact h.call (fun k hk => hcut k (hclear k hk)) hall hok
        fun e he => .inr ⟨appendBatch_error hbatch he, hw.symm⟩
  | crash => exact ⟨h.path, fun _ hw => absurd hw (by simp [History.step])⟩
  | powerLoss => exact ⟨h.path.powerLoss, fun _ hw => absurd hw (by simp [History.step])⟩

/-- A whole history keeps the invariant. -/
theorem Inv.run (h : s.Inv) {events : List Event} (hguard : s.AllGuarded events) :
    (s.run events).Inv := by
  induction events generalizing s with
  | nil => exact h
  | cons event events ih => exact ih (h.step hguard.1) hguard.2

/-- A reopen returns every acknowledged record, in the order of the acknowledgements. -/
theorem Inv.recovered (h : s.Inv) :
    ∃ messages, s.recovered = some messages ∧ s.acked.Sublist messages := by
  have hpath := h.path
  unfold History.recovered
  cases hfile : s.file with
  | none =>
    rw [hfile] at hpath
    have hacked : s.acked = [] := hpath
    exact ⟨[], rfl, by rw [hacked]⟩
  | some f =>
    rw [hfile] at hpath
    obtain ⟨records, index, hlog, hacked⟩ := hpath.content
    obtain ⟨reason, read, hscan, -, hlaid, -⟩ := hlog.scan
    exact ⟨records, by simp [hlog.openWith.1, hscan, hlaid.messages_eq], hacked⟩

/-- In every history whose events meet the condition, at every point of it and so after any power
loss in it, a reopen succeeds and its scan returns every record that `append_batch` acknowledged. -/
theorem run_recovers (events : List Event) (h : AllGuarded {} events) :
    ∃ messages, (run {} events).recovered = some messages ∧
      (run {} events).acked.Sublist messages :=
  (inv_init.run h).recovered

end History

/-! ## Runs -/

namespace Example

/-- A version 1 vote for decree 1 with no requests, as `marshal_with_checksum` produces it. -/
def voteOne : Bytes :=
  [1, 0, 48, 0, 0, 0, 246, 207, 189, 7, 190, 94, 14, 76, 206, 250, 13, 240, 1, 0,
    1, 0, 0, 0, 0, 0, 0, 0, 1, 0, 0, 0, 0, 0, 0, 0, 1, 0, 0, 0, 1, 0, 0, 0, 0, 0, 0, 0]

/-- The same vote with one bit of its checksum changed. -/
def flippedVote : Bytes := voteOne.set 6 247

/-- A log that is created and written, loses power, is opened and written again by a process that
dies between two records, and loses power once more. -/
def cleanRun : List Event :=
  [.openLog none, .append [voteOne] none, .powerLoss, .openLog none,
    .append [voteOne, voteOne] (some 512), .powerLoss, .openLog (some 0)]

/-- The process dies between creating the file and flushing its directory. The next open finds the
file, so nothing ever flushes the directory. -/
def crashedOpen : List Event :=
  [.openLog (some 1), .openLog none, .append [voteOne] none, .powerLoss]

/-- A record that is not what its checksum says. -/
def flippedAppend : List Event := [.openLog none, .append [flippedVote] none, .powerLoss]

/-- The process dies after writing the bytes of a record and before writing its padding. -/
def tornHeader : List Event :=
  [.openLog none, .append [voteOne] none, .powerLoss, .openLog none, .append [voteOne] (some 48)]

end Example

open Storage.Example History

theorem run_recovers_cleanRun :
    AllGuarded {} cleanRun ∧ (run {} cleanRun).acked = [voteOne] ∧
      ∃ messages, (run {} cleanRun).recovered = some messages ∧
        (run {} cleanRun).acked.Sublist messages :=
  have h : AllGuarded {} cleanRun := by decide +kernel
  ⟨h, by decide +kernel, run_recovers cleanRun h⟩

/-- Three histories in which a record is acknowledged and no reopen returns it: the name of the file
was never made durable, the record was one that the scan discards, or the reopen refuses the file
for the part of a page at its end. -/
theorem acked_not_recovered :
    ((run {} crashedOpen).acked = [voteOne] ∧ (run {} crashedOpen).recovered = some []) ∧
      ((run {} flippedAppend).acked = [flippedVote] ∧
        (run {} flippedAppend).recovered = some []) ∧
      (run {} tornHeader).acked = [voteOne] ∧ (run {} tornHeader).recovered = none := by
  decide +kernel

end Rsl.Storage
