import Rsl.Storage.Append

/-!
# Crashes that keep some sectors

A log that is appended to with flushes at any points, and crashes that keep what was flushed and any
of the other sectors: a lost sector reads as zeros, or the file ends before it.
`run_recovers_sectors` says what holds at every point of every run whose records pass the checks of
the scan: if the scan accepts the file, it returns the first of the appended records and among them
all that were flushed whole, and while a writer is open it returns exactly the appended ones, which
after a reopen are the ones its scan returned and those appended since.

`append_unsynced` does not verify checksums. A record that was flushed whole and does not verify is
taken for a torn one (`not_recovers_flippedVote`).
-/

set_option autoImplicit false

namespace Rsl.Storage

open Wire Lib List

/-- The size of a sector. -/
def sectorSize : Nat := 512

/-! ## The log on its disk -/

/-- A log file with its writer. `durable` is the number of bytes that the disk is known to hold,
and `appended` the records that the log was given, from those that the last open found on. -/
structure SectorLog where
  content : Bytes := []
  writer : Option LogWriter := some ⟨{}, 0, 0⟩
  durable : Nat := 0
  appended : List Bytes := []

/-- An event. `kept` says which sectors a crash keeps and `size` where it ends the file; `settled`
says whether what a reopen reads is on the disk, as after a power loss, or may be in the cache only,
as after the end of a process. -/
inductive SectorEvent where
  | append (records : List Bytes)
  | sync
  | crash (kept : Nat → Bool) (size : Nat)
  | reopen (settled : Bool)

namespace SectorLog

/-- The content after file operations. -/
def applyOps (ops : List DiskOp) (content : Bytes) : Bytes :=
  match runOps ops (some ⟨content, content, true⟩) with
  | none => []
  | some file => file.content

/-- The sectors that a crash keeps: all that hold a durable byte, and any others. -/
def surviving (s : SectorLog) (kept : Nat → Bool) (sector : Nat) : Bool :=
  decide (sector * sectorSize < s.durable) || kept sector

/-- The content after a crash. -/
def crashed (s : SectorLog) (kept : Nat → Bool) (size : Nat) : Bytes :=
  (tear sectorSize (s.surviving kept) s.content).take (max s.durable size)

/-- One event. A call needs an open writer and a reopen needs that there is none. -/
def step (s : SectorLog) : SectorEvent → SectorLog
  | .append records =>
    match s.writer with
    | none => s
    | some writer =>
      match appendUnsynced writer records with
      | (ops, .ok written) =>
        { s with
          content := applyOps ops s.content
          writer := some written
          appended := s.appended ++ records }
      | (_, .error _) => s
      | (ops, .panicked) =>
        { s with
          content := applyOps ops s.content
          writer := none
          appended := s.appended ++ records }
  | .sync =>
    match s.writer with
    | none => s
    | some writer =>
      let (flush, synced) := syncWriter writer
      { s with
        writer := some synced
        durable := if flush.isEmpty then s.durable else s.content.length }
  | .crash kept size => { s with content := s.crashed kept size, writer := none }
  | .reopen settled =>
    match s.writer, scan s.content, openWith (some ⟨s.content, s.content, true⟩) with
    | none, some result, (ops, .ok writer) =>
      let left := applyOps ops s.content
      { content := left
        writer := some writer
        durable := if settled then left.length else min s.durable left.length
        appended := result.records.map Record.messageBytes }
    | _, _, _ => s

/-- A run of events. -/
def run (s : SectorLog) (events : List SectorEvent) : SectorLog := events.foldl step s

/-- The records that were flushed whole. -/
def flushed (s : SectorLog) : List Bytes := wholeIn s.appended s.durable

/-- What recovery owes: a scan that accepts the file returns the first of the appended records and
all that were flushed, and while a writer is open it returns all appended ones. -/
structure Recovers (s : SectorLog) : Prop where
  accepted : ∀ result, scan s.content = some result → result.ending.recoverable = true →
    result.records.map Record.messageBytes <+: s.appended ∧
      s.flushed <+: result.records.map Record.messageBytes
  opened : s.writer.isSome = true → ∃ result, scan s.content = some result ∧
    result.ending.recoverable = true ∧ result.records.map Record.messageBytes = s.appended

/-! ## Conditions on an event -/

/-- The checksum detects every altered record: what stands at the place of a record is the record,
or it does not verify. -/
def detects : List Bytes → Bytes → Bool
  | [], _ => true
  | record :: records, buf =>
    (buf.take record.length == record || !verifyChecksum (buf.take record.length)) &&
      detects records (buf.drop (footprint record).length)

/-- The assumption on an event: the checksum detects what a crash alters. -/
def detected (s : SectorLog) : SectorEvent → Bool
  | .crash kept size => detects s.appended (s.crashed kept size)
  | _ => true

/-- The condition on an event: the records of an append pass the checks of the scan. -/
def guarded : SectorEvent → Bool
  | .append records => records.all scanAccepts
  | _ => true

/-- Every event of a run meets the assumption and the condition. -/
def AllGuarded (s : SectorLog) : List SectorEvent → Prop
  | [] => True
  | event :: events =>
    s.detected event = true ∧ guarded event = true ∧ (s.step event).AllGuarded events

end SectorLog

/-! ## What a crash leaves -/

/-- What crashes leave of a log: at the place of every record there is its first page or zeros, and
behind it the zeros of its pad, as far as the file goes. -/
def Pages : List Bytes → Bytes → Prop
  | [], buf => buf = []
  | record :: records, buf =>
    (buf.take pageSize <+: footprint record ∨ isZero (buf.take pageSize) = true) ∧
      isZero ((buf.take (footprint record).length).drop record.length) = true ∧
      Pages records (buf.drop (footprint record).length)

variable {buf : Bytes}

theorem isZero_iff : isZero buf = true ↔ ∀ b ∈ buf, b = 0 := by
  simp [isZero]

theorem isZero_replicate (n : Nat) : isZero (replicate n 0) = true := by
  rw [isZero_iff]
  intro b hb
  exact eq_of_mem_replicate hb

theorem isZero_take (n : Nat) (h : isZero buf = true) :
    isZero (buf.take n) = true := by
  rw [isZero_iff] at h ⊢
  intro b hb
  exact h b (mem_of_mem_take hb)

/-- Zeros stay zeros. -/
theorem isZero_drop_tear {n : Nat} (kept : Nat → Bool)
    (h : isZero (buf.drop n) = true) : isZero ((tear sectorSize kept buf).drop n) = true := by
  rw [isZero_iff] at h ⊢
  intro b hb
  obtain ⟨i, hi⟩ := List.mem_iff_getElem?.mp hb
  rw [List.getElem?_drop] at hi
  obtain ⟨hlt, -⟩ := List.getElem?_eq_some_iff.mp hi
  rw [length_tear] at hlt
  have hmem : buf[n + i] ∈ buf.drop n := by
    rw [List.mem_drop_iff_getElem]
    exact ⟨i, by omega, rfl⟩
  have hzero : buf[n + i]? = some 0 := by
    rw [List.getElem?_eq_getElem hlt, h _ hmem]
  rw [getElem?_tear_of_zero hzero] at hi
  exact (Option.some.inj hi).symm

theorem RecordOk.dvd_footprint {record : Bytes} (h : RecordOk record) :
    pageSize ∣ (footprint record).length := by
  rw [h.length_footprint, roundUpToPage]
  split
  · exact Dvd.intro_left _ rfl
  · decide

theorem drop_footprint (record : Bytes) :
    (footprint record).drop record.length =
      replicate (roundUpToPage record.length - record.length) 0 :=
  drop_left' rfl

theorem Pages.length_le {records : List Bytes} (h : Pages records buf) :
    buf.length ≤ (logBytes records).length := by
  induction records generalizing buf with
  | nil =>
    obtain rfl : buf = [] := h
    exact le_rfl
  | cons record records ih =>
    have := ih h.2.2
    rw [length_drop] at this
    rw [logBytes_cons, length_append]
    omega

section Pages

variable {records : List Bytes} (hok : ∀ record ∈ records, RecordOk record)

include hok

/-- Before any crash. -/
theorem pages_logBytes : Pages records (logBytes records) := by
  induction records with
  | nil => rfl
  | cons record records ih =>
    rw [logBytes_cons]
    refine ⟨?_, ?_, ?_⟩
    · left
      rw [take_append_of_le_length (hok record mem_cons_self).pageSize_le]
      exact take_prefix _ _
    · rw [take_left' rfl, drop_footprint]
      exact isZero_replicate _
    · rw [drop_left' rfl]
      exact ih fun r hr => hok r (mem_cons_of_mem _ hr)

/-- The file ends earlier. -/
theorem Pages.take {buf : Bytes} (h : Pages records buf) (n : Nat) :
    Pages records (buf.take n) := by
  induction records generalizing buf n with
  | nil =>
    obtain rfl : buf = [] := h
    exact take_nil
  | cons record records ih =>
    obtain ⟨hhead, hpad, hrest⟩ := h
    refine ⟨?_, ?_, ?_⟩
    · rw [take_take, Nat.min_comm, ← take_take]
      rcases hhead with hhead | hhead
      · refine .inl (IsPrefix.trans ?_ hhead)
        exact take_prefix _ _
      · exact .inr (isZero_take n hhead)
    · rw [take_take, Nat.min_comm, ← take_take, drop_take]
      exact isZero_take _ hpad
    · rw [drop_take]
      exact ih (fun r hr => hok r (mem_cons_of_mem _ hr)) hrest _

/-- Sectors are lost. -/
theorem Pages.tear {buf : Bytes} (h : Pages records buf) (kept : Nat → Bool) :
    Pages records (tear sectorSize kept buf) := by
  induction records generalizing buf kept with
  | nil =>
    obtain rfl : buf = [] := h
    rfl
  | cons record records ih =>
    obtain ⟨hhead, hpad, hrest⟩ := h
    have hrecord := hok record mem_cons_self
    obtain ⟨pages, hpages⟩ := hrecord.dvd_footprint
    have hlength : (footprint record).length = sectorSize * pages := hpages
    refine ⟨?_, ?_, ?_⟩
    · -- the first sector is kept or lost as a whole
      rw [take_tear]
      have hfirst : ∀ i < (buf.take pageSize).length, kept (i / sectorSize) = kept 0 := by
        intro i hi
        rw [length_take] at hi
        have hlt : i < sectorSize := hi.trans_le (min_le_left _ _)
        rw [Nat.div_eq_of_lt hlt]
      cases hkept : kept 0 with
      | true =>
        rw [tear_of_kept fun i hi => (hfirst i hi).trans hkept]
        exact hhead
      | false =>
        rw [tear_of_lost fun i hi => (hfirst i hi).trans hkept]
        exact .inr (isZero_replicate _)
    · rw [take_tear]
      exact isZero_drop_tear kept hpad
    · rw [hlength, drop_tear _ _ _ (by decide), ← hlength]
      exact ih (fun r hr => hok r (mem_cons_of_mem _ hr)) hrest _

end Pages

/-! ## The scan after a crash -/

/-- The place of a record after a crash: the record is there, or the scan ends. -/
theorem readOne_pages {record buf : Bytes} (h : RecordOk record)
    (hhead : buf.take pageSize <+: footprint record ∨ isZero (buf.take pageSize) = true)
    (hpad : isZero ((buf.take (footprint record).length).drop record.length) = true)
    (hdetect : buf.take record.length = record ∨ verifyChecksum (buf.take record.length) = false) :
    (∃ rest, buf = footprint record ++ rest) ∨
      ∃ reason, ∀ offset, readOne offset buf = .ended reason := by
  unfold readOne
  by_cases hempty : buf.length = 0
  · exact .inr ⟨_, fun _ => if_pos hempty⟩
  by_cases hpage : buf.length < pageSize
  · exact .inr ⟨_, fun _ => (if_neg hempty).trans (if_pos hpage)⟩
  have hlength : (buf.take pageSize).length = pageSize := by
    rw [length_take]
    omega
  simp only [if_neg hempty, if_neg hpage]
  rcases hhead with hhead | hhead
  · -- the header is there
    obtain ⟨header, kind, hheader, hlen, hlog, -⟩ := h.parsed
    have hread : unmarshalBase (buf.take pageSize) = some header := by
      have hfront := prefix_iff_eq_take.mp hhead
      rw [hlength] at hfront
      rw [hfront]
      exact unmarshalBase_page hheader (prefix_append _ _)
    have hfits := h.fits
    simp only [hread, hlog, Bool.not_true, Bool.false_eq_true, if_false, hlen, ← h.length_footprint]
    by_cases hshort : buf.length < (footprint record).length
    · exact .inr ⟨_, fun _ => if_pos hshort⟩
    · simp only [if_neg hshort]
      rcases hdetect with hsame | hsum
      · left
        refine ⟨buf.drop (footprint record).length, ?_⟩
        -- the message and the zeros behind it are the bytes of the record
        have hmessage : (buf.take (footprint record).length).take record.length = record := by
          rw [take_take, min_eq_left (h.length_footprint ▸ hfits), hsame]
        have hzeros : (buf.take (footprint record).length).drop record.length =
            (footprint record).drop record.length := by
          rw [drop_footprint, eq_replicate_iff]
          constructor
          · rw [length_drop, length_take, min_eq_left (not_lt.mp hshort), h.length_footprint]
          · exact isZero_iff.mp hpad
        have hfoot : buf.take (footprint record).length = footprint record := by
          have hsplit := take_append_drop record.length (buf.take (footprint record).length)
          rw [hmessage, hzeros, drop_footprint] at hsplit
          exact hsplit.symm
        have hbuf := take_append_drop (footprint record).length buf
        rw [hfoot] at hbuf
        exact hbuf.symm
      · right
        have hle : ¬ (footprint record).length < record.length := by
          rw [h.length_footprint]
          omega
        simp only [if_neg hle, hsum, Bool.not_false, if_true]
        split
        · exact ⟨_, fun _ => rfl⟩
        · exact ⟨_, fun _ => rfl⟩
  · -- a page of zeros is no header
    have hrep : buf.take pageSize = replicate pageSize 0 := by
      rw [eq_replicate_iff]
      exact ⟨hlength, isZero_iff.mp hhead⟩
    have hnone : unmarshalBase (replicate pageSize 0) = none := by decide +kernel
    rw [hrep, hnone]
    right
    simp only
    split
    · exact ⟨_, fun _ => rfl⟩
    · exact ⟨_, fun _ => rfl⟩

theorem detects_of_prefix {whole records : List Bytes} (h : whole <+: records) {buf : Bytes}
    (hdetect : SectorLog.detects records buf = true) : SectorLog.detects whole buf = true := by
  induction whole generalizing records buf with
  | nil => rfl
  | cons record whole ih =>
    obtain ⟨rest, rfl⟩ := h
    rw [cons_append, SectorLog.detects, Bool.and_eq_true] at hdetect
    rw [SectorLog.detects, Bool.and_eq_true]
    exact ⟨hdetect.1, ih (prefix_append _ _) hdetect.2⟩

variable {records : List Bytes}

/-- The scan of what crashes leave of a log: if it accepts, it returns the first records, all of
those in the part that was kept whole among them, and they take the first bytes of the file. -/
theorem scanFrom_pages (hok : ∀ record ∈ records, RecordOk record)
    {buf : Bytes} (hpages : Pages records buf) (hdetect : SectorLog.detects records buf = true)
    {durable : Nat} (hdurable : (logBytes records).take durable <+: buf) {fuel : Nat}
    (hfuel : buf.length < fuel) (offset : Nat) :
    ∃ result whole, scanFrom fuel offset buf = some result ∧ whole <+: records ∧
      wholeIn records durable <+: whole ∧ logBytes whole <+: buf ∧
      LaidOut offset result.records whole := by
  induction records generalizing buf durable fuel offset with
  | nil =>
    obtain _ | fuel := fuel
    · cases hfuel
    obtain rfl : buf = [] := hpages
    exact ⟨_, [], rfl, prefix_refl _, prefix_refl _, prefix_refl _, .nil⟩
  | cons record records ih =>
    obtain _ | fuel := fuel
    · cases hfuel
    have hrecord := hok record mem_cons_self
    obtain ⟨hhead, hpad, hrest⟩ := hpages
    rw [SectorLog.detects, Bool.and_eq_true, Bool.or_eq_true, beq_iff_eq,
      Bool.not_eq_true'] at hdetect
    rcases readOne_pages hrecord hhead hpad hdetect.1 with ⟨rest, rfl⟩ | ⟨reason, hend⟩
    · -- the record is there: go on behind it
      obtain ⟨shape, checksum, hshape, hshapeLen, hread⟩ := readOne_footprint hrecord offset rest
      have hpage := hrecord.pageSize_le
      have hpos := pageSize_pos
      rw [drop_left' rfl] at hrest hdetect
      have hkept : (logBytes records).take (durable - (footprint record).length) <+: rest := by
        by_cases hle : (footprint record).length ≤ durable
        · rw [logBytes_cons, take_append, take_of_length_le hle] at hdurable
          exact (prefix_append_right_inj _).mp hdurable
        · rw [Nat.sub_eq_zero_of_le (le_of_not_ge hle), take_zero]
          exact nil_prefix
      have hless : rest.length < fuel := by
        rw [length_append] at hfuel
        omega
      obtain ⟨result, whole, hscan, hwhole, hin, hbytes, hlaid⟩ :=
        ih (fun r hr => hok r (mem_cons_of_mem _ hr)) hrest hdetect.2 hkept hless
          (offset + shape.paddedLen)
      have hstep : scanFrom (fuel + 1) offset (footprint record ++ rest) =
          some { result with
            records := ⟨⟨offset, shape.msgId, shape.decree, record.length, shape.paddedLen,
              checksum⟩, footprint record⟩ :: result.records } := by
        simp only [scanFrom, hread, hscan, Option.map_some]
      refine ⟨_, record :: whole, hstep, cons_prefix_cons.mpr ⟨rfl, hwhole⟩, ?_, ?_,
        .cons hshape hshapeLen hlaid⟩
      · rw [wholeIn]
        split
        · exact cons_prefix_cons.mpr ⟨rfl, hin⟩
        · exact nil_prefix
      · rw [logBytes_cons]
        exact (prefix_append_right_inj _).mpr hbytes
    · -- the scan ends, so the record is not in the part that was kept whole
      refine ⟨⟨reason, offset, []⟩, [], ?_, nil_prefix, ?_, nil_prefix, .nil⟩
      · simp only [scanFrom, hend]
      · have hnot : ¬ (footprint record).length ≤ durable := by
          intro hle
          have hfoot : footprint record <+: buf := by
            apply IsPrefix.trans _ hdurable
            rw [logBytes_cons, take_append, take_of_length_le hle]
            exact prefix_append _ _
          obtain ⟨rest, rfl⟩ := hfoot
          obtain ⟨shape, checksum, -, -, hread⟩ := readOne_footprint hrecord offset rest
          rw [hend] at hread
          cases hread
        rw [wholeIn, if_neg hnot]

/-! ## The invariant -/

/-- The records `whole` were written, and crashes have left the content of the log of them. -/
structure SectorLog.Left (s : SectorLog) (whole : List Bytes) : Prop where
  front : whole <+: s.appended
  ok : ∀ record ∈ whole, RecordOk record
  pages : Pages whole s.content
  detects : detects whole s.content = true
  durable : (logBytes whole).take s.durable <+: s.content
  durable_le : s.durable ≤ s.content.length

/-- What holds while a writer is open: nothing is torn, and the writer stands at the end. -/
structure SectorLog.Opened (s : SectorLog) (writer : LogWriter) : Prop where
  ok : ∀ record ∈ s.appended, RecordOk record
  content : s.content = logBytes s.appended
  dataLen : writer.index.dataLen = s.content.length
  position : writer.position = s.content.length
  durable_le : s.durable ≤ s.content.length

/-- The invariant of a run. -/
structure SectorLog.Inv (s : SectorLog) : Prop where
  left : ∃ whole, s.Left whole
  pos : ∀ record ∈ s.appended, 0 < record.length
  opened : ∀ writer, s.writer = some writer → s.Opened writer

theorem detects_logBytes :
    SectorLog.detects records (logBytes records) = true := by
  induction records with
  | nil => rfl
  | cons record records ih =>
    rw [SectorLog.detects, logBytes_cons, drop_left' rfl, ih, footprint, append_assoc,
      take_left' rfl]
    simp

/-- Records that are written and not torn. -/
theorem left_of_content {s : SectorLog} {whole : List Bytes} (hfront : whole <+: s.appended)
    (hok : ∀ record ∈ whole, RecordOk record) (hcontent : s.content = logBytes whole)
    (hle : s.durable ≤ s.content.length) : s.Left whole where
  front := hfront
  ok := hok
  pages := hcontent ▸ pages_logBytes hok
  detects := hcontent ▸ detects_logBytes
  durable := hcontent ▸ take_prefix _ _
  durable_le := hle

theorem wholeIn_zero (hpos : ∀ record ∈ records, 0 < record.length) :
    wholeIn records 0 = [] := by
  cases records with
  | nil => rfl
  | cons record records =>
    rw [wholeIn, if_neg]
    have := hpos record mem_cons_self
    rw [footprint, length_append]
    omega

/-- Records whose bytes lie behind the part that was kept whole do not count as flushed. -/
theorem wholeIn_of_prefix {whole records : List Bytes} (h : whole <+: records)
    (hpos : ∀ record ∈ records, 0 < record.length) {n : Nat} (hn : n ≤ (logBytes whole).length) :
    wholeIn records n = wholeIn whole n := by
  induction whole generalizing records n with
  | nil =>
    obtain rfl : n = 0 := Nat.le_zero.mp hn
    exact wholeIn_zero hpos
  | cons record whole ih =>
    obtain ⟨rest, rfl⟩ := h
    rw [cons_append, wholeIn, wholeIn]
    split
    · rw [ih (prefix_append _ _) (fun r hr => hpos r (mem_cons_of_mem _ hr))]
      rw [logBytes_cons, length_append] at hn
      omega
    · rfl

namespace SectorLog

variable {s : SectorLog} {whole : List Bytes}

/-- The scan of what is left. -/
theorem Left.scanned (h : s.Left whole) :
    ∃ result read, scan s.content = some result ∧ read <+: whole ∧
      wholeIn whole s.durable <+: read ∧ logBytes read <+: s.content ∧
      LaidOut 0 result.records read :=
  scanFrom_pages h.ok h.pages h.detects h.durable (lt_add_one _) 0

/-- The invariant says what recovery owes. -/
theorem Inv.recovers (h : s.Inv) : s.Recovers := by
  constructor
  · intro result hscan _
    obtain ⟨whole, hleft⟩ := h.left
    obtain ⟨result', read, hscan', hread, hin, -, hlaid⟩ := hleft.scanned
    cases hscan'.symm.trans hscan
    rw [hlaid.messages_eq, flushed,
      wholeIn_of_prefix hleft.front h.pos (hleft.durable_le.trans hleft.pages.length_le)]
    exact ⟨hread.trans hleft.front, hin⟩
  · intro hopen
    obtain ⟨writer, hwriter⟩ := Option.isSome_iff_exists.mp hopen
    obtain ⟨hok, hcontent, -⟩ := h.opened writer hwriter
    have hend : ∀ offset, readOne offset [] = .ended .eof := fun _ => rfl
    obtain ⟨read, hscan, hlaid⟩ := scanFrom_logBytes hok hend (lt_add_one _) 0
    rw [append_nil, ← hcontent] at hscan
    exact ⟨_, hscan, rfl, hlaid.messages_eq⟩

/-! ## One event -/

/-- What a crash leaves of what was left. -/
theorem Left.crash (h : s.Left whole) {kept : Nat → Bool} {size : Nat}
    (hdetect : SectorLog.detects s.appended (s.crashed kept size) = true) :
    (s.step (.crash kept size)).Left whole := by
  have hle := h.durable_le
  refine ⟨h.front, h.ok, ?_, detects_of_prefix h.front hdetect, ?_, ?_⟩
  · exact (h.pages.tear h.ok _).take h.ok _
  · -- every sector with a durable byte is kept
    have hkept : (tear sectorSize (s.surviving kept) s.content).take s.durable =
        s.content.take s.durable := by
      rw [take_tear]
      apply tear_of_kept
      intro i hi
      rw [length_take] at hi
      rw [surviving, Bool.or_eq_true, decide_eq_true_eq]
      left
      exact (Nat.div_mul_le_self i sectorSize).trans_lt (by omega)
    have hsame : (logBytes whole).take s.durable <+: s.content.take s.durable := by
      rw [prefix_take_iff]
      exact ⟨h.durable, by rw [length_take]; exact min_le_left _ _⟩
    change _ <+: s.crashed kept size
    rw [crashed]
    apply (hkept ▸ hsame).trans
    rw [prefix_take_iff]
    exact ⟨ take_prefix _ _, by rw [length_take, length_tear]; omega⟩
  · change s.durable ≤ (s.crashed kept size).length
    rw [crashed, length_take, length_tear]
    omega

variable {writer : LogWriter}

theorem length_pos_of_scanAccepts {record : Bytes} (h : scanAccepts record = true) :
    0 < record.length := by
  simp only [scanAccepts, verifyChecksum, Bool.and_eq_true, decide_eq_true_eq] at h
  omega

/-- `open_with` on what is left: the records that the scan returned and nothing else. -/
theorem Left.reopen (h : s.Left whole) {result : ScanResult} (hscan : scan s.content = some result)
    {ops : List DiskOp} (hopen : openWith (some ⟨s.content, s.content, true⟩) = (ops, .ok writer)) :
    (∀ record ∈ result.records.map Record.messageBytes, RecordOk record) ∧
      applyOps ops s.content = logBytes (result.records.map Record.messageBytes) ∧
      writer.index.dataLen = (applyOps ops s.content).length ∧
      writer.position = (applyOps ops s.content).length ∧
      writer.durableLen = (applyOps ops s.content).length := by
  obtain ⟨result', read, hscan', hread, -, hbytes, hlaid⟩ := h.scanned
  cases hscan'.symm.trans hscan
  rcases openWith_spec hscan hlaid.bytes_eq hbytes hopen with
    ⟨-, e, herror⟩ | ⟨⟨index, hok, hlen⟩, hrun, -⟩
  · cases herror
  cases hok
  have hcut : applyOps ops s.content = logBytes read := by
    rw [applyOps, hrun]
  rw [hlaid.messages_eq, hcut]
  exact ⟨fun record hr => h.ok record (hread.subset hr), rfl, hlen, hlen, hlen⟩

theorem inv_init : Inv {} where
  left := ⟨[], left_of_content (prefix_refl _) (by simp) rfl le_rfl⟩
  pos := by simp
  opened := by
    intro writer hwriter
    cases hwriter
    exact ⟨by simp, rfl, rfl, rfl, le_rfl⟩

/-- A log that is open and not torn. -/
theorem inv_of_opened (h : s.Opened writer) (hwriter : s.writer = some writer) :
    s.Inv where
  left := ⟨s.appended, left_of_content (prefix_refl _) h.ok h.content h.durable_le⟩
  pos := fun record hr => (h.ok record hr).length_pos
  opened := by
    intro writer' hwriter'
    cases hwriter'.symm.trans hwriter
    exact h

/-- `append_unsynced` keeps the invariant. -/
theorem Inv.append (h : s.Inv) {records : List Bytes}
    (haccepts : ∀ record ∈ records, scanAccepts record = true) :
    (s.step (.append records)).Inv := by
  rw [SectorLog.step]
  cases hwriter : s.writer with
  | none => exact h
  | some writer =>
    have hopened := h.opened writer hwriter
    rcases happend : appendUnsynced writer records with ⟨ops, outcome⟩
    simp only [happend]
    rcases appendUnsynced_spec haccepts happend with
      ⟨-, e, rfl⟩ | ⟨more, hmore, hok, hrun, _, index, -, hdone⟩
    · exact h
    have hcontent : applyOps ops s.content = logBytes (s.appended ++ more) := by
      rw [applyOps, (hrun ⟨s.content, s.content, true⟩ hopened.position).1, logBytes_append,
        hopened.content]
    have hall : ∀ record ∈ s.appended ++ more, RecordOk record :=
      forall_mem_append.mpr ⟨hopened.ok, hok⟩
    have hgrows : s.durable ≤ (applyOps ops s.content).length := by
      have hle := hopened.durable_le
      rw [hopened.content] at hle
      rw [hcontent, logBytes_append, length_append]
      omega
    rcases hdone with rfl | ⟨hdata, rfl, rfl⟩
    · -- the process ends with the first records of the batch written
      refine ⟨⟨s.appended ++ more, left_of_content ?_ hall hcontent hgrows⟩, ?_, ?_⟩
      · exact (prefix_append_right_inj _).mpr hmore
      · exact forall_mem_append.mpr
          ⟨h.pos, fun record hr => length_pos_of_scanAccepts (haccepts record hr)⟩
      · intro writer hnone
        cases hnone
    · have hlen : (applyOps ops s.content).length = s.content.length + (logBytes more).length := by
        rw [hcontent, logBytes_append, length_append, ← hopened.content]
      apply inv_of_opened _ rfl
      refine ⟨hall, hcontent, ?_, ?_, hgrows⟩
      · rw [hdata, hopened.dataLen]
        exact hlen.symm
      · rw [hopened.position]
        exact hlen.symm

/-- `sync` keeps the invariant. -/
theorem Inv.sync (h : s.Inv) : (s.step .sync).Inv := by
  rw [SectorLog.step]
  cases hwriter : s.writer with
  | none => exact h
  | some writer =>
    have hopened := h.opened writer hwriter
    apply @inv_of_opened _ (syncWriter writer).2 _ rfl
    have hindex : (syncWriter writer).2.index = writer.index := by
      rw [syncWriter]
      split <;> rfl
    have hposition : (syncWriter writer).2.position = writer.position := by
      rw [syncWriter]
      split <;> rfl
    refine ⟨hopened.ok, hopened.content, ?_, ?_, ?_⟩
    · rw [hindex]
      exact hopened.dataLen
    · rw [hposition]
      exact hopened.position
    · simp only
      split
      · exact hopened.durable_le
      · exact le_rfl

/-- A reopen keeps the invariant. -/
theorem Inv.reopen (h : s.Inv) (settled : Bool) : (s.step (.reopen settled)).Inv := by
  obtain ⟨whole, hleft⟩ := h.left
  rw [SectorLog.step]
  split
  · next result ops writer hwriter hscan hopen =>
    obtain ⟨hok, hcontent, hdata, hpos, -⟩ := hleft.reopen hscan hopen
    apply @inv_of_opened _ writer _ rfl
    refine ⟨hok, hcontent, hdata, hpos, ?_⟩
    simp only
    split
    · exact le_rfl
    · exact min_le_right _ _
  · exact h

/-- One event keeps the invariant. -/
theorem Inv.step (h : s.Inv) {event : SectorEvent} (hdetect : s.detected event = true)
    (hguard : guarded event = true) : (s.step event).Inv := by
  cases event with
  | append records => exact h.append (all_eq_true.mp hguard)
  | sync => exact h.sync
  | crash kept size =>
    obtain ⟨whole, hleft⟩ := h.left
    refine ⟨⟨whole, hleft.crash hdetect⟩, h.pos, ?_⟩
    intro writer hnone
    cases hnone
  | reopen settled => exact h.reopen settled

/-- A whole run keeps the invariant. -/
theorem Inv.run (h : s.Inv) {events : List SectorEvent} (hguard : s.AllGuarded events) :
    (s.run events).Inv := by
  induction events generalizing s with
  | nil => exact h
  | cons event events ih =>
    obtain ⟨hdetect, hevent, hrest⟩ := hguard
    exact ih (h.step hdetect hevent) hrest

/-- At every point of a run whose records pass the checks of the scan, and whose crashes alter no
record without its checksum telling, recovery returns what it owes. -/
theorem run_recovers_sectors (events : List SectorEvent) (h : AllGuarded {} events) :
    (run {} events).Recovers :=
  (inv_init.run h).recovers

end SectorLog

/-! ## Runs -/

namespace Example

/-- A record is flushed, a crash loses the one behind it, and a record is appended after the
reopen. -/
def lostSector : List SectorEvent :=
  [.append [voteOne], .sync, .append [voteOne], .crash (fun _ => false) 1024, .reopen true,
    .append [voteOne]]

/-- A record that is not what its checksum says is flushed whole, and the crash keeps it. -/
def flippedSync : List SectorEvent :=
  [.append [flippedVote], .sync, .crash (fun _ => true) 512]

end Example

open Storage.Example SectorLog

theorem run_recovers_lostSector :
    AllGuarded {} lostSector ∧ (SectorLog.run {} lostSector).appended = [voteOne, voteOne] ∧
      (SectorLog.run {} lostSector).Recovers :=
  have h : AllGuarded {} lostSector := by
    refine ⟨?_, ?_, ?_, ?_, ?_, ?_, ?_, ?_, ?_, ?_, ?_, ?_, trivial⟩ <;> decide +kernel
  ⟨h, by decide +kernel, run_recovers_sectors lostSector h⟩

/-- A record that was flushed whole and that the scan, which accepts the file, does not return. -/
theorem not_recovers_flippedVote :
    (SectorLog.run {} flippedSync).flushed = [flippedVote] ∧
      detected (SectorLog.run {} [.append [flippedVote], .sync]) (.crash (fun _ => true) 512) =
        true ∧
      ¬ (SectorLog.run {} flippedSync).Recovers := by
  have hflushed : (SectorLog.run {} flippedSync).flushed = [flippedVote] := by decide +kernel
  refine ⟨hflushed, by decide +kernel, ?_⟩
  intro h
  obtain ⟨result, hscan, hresult⟩ := Option.map_eq_some_iff.mp
    (by decide +kernel : (scan (SectorLog.run {} flippedSync).content).map
      (fun result => (result.ending.recoverable, result.records)) = some (true, []))
  obtain ⟨hrec, hrecords⟩ := Prod.mk.inj hresult
  obtain ⟨-, hmissing⟩ := h.accepted result hscan hrec
  rw [hflushed, hrecords] at hmissing
  exact absurd (prefix_nil.mp hmissing) (by simp)

end Rsl.Storage
