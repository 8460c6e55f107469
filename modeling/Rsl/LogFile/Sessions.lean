import Rsl.Cpp.BallotOrder
import Rsl.LogFile.FetchVotes
import Rsl.Restore

/-!
# The log in sessions

`RestoreState` on one log file and without a checkpoint: what `ReadNextMessage` returns is put into
the index of the file (`AddMessage`), its length is checked against the bytes read, and it is
replayed (`replayRecord`). Each of the three asserts something about the message, and a failed
assertion ends the process. A session is a recovery, appends at the write pointer, and a crash.
Recovery moves the write pointer to the end of the records it read and leaves the bytes behind it in
the file.

`recover_run` says that every recovery returns the completed appends, and the record in flight when
all its pages persisted, in every sequence of sessions that append what the replay accepts and each
of which overwrites what the previous ones left behind its write pointer, up to zeros.
`recover_stale` is a run where a session does not.
-/

set_option autoImplicit false

namespace Rsl.LogFile

open Wire Lib
open List hiding set

/-! ## Messages as records -/

def ballotOf (ballot : Wire.BallotNumber) : Rsl.BallotNumber :=
  ⟨ballot.ballotId, ballot.memberId.number⟩

def headerOf (header : Wire.Header) : Rsl.Header :=
  ⟨header.memberId.number, header.decree, header.configurationNumber, ballotOf header.ballot⟩

/-- A message of a log as a record. -/
def recordOf : Msg → Option (Record Bytes)
  | .vote vote => some (.vote
      { toHeader := headerOf vote.header
        requests := vote.requests
        reconfiguration := vote.membersInNewConfiguration.map fun set =>
          set.members.map fun node => node.memberId.number
        relinquishPrimary := vote.relinquishPrimary })
  | .prepare prepare => some (.prepare (headerOf prepare.header))
  | .base header => some (.reconfigurationDecision (headerOf header))
  | _ => none

/-- `GetMarshalLen` of a message of a log. A vote keeps the bytes it was read from. -/
def getMarshalLen : Msg → Nat
  | .vote vote => vote.header.unMarshalLen
  | .prepare prepare =>
    ((if prepare.header.version.raw ≥ 2 then (prepare.primaryCookie.length + 4) % u32Size else 0) +
      Header.baseSize prepare.header.version) % u32Size
  | .base header => Header.baseSize header.version
  | _ => 0

/-! ## Recovery -/

/-- What the loop of `RestoreState` keeps. -/
structure Restored where
  index : LogIndex
  replay : Replay Bytes

namespace Restored

/-- Without a checkpoint, before the first message. -/
def start (memberId : Nat) : Restored := ⟨{}, Replay.start memberId⟩

/-- The loop on one message; `none` is a failed assertion. -/
def add (restored : Restored) (message : Bytes) : Option Restored := do
  let msg ← unMarshalMessage message
  let record ← recordOf msg
  let index ← restored.index.addMessage message
  -- `log->m_dataLen == reader.BytesRead()`, where both were equal before the message
  guard (roundUpToPage (getMarshalLen msg) = roundUpToPage message.length)
  let replay ← replayRecord restored.replay record
  -- ballot ids are of 32 bits
  let ballot := replay.maxBallot
  return ⟨index, { replay with maxBallot := ⟨ballot.ballotId % u32Size, ballot.memberId⟩ }⟩

/-- The assertion behind the loop. -/
def settled (restored : Restored) : Bool :=
  decide (restored.replay.lastExecutedDecree = 0 ∨
    restored.replay.lastExecutedDecree + 1 = restored.replay.maxAcceptedVote.decree)

end Restored

/-- The loop of `RestoreState` over one log file. -/
def restoreFrom : Nat → Bytes → Restored → Option (List Bytes × Restored)
  | 0, _, restored => some ([], restored)
  | fuel + 1, stream, restored =>
    match readNextMessage stream with
    | .finished => some ([], restored)
    | .failed => none
    | .message bytes rest => do
      let next ← restored.add bytes
      let (messages, last) ← restoreFrom fuel rest next
      return (bytes :: messages, last)

/-- `RestoreState` of the member `memberId`: the messages that were read, and `m_dataLen`, where
`SetWritePointer` puts the write pointer. -/
def restore (memberId : Nat) (file : Bytes) : Option (List Bytes × Nat) := do
  let (messages, restored) ← restoreFrom (file.length + 1) file (.start memberId)
  guard restored.settled
  return (messages, restored.index.dataLen)

/-! ## Sessions -/

/-- The record whose append a crash interrupts, and how many of its pages reached the disk. -/
structure InFlight where
  record : LogRecord
  pages : Nat

namespace InFlight

/-- The bytes that reached the disk. -/
def persisted (inFlight : InFlight) : Bytes :=
  inFlight.record.bytes.take (pageSize * inFlight.pages)

/-- Did all pages reach the disk? -/
def complete (inFlight : InFlight) : Bool :=
  decide (inFlight.record.bytes.length ≤ pageSize * inFlight.pages)

end InFlight

/-- One session after a recovery: the appends that completed, and the one that the crash
interrupted. -/
structure Session where
  appended : List LogRecord
  inFlight : Option InFlight

namespace Session

/-- The bytes a session leaves on disk from its first write pointer on. -/
def persisted (session : Session) : Bytes :=
  logBytes session.appended ++
    match session.inFlight with
    | none => []
    | some inFlight => inFlight.persisted

/-- The records of a session that a recovery has to return. -/
def survivors (session : Session) : List LogRecord :=
  session.appended ++
    match session.inFlight with
    | none => []
    | some inFlight => if inFlight.complete then [inFlight.record] else []

/-- `LogFile::WriteMessage` and `AddMessage`: write at `m_dataLen` and advance it. -/
def append (log : Bytes × Nat) (bytes : Bytes) : Bytes × Nat :=
  (writeAt log.1 log.2 bytes, log.2 + bytes.length)

/-- The file after a session on it: recovery, the completed appends, and the persisted pages of the
record in flight. A replica whose recovery fails does not start. -/
def crash (memberId : Nat) (file : Bytes) (session : Session) : Bytes :=
  match restore memberId file with
  | none => file
  | some (_, dataLen) =>
    let log := (session.appended.map LogRecord.bytes).foldl append (file, dataLen)
    match session.inFlight with
    | none => log.1
    | some inFlight => (append log inFlight.persisted).1

end Session

/-- The file after a sequence of sessions. -/
def run (memberId : Nat) (file : Bytes) (sessions : List Session) : Bytes :=
  sessions.foldl (Session.crash memberId) file

/-! ## Conditions on a session -/

namespace Session

variable (memberId : Nat) (file : Bytes) (session : Session)

/-- The write pointer of a session. -/
def writePointer : Nat := ((restore memberId file).map Prod.snd).getD 0

/-- Every byte behind what the session leaves on disk is zero: either the file ends there, or what
an earlier session left behind its write pointer is overwritten up to zeros. -/
def overwrites : Bool :=
  verifyZeroStream (file.drop (writePointer memberId file + session.persisted.length))

/-- The checksum detects the torn record of the session: the bytes at its place in the file do not
verify. -/
def detected : Bool :=
  match session.inFlight with
  | none => true
  | some inFlight =>
    decide (inFlight.pages = 0) || inFlight.complete ||
      !verifyChecksum (((crash memberId file session).drop
        (writePointer memberId file + (logBytes session.appended).length)).take
          inFlight.record.message.length)

end Session

/-- The assertions of `RestoreState` hold for the messages of the records. -/
def accepted (memberId : Nat) (records : List LogRecord) : Bool :=
  ((records.map LogRecord.message).foldlM Restored.add (.start memberId)).any Restored.settled

section

variable (memberId : Nat)

/-- The checksum detects every torn record of a run. -/
def AllDetected : Bytes → List Session → Prop
  | _, [] => True
  | file, session :: sessions =>
    session.detected memberId file = true ∧ AllDetected (session.crash memberId file) sessions

/-- Every session of a run overwrites what it found behind its write pointer. -/
def AllOverwrite : Bytes → List Session → Prop
  | _, [] => True
  | file, session :: sessions =>
    session.overwrites memberId file = true ∧ AllOverwrite (session.crash memberId file) sessions

/-- The records that every crash of a run leaves behind `records` are ones that the assertions of
`RestoreState` allow. -/
def AllAccepted : List LogRecord → List Session → Prop
  | records, [] => accepted memberId records = true
  | records, session :: sessions =>
    accepted memberId records = true ∧ AllAccepted (records ++ session.survivors) sessions

end

/-! ## Recovery of records -/

/-- The ballots of the records are ordered as those of the messages. -/
theorem ballotOf_lt_iff {a b : Wire.BallotNumber} (ha : 0 ∉ a.memberId.value)
    (hb : 0 ∉ b.memberId.value) : ballotOf a < ballotOf b ↔ a.cmp b = .lt := by
  rw [BallotNumber.lt_iff, Wire.BallotNumber.cmp, ← Cpp.compare_number ha hb]
  simp only [ballotOf, Ordering.then_eq_lt, Nat.compare_eq_lt, Nat.compare_eq_eq]

/-- The loop reads what `recoverFrom` reads, and fails besides where an assertion fails. -/
theorem restoreFrom_eq (fuel : Nat) (stream : Bytes) (restored : Restored) :
    restoreFrom fuel stream restored = (recoverFrom fuel stream).bind fun messages =>
      (messages.foldlM Restored.add restored).map fun last => (messages, last) := by
  induction fuel generalizing stream restored with
  | zero => rfl
  | succ fuel ih =>
    rw [restoreFrom, recoverFrom]
    cases readNextMessage stream with
    | finished => rfl
    | failed => rfl
    | message bytes rest =>
      dsimp only
      cases hadd : restored.add bytes with
      | none =>
        cases recoverFrom fuel rest with
        | none => rfl
        | some messages => simp [foldlM_cons, hadd]
      | some next =>
        simp only [Option.bind_eq_bind, Option.bind_some, ih]
        cases recoverFrom fuel rest with
        | none => rfl
        | some messages =>
          simp only [Option.bind_some, Option.map_some, foldlM_cons, hadd, Option.bind_eq_bind]
          cases messages.foldlM Restored.add next <;> rfl

/-- Every message of the loop takes its pages. -/
theorem dataLen_add {restored next : Restored} {message : Bytes}
    (h : restored.add message = some next) :
    next.index.dataLen = restored.index.dataLen + roundUpToPage message.length := by
  simp only [Restored.add, Option.bind_eq_bind, Option.bind_eq_some_iff] at h
  obtain ⟨msg, -, record, -, index, hindex, -, -, replay, -, h⟩ := h
  cases h
  exact (LogIndex.addMessage_cases hindex).1

theorem dataLen_foldlM {messages : List Bytes} {restored last : Restored}
    (h : messages.foldlM Restored.add restored = some last) :
    last.index.dataLen = restored.index.dataLen + dataLen messages := by
  induction messages generalizing restored with
  | nil =>
    cases h
    rfl
  | cons message messages ih =>
    rw [foldlM_cons] at h
    obtain ⟨next, hnext, h⟩ := Option.bind_eq_some_iff.mp h
    rw [ih h, dataLen_add hnext, Nat.add_assoc]
    rfl

/-- The invariant between sessions: the surviving records, then pages at which reading ends. -/
structure Recoverable (file : Bytes) (records : List LogRecord) (tail : Bytes) : Prop where
  file_eq : file = logBytes records ++ tail
  finished : readNextMessage tail = .finished
  pages : pageSize ∣ tail.length

variable {memberId : Nat} {file : Bytes} {records : List LogRecord} {tail : Bytes}

namespace Recoverable

/-- Recovery returns the records if the replay accepts them. -/
theorem restore_eq (h : Recoverable file records tail)
    (haccept : accepted memberId records = true) :
    restore memberId file = some (records.map LogRecord.message, (logBytes records).length) := by
  obtain ⟨restored, hrestored, hsettled⟩ := Option.any_eq_true _ _ |>.mp haccept
  have hrecover : recover file = some (records.map LogRecord.message) := by
    rw [h.file_eq]
    exact recover_logBytes records h.finished
  have hlen := dataLen_foldlM hrestored
  rw [dataLen_messages] at hlen
  rw [restore, restoreFrom_eq, ← recover, hrecover, Option.bind_some, hrestored]
  simp [hsettled, hlen, Restored.start]

theorem writePointer_eq (h : Recoverable file records tail)
    (haccept : accepted memberId records = true) :
    Session.writePointer memberId file = (logBytes records).length := by
  rw [Session.writePointer, h.restore_eq haccept, Option.map_some, Option.getD_some]

end Recoverable

/-- Completed appends overwrite the file from the write pointer on. -/
theorem foldl_append (front back : Bytes) (appended : List LogRecord) :
    (appended.map LogRecord.bytes).foldl Session.append (front ++ back, front.length) =
      (front ++ logBytes appended ++ back.drop (logBytes appended).length,
        (front ++ logBytes appended).length) := by
  induction appended generalizing front back with
  | nil => simp [logBytes]
  | cons record appended ih =>
    rw [map_cons, foldl_cons, Session.append, writeAt_append, ← length_append, ih, logBytes_cons]
    simp only [append_assoc, drop_drop, length_append]

section

variable (h : Recoverable file records tail) (haccept : accepted memberId records = true)

include h haccept

/-- The file after a session: the whole records, what the session left on disk, and the rest of
what was behind the write pointer. -/
theorem crash_eq (session : Session) :
    session.crash memberId file =
      logBytes records ++ session.persisted ++ tail.drop session.persisted.length := by
  rw [Session.crash, h.restore_eq haccept]
  dsimp only
  rw [h.file_eq, foldl_append, Session.persisted]
  cases session.inFlight with
  | none => simp
  | some inFlight =>
    simp only [Session.append]
    rw [writeAt_append, drop_drop, length_append]
    simp only [append_assoc]

/-- The part of the old tail that a session does not overwrite: zeros in whole pages. -/
theorem Recoverable.rest {session : Session}
    (hover : session.overwrites memberId file = true)
    (hpages : pageSize ∣ session.persisted.length) :
    verifyZeroStream (tail.drop session.persisted.length) = true ∧
      pageSize ∣ (tail.drop session.persisted.length).length := by
  constructor
  · rw [Session.overwrites, h.writePointer_eq haccept, h.file_eq, drop_append,
      drop_eq_nil_of_le le_self_add, add_tsub_cancel_left, nil_append] at hover
    exact hover
  · rw [length_drop]
    exact Nat.dvd_sub h.pages hpages

/-- A session that leaves whole records, which are those that survive it. -/
theorem Recoverable.crash_whole {session : Session}
    (hover : session.overwrites memberId file = true)
    (hpersisted : session.persisted = logBytes session.survivors) :
    ∃ tail', Recoverable (session.crash memberId file) (records ++ session.survivors) tail' := by
  have hpages : pageSize ∣ session.persisted.length := hpersisted ▸ pageSize_dvd_logBytes _
  obtain ⟨hzero, hrest⟩ := h.rest haccept hover hpages
  refine ⟨tail.drop session.persisted.length, ?_, readNextMessage_zeros hzero hrest, hrest⟩
  rw [crash_eq h haccept session, logBytes_append, hpersisted]

/-- A session that leaves some pages of its last record, which the checksum does not verify. -/
theorem Recoverable.crash_torn {session : Session} {inFlight : InFlight}
    (hover : session.overwrites memberId file = true)
    (hdetect : session.detected memberId file = true) (hin : session.inFlight = some inFlight)
    (hcomplete : inFlight.complete = false) (hpages : inFlight.pages ≠ 0) :
    ∃ tail', Recoverable (session.crash memberId file) (records ++ session.appended) tail' := by
  have htorn : pageSize * inFlight.pages < inFlight.record.bytes.length := by
    simpa [InFlight.complete] using hcomplete
  have hpersisted : session.persisted = logBytes session.appended ++ inFlight.persisted := by
    simp [Session.persisted, hin]
  have hlength : inFlight.persisted.length = pageSize * inFlight.pages := by
    rw [InFlight.persisted, length_take]
    omega
  have hwhole : pageSize ∣ session.persisted.length := by
    rw [hpersisted, length_append, hlength]
    exact Nat.dvd_add (pageSize_dvd_logBytes _) (Nat.dvd_mul_right _ _)
  obtain ⟨hzero, hrest⟩ := h.rest haccept hover hwhole
  have hfile : session.crash memberId file = logBytes (records ++ session.appended) ++
      (inFlight.persisted ++ tail.drop session.persisted.length) := by
    rw [crash_eq h haccept session, hpersisted, logBytes_append]
    simp only [append_assoc]
  have hverify : verifyChecksum ((inFlight.persisted ++
      tail.drop session.persisted.length).take inFlight.record.message.length) = false := by
    simp only [Session.detected, hin, hpages, decide_false, Bool.false_or, hcomplete,
      Bool.not_eq_true'] at hdetect
    rwa [hfile, h.writePointer_eq haccept, ← length_append, ← logBytes_append,
      drop_left' rfl] at hdetect
  refine ⟨inFlight.persisted ++ tail.drop session.persisted.length, hfile, ?_, ?_⟩
  · exact readNextMessage_torn inFlight.record (Nat.pos_of_ne_zero hpages) htorn hzero hverify
  · rw [length_append, hlength]
    exact Nat.dvd_add (Nat.dvd_mul_right _ _) hrest

/-- One session keeps the invariant, with the records that survive it. -/
theorem Recoverable.crash {session : Session}
    (hover : session.overwrites memberId file = true)
    (hdetect : session.detected memberId file = true) :
    ∃ tail', Recoverable (session.crash memberId file) (records ++ session.survivors) tail' := by
  cases hin : session.inFlight with
  | none =>
    apply h.crash_whole haccept hover
    simp [Session.persisted, Session.survivors, hin]
  | some inFlight =>
    cases hcomplete : inFlight.complete with
    | true =>
      have hall : inFlight.persisted = inFlight.record.bytes :=
        take_of_length_le (of_decide_eq_true hcomplete)
      apply h.crash_whole haccept hover
      simp [Session.persisted, Session.survivors, hin, hcomplete, hall, logBytes]
    | false =>
      have hsurvivors : session.survivors = session.appended := by
        simp [Session.survivors, hin, hcomplete]
      by_cases hpages : inFlight.pages = 0
      · apply h.crash_whole haccept hover
        simp [Session.persisted, hsurvivors, hin, InFlight.persisted, hpages]
      · rw [hsurvivors]
        exact h.crash_torn haccept hover hdetect hin hcomplete hpages

end

/-- A whole run keeps the invariant, and its records are accepted. -/
theorem Recoverable.run {sessions : List Session} (h : Recoverable file records tail)
    (hover : AllOverwrite memberId file sessions) (hdetect : AllDetected memberId file sessions)
    (haccept : AllAccepted memberId records sessions) :
    accepted memberId (records ++ sessions.flatMap Session.survivors) = true ∧
      ∃ tail', Recoverable (LogFile.run memberId file sessions)
        (records ++ sessions.flatMap Session.survivors) tail' := by
  induction sessions generalizing file records tail with
  | nil =>
    rw [flatMap_nil, append_nil]
    exact ⟨haccept, tail, h⟩
  | cons session sessions ih =>
    obtain ⟨tail', h'⟩ := h.crash haccept.1 hover.1 hdetect.1
    rw [flatMap_cons, ← append_assoc]
    exact ih h' hover.2 hdetect.2 haccept.2

/-- Every recovery of a run returns the completed appends and the whole records in flight, in
order, when the checksum detects the torn records, no session leaves old bytes other than zeros
behind what it wrote, and the records are ones that the replay accepts. -/
theorem recover_run (memberId : Nat) (sessions : List Session)
    (hdetect : AllDetected memberId [] sessions) (hover : AllOverwrite memberId [] sessions)
    (haccept : AllAccepted memberId [] sessions) :
    (restore memberId (run memberId [] sessions)).map Prod.fst =
      some ((sessions.flatMap Session.survivors).map LogRecord.message) := by
  have hinit : Recoverable [] [] [] := ⟨rfl, rfl, Nat.dvd_zero _⟩
  obtain ⟨haccepted, tail, h⟩ := hinit.run hover hdetect haccept
  rw [h.restore_eq haccepted, Option.map_some, nil_append]

/-! ## Runs -/

namespace Example

/-- A record torn after its first page, which the next session overwrites. -/
def overwritten : List Session :=
  [⟨[smallVote], some ⟨largeVote, 1⟩⟩, ⟨[largeVote], none⟩]

/-- A record torn after its second page, of which the next session overwrites the first only. -/
def stale : List Session := [⟨[], some ⟨largeVote, 2⟩⟩, ⟨[smallVote], none⟩]

end Example

open LogFile.Example

theorem recover_run_overwritten :
    AllDetected 1 [] overwritten ∧ AllOverwrite 1 [] overwritten ∧ AllAccepted 1 [] overwritten ∧
      (restore 1 (run 1 [] overwritten)).map Prod.fst =
        some ((overwritten.flatMap Session.survivors).map LogRecord.message) :=
  have hdetect : AllDetected 1 [] overwritten :=
    ⟨by decide +kernel, by decide +kernel, trivial⟩
  have hover : AllOverwrite 1 [] overwritten := ⟨by decide +kernel, by decide +kernel, trivial⟩
  have haccept : AllAccepted 1 [] overwritten :=
    ⟨by decide +kernel, by decide +kernel, show accepted 1 _ = true by decide +kernel⟩
  ⟨hdetect, hover, haccept, recover_run 1 overwritten hdetect hover haccept⟩

/-- A completed append is followed by the second page of an older torn record, which is no header
and not zero, so the recovery fails. -/
theorem recover_stale :
    AllDetected 1 [] stale ∧ AllAccepted 1 [] stale ∧ restore 1 (run 1 [] stale) = none :=
  ⟨⟨by decide +kernel, by decide +kernel, trivial⟩,
    ⟨by decide +kernel, by decide +kernel, show accepted 1 _ = true by decide +kernel⟩,
    by decide +kernel⟩

end Rsl.LogFile
