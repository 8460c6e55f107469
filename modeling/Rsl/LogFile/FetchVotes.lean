import Rsl.Lib.LastTable
import Rsl.LogFile

/-!
# Serving logs to a learner

`BuildLearnServerState` and `ServeLearnRequest` stream the log files of a replica from the offset of
a decree on, and the learner reads the stream with `ReadNextMessage` outside of restore mode. The
in-memory list of logs is the one of any replica that restarted on any files that recovery accepts
and has since appended records and switched logs.

The stream holds the files as they are on disk. `fetchVotes_exact` says when it reads back as the
records from the last vote of the decree on: when every file ends where its data ends, and the first
log that covers the decree is the one with its last vote. `not_fetchVotes_exact` are two replicas
for which one of the two fails.
-/

set_option autoImplicit false

namespace Rsl.LogFile

open Wire Lib List

/-! ## The logs of a replica -/

/-- The size of a `UInt64`. -/
def u64Size : Nat := 18446744073709551616

/-- The index of a `LogFile`: `m_minDecree`, `m_decreeOffsets` and `m_dataLen`. -/
structure LogIndex where
  minDecree : Nat := 0
  decreeOffsets : List Nat := []
  dataLen : Nat := 0
  deriving DecidableEq, Repr

namespace LogIndex

/-- `LogFile::MaxDecree`, with the size of the table as a `UInt32`. -/
def maxDecree (index : LogIndex) : Nat :=
  let size := index.decreeOffsets.length % u32Size
  if size = 0 then 0 else (index.minDecree + size - 1) % u64Size

/-- `LogFile::AddMessage`; `none` is a failed assertion. A vote for the highest decree takes the
place of the one before. -/
def addMessage (index : LogIndex) (message : Bytes) : Option LogIndex :=
  match unmarshalBase message with
  | none => none
  | some header =>
    let messageLen := roundUpToPage message.length
    if header.msgId = msgVote then
      if index.decreeOffsets.isEmpty then
        some ⟨header.decree, [index.dataLen], index.dataLen + messageLen⟩
      else if header.decree = index.maxDecree then
        some ⟨index.minDecree, index.decreeOffsets.dropLast ++ [index.dataLen],
          index.dataLen + messageLen⟩
      else if header.decree = (index.maxDecree + 1) % u64Size then
        some ⟨index.minDecree, index.decreeOffsets ++ [index.dataLen],
          index.dataLen + messageLen⟩
      else none
    else some { index with dataLen := index.dataLen + messageLen }

/-- `LogFile::HasDecree`. -/
def hasDecree (index : LogIndex) (decree : Nat) : Bool :=
  decide (index.minDecree ≤ decree) && decide (decree ≤ index.maxDecree)

/-- `LogFile::GetOffset`. -/
def getOffset (index : LogIndex) (decree : Nat) : Nat :=
  index.decreeOffsets.getD ((decree - index.minDecree) % u32Size) 0

end LogIndex

/-- A log that the replica has open: the file, its index, and the messages that the index covers. -/
structure OpenedLog where
  content : Bytes := []
  index : LogIndex := {}
  messages : List Bytes := []
  deriving DecidableEq, Repr

namespace OpenedLog

/-- What `RestoreState` makes of one file. -/
def restore (content : Bytes) : Option OpenedLog := do
  let messages ← recover content
  let index ← messages.foldlM LogIndex.addMessage {}
  return ⟨content, index, messages⟩

/-- `WriteMessage` and `AddMessage`. -/
def append (log : OpenedLog) (record : LogRecord) : Option OpenedLog :=
  (log.index.addMessage record.message).map fun index =>
    ⟨writeAt log.content log.index.dataLen record.bytes, index, log.messages ++ [record.message]⟩

end OpenedLog

/-- A replica: the files it left behind, or the logs it has open. -/
inductive Replica where
  | down (contents : List Bytes)
  | running (logs : List OpenedLog)
  deriving DecidableEq, Repr

/-- An event. What a crash leaves on the disk is not restricted; recovery has to accept it.
`RestoreState` starts at the log that the checkpoint needs, the one at `first`. -/
inductive LogEvent where
  | append (record : LogRecord)
  | switch (record : LogRecord)
  | crash (contents : List Bytes)
  | restart (first : Nat)

/-- The decree of a vote. -/
def voteDecree (message : Bytes) : Option Nat :=
  match unmarshalBase message with
  | none => none
  | some header => if header.msgId = msgVote then some header.decree else none

namespace Replica

/-- Give up: an assertion failed. -/
def abort (logs : List OpenedLog) : Replica := .down (logs.map OpenedLog.content)

/-- One event. `LogVote` switches logs only for a vote above the last accepted one, so above every
vote in the logs. -/
def step : Replica → LogEvent → Replica
  | .running logs, .append record =>
    match logs.getLast? with
    | none => abort logs
    | some log =>
      match log.append record with
      | none => abort logs
      | some log' => .running (logs.dropLast ++ [log'])
  | .running logs, .switch record =>
    match voteDecree record.message with
    | none => .running logs
    | some decree =>
      if logs.all fun log => decide (log.index.maxDecree < decree) then
        match ({} : OpenedLog).append record with
        | none => abort logs
        | some log => .running (logs ++ [log])
      else .running logs
  | _, .crash contents => .down contents
  | .down contents, .restart first =>
    if contents.isEmpty then .running [{}]
    else match (contents.drop (min first (contents.length - 1))).mapM OpenedLog.restore with
      | none => .down contents
      | some logs => .running logs
  | replica, _ => replica

/-- A run of events. -/
def run (replica : Replica) (events : List LogEvent) : Replica := events.foldl step replica

end Replica

/-! ## The server and the learner -/

/-- `LearnLogFile`, with the content in place of the file name. -/
structure LearnLogFile where
  content : Bytes
  minDecree : Nat := 0
  decreeOffsets : List Nat := []
  deriving DecidableEq, Repr

/-- `BuildLearnServerState` for `FetchVotes`. -/
def buildLearnServerState (logs : List OpenedLog) (decree : Nat) : List LearnLogFile :=
  match logs.dropWhile fun log => !log.index.hasDecree decree with
  | [] => []
  | first :: later =>
    ⟨first.content, decree, [first.index.getOffset decree]⟩ ::
      later.map fun log => ⟨log.content, 0, []⟩

/-- The files that `SendLearnFile` streams one after the other, the first from an offset on. -/
def sendLearnFiles (offset : Nat) : List LearnLogFile → Bytes
  | [] => []
  | log :: logs => log.content.drop offset ++ logs.flatMap LearnLogFile.content

/-- `ServeLearnRequest` for `FetchVotes`. -/
def serveFetchVotes (decree : Nat) : List LearnLogFile → Bytes
  | [] => []
  | log :: logs =>
    if log.minDecree ≤ decree then
      match log.decreeOffsets[decree - log.minDecree]? with
      | some offset => sendLearnFiles offset (log :: logs)
      | none => serveFetchVotes decree logs
    else serveFetchVotes decree logs

/-- The stream that a learner gets for a decree. -/
def fetchVotes (logs : List OpenedLog) (decree : Nat) : Bytes :=
  serveFetchVotes decree (buildLearnServerState logs decree)

/-- `Legislator::ReadNextMessage` with `restore` not set: whatever is not a message is a failure,
and only the end of the stream is none. -/
def readNextFetched (stream : Bytes) : ReadNext :=
  if stream.length = 0 then .finished
  else if stream.length < pageSize then .failed
  else match unmarshalBase (stream.take pageSize) with
    | none => .failed
    | some header =>
      if !isLogged header.msgId then .failed
      else
        let bodyLen := (roundUpToPage header.unMarshalLen + u32Size - pageSize) % u32Size
        if (stream.drop pageSize).length < bodyLen then .failed
        else if roundUpToPage header.unMarshalLen < header.unMarshalLen then .failed
        else
          let message := stream.take header.unMarshalLen
          if !verifyChecksum message then .failed
          else if (unMarshalMessage message).isNone then .failed
          else .message message (stream.drop (roundUpToPage header.unMarshalLen))

/-- The messages that `ReadNextMessage` returns up to the end of the stream, or `none` when it
fails before. -/
def fetchedFrom : Nat → Bytes → Option (List Bytes)
  | 0, _ => some []
  | fuel + 1, stream =>
    match readNextFetched stream with
    | .finished => some []
    | .failed => none
    | .message bytes rest => (fetchedFrom fuel rest).map (bytes :: ·)

/-- What a learner reads. -/
def fetched (stream : Bytes) : Option (List Bytes) := fetchedFrom (stream.length + 1) stream

/-! ## What is asked for -/

/-- The messages from the last vote of a decree on; `none` when there is none. -/
def fromLastVote (decree : Nat) (messages : List Bytes) : Option (List Bytes) :=
  fromLast voteDecree decree messages

/-- The messages of all logs. -/
def allMessages (logs : List OpenedLog) : List Bytes := logs.flatMap OpenedLog.messages

/-! ## What a reader has read -/

/-- What `ReadNextMessage` has checked when it returns a message. -/
theorem readNextMessage_eq_message {stream message rest : Bytes}
    (h : readNextMessage stream = .message message rest) :
    ∃ header, pageSize ≤ stream.length ∧ unmarshalBase (stream.take pageSize) = some header ∧
      isLogged header.msgId = true ∧
      ¬ (stream.drop pageSize).length <
        (roundUpToPage header.unMarshalLen + u32Size - pageSize) % u32Size ∧
      ¬ roundUpToPage header.unMarshalLen < header.unMarshalLen ∧
      message = stream.take header.unMarshalLen ∧ verifyChecksum message = true ∧
      (unMarshalMessage message).isSome = true ∧
      rest = stream.drop (roundUpToPage header.unMarshalLen) := by
  rw [readNextMessage] at h
  by_cases hempty : stream.length = 0
  · simp [hempty] at h
  by_cases hpage : stream.length < pageSize
  · simp [hempty, hpage] at h
  simp only [hempty, hpage, if_false] at h
  cases hread : unmarshalBase (stream.take pageSize) with
  | none =>
    simp only [hread] at h
    split at h <;> cases h
  | some header =>
    simp only [hread] at h
    by_cases hlog : isLogged header.msgId = true
    · simp only [hlog, Bool.not_true, Bool.false_eq_true, if_false] at h
      by_cases hbody : (stream.drop pageSize).length <
          (roundUpToPage header.unMarshalLen + u32Size - pageSize) % u32Size
      · rw [if_pos hbody] at h
        cases h
      by_cases hfits : roundUpToPage header.unMarshalLen < header.unMarshalLen
      · rw [if_neg hbody, if_pos hfits] at h
        cases h
      simp only [hbody, hfits, if_false] at h
      cases hsum : verifyChecksum (stream.take header.unMarshalLen) with
      | false =>
        simp only [hsum, Bool.not_false, if_true] at h
        split at h <;> cases h
      | true =>
        simp only [hsum, Bool.not_true, Bool.false_eq_true, if_false] at h
        split at h
        · cases h
        · next hparse =>
          cases h
          refine ⟨header, not_lt.mp hpage, rfl, hlog, hbody, hfits, rfl, hsum, ?_, rfl⟩
          rw [Bool.not_eq_true, Option.isNone_eq_false_iff] at hparse
          exact hparse
    · simp [hlog] at h

/-- A message that recovery returns is returned outside of restore mode too. -/
theorem readNextFetched_of_message {stream message rest : Bytes}
    (h : readNextMessage stream = .message message rest) :
    readNextFetched stream = .message message rest := by
  obtain ⟨header, hpage, hread, hlog, hbody, hfits, rfl, hsum, hparse, rfl⟩ :=
    readNextMessage_eq_message h
  have hpos := pageSize_pos
  rw [readNextFetched, if_neg (by omega), if_neg (by omega), hread]
  simp only [hlog, Bool.not_true, Bool.false_eq_true, if_false, if_neg hbody, if_neg hfits, hsum]
  exact if_neg (by rw [Bool.not_eq_true, Option.isNone_eq_false_iff]; exact hparse)

theorem header_of_unMarshalMessage {message : Bytes}
    (h : (unMarshalMessage message).isSome = true) :
    ∃ header, unmarshalBase message = some header := by
  obtain ⟨msg, hmsg⟩ := Option.isSome_iff_exists.mp h
  obtain ⟨header, hheader, -⟩ := Option.bind_eq_some_iff.mp hmsg
  exact ⟨header, hheader⟩

/-- The pages of a message are in the stream when those behind the first one are. The difference
does not wrap: there is a first page. -/
theorem roundUpToPage_le_of_body {n : Nat} {stream : Bytes} (hne : roundUpToPage n ≠ 0)
    (hpage : pageSize ≤ stream.length)
    (hbody : ¬ (stream.drop pageSize).length < (roundUpToPage n + u32Size - pageSize) % u32Size) :
    roundUpToPage n ≤ stream.length := by
  obtain ⟨pages, hpages⟩ := roundUpToPage_dvd n
  have hlt := roundUpToPage_lt n
  have hle : pageSize ≤ roundUpToPage n := by
    rw [hpages] at hne ⊢
    exact Nat.le_mul_of_pos_right _ (Nat.pos_of_ne_zero (right_ne_zero_of_mul hne))
  rw [length_drop, show roundUpToPage n + u32Size - pageSize =
    roundUpToPage n - pageSize + u32Size by omega, Nat.add_mod_right,
    Nat.mod_eq_of_lt (by omega)] at hbody
  omega

/-- A message that is read stands at the front of the stream, as a record. -/
theorem record_of_readNextMessage {stream message rest : Bytes}
    (h : readNextMessage stream = .message message rest) :
    ∃ record : LogRecord, record.message = message ∧ stream = record.bytes ++ rest := by
  obtain ⟨header, hpage, hread, hlog, hbody, hfits, hmessage, hsum, hparse, rfl⟩ :=
    readNextMessage_eq_message h
  have hpos : 0 < message.length := by
    simp only [verifyChecksum, Bool.and_eq_true, decide_eq_true_eq] at hsum
    omega
  have hround : roundUpToPage header.unMarshalLen ≤ stream.length := by
    apply roundUpToPage_le_of_body ?_ hpage hbody
    intro hzero
    rw [hmessage, length_take] at hpos
    omega
  have hlength : message.length = header.unMarshalLen := by
    rw [hmessage, length_take]
    omega
  -- the header of the message is the one of the page it was read from
  have hheader : unmarshalBase message = some header := by
    obtain ⟨header', hheader'⟩ := header_of_unMarshalMessage hparse
    have hfront : message.take 172 <+: stream.take pageSize := by
      rw [hmessage, prefix_take_iff]
      constructor
      · rw [take_take]
        exact take_prefix _ _
      · rw [length_take]
        exact (min_le_left _ _).trans (by decide)
    rw [hheader', ← unmarshalBase_congr hheader' hfront, hread]
  have hfitsMessage : message.length ≤ roundUpToPage message.length := by
    rw [hlength]
    exact not_lt.mp hfits
  have hwell : wellFormed message = true := by
    simp only [wellFormed, hsum, hparse, hheader, hlog, hlength, decide_true, Bool.and_self,
      Bool.true_and, decide_eq_true_eq]
    exact not_lt.mp hfits
  refine ⟨⟨message, (stream.take (roundUpToPage header.unMarshalLen)).drop message.length, hwell,
    ?_⟩, rfl, ?_⟩
  · rw [length_drop, length_take, min_eq_left hround, ← hlength]
    omega
  · have hfront :
        (stream.take (roundUpToPage header.unMarshalLen)).take message.length = message := by
      rw [take_take, hlength, min_eq_left (not_lt.mp hfits), hmessage]
    have hsplit := take_append_drop message.length
      (stream.take (roundUpToPage header.unMarshalLen))
    rw [hfront] at hsplit
    rw [LogRecord.bytes, hsplit, take_append_drop]

/-- What recovery accepts is records and something behind them. -/
theorem records_of_recoverFrom {fuel : Nat} {file : Bytes} {messages : List Bytes}
    (h : recoverFrom fuel file = some messages) :
    ∃ records tail, file = logBytes records ++ tail ∧ records.map LogRecord.message = messages := by
  induction fuel generalizing file messages with
  | zero =>
    cases h
    exact ⟨[], file, rfl, rfl⟩
  | succ fuel ih =>
    rw [recoverFrom] at h
    cases hread : readNextMessage file with
    | finished =>
      rw [hread] at h
      cases h
      exact ⟨[], file, rfl, rfl⟩
    | failed =>
      rw [hread] at h
      cases h
    | message message rest =>
      simp only [hread] at h
      obtain ⟨read, hrest, rfl⟩ := Option.map_eq_some_iff.mp h
      obtain ⟨records, tail, rfl, hmessages⟩ := ih hrest
      obtain ⟨record, rfl, hfile⟩ := record_of_readNextMessage hread
      refine ⟨record :: records, tail, ?_, ?_⟩
      · rw [hfile, logBytes_cons, append_assoc]
      · rw [map_cons, hmessages]

/-- A learner reads records back. -/
theorem fetched_logBytes (records : List LogRecord) :
    fetched (logBytes records) = some (records.map LogRecord.message) := by
  suffices hfrom : ∀ fuel, (logBytes records).length < fuel →
      fetchedFrom fuel (logBytes records) = some (records.map LogRecord.message) from
    hfrom _ (lt_add_one _)
  induction records with
  | nil =>
    intro fuel hfuel
    obtain _ | fuel := fuel
    · cases hfuel
    rfl
  | cons record records ih =>
    intro fuel hfuel
    obtain _ | fuel := fuel
    · cases hfuel
    have hpage := record.pageSize_le
    have hpos := pageSize_pos
    rw [logBytes_cons] at hfuel ⊢
    have hrest : (logBytes records).length < fuel := by
      rw [length_append] at hfuel
      omega
    simp only [fetchedFrom, readNextFetched_of_message (readNextMessage_record record _),
      ih fuel hrest,
      Option.map_some, map_cons]

/-! ## The index -/

/-- The bytes that a message takes in a log. -/
def messageSize (message : Bytes) : Nat := roundUpToPage message.length

theorem dataLen_eq_sizes (messages : List Bytes) :
    dataLen messages = sizes messageSize messages := rfl

/-- An index as a table of the last votes of its decrees. -/
def LogIndex.table (index : LogIndex) : LastTable :=
  ⟨index.minDecree, index.decreeOffsets, index.dataLen⟩

/-- An index covers messages: its data length is theirs, and the offset of an entry is that of the
last vote for its decree. -/
abbrev LogIndex.Covers (index : LogIndex) (messages : List Bytes) : Prop :=
  index.table.Covers voteDecree messageSize u64Size messages

namespace LogIndex

variable {index next : LogIndex} {message : Bytes}

/-- What `AddMessage` can do. -/
theorem addMessage_cases (h : index.addMessage message = some next) :
    next.dataLen = index.dataLen + roundUpToPage message.length ∧
      ((voteDecree message = none ∧ next.minDecree = index.minDecree ∧
          next.decreeOffsets = index.decreeOffsets) ∨
        (voteDecree message = some next.minDecree ∧ index.decreeOffsets = [] ∧
          next.decreeOffsets = [index.dataLen] ∧ next.minDecree < u64Size) ∨
        (voteDecree message = some index.maxDecree ∧ next.minDecree = index.minDecree ∧
          index.decreeOffsets ≠ [] ∧
          next.decreeOffsets = index.decreeOffsets.dropLast ++ [index.dataLen]) ∨
        (voteDecree message = some ((index.maxDecree + 1) % u64Size) ∧
          next.minDecree = index.minDecree ∧ index.decreeOffsets ≠ [] ∧
          next.decreeOffsets = index.decreeOffsets ++ [index.dataLen])) := by
  rw [addMessage] at h
  rw [voteDecree]
  cases hheader : unmarshalBase message with
  | none =>
    rw [hheader] at h
    cases h
  | some header =>
    simp only [hheader] at h
    by_cases hvote : header.msgId = msgVote
    · simp only [if_pos hvote] at h ⊢
      by_cases hempty : index.decreeOffsets.isEmpty = true
      · rw [if_pos hempty] at h
        cases h
        exact ⟨rfl, .inr (.inl ⟨rfl, isEmpty_iff.mp hempty, rfl, decree_lt hheader⟩)⟩
      · rw [if_neg hempty] at h
        have hne : index.decreeOffsets ≠ [] := fun hnil => hempty (isEmpty_iff.mpr hnil)
        by_cases hsame : header.decree = index.maxDecree
        · rw [if_pos hsame] at h
          cases h
          exact ⟨rfl, .inr (.inr (.inl ⟨congrArg some hsame, rfl, hne, rfl⟩))⟩
        · rw [if_neg hsame] at h
          split at h
          · next hnext =>
            cases h
            exact ⟨rfl, .inr (.inr (.inr ⟨congrArg some hnext, rfl, hne, rfl⟩))⟩
          · cases h
    · rw [if_neg hvote] at h
      cases h
      exact ⟨rfl, .inl ⟨if_neg hvote, rfl, rfl⟩⟩

/-- The table of an index never shrinks. -/
theorem length_le_of_addMessage (h : index.addMessage message = some next) :
    index.decreeOffsets.length ≤ next.decreeOffsets.length := by
  obtain ⟨-, ⟨-, -, hoffsets⟩ | ⟨-, hnil, hoffsets, -⟩ | ⟨-, -, hne, hoffsets⟩ |
    ⟨-, -, -, hoffsets⟩⟩ := addMessage_cases h
  · rw [hoffsets]
  · rw [hnil]
    exact Nat.zero_le _
  · have := length_pos_iff.mpr hne
    rw [hoffsets, length_append, length_dropLast, length_singleton]
    omega
  · rw [hoffsets, length_append]
    omega

/-- The highest decree of a table that fits its size. -/
theorem maxDecree_eq (hne : index.decreeOffsets ≠ [])
    (hfits : index.decreeOffsets.length < u32Size) :
    index.maxDecree = (index.minDecree + (index.decreeOffsets.length - 1)) % u64Size := by
  have hpos := length_pos_iff.mpr hne
  rw [maxDecree, Nat.mod_eq_of_lt hfits]
  simp only [hpos.ne', if_false]
  rw [Nat.add_sub_assoc hpos]

/-- `AddMessage` adds to the table, as long as the table fits its size. -/
theorem adds_of_addMessage (h : index.addMessage message = some next)
    (hfits : index.decreeOffsets.length < u32Size) :
    LastTable.Adds voteDecree messageSize u64Size index.table message next.table := by
  obtain ⟨hlen, hcases⟩ := addMessage_cases h
  obtain ⟨minDecree, decreeOffsets, dataLen⟩ := next
  dsimp only at hlen hcases
  subst hlen
  rcases hcases with ⟨hvote, rfl, rfl⟩ | ⟨hvote, hnil, rfl, hmin⟩ | ⟨hvote, rfl, hne, rfl⟩ |
    ⟨hvote, rfl, hne, rfl⟩
  · exact .other hvote
  · exact .start _ hvote hmin hnil
  · rw [maxDecree_eq hne hfits] at hvote
    exact .again hvote hne
  · have hnext : (index.maxDecree + 1) % u64Size =
        (index.minDecree + index.decreeOffsets.length) % u64Size := by
      have hpos := length_pos_iff.mpr hne
      rw [maxDecree_eq hne hfits, Nat.mod_add_mod]
      congr 1
      omega
    rw [hnext] at hvote
    exact .next hvote hne

end LogIndex

/-! ## The logs of a run -/

/-- What holds of an open log: its file holds the records of its messages and something behind
them, and its index covers them. -/
structure OpenedLog.Sound (log : OpenedLog) : Prop where
  file : ∃ records tail, log.content = logBytes records ++ tail ∧
    records.map LogRecord.message = log.messages
  dataLen : log.index.dataLen = dataLen log.messages
  covers : log.index.decreeOffsets.length < u32Size → log.index.Covers log.messages

theorem covers_empty : ({} : LogIndex).Covers [] :=
  LastTable.covers_empty 0

theorem OpenedLog.sound_empty : ({} : OpenedLog).Sound :=
  ⟨⟨[], [], rfl, rfl⟩, rfl, fun _ => covers_empty⟩

/-- Indexing messages one after the other. -/
theorem foldlM_addMessage {before messages : List Bytes} {index next : LogIndex}
    (hlen : index.dataLen = dataLen before)
    (hcovers : index.decreeOffsets.length < u32Size → index.Covers before)
    (h : messages.foldlM LogIndex.addMessage index = some next) :
    next.dataLen = dataLen (before ++ messages) ∧
      (next.decreeOffsets.length < u32Size → next.Covers (before ++ messages)) := by
  induction messages generalizing before index with
  | nil =>
    cases h
    rw [append_nil]
    exact ⟨hlen, hcovers⟩
  | cons message messages ih =>
    rw [foldlM_cons] at h
    obtain ⟨middle, hadd, hrest⟩ := Option.bind_eq_some_iff.mp h
    have hstep : middle.dataLen = dataLen (before ++ [message]) := by
      rw [(LogIndex.addMessage_cases hadd).1, hlen, dataLen_eq_sizes,
        dataLen_eq_sizes, sizes_append,
        sizes_singleton, messageSize]
    have hkeeps : middle.decreeOffsets.length < u32Size → middle.Covers (before ++ [message]) := by
      intro hfits
      have hold := (LogIndex.length_le_of_addMessage hadd).trans_lt hfits
      have hmodulus : u32Size ≤ u64Size := by decide
      exact (hcovers hold).adds (LogIndex.adds_of_addMessage hadd hold)
        (hfits.le.trans hmodulus)
    have := ih hstep hkeeps hrest
    rwa [append_assoc, singleton_append] at this

theorem OpenedLog.sound_restore {content : Bytes} {log : OpenedLog}
    (h : OpenedLog.restore content = some log) : log.Sound := by
  obtain ⟨messages, hrecover, h⟩ := Option.bind_eq_some_iff.mp h
  obtain ⟨index, hindex, h⟩ := Option.bind_eq_some_iff.mp h
  cases h
  obtain ⟨records, tail, hfile, hmessages⟩ := records_of_recoverFrom hrecover
  obtain ⟨hlen, hcovers⟩ := foldlM_addMessage rfl (fun _ => covers_empty) hindex
  exact ⟨⟨records, tail, hfile, hmessages⟩, hlen, hcovers⟩

theorem OpenedLog.Sound.append {log log' : OpenedLog} (h : log.Sound) {record : LogRecord}
    (happend : log.append record = some log') : log'.Sound := by
  obtain ⟨index, hadd, rfl⟩ := Option.map_eq_some_iff.mp happend
  obtain ⟨records, tail, hcontent, hmessages⟩ := h.file
  have hfold : [record.message].foldlM LogIndex.addMessage log.index = some index := by
    rw [foldlM_cons, hadd]
    rfl
  obtain ⟨hlen, hcovers⟩ := foldlM_addMessage h.dataLen h.covers hfold
  refine ⟨⟨records ++ [record], tail.drop record.bytes.length, ?_, ?_⟩, hlen, hcovers⟩
  · have hend : log.index.dataLen = (logBytes records).length := by
      rw [h.dataLen, ← hmessages, dataLen_messages]
    rw [logBytes_append, hcontent, hend, writeAt_append]
    simp [logBytes]
  · rw [map_append, hmessages]
    rfl

/-- What holds of a replica. -/
def Replica.Sound : Replica → Prop
  | .down _ => True
  | .running logs => ∀ log ∈ logs, log.Sound

theorem sound_of_mapM {contents : List Bytes} {logs : List OpenedLog}
    (h : contents.mapM OpenedLog.restore = some logs) : ∀ log ∈ logs, log.Sound := by
  induction contents generalizing logs with
  | nil =>
    cases h
    simp
  | cons content contents ih =>
    rw [mapM_cons] at h
    obtain ⟨log, hlog, h⟩ := Option.bind_eq_some_iff.mp h
    obtain ⟨rest, hrest, h⟩ := Option.bind_eq_some_iff.mp h
    cases h
    exact forall_mem_cons.mpr ⟨OpenedLog.sound_restore hlog, ih hrest⟩

/-- One event keeps the logs of a replica sound. -/
theorem Replica.Sound.step {replica : Replica} (h : replica.Sound) (event : LogEvent) :
    (replica.step event).Sound := by
  cases event with
  | append record =>
    cases replica with
    | down contents => trivial
    | running logs =>
      rw [Replica.step]
      cases hlast : logs.getLast? with
      | none => trivial
      | some log =>
        simp only
        cases happend : log.append record with
        | none => trivial
        | some log' =>
          intro opened hmem
          rcases mem_append.mp hmem with hmem | hmem
          · exact h opened (mem_of_mem_dropLast hmem)
          · obtain rfl := mem_singleton.mp hmem
            exact (h log (mem_of_getLast? hlast)).append happend
  | switch record =>
    cases replica with
    | down contents => trivial
    | running logs =>
      rw [Replica.step]
      cases hvote : voteDecree record.message with
      | none => exact h
      | some decree =>
        simp only
        split
        · cases happend : ({} : OpenedLog).append record with
          | none => trivial
          | some log =>
            exact forall_mem_append.mpr
              ⟨h, forall_mem_singleton.mpr (OpenedLog.sound_empty.append happend)⟩
        · exact h
  | crash contents =>
    cases replica with
    | down _ => trivial
    | running logs => trivial
  | restart first =>
    cases replica with
    | running logs => exact h
    | down contents =>
      rw [Replica.step]
      split
      · intro opened hmem
        obtain rfl := mem_singleton.mp hmem
        exact OpenedLog.sound_empty
      · cases hlogs : (contents.drop (min first (contents.length - 1))).mapM OpenedLog.restore with
        | none => trivial
        | some logs => exact sound_of_mapM hlogs

/-- A run keeps the logs of a replica sound. -/
theorem Replica.Sound.run {replica : Replica} (h : replica.Sound) (events : List LogEvent) :
    (replica.run events).Sound := by
  induction events generalizing replica with
  | nil => exact h
  | cons event events ih => exact ih (h.step event)

/-! ## The stream -/

/-- The file of a log ends where its data ends. -/
def OpenedLog.endsAtData (log : OpenedLog) : Bool :=
  decide (log.content.length = log.index.dataLen)

/-- Does a log hold a vote for a decree? -/
def OpenedLog.holdsVote (decree : Nat) (log : OpenedLog) : Bool :=
  log.messages.any fun message => decide (voteDecree message = some decree)

/-- The condition: the first log that covers the decree has votes, no later one has a vote for the
decree, its table fits its size, and from it on every file ends where its data ends. -/
def servable (logs : List OpenedLog) (decree : Nat) : Bool :=
  match logs.dropWhile fun log => !log.index.hasDecree decree with
  | [] => false
  | first :: later =>
    !first.index.decreeOffsets.isEmpty && later.all (fun log => !log.holdsVote decree) &&
      decide (first.index.decreeOffsets.length < u32Size) &&
      (first :: later).all OpenedLog.endsAtData

theorem OpenedLog.holdsVote_eq_false {decree : Nat} {log : OpenedLog}
    (h : log.holdsVote decree = false) : fromLastVote decree log.messages = none := by
  rw [fromLastVote, fromLast_eq_none]
  intro message hmessage hvote
  have := any_eq_false.mp h message hmessage
  simp [hvote] at this

/-- A file that ends where its data ends holds records and nothing else. -/
theorem OpenedLog.Sound.content_eq {log : OpenedLog} (h : log.Sound)
    (hends : log.endsAtData = true) :
    ∃ records, log.content = logBytes records ∧ records.map LogRecord.message = log.messages := by
  obtain ⟨records, tail, hcontent, hmessages⟩ := h.file
  have hlen : log.content.length = (logBytes records).length := by
    rw [of_decide_eq_true hends, h.dataLen, ← hmessages, dataLen_messages]
  rw [hcontent, length_append] at hlen
  obtain rfl : tail = [] := eq_nil_of_length_eq_zero (by omega)
  exact ⟨records, by rw [hcontent, append_nil], hmessages⟩

/-- The files of logs that end where their data ends. -/
theorem content_of_endsAtData {logs : List OpenedLog} (hsound : ∀ log ∈ logs, log.Sound)
    (hends : ∀ log ∈ logs, log.endsAtData = true) :
    ∃ records, logs.flatMap OpenedLog.content = logBytes records ∧
      records.map LogRecord.message = allMessages logs := by
  induction logs with
  | nil => exact ⟨[], rfl, rfl⟩
  | cons log logs ih =>
    obtain ⟨records, hrecords, hmessages⟩ :=
      ih (fun l hl => hsound l (mem_cons_of_mem _ hl)) fun l hl =>
        hends l (mem_cons_of_mem _ hl)
    obtain ⟨first, hfirst, hfirstMessages⟩ :=
      (hsound log mem_cons_self).content_eq (hends log mem_cons_self)
    refine ⟨first ++ records, ?_, ?_⟩
    · rw [flatMap_cons, hfirst, hrecords, logBytes_append]
    · rw [map_append, hfirstMessages, hmessages]
      rfl

/-- The offset of a decree that a log covers is that of its last vote for it. -/
theorem LogIndex.getOffset_eq {index : LogIndex} {messages : List Bytes}
    (h : index.Covers messages) (hne : index.decreeOffsets ≠ [])
    (hfits : index.decreeOffsets.length < u32Size) {decree : Nat}
    (hhas : index.hasDecree decree = true) :
    ∃ before after, messages = before ++ after ∧ index.getOffset decree = LogFile.dataLen before ∧
      fromLastVote decree messages = some after := by
  rw [LogIndex.hasDecree, Bool.and_eq_true, decide_eq_true_eq, decide_eq_true_eq,
    LogIndex.maxDecree_eq hne hfits] at hhas
  have hpos := length_pos_iff.mpr hne
  have hle := Nat.mod_le (index.minDecree + (index.decreeOffsets.length - 1)) u64Size
  have hlt : (index.minDecree + (index.decreeOffsets.length - 1)) % u64Size < u64Size :=
    Nat.mod_lt _ (by decide)
  have hentry : decree - index.minDecree < index.decreeOffsets.length := by omega
  obtain ⟨before, after, hsplit, hoffset, hlast⟩ :=
    h.last (decree - index.minDecree) _ (getElem?_eq_getElem hentry)
  refine ⟨before, after, hsplit, ?_, ?_⟩
  · rw [LogIndex.getOffset, Nat.mod_eq_of_lt (by omega), dataLen_eq_sizes, ← hoffset,
      getD_eq_getElem _ _ hentry]
  · rwa [LastTable.keyAt, LogIndex.table, Nat.add_sub_cancel' hhas.1,
      Nat.mod_eq_of_lt (by omega)] at hlast

/-- The stream is the first log from the offset of the decree on and the later logs. -/
theorem fetchVotes_eq {logs later : List OpenedLog} {first : OpenedLog} {decree : Nat}
    (h : (logs.dropWhile fun log => !log.index.hasDecree decree) = first :: later) :
    fetchVotes logs decree =
      first.content.drop (first.index.getOffset decree) ++ later.flatMap OpenedLog.content := by
  rw [fetchVotes, buildLearnServerState, h]
  simp only [serveFetchVotes, le_refl, if_true, tsub_self, getElem?_cons_zero,
    sendLearnFiles, flatMap_map]

/-- The records behind the messages `before` start where these end. -/
theorem drop_logBytes {records : List LogRecord} {before after : List Bytes}
    (h : records.map LogRecord.message = before ++ after) :
    ∃ rest, (logBytes records).drop (dataLen before) = logBytes rest ∧
      rest.map LogRecord.message = after := by
  obtain ⟨front, rest, rfl, rfl, rfl⟩ := map_eq_append_iff.mp h
  refine ⟨rest, ?_, rfl⟩
  rw [dataLen_messages, logBytes_append]
  exact drop_left' rfl

/-- Logs without a vote for a decree. -/
theorem fromLastVote_allMessages {logs : List OpenedLog} {decree : Nat}
    (h : ∀ log ∈ logs, log.holdsVote decree = false) :
    fromLastVote decree (allMessages logs) = none := by
  rw [fromLastVote, fromLast_eq_none]
  intro message hmessage
  obtain ⟨log, hlog, hmem⟩ := mem_flatMap.mp hmessage
  exact fromLast_eq_none.mp (OpenedLog.holdsVote_eq_false (h log hlog)) message hmem

/-- In every run, a decree that the logs hold a vote for is served as the records from its last vote
on, when the condition holds. -/
theorem fetchVotes_exact (events : List LogEvent) {logs : List OpenedLog}
    (hrun : (Replica.down []).run events = .running logs) {decree : Nat} {suffix : List Bytes}
    (hcovered : fromLastVote decree (allMessages logs) = some suffix)
    (hservable : servable logs decree = true) :
    fetched (fetchVotes logs decree) = some suffix := by
  have hsound : ∀ log ∈ logs, log.Sound := by
    have hdown : (Replica.down []).Sound := trivial
    have hstays := hdown.run events
    rwa [hrun] at hstays
  have hsplit := takeWhile_append_dropWhile (p := fun log : OpenedLog =>
    !log.index.hasDecree decree) (l := logs)
  have hhead := head?_dropWhile_not (fun log : OpenedLog => !log.index.hasDecree decree) logs
  rw [servable] at hservable
  cases hserved : logs.dropWhile fun log => !log.index.hasDecree decree with
  | nil =>
    rw [hserved] at hservable
    cases hservable
  | cons first later =>
    rw [hserved] at hservable hsplit hhead
    simp only [Bool.and_eq_true, Bool.not_eq_true', isEmpty_eq_false_iff,
      decide_eq_true_eq, all_eq_true] at hservable
    obtain ⟨⟨⟨hne, honce⟩, hfits⟩, hends⟩ := hservable
    have hin : ∀ log ∈ first :: later, log.Sound := by
      intro log hlog
      apply hsound
      rw [← hsplit]
      exact mem_append_right _ hlog
    have hhas : first.index.hasDecree decree = true := by simpa using hhead
    have hfirst := hin first mem_cons_self
    obtain ⟨before, after, hmessages, hoffset, hlast⟩ :=
      LogIndex.getOffset_eq (hfirst.covers hfits) hne hfits hhas
    -- what is asked for: from the last vote in the first log to the end of the last log
    obtain rfl : after ++ allMessages later = suffix := by
      have hnone : fromLast voteDecree decree (later.flatMap OpenedLog.messages) = none :=
        fromLastVote_allMessages honce
      rw [fromLastVote] at hcovered hlast
      rw [← hsplit, allMessages, flatMap_append, flatMap_cons, fromLast_append,
        fromLast_append, hnone, hlast, Option.none_or, Option.map_some, Option.some_or] at hcovered
      exact Option.some.inj hcovered
    -- what is sent: the records of these messages
    obtain ⟨records, hcontent, hrecords⟩ := hfirst.content_eq (hends first mem_cons_self)
    obtain ⟨rest, hdrop, rfl⟩ := drop_logBytes (hrecords.trans hmessages)
    obtain ⟨more, hmore, hmoreMessages⟩ := content_of_endsAtData
      (fun log hlog => hin log (mem_cons_of_mem _ hlog))
      (fun log hlog => hends log (mem_cons_of_mem _ hlog))
    rw [fetchVotes_eq hserved, hcontent, hoffset, hdrop, hmore, ← logBytes_append,
      fetched_logBytes, map_append, hmoreMessages]

/-! ## Runs -/

/-- The logs of a replica that runs. -/
def Replica.logs : Replica → List OpenedLog
  | .down _ => []
  | .running logs => logs

namespace Example

/-- The vote of `smallMessage` with a higher ballot. -/
def revoteMessage : Bytes :=
  [1, 0, 48, 0, 0, 0, 242, 1, 181, 82, 95, 34, 192, 23, 206, 250, 13, 240, 1, 0, 1, 0, 0, 0, 0,
    0, 0, 0, 1, 0, 0, 0, 0, 0, 0, 0, 2, 0, 0, 0, 1, 0, 0, 0, 0, 0, 0, 0]

/-- A version 1 vote for decree 2. -/
def nextMessage : Bytes :=
  [1, 0, 48, 0, 0, 0, 180, 66, 5, 199, 146, 175, 81, 18, 206, 250, 13, 240, 1, 0, 1, 0, 0, 0, 0,
    0, 0, 0, 2, 0, 0, 0, 0, 0, 0, 0, 1, 0, 0, 0, 1, 0, 0, 0, 0, 0, 0, 0]

def revote : LogRecord :=
  ⟨revoteMessage, replicate 464 0, by decide +kernel, by decide +kernel⟩

def nextVote : LogRecord :=
  ⟨nextMessage, replicate 464 0, by decide +kernel, by decide +kernel⟩

/-- A replica with two logs. -/
def switched : Replica := (Replica.down []).run [.restart 0, .append smallVote, .switch nextVote]

/-- A replica whose log has the first page of a torn record behind its data. -/
def tornTail : Replica :=
  (Replica.down []).run
    [.restart 0, .append smallVote, .crash [smallVote.bytes ++ largeVote.bytes.take pageSize],
      .restart 0]

/-- A replica that crashed between opening a new log and writing to it, and that has logged a second
vote for the last decree of the old log since. -/
def emptyLog : Replica :=
  (Replica.down []).run
    [.restart 0, .append smallVote, .crash [smallVote.bytes, []], .restart 0, .append revote]

end Example

open LogFile.Example

theorem fetchVotes_exact_switched :
    switched = .running switched.logs ∧
      fromLastVote 1 (allMessages switched.logs) = some [smallMessage, nextMessage] ∧
      servable switched.logs 1 = true ∧
      fetched (fetchVotes switched.logs 1) = some [smallMessage, nextMessage] :=
  have hrun : switched = .running switched.logs := by decide +kernel
  have hcovered : fromLastVote 1 (allMessages switched.logs) =
      some [smallMessage, nextMessage] := by
    decide +kernel
  have hservable : servable switched.logs 1 = true := by decide +kernel
  ⟨hrun, hcovered, hservable,
    fetchVotes_exact [.restart 0, .append smallVote, .switch nextVote] hrun hcovered hservable⟩

/-- The learner fails at the torn record behind the data, and it gets the votes of both logs for a
decree that both cover. -/
theorem not_fetchVotes_exact :
    (fromLastVote 1 (allMessages tornTail.logs) = some [smallMessage] ∧
      fetched (fetchVotes tornTail.logs 1) = none) ∧
    (fromLastVote 1 (allMessages emptyLog.logs) = some [revoteMessage] ∧
      fetched (fetchVotes emptyLog.logs 1) = some [smallMessage, revoteMessage]) :=
  ⟨⟨by decide +kernel, by decide +kernel⟩, by decide +kernel, by decide +kernel⟩

end Rsl.LogFile
