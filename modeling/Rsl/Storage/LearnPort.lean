import Rsl.Storage.Log

/-!
# Votes over the learn port

`LogSet::open` and `votes_from`, the streaming of the spans by `serve_votes` and `send_file`, and
the client's `VoteStream` over a connection that delivers the bytes in any pieces and may end early.
The files may grow behind their data between the open and the sending.

`delivers` is the contract of a fetch for a decree that the logs hold: all records from the last
vote of the decree on and a clean end when everything arrives, and the first of them when the
connection is cut. A cut shows as an error unless the connection ends in order between two records:
that is the clean end of a stream, too (`clean_end_cut`).
-/

set_option autoImplicit false

namespace Rsl.Storage

open Wire Lib List

namespace DecreeIndex

/-- `DecreeIndex::has_decree`. -/
def hasDecree (index : DecreeIndex) (decree : Nat) : Bool :=
  !index.offsets.isEmpty && decide (index.minDecree ≤ decree) && decide (decree ≤ index.maxDecree)

/-- `DecreeIndex::offset`. -/
def offset (index : DecreeIndex) (decree : Nat) : Option Nat :=
  if !index.hasDecree decree then none else index.offsets[decree - index.minDecree]?

end DecreeIndex

namespace LearnPort

/-! ## The server -/

/-- `LogFileInfo`, with the result of the scan in place of the path. -/
structure LogFileInfo where
  scanned : ScanResult
  index : DecreeIndex
  deriving DecidableEq, Repr

/-- What `LogSet::open` makes of one file; `none` is an error or a panic of the scan. -/
def openLog (content : Bytes) : Option LogFileInfo :=
  match scan content with
  | none => none
  | some result =>
    if !result.ending.recoverable then none
    else match result.index with
      | .error _ => none
      | .ok index => some ⟨result, index⟩

/-- `LogSet::open`, on the contents of the files in ascending order of their names. -/
def openLogs (contents : List Bytes) : Option (List LogFileInfo) := contents.mapM openLog

/-- `FileSpan`, with the place of the file in the set in place of its path. -/
structure FileSpan where
  file : Nat
  offset : Nat
  len : Nat
  deriving DecidableEq, Repr

/-- The loop of `votes_from`: the first file from an offset on and the others whole, without empty
spans. -/
def spansFrom (file offset : Nat) : List LogFileInfo → List FileSpan
  | [] => []
  | info :: infos =>
    let len := info.index.dataLen - offset
    if 0 < len then ⟨file, offset, len⟩ :: spansFrom (file + 1) 0 infos
    else spansFrom (file + 1) 0 infos

/-- `LogSet::votes_from`. -/
def votesFrom (infos : List LogFileInfo) (decree : Nat) : Option (List FileSpan) := do
  let start ← infos.findIdx? fun info => info.index.hasDecree decree
  let info ← infos[start]?
  let offset ← info.index.offset decree
  return spansFrom start offset (infos.drop start)

/-- How a server reads its files: `stream_chunk`, and how many bytes a read returns at most, which
may be fewer than it was asked for. -/
structure SendConfig where
  streamChunk : Nat
  readCap : Nat → Nat

/-- The loop of `send_file` with `remaining` bytes to go: what it writes to the connection. A read
that returns nothing ends it. -/
def sendFile (config : SendConfig) (content : Bytes) : Nat → Nat → Nat → Bytes
  | 0, _, _ => []
  | fuel + 1, position, remaining =>
    if remaining = 0 then []
    else
      let want := min remaining config.streamChunk
      let got := ((content.drop position).take want).take (max 1 (config.readCap position))
      if got.length = 0 then []
      else got ++ sendFile config content fuel (position + got.length) (remaining - got.length)

/-- `serve_votes` on the files as they are when they are sent. -/
def serveVotes (config : SendConfig) (files : List Bytes) (spans : List FileSpan) : Bytes :=
  spans.flatMap fun span => sendFile config (files.getD span.file []) span.len span.offset span.len

/-- What the server sends for a decree; nothing when no log holds it. -/
def sent (config : SendConfig) (files : List Bytes) (infos : List LogFileInfo) (decree : Nat) :
    Bytes :=
  match votesFrom infos decree with
  | none => []
  | some spans => serveVotes config files spans

/-! ## The client -/

/-- A connection: the pieces in which the bytes arrive, and whether an error ends it. -/
structure Conn where
  chunks : List Bytes
  broken : Bool
  deriving DecidableEq, Repr

namespace Conn

/-- All bytes that arrive. -/
def bytes (conn : Conn) : Bytes := conn.chunks.flatten

/-- A read of at most `want` bytes; nothing is the end of the stream, and `none` an error. -/
def read (conn : Conn) (want : Nat) : Option (Bytes × Conn) :=
  match conn.chunks with
  | [] => if conn.broken then none else some ([], conn)
  | chunk :: chunks =>
    if want < chunk.length then
      some (chunk.take want, { conn with chunks := chunk.drop want :: chunks })
    else some (chunk, { conn with chunks := chunks })

/-- `read_up_to`: fill a buffer as far as the peer allows. -/
def readUpTo : Nat → Nat → Conn → Option (Bytes × Conn)
  | 0, _, conn => some ([], conn)
  | fuel + 1, want, conn =>
    if want = 0 then some ([], conn)
    else match conn.read want with
      | none => none
      | some (got, rest) =>
        if got.length = 0 then some ([], rest)
        else (readUpTo fuel (want - got.length) rest).map fun (more, left) => (got ++ more, left)

end Conn

/-- `RecordError`. -/
inductive RecordError where
  | shortHeaderPage (got : Nat)
  | headerUnmarshal
  | unknownMessageId (id : Nat)
  | shortBody (got expected : Nat)
  | checksumMismatch
  | unmarshal
  deriving DecidableEq, Repr

/-- The errors of `TransferError` that a `VoteStream` returns. -/
inductive TransferError where
  | record (error : RecordError)
  | io
  deriving DecidableEq, Repr

/-- What `VoteStream::read_one` comes to. -/
inductive NextVote where
  | message (msg : Msg) (rest : Conn)
  | ended
  | failed (error : TransferError)
  | panicked
  deriving DecidableEq

/-- `VoteStream::read_one`. The body is read in steps of 64 KiB, which come to one reading of it. -/
def readOne (conn : Conn) : NextVote :=
  match conn.readUpTo pageSize pageSize with
  | none => .failed .io
  | some (page, afterPage) =>
    if page.length = 0 then .ended
    else if page.length < pageSize then .failed (.record (.shortHeaderPage page.length))
    else match unmarshalBase page with
      | none => .failed (.record .headerUnmarshal)
      | some header =>
        if !isLoggable header.msgId then .failed (.record (.unknownMessageId header.msgId))
        else
          let paddedLen := roundUpToPage header.unMarshalLen
          match afterPage.readUpTo (paddedLen - pageSize) (paddedLen - pageSize) with
          | none => .failed .io
          | some (body, rest) =>
            if body.length < paddedLen - pageSize then
              .failed (.record (.shortBody body.length (paddedLen - pageSize)))
            else if (page ++ body).length < header.unMarshalLen then .panicked
            else
              let message := (page ++ body).take header.unMarshalLen
              if !verifyChecksum message then .failed (.record .checksumMismatch)
              else match kindOf header.msgId with
                | none => .panicked
                | some kind =>
                  match Msg.unmarshal kind message with
                  | none => .failed (.record .unmarshal)
                  | some msg => .message msg rest

/-- How a `VoteStream` ends. -/
inductive StreamEnd where
  | clean
  | failed (error : TransferError)
  | panicked
  deriving DecidableEq, Repr

/-- What a client gets from `VoteStream::next` until it returns `None` or an error. Every message
takes at least a page, so the bytes of the connection bound the rounds. -/
def voteStream : Nat → Conn → List Msg × StreamEnd
  | 0, _ => ([], .clean)
  | fuel + 1, conn =>
    match readOne conn with
    | .ended => ([], .clean)
    | .failed error => ([], .failed error)
    | .panicked => ([], .panicked)
    | .message msg rest =>
      let (msgs, ending) := voteStream fuel rest
      (msg :: msgs, ending)

/-- What a client yields. -/
def fetched (conn : Conn) : List Msg × StreamEnd := voteStream (conn.bytes.length + 1) conn

/-! ## What is asked for -/

/-- The records of all logs. -/
def allRecords (infos : List LogFileInfo) : List Record :=
  infos.flatMap fun info => info.scanned.records

/-- The records from the last vote of a decree on. -/
def fromLastVote (decree : Nat) (infos : List LogFileInfo) : Option (List Record) :=
  fromLast voteOf decree (allRecords infos)

/-- The message of a record. -/
def parsed (record : Record) : Option Msg :=
  (kindOf record.info.msgId).bind fun kind => Msg.unmarshal kind record.messageBytes

/-- The bytes of records one after the other. -/
def recordBytes (records : List Record) : Bytes := records.flatMap Record.padded

/-- `n` bytes end between two of the records, before the first or behind the last. -/
def betweenRecords (records : List Record) (n : Nat) : Prop :=
  ∃ k, n = (recordBytes (records.take k)).length

/-- The records that arrive whole with the first `n` bytes. -/
def arrived : List Record → Nat → List Record
  | [], _ => []
  | record :: records, n =>
    if record.padded.length ≤ n then record :: arrived records (n - record.padded.length) else []

/-- How a stream ends: cleanly, with the connection ended between two records, or with an error. -/
def Ends (records : List Record) (conn : Conn) (ending : StreamEnd) : Prop :=
  (ending = .clean ∧ conn.broken = false ∧ betweenRecords records conn.bytes.length) ∨
    (∃ error, ending = .failed error) ∧
      (conn.broken = true ∨ ¬ betweenRecords records conn.bytes.length)

/-- What a client gets of `records`: all of them and a clean end when everything `sent` has arrived,
and the first of them otherwise. -/
structure Delivers (records : List Record) (sent : Bytes) (conn : Conn) : Prop where
  whole : conn.bytes = sent → conn.broken = false →
    (fetched conn).1.map some = records.map parsed ∧ (fetched conn).2 = .clean
  front : (fetched conn).1.map some <+: records.map parsed
  ending : Ends records conn (fetched conn).2

/-- A chain of logs: the decrees of each are below `2 ^ 64` and above those of the logs before
it. -/
structure Chain (infos : List LogFileInfo) : Prop where
  range : ∀ info ∈ infos, info.index.minDecree + info.index.offsets.length ≤ u64Size
  ascending : infos.Pairwise fun info later =>
    info.index.offsets ≠ [] → later.index.offsets ≠ [] →
      info.index.maxDecree < later.index.minDecree

/-! ## Reading from a connection -/

namespace Conn

/-- No piece is empty: an empty read is the end of the stream. -/
def Proper (conn : Conn) : Prop := ∀ chunk ∈ conn.chunks, chunk ≠ []

/-- What is left of a connection after its first bytes. -/
structure Leaves (conn rest : Conn) (n : Nat) : Prop where
  bytes : rest.bytes = conn.bytes.drop n
  broken : rest.broken = conn.broken
  proper : rest.Proper

variable {conn : Conn}

/-- A read returns the first bytes of what arrives, some of them if there are any. -/
theorem read_spec (h : conn.Proper) {want : Nat} (hwant : 0 < want) (hbytes : conn.bytes ≠ []) :
    ∃ n rest, 0 < n ∧ n ≤ want ∧ n ≤ conn.bytes.length ∧
      conn.read want = some (conn.bytes.take n, rest) ∧ conn.Leaves rest n := by
  obtain ⟨chunks, broken⟩ := conn
  cases chunks with
  | nil => exact absurd rfl hbytes
  | cons chunk chunks =>
    have hchunk : 0 < chunk.length := length_pos_iff.mpr (h chunk mem_cons_self)
    have hrest : ∀ c ∈ chunks, c ≠ [] := fun c hc => h c (mem_cons_of_mem _ hc)
    by_cases hlong : want < chunk.length
    · refine ⟨want, ⟨chunk.drop want :: chunks, broken⟩, hwant, le_rfl, ?_, ?_, ?_, rfl, ?_⟩
      · rw [Conn.bytes, flatten_cons, length_append]
        omega
      · simp only [Conn.read, if_pos hlong, Conn.bytes, flatten_cons]
        rw [take_append_of_le_length hlong.le]
      · simp only [Conn.bytes, flatten_cons]
        rw [drop_append_of_le_length hlong.le]
      · intro c hc
        rcases mem_cons.mp hc with rfl | hc
        · intro hnil
          have hle := drop_eq_nil_iff.mp hnil
          omega
        · exact hrest c hc
    · refine ⟨chunk.length, ⟨chunks, broken⟩, hchunk, not_lt.mp hlong, ?_, ?_, ?_, rfl, hrest⟩
      · rw [Conn.bytes, flatten_cons, length_append]
        omega
      · simp only [Conn.read, if_neg hlong, Conn.bytes, flatten_cons]
        rw [take_left' rfl]
      · simp only [Conn.bytes, flatten_cons]
        rw [drop_left' rfl]

/-- `read_up_to` returns what it asks for as far as it arrives, unless the connection breaks
before. -/
theorem readUpTo_spec {fuel want : Nat} (h : conn.Proper) (hfuel : want ≤ fuel) :
    (readUpTo fuel want conn = none ∧ conn.broken = true ∧ conn.bytes.length < want) ∨
      ∃ rest, readUpTo fuel want conn = some (conn.bytes.take want, rest) ∧ conn.Leaves rest want ∧
        (conn.broken = true → want ≤ conn.bytes.length) := by
  induction fuel generalizing want conn with
  | zero =>
    obtain rfl : want = 0 := Nat.le_zero.mp hfuel
    exact .inr ⟨conn, rfl, ⟨rfl, rfl, h⟩, fun _ => Nat.zero_le _⟩
  | succ fuel ih =>
    by_cases hzero : want = 0
    · subst hzero
      exact .inr ⟨conn, if_pos rfl, ⟨rfl, rfl, h⟩, fun _ => Nat.zero_le _⟩
    rw [readUpTo, if_neg hzero]
    by_cases hbytes : conn.bytes = []
    · -- nothing is left: the end of the connection shows
      have hchunks : conn.chunks = [] := by
        cases hchunks : conn.chunks with
        | nil => rfl
        | cons chunk chunks =>
          have hnil : chunk ++ chunks.flatten = [] := by
            rw [← flatten_cons, ← hchunks]
            exact hbytes
          exact absurd (append_eq_nil_iff.mp hnil).1 (h chunk (by rw [hchunks]; simp))
      rw [read, hchunks, hbytes]
      cases hbroken : conn.broken with
      | true => exact .inl ⟨rfl, rfl, Nat.pos_of_ne_zero hzero⟩
      | false =>
        refine .inr ⟨conn, by rw [take_nil]; rfl, ⟨?_, rfl, h⟩, (absurd · Bool.false_ne_true)⟩
        rw [hbytes, drop_nil]
    · obtain ⟨n, middle, hn, hnle, hnlen, hread, hmiddle⟩ :=
        read_spec h (Nat.pos_of_ne_zero hzero) hbytes
      have hlength : (conn.bytes.take n).length = n := by
        rw [length_take, min_eq_left hnlen]
      have hleft : middle.bytes.length = conn.bytes.length - n := by
        rw [hmiddle.bytes, length_drop]
      rw [hread]
      simp only [hlength, hn.ne', if_false]
      rcases @ih middle (want - n) hmiddle.proper (by omega) with
        ⟨hmore, hbroken, hlt⟩ | ⟨rest, hmore, hrest, hwhole⟩
      · rw [hmore]
        exact .inl ⟨rfl, hmiddle.broken ▸ hbroken, by omega⟩
      · rw [hmore]
        refine .inr
          ⟨rest, ?_, ⟨?_, hrest.broken.trans hmiddle.broken, hrest.proper⟩, fun hbroken => ?_⟩
        · rw [Option.map_some, hmiddle.bytes, ← take_add, Nat.add_sub_cancel' hnle]
        · rw [hrest.bytes, hmiddle.bytes, drop_drop, Nat.add_sub_cancel' hnle]
        · have := hwhole (hmiddle.broken.trans hbroken)
          omega

/-- `read_up_to` with enough bytes to come. -/
theorem readUpTo_enough {want : Nat} (h : conn.Proper) (hle : want ≤ conn.bytes.length) :
    ∃ rest, readUpTo want want conn = some (conn.bytes.take want, rest) ∧
      conn.Leaves rest want := by
  rcases readUpTo_spec h (le_refl want) with ⟨-, -, hlt⟩ | ⟨rest, hread, hrest, -⟩
  · omega
  · exact ⟨rest, hread, hrest⟩

end Conn

/-! ## The client -/

/-- A record that the scan returned: its header, what the scan checked, and its metadata. -/
structure Readable (record : Record) (header : Wire.Header) (msg : Msg) : Prop where
  page : unmarshalBase (record.padded.take pageSize) = some header
  loggable : isLoggable header.msgId = true
  length : record.padded.length = roundUpToPage header.unMarshalLen
  fits : header.unMarshalLen ≤ record.padded.length
  pageSize_le : pageSize ≤ record.padded.length
  checksum : verifyChecksum (record.padded.take header.unMarshalLen) = true
  parses : (kindOf header.msgId).bind (fun kind =>
    Msg.unmarshal kind (record.padded.take header.unMarshalLen)) = some msg
  info : record.info.msgId = header.msgId ∧ record.info.decree = header.decree ∧
    record.info.unMarshalLen = header.unMarshalLen ∧
    record.info.paddedLen = record.padded.length

/-- Every record of a list is one that the scan returned. -/
def AllReadable (records : List Record) : Prop :=
  ∀ record ∈ records, ∃ header msg, Readable record header msg

section Transfer

variable {config : SendConfig} {record : Record} {conn : Conn} {records : List Record}
  {files : List Bytes}
  {start : Nat} {info : LogFileInfo} {infos : List LogFileInfo} {header : Wire.Header} {msg : Msg}

theorem Readable.parsed_eq
    (h : Readable record header msg) : parsed record = some msg := by
  obtain ⟨hid, -, hlen, -⟩ := h.info
  rw [parsed, Record.messageBytes, hid, hlen]
  exact h.parses

/-- What the scan returned stands at the front of the file. -/
theorem scanFrom_readable {fuel offset : Nat} {buf : Bytes} {result : ScanResult}
    (h : scanFrom fuel offset buf = some result) :
    AllReadable result.records ∧ ∃ tail, buf = recordBytes result.records ++ tail := by
  induction fuel generalizing offset buf result with
  | zero =>
    cases h
    exact ⟨by simp [AllReadable], buf, rfl⟩
  | succ fuel ih =>
    rw [scanFrom] at h
    cases hread : Storage.readOne offset buf with
    | ended reason =>
      simp only [hread] at h
      cases h
      exact ⟨by simp [AllReadable], buf, rfl⟩
    | panicked => simp [hread] at h
    | record record rest =>
      simp only [hread] at h
      obtain ⟨later, hlater, rfl⟩ := Option.map_eq_some_iff.mp h
      obtain ⟨hall, tail, htail⟩ := ih hlater
      obtain ⟨header, kind, hpage, hheader, hlog, hlen, hfits, hsum, hkind, hparse, hrecord,
        hrest⟩ := readOne_eq_record hread
      subst hrecord
      obtain ⟨msg, hmsg⟩ := Option.isSome_iff_exists.mp hparse
      have hround : pageSize ≤ roundUpToPage header.unMarshalLen := by
        apply roundUpToPage_ge
        simp only [verifyChecksum, Bool.and_eq_true, decide_eq_true_eq, length_take] at hsum
        omega
      generalize hpad : roundUpToPage header.unMarshalLen = padded at *
      have hpadded : (buf.take padded).length = padded := by
        rw [length_take, min_eq_left hlen]
      have hfront : ∀ n ≤ padded, (buf.take padded).take n = buf.take n := by
        intro n hn
        rw [take_take, min_eq_left hn]
      constructor
      · intro r hr
        rcases mem_cons.mp hr with rfl | hr
        · refine ⟨header, msg, ?_, hlog, ?_, ?_, ?_, ?_, ?_, rfl, rfl, rfl, hpadded.symm⟩
          · rw [hfront _ hround, hheader]
          · rw [hpadded, hpad]
          · rw [hpadded]
            exact hfits
          · rw [hpadded]
            exact hround
          · rw [hfront _ hfits]
            exact hsum
          · rw [hfront _ hfits, hkind]
            exact hmsg
        · exact hall r hr
      · refine ⟨tail, ?_⟩
        rw [recordBytes, flatMap_cons, append_assoc]
        rw [recordBytes, hrest] at htail
        rw [← htail]
        exact (take_append_drop _ _).symm

/-- A record at the front of what arrives is read. -/
theorem readOne_record
    (h : Readable record header msg) (hproper : conn.Proper) {more : Bytes}
    (hbytes : conn.bytes = record.padded ++ more) :
    ∃ rest, readOne conn = .message msg rest ∧ conn.Leaves rest record.padded.length := by
  have hlength : conn.bytes.length = record.padded.length + more.length := by
    rw [hbytes, length_append]
  have hpage := h.pageSize_le
  have hpos := pageSize_pos
  obtain ⟨afterPage, hreadPage, hafter⟩ :=
    @Conn.readUpTo_enough _ pageSize hproper (by omega)
  obtain ⟨rest, hreadBody, hrest⟩ := @Conn.readUpTo_enough
    afterPage (record.padded.length - pageSize) hafter.proper
    (by rw [hafter.bytes, length_drop]; omega)
  have hfirst : conn.bytes.take pageSize = record.padded.take pageSize := by
    rw [hbytes, take_append_of_le_length hpage]
  have hbody : afterPage.bytes.take (record.padded.length - pageSize) =
      record.padded.drop pageSize := by
    rw [hafter.bytes, ← drop_take, hbytes, take_left' rfl]
  have hpageLength : (record.padded.take pageSize).length = pageSize := by
    rw [length_take, min_eq_left hpage]
  obtain ⟨kind, hkind, hparse⟩ := Option.bind_eq_some_iff.mp h.parses
  refine ⟨rest, ?_, ?_, hrest.broken.trans hafter.broken, hrest.proper⟩
  · rw [readOne, hreadPage]
    simp only [hfirst, hpageLength, hpos.ne', lt_irrefl, if_false, h.page, h.loggable,
      Bool.not_true, Bool.false_eq_true, ← h.length, hreadBody, hbody, length_drop,
      take_append_drop, if_neg (not_lt.mpr h.fits), h.checksum, hkind, hparse]
  · rw [hrest.bytes, hafter.bytes, drop_drop, Nat.add_sub_cancel' hpage]

/-- What is read where only a part of a record arrives: the end of the stream when nothing does, and
an error otherwise. -/
theorem readOne_cut
    (h : Readable record header msg) (hproper : conn.Proper)
    (hfront : conn.bytes <+: record.padded) (hlt : conn.bytes.length < record.padded.length) :
    (readOne conn = .ended ∧ conn.broken = false ∧ conn.bytes = []) ∨
      (∃ error, readOne conn = .failed error) ∧ (conn.broken = true ∨ conn.bytes ≠ []) := by
  have hpage := h.pageSize_le
  have hpos := pageSize_pos
  by_cases hshort : conn.bytes.length < pageSize
  · -- the connection ends in the first page
    rcases Conn.readUpTo_spec hproper (le_refl pageSize) with
      ⟨hread, hbroken, -⟩ | ⟨rest, hread, -, hwhole⟩
    · exact .inr ⟨⟨_, by rw [readOne, hread]⟩, .inl hbroken⟩
    · have hbroken := eq_false_of_ne_true (mt hwhole (not_le.mpr hshort))
      rw [take_of_length_le hshort.le] at hread
      by_cases hempty : conn.bytes = []
      · left
        rw [readOne, hread, hempty]
        exact ⟨rfl, hbroken, rfl⟩
      · right
        have hne : conn.bytes.length ≠ 0 := fun hzero => hempty (eq_nil_of_length_eq_zero hzero)
        refine ⟨⟨.record (.shortHeaderPage conn.bytes.length), ?_⟩, .inr hempty⟩
        rw [readOne, hread]
        simp only [if_neg hne, if_pos hshort]
  · -- the header is there, and the connection ends in the body
    right
    have hne : conn.bytes ≠ [] := by
      intro hnil
      rw [hnil] at hshort
      exact hshort hpos
    refine ⟨?_, .inr hne⟩
    obtain ⟨afterPage, hreadPage, hafter⟩ :=
      Conn.readUpTo_enough hproper (not_lt.mp hshort)
    have hfirst : conn.bytes.take pageSize = record.padded.take pageSize := by
      obtain ⟨more, hmore⟩ := hfront
      rw [← hmore, take_append_of_le_length (not_lt.mp hshort)]
    have hpageLength : (record.padded.take pageSize).length = pageSize := by
      rw [length_take, min_eq_left hpage]
    have hbody : afterPage.bytes.length < record.padded.length - pageSize := by
      rw [hafter.bytes, length_drop]
      omega
    rw [readOne, hreadPage]
    simp only [hfirst, hpageLength, hpos.ne', lt_irrefl, if_false, h.page, h.loggable,
      Bool.not_true, Bool.false_eq_true, ← h.length]
    rcases Conn.readUpTo_spec hafter.proper (le_refl (record.padded.length - pageSize)) with
      ⟨hread, -⟩ | ⟨rest, hread, -⟩
    · rw [hread]
      exact ⟨_, rfl⟩
    · rw [hread, take_of_length_le hbody.le]
      exact ⟨_, if_pos hbody⟩

theorem recordBytes_cons (record : Record) (records : List Record) :
    recordBytes (record :: records) = record.padded ++ recordBytes records := flatMap_cons

theorem betweenRecords_cons {n : Nat} :
    betweenRecords (record :: records) n ↔
      n = 0 ∨ ∃ m, n = record.padded.length + m ∧ betweenRecords records m := by
  constructor
  · rintro ⟨k, hk⟩
    cases k with
    | zero => exact .inl hk
    | succ k =>
      rw [take_succ_cons, recordBytes_cons, length_append] at hk
      exact .inr ⟨_, hk, k, rfl⟩
  · rintro (rfl | ⟨m, rfl, k, rfl⟩)
    · exact ⟨0, rfl⟩
    · refine ⟨k + 1, ?_⟩
      rw [take_succ_cons, recordBytes_cons, length_append]

/-- What is read when nothing arrives. -/
theorem readOne_nothing (hproper : conn.Proper) (hempty : conn.bytes = []) :
    readOne conn = if conn.broken then .failed .io else .ended := by
  rcases Conn.readUpTo_spec hproper (le_refl pageSize) with
    ⟨hread, hbroken, -⟩ | ⟨rest, hread, -, hwhole⟩
  · rw [readOne, hread, hbroken]
    rfl
  · rw [hempty] at hread hwhole
    rw [readOne, hread, eq_false_of_ne_true (mt hwhole (by decide))]
    rfl

/-- The client on the first bytes of records: it yields the records that arrive whole, and it fails
unless the connection ends in order between two of them. -/
theorem voteStream_prefix (hreadable : AllReadable records)
    (hproper : conn.Proper) (hfront : conn.bytes <+: recordBytes records) {fuel : Nat}
    (hfuel : conn.bytes.length < fuel) :
    (voteStream fuel conn).1.map some = (arrived records conn.bytes.length).map parsed ∧
      Ends records conn (voteStream fuel conn).2 := by
  induction records generalizing conn fuel with
  | nil =>
    obtain _ | fuel := fuel
    · cases hfuel
    have hempty : conn.bytes = [] := prefix_nil.mp hfront
    rw [voteStream, readOne_nothing hproper hempty]
    cases hbroken : conn.broken with
    | true => exact ⟨rfl, .inr ⟨⟨_, rfl⟩, .inl hbroken⟩⟩
    | false =>
      refine ⟨rfl, .inl ⟨rfl, hbroken, 0, ?_⟩⟩
      rw [hempty]
      rfl
  | cons record records ih =>
    obtain _ | fuel := fuel
    · cases hfuel
    obtain ⟨header, msg, hrecord⟩ := hreadable record mem_cons_self
    have hpos := pageSize_pos
    have hpage := hrecord.pageSize_le
    rw [recordBytes_cons] at hfront
    by_cases hwhole : record.padded.length ≤ conn.bytes.length
    · -- the record arrives whole: go on behind it
      obtain ⟨more, hmore⟩ := prefix_of_prefix_length_le (prefix_append _ _) hfront hwhole
      have hbytes : conn.bytes = record.padded ++ more := hmore.symm
      obtain ⟨rest, hread, hleaves⟩ := readOne_record hrecord hproper hbytes
      have hrest : rest.bytes = more := by
        rw [hleaves.bytes, hbytes, drop_left' rfl]
      have hlength : conn.bytes.length = record.padded.length + rest.bytes.length := by
        rw [hbytes, length_append, hrest]
      have hmorePrefix : rest.bytes <+: recordBytes records := by
        rw [hrest]
        exact (prefix_append_right_inj _).mp (hbytes ▸ hfront)
      obtain ⟨hmessages, hends⟩ :=
        ih (fun r hr => hreadable r (mem_cons_of_mem _ hr)) hleaves.proper hmorePrefix
          (by omega : rest.bytes.length < fuel)
      constructor
      · rw [voteStream, hread, arrived, if_pos hwhole, hlength, add_tsub_cancel_left]
        simp only [map_cons, hmessages, hrecord.parsed_eq]
      · have hplace : betweenRecords (record :: records) conn.bytes.length ↔
            betweenRecords records rest.bytes.length := by
          rw [betweenRecords_cons, hlength]
          constructor
          · rintro (hzero | ⟨m, hm, hbetween⟩)
            · omega
            · obtain rfl : rest.bytes.length = m := by omega
              exact hbetween
          · exact fun hbetween => .inr ⟨_, rfl, hbetween⟩
        rw [voteStream, hread]
        simp only [Ends, hplace, ← hleaves.broken]
        exact hends
    · -- the connection ends in the record
      have hlt : conn.bytes.length < record.padded.length := not_le.mp hwhole
      have hpart : conn.bytes <+: record.padded :=
        prefix_of_prefix_length_le hfront (prefix_append _ _) hlt.le
      rw [voteStream, arrived, if_neg hwhole]
      rcases readOne_cut hrecord hproper hpart
        hlt with ⟨hread, hbroken, hempty⟩ | ⟨⟨error, hread⟩, hwhy⟩
      · rw [hread]
        refine ⟨rfl, .inl ⟨rfl, hbroken, 0, ?_⟩⟩
        rw [hempty]
        rfl
      · rw [hread]
        refine ⟨rfl, .inr ⟨⟨_, rfl⟩, ?_⟩⟩
        rcases hwhy with hbroken | hne
        · exact .inl hbroken
        · right
          rw [betweenRecords_cons]
          rintro (hzero | ⟨m, hm, -⟩)
          · exact hne (eq_nil_of_length_eq_zero hzero)
          · omega

/-! ## The server -/

/-- `send_file` sends the bytes of its span, whatever its reads return. -/
theorem sendFile_eq (hchunk : 0 < config.streamChunk) (content : Bytes)
    {fuel position remaining : Nat} (hfuel : remaining ≤ fuel)
    (hle : position + remaining ≤ content.length) :
    sendFile config content fuel position remaining = (content.drop position).take remaining := by
  induction fuel generalizing position remaining with
  | zero =>
    obtain rfl : remaining = 0 := Nat.le_zero.mp hfuel
    rfl
  | succ fuel ih =>
    rw [sendFile]
    by_cases hzero : remaining = 0
    · rw [if_pos hzero, hzero, take_zero]
    rw [if_neg hzero]
    simp only [take_take]
    -- a round sends between one byte and all that remain
    generalize hn : min (max 1 (config.readCap position)) (min remaining config.streamChunk) = n
    have hpos : 0 < n := by omega
    have hlen : ((content.drop position).take n).length = n := by
      rw [length_take, length_drop]
      omega
    rw [hlen, if_neg hpos.ne', ih (by omega) (by omega), ← drop_drop,
      ← take_add, Nat.add_sub_cancel' (by omega)]

/-- The files hold the data of the logs, from the file at `start` on. -/
def HoldData (files : List Bytes) (start : Nat) (infos : List LogFileInfo) : Prop :=
  ∀ i info, infos[i]? = some info →
    (files.getD (start + i) []).take info.index.dataLen = recordBytes info.scanned.records ∧
      info.index.dataLen = (recordBytes info.scanned.records).length

theorem HoldData.tail (h : HoldData files start (info :: infos)) :
    HoldData files (start + 1) infos := by
  intro i later hlater
  have := h (i + 1) later hlater
  rwa [show start + 1 + i = start + (i + 1) by omega]

/-- What is sent of one file from an offset on. -/
theorem sendFile_span (hchunk : 0 < config.streamChunk)
    (h : HoldData files start (info :: infos)) (offset : Nat) :
    sendFile config (files.getD start []) (info.index.dataLen - offset) offset
        (info.index.dataLen - offset) =
      (recordBytes info.scanned.records).drop offset := by
  obtain ⟨htake, hlen⟩ := h 0 info rfl
  rw [add_zero] at htake
  have hlong : info.index.dataLen ≤ (files.getD start []).length := by
    have := congrArg length htake
    rw [length_take, ← hlen] at this
    omega
  by_cases hle : offset ≤ info.index.dataLen
  · rw [sendFile_eq hchunk _ le_rfl (by omega), ← drop_take, htake]
  · rw [Nat.sub_eq_zero_of_le (by omega), drop_eq_nil_of_le (by omega)]
    rfl

theorem recordBytes_append (records records' : List Record) :
    recordBytes (records ++ records') = recordBytes records ++ recordBytes records' :=
  flatMap_append

theorem allRecords_cons (info : LogFileInfo) (infos : List LogFileInfo) :
    allRecords (info :: infos) = info.scanned.records ++ allRecords infos := flatMap_cons

/-- An empty span is not sent, and nothing would be sent for it. -/
theorem serveVotes_cons (config : SendConfig) (files : List Bytes) (start offset : Nat)
    (info : LogFileInfo) (infos : List LogFileInfo) :
    serveVotes config files (spansFrom start offset (info :: infos)) =
      sendFile config (files.getD start []) (info.index.dataLen - offset) offset
          (info.index.dataLen - offset) ++
        serveVotes config files (spansFrom (start + 1) 0 infos) := by
  rw [spansFrom]
  by_cases hlen : 0 < info.index.dataLen - offset
  · simp only [if_pos hlen, serveVotes, flatMap_cons]
  · simp only [Nat.eq_zero_of_not_pos hlen]
    rfl

/-- What is sent for logs as a whole. -/
theorem serveVotes_whole (hchunk : 0 < config.streamChunk) (h : HoldData files start infos) :
    serveVotes config files (spansFrom start 0 infos) = recordBytes (allRecords infos) := by
  induction infos generalizing start with
  | nil => rfl
  | cons info infos ih =>
    rw [serveVotes_cons, sendFile_span hchunk h, ih h.tail, drop_zero, allRecords_cons,
      recordBytes_append]

/-- What is sent for the spans of logs: the records of the first from an offset on, and those of the
others. -/
theorem serveVotes_spansFrom (hchunk : 0 < config.streamChunk)
    (h : HoldData files start (info :: infos)) (offset : Nat) :
    serveVotes config files (spansFrom start offset (info :: infos)) =
      (recordBytes info.scanned.records).drop offset ++ recordBytes (allRecords infos) := by
  rw [serveVotes_cons, sendFile_span hchunk h, serveVotes_whole hchunk h.tail]

/-! ## The index -/

/-- The index that a scan rebuilds covers its records. -/
theorem covers_index (hdecree : ∀ record ∈ records, record.info.decree < u64Size)
    {before : List Record} {index next : DecreeIndex}
    (hcovers : index.offsets.length ≤ u64Size →
      (tableOf index).Covers voteOf recordSize u64Size before)
    (h : records.foldlM (fun index record =>
      index.addMessage record.info.msgId record.info.decree record.info.paddedLen)
        index = .ok next) :
    next.offsets.length ≤ u64Size →
      (tableOf next).Covers voteOf recordSize u64Size (before ++ records) := by
  induction records generalizing before index with
  | nil =>
    cases h
    rwa [append_nil]
  | cons record records ih =>
    rw [foldlM_cons] at h
    cases hadd : index.addMessage record.info.msgId record.info.decree record.info.paddedLen with
    | error e =>
      rw [hadd] at h
      cases h
    | ok middle =>
      rw [hadd] at h
      have hadds := adds_of_addMessage (hdecree record mem_cons_self) hadd
      have hstep : middle.offsets.length ≤ u64Size →
          (tableOf middle).Covers voteOf recordSize u64Size (before ++ [record]) := by
        intro hfits
        exact (hcovers (hadds.length_le.trans hfits)).adds hadds hfits
      have := ih (fun r hr => hdecree r (mem_cons_of_mem _ hr)) hstep h
      rwa [append_assoc, singleton_append] at this

/-! ## A chain of logs -/

/-- What holds of a log of an open set. -/
structure InfoOk (info : LogFileInfo) : Prop where
  readable : AllReadable info.scanned.records
  dataLen : info.index.dataLen = (recordBytes info.scanned.records).length
  covers : info.index.offsets.length ≤ u64Size →
    (tableOf info.index).Covers voteOf recordSize u64Size info.scanned.records

theorem length_recordBytes (h : AllReadable records) :
    (recordBytes records).length = sizes recordSize records := by
  induction records with
  | nil => rfl
  | cons record records ih =>
    obtain ⟨header, msg, hrecord⟩ := h record mem_cons_self
    rw [recordBytes_cons, length_append, ih fun r hr => h r (mem_cons_of_mem _ hr),
      ← hrecord.info.2.2.2]
    rfl

/-- An opened log and the data of its file. -/
theorem infoOk_of_openLog {content : Bytes} (h : openLog content = some info) :
    InfoOk info ∧ recordBytes info.scanned.records <+: content := by
  rw [openLog] at h
  cases hscan : scan content with
  | none =>
    rw [hscan] at h
    cases h
  | some result =>
    simp only [hscan] at h
    split at h
    · cases h
    · cases hindex : result.index with
      | error e =>
        rw [hindex] at h
        cases h
      | ok index =>
        rw [hindex] at h
        cases h
        obtain ⟨hreadable, tail, htail⟩ := scanFrom_readable hscan
        have hdecree : ∀ record ∈ result.records, record.info.decree < u64Size := by
          intro record hr
          obtain ⟨header, msg, hrecord⟩ := hreadable record hr
          rw [hrecord.info.2.1]
          exact decree_lt hrecord.page
        refine ⟨⟨hreadable, ?_, ?_⟩, htail ▸ prefix_append _ _⟩
        · rw [length_recordBytes hreadable]
          exact result.index_dataLen hindex
        · exact covers_index hdecree (fun _ => LastTable.covers_empty 0) hindex

section Logs

variable {info : LogFileInfo} {decree : Nat}

theorem hasDecree_iff : info.index.hasDecree decree = true ↔
    info.index.offsets ≠ [] ∧ info.index.minDecree ≤ decree ∧ decree ≤ info.index.maxDecree := by
  rw [DecreeIndex.hasDecree, Bool.and_eq_true, Bool.and_eq_true, Bool.not_eq_true',
    isEmpty_eq_false_iff, decide_eq_true_eq, decide_eq_true_eq, and_assoc]

/-- The decrees of a log whose decrees do not wrap. -/
theorem keyAt_eq (hwrap : info.index.minDecree + info.index.offsets.length ≤ u64Size) {i : Nat}
    (hi : i < info.index.offsets.length) :
    (tableOf info.index).keyAt u64Size i = info.index.minDecree + i :=
  Nat.mod_eq_of_lt (by change info.index.minDecree + i < u64Size; omega)

theorem maxDecree_eq (hne : info.index.offsets ≠ [])
    (hwrap : info.index.minDecree + info.index.offsets.length ≤ u64Size) :
    info.index.maxDecree = info.index.minDecree + (info.index.offsets.length - 1) := by
  have hpos := length_pos_iff.mpr hne
  have hempty : ¬ info.index.offsets.isEmpty = true := fun h => hne (isEmpty_iff.mp h)
  rw [DecreeIndex.maxDecree, if_neg hempty, Nat.mod_eq_of_lt (by omega)]
  omega

section

variable (h : InfoOk info) (hwrap : info.index.minDecree + info.index.offsets.length ≤ u64Size)

include h hwrap

/-- The decree of a vote record lies between the first and the last of its log. -/
theorem decree_of_vote {record : Record}
    (hmem : record ∈ info.scanned.records) (hvote : voteOf record = some decree) :
    info.index.offsets ≠ [] ∧ info.index.minDecree ≤ decree ∧ decree ≤ info.index.maxDecree := by
  obtain ⟨i, hi, hkey⟩ := (h.covers (by omega)).keys record hmem decree hvote
  have hi : i < info.index.offsets.length := hi
  rw [keyAt_eq hwrap hi] at hkey
  have hne : info.index.offsets ≠ [] := length_pos_iff.mp (Nat.zero_lt_of_lt hi)
  rw [maxDecree_eq hne hwrap]
  exact ⟨hne, by omega, by omega⟩

/-- The offset that `votes_from` takes is that of the last vote of the decree in the log. -/
theorem offset_eq
    (hhas : info.index.hasDecree decree = true) :
    ∃ before after, info.scanned.records = before ++ after ∧
      info.index.offset decree = some (recordBytes before).length ∧
      fromLast voteOf decree info.scanned.records = some after := by
  obtain ⟨hne, hmin, hmax⟩ := hasDecree_iff.mp hhas
  rw [maxDecree_eq hne hwrap] at hmax
  have hpos := length_pos_iff.mpr hne
  have hentry : decree - info.index.minDecree < info.index.offsets.length := by omega
  obtain ⟨before, after, hsplit, hoffset, hlast⟩ := (h.covers (by omega)).last
    (decree - info.index.minDecree) _ (getElem?_eq_getElem hentry)
  rw [keyAt_eq hwrap hentry, Nat.add_sub_cancel' hmin] at hlast
  have hreadable : AllReadable before := fun r hr =>
    h.readable r (hsplit ▸ mem_append_left _ hr)
  refine ⟨before, after, hsplit, ?_, hlast⟩
  rw [DecreeIndex.offset, hhas, length_recordBytes hreadable, ← hoffset]
  exact getElem?_eq_getElem hentry

end

end Logs

/-! ## What is sent -/

variable {decree : Nat} {records : List Record} {infos : List LogFileInfo}

theorem hasDecree_eq {info : LogFileInfo} (h : InfoOk info)
    (hwrap : info.index.minDecree + info.index.offsets.length ≤ u64Size) :
    info.index.hasDecree decree = (fromLast voteOf decree info.scanned.records).isSome := by
  cases hhas : info.index.hasDecree decree with
  | true =>
    obtain ⟨before, after, -, -, hlast⟩ := offset_eq h hwrap hhas
    rw [hlast]
    rfl
  | false =>
    -- a vote of the decree would lie in the range of the index
    have hnone : fromLast voteOf decree info.scanned.records = none := by
      rw [fromLast_eq_none]
      intro record hmem hvote
      have hdecree := hasDecree_iff.mpr (decree_of_vote h hwrap hmem hvote)
      exact absurd (hhas.symm.trans hdecree) Bool.false_ne_true
    rw [hnone]
    rfl

/-- The log with the votes of a decree, and what is asked for: its records from the last of them on,
and those of the later logs. -/
theorem fromLastVote_split (hok : ∀ info ∈ infos, InfoOk info) (hchain : Chain infos)
    (h : fromLastVote decree infos = some records) :
    ∃ before info later after, infos = before ++ info :: later ∧
      (∀ earlier ∈ before, earlier.index.hasDecree decree = false) ∧
      fromLast voteOf decree info.scanned.records = some after ∧
      records = after ++ allRecords later := by
  induction infos with
  | nil => cases h
  | cons info infos ih =>
    obtain ⟨hrange, hascending⟩ := hchain
    rw [forall_mem_cons] at hok hrange
    rw [pairwise_cons] at hascending
    rw [fromLastVote, allRecords_cons, fromLast_append] at h
    cases hlater : fromLast voteOf decree (allRecords infos) with
    | some later =>
      rw [hlater, Option.some_or] at h
      cases h
      obtain ⟨before, first, rest, after, rfl, hbefore, hfirst, hrecords⟩ :=
        ih hok.2 ⟨hrange.2, hascending.2⟩ hlater
      refine ⟨info :: before, first, rest, after, rfl, ?_, hfirst, hrecords⟩
      refine forall_mem_cons.mpr ⟨?_, hbefore⟩
      -- a log with the decree comes later, so this one has only lower decrees
      have hmem : first ∈ before ++ first :: rest := mem_append_right _ mem_cons_self
      have hhas : first.index.hasDecree decree = true := by
        rw [hasDecree_eq (hok.2 first hmem) (hrange.2 first hmem), hfirst]
        rfl
      have hlt := hascending.1 first hmem
      rw [hasDecree_iff] at hhas
      rw [Bool.eq_false_iff, Ne, hasDecree_iff]
      rintro ⟨hne, -, hle⟩
      have := hlt hne hhas.1
      omega
    | none =>
      rw [hlater, Option.none_or] at h
      obtain ⟨after, hlast, rfl⟩ := Option.map_eq_some_iff.mp h
      exact ⟨[], info, infos, after, rfl, fun _ hmem => absurd hmem not_mem_nil, hlast, rfl⟩

/-- What the server sends for a decree that a log holds. -/
theorem sent_eq {config : SendConfig} {files : List Bytes} (hok : ∀ info ∈ infos, InfoOk info)
    (hchain : Chain infos) (hdata : HoldData files 0 infos) (hchunk : 0 < config.streamChunk)
    (hrecords : fromLastVote decree infos = some records) :
    sent config files infos decree = recordBytes records := by
  have hwrap := hchain.range
  obtain ⟨before, info, later, after, rfl, hbefore, hlast, rfl⟩ :=
    fromLastVote_split hok hchain hrecords
  have hmem : info ∈ before ++ info :: later := mem_append_right _ mem_cons_self
  have hhas : info.index.hasDecree decree = true := by
    rw [hasDecree_eq (hok info hmem) (hwrap info hmem), hlast]
    rfl
  have hstart : (before ++ info :: later).findIdx? (fun info => info.index.hasDecree decree) =
      some before.length := by
    have hnone : before.findIdx? (fun info => info.index.hasDecree decree) = none := by
      rw [findIdx?_eq_none_iff]
      exact hbefore
    rw [findIdx?_append, hnone, findIdx?_cons, hhas]
    simp
  obtain ⟨front, back, hsplit, hoffset, hback⟩ := offset_eq (hok info hmem) (hwrap info hmem) hhas
  cases hback.symm.trans hlast
  have hvotes : votesFrom (before ++ info :: later) decree =
      some (spansFrom before.length (recordBytes front).length (info :: later)) := by
    rw [votesFrom, hstart]
    simp [hoffset]
  have hfrom : HoldData files before.length (info :: later) := by
    intro i log hlog
    have := hdata (before.length + i) log
      (by rwa [getElem?_append_right le_self_add, add_tsub_cancel_left])
    rwa [zero_add] at this
  rw [sent, hvotes]
  simp only
  rw [serveVotes_spansFrom hchunk hfrom, hsplit, recordBytes_append, recordBytes_append,
    drop_left' rfl]

/-! ## The contract -/

theorem arrived_all :
    arrived records (recordBytes records).length = records := by
  induction records with
  | nil => rfl
  | cons record records ih =>
    rw [arrived, recordBytes_cons, length_append, if_pos le_self_add, add_tsub_cancel_left, ih]

theorem arrived_isPrefix (records : List Record) (n : Nat) : arrived records n <+: records := by
  induction records generalizing n with
  | nil => exact prefix_refl _
  | cons record records ih =>
    rw [arrived]
    split
    · exact cons_prefix_cons.mpr ⟨rfl, ih _⟩
    · exact nil_prefix

end Transfer

section Contract

variable {config : SendConfig} {contents files : List Bytes} {infos : List LogFileInfo}
  {decree : Nat}
  {records streamed : List Record} {conn : Conn}

theorem openLog_of_openLogs (hopen : openLogs contents = some infos) {i : Nat} {info : LogFileInfo}
    (hinfo : infos[i]? = some info) : openLog (contents.getD i []) = some info := by
  induction contents generalizing infos i with
  | nil =>
    cases hopen
    cases hinfo
  | cons content contents ih =>
    rw [openLogs, mapM_cons] at hopen
    obtain ⟨first, hfirst, hopen⟩ := Option.bind_eq_some_iff.mp hopen
    obtain ⟨others, hothers, hopen⟩ := Option.bind_eq_some_iff.mp hopen
    cases hopen
    cases i with
    | zero =>
      cases hinfo
      exact hfirst
    | succ i => exact ih hothers hinfo

/-- The logs of an open set, and the files they are sent from. -/
theorem holds_of_openLogs (hopen : openLogs contents = some infos)
    (hfiles : ∀ i info, infos[i]? = some info →
      (files.getD i []).take info.index.dataLen = (contents.getD i []).take info.index.dataLen) :
    (∀ info ∈ infos, InfoOk info) ∧ HoldData files 0 infos := by
  constructor
  · intro info hmem
    obtain ⟨i, hi⟩ := mem_iff_getElem?.mp hmem
    exact (infoOk_of_openLog (openLog_of_openLogs hopen hi)).1
  · intro i info hi
    obtain ⟨hok, hfront⟩ := infoOk_of_openLog (openLog_of_openLogs hopen hi)
    rw [zero_add, hfiles i info hi, hok.dataLen]
    exact ⟨(prefix_iff_eq_take.mp hfront).symm, rfl⟩

theorem allReadable_allRecords (hok : ∀ info ∈ infos, InfoOk info) :
    AllReadable (allRecords infos) := by
  intro record hmem
  obtain ⟨info, hinfo, hrecord⟩ := mem_flatMap.mp hmem
  exact (hok info hinfo).readable record hrecord

/-- The contract of the learn port, for any chain of logs that opens, any decree that a vote record
of them has, and any pieces in which the first bytes of what the server sends arrive. The files may
have grown since the logs were opened. -/
theorem delivers (hopen : openLogs contents = some infos) (hchain : Chain infos)
    (hfiles : ∀ i info, infos[i]? = some info →
      (files.getD i []).take info.index.dataLen = (contents.getD i []).take info.index.dataLen)
    (hchunk : 0 < config.streamChunk) (hrecords : fromLastVote decree infos = some records)
    (hproper : conn.Proper) (hconn : conn.bytes <+: sent config files infos decree) :
    Delivers records (sent config files infos decree) conn := by
  obtain ⟨hok, hdata⟩ := holds_of_openLogs hopen hfiles
  have hreadable : AllReadable records := by
    obtain ⟨_, _, _, hsplit, -⟩ := fromLast_split hrecords
    exact fun record hmem =>
      allReadable_allRecords hok record (hsplit ▸ mem_append_right _ hmem)
  have hsent := sent_eq hok hchain hdata hchunk hrecords
  rw [hsent] at hconn ⊢
  obtain ⟨hmessages, hends⟩ := voteStream_prefix hreadable hproper hconn (lt_add_one _)
  refine ⟨fun hall hbroken => ?_, ?_, hends⟩
  · constructor
    · rw [fetched, hmessages, hall, arrived_all]
    · -- behind the last record there is no cut
      rcases hends with ⟨hclean, -, -⟩ | ⟨-, hbroken' | hcut⟩
      · exact hclean
      · rw [hbroken] at hbroken'
        cases hbroken'
      · exact absurd ⟨records.length, by rw [hall, take_length]⟩ hcut
  · rw [fetched, hmessages]
    exact (arrived_isPrefix _ _).map _

end Contract

namespace Example

/-- A version 1 vote with no requests, as `marshal_with_checksum` produces it, padded to a page. -/
def votePage (checksum : Bytes) (decree ballot : UInt8) : Bytes :=
  [1, 0, 48, 0, 0, 0] ++ checksum ++
    [206, 250, 13, 240, 1, 0, 1, 0, 0, 0, 0, 0, 0, 0, decree, 0, 0, 0,
    0, 0, 0, 0, ballot, 0, 0, 0, 1, 0, 0, 0, 0, 0, 0, 0] ++ replicate 464 0

def voteOne : Bytes := votePage [246, 207, 189, 7, 190, 94, 14, 76] 1 1

def voteOneAgain : Bytes := votePage [242, 1, 181, 82, 95, 34, 192, 23] 1 2

def voteTwo : Bytes := votePage [180, 66, 5, 199, 146, 175, 81, 18] 2 1

/-- A server whose reads return at most a page. -/
def config : SendConfig := ⟨4096, fun _ => 512⟩

def opened (contents : List Bytes) : List LogFileInfo := (openLogs contents).getD []

/-- Decrees 1 and 2, the first of them voted twice, over two logs. -/
def chain : List Bytes := [voteOne ++ voteOneAgain, voteTwo]

/-- The records from the last vote of decree 1 on. -/
def suffix : List Record := (fromLastVote 1 (opened chain)).getD []

/-- Two pages in pieces that do not end with them. -/
def whole : Conn :=
  ⟨[voteOneAgain.take 100, voteOneAgain.drop 100 ++ voteTwo.take 7, voteTwo.drop 7], false⟩

/-- The first page, and an orderly end of the connection. -/
def cut : Conn := ⟨[voteOneAgain], false⟩

end Example

open LearnPort.Example

/-- A fetch of which everything arrives, over a chain of two logs. -/
theorem delivers_chain :
    openLogs chain = some (opened chain) ∧ fromLastVote 1 (opened chain) = some suffix ∧
      suffix.length = 2 ∧ whole.bytes = sent config chain (opened chain) 1 ∧
      Delivers suffix (sent config chain (opened chain) 1) whole := by
  obtain ⟨hopen, hrange, hascending, hrecords, hlength, hall⟩ :
      openLogs chain = some (opened chain) ∧
        (∀ info ∈ opened chain,
          info.index.minDecree + info.index.offsets.length ≤ u64Size) ∧
        ((opened chain).Pairwise fun info later =>
          info.index.offsets ≠ [] → later.index.offsets ≠ [] →
            info.index.maxDecree < later.index.minDecree) ∧
        fromLastVote 1 (opened chain) = some suffix ∧ suffix.length = 2 ∧
        whole.bytes = sent config chain (opened chain) 1 := by
    decide +kernel
  have hproper : whole.Proper := by
    change ∀ chunk ∈ whole.chunks, chunk ≠ []
    decide +kernel
  exact ⟨hopen, hrecords, hlength, hall, delivers hopen ⟨hrange, hascending⟩ (fun _ _ _ => rfl)
    (by decide) hrecords hproper (hall ▸ prefix_refl _)⟩

/-- A connection that ends in order behind the first of two records gives a clean end and not an
error. A server with empty chunks sends nothing, which is a clean end too. -/
theorem clean_end_cut :
    openLogs chain = some (opened chain) ∧ fromLastVote 1 (opened chain) = some suffix ∧
      suffix.length = 2 ∧
      (cut.bytes <+: sent config chain (opened chain) 1 ∧
        cut.bytes ≠ sent config chain (opened chain) 1 ∧
        (fetched cut).1.length = 1 ∧ (fetched cut).2 = .clean) ∧
      sent ⟨0, fun _ => 512⟩ chain (opened chain) 1 = [] ∧ fetched ⟨[], false⟩ = ([], .clean) := by
  decide +kernel

end LearnPort

end Rsl.Storage
