import Rsl.Cpp.Layout
import Rsl.Cpp.Readers

/-!
# Checkpoint headers, written and read

`CheckpointHeader::Marshal` writes its own fields from version 3 on and then the buffers of the next
vote, each in whole pages of 512 bytes, and sets the length to `GetMarshalLen`, which rounds up once
more. The bytes behind the fields are what the buffers held. Before version 3 the header is the vote
alone.

`checkpoint_roundTrip` says what both `UnMarshal` functions return for what was written. It is the
header that was written in versions 4 to 6. Version 3 leaves out whether the state was saved, the
size and the block size, and before version 3 the sender, the greatest ballot and the last executed
decree are those of the vote.
-/

set_option autoImplicit false

namespace Rsl.Cpp

open Lib Wire CheckpointHeader
open List hiding concat

/-! ## Writing -/

/-- A `CheckpointHeader` that is written, with its next vote. -/
structure SavedHeader where
  version : ProtocolVersion
  fields : CheckpointFields
  nextVote : BuiltVote

/-- `ConfigurationInfo::GetMarshalLen`. -/
def ConfigurationInfo.getMarshalLen (info : ConfigurationInfo) (version : ProtocolVersion) : Nat :=
  (4 + 8 + MemberSet.getMarshalLen info.memberSet version) % word

/-- `CheckpointHeader::GetMarshalLen`, for a vote of `voteLen` bytes. -/
def checkpointLen (version : ProtocolVersion) (stateConfiguration : Option ConfigurationInfo)
    (voteLen : Nat) : Nat :=
  let len := LogFile.roundUpToPage voteLen
  let len := if version.raw ≥ 3 then
    (len + (2 + 4 + 8 + MemberId.baseSize version + 8 + BallotNumber.baseSize version +
      (stateConfiguration.map (·.getMarshalLen version)).getD 0)) % word else len
  let len := if version.raw ≥ 4 then (len + (1 + 8 + 4)) % word else len
  LogFile.roundUpToPage len

def SavedHeader.getMarshalLen (saved : SavedHeader) : Nat :=
  checkpointLen saved.version saved.fields.stateConfiguration saved.nextVote.getMarshalLen

/-- `GetMarshalLen` of a header that was read: its vote has the length of its buffer. -/
def CheckpointHeader.getMarshalLen (header : CheckpointHeader) : Nat :=
  checkpointLen header.version header.fields.stateConfiguration
    (header.nextVote.marshal.length % word)

/-- `ConfigurationInfo::Marshal`. -/
def ConfigurationInfo.marshal (info : ConfigurationInfo) (fill : Fill) (version : ProtocolVersion) :
    Writer :=
  concat [writeU32 info.configurationNumber, writeU64 info.initialDecree,
    MemberSet.marshal info.memberSet fill version]

/-- What a buffer holds up to whole pages: its valid bytes and what stands behind them. -/
def Memory.pages (memory : Memory) (behind : Nat → UInt8) : Bytes :=
  let len := LogFile.roundUpToPage memory.bytes.length
  (memory.bytes ++ (range (len - memory.bytes.length)).map behind).take len

/-- The buffers of `GetBuffers`, with the header in the first one. -/
def BuiltVote.getBuffers (vote : BuiltVote) (fill : Fill) (behind : Nat → Nat → UInt8) :
    Writer := do
  let header ← Header.marshal vote.fields.header fill vote.getMarshalLen
  match vote.buffers with
  | [] => .error .panicked
  | first :: rest =>
    let first :=
      { first with
        bytes := header ++ first.bytes.drop (Header.baseSize vote.fields.header.version) }
    return ((first :: rest).mapIdx fun i memory => memory.pages (behind i)).flatten

/-- The fields that `CheckpointHeader::Marshal` writes before the vote. -/
def SavedHeader.writeFields (saved : SavedHeader) (fill : Fill) : Writer :=
  let version := saved.version
  let fields := saved.fields
  concat
    [writeIf (version.raw ≥ 3) (concat
      [writeU16 version.raw, writeU32 saved.getMarshalLen, writeU64 fields.checksum,
        MemberId.marshal fields.memberId (fill .sender) version, writeU64 fields.lastExecutedDecree,
        BallotNumber.marshal fields.maxBallot (fill .maxBallot) version,
        match fields.stateConfiguration with
        | some info => info.marshal fill version
        | none => .error .panicked]),
      writeIf (version.raw ≥ 4) (concat
        [writeBool fields.stateSaved, writeU64 fields.size, writeU32 fields.checksumBlockSize])]

/-- `CheckpointHeader::Marshal`: `SetMarshaledLength` at the end cuts or extends what was written,
and `tail` is what the buffer held. -/
def SavedHeader.marshal (saved : SavedHeader) (fill : Fill) (behind : Nat → Nat → UInt8)
    (tail : Nat → UInt8) : Writer := do
  let written ← concat [saved.writeFields fill,
    saved.nextVote.getBuffers (fun slot => fill (.nested slot)) behind]
  let len := saved.getMarshalLen
  return (written ++ (range (len - written.length)).map tail).take len

/-! ## The vote's pages -/

/-- All buffers but the last are whole pages. -/
def BuiltVote.Paged (vote : BuiltVote) : Prop := ∀ memory ∈ vote.full, 512 ∣ memory.bytes.length

theorem Memory.pages_eq {memory : Memory} (h : memory.bytes.length + 512 ≤ word)
    (behind : Nat → UInt8) :
    memory.pages behind = memory.bytes ++
      (range (wholePages memory.bytes.length - memory.bytes.length)).map behind := by
  have hle := le_wholePages memory.bytes.length
  rw [Memory.pages, roundUpToPage_eq_wholePages h]
  refine take_of_length_le ?_
  rw [length_append, length_map, length_range]
  omega

theorem Memory.pages_whole {memory : Memory} (h : memory.bytes.length + 512 ≤ word)
    (hwhole : 512 ∣ memory.bytes.length) (behind : Nat → UInt8) :
    memory.pages behind = memory.bytes := by
  obtain ⟨k, hk⟩ := hwhole
  have hpages : wholePages memory.bytes.length = memory.bytes.length := by
    rw [wholePages]
    omega
  rw [Memory.pages_eq h, hpages, tsub_self]
  exact append_nil _

/-- Only the last buffer is filled up. -/
theorem flatten_pages {full : List Memory} {back : Memory} (behind : Nat → Nat → UInt8)
    (hwhole : ∀ memory ∈ full, 512 ∣ memory.bytes.length)
    (hfits : ((full ++ [back]).map Memory.bytes).flatten.length + 512 ≤ word) :
    (((full ++ [back]).mapIdx fun i memory => memory.pages (behind i)).flatten =
      (full.map Memory.bytes).flatten ++ back.pages (behind full.length)) := by
  induction full generalizing behind with
  | nil => simp
  | cons memory full ih =>
    rw [cons_append, map_cons, flatten_cons, length_append] at hfits
    rw [cons_append, mapIdx_cons, flatten_cons,
      Memory.pages_whole (by omega) (hwhole memory mem_cons_self),
      ih (fun i => behind (i + 1)) (fun m hm => hwhole m (mem_cons_of_mem _ hm)) (by omega)]
    simp

/-- Whole pages before the last buffer do not change what it lacks to a page. -/
theorem wholePages_add {m : Nat} (hm : 512 ∣ m) (n : Nat) :
    wholePages (m + n) = m + wholePages n := by
  obtain ⟨k, rfl⟩ := hm
  rw [wholePages, wholePages]
  omega

theorem pages_of_buffers {full : List Memory} {back : Memory} (behind : Nat → Nat → UInt8)
    (hwhole : ∀ memory ∈ full, 512 ∣ memory.bytes.length)
    (hfits : ((full ++ [back]).map Memory.bytes).flatten.length + 512 ≤ word) :
    ∃ pad, ((full ++ [back]).mapIdx fun i memory => memory.pages (behind i)).flatten =
        ((full ++ [back]).map Memory.bytes).flatten ++ pad ∧
      (((full ++ [back]).map Memory.bytes).flatten ++ pad).length =
        wholePages ((full ++ [back]).map Memory.bytes).flatten.length := by
  have hsplit : ((full ++ [back]).map Memory.bytes).flatten =
      (full.map Memory.bytes).flatten ++ back.bytes := by simp
  have hdvd : 512 ∣ (full.map Memory.bytes).flatten.length := by
    rw [length_flatten]
    refine dvd_sum fun n hn => ?_
    obtain ⟨bytes, hbytes, rfl⟩ := mem_map.mp hn
    obtain ⟨memory, hm, rfl⟩ := mem_map.mp hbytes
    exact hwhole memory hm
  have hback : back.bytes.length + 512 ≤ word := by
    rw [hsplit, length_append] at hfits
    omega
  have hle := le_wholePages back.bytes.length
  refine ⟨(range (wholePages back.bytes.length - back.bytes.length)).map (behind full.length),
    ?_, ?_⟩
  · rw [flatten_pages behind hwhole hfits, Memory.pages_eq hback, hsplit, append_assoc]
  · rw [hsplit, length_append, length_append, wholePages_add hdvd, length_map, length_range]
    omega

namespace BuiltVote

variable {vote : BuiltVote} {body : Bytes} {fill : Fill}

/-- The first buffer with the header put into its place. -/
def headed (vote : BuiltVote) (header : Bytes) : BuiltVote :=
  let place := fun memory : Memory =>
    { memory with
      bytes := header ++ memory.bytes.drop (Header.baseSize vote.fields.header.version) }
  match vote.full with
  | [] => { vote with back := place vote.back }
  | memory :: full => { vote with full := place memory :: full }

theorem getBuffers_eq (vote : BuiltVote) (fill : Fill) (behind : Nat → Nat → UInt8) :
    vote.getBuffers fill behind = (Header.marshal vote.fields.header fill vote.getMarshalLen).map
      fun header =>
        ((vote.headed header).buffers.mapIdx fun i memory => memory.pages (behind i)).flatten := by
  rw [getBuffers]
  cases Header.marshal vote.fields.header fill vote.getMarshalLen with
  | error e => rfl
  | ok header =>
    cases hfull : vote.full with
    | nil | cons memory full =>
      simp [buffers, headed, hfull, Except.map, bind, Except.bind, pure, Except.pure]

theorem Holds.headed_bytes (h : vote.Holds body) (header : Bytes) :
    (vote.headed header).bytes = header ++ body := by
  have hdrop := h.drop_first
  rw [BuiltVote.first] at hdrop
  cases hfull : vote.full with
  | nil | cons memory full =>
    rw [hfull] at hdrop
    simpa [BuiltVote.bytes, buffers, headed, hfull] using hdrop

theorem Paged.headed (h : vote.Paged) (hholds : vote.Holds body) {header : Bytes}
    (hheader : header.length = Header.baseSize vote.fields.header.version) :
    (vote.headed header).Paged := by
  have hfirst := hholds.first
  rw [BuiltVote.first] at hfirst
  cases hfull : vote.full with
  | nil =>
    rw [Paged, BuiltVote.headed, hfull]
    exact fun _ hm => absurd hm not_mem_nil
  | cons memory full =>
    rw [hfull] at hfirst
    have hfirst : Header.baseSize vote.fields.header.version ≤ memory.bytes.length := hfirst
    rw [Paged, hfull] at h
    rw [Paged, BuiltVote.headed, hfull]
    intro other hm
    rcases mem_cons.mp hm with hsame | hm
    · -- The header takes the bytes that were kept for it.
      have hlen : (header ++ memory.bytes.drop (Header.baseSize vote.fields.header.version)).length
          = memory.bytes.length := by
        rw [length_append, length_drop]
        omega
      rw [hsame, hlen]
      exact h memory mem_cons_self
    · exact h other (mem_cons_of_mem _ hm)

/-- `GetBuffers` gives the marshalled vote, filled up to whole pages. -/
theorem Holds.getBuffers_eq_ok (h : vote.Holds body) (hpaged : vote.Paged) {bytes : Bytes}
    (hbytes : vote.marshal fill = .ok bytes) (hfits : bytes.length + 512 ≤ word)
    (behind : Nat → Nat → UInt8) :
    ∃ pad, vote.getBuffers fill behind = .ok (bytes ++ pad) ∧
      (bytes ++ pad).length = wholePages bytes.length := by
  rw [h.marshal_eq] at hbytes
  obtain ⟨header, rest, hheader, hrest, rfl⟩ := concat_cons_eq_ok hbytes
  obtain ⟨_, _, ⟨⟩, ⟨⟩, rfl⟩ := concat_cons_eq_ok hrest
  rw [append_nil] at hfits ⊢
  have hbuffers := h.headed_bytes header
  rw [BuiltVote.bytes, buffers] at hbuffers
  rw [← hbuffers] at hfits
  obtain ⟨pad, hpad, hlen⟩ := pages_of_buffers behind
    (hpaged.headed h (Header.writes _ fill _ header hheader)) hfits
  rw [hbuffers] at hpad hlen
  refine ⟨pad, ?_, hlen⟩
  rw [BuiltVote.getBuffers_eq, hheader]
  exact congrArg Except.ok hpad

end BuiltVote

namespace BuiltVote

variable {vote vote' : BuiltVote}

theorem Paged.makeRoom (h : vote.Paged) {spaceNeeded : Nat}
    (hroom : vote.makeRoom spaceNeeded = .ok vote') :
    vote'.Paged := by
  rw [BuiltVote.makeRoom] at hroom
  split_ifs at hroom with hfull
  · obtain ⟨newMemory, -, hroom⟩ := bind_eq_ok.mp hroom
    cases hroom
    rw [Paged]
    dsimp only
    split_ifs
    · exact h
    · intro memory hm
      rcases mem_append.mp hm with hm | hm
      · exact h memory hm
      · rw [mem_singleton.mp hm, length_take]
        -- What stays behind ends at a page of 4096 bytes.
        omega
  · cases hroom
    exact h

theorem Paged.addRequest (h : vote.Paged) {req : Bytes} (hadd : vote.addRequest req = .ok vote') :
    vote'.Paged := by
  rw [BuiltVote.addRequest] at hadd
  split_ifs at hadd
  obtain ⟨roomy, hroomy, hadd⟩ := bind_eq_ok.mp hadd
  obtain ⟨back, -, hadd⟩ := bind_eq_ok.mp hadd
  cases hadd
  have hpaged := h.makeRoom hroomy
  exact hpaged

theorem Paged.addRequests {requests : List Bytes} (h : vote.Paged)
    (hadd : requests.foldlM BuiltVote.addRequest vote = .ok vote') : vote'.Paged := by
  induction requests generalizing vote with
  | nil =>
    cases hadd
    exact h
  | cons req requests ih =>
    rw [foldlM_cons] at hadd
    obtain ⟨next, hnext, hadd⟩ := bind_eq_ok.mp hadd
    exact ih (h.addRequest hnext) hadd

end BuiltVote

theorem Vote.paged_of_construct {fill : Fill} {vote : Wire.Vote} {built : BuiltVote}
    (h : Vote.construct fill vote = .ok built) : built.Paged := by
  obtain ⟨start, hstart, h⟩ := bind_eq_ok.mp h
  obtain ⟨hfull, -⟩ := Vote.init_one hstart
  refine BuiltVote.Paged.addRequests ?_ h
  rw [BuiltVote.Paged, hfull]
  exact fun _ hm => absurd hm not_mem_nil

/-! ## The fields -/

/-- The configuration can be written in a version and read back. -/
structure ConfigurationInfo.Storable (version : ProtocolVersion) (info : ConfigurationInfo) :
    Prop where
  configurationNumber : info.configurationNumber < 4294967296
  initialDecree : info.initialDecree < 18446744073709551616
  memberSet : (carriedSet version info.memberSet).Readable version
  names : namesFit info.memberSet = true

/-- The configuration with the ports that its version carries. -/
def ConfigurationInfo.carried (version : ProtocolVersion) (info : ConfigurationInfo) :
    ConfigurationInfo :=
  { info with memberSet := carriedSet version info.memberSet }

/-- The writer succeeds, and the reader reads its bytes as `a`. -/
def Stores {α : Type} (w : Writer) (p : Reader α) (a : α) : Prop :=
  ∃ bytes, w = .ok bytes ∧ Prog.Reads p bytes a

section Stores

variable {α β : Type} {w : Writer} {ws : List Writer} {p : Reader α} {q : Wire.Reader α}
  {k : α → Reader β}
  {a : α} {b : β}

theorem Stores.cons (h : Stores w p a) (hrest : Stores (concat ws) (k a) b) :
    Stores (concat (w :: ws)) (p >>= k) b := by
  obtain ⟨first, hfirst, hreads⟩ := h
  obtain ⟨rest, hwrite, hreads'⟩ := hrest
  exact ⟨first ++ rest, concat_cons_ok hfirst hwrite, hreads.bind hreads'⟩

theorem stores_nil (a : α) : Stores (concat []) (pure a) a := ⟨[], rfl, Prog.reads_pure a⟩

theorem Stores.of_matches (h : Prog.Matches p q) (henc : Encodes w q a) : Stores w p a := by
  obtain ⟨bytes, hbytes, hreads⟩ := henc
  exact ⟨bytes, hbytes, h.reads hreads⟩

end Stores

variable {version : ProtocolVersion}

theorem ConfigurationInfo.stores {info : ConfigurationInfo}
    (h : info.Storable version) (fill : Fill) :
    Stores (info.marshal fill version) (ConfigurationInfo.unMarshal version)
      (info.carried version) := by
  obtain ⟨bytes, hbytes, hreads⟩ := MemberSet.encodes h.memberSet h.names fill
  have hnames := (namesFit_iff _).mp ((namesFit_carriedSet version info.memberSet).trans h.names)
  have hset : Stores (MemberSet.marshal info.memberSet fill version) (MemberSet.unMarshal version)
      (carriedSet version info.memberSet) :=
    ⟨bytes, hbytes, (MemberSet.sim_unMarshal version).covers.reads hreads hnames⟩
  exact (Stores.of_matches matches_readUInt32 (encodes_u32 h.configurationNumber)).cons
    ((Stores.of_matches matches_readUInt64 (encodes_u64 h.initialDecree)).cons
      (hset.cons (stores_nil _)))

/-- The fields can be written in a version and read back. -/
structure CheckpointFields.Storable (version : ProtocolVersion) (fields : CheckpointFields) :
    Prop where
  checksum : fields.checksum < 18446744073709551616
  memberId : fields.memberId.Representable version
  lastExecutedDecree : fields.lastExecutedDecree < 18446744073709551616
  maxBallot : fields.maxBallot.WellFormed version
  stateConfiguration : ∃ info, fields.stateConfiguration = some info ∧ info.Storable version
  size : fields.size < 18446744073709551616
  checksumBlockSize : fields.checksumBlockSize < 4294967296

/-- The fields as a version from 3 on carries them. -/
def CheckpointFields.carried (version : ProtocolVersion) (marshalLen : Nat)
    (fields : CheckpointFields) :
    CheckpointFields :=
  { fields with
    unMarshalLen := marshalLen
    stateConfiguration := fields.stateConfiguration.map (·.carried version)
    stateSaved := if version.raw ≥ 4 then fields.stateSaved else true
    size := if version.raw ≥ 4 then fields.size else 0
    checksumBlockSize := if version.raw ≥ 4 then fields.checksumBlockSize else 0 }

/-- The bytes before the vote. -/
def fieldsSize (version : ProtocolVersion) (stateConfiguration : Option ConfigurationInfo) : Nat :=
  (if version.raw ≥ 3 then
    2 + 4 + 8 + MemberId.baseSize version + 8 + BallotNumber.baseSize version +
      (stateConfiguration.map fun info => 4 + 8 + info.memberSet.size version).getD 0 else 0) +
  (if version.raw ≥ 4 then 1 + 8 + 4 else 0)

theorem concat_concat (ws vs : List Writer) : concat (concat ws :: vs) = concat (ws ++ vs) := by
  induction ws with
  | nil =>
    rw [nil_append, concat, concat]
    cases concat vs <;> rfl
  | cons w ws ih =>
    simp only [cons_append, concat] at ih ⊢
    rw [← ih]
    cases w with
    | error e => rfl
    | ok first =>
      cases concat ws with
      | error e => rfl
      | ok rest =>
        cases concat vs with
        | error e => rfl
        | ok last =>
          show Except.ok (first ++ rest ++ last) = Except.ok (first ++ (rest ++ last))
          rw [append_assoc]

/-- The fields of version 4. -/
theorem CheckpointFields.stores_last {fields : CheckpointFields}
    (h : fields.Storable version) (marshalLen : Nat) (info : ConfigurationInfo) :
    Stores (concat [writeIf (version.raw ≥ 4) (concat
        [writeBool fields.stateSaved, writeU64 fields.size, writeU32 fields.checksumBlockSize])])
      (do
        let stateSaved ← Cpp.readIf (version.raw ≥ 4) Cpp.readBool true
        let size ← Cpp.readIf (version.raw ≥ 4) readUInt64 0
        let checksumBlockSize ← Cpp.readIf (version.raw ≥ 4) readUInt32 0
        return ⟨marshalLen, fields.checksum, fields.memberId, fields.lastExecutedDecree,
          fields.maxBallot,
          some info, stateSaved, size, checksumBlockSize⟩)
      { fields.carried version marshalLen with stateConfiguration := some info } := by
  rw [CheckpointFields.carried]
  by_cases hversion : version.raw ≥ 4
  · simp only [decide_eq_true hversion, if_pos hversion]
    rw [writeIf, if_pos rfl, concat_concat]
    exact (Stores.of_matches matches_readBool (encodes_bool _)).cons
      ((Stores.of_matches matches_readUInt64 (encodes_u64 h.size)).cons
      ((Stores.of_matches matches_readUInt32 (encodes_u32 h.checksumBlockSize)).cons
        (stores_nil _)))
  · simp only [decide_eq_false hversion, if_neg hversion]
    exact ⟨[], rfl, fun _ => rfl⟩

/-- The fields after the version are read back. -/
theorem CheckpointFields.stores {fields : CheckpointFields}
    (h : fields.Storable version) {marshalLen : Nat} (hlen : marshalLen < 4294967296)
    (fill : Fill) :
    Stores (concat
      [writeU32 marshalLen, writeU64 fields.checksum,
        MemberId.marshal fields.memberId (fill .sender) version,
        writeU64 fields.lastExecutedDecree,
        BallotNumber.marshal fields.maxBallot (fill .maxBallot) version,
        (match fields.stateConfiguration with
        | some info => info.marshal fill version
        | none => .error .panicked),
        writeIf (version.raw ≥ 4) (concat
          [writeBool fields.stateSaved, writeU64 fields.size, writeU32 fields.checksumBlockSize])])
      (CheckpointFields.unMarshal version) (fields.carried version marshalLen) := by
  obtain ⟨info, hinfo, hstorable⟩ := h.stateConfiguration
  have hcarried : fields.carried version marshalLen =
      { fields.carried version marshalLen with
        stateConfiguration := some (info.carried version) } := by
    rw [CheckpointFields.carried, hinfo]
    rfl
  rw [hinfo, hcarried]
  exact (Stores.of_matches matches_readUInt32 (encodes_u32 hlen)).cons
    ((Stores.of_matches matches_readUInt64 (encodes_u64 h.checksum)).cons
    ((Stores.of_matches (MemberId.matches_unMarshal version) (MemberId.encodes h.memberId _)).cons
    ((Stores.of_matches matches_readUInt64 (encodes_u64 h.lastExecutedDecree)).cons
    ((Stores.of_matches (BallotNumber.matches_unMarshal version)
      (BallotNumber.encodes h.maxBallot _)).cons
    ((ConfigurationInfo.stores hstorable fill).cons
      (CheckpointFields.stores_last h marshalLen (info.carried version)))))))

/-! ## The vote behind the fields -/

/-- The vote is read in a longer buffer as it is alone. -/
theorem Vote.unMarshal_within {fuel : Nat} {pre bytes post : Bytes} {vote : Vote}
    (h : Vote.unMarshal fuel bytes 0 = .ok (vote, bytes.length))
    (hword : (pre ++ bytes ++ post).length < word) :
    Vote.unMarshal fuel (pre ++ bytes ++ post) pre.length =
      .ok (vote, pre.length + bytes.length) := by
  obtain ⟨f, pos, hcopy, hfields, rfl, q, hreqs⟩ := Vote.unMarshal_eq_ok h
  obtain ⟨⟨_, hheader⟩, hmsg, hround, hle, hdata, hend⟩ := Vote.copyOut_eq_ok hcopy
  rw [zero_add] at hend
  rw [drop_zero, ← hend, take_length] at hdata
  have hdrop : (pre ++ bytes ++ post).drop pre.length = bytes ++ post := by
    rw [append_assoc, drop_left]
  have hlength : (pre ++ bytes ++ post).length = pre.length + bytes.length + post.length := by
    rw [length_append, length_append]
  have hexact := Prog.exact_append (Prog.exact_of_cursor hheader) post
  rw [drop_zero, ← hdrop] at hexact
  have hcursor := Prog.cursor_of_exact (by omega) hword hexact
  obtain ⟨-, -, hbase, hlen⟩ := Header.unMarshal_eq_ok (Prog.exact_of_cursor hheader)
  have hbaseSize := (Header.baseSize_le vote.header.version).1
  have hcopied : Vote.copyOut (pre ++ bytes ++ post) pre.length =
      .ok ((vote.header, vote.marshal), pre.length + bytes.length) := by
    rw [Vote.copyOut_eq hcursor (by omega), if_neg (not_not.mpr hmsg), if_neg (not_not.mpr hround),
      Nat.mod_eq_of_lt (by omega), if_neg (by omega), if_neg (by omega), hdrop, ← hend, take_left,
      hdata]
  rw [Vote.unMarshal_eq, hcopied, bind_ok, hfields, bind_ok, hreqs, bind_ok]

/-- What the reader makes of a vote: the fields that are marshalled, with the length. -/
def BuiltVote.received (vote : BuiltVote) (length : Nat) : Wire.Vote :=
  { carriedVote vote.fields with
    header := { carriedHeader vote.fields.header with unMarshalLen := length } }

/-- A vote that is marshalled and read back, with the checksum of its bytes in its header. -/
structure BuiltVote.Sealed (vote : BuiltVote) (fill : Fill) (fuel : Nat) (bytes : Bytes)
    (read : Vote) : Prop where
  holds : ∃ body, vote.Holds body
  paged : vote.Paged
  marshal : vote.marshal fill = .ok bytes
  reads : Vote.unMarshal fuel bytes 0 = .ok (read, bytes.length)
  fields : read.raw = some (vote.received bytes.length)
  checksum : read.header.checksum = fingerprint (bytes.drop (checksumOffset + 8))

theorem Vote.header_of_raw {vote : Vote} {v : Wire.Vote} (h : vote.raw = some v) :
    vote.header = v.header := by
  obtain ⟨cookie, -, h⟩ := Option.bind_eq_some_iff.mp h
  obtain ⟨requests, -, h⟩ := Option.bind_eq_some_iff.mp h
  exact congrArg Wire.Vote.header (Option.some.inj h)

namespace BuiltVote.Sealed

variable {vote : BuiltVote} {fill : Fill} {fuel : Nat} {bytes : Bytes} {read : Vote}

section

variable (h : vote.Sealed fill fuel bytes read)

include h

theorem unMarshalLen_eq :
    read.header.unMarshalLen = bytes.length ∧ read.marshal = bytes := by
  obtain ⟨f, pos, hcopy, -⟩ := Vote.unMarshal_eq_ok h.reads
  obtain ⟨-, -, -, -, hdata, hend⟩ := Vote.copyOut_eq_ok hcopy
  rw [zero_add] at hend
  rw [drop_zero, ← hend, take_length] at hdata
  exact ⟨hend.symm, hdata⟩

theorem getMarshalLen_eq : vote.getMarshalLen = bytes.length % word := by
  obtain ⟨body, hbody⟩ := h.holds
  have hbytes := h.marshal
  rw [hbody.marshal_eq] at hbytes
  obtain ⟨header, rest, hheader, hrest, rfl⟩ := concat_cons_eq_ok hbytes
  obtain ⟨_, _, ⟨⟩, ⟨⟩, rfl⟩ := concat_cons_eq_ok hrest
  rw [hbody.getMarshalLen_eq, length_append, append_nil, Header.writes _ fill _ header hheader]

/-- `VerifyChecksum` passes where the vote stands in a longer buffer. -/
theorem verifyChecksumAt (pre post : Bytes) :
    Cpp.verifyChecksumAt (pre ++ bytes ++ post) pre.length read.header = true := by
  rw [Cpp.verifyChecksumAt, append_assoc, drop_left, h.unMarshalLen_eq.1, take_left, h.checksum]
  exact beq_self_eq_true _

end

end BuiltVote.Sealed

/-! ## Lengths -/

theorem checkpointLen_eq {version : ProtocolVersion} {config : Option ConfigurationInfo} {n : Nat}
    (hfits : fieldsSize version config + wholePages n + 512 ≤ word) :
    checkpointLen version config n = wholePages (wholePages n + fieldsSize version config) := by
  have hn := le_wholePages n
  have hcount : (config.map (·.getMarshalLen version)).getD 0 % word =
      (config.map fun info => 4 + 8 + info.memberSet.size version).getD 0 % word := by
    cases config with
    | none => rfl
    | some info =>
      show info.getMarshalLen version % word = (4 + 8 + info.memberSet.size version) % word
      rw [ConfigurationInfo.getMarshalLen, MemberSet.getMarshalLen_eq, Nat.add_mod_mod, Nat.mod_mod]
  rw [checkpointLen, roundUpToPage_eq_wholePages (by omega : n + 512 ≤ word),
    ← roundUpToPage_eq_wholePages
      (by omega : wholePages n + fieldsSize version config + 512 ≤ word)]
  -- The sums are exact, since what they count fits a word.
  congr 1
  rw [fieldsSize] at hfits ⊢
  have hword := word_eq
  rw [hword] at hfits hcount ⊢
  split_ifs at hfits ⊢ <;> omega

theorem SavedHeader.writes_fields {saved : SavedHeader}
    (h : saved.version.raw ≥ 3 → saved.fields.Storable saved.version) (fill : Fill) :
    Writes (saved.writeFields fill) (fieldsSize saved.version saved.fields.stateConfiguration) := by
  have hlast : Writes (writeIf (saved.version.raw ≥ 4) (concat
      [writeBool saved.fields.stateSaved, writeU64 saved.fields.size,
        writeU32 saved.fields.checksumBlockSize]))
          (if saved.version.raw ≥ 4 then 1 + 8 + 4 else 0) := by
    have hfields := ((writes_ok [if saved.fields.stateSaved then 1 else 0]).cons
      ((writes_leBytes 8 saved.fields.size).cons
      ((writes_leBytes 4 saved.fields.checksumBlockSize).cons writes_nil))).ite
        (c := saved.version.raw ≥ 4)
    intro bytes hbytes
    rw [hfields bytes hbytes]
    simp
  by_cases hversion : saved.version.raw ≥ 3
  · obtain ⟨info, hinfo, hstorable⟩ := (h hversion).stateConfiguration
    have hmembers := hstorable.memberSet.1.members
    rw [carriedSet, length_map] at hmembers
    have hconfig : Writes (info.marshal fill saved.version)
        (4 + (8 + (info.memberSet.size saved.version + 0))) :=
      (writes_leBytes 4 _).cons ((writes_leBytes 8 _).cons
        ((MemberSet.writes hmembers fill saved.version).cons writes_nil))
    have hfields := (((writes_leBytes 2 saved.version.raw).cons
      ((writes_leBytes 4 saved.getMarshalLen).cons ((writes_leBytes 8 saved.fields.checksum).cons
      ((MemberId.writes saved.fields.memberId (fill .sender) saved.version).cons
      ((writes_leBytes 8 saved.fields.lastExecutedDecree).cons
      ((BallotNumber.writes saved.fields.maxBallot (fill .maxBallot) saved.version).cons
      (hconfig.cons writes_nil)))))))).cons (hlast.cons writes_nil)
    intro bytes hbytes
    rw [SavedHeader.writeFields, hinfo, decide_eq_true hversion] at hbytes
    rw [hfields bytes hbytes, fieldsSize, hinfo, if_pos hversion]
    show _ = 2 + 4 + 8 + Wire.MemberId.baseSize saved.version + 8 +
      Wire.BallotNumber.baseSize saved.version +
      (4 + 8 + info.memberSet.size saved.version) + _
    omega
  · intro bytes hbytes
    rw [SavedHeader.writeFields, decide_eq_false hversion] at hbytes
    rw [((writes_ok []).cons (hlast.cons writes_nil)) bytes hbytes, fieldsSize, if_neg hversion]
    simp

/-! ## Reading back -/

/-- A header that can be written, with a sealed next vote that is marshalled to `bytes` and read as
`read`. -/
structure SavedHeader.Storable (saved : SavedHeader) (fill : Fill) (fuel : Nat) (bytes : Bytes)
    (read : Vote) : Prop where
  version : 1 ≤ saved.version.raw ∧ saved.version.raw ≤ 6
  nextVote : saved.nextVote.Sealed (fun slot => fill (.nested slot)) fuel bytes read
  fields : saved.version.raw ≥ 3 → saved.fields.Storable saved.version
  ballot : saved.version.raw ≥ 3 →
    BallotNumber.less saved.fields.maxBallot read.header.ballot = false
  old : saved.version.raw < 3 → read.header.version = saved.version
  fits : fieldsSize saved.version saved.fields.stateConfiguration +
    wholePages bytes.length + 512 ≤ word

/-- The header that is read: before version 3 the vote is all there is. -/
def SavedHeader.loaded (saved : SavedHeader) (read : Vote) : CheckpointHeader :=
  ⟨saved.version,
    if saved.version.raw ≥ 3 then saved.fields.carried saved.version saved.getMarshalLen
    else
      { memberId := read.header.memberId
        maxBallot := read.header.ballot
        lastExecutedDecree := (read.header.decree + 18446744073709551615) % 18446744073709551616 },
    read⟩

namespace SavedHeader.Storable

variable {saved : SavedHeader} {fill : Fill} {fuel : Nat} {bytes : Bytes} {read : Vote}

section

variable (h : saved.Storable fill fuel bytes read)

include h

theorem getMarshalLen_eq :
    saved.getMarshalLen =
      wholePages
        (wholePages bytes.length + fieldsSize saved.version saved.fields.stateConfiguration) := by
  have hle := le_wholePages bytes.length
  have hfits := h.fits
  rw [SavedHeader.getMarshalLen, h.nextVote.getMarshalLen_eq, Nat.mod_eq_of_lt (by omega),
    checkpointLen_eq hfits]

theorem getMarshalLen_lt : saved.getMarshalLen < word := by
  have hfits := h.fits
  rw [h.getMarshalLen_eq]
  exact wholePages_lt (by omega)

/-- The fields, the vote where it is looked for, and the rest of the pages. -/
theorem marshal_eq {fields : Bytes}
    (hfields : saved.writeFields fill = .ok fields) (behind : Nat → Nat → UInt8)
    (tail : Nat → UInt8) :
    ∃ post, saved.marshal fill behind tail = .ok (fields ++ bytes ++ post) ∧
      (fields ++ bytes ++ post).length = saved.getMarshalLen := by
  have hle := le_wholePages bytes.length
  have hfits := h.fits
  obtain ⟨body, hbody⟩ := h.nextVote.holds
  obtain ⟨pad, hpad, hlen⟩ :=
    hbody.getBuffers_eq_ok h.nextVote.paged h.nextVote.marshal (by omega) behind
  have hsize := writes_fields h.fields fill fields hfields
  have hwritten : concat [saved.writeFields fill,
      saved.nextVote.getBuffers (fun slot => fill (.nested slot)) behind] =
        .ok (fields ++ (bytes ++ pad ++ [])) :=
    concat_cons_ok hfields (concat_cons_ok hpad rfl)
  have hlength : (fields ++ (bytes ++ pad ++ [])).length ≤ saved.getMarshalLen := by
    have hpages := le_wholePages
      (wholePages bytes.length + fieldsSize saved.version saved.fields.stateConfiguration)
    rw [h.getMarshalLen_eq, append_nil, length_append, hlen, hsize]
    omega
  refine ⟨pad ++ (range (saved.getMarshalLen - (fields ++ (bytes ++ pad ++ [])).length)).map tail,
    ?_, ?_⟩
  · rw [SavedHeader.marshal, hwritten]
    show Except.ok _ = _
    rw [take_of_length_le (by rw [length_append, length_map, length_range]; omega)]
    simp only [append_nil, append_assoc]
  · simp only [append_nil, length_append, length_map, length_range] at hlength ⊢
    omega

end

end SavedHeader.Storable

variable {x rest : Bytes}

theorem bind_exact_eq_ok {α β : Type} {p : Reader α} {k : α → Reader β} {b : β}
    (h : (p >>= k).exact x = .ok (b, rest)) :
    ∃ a y, p.exact x = .ok (a, y) ∧ (k a).exact y = .ok (b, rest) := by
  rw [Prog.exact_bind] at h
  obtain ⟨r, hread, h⟩ := bind_eq_ok.mp h
  exact ⟨r.1, r.2, hread, h⟩

/-- What an integer field is read as. -/
theorem exact_readUInt {k : Nat} {n : Nat}
    (h : (Prog.read k >>= fun b => (pure (leNat b) : Reader Nat)).exact x = .ok (n, rest)) :
    n = leNat (x.take k) ∧ rest = x.drop k := by
  obtain ⟨a, y, hread, h⟩ := bind_exact_eq_ok h
  rw [Prog.read, Prog.exact] at hread
  split at hread
  · cases hread
    cases h
    exact ⟨rfl, rfl⟩
  · cases hread

/-- A header that was read has the version and the length that its bytes announce. -/
theorem Header.announced {header : Header} (h : Header.unMarshal.exact x = .ok (header, rest)) :
    announcedVersion x = header.version.raw ∧ announcedLength x = header.unMarshalLen := by
  obtain ⟨raw, y, hraw, h⟩ := bind_exact_eq_ok h
  obtain ⟨rfl, rfl⟩ := exact_readUInt hraw
  obtain ⟨_, z, hvalid, h⟩ := bind_exact_eq_ok h
  obtain rfl : z = x.drop 2 := by
    rw [Prog.require] at hvalid
    split at hvalid
    · exact (Prod.mk.inj (Except.ok.inj hvalid)).2.symm
    · cases hvalid
  obtain ⟨len, y, hlen, h⟩ := bind_exact_eq_ok h
  obtain ⟨rfl, rfl⟩ := exact_readUInt hlen
  -- No field after these two changes them.
  refine Prog.Ensures.skip (Q := fun header : Header =>
    leNat (x.take 2) = header.version.raw ∧ leNat ((x.drop 2).take 4) = header.unMarshalLen)
    (fun _ => ?_) _ _ _ h
  exact .skip fun _ => .skip fun _ => .skip fun _ => .skip fun _ => .skip fun _ => .skip fun _ =>
    .skip fun _ => .skip fun _ => .skip fun _ => Prog.ensures_pure ⟨rfl, rfl⟩

namespace SavedHeader.Storable

variable {saved : SavedHeader} {fill : Fill} {fuel : Nat} {bytes : Bytes} {read : Vote}

/-- The length that a stream announces: of all pages, and before version 3 of the vote. -/
def announces (saved : SavedHeader) (bytes : Bytes) : Nat :=
  if saved.version.raw ≥ 3 then saved.getMarshalLen else bytes.length

/-- The fields that are read: none before version 3. -/
def carriedFields (saved : SavedHeader) : CheckpointFields :=
  if saved.version.raw ≥ 3 then saved.fields.carried saved.version saved.getMarshalLen else {}

/-- The fields are read up to the vote, and the stream starts with a version and a length. -/
structure Starts (saved : SavedHeader) (bytes fields rest : Bytes) : Prop where
  readFields : (fields ++ bytes ++ rest).length < word →
    readFields (fields ++ bytes ++ rest) 0 =
      .ok ((saved.version, carriedFields saved), fields.length)
  version : announcedVersion (fields ++ bytes ++ rest) = saved.version.raw
  length : announcedLength (fields ++ bytes ++ rest) = announces saved bytes

section

variable (h : saved.Storable fill fuel bytes read)

include h

theorem starts_old (hversion : ¬ saved.version.raw ≥ 3) :
    saved.writeFields fill = .ok [] ∧ ∀ rest, Starts saved bytes [] rest := by
  constructor
  · rw [SavedHeader.writeFields, decide_eq_false hversion, decide_eq_false (by omega)]
    rfl
  · intro rest
    obtain ⟨f, pos, hcopy, -⟩ := Vote.unMarshal_eq_ok h.nextVote.reads
    obtain ⟨⟨_, hheader⟩, -⟩ := Vote.copyOut_eq_ok hcopy
    have hexact := Prog.exact_append (Prog.exact_of_cursor hheader) rest
    rw [drop_zero] at hexact
    obtain ⟨-, hlen, -⟩ := Header.unMarshal_eq_ok hexact
    have hbase := (Header.baseSize_le read.header.version).1
    obtain ⟨hraw, hannounced⟩ := Header.announced hexact
    rw [h.old (by omega)] at hraw
    rw [h.nextVote.unMarshalLen_eq.1] at hannounced
    have hvalid : isVersionValid saved.version.raw = true := decide_eq_true h.version
    have hraw' : leNat ((bytes ++ rest).take 2) = saved.version.raw := hraw
    refine ⟨fun _ => ?_, hraw, ?_⟩
    · rw [nil_append, readFields_eq, if_neg (by omega), hraw', hvalid, if_neg (by simp),
        if_neg hversion, carriedFields, if_neg hversion]
      rfl
    · rw [announces, if_neg hversion]
      exact hannounced

theorem starts_new (hversion : saved.version.raw ≥ 3) :
    ∃ fields, saved.writeFields fill = .ok fields ∧ ∀ rest, Starts saved bytes fields rest := by
  obtain ⟨fields, hfields, hreads⟩ :=
    CheckpointFields.stores (h.fields hversion) h.getMarshalLen_lt fill
  have hraw : leNat (leBytes 2 saved.version.raw) = saved.version.raw := by
    rw [leNat_leBytes]
    exact Nat.mod_eq_of_lt (h.version.2.trans_lt (by decide))
  have hlen : leNat (leBytes 4 saved.getMarshalLen) = saved.getMarshalLen := by
    rw [leNat_leBytes]
    exact Nat.mod_eq_of_lt h.getMarshalLen_lt
  have htake : ∀ rest, (leBytes 2 saved.version.raw ++ rest).take 2 = leBytes 2 saved.version.raw :=
    fun rest => take_left' (length_leBytes 2 _)
  obtain ⟨first, others, hfirst, -, hsplit⟩ := concat_cons_eq_ok hfields
  cases hfirst
  refine ⟨leBytes 2 saved.version.raw ++ fields, ?_, fun rest => ⟨fun hword => ?_, ?_, ?_⟩⟩
  · rw [SavedHeader.writeFields, decide_eq_true hversion]
    show concat [concat _, _] = _
    rw [concat_concat]
    exact concat_cons_ok rfl hfields
  · have hcursor := hreads.cursor (by simpa only [append_assoc] using hword)
    have hvalid : isVersionValid saved.version.raw = true := decide_eq_true h.version
    have hlong : ¬ (leBytes 2 saved.version.raw ++ fields ++ (bytes ++ rest)).length < 2 := by
      rw [length_append, length_append, length_leBytes]
      omega
    have hstart : leNat ((leBytes 2 saved.version.raw ++ fields ++ (bytes ++ rest)).take 2) =
        saved.version.raw := by
      rw [append_assoc, htake, hraw]
    rw [length_leBytes] at hcursor
    rw [append_assoc, readFields_eq, if_neg hlong, hstart, hvalid, if_neg (by simp),
      if_pos hversion, hcursor, bind_ok, length_append, length_leBytes, carriedFields,
        if_pos hversion]
  · rw [announcedVersion, append_assoc, append_assoc, htake, hraw]
  · rw [announcedLength, append_assoc, append_assoc, drop_left' (length_leBytes 2 _), hsplit,
      append_assoc, take_left' (length_leBytes 4 _), hlen, announces, if_pos hversion]

/-- What is written before the vote is read as it is carried. -/
theorem exists_fields :
    ∃ fields, saved.writeFields fill = .ok fields ∧ (¬ saved.version.raw ≥ 3 → fields = []) ∧
      ∀ rest, Starts saved bytes fields rest := by
  by_cases hversion : saved.version.raw ≥ 3
  · obtain ⟨fields, hfields, hstarts⟩ := h.starts_new hversion
    exact ⟨fields, hfields, (absurd hversion ·), hstarts⟩
  · obtain ⟨hfields, hstarts⟩ := h.starts_old hversion
    exact ⟨[], hfields, fun _ => rfl, hstarts⟩

end

end SavedHeader.Storable

/-- A stream that is long enough for what it announces is read as a buffer of that length. -/
theorem CheckpointHeader.readFrom_eq (fuel : Nat) {stream : Bytes}
    (hvalid : isVersionValid (announcedVersion stream) = true) (hpos : 0 < announcedLength stream)
    (hfits : announcedLength stream + 512 ≤ word)
    (hlong : wholePages (announcedLength stream) ≤ stream.length) :
    (readFrom fuel stream).result =
      (unMarshal fuel (stream.take (announcedLength stream)) 0).map Prod.fst := by
  have hpage : 512 ≤ wholePages (announcedLength stream) := by
    rw [wholePages]
    omega
  have hwrite := roundUpToPage_eq_wholePages hfits
  have hrest := sub32_of_le (wholePages_lt hfits) hpage
  rw [readFrom]
  simp only
  rw [if_neg (by omega), if_neg (by simpa using hvalid)]
  simp only [hwrite, hrest]
  rw [if_neg (by rw [length_drop]; omega)]
  rfl

namespace SavedHeader.Storable

variable {saved : SavedHeader} {fill : Fill} {fuel : Nat} {bytes : Bytes} {read : Vote}

/-- The vote is read and checked behind the fields. -/
theorem unMarshal_eq (h : saved.Storable fill fuel bytes read) {pre post : Bytes}
    (hword : (pre ++ bytes ++ post).length < word) (hstarts : Starts saved bytes pre post) :
    unMarshal fuel (pre ++ bytes ++ post) 0 =
      .ok (saved.loaded read, pre.length + bytes.length) := by
  have hvote := Vote.unMarshal_within h.nextVote.reads hword
  have hlen : (pre ++ bytes ++ post).length = pre.length + bytes.length + post.length := by
    rw [length_append, length_append]
  have hinside : decide ((pre.length + read.header.unMarshalLen) % word ≤
      (pre ++ bytes ++ post).length) = true := by
    rw [h.nextVote.unMarshalLen_eq.1, Nat.mod_eq_of_lt (by omega)]
    exact decide_eq_true (by omega)
  have hget : (get : Cursor Nat) pre.length = .ok (pre.length, pre.length) := rfl
  rw [unMarshal, bind_apply, hstarts.readFields hword, bind_ok]
  simp only
  rw [bind_apply, hget, bind_ok, bind_apply, hvote, bind_ok, bind_apply, stopUnless_apply,
    hinside, if_pos rfl,
    bind_ok, bind_apply, stopUnless_apply, h.nextVote.verifyChecksumAt pre post, if_pos rfl,
      bind_ok, carriedFields,
    SavedHeader.loaded]
  by_cases hversion : saved.version.raw ≥ 3
  · -- The ballot is compared with the one of the fields, which is the one that was written.
    have hballot :
        (!BallotNumber.less (saved.fields.carried saved.version saved.getMarshalLen).maxBallot
        read.header.ballot) = true := by
      rw [CheckpointFields.carried, h.ballot hversion]
      rfl
    simp only [if_pos hversion]
    rw [bind_apply, stopUnless_apply, hballot, if_pos rfl, bind_ok, pure_apply]
  · simp only [if_neg hversion]
    rw [pure_apply]

end SavedHeader.Storable

/-! ## Votes that were built are sealed by `CalculateChecksum` -/

/-- A vote that the Rust reader returns is returned by the C++ reader, if it suits. -/
theorem Vote.unMarshal_of_wire {bytes : Bytes} {v : Wire.Vote} (hword : bytes.length < word)
    (h : Wire.Vote.unmarshal bytes = some v) (hsuits : voteSuits v = true) :
    ∃ fuel read p, Vote.unMarshal fuel bytes 0 = .ok (read, p) ∧ read.raw = some v := by
  have htame : voteTame bytes 0 = true :=
    voteTame_of_wire hword (by decide) (Nat.zero_le _) h hsuits
  obtain ⟨⟨fuel, hfine⟩, -⟩ := (Vote.robust_iff hword (Nat.zero_le _)).mpr htame
  cases hread : Vote.unMarshal fuel bytes 0 with
  | error e =>
    have hrefused := Vote.wire_of_refused (Nat.zero_le _) (hfine e hread ▸ hread)
    rw [drop_zero, h] at hrefused
    cases hrefused
  | ok r =>
    obtain ⟨read, p⟩ := r
    have hwire := Vote.wire_of_ok hread
    rw [drop_zero, h] at hwire
    exact ⟨fuel, read, p, hread, hwire.symm⟩

theorem Vote.names_carried {vote : Wire.Vote} (h : Vote.namesFit vote = true) :
    (carriedVote vote).membersInNewConfiguration.all Cpp.namesFit = true := by
  rw [Vote.namesFit] at h
  cases hr : vote.isReconfiguration with
  | false =>
    have hnone : (carriedVote vote).membersInNewConfiguration = none := by
      simp only [carriedVote, hr]
      rfl
    rw [hnone]
    rfl
  | true =>
    rw [hr] at h
    rw [carriedVote_members hr]
    cases hset : vote.membersInNewConfiguration with
    | none => rfl
    | some set =>
      rw [hset] at h
      exact (namesFit_carriedSet _ set).trans h

/-- A vote that was built and sealed is marshalled and read back. -/
theorem Vote.sealed_of_construct {fill : Fill} {vote : Wire.Vote} {built : BuiltVote}
    (h : Vote.construct fill vote = .ok built) (hreadable : (carriedVote vote).Readable)
    (hsize : vote.size + 4096 ≤ word)
    (hsum : built.calculateChecksum fill = .ok vote.header.checksum) :
    ∃ fuel bytes read, built.Sealed fill fuel bytes read := by
  obtain ⟨hfields, -, hreconf, body, hbody, hholds⟩ := Vote.construct_eq_ok h
  have hnames := Vote.namesFit_of_body hreadable hbody
  have hlen : built.getMarshalLen = vote.size := by
    rw [hholds.getMarshalLen_eq, hfields, Vote.writes_body hreadable fill body hbody]
    exact Nat.mod_eq_of_lt (lt_of_lt_of_le (Nat.lt_add_of_pos_right (by decide)) hsize)
  obtain ⟨header, hheader, -⟩ := Header.encodes hreadable.wellFormed.header
    (lt_of_lt_of_le (Nat.lt_add_of_pos_right (by decide)) hsize : vote.size < 4294967296)
    le_self_add fill
  have hheader : Header.marshal vote.header fill vote.size = .ok header := hheader
  have hmarshal : built.marshal fill = .ok (header ++ body) := by
    rw [hholds.marshal_eq, hfields, hlen]
    have hboth :=
      concat_cons_ok hheader (concat_cons_ok (rfl : writeData body = _) (rfl : concat [] = _))
    rwa [append_nil] at hboth
  have hlength : (header ++ body).length = vote.size := by
    rw [length_append, Header.writes _ fill _ header hheader,
      Vote.writes_body hreadable fill body hbody]
    rfl
  have hread := Vote.unmarshal_body hreadable hnames hheader hbody
  have hmembers := Vote.names_carried hnames
  obtain ⟨fuel, read, p, hok, hraw⟩ := Vote.unMarshal_of_wire (by omega) hread (by
    simp only [voteSuits, Bool.and_eq_true, decide_eq_true_eq, Bool.or_eq_true, Bool.not_eq_true']
    refine ⟨⟨by omega, hmembers⟩, ?_⟩
    cases hr : vote.isReconfiguration with
    | false => exact .inl hr
    | true => exact .inr (isEmpty_iff.mpr (hreconf hr)))
  have hreadHeader : read.header = { carriedHeader vote.header with unMarshalLen := vote.size } :=
    Vote.header_of_raw hraw
  obtain ⟨f, pos, hcopy, -⟩ := Vote.unMarshal_eq_ok hok
  obtain ⟨-, -, -, -, -, hend⟩ := Vote.copyOut_eq_ok hcopy
  have hend : p = vote.size := by rw [hend, hreadHeader, zero_add]
  refine ⟨fuel, header ++ body, read, ⟨body, hholds⟩, Vote.paged_of_construct h,
    hmarshal, ?_, ?_, ?_⟩
  · rw [hlength]
    rw [hok, hend]
  · rw [hraw, BuiltVote.received, hlength, hfields]
  · have hplaced : Header.marshal built.fields.header fill built.getMarshalLen = .ok header := by
      rw [hfields, hlen, hheader]
    rw [hholds.calculateChecksum_eq hplaced] at hsum
    rw [hreadHeader]
    exact (Except.ok.inj hsum).symm

/-! ## The round trip -/

theorem wholePages_wholePages {n : Nat} (h : n + 512 ≤ word) :
    wholePages (wholePages n) = wholePages n ∧ wholePages n + 512 ≤ word := by
  have hword := word_eq
  rw [hword] at h ⊢
  rw [wholePages, wholePages]
  omega

theorem fieldsSize_carried (version : ProtocolVersion) (config : Option ConfigurationInfo) :
    fieldsSize version (config.map (·.carried version)) = fieldsSize version config := by
  cases config with
  | none => rfl
  | some info =>
    show fieldsSize version (some (info.carried version)) = _
    rw [fieldsSize, fieldsSize, Option.map_some, Option.map_some, ConfigurationInfo.carried,
      size_carriedSet]

namespace SavedHeader.Storable

variable {saved : SavedHeader} {fill : Fill} {fuel : Nat} {bytes : Bytes} {read : Vote}

section

variable (h : saved.Storable fill fuel bytes read)

include h

/-- The reader computes the length that was written. -/
theorem getMarshalLen_loaded :
    (saved.loaded read).getMarshalLen = saved.getMarshalLen := by
  have hle := le_wholePages bytes.length
  have hfits := h.fits
  have hmod : bytes.length % word = bytes.length := Nat.mod_eq_of_lt (by omega)
  rw [h.getMarshalLen_eq, CheckpointHeader.getMarshalLen, SavedHeader.loaded,
    h.nextVote.unMarshalLen_eq.2, hmod]
  by_cases hversion : saved.version.raw ≥ 3
  · have hsame := fieldsSize_carried saved.version saved.fields.stateConfiguration
    simp only [if_pos hversion]
    show checkpointLen saved.version (saved.fields.stateConfiguration.map _) _ = _
    rw [checkpointLen_eq (by omega), hsame]
  · have hnone : ∀ config, fieldsSize saved.version config = 0 := by
      intro config
      rw [fieldsSize, if_neg hversion, if_neg (by omega)]
    simp only [if_neg hversion]
    rw [checkpointLen_eq (by rw [hnone]; omega), hnone, hnone]

theorem isVersionValid : isVersionValid saved.version.raw = true :=
  decide_eq_true h.version

theorem length_pos : 0 < bytes.length := by
  obtain ⟨f, pos, hcopy, -⟩ := Vote.unMarshal_eq_ok h.nextVote.reads
  obtain ⟨⟨_, hheader⟩, -⟩ := Vote.copyOut_eq_ok hcopy
  obtain ⟨-, -, hbase, -⟩ := Header.unMarshal_eq_ok (Prog.exact_of_cursor hheader)
  have hbaseSize := (Header.baseSize_le read.header.version).1
  have hlen := h.nextVote.unMarshalLen_eq.1
  omega

/-- What the stream announces covers the fields and the vote, and with its whole pages not more than
all. -/
theorem announces_bounds {fields post : Bytes}
    (hlen : (fields ++ bytes ++ post).length = saved.getMarshalLen)
    (hfields : ¬ saved.version.raw ≥ 3 → fields = []) :
    (fields ++ bytes).length ≤ announces saved bytes ∧ wholePages (announces saved bytes) ≤
      saved.getMarshalLen ∧
      announces saved bytes + 512 ≤ word := by
  have hfits := h.fits
  rw [length_append] at hlen
  rw [h.getMarshalLen_eq] at hlen ⊢
  by_cases hversion : saved.version.raw ≥ 3
  · have hpages := @wholePages_wholePages
      (wholePages bytes.length + fieldsSize saved.version saved.fields.stateConfiguration)
      (by omega)
    rw [announces, if_pos hversion, h.getMarshalLen_eq]
    exact ⟨by omega, hpages.1.le, hpages.2⟩
  · have hle := le_wholePages bytes.length
    rw [announces, if_neg hversion, hfields hversion, nil_append]
    exact ⟨le_rfl, le_self_add.trans (le_wholePages _), by omega⟩

/-- The reader cuts the stream to the length it announces, which leaves the fields and the vote
whole. -/
theorem readFrom_eq {fields post : Bytes}
    (hlen : (fields ++ bytes ++ post).length = saved.getMarshalLen)
    (hfields : ¬ saved.version.raw ≥ 3 → fields = [])
    (hstarts : ∀ rest, Starts saved bytes fields rest) (userData : Bytes) :
    (CheckpointHeader.readFrom fuel (fields ++ bytes ++ post ++ userData)).result =
    .ok (saved.loaded read) := by
  obtain ⟨hcovers, hpages, hword⟩ := h.announces_bounds hlen hfields
  have hlong : (fields ++ bytes ++ (post ++ userData)).length =
      saved.getMarshalLen + userData.length := by
    rw [← append_assoc, length_append, hlen]
  have hcut : (fields ++ bytes ++ (post ++ userData)).take (announces saved bytes) =
      fields ++ bytes ++ (post ++ userData).take
        (announces saved bytes - (fields ++ bytes).length) := by
    rw [take_append, take_of_length_le hcovers]
  have hshort := length_take_le (announces saved bytes) (fields ++ bytes ++ (post ++ userData))
  have hpos := h.length_pos
  have hstart := hstarts (post ++ userData)
  rw [length_append] at hcovers
  rw [hcut] at hshort
  have hstream := @CheckpointHeader.readFrom_eq fuel (fields ++ bytes ++ (post ++ userData))
    (by rw [hstart.version]; exact h.isVersionValid) (by rw [hstart.length]; omega)
    (by rw [hstart.length]; omega)
    (by rw [hstart.length]; omega)
  rw [append_assoc (fields ++ bytes), hstream, hstart.length, hcut,
    h.unMarshal_eq (by omega) (hstarts _)]
  rfl

end

end SavedHeader.Storable

/-- A header whose next vote was built from `vote` and stamped by `CalculateChecksum`, with fields
that fit. -/
structure SavedHeader.Writable (saved : SavedHeader) (fill : Fill) (vote : Wire.Vote) : Prop where
  version : 1 ≤ saved.version.raw ∧ saved.version.raw ≤ 6
  nextVote : Vote.construct (fun slot => fill (.nested slot)) vote = .ok saved.nextVote
  readable : (carriedVote vote).Readable
  size : vote.size + 4096 ≤ word
  checksum : saved.nextVote.calculateChecksum (fun slot => fill (.nested slot))
    = .ok vote.header.checksum
  fields : saved.version.raw ≥ 3 → saved.fields.Storable saved.version
  ballot : saved.version.raw ≥ 3 →
    BallotNumber.less saved.fields.maxBallot vote.header.ballot = false
  old : saved.version.raw < 3 → vote.header.version = saved.version
  fits : fieldsSize saved.version saved.fields.stateConfiguration +
    wholePages vote.size + 512 ≤ word

/-- The next vote of a header that can be written is sealed. -/
theorem SavedHeader.Writable.storable {saved : SavedHeader} {fill : Fill} {vote : Wire.Vote}
    (h : saved.Writable fill vote) : ∃ fuel bytes read, saved.Storable fill fuel bytes read := by
  obtain ⟨fuel, bytes, read, hsealed⟩ :=
    Vote.sealed_of_construct h.nextVote h.readable h.size h.checksum
  obtain ⟨hfields, -, -, body, hbody, hholds⟩ := Vote.construct_eq_ok h.nextVote
  have hlength : bytes.length = vote.size := by
    rw [← hfields]
    exact hholds.writes (hfields ▸ hbody) (hfields ▸ h.readable) bytes hsealed.marshal
  have hheader : read.header.ballot = vote.header.ballot ∧
      read.header.version = vote.header.version := by
    rw [Vote.header_of_raw hsealed.fields, BuiltVote.received, hfields]
    exact ⟨rfl, rfl⟩
  refine ⟨fuel, bytes, read, h.version, hsealed, h.fields, ?_, ?_, ?_⟩
  · rw [hheader.1]
    exact h.ballot
  · rw [hheader.2]
    exact h.old
  · rw [hlength]
    exact h.fits

/-- What is written is `GetMarshalLen` bytes long. Both readers return one header for it, and the
length that the reader computes is where the user data begins. From version 4 on the header has the
fields that were written; version 3 leaves out three of them, and before it the fields are those of
the vote. -/
def SavedHeader.RoundTrips (saved : SavedHeader) (fill : Fill) (behind : Nat → Nat → UInt8)
    (tail : Nat → UInt8) (fuel : Nat) (read : Vote) : Prop :=
  ∃ file, saved.marshal fill behind tail = .ok file ∧ file.length = saved.getMarshalLen ∧
    (∃ pos, unMarshal fuel file 0 = .ok (saved.loaded read, pos)) ∧
    (∀ userData, (readFrom fuel (file ++ userData)).result = .ok (saved.loaded read) ∧
      (file ++ userData).drop (saved.loaded read).getMarshalLen = userData) ∧
    (4 ≤ saved.version.raw → (saved.loaded read).fields =
      { saved.fields with
        unMarshalLen := saved.getMarshalLen
        stateConfiguration := saved.fields.stateConfiguration.map (·.carried saved.version) })

theorem SavedHeader.Storable.roundTrips {saved : SavedHeader} {fill : Fill} {fuel : Nat}
    {bytes : Bytes} {read : Vote} (h : saved.Storable fill fuel bytes read)
    (behind : Nat → Nat → UInt8) (tail : Nat → UInt8) :
    saved.RoundTrips fill behind tail fuel read := by
  have hcarried : 4 ≤ saved.version.raw → (saved.loaded read).fields =
      { saved.fields with
        unMarshalLen := saved.getMarshalLen
        stateConfiguration := saved.fields.stateConfiguration.map (·.carried saved.version) } := by
    intro hversion
    simp only [SavedHeader.loaded, CheckpointFields.carried, if_pos hversion,
      if_pos (by omega : saved.version.raw ≥ 3)]
  have hword := h.getMarshalLen_lt
  obtain ⟨fields, hfields, hold, hstarts⟩ := h.exists_fields
  obtain ⟨post, hmarshal, hlen⟩ := h.marshal_eq hfields behind tail
  have hread := h.unMarshal_eq (by omega) (hstarts post)
  refine ⟨_, hmarshal, hlen, ⟨_, hread⟩, fun userData => ⟨?_, ?_⟩, hcarried⟩
  · exact h.readFrom_eq hlen hold hstarts userData
  · rw [h.getMarshalLen_loaded, ← hlen, drop_left]

/-- A header with a sealed next vote makes the round trip, and one whose next vote was built and
stamped does, with the vote that was written. -/
theorem checkpoint_roundTrip (saved : SavedHeader) (fill : Fill) (behind : Nat → Nat → UInt8)
    (tail : Nat → UInt8) :
    (∀ fuel bytes read, saved.Storable fill fuel bytes read →
      saved.RoundTrips fill behind tail fuel read) ∧
    (∀ vote, saved.Writable fill vote → ∃ fuel bytes read,
      saved.RoundTrips fill behind tail fuel read ∧ read.marshal = bytes ∧
        read.raw = some (saved.nextVote.received bytes.length)) := by
  refine ⟨fun fuel bytes read h => h.roundTrips behind tail, fun vote h => ?_⟩
  obtain ⟨fuel, bytes, read, hstorable⟩ := h.storable
  exact ⟨fuel, bytes, read, hstorable.roundTrips behind tail, hstorable.nextVote.unMarshalLen_eq.2,
    hstorable.nextVote.fields⟩

/-- A vote with a cookie and two requests, stamped in versions 3 and 6. -/
def savedVote (version : Nat) : Wire.Vote :=
  ⟨⟨⟨version⟩, 0, if version = 3 then 13391889491993102725 else 8129652863332961140, magicNumber,
    msgVote, ⟨[55]⟩, 3, 1, ⟨5, ⟨[55]⟩⟩, 0⟩, [9, 8], false, none, false, [[1, 2, 3], [4, 5]]⟩

/-- The fields of a checkpoint of two members whose state has not been saved. -/
def savedFields : CheckpointFields :=
  { memberId := ⟨[55]⟩, lastExecutedDecree := 2, maxBallot := ⟨6, ⟨[55]⟩⟩,
    stateConfiguration := some ⟨1, 1,
      ⟨[⟨⟨[55]⟩, 16777343, 20000, 20001, 0, [97]⟩, ⟨⟨[56]⟩, 33554559, 20000, 20001, 0, [98, 99]⟩],
        [4]⟩⟩,
    stateSaved := false, size := 2048, checksumBlockSize := 512 }

def savedHeader (version : Nat) (nextVote : BuiltVote) : SavedHeader :=
  ⟨⟨version⟩, savedFields, nextVote⟩

theorem representable_of_decimal (version : ProtocolVersion) {id : MemberId} {n : Nat}
    (hn : n < 18446744073709551616) (hid : id.value = decimal n)
    (hshort : id.value.length ≤ 63 ∧ 0 ∉ id.value) : MemberId.Representable version id := by
  rw [MemberId.Representable]
  split
  · exact hshort
  · exact ⟨n, hn, hid⟩

theorem representable_seven (version : ProtocolVersion) : MemberId.Representable version ⟨[55]⟩ :=
  representable_of_decimal version (by decide : 7 < _) (by decide) (by decide)

theorem storable_savedFields {version : Nat} (h : version = 3 ∨ version = 6) :
    savedFields.Storable ⟨version⟩ := by
  have height : MemberId.Representable ⟨version⟩ ⟨[56]⟩ :=
    representable_of_decimal _ (by decide : 8 < _) (by decide) (by decide)
  refine ⟨by decide, representable_seven _, by decide, ⟨by decide, representable_seven _⟩,
    ⟨_, rfl, by decide, by decide, ⟨⟨?_, ?_, ?_⟩, ?_⟩, by decide⟩, by decide, by decide⟩
  · exact (by decide : 2 < 65536)
  · intro node hnode
    rw [carriedSet] at hnode
    simp only [map_cons, map_nil, mem_cons, not_mem_nil, or_false] at hnode
    rcases hnode with rfl | rfl <;> rcases h with rfl | rfl
    · exact ⟨representable_seven _, by decide, by decide, by decide, by decide,
        by decide, by decide⟩
    · exact ⟨representable_seven _, by decide, by decide, by decide, by decide,
        by decide, by decide⟩
    · exact ⟨height, by decide, by decide, by decide, by decide, by decide, by decide⟩
    · exact ⟨height, by decide, by decide, by decide, by decide, by decide, by decide⟩
  · exact (by decide : 1 < 4294967296)
  · exact (by decide : 1 ≤ maxMemberSetCookieLen)

variable {version : Nat}

theorem readable_savedVote (h : version = 3 ∨ version = 6) :
    (carriedVote (savedVote version)).Readable := by
  have hset : ∀ {P : MemberSet → Prop} set,
      (carriedVote (savedVote version)).membersInNewConfiguration = some set → P set := by
    intro P set hset
    cases hset
  rcases h with rfl | rfl <;>
    exact ⟨⟨⟨by decide, by decide, rfl, by decide, representable_seven _, by decide, by decide,
      by decide, ⟨by decide, representable_seven _⟩, by decide, by decide⟩, rfl, by decide,
      by decide, by decide, hset, by decide, by decide⟩, hset, rfl, by decide⟩

/-- The header can be written with the stamped vote. -/
theorem exists_savedHeader (h : version = 3 ∨ version = 6) :
    ∃ built, (savedHeader version built).Writable (fun _ _ => 0) (savedVote version) := by
  have hsealed : ((Vote.construct (fun _ _ => 0) (savedVote version)).toOption.bind fun built =>
      (built.calculateChecksum fun _ _ => 0).toOption) =
        some (savedVote version).header.checksum := by
    rcases h with rfl | rfl
    · decide +kernel
    · decide +kernel
  obtain ⟨built, hbuilt, hsum⟩ := Option.bind_eq_some_iff.mp hsealed
  refine ⟨built, ?_, eq_ok_of_toOption hbuilt, readable_savedVote h, ?_, eq_ok_of_toOption hsum,
    fun _ => storable_savedFields h, fun _ => ?_, fun hold => ?_, ?_⟩
  · show 1 ≤ version ∧ version ≤ 6
    omega
  · rcases h with rfl | rfl <;> decide
  · show BallotNumber.less savedFields.maxBallot (savedVote version).header.ballot = false
    rcases h with rfl | rfl <;> decide
  · have hold : version < 3 := hold
    omega
  · show fieldsSize ⟨version⟩ savedFields.stateConfiguration + _ + 512 ≤ word
    rcases h with rfl | rfl <;> decide

theorem checkpoint_roundTrip_saved :
    ∃ built fuel bytes read, (savedHeader 6 built).Writable (fun _ _ => 0) (savedVote 6) ∧
      (savedHeader 6 built).RoundTrips (fun _ _ => 0) (fun _ _ => 0) (fun _ => 0) fuel read ∧
      read.marshal = bytes ∧ read.raw = some (built.received bytes.length) := by
  obtain ⟨built, h⟩ := exists_savedHeader (.inr rfl)
  obtain ⟨fuel, bytes, read, hround⟩ :=
    (checkpoint_roundTrip (savedHeader 6 built) _ (fun _ _ => 0) (fun _ => 0)).2 _ h
  exact ⟨built, fuel, bytes, read, h, hround⟩

/-- In version 3 a state that was not saved is read as one that was. -/
theorem not_checkpoint_roundTrip :
    ∃ built fuel file read pos, (savedHeader 3 built).marshal (fun _ _ => 0) (fun _ _ => 0)
      (fun _ => 0) = .ok file ∧
      unMarshal fuel file 0 = .ok (read, pos) ∧
      (savedHeader 3 built).fields.stateSaved = false ∧ read.fields.stateSaved = true := by
  obtain ⟨built, hwritable⟩ := exists_savedHeader (.inl rfl)
  obtain ⟨fuel, bytes, read, h⟩ := hwritable.storable
  obtain ⟨fields, hfields, -, hstarts⟩ := h.exists_fields
  obtain ⟨post, hmarshal, hlen⟩ := h.marshal_eq hfields (fun _ _ => 0) (fun _ => 0)
  have hword := h.getMarshalLen_lt
  exact ⟨built, fuel, _, _, _, hmarshal, h.unMarshal_eq (by omega) (hstarts post), rfl, rfl⟩

end Rsl.Cpp
