import Rsl.Cpp.Peer
import Rsl.Cpp.Writer

/-!
# The C++ codec reads back what it sends

A message that is built, sent and received. What a vote has in its buffers is one byte string
(`BuiltVote.bytes`): the place of the header, and the body in the order of its fields. Every request
that is added appends to it, however the bytes move between the buffers, and the checksum that goes
from buffer to buffer is the checksum of the string. So the bytes of every message are a header and
a body that the readers of `Rsl.Wire` read back, up to the fields that the version does not carry
(`carried`), and the C++ reader returns what they read exactly when the message suits it.
-/

set_option autoImplicit false

namespace Rsl.Cpp

open Lib Wire Cpp.Header Wire.Header BuiltVote Built
open List hiding concat set

/-! ## The fields a version carries -/

/-- The header with the fields that its version does not carry as the reader sets them. -/
def carriedHeader (header : Header) : Header :=
  { header with
    configurationNumber :=
      if header.version.hasConfigurationNumber then header.configurationNumber else 1
    payload := if header.version.hasPayload then header.payload else 0 }

/-- The node with the port that its version carries. -/
def carriedNode (version : ProtocolVersion) (node : RslNode) : RslNode :=
  if version.memberSetUsesLearnPort then { node with appPort := 0 }
  else { node with rslLearnPort := 0 }

/-- The member set with the ports that its version carries. -/
def carriedSet (version : ProtocolVersion) (set : MemberSet) : MemberSet :=
  { set with members := set.members.map (carriedNode version) }

/-- The vote with the fields that are marshalled. -/
def carriedVote (vote : Wire.Vote) : Wire.Vote :=
  let version := vote.header.version
  { vote with
    header := carriedHeader vote.header
    primaryCookie := if version.hasPrimaryCookie then vote.primaryCookie else []
    membersInNewConfiguration :=
      if vote.isReconfiguration then vote.membersInNewConfiguration.map
        (carriedSet version) else none
    relinquishPrimary := if version.hasRelinquishPrimary then vote.relinquishPrimary else false }

/-- The message with the fields that are marshalled. -/
def carried : Msg → Msg
  | .base header => .base (carriedHeader header)
  | .vote m => .vote (carriedVote m)
  | .join m => .join { m with header := carriedHeader m.header }
  | .prepare m =>
    .prepare
      { m with
        header := carriedHeader m.header
        primaryCookie := if m.header.version.hasPrimaryCookie then m.primaryCookie else [] }
  | .prepareAccepted m =>
    .prepareAccepted { m with header := carriedHeader m.header, vote := carriedVote m.vote }
  | .statusResponse m => .statusResponse { m with header := carriedHeader m.header }
  | .bootstrap m =>
    .bootstrap
      { m with
        header := carriedHeader m.header
        memberSet := carriedSet m.header.version m.memberSet }

/-! ## Fields are read back -/

variable {version : ProtocolVersion} {α : Type} {w : Writer} {id : MemberId}
  {vote vote' : BuiltVote}

/-- A field that its version may not carry is read back as it is carried. -/
theorem encodes_carried {c : Bool} {p : Wire.Reader α} {a d : α}
    (h : c = true → Encodes w p (if c then a else d)) :
    Encodes (writeIf c w) (Wire.readIf c p d) (if c then a else d) :=
  encodes_if h fun hc => by rw [hc]; rfl

/-- One writer for each value of a list. -/
theorem encodes_forall₂ {p : Wire.Reader α} {ws : List Writer} {as : List α}
    (h : List.Forall₂ (fun w a => Encodes w p a) ws as) :
    Encodes (concat ws) (Parser.replicate p as.length) as := by
  induction h with
  | nil => exact encodes_nil []
  | @cons w a ws as hw _ ih =>
    obtain ⟨first, hfirst, hreads⟩ := hw
    obtain ⟨rest, hrest, hreads'⟩ := ih
    exact ⟨first ++ rest, by rw [concat, hfirst, hrest]; rfl, hreads.bind (hreads'.map _)⟩

theorem length_decimal {n : Nat} (hn : n < 18446744073709551616) : (decimal n).length < 64 := by
  rw [decimal]
  split
  · decide
  · rw [length_map]
    exact lt_of_le_of_lt ((Nat.length_toDigits_le_iff (by decide) (by decide)).mpr
      (hn.trans_le (by decide : 18446744073709551616 ≤ 10 ^ 20))) (by decide)

theorem length_buffer (h : id.value.length < 64) (fill : Nat → UInt8) :
    (MemberId.buffer id fill).length = 64 := by
  rw [MemberId.buffer, length_append, length_cons, length_map, length_range, MemberId.bufferSize]
  omega

/-- The string ends at its terminator, whatever follows. -/
theorem takeWhile_buffer (h : 0 ∉ id.value) (fill : Nat → UInt8) :
    (MemberId.buffer id fill).takeWhile (· != 0) = id.value := by
  rw [MemberId.buffer, takeWhile_append_of_pos]
  · simp
  · intro b hb
    simpa using ne_of_mem_of_not_mem hb h

theorem MemberId.encodes (h : id.Representable version) (fill : Nat → UInt8) :
    Encodes (MemberId.marshal id fill version) (Wire.MemberId.unmarshal version) id := by
  rw [MemberId.Representable] at h
  rw [MemberId.marshal, Wire.MemberId.unmarshal]
  split at h
  · next hfixed =>
    obtain ⟨hlen, hzero⟩ := h
    have hversion : ¬ version.raw ≤ 3 := by simpa [ProtocolVersion.memberIdIsFixed64] using hfixed
    have hvalue : id = ⟨(MemberId.buffer id fill).takeWhile (· != 0)⟩ := by
      rw [takeWhile_buffer hzero]
    rw [if_neg (by rw [bufferSize]; omega), if_neg hversion, if_pos hfixed]
    refine (encodes_data (length_buffer (by omega) fill)).andThen (.check ?_ ?_)
    · simp [MemberId.buffer]
    · conv => rhs; rw [hvalue]
      exact Parser.reads_pure _
  · next hfixed =>
    obtain ⟨n, hn, hvalue⟩ := h
    have hversion : version.raw ≤ 3 := by simpa [ProtocolVersion.memberIdIsFixed64] using hfixed
    have hid : id = ⟨decimal n⟩ := congrArg MemberId.mk hvalue
    rw [if_neg (by rw [hvalue, bufferSize]; exact not_le.mpr (length_decimal hn)),
      if_pos hversion, if_neg hfixed, hvalue, parseMemberIdU64_decimal hn, hid]
    exact (encodes_u64 hn).andThen (Parser.reads_pure _)

theorem BallotNumber.encodes {ballot : BallotNumber}
    (h : ballot.WellFormed version) (fill : Nat → UInt8) :
    Encodes (BallotNumber.marshal ballot fill version) (Wire.BallotNumber.unmarshal version)
      ballot :=
  (encodes_u32 h.ballotId).cons ((MemberId.encodes h.memberId fill).cons (encodes_nil _))

theorem RslNode.encodes {node : RslNode}
    (h : (carriedNode version node).WellFormed version)
    (hname : node.hostName.length < hostNameSize) (fill : Nat → UInt8) :
    Encodes (RslNode.marshal node fill version) (Wire.RslNode.unmarshal version)
      (carriedNode version node) := by
  have hversion : version.memberSetUsesLearnPort = decide (version.raw > 3) := rfl
  have hlen : node.hostName.length < 65536 := hname.trans (by decide)
  rw [RslNode.marshal, if_neg (not_le.mpr hname)]
  by_cases hlearn : version.raw > 3
  · have hcarried : carriedNode version node = { node with appPort := 0 } := by
      rw [carriedNode, hversion, decide_eq_true hlearn, if_pos rfl]
    rw [hcarried] at h ⊢
    rw [if_pos hlearn]
    refine (MemberId.encodes h.memberId fill).cons ((encodes_u32 h.ip).cons
      ((encodes_u16 h.rslPort).cons ((encodes_u16 h.rslLearnPort).cons ((encodes_u16 hlen).cons
      ((encodes_data rfl).cons ?_)))))
    rw [hversion, decide_eq_true hlearn, if_pos rfl]
    exact encodes_nil _
  · have hcarried : carriedNode version node = { node with rslLearnPort := 0 } := by
      rw [carriedNode, hversion, decide_eq_false hlearn]
      rfl
    rw [hcarried] at h ⊢
    rw [if_neg hlearn]
    refine (MemberId.encodes h.memberId fill).cons ((encodes_u32 h.ip).cons
      ((encodes_u16 h.rslPort).cons ((encodes_u16 h.appPort).cons ((encodes_u16 hlen).cons
      ((encodes_data rfl).cons ?_)))))
    rw [hversion, decide_eq_false hlearn]
    exact encodes_nil _

theorem hostName_carriedNode (version : ProtocolVersion) (node : RslNode) :
    (carriedNode version node).hostName = node.hostName := by
  rw [carriedNode]
  split <;> rfl

theorem namesFit_carriedSet (version : ProtocolVersion) (set : MemberSet) :
    namesFit (carriedSet version set) = namesFit set := by
  simp only [namesFit, carriedSet, all_map, Function.comp_def, hostName_carriedNode]

theorem MemberSet.encodes {set : MemberSet}
    (h : (carriedSet version set).Readable version) (hnames : namesFit set = true) (fill : Fill) :
    Encodes (MemberSet.marshal set fill version) (Wire.MemberSet.unmarshal version)
      (carriedSet version set) := by
  obtain ⟨hset, hcookie⟩ := h
  have hcount : set.members.length < 65536 := by
    have := hset.members
    rwa [carriedSet, length_map] at this
  rw [MemberSet.marshal, Nat.mod_eq_of_lt hcount, take_length]
  have hnodes : List.Forall₂ (fun w node => Encodes w (Wire.RslNode.unmarshal version) node)
      (set.members.mapIdx fun i node => RslNode.marshal node (fill (.member i)) version)
      (set.members.map (carriedNode version)) := by
    rw [forall₂_iff_get]
    refine ⟨by simp, fun i hi hi' => ?_⟩
    rw [length_map] at hi'
    simp only [get_eq_getElem, getElem_mapIdx, getElem_map]
    have hmem : set.members[i] ∈ set.members := getElem_mem hi'
    exact RslNode.encodes (hset.nodes _ (mem_map_of_mem hmem))
      (by simpa using all_eq_true.mp hnames _ hmem) _
  refine (encodes_u16 hcount).cons ?_
  have hlist := encodes_forall₂ hnodes
  rw [length_map] at hlist
  exact hlist.cons ((encodes_u32 hset.cookie).cons (.check (decide_eq_true hcookie)
    ((encodes_data rfl).cons (encodes_nil _))))

theorem Header.encodes {header : Header} (h : (carriedHeader header).WellFormed) {len : Nat}
    (hlen : len < 4294967296) (hbase : baseSize header.version ≤ len) (fill : Fill) :
    Encodes (marshal header fill len) Wire.Header.unmarshal
      { carriedHeader header with unMarshalLen := len } := by
  have hvalid : 1 ≤ header.version.raw ∧ header.version.raw ≤ 6 := h.version
  have hversion : ProtocolVersion.fromWire header.version.raw = some header.version := by
    rw [ProtocolVersion.fromWire, if_pos hvalid]
  have hraw : header.version.raw < 65536 := hvalid.2.trans_lt (by decide)
  have hmagic : header.magic < 4294967296 := by
    have hmagic : header.magic = magicNumber := h.magic
    rw [hmagic]
    decide
  have hconfiguration (hc : header.version.hasConfigurationNumber = true) :
      Encodes (writeU32 header.configurationNumber) readU32
        (if header.version.hasConfigurationNumber then header.configurationNumber else 1) := by
    have hlt : (if header.version.hasConfigurationNumber then header.configurationNumber else 1)
      < 4294967296 := h.configurationNumber
    rw [if_pos hc] at hlt ⊢
    exact encodes_u32 hlt
  have hpayload (hc : header.version.hasPayload = true) :
      Encodes (writeU64 header.payload) readU64
        (if header.version.hasPayload then header.payload else 0) := by
    have hlt : (if header.version.hasPayload then header.payload else 0) < 18446744073709551616 :=
      h.payload
    rw [if_pos hc] at hlt ⊢
    exact encodes_u64 hlt
  rw [marshal]
  simp only
  rw [if_neg (by omega)]
  refine (encodes_u16 hraw).cons (.ofOption hversion ((encodes_u32 hlen).cons
    ((encodes_u64 h.checksum).cons ((encodes_u32 hmagic).cons ((encodes_u16 h.msgId).cons
    ((MemberId.encodes h.memberId _).cons ((encodes_u64 h.decree).cons
    ((encodes_carried hconfiguration).cons ((BallotNumber.encodes h.ballot _).cons
    ((encodes_carried hpayload).cons ?_))))))))))
  exact .check (decide_eq_true hbase) (.check (decide_eq_true h.magic) (encodes_nil _))

/-! ## How much is written -/

theorem MemberId.writes (id : MemberId) (fill : Nat → UInt8) (version : ProtocolVersion) :
    Writes (MemberId.marshal id fill version) (Wire.MemberId.baseSize version) := by
  rw [MemberId.marshal]
  split
  · exact writes_error _ _
  · next hlen =>
    rw [Wire.MemberId.baseSize, ProtocolVersion.memberIdIsFixed64]
    by_cases hold : version.raw ≤ 3
    · rw [if_pos hold, if_neg (by simpa using hold)]
      split
      · exact writes_leBytes 8 _
      · exact writes_error _ _
    · rw [if_neg hold, if_pos (by simpa using hold)]
      rintro _ ⟨⟩
      exact length_buffer (not_le.mp hlen) fill

theorem BallotNumber.writes (ballot : BallotNumber) (fill : Nat → UInt8)
    (version : ProtocolVersion) :
    Writes (BallotNumber.marshal ballot fill version) (Wire.BallotNumber.baseSize version) :=
  (writes_leBytes 4 _).cons ((MemberId.writes ballot.memberId fill version).cons writes_nil)

theorem Header.writes (header : Header) (fill : Fill) (len : Nat) :
    Writes (marshal header fill len) (baseSize header.version) := by
  rw [marshal]
  split
  · exact writes_error _ _
  · have h := (writes_leBytes 2 header.version.raw).cons ((writes_leBytes 4 len).cons
      ((writes_leBytes 8 header.checksum).cons ((writes_leBytes 4 header.magic).cons
      ((writes_leBytes 2 header.msgId).cons
      ((MemberId.writes header.memberId (fill .sender) header.version).cons
      ((writes_leBytes 8 header.decree).cons
      ((Writes.ite (c := header.version.hasConfigurationNumber)
        (writes_leBytes 4 header.configurationNumber)).cons
      ((BallotNumber.writes header.ballot (fill .ballot) header.version).cons
      ((Writes.ite (c := header.version.hasPayload) (writes_leBytes 8 header.payload)).cons
        writes_nil)))))))))
    intro bytes hbytes
    rw [h bytes hbytes, baseSize]
    omega

theorem RslNode.writes (node : RslNode) (fill : Nat → UInt8) (version : ProtocolVersion) :
    Writes (RslNode.marshal node fill version) (node.size version) := by
  rw [RslNode.marshal]
  split
  · exact writes_error _ _
  · have h := (MemberId.writes node.memberId fill version).cons ((writes_leBytes 4 node.ip).cons
      ((writes_leBytes 2 node.rslPort).cons
      ((writes_leBytes 2 (if version.raw > 3 then node.rslLearnPort else node.appPort)).cons
      ((writes_leBytes 2 node.hostName.length).cons ((writes_ok node.hostName).cons writes_nil)))))
    intro bytes hbytes
    rw [h bytes hbytes, RslNode.size]
    omega

theorem writes_mapIdx {enc : Nat → α → Writer} {size : α → Nat}
    (h : ∀ i a, Writes (enc i a) (size a)) (as : List α) :
    Writes (concat (as.mapIdx enc)) (as.map size).sum := by
  induction as generalizing enc with
  | nil => exact writes_nil
  | cons a as ih =>
    rw [mapIdx_cons, map_cons, sum_cons]
    exact (h 0 a).cons (ih fun i => h (i + 1))

/-- A member set whose members can be counted in a `UInt16` is written as a whole. -/
theorem MemberSet.writes {set : MemberSet} (h : set.members.length < 65536) (fill : Fill)
    (version : ProtocolVersion) :
    Writes (MemberSet.marshal set fill version) (set.size version) := by
  rw [MemberSet.marshal, Nat.mod_eq_of_lt h, take_length]
  exact (writes_leBytes 2 _).cons
    ((writes_mapIdx (fun _ node => RslNode.writes node _ version) _).cons
    ((writes_leBytes 4 _).cons ((writes_ok set.cookie).cons writes_nil)))

theorem PrimaryCookie.marshal_eq (cookie : Bytes) :
    PrimaryCookie.marshal cookie = writePrimaryCookie cookie := by
  cases cookie <;> rfl

/-! ## The buffers of a vote -/

theorem Memory.write_eq_ok {memory memory' : Memory} (h : memory.write w = .ok memory') :
    ∃ data, w = .ok data ∧ memory'.bytes = memory.bytes ++ data := by
  cases hw : w with
  | error e =>
    rw [hw] at h
    cases h
  | ok data =>
    rw [hw] at h
    have h : (if memory.bufferLength < memory.bytes.length + data.length then .error .panicked
      else .ok { memory with bytes := memory.bytes ++ data } : Except WriteFailure Memory)
        = .ok memory' := h
    split_ifs at h
    cases h
    exact ⟨data, rfl, rfl⟩

theorem Vote.addMemory_eq_ok {minSize : Nat} {memory : Memory}
    (h : Vote.addMemory minSize = .ok memory) :
    memory.bytes = [] := by
  rw [Vote.addMemory] at h
  split_ifs at h
  cases h
  rfl

/-- What the constructor writes after the header. -/
def Vote.writeFields (fill : Fill) (vote : Wire.Vote) : Writer :=
  let version := vote.header.version
  concat
    [writeIf (version.raw ≥ 2) (PrimaryCookie.marshal vote.primaryCookie),
      writeIf (version.raw ≥ 3) (concat
        [writeBool vote.isReconfiguration,
          writeIf vote.isReconfiguration (match vote.membersInNewConfiguration with
            | some set => MemberSet.marshal set fill version
            | none => .error .panicked)]),
      writeIf (version.raw ≥ 5) (writeBool vote.relinquishPrimary)]

/-- The body of a vote. -/
def Vote.body (fill : Fill) (vote : Wire.Vote) : Writer :=
  concat [Vote.writeFields fill vote, concat (vote.requests.map writeRequest)]

/-- The bytes in the buffers of a vote, in order. -/
def BuiltVote.bytes (vote : BuiltVote) : Bytes := (vote.buffers.map Memory.bytes).flatten

/-- The first buffer, where the header stands. -/
def BuiltVote.first (vote : BuiltVote) : Memory := vote.full.headD vote.back

/-- The buffers hold the place of the header, all of it in the first one, and the body. -/
structure BuiltVote.Holds (vote : BuiltVote) (body : Bytes) : Prop where
  bytes : vote.bytes = replicate (baseSize vote.fields.header.version) 0 ++ body
  first : baseSize vote.fields.header.version ≤ vote.first.bytes.length

theorem BuiltVote.bytes_eq (vote : BuiltVote) :
    vote.bytes = (vote.full.map Memory.bytes).flatten ++ vote.back.bytes := by
  simp [bytes, buffers]

theorem BuiltVote.buffers_eq (vote : BuiltVote) :
    vote.buffers = vote.first :: vote.buffers.tail := by
  cases hfull : vote.full with
  | nil | cons memory full => simp [buffers, first, hfull]

theorem eq_ok_of_toOption {α : Type} {x : Except WriteFailure α} {a : α} (h : x.toOption = some a) :
    x = .ok a := by
  cases x with
  | error e => cases h
  | ok b =>
    cases h
    rfl

theorem concat_cons_ok {ws : List Writer} {first rest : Bytes} (hw : w = .ok first)
    (hws : concat ws = .ok rest) : concat (w :: ws) = .ok (first ++ rest) := by
  rw [concat, hw, hws]
  rfl

/-- The constructor lays out the header's place and the fields in one buffer. -/
theorem Vote.init_eq_ok {fill : Fill} {vote : Wire.Vote} {built : BuiltVote}
    (h : Vote.init fill vote = .ok built) :
    built.fields = { vote with requests := [] } ∧
      (vote.isReconfiguration = true → 3 ≤ vote.header.version.raw) ∧
      ∃ fields, Vote.writeFields fill vote = .ok fields ∧ built.Holds fields := by
  rw [Vote.init] at h
  split_ifs at h with hold
  obtain ⟨memory₀, h₀, h⟩ := bind_eq_ok.mp h
  obtain ⟨memory₁, h₁, h⟩ := bind_eq_ok.mp h
  obtain ⟨memory₂, h₂, h⟩ := bind_eq_ok.mp h
  obtain ⟨memory₃, h₃, h⟩ := bind_eq_ok.mp h
  obtain ⟨memory₄, h₄, h⟩ := bind_eq_ok.mp h
  obtain ⟨_, ⟨⟩, hplace⟩ := Memory.write_eq_ok h₁
  obtain ⟨cookie, hcookie, hbytes₂⟩ := Memory.write_eq_ok h₂
  obtain ⟨reconf, hreconf, hbytes₃⟩ := Memory.write_eq_ok h₃
  obtain ⟨relinquish, hrelinquish, hbytes₄⟩ := Memory.write_eq_ok h₄
  cases h
  rw [Vote.addMemory_eq_ok h₀, nil_append] at hplace
  refine ⟨rfl, fun hreconf => ?_, cookie ++ (reconf ++ (relinquish ++ [])), ?_, ?_, ?_⟩
  · by_contra hlt
    exact hold ⟨hreconf, not_le.mp hlt⟩
  · exact concat_cons_ok hcookie (concat_cons_ok hreconf (concat_cons_ok hrelinquish rfl))
  · rw [bytes_eq, hbytes₄, hbytes₃, hbytes₂, hplace]
    simp
  · show _ ≤ memory₄.bytes.length
    rw [hbytes₄, hbytes₃, hbytes₂, hplace]
    simp only [length_append, length_replicate]
    omega

/-- Bytes move between the buffers, but not in the vote. -/
theorem BuiltVote.makeRoom_eq_ok {spaceNeeded : Nat} {body : Bytes}
    (hholds : vote.Holds body) (h : vote.makeRoom spaceNeeded = .ok vote') :
    vote'.fields = vote.fields ∧ vote'.Holds body := by
  rw [makeRoom] at h
  split_ifs at h with hroom
  · obtain ⟨newMemory, -, h⟩ := bind_eq_ok.mp h
    cases h
    have hfirst := hholds.first
    have hbase := (baseSize_le vote.fields.header.version).2
    -- A whole number of pages stays behind.
    generalize hkept : vote.back.bytes.length - vote.back.bytes.length % 4096 = kept
    have htake : (vote.back.bytes.take kept).length = kept := by
      rw [length_take]
      omega
    refine ⟨rfl, ?_, ?_⟩
    · rw [← hholds.bytes, bytes_eq, bytes_eq]
      simp only [htake]
      split_ifs with hnone
      · rw [hnone, drop_zero]
      · simp
    · rw [first] at hfirst ⊢
      simp only [htake]
      cases hfull : vote.full with
      | nil =>
        rw [hfull] at hfirst
        have hback : baseSize vote.fields.header.version ≤ vote.back.bytes.length := hfirst
        split_ifs with hnone
        · rw [hnone]
          exact hback
        · show _ ≤ (vote.back.bytes.take kept).length
          rw [htake]
          omega
      | cons memory full =>
        rw [hfull] at hfirst
        split_ifs with hnone
        · exact hfirst
        · exact hfirst
  · cases h
    exact ⟨rfl, hholds⟩

theorem BuiltVote.addRequest_eq_ok {req body : Bytes}
    (hholds : vote.Holds body) (h : vote.addRequest req = .ok vote') :
    vote.fields.isReconfiguration = false ∧
      vote'.fields = { vote.fields with requests := vote.fields.requests ++ [req] } ∧
      ∃ bytes, writeRequest req = .ok bytes ∧ vote'.Holds (body ++ bytes) := by
  rw [addRequest] at h
  split_ifs at h with hreconf
  obtain ⟨roomy, hroomy, h⟩ := bind_eq_ok.mp h
  obtain ⟨back, hback, h⟩ := bind_eq_ok.mp h
  cases h
  obtain ⟨hfields, hroom⟩ := makeRoom_eq_ok hholds hroomy
  obtain ⟨bytes, hbytes, happend⟩ := Memory.write_eq_ok hback
  refine ⟨by simpa using hreconf, by rw [hfields], bytes, hbytes, ?_, ?_⟩
  · rw [bytes_eq]
    show (roomy.full.map Memory.bytes).flatten ++ back.bytes
      = replicate (baseSize roomy.fields.header.version) 0 ++ (body ++ bytes)
    rw [happend, ← append_assoc, ← bytes_eq, hroom.bytes, append_assoc]
  · have hfirst := hroom.first
    rw [first] at hfirst ⊢
    show baseSize roomy.fields.header.version ≤ (roomy.full.headD back).bytes.length
    cases hfull : roomy.full with
    | nil =>
      rw [hfull] at hfirst
      show _ ≤ back.bytes.length
      rw [happend, length_append]
      exact hfirst.trans le_self_add
    | cons memory full =>
      rw [hfull] at hfirst
      exact hfirst

/-- The requests follow each other, whatever buffers they are in. -/
theorem BuiltVote.addRequests_eq_ok {requests : List Bytes} {body : Bytes}
    (hholds : vote.Holds body) (h : requests.foldlM addRequest vote = .ok vote') :
    (vote.fields.isReconfiguration = true → requests = []) ∧
      vote'.fields = { vote.fields with requests := vote.fields.requests ++ requests } ∧
      ∃ bytes, concat (requests.map writeRequest) = .ok bytes ∧ vote'.Holds (body ++ bytes) := by
  induction requests generalizing vote body with
  | nil =>
    cases h
    exact ⟨fun _ => rfl, by rw [append_nil], [], rfl, by rwa [append_nil]⟩
  | cons req requests ih =>
    rw [foldlM_cons] at h
    obtain ⟨next, hnext, h⟩ := bind_eq_ok.mp h
    obtain ⟨hplain, hfields, first, hfirst, hholds'⟩ := addRequest_eq_ok hholds hnext
    obtain ⟨-, hfields', rest, hrest, hholds''⟩ := ih hholds' h
    refine ⟨fun hreconf => ?_, ?_, first ++ rest, concat_cons_ok hfirst hrest, ?_⟩
    · rw [hplain] at hreconf
      cases hreconf
    · rw [hfields', hfields]
      simp
    · rwa [← append_assoc]

/-- A vote that was built has the fields it was built from, and its buffers hold its body. -/
theorem Vote.construct_eq_ok {fill : Fill} {vote : Wire.Vote} {built : BuiltVote}
    (h : Vote.construct fill vote = .ok built) :
    built.fields = vote ∧ (vote.isReconfiguration = true → 3 ≤ vote.header.version.raw) ∧
      (vote.isReconfiguration = true → vote.requests = []) ∧
      ∃ body, Vote.body fill vote = .ok body ∧ built.Holds body := by
  obtain ⟨start, hstart, h⟩ := bind_eq_ok.mp h
  obtain ⟨hfields, hversion, fields, hwrite, hholds⟩ := init_eq_ok hstart
  obtain ⟨hreconf, hfields', bytes, hbytes, hholds'⟩ := addRequests_eq_ok hholds h
  rw [hfields] at hfields' hreconf
  refine ⟨by rw [hfields']; rfl, hversion, hreconf, fields ++ (bytes ++ []), ?_, ?_⟩
  · exact concat_cons_ok hwrite (concat_cons_ok hbytes rfl)
  · rwa [append_nil]

/-- The fingerprint that goes on from buffer to buffer is the fingerprint of all their bytes. -/
theorem foldl_fingerprintWith (x : Bytes) (rest : List Memory) :
    rest.foldl (fun checksum memory => fingerprintWith checksum memory.bytes) (fingerprint x)
      = fingerprint (x ++ (rest.map Memory.bytes).flatten) := by
  induction rest generalizing x with
  | nil => simp
  | cons memory rest ih =>
    rw [foldl_cons, fingerprint, ← fingerprintWith_append Fingerprint.poly_lt]
    show rest.foldl _ (fingerprint (x ++ memory.bytes)) = _
    rw [ih, map_cons, flatten_cons, append_assoc]

theorem concat_map_writeData (rest : List Memory) :
    concat (rest.map fun memory => writeData memory.bytes) =
      .ok (rest.map Memory.bytes).flatten := by
  induction rest with
  | nil => rfl
  | cons memory rest ih => exact concat_cons_ok rfl ih

namespace BuiltVote

variable {body : Bytes}

/-- What stands in the buffers behind the header's place. -/
theorem Holds.drop_first (h : vote.Holds body) :
    vote.first.bytes.drop (baseSize vote.fields.header.version)
      ++ (vote.buffers.tail.map Memory.bytes).flatten = body := by
  have hbytes := h.bytes
  rw [BuiltVote.bytes, buffers_eq, map_cons, flatten_cons] at hbytes
  have hdrop := congrArg (drop (baseSize vote.fields.header.version)) hbytes
  rwa [drop_append_of_le_length h.first, drop_left' (length_replicate ..)] at hdrop

theorem Holds.getMarshalLen_eq (h : vote.Holds body) :
    vote.getMarshalLen = (baseSize vote.fields.header.version + body.length) % word := by
  have hlen := congrArg length h.bytes
  rw [BuiltVote.bytes, length_flatten, map_map, length_append, length_replicate] at hlen
  rw [getMarshalLen, ← hlen]
  rfl

theorem marshal_first (vote : BuiltVote) (fill : Fill) :
    vote.marshal fill = concat
      (Header.marshal vote.fields.header fill vote.getMarshalLen ::
        writeData (vote.first.bytes.drop (Header.baseSize vote.fields.header.version)) ::
        vote.buffers.tail.map fun memory => writeData memory.bytes) := by
  rw [marshal, buffers_eq]
  rfl

theorem Holds.marshal_eq (h : vote.Holds body) (fill : Fill) :
    vote.marshal fill
      = concat [Header.marshal vote.fields.header fill vote.getMarshalLen, writeData body] := by
  rw [marshal_first, concat, concat, concat_map_writeData, concat]
  cases Header.marshal vote.fields.header fill vote.getMarshalLen with
  | error e => rfl
  | ok header =>
    show Except.ok (header ++ (_ ++ _)) = Except.ok (header ++ (body ++ []))
    rw [h.drop_first, append_nil]

theorem Holds.calculateChecksum_eq (h : vote.Holds body) {fill : Fill} {header : Bytes}
    (hheader : Header.marshal vote.fields.header fill vote.getMarshalLen = .ok header) :
    vote.calculateChecksum fill
      = .ok (fingerprint ((header ++ body).drop (checksumOffset + 8))) := by
  have hlen := Header.writes vote.fields.header fill vote.getMarshalLen header hheader
  have hbase := (Header.baseSize_le vote.fields.header.version).1
  have hoffset : checksumOffset + 8 = 14 := rfl
  rw [calculateChecksum, hheader, buffers_eq]
  show Except.ok _ = _
  rw [foldl_fingerprintWith, ← drop_append_of_le_length (by rw [length_append]; omega),
    append_assoc, h.drop_first]

end BuiltVote

/-! ## Votes are read back -/

/-- The host names of a reconfiguration's member set fit their array. -/
def Vote.namesFit (vote : Wire.Vote) : Bool :=
  !vote.isReconfiguration || vote.membersInNewConfiguration.all Cpp.namesFit

variable {vote : Wire.Vote} {fill : Fill}

/-- The member set of a vote that carries one is written. -/
theorem Vote.encodes_members (h : (carriedVote vote).Readable)
    (hnames : Vote.namesFit vote = true) (fill : Fill) {set : MemberSet}
    (hset : (carriedVote vote).membersInNewConfiguration = some set) :
    ∃ original, vote.membersInNewConfiguration = some original ∧
      Encodes (MemberSet.marshal original fill vote.header.version)
        (Wire.MemberSet.unmarshal vote.header.version) set := by
  have hreconf : vote.isReconfiguration = true :=
    h.members.trans ((congrArg Option.isSome hset).trans rfl)
  have hcarried : (carriedVote vote).membersInNewConfiguration
      = vote.membersInNewConfiguration.map (carriedSet vote.header.version) := by
    rw [carriedVote]
    simp only [hreconf]
    rfl
  obtain ⟨original, horiginal, rfl⟩ := Option.map_eq_some_iff.mp (hcarried.symm.trans hset)
  rw [Vote.namesFit, horiginal, hreconf] at hnames
  exact ⟨original, horiginal,
    MemberSet.encodes ⟨h.wellFormed.members _ hset, h.cookie _ hset⟩ hnames fill⟩

/-- The body of a vote is read back, whatever header it is read with. -/
theorem Vote.readBody_body (h : (carriedVote vote).Readable)
    (hnames : Vote.namesFit vote = true) {body : Bytes}
    (hbody : Vote.body fill vote = .ok body) (stamped : Header)
    (hversion : stamped.version = vote.header.version) :
    Wire.Vote.readBody stamped body = some ({ carriedVote vote with header := stamped }, []) := by
  obtain ⟨fields, tail, hfields, htail, rfl⟩ := concat_cons_eq_ok hbody
  obtain ⟨requests, ending, hrequests, hend, rfl⟩ := concat_cons_eq_ok htail
  cases hend
  obtain ⟨cookie, rest₁, hcookie, hrest₁, rfl⟩ := concat_cons_eq_ok hfields
  obtain ⟨reconf, rest₂, hreconf, hrest₂, rfl⟩ := concat_cons_eq_ok hrest₁
  obtain ⟨relinquish, rest₃, hrelinquish, hrest₃, rfl⟩ := concat_cons_eq_ok hrest₂
  cases hrest₃
  have hcookieLen := h.wellFormed.primaryCookie
  obtain ⟨_, hcookie', hreadCookie⟩ := encodes_carried (c := vote.header.version.hasPrimaryCookie)
    (w := writePrimaryCookie vote.primaryCookie) (p := readPrimaryCookie) (a := vote.primaryCookie)
    (d := []) (fun hc => by
      rw [carriedVote] at hcookieLen
      simp only [hc, if_true] at hcookieLen ⊢
      exact encodes_primaryCookie hcookieLen)
  rw [PrimaryCookie.marshal_eq] at hcookie
  cases hcookie.symm.trans hcookie'
  obtain ⟨flag, set, rfl, hreadFlag, hreadSet⟩ := Wire.Vote.reads_reconfiguration h hreconf
    fun set hset => by
      obtain ⟨original, horiginal, hencodes⟩ := encodes_members h hnames fill hset
      rw [horiginal]
      exact hencodes
  obtain ⟨_, hrelinquish', hreadRelinquish⟩ := encodes_carried
    (c := vote.header.version.hasRelinquishPrimary) (w := writeBool vote.relinquishPrimary)
    (p := Wire.readBool) (a := vote.relinquishPrimary) (d := false) (fun hc => by
      rw [if_pos hc]
      exact encodes_bool vote.relinquishPrimary)
  cases hrelinquish.symm.trans hrelinquish'
  simp only [append_assoc, append_nil]
  exact Wire.Vote.readBody_parts h hreadCookie hreadFlag hreadSet hreadRelinquish hrequests stamped
    hversion

theorem size_carriedSet (version : ProtocolVersion) (set : MemberSet) :
    (carriedSet version set).size version = set.size version := by
  simp only [MemberSet.size, carriedSet, map_map, Function.comp_def, RslNode.size,
    hostName_carriedNode]

theorem Vote.size_carried (vote : Wire.Vote) : (carriedVote vote).size = vote.size := by
  have hcookie : (if vote.header.version.hasPrimaryCookie then
        4 + (if vote.header.version.hasPrimaryCookie then vote.primaryCookie else []).length else 0)
      = if vote.header.version.hasPrimaryCookie then 4 + vote.primaryCookie.length else 0 := by
    split <;> rfl
  have hmembers : (if vote.isReconfiguration then
        ((if vote.isReconfiguration then
          vote.membersInNewConfiguration.map (carriedSet vote.header.version) else none).map
            (·.size vote.header.version)).getD 0 else 0)
      = if vote.isReconfiguration then
        (vote.membersInNewConfiguration.map (·.size vote.header.version)).getD 0 else 0 := by
    split
    · rw [Option.map_map]
      congr 2
      funext set
      exact size_carriedSet _ set
    · rfl
  exact congrArg₂ (· + ·) rfl (congrArg₂ (· + ·) hcookie (congrArg₂ (· + ·)
    (congrArg (fun n => if vote.header.version.hasReconfiguration then 1 + n else 0) hmembers) rfl))

theorem carriedVote_members (h : vote.isReconfiguration = true) :
    (carriedVote vote).membersInNewConfiguration
      = vote.membersInNewConfiguration.map (carriedSet vote.header.version) := by
  simp only [carriedVote, h]
  rfl

theorem writes_request (req : Bytes) : Writes (writeRequest req) (4 + req.length) :=
  (writes_leBytes 4 _).cons ((writes_ok req).cons writes_nil)

/-- The vote's body is written as a whole if its members can be counted in a `UInt16`. -/
theorem Vote.writes_body (h : (carriedVote vote).Readable) (fill : Fill) :
    Writes (Vote.body fill vote) vote.bodySize := by
  have hset : Writes (writeIf vote.isReconfiguration (match vote.membersInNewConfiguration with
      | some set => MemberSet.marshal set fill vote.header.version
      | none => .error .panicked))
      (if vote.isReconfiguration then
        (vote.membersInNewConfiguration.map (·.size vote.header.version)).getD 0 else 0) := by
    cases hreconf : vote.isReconfiguration with
    | false => exact writes_ok []
    | true =>
      cases hset : vote.membersInNewConfiguration with
      | none => exact writes_error _ _
      | some set =>
        have hmembers := (h.wellFormed.members (carriedSet vote.header.version set) (by
          rw [carriedVote_members hreconf, hset]
          rfl)).members
        rw [carriedSet, length_map] at hmembers
        exact MemberSet.writes hmembers fill _
  have hcookie : Writes (PrimaryCookie.marshal vote.primaryCookie)
      (4 + vote.primaryCookie.length) := by
    rw [PrimaryCookie.marshal_eq]
    exact writes_primaryCookie _
  have hrequests : Writes (concat (vote.requests.map writeRequest))
      (vote.requests.map fun req => 4 + req.length).sum :=
    writes_map fun req _ => writes_request req
  have hbody := ((hcookie.ite (c := vote.header.version.hasPrimaryCookie)).cons
    ((((writes_ok [if vote.isReconfiguration then 1 else 0]).cons (hset.cons writes_nil)).ite
      (c := vote.header.version.hasReconfiguration)).cons
    (((writes_ok [if vote.relinquishPrimary then 1 else 0]).ite
      (c := vote.header.version.hasRelinquishPrimary)).cons writes_nil))).cons
    (hrequests.cons writes_nil)
  intro bytes hbytes
  rw [hbody bytes hbytes, Wire.Vote.bodySize]
  simp only [length_singleton, add_zero, add_assoc]

/-- The header of a vote and its body are read back as the vote. -/
theorem Vote.unmarshal_body (h : (carriedVote vote).Readable)
    (hnames : Vote.namesFit vote = true) {header body : Bytes}
    (hheader : Header.marshal vote.header fill vote.size = .ok header)
    (hbody : Vote.body fill vote = .ok body) :
    Wire.Vote.unmarshal (header ++ body)
      = some { carriedVote vote with
          header := { carriedHeader vote.header with unMarshalLen := vote.size } } := by
  have hsize : vote.size < 4294967296 := by
    rw [← Vote.size_carried]
    exact h.size
  have hbase : Header.baseSize vote.header.version ≤ vote.size := le_self_add
  have hlen : (header ++ body).length = vote.size := by
    rw [length_append, Header.writes vote.header fill vote.size header hheader,
      Vote.writes_body h fill body hbody]
    rfl
  obtain ⟨header', hheader', hreads⟩ := Header.encodes h.wellFormed.header hsize hbase fill
  cases hheader.symm.trans hheader'
  have hread := Vote.readBody_body h hnames hbody
    { carriedHeader vote.header with unMarshalLen := vote.size } rfl
  have hparse : unmarshalBase (header ++ body)
      = some { carriedHeader vote.header with unMarshalLen := vote.size } := by
    rw [unmarshalBase, hreads body]
    rfl
  have hdrop : (header ++ body).drop (Header.baseSize vote.header.version) = body :=
    drop_left' (Header.writes vote.header fill vote.size header hheader)
  have hmsg : vote.header.msgId = msgVote := h.wellFormed.msgId
  rw [Wire.Vote.unmarshal, hparse]
  simp only [Option.bind_eq_bind, Option.bind_some]
  rw [if_neg (by simp [carriedHeader, hmsg, hlen]), take_of_length_le (by omega)]
  show (Wire.Vote.readBody _
    ((header ++ body).drop (Header.baseSize vote.header.version))).map _ = _
  rw [hdrop, hread]
  rfl

theorem ok_of_concat {ws : List Writer} {bytes : Bytes} (h : concat ws = .ok bytes) {w : Writer}
    (hw : w ∈ ws) : ∃ part, w = .ok part := by
  induction ws generalizing bytes with
  | nil => cases hw
  | cons w' ws ih =>
    obtain ⟨first, rest, hfirst, hrest, -⟩ := concat_cons_eq_ok h
    rcases mem_cons.mp hw with rfl | hw
    · exact ⟨first, hfirst⟩
    · exact ih hrest hw

/-- Host names that were written fit their array. -/
theorem namesFit_of_marshal {set : MemberSet} (hcount : set.members.length < 65536)
    {version : ProtocolVersion} {bytes : Bytes}
    (h : MemberSet.marshal set fill version = .ok bytes) :
    namesFit set = true := by
  rw [MemberSet.marshal, Nat.mod_eq_of_lt hcount, take_length] at h
  obtain ⟨_, _, -, hrest, -⟩ := concat_cons_eq_ok h
  obtain ⟨nodes, _, hnodes, -, -⟩ := concat_cons_eq_ok hrest
  rw [namesFit, all_eq_true]
  intro node hnode
  obtain ⟨i, hi, rfl⟩ := getElem_of_mem hnode
  obtain ⟨nodeBytes, hwritten⟩ := ok_of_concat hnodes
    (mem_mapIdx.mpr ⟨i, hi, rfl⟩ :
      RslNode.marshal set.members[i] (fill (.member i)) version ∈ _)
  refine decide_eq_true (not_le.mp fun hname => ?_)
  rw [RslNode.marshal, if_pos hname] at hwritten
  cases hwritten

/-- A vote that was built has host names that fit. -/
theorem Vote.namesFit_of_body (h : (carriedVote vote).Readable)
    {body : Bytes} (hbody : Vote.body fill vote = .ok body) : Vote.namesFit vote = true := by
  rw [Vote.namesFit]
  cases hreconf : vote.isReconfiguration with
  | false => rfl
  | true =>
    cases hset : vote.membersInNewConfiguration with
    | none => rfl
    | some set =>
      have hcarried : (carriedVote vote).membersInNewConfiguration
          = some (carriedSet vote.header.version set) := by
        rw [carriedVote_members hreconf, hset]
        rfl
      have hcount := (h.wellFormed.members _ hcarried).members
      rw [carriedSet, length_map] at hcount
      have hversion : vote.header.version.raw ≥ 3 := by
        by_contra hlt
        have hnot := (h.wellFormed.noReconfiguration (decide_eq_false hlt)).1
        rw [show (carriedVote vote).isReconfiguration = vote.isReconfiguration from rfl,
          hreconf] at hnot
        cases hnot
      obtain ⟨fields, _, hfields, -, -⟩ := concat_cons_eq_ok hbody
      obtain ⟨_, _, -, hrest, -⟩ := concat_cons_eq_ok hfields
      obtain ⟨reconf, _, hwritten, -, -⟩ := concat_cons_eq_ok hrest
      rw [decide_eq_true hversion, hreconf, hset] at hwritten
      obtain ⟨_, _, -, hmembers, -⟩ := concat_cons_eq_ok hwritten
      obtain ⟨bytes, _, hbytes, -, -⟩ := concat_cons_eq_ok hmembers
      exact namesFit_of_marshal hcount hbytes

/-! ## Messages -/

namespace Built

/-- The header of a message object. -/
def header : Built → Header
  | .base h => h
  | .vote m => m.fields.header
  | .join m => m.header
  | .prepare m => m.header
  | .prepareAccepted h _ => h
  | .statusResponse m => m.header
  | .bootstrap m => m.header

/-- The message object with `m_checksum` set. -/
def setChecksum (checksum : Nat) : Built → Built
  | .base h => .base { h with checksum := checksum }
  | .vote m =>
    .vote
      { m with fields := { m.fields with header := { m.fields.header with checksum := checksum } } }
  | .join m => .join { m with header := { m.header with checksum := checksum } }
  | .prepare m => .prepare { m with header := { m.header with checksum := checksum } }
  | .prepareAccepted h m => .prepareAccepted { h with checksum := checksum } m
  | .statusResponse m => .statusResponse { m with header := { m.header with checksum := checksum } }
  | .bootstrap m => .bootstrap { m with header := { m.header with checksum := checksum } }

theorem setChecksum_self (built : Built) : built.setChecksum built.header.checksum = built := by
  cases built <;> rfl

/-- The message as it is received: what is carried of it, with the lengths that `GetMarshalLen` gave
and the checksum that was sent. -/
def received (checksum : Nat) (built : Built) : Msg :=
  let stamp := fun h => Msg.stampHeader (carriedHeader h) built.getMarshalLen checksum
  match built with
  | .base h => .base (stamp h)
  | .vote m => .vote { carriedVote m.fields with header := stamp m.fields.header }
  | .join m => .join { m with header := stamp m.header }
  | .prepare m =>
    .prepare
      ⟨stamp m.header, if m.header.version.hasPrimaryCookie then m.primaryCookie else []⟩
  | .prepareAccepted h m =>
    .prepareAccepted
      ⟨stamp h, { carriedVote m.fields with
        header := { carriedHeader m.fields.header with unMarshalLen := m.getMarshalLen } }⟩
  | .statusResponse m => .statusResponse { m with header := stamp m.header }
  | .bootstrap m => .bootstrap ⟨stamp m.header, carriedSet m.header.version m.memberSet⟩

end Built

/-- A writer with a version, a length and a checksum in front, where only the checksum depends on
the argument. -/
def Stamps (w : Nat → Writer) (version len : Nat) : Prop :=
  ∀ c bytes, w c = .ok bytes →
    ∃ tail, bytes = leBytes 2 version ++ leBytes 4 len ++ leBytes 8 c ++ tail ∧
      ∀ c', w c' = .ok (leBytes 2 version ++ leBytes 4 len ++ leBytes 8 c' ++ tail)

theorem Stamps.concat {w : Nat → Writer} {version len : Nat} (h : Stamps w version len)
    (ws : List Writer) : Stamps (fun c => Wire.concat (w c :: ws)) version len := by
  intro c bytes hbytes
  obtain ⟨head, rest, hhead, hrest, rfl⟩ := concat_cons_eq_ok hbytes
  obtain ⟨tail, rfl, hwrite⟩ := h c head hhead
  refine ⟨tail ++ rest, by simp only [append_assoc], fun c' => ?_⟩
  show Wire.concat (w c' :: ws) = _
  rw [concat_cons_ok (hwrite c') hrest, append_assoc _ tail]

theorem Header.stamps (header : Header) (fill : Fill) (len : Nat) :
    Stamps (fun c => marshal { header with checksum := c } fill len) header.version.raw len := by
  intro c bytes hbytes
  simp only [marshal] at hbytes
  split_ifs at hbytes with hversion
  obtain ⟨_, rest₁, ⟨⟩, hrest₁, rfl⟩ := concat_cons_eq_ok hbytes
  obtain ⟨_, rest₂, ⟨⟩, hrest₂, rfl⟩ := concat_cons_eq_ok hrest₁
  obtain ⟨_, tail, ⟨⟩, htail, rfl⟩ := concat_cons_eq_ok hrest₂
  refine ⟨tail, by simp only [append_assoc], fun c' => ?_⟩
  simp only [marshal]
  rw [if_neg hversion]
  refine (concat_cons_ok rfl (concat_cons_ok rfl (concat_cons_ok rfl htail))).trans ?_
  simp only [append_assoc]

theorem Stamps.congr {w w' : Nat → Writer} {version len : Nat} (h : Stamps w version len)
    (heq : ∀ c, w' c = w c) : Stamps w' version len := by
  rwa [funext heq]

theorem Built.stamps (built : Built) (fill : Fill) :
    Stamps (fun c => (built.setChecksum c).marshal fill) built.header.version.raw
      built.getMarshalLen := by
  cases built with
  | base h => exact (Header.stamps h fill (Header.baseSize h.version)).congr fun c => rfl
  | vote m =>
    refine ((Header.stamps m.fields.header fill m.getMarshalLen).concat
      (writeData (m.first.bytes.drop (Header.baseSize m.fields.header.version)) ::
        m.buffers.tail.map fun memory => writeData memory.bytes)).congr fun c => ?_
    exact marshal_first
      ⟨{ m.fields with header := { m.fields.header with checksum := c } }, m.full, m.back⟩ fill
  | join m =>
    simp only [setChecksum, marshal, getMarshalLen]
    exact (Header.stamps m.header fill _).concat _
  | prepare m =>
    exact ((Header.stamps m.header fill (prepare m).getMarshalLen).concat
      [writeIf (m.header.version.raw ≥ 2) (PrimaryCookie.marshal m.primaryCookie)]).congr
        fun _ => rfl
  | prepareAccepted h m =>
    simp only [setChecksum, marshal, getMarshalLen]
    exact (Header.stamps h fill _).concat _
  | statusResponse m | bootstrap m =>
    simp only [setChecksum, marshal, getMarshalLen]
    exact (Header.stamps m.header fill _).concat _

theorem drop_stamp (version len c : Nat) (tail : Bytes) :
    (leBytes 2 version ++ leBytes 4 len ++ leBytes 8 c ++ tail).drop
    (checksumOffset + 8) = tail := by
  apply drop_left'
  rw [length_append, length_append, length_leBytes, length_leBytes, length_leBytes, checksumOffset]

theorem take_stamp (version len : Nat) (tail : Bytes) :
    (leBytes 2 version ++ leBytes 4 len ++ tail).take checksumOffset
      = leBytes 2 version ++ leBytes 4 len := by
  apply take_left'
  rw [length_append, length_leBytes, length_leBytes, checksumOffset]

variable {c : Nat} {built : Built} {m : Msg} {bytes : Bytes}

/-- `CalculateChecksum` gives the bytes of the message with its checksum set. -/
theorem Built.calculateChecksum_eq {buf bytes : Bytes}
    (hbuf : built.marshal fill = .ok buf) (h : built.calculateChecksum buf = (c, bytes)) :
    (built.setChecksum c).marshal fill = .ok bytes ∧ c < 18446744073709551616 ∧
      (bytes.length = built.getMarshalLen → c = fingerprint (bytes.drop (checksumOffset + 8))) := by
  rw [← built.setChecksum_self] at hbuf
  obtain ⟨tail, rfl, hwrite⟩ := built.stamps fill _ _ hbuf
  rw [calculateChecksum] at h
  obtain ⟨hc, hbytes⟩ := Prod.mk.inj h
  rw [hc, drop_stamp, append_assoc (leBytes 2 _ ++ leBytes 4 _), take_stamp] at hbytes
  refine ⟨by rw [← hbytes]; exact hwrite c, by rw [← hc]; exact fingerprint_lt _, fun hlen => ?_⟩
  rw [← hbytes, drop_stamp, ← hc, take_of_length_le, drop_stamp]
  rw [← hlen, ← hbytes]
  simp only [length_append, length_leBytes]
  exact le_rfl

/-- What is sent is the message with its checksum set. -/
theorem Built.send_eq_ok
    (h : built.send fill = .ok (c, bytes)) (hholds : ∀ m, built = .vote m → ∃ body, m.Holds body) :
    (built.setChecksum c).marshal fill = .ok bytes ∧ c < 18446744073709551616 ∧
      (bytes.length = built.getMarshalLen → c = fingerprint (bytes.drop (checksumOffset + 8))) := by
  have hother : (built.marshal fill >>= fun buf => pure (built.calculateChecksum buf)) =
      .ok (c, bytes) →
      (built.setChecksum c).marshal fill = .ok bytes ∧ c < 18446744073709551616 ∧
        (bytes.length = built.getMarshalLen →
          c = fingerprint (bytes.drop (checksumOffset + 8))) := by
    intro h
    obtain ⟨buf, hbuf, hsum⟩ := bind_eq_ok.mp h
    exact calculateChecksum_eq hbuf (Except.ok.inj hsum)
  cases built with
  | vote m =>
    obtain ⟨body, hbody⟩ := hholds m rfl
    obtain ⟨sum, hsum, h⟩ := bind_eq_ok.mp h
    obtain ⟨sent, hsent, h⟩ := bind_eq_ok.mp h
    cases h
    obtain ⟨header, hheader, -⟩ := bind_eq_ok.mp hsum
    refine ⟨hsent, ?_, fun _ => ?_⟩
    · rw [hbody.calculateChecksum_eq hheader] at hsum
      rw [← Except.ok.inj hsum]
      exact fingerprint_lt _
    have hbody' : Holds { m with
      fields := { m.fields with header := { m.fields.header with checksum := c } } } body :=
      ⟨hbody.bytes, hbody.first⟩
    obtain ⟨tail, rfl, hwrite⟩ :=
      Header.stamps m.fields.header fill m.getMarshalLen _ header hheader
    rw [hbody'.marshal_eq] at hsent
    rw [hbody.calculateChecksum_eq hheader] at hsum
    have hbytes := Except.ok.inj
      ((concat_cons_ok (hwrite c) (concat_cons_ok rfl (rfl : concat [] = .ok []))).symm.trans hsent)
    have hc := Except.ok.inj hsum
    rw [append_assoc _ tail, drop_stamp] at hc
    rw [← hbytes, append_assoc _ tail, drop_stamp, append_nil, ← hc]
  | base _ | join _ | prepare _ | prepareAccepted _ _ | statusResponse _ | bootstrap _ =>
    exact hother h

/-- A message that can be marshalled can be sent. -/
theorem Built.exists_send
    (h : (built.setChecksum c).marshal fill = .ok bytes)
    (hholds : ∀ m, built = .vote m → ∃ body, m.Holds body) :
    ∃ c' bytes', built.send fill = .ok (c', bytes') := by
  obtain ⟨tail, -, hwrite⟩ := built.stamps fill c bytes h
  have hself : (built.setChecksum built.header.checksum).marshal fill = _ :=
    hwrite built.header.checksum
  rw [built.setChecksum_self] at hself
  have hother : ∃ c' bytes',
      (built.marshal fill >>= fun buf => pure (built.calculateChecksum buf)) =
        .ok (c', bytes') := by
    rw [hself]
    exact ⟨_, _, rfl⟩
  cases built with
  | vote m =>
    obtain ⟨body, hbody⟩ := hholds m rfl
    have hmarshal : m.marshal fill = _ := hself
    rw [hbody.marshal_eq] at hmarshal
    obtain ⟨header, -, hheader, -, -⟩ := concat_cons_eq_ok hmarshal
    refine ⟨_, _, bind_eq_ok.mpr ⟨_, hbody.calculateChecksum_eq hheader,
      bind_eq_ok.mpr ⟨_, hwrite _, rfl⟩⟩⟩
  | base _ => exact hother
  | join _ => exact hother
  | prepare _ => exact hother
  | prepareAccepted _ _ => exact hother
  | statusResponse _ => exact hother
  | bootstrap _ => exact hother

theorem Header.WellFormed.unstamp {header : Header} {len c : Nat}
    (h : (Msg.stampHeader (carriedHeader header) len c).WellFormed) :
    (carriedHeader { header with checksum := c }).WellFormed :=
  ⟨h.version, h.checksum, h.magic, h.msgId, h.memberId, h.decree, h.configurationNumber,
    h.noConfigurationNumber, h.ballot, h.payload, h.noPayload⟩

theorem Vote.Readable.unstamp {vote : Wire.Vote} {len c : Nat}
    (h : Wire.Vote.Readable
      { carriedVote vote with header := Msg.stampHeader (carriedHeader vote.header) len c }) :
    (carriedVote { vote with header := { vote.header with checksum := c } }).Readable where
  wellFormed :=
    ⟨WellFormed.unstamp h.wellFormed.header, h.wellFormed.msgId, h.wellFormed.primaryCookie,
      h.wellFormed.noPrimaryCookie, h.wellFormed.noReconfiguration, h.wellFormed.members,
      h.wellFormed.noRelinquishPrimary, h.wellFormed.requests⟩
  cookie := h.cookie
  members := h.members
  size := h.size

theorem BuiltVote.Holds.writes {vote : BuiltVote} {body : Bytes}
    (hholds : vote.Holds body) (hbody : Vote.body fill vote.fields = .ok body)
    (h : (carriedVote vote.fields).Readable) : Writes (vote.marshal fill) vote.fields.size := by
  rw [hholds.marshal_eq, Wire.Vote.size, ← Vote.writes_body h fill body hbody]
  exact (Header.writes _ fill _).cons ((writes_ok body).cons writes_nil)

/-- A message object whose message is readable is written as a whole. -/
theorem writes_of_construct
    (hbuilt : construct fill m = .ok built) (h : ((carried m).stamped c).Readable) :
    Writes ((built.setChecksum c).marshal fill) m.size := by
  cases m with
  | base header =>
    cases hbuilt
    exact writes _ fill _
  | vote vote =>
    obtain ⟨b, hb, hbuilt⟩ := bind_eq_ok.mp hbuilt
    cases hbuilt
    obtain ⟨rfl, -, -, body, hbody, hholds⟩ := Vote.construct_eq_ok hb
    have hholds' : Holds
        ⟨{ b.fields with header := { b.fields.header with checksum := c } }, b.full, b.back⟩ body :=
      ⟨hholds.bytes, hholds.first⟩
    exact hholds'.writes hbody (Vote.Readable.unstamp h)
  | join m =>
    cases hbuilt
    exact (writes _ fill _).cons ((writes_leBytes 2 _).cons ((writes_leBytes 8 _).cons
      ((writes_leBytes 8 _).cons ((writes_leBytes 8 _).cons writes_nil))))
  | prepare m =>
    cases hbuilt
    have hcookie : Writes (PrimaryCookie.marshal m.primaryCookie) (4 + m.primaryCookie.length) := by
      rw [PrimaryCookie.marshal_eq]
      exact writes_primaryCookie _
    exact (writes _ fill _).cons (hcookie.ite.cons writes_nil)
  | prepareAccepted m =>
    obtain ⟨b, hb, hbuilt⟩ := bind_eq_ok.mp hbuilt
    cases hbuilt
    obtain ⟨header, vote⟩ := m
    obtain ⟨rfl, -, -, body, hbody, hholds⟩ := Vote.construct_eq_ok hb
    have hvote := Vote.Readable.unstamp (c := b.fields.header.checksum) h.2.2
    exact (writes _ fill _).cons ((hholds.writes hbody hvote).cons writes_nil)
  | statusResponse m =>
    cases hbuilt
    have hwrites : Writes (((statusResponse m).setChecksum c).marshal fill) _ :=
      (writes _ fill _).cons ((writes_leBytes 8 _).cons ((BallotNumber.writes _ _ _).cons
        ((writes_leBytes 8 _).cons ((writes_leBytes 8 _).cons ((writes_leBytes 8 _).cons
        ((writes_leBytes 8 _).cons ((BallotNumber.writes _ _ _).cons ((writes_leBytes 4 _).cons
        writes_nil))))))))
    intro bytes hbytes
    rw [hwrites bytes hbytes]
    simp only [Msg.size, StatusResponse.marshalLen]
    omega
  | bootstrap m =>
    cases hbuilt
    have hcount : m.memberSet.members.length < 65536 := by
      have hmembers : (m.memberSet.members.map (carriedNode m.header.version)).length < 65536 :=
        h.2.2.1.members
      rwa [length_map] at hmembers
    exact (writes _ fill _).cons ((MemberSet.writes hcount fill _).cons writes_nil)

/-- A vote that was built can be marshalled, and is read back. -/
theorem BuiltVote.Holds.marshal_reads {vote : BuiltVote} {body : Bytes}
    (hholds : vote.Holds body) (hbody : Vote.body fill vote.fields = .ok body)
    (h : (carriedVote vote.fields).Readable) :
    vote.getMarshalLen = vote.fields.size ∧ ∃ bytes, vote.marshal fill = .ok bytes ∧
      bytes.length = vote.fields.size ∧ Wire.Vote.unmarshal bytes =
        some { carriedVote vote.fields with
        header :=
          { carriedHeader vote.fields.header with unMarshalLen := vote.getMarshalLen } } := by
  have hsize : vote.fields.size < 4294967296 := by
    rw [← Vote.size_carried]
    exact h.size
  have hlen : vote.getMarshalLen = vote.fields.size := by
    rw [hholds.getMarshalLen_eq, Vote.writes_body h fill body hbody]
    exact Nat.mod_eq_of_lt hsize
  obtain ⟨header, hheader, -⟩ :=
    Header.encodes h.wellFormed.header hsize le_self_add fill
  have hmarshal : vote.marshal fill = .ok (header ++ (body ++ [])) := by
    rw [hholds.marshal_eq, hlen]
    exact concat_cons_ok hheader (concat_cons_ok rfl rfl)
  refine ⟨hlen, header ++ (body ++ []), hmarshal, hholds.writes hbody h _ hmarshal, ?_⟩
  · rw [append_nil, hlen]
    exact Vote.unmarshal_body h (Vote.namesFit_of_body h hbody) hheader hbody

/-- The host names of a bootstrap message fit their array; those of a vote did when it was built. -/
def bootstrapNamesFit : Msg → Bool
  | .bootstrap m => namesFit m.memberSet
  | _ => true

theorem size_carried (m : Msg) : (carried m).size = m.size := by
  cases m with
  | base header => rfl
  | vote m => exact Vote.size_carried m
  | join m => rfl
  | prepare m =>
    simp only [Msg.size, carried, carriedHeader]
    split <;> rfl
  | prepareAccepted m => exact congrArg₂ (· + ·) rfl (Vote.size_carried m.vote)
  | statusResponse m => rfl
  | bootstrap m => exact congrArg₂ (· + ·) rfl (size_carriedSet _ m.memberSet)

theorem marshalLen_carried (h : m.size < word) : (carried m).marshalLen = m.size := by
  rw [Msg.marshalLen_eq, size_carried, asU32]
  exact Nat.mod_eq_of_lt h

/-- The message object can be marshalled with this checksum, and the message is read back with the
fields that are carried. -/
structure Returns (fill : Fill) (c : Nat) (built : Built) (m : Msg) : Prop where
  marshalLen : built.getMarshalLen = m.size
  received : built.received c = (carried m).stamped c
  reads : ∃ bytes, (built.setChecksum c).marshal fill = .ok bytes ∧ bytes.length = m.size ∧
    Msg.unmarshal m.kind bytes = some (built.received c)

theorem Returns.of_encodes {α : Type}
    {p : Wire.Reader α} {a : α} (hbuilt : construct fill m = .ok built)
    (h : ((carried m).stamped c).Readable) (hlen : built.getMarshalLen = m.size)
    (hreceived : built.received c = (carried m).stamped c)
    (hreads : Encodes ((built.setChecksum c).marshal fill) p a)
    (hread : ∀ bytes, p bytes = some (a, []) →
      Msg.unmarshal m.kind bytes = some (built.received c)) :
    Returns fill c built m := by
  obtain ⟨bytes, hbytes, -⟩ := id hreads
  exact ⟨hlen, hreceived, bytes, hbytes, writes_of_construct hbuilt h bytes hbytes,
    hread bytes (hreads.unmarshal hbytes)⟩

theorem returns_base {header : Header}
    (h : ((carried (.base header)).stamped c).Readable) (hsize : (Msg.base header).size < word) :
    Returns fill c (.base header) (.base header) := by
  refine .of_encodes rfl h rfl rfl
    (encodes (WellFormed.unstamp h) hsize le_rfl fill) fun bytes hread => ?_
  simp only [Msg.unmarshal, Msg.kind, unmarshalBase]
  rw [hread]
  rfl

theorem returns_vote {vote : Wire.Vote} {b : BuiltVote}
    (hb : Vote.construct fill vote = .ok b) (h : ((carried (.vote vote)).stamped c).Readable)
    (hsize : (Msg.vote vote).size < word) : Returns fill c (.vote b) (.vote vote) := by
  obtain ⟨rfl, -, -, body, hbody, hholds⟩ := Vote.construct_eq_ok hb
  -- The checksum is in neither the body nor the length.
  have hholds' : Holds
      ⟨{ b.fields with header := { b.fields.header with checksum := c } }, b.full, b.back⟩ body :=
    ⟨hholds.bytes, hholds.first⟩
  obtain ⟨hlen, bytes, hbytes, hbytesLen, hread⟩ :=
    hholds'.marshal_reads hbody (Vote.Readable.unstamp h)
  refine ⟨hlen, ?_, bytes, hbytes, hbytesLen, ?_⟩
  · exact congrArg (fun len => Msg.vote { carriedVote b.fields with
      header := Msg.stampHeader (carriedHeader b.fields.header) len c })
      (hlen.trans (marshalLen_carried hsize).symm)
  · simp only [Msg.unmarshal, Msg.kind]
    rw [hread]
    rfl

theorem returns_join {m : JoinMessage}
    (h : ((carried (.join m)).stamped c).Readable) (hsize : (Msg.join m).size < word) :
    Returns fill c (.join m) (.join m) := by
  have hwell : JoinMessage.WellFormed _ := h
  have hmsg : (m.header.msgId == msgJoin) = true := beq_iff_eq.mpr hwell.msgId
  have hbase : baseSize m.header.version ≤ baseSize m.header.version + 2 + 8 + 8 + 8 := by
    omega
  have hreads : Encodes (((join m).setChecksum c).marshal fill) Wire.JoinMessage.unmarshal _ :=
    (encodes (WellFormed.unstamp hwell.header) hsize hbase fill).cons (.check hmsg
      ((encodes_u16 hwell.learnPort).cons ((encodes_u64 hwell.minDecreeInLog).cons
      ((encodes_u64 hwell.checkpointedDecree).cons ((encodes_u64 hwell.checkpointSize).cons
      (encodes_nil _))))))
  refine .of_encodes rfl h rfl rfl hreads fun bytes hread => ?_
  simp only [Msg.unmarshal, Msg.kind]
  rw [hread]
  rfl

theorem returns_statusResponse {m : StatusResponse}
    (h : ((carried (.statusResponse m)).stamped c).Readable)
    (hsize : (Msg.statusResponse m).size < word) :
    Returns fill c (.statusResponse m) (.statusResponse m) := by
  have hwell : StatusResponse.WellFormed _ := h
  have hmsg : (m.header.msgId == msgStatusResponse) = true := beq_iff_eq.mpr hwell.msgId
  have hbase : baseSize m.header.version ≤ (statusResponse m).getMarshalLen :=
    le_add_self
  have hreads : Encodes (((statusResponse m).setChecksum c).marshal fill)
      Wire.StatusResponse.unmarshal _ :=
    (encodes (WellFormed.unstamp hwell.header) hsize hbase fill).cons (.check hmsg
      ((encodes_u64 hwell.queryDecree).cons ((BallotNumber.encodes hwell.queryBallot _).cons
      ((encodes_u64 hwell.lastReceivedAgo).cons ((encodes_u64 hwell.minDecreeInLog).cons
      ((encodes_u64 hwell.checkpointedDecree).cons ((encodes_u64 hwell.checkpointSize).cons
      ((BallotNumber.encodes hwell.maxBallot _).cons
        ((encodes_u32 hwell.state).cons (encodes_nil _))))))))))
  refine .of_encodes rfl h rfl rfl hreads fun bytes hread => ?_
  simp only [Msg.unmarshal, Msg.kind]
  rw [hread]
  rfl

theorem returns_prepare {m : PrepareMsg}
    (h : ((carried (.prepare m)).stamped c).Readable) (hsize : (Msg.prepare m).size < word) :
    Returns fill c (.prepare m) (.prepare m) := by
  have hwell : PrepareMsg.WellFormed _ := h
  have hmsg : (m.header.msgId == msgPrepare) = true := beq_iff_eq.mpr hwell.msgId
  have hlen : (prepare m).getMarshalLen = (Msg.prepare m).size := by
    have hcookie :
        (if m.header.version.raw ≥ 2 then PrimaryCookie.getMarshalLen m.primaryCookie else 0)
        = (if m.header.version.hasPrimaryCookie then 4 + m.primaryCookie.length else 0) % word := by
      simp only [ProtocolVersion.hasPrimaryCookie, decide_eq_true_eq, PrimaryCookie.getMarshalLen]
      split
      · rw [add_comm]
      · rfl
    rw [Built.getMarshalLen, hcookie, add_comm, Nat.add_mod_mod]
    exact Nat.mod_eq_of_lt hsize
  have hcookie (hc : m.header.version.hasPrimaryCookie = true) :
      Encodes (PrimaryCookie.marshal m.primaryCookie) readPrimaryCookie
        (if m.header.version.hasPrimaryCookie then m.primaryCookie else []) := by
    have hlt : (if m.header.version.hasPrimaryCookie then m.primaryCookie else []).length
      < 4294967296 := hwell.primaryCookie
    rw [if_pos hc] at hlt ⊢
    rw [PrimaryCookie.marshal_eq]
    exact encodes_primaryCookie hlt
  have hbase : baseSize m.header.version ≤ (prepare m).getMarshalLen := by
    rw [hlen]
    exact le_self_add
  have hreads : Encodes (((prepare m).setChecksum c).marshal fill) Wire.PrepareMsg.unmarshal _ :=
    (encodes (WellFormed.unstamp hwell.header) (by rwa [hlen]) hbase fill).cons
      (.check hmsg ((encodes_carried hcookie).cons (encodes_nil _)))
  refine .of_encodes rfl h hlen ?_ hreads fun bytes hread => ?_
  · exact congrArg (fun len => Msg.prepare ⟨Msg.stampHeader (carriedHeader m.header) len c,
      if m.header.version.hasPrimaryCookie then m.primaryCookie else []⟩)
      (hlen.trans (marshalLen_carried hsize).symm)
  · simp only [Msg.unmarshal, Msg.kind]
    rw [hread]
    rfl

theorem returns_bootstrap {m : BootstrapMsg}
    (h : ((carried (.bootstrap m)).stamped c).Readable) (hsize : (Msg.bootstrap m).size < word)
    (hnames : namesFit m.memberSet = true) : Returns fill c (.bootstrap m) (.bootstrap m) := by
  obtain ⟨hheader, hmsgId, hset⟩ := id h
  have hmsg : (m.header.msgId == msgBootstrap) = true := beq_iff_eq.mpr hmsgId
  have hlen : (bootstrap m).getMarshalLen = (Msg.bootstrap m).size := by
    have hmembers : MemberSet.getMarshalLen m.memberSet m.header.version
        = m.memberSet.size m.header.version % word := MemberSet.marshalLen_eq _ _
    rw [Built.getMarshalLen, hmembers, Nat.add_mod_mod]
    exact Nat.mod_eq_of_lt hsize
  have hbase : baseSize m.header.version ≤ (bootstrap m).getMarshalLen := by
    rw [hlen]
    exact le_self_add
  have hreads : Encodes (((bootstrap m).setChecksum c).marshal fill)
      Wire.BootstrapMsg.unmarshal _ :=
    (encodes (WellFormed.unstamp hheader) (by rwa [hlen]) hbase fill).cons
      (.check hmsg ((MemberSet.encodes hset hnames fill).cons (encodes_nil _)))
  refine .of_encodes rfl h hlen ?_ hreads fun bytes hread => ?_
  · exact congrArg (fun len => Msg.bootstrap ⟨Msg.stampHeader (carriedHeader m.header) len c,
      carriedSet m.header.version m.memberSet⟩) (hlen.trans (marshalLen_carried hsize).symm)
  · simp only [Msg.unmarshal, Msg.kind]
    rw [hread]
    rfl

theorem returns_prepareAccepted {m : Wire.PrepareAccepted} {b : BuiltVote}
    (hb : Vote.construct (fun slot => fill (.nested slot)) m.vote = .ok b)
    (h : ((carried (.prepareAccepted m)).stamped c).Readable)
    (hsize : (Msg.prepareAccepted m).size < word) :
    Returns fill c (.prepareAccepted m.header b) (.prepareAccepted m) := by
  obtain ⟨header, vote⟩ := m
  obtain ⟨rfl, -, -, body, hbody, hholds⟩ := Vote.construct_eq_ok hb
  obtain ⟨hheader, hmsgId, hvote⟩ := h
  have hvote : (carriedVote b.fields).Readable :=
    Vote.Readable.unstamp (c := b.fields.header.checksum) hvote
  obtain ⟨hvoteLen, bytes, hbytes, hbytesLen, hread⟩ := hholds.marshal_reads hbody hvote
  have hlen : (prepareAccepted header b).getMarshalLen
      = (Msg.prepareAccepted ⟨header, b.fields⟩).size := by
    rw [Built.getMarshalLen, hvoteLen, add_comm]
    exact Nat.mod_eq_of_lt hsize
  have hbase : baseSize header.version ≤ (prepareAccepted header b).getMarshalLen := by
    rw [hlen]
    exact le_self_add
  have hnested : b.getMarshalLen = (carriedVote b.fields).marshalLen := by
    rw [hvoteLen, Vote.marshalLen_eq, Vote.size_carried, asU32]
    exact (Nat.mod_eq_of_lt (le_add_self.trans_lt hsize)).symm
  obtain ⟨head, hhead, hreadHead⟩ :=
    encodes (WellFormed.unstamp hheader) (by rwa [hlen]) hbase fill
  refine ⟨hlen, ?_, head ++ (bytes ++ []), ?_, ?_, ?_⟩
  · exact congrArg₂ (fun len nested => Msg.prepareAccepted
      ⟨Msg.stampHeader (carriedHeader header) len c, { carriedVote b.fields with
        header := { carriedHeader b.fields.header with unMarshalLen := nested } }⟩)
      (hlen.trans (marshalLen_carried hsize).symm) hnested
  · exact concat_cons_ok hhead (concat_cons_ok hbytes rfl)
  · have hheadLen := writes _ _ _ head hhead
    rw [append_nil, length_append, hheadLen, hbytesLen]
    rfl
  · simp only [Msg.unmarshal, Msg.kind, Wire.PrepareAccepted.unmarshal]
    rw [hreadHead, append_nil]
    simp only
    rw [if_neg (fun hne => hne hmsgId), hread]
    rfl

/-- Every kind of message that was built is read back. -/
theorem returns_of_construct
    (hbuilt : construct fill m = .ok built) (h : ((carried m).stamped c).Readable)
    (hsize : m.size < word) (hnames : bootstrapNamesFit m = true) : Returns fill c built m := by
  cases m with
  | base header =>
    cases hbuilt
    exact returns_base h hsize
  | vote vote =>
    obtain ⟨b, hb, hbuilt⟩ := bind_eq_ok.mp hbuilt
    cases hbuilt
    exact returns_vote hb h hsize
  | join m =>
    cases hbuilt
    exact returns_join h hsize
  | prepare m =>
    cases hbuilt
    exact returns_prepare h hsize
  | prepareAccepted m =>
    obtain ⟨b, hb, hbuilt⟩ := bind_eq_ok.mp hbuilt
    cases hbuilt
    exact returns_prepareAccepted hb h hsize
  | statusResponse m =>
    cases hbuilt
    exact returns_statusResponse h hsize
  | bootstrap m =>
    cases hbuilt
    exact returns_bootstrap h hsize hnames

/-- What the object of a message says about the message, whatever its lengths are. -/
theorem received_stamped (hbuilt : construct fill m = .ok built)
    (c c' : Nat) : (built.received c).stamped c' = (carried m).stamped c' ∧
      built.header = m.header ∧ ∀ v, built = .vote v → ∃ body, v.Holds body := by
  cases m with
  | vote vote =>
    obtain ⟨b, hb, hbuilt⟩ := bind_eq_ok.mp hbuilt
    cases hbuilt
    obtain ⟨rfl, -, -, body, -, hholds⟩ := Vote.construct_eq_ok hb
    refine ⟨rfl, rfl, ?_⟩
    rintro _ ⟨⟩
    exact ⟨body, hholds⟩
  | prepareAccepted m =>
    obtain ⟨b, hb, hbuilt⟩ := bind_eq_ok.mp hbuilt
    cases hbuilt
    obtain ⟨header, vote⟩ := m
    obtain ⟨rfl, -⟩ := Vote.construct_eq_ok hb
    exact ⟨rfl, rfl, nofun⟩
  | base _ | join _ | prepare _ | statusResponse _ | bootstrap _ =>
    cases hbuilt; exact ⟨rfl, rfl, nofun⟩

/-- **The round trip.** The message is sent in `GetMarshalLen` bytes, its header says so,
`UnMarshalMessage` reads it back with every field that is marshalled, and its checksum verifies. -/
def RoundTrips (fill : Fill) (built : Built) : Prop :=
  ∃ c bytes, built.send fill = .ok (c, bytes) ∧ bytes.length = built.getMarshalLen ∧
    leNat ((bytes.drop 2).take 4) = built.getMarshalLen ∧
    (∃ fuel m', unMarshalMessage fuel bytes = .ok m' ∧ m'.value = some (built.received c)) ∧
    verifyChecksumAt bytes 0 (built.received c).header = true

theorem Built.getMarshalLen_lt (built : Built) : built.getMarshalLen < word := by
  have hmod (n : Nat) : n % word < word := Nat.mod_lt n (by decide)
  cases built with
  | base h =>
    have hbase := (baseSize_le h.version).2
    simp only [getMarshalLen, word]
    omega
  | vote m => exact hmod _
  | join m =>
    have hbase := (baseSize_le m.header.version).2
    simp only [getMarshalLen, word]
    omega
  | prepare m => exact hmod _
  | prepareAccepted h m => exact hmod _
  | statusResponse m =>
    have hbase := (baseSize_le m.header.version).2
    have hballot : BallotNumber.baseSize m.header.version ≤ 68 := by
      simp only [BallotNumber.baseSize, MemberId.baseSize]
      split <;> omega
    simp only [getMarshalLen, word]
    omega
  | bootstrap m => exact hmod _

theorem Built.header_received (built : Built) (c : Nat) :
    (built.received c).header = Msg.stampHeader (carriedHeader built.header)
    built.getMarshalLen c := by
  cases built <;> rfl

/-- The length field is the length that was stamped. -/
theorem leNat_length_stamps {w : Nat → Writer} {version len c : Nat} (h : Stamps w version len)
    (hbytes : w c = .ok bytes) (hlen : len < word) :
    leNat ((bytes.drop 2).take 4) = len := by
  obtain ⟨tail, rfl, -⟩ := h c bytes hbytes
  rw [append_assoc, append_assoc, drop_left' (length_leBytes 2 _),
    take_left' (length_leBytes 4 _), leNat_leBytes]
  exact Nat.mod_eq_of_lt hlen

theorem kind_carried (m : Msg) : (carried m).kind = m.kind := by
  cases m <;> rfl

theorem bootstrapNamesFit_of_suits
    (h : msgSuits ((carried m).stamped c) = true) : bootstrapNamesFit m = true := by
  cases m with
  | bootstrap m => exact (namesFit_carriedSet m.header.version m.memberSet).symm.trans h
  | _ => rfl

section

variable (hbuilt : construct fill m = .ok built)

include hbuilt

theorem bootstrapNamesFit_of_marshal (h : ((carried m).stamped c).Readable)
    (hbytes : (built.setChecksum c).marshal fill = .ok bytes) : bootstrapNamesFit m = true := by
  cases m with
  | bootstrap m =>
    cases hbuilt
    obtain ⟨_, _, -, hrest, -⟩ := concat_cons_eq_ok hbytes
    obtain ⟨_, _, hset, -, -⟩ := concat_cons_eq_ok hrest
    have hcount : (m.memberSet.members.map (carriedNode m.header.version)).length < 65536 :=
      h.2.2.1.members
    rw [length_map] at hcount
    exact namesFit_of_marshal hcount hset
  | _ => rfl

/-- The bytes that were sent are read as the message that is received, if the reader can return
it. -/
theorem received_back (hc : c < 18446744073709551616)
    (hbytes : (built.setChecksum c).marshal fill = .ok bytes)
    (hlen : bytes.length = built.getMarshalLen) (h : (built.received c).Readable) :
    m.size < word ∧ built.received c = (carried m).stamped c ∧
      Msg.unmarshal (built.received c).kind bytes = some (built.received c) := by
  have hreadable : ((carried m).stamped c).Readable := by
    rw [← (received_stamped hbuilt c c).1]
    exact h.stamp hc
  have hsize : m.size < word := by
    rw [← writes_of_construct hbuilt hreadable bytes hbytes, hlen]
    exact built.getMarshalLen_lt
  obtain ⟨-, hreceived, bytes', hbytes', -, hread⟩ := returns_of_construct hbuilt hreadable hsize
    (bootstrapNamesFit_of_marshal hbuilt hreadable hbytes)
  cases hbytes.symm.trans hbytes'
  refine ⟨hsize, hreceived, ?_⟩
  rw [hreceived, Msg.kind_stamped, kind_carried, ← hreceived]
  exact hread

/-- A message for which `ReachesPeer` holds can be sent, its length is the one that is declared, and
both readers take it. -/
theorem exists_send_of_reachesPeer (h : ReachesPeer (carried m)) :
    ∃ c bytes, built.send fill = .ok (c, bytes) ∧ bytes.length = m.size ∧
      bytes.length = built.getMarshalLen ∧ (built.setChecksum c).marshal fill = .ok bytes ∧
      c = fingerprint (bytes.drop (checksumOffset + 8)) ∧
      (∃ fuel m', unMarshalMessage fuel bytes = .ok m' ∧ m'.value = some (built.received c)) ∧
      Msg.unmarshal (carried m).kind bytes = some ((carried m).stamped c) := by
  have hholds := (received_stamped hbuilt 0 0).2.2
  obtain ⟨hreadable, hsize, hkind, hsuits, hplain⟩ := h
  rw [size_carried] at hsize
  have hnames := bootstrapNamesFit_of_suits hsuits
  obtain ⟨-, -, _, hzero, -⟩ := returns_of_construct hbuilt hreadable hsize hnames
  obtain ⟨c, bytes, hsend⟩ := exists_send hzero hholds
  obtain ⟨hbytes, hc, hsum⟩ := send_eq_ok hsend hholds
  have hreadable : ((carried m).stamped c).Readable := by
    have hstamped := hreadable.stamp hc
    rwa [Msg.stamped_stamped] at hstamped
  have hwritten : bytes.length = m.size := writes_of_construct hbuilt hreadable bytes hbytes
  have hlen : bytes.length = built.getMarshalLen :=
    hwritten.trans (returns_of_construct hbuilt hreadable hsize hnames).marshalLen.symm
  have hreceived := (returns_of_construct hbuilt hreadable hsize hnames).received
  have hheader := built.header_received c
  have hback : (built.received c).Readable → Msg.unmarshal (built.received c).kind bytes =
      some (built.received c) := fun h => (received_back hbuilt hc hbytes hlen h).2.2
  refine ⟨c, bytes, hsend, hwritten, hlen, hbytes, hsum hlen, ?_, ?_⟩
  · have hword : bytes.length < word := by
      rw [hlen]
      exact built.getMarshalLen_lt
    refine (unMarshalMessage_value_iff hword fun h _ => hback h).mpr ⟨?_, ?_, ?_, ?_, ?_⟩
    · rwa [hreceived]
    · rw [hheader]
      show baseSize built.header.version ≤ built.getMarshalLen
      rw [← hlen, hwritten, (received_stamped hbuilt 0 0).2.1]
      exact m.baseSize_le_size
    · rw [hreceived, Msg.header_stamped, Msg.kind_stamped]
      exact hkind
    · rwa [hreceived, msgSuits_stamped]
    · rwa [hreceived, plainMsg_stamped]
  · have hread := hback (hreceived ▸ hreadable)
    rwa [hreceived, Msg.kind_stamped] at hread

end

/-- Every message comes back exactly if `ReachesPeer` holds of what is carried of it: its fields are
in range, it is not too long, and its reader accepts it. -/
theorem message_round_trip (fill : Fill) (m : Msg) (built : Built)
    (hbuilt : construct fill m = .ok built) :
    RoundTrips fill built ↔ ReachesPeer (carried m) := by
  have hholds := (received_stamped hbuilt 0 0).2.2
  constructor
  · rintro ⟨c, bytes, hsend, hlen, -, hvalue, -⟩
    obtain ⟨hbytes, hc, -⟩ := send_eq_ok hsend hholds
    have hword : bytes.length < word := by
      rw [hlen]
      exact built.getMarshalLen_lt
    obtain ⟨hreadable, -, hkind, hsuits, hplain⟩ := (unMarshalMessage_value_iff hword fun h _ =>
      (received_back hbuilt hc hbytes hlen h).2.2).mp hvalue
    obtain ⟨hsize, hreceived, -⟩ := received_back hbuilt hc hbytes hlen hreadable
    rw [hreceived] at hreadable hkind hsuits hplain
    have hzero := hreadable.stamp (by decide : 0 < 18446744073709551616)
    rw [Msg.stamped_stamped] at hzero
    rw [Msg.header_stamped, Msg.kind_stamped] at hkind
    rw [msgSuits_stamped] at hsuits
    rw [plainMsg_stamped] at hplain
    exact ⟨hzero, by rwa [size_carried], hkind, hsuits, hplain⟩
  · intro h
    obtain ⟨c, bytes, hsend, -, hlen, hbytes, hsum, hvalue, -⟩ :=
      exists_send_of_reachesPeer hbuilt h
    refine ⟨c, bytes, hsend, hlen, ?_, hvalue, ?_⟩
    · exact leNat_length_stamps (built.stamps fill) hbytes built.getMarshalLen_lt
    · rw [verifyChecksumAt, built.header_received c]
      show (fingerprint ((bytes.take built.getMarshalLen).drop (checksumOffset + 8)) == c) = true
      rw [← hlen, take_length, ← hsum]
      exact beq_self_eq_true c

/-- The bootstrap message with a short cookie comes back. -/
theorem message_round_trip_bootstrap :
    RoundTrips (fun _ _ => 7) (.bootstrap ⟨bootstrapHeader, ⟨[bootstrapNode], [7]⟩⟩) := by
  have hreadable : (bootstrapWith [7]).Readable :=
    (bootstrapWith_wellFormed (by decide)).readable (by decide +kernel)
  have hcarried : carried (bootstrapWith [7]) = bootstrapWith [7] := by decide +kernel
  refine (message_round_trip (fun _ _ => 7) (bootstrapWith [7]) _ rfl).mpr ?_
  rw [hcarried]
  exact ⟨hreadable.stamp (by decide), by decide +kernel, by decide +kernel, by decide +kernel,
    by decide +kernel⟩

/-- A message object of a bootstrap message whose member set has a cookie of 8193 bytes, which
`SetConfigurationCookie` takes. -/
def longCookie : Built := .bootstrap ⟨bootstrapHeader, ⟨[bootstrapNode], replicate 8193 0⟩⟩

/-- It is built and sent, but `MemberSet::UnMarshal` refuses it. -/
theorem not_round_trip_longCookie :
    construct (fun _ _ => 0) (bootstrapWith (replicate 8193 0)) = .ok longCookie ∧
      ¬ RoundTrips (fun _ _ => 0) longCookie := by
  refine ⟨rfl, ?_⟩
  rintro ⟨c, bytes, hsend, -, -, ⟨fuel, m', hread, -⟩, -⟩
  have hok : (match longCookie.send fun _ _ => 0 with
      | .error _ => false
      | .ok r =>
        decide ((unMarshal.cursor word r.2 0).map (fun h => kindOf h.1.msgId)
          = .ok (some .bootstrap)) &&
        decide (BootstrapMsg.unMarshal.cursor word r.2 0 = .error .refused)) = true := by
    decide +kernel
  rw [hsend] at hok
  simp only [Bool.and_eq_true, decide_eq_true_eq] at hok
  rw [unMarshalMessage_bootstrap_error hok.1 hok.2] at hread
  cases hread

end Rsl.Cpp
