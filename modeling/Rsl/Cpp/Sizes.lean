import Rsl.Cpp.Buffers
import Rsl.LogFile.FetchVotes
import Rsl.Net.Agree

/-!
# Sizes of votes, from the call to the peer

The limit that `ConfigParam::Init` computes from the configured megabytes, the batching of requests
by `ReplicateRequest` and `ReplicateRequestExclusiveVote` into the votes of `m_votesToSend`, and
what a peer with the same configuration makes of such a vote: in a packet, in its log and over the
learn port.

Nothing on the way checks the length of a request, and the limit is computed in 32 bits.
`sizes_coherent` says that all is well for configured sizes below 4096 MB as long as the vote that a
request goes to stays within the configured size, and within the `2 ^ 30` bytes that the buffers of
a connection can hold.
-/

set_option autoImplicit false

namespace Rsl.Cpp

open Wire Lib List

/-! ## The limit -/

/-- `m_maxMessageSize` for a configured `m_maxMessageSizeMB`; `none` when the configuration is
refused. -/
def maxMessageSize (megabytes : Nat) : Option Nat :=
  if megabytes < 1 ∨ 2147483647 < megabytes then none
  else some ((megabytes * 1048576 % word + 1024) % word)

/-- `s_AvgMessageLen`. -/
def avgMessageLen : Nat := 10485760

/-! ## The queue -/

/-- An element of `m_votesToSend`. A configuration change only keeps requests from joining it. -/
inductive Queued where
  | vote (built : BuiltVote) (isExclusiveVote : Bool)
  | reconfiguration
  deriving DecidableEq, Repr

/-- What the two calls read and write of a replica. -/
structure Replicator where
  isPrimary : Bool
  isShutting : Bool
  votesToSend : List Queued
  deriving DecidableEq, Repr

/-- What `(UInt32) len` leaves of a request. -/
def truncated (request : Bytes) : Bytes := request.take (request.length % word)

/-- The request joins the last vote; the sum is a `size_t`. -/
def BuiltVote.joins (built : BuiltVote) (request : Bytes) : Bool :=
  decide ((built.getMarshalLen + request.length + 4) % 18446744073709551616 ≤ avgMessageLen)

inductive Event where
  | replicateRequest (header : Header) (cookie request : Bytes)
  | replicateRequestExclusiveVote (header : Header) (cookie request : Bytes)
    (setShutdownAfter : Bool)
  /-- A heartbeat, or the vote of `RelinquishPrimary`. -/
  | enqueue (header : Header) (cookie : Bytes) (relinquishPrimary : Bool)
  | changeConfiguration
  /-- The main loop takes the next vote. -/
  | dequeue
  | setRole (isPrimary isShutting : Bool)
  deriving DecidableEq, Repr

namespace Replicator

variable (fill : Fill)

/-- A vote of its own for a request. -/
def addVote (s : Replicator) (header : Header) (cookie request : Bytes) (isExclusiveVote : Bool) :
    Except WriteFailure Replicator := do
  let built ← Vote.init fill (newVote header cookie false)
  let built ← built.addRequest (truncated request)
  return { s with votesToSend := s.votesToSend ++ [.vote built isExclusiveVote] }

/-- The last vote, when the request joins it. -/
def joined (s : Replicator) (request : Bytes) : Option BuiltVote :=
  match s.votesToSend.getLast? with
  | some (.vote built false) => if built.joins request then some built else none
  | _ => none

/-- `ReplicateRequest`. A call that is refused changes nothing, and `LogAssert(len > 0)` comes
first. -/
def replicateRequest (s : Replicator) (header : Header) (cookie request : Bytes) :
    Except WriteFailure Replicator :=
  if request.length = 0 then .error .panicked
  else if !s.isPrimary || s.isShutting then .ok s
  else
    match s.joined request with
    | some built => do
      let built ← built.addRequest (truncated request)
      return { s with votesToSend := s.votesToSend.dropLast ++ [.vote built false] }
    | none => s.addVote fill header cookie request false

/-- `ReplicateRequestExclusiveVote`. -/
def replicateRequestExclusiveVote (s : Replicator) (header : Header) (cookie request : Bytes)
    (setShutdownAfter : Bool) : Except WriteFailure Replicator :=
  if request.length = 0 then .error .panicked
  else if !s.isPrimary || s.isShutting then .ok s
  else do
    let s ← s.addVote fill header cookie request true
    return { s with isShutting := s.isShutting || setShutdownAfter }

def step (s : Replicator) : Event → Except WriteFailure Replicator
  | .replicateRequest header cookie request => s.replicateRequest fill header cookie request
  | .replicateRequestExclusiveVote header cookie request setShutdownAfter =>
    s.replicateRequestExclusiveVote fill header cookie request setShutdownAfter
  | .enqueue header cookie relinquishPrimary => do
    let built ← Vote.init fill (newVote header cookie relinquishPrimary)
    return { s with votesToSend := s.votesToSend ++ [.vote built false] }
  | .changeConfiguration => .ok { s with votesToSend := s.votesToSend ++ [.reconfiguration] }
  | .dequeue => .ok { s with votesToSend := s.votesToSend.tail }
  | .setRole isPrimary isShutting => .ok { s with isPrimary := isPrimary, isShutting := isShutting }

end Replicator

/-! ## What is asked for -/

/-- `SendNextVote` sets the fields of the header, but for its version. -/
def BuiltVote.withHeader (built : BuiltVote) (header : Header) : BuiltVote :=
  { built with fields := { built.fields with header := header } }

/-- A header that a replica sends: of a version and with ids that the wire format can carry. -/
def Sendable (header : Header) : Prop :=
  (carriedHeader header).WellFormed ∧ header.msgId = msgVote

/-- A peer with this limit takes the bytes of a message from a connection, however they are cut, it
parses them, and it reads them back from its log and from a learn connection. -/
structure PeerAccepts (limit : Nat) (bytes : Bytes) : Prop where
  packet : ∀ (cfg : Net.Config) (c₀ c : Net.NetCxn) (cuts : List Bytes), cfg.Fits →
    cfg.maxPacketSize = limit → Net.NetCxn.init cfg = some c₀ → cuts.flatten = Net.serialize bytes →
    c₀.run cfg cuts = some c → Net.EndsAs c ⟨[bytes], none, []⟩
  parse : ∃ fuel m, unMarshalMessage fuel bytes = .ok m ∧ m.value.isSome = true
  log : ∀ pad rest, bytes.length + pad.length = LogFile.roundUpToPage bytes.length →
    LogFile.readNextMessage (bytes ++ pad ++ rest) = .message bytes rest
  learn : ∀ pad rest, bytes.length + pad.length = LogFile.roundUpToPage bytes.length →
    LogFile.readNextFetched (bytes ++ pad ++ rest) = .message bytes rest

/-- The limit is computed without wraparound, and every vote in the queue, whatever header it is
sent with, has a length that does not wrap and stays within the configured size, and is accepted. -/
structure Coherent (fill : Fill) (megabytes : Nat) (s : Replicator) : Prop where
  limit : maxMessageSize megabytes = some (megabytes * 1048576 + 1024)
  votes : ∀ built isExclusiveVote, .vote built isExclusiveVote ∈ s.votesToSend →
    ∀ header, header.version = built.fields.header.version → Sendable header →
    ∃ checksum bytes, (Built.vote (built.withHeader header)).send fill = .ok (checksum, bytes) ∧
      bytes.length = built.getMarshalLen ∧ bytes.length = built.fields.size ∧
      bytes.length < word ∧ bytes.length ≤ megabytes * 1048576 ∧
      PeerAccepts (megabytes * 1048576 + 1024) bytes

/-! ## The condition -/

/-- The configured size, and what the buffers of a connection can hold. -/
def Within (megabytes size : Nat) : Prop :=
  size ≤ megabytes * 1048576 ∧ Net.serialLen + size ≤ Net.maxBuffer

instance (megabytes size : Nat) : Decidable (Within megabytes size) :=
  inferInstanceAs (Decidable (_ ∧ _))

/-- The size of the vote that a request goes to, with the request. -/
def Replicator.sizeWith (s : Replicator) (header : Header) (cookie request : Bytes) : Nat :=
  ((s.joined request).map fun built => built.fields.size).getD (newVote header cookie false).size +
    (4 + request.length)

def Allowed (megabytes : Nat) (s : Replicator) : Event → Prop
  | .replicateRequest header cookie request =>
    Within megabytes (s.sizeWith header cookie request)
  | .replicateRequestExclusiveVote header cookie request _ =>
    Within megabytes ((newVote header cookie false).size + (4 + request.length))
  | .enqueue header cookie relinquishPrimary =>
    Within megabytes (newVote header cookie relinquishPrimary).size
  | _ => True

/-- The states that a replica reaches by calls and by what else happens to the queue. -/
inductive Replicated (fill : Fill) (megabytes : Nat) : Replicator → Prop where
  | initial (isPrimary isShutting : Bool) : Replicated fill megabytes ⟨isPrimary, isShutting, []⟩
  | step {s s' : Replicator} {e : Event} (h : Replicated fill megabytes s)
      (hallowed : Allowed megabytes s e) (hs : s.step fill e = .ok s') :
        Replicated fill megabytes s'

/-! ## The header of a vote -/

section Header

variable {header : Header}

theorem Vote.init_withHeader {fill : Fill} {vote : Wire.Vote} {built : BuiltVote}
    (hversion : header.version = vote.header.version) (h : Vote.init fill vote = .ok built) :
    Vote.init fill { vote with header := header } = .ok (built.withHeader header) := by
  have hsize : Vote.minSize { vote with header := header } = Vote.minSize vote := by
    simp only [Vote.minSize, hversion]
  -- of the header, the constructor reads the version only
  have hmap : Vote.init fill { vote with header := header } =
      (·.withHeader header) <$> Vote.init fill vote := by
    unfold Vote.init
    simp only [hversion, hsize]
    split_ifs
    · rfl
    · simp only [map_bind, map_pure]
      rfl
  rw [hmap, h]
  rfl

variable {vote vote' : BuiltVote}

theorem BuiltVote.makeRoom_withHeader {spaceNeeded : Nat}
    (h : vote.makeRoom spaceNeeded = .ok vote') :
    (vote.withHeader header).makeRoom spaceNeeded = .ok (vote'.withHeader header) := by
  rw [BuiltVote.makeRoom] at h
  split_ifs at h with hroom
  · obtain ⟨newMemory, hnew, h⟩ := bind_eq_ok.mp h
    cases h
    refine (if_pos hroom).trans ?_
    exact bind_eq_ok.mpr ⟨newMemory, hnew, rfl⟩
  · cases h
    exact if_neg hroom

theorem BuiltVote.addRequest_withHeader {req : Bytes} (h : vote.addRequest req = .ok vote') :
    (vote.withHeader header).addRequest req = .ok (vote'.withHeader header) := by
  rw [BuiltVote.addRequest] at h
  split_ifs at h with hreconf
  obtain ⟨roomy, hroomy, h⟩ := bind_eq_ok.mp h
  obtain ⟨back, hback, h⟩ := bind_eq_ok.mp h
  cases h
  refine (if_neg hreconf).trans ?_
  exact bind_eq_ok.mpr ⟨_, makeRoom_withHeader hroomy,
    bind_eq_ok.mpr ⟨back, hback, rfl⟩⟩

theorem BuiltVote.addRequests_withHeader {requests : List Bytes}
    (h : requests.foldlM BuiltVote.addRequest vote = .ok vote') :
    requests.foldlM BuiltVote.addRequest (vote.withHeader header) =
      .ok (vote'.withHeader header) := by
  induction requests generalizing vote with
  | nil =>
    cases h
    rfl
  | cons req requests ih =>
    rw [foldlM_cons] at h ⊢
    obtain ⟨next, hnext, h⟩ := bind_eq_ok.mp h
    exact bind_eq_ok.mpr ⟨_, addRequest_withHeader hnext, ih h⟩

/-- The buffers of a vote do not depend on the header that it gets later. -/
theorem Vote.construct_withHeader {fill : Fill} {vote : Wire.Vote} {built : BuiltVote}
    (hversion : header.version = vote.header.version) (h : Vote.construct fill vote = .ok built) :
    Vote.construct fill { vote with header := header } = .ok (built.withHeader header) := by
  obtain ⟨start, hstart, h⟩ := bind_eq_ok.mp h
  exact bind_eq_ok.mpr ⟨_, init_withHeader hversion hstart,
    BuiltVote.addRequests_withHeader h⟩

end Header

variable {vote : Wire.Vote} {fill : Fill}

/-- A vote that gets another request is as if it was built with it. -/
theorem Vote.construct_addRequest {built built' : BuiltVote}
    {req : Bytes} (h : Vote.construct fill vote = .ok built)
    (hadd : built.addRequest req = .ok built') :
    Vote.construct fill { vote with requests := vote.requests ++ [req] } = .ok built' := by
  obtain ⟨start, hstart, h⟩ := bind_eq_ok.mp h
  refine bind_eq_ok.mpr ⟨start, hstart, ?_⟩
  rw [foldlM_append]
  refine bind_eq_ok.mpr ⟨built, h, ?_⟩
  rw [foldlM_cons]
  exact bind_eq_ok.mpr ⟨built', hadd, rfl⟩

/-! ## Votes that a peer accepts -/

theorem Vote.cookie_le_size (vote : Wire.Vote) (h : vote.header.version.hasPrimaryCookie = true) :
    vote.primaryCookie.length ≤ vote.size := by
  rw [Wire.Vote.size, Wire.Vote.bodySize, if_pos h]
  omega

theorem Vote.request_le_size {req : Bytes} (h : req ∈ vote.requests) :
    req.length ≤ vote.size := by
  have hle : 4 + req.length ≤ (vote.requests.map fun req => 4 + req.length).sum :=
    single_le_sum (fun _ _ => Nat.zero_le _) _ (mem_map_of_mem h)
  rw [Wire.Vote.size, Wire.Vote.bodySize]
  omega

/-- A vote of requests with a header that can be sent and a length that can be rounded up reaches a
peer. -/
theorem reachesPeer_vote (hheader : Sendable vote.header)
    (hplain : vote.isReconfiguration = false) (hrequests : ∀ req ∈ vote.requests, 0 < req.length)
    (hsize : vote.size ≤ word - 4096) :
    ReachesPeer (carried (.vote vote)) := by
  have hword : vote.size < word := by
    have : word = 4294967296 := rfl
    omega
  have hcarried : (carriedVote vote).size = vote.size := Vote.size_carried vote
  have hmembers : (carriedVote vote).membersInNewConfiguration = none := by
    rw [carriedVote, hplain]
    rfl
  have hreadable : (carried (.vote vote)).Readable := by
    refine ⟨⟨hheader.1, hheader.2, ?_, ?_, ?_, ?_, ?_, ?_⟩, ?_, ?_, ?_⟩
    · have hcookie := Vote.cookie_le_size vote
      show (if vote.header.version.hasPrimaryCookie then vote.primaryCookie else []).length < word
      split_ifs with hhas
      · exact (hcookie hhas).trans_lt hword
      · exact Nat.zero_lt_succ _
    · exact fun hhas => if_neg (Bool.eq_false_iff.mp hhas)
    · exact fun _ => ⟨hplain, hmembers⟩
    · intro set hset
      rw [hmembers] at hset
      cases hset
    · exact fun hhas => if_neg (Bool.eq_false_iff.mp hhas)
    · intro req (hreq : req ∈ vote.requests)
      exact ⟨hrequests req hreq, (Vote.request_le_size hreq).trans_lt hword⟩
    · intro set hset
      rw [hmembers] at hset
      cases hset
    · rw [hmembers]
      exact hplain
    · rwa [hcarried]
  have hlen : (carried (.vote vote)).marshalLen = vote.size := marshalLen_carried hword
  refine ⟨hreadable.stamp (by decide), ?_, ?_, ?_, ?_⟩
  · rwa [size_carried]
  · show kindOf vote.header.msgId = _
    rw [hheader.2]
    rfl
  · show voteSuits _ = true
    simp only [voteSuits, Bool.and_eq_true, decide_eq_true_eq]
    refine ⟨⟨?_, ?_⟩, ?_⟩
    · show (carried (.vote vote)).marshalLen ≤ _
      rwa [hlen]
    · rw [hmembers]
      rfl
    · rw [show (carriedVote vote).isReconfiguration = false from hplain]
      rfl
  · show Option.all plainNames (carriedVote vote).membersInNewConfiguration = true
    rw [hmembers]
    rfl

theorem le_roundUpToPage {n : Nat} (h : n ≤ word - 4096) : n ≤ LogFile.roundUpToPage n := by
  have hword := word_eq
  have hpage : LogFile.pageSize = 512 := rfl
  have hu32 : LogFile.u32Size = 4294967296 := rfl
  rw [LogFile.roundUpToPage, hu32, hpage]
  omega

/-- What is sent for a vote is a record of a log. -/
theorem wellFormed_sent {b : BuiltVote} {c : Nat} {bytes : Bytes}
    (hmsg : vote.header.msgId = msgVote) (hplain : vote.isReconfiguration = false)
    (hsize : vote.size ≤ word - 4096) (hlen : bytes.length = vote.size)
    (hmarshalLen : bytes.length = b.getMarshalLen)
    (hmarshal : ((Built.vote b).setChecksum c).marshal fill = .ok bytes)
    (hsum : c = fingerprint (bytes.drop (checksumOffset + 8)))
    (hread : Msg.unmarshal .vote bytes = some ((carried (.vote vote)).stamped c)) :
    LogFile.wellFormed bytes = true := by
  have hword : vote.size < word := by
    have : word = 4294967296 := rfl
    omega
  have hverify : verifyChecksum bytes = true := by
    obtain ⟨tail, hbytes, -⟩ := (Built.vote b).stamps fill c bytes hmarshal
    rw [hbytes, drop_stamp] at hsum
    rw [hsum] at hbytes
    refine verifyChecksum_stamp hbytes ?_
    show b.getMarshalLen % word = _
    rw [← hmarshalLen, hlen]
    exact Nat.mod_eq_of_lt hword
  have hbase := unmarshalBase_of_unmarshal hread
  have hid : ((carried (.vote vote)).stamped c).header.msgId = msgVote := hmsg
  have hfield : ((carried (.vote vote)).stamped c).header.unMarshalLen = bytes.length := by
    rw [Msg.header_stamped, hlen]
    exact marshalLen_carried (m := .vote vote) hword
  have hmembers : (carriedVote vote).membersInNewConfiguration = none := by
    rw [carriedVote, hplain]
    rfl
  have hasserts : LogFile.assertsHold ((carried (.vote vote)).stamped c) = true := by
    simp [LogFile.assertsHold, carried, Msg.stamped, hmembers,
      show (carriedVote vote).isReconfiguration
      = false from hplain]
  have hparse : LogFile.unMarshalMessage bytes = some ((carried (.vote vote)).stamped c) := by
    simp [LogFile.unMarshalMessage, hbase, hid, hread, hasserts]
  have hround := le_roundUpToPage hsize
  rw [← hlen] at hround
  simp [LogFile.wellFormed, hverify, hparse, hbase, hid, hfield, hround, LogFile.isLogged]

/-- A vote within the bounds can be sent, and a peer with the same configuration accepts it. -/
theorem accepts_vote {megabytes : Nat} {b : BuiltVote}
    (hb : Vote.construct fill vote = .ok b) (hheader : Sendable vote.header)
    (hplain : vote.isReconfiguration = false) (hrequests : ∀ req ∈ vote.requests, 0 < req.length)
    (hwithin : Within megabytes vote.size) :
    ∃ c bytes, (Built.vote b).send fill = .ok (c, bytes) ∧ bytes.length = b.getMarshalLen ∧
      bytes.length = vote.size ∧ PeerAccepts (megabytes * 1048576 + 1024) bytes := by
  have hsize : vote.size ≤ word - 4096 := by
    have hword := word_eq
    have hbuffer : Net.maxBuffer = 1073741824 := rfl
    have := hwithin.2
    omega
  have hbuilt : construct fill (.vote vote) = .ok (.vote b) := bind_eq_ok.mpr ⟨b, hb, rfl⟩
  obtain ⟨c, bytes, hsend, hlen, hmarshalLen, hmarshal, hsum, ⟨fuel, m, hparse, hvalue⟩, hread⟩ :=
    exists_send_of_reachesPeer hbuilt (reachesPeer_vote hheader hplain hrequests hsize)
  have hwell : LogFile.wellFormed bytes = true :=
    wellFormed_sent hheader.2 hplain hsize hlen hmarshalLen hmarshal hsum hread
  have hlog : ∀ pad rest, bytes.length + pad.length = LogFile.roundUpToPage bytes.length →
      LogFile.readNextMessage (bytes ++ pad ++ rest) = .message bytes rest :=
    fun pad rest hpad => LogFile.readNextMessage_record ⟨bytes, pad, hwell, hpad⟩ rest
  refine ⟨c, bytes, hsend, hmarshalLen, hlen, ?_, ⟨fuel, m, hparse, by rw [hvalue]; rfl⟩, hlog, ?_⟩
  · intro cfg c₀ cxn cuts hfits hmax hinit hcuts hrun
    have hlength : bytes.length = vote.size := hlen
    have hpacket : ∀ p ∈ [bytes], Net.serialLen + p.length ≤
        Net.effectiveMax cfg.maxPacketSize := by
      intro p hp
      rw [mem_singleton.mp hp, hmax, Net.effectiveMax, if_neg (by omega), hlength]
      have hserial : Net.serialLen = 20 := rfl
      have := hwithin.1
      omega
    refine (Net.endsAs_payloads_iff hfits hinit hrun hpacket ?_).mpr ?_
    · rw [hcuts, map_singleton, flatten_singleton]
    · intro p hp
      rw [mem_singleton.mp hp, hlength]
      exact hwithin.2
  · exact fun pad rest hpad => LogFile.readNextFetched_of_message (hlog pad rest hpad)

/-! ## Runs -/

theorem Within.mono {megabytes n n' : Nat} (h : Within megabytes n) (hle : n' ≤ n) :
    Within megabytes n' :=
  ⟨hle.trans h.1, (Nat.add_le_add_left hle _).trans h.2⟩

theorem Within.lt_word {megabytes n : Nat} (h : Within megabytes n) : n < word := by
  have hword := word_eq
  have hbuffer : Net.maxBuffer = 1073741824 := rfl
  have := h.2
  omega

theorem truncated_eq {request : Bytes} (h : request.length < word) :
    truncated request = request := by
  rw [truncated, Nat.mod_eq_of_lt h, take_length]

theorem Vote.size_addRequest (vote : Wire.Vote) (req : Bytes) :
    Wire.Vote.size { vote with requests := vote.requests ++ [req] } =
      vote.size + (4 + req.length) := by
  simp only [Wire.Vote.size, Wire.Vote.bodySize, map_append, sum_append, map_singleton,
    sum_singleton]
  omega

/-- A vote in the queue: it was built from its fields, it holds requests that are not empty, and it
is within the bounds. -/
structure Fair (fill : Fill) (megabytes : Nat) (built : BuiltVote) : Prop where
  construct : Vote.construct fill built.fields = .ok built
  plain : built.fields.isReconfiguration = false
  requests : ∀ req ∈ built.fields.requests, 0 < req.length
  within : Within megabytes built.fields.size

section Fair

variable {megabytes : Nat}

theorem Fair.init {header : Header} {cookie : Bytes} {relinquishPrimary : Bool} {built : BuiltVote}
    (h : Vote.init fill (newVote header cookie relinquishPrimary) = .ok built)
    (hwithin : Within megabytes (newVote header cookie relinquishPrimary).size) :
    built.fields = newVote header cookie relinquishPrimary ∧ Fair fill megabytes built := by
  have hfields : built.fields = newVote header cookie relinquishPrimary := (Vote.init_eq_ok h).1
  refine ⟨hfields, ⟨?_, ?_, ?_, ?_⟩⟩
  · rw [hfields]
    exact bind_eq_ok.mpr ⟨built, h, rfl⟩
  · rw [hfields]
    rfl
  · rw [hfields]
    intro req hreq
    cases hreq
  · rwa [hfields]

theorem Fair.addRequest {built built' : BuiltVote} (h : Fair fill megabytes built) {request : Bytes}
    (hadd : built.addRequest (truncated request) = .ok built') (hne : request.length ≠ 0)
    (hwithin : Within megabytes (built.fields.size + (4 + request.length))) :
    Fair fill megabytes built' := by
  have hlt := hwithin.lt_word
  rw [truncated_eq (by omega)] at hadd
  obtain ⟨-, -, -, body, -, hholds⟩ := Vote.construct_eq_ok h.construct
  obtain ⟨-, hfields, -⟩ := BuiltVote.addRequest_eq_ok hholds hadd
  refine ⟨?_, ?_, ?_, ?_⟩
  · rw [hfields]
    exact Vote.construct_addRequest h.construct hadd
  · rw [hfields]
    exact h.plain
  · rw [hfields]
    intro req hreq
    rcases mem_append.mp hreq with hold | hnew
    · exact h.requests req hold
    · rw [mem_singleton.mp hnew]
      exact Nat.pos_of_ne_zero hne
  · rwa [hfields, Vote.size_addRequest]

/-- What is sent of a vote in the queue, with any header of its version. -/
theorem Fair.accepts {built : BuiltVote} (h : Fair fill megabytes built) {header : Header}
    (hversion : header.version = built.fields.header.version) (hheader : Sendable header) :
    ∃ c bytes, (Built.vote (built.withHeader header)).send fill = .ok (c, bytes) ∧
      bytes.length = built.getMarshalLen ∧ bytes.length = built.fields.size ∧ bytes.length < word ∧
      bytes.length ≤ megabytes * 1048576 ∧ PeerAccepts (megabytes * 1048576 + 1024) bytes := by
  have hsize : Wire.Vote.size { built.fields with header := header } = built.fields.size := by
    simp only [Wire.Vote.size, Wire.Vote.bodySize, hversion]
  obtain ⟨c, bytes, hsend, hmarshalLen, hlen, haccepts⟩ := accepts_vote
    (Vote.construct_withHeader hversion h.construct) hheader h.plain h.requests
    (by rw [hsize]; exact h.within)
  rw [hsize] at hlen
  refine ⟨c, bytes, hsend, hmarshalLen, hlen, ?_, ?_, haccepts⟩
  · rw [hlen]
    exact h.within.lt_word
  · rw [hlen]
    exact h.within.1

end Fair

namespace Replicator

variable {megabytes : Nat} {s s' : Replicator}

/-- Every vote in the queue is fair. -/
def AllFair (fill : Fill) (megabytes : Nat) (s : Replicator) : Prop :=
  ∀ built isExclusiveVote, .vote built isExclusiveVote ∈ s.votesToSend → Fair fill megabytes built

theorem AllFair.append (h : s.AllFair fill megabytes) {votes : List Queued}
    (hvotes : ∀ q ∈ votes, q ∈ s.votesToSend) {built : BuiltVote}
    (hbuilt : Fair fill megabytes built) {isExclusiveVote : Bool}
    (hs' : s'.votesToSend = votes ++ [.vote built isExclusiveVote]) :
    s'.AllFair fill megabytes := by
  intro other isExclusive hother
  rw [hs'] at hother
  rcases mem_append.mp hother with hold | hnew
  · exact h other isExclusive (hvotes _ hold)
  · cases mem_singleton.mp hnew
    exact hbuilt

theorem AllFair.addVote (h : s.AllFair fill megabytes) {header : Header} {cookie request : Bytes}
    {isExclusiveVote : Bool} (hs : s.addVote fill header cookie request isExclusiveVote = .ok s')
    (hne : request.length ≠ 0)
    (hwithin : Within megabytes ((newVote header cookie false).size + (4 + request.length))) :
    s'.AllFair fill megabytes := by
  obtain ⟨start, hstart, hs⟩ := bind_eq_ok.mp hs
  obtain ⟨built, hbuilt, hs⟩ := bind_eq_ok.mp hs
  cases hs
  obtain ⟨hfields, hfair⟩ := Fair.init hstart (hwithin.mono le_self_add)
  refine h.append (fun _ hq => hq) (hfair.addRequest hbuilt hne ?_) rfl
  rwa [hfields]

theorem mem_of_joined {request : Bytes} {built : BuiltVote} (h : s.joined request = some built) :
    .vote built false ∈ s.votesToSend := by
  rw [joined] at h
  split at h
  · next last hlast =>
    split_ifs at h
    cases h
    exact mem_of_getLast? hlast
  · cases h

theorem AllFair.replicateRequest (h : s.AllFair fill megabytes) {header : Header}
    {cookie request : Bytes} (hs : s.replicateRequest fill header cookie request = .ok s')
    (hwithin : Within megabytes (s.sizeWith header cookie request)) :
    s'.AllFair fill megabytes := by
  rw [Replicator.replicateRequest] at hs
  rw [sizeWith] at hwithin
  split_ifs at hs with hne hrole
  · cases hs
    exact h
  · cases hjoined : s.joined request with
    | some built =>
      rw [hjoined] at hs hwithin
      obtain ⟨built', hbuilt', hs⟩ := bind_eq_ok.mp hs
      cases hs
      have hfair := h built false (mem_of_joined hjoined)
      exact h.append (fun _ hq => dropLast_subset _ hq) (hfair.addRequest hbuilt' hne hwithin) rfl
    | none =>
      rw [hjoined] at hs hwithin
      exact h.addVote hs hne hwithin

/-- A step whose vote stays within the bounds keeps the queue fair. -/
theorem AllFair.step (h : s.AllFair fill megabytes) {e : Event} (hallowed : Allowed megabytes s e)
    (hs : s.step fill e = .ok s') : s'.AllFair fill megabytes := by
  cases e with
  | replicateRequest header cookie request => exact h.replicateRequest hs hallowed
  | replicateRequestExclusiveVote header cookie request setShutdownAfter =>
    have hs : s.replicateRequestExclusiveVote fill header cookie request setShutdownAfter =
        .ok s' := hs
    rw [Replicator.replicateRequestExclusiveVote] at hs
    split_ifs at hs with hne hrole
    · cases hs
      exact h
    · obtain ⟨next, hnext, hs⟩ := bind_eq_ok.mp hs
      cases hs
      have hfair := h.addVote hnext hne hallowed
      exact hfair
  | enqueue header cookie relinquishPrimary =>
    obtain ⟨built, hbuilt, hs⟩ := bind_eq_ok.mp hs
    cases hs
    exact h.append (fun _ hq => hq) (Fair.init hbuilt hallowed).2 rfl
  | changeConfiguration =>
    cases hs
    intro built isExclusiveVote hmem
    rcases mem_append.mp hmem with hold | hnew
    · exact h built isExclusiveVote hold
    · cases mem_singleton.mp hnew
  | dequeue =>
    cases hs
    exact fun built isExclusiveVote hmem => h built isExclusiveVote (mem_of_mem_tail hmem)
  | setRole isPrimary isShutting =>
    cases hs
    exact h

end Replicator

theorem Replicated.allFair {fill : Fill} {megabytes : Nat} {s : Replicator}
    (h : Replicated fill megabytes s) : s.AllFair fill megabytes := by
  induction h with
  | initial isPrimary isShutting =>
    intro built isExclusiveVote hmem
    cases hmem
  | step _ hallowed hs ih => exact ih.step hallowed hs

theorem maxMessageSize_eq {megabytes : Nat} (hpos : 1 ≤ megabytes) (hle : megabytes ≤ 4095) :
    maxMessageSize megabytes = some (megabytes * 1048576 + 1024) := by
  have hword := word_eq
  rw [maxMessageSize, if_neg (by omega), hword, Nat.mod_eq_of_lt (by omega),
    Nat.mod_eq_of_lt (by omega)]

/-- **Sizes.** With a configured size below 4096 MB, and as long as the vote that a request goes to
stays within the configured size and within the buffers of a connection, the limit is the configured
size, with 1 KiB for headers, every vote that is sent is within it, and a peer accepts the vote in a
packet, in its log and over the learn port. -/
theorem sizes_coherent (fill : Fill) (megabytes : Nat) (hpos : 1 ≤ megabytes)
    (hle : megabytes ≤ 4095)
    (s : Replicator) (h : Replicated fill megabytes s) : Coherent fill megabytes s :=
  ⟨maxMessageSize_eq hpos hle, fun built isExclusiveVote hmem _ hversion hheader =>
    (h.allFair built isExclusiveVote hmem).accepts hversion hheader⟩

/-! ## Two requests -/

theorem sendable_requestHeader : Sendable requestHeader := by
  refine ⟨⟨by decide, by decide, rfl, by decide, ?_, by decide, by decide, by decide, ?_, by decide,
    by decide⟩, rfl⟩
  · exact ⟨by decide, by decide⟩
  · exact ⟨by decide, by decide, by decide⟩

/-- A primary with an empty queue. -/
def idle : Replicator := ⟨true, false, []⟩

instance (megabytes : Nat) (s : Replicator) (e : Event) : Decidable (Allowed megabytes s e) := by
  cases e <;> unfold Allowed <;> infer_instance

/-- The events one after the other, as long as they are allowed. -/
def Replicator.runAllowed (fill : Fill) (megabytes : Nat) (s : Replicator) :
    List Event → Option Replicator
  | [] => some s
  | e :: events =>
    if Allowed megabytes s e then do
      let next ← (s.step fill e).toOption
      next.runAllowed fill megabytes events
    else none

theorem Replicated.runAllowed {fill : Fill} {megabytes : Nat} {s s' : Replicator}
    {events : List Event} (h : Replicated fill megabytes s)
    (hrun : s.runAllowed fill megabytes events = some s') : Replicated fill megabytes s' := by
  induction events generalizing s with
  | nil =>
    cases hrun
    exact h
  | cons e events ih =>
    rw [Replicator.runAllowed] at hrun
    split_ifs at hrun with hallowed
    obtain ⟨next, hnext, hrun⟩ := Option.bind_eq_some_iff.mp hrun
    exact ih (h.step hallowed (eq_ok_of_toOption hnext)) hrun

/-- The second request joins the vote of the first, the third gets its own, and a heartbeat is
sent. -/
def threeRequests : List Event :=
  [.replicateRequest requestHeader [5] [9], .replicateRequest requestHeader [6] [7, 8],
    .replicateRequestExclusiveVote requestHeader [] [1, 2, 3] false,
      .enqueue requestHeader [4] false]

/-- Four calls, with a limit of 1 MB. -/
theorem sizes_coherent_threeRequests :
    ∃ s, idle.runAllowed (fun _ _ => 0) 1 threeRequests = some s ∧
      s.votesToSend.length = 3 ∧ Coherent (fun _ _ => 0) 1 s := by
  obtain ⟨s, hs, hlength⟩ := Option.map_eq_some_iff.mp
    (by decide +kernel : ((idle.runAllowed (fun _ _ => 0) 1 threeRequests).map
      fun s => s.votesToSend.length) = some 3)
  have hreached : Replicated (fun _ _ => 0) 1 s := (Replicated.initial true false).runAllowed hs
  exact ⟨s, hs, hlength, sizes_coherent _ 1 (by decide) (by decide) s hreached⟩

theorem idle_step {fill : Fill} {header : Header} {cookie request : Bytes} {start built : BuiltVote}
    (hne : request.length ≠ 0) (hlt : request.length < word)
    (hstart : Vote.init fill (newVote header cookie false) = .ok start)
    (hbuilt : start.addRequest request = .ok built) :
    idle.step fill (.replicateRequest header cookie request) =
      .ok ⟨true, false, [.vote built false]⟩ := by
  rw [← truncated_eq hlt] at hbuilt
  refine (if_neg hne).trans ?_
  exact bind_eq_ok.mpr ⟨start, hstart, bind_eq_ok.mpr ⟨built, hbuilt, rfl⟩⟩

/-- A request of 1 MB and 1 KB. -/
def hugeRequest : Bytes := replicate 1049600 0

/-- A request of 1000 bytes. -/
def shortRequest : Bytes := replicate 1000 0

/-- The vote of a request, sent to a peer with this limit. -/
def sentTo (limit : Nat) (request : Bytes) :
    Option (Replicator × BuiltVote × Nat × Bytes × Net.NetCxn × Net.NetCxn) := do
  let s ← (idle.step (fun _ _ => 0) (.replicateRequest requestHeader [] request)).toOption
  let built ← s.joined [0]
  let sent ← ((Built.vote (built.withHeader requestHeader)).send fun _ _ => 0).toOption
  let c₀ ← Net.NetCxn.init (Net.smallConfig limit)
  let c ← c₀.run (Net.smallConfig limit) ((Net.serialize sent.2).map ([·]))
  return (s, built, sent.1, sent.2, c₀, c)

theorem sentTo_eq_some {limit : Nat} {request : Bytes} {s : Replicator} {built : BuiltVote}
    {checksum : Nat} {bytes : Bytes} {c₀ c : Net.NetCxn}
    (h : sentTo limit request = some (s, built, checksum, bytes, c₀, c)) :
    idle.step (fun _ _ => 0) (.replicateRequest requestHeader [] request) = .ok s ∧
      .vote built false ∈ s.votesToSend ∧
      (Built.vote (built.withHeader requestHeader)).send (fun _ _ => 0) = .ok (checksum, bytes) ∧
      Net.NetCxn.init (Net.smallConfig limit) = some c₀ ∧
      c₀.run (Net.smallConfig limit) ((Net.serialize bytes).map ([·])) = some c := by
  obtain ⟨s', hs, h⟩ := Option.bind_eq_some_iff.mp h
  obtain ⟨built', hvotes, h⟩ := Option.bind_eq_some_iff.mp h
  obtain ⟨sent, hsend, h⟩ := Option.bind_eq_some_iff.mp h
  obtain ⟨c₀', hinit, h⟩ := Option.bind_eq_some_iff.mp h
  obtain ⟨c', hrun, h⟩ := Option.bind_eq_some_iff.mp h
  cases h
  exact ⟨eq_ok_of_toOption hs, Replicator.mem_of_joined hvotes,
    eq_ok_of_toOption hsend, hinit, hrun⟩

/-- The limit for 4096 MB is 1 KB, so a peer closes the connection at the vote of a request of 1000
bytes. With 1 MB a longer request is accepted all the same, and its vote is too long. -/
theorem not_sizes_coherent :
    (∃ s built checksum bytes c₀ c,
      idle.step (fun _ _ => 0) (.replicateRequest requestHeader [] shortRequest) = .ok s ∧
      maxMessageSize 4096 = some 1024 ∧ .vote built false ∈ s.votesToSend ∧
      (Built.vote (built.withHeader requestHeader)).send (fun _ _ => 0) = .ok (checksum, bytes) ∧
      Net.NetCxn.init (Net.smallConfig 1024) = some c₀ ∧
      c₀.run (Net.smallConfig 1024) ((Net.serialize bytes).map ([·])) = some c ∧
      ¬ Net.EndsAs c ⟨[bytes], none, []⟩ ∧ ¬ Coherent (fun _ _ => 0) 4096 s) ∧
    (∃ s, idle.step (fun _ _ => 0) (.replicateRequest requestHeader [] hugeRequest) = .ok s ∧
      ¬ Coherent (fun _ _ => 0) 1 s) := by
  refine ⟨?_, ?_⟩
  · obtain ⟨⟨s, built, checksum, bytes, c₀, c⟩, hsent, hclosed⟩ := Option.map_eq_some_iff.mp
      (by decide +kernel : ((sentTo 1024 shortRequest).map fun r => r.2.2.2.2.2.closed) = some true)
    obtain ⟨hs, hvotes, hsend, hinit, hrun⟩ := sentTo_eq_some hsent
    refine ⟨s, built, checksum, bytes, c₀, c, hs, rfl, hvotes, hsend, hinit, hrun, fun hends => ?_,
      fun hcoherent => ?_⟩
    · have hopen := hends.closed
      rw [hclosed] at hopen
      cases hopen
    · have hlimit := hcoherent.limit
      revert hlimit
      decide
  · obtain ⟨start, hstart, hback⟩ := Option.map_eq_some_iff.mp
      (by decide +kernel : ((Vote.init (fun _ _ => 0) (newVote requestHeader [] false)).toOption.map
        fun built => decide (built.back.bytes.length ≤ 32768)) = some true)
    have hstart := eq_ok_of_toOption hstart
    have hlength : hugeRequest.length = 1049600 := length_replicate
    have hword := word_eq
    obtain ⟨hfields, -, body, -, hholds⟩ := Vote.init_eq_ok hstart
    have hroom : RequestFits start.back.room hugeRequest.length := by
      have := of_decide_eq_true hback
      show start.back.bytes.length + _ < _ ∧ (_ ∨ start.back.bytes.length % 4096 + _ + _ ≤ _)
      omega
    obtain ⟨built, hbuilt⟩ := (BuiltVote.exists_addRequest_iff (by rw [hfields]; rfl)
      (Vote.init_sound hstart) (by omega)).mpr hroom
    obtain ⟨-, hrequests, -⟩ := BuiltVote.addRequest_eq_ok hholds hbuilt
    refine ⟨_, idle_step (by omega) (by omega) hstart hbuilt, fun hcoherent => ?_⟩
    obtain ⟨c, bytes, -, -, hlen, -, hle, -⟩ := hcoherent.votes built false (mem_singleton_self _)
      requestHeader (by rw [hrequests, hfields]; rfl) sendable_requestHeader
    rw [hrequests, Vote.size_addRequest, hlength] at hlen
    omega

end Rsl.Cpp
