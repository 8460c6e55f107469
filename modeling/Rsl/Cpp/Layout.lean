import Rsl.Lib.Heap
import Rsl.Cpp.Buffers
import Rsl.LogFile

/-!
# Where the bytes of a vote stand

`BuiltVote` gives the contents of a vote's buffers. Here the buffers are blocks of memory, and the
vote has pointers into them: one for each request and one for the primary cookie. When `AddRequest`
adds a buffer it copies the last, partial page of the buffer before to it and moves the pointers of
the requests in that page; a buffer that is left empty is freed. The pointer of the primary cookie
is not moved.

`Layout.built` forgets the addresses, and `Layout.addRequest_built` connects the two models.
`layout_iff` says when a vote that was built is laid out as its readers expect.
-/

set_option autoImplicit false

namespace Rsl.Cpp

open Wire Lib Heap List

/-! ## The vote in memory -/

/-- A `FixedMarshalMemoryManager`: its buffer, the size of the buffer and the valid length. -/
structure Manager where
  buffer : Nat
  bufferLength : Nat
  validLength : Nat
deriving Repr, DecidableEq

/-- `m_requestBuf` and `m_bufLen` of a `RequestCtx`. -/
structure RequestCtx where
  requestBuf : Ptr
  bufLen : Nat
deriving Repr, DecidableEq

/-- A `Vote` that was built here, with `m_marshal` as its full buffers and the last one, the data of
its primary cookie and its requests. -/
structure Layout where
  header : Header
  isReconfiguration : Bool
  heap : Heap UInt8
  full : List Manager
  back : Manager
  primaryCookie : Option Ptr
  requests : List RequestCtx
  numRequests : Nat

namespace Layout

/-- `Vote::Init`. The primary cookie is unmarshalled without a copy: its data is a pointer into the
buffer, behind the header and the length, and null if there is none. -/
def init (fill : Fill) (vote : Wire.Vote) : Except WriteFailure Layout := do
  let built ← Vote.init fill vote
  return {
    header := vote.header
    isReconfiguration := vote.isReconfiguration
    heap := empty.alloc built.back.bytes
    full := []
    back := ⟨0, built.back.bufferLength, built.back.bytes.length⟩
    primaryCookie := if 2 ≤ vote.header.version.raw ∧ vote.primaryCookie.length ≠ 0 then
      some ⟨0, Header.baseSize vote.header.version + 4⟩ else none
    requests := []
    numRequests := 0 }

/-- A request whose data starts in the bytes `start`, …, `start + extra - 1` of a buffer is moved to
the start of the new one. -/
def rebase (buffer start extra new : Nat) (ctx : RequestCtx) : RequestCtx :=
  if ctx.requestBuf.block = buffer ∧ start ≤ ctx.requestBuf.offset ∧ ctx.requestBuf.offset <
    start + extra then
    { ctx with requestBuf := ⟨new, ctx.requestBuf.offset - start⟩ }
  else ctx

/-- The new buffer of `AddRequest`, with the last page of the one before. -/
def grow (vote : Layout) (bufferLength : Nat) : Layout :=
  let memory := vote.back
  let extra := memory.validLength % 4096
  let start := memory.validLength - extra
  let heap := vote.heap.alloc (((vote.heap.block memory.buffer).cells.drop start).take extra)
  { vote with
    heap := if start = 0 then heap.free memory.buffer else heap
    full := if start = 0 then vote.full else vote.full ++ [{ memory with validLength := start }]
    back := ⟨vote.heap.next, bufferLength, extra⟩
    requests := vote.requests.map (rebase memory.buffer start extra vote.heap.next) }

def makeRoom (vote : Layout) (spaceNeeded : Nat) : Except WriteFailure Layout :=
  if (spaceNeeded + vote.back.validLength) % word > vote.back.bufferLength then do
    let newMemory ← Vote.addMemory ((spaceNeeded + vote.back.validLength % 4096) % word)
    return vote.grow newMemory.bufferLength
  else .ok vote

/-- The length and the data of a request behind the valid bytes of the last buffer. -/
def append (vote : Layout) (req data : Bytes) : Layout :=
  let validLength := vote.back.validLength + data.length
  { vote with
    heap := vote.heap.write ⟨vote.back.buffer, vote.back.validLength⟩ data
    back := { vote.back with validLength := validLength }
    requests := vote.requests ++ [⟨⟨vote.back.buffer, validLength - req.length⟩, req.length⟩]
    numRequests := (vote.numRequests + 1) % word }

/-- `Vote::AddRequest`. -/
def addRequest (vote : Layout) (req : Bytes) : Except WriteFailure Layout :=
  if vote.isReconfiguration then .error .panicked
  else do
    let vote ← vote.makeRoom ((req.length + 4) % word)
    let data ← writeRequest req
    if vote.back.bufferLength < vote.back.validLength + data.length then .error .panicked
    else return vote.append req data

/-- A constructor, and `AddRequest` for each request. -/
def construct (fill : Fill) (vote : Wire.Vote) : Except WriteFailure Layout := do
  let layout ← init fill vote
  vote.requests.foldlM addRequest layout

/-- `m_marshal`. -/
def marshal (vote : Layout) : List Manager := vote.full ++ [vote.back]

/-- The first buffer. -/
def first (vote : Layout) : Manager := vote.full.headD vote.back

/-- `Vote::GetMarshalLen`. -/
def getMarshalLen (vote : Layout) : Nat := (vote.marshal.map Manager.validLength).sum % word

/-- The valid bytes of a buffer. -/
def contents (vote : Layout) (memory : Manager) : Bytes :=
  (vote.heap.block memory.buffer).cells.take memory.validLength

/-- The valid bytes of all buffers. -/
def bytes (vote : Layout) : Bytes := (vote.marshal.map vote.contents).flatten

/-- `Vote::ReMarshalHeader`. -/
def reMarshalHeader (vote : Layout) (fill : Fill) : Except WriteFailure Layout := do
  let header ← Header.marshal vote.header fill vote.getMarshalLen
  return { vote with heap := vote.heap.write ⟨vote.first.buffer, 0⟩ header }

/-- `Vote::GetBuffers`: the lengths that are written, in whole pages. -/
def getBuffers (vote : Layout) (fill : Fill) : Except WriteFailure (Layout × List Nat) := do
  let vote ← vote.reMarshalHeader fill
  return (vote, vote.marshal.map fun memory => LogFile.roundUpToPage memory.validLength)

end Layout

/-! ## What the readers expect -/

/-- The buffers are the marshalled vote, all of them but the last in whole pages; the header has the
length of the vote, the number of requests is theirs, and the pointers are those of the requests and
of the cookie. -/
structure Layout.LaidOut (fill : Fill) (vote : Wire.Vote) (layout : Layout) (lengths : List Nat) :
    Prop where
  bytes : ∃ header body, Header.marshal vote.header fill layout.getMarshalLen = .ok header ∧
    Vote.body fill vote = .ok body ∧ layout.bytes = header ++ body
  length : layout.getMarshalLen = layout.bytes.length
  pages : ∀ memory ∈ layout.full, 4096 ∣ memory.validLength
  lengths : lengths.sum = LogFile.roundUpToPage layout.getMarshalLen
  count : layout.numRequests = vote.requests.length
  requests : Forall₂ (fun ctx req => ctx.bufLen = req.length ∧
    layout.heap.Designates ctx.requestBuf req) layout.requests vote.requests
  primaryCookie : 2 ≤ vote.header.version.raw → vote.primaryCookie ≠ [] →
    ∃ p, layout.primaryCookie = some p ∧ layout.heap.Designates p vote.primaryCookie

/-! ## The condition -/

/-- The bytes of a vote. -/
def Vote.totalLength (vote : Wire.Vote) : Nat :=
  Vote.written vote + (vote.requests.map fun req => req.length + 4).sum

/-- The first buffer is freed: when a request does not fit it, it has less than a page. -/
def LeavesFirst : Room → List Nat → Bool
  | _, [] => false
  | room, len :: lens =>
    if room.used + (len + 4) ≤ room.bufferLength then LeavesFirst (room.add len) lens
    else decide (room.used < 4096)

/-! ## The buffers -/

/-- The contents of the buffers, without their addresses. -/
def Layout.built (vote : Layout) (fields : Wire.Vote) : BuiltVote :=
  ⟨fields, vote.full.map fun memory => ⟨memory.bufferLength, vote.contents memory⟩,
    ⟨vote.back.bufferLength, vote.contents vote.back⟩⟩

/-- The buffers are blocks of their own, and all but the last are whole pages. -/
structure Layout.Inv (vote : Layout) : Prop where
  apart : (vote.marshal.map Manager.buffer).Nodup
  live : ∀ memory ∈ vote.marshal, memory.buffer < vote.heap.next ∧
    (vote.heap.block memory.buffer).freed = false
  back : (vote.heap.block vote.back.buffer).cells.length = vote.back.validLength
  room : vote.back.validLength ≤ vote.back.bufferLength
  rounded : 4096 ∣ vote.back.bufferLength ∧ vote.back.bufferLength < word
  full : ∀ memory ∈ vote.full, 4096 ∣ memory.validLength ∧ 0 < memory.validLength ∧
    memory.validLength < word ∧ memory.validLength ≤ (vote.heap.block memory.buffer).cells.length

namespace Layout

variable {vote vote' : Layout} {n : Nat}

theorem back_mem (vote : Layout) : vote.back ∈ vote.marshal :=
  mem_append_right _ mem_cons_self

variable {memory : Manager}

theorem full_mem (h : memory ∈ vote.full) : memory ∈ vote.marshal :=
  mem_append_left _ h

theorem Inv.ne_back (h : vote.Inv) (hm : memory ∈ vote.full) :
    memory.buffer ≠ vote.back.buffer := by
  have hapart := h.apart
  rw [marshal, map_append, nodup_append] at hapart
  exact hapart.2.2 _ (mem_map_of_mem hm) _ mem_cons_self

theorem Inv.contents_back (h : vote.Inv) :
    vote.contents vote.back = (vote.heap.block vote.back.buffer).cells := by
  rw [contents, ← h.back, take_length]

theorem Inv.length_contents_back (h : vote.Inv) :
    (vote.contents vote.back).length = vote.back.validLength := by
  rw [h.contents_back, h.back]

/-- A block that is not the freed one is as before. -/
theorem grow_block (vote : Layout) (n : Nat) {b : Nat} (hlt : b < vote.heap.next)
    (hb : b ≠ vote.back.buffer ∨ vote.back.validLength - vote.back.validLength % 4096 ≠ 0) :
    (vote.grow n).heap.block b = vote.heap.block b := by
  show (if _ then _ else _ : Heap UInt8).block b = _
  split_ifs with hstart
  · rw [free_block_of_ne (hb.resolve_right (not_not_intro hstart)), alloc_block_of_lt hlt]
  · rw [alloc_block_of_lt hlt]

/-- The new block has the bytes of the last page. -/
theorem Inv.grow_block_next (h : vote.Inv) (n : Nat) :
    (vote.grow n).heap.block vote.heap.next = ⟨(vote.contents vote.back).drop
      (vote.back.validLength - vote.back.validLength % 4096), false⟩ := by
  have hmoved : ((vote.heap.block vote.back.buffer).cells.drop
      (vote.back.validLength - vote.back.validLength % 4096)).take (vote.back.validLength % 4096) =
      (vote.contents vote.back).drop (vote.back.validLength - vote.back.validLength % 4096) := by
    rw [h.contents_back, take_of_length_le]
    rw [length_drop, h.back]
    omega
  have hne : vote.heap.next ≠ vote.back.buffer := ne_of_gt (h.live _ vote.back_mem).1
  show (if _ then _ else _ : Heap UInt8).block _ = _
  rw [hmoved]
  split_ifs
  · rw [free_block_of_ne hne, alloc_block_next]
  · rw [alloc_block_next]

theorem grow_next (vote : Layout) (n : Nat) : (vote.grow n).heap.next = vote.heap.next + 1 := by
  show (if _ then _ else _ : Heap UInt8).next = _
  split_ifs <;> rfl

/-- The buffers before the new one: those that were full, and the one that was last if it has a
page. -/
theorem mem_grow_full (h : memory ∈ (vote.grow n).full) :
    memory ∈ vote.full ∨ vote.back.validLength - vote.back.validLength % 4096 ≠ 0 ∧
      memory =
        { vote.back with validLength := vote.back.validLength - vote.back.validLength % 4096 } := by
  change memory ∈ (if _ then _ else _ : List Manager) at h
  split_ifs at h with hstart
  · exact .inl h
  · rcases mem_append.mp h with h | h
    · exact .inl h
    · exact .inr ⟨hstart, mem_singleton.mp h⟩

theorem grow_full_sublist (vote : Layout) (n : Nat) :
    ((vote.grow n).full.map Manager.buffer).Sublist (vote.marshal.map Manager.buffer) := by
  show ((if _ then _ else _ : List Manager).map Manager.buffer).Sublist _
  rw [marshal, map_append]
  split_ifs
  · exact sublist_append_left ..
  · rw [map_append]
    exact .refl _

/-- A buffer before the new one is a block that was there, and its bytes are as before. -/
theorem Inv.grow_full (h : vote.Inv) (hm : memory ∈ (vote.grow n).full) :
    memory.buffer < vote.heap.next ∧
      (vote.grow n).heap.block memory.buffer = vote.heap.block memory.buffer := by
  rcases mem_grow_full hm with hm | ⟨hstart, rfl⟩
  · have hlt := (h.live _ (full_mem hm)).1
    exact ⟨hlt, vote.grow_block n hlt (.inl (h.ne_back hm))⟩
  · have hlt := (h.live _ vote.back_mem).1
    exact ⟨hlt, vote.grow_block n hlt (.inr hstart)⟩

theorem Inv.grow (h : vote.Inv) (hn : 4096 ∣ n ∧ n < word)
    (hroom : vote.back.validLength % 4096 ≤ n) : (vote.grow n).Inv := by
  have hword := h.rounded.2
  have hfits := h.room
  have hnew : (vote.grow n).back = ⟨vote.heap.next, n, vote.back.validLength % 4096⟩ := rfl
  have hblock := h.grow_block_next n
  constructor
  · rw [marshal, map_append, nodup_append]
    refine ⟨h.apart.sublist (vote.grow_full_sublist n), nodup_singleton _, ?_⟩
    rintro _ ha _ hb rfl
    -- The new block is behind all that there were.
    obtain ⟨memory, hm, rfl⟩ := mem_map.mp ((vote.grow_full_sublist n).subset ha)
    have hnext : memory.buffer = vote.heap.next := mem_singleton.mp hb
    exact ne_of_lt (h.live memory hm).1 hnext
  · intro memory hm
    rw [grow_next]
    rcases mem_append.mp hm with hm | hm
    · obtain ⟨hlt, hsame⟩ := h.grow_full hm
      rw [hsame]
      refine ⟨Nat.lt_succ_of_lt hlt, ?_⟩
      rcases mem_grow_full hm with hm | ⟨-, rfl⟩
      · exact (h.live _ (full_mem hm)).2
      · exact (h.live _ vote.back_mem).2
    · rw [mem_singleton.mp hm, hnew, hblock]
      exact ⟨lt_add_one _, rfl⟩
  · rw [hnew, hblock]
    show (drop _ _).length = vote.back.validLength % 4096
    rw [length_drop, h.length_contents_back]
    omega
  · exact hroom
  · exact hn
  · intro memory hm
    rw [(h.grow_full hm).2]
    rcases mem_grow_full hm with hm | ⟨hstart, rfl⟩
    · exact h.full _ hm
    · refine ⟨?_, Nat.pos_of_ne_zero hstart, ?_, ?_⟩
      · exact Nat.dvd_sub_mod vote.back.validLength
      · show vote.back.validLength - _ < word
        omega
      · rw [h.back]
        exact Nat.sub_le ..

/-- The new buffer, without addresses: the bytes of the last page are split off. -/
theorem Inv.grow_built (h : vote.Inv) (fields : Wire.Vote) (n : Nat) :
    let kept :=
      (vote.contents vote.back).take (vote.back.validLength - vote.back.validLength % 4096)
    (vote.grow n).built fields = ⟨fields, if kept.length = 0 then (vote.built fields).full
      else (vote.built fields).full ++ [⟨vote.back.bufferLength, kept⟩],
      ⟨n, (vote.contents vote.back).drop
        (vote.back.validLength - vote.back.validLength % 4096)⟩⟩ := by
  intro kept
  have hkept : kept.length = vote.back.validLength - vote.back.validLength % 4096 := by
    rw [length_take, h.length_contents_back]
    exact min_eq_left (Nat.sub_le ..)
  have hsame : ∀ memory ∈ (vote.grow n).full, (vote.grow n).contents memory =
      vote.contents memory := by
    intro memory hm
    rw [contents, contents, (h.grow_full hm).2]
  have hback : (vote.grow n).contents (vote.grow n).back = (vote.contents vote.back).drop
      (vote.back.validLength - vote.back.validLength % 4096) := by
    rw [contents]
    show (((vote.grow n).heap.block vote.heap.next).cells.take _) = _
    rw [h.grow_block_next, take_of_length_le]
    show (drop _ _).length ≤ vote.back.validLength % 4096
    rw [length_drop, h.length_contents_back]
    omega
  rw [built, hback, map_congr_left fun memory hm => by rw [hsame memory hm], hkept]
  show BuiltVote.mk _ ((if _ then _ else _ : List Manager).map _) _ = _
  split_ifs
  · rfl
  · have hlast : vote.contents { vote.back with
        validLength := vote.back.validLength - vote.back.validLength % 4096 } = kept := by
      show _ = (vote.contents vote.back).take _
      rw [h.contents_back]
      rfl
    rw [map_append, map_singleton, hlast]
    rfl

theorem Inv.makeRoom_built (h : vote.Inv) {spaceNeeded : Nat}
    (hroom : vote.makeRoom spaceNeeded = .ok vote')
    (fields : Wire.Vote) : (vote.built fields).makeRoom spaceNeeded = .ok (vote'.built fields) := by
  have hlength : (vote.built fields).back.bytes.length = vote.back.validLength :=
    h.length_contents_back
  rw [makeRoom] at hroom
  rw [BuiltVote.makeRoom]
  simp only [hlength]
  split_ifs at hroom with hfull
  · obtain ⟨newMemory, hnew, hroom⟩ := bind_eq_ok.mp hroom
    cases hroom
    refine (if_pos hfull).trans (bind_eq_ok.mpr ⟨newMemory, hnew, ?_⟩)
    rw [h.grow_built]
    rfl
  · cases hroom
    exact if_neg hfull

end Layout

/-- A buffer that is allocated is whole pages, and there is room for a page. -/
theorem Vote.addMemory_rounded {minSize : Nat} (hlt : minSize < word) {memory : Memory}
    (h : Vote.addMemory minSize = .ok memory) :
    (4096 ∣ memory.bufferLength ∧ memory.bufferLength < word) ∧ 4096 ≤ memory.bufferLength := by
  refine ⟨⟨?_, Vote.addMemory_lt h⟩, ?_⟩
  all_goals
    rw [Vote.addMemory_eq hlt] at h
    split_ifs at h
    cases h
  · exact Nat.dvd_mul_left ..
  · have hle := le_inPages (max minSize (32 * 1024))
    show 4096 ≤ inPages _
    omega

namespace Layout

variable {vote vote' : Layout} {fields : Wire.Vote} {req data : Bytes}

/-- The blocks of the other buffers are as before. -/
theorem Inv.append_block (h : vote.Inv) (req data : Bytes) {memory : Manager}
    (hm : memory ∈ vote.full) :
    (vote.append req data).heap.block memory.buffer = vote.heap.block memory.buffer :=
  write_block_of_ne (h.ne_back hm)

theorem Inv.append_back (h : vote.Inv) (req data : Bytes) :
    ((vote.append req data).heap.block vote.back.buffer).cells =
      (vote.heap.block vote.back.buffer).cells ++ data :=
  write_cells_end h.back rfl

theorem Inv.append (h : vote.Inv) (req : Bytes)
    (hroom : vote.back.validLength + data.length ≤ vote.back.bufferLength) :
    (vote.append req data).Inv := by
  have hmarshal : (vote.append req data).marshal.map Manager.buffer =
      vote.marshal.map Manager.buffer := by
    rw [marshal, marshal, map_append, map_append]
    rfl
  constructor
  · rw [hmarshal]
    exact h.apart
  · intro memory hm
    have hbuffer : memory.buffer ∈ vote.marshal.map Manager.buffer := by
      rw [← hmarshal]
      exact mem_map_of_mem hm
    obtain ⟨old, hold, hsame⟩ := mem_map.mp hbuffer
    rw [← hsame]
    exact ⟨(h.live old hold).1, (write_freed ..).trans (h.live old hold).2⟩
  · show ((vote.append req data).heap.block vote.back.buffer).cells.length = _
    rw [h.append_back, length_append, h.back]
    rfl
  · exact hroom
  · exact h.rounded
  · intro memory hm
    rw [h.append_block req data hm]
    exact h.full memory hm

theorem Inv.append_built (h : vote.Inv) (req data : Bytes) (fields : Wire.Vote) :
    (vote.append req data).built fields = ⟨fields, (vote.built fields).full,
      ⟨vote.back.bufferLength, vote.contents vote.back ++ data⟩⟩ := by
  have hback : (vote.append req data).contents (vote.append req data).back =
      vote.contents vote.back ++ data := by
    rw [h.contents_back, ← h.append_back req data, contents, take_of_length_le]
    · rfl
    · show ((vote.append req data).heap.block vote.back.buffer).cells.length ≤ _
      rw [h.append_back, length_append, h.back]
      exact le_rfl
  rw [built, hback]
  show BuiltVote.mk _ (vote.full.map _) _ = _
  rw [map_congr_left fun memory hm => by rw [contents, h.append_block req data hm]]
  rfl

theorem Inv.makeRoom (h : vote.Inv) {spaceNeeded : Nat}
    (hroom : vote.makeRoom spaceNeeded = .ok vote') :
    vote'.Inv ∧ vote'.isReconfiguration = vote.isReconfiguration ∧ vote'.header = vote.header := by
  rw [Layout.makeRoom] at hroom
  split_ifs at hroom
  · obtain ⟨newMemory, hnew, hroom⟩ := bind_eq_ok.mp hroom
    cases hroom
    obtain ⟨hrounded, hpage⟩ := Vote.addMemory_rounded (Nat.mod_lt _ (by decide)) hnew
    have hextra := Nat.mod_lt vote.back.validLength (by decide : 0 < 4096)
    exact ⟨h.grow hrounded (by omega), rfl, rfl⟩
  · cases hroom
    exact ⟨h, rfl, rfl⟩

/-- `AddRequest`, taken apart. -/
theorem addRequest_eq_ok (h : vote.addRequest req = .ok vote') :
    ∃ roomy data, vote.isReconfiguration = false ∧
      vote.makeRoom ((req.length + 4) % word) = .ok roomy ∧
      writeRequest req = .ok data ∧ roomy.back.validLength + data.length ≤ roomy.back.bufferLength ∧
      vote' = roomy.append req data := by
  rw [addRequest] at h
  split_ifs at h with hreconf
  obtain ⟨roomy, hroomy, h⟩ := bind_eq_ok.mp h
  obtain ⟨data, hdata, h⟩ := bind_eq_ok.mp h
  split_ifs at h with hroom
  cases h
  exact ⟨roomy, data, by simpa using hreconf, hroomy, hdata, not_lt.mp hroom, rfl⟩

theorem Inv.of_addRequest (hinv : vote.Inv) (h : vote.addRequest req = .ok vote') : vote'.Inv := by
  obtain ⟨roomy, data, -, hroomy, -, hroom, rfl⟩ := addRequest_eq_ok h
  exact (hinv.makeRoom hroomy).1.append req hroom

/-- `AddRequest` with addresses does what it does without. -/
theorem Inv.addRequest_built (h : vote.Inv)
    (hfields : fields.isReconfiguration = vote.isReconfiguration)
    (hadd : vote.addRequest req = .ok vote') :
    vote'.Inv ∧ (vote.built fields).addRequest req =
      .ok (vote'.built { fields with requests := fields.requests ++ [req] }) := by
  refine ⟨h.of_addRequest hadd, ?_⟩
  obtain ⟨roomy, data, hplain, hroomy, hdata, hroom, rfl⟩ := addRequest_eq_ok hadd
  have hinv := (h.makeRoom hroomy).1
  have hwrite := Memory.write_eq (roomy.built fields).back data
  rw [if_pos (by rwa [← hinv.length_contents_back] at hroom)] at hwrite
  have hreconf : ¬ (vote.built fields).fields.isReconfiguration = true := by
    show ¬ fields.isReconfiguration = true
    rw [hfields, hplain]
    decide
  rw [BuiltVote.addRequest, hinv.append_built, if_neg hreconf, hdata]
  exact bind_eq_ok.mpr ⟨_, h.makeRoom_built hroomy fields,
    bind_eq_ok.mpr ⟨_, hwrite, rfl⟩⟩

/-- The vote without addresses takes the request too. -/
theorem Inv.exists_built (hinv : vote.Inv) (h : vote.addRequest req = .ok vote') :
    ∃ fields fields', fields.isReconfiguration = false ∧
      (vote.built fields).addRequest req = .ok (vote'.built fields') := by
  obtain ⟨-, -, hplain, -⟩ := addRequest_eq_ok h
  exact ⟨⟨vote.header, [], false, none, false, []⟩, _, rfl, (hinv.addRequest_built hplain.symm h).2⟩

theorem Inv.sound_built (hinv : vote.Inv) (fields : Wire.Vote) :
    (vote.built fields).back.Sound := by
  refine ⟨?_, hinv.rounded.2⟩
  rw [show (vote.built fields).back.bytes.length = _ from hinv.length_contents_back]
  exact hinv.room

end Layout

/-! ## The pointers -/

/-- The request is where its context says, and not in the place of the header. -/
structure Layout.PointsTo (vote : Layout) (ctx : RequestCtx) (req : Bytes) : Prop where
  bufLen : ctx.bufLen = req.length
  data : vote.heap.Designates ctx.requestBuf req
  place : req ≠ [] → ctx.requestBuf.block = vote.first.buffer →
    Header.baseSize vote.header.version ≤ ctx.requestBuf.offset

/-- The first buffer has the place of the header, and the requests are where their contexts say. -/
structure Layout.Points (vote : Layout) (reqs : List Bytes) : Prop where
  place : Header.baseSize vote.header.version ≤ vote.first.validLength
  requests : Forall₂ vote.PointsTo vote.requests reqs
  count : vote.numRequests = reqs.length % word

namespace Layout

variable {vote : Layout} {ctx : RequestCtx} {req : Bytes} {reqs : List Bytes}

/-- A new buffer is the first one only if the one before was and is left empty. -/
theorem grow_first (vote : Layout) (n : Nat) :
    (vote.grow n).first.buffer = vote.first.buffer ∧
        (vote.first.validLength ≤ (vote.grow n).first.validLength ∨
          4096 ≤ (vote.grow n).first.validLength) ∨
      vote.back.validLength - vote.back.validLength % 4096 = 0 ∧ vote.first = vote.back ∧
        (vote.grow n).first = (vote.grow n).back := by
  have hfull : (vote.grow n).full =
      if vote.back.validLength - vote.back.validLength % 4096 = 0 then vote.full
      else vote.full ++ [{ vote.back with
        validLength := vote.back.validLength - vote.back.validLength % 4096 }] := rfl
  rw [first, first, hfull]
  cases vote.full with
  | nil =>
    split_ifs with hstart
    · exact .inr ⟨hstart, rfl, rfl⟩
    · refine .inl ⟨rfl, .inr ?_⟩
      show 4096 ≤ vote.back.validLength - vote.back.validLength % 4096
      omega
  | cons memory full =>
    split_ifs
    · exact .inl ⟨rfl, .inl le_rfl⟩
    · exact .inl ⟨rfl, .inl le_rfl⟩

theorem first_mem (vote : Layout) : vote.first ∈ vote.marshal := by
  rw [first, marshal]
  cases vote.full with
  | nil | cons memory full => exact mem_cons_self

/-- What a context points to starts in a block that was allocated, and ends with its bytes. -/
theorem PointsTo.bounds (h : vote.PointsTo ctx req) (hreq : req ≠ []) :
    ctx.requestBuf.block < vote.heap.next ∧
      ctx.requestBuf.offset < (vote.heap.block ctx.requestBuf.block).cells.length := by
  have hpos := length_pos_of_ne_nil hreq
  have hle := h.data.length_le hreq
  exact ⟨(h.data hreq).1, by omega⟩

/-- A request whose pointer is moved. -/
theorem PointsTo.grow_moved (hinv : vote.Inv) (h : vote.PointsTo ctx req) (n : Nat)
    (hblock : ctx.requestBuf.block = vote.back.buffer)
    (hstart : vote.back.validLength - vote.back.validLength % 4096 ≤ ctx.requestBuf.offset) :
    (vote.grow n).PointsTo ⟨⟨vote.heap.next, ctx.requestBuf.offset -
      (vote.back.validLength - vote.back.validLength % 4096)⟩, ctx.bufLen⟩ req := by
  have hlive := (hinv.live _ vote.back_mem).1
  refine ⟨h.bufLen, fun hreq => ⟨?_, ?_, ?_⟩, fun hreq hfirst => ?_⟩
  · rw [grow_next]
    exact lt_add_one _
  · rw [hinv.grow_block_next]
  · have hmoved := (h.data.moved hstart hreq).2.2
    rw [alloc_block_next, hblock] at hmoved
    rw [hinv.grow_block_next, hinv.contents_back]
    exact hmoved
  · change vote.heap.next = _ at hfirst
    rcases vote.grow_first n with ⟨hsame, -⟩ | ⟨hempty, hback, -⟩
    · have hlt := (hinv.live _ vote.first_mem).1
      omega
    · have hplace := h.place hreq (by rw [hback, hblock])
      show _ ≤ ctx.requestBuf.offset - (vote.back.validLength - vote.back.validLength % 4096)
      rw [hempty]
      exact hplace

/-- A request whose pointer stays. -/
theorem PointsTo.grow_kept (hinv : vote.Inv) (h : vote.PointsTo ctx req) (n : Nat)
    (hkept : ¬ (ctx.requestBuf.block = vote.back.buffer ∧
      vote.back.validLength - vote.back.validLength % 4096 ≤ ctx.requestBuf.offset ∧
      ctx.requestBuf.offset < vote.back.validLength - vote.back.validLength % 4096 +
        vote.back.validLength % 4096)) : (vote.grow n).PointsTo ctx req := by
  refine ⟨h.bufLen, fun hreq => ?_, fun hreq hfirst => ?_⟩
  · obtain ⟨hlt, hend⟩ := h.bounds hreq
    have hsame := vote.grow_block n hlt (by
      by_contra hfreed
      rw [not_or, not_not, not_not] at hfreed
      obtain ⟨hblock, hempty⟩ := hfreed
      rw [hblock, hinv.back] at hend
      exact hkept ⟨hblock, by omega, by omega⟩)
    rw [hsame, grow_next]
    obtain ⟨-, hrest⟩ := h.data hreq
    exact ⟨Nat.lt_succ_of_lt hlt, hrest⟩
  · obtain ⟨hlt, -⟩ := h.bounds hreq
    rcases vote.grow_first n with ⟨hsame, -⟩ | ⟨-, -, hnew⟩
    · exact h.place hreq (hfirst.trans hsame)
    · rw [hnew] at hfirst
      exact absurd hfirst hlt.ne

theorem Points.grow (hinv : vote.Inv) (h : vote.Points reqs) (n : Nat) :
    (vote.grow n).Points reqs := by
  refine ⟨?_, ?_, h.count⟩
  · have hbase := (Header.baseSize_le vote.header.version).2
    have hplace := h.place
    show Header.baseSize vote.header.version ≤ _
    rcases vote.grow_first n with ⟨-, hlength⟩ | ⟨hempty, hback, hnew⟩
    · omega
    · rw [hnew]
      rw [hback] at hplace
      show _ ≤ vote.back.validLength % 4096
      omega
  · show Forall₂ _ (vote.requests.map _) _
    rw [forall₂_map_left_iff]
    refine h.requests.imp fun ctx req hctx => ?_
    rw [rebase]
    split_ifs with hmoved
    · exact hctx.grow_moved hinv n hmoved.1 hmoved.2.1
    · exact hctx.grow_kept hinv n hmoved

end Layout

/-- The bytes of a request end with its data. -/
theorem writeRequest_eq_ok {req data : Bytes} (h : writeRequest req = .ok data) :
    ∃ len : Bytes, len.length = 4 ∧ data = len ++ req := by
  cases h
  exact ⟨leBytes 4 req.length, length_leBytes .., by rw [append_nil]⟩

namespace Layout

variable {vote vote' : Layout} {ctx : RequestCtx} {req data : Bytes} {reqs : List Bytes}

theorem append_first (vote : Layout) (req data : Bytes) :
    (vote.append req data).first.buffer = vote.first.buffer ∧
      vote.first.validLength ≤ (vote.append req data).first.validLength := by
  have hfull : (vote.append req data).full = vote.full := rfl
  rw [first, first, hfull]
  cases vote.full with
  | nil => exact ⟨rfl, le_self_add⟩
  | cons memory full => exact ⟨rfl, le_rfl⟩

/-- The requests before are not touched. -/
theorem PointsTo.append (hinv : vote.Inv) (h : vote.PointsTo ctx req) (new data : Bytes) :
    (vote.append new data).PointsTo ctx req := by
  refine ⟨h.bufLen, h.data.write fun hreq hblock => .inr ?_, fun hreq hfirst => ?_⟩
  · have hle := h.data.length_le hreq
    rwa [hblock, hinv.back] at hle
  · exact h.place hreq (hfirst.trans (vote.append_first new data).1)

/-- The request that is added. -/
theorem Inv.pointsTo_append (hinv : vote.Inv) (hplace : Header.baseSize vote.header.version ≤
    vote.first.validLength) (hdata : writeRequest req = .ok data) :
    (vote.append req data).PointsTo
    ⟨⟨vote.back.buffer, vote.back.validLength + data.length - req.length⟩,
      req.length⟩ req := by
  obtain ⟨len, hlen, rfl⟩ := writeRequest_eq_ok hdata
  have hoffset : vote.back.validLength + (len ++ req).length - req.length =
      vote.back.validLength + 4 := by
    rw [length_append, hlen]
    omega
  have hback := hinv.live _ vote.back_mem
  rw [hoffset]
  refine ⟨rfl, fun _ => ⟨hback.1, (write_freed ..).trans hback.2, ?_⟩, fun _ hfirst => ?_⟩
  · show req <+: ((vote.append req (len ++ req)).heap.block vote.back.buffer).cells.drop _
    rw [hinv.append_back, ← hinv.back, ← hlen, ← drop_drop, drop_left, drop_left]
  · rw [(vote.append_first _ _).1] at hfirst
    change vote.back.buffer = vote.first.buffer at hfirst
    show Header.baseSize vote.header.version ≤ vote.back.validLength + 4
    -- The first buffer is the last one.
    rcases mem_append.mp vote.first_mem with hm | hm
    · exact absurd hfirst.symm (hinv.ne_back hm)
    · rw [mem_singleton.mp hm] at hplace
      omega

theorem Points.append (hinv : vote.Inv) (h : vote.Points reqs)
    (hdata : writeRequest req = .ok data) :
    (vote.append req data).Points (reqs ++ [req]) := by
  refine ⟨h.place.trans (vote.append_first req data).2, ?_, ?_⟩
  · have hold := h.requests.imp fun ctx old hctx => hctx.append hinv req data
    exact rel_append hold (.cons (hinv.pointsTo_append h.place hdata) .nil)
  · show (vote.numRequests + 1) % word = _
    rw [h.count, length_append, Nat.mod_add_mod]
    rfl

/-- The buffer of `AddRequest`: the last one if there is room in it, else a new one. -/
theorem Inv.makeRoom_cases (hinv : vote.Inv) (hreq : req.length < word)
    (h : vote.addRequest req = .ok vote') {roomy : Layout}
    (hroomy : vote.makeRoom ((req.length + 4) % word) = .ok roomy) :
    vote.back.validLength + (req.length + 4) ≤ vote.back.bufferLength ∧ roomy = vote ∨
      vote.back.bufferLength < vote.back.validLength + (req.length + 4) ∧ ∃ n,
        roomy = vote.grow n := by
  obtain ⟨fields, _, hplain, hadd⟩ := hinv.exists_built h
  have hend := (Memory.requestFits_iff.mp
    ((BuiltVote.exists_addRequest_iff hplain (hinv.sound_built fields) hreq).mp ⟨_, hadd⟩)).1
  rw [show (vote.built fields).back.bytes.length = _ from hinv.length_contents_back] at hend
  rw [Layout.makeRoom, Nat.mod_eq_of_lt (show req.length + 4 < word by omega),
    Nat.mod_eq_of_lt (show req.length + 4 + vote.back.validLength < word by omega)] at hroomy
  split_ifs at hroomy with hfull
  · obtain ⟨newMemory, -, hroomy⟩ := bind_eq_ok.mp hroomy
    cases hroomy
    exact .inr ⟨by omega, newMemory.bufferLength, rfl⟩
  · cases hroomy
    exact .inl ⟨by omega, rfl⟩

end Layout

/-! ## The primary cookie -/

/-- The cookie stands in the first block, which may be freed. -/
structure Layout.CookieAt (vote : Layout) (cookie : Bytes) : Prop where
  ptr : vote.primaryCookie = some ⟨0, Header.baseSize vote.header.version + 4⟩
  allocated : 0 < vote.heap.next
  data : cookie <+: (vote.heap.block 0).cells.drop (Header.baseSize vote.header.version + 4)

namespace Layout

variable {vote : Layout} {cookie : Bytes}

/-- A freed block keeps its bytes, whoever may use them. -/
theorem grow_cells (vote : Layout) (n : Nat) {b : Nat} (hlt : b < vote.heap.next) :
    ((vote.grow n).heap.block b).cells = (vote.heap.block b).cells := by
  show ((if _ then _ else _ : Heap UInt8).block b).cells = _
  split_ifs
  · by_cases hb : b = vote.back.buffer
    · rw [hb, free_block_self, alloc_block_of_lt (by rwa [← hb])]
    · rw [free_block_of_ne hb, alloc_block_of_lt hlt]
  · rw [alloc_block_of_lt hlt]

theorem CookieAt.grow (h : vote.CookieAt cookie) (n : Nat) : (vote.grow n).CookieAt cookie := by
  refine ⟨h.ptr, ?_, ?_⟩
  · rw [grow_next]
    exact Nat.succ_pos _
  · rw [vote.grow_cells n h.allocated]
    exact h.data

theorem CookieAt.append (hinv : vote.Inv) (h : vote.CookieAt cookie) (req data : Bytes) :
    (vote.append req data).CookieAt cookie := by
  refine ⟨h.ptr, h.allocated, ?_⟩
  by_cases hb : vote.back.buffer = 0
  · have hcells := hinv.append_back req data
    rw [hb] at hcells
    rw [hcells, drop_append]
    exact h.data.trans (prefix_append ..)
  · show _ <+: ((vote.heap.write _ data).block 0).cells.drop _
    rw [write_block_of_ne (Ne.symm hb)]
    exact h.data

/-- The first block is freed if it is the last buffer, with less than a page. -/
theorem grow_freed (vote : Layout) (n : Nat) (hpos : 0 < vote.heap.next) :
    ((vote.grow n).heap.block 0).freed = ((vote.heap.block 0).freed ||
      decide (vote.back.buffer = 0 ∧ vote.back.validLength < 4096)) := by
  by_cases hfreed : vote.back.buffer = 0 ∧ vote.back.validLength < 4096
  · have hempty : vote.back.validLength - vote.back.validLength % 4096 = 0 := by omega
    rw [decide_eq_true hfreed, Bool.or_true]
    show ((if _ then _ else _ : Heap UInt8).block 0).freed = true
    rw [if_pos hempty, hfreed.1, free_block_self]
  · rw [decide_eq_false hfreed, Bool.or_false, vote.grow_block n hpos]
    by_cases hb : vote.back.buffer = 0
    · exact .inr (by omega)
    · exact .inl (Ne.symm hb)

end Layout

/-! ## A run of `AddRequest` -/

namespace Layout

variable {vote vote' : Layout} {req cookie : Bytes} {reqs done : List Bytes} {fields : Wire.Vote}

/-- The last buffer. -/
def room (vote : Layout) : Room := ⟨vote.back.bufferLength, vote.back.validLength⟩

section

variable (hinv : vote.Inv) (hreq : req.length < word) (h : vote.addRequest req = .ok vote')

include hinv hreq h

/-- What `AddRequest` does: the request is appended to the last buffer or to a new one. -/
theorem Inv.addRequest_step :
    ∃ roomy data, roomy.Inv ∧ writeRequest req = .ok data ∧ vote' = roomy.append req data ∧
      (vote.room.used + (req.length + 4) ≤ vote.room.bufferLength ∧ roomy = vote ∨
        vote.room.bufferLength < vote.room.used + (req.length + 4) ∧ ∃ n, roomy = vote.grow n) := by
  obtain ⟨roomy, data, -, hroomy, hdata, -, hvote⟩ := addRequest_eq_ok h
  exact ⟨roomy, data, (hinv.makeRoom hroomy).1, hdata, hvote, hinv.makeRoom_cases hreq h hroomy⟩

theorem Inv.addRequest_points (hpoints : vote.Points done) : vote'.Points (done ++ [req]) := by
  obtain ⟨roomy, data, hroomy, hdata, rfl, ⟨-, rfl⟩ | ⟨-, n, rfl⟩⟩ := hinv.addRequest_step hreq h
  · exact hpoints.append hinv hdata
  · exact (hpoints.grow hinv n).append hroomy hdata

theorem Inv.addRequest_cookie (hcookie : vote.CookieAt cookie) : vote'.CookieAt cookie := by
  obtain ⟨roomy, data, hroomy, hdata, rfl, ⟨-, rfl⟩ | ⟨-, n, rfl⟩⟩ := hinv.addRequest_step hreq h
  · exact hcookie.append hinv req data
  · exact (hcookie.grow n).append hroomy req data

theorem Inv.addRequest_header :
    vote'.header = vote.header ∧ vote'.isReconfiguration = vote.isReconfiguration ∧
      vote'.primaryCookie = vote.primaryCookie := by
  obtain ⟨roomy, data, -, -, rfl, ⟨-, rfl⟩ | ⟨-, n, rfl⟩⟩ := hinv.addRequest_step hreq h
  · exact ⟨rfl, rfl, rfl⟩
  · exact ⟨rfl, rfl, rfl⟩

theorem Inv.addRequest_room : vote'.room = vote.room.add req.length := by
  obtain ⟨fields, _, -, hadd⟩ := hinv.exists_built h
  have hroom : ∀ {layout : Layout}, layout.Inv → ∀ fields, (layout.built fields).back.room =
      layout.room :=
    fun hlayout fields => congrArg (Room.mk _) hlayout.length_contents_back
  have hbuilt := BuiltVote.addRequest_room (hinv.sound_built fields) hreq hadd
  rwa [hroom (hinv.of_addRequest h), hroom hinv] at hbuilt

end

/-- The requests are added one after the other. -/
theorem Inv.addRequests (hreqs : ∀ req ∈ reqs, req.length < word) (hinv : vote.Inv)
    (h : reqs.foldlM addRequest vote = .ok vote') (hpoints : vote.Points fields.requests)
    (hfields : fields.isReconfiguration = vote.isReconfiguration) :
    vote'.Inv ∧ vote'.Points (fields.requests ++ reqs) ∧ vote'.header = vote.header ∧
      vote'.primaryCookie = vote.primaryCookie ∧ (vote.CookieAt cookie → vote'.CookieAt cookie) ∧
      reqs.foldlM BuiltVote.addRequest (vote.built fields) =
        .ok (vote'.built { fields with requests := fields.requests ++ reqs }) := by
  induction reqs generalizing vote fields with
  | nil =>
    cases h
    rw [append_nil]
    exact ⟨hinv, hpoints, rfl, rfl, id, rfl⟩
  | cons req reqs ih =>
    obtain ⟨hreq, hreqs⟩ := forall_mem_cons.mp hreqs
    obtain ⟨next, hnext, h⟩ := bind_eq_ok.mp ((foldlM_cons ..).symm.trans h)
    obtain ⟨hinv', hbuilt⟩ := hinv.addRequest_built hfields hnext
    obtain ⟨hheader, hreconf, hptr⟩ := hinv.addRequest_header hreq hnext
    have hrest := @ih next { fields with requests := fields.requests ++ [req] } hreqs hinv' h
      (hinv.addRequest_points hreq hnext hpoints) (hfields.trans hreconf.symm)
    rw [append_assoc, singleton_append, hheader, hptr] at hrest
    obtain ⟨hinv'', hpoints', hheader', hptr', hcookie, hrest⟩ := hrest
    refine ⟨hinv'', hpoints', hheader', hptr', fun hat => ?_, ?_⟩
    · exact hcookie (hinv.addRequest_cookie hreq hnext hat)
    · rw [foldlM_cons]
      exact bind_eq_ok.mpr ⟨_, hbuilt, hrest⟩

end Layout

/-! ## The first block -/

namespace Layout

variable {vote vote' : Layout} {req : Bytes} {reqs : List Bytes}

theorem Inv.addRequest_freed (hinv : vote.Inv) (hreq : req.length < word)
    (h : vote.addRequest req = .ok vote') :
    vote.room.used + (req.length + 4) ≤ vote.room.bufferLength ∧ vote'.back.buffer =
      vote.back.buffer ∧
        (vote'.heap.block 0).freed = (vote.heap.block 0).freed ∨
      vote.room.bufferLength < vote.room.used + (req.length + 4) ∧ vote'.back.buffer ≠ 0 ∧
        (vote'.heap.block 0).freed = ((vote.heap.block 0).freed ||
          decide (vote.back.buffer = 0 ∧ vote.back.validLength < 4096)) := by
  have hpos : 0 < vote.heap.next := Nat.lt_of_le_of_lt (Nat.zero_le _) (hinv.live _ vote.back_mem).1
  obtain ⟨roomy, data, -, -, rfl, ⟨hfits, rfl⟩ | ⟨hfull, n, rfl⟩⟩ := hinv.addRequest_step hreq h
  · exact .inl ⟨hfits, rfl, write_freed ..⟩
  · exact .inr ⟨hfull, hpos.ne', (write_freed ..).trans (vote.grow_freed n hpos)⟩

/-- Once another buffer is the last one, the first block is freed or not for good. -/
theorem Inv.freed_of_left (hreqs : ∀ req ∈ reqs, req.length < word) (hinv : vote.Inv)
    (hleft : vote.back.buffer ≠ 0) (h : reqs.foldlM addRequest vote = .ok vote') :
    (vote'.heap.block 0).freed = (vote.heap.block 0).freed := by
  induction reqs generalizing vote with
  | nil =>
    cases h
    rfl
  | cons req reqs ih =>
    obtain ⟨hreq, hreqs⟩ := forall_mem_cons.mp hreqs
    obtain ⟨next, hnext, h⟩ := bind_eq_ok.mp ((foldlM_cons ..).symm.trans h)
    have hinv' := hinv.of_addRequest hnext
    rcases hinv.addRequest_freed hreq hnext with ⟨-, hback, hfreed⟩ | ⟨-, hback, hfreed⟩
    · rw [ih hreqs hinv' (by rwa [hback]) h, hfreed]
    · rw [ih hreqs hinv' hback h, hfreed, decide_eq_false fun h => hleft h.1, Bool.or_false]

/-- The first block is freed exactly if a request does not fit it while it has less than a page. -/
theorem Inv.freed_iff (hreqs : ∀ req ∈ reqs, req.length < word) (hinv : vote.Inv)
    (hfirst : vote.back.buffer = 0) (h : reqs.foldlM addRequest vote = .ok vote') :
    (vote'.heap.block 0).freed = LeavesFirst vote.room (reqs.map length) := by
  induction reqs generalizing vote with
  | nil =>
    cases h
    have hlive := (hinv.live _ (back_mem _)).2
    rw [hfirst] at hlive
    exact hlive
  | cons req reqs ih =>
    obtain ⟨hreq, hreqs⟩ := forall_mem_cons.mp hreqs
    obtain ⟨next, hnext, h⟩ := bind_eq_ok.mp ((foldlM_cons ..).symm.trans h)
    have hinv' := hinv.of_addRequest hnext
    rw [map_cons, LeavesFirst]
    rcases hinv.addRequest_freed hreq hnext with ⟨hfits, hback, -⟩ | ⟨hfull, hback, hfreed⟩
    · rw [if_pos hfits, ← hinv.addRequest_room hreq hnext]
      exact ih hreqs hinv' (hback.trans hfirst) h
    · have hlive := (hinv.live _ vote.back_mem).2
      rw [hfirst] at hlive
      rw [if_neg (not_le.mpr hfull), hinv'.freed_of_left hreqs hback h, hfreed, hlive,
        Bool.false_or]
      exact decide_eq_decide.mpr (and_iff_right hfirst)

end Layout

/-! ## The constructor -/

variable {fill : Fill} {vote : Wire.Vote}

theorem Vote.marshals_of_init {built : BuiltVote}
    (h : Vote.init fill vote = .ok built) : Vote.Marshals fill vote := by
  obtain ⟨-, hversion, fields, hfields, -⟩ := Vote.init_eq_ok h
  refine ⟨hversion, fun hreconf => ?_⟩
  obtain ⟨_, _, -, hrest, -⟩ := concat_cons_eq_ok hfields
  obtain ⟨_, _, hwritten, -, -⟩ := concat_cons_eq_ok hrest
  rw [decide_eq_true (hversion hreconf), hreconf] at hwritten
  obtain ⟨_, _, -, hmembers, -⟩ := concat_cons_eq_ok hwritten
  obtain ⟨bytes, _, hbytes, -, -⟩ := concat_cons_eq_ok hmembers
  cases hset : vote.membersInNewConfiguration with
  | none =>
    rw [hset] at hbytes
    cases hbytes
  | some set =>
    rw [hset] at hbytes
    exact ⟨set, bytes, rfl, hbytes⟩

/-- The constructor has one buffer, in whole pages. -/
theorem Vote.init_one {built : BuiltVote} (h : Vote.init fill vote = .ok built) :
    built.full = [] ∧ 4096 ∣ built.back.bufferLength ∧ built.back.bufferLength < word := by
  obtain ⟨parts, -, hinit⟩ := (Vote.marshals_of_init h).parts
  rw [hinit] at h
  obtain ⟨memory, hmemory, h⟩ := bind_eq_ok.mp h
  obtain ⟨memory', hmemory', h⟩ := bind_eq_ok.mp h
  cases h
  have hlt : Vote.minSize vote < word := by
    rw [Vote.minSize_eq]
    exact Nat.mod_lt _ (by decide)
  rw [Memory.writeAll_eq_ok hmemory']
  exact ⟨rfl, (Vote.addMemory_rounded hlt hmemory).1⟩

/-- The cookie stands behind the header and its length. -/
theorem Vote.cookie_prefix {fields : Bytes}
    (hversion : 2 ≤ vote.header.version.raw) (hcookie : vote.primaryCookie ≠ [])
    (h : Vote.writeFields fill vote = .ok fields) : vote.primaryCookie <+: fields.drop 4 := by
  obtain ⟨cookie, rest, hwritten, -, rfl⟩ := concat_cons_eq_ok h
  rw [decide_eq_true (show vote.header.version.raw ≥ 2 from hversion)] at hwritten
  obtain ⟨len, data, hlen, hdata, rfl⟩ := concat_cons_eq_ok hwritten
  obtain ⟨bytes, _, hbytes, hnil, rfl⟩ := concat_cons_eq_ok hdata
  rw [decide_eq_true (show vote.primaryCookie.length ≠ 0 from
    fun hzero => hcookie (eq_nil_of_length_eq_zero hzero))] at hbytes
  cases hlen
  cases hbytes
  have hfour : (leBytes 4 vote.primaryCookie.length).length = 4 := length_leBytes ..
  rw [append_assoc, append_assoc, drop_left' hfour]
  exact prefix_append ..

/-- What the constructor leaves. -/
structure Layout.Started (fill : Fill) (vote : Wire.Vote) (layout : Layout) : Prop where
  inv : layout.Inv
  points : layout.Points []
  header : layout.header = vote.header
  reconfiguration : layout.isReconfiguration = vote.isReconfiguration
  built : Vote.init fill vote = .ok (layout.built { vote with requests := [] })
  first : layout.back.buffer = 0
  room : layout.room = Vote.firstRoom vote
  cookie : 2 ≤ vote.header.version.raw → vote.primaryCookie ≠ [] →
    layout.CookieAt vote.primaryCookie

theorem Layout.started_of_init {layout : Layout}
    (h : Layout.init fill vote = .ok layout) : layout.Started fill vote := by
  obtain ⟨built, hbuilt, h⟩ := bind_eq_ok.mp h
  cases h
  obtain ⟨hfields, -, fields, hwritten, hholds⟩ := Vote.init_eq_ok hbuilt
  obtain ⟨hfull, hrounded⟩ := Vote.init_one hbuilt
  have hbytes : built.back.bytes = replicate (Header.baseSize vote.header.version) 0 ++ fields := by
    have hbytes := hholds.bytes
    rw [BuiltVote.bytes_eq, hfull, hfields] at hbytes
    exact hbytes
  have hroom := (Vote.init_room (Vote.marshals_of_init hbuilt) hbuilt).1
  have hblock : (empty.alloc built.back.bytes).block 0 = ⟨built.back.bytes, false⟩ :=
    alloc_block_next built.back.bytes
  have hcells : ((empty.alloc built.back.bytes).block 0).cells = built.back.bytes :=
    congrArg Block.cells hblock
  constructor
  · refine ⟨nodup_singleton _, ?_, ?_, (Vote.init_sound hbuilt).1, hrounded, ?_⟩
    · intro memory hm
      rw [mem_singleton.mp hm]
      exact ⟨Nat.one_pos, congrArg Block.freed hblock⟩
    · exact congrArg length hcells
    · intro memory hm
      cases hm
  · refine ⟨?_, .nil, rfl⟩
    show Header.baseSize vote.header.version ≤ built.back.bytes.length
    rw [hbytes, length_append, length_replicate]
    exact le_self_add
  · rfl
  · rfl
  · rw [hbuilt, Layout.built, Layout.contents]
    show _ =
      Except.ok (BuiltVote.mk _ [] ⟨_, ((empty.alloc built.back.bytes).block 0).cells.take _⟩)
    rw [hcells, take_length, ← hfields, ← hfull]
  · rfl
  · exact hroom
  · intro hversion hcookie
    have hlen : vote.primaryCookie.length ≠ 0 :=
      fun hzero => hcookie (eq_nil_of_length_eq_zero hzero)
    refine ⟨if_pos ⟨hversion, hlen⟩, Nat.one_pos, ?_⟩
    show _ <+: ((empty.alloc built.back.bytes).block 0).cells.drop _
    rw [hcells, hbytes, ← drop_drop, drop_left' length_replicate]
    exact Vote.cookie_prefix hversion hcookie hwritten

theorem Layout.Started.addRequests {start layout : Layout}
    (hstart : start.Started fill vote) (hreqs : ∀ req ∈ vote.requests, req.length < word)
    (h : vote.requests.foldlM Layout.addRequest start = .ok layout) :
    layout.Inv ∧ layout.Points vote.requests ∧ layout.header = start.header ∧
      (start.CookieAt vote.primaryCookie → layout.CookieAt vote.primaryCookie) ∧
      vote.requests.foldlM BuiltVote.addRequest (start.built { vote with requests := [] }) =
        .ok (layout.built vote) := by
  have hempty : ({ vote with requests := [] } : Wire.Vote).isReconfiguration =
    start.isReconfiguration :=
    hstart.reconfiguration.symm
  obtain ⟨hinv, hpoints, hheader, -, hcookie, hbuilt⟩ := @Layout.Inv.addRequests start layout
    vote.primaryCookie vote.requests { vote with requests := [] } hreqs hstart.inv h
      hstart.points hempty
  exact ⟨hinv, hpoints, hheader, hcookie, hbuilt⟩

/-- A vote that was built, before its header is written. -/
structure Layout.Constructed (fill : Fill) (vote : Wire.Vote) (layout : Layout) : Prop where
  inv : layout.Inv
  points : layout.Points vote.requests
  header : layout.header = vote.header
  body : ∃ body, Vote.body fill vote = .ok body ∧ (layout.built vote).Holds body ∧
    Header.baseSize vote.header.version + body.length = Vote.totalLength vote
  freed : (layout.heap.block 0).freed = LeavesFirst (Vote.firstRoom vote) (vote.requests.map length)
  cookie : 2 ≤ vote.header.version.raw → vote.primaryCookie ≠ [] →
    layout.CookieAt vote.primaryCookie

/-- The bytes of a vote, as they are counted. -/
theorem Vote.length_body {start : BuiltVote} {body : Bytes}
    (hstart : Vote.init fill vote = .ok start) (hbody : Vote.body fill vote = .ok body) :
    Header.baseSize vote.header.version + body.length = Vote.totalLength vote := by
  obtain ⟨hfields, -, fields, hwritten, hholds⟩ := Vote.init_eq_ok hstart
  obtain ⟨fields', tail, hfields', htail, rfl⟩ := concat_cons_eq_ok hbody
  obtain ⟨requests, _, hrequests, hnil, rfl⟩ := concat_cons_eq_ok htail
  cases hwritten.symm.trans hfields'
  cases hnil
  have hlength := congrArg length hholds.bytes
  have hused := congrArg Room.used (Vote.init_room (Vote.marshals_of_init hstart) hstart).1
  rw [BuiltVote.bytes_eq, (Vote.init_one hstart).1, hfields] at hlength
  change start.back.bytes.length = _ at hlength
  change start.back.bytes.length = Vote.written vote at hused
  rw [hused, length_append, length_replicate] at hlength
  have hreqs : requests.length = (vote.requests.map fun req => 4 + req.length).sum :=
    writes_map (fun req _ => writes_request req) requests hrequests
  rw [Vote.totalLength, hlength, length_append, append_nil, hreqs, add_assoc]
  simp only [add_comm 4]

theorem Layout.constructed {layout : Layout}
    (hreqs : ∀ req ∈ vote.requests, req.length < word)
    (h : Layout.construct fill vote = .ok layout) :
    layout.Constructed fill vote := by
  obtain ⟨start, hstart, h⟩ := bind_eq_ok.mp h
  have hstarted := Layout.started_of_init hstart
  obtain ⟨hinv, hpoints, hheader, hkept, hbuilt⟩ := hstarted.addRequests hreqs h
  have hconstruct : Vote.construct fill vote = .ok (layout.built vote) :=
    bind_eq_ok.mpr ⟨_, hstarted.built, hbuilt⟩
  obtain ⟨-, -, -, body, hbody, hholds⟩ := Vote.construct_eq_ok hconstruct
  refine ⟨hinv, hpoints, hheader.trans hstarted.header, ⟨body, hbody, hholds, ?_⟩, ?_, ?_⟩
  · exact Vote.length_body hstarted.built hbody
  · rw [hstarted.inv.freed_iff hreqs hstarted.first h, hstarted.room]
  · intro hversion hcookie
    exact hkept (hstarted.cookie hversion hcookie)

/-! ## The header -/

namespace Layout

variable {vote : Layout} {header : Bytes}

theorem marshal_eq (vote : Layout) : vote.marshal = vote.first :: vote.marshal.tail := by
  rw [first, marshal]
  cases vote.full with
  | nil => rfl
  | cons memory full => rfl

theorem Inv.valid_le (h : vote.Inv) {memory : Manager} (hm : memory ∈ vote.marshal) :
    memory.validLength ≤ (vote.heap.block memory.buffer).cells.length := by
  rcases mem_append.mp hm with hm | hm
  · exact (h.full memory hm).2.2.2
  · rw [mem_singleton.mp hm, h.back]

theorem Inv.length_contents (h : vote.Inv) {memory : Manager} (hm : memory ∈ vote.marshal) :
    (vote.contents memory).length = memory.validLength := by
  rw [contents, length_take, min_eq_left (h.valid_le hm)]

theorem Inv.length_bytes (h : vote.Inv) :
    vote.bytes.length = (vote.marshal.map Manager.validLength).sum := by
  rw [bytes, length_flatten, map_map]
  exact congrArg sum (map_congr_left fun memory hm => h.length_contents hm)

/-- The vote after `ReMarshalHeader`. -/
def withHeader (vote : Layout) (header : Bytes) : Layout :=
  { vote with heap := vote.heap.write ⟨vote.first.buffer, 0⟩ header }

/-- The header is written over its place in the first buffer, and the other buffers are as
before. -/
theorem Inv.bytes_withHeader (h : vote.Inv) (hheader : header.length ≤ vote.first.validLength) :
    (vote.withHeader header).bytes = header ++ vote.bytes.drop header.length := by
  have hcells := h.valid_le vote.first_mem
  have hfirst : (vote.withHeader header).contents vote.first =
      header ++ (vote.contents vote.first).drop header.length := by
    show ((vote.heap.write ⟨vote.first.buffer, 0⟩ header).block vote.first.buffer).cells.take _ = _
    rw [show vote.first.buffer = (Ptr.mk vote.first.buffer 0).block from rfl, write_block_self]
    show (take 0 _ ++ header ++ drop (0 + header.length) _).take _ = _
    rw [take_zero, nil_append, zero_add, take_append,
      take_of_length_le hheader, contents, drop_take]
  have hrest : ∀ memory ∈ vote.marshal.tail, (vote.withHeader header).contents memory =
      vote.contents memory := by
    intro memory hm
    have hapart := h.apart
    rw [marshal_eq, map_cons, nodup_cons] at hapart
    have hne : memory.buffer ≠ vote.first.buffer :=
      fun heq => hapart.1 (heq ▸ mem_map_of_mem hm)
    show ((vote.heap.write _ header).block memory.buffer).cells.take _ = _
    rw [write_block_of_ne hne]
    rfl
  rw [bytes, bytes]
  show (vote.marshal.map _).flatten = _
  rw [marshal_eq, map_cons, map_cons, flatten_cons, flatten_cons, hfirst,
    map_congr_left hrest, append_assoc, drop_append_of_le_length]
  rwa [h.length_contents vote.first_mem]

theorem PointsTo.withHeader {ctx : RequestCtx} {req : Bytes} (h : vote.PointsTo ctx req)
    (hheader : header.length = Header.baseSize vote.header.version) :
    (vote.withHeader header).heap.Designates ctx.requestBuf req := by
  refine h.data.write fun hreq hblock => .inl ⟨?_, Nat.zero_le _⟩
  rw [zero_add, hheader]
  exact h.place hreq hblock

/-- The cookie is there unless its block was freed. -/
theorem CookieAt.withHeader {cookie : Bytes} (h : vote.CookieAt cookie)
    (hheader : header.length = Header.baseSize vote.header.version) (hcookie : cookie ≠ []) :
    (∃ p, (vote.withHeader header).primaryCookie = some p ∧
      (vote.withHeader header).heap.Designates p cookie) ↔ (vote.heap.block 0).freed = false := by
  constructor
  · rintro ⟨p, hp, hdata⟩
    cases h.ptr.symm.trans hp
    exact (write_freed ..).symm.trans (hdata hcookie).2.1
  · intro hlive
    refine ⟨_, h.ptr, ?_⟩
    refine Designates.write (fun _ => ⟨h.allocated, hlive, h.data⟩) fun _ _ =>
      .inl ⟨?_, Nat.zero_le _⟩
    show 0 + header.length ≤ Header.baseSize vote.header.version + 4
    omega

end Layout

/-- After `GetBuffers` the cookie is there exactly if the first buffer was not left. -/
theorem Layout.Constructed.cookie_kept_iff {fill : Fill} {vote : Wire.Vote} {layout final : Layout}
    {lengths : List Nat} (h : layout.Constructed fill vote)
    (hbuffers : layout.getBuffers fill = .ok (final, lengths))
    (hversion : 2 ≤ vote.header.version.raw) (hcookie : vote.primaryCookie ≠ []) :
    (∃ p, final.primaryCookie = some p ∧ final.heap.Designates p vote.primaryCookie) ↔
      LeavesFirst (Vote.firstRoom vote) (vote.requests.map length) = false := by
  obtain ⟨_, hremarshal, hbuffers⟩ := bind_eq_ok.mp hbuffers
  obtain ⟨header, hheader, hremarshal⟩ := bind_eq_ok.mp hremarshal
  cases hremarshal
  cases hbuffers
  rw [← h.freed]
  exact (h.cookie hversion hcookie).withHeader (Header.writes _ fill _ header hheader) hcookie

/-! ## The layout -/

namespace Layout

variable {vote : Layout}

theorem roundUpToPage_eq {n : Nat} (h : n + 512 ≤ word) :
    LogFile.roundUpToPage n = (n + 511) / 512 * 512 := by
  have hmod : (n + 511) % LogFile.u32Size = n + 511 := Nat.mod_eq_of_lt h
  show (n + 511) % LogFile.u32Size / 512 * 512 = _
  rw [hmod]

/-- A length close to `2 ^ 32` is rounded to nothing. -/
theorem roundUpToPage_eq_zero {n : Nat} (hn : n < word) (h : word < n + 512) :
    LogFile.roundUpToPage n = 0 := by
  show (n + 511) % 4294967296 / 512 * 512 = 0
  have hword := word_eq
  rw [hword] at hn h
  omega

/-- Buffers of whole pages and a last one are rounded up as one. -/
theorem Inv.sum_roundUpToPage (h : vote.Inv) :
    (vote.marshal.map fun memory => LogFile.roundUpToPage memory.validLength).sum =
      ((vote.marshal.map Manager.validLength).sum + 511) / 512 * 512 := by
  have hword := word_eq
  have hfull : vote.full.map (fun memory => LogFile.roundUpToPage memory.validLength) =
      vote.full.map Manager.validLength := by
    refine map_congr_left fun memory hm => ?_
    obtain ⟨⟨k, hk⟩, -, hlt, -⟩ := h.full memory hm
    rw [hword] at hlt
    rw [roundUpToPage_eq (by omega)]
    omega
  obtain ⟨k, hk⟩ : 4096 ∣ (vote.full.map Manager.validLength).sum := by
    refine dvd_sum fun n hn => ?_
    obtain ⟨memory, hm, rfl⟩ := mem_map.mp hn
    exact (h.full memory hm).1
  have hback : LogFile.roundUpToPage vote.back.validLength =
      (vote.back.validLength + 511) / 512 * 512 := by
    obtain ⟨⟨j, hj⟩, hlt⟩ := h.rounded
    have hroom := h.room
    rw [hword] at hlt
    exact roundUpToPage_eq (by omega)
  rw [marshal, map_append, map_append, sum_append, sum_append, hfull, hk,
    map_singleton, map_singleton, sum_singleton, sum_singleton, hback]
  omega

end Layout

theorem Layout.built_bytes (layout : Layout) (fields : Wire.Vote) :
    (layout.built fields).bytes = layout.bytes := by
  rw [BuiltVote.bytes, Layout.bytes, BuiltVote.buffers, Layout.marshal, map_append, map_append]
  show (map _ (map _ layout.full) ++ _).flatten = _
  rw [map_map]
  rfl

/-- The lengths are right exactly if the total can be rounded up to pages in 32 bits. -/
theorem lengths_iff (total : Nat) : total % word = total ∧
    (total + 511) / 512 * 512 = LogFile.roundUpToPage (total % word) ↔ total + 512 ≤ word := by
  constructor
  · rintro ⟨hlength, hround⟩
    have hlt : total < word := hlength ▸ Nat.mod_lt total (by decide)
    by_contra hlong
    rw [hlength, Layout.roundUpToPage_eq_zero hlt (by omega)] at hround
    have hword := word_eq
    rw [hword] at hlong
    omega
  · intro hfits
    rw [Nat.mod_eq_of_lt (by omega), Layout.roundUpToPage_eq hfits]
    exact ⟨rfl, rfl⟩

/-- There are fewer requests than bytes. -/
theorem length_requests_le (requests : List Bytes) :
    requests.length ≤ (requests.map fun req => req.length + 4).sum := by
  induction requests with
  | nil => exact le_rfl
  | cons req requests ih =>
    rw [length_cons, map_cons, sum_cons]
    omega

/-- A vote that was built is laid out as expected exactly if its length can be rounded up to pages
in 32 bits and the block with its primary cookie was not freed. -/
theorem layout_iff {fill : Fill} {vote : Wire.Vote} {layout final : Layout} {lengths : List Nat}
    (hreqs : ∀ req ∈ vote.requests, req.length < word) (h : Layout.construct fill vote = .ok layout)
    (hbuffers : layout.getBuffers fill = .ok (final, lengths)) :
    final.LaidOut fill vote lengths ↔ Vote.totalLength vote + 512 ≤ word ∧
      (2 ≤ vote.header.version.raw → vote.primaryCookie ≠ [] →
        LeavesFirst (Vote.firstRoom vote) (vote.requests.map length) = false) := by
  have hlaid := Layout.constructed hreqs h
  have hkept := hlaid.cookie_kept_iff hbuffers
  obtain ⟨body, hbody, hholds, htotal⟩ := hlaid.body
  obtain ⟨_, hremarshal, hbuffers⟩ := bind_eq_ok.mp hbuffers
  obtain ⟨header, hheader, hremarshal⟩ := bind_eq_ok.mp hremarshal
  cases hremarshal
  cases hbuffers
  change (layout.withHeader header).LaidOut fill vote _ ↔ _
  have hsize : header.length = Header.baseSize layout.header.version :=
    Header.writes _ fill _ header hheader
  have hbase : Header.baseSize vote.header.version = header.length := by rw [hsize, hlaid.header]
  have hplaced : layout.bytes = replicate header.length 0 ++ body := by
    rw [← hbase, ← layout.built_bytes vote]
    exact hholds.bytes
  have hbytes : (layout.withHeader header).bytes = header ++ body := by
    rw [hlaid.inv.bytes_withHeader (by rw [hsize]; exact hlaid.points.place), hplaced,
      drop_left' length_replicate]
  have hlength : (layout.withHeader header).bytes.length = Vote.totalLength vote := by
    rw [hbytes, length_append, ← hbase, htotal]
  have hsum : (layout.marshal.map Manager.validLength).sum = Vote.totalLength vote := by
    rw [← hlaid.inv.length_bytes, hplaced, length_append, length_replicate, ← hbase, htotal]
  have hrecorded : (layout.withHeader header).getMarshalLen = Vote.totalLength vote % word := by
    rw [← hsum]
    rfl
  have hround := hlaid.inv.sum_roundUpToPage
  rw [hsum] at hround
  constructor
  · intro hexpected
    have hlengths := hexpected.lengths
    refine ⟨(lengths_iff _).mp ⟨?_, ?_⟩, fun hversion hcookie => ?_⟩
    · rw [← hrecorded, hexpected.length, hlength]
    · rw [← hround, ← hrecorded]
      exact hlengths
    · exact (hkept hversion hcookie).mp (hexpected.primaryCookie hversion hcookie)
  · rintro ⟨hfits, hleft⟩
    obtain ⟨hmod, hrounded⟩ := (lengths_iff _).mpr hfits
    constructor
    · refine ⟨header, body, ?_, hbody, hbytes⟩
      rw [← hlaid.header]
      exact hheader
    · rw [hrecorded, hlength, hmod]
    · exact fun memory hm => (hlaid.inv.full memory hm).1
    · rw [hrecorded, ← hrounded]
      exact hround
    · have hcount := length_requests_le vote.requests
      have htotal' : Vote.totalLength vote = Vote.written vote + _ := rfl
      exact hlaid.points.count.trans (Nat.mod_eq_of_lt (by omega))
    · exact hlaid.points.requests.imp fun ctx req hctx => ⟨hctx.bufLen, hctx.withHeader hsize⟩
    · exact fun hversion hcookie => (hkept hversion hcookie).mpr (hleft hversion hcookie)

/-! ## Votes that are built -/

namespace Layout

variable {vote : Layout} {req : Bytes} {reqs : List Bytes} {fields : Wire.Vote}

/-- A request that is added without addresses is added with them. -/
theorem Inv.exists_addRequest (hinv : vote.Inv)
    (hfields : fields.isReconfiguration = vote.isReconfiguration)
    {next : BuiltVote} (h : (vote.built fields).addRequest req = .ok next) :
    ∃ vote', vote.addRequest req = .ok vote' := by
  rw [BuiltVote.addRequest] at h
  split_ifs at h with hreconf
  obtain ⟨roomy, hroomy, h⟩ := bind_eq_ok.mp h
  obtain ⟨back, hback, -⟩ := bind_eq_ok.mp h
  obtain ⟨room, hroom⟩ : ∃ room, vote.makeRoom ((req.length + 4) % word) = .ok room := by
    have hlength : (vote.built fields).back.bytes.length = vote.back.validLength :=
      hinv.length_contents_back
    rw [BuiltVote.makeRoom] at hroomy
    simp only [hlength] at hroomy
    rw [Layout.makeRoom]
    by_cases hfull : ((req.length + 4) % word + vote.back.validLength) % word >
      vote.back.bufferLength
    · obtain ⟨newMemory, hnew, -⟩ := bind_eq_ok.mp ((if_pos hfull).symm.trans hroomy)
      exact ⟨_, (if_pos hfull).trans (bind_eq_ok.mpr ⟨newMemory, hnew, rfl⟩)⟩
    · exact ⟨vote, if_neg hfull⟩
  cases hroomy.symm.trans (hinv.makeRoom_built hroom fields)
  obtain ⟨data, hdata, -⟩ := Memory.write_eq_ok hback
  rw [hdata, Memory.write_eq] at hback
  split_ifs at hback with hfits
  have hlength : (room.built fields).back.bytes.length = room.back.validLength :=
    (hinv.makeRoom hroom).1.length_contents_back
  rw [hlength] at hfits
  have hplain : ¬ vote.isReconfiguration = true := by
    rw [← hfields]
    exact hreconf
  refine ⟨room.append req data, (if_neg hplain).trans ?_⟩
  exact bind_eq_ok.mpr ⟨room, hroom, bind_eq_ok.mpr ⟨data, hdata, if_neg (not_lt.mpr hfits)⟩⟩

theorem Inv.exists_addRequests (hreqs : ∀ req ∈ reqs, req.length < word) (hinv : vote.Inv)
    (hfields : fields.isReconfiguration = vote.isReconfiguration) {built : BuiltVote}
    (h : reqs.foldlM BuiltVote.addRequest (vote.built fields) = .ok built) :
    ∃ vote', reqs.foldlM addRequest vote = .ok vote' := by
  induction reqs generalizing vote fields with
  | nil => exact ⟨vote, rfl⟩
  | cons req reqs ih =>
    obtain ⟨hreq, hreqs⟩ := forall_mem_cons.mp hreqs
    obtain ⟨next, hnext, h⟩ := bind_eq_ok.mp ((foldlM_cons ..).symm.trans h)
    obtain ⟨vote', hvote'⟩ := hinv.exists_addRequest hfields hnext
    obtain ⟨hinv', hbuilt⟩ := hinv.addRequest_built hfields hvote'
    cases hnext.symm.trans hbuilt
    have hfields' : fields.isReconfiguration = vote'.isReconfiguration :=
      hfields.trans (hinv.addRequest_header hreq hvote').2.1.symm
    obtain ⟨final, hfinal⟩ :=
      @ih vote' { fields with requests := fields.requests ++ [req] } hreqs hinv' hfields' h
    refine ⟨final, ?_⟩
    rw [foldlM_cons]
    exact bind_eq_ok.mpr ⟨vote', hvote', hfinal⟩

/-- A vote is built with addresses exactly if it is built without. -/
theorem exists_construct_iff {fill : Fill} {vote : Wire.Vote}
    (hreqs : ∀ req ∈ vote.requests, req.length < word) :
    (∃ layout, construct fill vote = .ok layout) ↔
    ∃ built, Vote.construct fill vote = .ok built := by
  constructor
  · rintro ⟨layout, h⟩
    obtain ⟨start, hstart, h⟩ := bind_eq_ok.mp h
    have hstarted := started_of_init hstart
    obtain ⟨-, -, -, -, hbuilt⟩ := hstarted.addRequests hreqs h
    exact ⟨_, bind_eq_ok.mpr ⟨_, hstarted.built, hbuilt⟩⟩
  · rintro ⟨built, h⟩
    obtain ⟨start, hstart, h⟩ := bind_eq_ok.mp h
    obtain ⟨layout, hlayout⟩ : ∃ layout, init fill vote = .ok layout :=
      ⟨_, bind_eq_ok.mpr ⟨start, hstart, rfl⟩⟩
    have hstarted := started_of_init hlayout
    cases hstart.symm.trans hstarted.built
    have hempty : ({ vote with requests := [] } : Wire.Vote).isReconfiguration =
      layout.isReconfiguration :=
      hstarted.reconfiguration.symm
    obtain ⟨final, hfinal⟩ := hstarted.inv.exists_addRequests hreqs hempty h
    exact ⟨final, bind_eq_ok.mpr ⟨layout, hlayout, hfinal⟩⟩

end Layout

/-- A vote with the cookie 5 and one request. -/
def cookieVote (req : Bytes) : Wire.Vote :=
  { newVote requestHeader [5] false with requests := [req] }

/-- It is built if the request fits a buffer. -/
theorem exists_construct_cookieVote {req : Bytes} (h : req.length ≤ 65536) :
    ∃ layout final lengths, Layout.construct (fun _ _ => 0) (cookieVote req) = .ok layout ∧
      layout.getBuffers (fun _ _ => 0) = .ok (final, lengths) := by
  have hm : Vote.Marshals (fun _ _ => 0) (cookieVote req) := marshals_plain rfl
  obtain ⟨start, hstart⟩ := (Vote.exists_init_iff hm).mpr
    ⟨(by decide : 178 % word + 4096 ≤ word),
      (by decide : 179 ≤ inPages (max (178 % word) (32 * 1024)))⟩
  obtain ⟨hroom, hplain⟩ := Vote.init_room hm hstart
  have hword := word_eq
  have hfits : RequestFits start.back.room req.length := by
    rw [hroom]
    show 179 + (req.length + 4) < word ∧ (_ ∨ 179 % 4096 + (req.length + 4) + 4096 ≤ word)
    omega
  obtain ⟨built, hbuilt⟩ := (BuiltVote.exists_addRequest_iff hplain (Vote.init_sound hstart)
    (by omega)).mpr hfits
  have hreqs : ∀ r ∈ (cookieVote req).requests, r.length < word := by
    intro r hr
    rw [mem_singleton.mp hr]
    omega
  obtain ⟨layout, hlayout⟩ := (Layout.exists_construct_iff hreqs).mpr
    ⟨built, bind_eq_ok.mpr ⟨start, hstart, bind_eq_ok.mpr ⟨built, hbuilt, rfl⟩⟩⟩
  have hheader := (Layout.constructed hreqs hlayout).header
  obtain ⟨bytes, hbytes⟩ : ∃ bytes, Header.marshal layout.header (fun _ _ => 0) layout.getMarshalLen
      = .ok bytes := by
    rw [hheader]
    exact ⟨_, rfl⟩
  exact ⟨layout, _, _, hlayout, bind_eq_ok.mpr
    ⟨_, bind_eq_ok.mpr ⟨bytes, hbytes, rfl⟩, rfl⟩⟩

/-- A request of 32585 bytes fills the first buffer, and leaves the cookie where it is. -/
theorem layout_full :
    ∃ layout final lengths,
      Layout.construct (fun _ _ => 0) (cookieVote (replicate 32585 7)) = .ok layout ∧
      layout.getBuffers (fun _ _ => 0) = .ok (final, lengths) ∧
      final.LaidOut (fun _ _ => 0) (cookieVote (replicate 32585 7)) lengths := by
  have hlength : (replicate 32585 (7 : UInt8)).length = 32585 := length_replicate
  generalize replicate 32585 (7 : UInt8) = req at hlength
  obtain ⟨layout, final, lengths, hlayout, hbuffers⟩ := exists_construct_cookieVote
    (show req.length ≤ 65536 by omega)
  refine ⟨layout, final, lengths, hlayout, hbuffers,
    (layout_iff ?_ hlayout hbuffers).mpr ⟨?_, fun _ _ => ?_⟩⟩
  · intro r hr
    rw [mem_singleton.mp hr, hlength]
    decide
  · show 179 + (req.length + 4) + 512 ≤ word
    rw [hlength]
    decide
  · show LeavesFirst ⟨inPages (max (178 % word) (32 * 1024)), 179⟩ [req.length] = false
    rw [hlength]
    decide

/-- A request of 32 KB does not fit the first buffer. The 179 bytes in it move to a new one and the
buffer is freed, and the primary cookie still points to it. -/
theorem not_layout :
    ∃ layout final lengths,
      Layout.construct (fun _ _ => 0) (cookieVote (replicate 32768 0)) = .ok layout ∧
      layout.getBuffers (fun _ _ => 0) = .ok (final, lengths) ∧
      ¬ final.LaidOut (fun _ _ => 0) (cookieVote (replicate 32768 0)) lengths := by
  have hlength : (replicate 32768 (0 : UInt8)).length = 32768 := length_replicate
  generalize replicate 32768 (0 : UInt8) = req at hlength
  obtain ⟨layout, final, lengths, hlayout, hbuffers⟩ := exists_construct_cookieVote
    (show req.length ≤ 65536 by omega)
  refine ⟨layout, final, lengths, hlayout, hbuffers, fun hexpected => ?_⟩
  have hreqs : ∀ r ∈ (cookieVote req).requests, r.length < word := by
    intro r hr
    rw [mem_singleton.mp hr, hlength]
    decide
  have hkept := ((Layout.constructed hreqs hlayout).cookie_kept_iff hbuffers (by show 2 ≤ 6; decide)
    (cons_ne_nil _ _)).mp (hexpected.primaryCookie (by show 2 ≤ 6; decide) (cons_ne_nil _ _))
  change LeavesFirst ⟨inPages (max (178 % word) (32 * 1024)), 179⟩ [req.length] = false at hkept
  rw [hlength] at hkept
  revert hkept
  decide

end Rsl.Cpp
