import Rsl.Cpp.RoundTrip

/-!
# Votes and the buffers they are built in

`Vote::Init` computes a size, allocates a buffer of that size rounded up to pages, of at least 32
KB, and then writes the fields of the vote; `AddRequest` adds a request to the last buffer or to a
new one. The size that `Init` computes leaves out the byte of `m_relinquishPrimary`, and all sums
are of 32 bits.

`vote_fits_iff` says when nothing is written behind the end of a buffer, and `initFits_iff` what
this means for a vote of a version above 1 with fewer than 65536 members: the computed size can be
rounded up in 32 bits, and it does not fill its pages when the byte that is left out is written.
-/

set_option autoImplicit false

namespace Rsl.Cpp

open Wire Cpp.Vote Wire.Vote Memory Lib List

/-! ## The sizes -/

/-- The bytes of a member set that are written: the number of members is cast to a `UInt16`. -/
def MemberSet.written (set : MemberSet) (version : ProtocolVersion) : Nat :=
  Wire.MemberSet.size version { set with members := set.members.take (set.members.length % 65536) }

/-- What `Init` counts, before it is cut to 32 bits. -/
def Vote.counted (vote : Wire.Vote) : Nat :=
  let version := vote.header.version
  Header.baseSize version + (4 + vote.primaryCookie.length) +
    (if version.raw ≥ 3 then
      1 + (if vote.isReconfiguration then
        (vote.membersInNewConfiguration.map (·.size version)).getD 0 else 0)
    else 0)

/-- What `Init` writes. -/
def Vote.written (vote : Wire.Vote) : Nat :=
  let version := vote.header.version
  Header.baseSize version + (if version.raw ≥ 2 then 4 + vote.primaryCookie.length else 0) +
    (if version.raw ≥ 3 then
      1 + (if vote.isReconfiguration then
        (vote.membersInNewConfiguration.map (MemberSet.written · version)).getD 0 else 0)
    else 0) +
    (if version.raw ≥ 5 then 1 else 0)

/-- A size in whole pages. -/
def inPages (n : Nat) : Nat := (n + 4095) / 4096 * 4096

/-! ## The condition -/

/-- The computed size can be rounded up in 32 bits, and what is written fits the pages. -/
def Vote.InitFits (vote : Wire.Vote) : Prop :=
  counted vote % word + 4096 ≤ word ∧
    written vote ≤ inPages (max (counted vote % word) (32 * 1024))

/-- The size of the last buffer and how much of it is used. -/
structure Room where
  bufferLength : Nat
  used : Nat
deriving Repr, DecidableEq

/-- The buffer that `Init` leaves. -/
def Vote.firstRoom (vote : Wire.Vote) : Room :=
  ⟨inPages (max (counted vote % word) (32 * 1024)), written vote⟩

/-- The last buffer after a request: the same one, or a new one that starts with the bytes of the
last page of the one before. -/
def Room.add (room : Room) (len : Nat) : Room :=
  if room.used + (len + 4) ≤ room.bufferLength then { room with used := room.used + (len + 4) }
  else ⟨inPages (max (room.used % 4096 + (len + 4)) (32 * 1024)), room.used % 4096 + (len + 4)⟩

/-- The end of the request does not wrap, and the request fits the last buffer or its new one can be
rounded up. -/
def RequestFits (room : Room) (len : Nat) : Prop :=
  room.used + (len + 4) < word ∧
    (room.used + (len + 4) ≤ room.bufferLength ∨ room.used % 4096 + (len + 4) + 4096 ≤ word)

/-- Requests of these lengths fit, one after the other. -/
def RequestsFit : Room → List Nat → Prop
  | _, [] => True
  | room, len :: lens => RequestFits room len ∧ RequestsFit (room.add len) lens

def Memory.room (memory : Memory) : Room := ⟨memory.bufferLength, memory.bytes.length⟩

variable {vote : Wire.Vote} {fill : Fill} {req : Bytes} {memory : Memory}

theorem Memory.requestFits_iff {len : Nat} : RequestFits memory.room len ↔
    memory.bytes.length + (len + 4) < word ∧
      (memory.bytes.length + (len + 4) ≤ memory.bufferLength ∨
      memory.bytes.length % 4096 + (len + 4) + 4096 ≤ word) :=
  Iff.rfl

/-! ## Buffers -/

theorem le_inPages (n : Nat) : n ≤ inPages n := by
  rw [inPages]
  omega

theorem roundUpToSystemPage_eq {n : Nat} (h : n + 4096 ≤ word) :
    roundUpToSystemPage n = inPages n := by
  rw [roundUpToSystemPage, inPages, Nat.mod_eq_of_lt (by omega)]

/-- A size close to `2 ^ 32` is rounded to nothing. -/
theorem roundUpToSystemPage_eq_zero {n : Nat} (hn : n < word) (h : word < n + 4096) :
    roundUpToSystemPage n = 0 := by
  have hword := word_eq
  rw [roundUpToSystemPage]
  rw [hword] at hn h ⊢
  omega

theorem Vote.addMemory_eq {minSize : Nat} (hlt : minSize < word) :
    addMemory minSize = if minSize + 4096 ≤ word then .ok ⟨inPages (max minSize (32 * 1024)), []⟩
      else .error .panicked := by
  have hword := word_eq
  split_ifs with hfits
  · have hround : roundUpToSystemPage (max minSize (32 * 1024)) =
        inPages (max minSize (32 * 1024)) :=
      roundUpToSystemPage_eq (by omega)
    have hpos := le_inPages (max minSize (32 * 1024))
    rw [addMemory, hround]
    exact if_neg (by omega)
  · have hmax : max minSize (32 * 1024) = minSize := by omega
    rw [addMemory, hmax]
    exact if_pos (roundUpToSystemPage_eq_zero hlt (by omega))

/-- A write succeeds exactly if there is room. -/
theorem Memory.write_eq (memory : Memory) (data : Bytes) :
    memory.write (.ok data) = if memory.bytes.length + data.length ≤ memory.bufferLength then
      .ok { memory with bytes := memory.bytes ++ data } else .error .panicked := by
  show (if memory.bufferLength < memory.bytes.length + data.length then .error .panicked
    else .ok { memory with bytes := memory.bytes ++ data } : Except WriteFailure Memory) = _
  split_ifs with hfull hfits hfits
  · omega
  · rfl
  · rfl
  · omega

/-! ## The constructor -/

theorem MemberSet.writes_written (set : MemberSet) (fill : Fill) (version : ProtocolVersion) :
    Writes (MemberSet.marshal set fill version) (MemberSet.written set version) := by
  rw [MemberSet.marshal]
  exact (writes_leBytes 2 _).cons
    ((writes_mapIdx (fun _ node => RslNode.writes node _ version) _).cons
    ((writes_leBytes 4 _).cons ((writes_ok set.cookie).cons writes_nil)))

theorem MemberSet.getMarshalLen_eq (set : MemberSet) (version : ProtocolVersion) :
    MemberSet.getMarshalLen set version = set.size version % word :=
  Wire.MemberSet.marshalLen_eq set version

theorem Vote.minSize_eq (vote : Wire.Vote) : minSize vote = counted vote % word := by
  have hset : (vote.membersInNewConfiguration.map
      (MemberSet.getMarshalLen · vote.header.version)).getD 0 % word
        = (vote.membersInNewConfiguration.map (·.size vote.header.version)).getD 0 % word := by
    cases vote.membersInNewConfiguration with
    | none => rfl
    | some set =>
      show MemberSet.getMarshalLen set vote.header.version % word =
        set.size vote.header.version % word
      rw [MemberSet.getMarshalLen_eq, Nat.mod_mod]
  rw [minSize, counted, PrimaryCookie.getMarshalLen]
  generalize
    (vote.membersInNewConfiguration.map (MemberSet.getMarshalLen · vote.header.version)).getD 0
    = marshalLen at hset ⊢
  generalize (vote.membersInNewConfiguration.map (·.size vote.header.version)).getD 0 =
    size at hset ⊢
  have hword := word_eq
  rw [hword] at hset ⊢
  split_ifs <;> omega

/-- What `Init` writes can be marshalled: a configuration change has its members, and its version
has configuration changes. -/
structure Vote.Marshals (fill : Fill) (vote : Wire.Vote) : Prop where
  version : vote.isReconfiguration = true → 3 ≤ vote.header.version.raw
  members : vote.isReconfiguration = true → ∃ set bytes, vote.membersInNewConfiguration = some set ∧
    MemberSet.marshal set fill vote.header.version = .ok bytes

/-- Parts written one after the other. -/
def Memory.writeAll (memory : Memory) (parts : List Bytes) : Except WriteFailure Memory :=
  parts.foldlM (fun memory data => memory.write (.ok data)) memory

theorem Memory.exists_writeAll_iff (h : memory.bytes.length ≤ memory.bufferLength)
    (parts : List Bytes) : (∃ memory', memory.writeAll parts = .ok memory') ↔
      memory.bytes.length + parts.flatten.length ≤ memory.bufferLength := by
  induction parts generalizing memory with
  | nil => exact ⟨fun _ => h, fun _ => ⟨memory, rfl⟩⟩
  | cons data parts ih =>
    rw [writeAll, foldlM_cons, write_eq, flatten_cons, length_append]
    split_ifs with hroom
    · refine (@ih { memory with bytes := memory.bytes ++ data } ?_).trans ?_
      · rwa [length_append]
      · show (memory.bytes ++ data).length + _ ≤ _ ↔ _
        rw [length_append, add_assoc]
    · refine ⟨?_, fun hle => ?_⟩
      · rintro ⟨_, ⟨⟩⟩
      · omega

theorem writeIf_ok (p : Prop) [Decidable p] (bytes : Bytes) :
    writeIf (decide p) (.ok bytes) = .ok (if p then bytes else []) := by
  rw [writeIf]
  by_cases hp : p
  · rw [if_pos hp, if_pos (decide_eq_true hp)]
  · rw [if_neg hp, if_neg (by simpa using hp)]

/-- Writers that succeed, one after the other. -/
theorem Memory.write_four {α : Type} {w₁ w₂ w₃ w₄ : Writer} {p₁ p₂ p₃ p₄ : Bytes} (h₁ : w₁ = .ok p₁)
    (h₂ : w₂ = .ok p₂) (h₃ : w₃ = .ok p₃) (h₄ : w₄ = .ok p₄) (memory : Memory)
    (k : Memory → Except WriteFailure α) :
    (do
      let memory ← memory.write w₁
      let memory ← memory.write w₂
      let memory ← memory.write w₃
      let memory ← memory.write w₄
      k memory) = memory.writeAll [p₁, p₂, p₃, p₄] >>= k := by
  subst h₁ h₂ h₃ h₄
  simp only [writeAll, foldlM_cons, foldlM_nil, bind_assoc, pure_bind]

/-- The parts that `Init` writes. -/
theorem Vote.Marshals.parts (h : Marshals fill vote) :
    ∃ parts : List Bytes, parts.flatten.length = written vote ∧
      init fill vote = (do
        let memory ← addMemory (minSize vote)
        let memory ← memory.writeAll parts
        return ⟨{ vote with requests := [] }, [], memory⟩) := by
  obtain ⟨cookie, hcookie⟩ : ∃ bytes, PrimaryCookie.marshal vote.primaryCookie = .ok bytes := by
    cases vote.primaryCookie <;> exact ⟨_, rfl⟩
  have hcookieLen : cookie.length = 4 + vote.primaryCookie.length := by
    rw [PrimaryCookie.marshal_eq] at hcookie
    exact writes_primaryCookie _ cookie hcookie
  -- The writer of the members is known when there are members.
  obtain ⟨members, hmembers, hmembersLen⟩ : ∃ members,
      (∀ w, (∀ set bytes, vote.membersInNewConfiguration = some set →
        MemberSet.marshal set fill vote.header.version = .ok bytes → w = .ok bytes) →
          writeIf vote.isReconfiguration w = .ok members) ∧
      members.length = if vote.isReconfiguration then
        (vote.membersInNewConfiguration.map (MemberSet.written · vote.header.version)).getD 0
          else 0 := by
    cases hreconf : vote.isReconfiguration with
    | false => exact ⟨[], fun _ _ => rfl, rfl⟩
    | true =>
      obtain ⟨set, bytes, hset, hbytes⟩ := h.members hreconf
      refine ⟨bytes, fun w hw => hw set bytes hset hbytes, ?_⟩
      rw [hset]
      exact MemberSet.writes_written set fill _ bytes hbytes
  have hold : ¬ (vote.isReconfiguration = true ∧ vote.header.version.raw < 3) :=
    fun hold => not_lt.mpr (h.version hold.1) hold.2
  refine ⟨[replicate (Header.baseSize vote.header.version) 0,
    if vote.header.version.raw ≥ 2 then cookie else [],
    if vote.header.version.raw ≥ 3 then
      [if vote.isReconfiguration then 1 else 0] ++ (members ++ []) else [],
    if vote.header.version.raw ≥ 5 then [if vote.relinquishPrimary then 1 else 0] else []], ?_, ?_⟩
  · rw [written, ← hmembersLen, ← hcookieLen]
    simp only [flatten_cons, flatten_nil, length_append, length_replicate]
    split_ifs <;> simp <;> omega
  · refine (if_neg hold).trans (bind_congr fun memory => write_four rfl ?_ ?_ ?_ memory _)
    · rw [hcookie]
      exact writeIf_ok _ cookie
    · refine (congrArg (writeIf _) (concat_cons_ok rfl (concat_cons_ok (hmembers _ ?_) rfl))).trans
        (writeIf_ok _ _)
      intro set bytes hset hbytes
      rw [hset]
      exact hbytes
    · exact writeIf_ok _ _

/-- `Init` stays inside its buffer exactly if the vote fits it. -/
theorem Vote.exists_init_iff (h : Marshals fill vote) :
    (∃ built, init fill vote = .ok built) ↔ InitFits vote := by
  obtain ⟨parts, hlength, hinit⟩ := h.parts
  have hlt : minSize vote < word := by
    rw [minSize_eq]
    exact Nat.mod_lt _ (by decide)
  rw [InitFits, ← minSize_eq, ← hlength, hinit, addMemory_eq hlt]
  split_ifs with hround
  · rw [and_iff_right hround]
    have hroom := @exists_writeAll_iff
      ⟨inPages (max (minSize vote) (32 * 1024)), []⟩ (Nat.zero_le _) parts
    rw [length_nil, zero_add] at hroom
    rw [← hroom]
    constructor
    · rintro ⟨built, hbuilt⟩
      obtain ⟨_, ⟨⟩, hbuilt⟩ := bind_eq_ok.mp hbuilt
      obtain ⟨memory, hmemory, -⟩ := bind_eq_ok.mp hbuilt
      exact ⟨memory, hmemory⟩
    · rintro ⟨memory, hmemory⟩
      exact ⟨_, bind_eq_ok.mpr ⟨_, rfl, bind_eq_ok.mpr ⟨memory, hmemory, rfl⟩⟩⟩
  · refine ⟨?_, fun hfits => absurd hfits.1 hround⟩
    rintro ⟨_, ⟨⟩⟩

/-! ## Requests -/

/-- The last buffer is not overfull, and its length is one of 32 bits. -/
def Memory.Sound (memory : Memory) : Prop :=
  memory.bytes.length ≤ memory.bufferLength ∧ memory.bufferLength < word

theorem Memory.write_sound {memory memory' : Memory} {w : Writer} (h : memory.write w = .ok memory')
    (hlt : memory.bufferLength < word) : memory'.Sound := by
  obtain ⟨data, rfl, -⟩ := write_eq_ok h
  rw [write_eq] at h
  split_ifs at h with hroom
  cases h
  exact ⟨by rwa [length_append], hlt⟩

theorem Vote.addMemory_lt {minSize : Nat} (h : addMemory minSize = .ok memory) :
    memory.bufferLength < word := by
  rw [addMemory] at h
  split_ifs at h
  cases h
  show roundUpToSystemPage _ < word
  have hmod : (max minSize (32 * 1024) + 4095) % word < word := Nat.mod_lt _ (by decide)
  rw [roundUpToSystemPage]
  omega

theorem Vote.init_sound {built : BuiltVote}
    (h : init fill vote = .ok built) : built.back.Sound := by
  rw [init] at h
  split_ifs at h
  obtain ⟨memory₀, h₀, h⟩ := bind_eq_ok.mp h
  obtain ⟨memory₁, h₁, h⟩ := bind_eq_ok.mp h
  obtain ⟨memory₂, h₂, h⟩ := bind_eq_ok.mp h
  obtain ⟨memory₃, h₃, h⟩ := bind_eq_ok.mp h
  obtain ⟨memory₄, h₄, h⟩ := bind_eq_ok.mp h
  cases h
  have hlt := addMemory_lt h₀
  exact write_sound h₄ (write_sound h₃ (write_sound h₂
    (write_sound h₁ hlt).2).2).2

theorem exists_writeRequest (req : Bytes) :
    ∃ bytes, writeRequest req = .ok bytes ∧ bytes.length = 4 + req.length :=
  ⟨_, rfl, writes_request req _ rfl⟩

/-- A request is added exactly if there is room for it in the buffer that it goes to. -/
theorem BuiltVote.exists_addRequest_iff_room {vote : BuiltVote}
    (hplain : vote.fields.isReconfiguration = false) :
    (∃ vote', vote.addRequest req = .ok vote') ↔
      ∃ roomy, vote.makeRoom ((req.length + 4) % word) = .ok roomy ∧
        roomy.back.bytes.length + (req.length + 4) ≤ roomy.back.bufferLength := by
  obtain ⟨bytes, hbytes, hlength⟩ := exists_writeRequest req
  rw [BuiltVote.addRequest, hplain, hbytes, add_comm req.length 4, ← hlength]
  constructor
  · rintro ⟨vote', h⟩
    obtain ⟨roomy, hroomy, h⟩ := bind_eq_ok.mp h
    obtain ⟨back, hback, -⟩ := bind_eq_ok.mp h
    rw [write_eq] at hback
    split_ifs at hback with hroom
    exact ⟨roomy, hroomy, hroom⟩
  · rintro ⟨roomy, hroomy, hroom⟩
    have hback := write_eq roomy.back bytes
    rw [if_pos hroom] at hback
    exact ⟨_, bind_eq_ok.mpr ⟨roomy, hroomy, bind_eq_ok.mpr ⟨_, hback, rfl⟩⟩⟩

/-- The new buffer, with the bytes of the last page in it. -/
theorem BuiltVote.exists_makeRoom_iff {vote : BuiltVote} {spaceNeeded : Nat}
    (hfull : vote.back.bufferLength < (spaceNeeded + vote.back.bytes.length) % word) (len : Nat) :
    (∃ roomy, vote.makeRoom spaceNeeded = .ok roomy ∧
        roomy.back.bytes.length + len ≤ roomy.back.bufferLength) ↔
      (spaceNeeded + vote.back.bytes.length % 4096) % word + 4096 ≤ word ∧
        vote.back.bytes.length % 4096 + len ≤
          inPages (max ((spaceNeeded + vote.back.bytes.length % 4096) % word) (32 * 1024)) := by
  have hmoved : (vote.back.bytes.drop
      (vote.back.bytes.length - vote.back.bytes.length % 4096)).length =
        vote.back.bytes.length % 4096 := by
    rw [length_drop]
    omega
  rw [BuiltVote.makeRoom]
  simp only [if_pos hfull, addMemory_eq (Nat.mod_lt _ (by decide : 0 < word))]
  constructor
  · rintro ⟨roomy, hroomy, hroom⟩
    obtain ⟨newMemory, hnew, hroomy⟩ := bind_eq_ok.mp hroomy
    split_ifs at hnew with hround
    cases hnew
    cases hroomy
    rw [hmoved] at hroom
    exact ⟨hround, hroom⟩
  · rintro ⟨hround, hroom⟩
    rw [if_pos hround]
    refine ⟨_, bind_eq_ok.mpr ⟨_, rfl, rfl⟩, ?_⟩
    rwa [hmoved]

/-- A request fits the buffer that it goes to. -/
theorem BuiltVote.exists_addRequest_iff {vote : BuiltVote}
    (hplain : vote.fields.isReconfiguration = false) (hsound : vote.back.Sound)
    (hreq : req.length < word) :
    (∃ vote', vote.addRequest req = .ok vote') ↔ RequestFits vote.back.room req.length := by
  have hword := word_eq
  obtain ⟨hle, hlt⟩ := hsound
  rw [exists_addRequest_iff_room hplain, requestFits_iff]
  by_cases hfull : vote.back.bufferLength <
    ((req.length + 4) % word + vote.back.bytes.length) % word
  · rw [exists_makeRoom_iff hfull]
    have hpage := Nat.mod_lt vote.back.bytes.length (by decide : 0 < 4096)
    rcases lt_or_ge (req.length + 4) word with hshort | hlong
    · -- The count does not wrap, and so the end of the request does not either.
      have hend : req.length + 4 + vote.back.bytes.length < word := by
        rw [Nat.mod_eq_of_lt hshort, hword] at hfull
        rw [hword] at hshort hlt ⊢
        omega
      rw [Nat.mod_eq_of_lt hshort, Nat.mod_eq_of_lt hend] at hfull
      have hmoved : req.length + 4 + vote.back.bytes.length % 4096 < word :=
        lt_of_le_of_lt (Nat.add_le_add_left (Nat.mod_le _ _) _) hend
      rw [Nat.mod_eq_of_lt hshort, Nat.mod_eq_of_lt hmoved]
      have hpages := le_inPages (max (req.length + 4 + vote.back.bytes.length % 4096) (32 * 1024))
      omega
    · -- The count wraps to a few bytes: the new buffer is the least there is.
      have hwrap : (req.length + 4) % word = req.length + 4 - word := by
        rw [Nat.mod_eq_sub_mod hlong, Nat.mod_eq_of_lt (by omega)]
      have hleast :
          max (((req.length + 4) % word + vote.back.bytes.length % 4096) % word) (32 * 1024) =
          32 * 1024 := by
        rw [hwrap, Nat.mod_eq_of_lt (by omega)]
        omega
      have hleast' : inPages (32 * 1024) = 32 * 1024 := by decide
      rw [hleast, hleast']
      omega
  · have hroom : vote.makeRoom ((req.length + 4) % word) = .ok vote := if_neg hfull
    rw [hroom]
    -- The last buffer, which has the room if the end does not wrap.
    constructor
    · rintro ⟨_, ⟨⟩, hfits⟩
      exact ⟨by omega, .inl hfits⟩
    · rintro ⟨hend, -⟩
      rw [Nat.mod_eq_of_lt (show req.length + 4 < word by omega),
        Nat.mod_eq_of_lt (by omega)] at hfull
      exact ⟨vote, rfl, by omega⟩

theorem BuiltVote.addRequest_sound {vote vote' : BuiltVote} (hsound : vote.back.Sound)
    (h : vote.addRequest req = .ok vote') :
    vote'.back.Sound ∧ vote'.fields.isReconfiguration = false := by
  rw [BuiltVote.addRequest] at h
  split_ifs at h with hreconf
  obtain ⟨roomy, hroomy, h⟩ := bind_eq_ok.mp h
  obtain ⟨back, hback, h⟩ := bind_eq_ok.mp h
  cases h
  rw [BuiltVote.makeRoom] at hroomy
  split_ifs at hroomy
  · obtain ⟨newMemory, hnew, hroomy⟩ := bind_eq_ok.mp hroomy
    cases hroomy
    have hlt := addMemory_lt hnew
    exact ⟨write_sound hback hlt, by simpa using hreconf⟩
  · cases hroomy
    exact ⟨write_sound hback hsound.2, by simpa using hreconf⟩

theorem BuiltVote.addRequest_room {vote vote' : BuiltVote} (hsound : vote.back.Sound)
    (hreq : req.length < word) (h : vote.addRequest req = .ok vote') :
    vote'.back.room = vote.back.room.add req.length := by
  have hplain : vote.fields.isReconfiguration = false := by
    rw [BuiltVote.addRequest] at h
    split_ifs at h with hreconf
    simpa using hreconf
  have hend := (requestFits_iff.mp ((exists_addRequest_iff hplain hsound hreq).mp ⟨vote', h⟩)).1
  obtain ⟨bytes, hbytes, hlength⟩ := exists_writeRequest req
  rw [BuiltVote.addRequest, hplain, hbytes] at h
  obtain ⟨roomy, hroomy, h⟩ := bind_eq_ok.mp h
  obtain ⟨back, hback, h⟩ := bind_eq_ok.mp h
  cases h
  rw [write_eq] at hback
  split_ifs at hback
  cases hback
  have hmoved : vote.back.bytes.length % 4096 ≤ vote.back.bytes.length := Nat.mod_le _ _
  have hspace : (req.length + 4) % word = req.length + 4 := Nat.mod_eq_of_lt (by omega)
  have hused : (req.length + 4 + vote.back.bytes.length) % word =
      vote.back.bytes.length + (req.length + 4) := by
    rw [Nat.mod_eq_of_lt (by omega), add_comm]
  have hnew : (req.length + 4 + vote.back.bytes.length % 4096) % word =
      vote.back.bytes.length % 4096 + (req.length + 4) := by
    rw [Nat.mod_eq_of_lt (by omega), add_comm]
  rw [BuiltVote.makeRoom, hspace] at hroomy
  simp only [hused, hnew] at hroomy
  rw [Room.add]
  show Room.mk _ (_ ++ _ : Bytes).length =
    if vote.back.bytes.length + _ ≤ vote.back.bufferLength then _ else _
  by_cases hfull : vote.back.bufferLength < vote.back.bytes.length + (req.length + 4)
  · rw [if_pos hfull] at hroomy
    obtain ⟨newMemory, hmemory, hroomy⟩ := bind_eq_ok.mp hroomy
    rw [addMemory_eq (by omega)] at hmemory
    split_ifs at hmemory
    cases hmemory
    cases hroomy
    rw [if_neg (not_le.mpr hfull), length_append, length_drop, hlength, add_comm 4,
      Nat.sub_sub_self hmoved]
    rfl
  · rw [if_neg hfull] at hroomy
    cases hroomy
    rw [if_pos (not_lt.mp hfull), length_append, hlength, add_comm 4]
    rfl

/-- Requests are added exactly if they all fit. -/
theorem BuiltVote.exists_addRequests_iff {requests : List Bytes}
    (hreqs : ∀ req ∈ requests, req.length < word) {vote : BuiltVote} (hsound : vote.back.Sound)
    (hplain : vote.fields.isReconfiguration = true → requests = []) :
    (∃ vote', requests.foldlM BuiltVote.addRequest vote = .ok vote') ↔
      RequestsFit vote.back.room (requests.map length) := by
  induction requests generalizing vote with
  | nil => exact ⟨fun _ => trivial, fun _ => ⟨vote, rfl⟩⟩
  | cons req requests ih =>
    obtain ⟨hreq, hreqs⟩ := forall_mem_cons.mp hreqs
    have hplain : vote.fields.isReconfiguration = false :=
      Bool.eq_false_iff.mpr fun hreconf => cons_ne_nil _ _ (hplain hreconf)
    rw [map_cons, RequestsFit, ← exists_addRequest_iff hplain hsound hreq, foldlM_cons]
    constructor
    · rintro ⟨vote', h⟩
      obtain ⟨next, hnext, h⟩ := bind_eq_ok.mp h
      obtain ⟨hsound', hplain'⟩ := addRequest_sound hsound hnext
      refine ⟨⟨next, hnext⟩, ?_⟩
      rw [← addRequest_room hsound hreq hnext]
      exact (ih hreqs hsound' (by simp [hplain'])).mp ⟨vote', h⟩
    · rintro ⟨⟨next, hnext⟩, hfit⟩
      obtain ⟨hsound', hplain'⟩ := addRequest_sound hsound hnext
      rw [← addRequest_room hsound hreq hnext] at hfit
      obtain ⟨vote', h⟩ := (ih hreqs hsound' (by simp [hplain'])).mpr hfit
      exact ⟨vote', bind_eq_ok.mpr ⟨next, hnext, h⟩⟩

theorem Memory.writeAll_eq_ok {memory memory' : Memory} {parts : List Bytes}
    (h : memory.writeAll parts = .ok memory') :
    memory' = { memory with bytes := memory.bytes ++ parts.flatten } := by
  induction parts generalizing memory with
  | nil =>
    cases h
    simp
  | cons data parts ih =>
    rw [writeAll, foldlM_cons, write_eq] at h
    split_ifs at h
    · rw [ih h, flatten_cons, append_assoc]
    · cases h

theorem Vote.init_room {start : BuiltVote} (hm : Marshals fill vote)
    (h : init fill vote = .ok start) :
    start.back.room = firstRoom vote ∧ start.fields.isReconfiguration = vote.isReconfiguration := by
  obtain ⟨parts, hlength, hinit⟩ := hm.parts
  rw [hinit, minSize_eq, addMemory_eq (Nat.mod_lt _ (by decide))] at h
  obtain ⟨memory, hmemory, h⟩ := bind_eq_ok.mp h
  split_ifs at hmemory
  cases hmemory
  obtain ⟨memory', hmemory', h⟩ := bind_eq_ok.mp h
  cases h
  rw [writeAll_eq_ok hmemory', room, firstRoom, ← hlength]
  exact ⟨rfl, rfl⟩

/-- The buffers of a vote hold what is written to them exactly if the sizes that are computed for
them can be rounded up, the pages have room for the bytes that `Init` writes, and the end of no
request wraps. -/
theorem vote_fits_iff {fill : Fill} {vote : Wire.Vote} (hm : Marshals fill vote)
    (hreqs : ∀ req ∈ vote.requests, req.length < word)
    (hplain : vote.isReconfiguration = true → vote.requests = []) :
    (∃ built, Vote.construct fill vote = .ok built) ↔
      Vote.InitFits vote ∧ RequestsFit (Vote.firstRoom vote) (vote.requests.map length) := by
  rw [← exists_init_iff hm]
  constructor
  · rintro ⟨built, h⟩
    obtain ⟨start, hstart, h⟩ := bind_eq_ok.mp h
    obtain ⟨hroom, hreconf⟩ := init_room hm hstart
    refine ⟨⟨start, hstart⟩, ?_⟩
    rw [← hroom]
    exact (BuiltVote.exists_addRequests_iff hreqs (init_sound hstart) (by rwa [hreconf])).mp
      ⟨built, h⟩
  · rintro ⟨⟨start, hstart⟩, hfit⟩
    obtain ⟨hroom, hreconf⟩ := init_room hm hstart
    rw [← hroom] at hfit
    obtain ⟨built, h⟩ :=
      (BuiltVote.exists_addRequests_iff hreqs (init_sound hstart) (by rwa [hreconf])).mpr hfit
    exact ⟨built, bind_eq_ok.mpr ⟨start, hstart, h⟩⟩

theorem marshals_plain (h : vote.isReconfiguration = false) :
    Marshals fill vote :=
  ⟨fun hreconf => Bool.noConfusion (h.symm.trans hreconf),
    fun hreconf => Bool.noConfusion (h.symm.trans hreconf)⟩

/-- A header that can be sent. -/
def requestHeader : Header := ⟨⟨6⟩, 0, 0, magicNumber, msgVote, ⟨[55]⟩, 3, 1, ⟨5, ⟨[55]⟩⟩, 0⟩

theorem vote_fits_twoRequests :
    ∃ built, Vote.construct (fun _ _ => 0)
      { newVote requestHeader [] false with requests := [[1], [2, 3]] } = .ok built :=
  (vote_fits_iff (marshals_plain rfl) (by decide) Bool.noConfusion).mpr
    ⟨⟨by decide, by decide⟩, ⟨by decide, by decide⟩, ⟨by decide, by decide⟩, trivial⟩

section

variable (hversion : 2 ≤ vote.header.version.raw)
  (hmembers : ∀ set ∈ vote.membersInNewConfiguration, set.members.length < 65536)

include hversion hmembers

/-- From version 2 on, with a number of members that fits a `UInt16`, `Init` counts all that it
writes except the byte of `m_relinquishPrimary`. -/
theorem Vote.written_eq_counted :
    written vote = counted vote + if vote.header.version.raw ≥ 5 then 1 else 0 := by
  have hset :
      (vote.membersInNewConfiguration.map (MemberSet.written · vote.header.version)).getD 0 =
      (vote.membersInNewConfiguration.map (·.size vote.header.version)).getD 0 := by
    cases hsome : vote.membersInNewConfiguration with
    | none => rfl
    | some set =>
      show MemberSet.written set _ = _
      rw [MemberSet.written, Nat.mod_eq_of_lt (hmembers set hsome), take_length]
      rfl
  rw [written, counted, hset, if_pos hversion]

/-- What the condition on `Init` says: the count does not reach the last page of the 32 bits, and
with a byte that is not counted it does not fill its pages. -/
theorem Vote.initFits_iff :
    InitFits vote ↔ counted vote + 4096 ≤ word ∧
      ¬ (5 ≤ vote.header.version.raw ∧ 32 * 1024 ≤ counted vote ∧ counted vote % 4096 = 0) := by
  have hword := word_eq
  rw [InitFits, written_eq_counted hversion hmembers, inPages, hword]
  generalize counted vote = counted
  split_ifs with hbyte
  · rw [and_iff_right (show 5 ≤ vote.header.version.raw from hbyte)]
    omega
  · rw [and_iff_left (not_and_of_not_left _ hbyte)]
    omega

end

/-- A primary cookie of 32591 bytes brings the count to 32 KB, and the flag is written behind the
buffer. -/
theorem not_initFits_cookie {cookie : Bytes} (h : cookie.length = 32591) :
    ¬ InitFits (newVote requestHeader cookie false) := by
  have hcounted : counted (newVote requestHeader cookie false) = 32 * 1024 := by
    show 172 + (4 + cookie.length) + 1 = _
    rw [h]
  rw [initFits_iff (by show 2 ≤ 6; decide) (fun set hset => by cases hset), hcounted]
  exact fun hfits => hfits.2 ⟨show 5 ≤ 6 by decide, by decide, by decide⟩

/-- With that cookie `Init` writes behind its buffer. A request whose length wraps is written behind
the end of a buffer too. -/
theorem not_vote_fits :
    (¬ ∃ built, Vote.construct (fun _ _ => 0) (newVote requestHeader (replicate 32591 0) false)
      = .ok built) ∧
    ∃ start, init (fun _ _ => 0) (newVote requestHeader [] false) = .ok start ∧
      ¬ ∃ built, start.addRequest (replicate 4294967295 0) = .ok built := by
  refine ⟨?_, ?_⟩
  · rintro ⟨built, h⟩
    obtain ⟨start, hstart, -⟩ := bind_eq_ok.mp h
    exact not_initFits_cookie length_replicate
      ((exists_init_iff (marshals_plain rfl)).mp ⟨start, hstart⟩)
  · have hm : Marshals (fun _ _ => 0) (newVote requestHeader [] false) := marshals_plain rfl
    obtain ⟨start, hstart⟩ := (exists_init_iff hm).mpr ⟨by decide, by decide⟩
    obtain ⟨hroom, hplain⟩ := init_room hm hstart
    refine ⟨start, hstart, ?_⟩
    rw [BuiltVote.exists_addRequest_iff hplain (init_sound hstart)
      (by rw [length_replicate]; decide), hroom, length_replicate]
    exact fun hfits => absurd hfits.1 (by decide)

end Rsl.Cpp
