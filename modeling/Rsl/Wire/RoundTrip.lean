import Rsl.Fingerprint
import Rsl.Wire.Writer

/-!
# The wire codec is a retraction

What the reader returns is `Readable`: its fields are in range, its ids are in the form their
version can carry, and fields a version does not carry have their defaults. A readable message that
the writer accepts is read back from its own bytes, up to the length and the checksum that the
writer fills in (`Msg.unmarshal_marshal`). Everything else follows: what the reader accepts can be
written and read again.
-/

set_option autoImplicit false

namespace Rsl.Wire

open Lib Parser Wire.Header
open List hiding replicate set

/-! ## Writers and the readers that undo them -/

/-- The writer succeeds, and the reader reads its bytes as `a`. -/
def Encodes {α : Type} (w : Writer) (p : Reader α) (a : α) : Prop :=
  ∃ bytes, w = .ok bytes ∧ Reads p bytes a

section Encodes

variable {α β : Type} {w : Writer} {ws : List Writer} {p : Reader α} {q : α → Reader β} {a : α}
  {b : β}

theorem encodes_nil (a : α) : Encodes (concat []) (pure a) a := ⟨[], rfl, reads_pure a⟩

theorem Encodes.cons (h : Encodes w p a) (hrest : Encodes (concat ws) (q a) b) :
    Encodes (concat (w :: ws)) (p >>= q) b := by
  obtain ⟨first, hfirst, hreads⟩ := h
  obtain ⟨rest, hwrite, hreads'⟩ := hrest
  exact ⟨first ++ rest, by rw [concat, hfirst, hwrite]; rfl, hreads.bind hreads'⟩

/-- What follows a field in its reader may look at it and read nothing more. -/
theorem Encodes.andThen (h : Encodes w p a) (hq : Reads (q a) [] b) : Encodes w (p >>= q) b := by
  obtain ⟨bytes, hw, hreads⟩ := h
  refine ⟨bytes, hw, ?_⟩
  have hboth := hreads.bind hq
  rwa [append_nil] at hboth

theorem Encodes.check {c : Bool} (hc : c = true) {q : Unit → Reader β} (h : Encodes w (q ()) b) :
    Encodes w (check c >>= q) b := by
  obtain ⟨bytes, hw, hreads⟩ := h
  exact ⟨bytes, hw, hreads.check hc⟩

theorem Encodes.ofOption {o : Option α} (ho : o = some a) (h : Encodes w (q a) b) :
    Encodes w (ofOption o >>= q) b := by
  obtain ⟨bytes, hw, hreads⟩ := h
  exact ⟨bytes, hw, hreads.ofOption ho⟩

/-- A field that its version may not carry. -/
theorem encodes_if {c : Bool} {default : α} (hpresent : c = true → Encodes w p a)
    (habsent : c = false → a = default) : Encodes (writeIf c w) (readIf c p default) a := by
  cases c with
  | true => exact hpresent rfl
  | false =>
    rw [habsent rfl]
    exact encodes_nil default

theorem encodes_replicate {enc : α → Writer} {as : List α} (h : ∀ a ∈ as, Encodes (enc a) p a) :
    Encodes (concat (as.map enc)) (replicate p as.length) as := by
  induction as with
  | nil => exact encodes_nil []
  | cons a as ih =>
    rw [map_cons, length_cons]
    obtain ⟨first, hfirst, hreads⟩ := h a mem_cons_self
    obtain ⟨rest, hrest, hreads'⟩ := ih fun b hb => h b (mem_cons_of_mem a hb)
    exact ⟨first ++ rest, by rw [concat, hfirst, hrest]; rfl, hreads.bind (hreads'.map _)⟩

end Encodes

theorem length_leBytes (k n : Nat) : (leBytes k n).length = k := by
  induction k generalizing n with
  | zero => rfl
  | succ k ih => rw [leBytes, length_cons, ih]

theorem leNat_leBytes (k n : Nat) : leNat (leBytes k n) = n % 256 ^ k := by
  induction k generalizing n with
  | zero => rw [pow_zero, Nat.mod_one]; rfl
  | succ k ih =>
    have hbyte : (UInt8.ofNat n).toNat = n % 256 := UInt8.toNat_ofNat' ..
    rw [leBytes, leNat, ih, hbyte, pow_succ, mul_comm (256 ^ k), Nat.mod_mul]

/-- A number of `k` bytes is the bytes that write it. -/
theorem leBytes_leNat (bytes : Bytes) : leBytes bytes.length (leNat bytes) = bytes := by
  induction bytes with
  | nil => rfl
  | cons b bytes ih =>
    have hb : b.toNat < 256 := b.toNat_lt
    have hhead : UInt8.ofNat (b.toNat + 256 * leNat bytes) = b := by
      apply UInt8.toNat_inj.mp
      rw [UInt8.toNat_ofNat']
      omega
    have htail : (b.toNat + 256 * leNat bytes) / 256 = leNat bytes := by omega
    rw [length_cons, leNat, leBytes, hhead, htail, ih]

theorem encodes_leBytes {k n : Nat} (hn : n < 256 ^ k) :
    Encodes (.ok (leBytes k n)) (take k >>= fun bytes => pure (leNat bytes)) n := by
  refine ⟨_, rfl, ?_⟩
  have h := (reads_take (length_leBytes k n)).map leNat
  rwa [leNat_leBytes, Nat.mod_eq_of_lt hn] at h

variable {n : Nat} {v : ProtocolVersion} {bytes : Bytes} {vote : Vote} {w : Writer}

theorem encodes_u16 (hn : n < 65536) : Encodes (writeU16 n) readU16 n :=
  encodes_leBytes hn

theorem encodes_u32 (hn : n < 4294967296) : Encodes (writeU32 n) readU32 n :=
  encodes_leBytes hn

theorem encodes_u64 (hn : n < 18446744073709551616) : Encodes (writeU64 n) readU64 n :=
  encodes_leBytes hn

theorem encodes_bool (b : Bool) : Encodes (writeBool b) readBool b := by
  refine ⟨_, rfl, ?_⟩
  have h := (reads_take (n := 1) (w := [if b then (1 : UInt8) else 0]) rfl).map
    (fun bytes => leNat bytes != 0)
  cases b <;> exact h

theorem encodes_data {data : Bytes} (hn : data.length = n) :
    Encodes (writeData data) (take n) data :=
  ⟨data, rfl, reads_take hn⟩

/-! ## Member ids -/

/-- The decimal form of a number, with nothing for zero. -/
def decimal (n : Nat) : Bytes :=
  if n = 0 then [] else (Nat.toDigits 10 n).map fun c => UInt8.ofNat c.toNat

theorem toDigit_digitChar {d : Nat} (hd : d < 10) :
    toDigit 10 (UInt8.ofNat d.digitChar.toNat) = some d := by
  interval_cases d <;> rfl

/-- The digit loop computes the number whose digits it reads. -/
theorem readDigits_toDigits (n : Nat) (hn : n < 18446744073709551616) (rest : Bytes) :
    readDigits 10 0 false ((Nat.toDigits 10 n).map (fun c => UInt8.ofNat c.toNat) ++ rest)
      = readDigits 10 n false rest := by
  induction n using Nat.strongRecOn generalizing rest with
  | _ n ih =>
    rw [Nat.toDigits_eq_if (by decide)]
    by_cases hlt : n < 10
    · have hsmall : (0 * 10 % 18446744073709551616 + n) % 18446744073709551616 = n := by omega
      have hbound : ¬ 18446744073709551616 ≤ 0 * 10 % 18446744073709551616 + n := by omega
      rw [if_pos hlt, map_cons, map_nil, cons_append, nil_append, readDigits, toDigit_digitChar hlt]
      simp only [hsmall, hbound]
      rfl
    · -- All digits but the last spell `n / 10`.
      have hvalue : (n / 10 * 10 % 18446744073709551616 + n % 10) % 18446744073709551616 = n := by
        omega
      have hmul : ¬ 18446744073709551616 ≤ n / 10 * 10 := by omega
      have hadd : ¬ 18446744073709551616 ≤ n / 10 * 10 % 18446744073709551616 + n % 10 := by omega
      rw [if_neg hlt, map_append, append_assoc, ih (n / 10) (by omega) (by omega), map_cons,
        map_nil, cons_append, nil_append, readDigits, toDigit_digitChar (Nat.mod_lt n (by decide))]
      simp only [hvalue, hmul, hadd]
      rfl

/-- A number's first digit is not zero. -/
theorem toDigits_head (hn : 0 < n) :
    ∃ d tail, 0 < d ∧ d < 10 ∧ Nat.toDigits 10 n = d.digitChar :: tail := by
  induction n using Nat.strongRecOn with
  | _ n ih =>
    rw [Nat.toDigits_eq_if (by decide)]
    by_cases hlt : n < 10
    · exact ⟨n, [], hn, hlt, if_pos hlt⟩
    · obtain ⟨d, tail, hpos, hd, heq⟩ := ih (n / 10) (by omega) (by omega)
      exact ⟨d, tail ++ [(n % 10).digitChar], hpos, hd, by rw [if_neg hlt, heq]; rfl⟩

/-- What a number's first digit is not. -/
theorem first_digit {d : Nat} (hd : d < 10) (tail : Bytes) :
    (UInt8.ofNat d.digitChar.toNat :: tail).dropWhile isSpace
        = UInt8.ofNat d.digitChar.toNat :: tail ∧
      readSign (UInt8.ofNat d.digitChar.toNat :: tail)
        = (false, UInt8.ofNat d.digitChar.toNat :: tail) ∧
      (0 < d → readRadix (UInt8.ofNat d.digitChar.toNat :: tail)
        = (10, UInt8.ofNat d.digitChar.toNat :: tail)) := by
  interval_cases d <;> exact ⟨rfl, rfl, fun hpos => by first | rfl | cases hpos⟩

theorem parseMemberIdU64_decimal (hn : n < 18446744073709551616) :
    parseMemberIdU64 (decimal n) = some n := by
  rcases Nat.eq_zero_or_pos n with rfl | hpos
  · rfl
  · obtain ⟨d, tail, hdpos, hd, heq⟩ := toDigits_head hpos
    have hdigits := readDigits_toDigits n hn []
    rw [append_nil] at hdigits
    rw [decimal, if_neg (by omega)]
    rw [heq, map_cons] at hdigits ⊢
    obtain ⟨hspace, hsign, hradix⟩ :=
      first_digit hd (tail.map fun c => UInt8.ofNat c.toNat)
    simp only [parseMemberIdU64, hspace, hsign, hradix hdpos, hdigits, readDigits]
    simp

/-- An id that its version can carry: any short text without a zero byte, or a number in decimal. -/
def MemberId.Representable (v : ProtocolVersion) (id : MemberId) : Prop :=
  if v.memberIdIsFixed64 then id.value.length ≤ 63 ∧ 0 ∉ id.value
  else ∃ n < 18446744073709551616, id.value = decimal n

theorem takeWhile_padded {value : Bytes} (h : 0 ∉ value) (k : Nat) :
    (value ++ List.replicate k 0).takeWhile (· != 0) = value := by
  rw [takeWhile_append_of_pos]
  · cases k <;> simp [replicate_succ]
  · intro b hb
    simpa using ne_of_mem_of_not_mem hb h

theorem MemberId.encodes {id : MemberId} (h : id.Representable v) :
    Encodes (id.marshal v) (MemberId.unmarshal v) id := by
  rw [MemberId.Representable] at h
  rw [MemberId.marshal, MemberId.unmarshal]
  split
  · next hfixed =>
    rw [if_pos hfixed] at h
    obtain ⟨hlen, hzero⟩ := h
    rw [if_pos (by omega)]
    generalize hfield : id.value ++ List.replicate (64 - id.value.length) 0 = field
    have hlength : field.length = 64 := by
      rw [← hfield, length_append, length_replicate]
      omega
    have hterminated : field.contains 0 = true := by
      rw [← hfield, contains_iff_mem, mem_append, mem_replicate]
      exact .inr ⟨by omega, rfl⟩
    have hvalue : id = ⟨field.takeWhile (· != 0)⟩ := by rw [← hfield, takeWhile_padded hzero]
    refine (encodes_data hlength).andThen (.check hterminated ?_)
    rw [hvalue]
    exact reads_pure _
  · next hfixed =>
    rw [if_neg hfixed] at h
    obtain ⟨n, hn, hvalue⟩ := h
    rw [hvalue, parseMemberIdU64_decimal hn]
    refine (encodes_u64 hn).andThen ?_
    have hid : id = ⟨decimal n⟩ := congrArg MemberId.mk hvalue
    rw [hid]
    exact reads_pure _

/-- A ballot in range. -/
structure BallotNumber.WellFormed (v : ProtocolVersion) (ballot : BallotNumber) : Prop where
  ballotId : ballot.ballotId < 4294967296
  memberId : ballot.memberId.Representable v

theorem BallotNumber.encodes {ballot : BallotNumber}
    (h : ballot.WellFormed v) : Encodes (ballot.marshal v) (BallotNumber.unmarshal v) ballot :=
  (encodes_u32 h.ballotId).cons ((MemberId.encodes h.memberId).cons (encodes_nil _))

/-- A node in range, with the port that its version does not carry unset. -/
structure RslNode.WellFormed (v : ProtocolVersion) (node : RslNode) : Prop where
  memberId : node.memberId.Representable v
  ip : node.ip < 4294967296
  rslPort : node.rslPort < 65536
  rslLearnPort : node.rslLearnPort < 65536
  appPort : node.appPort < 65536
  hostName : node.hostName.length < 65536
  absent : if v.memberSetUsesLearnPort then node.appPort = 0 else node.rslLearnPort = 0

theorem RslNode.encodes {node : RslNode} (h : node.WellFormed v) :
    Encodes (node.marshal v) (RslNode.unmarshal v) node := by
  have hport : (if v.memberSetUsesLearnPort then node.rslLearnPort else node.appPort) < 65536 := by
    split
    · exact h.rslLearnPort
    · exact h.appPort
  refine (MemberId.encodes h.memberId).cons ((encodes_u32 h.ip).cons
    ((encodes_u16 h.rslPort).cons ((encodes_u16 hport).cons ((encodes_u16 h.hostName).cons
    ((encodes_data rfl).cons ?_)))))
  -- The port goes back to the field it came from.
  have hnode : node = if v.memberSetUsesLearnPort then
      ⟨node.memberId, node.ip, node.rslPort,
        if v.memberSetUsesLearnPort then node.rslLearnPort else node.appPort, 0, node.hostName⟩
      else ⟨node.memberId, node.ip, node.rslPort, 0,
        if v.memberSetUsesLearnPort then node.rslLearnPort else node.appPort, node.hostName⟩ := by
    have habsent := h.absent
    split at habsent <;> next hlearn => simp [hlearn, ← habsent]
  conv => rhs; rw [hnode]
  exact encodes_nil _

/-- A member set whose fields fit their length fields. -/
structure MemberSet.WellFormed (v : ProtocolVersion) (set : MemberSet) : Prop where
  members : set.members.length < 65536
  nodes : ∀ node ∈ set.members, node.WellFormed v
  cookie : set.cookie.length < 4294967296

/-- A member set that the reader accepts. -/
def MemberSet.Readable (v : ProtocolVersion) (set : MemberSet) : Prop :=
  set.WellFormed v ∧ set.cookie.length ≤ maxMemberSetCookieLen

theorem MemberSet.encodes {set : MemberSet} (h : set.Readable v) :
    Encodes (set.marshal v) (MemberSet.unmarshal v) set := by
  obtain ⟨hset, hcookie⟩ := h
  refine (encodes_u16 hset.members).cons
    ((encodes_replicate fun node hnode => RslNode.encodes (hset.nodes node hnode)).cons
    ((encodes_u32 hset.cookie).cons (.check (decide_eq_true hcookie) ?_)))
  exact (encodes_data rfl).cons (encodes_nil _)

/-- A header in range, with the standard magic number and the fields that its version does not
carry at their defaults. -/
structure Header.WellFormed (header : Header) : Prop where
  version : 1 ≤ header.version.raw ∧ header.version.raw ≤ 6
  checksum : header.checksum < 18446744073709551616
  magic : header.magic = magicNumber
  msgId : header.msgId < 65536
  memberId : header.memberId.Representable header.version
  decree : header.decree < 18446744073709551616
  configurationNumber : header.configurationNumber < 4294967296
  noConfigurationNumber :
    header.version.hasConfigurationNumber = false → header.configurationNumber = 1
  ballot : header.ballot.WellFormed header.version
  payload : header.payload < 18446744073709551616
  noPayload : header.version.hasPayload = false → header.payload = 0

theorem Header.encodes {header : Header} (h : header.WellFormed) {len : Nat}
    (hlen : len < 4294967296) (hbase : baseSize header.version ≤ len) :
    Encodes (header.write len) unmarshal { header with unMarshalLen := len } := by
  have hversion : ProtocolVersion.fromWire header.version.raw = some header.version := by
    rw [ProtocolVersion.fromWire, if_pos h.version]
  have hraw : header.version.raw < 65536 := h.version.2.trans_lt (by decide)
  have hmagic : header.magic < 4294967296 := by rw [h.magic]; decide
  refine (encodes_u16 hraw).cons (.ofOption hversion ((encodes_u32 hlen).cons
    ((encodes_u64 h.checksum).cons ((encodes_u32 hmagic).cons ((encodes_u16 h.msgId).cons
    ((MemberId.encodes h.memberId).cons ((encodes_u64 h.decree).cons
    ((encodes_if (fun _ => encodes_u32 h.configurationNumber) h.noConfigurationNumber).cons
    ((BallotNumber.encodes h.ballot).cons
    ((encodes_if (fun _ => encodes_u64 h.payload) h.noPayload).cons ?_))))))))))
  exact .check (decide_eq_true hbase) (.check (decide_eq_true h.magic) (encodes_nil _))

/-! ## How much is written -/

/-- The writer writes `n` bytes, if any. -/
def Writes (w : Writer) (n : Nat) : Prop := ∀ bytes, w = .ok bytes → bytes.length = n

theorem concat_cons_eq_ok {ws : List Writer} (h : concat (w :: ws) = .ok bytes) :
    ∃ first rest, w = .ok first ∧ concat ws = .ok rest ∧ bytes = first ++ rest := by
  rw [concat] at h
  cases hw : w with
  | error e => rw [hw] at h; cases h
  | ok first =>
    cases hws : concat ws with
    | error e => rw [hw, hws] at h; cases h
    | ok rest =>
      rw [hw, hws] at h
      cases h
      exact ⟨first, rest, rfl, rfl, rfl⟩

theorem writes_ok (bytes : Bytes) : Writes (.ok bytes) bytes.length := by
  rintro _ ⟨⟩
  rfl

theorem writes_error (e : WriteFailure) (n : Nat) : Writes (.error e) n := by
  rintro _ ⟨⟩

theorem Writes.cons {ws : List Writer} {n m : Nat} (h : Writes w n)
    (hrest : Writes (concat ws) m) : Writes (concat (w :: ws)) (n + m) := by
  intro bytes hbytes
  obtain ⟨first, rest, hfirst, hrest', rfl⟩ := concat_cons_eq_ok hbytes
  rw [length_append, h first hfirst, hrest rest hrest']

theorem writes_nil : Writes (concat []) 0 := writes_ok []

theorem writes_leBytes (k n : Nat) : Writes (.ok (leBytes k n)) k := by
  rintro _ ⟨⟩
  exact length_leBytes k n

theorem Writes.ite {c : Bool} (h : Writes w n) :
    Writes (writeIf c w) (if c then n else 0) := by
  cases c with
  | true => exact h
  | false => exact writes_ok []

theorem writes_map {α : Type} {enc : α → Writer} {size : α → Nat} {as : List α}
    (h : ∀ a ∈ as, Writes (enc a) (size a)) : Writes (concat (as.map enc)) (as.map size).sum := by
  induction as with
  | nil => exact writes_nil
  | cons a as ih =>
    rw [map_cons, map_cons, sum_cons]
    exact (h a mem_cons_self).cons (ih fun b hb => h b (mem_cons_of_mem a hb))

theorem MemberId.writes (id : MemberId) (v : ProtocolVersion) :
    Writes (id.marshal v) (baseSize v) := by
  rw [MemberId.marshal, baseSize]
  split
  · split
    · next hlen =>
      rintro _ ⟨⟩
      rw [length_append, length_replicate]
      omega
    · exact writes_error _ _
  · split
    · exact writes_leBytes 8 _
    · exact writes_error _ _

theorem BallotNumber.writes (ballot : BallotNumber) (v : ProtocolVersion) :
    Writes (ballot.marshal v) (baseSize v) :=
  (writes_leBytes 4 _).cons ((ballot.memberId.writes v).cons writes_nil)

/-- The bytes of a node in a member set. -/
def RslNode.size (v : ProtocolVersion) (node : RslNode) : Nat :=
  MemberId.baseSize v + 4 + 2 + 2 + 2 + node.hostName.length

theorem RslNode.writes (node : RslNode) (v : ProtocolVersion) :
    Writes (node.marshal v) (node.size v) := by
  have h := (node.memberId.writes v).cons ((writes_leBytes 4 node.ip).cons
    ((writes_leBytes 2 node.rslPort).cons
    ((writes_leBytes 2 (if v.memberSetUsesLearnPort then node.rslLearnPort else node.appPort)).cons
    ((writes_leBytes 2 node.hostName.length).cons ((writes_ok node.hostName).cons writes_nil)))))
  intro bytes hbytes
  rw [h bytes hbytes, size]
  omega

/-- The bytes of a member set. -/
def MemberSet.size (v : ProtocolVersion) (set : MemberSet) : Nat :=
  2 + ((set.members.map (·.size v)).sum + (4 + set.cookie.length))

theorem MemberSet.writes (set : MemberSet) (v : ProtocolVersion) :
    Writes (set.marshal v) (set.size v) :=
  (writes_leBytes 2 _).cons ((writes_map fun node _ => node.writes v).cons
    ((writes_leBytes 4 _).cons ((writes_ok set.cookie).cons writes_nil)))

/-- `marshal_len` counts the nodes' fixed parts and their names apart. -/
theorem MemberSet.marshalLen_eq (set : MemberSet) (v : ProtocolVersion) :
    set.marshalLen v = asU32 (set.size v) := by
  have hsum : ∀ nodes : List RslNode, (nodes.map (·.size v)).sum
      = (MemberId.baseSize v + 4 + 2 + 2 + 2) * nodes.length
        + (nodes.map fun node => node.hostName.length).sum := by
    intro nodes
    induction nodes with
    | nil => rfl
    | cons node nodes ih =>
      rw [map_cons, sum_cons, map_cons, sum_cons, ih, length_cons, Nat.mul_succ, RslNode.size]
      omega
  rw [marshalLen, size, hsum]
  congr 1
  omega

theorem Header.writes (header : Header) (len : Nat) :
    Writes (header.write len) (baseSize header.version) := by
  have h := (writes_leBytes 2 header.version.raw).cons ((writes_leBytes 4 len).cons
    ((writes_leBytes 8 header.checksum).cons ((writes_leBytes 4 header.magic).cons
    ((writes_leBytes 2 header.msgId).cons ((header.memberId.writes header.version).cons
    ((writes_leBytes 8 header.decree).cons
    ((Writes.ite (c := header.version.hasConfigurationNumber)
      (writes_leBytes 4 header.configurationNumber)).cons
    ((header.ballot.writes header.version).cons
    ((Writes.ite (c := header.version.hasPayload) (writes_leBytes 8 header.payload)).cons
      writes_nil)))))))))
  intro bytes hbytes
  rw [h bytes hbytes, baseSize]
  omega

/-- The bytes of a vote after its header. -/
def Vote.bodySize (vote : Vote) : Nat :=
  let v := vote.header.version
  (if v.hasPrimaryCookie then 4 + vote.primaryCookie.length else 0) +
    ((if v.hasReconfiguration then
      1 + (if vote.isReconfiguration then
        (vote.membersInNewConfiguration.map (·.size v)).getD 0 else 0)
    else 0) +
    ((if v.hasRelinquishPrimary then 1 else 0) +
      (vote.requests.map fun req => 4 + req.length).sum))

/-- The bytes of a vote. -/
def Vote.size (vote : Vote) : Nat := baseSize vote.header.version + vote.bodySize

theorem writes_primaryCookie (cookie : Bytes) :
    Writes (writePrimaryCookie cookie) (4 + cookie.length) :=
  (writes_leBytes 4 _).cons ((writes_ok cookie).cons writes_nil)

theorem Vote.writes (vote : Vote) : Writes vote.writeTo vote.size := by
  rw [writeTo]
  split
  · exact writes_error _ _
  · split
    · exact writes_error _ _
    · refine (vote.header.writes vote.marshalLen).cons
        ((writes_primaryCookie vote.primaryCookie).ite.cons
        (((writes_ok [if vote.isReconfiguration then 1 else 0]).cons
          ((Writes.ite ?_).cons writes_nil)).ite.cons
        ((writes_ok [if vote.relinquishPrimary then 1 else 0]).ite.cons
        ((writes_map fun req _ => (writes_leBytes 4 _).cons ((writes_ok req).cons writes_nil)).cons
          writes_nil))))
      cases vote.membersInNewConfiguration with
      | none => exact writes_error _ _
      | some set => exact set.writes vote.header.version

theorem asU32_sum {α : Type} (f : α → Nat) (as : List α) :
    asU32 (as.map fun a => 4 + asU32 (f a)).sum = asU32 (as.map fun a => 4 + f a).sum := by
  induction as with
  | nil => rfl
  | cons a as ih =>
    simp only [asU32, map_cons, sum_cons] at ih ⊢
    omega

theorem Vote.marshalLen_eq (vote : Vote) : vote.marshalLen = asU32 vote.size := by
  have hrequests := asU32_sum length vote.requests
  have hset : asU32 ((vote.membersInNewConfiguration.map
        (·.marshalLen vote.header.version)).getD 0)
      = asU32 ((vote.membersInNewConfiguration.map (·.size vote.header.version)).getD 0) := by
    cases vote.membersInNewConfiguration with
    | none => rfl
    | some set => simp [MemberSet.marshalLen_eq, asU32]
  simp only [marshalLen, bodyLen, size, bodySize]
  generalize (vote.requests.map fun req => 4 + asU32 req.length).sum = wrapped at *
  generalize (vote.requests.map fun req => 4 + req.length).sum = exact at *
  generalize (vote.membersInNewConfiguration.map (·.marshalLen vote.header.version)).getD 0
    = setLen at *
  generalize (vote.membersInNewConfiguration.map (·.size vote.header.version)).getD 0
    = setSize at *
  simp only [asU32] at *
  -- Wrapping every sum or only the last makes no difference.
  repeat' split
  all_goals omega

/-- The bytes of a message. -/
def Msg.size : Msg → Nat
  | .base header => baseSize header.version
  | .vote m => m.size
  | .join m => m.marshalLen
  | .prepare m =>
    baseSize m.header.version +
      (if m.header.version.hasPrimaryCookie then 4 + m.primaryCookie.length else 0)
  | .prepareAccepted m => baseSize m.header.version + m.vote.size
  | .statusResponse m => m.marshalLen
  | .bootstrap m => baseSize m.header.version + m.memberSet.size m.header.version

theorem Msg.writes (m : Msg) : Writes m.write m.size := by
  cases m with
  | base header => exact header.writes _
  | vote m => exact m.writes
  | join m =>
    have h := (m.header.writes m.marshalLen).cons ((writes_leBytes 2 m.learnPort).cons
      ((writes_leBytes 8 m.minDecreeInLog).cons ((writes_leBytes 8 m.checkpointedDecree).cons
      ((writes_leBytes 8 m.checkpointSize).cons writes_nil))))
    intro bytes hbytes
    rw [h bytes hbytes, size, JoinMessage.marshalLen]
  | prepare m =>
    exact (m.header.writes m.marshalLen).cons ((writes_primaryCookie m.primaryCookie).ite.cons
      writes_nil)
  | prepareAccepted m => exact (m.header.writes m.marshalLen).cons (m.vote.writes.cons writes_nil)
  | statusResponse m =>
    have h := (m.header.writes m.marshalLen).cons ((writes_leBytes 8 m.queryDecree).cons
      ((m.queryBallot.writes m.header.version).cons ((writes_leBytes 8 m.lastReceivedAgo).cons
      ((writes_leBytes 8 m.minDecreeInLog).cons ((writes_leBytes 8 m.checkpointedDecree).cons
      ((writes_leBytes 8 m.checkpointSize).cons ((m.maxBallot.writes m.header.version).cons
      ((writes_leBytes 4 m.state).cons writes_nil))))))))
    intro bytes hbytes
    rw [h bytes hbytes, size, StatusResponse.marshalLen]
    omega
  | bootstrap m =>
    exact (m.header.writes m.marshalLen).cons
      ((m.memberSet.writes m.header.version).cons writes_nil)

theorem Header.baseSize_le (v : ProtocolVersion) : 48 ≤ baseSize v ∧ baseSize v ≤ 172 := by
  simp only [baseSize, BallotNumber.baseSize, MemberId.baseSize]
  split <;> split <;> split <;> omega

/-- The length field of a message is its size, as far as the field can hold it. -/
theorem Msg.marshalLen_eq (m : Msg) : m.marshalLen = asU32 m.size := by
  cases m with
  | base header =>
    have := baseSize_le header.version
    rw [marshalLen, size, asU32]
    omega
  | vote m => exact m.marshalLen_eq
  | join m =>
    have := baseSize_le m.header.version
    rw [marshalLen, size, asU32, JoinMessage.marshalLen]
    omega
  | prepare m =>
    rw [marshalLen, size, PrepareMsg.marshalLen]
    simp only [asU32]
    split <;> omega
  | prepareAccepted m =>
    rw [marshalLen, size, PrepareAccepted.marshalLen, Vote.marshalLen_eq]
    simp only [asU32]
    omega
  | statusResponse m =>
    have hbase := baseSize_le m.header.version
    have hballot : BallotNumber.baseSize m.header.version ≤ 68 := by
      rw [BallotNumber.baseSize, MemberId.baseSize]
      split <;> omega
    rw [marshalLen, size, asU32, StatusResponse.marshalLen]
    omega
  | bootstrap m =>
    rw [marshalLen, size, BootstrapMsg.marshalLen, MemberSet.marshalLen_eq]
    simp only [asU32]
    omega

theorem asU32_lt (n : Nat) : asU32 n < 4294967296 := Nat.mod_lt n (by decide)

/-! ## Votes -/

/-- A vote with the id of its kind, in range, with requests that are not empty and with the fields
that its version does not carry at their defaults. -/
structure Vote.WellFormed (vote : Vote) : Prop where
  header : vote.header.WellFormed
  msgId : vote.header.msgId = msgVote
  primaryCookie : vote.primaryCookie.length < 4294967296
  noPrimaryCookie : vote.header.version.hasPrimaryCookie = false → vote.primaryCookie = []
  noReconfiguration : vote.header.version.hasReconfiguration = false →
    vote.isReconfiguration = false ∧ vote.membersInNewConfiguration = none
  members : ∀ set, vote.membersInNewConfiguration = some set → set.WellFormed vote.header.version
  noRelinquishPrimary :
    vote.header.version.hasRelinquishPrimary = false → vote.relinquishPrimary = false
  requests : ∀ req ∈ vote.requests, 0 < req.length ∧ req.length < 4294967296

/-- A vote that the reader may return. -/
structure Vote.Readable (vote : Vote) : Prop where
  wellFormed : vote.WellFormed
  cookie : ∀ set, vote.membersInNewConfiguration = some set →
    set.cookie.length ≤ maxMemberSetCookieLen
  members : vote.isReconfiguration = vote.membersInNewConfiguration.isSome
  size : vote.size < 4294967296

theorem encodes_primaryCookie {cookie : Bytes} (h : cookie.length < 4294967296) :
    Encodes (writePrimaryCookie cookie) readPrimaryCookie cookie := by
  refine (encodes_u32 h).cons ?_
  rcases cookie with _ | ⟨b, bs⟩
  · exact ⟨[], rfl, reads_pure []⟩
  · have hdata : Encodes (writeData (b :: bs)) (take (b :: bs).length) (b :: bs) := encodes_data rfl
    obtain ⟨bytes, hbytes, hreads⟩ := hdata
    refine ⟨bytes, ?_, ?_⟩
    · rw [concat, hbytes, concat]
      simp [bind, Except.bind, pure, Except.pure]
    · rw [if_neg (by simp)]
      exact hreads

/-- The requests are read until the vote ends. -/
theorem readRequests_concat {requests : List Bytes}
    (h : ∀ req ∈ requests, 0 < req.length ∧ req.length < 4294967296)
    (hwrite : concat (requests.map fun req => concat [writeU32 req.length, writeData req])
      = .ok bytes) {fuel : Nat} (hfuel : requests.length ≤ fuel) :
    readRequests fuel bytes = some (requests, []) := by
  induction requests generalizing bytes fuel with
  | nil =>
    cases hwrite
    cases fuel <;> rfl
  | cons req requests ih =>
    obtain ⟨hpos, hlt⟩ := h req mem_cons_self
    obtain ⟨first, rest, hfirst, hrest, rfl⟩ := concat_cons_eq_ok hwrite
    obtain ⟨len, tail, hlen, htail, rfl⟩ := concat_cons_eq_ok hfirst
    obtain ⟨data, ending, hdata, hend, rfl⟩ := concat_cons_eq_ok htail
    cases hend
    cases hdata
    cases fuel with
    | zero => exact absurd hfuel (by simp)
    | succ fuel =>
      have hlenEq : (leBytes 4 req.length) = len := by cases hlen; rfl
      have hnonempty : (len ++ (req ++ []) ++ rest).isEmpty = false := by
        rw [← hlenEq]
        rfl
      obtain ⟨len', hlen', hreads⟩ := encodes_u32 hlt
      cases hlen.symm.trans hlen'
      rw [append_nil, append_assoc] at *
      refine bind_eq_some.mpr ⟨_, _, rfl, ?_⟩
      rw [if_neg (by rw [hnonempty]; decide)]
      refine bind_eq_some.mpr ⟨_, _, hreads _, ?_⟩
      have hcheck : (req.length != 0) = true := by simpa using hpos.ne'
      refine bind_eq_some.mpr ⟨(), _, by rw [Parser.check, if_pos hcheck], ?_⟩
      refine bind_eq_some.mpr ⟨_, _, reads_take rfl _, ?_⟩
      refine bind_eq_some.mpr ⟨_, _, ih (fun r hr => h r (mem_cons_of_mem _ hr)) hrest
        (Nat.le_of_succ_le_succ hfuel), rfl⟩

theorem length_le_sum (requests : List Bytes) :
    requests.length ≤ (requests.map fun req => 4 + req.length).sum := by
  induction requests with
  | nil => exact le_refl 0
  | cons req requests ih =>
    rw [length_cons, map_cons, sum_cons]
    omega

/-- The reconfiguration byte and the member set after it, which the reader reads in two steps. -/
theorem Vote.reads_reconfiguration (h : vote.Readable) {w : Writer}
    (hwrite : writeIf vote.header.version.hasReconfiguration (concat
      [writeBool vote.isReconfiguration, writeIf vote.isReconfiguration w]) = .ok bytes)
    (hencodes : ∀ set, vote.membersInNewConfiguration = some set →
      Encodes w (MemberSet.unmarshal vote.header.version) set) :
    ∃ flag set, bytes = flag ++ set ∧
      Reads (readIf vote.header.version.hasReconfiguration readBool false) flag
        vote.isReconfiguration ∧
      Reads (readIf vote.isReconfiguration
        (some <$> MemberSet.unmarshal vote.header.version) none) set
        vote.membersInNewConfiguration := by
  have hmembers := h.members
  cases hversion : vote.header.version.hasReconfiguration with
  | false =>
    obtain ⟨hnot, hnone⟩ := h.wellFormed.noReconfiguration hversion
    rw [hversion] at hwrite
    cases hwrite
    rw [hnot, hnone]
    exact ⟨[], [], rfl, reads_pure false, reads_pure none⟩
  | true =>
    obtain ⟨flag, hflag, hreads⟩ := encodes_bool vote.isReconfiguration
    rw [hversion] at hwrite
    obtain ⟨_, rest, hfirst, hrest, rfl⟩ := concat_cons_eq_ok hwrite
    obtain ⟨set, _, hset, hend, rfl⟩ := concat_cons_eq_ok hrest
    cases hfirst.symm.trans hflag
    cases hend
    refine ⟨_, set, by rw [append_nil], hreads, ?_⟩
    cases hnew : vote.membersInNewConfiguration with
    | none =>
      rw [hmembers, hnew] at hset ⊢
      cases hset
      exact reads_pure none
    | some members =>
      rw [hmembers, hnew] at hset ⊢
      obtain ⟨_, hbytes, hreadSet⟩ := hencodes members hnew
      cases hset.symm.trans hbytes
      exact hreadSet.map some

/-- The body of a vote is read from the bytes of its parts. -/
theorem Vote.readBody_parts (h : vote.Readable) {cookie flag set relinquish requests : Bytes}
    (hcookie : Reads (readIf vote.header.version.hasPrimaryCookie readPrimaryCookie []) cookie
      vote.primaryCookie)
    (hflag : Reads (readIf vote.header.version.hasReconfiguration readBool false) flag
      vote.isReconfiguration)
    (hset : Reads (readIf vote.isReconfiguration
      (some <$> MemberSet.unmarshal vote.header.version) none) set vote.membersInNewConfiguration)
    (hrelinquish : Reads (readIf vote.header.version.hasRelinquishPrimary readBool false) relinquish
      vote.relinquishPrimary)
    (hrequests : concat (vote.requests.map fun req => concat [writeU32 req.length, writeData req]) =
      .ok requests) (stamped : Header) (hversion : stamped.version = vote.header.version) :
    Vote.readBody stamped (cookie ++ (flag ++ (set ++ (relinquish ++ requests)))) =
      some ({ vote with header := stamped }, []) := by
  have hfuel : vote.requests.length ≤ requests.length := by
    rw [(writes_map fun req _ => (writes_leBytes 4 _).cons ((writes_ok req).cons writes_nil))
      requests hrequests]
    exact length_le_sum vote.requests
  rw [Vote.readBody, hversion]
  refine bind_eq_some.mpr ⟨_, _, hcookie _, ?_⟩
  refine bind_eq_some.mpr ⟨_, _, hflag _, ?_⟩
  refine bind_eq_some.mpr ⟨_, _, hset _, ?_⟩
  refine bind_eq_some.mpr ⟨_, _, hrelinquish _, ?_⟩
  refine bind_eq_some.mpr ⟨_, _, rfl, ?_⟩
  exact bind_eq_some.mpr ⟨_, _, readRequests_concat h.wellFormed.requests hrequests hfuel, rfl⟩

/-- What the writer accepts. -/
theorem Vote.writeTo_eq_ok (h : vote.writeTo = .ok bytes) :
    ∃ header body, vote.header.write vote.marshalLen = .ok header ∧ bytes = header ++ body ∧
      concat
        [writeIf vote.header.version.hasPrimaryCookie (writePrimaryCookie vote.primaryCookie),
          writeIf vote.header.version.hasReconfiguration (concat
            [writeBool vote.isReconfiguration,
              writeIf vote.isReconfiguration (match vote.membersInNewConfiguration with
                | some set => set.marshal vote.header.version
                | none => .error .panicked)]),
          writeIf vote.header.version.hasRelinquishPrimary (writeBool vote.relinquishPrimary),
          concat (vote.requests.map fun req => concat [writeU32 req.length, writeData req])]
        = .ok body := by
  rw [writeTo] at h
  split at h
  · cases h
  · split at h
    · cases h
    · obtain ⟨header, body, hheader, hbody, rfl⟩ := concat_cons_eq_ok h
      exact ⟨header, body, hheader, rfl, hbody⟩

/-- The body of a readable vote is read back, whatever header it is read with. -/
theorem Vote.readBody_write (h : vote.Readable) {header bytes : Bytes}
    (hheader : vote.header.write vote.marshalLen = .ok header)
    (hwrite : vote.writeTo = .ok (header ++ bytes)) (stamped : Header)
    (hversion : stamped.version = vote.header.version) :
    Vote.readBody stamped bytes = some ({ vote with header := stamped }, []) := by
  obtain ⟨header', body, hheader', heq, hbody⟩ := writeTo_eq_ok hwrite
  cases hheader.symm.trans hheader'
  obtain rfl := append_cancel_left heq
  obtain ⟨cookie, rest₁, hcookie, hrest₁, rfl⟩ := concat_cons_eq_ok hbody
  obtain ⟨reconf, rest₂, hreconf, hrest₂, rfl⟩ := concat_cons_eq_ok hrest₁
  obtain ⟨relinquish, rest₃, hrelinquish, hrest₃, rfl⟩ := concat_cons_eq_ok hrest₂
  obtain ⟨requests, ending, hrequests, hend, rfl⟩ := concat_cons_eq_ok hrest₃
  cases hend
  rw [append_nil]
  obtain ⟨_, hcookie', hreadCookie⟩ := encodes_if (w := writePrimaryCookie vote.primaryCookie)
    (p := readPrimaryCookie)
    (fun _ => encodes_primaryCookie h.wellFormed.primaryCookie) h.wellFormed.noPrimaryCookie
  cases hcookie.symm.trans hcookie'
  obtain ⟨flag, set, rfl, hreadFlag, hreadSet⟩ := reads_reconfiguration h hreconf
    fun set hset => by
      rw [hset]
      exact MemberSet.encodes ⟨h.wellFormed.members set hset, h.cookie set hset⟩
  obtain ⟨_, hrelinquish', hreadRelinquish⟩ := encodes_if (w := writeBool vote.relinquishPrimary)
    (p := readBool)
    (fun _ => encodes_bool vote.relinquishPrimary) h.wellFormed.noRelinquishPrimary
  cases hrelinquish.symm.trans hrelinquish'
  rw [append_assoc flag]
  exact readBody_parts h hreadCookie hreadFlag hreadSet hreadRelinquish hrequests stamped hversion

/-- A readable vote that the writer accepts is read back from its bytes, with their length. -/
theorem Vote.unmarshal_writeTo (h : vote.Readable) (hwrite : vote.writeTo = .ok bytes) :
    Vote.unmarshal bytes
      = some { vote with header := { vote.header with unMarshalLen := vote.marshalLen } } := by
  have hlen : vote.marshalLen = vote.size := by
    rw [marshalLen_eq, asU32, Nat.mod_eq_of_lt h.size]
  have hsize : bytes.length = vote.marshalLen := by rw [vote.writes bytes hwrite, hlen]
  have hbase : baseSize vote.header.version ≤ vote.marshalLen := by
    rw [hlen, Vote.size]
    omega
  obtain ⟨header, body, hheader, rfl, -⟩ := writeTo_eq_ok hwrite
  obtain ⟨header', hheader', hreads⟩ :=
    encodes h.wellFormed.header (by rw [hlen]; exact h.size) hbase
  cases hheader.symm.trans hheader'
  have hbody := readBody_write h hheader hwrite
    { vote.header with unMarshalLen := vote.marshalLen } rfl
  have hparse : unmarshalBase (header ++ body)
      = some { vote.header with unMarshalLen := vote.marshalLen } := by
    rw [unmarshalBase, hreads body]
    rfl
  have hdrop : (header ++ body).drop (baseSize vote.header.version) = body :=
    drop_left' (vote.header.writes _ header hheader)
  rw [Vote.unmarshal, hparse]
  simp only [Option.bind_eq_bind, Option.bind_some]
  rw [if_neg (by simp [h.wellFormed.msgId, hsize]), take_of_length_le (by omega), hdrop, hbody]
  rfl

/-! ## Messages -/

namespace Msg

/-- `Msg::header`. -/
def header : Msg → Header
  | .base h => h
  | .vote m => m.header
  | .join m => m.header
  | .prepare m => m.header
  | .prepareAccepted m => m.header
  | .statusResponse m => m.header
  | .bootstrap m => m.header

/-- The parser that reads messages of this kind. -/
def kind : Msg → MsgKind
  | .base _ => .base
  | .vote _ => .vote
  | .join _ => .join
  | .prepare _ => .prepare
  | .prepareAccepted _ => .prepareAccepted
  | .statusResponse _ => .statusResponse
  | .bootstrap _ => .bootstrap

/-- The header as the writer completes it. -/
def stampHeader (h : Header) (len checksum : Nat) : Header :=
  { h with unMarshalLen := len, checksum := checksum }

/-- The vote inside another message, with its length filled in. -/
def stampNested (vote : Vote) : Vote :=
  { vote with header := { vote.header with unMarshalLen := vote.marshalLen } }

/-- The message as the writer completes it: with its length, the length of a vote inside it, and the
given checksum. -/
def stamped (m : Msg) (checksum : Nat) : Msg :=
  let stamp := fun h => stampHeader h m.marshalLen checksum
  match m with
  | .base h => .base (stamp h)
  | .vote v => .vote { v with header := stamp v.header }
  | .join j => .join { j with header := stamp j.header }
  | .prepare p => .prepare { p with header := stamp p.header }
  | .prepareAccepted a =>
    .prepareAccepted { a with header := stamp a.header, vote := stampNested a.vote }
  | .statusResponse r => .statusResponse { r with header := stamp r.header }
  | .bootstrap b => .bootstrap { b with header := stamp b.header }

end Msg

variable {bytes : Bytes}

/-- The checksum field of a written header, and what stands around it. -/
theorem Header.write_eq_ok {header : Header} {len : Nat} (h : header.write len = .ok bytes)
    (unMarshalLen : Nat) :
    ∃ tail, bytes = leBytes 2 header.version.raw ++ leBytes 4 len ++
      leBytes 8 header.checksum ++ tail ∧
      ∀ checksum, write { header with unMarshalLen := unMarshalLen, checksum := checksum } len
          = .ok (leBytes 2 header.version.raw ++ leBytes 4 len ++ leBytes 8 checksum ++ tail) := by
  obtain ⟨version, rest₁, hversion, hrest₁, rfl⟩ := concat_cons_eq_ok h
  obtain ⟨length, rest₂, hlength, hrest₂, rfl⟩ := concat_cons_eq_ok hrest₁
  obtain ⟨sum, tail, hsum, htail, rfl⟩ := concat_cons_eq_ok hrest₂
  cases hversion
  cases hlength
  cases hsum
  refine ⟨tail, by simp only [append_assoc], fun checksum => ?_⟩
  simp only [write]
  rw [concat, concat, concat, htail]
  simp [writeU16, writeU32, writeU64, bind, Except.bind, pure, Except.pure]

theorem Header.concat_write {header : Header} {len : Nat} {ws : List Writer}
    (h : concat (header.write len :: ws) = .ok bytes) (unMarshalLen : Nat) :
    ∃ tail, bytes = leBytes 2 header.version.raw ++ leBytes 4 len ++
      leBytes 8 header.checksum ++ tail ∧
      ∀ checksum, concat
        (write { header with unMarshalLen := unMarshalLen, checksum := checksum } len :: ws)
          = .ok (leBytes 2 header.version.raw ++ leBytes 4 len ++ leBytes 8 checksum ++ tail) := by
  obtain ⟨head, rest, hhead, hrest, rfl⟩ := concat_cons_eq_ok h
  obtain ⟨tail, rfl, hwrite⟩ := write_eq_ok hhead unMarshalLen
  refine ⟨tail ++ rest, by simp only [append_assoc], fun checksum => ?_⟩
  rw [concat, hwrite checksum, hrest]
  simp [bind, Except.bind, pure, Except.pure]

/-- A written message is its version, its length, its checksum and a tail; completing the message
changes the checksum alone. -/
theorem Msg.write_eq_ok {m : Msg} (h : m.write = .ok bytes) :
    ∃ tail, bytes = leBytes 2 m.header.version.raw ++ leBytes 4 m.marshalLen
        ++ leBytes 8 m.header.checksum ++ tail ∧
      ∀ checksum, (m.stamped checksum).write
        = .ok (leBytes 2 m.header.version.raw ++ leBytes 4 m.marshalLen ++
          leBytes 8 checksum ++ tail) := by
  cases m with
  | base header => exact Header.write_eq_ok h _
  | vote vote =>
    have hwriteTo : vote.writeTo = .ok bytes := h
    rw [Vote.writeTo] at hwriteTo
    split at hwriteTo
    · cases hwriteTo
    · next hreqs =>
      split at hwriteTo
      · cases hwriteTo
      · next hset =>
        obtain ⟨tail, hbytes, hwrite⟩ := Header.concat_write hwriteTo vote.marshalLen
        refine ⟨tail, hbytes, fun checksum => Eq.trans ?_ (hwrite checksum)⟩
        exact (if_neg hreqs).trans (if_neg hset)
  | join m | prepare m | prepareAccepted m | statusResponse m | bootstrap m =>
    exact Header.concat_write h _

/-- A join message with the id of its kind, in range. -/
structure JoinMessage.WellFormed (m : JoinMessage) : Prop where
  header : m.header.WellFormed
  msgId : m.header.msgId = msgJoin
  learnPort : m.learnPort < 65536
  minDecreeInLog : m.minDecreeInLog < 18446744073709551616
  checkpointedDecree : m.checkpointedDecree < 18446744073709551616
  checkpointSize : m.checkpointSize < 18446744073709551616

/-- A prepare message with the id of its kind, in range. -/
structure PrepareMsg.WellFormed (m : PrepareMsg) : Prop where
  header : m.header.WellFormed
  msgId : m.header.msgId = msgPrepare
  primaryCookie : m.primaryCookie.length < 4294967296
  noPrimaryCookie : m.header.version.hasPrimaryCookie = false → m.primaryCookie = []

/-- A status response with the id of its kind, in range. -/
structure StatusResponse.WellFormed (m : StatusResponse) : Prop where
  header : m.header.WellFormed
  msgId : m.header.msgId = msgStatusResponse
  queryDecree : m.queryDecree < 18446744073709551616
  queryBallot : m.queryBallot.WellFormed m.header.version
  lastReceivedAgo : m.lastReceivedAgo < 18446744073709551616
  minDecreeInLog : m.minDecreeInLog < 18446744073709551616
  checkpointedDecree : m.checkpointedDecree < 18446744073709551616
  checkpointSize : m.checkpointSize < 18446744073709551616
  maxBallot : m.maxBallot.WellFormed m.header.version
  state : m.state < 4294967296

namespace Msg

/-- What a message is asked to be: with the id of its kind and the standard magic number, in range,
with non-empty requests, fields that fit their length fields, ids its version can carry, and
defaults in the fields it does not carry. -/
def WellFormed : Msg → Prop
  | .base h => h.WellFormed
  | .vote m => m.WellFormed
  | .join m => m.WellFormed
  | .prepare m => m.WellFormed
  | .prepareAccepted m =>
    m.header.WellFormed ∧ m.header.msgId = msgPrepareAccepted ∧ m.vote.WellFormed
  | .statusResponse m => m.WellFormed
  | .bootstrap m =>
    m.header.WellFormed ∧ m.header.msgId = msgBootstrap ∧ m.memberSet.WellFormed m.header.version

/-- What the reader returns. -/
def Readable : Msg → Prop
  | .vote m => m.Readable
  | .prepareAccepted m =>
    m.header.WellFormed ∧ m.header.msgId = msgPrepareAccepted ∧ m.vote.Readable
  | .bootstrap m =>
    m.header.WellFormed ∧ m.header.msgId = msgBootstrap ∧ m.memberSet.Readable m.header.version
  | m => m.WellFormed

/-- A vote that the reader can take: its member set's cookie is not too long, and it has a member
set exactly when it is a reconfiguration. -/
def voteFits (vote : Vote) : Bool :=
  (vote.membersInNewConfiguration.all fun set => decide (set.cookie.length ≤ maxMemberSetCookieLen))
    && (vote.isReconfiguration == vote.membersInNewConfiguration.isSome)

/-- A message whose length fits its length field and whose member set the reader can take. -/
def fits (m : Msg) : Bool :=
  decide (m.size < 4294967296) && match m with
    | .vote v => voteFits v
    | .prepareAccepted a => voteFits a.vote
    | .bootstrap b => decide (b.memberSet.cookie.length ≤ maxMemberSetCookieLen)
    | _ => true

end Msg

variable {checksum : Nat} {vote : Vote} {m : Msg}

theorem Header.WellFormed.stamp {header : Header} (h : header.WellFormed)
    (hsum : checksum < 18446744073709551616) (len : Nat) :
    (Msg.stampHeader header len checksum).WellFormed :=
  ⟨h.version, hsum, h.magic, h.msgId, h.memberId, h.decree, h.configurationNumber,
    h.noConfigurationNumber, h.ballot, h.payload, h.noPayload⟩

theorem Vote.Readable.stamp (h : vote.Readable)
    (hsum : checksum < 18446744073709551616) (len : Nat) :
    Vote.Readable { vote with header := Msg.stampHeader vote.header len checksum } where
  wellFormed :=
    ⟨h.wellFormed.header.stamp hsum len, h.wellFormed.msgId, h.wellFormed.primaryCookie,
      h.wellFormed.noPrimaryCookie, h.wellFormed.noReconfiguration, h.wellFormed.members,
      h.wellFormed.noRelinquishPrimary, h.wellFormed.requests⟩
  cookie := h.cookie
  members := h.members
  size := h.size

theorem Msg.Readable.stamp (h : m.Readable)
    (hsum : checksum < 18446744073709551616) : (m.stamped checksum).Readable := by
  cases m with
  | base header => exact WellFormed.stamp h hsum _
  | vote vote => exact Vote.Readable.stamp h hsum _
  | join m =>
    have h : m.WellFormed := h
    exact ⟨h.header.stamp hsum _, h.msgId, h.learnPort, h.minDecreeInLog, h.checkpointedDecree,
      h.checkpointSize⟩
  | prepare m =>
    have h : m.WellFormed := h
    exact ⟨h.header.stamp hsum _, h.msgId, h.primaryCookie, h.noPrimaryCookie⟩
  | prepareAccepted m =>
    obtain ⟨hheader, hmsgId, hvote⟩ := h
    exact ⟨hheader.stamp hsum _, hmsgId, hvote.stamp hvote.wellFormed.header.checksum _⟩
  | statusResponse m =>
    have h : m.WellFormed := h
    exact ⟨h.header.stamp hsum _, h.msgId, h.queryDecree, h.queryBallot, h.lastReceivedAgo,
      h.minDecreeInLog, h.checkpointedDecree, h.checkpointSize, h.maxBallot, h.state⟩
  | bootstrap m =>
    obtain ⟨hheader, hmsgId, hset⟩ := h
    exact ⟨hheader.stamp hsum _, hmsgId, hset⟩

/-- A reader that a message's own bytes end with returns the message. -/
theorem Encodes.unmarshal {α : Type} {w : Writer} {p : Reader α} {a : α} (h : Encodes w p a)
    {bytes : Bytes} (hw : w = .ok bytes) : p bytes = some (a, []) := by
  obtain ⟨bytes', hw', hreads⟩ := h
  cases hw.symm.trans hw'
  simpa using hreads []

/-- A readable message with its checksum in place is read back from what it writes. -/
theorem Msg.unmarshal_write (h : m.Readable) {bytes : Bytes} (hwrite : m.write = .ok bytes)
    (hbase : baseSize m.header.version ≤ m.marshalLen) :
    Msg.unmarshal m.kind bytes = some (m.stamped m.header.checksum) := by
  have hlen : m.marshalLen < 4294967296 := by rw [marshalLen_eq]; exact asU32_lt _
  cases m with
  | base header =>
    have hread := (encodes h hlen hbase).unmarshal hwrite
    simp only [Msg.unmarshal, kind, unmarshalBase]
    rw [hread]
    rfl
  | vote vote =>
    simp only [Msg.unmarshal, kind]
    rw [Vote.unmarshal_writeTo h hwrite]
    rfl
  | join m =>
    have h : m.WellFormed := h
    have hmsg : (m.header.msgId == msgJoin) = true := beq_iff_eq.mpr h.msgId
    have hread : Encodes (Msg.write (.join m)) JoinMessage.unmarshal _ :=
      (encodes h.header hlen hbase).cons (.check hmsg ((encodes_u16 h.learnPort).cons
        ((encodes_u64 h.minDecreeInLog).cons ((encodes_u64 h.checkpointedDecree).cons
        ((encodes_u64 h.checkpointSize).cons (encodes_nil _))))))
    simp only [Msg.unmarshal, kind]
    rw [hread.unmarshal hwrite]
    rfl
  | prepare m =>
    have h : m.WellFormed := h
    have hmsg : (m.header.msgId == msgPrepare) = true := beq_iff_eq.mpr h.msgId
    have hread : Encodes (Msg.write (.prepare m)) PrepareMsg.unmarshal _ :=
      (encodes h.header hlen hbase).cons (.check hmsg
        ((encodes_if (fun _ => encodes_primaryCookie h.primaryCookie) h.noPrimaryCookie).cons
          (encodes_nil _)))
    simp only [Msg.unmarshal, kind]
    rw [hread.unmarshal hwrite]
    rfl
  | prepareAccepted m =>
    obtain ⟨hheader, hmsgId, hvote⟩ := h
    obtain ⟨head, rest, hhead, hrest, rfl⟩ := concat_cons_eq_ok hwrite
    obtain ⟨nested, ending, hnested, hend, rfl⟩ := concat_cons_eq_ok hrest
    cases hend
    obtain ⟨head', hhead', hreads⟩ := encodes hheader hlen hbase
    cases hhead.symm.trans hhead'
    simp only [Msg.unmarshal, kind, PrepareAccepted.unmarshal]
    rw [hreads, append_nil]
    simp only
    rw [if_neg (fun hne => hne hmsgId), Vote.unmarshal_writeTo hvote hnested]
    rfl
  | statusResponse m =>
    have h : m.WellFormed := h
    have hmsg : (m.header.msgId == msgStatusResponse) = true := beq_iff_eq.mpr h.msgId
    have hread : Encodes (Msg.write (.statusResponse m)) StatusResponse.unmarshal _ :=
      (encodes h.header hlen hbase).cons (.check hmsg ((encodes_u64 h.queryDecree).cons
        ((BallotNumber.encodes h.queryBallot).cons ((encodes_u64 h.lastReceivedAgo).cons
        ((encodes_u64 h.minDecreeInLog).cons ((encodes_u64 h.checkpointedDecree).cons
        ((encodes_u64 h.checkpointSize).cons ((BallotNumber.encodes h.maxBallot).cons
        ((encodes_u32 h.state).cons (encodes_nil _))))))))))
    simp only [Msg.unmarshal, kind]
    rw [hread.unmarshal hwrite]
    rfl
  | bootstrap m =>
    obtain ⟨hheader, hmsgId, hset⟩ := h
    have hmsg : (m.header.msgId == msgBootstrap) = true := beq_iff_eq.mpr hmsgId
    have hread : Encodes (Msg.write (.bootstrap m)) BootstrapMsg.unmarshal _ :=
      (encodes hheader hlen hbase).cons (.check hmsg
        ((MemberSet.encodes hset).cons (encodes_nil _)))
    simp only [Msg.unmarshal, kind]
    rw [hread.unmarshal hwrite]
    rfl

/-! ## What the reader returns -/

theorem yields_leNat (k : Nat) :
    Yields (fun n m => n < 256 ^ k ∧ m = k)
      (take k >>= fun bytes => (pure (leNat bytes) : Reader Nat)) := by
  refine (yields_take k).bind fun bytes m h => yields_pure ?_
  exact ⟨h.1 ▸ leNat_lt bytes, h.2⟩

theorem yields_u16 : Yields (fun n m => n < 65536 ∧ m = 2) readU16 := yields_leNat 2

theorem yields_u32 : Yields (fun n m => n < 4294967296 ∧ m = 4) readU32 := yields_leNat 4

theorem yields_u64 : Yields (fun n m => n < 18446744073709551616 ∧ m = 8) readU64 := yields_leNat 8

theorem yields_bool : Yields (fun _ m => True ∧ m = 1) readBool :=
  (yields_take 1).bind fun _ _ ⟨_, hm⟩ => yields_pure ⟨trivial, hm⟩

theorem yields_if {α : Type} {P : α → Prop} {size : α → Nat} {p : Reader α} {c : Bool}
    {default : α} (h : c = true → Yields (fun a n => P a ∧ n = size a) p)
    (hdefault : c = false → P default) :
    Yields (fun a n => P a ∧ (c = false → a = default) ∧ n = if c then size a else 0)
      (readIf c p default) := by
  cases c with
  | true => exact (h rfl).mono fun a n ⟨hP, hn⟩ => ⟨hP, (nomatch ·), hn⟩
  | false => exact yields_pure ⟨hdefault rfl, fun _ => rfl, rfl⟩

theorem MemberId.yields (v : ProtocolVersion) :
    Yields (fun id n => id.Representable v ∧ n = baseSize v) (MemberId.unmarshal v) := by
  rw [MemberId.unmarshal]
  split
  · next hfixed =>
    refine (yields_take 64).bind fun field n ⟨hlen, hn⟩ => .check fun hzero => yields_pure ?_
    rw [Representable, if_pos hfixed, baseSize, if_pos hfixed]
    have hpre : field.takeWhile (· != 0) <+: field := takeWhile_prefix _
    have hnotin : (0 : UInt8) ∉ field.takeWhile (· != 0) := fun hmem => by
      simpa using all_eq_true.mp all_takeWhile 0 hmem
    refine ⟨⟨?_, hnotin⟩, hn⟩
    -- The terminator is among the 64 bytes and not in the value.
    have hne : field.takeWhile (· != 0) ≠ field := fun heq =>
      hnotin (heq.symm ▸ contains_iff_mem.mp hzero)
    have hlt : (field.takeWhile (· != 0)).length < field.length :=
      lt_of_le_of_ne hpre.length_le fun heq => hne (hpre.eq_of_length heq)
    rw [hlen] at hlt
    exact Nat.le_of_lt_succ hlt
  · next hfixed =>
    refine yields_u64.bind fun value n ⟨hvalue, hn⟩ => yields_pure ?_
    rw [Representable, if_neg hfixed, baseSize, if_neg hfixed]
    exact ⟨⟨value, hvalue, rfl⟩, hn⟩

theorem BallotNumber.yields (v : ProtocolVersion) :
    Yields (fun ballot n => ballot.WellFormed v ∧ n = baseSize v) (BallotNumber.unmarshal v) :=
  yields_u32.bind fun _ _ ⟨hid, hn⟩ => (MemberId.yields v).bind fun _ _ ⟨hmember, hm⟩ =>
    yields_pure ⟨⟨hid, hmember⟩, by rw [hn, hm, baseSize, add_zero]⟩

theorem RslNode.yields (v : ProtocolVersion) :
    Yields (fun node n => node.WellFormed v ∧ n = node.size v) (RslNode.unmarshal v) := by
  refine (MemberId.yields v).bind fun id _ ⟨hid, h₁⟩ => yields_u32.bind fun ip _ ⟨hip, h₂⟩ =>
    yields_u16.bind fun rslPort _ ⟨hrslPort, h₃⟩ => yields_u16.bind fun port _ ⟨hport, h₄⟩ =>
    yields_u16.bind fun hostLen _ ⟨hhostLen, h₅⟩ =>
    (yields_take hostLen).bind fun hostName _ ⟨hhostName, h₆⟩ => yields_pure ?_
  have hname : hostName.length < 65536 := by omega
  cases hlearn : v.memberSetUsesLearnPort with
  | true =>
    refine ⟨⟨hid, hip, hrslPort, hport, Nat.zero_lt_succ _, hname, ?_⟩, ?_⟩
    · simp [hlearn]
    · simp only [if_pos, size]
      omega
  | false =>
    refine ⟨⟨hid, hip, hrslPort, Nat.zero_lt_succ _, hport, hname, ?_⟩, ?_⟩
    · simp [hlearn]
    · simp only [Bool.false_eq_true, if_false, size]
      omega

theorem MemberSet.yields (v : ProtocolVersion) :
    Yields (fun set n => set.Readable v ∧ n = set.size v) (MemberSet.unmarshal v) := by
  refine yields_u16.bind fun count _ ⟨hcount, h₁⟩ =>
    (yields_replicate (RslNode.yields v) count).bind fun members _ ⟨hlen, hnodes, h₂⟩ =>
    yields_u32.bind fun cookieLen _ ⟨_, h₃⟩ => .check fun hmax =>
    (yields_take cookieLen).bind fun cookie _ ⟨hcookie, h₄⟩ => yields_pure ?_
  have hmax : cookie.length ≤ maxMemberSetCookieLen := hcookie ▸ of_decide_eq_true hmax
  refine ⟨⟨⟨hlen ▸ hcount, hnodes, hmax.trans_lt (by decide)⟩, hmax⟩, ?_⟩
  rw [size, h₁, h₂, h₃, h₄, hcookie]
  rfl

/-- A header that was read is well formed, and its length field covers it. -/
theorem Header.yields :
    Yields (fun header n => header.WellFormed ∧ n = baseSize header.version ∧
      baseSize header.version ≤ header.unMarshalLen ∧ header.unMarshalLen < 4294967296)
      unmarshal := by
  refine yields_u16.bind fun raw _ ⟨_, h₁⟩ => .ofOption fun version hversion =>
    yields_u32.bind fun len _ ⟨hlen, h₂⟩ => yields_u64.bind fun checksum _ ⟨hchecksum, h₃⟩ =>
    yields_u32.bind fun magic _ ⟨_, h₄⟩ => yields_u16.bind fun msgId _ ⟨hmsgId, h₅⟩ =>
    (MemberId.yields version).bind fun memberId _ ⟨hmemberId, h₆⟩ =>
    yields_u64.bind fun decree _ ⟨hdecree, h₇⟩ =>
    (yields_if (fun _ => yields_u32) fun _ => by decide).bind
      fun number _ ⟨hnumber, hnoNumber, h₈⟩ =>
    (BallotNumber.yields version).bind fun ballot _ ⟨hballot, h₉⟩ =>
    (yields_if (fun _ => yields_u64) fun _ => by decide).bind
      fun payload _ ⟨hpayload, hnoPayload, h₁₀⟩ =>
    .check fun hbase => .check fun hmagic => yields_pure ?_
  have hraw : 1 ≤ version.raw ∧ version.raw ≤ 6 := by
    rw [ProtocolVersion.fromWire] at hversion
    split at hversion
    · next h => cases hversion; exact h
    · cases hversion
  refine ⟨⟨hraw, hchecksum, of_decide_eq_true hmagic, hmsgId, hmemberId, hdecree, hnumber,
    hnoNumber, hballot, hpayload, hnoPayload⟩, ?_, of_decide_eq_true hbase, hlen⟩
  simp only [baseSize]
  omega

theorem yields_primaryCookie :
    Yields (fun cookie n => cookie.length < 4294967296 ∧ n = 4 + cookie.length)
      readPrimaryCookie := by
  refine yields_u32.bind fun len _ ⟨hlen, hn⟩ => ?_
  split
  · exact yields_pure ⟨by decide, by rw [hn]; rfl⟩
  · exact (yields_take len).mono fun cookie m ⟨hcookie, hm⟩ => ⟨by omega, by omega⟩

/-- The requests that were read: none empty, and together as long as what was there. -/
theorem readRequests_eq_some {fuel : Nat} {x y : Bytes} {requests : List Bytes}
    (hfuel : x.length ≤ fuel) (h : readRequests fuel x = some (requests, y)) :
    x.length = (requests.map fun req => 4 + req.length).sum ∧
      ∀ req ∈ requests, 0 < req.length ∧ req.length < 4294967296 := by
  induction fuel generalizing x requests with
  | zero =>
    obtain rfl : x = [] := eq_nil_of_length_eq_zero (Nat.le_zero.mp hfuel)
    cases h
    exact ⟨rfl, fun req hreq => absurd hreq not_mem_nil⟩
  | succ fuel ih =>
    obtain ⟨_, _, hget, h⟩ := bind_eq_some.mp h
    cases hget
    split at h
    · next hempty =>
      cases h
      exact ⟨by simpa using hempty, fun req hreq => absurd hreq not_mem_nil⟩
    · obtain ⟨reqLen, rest₁, hlen, h⟩ := bind_eq_some.mp h
      obtain ⟨⟨⟩, rest₂, hcheck, h⟩ := bind_eq_some.mp h
      obtain ⟨req, rest₃, htake, h⟩ := bind_eq_some.mp h
      obtain ⟨requests', rest₄, hmore, h⟩ := bind_eq_some.mp h
      cases h
      obtain ⟨_, hx, hreqLen, rfl⟩ := yields_u32 _ _ _ hlen
      rw [Parser.check] at hcheck
      split at hcheck
      · next hne =>
        cases hcheck
        obtain ⟨n, hrest, hreq, hn⟩ := yields_take reqLen _ _ _ htake
        have hpos : reqLen ≠ 0 := by simpa using hne
        obtain ⟨hsum, hall⟩ := ih (by omega) hmore
        refine ⟨?_, ?_⟩
        · rw [map_cons, sum_cons]
          omega
        · intro r hr
          rcases mem_cons.mp hr with rfl | hr
          · omega
          · exact hall r hr
      · cases hcheck

/-- The body of a vote that was read. -/
theorem Vote.readBody_eq_some {header : Header} (hheader : header.WellFormed)
    (hmsgId : header.msgId = msgVote) {x y : Bytes} (h : Vote.readBody header x = some (vote, y)) :
    vote.header = header ∧ vote.bodySize = x.length ∧ vote.WellFormed ∧
      (∀ set, vote.membersInNewConfiguration = some set →
        set.cookie.length ≤ maxMemberSetCookieLen) ∧
      vote.isReconfiguration = vote.membersInNewConfiguration.isSome := by
  obtain ⟨cookie, rest₁, hcookie, h⟩ := bind_eq_some.mp h
  obtain ⟨reconf, rest₂, hreconf, h⟩ := bind_eq_some.mp h
  obtain ⟨members, rest₃, hmembers, h⟩ := bind_eq_some.mp h
  obtain ⟨relinquish, rest₄, hrelinquish, h⟩ := bind_eq_some.mp h
  obtain ⟨_, _, hget, h⟩ := bind_eq_some.mp h
  cases hget
  obtain ⟨requests, rest₅, hrequests, h⟩ := bind_eq_some.mp h
  cases h
  obtain ⟨n₁, hlen₁, hc, hnc, hn₁⟩ :=
    yields_if (fun _ => yields_primaryCookie) (fun _ => by decide) _ _ _ hcookie
  obtain ⟨n₂, hlen₂, -, hnr, hn₂⟩ :=
    yields_if (fun _ => yields_bool) (fun _ => trivial) _ _ _ hreconf
  have hset : reconf = true → Yields (fun members n => (reconf = members.isSome ∧
      ∀ set, members = some set → set.Readable header.version) ∧
      n = (members.map (·.size header.version)).getD 0)
      (some <$> MemberSet.unmarshal header.version) := fun hreconf =>
    (MemberSet.yields header.version).bind fun set n ⟨hread, hn⟩ =>
      yields_pure ⟨⟨hreconf, fun _ hs => Option.some.inj hs ▸ hread⟩, hn⟩
  obtain ⟨n₃, hlen₃, ⟨hisSome, hreadable⟩, hnm, hn₃⟩ :=
    yields_if hset (fun h => ⟨h.trans Option.isSome_none.symm, fun _ hs => nomatch hs⟩) _ _ _
      hmembers
  obtain ⟨n₄, hlen₄, -, hnq, hn₄⟩ :=
    yields_if (fun _ => yields_bool) (fun _ => trivial) _ _ _ hrelinquish
  obtain ⟨hsum, hall⟩ := readRequests_eq_some le_rfl hrequests
  refine ⟨rfl, ?_, ⟨hheader, hmsgId, hc, hnc, fun hv => ⟨hnr hv, hnm (hnr hv)⟩,
    fun set hs => (hreadable set hs).1, hnq, hall⟩, fun set hs => (hreadable set hs).2, hisSome⟩
  -- the parts are as long as what was read
  have hn₂₃ : n₂ + n₃ = if header.version.hasReconfiguration then
      1 + (if reconf then (members.map (·.size header.version)).getD 0 else 0) else 0 := by
    cases hv : header.version.hasReconfiguration with
    | true => rw [hn₂, hn₃, hv]; rfl
    | false => rw [hn₂, hn₃, hv, hnr hv]; rfl
  simp only [bodySize]
  rw [← hn₁, ← hn₂₃, ← hn₄, hlen₁, hlen₂, hlen₃, hlen₄, hsum]
  omega

theorem Vote.unmarshal_readable {buf : Bytes} (h : Vote.unmarshal buf = some vote) :
    vote.Readable ∧ baseSize vote.header.version ≤ vote.header.unMarshalLen := by
  rw [Vote.unmarshal, Option.bind_eq_bind, Option.bind_eq_some_iff] at h
  obtain ⟨header, hheader, h⟩ := h
  obtain ⟨⟨_, rest⟩, hread, rfl⟩ := Option.map_eq_some_iff.mp hheader
  obtain ⟨n, hlen, hwell, hn, hbase, hlt⟩ := yields _ _ _ hread
  split at h
  · cases h
  · next hcover =>
    simp only [not_or, Decidable.not_not, not_lt] at hcover
    obtain ⟨⟨vote, rest'⟩, hbody, rfl⟩ := Option.map_eq_some_iff.mp h
    obtain ⟨rfl, hsize, hvote, hcookie, hmembers⟩ := readBody_eq_some hwell hcover.1 hbody
    refine ⟨⟨hvote, hcookie, hmembers, ?_⟩, hbase⟩
    rw [length_drop, length_take] at hsize
    calc vote.size
      _ = baseSize vote.header.version
          + (min vote.header.unMarshalLen buf.length - baseSize vote.header.version) := by
        rw [Vote.size, hsize]
      _ < 4294967296 := by omega

/-- What the reader returns is readable, of the kind that was asked for, and its length field covers
its header. -/
theorem Msg.unmarshal_readable {kind : MsgKind} {buf : Bytes}
    (h : Msg.unmarshal kind buf = some m) :
    m.Readable ∧ m.kind = kind ∧ baseSize m.header.version ≤ m.header.unMarshalLen := by
  cases kind with
  | base =>
    obtain ⟨header, hread, rfl⟩ := Option.map_eq_some_iff.mp h
    obtain ⟨n, hwell, -, hbase, -⟩ := yields.map_fst hread
    exact ⟨hwell, rfl, hbase⟩
  | vote =>
    obtain ⟨vote, hread, rfl⟩ := Option.map_eq_some_iff.mp h
    obtain ⟨hreadable, hbase⟩ := Vote.unmarshal_readable hread
    exact ⟨hreadable, rfl, hbase⟩
  | join =>
    obtain ⟨m, hread, rfl⟩ := Option.map_eq_some_iff.mp h
    have hyields : Yields (fun m _ => m.WellFormed ∧
        baseSize m.header.version ≤ m.header.unMarshalLen) JoinMessage.unmarshal :=
      yields.bind fun _ _ ⟨hheader, _, hbase, _⟩ => .check fun hmsg =>
      yields_u16.bind fun _ _ ⟨h₁, _⟩ => yields_u64.bind fun _ _ ⟨h₂, _⟩ =>
      yields_u64.bind fun _ _ ⟨h₃, _⟩ => yields_u64.bind fun _ _ ⟨h₄, _⟩ =>
      yields_pure ⟨⟨hheader, beq_iff_eq.mp hmsg, h₁, h₂, h₃, h₄⟩, hbase⟩
    obtain ⟨_, hwell, hbase⟩ := hyields.map_fst hread
    exact ⟨hwell, rfl, hbase⟩
  | prepare =>
    obtain ⟨m, hread, rfl⟩ := Option.map_eq_some_iff.mp h
    have hyields : Yields (fun m _ => m.WellFormed ∧
        baseSize m.header.version ≤ m.header.unMarshalLen) PrepareMsg.unmarshal := by
      refine yields.bind fun header _ ⟨hheader, _, hbase, _⟩ => .check fun hmsg =>
        (yields_if (fun _ => yields_primaryCookie) fun _ => by decide).bind
          fun cookie _ ⟨hcookie, hnone, _⟩ => yields_pure ?_
      exact ⟨⟨hheader, beq_iff_eq.mp hmsg, hcookie, hnone⟩, hbase⟩
    obtain ⟨_, hwell, hbase⟩ := hyields.map_fst hread
    exact ⟨hwell, rfl, hbase⟩
  | prepareAccepted =>
    obtain ⟨m, hread, rfl⟩ := Option.map_eq_some_iff.mp h
    rw [PrepareAccepted.unmarshal] at hread
    split at hread
    · cases hread
    · next header rest hparse =>
      obtain ⟨n, -, hwell, -, hbase, -⟩ := yields _ _ _ hparse
      split at hread
      · cases hread
      · next hmsg =>
        obtain ⟨vote, hvote, rfl⟩ := Option.map_eq_some_iff.mp hread
        exact ⟨⟨hwell, Decidable.not_not.mp hmsg, (Vote.unmarshal_readable hvote).1⟩, rfl, hbase⟩
  | statusResponse =>
    obtain ⟨m, hread, rfl⟩ := Option.map_eq_some_iff.mp h
    have hyields : Yields (fun m _ => m.WellFormed ∧
        baseSize m.header.version ≤ m.header.unMarshalLen) StatusResponse.unmarshal :=
      yields.bind fun header _ ⟨hheader, _, hbase, _⟩ => .check fun hmsg =>
      yields_u64.bind fun _ _ ⟨h₁, _⟩ =>
        (BallotNumber.yields header.version).bind fun _ _ ⟨h₂, _⟩ =>
      yields_u64.bind fun _ _ ⟨h₃, _⟩ => yields_u64.bind fun _ _ ⟨h₄, _⟩ =>
      yields_u64.bind fun _ _ ⟨h₅, _⟩ => yields_u64.bind fun _ _ ⟨h₆, _⟩ =>
      (BallotNumber.yields header.version).bind fun _ _ ⟨h₇, _⟩ =>
        yields_u32.bind fun _ _ ⟨h₈, _⟩ =>
      yields_pure ⟨⟨hheader, beq_iff_eq.mp hmsg, h₁, h₂, h₃, h₄, h₅, h₆, h₇, h₈⟩, hbase⟩
    obtain ⟨_, hwell, hbase⟩ := hyields.map_fst hread
    exact ⟨hwell, rfl, hbase⟩
  | bootstrap =>
    obtain ⟨m, hread, rfl⟩ := Option.map_eq_some_iff.mp h
    have hyields : Yields (fun m _ => (m.header.WellFormed ∧ m.header.msgId = msgBootstrap ∧
        m.memberSet.Readable m.header.version) ∧
        baseSize m.header.version ≤ m.header.unMarshalLen) BootstrapMsg.unmarshal :=
      yields.bind fun header _ ⟨hheader, _, hbase, _⟩ => .check fun hmsg =>
      (MemberSet.yields header.version).bind fun _ _ ⟨hset, _⟩ =>
      yields_pure ⟨⟨hheader, beq_iff_eq.mp hmsg, hset⟩, hbase⟩
    obtain ⟨_, hwell, hbase⟩ := hyields.map_fst hread
    exact ⟨hwell, rfl, hbase⟩

/-! ## Completed messages -/

/-- A fingerprint goes on from one part to the next. -/
theorem fingerprintWith_append {init : Nat} (hinit : init < 2 ^ 64) (x y : Bytes) :
    fingerprintWith init (x ++ y) = fingerprintWith (fingerprintWith init x) y := by
  rw [Fingerprint.fingerprintWith_eq hinit, Fingerprint.fingerprintWith_eq hinit,
    Fingerprint.fingerprintWith_eq (Fingerprint.absorb_lt hinit x), Fingerprint.absorb_append]

theorem fingerprint_lt (data : Bytes) : fingerprint data < 18446744073709551616 := by
  rw [fingerprint, Fingerprint.fingerprintWith_eq Fingerprint.poly_lt]
  exact Fingerprint.absorb_lt Fingerprint.poly_lt data

namespace Msg

theorem marshalLen_stamped (m : Msg) (c : Nat) : (m.stamped c).marshalLen = m.marshalLen := by
  cases m <;> rfl

theorem kind_stamped (m : Msg) (c : Nat) : (m.stamped c).kind = m.kind := by
  cases m <;> rfl

theorem header_stamped (m : Msg) (c : Nat) :
    (m.stamped c).header = stampHeader m.header m.marshalLen c := by
  cases m <;> rfl

/-- The writer completes a message once. -/
theorem stamped_stamped (m : Msg) (c c' : Nat) : (m.stamped c).stamped c' = m.stamped c' := by
  cases m <;> rfl

theorem baseSize_le_size (m : Msg) : baseSize m.header.version ≤ m.size := by
  cases m with
  | base header => exact le_rfl
  | vote vote => exact le_self_add
  | join m => simp only [header, size, JoinMessage.marshalLen]; omega
  | prepare m | prepareAccepted m => exact le_self_add
  | statusResponse m => simp only [header, size, StatusResponse.marshalLen]; omega
  | bootstrap m => exact le_self_add

end Msg

theorem drop_stamp (version len checksum : Nat) (tail : Bytes) :
    (leBytes 2 version ++ leBytes 4 len ++ leBytes 8 checksum ++ tail).drop (checksumOffset + 8)
      = tail := by
  apply drop_left'
  rw [length_append, length_append, length_leBytes, length_leBytes, length_leBytes, checksumOffset]

theorem finalize_eq (version len checksum : Nat) (tail : Bytes) :
    finalize (leBytes 2 version ++ leBytes 4 len ++ leBytes 8 checksum ++ tail)
      = leBytes 2 version ++ leBytes 4 len ++ leBytes 8 (fingerprint tail) ++ tail := by
  have htake : (leBytes 2 version ++ leBytes 4 len ++ (leBytes 8 checksum ++ tail)).take
      checksumOffset
      = leBytes 2 version ++ leBytes 4 len := by
    apply take_left'
    rw [length_append, length_leBytes, length_leBytes, checksumOffset]
  simp only [finalize]
  rw [drop_stamp, append_assoc _ (leBytes 8 checksum), htake]

variable {m : Msg} {bytes : Bytes}

/-- What the writer sends: the version, the length, the checksum of the rest, and the rest. -/
theorem Msg.marshalWithChecksum_eq_ok
    (h : m.marshalWithChecksum = .ok bytes) :
    bytes.length = m.size ∧
    bytes = leBytes 2 m.header.version.raw ++ leBytes 4 m.marshalLen
      ++ leBytes 8 (fingerprint (bytes.drop (checksumOffset + 8))) ++ bytes.drop
        (checksumOffset + 8) ∧
    (m.stamped (fingerprint (bytes.drop (checksumOffset + 8)))).write = .ok bytes ∧
    ∀ c, (m.stamped c).marshalWithChecksum = .ok bytes := by
  rw [marshalWithChecksum] at h
  cases hwrite : m.write with
  | error e =>
    rw [hwrite] at h
    cases h
  | ok raw =>
    rw [hwrite] at h
    obtain ⟨tail, hraw, hstamped⟩ := Msg.write_eq_ok hwrite
    have hlen : raw.length = m.size := m.writes raw hwrite
    have hbytes : bytes = leBytes 2 m.header.version.raw ++ leBytes 4 m.marshalLen
        ++ leBytes 8 (fingerprint tail) ++ tail := by
      have hok : finalize raw = bytes := Except.ok.inj h
      rw [← hok, hraw, finalize_eq]
    have hdrop : bytes.drop (checksumOffset + 8) = tail := hbytes ▸ drop_stamp ..
    rw [hdrop]
    refine ⟨?_, hbytes, ?_, fun c => ?_⟩
    · rw [← hlen, hbytes, hraw]
      simp only [length_append, length_leBytes]
    · rw [hstamped, hbytes]
    · rw [marshalWithChecksum, hstamped c, hbytes]
      show Except.ok (finalize _) = _
      rw [finalize_eq]

/-- The checksum verifies where the length field and the checksum are those of the bytes. -/
theorem verifyChecksum_stamp {bytes tail : Bytes} {version len : Nat}
    (hbytes : bytes = leBytes 2 version ++ leBytes 4 len ++ leBytes 8 (fingerprint tail) ++ tail)
    (hlen : len % 4294967296 = bytes.length) : verifyChecksum bytes = true := by
  have hdrop : bytes.drop (checksumOffset + 8) = tail := hbytes ▸ drop_stamp ..
  have hfield : leNat ((bytes.drop 2).take 4) = bytes.length := by
    rw [← hlen, hbytes, append_assoc, append_assoc, drop_left' (length_leBytes 2 _),
      take_left' (length_leBytes 4 _), leNat_leBytes]
    rfl
  have hsum : leNat ((bytes.drop checksumOffset).take 8) = fingerprint tail := by
    rw [hbytes, append_assoc _ (leBytes 8 _), drop_left' (by rw [length_append, length_leBytes,
        length_leBytes, checksumOffset]), take_left' (length_leBytes 8 _), leNat_leBytes]
    exact Nat.mod_eq_of_lt (fingerprint_lt tail)
  have hle : checksumOffset + 8 ≤ bytes.length := by
    rw [hbytes]
    simp only [length_append, length_leBytes, checksumOffset]
    omega
  simp only [verifyChecksum, hdrop, hfield, hsum, hle, decide_true, Bool.and_self]

/-- The checksum of what the writer sends verifies when the length field does not wrap. -/
theorem Msg.verifyChecksum_marshal (h : m.marshalWithChecksum = .ok bytes)
    (hsize : m.size < 4294967296) : verifyChecksum bytes = true := by
  obtain ⟨hlen, hbytes, -, -⟩ := marshalWithChecksum_eq_ok h
  apply verifyChecksum_stamp hbytes
  rw [hlen, marshalLen_eq, asU32]
  omega

/-- A readable message is read back from what is sent, up to the length and the checksum. -/
theorem Msg.unmarshal_marshal (hm : m.Readable)
    (h : m.marshalWithChecksum = .ok bytes) (hbase : baseSize m.header.version ≤ m.marshalLen) :
    Msg.unmarshal m.kind bytes =
      some (m.stamped (fingerprint (bytes.drop (checksumOffset + 8)))) := by
  obtain ⟨-, -, hwrite, -⟩ := marshalWithChecksum_eq_ok h
  have hread := unmarshal_write (hm.stamp (fingerprint_lt _)) hwrite (by
    rw [header_stamped, marshalLen_stamped]
    exact hbase)
  rw [kind_stamped, header_stamped, stamped_stamped] at hread
  exact hread

/-! ## The retraction -/

namespace Msg

theorem voteFits_iff (vote : Vote) : voteFits vote = true ↔
    (∀ set, vote.membersInNewConfiguration = some set →
      set.cookie.length ≤ maxMemberSetCookieLen) ∧
    vote.isReconfiguration = vote.membersInNewConfiguration.isSome := by
  cases hset : vote.membersInNewConfiguration <;> simp [voteFits, hset]

/-- A message that fits is one the reader returns. -/
theorem WellFormed.readable {m : Msg} (h : m.WellFormed) (hfits : m.fits = true) : m.Readable := by
  simp only [fits, Bool.and_eq_true, decide_eq_true_eq] at hfits
  obtain ⟨hsize, hfits⟩ := hfits
  cases m with
  | base header => exact h
  | vote vote =>
    obtain ⟨hcookie, hmembers⟩ := (voteFits_iff vote).mp hfits
    exact ⟨h, hcookie, hmembers, hsize⟩
  | join m => exact h
  | prepare m => exact h
  | prepareAccepted m =>
    obtain ⟨hcookie, hmembers⟩ := (voteFits_iff m.vote).mp hfits
    have hvote : m.vote.size < 4294967296 := by
      simp only [size] at hsize
      omega
    exact ⟨h.1, h.2.1, h.2.2, hcookie, hmembers, hvote⟩
  | statusResponse m => exact h
  | bootstrap m => exact ⟨h.1, h.2.1, h.2.2, of_decide_eq_true hfits⟩

/-- What the reader returns, completed or not, is a message that fits. -/
theorem fits_of_readable {m : Msg} {c : Nat} (h : (m.stamped c).Readable)
    (hsize : m.size < 4294967296) : m.fits = true := by
  simp only [fits, Bool.and_eq_true, decide_eq_true_eq]
  refine ⟨hsize, ?_⟩
  cases m with
  | base header => rfl
  | vote vote =>
    have hvote : Vote.Readable { vote with header := stampHeader vote.header _ c } := h
    exact (voteFits_iff vote).mpr ⟨hvote.cookie, hvote.members⟩
  | join m => rfl
  | prepare m => rfl
  | prepareAccepted m =>
    have hvote : (stampNested m.vote).Readable := h.2.2
    exact (voteFits_iff m.vote).mpr ⟨hvote.cookie, hvote.members⟩
  | statusResponse m => rfl
  | bootstrap m => exact decide_eq_true h.2.2.2

end Msg

/-- The wire codec is a retraction on exactly the messages that fit. What the writer sends for a
well-formed message has the length the writer says, verifies, and is read back as the message with
its length and checksum filled in, when the message fits, and only then. A message that was read and
that the writer accepts is read back so from what the writer sends, which is then a fixed point of
reading and writing, when the low 32 bits of its length cover its header, and only then. -/
theorem marshal_retraction (m : Msg) (bytes : Bytes) :
    (m.WellFormed → m.marshalWithChecksum = .ok bytes →
      ((bytes.length = m.marshalLen ∧ verifyChecksum bytes = true ∧
        Msg.unmarshal m.kind bytes
          = some (m.stamped (fingerprint (bytes.drop (checksumOffset + 8))))) ↔ m.fits = true)) ∧
    (∀ kind buf, Msg.unmarshal kind buf = some m → m.marshalWithChecksum = .ok bytes →
      ((Msg.unmarshal kind bytes
          = some (m.stamped (fingerprint (bytes.drop (checksumOffset + 8)))) ∧
        (m.stamped (fingerprint (bytes.drop (checksumOffset + 8)))).marshalWithChecksum =
          .ok bytes) ↔
        baseSize m.header.version ≤ m.marshalLen)) := by
  refine ⟨fun hwell h => ?_, fun kind buf hread h => ?_⟩
  · obtain ⟨hlen, -, -, -⟩ := Msg.marshalWithChecksum_eq_ok h
    constructor
    · rintro ⟨hmarshal, -, hread⟩
      obtain ⟨hreadable, -, -⟩ := Msg.unmarshal_readable hread
      refine Msg.fits_of_readable hreadable ?_
      rw [← hlen, hmarshal, Msg.marshalLen_eq]
      exact asU32_lt _
    · intro hfits
      have hsize : m.size < 4294967296 := by
        simp only [Msg.fits, Bool.and_eq_true, decide_eq_true_eq] at hfits
        exact hfits.1
      have hmarshal : m.marshalLen = m.size := by
        rw [Msg.marshalLen_eq, asU32, Nat.mod_eq_of_lt hsize]
      refine ⟨hlen.trans hmarshal.symm, Msg.verifyChecksum_marshal h hsize, ?_⟩
      apply Msg.unmarshal_marshal (hwell.readable hfits) h
      rw [hmarshal]
      exact m.baseSize_le_size
  · obtain ⟨-, -, -, hagain⟩ := Msg.marshalWithChecksum_eq_ok h
    obtain ⟨hreadable, rfl, -⟩ := Msg.unmarshal_readable hread
    constructor
    · rintro ⟨hback, -⟩
      obtain ⟨-, -, hbase⟩ := Msg.unmarshal_readable hback
      rwa [Msg.header_stamped] at hbase
    · intro hbase
      exact ⟨Msg.unmarshal_marshal hreadable h hbase, hagain _⟩

/-- The header of a version 6 bootstrap message from member `1`. -/
def bootstrapHeader : Header where
  version := ⟨6⟩
  unMarshalLen := 0
  checksum := 0
  magic := magicNumber
  msgId := msgBootstrap
  memberId := ⟨[49]⟩
  decree := 3
  configurationNumber := 1
  ballot := ⟨2, ⟨[49]⟩⟩
  payload := 0

/-- A node for member `1`, with host name `h`. -/
def bootstrapNode : RslNode where
  memberId := ⟨[49]⟩
  ip := 16777343
  rslPort := 20000
  rslLearnPort := 20001
  appPort := 0
  hostName := [104]

/-- A bootstrap message with the given cookie in its member set. -/
def bootstrapWith (cookie : Bytes) : Msg := .bootstrap ⟨bootstrapHeader, ⟨[bootstrapNode], cookie⟩⟩

theorem bootstrapWith_wellFormed {cookie : Bytes} (h : cookie.length < 4294967296) :
    (bootstrapWith cookie).WellFormed := by
  have hid : MemberId.Representable ⟨6⟩ ⟨[49]⟩ := ⟨by decide, by decide⟩
  have hheader : bootstrapHeader.WellFormed :=
    ⟨by decide, by decide, rfl, by decide, hid, by decide, by decide, nofun, ⟨by decide, hid⟩,
      by decide, nofun⟩
  have hnode : bootstrapNode.WellFormed ⟨6⟩ :=
    ⟨hid, by decide, by decide, by decide, by decide, by decide, by decide⟩
  refine ⟨hheader, rfl, (by decide : 1 < 65536), ?_, h⟩
  intro node hmem
  rw [mem_singleton.mp hmem]
  exact hnode

/-- A bootstrap message with a short cookie comes back. -/
theorem marshal_retraction_bootstrap :
    ∃ bytes, (bootstrapWith [7]).marshalWithChecksum = .ok bytes ∧
      verifyChecksum bytes = true ∧ (Msg.unmarshal .bootstrap bytes).isSome = true := by
  have hok : (bootstrapWith [7]).marshalWithChecksum.isOk = true := by decide +kernel
  cases h : (bootstrapWith [7]).marshalWithChecksum with
  | error e =>
    rw [h] at hok
    cases hok
  | ok bytes =>
    have hback := ((marshal_retraction (bootstrapWith [7]) bytes).1
      (bootstrapWith_wellFormed (by decide)) h).mpr (by decide)
    refine ⟨bytes, rfl, hback.2.1, ?_⟩
    have hread : Msg.unmarshal .bootstrap bytes = _ := hback.2.2
    rw [hread]
    rfl

/-- The writer sends a bootstrap message whose cookie has 8193 bytes, and the reader refuses it. -/
theorem not_retraction_longCookie :
    ∃ bytes, (bootstrapWith (List.replicate 8193 0)).WellFormed ∧
      (bootstrapWith (List.replicate 8193 0)).marshalWithChecksum = .ok bytes ∧
      Msg.unmarshal .bootstrap bytes = none := by
  have hwell : (bootstrapWith (List.replicate 8193 0)).WellFormed :=
    bootstrapWith_wellFormed (by rw [length_replicate]; decide)
  have hok : (match (bootstrapWith (List.replicate 8193 0)).marshalWithChecksum with
      | .ok bytes => (Msg.unmarshal .bootstrap bytes).isNone
      | .error _ => false) = true := by decide +kernel
  cases h : (bootstrapWith (List.replicate 8193 0)).marshalWithChecksum with
  | error e =>
    rw [h] at hok
    cases hok
  | ok bytes =>
    rw [h] at hok
    exact ⟨bytes, hwell, rfl, Option.isNone_iff_eq_none.mp hok⟩

end Rsl.Wire
