import Rsl.Cpp.BallotOrder
import Rsl.Cpp.RoundTrip

/-!
# Member ids in old protocol versions

Up to version 3 a member id is sent as a number of 64 bits. The text is parsed as `_strtoui64` does
with base 0, which finds the base from the prefix, and the number is printed in decimal, or as
nothing if it is 0. `MemberSet::Verify` accepts every id that is parsed to its end.

`ids_survive_iff` says for which of the accepted sets the ids that are read back, by the C++ and by
the Rust reader, are the ids that were written: those whose ids are decimal numbers without leading
zeros, of at most 20 digits and below `2 ^ 64`, and whose number of members and cookie the format
can carry.
-/

set_option autoImplicit false

namespace Rsl.Cpp

open Wire Lib Lib.Parser MemberSet List

/-! ## Verify -/

/-- `strncmp` on strings of one length. -/
def strncmp : Bytes → Bytes → Int
  | a :: as, b :: bs => if a = b then strncmp as bs else if a < b then -1 else 1
  | [], _ :: _ => -1
  | _ :: _, [] => 1
  | [], [] => 0

/-- `MemberId::Compare`: by length first. -/
def MemberId.compare (id other : MemberId) : Int :=
  if id.value.length = other.value.length then strncmp id.value other.value
  else id.value.length - other.value.length

/-- `_strtoui64` with base 0: the number and what is left behind its last digit, which is all of the
text if there is no digit. -/
def strtoui64 (value : Bytes) : Nat × Bytes :=
  let (negative, signed) := readSign (value.dropWhile isSpace)
  let (radix, digits) := readRadix signed
  let (acc, overflow, rest) := readDigits radix 0 false digits
  if rest = digits then (0, value)
  else
    (if overflow then 18446744073709551615
      else if negative then (18446744073709551616 - acc) % 18446744073709551616 else acc, rest)

/-- The loop of `MemberSet::Verify`: no later member has the same id, the port is set, and in an old
version the id is a number. -/
def verifyMembers (version : ProtocolVersion) : List RslNode → Bool
  | [] => true
  | node :: later =>
    later.all (fun other => decide (MemberId.compare node.memberId other.memberId ≠ 0)) &&
      decide (node.rslPort ≠ 0) &&
      (decide (4 ≤ version.raw) || (strtoui64 node.memberId.value).2.isEmpty) &&
      verifyMembers version later

/-- `MemberSet::Verify`. -/
def MemberSet.verify (set : MemberSet) (version : ProtocolVersion) : Bool :=
  !set.members.isEmpty && verifyMembers version set.members

/-! ## The condition -/

def MemberSet.memberIds (set : MemberSet) : List MemberId := set.members.map RslNode.memberId

/-- What the types of `RSLNode` and `MemberSet` hold. -/
structure RslNode.Typed (node : RslNode) : Prop where
  memberId : node.memberId.value.length < MemberId.bufferSize
  ip : node.ip < 4294967296
  rslPort : node.rslPort < 65536
  rslLearnPort : node.rslLearnPort < 65536
  appPort : node.appPort < 65536
  hostName : node.hostName.length < hostNameSize

structure MemberSet.Typed (set : MemberSet) : Prop where
  nodes : ∀ node ∈ set.members, RslNode.Typed node
  cookie : set.cookie.length < 4294967296

/-- The ids that were read back are those that were written, and they are still different. -/
structure SameIds (set read : MemberSet) : Prop where
  same : memberIds read = memberIds set
  distinct : (memberIds read).Nodup

/-- The ids come back in C++ and in Rust. -/
structure IdsSurvive (set : MemberSet) (fill : Fill) (version : ProtocolVersion) : Prop where
  cpp : ∃ bytes read, marshal set fill version = .ok bytes ∧
    (unMarshal version).exact bytes = .ok (read, []) ∧ SameIds set read
  rust : ∃ bytes read, set.marshal version = .ok bytes ∧
    Wire.MemberSet.unmarshal version bytes = some (read, []) ∧ SameIds set read

/-- A number of 64 bits in decimal, without leading zeros and with nothing for 0. -/
def Canonical (id : MemberId) : Prop := ∃ n < 18446744073709551616, id.value = decimal n

/-! ## Ids that are accepted are different -/

theorem means_strncmp {v w : Bytes} (hlen : v.length = w.length) :
    Means (strncmp v w) (compare v w) := by
  induction v generalizing w with
  | nil =>
    obtain rfl := eq_nil_of_length_eq_zero hlen.symm
    simp [strncmp, Means]
  | cons a v ih =>
    obtain ⟨b, w, rfl⟩ := exists_cons_of_length_eq_add_one hlen.symm
    rw [strncmp, List.compare_cons_cons]
    split_ifs with heq hlt
    · rw [heq, Std.ReflOrd.compare_self]
      exact ih (Nat.succ.inj hlen)
    · rw [Std.compare_eq_lt.mpr hlt]
      simp [Means]
    · have hgt : b < a := UInt8.lt_of_le_of_ne (UInt8.not_lt.mp hlt) (Ne.symm heq)
      rw [Std.compare_eq_gt.mpr hgt]
      simp [Means]

/-- The comparison of two ids and the one of their buffers (`IdBuffer.means_compare`) test one
order. -/
theorem MemberId.means_compare (a b : MemberId) : Means (MemberId.compare a b) (a.cmp b) := by
  rw [MemberId.compare, MemberId.cmp]
  split_ifs with hlen
  · exact means_strncmp hlen
  · exact means_sub _ _

theorem MemberId.compare_eq_zero {a b : MemberId} : MemberId.compare a b = 0 ↔ a = b := by
  obtain ⟨-, -, heq, -⟩ := (MemberId.means_compare a b).tests
  rw [heq, MemberId.cmp]
  obtain ⟨v⟩ := a
  obtain ⟨w⟩ := b
  split_ifs with hlen
  · rw [Std.compare_eq_iff_eq, MemberId.mk.injEq]
  · exact ⟨fun h => absurd (Nat.compare_eq_eq.mp h) hlen, fun h => absurd (by rw [h]) hlen⟩

variable {version : ProtocolVersion}

/-- `Verify` accepts no two members with one id. -/
theorem nodup_of_verifyMembers {members : List RslNode}
    (h : verifyMembers version members = true) : (members.map RslNode.memberId).Nodup := by
  induction members with
  | nil => exact nodup_nil
  | cons node later ih =>
    rw [verifyMembers, Bool.and_eq_true, Bool.and_eq_true, Bool.and_eq_true] at h
    obtain ⟨⟨⟨hother, -⟩, -⟩, hlater⟩ := h
    rw [map_cons, nodup_cons]
    refine ⟨fun hmem => ?_, ih hlater⟩
    obtain ⟨other, hin, heq⟩ := mem_map.mp hmem
    exact of_decide_eq_true (all_eq_true.mp hother other hin)
      (MemberId.compare_eq_zero.mpr heq.symm)

theorem MemberSet.nodup_of_verify {set : MemberSet}
    (h : verify set version = true) : (memberIds set).Nodup :=
  nodup_of_verifyMembers (Bool.and_eq_true_iff.mp h).2

/-! ## What is read back -/

theorem isFixed64_of_le (h : version.raw ≤ 3) :
    version.memberIdIsFixed64 = false := by
  rw [ProtocolVersion.memberIdIsFixed64]
  exact decide_eq_false (by omega)

theorem representable_iff (h : version.raw ≤ 3) (id : MemberId) :
    id.Representable version ↔ Canonical id := by
  rw [MemberId.Representable, isFixed64_of_le h]
  rfl

theorem memberIds_carriedSet (version : ProtocolVersion) (set : MemberSet) :
    memberIds (carriedSet version set) = memberIds set := by
  rw [memberIds, memberIds, carriedSet, map_map]
  refine map_congr_left fun node _ => ?_
  show (carriedNode version node).memberId = node.memberId
  rw [carriedNode]
  split_ifs <;> rfl

/-- The port that the version does not carry is not written. -/
theorem marshal_carriedSet (version : ProtocolVersion) (set : MemberSet) :
    (carriedSet version set).marshal version = set.marshal version := by
  have hnode : ∀ node : RslNode, (carriedNode version node).marshal version =
      node.marshal version := by
    intro node
    rw [Wire.RslNode.marshal, Wire.RslNode.marshal, carriedNode]
    cases version.memberSetUsesLearnPort <;> rfl
  rw [Wire.MemberSet.marshal, Wire.MemberSet.marshal, carriedSet, length_map, map_map]
  simp only [Function.comp_def, hnode]

/-- Nodes with canonical ids can be carried. -/
theorem wellFormed_carriedSet (hversion : version.raw ≤ 3) {set : MemberSet}
    (htyped : Typed set) (hids : ∀ node ∈ set.members, Canonical node.memberId) :
    ∀ node ∈ (carriedSet version set).members, node.WellFormed version := by
  intro node hnode
  obtain ⟨old, hold, rfl⟩ := mem_map.mp hnode
  have hport : version.memberSetUsesLearnPort = false := decide_eq_false (by omega)
  have hfields := htyped.nodes old hold
  rw [carriedNode, hport]
  refine ⟨(representable_iff hversion _).mpr (hids old hold), hfields.ip, hfields.rslPort,
    Nat.zero_lt_succ _, hfields.appPort, hfields.hostName.trans (by decide), ?_⟩
  rw [hport]
  rfl

/-- A cookie that was written and read back is not too long. -/
theorem cookie_le_of_unmarshal {set read : MemberSet} {bytes rest : Bytes}
    (hcount : set.members.length < 65536) (hcookie : set.cookie.length < 4294967296)
    (hnodes : ∀ node ∈ (carriedSet version set).members, node.WellFormed version)
    (hm : set.marshal version = .ok bytes)
    (hr : Wire.MemberSet.unmarshal version bytes = some (read, rest)) :
    set.cookie.length ≤ maxMemberSetCookieLen := by
  have hcarried : (carriedSet version set).members.length = set.members.length := length_map ..
  rw [← marshal_carriedSet] at hm
  obtain ⟨count, _, hcountOk, hm₁, rfl⟩ := concat_cons_eq_ok hm
  obtain ⟨nodes, _, hnodesOk, hm₂, rfl⟩ := concat_cons_eq_ok hm₁
  obtain ⟨len, tail, hlenOk, -, rfl⟩ := concat_cons_eq_ok hm₂
  -- The reader is at the length of the cookie.
  obtain ⟨_, hok, hreadCount⟩ := encodes_u16 (hcarried.symm ▸ hcount)
  cases hok.symm.trans hcountOk
  obtain ⟨_, hok, hreadNodes⟩ :=
    encodes_replicate fun node hnode => Wire.RslNode.encodes (hnodes node hnode)
  cases hok.symm.trans hnodesOk
  obtain ⟨_, hok, hreadLen⟩ :=
    encodes_u32 (show (carriedSet version set).cookie.length < _ from hcookie)
  cases hok.symm.trans hlenOk
  obtain ⟨_, _, h, hr⟩ := bind_eq_some.mp hr
  cases (hreadCount _).symm.trans h
  obtain ⟨_, _, h, hr⟩ := bind_eq_some.mp hr
  cases (hreadNodes _).symm.trans h
  obtain ⟨_, _, h, hr⟩ := bind_eq_some.mp hr
  cases (hreadLen _).symm.trans h
  obtain ⟨_, _, h, -⟩ := bind_eq_some.mp hr
  rw [Parser.check] at h
  split_ifs at h with hle
  exact of_decide_eq_true hle

/-- In a version up to 3, the ids of an accepted set survive exactly if they are canonical, and the
number of members and the cookie are carried. -/
theorem ids_survive_iff {set : MemberSet} {version : ProtocolVersion} (hversion : version.raw ≤ 3)
    (htyped : Typed set) (hverify : verify set version = true) (fill : Fill) :
    IdsSurvive set fill version ↔ set.members.length < 65536 ∧
      set.cookie.length ≤ maxMemberSetCookieLen ∧ ∀ node ∈ set.members,
        Canonical node.memberId := by
  have hdistinct := nodup_of_verify hverify
  constructor
  · rintro ⟨-, bytes, read, hm, hr, hsame, -⟩
    -- What was read is well formed, and its ids are those of the set.
    obtain ⟨_, -, ⟨hread, -⟩, -⟩ := yields version _ _ _ hr
    have hlength := congrArg length hsame
    rw [memberIds, memberIds, length_map, length_map] at hlength
    have hcount : set.members.length < 65536 := hlength ▸ hread.members
    have hids : ∀ node ∈ set.members, Canonical node.memberId := by
      intro node hnode
      have hmem : node.memberId ∈ memberIds read := hsame ▸ mem_map_of_mem hnode
      obtain ⟨other, hother, heq⟩ := mem_map.mp hmem
      rw [← heq]
      exact (representable_iff hversion _).mp (hread.nodes other hother).memberId
    refine ⟨hcount, ?_, hids⟩
    exact cookie_le_of_unmarshal hcount htyped.cookie
      (wellFormed_carriedSet hversion htyped hids) hm hr
  · rintro ⟨hcount, hcookie, hids⟩
    have hreadable : (carriedSet version set).Readable version := by
      refine ⟨⟨?_, wellFormed_carriedSet hversion htyped hids, htyped.cookie⟩, hcookie⟩
      rwa [carriedSet, length_map]
    have hsame : SameIds set (carriedSet version set) := by
      refine ⟨memberIds_carriedSet version set, ?_⟩
      rwa [memberIds_carriedSet]
    have hnames : namesFit set = true :=
      all_eq_true.mpr fun node hnode => decide_eq_true (htyped.nodes node hnode).hostName
    constructor
    · obtain ⟨bytes, hbytes, hreads⟩ := encodes hreadable hnames fill
      have hread := hreads []
      rw [append_nil] at hread
      refine ⟨bytes, _, hbytes, (sim_unMarshal version).covers _ _ _ hread ?_, hsame⟩
      intro node hnode
      obtain ⟨old, hold, rfl⟩ := mem_map.mp hnode
      rw [hostName_carriedNode]
      exact (htyped.nodes old hold).hostName
    · obtain ⟨bytes, hbytes, hreads⟩ := Wire.MemberSet.encodes hreadable
      have hread := hreads []
      rw [append_nil] at hread
      rw [marshal_carriedSet] at hbytes
      exact ⟨bytes, _, hbytes, hread, hsame⟩

/-- Members with these ids. -/
def membersNamed (ids : List Bytes) : MemberSet := ⟨ids.map fun id => ⟨⟨id⟩, 0, 1, 0, 0, []⟩, []⟩

theorem typed_membersNamed {ids : List Bytes} (h : ∀ id ∈ ids, id.length < 64) :
    Typed (membersNamed ids) := by
  refine ⟨fun node hnode => ?_, by show 0 < 4294967296; decide⟩
  obtain ⟨id, hid, rfl⟩ := mem_map.mp hnode
  exact ⟨h id hid, (by decide : 0 < 4294967296), (by decide : 1 < 65536), (by decide : 0 < 65536),
    (by decide : 0 < 65536), (by decide : 0 < hostNameSize)⟩

theorem ids_survive_decimal : IdsSurvive (membersNamed [[49], [50]]) (fun _ _ => 0) ⟨3⟩ := by
  refine (ids_survive_iff (by decide) (typed_membersNamed (by decide)) (by decide) _).mpr
    ⟨by decide, by decide, fun node hnode => ?_⟩
  rcases mem_cons.mp hnode with rfl | hnode
  · exact ⟨1, by decide, rfl⟩
  · rw [mem_singleton.mp hnode]
    exact ⟨2, by decide, rfl⟩

/-- `8` and `010` are accepted as two members, and both are read back as `8`. -/
theorem not_ids_survive :
    verify (membersNamed [[56], [48, 49, 48]]) ⟨3⟩ = true ∧
    (∃ bytes read, marshal (membersNamed [[56], [48, 49, 48]]) (fun _ _ => 0) ⟨3⟩ = .ok bytes ∧
      (unMarshal ⟨3⟩).exact bytes = .ok (read, []) ∧
      memberIds read = [⟨[56]⟩, ⟨[56]⟩]) ∧
    (∃ bytes read, (membersNamed [[56], [48, 49, 48]]).marshal ⟨3⟩ = .ok bytes ∧
      Wire.MemberSet.unmarshal ⟨3⟩ bytes = some (read, []) ∧
      memberIds read = [⟨[56]⟩, ⟨[56]⟩]) ∧
    ¬ IdsSurvive (membersNamed [[56], [48, 49, 48]]) (fun _ _ => 0) ⟨3⟩ := by
  refine ⟨by decide +kernel, ⟨_, _, rfl, rfl, rfl⟩, ⟨_, _, rfl, rfl, rfl⟩, ?_⟩
  rintro ⟨-, bytes, read, hm, hr, hsame⟩
  cases hm
  cases hr
  exact absurd hsame.same (by decide)

end Rsl.Cpp
