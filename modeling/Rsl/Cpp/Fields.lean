import Rsl.Cpp.Message
import Rsl.Wire.RoundTrip

/-!
# The fields of a message in C++ and in Rust

Read from the same unread bytes, the headers, ids, ballots and fixed fields of the C++ messages are
those of the Rust messages (`Prog.Matches`). The C++ header is short, so it is read without wrapping
wherever it does not start close to `word`. The readers of member sets read fields of at most 8192
bytes, and differ from the Rust ones in the assertion on host names.
-/

set_option autoImplicit false

namespace Rsl.Cpp

open Lib Wire Prog

theorem matches_readUInt16 : Matches readUInt16 readU16 := (matches_read 2).map leNat

theorem matches_readUInt32 : Matches readUInt32 readU32 := (matches_read 4).map leNat

theorem matches_readUInt64 : Matches readUInt64 readU64 := (matches_read 8).map leNat

theorem matches_readBool : Matches Cpp.readBool Wire.readBool := by
  have heq : Cpp.readBool = Prog.read 1 >>= fun b => pure (leNat b != 0) := rfl
  rw [heq]
  exact (matches_read 1).map fun b => leNat b != 0

variable (version : ProtocolVersion)

theorem MemberId.matches_unMarshal :
    Matches (MemberId.unMarshal version) (Wire.MemberId.unmarshal version) := by
  rw [MemberId.unMarshal, Wire.MemberId.unmarshal]
  cases hv : version.memberIdIsFixed64 with
  | true =>
    have hraw : ¬ version.raw ≤ 3 := by
      simpa [ProtocolVersion.memberIdIsFixed64] using hv
    rw [if_neg hraw, if_pos rfl]
    exact (matches_read 64).bind fun field => .check (matches_pure _)
  | false =>
    have hraw : version.raw ≤ 3 := by
      simpa [ProtocolVersion.memberIdIsFixed64] using hv
    rw [if_pos hraw, if_neg (by decide)]
    exact matches_readUInt64.map _

theorem BallotNumber.matches_unMarshal :
    Matches (BallotNumber.unMarshal version) (Wire.BallotNumber.unmarshal version) :=
  matches_readUInt32.bind fun _ => (MemberId.matches_unMarshal version).map _

variable {α : Type} {p : Reader α}

theorem matches_readIf {q : Wire.Reader α} (h : Matches p q) (present : Bool) (default : α) :
    Matches (Cpp.readIf present p default) (Wire.readIf present q default) := by
  cases present with
  | true => exact h
  | false => exact matches_pure default

/-- Both check the version before they use it. -/
theorem matches_version (raw : Nat) {k : Unit → Reader α}
    {l : ProtocolVersion → Wire.Reader α} (h : Matches (k ()) (l ⟨raw⟩)) :
    Matches (Prog.require (isVersionValid raw) >>= k)
      (Parser.ofOption (ProtocolVersion.fromWire raw) >>= l) := by
  cases hv : isVersionValid raw with
  | false =>
    have hnone : ProtocolVersion.fromWire raw = none := if_neg (of_decide_eq_false hv)
    rw [hnone]
    exact fun _ => rfl
  | true =>
    have hsome : ProtocolVersion.fromWire raw = some ⟨raw⟩ := if_pos (of_decide_eq_true hv)
    rw [hsome]
    exact fun x => h x

theorem Header.matches_unMarshal : Matches Header.unMarshal Wire.Header.unmarshal := by
  refine matches_readUInt16.bind fun raw => matches_version raw ?_
  refine matches_readUInt32.bind fun unMarshalLen => matches_readUInt64.bind fun checksum =>
    matches_readUInt32.bind fun magic => matches_readUInt16.bind fun msgId =>
    (MemberId.matches_unMarshal _).bind fun memberId => matches_readUInt64.bind fun decree => ?_
  refine (matches_readIf matches_readUInt32 _ 1).bind fun configurationNumber =>
    (BallotNumber.matches_unMarshal _).bind fun ballot =>
    (matches_readIf matches_readUInt64 _ 0).bind fun payload => .check ?_
  have hmagic : (magic == magicNumber) = decide (magic = magicNumber) := rfl
  rw [hmagic]
  exact .check (matches_pure _)

theorem JoinMessage.matches_unMarshal : Matches JoinMessage.unMarshal Wire.JoinMessage.unmarshal :=
  Header.matches_unMarshal.bind fun _ => .check <| matches_readUInt16.bind fun _ =>
    matches_readUInt64.bind fun _ => matches_readUInt64.bind fun _ => matches_readUInt64.map _

theorem StatusResponse.matches_unMarshal :
    Matches StatusResponse.unMarshal Wire.StatusResponse.unmarshal :=
  Header.matches_unMarshal.bind fun header => .check <| matches_readUInt64.bind fun _ =>
    (BallotNumber.matches_unMarshal header.version).bind fun _ => matches_readUInt64.bind fun _ =>
    matches_readUInt64.bind fun _ => matches_readUInt64.bind fun _ =>
      matches_readUInt64.bind fun _ =>
    (BallotNumber.matches_unMarshal header.version).bind fun _ => matches_readUInt32.map _

theorem PrimaryCookie.matches_unMarshalCopy :
    Matches PrimaryCookie.unMarshalCopy readPrimaryCookie := by
  refine matches_readUInt32.bind fun len => ?_
  rcases Nat.eq_zero_or_pos len with rfl | hpos
  · exact matches_pure []
  · rw [if_neg hpos.ne', Cpp.readIf, if_pos (decide_eq_true hpos)]
    exact matches_read len

theorem PrepareMsg.matches_unMarshal : Matches PrepareMsg.unMarshal Wire.PrepareMsg.unmarshal :=
  Header.matches_unMarshal.bind fun _ => .check <|
    (matches_readIf PrimaryCookie.matches_unMarshalCopy _ []).map _

/-- The nodes that the C++ reader returns are those of the Rust reader whose host name fits. -/
theorem RslNode.sim_unMarshal :
    Sim (fun node => node.hostName.length < hostNameSize) (RslNode.unMarshal version)
      (Wire.RslNode.unmarshal version) := by
  refine (MemberId.matches_unMarshal version).bind_sim fun memberId =>
    matches_readUInt32.bind_sim fun ip => matches_readUInt16.bind_sim fun rslPort =>
    matches_readUInt16.bind_sim fun port => matches_readUInt16.bind_sim fun hostLen => ?_
  have hport : version.memberSetUsesLearnPort = decide (version.raw > 3) := rfl
  simp only [hport, decide_eq_true_eq]
  -- Both branches have the host name that was read.
  have hname : ∀ x node rest, (Parser.take hostLen >>= fun hostName => pure (if version.raw > 3 then
      (⟨memberId, ip, rslPort, port, 0, hostName⟩ : RslNode)
        else ⟨memberId, ip, rslPort, 0, port, hostName⟩)) x =
        some (node, rest) → node.hostName.length = hostLen := by
    intro x node rest hx
    obtain ⟨hostName, y, htake, hx⟩ := Parser.bind_eq_some.mp hx
    cases hx
    have hlen : hostName.length = hostLen := Parser.ensures_take hostLen _ _ _ htake
    split <;> exact hlen
  refine .assert (fun hlen => ((matches_read hostLen).map _).sim fun x node rest hx => ?_)
    fun x node rest hx hlt => ?_
  · rw [hname x node rest hx]
    exact of_decide_eq_true hlen
  · rw [hname x node rest hx] at hlt
    exact decide_eq_true hlt

/-- An empty field is not read in C++. -/
theorem matches_cookie (cookieLength : Nat) :
    Matches (Cpp.readIf (cookieLength ≠ 0) (readData cookieLength) [])
      (Parser.take cookieLength) := by
  rcases Nat.eq_zero_or_pos cookieLength with rfl | hpos
  · exact fun x => rfl
  · rw [Cpp.readIf, if_pos (decide_eq_true hpos.ne')]
    exact matches_read cookieLength

/-- The host names of the set fit `m_hostName`. -/
def namesFit (set : MemberSet) : Bool :=
  set.members.all fun node => decide (node.hostName.length < hostNameSize)

theorem namesFit_iff (set : MemberSet) :
    namesFit set = true ↔ ∀ node ∈ set.members, node.hostName.length < hostNameSize := by
  simp [namesFit]

theorem MemberSet.sim_unMarshal :
    Sim (fun set => ∀ node ∈ set.members, node.hostName.length < hostNameSize)
      (MemberSet.unMarshal version) (Wire.MemberSet.unmarshal version) := by
  refine matches_readUInt16.bind_sim fun numMembers =>
    ((RslNode.sim_unMarshal version).times numMembers).bind (fun members hall => ?_) ?_
  · exact matches_readUInt32.bind_sim fun cookieLength => (matches_require _).bind_sim fun _ =>
      (matches_cookie cookieLength).bind_sim fun _ => sim_pure hall
  · intro members y set z hread hnames
    obtain ⟨cookieLength, y₁, -, hread⟩ := Parser.bind_eq_some.mp hread
    obtain ⟨_, y₂, -, hread⟩ := Parser.bind_eq_some.mp hread
    obtain ⟨cookie, y₃, -, hread⟩ := Parser.bind_eq_some.mp hread
    cases hread
    exact hnames

theorem BootstrapMsg.sim_unMarshal :
    Sim (fun m => ∀ node ∈ m.memberSet.members, node.hostName.length < hostNameSize)
      BootstrapMsg.unMarshal Wire.BootstrapMsg.unmarshal := by
  refine Header.matches_unMarshal.bind_sim fun header => (matches_require _).bind_sim fun _ =>
    (MemberSet.sim_unMarshal header.version).bind (fun set hall => sim_pure hall) ?_
  intro set y m z hread hnames
  cases hread
  exact hnames

/-! ## How much is read -/

theorem short_readUInt16 : readUInt16.Short 2 := (short_read 2).bind fun _ => short_pure _

theorem short_readUInt32 : readUInt32.Short 4 := (short_read 4).bind fun _ => short_pure _

theorem short_readUInt64 : readUInt64.Short 8 := (short_read 8).bind fun _ => short_pure _

theorem short_readIf {n : Nat} (hp : p.Short n) (present : Bool)
    (default : α) : (Cpp.readIf present p default).Short n := by
  cases present with
  | true => exact hp
  | false => exact (short_pure default).mono (Nat.zero_le n)

theorem MemberId.short_unMarshal : (MemberId.unMarshal version).Short 64 := by
  rw [MemberId.unMarshal]
  split
  · exact (short_readUInt64.bind fun _ => short_pure _).mono (by decide)
  · exact (short_read 64).bind fun _ => (short_require _).bind fun _ => short_pure _

theorem BallotNumber.short_unMarshal :
    (BallotNumber.unMarshal version).Short 68 :=
  short_readUInt32.bind fun _ => (MemberId.short_unMarshal version).bind fun _ => short_pure _

/-- A header has at most 172 bytes. -/
theorem Header.short_unMarshal : Header.unMarshal.Short 172 := by
  refine (short_readUInt16.bind fun raw => (short_require _).bind fun _ =>
    short_readUInt32.bind fun _ =>
    short_readUInt64.bind fun _ => short_readUInt32.bind fun _ => short_readUInt16.bind fun _ =>
    (MemberId.short_unMarshal _).bind fun _ => short_readUInt64.bind fun _ =>
    (short_readIf short_readUInt32 _ 1).bind fun _ =>
    (BallotNumber.short_unMarshal _).bind fun _ =>
    (short_readIf short_readUInt64 _ 0).bind fun _ =>
    (short_require _).bind fun _ => (short_require _).bind fun _ => short_pure _).mono ?_
  decide

theorem JoinMessage.short_unMarshal : JoinMessage.unMarshal.Short 198 :=
  Header.short_unMarshal.bind fun _ => (short_require _).bind fun _ =>
    short_readUInt16.bind fun _ =>
    short_readUInt64.bind fun _ => short_readUInt64.bind fun _ => short_readUInt64.bind fun _ =>
    short_pure _

theorem StatusResponse.short_unMarshal : StatusResponse.unMarshal.Short 352 :=
  Header.short_unMarshal.bind fun header => (short_require _).bind fun _ =>
    short_readUInt64.bind fun _ => (BallotNumber.short_unMarshal header.version).bind fun _ =>
    short_readUInt64.bind fun _ => short_readUInt64.bind fun _ => short_readUInt64.bind fun _ =>
    short_readUInt64.bind fun _ => (BallotNumber.short_unMarshal header.version).bind fun _ =>
    short_readUInt32.bind fun _ => short_pure _

theorem bounded_readIf {b : Nat} {present : Bool}
    (hp : present = true → p.Bounded b) (default : α) :
    (Cpp.readIf present p default).Bounded b := by
  cases present with
  | true => exact hp rfl
  | false => trivial

/-- The longest field of a node is its host name. -/
theorem RslNode.bounded_unMarshal :
    (RslNode.unMarshal version).Bounded 8192 := by
  refine ((MemberId.short_unMarshal version).bounded.mono (by decide)).bind fun _ =>
    (short_readUInt32.bounded.mono (by decide)).bind fun _ =>
    (short_readUInt16.bounded.mono (by decide)).bind fun _ =>
    (short_readUInt16.bounded.mono (by decide)).bind fun _ =>
    (short_readUInt16.bounded.mono (by decide)).bind fun len => .guard fun hlen => ?_
  have hlen : len < hostNameSize := of_decide_eq_true hlen
  exact (bounded_read (by rw [hostNameSize] at hlen; omega)).bind fun _ => trivial

theorem MemberSet.bounded_unMarshal :
    (MemberSet.unMarshal version).Bounded 8192 := by
  refine (short_readUInt16.bounded.mono (by decide)).bind fun _ =>
    ((RslNode.bounded_unMarshal version).times _).bind fun _ =>
    (short_readUInt32.bounded.mono (by decide)).bind fun len => .guard fun hlen => ?_
  exact (bounded_readIf (fun _ => bounded_read (of_decide_eq_true hlen)) _).bind fun _ => trivial

theorem bounded_readBool : Cpp.readBool.Bounded 8192 := ⟨by decide, fun _ _ => trivial⟩

theorem Vote.bounded_unMarshalFlags :
    (Vote.unMarshalFlags version).Bounded 8192 :=
  (bounded_readIf (fun _ => bounded_readBool) _).bind fun _ =>
    (bounded_readIf (fun _ => (MemberSet.bounded_unMarshal version).map some) _).bind
      fun _ => (bounded_readIf (fun _ => bounded_readBool) _).bind fun _ => trivial

theorem BootstrapMsg.bounded_unMarshal : BootstrapMsg.unMarshal.Bounded 8192 :=
  (Header.short_unMarshal.bounded.mono (by decide)).bind fun _ => .guard fun _ =>
    (MemberSet.bounded_unMarshal _).bind fun _ => trivial

/-- A cookie's length is any `UInt32`. -/
theorem PrimaryCookie.bounded_unMarshalCopy : PrimaryCookie.unMarshalCopy.Bounded (word - 1) := by
  refine ⟨by decide, fun x hx => ?_⟩
  have hlen : leNat x < word := by
    have h := leNat_lt x
    rwa [hx] at h
  exact bounded_readIf (fun _ => bounded_read (Nat.le_sub_one_of_lt hlen)) _

theorem PrepareMsg.bounded_unMarshal : PrepareMsg.unMarshal.Bounded (word - 1) :=
  (Header.short_unMarshal.bounded.mono (by decide)).bind fun _ => .guard fun _ =>
    (bounded_readIf (fun _ => PrimaryCookie.bounded_unMarshalCopy) _).bind fun _ => trivial

theorem ConfigurationInfo.bounded_unMarshal :
    (ConfigurationInfo.unMarshal version).Bounded 8192 :=
  (short_readUInt32.bounded.mono (by decide)).bind fun _ =>
    (short_readUInt64.bounded.mono (by decide)).bind fun _ =>
    (MemberSet.bounded_unMarshal version).bind fun _ => trivial

theorem CheckpointFields.bounded_unMarshal :
    (CheckpointFields.unMarshal version).Bounded 8192 :=
  (short_readUInt32.bounded.mono (by decide)).bind fun _ =>
    (short_readUInt64.bounded.mono (by decide)).bind fun _ =>
    ((MemberId.short_unMarshal version).bounded.mono (by decide)).bind fun _ =>
    (short_readUInt64.bounded.mono (by decide)).bind fun _ =>
    ((BallotNumber.short_unMarshal version).bounded.mono (by decide)).bind fun _ =>
    (ConfigurationInfo.bounded_unMarshal version).bind fun _ =>
    (bounded_readIf (fun _ => bounded_readBool) _).bind fun _ =>
    (bounded_readIf (fun _ => short_readUInt64.bounded.mono (by decide)) _).bind fun _ =>
    (bounded_readIf (fun _ => short_readUInt32.bounded.mono (by decide)) _).bind fun _ => trivial

end Rsl.Cpp
