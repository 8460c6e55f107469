import Rsl.Cpp.Agree
import Rsl.LogFile

/-!
# A C++ peer of a Rust replica

What the Rust writer sends goes to the C++ reader. A message that the Rust reader returns, with host
names that fit the C++ array, a vote that is not close to 4 GiB and no requests in a
reconfiguration, is tame (`messageTame_of_wire`), so the C++ reader returns it too. `msgSuits`
collects what the writer would have to check: the messages that reach a C++ peer unchanged are
exactly the ones that the Rust reader reads back and that suit the peer.
-/

set_option autoImplicit false

namespace Rsl.Cpp

open Lib Wire List
open Option (bind_eq_some_iff map_eq_some_iff)

/-- The vote can be copied out and parsed without a failing assertion. -/
def voteSuits (vote : Wire.Vote) : Bool :=
  decide (vote.header.unMarshalLen ≤ word - 4096) &&
    vote.membersInNewConfiguration.all namesFit &&
    (!vote.isReconfiguration || vote.requests.isEmpty)

/-- The message can be parsed without a failing assertion. -/
def msgSuits : Msg → Bool
  | .vote m => voteSuits m
  | .prepareAccepted m => voteSuits m.vote
  | .bootstrap m => namesFit m.memberSet
  | _ => true

/-! ## Messages that the Rust reader returns are tame -/

/-- Requests that the Rust loop reads are tame. -/
theorem requestsTame_of_wire {isReconfiguration : Bool} {n pos : Nat} {x rest : Bytes}
    {requests : List Bytes} (hword : pos + x.length < word)
    (h : Wire.readRequests n x = some (requests, rest))
    (hreconf : isReconfiguration = true → requests = []) :
    requestsTame isReconfiguration n pos x = true := by
  induction n generalizing pos x requests with
  | zero => rfl
  | succ n ih =>
    rw [requestsTame]
    by_cases hx : x.length = 0
    · rw [if_pos hx]
    rw [if_neg hx]
    rw [wire_readRequests_succ hx] at h
    split_ifs at h with hbad
    obtain ⟨⟨more, rest'⟩, hmore, heq⟩ := map_eq_some_iff.mp h
    cases heq
    have hfalse : isReconfiguration = false := by
      cases isReconfiguration with
      | false => rfl
      | true => cases hreconf rfl
    rw [hfalse] at ih ⊢
    generalize leNat (x.take 4) = reqLen at hbad hmore ⊢
    have hmod : (pos + 4 + reqLen) % word = pos + 4 + reqLen := Nat.mod_eq_of_lt (by omega)
    have hsub : pos + 4 + reqLen - pos = 4 + reqLen := by omega
    simp only [Bool.false_eq_true, if_false, hmod, hsub]
    rw [if_neg (by omega), if_neg (by omega), if_neg (by omega), if_neg (by omega)]
    exact ih (by rw [length_drop]; omega) hmore fun hr => by cases hr

variable {m : Msg} {vote : Wire.Vote} {data : Bytes}

/-- A body that the Rust reader returns is tame, if it suits. -/
theorem bodyTame_of_wire {header : Header} {data rest : Bytes}
    (hword : data.length + 8 ≤ word) (hbase : Header.baseSize header.version ≤ data.length)
    (h : Wire.Vote.readBody header (data.drop (Header.baseSize header.version)) = some (vote, rest))
    (hfit : vote.membersInNewConfiguration.all namesFit = true)
    (hreconf : vote.isReconfiguration = true → vote.requests = []) :
    bodyTame header.version data = true := by
  rw [wire_readBody_eq, Vote.wire_cookie hword hbase] at h
  rw [bodyTame]
  cases hcookie : cookieEnd header.version data with
  | none => rfl
  | some start =>
    rw [hcookie] at h
    have hstart := Vote.cookieEnd_le hbase hcookie
    obtain ⟨⟨cookie, x⟩, hbytes, h⟩ := bind_eq_some_iff.mp h
    obtain ⟨bytes, -, hpair⟩ := map_eq_some_iff.mp hbytes
    cases hpair
    obtain ⟨⟨flags, y⟩, hflags, h⟩ := bind_eq_some_iff.mp h
    obtain ⟨⟨requests, z⟩, hreqs, h⟩ := bind_eq_some_iff.mp h
    cases h
    have hexact := (Vote.sim_unMarshalFlags _).covers _ _ _ hflags hfit
    have hsafe : (Vote.unMarshalFlags header.version).safe word start (data.drop start) = true := by
      apply Prog.safe_of_exact ?_ hexact
      rw [length_drop]
      omega
    have hy : y.length ≤ data.length := by
      have hlen := Prog.exact_length hexact
      rw [length_drop] at hlen
      omega
    simp only [hsafe, hexact, Bool.true_and]
    exact requestsTame_of_wire (by omega) hreqs hreconf

theorem readBody_header {header : Header} {x rest : Bytes}
    (h : Wire.Vote.readBody header x = some (vote, rest)) : vote.header = header := by
  rw [wire_readBody_eq] at h
  obtain ⟨c, -, h⟩ := bind_eq_some_iff.mp h
  obtain ⟨f, -, h⟩ := bind_eq_some_iff.mp h
  obtain ⟨r, -, h⟩ := bind_eq_some_iff.mp h
  cases h
  rfl

/-- A vote that the Rust reader returns is tame, if it suits. -/
theorem voteTame_of_wire {outer : Bytes} {readPtr : Nat}
    (hword : outer.length < word) (hptr : readPtr + 172 < word) (hpos : readPtr ≤ outer.length)
    (h : Wire.Vote.unmarshal (outer.drop readPtr) = some vote) (hsuits : voteSuits vote = true) :
    voteTame outer readPtr = true := by
  have hread : ∃ header rest, Wire.Header.unmarshal (outer.drop readPtr) = some (header, rest) := by
    cases hheader : Wire.Header.unmarshal (outer.drop readPtr) with
    | none =>
      rw [Wire.Vote.unmarshal, unmarshalBase, hheader] at h
      cases h
    | some r => exact ⟨r.1, r.2, rfl⟩
  obtain ⟨header, rest, hread⟩ := hread
  have hexact := Header.matches_unMarshal.ok_iff.mpr hread
  obtain ⟨-, -, hbase, hlen⟩ := Header.unMarshal_eq_ok hexact
  have hsafe := Prog.safe_of_short Header.short_unMarshal hptr (outer.drop readPtr)
  rw [Vote.wire_unmarshal_eq hexact] at h
  split_ifs at h with hbad
  obtain ⟨⟨_, rest'⟩, hbody, rfl⟩ := map_eq_some_iff.mp h
  have hheader := readBody_header hbody
  simp only [voteSuits, Bool.and_eq_true, Bool.or_eq_true, decide_eq_true_eq, Bool.not_eq_true',
    hheader] at hsuits
  obtain ⟨⟨hround, hfit⟩, hreconf⟩ := hsuits
  have h4096 : 4096 ≤ word := by decide
  have hdata : ((outer.drop readPtr).take header.unMarshalLen).length = header.unMarshalLen := by
    rw [length_take, length_drop]
    omega
  have htame := bodyTame_of_wire (by omega) (by omega) hbody hfit fun hr => by
    rcases hreconf with hr' | hempty
    · exact absurd hr (by simp [hr'])
    · exact isEmpty_iff.mp hempty
  have hwrap : readPtr + header.unMarshalLen < word := by omega
  simp only [voteTame, hsafe, hexact, htame, hround, hwrap, decide_true,
    Bool.true_and, Bool.or_true]

/-- A message that the Rust reader returns is tame, if it suits. -/
theorem messageTame_of_wire (hword : data.length < word)
    (h : rustUnmarshal data = some m) (hsuits : msgSuits m = true) : messageTame data = true := by
  obtain ⟨_, hheader, h⟩ := bind_eq_some_iff.mp h
  obtain ⟨kind, hkind, h⟩ := bind_eq_some_iff.mp h
  obtain ⟨⟨header, rest⟩, hread, rfl⟩ := map_eq_some_iff.mp hheader
  have hexact := Header.matches_unMarshal.ok_iff.mpr hread
  simp only [messageTame, hexact, hkind]
  cases kind with
  | base => rfl
  | join => rfl
  | statusResponse => rfl
  | vote =>
    obtain ⟨vote, hvote, rfl⟩ := map_eq_some_iff.mp h
    exact voteTame_of_wire hword (by decide) (Nat.zero_le _) hvote hsuits
  | prepare =>
    obtain ⟨_, hmap, rfl⟩ := map_eq_some_iff.mp h
    obtain ⟨⟨m, rest'⟩, hm, rfl⟩ := map_eq_some_iff.mp hmap
    exact Prog.safe_of_exact (by omega) (PrepareMsg.matches_unMarshal.ok_iff.mpr hm)
  | prepareAccepted =>
    obtain ⟨accepted, hm, rfl⟩ := map_eq_some_iff.mp h
    rw [Wire.PrepareAccepted.unmarshal, hread] at hm
    dsimp only at hm
    split_ifs at hm with hmsg
    obtain ⟨vote, hvote, rfl⟩ := map_eq_some_iff.mp hm
    obtain ⟨-, hlen, -, -⟩ := Header.unMarshal_eq_ok hexact
    have hbase := (Header.baseSize_le header.version).2
    refine voteTame_of_wire hword ?_ (Nat.sub_le _ _) ?_ hsuits
    · rw [hlen, Nat.add_sub_cancel]
      have h344 : 172 + 172 < word := by decide
      omega
    · rw [Prog.exact_drop hexact]
      exact hvote
  | bootstrap =>
    obtain ⟨_, hmap, rfl⟩ := map_eq_some_iff.mp h
    obtain ⟨⟨m, rest'⟩, hm, rfl⟩ := map_eq_some_iff.mp hmap
    have hcovers :=
      BootstrapMsg.sim_unMarshal.covers _ _ _ hm ((namesFit_iff m.memberSet).mp hsuits)
    exact Prog.safe_of_exact (by omega) hcovers

/-! ## What reaches the peer -/

/-- A message that the Rust reader returns and that suits the peer is returned by the C++ reader. -/
theorem unMarshalMessage_of_wire (hword : data.length < word)
    (h : rustUnmarshal data = some m) (hsuits : msgSuits m = true) :
    ∃ fuel m', unMarshalMessage fuel data = .ok m' ∧ m'.raw = some m := by
  obtain ⟨⟨fuel, hfine⟩, -⟩ := (robust_iff hword).mpr (messageTame_of_wire hword h hsuits)
  obtain ⟨hok, hrefused⟩ := unMarshalMessage_wire fuel data
  cases hread : unMarshalMessage fuel data with
  | error e =>
    rw [hfine e hread] at hread
    rw [hrefused hread] at h
    cases h
  | ok m' =>
    refine ⟨fuel, m', hread, ?_⟩
    rw [← hok m' hread]
    exact h

/-- A reconfiguration that was read has no requests. -/
theorem Vote.readRequests_reconfiguration {fuel pos q : Nat} {spans : List Span}
    (hword : data.length + 8 ≤ word) (hpos : pos ≤ data.length)
    (h : Vote.readRequests data true fuel pos = .ok (spans, q)) : spans = [] := by
  cases fuel with
  | zero => cases h
  | succ fuel =>
    have hnext : Vote.nextRequest data true pos = _ := Vote.nextRequest_eq hword hpos
    by_cases hend : data.length < pos + 1
    · rw [if_pos hend] at hnext
      rw [Vote.readRequests_of_end hnext] at h
      exact (Prod.mk.inj (Except.ok.inj h)).1.symm
    · rw [if_neg hend] at hnext
      rw [Vote.readRequests_of_stop hnext] at h
      cases h

/-- A vote that the C++ reader returns suits the peer. -/
theorem Vote.suits_of_ok {outer : Bytes} {readPtr fuel p : Nat} {vote : Vote} {v : Wire.Vote}
    (h : Vote.unMarshal fuel outer readPtr = .ok (vote, p)) (hraw : vote.raw = some v) :
    voteSuits v = true := by
  obtain ⟨f, pos, hcopy, hfields, rfl, q, hreqs⟩ := Vote.unMarshal_eq_ok h
  obtain ⟨⟨q', hheader⟩, -, hround, hle, hdata, -⟩ := Vote.copyOut_eq_ok hcopy
  obtain ⟨-, -, hbase, -⟩ := Header.unMarshal_eq_ok (Prog.exact_of_cursor hheader)
  have h4096 : 4096 ≤ word := by decide
  have hdlen : vote.marshal.length = vote.header.unMarshalLen := by
    rw [hdata, length_take, length_drop]
    omega
  rw [Vote.readFields_eq (by omega) (by omega)] at hfields
  cases hcookie : cookieEnd vote.header.version vote.marshal with
  | none =>
    rw [hcookie] at hfields
    cases hfields
  | some start =>
    rw [hcookie] at hfields
    obtain ⟨⟨flags, pos'⟩, hflags, hfields⟩ := bind_eq_ok.mp hfields
    obtain ⟨hpair, rfl⟩ := Prod.mk.inj (Except.ok.inj hfields)
    obtain ⟨-, rfl⟩ := Prod.mk.inj hpair
    have hstart := Vote.cookieEnd_le (by omega) hcookie
    obtain ⟨-, hpos'⟩ := Prog.cursor_pos_le hstart hflags
    have hfit := (Vote.sim_unMarshalFlags _).ensures _ _ _ (Prog.exact_of_cursor hflags)
    obtain ⟨cookie, -, hraw⟩ := bind_eq_some_iff.mp hraw
    obtain ⟨requests, hmap, hraw⟩ := bind_eq_some_iff.mp hraw
    cases hraw
    simp only [voteSuits, Bool.and_eq_true, Bool.or_eq_true, decide_eq_true_eq, Bool.not_eq_true']
    refine ⟨⟨hround, hfit⟩, ?_⟩
    cases hreconf : vote.isReconfiguration with
    | false => exact .inl rfl
    | true =>
      rw [hreconf] at hreqs
      rw [Vote.readRequests_reconfiguration (by omega) hpos' hreqs] at hmap
      cases hmap
      exact .inr rfl

/-- A message that the C++ reader returns suits the peer. -/
theorem suits_of_unMarshalMessage {fuel : Nat} {m' : Message}
    (h : unMarshalMessage fuel data = .ok m') (hraw : m'.raw = some m) : msgSuits m = true := by
  cases hread : Header.unMarshal.cursor word data 0 with
  | error e =>
    have hstop : unMarshalMessage fuel data = .error e := by
      show (Header.unMarshal.cursor word data 0).bind _ = _
      rw [hread, bind_error]
    rw [hstop] at h
    cases h
  | ok r =>
    obtain ⟨header, p⟩ := r
    rw [unMarshalMessage_of_header hread] at h
    cases hkind : kindOf header.msgId with
    | none =>
      rw [hkind] at h
      cases h
    | some kind =>
      rw [hkind] at h
      obtain ⟨⟨m₁, pos⟩, hm, h⟩ := bind_eq_ok.mp h
      cases h
      cases kind with
      | base | join | prepare | statusResponse =>
        obtain ⟨_, -, hm⟩ := bind_eq_ok.mp hm
        cases hm
        cases hraw
        rfl
      | vote =>
        obtain ⟨⟨vote, q⟩, hvote, hm⟩ := bind_eq_ok.mp hm
        cases hm
        obtain ⟨v, hv, rfl⟩ := map_eq_some_iff.mp hraw
        exact Vote.suits_of_ok hvote hv
      | prepareAccepted =>
        rw [Message.unMarshal, bind_apply,
          PrepareAccepted.unMarshal_of_header hread (kindOf_eq_some hkind)] at hm
        obtain ⟨⟨accepted, q⟩, haccepted, hm⟩ := bind_eq_ok.mp hm
        obtain ⟨⟨vote, q'⟩, hvote, haccepted⟩ := bind_eq_ok.mp haccepted
        cases haccepted
        cases hm
        obtain ⟨v, hv, rfl⟩ := map_eq_some_iff.mp hraw
        exact Vote.suits_of_ok hvote hv
      | bootstrap =>
        obtain ⟨⟨boot, q⟩, hboot, hm⟩ := bind_eq_ok.mp hm
        cases hm
        cases hraw
        exact (namesFit_iff boot.memberSet).mpr
          (BootstrapMsg.sim_unMarshal.ensures _ _ _ (Prog.exact_of_cursor hboot))

/-! ## C strings are shorter -/

theorem length_cString_le (name : Bytes) : (cString name).length ≤ name.length := by
  apply IsPrefix.length_le
  exact takeWhile_prefix _

theorem cMemberSet_readable {version : ProtocolVersion} {set : MemberSet}
    (h : set.Readable version) : (cMemberSet set).Readable version := by
  refine ⟨⟨?_, ?_, h.1.cookie⟩, h.2⟩
  · rw [cMemberSet, length_map]
    exact h.1.members
  · intro node hnode
    obtain ⟨node', hnode', rfl⟩ := mem_map.mp hnode
    have hwell := h.1.nodes node' hnode'
    exact ⟨hwell.memberId, hwell.ip, hwell.rslPort, hwell.rslLearnPort, hwell.appPort,
      (length_cString_le _).trans_lt hwell.hostName, hwell.absent⟩

theorem size_cMemberSet_le (version : ProtocolVersion) (set : MemberSet) :
    (cMemberSet set).size version ≤ set.size version := by
  rw [MemberSet.size, MemberSet.size, cMemberSet, map_map]
  have hsum : (set.members.map ((·.size version) ∘ fun node : RslNode =>
      { node with hostName := cString node.hostName })).sum ≤
        (set.members.map (·.size version)).sum := by
    apply sum_le_sum
    intro node hnode
    have hle := length_cString_le node.hostName
    simp only [Function.comp_apply, RslNode.size]
    omega
  simp only
  omega

theorem cVote_readable (h : vote.Readable) : (cVote vote).Readable := by
  have hset : ∀ set, (cVote vote).membersInNewConfiguration = some set →
      ∃ set', vote.membersInNewConfiguration = some set' ∧ set = cMemberSet set' := by
    intro set hmap
    obtain ⟨set', hset', rfl⟩ := map_eq_some_iff.mp hmap
    exact ⟨set', hset', rfl⟩
  constructor
  · refine ⟨h.wellFormed.header, h.wellFormed.msgId, h.wellFormed.primaryCookie,
      h.wellFormed.noPrimaryCookie, ?_, ?_, h.wellFormed.noRelinquishPrimary, h.wellFormed.requests⟩
    · intro hv
      obtain ⟨hreconf, hnone⟩ := h.wellFormed.noReconfiguration hv
      exact ⟨hreconf, by rw [cVote, hnone]; rfl⟩
    · intro set hmap
      obtain ⟨set', hset', rfl⟩ := hset set hmap
      exact (cMemberSet_readable ⟨h.wellFormed.members set' hset', h.cookie set' hset'⟩).1
  · intro set hmap
    obtain ⟨set', hset', rfl⟩ := hset set hmap
    exact h.cookie set' hset'
  · rw [cVote, Option.isSome_map]
    exact h.members
  · refine lt_of_le_of_lt ?_ h.size
    have hset : ((vote.membersInNewConfiguration.map cMemberSet).map
        (·.size vote.header.version)).getD 0
        ≤ (vote.membersInNewConfiguration.map (·.size vote.header.version)).getD 0 := by
      cases vote.membersInNewConfiguration with
      | none => exact le_rfl
      | some set => exact size_cMemberSet_le _ set
    -- Only the member set differs.
    refine Nat.add_le_add_left (Nat.add_le_add_left (Nat.add_le_add_right ?_ _) _) _
    show (if vote.header.version.hasReconfiguration = true then
      1 + (if vote.isReconfiguration = true then _ else 0) else 0) ≤ _
    split_ifs with hv hreconf
    · exact Nat.add_le_add_left hset 1
    · exact le_rfl
    · exact le_rfl

theorem cMsg_readable (h : m.Readable) : (cMsg m).Readable := by
  cases m with
  | base header => exact h
  | vote vote => exact cVote_readable h
  | join m => exact h
  | prepare m => exact h
  | prepareAccepted m => exact ⟨h.1, h.2.1, cVote_readable h.2.2⟩
  | statusResponse m => exact h
  | bootstrap m => exact ⟨h.1, h.2.1, cMemberSet_readable h.2.2⟩

/-- A reader that starts with a header and keeps it. -/
theorem unmarshalBase_of_reader {α : Type} (header : α → Header) {k : Header → Wire.Reader α}
    (hk : ∀ h, Parser.Ensures (fun a => header a = h) (k h)) {buf : Bytes} {a : α}
    (h : ((Wire.Header.unmarshal >>= k) buf).map Prod.fst = some a) :
    unmarshalBase buf = some (header a) := by
  obtain ⟨⟨a', z⟩, hread, rfl⟩ := map_eq_some_iff.mp h
  obtain ⟨hdr, y, hhdr, hread⟩ := Parser.bind_eq_some.mp hread
  rw [unmarshalBase, hhdr, hk hdr y a' z hread]
  rfl

/-- Every kind of message starts with its header. -/
theorem unmarshalBase_of_unmarshal {kind : MsgKind} {buf : Bytes}
    (h : Msg.unmarshal kind buf = some m) : unmarshalBase buf = some m.header := by
  cases kind with
  | base =>
    obtain ⟨header, hread, rfl⟩ := map_eq_some_iff.mp h
    exact hread
  | vote =>
    obtain ⟨vote, hread, rfl⟩ := map_eq_some_iff.mp h
    obtain ⟨header, hheader, hread⟩ := bind_eq_some_iff.mp hread
    split_ifs at hread with hbad
    obtain ⟨⟨_, rest⟩, hbody, rfl⟩ := map_eq_some_iff.mp hread
    rw [hheader, Msg.header, readBody_header hbody]
  | join =>
    obtain ⟨m, hread, rfl⟩ := map_eq_some_iff.mp h
    exact unmarshalBase_of_reader JoinMessage.header (fun _ => .skip fun _ => .skip fun _ =>
      .skip fun _ => .skip fun _ => .skip fun _ => Parser.ensures_pure rfl) hread
  | prepare =>
    obtain ⟨m, hread, rfl⟩ := map_eq_some_iff.mp h
    exact unmarshalBase_of_reader PrepareMsg.header (fun _ => .skip fun _ => .skip fun _ =>
      Parser.ensures_pure rfl) hread
  | prepareAccepted =>
    obtain ⟨m, hread, rfl⟩ := map_eq_some_iff.mp h
    rw [Wire.PrepareAccepted.unmarshal] at hread
    split at hread
    · cases hread
    · next header rest hheader =>
      split_ifs at hread with hmsg
      obtain ⟨vote, -, rfl⟩ := map_eq_some_iff.mp hread
      rw [unmarshalBase, hheader]
      rfl
  | statusResponse =>
    obtain ⟨m, hread, rfl⟩ := map_eq_some_iff.mp h
    exact unmarshalBase_of_reader StatusResponse.header (fun _ => .skip fun _ => .skip fun _ =>
      .skip fun _ => .skip fun _ => .skip fun _ => .skip fun _ => .skip fun _ => .skip fun _ =>
      .skip fun _ => Parser.ensures_pure rfl) hread
  | bootstrap =>
    obtain ⟨m, hread, rfl⟩ := map_eq_some_iff.mp h
    exact unmarshalBase_of_reader BootstrapMsg.header (fun _ => .skip fun _ => .skip fun _ =>
      Parser.ensures_pure rfl) hread

/-! ## The messages of a log -/

/-- The assertions that the reader of `Rsl.LogFile` has, on the messages of a log, and the length
that it does not ask for. -/
theorem suits_iff_assertsHold {kind : MsgKind} {buf : Bytes} (h : Msg.unmarshal kind buf = some m)
    (hkind : kind = .vote ∨ kind = .prepare ∨ kind = .base)
    (hlen : m.header.unMarshalLen ≤ word - 4096) : msgSuits m = LogFile.assertsHold m := by
  rcases hkind with rfl | rfl | rfl
  · obtain ⟨vote, -, rfl⟩ := map_eq_some_iff.mp h
    have hround : vote.header.unMarshalLen ≤ word - 4096 := hlen
    rw [msgSuits, voteSuits, LogFile.assertsHold, decide_eq_true hround, Bool.true_and,
      Bool.and_comm]
    cases vote.membersInNewConfiguration <;> rfl
  · obtain ⟨prepare, -, rfl⟩ := map_eq_some_iff.mp h
    rfl
  · obtain ⟨header, -, rfl⟩ := map_eq_some_iff.mp h
    rfl

section

variable {header : Wire.Header} (hbase : unmarshalBase data = some header)
  (hlogged : LogFile.isLogged header.msgId = true)

include hbase hlogged

/-- The reader of `Rsl.LogFile` is the Rust reader with the assertions of C++. -/
theorem logFile_unMarshalMessage : ∃ kind, (kind = .vote ∨ kind = .prepare ∨ kind = .base) ∧
    rustUnmarshal data = Msg.unmarshal kind data ∧
    LogFile.unMarshalMessage data = (Msg.unmarshal kind data).filter LogFile.assertsHold := by
  have hkinds : header.msgId = msgVote ∨ header.msgId = msgPrepare ∨
      header.msgId = msgReconfigurationDecision := by
    simpa [LogFile.isLogged] using hlogged
  have hfilter : ∀ x : Option Msg,
      (x.bind fun msg => if LogFile.assertsHold msg = true then some msg else none)
        = x.filter LogFile.assertsHold := by
    rintro (_ | msg) <;> rfl
  rw [LogFile.unMarshalMessage, rustUnmarshal, hbase]
  simp only [Option.bind_eq_bind, Option.bind_some]
  rcases hkinds with h | h | h <;> rw [h]
  · exact ⟨.vote, .inl rfl, rfl, hfilter _⟩
  · exact ⟨.prepare, .inr (.inl rfl), rfl, hfilter _⟩
  · exact ⟨.base, .inr (.inr rfl), rfl, hfilter _⟩

/-- On the messages of a log whose length can be rounded up to system pages, the reader of
`Rsl.LogFile` returns what the C++ reader returns, as far as that is inside the message, and the C++
reader returns what it returns. -/
theorem logFile_agrees (hword : data.length < word) (hlen : header.unMarshalLen ≤ word - 4096) :
    (∀ fuel m', unMarshalMessage fuel data = .ok m' →
      LogFile.unMarshalMessage data = m'.raw) ∧
    (∀ m, LogFile.unMarshalMessage data = some m →
      ∃ fuel m', unMarshalMessage fuel data = .ok m' ∧ m'.raw = some m) := by
  obtain ⟨kind, hkind, hrust, hlog⟩ := logFile_unMarshalMessage hbase hlogged
  have hsuits : ∀ m, Msg.unmarshal kind data = some m → msgSuits m = LogFile.assertsHold m := by
    intro m hread
    have hheader := unmarshalBase_of_unmarshal hread
    rw [hbase] at hheader
    exact suits_iff_assertsHold hread hkind (Option.some.inj hheader ▸ hlen)
  rw [hlog]
  constructor
  · intro fuel m' hread
    have hraw := (unMarshalMessage_wire fuel data).1 m' hread
    rw [hrust] at hraw
    rw [hraw]
    cases hm : m'.raw with
    | none => rfl
    | some m =>
      rw [Option.filter_some, ← hsuits m (hraw.trans hm), suits_of_unMarshalMessage hread hm]
      rfl
  · intro m hread
    obtain ⟨hread, hasserts⟩ := Option.filter_eq_some_iff.mp hread
    exact unMarshalMessage_of_wire hword (hrust.trans hread) ((hsuits m hread).trans hasserts)

end

/-! ## What the Rust writer sends -/

/-- The message can be read back, and by a C++ peer: as completed by the writer it is readable, its
length fits a `UInt32`, its id is one of its class, it meets the C++ assertions, and its host names
are C strings. -/
def ReachesPeer (m : Msg) : Prop :=
  (m.stamped 0).Readable ∧ m.size < word ∧ kindOf m.header.msgId = some m.kind ∧
    msgSuits (m.stamped 0) = true ∧ plainMsg m = true

theorem msgSuits_stamped (m : Msg) (c : Nat) : msgSuits (m.stamped c) = msgSuits (m.stamped 0) := by
  cases m <;> rfl

theorem plainMsg_stamped (m : Msg) (c : Nat) : plainMsg (m.stamped c) = plainMsg m := by
  cases m <;> rfl

theorem header_cMsg (m : Msg) : (cMsg m).header = m.header := by
  cases m <;> rfl

theorem kind_cMsg (m : Msg) : (cMsg m).kind = m.kind := by
  cases m <;> rfl

/-- The C++ reader returns a message exactly if the Rust reader can return it, it meets the C++
assertions and its host names are C strings, given bytes that the Rust reader reads as the
message. -/
theorem unMarshalMessage_value_iff {bytes : Bytes} (hword : bytes.length < word)
    (hback : m.Readable → Header.baseSize m.header.version ≤ m.header.unMarshalLen →
      Msg.unmarshal m.kind bytes = some m) :
    (∃ fuel m', unMarshalMessage fuel bytes = .ok m' ∧ m'.value = some m) ↔
      m.Readable ∧ Header.baseSize m.header.version ≤ m.header.unMarshalLen ∧
        kindOf m.header.msgId = some m.kind ∧ msgSuits m = true ∧ plainMsg m = true := by
  constructor
  · rintro ⟨fuel, m', hread, hvalue⟩
    obtain ⟨w, hraw, hw⟩ := map_eq_some_iff.mp hvalue
    have hrust := (unMarshalMessage_wire fuel bytes).1 m' hread
    rw [hraw] at hrust
    obtain ⟨header, hheader, hrust⟩ := bind_eq_some_iff.mp hrust
    obtain ⟨kind, hkind, hunmarshal⟩ := bind_eq_some_iff.mp hrust
    obtain ⟨hreadable, rfl, hbase⟩ := Msg.unmarshal_readable hunmarshal
    have hbase' : Header.baseSize m.header.version ≤ m.header.unMarshalLen := by
      rwa [← header_cMsg, hw] at hbase
    have hreadable' : m.Readable := by
      rw [← hw]
      exact cMsg_readable hreadable
    have hkind' : w.kind = m.kind := by rw [← kind_cMsg, hw]
    -- So the Rust reader returns the message itself, and its host names are C strings.
    have hsame : w = m := by
      rw [hkind', hback hreadable' hbase'] at hunmarshal
      exact (Option.some.inj hunmarshal).symm
    subst hsame
    refine ⟨hreadable', hbase', ?_, suits_of_unMarshalMessage hread hraw, (cMsg_eq_iff w).mp hw⟩
    rw [unmarshalBase_of_unmarshal hunmarshal] at hheader
    rwa [Option.some.inj hheader]
  · rintro ⟨hreadable, hbase, hkind, hsuits, hplain⟩
    have hunmarshal := hback hreadable hbase
    have hrust : rustUnmarshal bytes = some m := by
      rw [rustUnmarshal, unmarshalBase_of_unmarshal hunmarshal]
      show (kindOf m.header.msgId).bind _ = _
      rw [hkind]
      exact hunmarshal
    obtain ⟨fuel, m', hread, hraw⟩ := unMarshalMessage_of_wire hword hrust hsuits
    refine ⟨fuel, m', hread, ?_⟩
    rw [Message.value, hraw, Option.map_some, (cMsg_eq_iff m).mpr hplain]

/-- What a Rust replica sends reaches a C++ peer as a message that is equal in every field exactly
if `ReachesPeer` holds of the message. -/
theorem marshal_reaches_peer (m : Msg) (bytes : Bytes) (h : m.marshalWithChecksum = .ok bytes) :
    (bytes.length < word ∧ ∃ fuel m', unMarshalMessage fuel bytes = .ok m' ∧
      m'.value = some (m.stamped (fingerprint (bytes.drop (checksumOffset + 8))))) ↔
      ReachesPeer m := by
  obtain ⟨hsize, -, -, hagain⟩ := Msg.marshalWithChecksum_eq_ok h
  have hlt := fingerprint_lt (bytes.drop (checksumOffset + 8))
  generalize hsum : fingerprint (bytes.drop (checksumOffset + 8)) = c at hlt
  -- Whenever the completed message is readable, the Rust reader reads it back.
  have hback : (m.stamped c).Readable → Header.baseSize (m.stamped c).header.version ≤
      (m.stamped c).header.unMarshalLen →
      Msg.unmarshal (m.stamped c).kind bytes = some (m.stamped c) := by
    intro hreadable hbase
    have hread := Msg.unmarshal_marshal hreadable (hagain c) (by
      rw [Msg.marshalLen_stamped]
      rwa [Msg.header_stamped] at hbase ⊢)
    rwa [Msg.stamped_stamped, hsum] at hread
  constructor
  · rintro ⟨hlen, hvalue⟩
    obtain ⟨hreadable, -, hkind, hsuits, hplain⟩ :=
      (unMarshalMessage_value_iff hlen hback).mp hvalue
    have hzero := hreadable.stamp (by decide : 0 < 18446744073709551616)
    rw [Msg.stamped_stamped] at hzero
    rw [Msg.header_stamped, Msg.kind_stamped] at hkind
    rw [msgSuits_stamped] at hsuits
    rw [plainMsg_stamped] at hplain
    exact ⟨hzero, by rwa [← hsize], hkind, hsuits, hplain⟩
  · rintro ⟨hreadable, hsize', hkind, hsuits, hplain⟩
    have hlen : bytes.length < word := by rwa [hsize]
    have hmarshal : m.marshalLen = m.size := by
      rw [Msg.marshalLen_eq, asU32]
      exact Nat.mod_eq_of_lt hsize'
    refine ⟨hlen, (unMarshalMessage_value_iff hlen hback).mpr ⟨?_, ?_, ?_, ?_, ?_⟩⟩
    · have hstamped := hreadable.stamp hlt
      rwa [Msg.stamped_stamped] at hstamped
    · rw [Msg.header_stamped]
      show Header.baseSize m.header.version ≤ m.marshalLen
      rw [hmarshal]
      exact m.baseSize_le_size
    · rwa [Msg.header_stamped, Msg.kind_stamped]
    · rwa [msgSuits_stamped]
    · rwa [plainMsg_stamped]

/-- The bootstrap message of `bootstrapWith` reaches a C++ peer. -/
theorem marshal_reaches_peer_bootstrap :
    ∃ bytes, (bootstrapWith [7]).marshalWithChecksum = .ok bytes ∧
      ∃ fuel, (unMarshalMessage fuel bytes).isOk = true := by
  have hok : (bootstrapWith [7]).marshalWithChecksum.isOk = true := by decide +kernel
  cases h : (bootstrapWith [7]).marshalWithChecksum with
  | error e =>
    rw [h] at hok
    cases hok
  | ok bytes =>
    have hreadable : (bootstrapWith [7]).Readable :=
      (bootstrapWith_wellFormed (by decide)).readable (by decide +kernel)
    have hpeer : ReachesPeer (bootstrapWith [7]) :=
      ⟨hreadable.stamp (by decide), by decide +kernel, by decide +kernel, by decide +kernel,
        by decide +kernel⟩
    obtain ⟨-, fuel, m', hread, -⟩ := (marshal_reaches_peer (bootstrapWith [7]) bytes h).mpr hpeer
    exact ⟨bytes, rfl, fuel, by rw [hread]; rfl⟩

/-- A bootstrap message for one member with a host name of 256 bytes. -/
def longHostName : Msg :=
  .bootstrap ⟨bootstrapHeader, ⟨[{ bootstrapNode with hostName := replicate 256 104 }], []⟩⟩

/-- How `UnMarshalMessage` ends on a bootstrap message is how its class ends. -/
theorem unMarshalMessage_bootstrap_error {bytes : Bytes} {e : Stop} {fuel : Nat}
    (hkind : (Header.unMarshal.cursor word bytes 0).map (fun r => kindOf r.1.msgId)
      = .ok (some .bootstrap)) (hset : BootstrapMsg.unMarshal.cursor word bytes 0 = .error e) :
    unMarshalMessage fuel bytes = .error e := by
  cases hread : Header.unMarshal.cursor word bytes 0 with
  | error e =>
    rw [hread] at hkind
    cases hkind
  | ok r =>
    rw [hread] at hkind
    have hkind : kindOf r.1.msgId = some .bootstrap := Except.ok.inj hkind
    rw [unMarshalMessage_of_header hread, hkind]
    show ((within bytes BootstrapMsg.unMarshal >>= fun m => pure (Message.bootstrap m))
      0).bind _ = _
    rw [bind_apply, within_apply, hset]
    rfl

/-- The Rust writer sends it, and the C++ reader fails its assertion on the host name. -/
theorem marshal_kills_peer :
    ∃ bytes, longHostName.marshalWithChecksum = .ok bytes ∧
      ∀ fuel, unMarshalMessage fuel bytes = .error .assertion := by
  have hok : (match longHostName.marshalWithChecksum with
      | .error _ => false
      | .ok bytes =>
        decide ((Header.unMarshal.cursor word bytes 0).map (fun r => kindOf r.1.msgId)
          = .ok (some .bootstrap)) &&
        decide (BootstrapMsg.unMarshal.cursor word bytes 0 = .error .assertion)) = true := by
    decide +kernel
  cases h : longHostName.marshalWithChecksum with
  | error e =>
    rw [h] at hok
    cases hok
  | ok bytes =>
    rw [h] at hok
    simp only [Bool.and_eq_true, decide_eq_true_eq] at hok
    exact ⟨bytes, rfl, fun fuel => unMarshalMessage_bootstrap_error hok.1 hok.2⟩

end Rsl.Cpp
