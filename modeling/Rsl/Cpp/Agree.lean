import Rsl.Cpp.Robust

/-!
# The C++ and the Rust message readers

A message that `UnMarshalMessage` returns stands for a Rust message (`Message.value`): host names
are C strings, which end at the first zero byte, and the primary cookie and the requests of a vote
are what their pointers point at, if that is inside the vote. Where the C++ reader refuses, the Rust
reader does; where it returns a message, the Rust reader returns what the message stands for, except
that a cookie or request that ends outside the vote is refused and a host name is taken with its
zero bytes.
-/

set_option autoImplicit false

namespace Rsl.Cpp

open Lib Wire Prog List

/-! ## Requests -/

theorem readU32_eq (x : Bytes) :
    readU32 x = if 4 ≤ x.length then some (leNat (x.take 4), x.drop 4) else none := by
  show (Parser.take 4 x).bind _ = _
  rw [Parser.take]
  split <;> rfl

/-- One round of the Rust loop over the requests. -/
theorem wire_readRequests_succ {x : Bytes} (hx : x.length ≠ 0) (n : Nat) :
    Wire.readRequests (n + 1) x =
      if x.length < 4 + leNat (x.take 4) ∨ leNat (x.take 4) = 0 then none
      else (Wire.readRequests n (x.drop (4 + leNat (x.take 4)))).map fun r =>
        ((x.drop 4).take (leNat (x.take 4)) :: r.1, r.2) := by
  have hempty : x.isEmpty = false := by
    cases x with
    | nil => exact absurd rfl hx
    | cons b bs => rfl
  have hstep : Wire.readRequests (n + 1) x =
      (readU32 x).bind fun r => (Parser.check (r.1 != 0) r.2).bind fun c =>
        (Parser.take r.1 c.2).bind fun t => (Wire.readRequests n t.2).bind fun m =>
        some (t.1 :: m.1, m.2) := by
    rw [Wire.readRequests]
    show (if x.isEmpty = true then (pure [] : Wire.Reader (List Bytes)) else _) x = _
    rw [hempty, if_neg Bool.false_ne_true]
    rfl
  rw [hstep, readU32_eq]
  generalize leNat (x.take 4) = len
  by_cases hlen : 4 ≤ x.length
  · rw [if_pos hlen, Option.bind_some, Parser.check]
    rcases Nat.eq_zero_or_pos len with rfl | hpos
    · rw [if_pos (Or.inr rfl)]
      rfl
    · have hne : (len != 0) = true := by simpa using hpos.ne'
      rw [if_pos hne, Option.bind_some, Parser.take, length_drop]
      by_cases hend : len ≤ x.length - 4
      · rw [if_pos hend, if_neg (by omega), Option.bind_some, drop_drop]
        cases Wire.readRequests n (x.drop (4 + len)) <;> rfl
      · rw [if_neg hend, if_pos (by omega)]
        rfl
  · rw [if_neg hlen, if_pos (by omega)]
    rfl

namespace Vote

variable {data : Bytes} {isReconfiguration : Bool} {pos : Nat}

variable {span : Span} {stop : Nat}

section

variable (hword : data.length + 8 ≤ word) (hpos : pos ≤ data.length)

include hword hpos

/-- A round that finds a request. -/
theorem nextRequest_eq_some (h : nextRequest data isReconfiguration pos = .ok (some span, stop)) :
    pos + 4 ≤ data.length ∧ leNat ((data.drop pos).take 4) ≠ 0 ∧
      span = ⟨pos + 4, leNat ((data.drop pos).take 4)⟩ ∧
      stop = (pos + 4 + leNat ((data.drop pos).take 4)) % word ∧ stop ≤ data.length := by
  rw [nextRequest_eq hword hpos] at h
  dsimp only at h
  split_ifs at h with hend hreconf hshort hzero hstop
  · cases h
  · obtain ⟨hspan, rfl⟩ := Prod.mk.inj (Except.ok.inj h)
    exact ⟨by omega, hzero, (Option.some.inj hspan).symm, rfl, by omega⟩

theorem nextRequest_eq_none {p : Nat}
    (h : nextRequest data isReconfiguration pos = .ok (none, p)) : data.drop pos = [] := by
  rw [nextRequest_eq hword hpos] at h
  dsimp only at h
  split_ifs at h with hend hreconf hshort hzero hstop
  · exact drop_eq_nil_of_le (by omega)
  · cases h

/-- A round that refuses: the Rust loop refuses there too. -/
theorem nextRequest_refused
    (h : nextRequest data isReconfiguration pos = .error .refused) (n : Nat) :
    Wire.readRequests (n + 1) (data.drop pos) = none := by
  rw [nextRequest_eq hword hpos] at h
  have hmod := Nat.mod_le (pos + 4 + leNat ((data.drop pos).take 4)) word
  dsimp only at h
  split_ifs at h with hend hreconf hshort hzero hstop
  · cases h
  · rw [wire_readRequests_succ (by rw [length_drop]; omega), if_pos]
    rw [length_drop]
    omega
  · rw [wire_readRequests_succ (by rw [length_drop]; omega), if_pos (.inr hzero)]
  · rw [wire_readRequests_succ (by rw [length_drop]; omega), if_pos]
    rw [length_drop]
    omega

/-- The Rust loop on a request that the C++ loop has found. -/
theorem wire_readRequests_of_some
    (h : nextRequest data isReconfiguration pos = .ok (some span, stop)) (n : Nat) :
    Wire.readRequests (n + 1) (data.drop pos) =
      match span.bytes data with
      | none => none
      | some request => (Wire.readRequests n (data.drop stop)).map fun r =>
        (request :: r.1, r.2) := by
  obtain ⟨hle, hzero, rfl, rfl, hstop⟩ := nextRequest_eq_some hword hpos h
  rw [wire_readRequests_succ (by rw [length_drop]; omega), Span.bytes, length_drop]
  by_cases hin : pos + 4 + leNat ((data.drop pos).take 4) ≤ data.length
  · rw [if_neg (by omega), if_pos hin, Nat.mod_eq_of_lt (by omega), drop_drop, drop_drop, add_assoc]
  · rw [if_pos (by omega), if_neg hin]

/-- A request inside the vote takes the loop forward. -/
theorem span_stop (h : nextRequest data isReconfiguration pos = .ok (some span, stop))
    {request : Bytes} (hbytes : span.bytes data = some request) : pos + 4 ≤ stop := by
  obtain ⟨-, -, rfl, rfl, -⟩ := nextRequest_eq_some hword hpos h
  rw [Span.bytes] at hbytes
  split at hbytes
  · next hin =>
    have hle : pos + 4 + leNat ((data.drop pos).take 4) ≤ data.length := hin
    rw [Nat.mod_eq_of_lt (by omega)]
    omega
  · cases hbytes

/-- What the C++ loop has found is what the Rust loop finds, as far as it is inside the vote. -/
theorem readRequests_wire {fuel n q : Nat} {spans : List Span} (hn : data.length - pos ≤ n)
    (h : readRequests data isReconfiguration fuel pos = .ok (spans, q)) :
    Wire.readRequests n (data.drop pos)
      = (spans.mapM (Span.bytes data)).map fun requests => (requests, []) := by
  induction fuel generalizing pos n spans with
  | zero => cases h
  | succ fuel ih =>
    cases hnext : nextRequest data isReconfiguration pos with
    | error e =>
      rw [readRequests_of_stop hnext] at h
      cases h
    | ok r =>
      obtain ⟨_ | span, stop⟩ := r
      · rw [readRequests_of_end hnext] at h
        cases h
        rw [nextRequest_eq_none hword hpos hnext]
        cases n <;> rfl
      · obtain ⟨hle, -, -, -, hstop⟩ := nextRequest_eq_some hword hpos hnext
        rw [readRequests_of_round hnext] at h
        obtain ⟨⟨rest, q'⟩, hrest, h⟩ := bind_eq_ok.mp h
        cases h
        obtain ⟨n, rfl⟩ : ∃ m, n = m + 1 := ⟨n - 1, by omega⟩
        rw [wire_readRequests_of_some hword hpos hnext, mapM_cons]
        cases hbytes : span.bytes data with
        | none => rfl
        | some request =>
          have hfound := span_stop hword hpos hnext hbytes
          rw [ih hstop (by omega) hrest]
          cases mapM (Span.bytes data) rest <;> rfl

/-- Where the C++ loop refuses, the Rust loop does. -/
theorem readRequests_refused {fuel n : Nat} (hn : data.length - pos ≤ n)
    (h : readRequests data isReconfiguration fuel pos = .error .refused) :
    Wire.readRequests n (data.drop pos) = none := by
  induction fuel generalizing pos n with
  | zero => cases h
  | succ fuel ih =>
    cases hnext : nextRequest data isReconfiguration pos with
    | error e =>
      rw [readRequests_of_stop hnext] at h
      cases h
      have hpos' : pos < data.length := by
        by_contra hend
        rw [nextRequest_eq hword hpos, if_pos (by omega)] at hnext
        cases hnext
      obtain ⟨n, rfl⟩ : ∃ m, n = m + 1 := ⟨n - 1, by omega⟩
      exact nextRequest_refused hword hpos hnext n
    | ok r =>
      obtain ⟨_ | span, stop⟩ := r
      · rw [readRequests_of_end hnext] at h
        cases h
      · obtain ⟨hle, -, -, -, hstop⟩ := nextRequest_eq_some hword hpos hnext
        rw [readRequests_of_round hnext] at h
        obtain ⟨n, rfl⟩ : ∃ m, n = m + 1 := ⟨n - 1, by omega⟩
        rw [wire_readRequests_of_some hword hpos hnext]
        cases hbytes : span.bytes data with
        | none => rfl
        | some request =>
          have hfound := span_stop hword hpos hnext hbytes
          have hrest : readRequests data isReconfiguration fuel stop = .error .refused := by
            cases hr : readRequests data isReconfiguration fuel stop with
            | error e =>
              rw [hr] at h
              exact h
            | ok r =>
              rw [hr] at h
              cases h
          rw [ih hstop (by omega) hrest]
          rfl

end

end Vote

/-! ## Votes -/

/-- The fields of a Rust vote between the cookie and the requests. -/
def wireFlags (version : ProtocolVersion) : Wire.Reader (Bool × Option MemberSet × Bool) := do
  let isReconfiguration ← Wire.readIf version.hasReconfiguration Wire.readBool false
  let members ← Wire.readIf isReconfiguration (some <$> Wire.MemberSet.unmarshal version) none
  let relinquishPrimary ← Wire.readIf version.hasRelinquishPrimary Wire.readBool false
  return (isReconfiguration, members, relinquishPrimary)

/-- The member set of a vote, where there is one. -/
theorem sim_members (version : ProtocolVersion) (isReconfiguration : Bool) :
    Sim (fun members => members.all namesFit = true)
      (Cpp.readIf isReconfiguration (some <$> MemberSet.unMarshal version) none)
      (Wire.readIf isReconfiguration (some <$> Wire.MemberSet.unmarshal version) none) := by
  cases isReconfiguration with
  | false => exact sim_pure rfl
  | true =>
    refine (MemberSet.sim_unMarshal version).bind
      (fun set hnames => sim_pure ((namesFit_iff set).mpr hnames)) ?_
    intro set y members z hpure hfit
    cases hpure
    exact (namesFit_iff set).mp hfit

theorem Vote.sim_unMarshalFlags (version : ProtocolVersion) :
    Sim (fun flags => flags.2.1.all namesFit = true) (Vote.unMarshalFlags version)
      (wireFlags version) := by
  refine (matches_readIf matches_readBool _ false).bind_sim fun isReconfiguration =>
    (sim_members version isReconfiguration).bind (fun members hfit => ?_) ?_
  · exact (matches_readIf matches_readBool _ false).bind_sim fun _ => sim_pure hfit
  · intro members y flags z hread hfit
    obtain ⟨relinquishPrimary, y₁, -, hread⟩ := Parser.bind_eq_some.mp hread
    cases hread
    exact hfit

/-- A Rust vote's cookie, fields and requests, one after the other. -/
theorem wire_readBody_eq (header : Header) (x : Bytes) :
    Wire.Vote.readBody header x =
      (Wire.readIf header.version.hasPrimaryCookie readPrimaryCookie [] x).bind fun c =>
      (wireFlags header.version c.2).bind fun f =>
      (Wire.readRequests f.2.length f.2).bind fun r =>
      some (⟨header, c.1, f.1.1, f.1.2.1, f.1.2.2, r.1⟩, r.2) := by
  have hbind : ∀ {α β : Type} (p : Wire.Reader α) (q : α → Wire.Reader β) (x : Bytes),
      (p >>= q) x = (p x).bind fun r => q r.1 r.2 := fun _ _ _ => rfl
  have hpure : ∀ {α : Type} (a : α) (x : Bytes), (pure a : Wire.Reader α) x = some (a, x) :=
    fun _ _ => rfl
  have hget : ∀ x : Bytes, (get : Wire.Reader Bytes) x = some (x, x) := fun _ => rfl
  simp only [Wire.Vote.readBody, wireFlags, hbind, hpure, hget, Option.bind_assoc, Option.bind_some]

/-- `read_primary_cookie` in one step. -/
theorem readPrimaryCookie_eq (x : Bytes) :
    readPrimaryCookie x =
      if x.length < 4 + leNat (x.take 4) then none
      else some ((x.drop 4).take (leNat (x.take 4)), x.drop (4 + leNat (x.take 4))) := by
  have hstep : readPrimaryCookie x = (readU32 x).bind fun r =>
      (if r.1 = 0 then (pure [] : Wire.Reader Bytes) else Parser.take r.1) r.2 := rfl
  rw [hstep, readU32_eq]
  generalize leNat (x.take 4) = len
  by_cases hlen : 4 ≤ x.length
  · rw [if_pos hlen, Option.bind_some]
    rcases Nat.eq_zero_or_pos len with rfl | hpos
    · rw [if_pos rfl, if_neg (by omega)]
      rfl
    · rw [if_neg hpos.ne', Parser.take, length_drop, drop_drop]
      by_cases hend : len ≤ x.length - 4
      · rw [if_pos hend, if_neg (by omega)]
      · rw [if_neg hend, if_pos (by omega)]
  · rw [if_neg hlen, if_pos (by omega)]
    rfl

namespace Vote

variable {data : Bytes}

/-- The Rust reader on the cookie of a vote: it refuses a cookie that ends outside the vote. -/
theorem wire_cookie {version : ProtocolVersion} (hword : data.length + 8 ≤ word)
    (hbase : Header.baseSize version ≤ data.length) :
    Wire.readIf version.hasPrimaryCookie readPrimaryCookie []
      (data.drop (Header.baseSize version)) =
      match cookieEnd version data with
      | none => none
      | some pos => ((cookieSpan version data).bytes data).map fun cookie =>
        (cookie, data.drop pos) := by
  simp only [cookieEnd, cookieSpan]
  generalize hstart : Header.baseSize version = start at hbase
  by_cases hv : version.raw < 2
  · have hno : version.hasPrimaryCookie = false := decide_eq_false (by omega)
    rw [hno, if_pos hv, if_pos hv]
    simp only [Span.bytes, add_zero, if_pos hbase, take_zero]
    rfl
  have hyes : version.hasPrimaryCookie = true := decide_eq_true (by omega)
  rw [hyes, if_neg hv, if_neg hv]
  show readPrimaryCookie (data.drop start) = _
  rw [readPrimaryCookie_eq, length_drop]
  generalize leNat ((data.drop start).take 4) = len
  have hmod := Nat.mod_le (start + 4 + len) word
  by_cases hshort : data.length < start + 4
  · rw [if_pos hshort, if_pos (by omega)]
  rw [if_neg hshort]
  by_cases hin : start + 4 + len ≤ data.length
  · rw [Nat.mod_eq_of_lt (by omega), if_neg (by omega), if_neg (by omega)]
    have hbytes : Span.bytes data ⟨start + 4, len⟩ = some ((data.drop (start + 4)).take len) :=
      if_pos hin
    simp only [hbytes, Option.map_some, drop_drop, add_assoc]
  · rw [if_pos (by omega)]
    split
    · rfl
    · simp only [Span.bytes, if_neg hin, Option.map_none]

/-- What the vote holds, if all of it is inside the vote. -/
def raw (vote : Vote) : Option Wire.Vote := do
  let cookie ← vote.primaryCookie.bytes vote.marshal
  let requests ← vote.requests.mapM (Span.bytes vote.marshal)
  return ⟨vote.header, cookie, vote.isReconfiguration, vote.membersInNewConfiguration,
    vote.relinquishPrimary, requests⟩

/-- The Rust reader on the bytes of a vote whose header has been read. -/
theorem wire_unmarshal_eq {outer rest : Bytes} {readPtr : Nat} {header : Header}
    (hread : Header.unMarshal.exact (outer.drop readPtr) = .ok (header, rest)) :
    Wire.Vote.unmarshal (outer.drop readPtr) =
      if header.msgId ≠ msgVote ∨ outer.length - readPtr < header.unMarshalLen then none
      else (Wire.Vote.readBody header (((outer.drop readPtr).take header.unMarshalLen).drop
        (Header.baseSize header.version))).map Prod.fst := by
  have hbase : unmarshalBase (outer.drop readPtr) = some header := by
    rw [unmarshalBase, Header.matches_unMarshal.ok_iff.mp hread]
    rfl
  rw [Wire.Vote.unmarshal, hbase, ← length_drop]
  rfl

/-- A vote that the C++ reader returns is read by the Rust reader as what it holds. -/
theorem wire_of_ok {outer : Bytes} {readPtr fuel p : Nat} {vote : Vote}
    (h : unMarshal fuel outer readPtr = .ok (vote, p)) :
    Wire.Vote.unmarshal (outer.drop readPtr) = vote.raw := by
  obtain ⟨f, pos, hcopy, hfields, rfl, q, hreqs⟩ := unMarshal_eq_ok h
  obtain ⟨⟨q', hheader⟩, hmsg, hround, hle, hdata, -⟩ := copyOut_eq_ok hcopy
  have hexact := exact_of_cursor hheader
  obtain ⟨-, -, hbase, hlen⟩ := Header.unMarshal_eq_ok hexact
  have hdlen : vote.marshal.length = vote.header.unMarshalLen := by
    rw [hdata, length_take, length_drop]
    omega
  have h4096 : 4096 ≤ word := by decide
  rw [wire_unmarshal_eq hexact, if_neg (by omega), ← hdata, wire_readBody_eq,
    wire_cookie (by omega) (by omega)]
  rw [readFields_eq (by omega) (by omega)] at hfields
  cases hcookie : cookieEnd vote.header.version vote.marshal with
  | none =>
    rw [hcookie] at hfields
    cases hfields
  | some start =>
    rw [hcookie] at hfields
    obtain ⟨⟨flags, pos'⟩, hflags, hfields⟩ := bind_eq_ok.mp hfields
    obtain ⟨hpair, rfl⟩ := Prod.mk.inj (Except.ok.inj hfields)
    obtain ⟨hspan, rfl⟩ := Prod.mk.inj hpair
    have hstart := cookieEnd_le (by omega) hcookie
    obtain ⟨-, hpos'⟩ := cursor_pos_le hstart hflags
    have hwire := ((sim_unMarshalFlags _).follows _).1 _ (exact_of_cursor hflags)
    have hrequests := readRequests_wire (by omega) hpos' le_rfl hreqs
    dsimp only
    rw [raw, hspan]
    cases vote.primaryCookie.bytes vote.marshal with
    | none => rfl
    | some cookie =>
      rw [Option.map_some, Option.bind_some, hwire, Option.bind_some, length_drop, hrequests]
      cases mapM (Span.bytes vote.marshal) vote.requests <;> rfl

/-- A body that the C++ reader refuses is refused by the Rust reader. -/
theorem wire_readBody_of_refused {header : Header} {fuel : Nat} (hword : data.length + 8 ≤ word)
    (hbase : Header.baseSize header.version ≤ data.length)
    (h : ((readFields header data 0).bind fun f => readRequests data f.1.2.1 fuel f.2)
      = .error .refused) :
    Wire.Vote.readBody header (data.drop (Header.baseSize header.version)) = none := by
  rw [wire_readBody_eq, wire_cookie hword hbase]
  rw [readFields_eq hword hbase] at h
  cases hcookie : cookieEnd header.version data with
  | none => rfl
  | some start =>
    rw [hcookie] at h
    have hstart := cookieEnd_le hbase hcookie
    dsimp only at h ⊢
    cases (cookieSpan header.version data).bytes data with
    | none => rfl
    | some cookie =>
      rw [Option.map_some, Option.bind_some]
      cases hflags : (unMarshalFlags header.version).cursor word data start with
      | error e =>
        rw [hflags] at h
        cases h
        rw [((sim_unMarshalFlags _).follows _).2 (exact_of_cursor_refused hstart hflags)]
        rfl
      | ok r =>
        obtain ⟨flags, pos⟩ := r
        rw [hflags] at h
        obtain ⟨-, hpos⟩ := cursor_pos_le hstart hflags
        have hrequests := readRequests_refused hword hpos le_rfl h
        rw [((sim_unMarshalFlags _).follows _).1 _ (exact_of_cursor hflags), Option.bind_some,
          length_drop, hrequests]
        rfl

/-- A vote that is in the buffer and refused is refused in its own buffer. -/
theorem body_refused {outer : Bytes} {readPtr fuel p : Nat} {header : Header}
    (hcopy : copyOut outer readPtr = .ok ((header, data), p))
    (h : unMarshal fuel outer readPtr = .error .refused) :
    ((readFields header data 0).bind fun f => readRequests data f.1.2.1 fuel f.2)
      = .error .refused := by
  rw [unMarshal_eq, hcopy, bind_ok] at h
  cases hfields : readFields header data 0 with
  | error e =>
    rw [hfields] at h
    exact congrArg _ (Except.error.inj h)
  | ok f =>
    rw [hfields, bind_ok] at h
    exact bind_ok_eq_error.mp h

/-- A vote that the C++ reader refuses is refused by the Rust reader. -/
theorem wire_of_refused {outer : Bytes} {readPtr fuel : Nat} (hpos : readPtr ≤ outer.length)
    (h : unMarshal fuel outer readPtr = .error .refused) :
    Wire.Vote.unmarshal (outer.drop readPtr) = none := by
  cases hread : Header.unMarshal.cursor word outer readPtr with
  | error e =>
    rw [unMarshal_eq, copyOut_error hread] at h
    cases h
    have hnone := Header.matches_unMarshal.error (exact_of_cursor_refused hpos hread)
    rw [Wire.Vote.unmarshal, unmarshalBase, hnone.2]
    rfl
  | ok r =>
    obtain ⟨header, q⟩ := r
    have hexact := exact_of_cursor hread
    obtain ⟨-, -, hbase, hlen⟩ := Header.unMarshal_eq_ok hexact
    have hbaseSize := (Header.baseSize_le header.version).1
    have hcopy := copyOut_eq hread (by omega)
    have hmod := Nat.mod_le (readPtr + header.unMarshalLen) word
    rw [wire_unmarshal_eq hexact]
    split_ifs at hcopy with hmsg hround hshort hfault
    · rw [if_pos (.inl hmsg)]
    · rw [if_pos (by omega)]
    · rw [unMarshal_eq, hcopy] at h
      cases h
    · have h4096 : 4096 ≤ word := by decide
      have hdlen : ((outer.drop readPtr).take header.unMarshalLen).length =
          header.unMarshalLen := by
        rw [length_take, length_drop]
        omega
      rw [if_neg (by omega), wire_readBody_of_refused (by omega) (by omega) (body_refused hcopy h)]
      rfl
    · rw [unMarshal_eq, hcopy] at h
      cases h

end Vote

/-! ## Messages -/

/-- The C string in a character array. -/
def cString (name : Bytes) : Bytes := name.takeWhile (· != 0)

/-- A member set with its host names as C strings. -/
def cMemberSet (set : MemberSet) : MemberSet :=
  { set with members := set.members.map fun node =>
    { node with hostName := cString node.hostName } }

/-- A vote with the host names of its member set as C strings. -/
def cVote (vote : Wire.Vote) : Wire.Vote :=
  { vote with membersInNewConfiguration := vote.membersInNewConfiguration.map cMemberSet }

/-- A message with its host names as C strings. -/
def cMsg : Msg → Msg
  | .vote m => .vote (cVote m)
  | .prepareAccepted m => .prepareAccepted { m with vote := cVote m.vote }
  | .bootstrap m => .bootstrap { m with memberSet := cMemberSet m.memberSet }
  | m => m

/-- What a C++ message holds, if all of it is inside the message. -/
def Message.raw : Message → Option Msg
  | .base header => some (.base header)
  | .vote m => m.raw.map .vote
  | .join m => some (.join m)
  | .prepare m => some (.prepare m)
  | .prepareAccepted m => m.vote.raw.map fun vote => .prepareAccepted ⟨m.header, vote⟩
  | .statusResponse m => some (.statusResponse m)
  | .bootstrap m => some (.bootstrap m)

/-- The message that a C++ message stands for. -/
def Message.value (m : Message) : Option Msg := m.raw.map cMsg

/-- No host name of the set has a zero byte. -/
def plainNames (set : MemberSet) : Bool := set.members.all fun node => !node.hostName.contains 0

/-- No host name of the message has a zero byte. -/
def plainMsg : Msg → Bool
  | .vote m => m.membersInNewConfiguration.all plainNames
  | .prepareAccepted m => m.vote.membersInNewConfiguration.all plainNames
  | .bootstrap m => plainNames m.memberSet
  | _ => true

/-- `Msg::unmarshal`, with the kind that `UnMarshalMessage` gives the message id. -/
def rustUnmarshal (buf : Bytes) : Option Msg := do
  let header ← unmarshalBase buf
  let kind ← kindOf header.msgId
  Msg.unmarshal kind buf

/-- The two readers return equal messages, or both refuse. -/
def Agree : Except Stop Message → Option Msg → Prop
  | .ok m, some m' => m.value = some m'
  | .error _, none => True
  | _, _ => False

theorem cString_eq_iff (name : Bytes) : cString name = name ↔ (!name.contains 0) = true := by
  rw [cString, takeWhile_eq_self_iff]
  simp only [Bool.not_eq_true', contains_eq_mem, decide_eq_false_iff_not, bne_iff_ne]
  exact ⟨fun h h0 => h 0 h0 rfl, fun h b hb hb0 => h (hb0 ▸ hb)⟩

theorem cMemberSet_eq_iff (set : MemberSet) : cMemberSet set = set ↔ plainNames set = true := by
  obtain ⟨members, cookie⟩ := set
  have hnode : ∀ node : RslNode,
      ({ node with hostName := cString node.hostName } : RslNode) = id node
      ↔ (!node.hostName.contains 0) = true := by
    rintro ⟨memberId, ip, rslPort, rslLearnPort, appPort, hostName⟩
    rw [← cString_eq_iff]
    simp
  have hmap := @map_inj_left _ _ members
    (fun node => { node with hostName := cString node.hostName }) id
  rw [map_id] at hmap
  simp only [cMemberSet, MemberSet.mk.injEq, and_true, hmap, hnode, plainNames, all_eq_true]

theorem cVote_eq_iff (vote : Wire.Vote) :
    cVote vote = vote ↔ vote.membersInNewConfiguration.all plainNames = true := by
  obtain ⟨header, cookie, isReconfiguration, members, relinquishPrimary, requests⟩ := vote
  cases members with
  | none => simp [cVote]
  | some set => simp [cVote, cMemberSet_eq_iff]

/-- C strings are the whole host names exactly if there are no zero bytes in them. -/
theorem cMsg_eq_iff (m : Msg) : cMsg m = m ↔ plainMsg m = true := by
  cases m with
  | base header => simp [cMsg, plainMsg]
  | vote vote => simp [cMsg, plainMsg, cVote_eq_iff]
  | join m | prepare m => simp [cMsg, plainMsg]
  | prepareAccepted m =>
    obtain ⟨header, vote⟩ := m
    simp [cMsg, plainMsg, cVote_eq_iff]
  | statusResponse m => simp [cMsg, plainMsg]
  | bootstrap m =>
    obtain ⟨header, set⟩ := m
    simp [cMsg, plainMsg, cMemberSet_eq_iff]

/-- A class whose reader only reads forward. -/
theorem forward_wire {α : Type} {data : Bytes} {p : Reader α} {q : Wire.Reader α}
    (h : Follows p q) {f : α → Message} {g : α → Msg} (hraw : ∀ a, (f a).raw = some (g a)) :
    (∀ m pos, (within data p >>= fun a => (pure (f a) : Cursor Message)) 0 = .ok (m, pos) →
      ((q data).map Prod.fst).map g = m.raw) ∧
    ((within data p >>= fun a => (pure (f a) : Cursor Message)) 0 = .error .refused →
      ((q data).map Prod.fst).map g = none) := by
  constructor
  · intro m pos hm
    rw [bind_apply] at hm
    obtain ⟨⟨a, pos'⟩, hread, hm⟩ := bind_eq_ok.mp hm
    cases hm
    have hq := (h _).1 _ (exact_of_cursor hread)
    rw [drop_zero] at hq
    rw [hq, hraw]
    rfl
  · intro hm
    have hread : p.cursor word data 0 = .error .refused := bind_ok_eq_error.mp hm
    have hq := (h _).2 (exact_of_cursor_refused (Nat.zero_le _) hread)
    rw [drop_zero] at hq
    rw [hq]
    rfl

/-- What a class returns and refuses, the Rust reader of its kind does. -/
theorem Message.unMarshal_wire {data : Bytes} {header : Header} {p fuel : Nat} {kind : MsgKind}
    (hread : Header.unMarshal.cursor word data 0 = .ok (header, p))
    (hkind : kindOf header.msgId = some kind) :
    (∀ m pos, Message.unMarshal fuel data kind 0 = .ok (m, pos) → Msg.unmarshal kind data = m.raw) ∧
    (Message.unMarshal fuel data kind 0 = .error .refused → Msg.unmarshal kind data = none) := by
  cases kind with
  | base => exact forward_wire Header.matches_unMarshal.follows fun _ => rfl
  | join => exact forward_wire JoinMessage.matches_unMarshal.follows fun _ => rfl
  | prepare => exact forward_wire PrepareMsg.matches_unMarshal.follows fun _ => rfl
  | statusResponse => exact forward_wire StatusResponse.matches_unMarshal.follows fun _ => rfl
  | bootstrap => exact forward_wire BootstrapMsg.sim_unMarshal.follows fun _ => rfl
  | vote =>
    constructor
    · intro m pos hm
      rw [Message.unMarshal, bind_apply] at hm
      obtain ⟨⟨vote, pos'⟩, hvote, hm⟩ := bind_eq_ok.mp hm
      cases hm
      have hwire := Vote.wire_of_ok hvote
      rw [drop_zero] at hwire
      rw [Msg.unmarshal, hwire, Message.raw]
    · intro hm
      have hvote : Vote.unMarshal fuel data 0 = .error .refused := bind_ok_eq_error.mp hm
      have hwire := Vote.wire_of_refused (Nat.zero_le _) hvote
      rw [drop_zero] at hwire
      rw [Msg.unmarshal, hwire]
      rfl
  | prepareAccepted =>
    obtain ⟨-, hp⟩ := cursor_pos_le (Nat.zero_le data.length) hread
    have hmsg := kindOf_eq_some hkind
    have hheader := Header.matches_unMarshal.ok_iff.mp (exact_of_cursor hread)
    rw [drop_zero] at hheader
    have hrust : Msg.unmarshal .prepareAccepted data = (Wire.Vote.unmarshal (data.drop p)).map
        fun vote => .prepareAccepted ⟨header, vote⟩ := by
      rw [Msg.unmarshal, Wire.PrepareAccepted.unmarshal, hheader]
      simp only [hmsg, ne_eq, not_true_eq_false, if_false, Option.map_map]
      rfl
    rw [hrust]
    constructor
    · intro m pos hm
      rw [Message.unMarshal, bind_apply, PrepareAccepted.unMarshal_of_header hread hmsg] at hm
      obtain ⟨⟨accepted, pos'⟩, haccepted, hm⟩ := bind_eq_ok.mp hm
      obtain ⟨⟨vote, pos''⟩, hvote, haccepted⟩ := bind_eq_ok.mp haccepted
      cases haccepted
      cases hm
      rw [Vote.wire_of_ok hvote, Message.raw]
    · intro hm
      rw [Message.unMarshal, bind_apply, PrepareAccepted.unMarshal_of_header hread hmsg] at hm
      have haccepted := bind_ok_eq_error.mp hm
      have hvote : Vote.unMarshal fuel data p = .error .refused := bind_ok_eq_error.mp haccepted
      rw [Vote.wire_of_refused hp hvote]
      rfl

/-- What `UnMarshalMessage` returns and refuses is what the class of the message does, if there is a
header and the class is known. -/
theorem unMarshalMessage_cases {fuel : Nat} {data : Bytes} {P : Message → Prop} {Q : Prop}
    (hshort : Header.unMarshal.exact data = .error .refused → Q)
    (hunknown : ∀ header rest, Header.unMarshal.exact data = .ok (header, rest) →
      kindOf header.msgId = none → Q)
    (hknown : ∀ header p kind, Header.unMarshal.cursor word data 0 = .ok (header, p) →
      kindOf header.msgId = some kind →
        (∀ m pos, Message.unMarshal fuel data kind 0 = .ok (m, pos) → P m) ∧
        (Message.unMarshal fuel data kind 0 = .error .refused → Q)) :
    (∀ m, unMarshalMessage fuel data = .ok m → P m) ∧
    (unMarshalMessage fuel data = .error .refused → Q) := by
  cases hread : Header.unMarshal.cursor word data 0 with
  | error e =>
    have hmsg : unMarshalMessage fuel data = .error e := by
      show (Header.unMarshal.cursor word data 0).bind _ = _
      rw [hread, bind_error]
    rw [hmsg]
    refine ⟨fun m hm => (by cases hm), fun he => ?_⟩
    cases he
    exact hshort (drop_zero (l := data) ▸ exact_of_cursor_refused (Nat.zero_le _) hread)
  | ok r =>
    obtain ⟨header, p⟩ := r
    rw [unMarshalMessage_of_header hread]
    cases hkind : kindOf header.msgId with
    | none =>
      have hexact := exact_of_cursor hread
      rw [drop_zero] at hexact
      exact ⟨fun m hm => (by cases hm), fun _ => hunknown header _ hexact hkind⟩
    | some kind =>
      obtain ⟨hok, hrefused⟩ := hknown header p kind hread hkind
      refine ⟨fun m hm => ?_, fun hm => hrefused (bind_ok_eq_error.mp hm)⟩
      obtain ⟨⟨m', pos⟩, hm', hm⟩ := bind_eq_ok.mp hm
      cases hm
      exact hok _ _ hm'

/-- What `UnMarshalMessage` returns and refuses, the Rust reader does. -/
theorem unMarshalMessage_wire (fuel : Nat) (data : Bytes) :
    (∀ m, unMarshalMessage fuel data = .ok m → rustUnmarshal data = m.raw) ∧
    (unMarshalMessage fuel data = .error .refused → rustUnmarshal data = none) := by
  have hrust : ∀ header rest, Header.unMarshal.exact data = .ok (header, rest) →
      rustUnmarshal data = (kindOf header.msgId).bind (Msg.unmarshal · data) := by
    intro header rest hexact
    rw [rustUnmarshal, unmarshalBase, Header.matches_unMarshal.ok_iff.mp hexact]
    rfl
  refine unMarshalMessage_cases (fun hshort => ?_) (fun header rest hexact hkind => ?_)
    fun header p kind hread hkind => ?_
  · rw [rustUnmarshal, unmarshalBase, (Header.matches_unMarshal.error hshort).2]
    rfl
  · rw [hrust _ _ hexact, hkind]
    rfl
  · have hexact := exact_of_cursor hread
    rw [drop_zero] at hexact
    rw [hrust _ _ hexact, hkind]
    exact Message.unMarshal_wire hread hkind

/-! ## The condition on the bytes -/

/-- Where the host names of `n` members at the start of `x` are, there are no zero bytes. -/
def namesHeld (version : ProtocolVersion) : Nat → Bytes → Bool
  | 0, _ => true
  | n + 1, x =>
    let start := MemberId.baseSize version + 10
    let len := leNat ((x.drop (MemberId.baseSize version + 8)).take 2)
    !((x.drop start).take len).contains 0 && namesHeld version n (x.drop (start + len))

/-- The host names of the member set at the start of `x` have no zero bytes. -/
def setHeld (version : ProtocolVersion) (x : Bytes) : Bool :=
  namesHeld version (leNat (x.take 2)) (x.drop 2)

/-- The requests of a vote from `pos` on, found as `Vote::UnMarshal` finds them. `held` tells
whether all before `pos` ended inside the vote; it matters if the loop comes to the end of the
vote. -/
def requestsHeld (data : Bytes) : Nat → Bool → Nat → Bool
  | 0, _, _ => true
  | fuel + 1, held, pos =>
    if data.length < pos + 1 then held
    else if data.length < pos + 4 then true
    else
      let stop := pos + 4 + leNat ((data.drop pos).take 4)
      if leNat ((data.drop pos).take 4) = 0 ∨ data.length < stop % word then true
      else requestsHeld data fuel (held && decide (stop ≤ data.length)) (stop % word)

/-- The primary cookie ends inside the vote. -/
def cookieHeld (version : ProtocolVersion) (data : Bytes) : Bool :=
  decide (version.raw < 2 ∨
    Header.baseSize version + 4 + leNat ((data.drop (Header.baseSize version)).take 4) ≤
      data.length)

/-- The vote in `data`, whose header has been read. -/
def bodyHeld (fuel : Nat) (version : ProtocolVersion) (data : Bytes) : Bool :=
  match cookieEnd version data with
  | none => true
  | some pos =>
    match (Vote.unMarshalFlags version).exact (data.drop pos) with
    | .error _ => true
    | .ok ((isReconfiguration, _, _), rest) =>
      let names := !isReconfiguration || setHeld version (data.drop (pos + 1))
      requestsHeld data fuel (cookieHeld version data && names) (data.length - rest.length)

/-- The vote that starts at `readPtr` of `outer`. -/
def voteHeld (fuel : Nat) (outer : Bytes) (readPtr : Nat) : Bool :=
  match Header.unMarshal.exact (outer.drop readPtr) with
  | .error _ => true
  | .ok (header, _) =>
    header.msgId != msgVote || decide (outer.length < readPtr + header.unMarshalLen) ||
      bodyHeld fuel header.version ((outer.drop readPtr).take header.unMarshalLen)

/-- The message in `data`: if its fields are all there, its cookie and its requests end inside its
vote and its host names have no zero bytes. -/
def messageHeld (fuel : Nat) (data : Bytes) : Bool :=
  match Header.unMarshal.exact data with
  | .error _ => true
  | .ok (header, rest) =>
    match kindOf header.msgId with
    | some .vote => voteHeld fuel data 0
    | some .prepareAccepted => voteHeld fuel data (data.length - rest.length)
    | some .bootstrap =>
      match (MemberSet.unMarshal header.version).exact rest with
      | .error _ => true
      | .ok _ => setHeld header.version rest
    | _ => true

section

variable {version : ProtocolVersion} {x rest : Bytes}

theorem MemberId.exact_rest {id : MemberId}
    (h : (MemberId.unMarshal version).exact x = .ok (id, rest)) :
    rest = x.drop (MemberId.baseSize version) := by
  obtain ⟨n, hlen, -, hn⟩ :=
    Wire.MemberId.yields _ _ _ _ ((MemberId.matches_unMarshal _).ok_iff.mp h)
  rw [← exact_drop h, hlen, hn, Nat.add_sub_cancel_right]

/-- Where a member's host name is read from, and what is left behind it. -/
theorem RslNode.exact_hostName {node : RslNode}
    (h : (RslNode.unMarshal version).exact x = .ok (node, rest)) :
    node.hostName = (x.drop (MemberId.baseSize version + 10)).take
        (leNat ((x.drop (MemberId.baseSize version + 8)).take 2)) ∧
      rest = x.drop (MemberId.baseSize version + 10 +
        leNat ((x.drop (MemberId.baseSize version + 8)).take 2)) := by
  obtain ⟨id, y, hid, h⟩ := exact_bind_eq_ok.mp h
  obtain rfl := MemberId.exact_rest hid
  replace h := exact_field (exact_field (exact_field (exact_field h)))
  simp only [drop_drop, Nat.add_assoc, Nat.reduceAdd] at h
  obtain ⟨_, y, hassert, h⟩ := exact_bind_eq_ok.mp h
  obtain rfl := exact_guard hassert
  change (if _ ≤ _ then _ else _) = _ at h
  split at h
  · rw [drop_drop] at h
    dsimp only at h
    split at h <;> (cases h; exact ⟨rfl, rfl⟩)
  · cases h

/-- The host names of the members are where `namesHeld` looks for them. -/
theorem namesHeld_of_exact {n : Nat} {members : List RslNode}
    (h : ((RslNode.unMarshal version).times n).exact x = .ok (members, rest)) :
    (members.all fun node => !node.hostName.contains 0) = namesHeld version n x := by
  induction n generalizing x members with
  | zero =>
    cases h
    rfl
  | succ n ih =>
    obtain ⟨node, y, hnode, h⟩ := exact_bind_eq_ok.mp h
    obtain ⟨others, z, hothers, h⟩ := exact_bind_eq_ok.mp h
    cases h
    obtain ⟨hname, rfl⟩ := RslNode.exact_hostName hnode
    rw [all_cons, hname, ih hothers, namesHeld]

theorem setHeld_of_exact {set : MemberSet}
    (h : (MemberSet.unMarshal version).exact x = .ok (set, rest)) :
    plainNames set = setHeld version x := by
  have hcount := exact_field h
  obtain ⟨members, y, hmembers, h⟩ := exact_bind_eq_ok.mp hcount
  have hcookie := exact_field h
  obtain ⟨_, z, -, h⟩ := exact_bind_eq_ok.mp hcookie
  obtain ⟨cookie, w, -, h⟩ := exact_bind_eq_ok.mp h
  rw [setHeld, ← namesHeld_of_exact hmembers]
  cases h
  rfl

/-- The member set of a reconfiguration is behind its flag. -/
theorem Vote.setHeld_of_flags {isReconfiguration relinquishPrimary : Bool}
    {members : Option MemberSet}
    (h : (Vote.unMarshalFlags version).exact x
      = .ok ((isReconfiguration, members, relinquishPrimary), rest)) :
    members.all plainNames = (!isReconfiguration || setHeld version (x.drop 1)) := by
  obtain ⟨reconf, y, hreconf, h⟩ := exact_bind_eq_ok.mp h
  obtain ⟨set, z, hset, h⟩ := exact_bind_eq_ok.mp h
  obtain ⟨relinquish, w, -, h⟩ := exact_bind_eq_ok.mp h
  cases h
  cases isReconfiguration with
  | false =>
    cases hset
    rfl
  | true =>
    have hy : y = x.drop 1 := by
      rw [readIf] at hreconf
      split at hreconf
      · change (if _ ≤ _ then _ else _) = _ at hreconf
        split at hreconf
        · exact (Prod.mk.inj (Except.ok.inj hreconf)).2.symm
        · cases hreconf
      · cases hreconf
    obtain ⟨set, w, hread, hset⟩ := exact_bind_eq_ok.mp hset
    cases hset
    rw [Option.all_some, setHeld_of_exact hread, hy]
    rfl

end

namespace Vote

/-- All of the vote is inside it, and its host names have no zero bytes. -/
def contained (vote : Vote) : Bool :=
  (vote.primaryCookie.bytes vote.marshal).isSome &&
    vote.membersInNewConfiguration.all plainNames &&
    vote.requests.all fun span => (span.bytes vote.marshal).isSome

variable {data : Bytes} {isReconfiguration held : Bool} {pos fuel : Nat}

theorem isSome_bytes (data : Bytes) (span : Span) :
    (span.bytes data).isSome = decide (span.off + span.len ≤ data.length) := by
  rw [Span.bytes]
  split <;> simp_all

section

variable (hword : data.length + 8 ≤ word) (hpos : pos ≤ data.length)

include hword hpos

/-- What one round does, and what `requestsHeld` says about it. -/
theorem requestsHeld_round :
    (nextRequest data isReconfiguration pos = .ok (none, pos) ∧
      requestsHeld data (fuel + 1) held pos = held) ∨
    (nextRequest data isReconfiguration pos = .error .refused ∧
      requestsHeld data (fuel + 1) held pos = true) ∨
    nextRequest data isReconfiguration pos = .error .assertion ∨
    ∃ span stop, nextRequest data isReconfiguration pos = .ok (some span, stop) ∧
      stop ≤ data.length ∧ requestsHeld data (fuel + 1) held pos
        = requestsHeld data fuel (held && (span.bytes data).isSome) stop := by
  rw [nextRequest_eq hword hpos, requestsHeld]
  by_cases hend : data.length < pos + 1
  · rw [if_pos hend, if_pos hend]
    exact .inl ⟨rfl, rfl⟩
  rw [if_neg hend, if_neg hend]
  cases isReconfiguration with
  | true => exact .inr (.inr (.inl rfl))
  | false =>
    simp only [Bool.false_eq_true, if_false]
    by_cases hshort : data.length < pos + 4
    · rw [if_pos hshort, if_pos hshort]
      exact .inr (.inl ⟨rfl, rfl⟩)
    rw [if_neg hshort, if_neg hshort]
    generalize leNat ((data.drop pos).take 4) = reqLen
    by_cases hzero : reqLen = 0
    · rw [if_pos hzero, if_pos (.inl hzero)]
      exact .inr (.inl ⟨rfl, rfl⟩)
    rw [if_neg hzero]
    by_cases hout : data.length < (pos + 4 + reqLen) % word
    · rw [if_pos hout, if_pos (.inr hout)]
      exact .inr (.inl ⟨rfl, rfl⟩)
    rw [if_neg hout, if_neg (by tauto)]
    exact .inr (.inr (.inr ⟨_, _, rfl, by omega, by rw [isSome_bytes]⟩))

/-- What the loop finds, and what `requestsHeld` says about it. -/
theorem requestsHeld_eq :
    (∀ spans q, readRequests data isReconfiguration fuel pos = .ok (spans, q) →
      requestsHeld data fuel held pos
        = (held && spans.all fun span => (span.bytes data).isSome)) ∧
    (readRequests data isReconfiguration fuel pos = .error .refused →
      requestsHeld data fuel held pos = true) := by
  induction fuel generalizing pos held with
  | zero => exact ⟨fun _ _ h => (by cases h), fun h => (by cases h)⟩
  | succ fuel ih =>
    rcases requestsHeld_round hword hpos with
      ⟨hnext, hheld⟩ | ⟨hnext, hheld⟩ | hnext | ⟨span, stop, hnext, hle, hheld⟩
    · rw [readRequests_of_end hnext]
      refine ⟨fun spans q h => ?_, fun h => (by cases h)⟩
      cases h
      rw [hheld, all_nil, Bool.and_true]
    · rw [readRequests_of_stop hnext]
      exact ⟨fun _ _ h => (by cases h), fun _ => hheld⟩
    · rw [readRequests_of_stop hnext]
      exact ⟨fun _ _ h => (by cases h), fun h => (by cases h)⟩
    · rw [readRequests_of_round hnext, hheld]
      obtain ⟨hok, hrefused⟩ := ih hle
      refine ⟨fun spans q h => ?_, fun h => hrefused (bind_ok_eq_error.mp h)⟩
      obtain ⟨⟨rest, q'⟩, hrest, h⟩ := bind_eq_ok.mp h
      cases h
      rw [hok _ _ hrest, all_cons, Bool.and_assoc]

end

theorem isSome_cookie (version : ProtocolVersion) (hbase : Header.baseSize version ≤ data.length) :
    ((cookieSpan version data).bytes data).isSome = cookieHeld version data := by
  rw [isSome_bytes, cookieSpan, cookieHeld]
  by_cases hv : version.raw < 2
  · simp only [hv, if_true, true_or, add_zero, hbase]
  · simp only [hv, if_false, false_or]

/-- What the part of `Vote::UnMarshal` in the vote's own buffer finds, and what `bodyHeld` says
about it. -/
theorem bodyHeld_eq {header : Header} (hword : data.length + 8 ≤ word)
    (hbase : Header.baseSize header.version ≤ data.length) :
    (∀ f spans q, readFields header data 0 = .ok f →
      readRequests data f.1.2.1 fuel f.2 = .ok (spans, q) →
        bodyHeld fuel header.version data = ((f.1.1.bytes data).isSome &&
          f.1.2.2.1.all plainNames && spans.all fun span => (span.bytes data).isSome)) ∧
    (((readFields header data 0).bind fun f => readRequests data f.1.2.1 fuel f.2)
        = .error .refused → bodyHeld fuel header.version data = true) := by
  rw [readFields_eq hword hbase, bodyHeld]
  cases hcookie : cookieEnd header.version data with
  | none => exact ⟨fun _ _ _ h => (by cases h), fun _ => rfl⟩
  | some start =>
    have hstart := cookieEnd_le hbase hcookie
    dsimp only
    cases hflags : (unMarshalFlags header.version).cursor word data start with
    | error e =>
      refine ⟨fun _ _ _ h => (by cases h), fun h => ?_⟩
      cases h
      rw [exact_of_cursor_refused hstart hflags]
    | ok r =>
      obtain ⟨⟨isReconfiguration, members, relinquishPrimary⟩, pos⟩ := r
      obtain ⟨-, hpos⟩ := cursor_pos_le hstart hflags
      have hexact := exact_of_cursor hflags
      have hnames := setHeld_of_flags hexact
      rw [drop_drop] at hnames
      rw [hexact]
      dsimp only
      rw [← hnames, ← isSome_cookie _ hbase, length_drop, Nat.sub_sub_self hpos]
      obtain ⟨hok, hrefused⟩ := @requestsHeld_eq _ isReconfiguration
        (((cookieSpan header.version data).bytes data).isSome && members.all plainNames) _
          fuel hword hpos
      refine ⟨fun f spans q hf hreqs => ?_, hrefused⟩
      cases hf
      exact hok _ _ hreqs

variable {outer : Bytes} {readPtr : Nat}

/-- What `voteHeld` says of a vote that is in the buffer. -/
theorem voteHeld_of_copyOut {header : Header} {p : Nat}
    (h : copyOut outer readPtr = .ok ((header, data), p)) :
    voteHeld fuel outer readPtr = bodyHeld fuel header.version data ∧
      data.length + 8 ≤ word ∧ Header.baseSize header.version ≤ data.length := by
  obtain ⟨⟨q, hheader⟩, hmsg, hround, hle, hdata, -⟩ := copyOut_eq_ok h
  have hexact := exact_of_cursor hheader
  obtain ⟨-, -, hbase, -⟩ := Header.unMarshal_eq_ok hexact
  have hlen : data.length = header.unMarshalLen := by
    rw [hdata, length_take, length_drop]
    omega
  have h4096 : 4096 ≤ word := by decide
  refine ⟨?_, by omega, by omega⟩
  rw [voteHeld, hexact, hdata]
  simp [hmsg, hle]

/-- A vote that is returned is contained in itself exactly if `voteHeld` says so. -/
theorem voteHeld_of_ok {p : Nat} {vote : Vote} (h : unMarshal fuel outer readPtr = .ok (vote, p)) :
    voteHeld fuel outer readPtr = vote.contained := by
  obtain ⟨f, pos, hcopy, hfields, rfl, q, hreqs⟩ := unMarshal_eq_ok h
  obtain ⟨heq, hword, hbase⟩ := voteHeld_of_copyOut hcopy
  rw [heq, (bodyHeld_eq hword hbase).1 _ _ _ hfields hreqs]
  rfl

theorem voteHeld_of_refused (hpos : readPtr ≤ outer.length)
    (h : unMarshal fuel outer readPtr = .error .refused) : voteHeld fuel outer readPtr = true := by
  cases hread : Header.unMarshal.cursor word outer readPtr with
  | error e =>
    rw [unMarshal_eq, copyOut_error hread] at h
    cases h
    rw [voteHeld, exact_of_cursor_refused hpos hread]
  | ok r =>
    obtain ⟨header, q⟩ := r
    have hexact := exact_of_cursor hread
    obtain ⟨-, -, hbase, hlen⟩ := Header.unMarshal_eq_ok hexact
    have hbaseSize := (Header.baseSize_le header.version).1
    have hcopy := copyOut_eq hread (by omega)
    have hmod := Nat.mod_le (readPtr + header.unMarshalLen) word
    split_ifs at hcopy with hmsg hround hshort hfault
    · rw [voteHeld, hexact]
      simp [hmsg]
    · have hout : outer.length < readPtr + header.unMarshalLen := by omega
      rw [voteHeld, hexact]
      simp [hout]
    · rw [unMarshal_eq, hcopy] at h
      cases h
    · obtain ⟨heq, hword, hbase⟩ := voteHeld_of_copyOut hcopy
      rw [heq]
      exact (bodyHeld_eq hword hbase).2 (body_refused hcopy h)
    · rw [unMarshal_eq, hcopy] at h
      cases h

end Vote

/-- All of the message is inside it, and its host names have no zero bytes. -/
def Message.held : Message → Bool
  | .vote m => m.contained
  | .prepareAccepted m => m.vote.contained
  | .bootstrap m => plainNames m.memberSet
  | _ => true

theorem isSome_mapM {α β : Type} (f : α → Option β) (l : List α) :
    (l.mapM f).isSome = l.all fun a => (f a).isSome := by
  induction l with
  | nil => rfl
  | cons a l ih =>
    rw [mapM_cons, all_cons, ← ih]
    cases f a <;> cases mapM f l <;> rfl

theorem Vote.contained_eq (vote : Vote) :
    vote.contained = vote.raw.any fun w => w.membersInNewConfiguration.all plainNames := by
  rw [Vote.contained, Vote.raw, ← isSome_mapM]
  cases vote.primaryCookie.bytes vote.marshal <;>
    cases mapM (Span.bytes vote.marshal) vote.requests <;> simp [Option.any]

theorem Message.held_eq (m : Message) : m.held = m.raw.any plainMsg := by
  cases m with
  | vote m =>
    rw [Message.held, Vote.contained_eq, Message.raw]
    cases m.raw <;> rfl
  | prepareAccepted m =>
    rw [Message.held, Vote.contained_eq, Message.raw]
    cases m.vote.raw <;> rfl
  | base | join | prepare | statusResponse | bootstrap => rfl

/-- A class that holds nothing outside itself. -/
theorem held_of_forward {α : Type} {data : Bytes} {p : Reader α} {f : α → Message} {held : Bool}
    (h : ∀ a pos, p.cursor word data 0 = .ok (a, pos) → held = (f a).held)
    (hrefused : p.cursor word data 0 = .error .refused → held = true) :
    (∀ m pos, (within data p >>= fun a => (pure (f a) : Cursor Message)) 0 = .ok (m, pos) →
      held = m.held) ∧
    ((within data p >>= fun a => (pure (f a) : Cursor Message)) 0 = .error .refused →
      held = true) := by
  refine ⟨fun m pos hm => ?_, fun hm => hrefused (bind_ok_eq_error.mp hm)⟩
  obtain ⟨⟨a, pos'⟩, hread, hm⟩ := bind_eq_ok.mp hm
  cases hm
  exact h _ _ hread

/-- Behind the header of a bootstrap message there is its member set. -/
theorem BootstrapMsg.exact_of_header {data rest : Bytes} {header : Header}
    (hread : Header.unMarshal.exact data = .ok (header, rest))
    (hmsg : header.msgId = msgBootstrap) :
    BootstrapMsg.unMarshal.exact data = ((MemberSet.unMarshal header.version).exact rest).bind
      fun r => .ok (⟨header, r.1⟩, r.2) := by
  have hguard : (Prog.require (header.msgId == msgBootstrap) : Reader Unit).exact rest
      = .ok ((), rest) := by
    rw [hmsg]
    rfl
  rw [BootstrapMsg.unMarshal, exact_bind, hread, bind_ok, exact_bind, hguard, bind_ok, exact_bind]
  rfl

theorem Message.held_unMarshal {fuel p : Nat} {data : Bytes} {header : Header} {kind : MsgKind}
    (hread : Header.unMarshal.cursor word data 0 = .ok (header, p))
    (hkind : kindOf header.msgId = some kind) :
    (∀ m pos, Message.unMarshal fuel data kind 0 = .ok (m, pos) →
      messageHeld fuel data = m.held) ∧
    (Message.unMarshal fuel data kind 0 = .error .refused → messageHeld fuel data = true) := by
  have hexact := exact_of_cursor hread
  obtain ⟨-, hp⟩ := cursor_pos_le (Nat.zero_le _) hread
  rw [drop_zero] at hexact
  rw [messageHeld, hexact]
  dsimp only
  rw [hkind, length_drop, Nat.sub_sub_self hp]
  cases kind with
  | base | join | prepare | statusResponse => exact held_of_forward (fun _ _ _ => rfl) fun _ => rfl
  | vote =>
    refine ⟨fun m pos hm => ?_, fun hm => ?_⟩
    · obtain ⟨⟨vote, pos'⟩, hvote, hm⟩ := bind_eq_ok.mp hm
      cases hm
      exact Vote.voteHeld_of_ok hvote
    · exact Vote.voteHeld_of_refused (Nat.zero_le _) (bind_ok_eq_error.mp hm)
  | prepareAccepted =>
    have hmsg := kindOf_eq_some hkind
    rw [Message.unMarshal, bind_apply, PrepareAccepted.unMarshal_of_header hread hmsg]
    refine ⟨fun m pos hm => ?_, fun hm => ?_⟩
    · obtain ⟨⟨accepted, pos'⟩, haccepted, hm⟩ := bind_eq_ok.mp hm
      obtain ⟨⟨vote, pos''⟩, hvote, haccepted⟩ := bind_eq_ok.mp haccepted
      cases haccepted
      cases hm
      exact Vote.voteHeld_of_ok hvote
    · exact Vote.voteHeld_of_refused hp (bind_ok_eq_error.mp (bind_ok_eq_error.mp hm))
  | bootstrap =>
    have hset := BootstrapMsg.exact_of_header hexact (kindOf_eq_some hkind)
    refine held_of_forward (fun m pos hm => ?_) fun hm => ?_
    · have h := exact_of_cursor hm
      rw [drop_zero, hset] at h
      obtain ⟨⟨set, rest⟩, hset, h⟩ := bind_eq_ok.mp h
      cases h
      rw [hset]
      exact (setHeld_of_exact hset).symm
    · have h := exact_of_cursor_refused (Nat.zero_le _) hm
      rw [drop_zero, hset] at h
      rw [bind_ok_eq_error.mp h]

/-- What a message holds is inside it, and its host names have no zero bytes, exactly if
`messageHeld` says so of its bytes; it says so of all messages that are refused. -/
theorem messageHeld_eq (fuel : Nat) (data : Bytes) :
    (∀ m, unMarshalMessage fuel data = .ok m → messageHeld fuel data = m.held) ∧
    (unMarshalMessage fuel data = .error .refused → messageHeld fuel data = true) := by
  refine unMarshalMessage_cases (fun hshort => ?_) (fun header rest hexact hkind => ?_)
    fun header p kind hread hkind => Message.held_unMarshal hread hkind
  · rw [messageHeld, hshort]
  · rw [messageHeld, hexact]
    dsimp only
    rw [hkind]

/-! ## The slices of the Rust reader -/

/-- `&buf[start..stop]`, which panics when the range is not inside the buffer. -/
def slice (buf : Bytes) (start stop : Nat) : Option Bytes :=
  if start ≤ stop ∧ stop ≤ buf.length then some ((buf.drop start).take (stop - start)) else none

/-- `Reader` of `rsl-wire`. -/
structure RustReader where
  buf : Bytes
  pos : Nat
  overshoot : Bool

/-- `Reader::take`, which all reads go through: `none` is a panic, and the value inside is what
`take` returns. -/
def RustReader.take (r : RustReader) (len : Nat) : Option (Option Bytes × RustReader) :=
  if r.overshoot || decide (r.buf.length < r.pos + len) then
    some (none, { r with overshoot := true })
  else
    (slice r.buf r.pos (r.pos + len)).map fun out => (some out, { r with pos := r.pos + len })

/-- A read in the Rust reader does not panic, and it reads what the parser over the unread bytes
reads. -/
theorem RustReader.take_eq (r : RustReader) (h : r.overshoot = false) (hpos : r.pos ≤ r.buf.length)
    (len : Nat) :
    r.take len = some (match Parser.take len (r.buf.drop r.pos) with
      | none => (none, { r with overshoot := true })
      | some (out, _) => (some out, { r with pos := r.pos + len })) := by
  rw [RustReader.take, h, Bool.false_or, Parser.take, length_drop, slice]
  by_cases hlen : r.buf.length < r.pos + len
  · rw [if_pos (decide_eq_true hlen), if_neg (by omega)]
  · rw [if_neg (by simpa using hlen), if_pos (by omega), if_pos (by omega), add_tsub_cancel_left]
    rfl

/-- The slices that `Vote::unmarshal` and `PrepareAccepted::unmarshal` take, with the checks before
them. -/
theorem vote_slices {buf rest : Bytes} {header : Header}
    (h : Wire.Header.unmarshal buf = some (header, rest)) :
    (slice buf (Header.baseSize header.version) buf.length).isSome = true ∧
      (¬ buf.length < header.unMarshalLen → (slice buf 0 header.unMarshalLen).isSome = true) := by
  obtain ⟨-, hlen, -, -⟩ := Header.unMarshal_eq_ok (Header.matches_unMarshal.ok_iff.mpr h)
  constructor
  · rw [slice, if_pos (by omega)]
    rfl
  · intro hle
    rw [slice, if_pos (by omega)]
    rfl

/-! ## Agreement -/

/-- On every buffer on which `UnMarshalMessage` ends without aborting, the two readers agree exactly
if the cookie and the requests that are found in the buffer end inside their vote and the host names
have no zero bytes. The Rust reader takes no slice out of range: not in its reads, and not where it
cuts out a vote. -/
theorem readers_agree (fuel : Nat) (data : Bytes) :
    (Fine (unMarshalMessage fuel data) →
      (Agree (unMarshalMessage fuel data) (rustUnmarshal data) ↔ messageHeld fuel data = true)) ∧
    (∀ (r : RustReader) len, r.pos ≤ r.buf.length → (r.take len).isSome = true) ∧
    (∀ buf header rest, Wire.Header.unmarshal buf = some (header, rest) →
      (slice buf (Header.baseSize header.version) buf.length).isSome = true ∧
        (¬ buf.length < header.unMarshalLen →
          (slice buf 0 header.unMarshalLen).isSome = true)) := by
  refine ⟨fun hfine => ?_, fun r len hpos => ?_, fun _ _ _ => vote_slices⟩
  · obtain ⟨hok, hrefused⟩ := unMarshalMessage_wire fuel data
    obtain ⟨hheld, hheldRefused⟩ := messageHeld_eq fuel data
    cases h : unMarshalMessage fuel data with
    | error e =>
      rw [hfine e h] at h
      rw [hrefused h, hheldRefused h]
      simp [Agree]
    | ok m =>
      rw [hok m h, hheld m h, Message.held_eq]
      cases hraw : m.raw with
      | none => simp [Agree]
      | some w => simp [Agree, Message.value, hraw, cMsg_eq_iff]
  · cases hover : r.overshoot with
    | true =>
      rw [RustReader.take, hover]
      rfl
    | false =>
      rw [RustReader.take_eq r hover hpos]
      rfl

/-- A vote with one request is read by both. -/
theorem readers_agree_vote :
    Agree (unMarshalMessage 2 (voteBytes 53 (leBytes 4 1 ++ [9])))
      (rustUnmarshal (voteBytes 53 (leBytes 4 1 ++ [9]))) := by
  have hok : (unMarshalMessage 2 (voteBytes 53 (leBytes 4 1 ++ [9]))).isOk = true := by
    decide +kernel
  refine ((readers_agree 2 _).1 ?_).mpr (by decide +kernel)
  intro e he
  rw [he] at hok
  cases hok

/-- A version 2 vote of decree 20 whose cookie has length `word - 24`. -/
def longCookieVote : Bytes :=
  leBytes 2 2 ++ leBytes 4 52 ++ leBytes 8 0 ++ leBytes 4 magicNumber ++ leBytes 2 msgVote
    ++ leBytes 8 7 ++ leBytes 8 20 ++ (leBytes 4 5 ++ leBytes 8 7) ++ leBytes 4 (word - 24)

/-- On this vote the C++ reader goes back into the header, takes the decree for the length of a
request and returns a message; the Rust reader refuses. -/
theorem readers_disagree_cookie :
    (unMarshalMessage 2 longCookieVote).isOk = true ∧ rustUnmarshal longCookieVote = none := by
  constructor <;> decide +kernel

end Rsl.Cpp
