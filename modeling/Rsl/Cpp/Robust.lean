import Rsl.Cpp.Fields

/-!
# Which buffers the C++ readers survive

`UnMarshalMessage` follows lengths that it finds in the buffer. On some buffers it fails a
`LogAssert` (a host name that does not fit its array, a reconfiguration with requests, a vote whose
length rounds up to nothing), reads outside the buffer (a copied field whose end wraps) or goes back
in the vote (a request whose end wraps), in the worst case for ever. `messageTame` says of the bytes
that none of this is met, and it is exact: on tame buffers the reader ends with a message or `NULL`
and each round of its loops consumes input, and on all others not. `CheckpointHeader::UnMarshal` is
treated the same way.
-/

set_option autoImplicit false

namespace Rsl.Cpp

open Lib Wire Cpp.Header Wire.Header Prog

/-! ## What is asked of a reader -/

/-- The reader ends with a value or reports that the input is not valid. -/
def Fine {α : Type} (r : Except Stop α) : Prop := ∀ e, r = .error e → e = .refused

/-- One round of the loop over the requests. -/
def Vote.Round (data : Bytes) (isReconfiguration : Bool) (pos pos' : Nat) : Prop :=
  ∃ span, Vote.nextRequest data isReconfiguration pos = .ok (some span, pos')

/-- Every round of the loop that starts at `pos` consumes input. -/
def Vote.Consumes (data : Bytes) (isReconfiguration : Bool) (pos : Nat) : Prop :=
  ∀ p, Relation.ReflTransGen (Vote.Round data isReconfiguration) pos p →
    ∀ p', Vote.Round data isReconfiguration p p' → p < p'

/-- Where `Vote::UnMarshal` enters its loop: the vote's buffer, whether it is a reconfiguration, and
the read pointer. -/
def Vote.loopEntry (outer : Bytes) (readPtr : Nat) : Option (Bytes × Bool × Nat) :=
  match Vote.copyOut outer readPtr with
  | .error _ => none
  | .ok ((header, data), _) =>
    match Vote.readFields header data 0 with
    | .error _ => none
    | .ok ((_, isReconfiguration, _, _), pos) => some (data, isReconfiguration, pos)

/-- `Vote::UnMarshal` at `readPtr` ends properly, and its loop consumes input in every round. -/
def Vote.Robust (outer : Bytes) (readPtr : Nat) : Prop :=
  (∃ fuel, Fine (Vote.unMarshal fuel outer readPtr)) ∧
    ∀ data isReconfiguration pos, Vote.loopEntry outer readPtr =
      some (data, isReconfiguration, pos) →
      Vote.Consumes data isReconfiguration pos

/-- Where the vote of a message starts, for the two messages that have one. -/
def voteStart (data : Bytes) : Option Nat :=
  match unMarshal.cursor word data 0 with
  | .error _ => none
  | .ok (header, pos) =>
    match kindOf header.msgId with
    | some .vote => some 0
    | some .prepareAccepted => some pos
    | _ => none

/-- `UnMarshalMessage` ends with a message or `NULL`, and the loop over the requests of its vote
consumes input in every round. -/
def Robust (data : Bytes) : Prop :=
  (∃ fuel, Fine (unMarshalMessage fuel data)) ∧
    ∀ start, voteStart data = some start →
      ∀ d isReconfiguration pos, Vote.loopEntry data start = some (d, isReconfiguration, pos) →
        Vote.Consumes d isReconfiguration pos

/-- Where the vote of a checkpoint header starts. -/
def CheckpointHeader.voteStart (data : Bytes) : Option Nat :=
  match readFields data 0 with
  | .error _ => none
  | .ok (_, start) => some start

/-- `CheckpointHeader::UnMarshal` ends with `true` or `false`, and the loop over the requests of its
vote consumes input in every round. -/
def CheckpointHeader.Robust (data : Bytes) : Prop :=
  (∃ fuel, Fine (unMarshal fuel data 0)) ∧
    ∀ start, voteStart data = some start →
      ∀ d isReconfiguration pos, Vote.loopEntry data start = some (d, isReconfiguration, pos) →
        Vote.Consumes d isReconfiguration pos

/-! ## The condition on the bytes -/

/-- The requests in the unread bytes `x` of a vote, which start at `pos`: none for a
reconfiguration, and none whose end, as a `UInt32`, is not behind its start. -/
def requestsTame (isReconfiguration : Bool) : Nat → Nat → Bytes → Bool
  | 0, _, _ => true
  | fuel + 1, pos, x =>
    if x.length = 0 then true
    else if isReconfiguration then false
    else if x.length < 4 then true
    else
      let reqLen := leNat (x.take 4)
      let stop := (pos + 4 + reqLen) % word
      if reqLen = 0 then true
      else if stop ≤ pos then false
      else if x.length < stop - pos then true
      else requestsTame isReconfiguration fuel stop (x.drop (stop - pos))

/-- The read pointer behind the primary cookie of a vote, unless the cookie is refused. It wraps. -/
def cookieEnd (version : ProtocolVersion) (data : Bytes) : Option Nat :=
  let start := baseSize version
  if version.raw < 2 then some start
  else if data.length < start + 4 then none
  else
    let stop := (start + 4 + leNat ((data.drop start).take 4)) % word
    if data.length < stop then none else some stop

/-- The vote in `data`, whose header has been read. -/
def bodyTame (version : ProtocolVersion) (data : Bytes) : Bool :=
  match cookieEnd version data with
  | none => true
  | some pos =>
    (Vote.unMarshalFlags version).safe word pos (data.drop pos) &&
      match (Vote.unMarshalFlags version).exact (data.drop pos) with
      | .error _ => true
      | .ok ((isReconfiguration, _, _), rest) =>
        requestsTame isReconfiguration rest.length (data.length - rest.length) rest

/-- The vote that starts at `readPtr` of `outer`. -/
def voteTame (outer : Bytes) (readPtr : Nat) : Bool :=
  unMarshal.safe word readPtr (outer.drop readPtr) &&
    match unMarshal.exact (outer.drop readPtr) with
    | .error _ => true
    | .ok (header, _) =>
      header.msgId != msgVote ||
        (decide (header.unMarshalLen ≤ word - 4096) &&
          decide (readPtr + header.unMarshalLen < word) &&
          (decide (outer.length < readPtr + header.unMarshalLen) ||
            bodyTame header.version ((outer.drop readPtr).take header.unMarshalLen)))

/-- The message in `data`: its vote, the host names and the cookie of a member set, and the cookie
of a prepare message. -/
def messageTame (data : Bytes) : Bool :=
  match unMarshal.exact data with
  | .error _ => true
  | .ok (header, rest) =>
    match kindOf header.msgId with
    | some .vote => voteTame data 0
    | some .prepareAccepted => voteTame data (data.length - rest.length)
    | some .prepare => PrepareMsg.unMarshal.safe word 0 data
    | some .bootstrap => BootstrapMsg.unMarshal.safe word 0 data
    | _ => true

/-- The checkpoint header in `data`: its member set and its vote. -/
def checkpointTame (data : Bytes) : Bool :=
  if data.length < 2 then true
  else
    let raw := leNat (data.take 2)
    if !isVersionValid raw then true
    else if raw ≥ 3 then
      (CheckpointFields.unMarshal ⟨raw⟩).safe word 2 (data.drop 2) &&
        match (CheckpointFields.unMarshal ⟨raw⟩).exact (data.drop 2) with
        | .error _ => true
        | .ok (_, rest) => voteTame data (data.length - rest.length)
    else voteTame data 0

/-! ## The loop over the requests -/

variable {α : Type}

theorem Fine.of_error {e : Stop} (h : Fine (.error e : Except Stop α)) : e = .refused :=
  h e rfl

theorem fine_ok (a : α) : Fine (.ok a) := nofun

theorem fine_refused : Fine (.error .refused : Except Stop α) :=
  fun _ h => (Except.error.inj h).symm

@[simp]
theorem fine_error_iff {e : Stop} : Fine (.error e : Except Stop α) ↔ e = .refused := by
  constructor
  · exact Fine.of_error
  · rintro rfl
    exact fine_refused

section Cursor

variable {β : Type}

theorem bind_apply (x : Cursor α) (f : α → Cursor β) (pos : Nat) :
    (x >>= f) pos = (x pos).bind fun r => f r.1 r.2 := rfl

theorem pure_apply (a : α) (pos : Nat) : (pure a : Cursor α) pos = .ok (a, pos) := rfl

theorem within_apply (data : Bytes) (p : Reader α) (pos : Nat) :
    within data p pos = p.cursor word data pos := rfl

theorem stopUnless_apply (c : Bool) (e : Stop) (pos : Nat) :
    stopUnless c e pos = if c then .ok ((), pos) else .error e := by
  cases c <;> rfl

theorem bind_ok (a : α) (f : α → Except Stop β) : (Except.ok a : Except Stop α).bind f = f a := rfl

theorem bind_error (e : Stop) (f : α → Except Stop β) :
    (Except.error e : Except Stop α).bind f = .error e := rfl

theorem fine_bind_ok (x : Except Stop α) (f : α → β) :
    Fine (x.bind fun r => .ok (f r)) ↔ Fine x := by
  cases x with
  | error e => simp only [bind_error, fine_error_iff]
  | ok a => exact ⟨fun _ => fine_ok a, fun _ => fine_ok _⟩

theorem bind_ok_eq_error {x : Except Stop α} {f : α → β} {e : Stop} :
    (x.bind fun a => .ok (f a)) = .error e ↔ x = .error e := by
  cases x <;> simp [bind_ok, bind_error]

end Cursor

namespace Vote

variable {data : Bytes} {isReconfiguration : Bool} {pos : Nat}

theorem readUInt32_cursor (hword : data.length + 8 ≤ word) (hpos : pos ≤ data.length) :
    readUInt32.cursor word data pos =
      if data.length < pos + 4 then .error .refused
      else .ok (leNat ((data.drop pos).take 4), pos + 4) := by
  have hmod : (pos + 4) % word = pos + 4 := Nat.mod_eq_of_lt (by omega)
  show (take 4 fun x => ret (leNat x)).cursor word data pos = _
  rw [cursor, hmod]
  split <;> rfl

/-- One round of the loop in a vote that is not close to `word`. -/
theorem nextRequest_eq (hword : data.length + 8 ≤ word) (hpos : pos ≤ data.length) :
    nextRequest data isReconfiguration pos =
      if data.length < pos + 1 then .ok (none, pos)
      else if isReconfiguration then .error .assertion
      else if data.length < pos + 4 then .error .refused
      else
        let reqLen := leNat ((data.drop pos).take 4)
        let stop := (pos + 4 + reqLen) % word
        if reqLen = 0 then .error .refused
        else if data.length < stop then .error .refused
        else .ok (some ⟨pos + 4, reqLen⟩, stop) := by
  have hmod : (pos + 1) % word = pos + 1 := Nat.mod_eq_of_lt (by omega)
  have htest : testReadRemaining data 1 pos = .ok (decide (pos + 1 ≤ data.length), pos) := by
    rw [testReadRemaining, hmod]
  rw [nextRequest, bind_apply, htest, bind_ok]
  by_cases hend : data.length < pos + 1
  · rw [if_pos hend, decide_eq_false (by omega)]
    rfl
  rw [if_neg hend, decide_eq_true (by omega)]
  cases isReconfiguration with
  | true => rfl
  | false =>
    simp only [if_true, Bool.not_false, bind_apply, stopUnless_apply, within_apply, bind_ok,
      readUInt32_cursor hword hpos, Bool.false_eq_true, if_false]
    by_cases hshort : data.length < pos + 4
    · rw [if_pos hshort, if_pos hshort, bind_error]
    rw [if_neg hshort, if_neg hshort, bind_ok]
    by_cases hzero : leNat ((data.drop pos).take 4) = 0
    · simp only [hzero, bne_self_eq_false, Bool.false_eq_true, if_false, if_true, bind_error]
    · have hne : (leNat ((data.drop pos).take 4) != 0) = true := by simpa using hzero
      simp only [hne, hzero, if_true, if_false, bind_ok, peekDataPointer]
      split
      · rfl
      · next hstop => simp only [bind_ok, forwardReadPointer, if_neg hstop, pure_apply]

theorem Round.unique {p q : Nat} (hp : Round data isReconfiguration pos p)
    (hq : Round data isReconfiguration pos q) : p = q := by
  obtain ⟨span, hp⟩ := hp
  obtain ⟨span', hq⟩ := hq
  rw [hp] at hq
  exact (Prod.mk.inj (Except.ok.inj hq)).2

theorem consumes_of_stuck (h : ∀ p, ¬ Round data isReconfiguration pos p) :
    Consumes data isReconfiguration pos := by
  intro p hreach p' hround
  rcases hreach.cases_head with rfl | ⟨q, hq, -⟩
  · exact absurd hround (h p')
  · exact absurd hq (h q)

theorem consumes_of_round {q : Nat} (hround : Round data isReconfiguration pos q) (hlt : pos < q)
    (hq : Consumes data isReconfiguration q) : Consumes data isReconfiguration pos := by
  intro p hreach p' hp
  rcases hreach.cases_head with rfl | ⟨q', hq', hrest⟩
  · rwa [hp.unique hround]
  · rw [hq'.unique hround] at hrest
    exact hq p hrest p' hp

theorem Consumes.next {q : Nat} (h : Consumes data isReconfiguration pos)
    (hround : Round data isReconfiguration pos q) : Consumes data isReconfiguration q :=
  fun p hreach => h p (hreach.head hround)

/-- The loop when a round finds a request. -/
theorem readRequests_of_round {fuel stop : Nat} {span : Span}
    (h : nextRequest data isReconfiguration pos = .ok (some span, stop)) :
    readRequests data isReconfiguration (fuel + 1) pos =
      (readRequests data isReconfiguration fuel stop).bind fun r => .ok (span :: r.1, r.2) := by
  rw [readRequests, bind_apply, h]
  rfl

theorem readRequests_of_end {fuel : Nat} {p : Nat}
    (h : nextRequest data isReconfiguration pos = .ok (none, p)) :
    readRequests data isReconfiguration (fuel + 1) pos = .ok ([], p) := by
  rw [readRequests, bind_apply, h]
  rfl

theorem readRequests_of_stop {fuel : Nat} {e : Stop}
    (h : nextRequest data isReconfiguration pos = .error e) :
    readRequests data isReconfiguration (fuel + 1) pos = .error e := by
  rw [readRequests, bind_apply, h]
  rfl

/-- A round that refuses, or that finds the end of the vote, is the last one. -/
theorem requests_of_last {r : Except Stop (Option Span × Nat)} {fuel p : Nat}
    (h : nextRequest data isReconfiguration pos = r)
    (hr : r = .error .refused ∨ r = .ok (none, p)) :
    Fine (readRequests data isReconfiguration (fuel + 1) pos) ∧
      Consumes data isReconfiguration pos := by
  rcases hr with rfl | rfl
  · refine ⟨by rw [readRequests_of_stop h]; exact fine_refused, consumes_of_stuck ?_⟩
    rintro p ⟨span, hspan⟩
    rw [h] at hspan
    cases hspan
  · refine ⟨by rw [readRequests_of_end h]; exact fine_ok _, consumes_of_stuck ?_⟩
    rintro p ⟨span, hspan⟩
    rw [h] at hspan
    cases hspan

section

variable (hword : data.length + 8 ≤ word) (hpos : pos ≤ data.length)

include hword hpos

/-- What one round does, and what `requestsTame` says about it: it is the last one, it fails an
assertion, or it goes to some place in the vote, which is not always behind the place it started
from. -/
theorem requestsTame_round (n : Nat) :
    (requestsTame isReconfiguration (n + 1) pos (data.drop pos) = true ∧
      (nextRequest data isReconfiguration pos = .error .refused ∨
        nextRequest data isReconfiguration pos = .ok (none, pos))) ∨
    (requestsTame isReconfiguration (n + 1) pos (data.drop pos) = false ∧
      nextRequest data isReconfiguration pos = .error .assertion) ∨
    ∃ span stop, nextRequest data isReconfiguration pos = .ok (some span, stop) ∧
      (stop ≤ pos ∧ requestsTame isReconfiguration (n + 1) pos (data.drop pos) = false ∨
        pos < stop ∧ stop ≤ data.length ∧
          requestsTame isReconfiguration (n + 1) pos (data.drop pos)
            = requestsTame isReconfiguration n stop (data.drop stop)) := by
  rw [nextRequest_eq hword hpos, requestsTame, List.length_drop]
  by_cases hend : data.length < pos + 1
  · rw [if_pos hend, if_pos (by omega)]
    exact .inl ⟨rfl, .inr rfl⟩
  rw [if_neg hend, if_neg (by omega)]
  cases isReconfiguration with
  | true => exact .inr (.inl ⟨rfl, rfl⟩)
  | false =>
    simp only [Bool.false_eq_true, if_false]
    by_cases hshort : data.length < pos + 4
    · rw [if_pos hshort, if_pos (by omega)]
      exact .inl ⟨rfl, .inl rfl⟩
    rw [if_neg hshort, if_neg (by omega)]
    generalize leNat ((data.drop pos).take 4) = reqLen
    by_cases hzero : reqLen = 0
    · rw [if_pos hzero, if_pos hzero]
      exact .inl ⟨rfl, .inl rfl⟩
    rw [if_neg hzero, if_neg hzero]
    generalize (pos + 4 + reqLen) % word = stop
    by_cases hback : stop ≤ pos
    · rw [if_pos hback, if_neg (by omega)]
      exact .inr (.inr ⟨_, stop, rfl, .inl ⟨hback, rfl⟩⟩)
    rw [if_neg hback]
    by_cases hout : data.length < stop
    · rw [if_pos hout, if_pos (by omega)]
      exact .inl ⟨rfl, .inl rfl⟩
    rw [if_neg hout, if_neg (by omega), List.drop_drop, Nat.add_sub_cancel' (by omega)]
    exact .inr (.inr ⟨_, stop, rfl, .inr ⟨by omega, by omega, rfl⟩⟩)

/-- Tame requests are read to the end, or refused, and each round consumes input. -/
theorem requests_of_tame {n : Nat} (hn : data.length - pos ≤ n)
    (h : requestsTame isReconfiguration n pos (data.drop pos) = true) :
    Fine (readRequests data isReconfiguration (n + 1) pos) ∧
      Consumes data isReconfiguration pos := by
  induction n generalizing pos with
  | zero =>
    have hnext : nextRequest data isReconfiguration pos = _ := nextRequest_eq hword hpos
    rw [if_pos (by omega)] at hnext
    exact requests_of_last hnext (.inr rfl)
  | succ n ih =>
    rcases requestsTame_round hword hpos n with
      ⟨-, hlast⟩ | ⟨hnot, -⟩ | ⟨span, stop, hnext, ⟨-, hnot⟩ | ⟨hlt, hle, hrest⟩⟩
    · exact requests_of_last rfl hlast
    · rw [hnot] at h
      cases h
    · rw [hnot] at h
      cases h
    · rw [hrest] at h
      obtain ⟨hfine, hcons⟩ := ih hle (by omega) h
      refine ⟨?_, consumes_of_round ⟨span, hnext⟩ hlt hcons⟩
      rw [readRequests_of_round hnext, fine_bind_ok]
      exact hfine

/-- Requests that are not tame fail an assertion, run for ever or go back in the vote. -/
theorem requests_of_not_tame {n : Nat}
    (h : requestsTame isReconfiguration n pos (data.drop pos) = false) :
    (∀ fuel, ¬ Fine (readRequests data isReconfiguration fuel pos)) ∨
      ¬ Consumes data isReconfiguration pos := by
  induction n generalizing pos with
  | zero => cases h
  | succ n ih =>
    rcases requestsTame_round hword hpos n with
      ⟨htame, -⟩ | ⟨-, hstop⟩ | ⟨span, stop, hnext, ⟨hback, -⟩ | ⟨-, hle, hrest⟩⟩
    · rw [htame] at h
      cases h
    · left
      intro fuel hfine
      cases fuel with
      | zero => exact Stop.noConfusion (hfine .hangs rfl)
      | succ fuel =>
        rw [readRequests_of_stop hstop] at hfine
        exact Stop.noConfusion hfine.of_error
    · right
      intro hcons
      have hlt := hcons pos .refl stop ⟨span, hnext⟩
      omega
    · rw [hrest] at h
      rcases ih hle h with hfine | hcons
      · left
        intro fuel
        cases fuel with
        | zero => exact fun hfine => Stop.noConfusion (hfine .hangs rfl)
        | succ fuel =>
          rw [readRequests_of_round hnext, fine_bind_ok]
          exact hfine fuel
      · right
        intro h
        exact hcons (h.next ⟨span, hnext⟩)

end

end Vote

/-! ## Votes -/

/-- What the C++ reader knows of a header that it has read. -/
theorem Header.unMarshal_eq_ok {x rest : Bytes} {header : Header}
    (h : unMarshal.exact x = .ok (header, rest)) :
    header.WellFormed ∧ x.length = baseSize header.version + rest.length ∧
      baseSize header.version ≤ header.unMarshalLen ∧ header.unMarshalLen < word := by
  obtain ⟨n, hlen, hwell, rfl, hbase, hlt⟩ := yields _ _ _ (matches_unMarshal.ok_iff.mp h)
  exact ⟨hwell, hlen, hbase, hlt⟩

theorem roundUpToSystemPage_ne_zero {n : Nat} (hpos : 0 < n) (hn : n < word) :
    (roundUpToSystemPage n != 0) = decide (n ≤ word - 4096) := by
  rw [Bool.eq_iff_iff, bne_iff_ne, decide_eq_true_eq, roundUpToSystemPage]
  simp only [word] at hn ⊢
  omega

namespace Vote

/-- The span of the primary cookie. -/
def cookieSpan (version : ProtocolVersion) (data : Bytes) : Span :=
  let start := baseSize version
  if version.raw < 2 then ⟨start, 0⟩ else ⟨start + 4, leNat ((data.drop start).take 4)⟩

variable {data : Bytes}

theorem cookieEnd_le {version : ProtocolVersion} {pos : Nat}
    (hbase : baseSize version ≤ data.length) (h : cookieEnd version data = some pos) :
    pos ≤ data.length := by
  simp only [cookieEnd] at h
  split at h
  · exact Option.some.inj h ▸ hbase
  · split at h
    · cases h
    · split at h
      · cases h
      · next hle => exact Option.some.inj h ▸ le_of_not_gt hle

theorem unMarshalFrom_eq {version : ProtocolVersion} (hword : data.length + 8 ≤ word)
    (hbase : baseSize version ≤ data.length) :
    PrimaryCookie.unMarshalFrom version data (baseSize version) =
      match cookieEnd version data with
      | none => .error .refused
      | some pos => .ok (cookieSpan version data, pos) := by
  rw [PrimaryCookie.unMarshalFrom, cookieEnd, cookieSpan]
  by_cases hv : version.raw < 2
  · rw [if_neg (by omega)]
    simp only [if_pos hv]
    rfl
  rw [if_pos (by omega)]
  simp only [if_neg hv]
  rw [PrimaryCookie.unMarshal, bind_apply, within_apply, readUInt32_cursor hword hbase]
  by_cases hshort : data.length < baseSize version + 4
  · rw [if_pos hshort, if_pos hshort]
    rfl
  rw [if_neg hshort, if_neg hshort, bind_ok]
  generalize leNat ((data.drop (baseSize version)).take 4) = len
  rcases Nat.eq_zero_or_pos len with rfl | hpos
  · rw [if_neg (lt_irrefl 0), add_zero, Nat.mod_eq_of_lt (by omega), if_neg hshort]
    rfl
  · rw [if_pos hpos, bind_apply, peekDataPointer]
    split
    · rfl
    · next hstop =>
      rw [bind_ok, bind_apply, forwardReadPointer, if_neg hstop]
      rfl

/-- The fields before the requests, in the vote's own buffer. -/
theorem readFields_eq {header : Header} (hword : data.length + 8 ≤ word)
    (hbase : baseSize header.version ≤ data.length) :
    readFields header data 0 =
      match cookieEnd header.version data with
      | none => .error .refused
      | some pos => ((unMarshalFlags header.version).cursor word data pos).bind fun r =>
        .ok ((cookieSpan header.version data, r.1), r.2) := by
  have hmod : (0 + baseSize header.version) % word = baseSize header.version := by
    rw [zero_add]
    exact Nat.mod_eq_of_lt (by omega)
  rw [readFields, bind_apply, forwardReadPointer, hmod, if_neg (by omega), bind_ok, bind_apply,
    unMarshalFrom_eq hword hbase]
  cases cookieEnd header.version data <;> rfl

/-- The vote is copied out of the buffer around it. -/
theorem copyOut_eq {outer : Bytes} {readPtr : Nat} {header : Header} {p : Nat}
    (hread : Header.unMarshal.cursor word outer readPtr = .ok (header, p))
    (hlen : 0 < header.unMarshalLen ∧ header.unMarshalLen < word) :
    copyOut outer readPtr =
      if header.msgId ≠ msgVote then .error .refused
      else if ¬ header.unMarshalLen ≤ word - 4096 then .error .assertion
      else if outer.length < (readPtr + header.unMarshalLen) % word then .error .refused
      else if outer.length < readPtr + header.unMarshalLen then .error .fault
      else .ok ((header, (outer.drop readPtr).take header.unMarshalLen),
        readPtr + header.unMarshalLen) := by
  have hget : (get : Cursor Nat) readPtr = .ok (readPtr, readPtr) := rfl
  have hset : ∀ q, (set readPtr : Cursor PUnit) q = .ok (⟨⟩, readPtr) := fun _ => rfl
  rw [copyOut, bind_apply, hget, bind_ok, bind_apply, within_apply, hread, bind_ok,
    bind_apply, hset,
    bind_ok, bind_apply, stopUnless_apply]
  by_cases hmsg : header.msgId = msgVote
  · rw [if_neg (not_not.mpr hmsg), beq_iff_eq.mpr hmsg, if_pos rfl, bind_ok, bind_apply,
      stopUnless_apply, roundUpToSystemPage_ne_zero hlen.1 hlen.2]
    by_cases hround : header.unMarshalLen ≤ word - 4096
    · rw [decide_eq_true hround, if_pos rfl, if_neg (not_not.mpr hround), bind_ok, bind_apply,
        within_apply, readData, Prog.read, Prog.cursor]
      split
      · rfl
      · split <;> rfl
    · rw [decide_eq_false hround, if_pos hround]
      rfl
  · rw [if_pos hmsg, beq_eq_false_iff_ne.mpr hmsg]
    rfl

theorem copyOut_error {outer : Bytes} {readPtr : Nat} {e : Stop}
    (hread : Header.unMarshal.cursor word outer readPtr = .error e) :
    copyOut outer readPtr = .error e := by
  have hget : (get : Cursor Nat) readPtr = .ok (readPtr, readPtr) := rfl
  rw [copyOut, bind_apply, hget, bind_ok, bind_apply, within_apply, hread, bind_error]

theorem unMarshal_eq (fuel : Nat) (outer : Bytes) (readPtr : Nat) :
    unMarshal fuel outer readPtr = (copyOut outer readPtr).bind fun c =>
      (readFields c.1.1 c.1.2 0).bind fun f =>
      (readRequests c.1.2 f.1.2.1 fuel f.2).bind fun r =>
      .ok (⟨c.1.1, c.1.2, f.1.1, f.1.2.1, f.1.2.2.1, f.1.2.2.2, r.1⟩, c.2) := by
  rw [unMarshal, bind_apply]
  cases copyOut outer readPtr with
  | error e => rfl
  | ok c =>
    obtain ⟨⟨header, data⟩, p⟩ := c
    rw [bind_ok, bind_ok]
    simp only [bind_apply, inside]
    cases readFields header data 0 with
    | error e => rfl
    | ok f =>
      simp only [bind_ok]
      cases readRequests data f.1.2.1 fuel f.2 <;> rfl

end Vote

namespace Vote

variable {outer : Bytes} {header : Header} {data : Bytes}

/-- The part of `Vote::UnMarshal` in the vote's own buffer ends properly and consumes input in every
round, exactly when the vote is tame. -/
theorem body_robust_iff (hword : data.length + 4096 ≤ word)
    (hbase : baseSize header.version ≤ data.length) :
    ((∃ fuel, Fine ((readFields header data 0).bind fun f => readRequests data f.1.2.1 fuel f.2)) ∧
      ∀ f, readFields header data 0 = .ok f → Consumes data f.1.2.1 f.2) ↔
      bodyTame header.version data = true := by
  rw [readFields_eq (by omega) hbase, bodyTame]
  cases hcookie : cookieEnd header.version data with
  | none => simp [bind_error]
  | some pos =>
    have hpos := cookieEnd_le hbase hcookie
    simp only [Bool.and_eq_true]
    cases hsafe : (unMarshalFlags header.version).safe word pos (data.drop pos) with
    | false =>
      obtain ⟨e, he, hne⟩ := cursor_of_not_safe (bounded_unMarshalFlags header.version)
        (by decide) (by omega) hpos hsafe
      simp [he, bind_error, hne]
    | true =>
      obtain ⟨hexact, hrefused⟩ := cursor_of_safe hpos hsafe
      rw [hexact]
      cases hread : (unMarshalFlags header.version).cursor word data pos with
      | error e => simp [bind_error, hrefused e hread, Except.map]
      | ok r =>
        obtain ⟨⟨isReconfiguration, members, relinquishPrimary⟩, p⟩ := r
        obtain ⟨-, hp⟩ := cursor_pos_le hpos hread
        simp only [bind_ok, Except.map, List.length_drop, true_and, Except.ok.injEq, forall_eq']
        rw [Nat.sub_sub_self hp]
        constructor
        · rintro ⟨⟨fuel, hfine⟩, hcons⟩
          by_contra htame
          rw [Bool.not_eq_true] at htame
          rcases requests_of_not_tame (by omega) hp htame with h | h
          · exact h fuel hfine
          · exact h hcons
        · intro htame
          obtain ⟨hfine, hcons⟩ := requests_of_tame (by omega) hp le_rfl htame
          exact ⟨⟨_, hfine⟩, hcons⟩

theorem fine_unMarshal_iff {fuel : Nat} {readPtr p : Nat}
    (h : copyOut outer readPtr = .ok ((header, data), p)) :
    Fine (unMarshal fuel outer readPtr) ↔
      Fine ((readFields header data 0).bind fun f => readRequests data f.1.2.1 fuel f.2) := by
  rw [unMarshal_eq, h, bind_ok]
  cases readFields header data 0 with
  | error e => simp only [bind_error, fine_error_iff]
  | ok f => exact fine_bind_ok _ _

theorem loopEntry_eq {readPtr p : Nat} (h : copyOut outer readPtr = .ok ((header, data), p)) :
    (∀ d r pos, loopEntry outer readPtr = some (d, r, pos) → Consumes d r pos) ↔
      ∀ f, readFields header data 0 = .ok f → Consumes data f.1.2.1 f.2 := by
  rw [loopEntry, h]
  cases hf : readFields header data 0 with
  | error e => simp [hf]
  | ok f =>
    obtain ⟨⟨cookie, isReconfiguration, members, relinquishPrimary⟩, pos⟩ := f
    simp only [hf]
    constructor
    · rintro h f ⟨rfl⟩
      exact h _ _ _ rfl
    · rintro h d r q ⟨rfl⟩
      exact h _ rfl

/-- A vote that cannot be copied out is as robust as the reason is. -/
theorem robust_of_error {readPtr : Nat} {e : Stop}
    (h : copyOut outer readPtr = .error e) : Robust outer readPtr ↔ e = .refused := by
  rw [Robust, loopEntry, h]
  simp [unMarshal_eq, h, bind_error]

/-- `Vote::UnMarshal` is robust exactly on tame votes. -/
theorem robust_iff {readPtr : Nat} (hword : outer.length < word)
    (hpos : readPtr ≤ outer.length) : Robust outer readPtr ↔ voteTame outer readPtr = true := by
  rw [voteTame, Bool.and_eq_true]
  cases hsafe : Header.unMarshal.safe word readPtr (outer.drop readPtr) with
  | false =>
    obtain ⟨e, he, hne⟩ := cursor_of_not_safe Header.short_unMarshal.bounded (by decide) hword
      hpos hsafe
    simp [robust_of_error (copyOut_error he), hne]
  | true =>
    obtain ⟨hexact, hrefused⟩ := cursor_of_safe hpos hsafe
    cases hread : Header.unMarshal.cursor word outer readPtr with
    | error e =>
      have hexact : Header.unMarshal.exact (outer.drop readPtr) =
          .error e := by rw [hexact, hread]; rfl
      simp [robust_of_error (copyOut_error hread), hrefused e hread, hexact]
    | ok r =>
      obtain ⟨header, p⟩ := r
      have hexact : Header.unMarshal.exact (outer.drop readPtr) = .ok (header, outer.drop p) := by
        rw [hexact, hread]
        rfl
      obtain ⟨-, -, hbase, hlen⟩ := Header.unMarshal_eq_ok hexact
      have hbaseSize := (Header.baseSize_le header.version).1
      have hcopy := copyOut_eq hread (by omega)
      simp only [hexact, true_and]
      by_cases hmsg : header.msgId = msgVote
      · rw [if_neg (not_not.mpr hmsg)] at hcopy
        rw [bne_eq_false_iff_eq.mpr hmsg, Bool.false_or, Bool.and_eq_true, Bool.and_eq_true]
        by_cases hround : header.unMarshalLen ≤ word - 4096
        · rw [if_neg (not_not.mpr hround)] at hcopy
          by_cases hwrap : readPtr + header.unMarshalLen < word
          · rw [Nat.mod_eq_of_lt hwrap] at hcopy
            by_cases hshort : outer.length < readPtr + header.unMarshalLen
            · rw [if_pos hshort] at hcopy
              simp [robust_of_error hcopy, hround, hwrap, hshort]
            · rw [if_neg hshort, if_neg hshort] at hcopy
              have hdata : ((outer.drop readPtr).take header.unMarshalLen).length
                  = header.unMarshalLen := by
                rw [List.length_take, List.length_drop]
                omega
              have hword' : 4096 ≤ word := by decide
              have hbody := @body_robust_iff header ((outer.drop readPtr).take header.unMarshalLen)
                (by omega) (by omega)
              simp only [Robust, fine_unMarshal_iff hcopy, loopEntry_eq hcopy, hbody, hround, hwrap,
                hshort, decide_true, decide_false, Bool.false_or, true_and]
          · have hmod : (readPtr + header.unMarshalLen) % word
                = readPtr + header.unMarshalLen - word := by
              rw [Nat.mod_eq_sub_mod (by omega), Nat.mod_eq_of_lt (by omega)]
            rw [hmod, if_neg (by omega), if_pos (by omega)] at hcopy
            simp [robust_of_error hcopy, hwrap]
        · rw [if_pos hround] at hcopy
          simp [robust_of_error hcopy, hround]
      · rw [if_pos hmsg] at hcopy
        simp [robust_of_error hcopy, hmsg]

end Vote

/-! ## Messages -/

variable {data : Bytes} {header : Header} {version : ProtocolVersion}

/-- A forward reader ends with a value or a refusal exactly on safe input. -/
theorem fine_cursor_iff {α : Type} {p : Reader α} {pos b : Nat} (hp : p.Bounded b)
    (hb : b < word) (hword : data.length < word) (hpos : pos ≤ data.length) :
    Fine (p.cursor word data pos) ↔ p.safe word pos (data.drop pos) = true := by
  cases hsafe : p.safe word pos (data.drop pos) with
  | true => simpa [Fine] using (cursor_of_safe hpos hsafe).2
  | false =>
    obtain ⟨e, he, hne⟩ := cursor_of_not_safe hp hb hword hpos hsafe
    simp [he, hne]

/-- The header is read where it stands, or refused. -/
theorem Header.unMarshal_cursor {pos : Nat} (hpos : pos ≤ data.length) (hword : pos + 172 < word) :
    unMarshal.exact (data.drop pos)
      = (unMarshal.cursor word data pos).map (fun r => (r.1, data.drop r.2)) ∧
      ∀ e, unMarshal.cursor word data pos = .error e → e = .refused :=
  cursor_of_safe hpos (safe_of_short short_unMarshal hword _)

theorem unMarshalMessage_of_header {p fuel : Nat}
    (h : unMarshal.cursor word data 0 = .ok (header, p)) :
    unMarshalMessage fuel data =
      match kindOf header.msgId with
      | none => .error .refused
      | some kind => (Message.unMarshal fuel data kind 0).bind fun r => .ok r.1 := by
  show (unMarshal.cursor word data 0).bind _ = _
  rw [h, bind_ok]
  show (match kindOf header.msgId with
    | none => throw Stop.refused
    | some kind => ((Message.unMarshal fuel data kind).run 0 >>= fun r => pure r.1)) = _
  cases kindOf header.msgId <;> rfl

/-- The ids of a class. -/
theorem kindOf_eq_some {msgId : Nat} {kind : MsgKind} (h : kindOf msgId = some kind) :
    match kind with
    | .base => msgId = msgVoteAccepted ∨ msgId = msgNotAccepted ∨ msgId = msgStatusQuery
        ∨ msgId = msgDefunctConfiguration ∨ msgId = msgJoinRequest
        ∨ msgId = msgReconfigurationDecision
    | .vote => msgId = msgVote
    | .join => msgId = msgJoin
    | .prepare => msgId = msgPrepare
    | .prepareAccepted => msgId = msgPrepareAccepted
    | .statusResponse => msgId = msgStatusResponse
    | .bootstrap => msgId = msgBootstrap := by
  rw [kindOf] at h
  split_ifs at h <;> cases h <;> assumption

theorem PrepareAccepted.unMarshal_of_header {p fuel : Nat}
    (h : Header.unMarshal.cursor word data 0 = .ok (header, p))
    (hmsg : header.msgId = msgPrepareAccepted) :
    PrepareAccepted.unMarshal fuel data 0
      = (Vote.unMarshal fuel data p).bind fun r => .ok (⟨header, r.1⟩, r.2) := by
  rw [PrepareAccepted.unMarshal, bind_apply, within_apply, h, bind_ok, bind_apply, stopUnless_apply,
    beq_iff_eq.mpr hmsg, if_pos rfl, bind_ok]
  rfl

/-- Wrapping up what a class has read changes nothing. -/
theorem fine_wrap_iff {α : Type} (x : Cursor α) (f : α → Message) (pos : Nat) :
    Fine (((x >>= fun a => pure (f a)) pos).bind fun r => .ok r.1) ↔ Fine (x pos) := by
  rw [bind_apply, fine_bind_ok]
  exact fine_bind_ok _ fun r : α × Nat => (f r.1, r.2)

/-- `UnMarshalMessage` is robust exactly on tame buffers. -/
theorem robust_iff (hword : data.length < word) :
    Robust data ↔ messageTame data = true := by
  obtain ⟨hexact, hrefused⟩ := Header.unMarshal_cursor (Nat.zero_le data.length) (by decide)
  rw [List.drop_zero] at hexact
  rw [Robust, voteStart, messageTame, hexact]
  cases hread : Header.unMarshal.cursor word data 0 with
  | error e =>
    have hmsg : ∀ fuel, unMarshalMessage fuel data = .error e := by
      intro fuel
      show (Header.unMarshal.cursor word data 0).bind _ = _
      rw [hread, bind_error]
    simp [hmsg, hrefused e hread, Except.map]
  | ok r =>
    obtain ⟨header, p⟩ := r
    obtain ⟨-, hp⟩ := cursor_pos_le (Nat.zero_le data.length) hread
    simp only [Except.map, List.length_drop, Nat.sub_sub_self hp, unMarshalMessage_of_header hread]
    cases hkind : kindOf header.msgId with
    | none => simp
    | some kind =>
      -- The two classes with a vote are as robust as the vote; the others have no loop over
      -- requests.
      cases kind with
      | base =>
        have hfine : Fine (Header.unMarshal.cursor word data 0) := hrefused
        simp only [Message.unMarshal, fine_wrap_iff, within_apply]
        simpa using hfine
      | vote =>
        have hvote := Vote.robust_iff hword (Nat.zero_le _)
        simp only [Message.unMarshal, fine_wrap_iff]
        simpa [Vote.Robust] using hvote
      | join =>
        have hfine := (fine_cursor_iff JoinMessage.short_unMarshal.bounded (by decide) hword
          (Nat.zero_le _)).mpr (safe_of_short JoinMessage.short_unMarshal (by decide) _)
        simp only [Message.unMarshal, fine_wrap_iff, within_apply]
        simpa using hfine
      | prepare =>
        have hfine := fine_cursor_iff PrepareMsg.bounded_unMarshal (by decide) hword (Nat.zero_le _)
        simp only [Message.unMarshal, fine_wrap_iff, within_apply]
        simpa using hfine
      | prepareAccepted =>
        have hvote := Vote.robust_iff hword hp
        have hmsg := kindOf_eq_some hkind
        simp only [Message.unMarshal, fine_wrap_iff, PrepareAccepted.unMarshal_of_header hread hmsg,
          fine_bind_ok _ fun r : Vote × Nat => (PrepareAccepted.mk header r.1, r.2)]
        simpa [Vote.Robust] using hvote
      | statusResponse =>
        have hfine := (fine_cursor_iff StatusResponse.short_unMarshal.bounded (by decide) hword
          (Nat.zero_le _)).mpr (safe_of_short StatusResponse.short_unMarshal (by decide) _)
        simp only [Message.unMarshal, fine_wrap_iff, within_apply]
        simpa using hfine
      | bootstrap =>
        have hfine :=
          fine_cursor_iff BootstrapMsg.bounded_unMarshal (by decide) hword (Nat.zero_le _)
        simp only [Message.unMarshal, fine_wrap_iff, within_apply]
        simpa using hfine

/-! ## Checkpoint headers -/

/-- What a vote that was read is made of. -/
theorem Vote.unMarshal_eq_ok {fuel readPtr p : Nat} {outer : Bytes} {vote : Vote}
    (h : Vote.unMarshal fuel outer readPtr = .ok (vote, p)) :
    ∃ f pos, Vote.copyOut outer readPtr = .ok ((vote.header, vote.marshal), p) ∧
      Vote.readFields vote.header vote.marshal 0 = .ok (f, pos) ∧
      f = (vote.primaryCookie, vote.isReconfiguration, vote.membersInNewConfiguration,
        vote.relinquishPrimary) ∧
      ∃ q, Vote.readRequests vote.marshal vote.isReconfiguration fuel pos =
        .ok (vote.requests, q) := by
  rw [Vote.unMarshal_eq] at h
  obtain ⟨⟨⟨header, data⟩, p'⟩, hcopy, h⟩ := bind_eq_ok.mp h
  obtain ⟨⟨f, pos⟩, hfields, h⟩ := bind_eq_ok.mp h
  obtain ⟨⟨requests, q⟩, hreqs, h⟩ := bind_eq_ok.mp h
  cases h
  exact ⟨f, pos, hcopy, hfields, rfl, q, hreqs⟩

/-- What a vote that was copied out was. -/
theorem Vote.copyOut_eq_ok {readPtr p : Nat} {outer data : Bytes}
    (h : Vote.copyOut outer readPtr = .ok ((header, data), p)) :
    (∃ q, Header.unMarshal.cursor word outer readPtr = .ok (header, q)) ∧
      header.msgId = msgVote ∧ header.unMarshalLen ≤ word - 4096 ∧
      readPtr + header.unMarshalLen ≤ outer.length ∧
      data = (outer.drop readPtr).take header.unMarshalLen ∧ p = readPtr + header.unMarshalLen := by
  cases hread : Header.unMarshal.cursor word outer readPtr with
  | error e =>
    rw [Vote.copyOut_error hread] at h
    cases h
  | ok r =>
    obtain ⟨header', q⟩ := r
    obtain ⟨-, -, hbase, hlen⟩ := Header.unMarshal_eq_ok (exact_of_cursor hread)
    have hbaseSize := (Header.baseSize_le header'.version).1
    rw [Vote.copyOut_eq hread (by omega)] at h
    split_ifs at h with hmsg hround hrefused hfault
    obtain ⟨hpair, rfl⟩ := Prod.mk.inj (Except.ok.inj h)
    cases hpair
    exact ⟨⟨q, rfl⟩, not_not.mp hmsg, hround, le_of_not_gt hfault, rfl, rfl⟩

theorem CheckpointHeader.readFields_eq (data : Bytes) :
    readFields data 0 =
      if data.length < 2 then .error .refused
      else if !isVersionValid (leNat (data.take 2)) then .error .refused
      else if leNat (data.take 2) ≥ 3 then
        ((CheckpointFields.unMarshal ⟨leNat (data.take 2)⟩).cursor word data 2).bind fun r =>
          .ok ((⟨leNat (data.take 2)⟩, r.1), r.2)
      else .ok ((⟨leNat (data.take 2)⟩, {}), 0) := by
  have hread : readUInt16.cursor word data 0 =
      if data.length < 2 then .error .refused else .ok (leNat (data.take 2), 2) := by
    show (take 2 fun x => ret (leNat x)).cursor word data 0 = _
    have hmod : (0 + 2) % word = 2 := by decide
    rw [cursor, hmod, List.drop_zero, zero_add]
    split <;> rfl
  rw [readFields, bind_apply, within_apply, hread]
  split
  · rfl
  · rw [bind_ok, bind_apply, stopUnless_apply]
    cases isVersionValid (leNat (data.take 2)) with
    | false => rfl
    | true =>
      simp only [if_true, Bool.not_true, Bool.false_eq_true, if_false, bind_ok]
      split <;> rfl

theorem CheckpointHeader.fine_unMarshal_iff {fuel start : Nat} {fields : CheckpointFields}
    (hword : data.length < word) (h : readFields data 0 = .ok ((version, fields), start)) :
    Fine (unMarshal fuel data 0) ↔ Fine (Vote.unMarshal fuel data start) := by
  have hget : (get : Cursor Nat) start = .ok (start, start) := rfl
  rw [unMarshal, bind_apply, h, bind_ok]
  simp only [bind_apply, hget, bind_ok]
  cases hvote : Vote.unMarshal fuel data start with
  | error e => simp only [bind_error, fine_error_iff]
  | ok r =>
    obtain ⟨vote, p⟩ := r
    obtain ⟨_, _, hcopy, -⟩ := Vote.unMarshal_eq_ok hvote
    obtain ⟨-, -, -, hle, -⟩ := Vote.copyOut_eq_ok hcopy
    have hassert : decide ((start + vote.header.unMarshalLen) % word ≤ data.length) = true := by
      rw [Nat.mod_eq_of_lt (by omega)]
      exact decide_eq_true hle
    simp only [bind_ok, stopUnless_apply, hassert, if_true, fine_ok, iff_true]
    cases verifyChecksumAt data start vote.header with
    | false => exact fine_refused
    | true =>
      simp only [if_true, bind_ok]
      split
      · rw [bind_apply, stopUnless_apply]
        cases BallotNumber.less fields.maxBallot vote.header.ballot with
        | false => exact fine_ok _
        | true => exact fine_refused
      · exact fine_ok _

theorem CheckpointHeader.robust_of_error {e : Stop} (h : readFields data 0 = .error e) :
    Robust data ↔ e = .refused := by
  have hstop : ∀ fuel, unMarshal fuel data 0 = .error e := by
    intro fuel
    rw [unMarshal, bind_apply, h, bind_error]
  simp [Robust, voteStart, hstop, h]

theorem CheckpointHeader.robust_of_ok {start : Nat}
    {fields : CheckpointFields} (hword : data.length < word) (hpos : start ≤ data.length)
    (h : readFields data 0 = .ok ((version, fields), start)) :
    Robust data ↔ voteTame data start = true := by
  rw [← Vote.robust_iff hword hpos, Robust, voteStart, h, Vote.Robust]
  simp only [fine_unMarshal_iff hword h, Option.some.injEq, forall_eq']

/-- `CheckpointHeader::UnMarshal` is robust exactly on tame headers. -/
theorem CheckpointHeader.robust_iff (hword : data.length < word) :
    Robust data ↔ checkpointTame data = true := by
  have hfields := readFields_eq data
  rw [checkpointTame]
  by_cases hshort : data.length < 2
  · rw [if_pos hshort] at hfields
    simp [robust_of_error hfields, hshort]
  rw [if_neg hshort] at hfields ⊢
  simp only
  generalize leNat (data.take 2) = raw at hfields ⊢
  cases hvalid : isVersionValid raw with
  | false =>
    rw [hvalid] at hfields
    simp [robust_of_error hfields]
  | true =>
    simp only [hvalid, Bool.not_true, Bool.false_eq_true, if_false] at hfields ⊢
    by_cases hraw : raw ≥ 3
    · rw [if_pos hraw] at hfields ⊢
      cases hsafe : (CheckpointFields.unMarshal ⟨raw⟩).safe word 2 (data.drop 2) with
      | false =>
        obtain ⟨e, he, hne⟩ := cursor_of_not_safe (CheckpointFields.bounded_unMarshal ⟨raw⟩)
          (by decide) hword (by omega) hsafe
        rw [he, bind_error] at hfields
        simp [robust_of_error hfields, hne]
      | true =>
        obtain ⟨hexact, hrefused⟩ := cursor_of_safe (by omega) hsafe
        cases hread : (CheckpointFields.unMarshal ⟨raw⟩).cursor word data 2 with
        | error e =>
          rw [hread] at hexact hfields
          simp [robust_of_error hfields, hrefused e hread, hexact, Except.map]
        | ok r =>
          rw [hread] at hexact hfields
          obtain ⟨-, hle⟩ := cursor_pos_le (by omega) hread
          simp [robust_of_ok hword hle hfields, hexact, Except.map, Nat.sub_sub_self hle]
    · rw [if_neg hraw] at hfields ⊢
      exact robust_of_ok hword (Nat.zero_le _) hfields

/-- A round of the loop over the members of a set consumes input. -/
theorem RslNode.consumes {pos pos' : Nat} {node : RslNode} (hpos : pos ≤ data.length)
    (h : (RslNode.unMarshal version).cursor word data pos = .ok (node, pos')) : pos < pos' := by
  rw [RslNode.unMarshal, cursor_bind] at h
  obtain ⟨⟨memberId, p⟩, hid, h⟩ := bind_eq_ok.mp h
  obtain ⟨hp, hple⟩ := cursor_pos_le hpos hid
  rw [cursor_bind] at h
  obtain ⟨⟨ip, q⟩, hip, h⟩ := bind_eq_ok.mp h
  obtain ⟨-, hqle⟩ := cursor_pos_le hple hip
  have hq : q = p + 4 := by
    have hread : (take 4 fun x => ret (leNat x)).cursor word data p = .ok (ip, q) := hip
    rw [cursor] at hread
    split at hread
    · cases hread
    · split at hread
      · cases hread
      · exact (Prod.mk.inj (Except.ok.inj hread)).2.symm
  obtain ⟨hle, -⟩ := cursor_pos_le hqle h
  omega

/-- On every buffer: `UnMarshalMessage` ends with a message or `NULL` and each round of its loop
over requests consumes input exactly if the buffer is tame, the same holds for
`CheckpointHeader::UnMarshal`, and each round of the loop over the members of a set consumes
input. -/
theorem unMarshalMessage_robust (data : Bytes) (hword : data.length < word) :
    (Robust data ↔ messageTame data = true) ∧
    (CheckpointHeader.Robust data ↔ checkpointTame data = true) ∧
    ∀ version pos node pos', pos ≤ data.length →
      (RslNode.unMarshal version).cursor word data pos = .ok (node, pos') → pos < pos' :=
  ⟨robust_iff hword, CheckpointHeader.robust_iff hword, fun _ _ _ _ => RslNode.consumes⟩

/-- A version 1 vote with the given length field and what follows its header. -/
def voteBytes (len : Nat) (body : Bytes) : Bytes :=
  leBytes 2 1 ++ leBytes 4 len ++ leBytes 8 0 ++ leBytes 4 magicNumber ++ leBytes 2 msgVote
    ++ leBytes 8 7 ++ leBytes 8 3 ++ (leBytes 4 5 ++ leBytes 8 7) ++ body

/-- A vote with one request of one byte is read. -/
theorem unMarshalMessage_robust_vote : Robust (voteBytes 53 (leBytes 4 1 ++ [9])) :=
  (unMarshalMessage_robust (voteBytes 53 (leBytes 4 1 ++ [9])) (by decide +kernel)).1.mpr
    (by decide +kernel)

/-- The header of such a vote. -/
def voteHeader (len : Nat) : Header :=
  ⟨⟨1⟩, len, 0, magicNumber, msgVote, ⟨[55]⟩, 3, 1, ⟨5, ⟨[55]⟩⟩, 0⟩

/-- A round that ends where it started is repeated for ever. -/
theorem Vote.readRequests_hangs {isReconfiguration : Bool} {pos : Nat} {span : Span}
    (h : Vote.nextRequest data isReconfiguration pos = .ok (some span, pos)) (fuel : Nat) :
    Vote.readRequests data isReconfiguration fuel pos = .error .hangs := by
  induction fuel with
  | zero => rfl
  | succ fuel ih => rw [Vote.readRequests_of_round h, ih, bind_error]

/-- A request of length `word - 4` takes the reader back to where it found it, for ever, and a vote
of length `word - 1` fails an assertion however few bytes there are. -/
theorem unMarshalMessage_not_robust :
    (∀ fuel, unMarshalMessage fuel (voteBytes 52 (leBytes 4 (word - 4))) = .error .hangs) ∧
      ∀ fuel, unMarshalMessage fuel (voteBytes (word - 1) []) = .error .assertion := by
  constructor
  · intro fuel
    generalize hdata : voteBytes 52 (leBytes 4 (word - 4)) = data
    have hheader : unMarshal.cursor word data 0 = .ok (voteHeader 52, 48) := by
      rw [← hdata]
      decide +kernel
    have hcopy : Vote.copyOut data 0 = .ok ((voteHeader 52, data), 52) := by
      rw [← hdata]
      decide +kernel
    have hfields : Vote.readFields (voteHeader 52) data 0
        = .ok ((⟨48, 0⟩, false, none, false), 48) := by
      rw [← hdata]
      decide +kernel
    have hround : Vote.nextRequest data false 48 = .ok (some ⟨52, word - 4⟩, 48) := by
      rw [← hdata]
      decide +kernel
    have hvote : Vote.unMarshal fuel data 0 = .error .hangs := by
      rw [Vote.unMarshal_eq, hcopy, bind_ok, hfields, bind_ok, Vote.readRequests_hangs hround,
        bind_error]
    rw [unMarshalMessage_of_header hheader]
    show ((Vote.unMarshal fuel data >>= fun m => pure (Message.vote m)) 0).bind _ = _
    rw [bind_apply, hvote]
    rfl
  · intro fuel
    generalize hdata : voteBytes (word - 1) [] = data
    have hheader : unMarshal.cursor word data 0 = .ok (voteHeader (word - 1), 48) := by
      rw [← hdata]
      decide +kernel
    have hcopy : Vote.copyOut data 0 = .error .assertion := by
      rw [← hdata]
      decide +kernel
    have hvote : Vote.unMarshal fuel data 0 = .error .assertion := by
      rw [Vote.unMarshal_eq, hcopy, bind_error]
    rw [unMarshalMessage_of_header hheader]
    show ((Vote.unMarshal fuel data >>= fun m => pure (Message.vote m)) 0).bind _ = _
    rw [bind_apply, hvote]
    rfl

end Rsl.Cpp
