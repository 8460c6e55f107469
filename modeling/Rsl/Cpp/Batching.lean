import Rsl.Cpp.Sizes

/-!
# Batching of requests

The calls that put votes into `m_votesToSend`, with the cookies of the requests, and the main loop
that takes them out. A request is appended to the last vote of the queue unless that vote is a
configuration change or exclusive, or would grow beyond `s_AvgMessageLen`. A vote that relinquishes
the primary is neither, so later requests join it, and the length of a request is cast to 32 bits.

`batching_keeps_iff` says that these are the only two ways in which a run goes wrong: the requests
of the votes in order are the accepted ones, no vote of a special kind holds a foreign request and
no batch is too long exactly if every accepted request is shorter than `2 ^ 32` bytes and none joins
a vote that relinquishes the primary. Without the cookies a run is one of the queue in
`Rsl.Cpp.Sizes` (`run_replicator`).
-/

set_option autoImplicit false

namespace Rsl.Cpp

open Wire Lib List

/-! ## The model -/

inductive ResponseCode where
  | success
  | notPrimary
  | shuttingDown
  | invalidParameter
  deriving DecidableEq, Repr

/-- A vote with the `m_cookie` of each of its requests, in order. -/
structure SendVote (κ : Type) where
  built : BuiltVote
  cookies : List κ
  isExclusiveVote : Bool
  deriving DecidableEq, Repr

/-- What the calls read and write of a replica. -/
structure Sender (κ : Type) where
  isPrimary : Bool
  isShutting : Bool
  votesToSend : List (SendVote κ)
  deriving DecidableEq, Repr

/-- The fields of a vote for a configuration change. -/
def newReconfiguration (header : Header) (primaryCookie : Bytes) (configuration : MemberSet) :
    Wire.Vote :=
  ⟨header, primaryCookie, true, some configuration, false, []⟩

/-- A call, a heartbeat or a pass of the main loop. The header has `m_version` and `m_memberId`, and
`m_primaryCookie` is the one at the time of the call. -/
inductive Call (κ : Type) where
  | replicateRequest (header : Header) (primaryCookie request : Bytes) (cookie : κ)
  | replicateRequestExclusiveVote (header : Header) (primaryCookie request : Bytes) (cookie : κ)
      (setShutdownAfter : Bool)
  /-- `verified` is what `configuration->Verify` says. -/
  | changeConfiguration (header : Header) (primaryCookie : Bytes) (configuration : MemberSet)
      (verified : Bool)
  | relinquishPrimary (header : Header) (primaryCookie : Bytes) (amPrimary : Bool)
  | heartbeat (header : Header) (primaryCookie : Bytes)
  | dequeue
  | setRole (isPrimary isShutting : Bool)
  deriving DecidableEq, Repr

namespace SendVote

variable {κ : Type}

/-- `m_requests`. -/
def requests (vote : SendVote κ) : List (Bytes × κ) := vote.built.fields.requests.zip vote.cookies

/-- `AddRequest((char *) request, (UInt32) len, cookie)`. -/
def addRequest (vote : SendVote κ) (request : Bytes) (cookie : κ) :
    Except WriteFailure (SendVote κ) := do
  let built ← vote.built.addRequest (truncated request)
  return { vote with built := built, cookies := vote.cookies ++ [cookie] }

/-- A request of this length may be added to the vote. -/
def takes (vote : SendVote κ) (request : Bytes) : Bool :=
  !vote.built.fields.isReconfiguration && !vote.isExclusiveVote && vote.built.joins request

end SendVote

namespace Sender

variable {κ : Type} (fill : Fill)

/-- Enqueue a vote that the constructor made. -/
def enqueue (s : Sender κ) (vote : Wire.Vote) : Except WriteFailure (Sender κ) := do
  let built ← Vote.init fill vote
  return { s with votesToSend := s.votesToSend ++ [⟨built, [], false⟩] }

/-- A vote of its own for a request. -/
def addVote (s : Sender κ) (header : Header) (primaryCookie request : Bytes) (cookie : κ)
    (isExclusiveVote : Bool) : Except WriteFailure (Sender κ) := do
  let built ← Vote.init fill (newVote header primaryCookie false)
  let vote ← SendVote.addRequest ⟨built, [], isExclusiveVote⟩ request cookie
  return { s with votesToSend := s.votesToSend ++ [vote] }

/-- The last vote, when the request is added to it. -/
def joined (s : Sender κ) (request : Bytes) : Option (SendVote κ) :=
  s.votesToSend.getLast?.filter fun vote => vote.takes request

/-- The response when the call is refused. -/
def refusal (s : Sender κ) : Option ResponseCode :=
  if !s.isPrimary then some .notPrimary
  else if s.isShutting then some .shuttingDown
  else none

/-- `ReplicateRequest`. -/
def replicateRequest (s : Sender κ) (header : Header) (primaryCookie request : Bytes) (cookie : κ) :
    Except WriteFailure (ResponseCode × Sender κ) :=
  if request.length = 0 then .error .panicked
  else
    match s.refusal with
    | some code => .ok (code, s)
    | none =>
      match s.joined request with
      | some vote => do
        let vote ← vote.addRequest request cookie
        return (.success, { s with votesToSend := s.votesToSend.dropLast ++ [vote] })
      | none => do return (.success, ← s.addVote fill header primaryCookie request cookie false)

/-- `ReplicateRequestExclusiveVote`. -/
def replicateRequestExclusiveVote (s : Sender κ) (header : Header) (primaryCookie request : Bytes)
    (cookie : κ) (setShutdownAfter : Bool) : Except WriteFailure (ResponseCode × Sender κ) :=
  if request.length = 0 then .error .panicked
  else
    match s.refusal with
    | some code => .ok (code, s)
    | none => do
      let s ← s.addVote fill header primaryCookie request cookie true
      return (.success, { s with isShutting := s.isShutting || setShutdownAfter })

/-- `ChangeConfiguration`. -/
def changeConfiguration (s : Sender κ) (header : Header) (primaryCookie : Bytes)
    (configuration : MemberSet) (verified : Bool) : Except WriteFailure (ResponseCode × Sender κ) :=
  if !verified then .ok (.invalidParameter, s)
  else
    match s.refusal with
    | some code => .ok (code, s)
    | none => do
      return (.success, ← s.enqueue fill (newReconfiguration header primaryCookie configuration))

/-- `RelinquishPrimary`, which has no response and does not look at `m_isShutting`. -/
def relinquishPrimary (s : Sender κ) (header : Header) (primaryCookie : Bytes) (amPrimary : Bool) :
    Except WriteFailure (Sender κ) :=
  if header.version.raw < 5 || !amPrimary then .ok s
  else s.enqueue fill (newVote header primaryCookie true)

end Sender

/-- A run: the replica, the votes that were dequeued, in order, and the requests that were
accepted. -/
structure Batching (κ : Type) where
  sender : Sender κ
  dequeued : List (SendVote κ)
  accepted : List (Bytes × κ)
  deriving DecidableEq, Repr

namespace Batching

variable {κ : Type} (fill : Fill)

/-- The request counts as accepted when the response is `RSLSuccess`. -/
def answered (b : Batching κ) (request : Bytes) (cookie : κ) (r : ResponseCode × Sender κ) :
    Batching κ :=
  { b with
    sender := r.2
    accepted := if r.1 = .success then b.accepted ++ [(request, cookie)] else b.accepted }

def step (b : Batching κ) : Call κ → Except WriteFailure (Batching κ)
  | .replicateRequest header primaryCookie request cookie => do
    return b.answered request cookie
      (← b.sender.replicateRequest fill header primaryCookie request cookie)
  | .replicateRequestExclusiveVote header primaryCookie request cookie setShutdownAfter => do
    return b.answered request cookie
      (← b.sender.replicateRequestExclusiveVote fill header primaryCookie request cookie
        setShutdownAfter)
  | .changeConfiguration header primaryCookie configuration verified => do
    let (_, sender) ← b.sender.changeConfiguration fill header primaryCookie configuration verified
    return { b with sender := sender }
  | .relinquishPrimary header primaryCookie amPrimary => do
    return { b with sender := ← b.sender.relinquishPrimary fill header primaryCookie amPrimary }
  | .heartbeat header primaryCookie => do
    return { b with sender := ← b.sender.enqueue fill (newVote header primaryCookie false) }
  | .dequeue =>
    .ok { b with
      sender := { b.sender with votesToSend := b.sender.votesToSend.tail }
      dequeued := b.dequeued ++ b.sender.votesToSend.head?.toList }
  | .setRole isPrimary isShutting =>
    .ok { b with sender := { b.sender with isPrimary := isPrimary, isShutting := isShutting } }

/-- Calls one after the other. -/
def run (b : Batching κ) (calls : List (Call κ)) : Except WriteFailure (Batching κ) :=
  calls.foldlM (step fill) b

/-- The votes in the order they are dequeued, and those that are still queued. -/
def votes (b : Batching κ) : List (SendVote κ) := b.dequeued ++ b.sender.votesToSend

end Batching

/-- A replica before the first call. -/
def Batching.initial (κ : Type) (isPrimary isShutting : Bool) : Batching κ :=
  ⟨⟨isPrimary, isShutting, []⟩, [], []⟩

/-! ## What is asked for -/

/-- A vote for a configuration change or to relinquish the primary, which is created for no
request. -/
def SendVote.isSpecial {κ : Type} (vote : SendVote κ) : Bool :=
  vote.built.fields.isReconfiguration || vote.built.fields.relinquishPrimary

/-- The requests of the votes in order are the accepted ones, an exclusive vote holds one request
and a special one none, and a batch is not longer than the limit. -/
structure Batching.Keeps {κ : Type} (b : Batching κ) : Prop where
  contents : b.votes.flatMap SendVote.requests = b.accepted
  exclusive : ∀ vote ∈ b.votes, vote.isExclusiveVote = true → vote.requests.length = 1
  special : ∀ vote ∈ b.votes, vote.isSpecial = true → vote.requests = []
  limit : ∀ vote ∈ b.votes, vote.isExclusiveVote = false → 1 < vote.requests.length →
    vote.built.getMarshalLen ≤ avgMessageLen

/-! ## The condition -/

/-- A request that is accepted is shorter than `2 ^ 32` bytes and does not join a vote that
relinquishes the primary. -/
def Batching.Allowed {κ : Type} (b : Batching κ) : Call κ → Prop
  | .replicateRequest _ _ request _ => b.sender.refusal = none → request.length < word ∧
      ∀ vote, b.sender.joined request = some vote → vote.built.fields.relinquishPrimary = false
  | .replicateRequestExclusiveVote _ _ request _ _ => b.sender.refusal = none →
    request.length < word
  | _ => True

/-- Every call is allowed in the state in which it is made. -/
def Batching.AllAllowed {κ : Type} (fill : Fill) : Batching κ → List (Call κ) → Prop
  | _, [] => True
  | b, call :: calls => b.Allowed call ∧ ∀ b', b.step fill call = .ok b' → b'.AllAllowed fill calls

/-! ## Votes -/

namespace SendVote

variable {κ : Type}

/-- The vote was built here, and it has a cookie for each request. -/
structure Sound (vote : SendVote κ) : Prop where
  cookies : vote.cookies.length = vote.built.fields.requests.length
  holds : ∃ body, vote.built.Holds body

theorem sound_init {fill : Fill} {fields : Wire.Vote} {built : BuiltVote}
    (h : Vote.init fill fields = .ok built) (isExclusiveVote : Bool) :
    (⟨built, [], isExclusiveVote⟩ : SendVote κ).Sound := by
  obtain ⟨hfields, -, body, -, hholds⟩ := Vote.init_eq_ok h
  exact ⟨by rw [hfields]; rfl, body, hholds⟩

/-- A request is added at the end, and nothing else about the vote changes but its length. -/
theorem Sound.addRequest {vote vote' : SendVote κ} (h : vote.Sound) {request : Bytes} {cookie : κ}
    (hadd : vote.addRequest request cookie = .ok vote') :
    vote'.Sound ∧ vote'.requests = vote.requests ++ [(truncated request, cookie)] ∧
      vote'.isExclusiveVote = vote.isExclusiveVote ∧ vote'.isSpecial = vote.isSpecial ∧
      vote'.built.fields.isReconfiguration = false ∧
      vote'.built.fields.relinquishPrimary = vote.built.fields.relinquishPrimary ∧
      vote'.built.getMarshalLen =
        (vote.built.getMarshalLen + (4 + (truncated request).length)) % word := by
  obtain ⟨hcookies, body, hholds⟩ := h
  obtain ⟨built, hbuilt, hadd⟩ := bind_eq_ok.mp hadd
  cases hadd
  obtain ⟨hplain, hfields, bytes, hbytes, hholds'⟩ := BuiltVote.addRequest_eq_ok hholds hbuilt
  have hlength : bytes.length = 4 + (truncated request).length := writes_request _ bytes hbytes
  refine ⟨⟨?_, body ++ bytes, hholds'⟩, ?_, rfl, ?_, ?_, ?_, ?_⟩
  · rw [hfields, length_append, length_append, hcookies]
    rfl
  · show built.fields.requests.zip (vote.cookies ++ [cookie]) = _
    rw [hfields, zip_append hcookies.symm]
    rfl
  · rw [isSpecial, isSpecial, hfields]
  · rw [hfields]
    exact hplain
  · rw [hfields]
  · rw [hholds'.getMarshalLen_eq, hholds.getMarshalLen_eq, hfields, length_append, hlength,
      Nat.mod_add_mod, add_assoc]

end SendVote

/-! ## Steps -/

namespace Batching

variable {κ : Type}

/-- What a step does to the votes of a run, and what allows it. -/
inductive Effect (b b' : Batching κ) (allowed : Prop) : Prop where
  | same (hvotes : b'.votes = b.votes) (haccepted : b'.accepted = b.accepted) (hallowed : allowed)
  | fresh (vote : SendVote κ) (hvotes : b'.votes = b.votes ++ [vote])
      (haccepted : b'.accepted = b.accepted) (hsound : vote.Sound) (hnone : vote.requests = [])
      (hshared : vote.isExclusiveVote = false) (hallowed : allowed)
  | alone (vote : SendVote κ) (request : Bytes) (cookie : κ) (hvotes : b'.votes = b.votes ++ [vote])
      (haccepted : b'.accepted = b.accepted ++ [(request, cookie)]) (hsound : vote.Sound)
      (hone : vote.requests = [(truncated request, cookie)]) (hplain : vote.isSpecial = false)
      (hallowed : allowed ↔ request.length < word)
  | joined (before : List (SendVote κ)) (vote vote' : SendVote κ) (request : Bytes) (cookie : κ)
      (hvotes : b.votes = before ++ [vote]) (hvotes' : b'.votes = before ++ [vote'])
      (haccepted : b'.accepted = b.accepted ++ [(request, cookie)])
      (htakes : vote.takes request = true) (hsound : vote.Sound)
      (hadd : vote.addRequest request cookie = .ok vote')
      (hallowed : allowed ↔ request.length < word ∧ vote.built.fields.relinquishPrimary = false)

/-- Every vote is sound. -/
def AllSound (b : Batching κ) : Prop := ∀ vote ∈ b.votes, vote.Sound

variable {fill : Fill} {b b' : Batching κ}

theorem effect_enqueue {fields : Wire.Vote} {sender : Sender κ} {allowed : Prop}
    (h : b.sender.enqueue fill fields = .ok sender) (hallowed : allowed) :
    Effect b { b with sender := sender } allowed := by
  obtain ⟨built, hbuilt, h⟩ := bind_eq_ok.mp h
  cases h
  refine .fresh ⟨built, [], false⟩ ?_ rfl (SendVote.sound_init hbuilt false)
    zip_nil_right rfl hallowed
  exact (append_assoc _ _ _).symm

theorem effect_addVote {header : Header} {primaryCookie request : Bytes} {cookie : κ}
    {isExclusiveVote : Bool} {sender : Sender κ} {allowed : Prop}
    (h : b.sender.addVote fill header primaryCookie request cookie isExclusiveVote = .ok sender)
    (hvotes : b'.votes = b.dequeued ++ sender.votesToSend)
    (haccepted : b'.accepted = b.accepted ++ [(request, cookie)])
    (hallowed : allowed ↔ request.length < word) : Effect b b' allowed := by
  obtain ⟨built, hbuilt, h⟩ := bind_eq_ok.mp h
  obtain ⟨vote, hvote, h⟩ := bind_eq_ok.mp h
  cases h
  obtain ⟨hsound, hrequests, -, hspecial, -⟩ :=
    (SendVote.sound_init hbuilt isExclusiveVote).addRequest hvote
  refine .alone vote request cookie ?_ haccepted hsound ?_ ?_ hallowed
  · rw [hvotes]
    exact (append_assoc _ _ _).symm
  · rw [hrequests]
    exact congrArg (· ++ _) zip_nil_right
  · rw [hspecial, SendVote.isSpecial, (Vote.init_eq_ok hbuilt).1]
    rfl

/-- A refused call leaves the run as it is. -/
theorem answered_refusal {code : ResponseCode} (h : b.sender.refusal = some code) (request : Bytes)
    (cookie : κ) : b.answered request cookie (code, b.sender) = b := by
  have hcode : code ≠ .success := by
    rw [Sender.refusal] at h
    split_ifs at h <;> cases h <;> decide
  rw [answered, if_neg hcode]

theorem effect_replicateRequest (hsound : b.AllSound) {header : Header}
    {primaryCookie request : Bytes} {cookie : κ} {r : ResponseCode × Sender κ}
    (h : b.sender.replicateRequest fill header primaryCookie request cookie = .ok r) :
    Effect b (b.answered request cookie r)
      (b.Allowed (.replicateRequest header primaryCookie request cookie)) := by
  rw [Sender.replicateRequest] at h
  split_ifs at h
  cases hrefusal : b.sender.refusal with
  | some code =>
    rw [hrefusal] at h
    cases h
    rw [answered_refusal hrefusal]
    refine .same rfl rfl fun hnone => ?_
    rw [hrefusal] at hnone
    cases hnone
  | none =>
    rw [hrefusal] at h
    cases hjoined : b.sender.joined request with
    | some vote =>
      rw [hjoined] at h
      obtain ⟨vote', hadd, h⟩ := bind_eq_ok.mp h
      cases h
      obtain ⟨hlast, htakes⟩ := Option.filter_eq_some_iff.mp hjoined
      have hvotes : b.votes = b.dequeued ++ b.sender.votesToSend.dropLast ++ [vote] := by
        rw [votes, append_assoc, dropLast_append_getLast? vote hlast]
      refine .joined _ vote vote' request cookie hvotes (append_assoc _ _ _).symm rfl
        htakes ?_ hadd ?_
      · exact hsound vote (by rw [hvotes]; exact mem_append_right _ (mem_singleton_self _))
      · constructor
        · exact fun hallowed => ⟨(hallowed hrefusal).1, (hallowed hrefusal).2 vote hjoined⟩
        · rintro ⟨hlt, hkeeps⟩ -
          refine ⟨hlt, fun other hother => ?_⟩
          rw [hjoined] at hother
          cases hother
          exact hkeeps
    | none =>
      rw [hjoined] at h
      obtain ⟨sender, hsender, h⟩ := bind_eq_ok.mp h
      cases h
      refine effect_addVote hsender rfl rfl ⟨fun hallowed => (hallowed hrefusal).1, ?_⟩
      refine fun hlt _ => ⟨hlt, fun vote hvote => ?_⟩
      rw [hjoined] at hvote
      cases hvote

theorem step_effect (hsound : b.AllSound) {call : Call κ} (h : b.step fill call = .ok b') :
    Effect b b' (b.Allowed call) := by
  cases call with
  | replicateRequest header primaryCookie request cookie =>
    obtain ⟨r, hr, h⟩ := bind_eq_ok.mp h
    cases h
    exact effect_replicateRequest hsound hr
  | replicateRequestExclusiveVote header primaryCookie request cookie setShutdownAfter =>
    obtain ⟨r, hr, h⟩ := bind_eq_ok.mp h
    cases h
    rw [Sender.replicateRequestExclusiveVote] at hr
    split_ifs at hr
    cases hrefusal : b.sender.refusal with
    | some code =>
      rw [hrefusal] at hr
      cases hr
      rw [answered_refusal hrefusal]
      refine .same rfl rfl fun hnone => ?_
      rw [hrefusal] at hnone
      cases hnone
    | none =>
      rw [hrefusal] at hr
      obtain ⟨sender, hsender, hr⟩ := bind_eq_ok.mp hr
      cases hr
      exact effect_addVote hsender rfl rfl ⟨fun hallowed => hallowed hrefusal, fun hlt _ => hlt⟩
  | changeConfiguration header primaryCookie configuration verified =>
    obtain ⟨r, hr, h⟩ := bind_eq_ok.mp h
    cases h
    rw [Sender.changeConfiguration] at hr
    split_ifs at hr
    · cases hr
      exact .same rfl rfl trivial
    · cases hrefusal : b.sender.refusal with
      | some code =>
        rw [hrefusal] at hr
        cases hr
        exact .same rfl rfl trivial
      | none =>
        rw [hrefusal] at hr
        obtain ⟨sender, hsender, hr⟩ := bind_eq_ok.mp hr
        cases hr
        exact effect_enqueue hsender trivial
  | relinquishPrimary header primaryCookie amPrimary =>
    obtain ⟨sender, hsender, h⟩ := bind_eq_ok.mp h
    cases h
    rw [Sender.relinquishPrimary] at hsender
    split_ifs at hsender
    · cases hsender
      exact .same rfl rfl trivial
    · exact effect_enqueue hsender trivial
  | heartbeat header primaryCookie =>
    obtain ⟨sender, hsender, h⟩ := bind_eq_ok.mp h
    cases h
    exact effect_enqueue hsender trivial
  | dequeue =>
    cases h
    refine .same ?_ rfl trivial
    rw [votes, votes, append_assoc]
    cases b.sender.votesToSend <;> rfl
  | setRole isPrimary isShutting =>
    cases h
    exact .same rfl rfl trivial

end Batching

/-! ## Runs -/

namespace Batching

variable {κ : Type} {fill : Fill} {b b' : Batching κ}

/-- No request is cut off. -/
def Short (accepted : List (Bytes × κ)) : Prop := ∀ a ∈ accepted, a.1.length < word

variable {request : Bytes}

theorem short_concat {accepted : List (Bytes × κ)} {cookie : κ} :
    Short (accepted ++ [(request, cookie)]) ↔ Short accepted ∧ request.length < word := by
  simp only [Short, mem_append, mem_singleton, or_imp, forall_and, forall_eq]

/-- What holds of a vote in every run; its length is known when no request was cut off. -/
structure VoteInv (short : Prop) (vote : SendVote κ) : Prop where
  sound : vote.Sound
  exclusive : vote.isExclusiveVote = true → vote.requests.length = 1
  reconfiguration : vote.built.fields.isReconfiguration = true → vote.requests = []
  limit : short → vote.isExclusiveVote = false → 1 < vote.requests.length →
    vote.built.getMarshalLen ≤ avgMessageLen

theorem VoteInv.mono {short short' : Prop} {vote : SendVote κ} (h : VoteInv short vote)
    (himp : short' → short) : VoteInv short' vote :=
  ⟨h.sound, h.exclusive, h.reconfiguration, fun hshort => h.limit (himp hshort)⟩

/-- What every run keeps, whatever is called. -/
structure Inv (b : Batching κ) : Prop where
  votes : ∀ vote ∈ b.votes, VoteInv (Short b.accepted) vote
  contents : b.votes.flatMap SendVote.requests = b.accepted.map fun a => (truncated a.1, a.2)

/-- No request was cut off, and no vote that relinquishes the primary holds one. -/
structure Clean (b : Batching κ) : Prop where
  short : Short b.accepted
  relinquish : ∀ vote ∈ b.votes, vote.built.fields.relinquishPrimary = true → vote.requests = []

theorem clean_iff : b.Clean ↔ Short b.accepted ∧
    ∀ vote ∈ b.votes, vote.built.fields.relinquishPrimary = true → vote.requests = [] :=
  ⟨fun h => ⟨h.short, h.relinquish⟩, fun h => ⟨h.1, h.2⟩⟩

theorem lt_of_truncated_eq (h : truncated request = request) :
    request.length < word := by
  have hlength := congrArg length h
  rw [truncated, length_take] at hlength
  have hmod : request.length % word < word := Nat.mod_lt _ (by decide)
  omega

theorem Inv.keeps_iff (h : b.Inv) : b.Keeps ↔ b.Clean := by
  constructor
  · intro hkeeps
    refine ⟨?_, ?_⟩
    · have hmap : b.accepted.map (fun a => (truncated a.1, a.2)) = b.accepted.map id := by
        rw [← h.contents, hkeeps.contents, map_id]
      intro a ha
      exact lt_of_truncated_eq (Prod.mk.inj (map_inj_left.mp hmap a ha)).1
    · intro vote hvote hrelinquish
      exact hkeeps.special vote hvote (by rw [SendVote.isSpecial, hrelinquish, Bool.or_true])
  · intro hclean
    refine ⟨?_, fun vote hvote => (h.votes vote hvote).exclusive, ?_,
      fun vote hvote => (h.votes vote hvote).limit hclean.short⟩
    · rw [h.contents]
      refine (map_congr_left fun a ha => ?_).trans (map_id _)
      rw [truncated_eq (hclean.short a ha)]
      rfl
    · intro vote hvote hspecial
      rcases Bool.or_eq_true _ _ |>.mp hspecial with hreconf | hrelinquish
      · exact (h.votes vote hvote).reconfiguration hreconf
      · exact hclean.relinquish vote hvote hrelinquish

/-- A property of all votes, when the last one is replaced or one is added. -/
theorem forall_votes_concat {P : SendVote κ → Prop} {votes : List (SendVote κ)}
    {vote : SendVote κ} :
    (∀ v ∈ votes ++ [vote], P v) ↔ (∀ v ∈ votes, P v) ∧ P vote := by
  simp only [mem_append, mem_singleton, or_imp, forall_and, forall_eq]

/-- A request that joins a vote does not take it beyond the limit. -/
theorem getMarshalLen_of_joins {vote vote' : BuiltVote} (h : vote.joins request = true)
    (hshort : request.length < word)
    (hlen : vote'.getMarshalLen = (vote.getMarshalLen + (4 + (truncated request).length)) % word) :
    vote'.getMarshalLen ≤ avgMessageLen := by
  have hword := word_eq
  have hlimit : avgMessageLen = 10485760 := rfl
  have hold := Built.getMarshalLen_lt (.vote vote)
  change vote.getMarshalLen < word at hold
  have hsum := of_decide_eq_true h
  rw [truncated_eq hshort, hword] at hlen
  rw [hword] at hold hshort
  omega

/-- What a step keeps, and when it keeps a run clean. -/
theorem Inv.effect (h : b.Inv) {allowed : Prop} (he : Effect b b' allowed) :
    b'.Inv ∧ (b'.Clean ↔ b.Clean ∧ allowed) := by
  obtain ⟨hinv, hcontents⟩ := h
  cases he with
  | same hvotes haccepted hallowed =>
    rw [← hvotes, ← haccepted] at hinv hcontents
    refine ⟨⟨hinv, hcontents⟩, ?_⟩
    rw [clean_iff, clean_iff, hvotes, haccepted]
    exact (and_iff_left hallowed).symm
  | fresh vote hvotes haccepted hsound hnone hshared hallowed =>
    have hvote : VoteInv (Short b.accepted) vote := by
      refine ⟨hsound, fun hexclusive => ?_, fun _ => hnone, fun _ _ hlen => ?_⟩
      · rw [hshared] at hexclusive
        cases hexclusive
      · rw [hnone] at hlen
        cases hlen
    refine ⟨⟨?_, ?_⟩, ?_⟩
    · rw [hvotes, haccepted]
      exact forall_votes_concat.mpr ⟨hinv, hvote⟩
    · rw [hvotes, haccepted, flatMap_append, hcontents, flatMap_singleton, hnone, append_nil]
    · rw [clean_iff, clean_iff, hvotes, haccepted, forall_votes_concat]
      constructor
      · rintro ⟨hshort, hrest, -⟩
        exact ⟨⟨hshort, hrest⟩, hallowed⟩
      · rintro ⟨⟨hshort, hrest⟩, -⟩
        exact ⟨hshort, hrest, fun _ => hnone⟩
  | alone vote request cookie hvotes haccepted hsound hone hplain hallowed =>
    have hkinds := Bool.or_eq_false_iff.mp hplain
    have hvote : VoteInv (Short b'.accepted) vote := by
      refine ⟨hsound, fun _ => by rw [hone]; rfl, fun hreconf => ?_, fun _ _ hlen => ?_⟩
      · rw [hkinds.1] at hreconf
        cases hreconf
      · rw [hone] at hlen
        exact absurd hlen (lt_irrefl 1)
    have hshort : Short b'.accepted ↔ Short b.accepted ∧ request.length < word := by
      rw [haccepted, short_concat]
    refine ⟨⟨?_, ?_⟩, ?_⟩
    · rw [hvotes]
      exact forall_votes_concat.mpr ⟨fun v hv => (hinv v hv).mono fun h => (hshort.mp h).1, hvote⟩
    · rw [hvotes, haccepted, flatMap_append, hcontents, flatMap_singleton, hone, map_append]
      rfl
    · rw [clean_iff, clean_iff, hvotes, hshort, forall_votes_concat, hallowed]
      constructor
      · rintro ⟨⟨hold, hlt⟩, hrest, -⟩
        exact ⟨⟨hold, hrest⟩, hlt⟩
      · rintro ⟨⟨hold, hrest⟩, hlt⟩
        refine ⟨⟨hold, hlt⟩, hrest, fun hrelinquish => ?_⟩
        rw [hkinds.2] at hrelinquish
        cases hrelinquish
  | joined before vote vote' request cookie hvotes hvotes' haccepted htakes hsound hadd hallowed =>
    obtain ⟨hsound', hrequests, hexclusive, -, hreconf, hrelinquish, hlen⟩ := hsound.addRequest hadd
    simp only [SendVote.takes, Bool.and_eq_true, Bool.not_eq_true'] at htakes
    obtain ⟨⟨-, hshared⟩, hjoins⟩ := htakes
    rw [hshared] at hexclusive
    have hshort : Short b'.accepted ↔ Short b.accepted ∧ request.length < word := by
      rw [haccepted, short_concat]
    rw [hvotes] at hinv hcontents
    obtain ⟨hbefore, hlast⟩ := forall_votes_concat.mp hinv
    have hvote : VoteInv (Short b'.accepted) vote' := by
      refine ⟨hsound', fun h => ?_, fun h => ?_, fun hall _ _ => ?_⟩
      · rw [hexclusive] at h
        cases h
      · rw [hreconf] at h
        cases h
      · exact getMarshalLen_of_joins hjoins (hshort.mp hall).2 hlen
    refine ⟨⟨?_, ?_⟩, ?_⟩
    · rw [hvotes']
      exact forall_votes_concat.mpr
        ⟨fun v hv => (hbefore v hv).mono fun h => (hshort.mp h).1, hvote⟩
    · rw [flatMap_append, flatMap_singleton] at hcontents
      rw [hvotes', haccepted, flatMap_append, flatMap_singleton, hrequests, ← append_assoc,
        hcontents, map_append]
      rfl
    · rw [clean_iff, clean_iff, hvotes, hvotes', hshort, forall_votes_concat,
        forall_votes_concat, hallowed,
        hrelinquish, hrequests]
      constructor
      · rintro ⟨⟨hold, hlt⟩, hrest, hnone⟩
        -- The vote holds the request, so it does not relinquish the primary.
        have hkeeps : vote.built.fields.relinquishPrimary = false := by
          by_contra hrelinquish
          exact append_ne_nil_of_right_ne_nil _ (cons_ne_nil _ _)
            (hnone (Bool.eq_true_of_not_eq_false hrelinquish))
        refine ⟨⟨hold, hrest, fun h => ?_⟩, hlt, hkeeps⟩
        rw [hkeeps] at h
        cases h
      · rintro ⟨⟨hold, hrest, -⟩, hlt, hkeeps⟩
        refine ⟨⟨hold, hlt⟩, hrest, fun h => ?_⟩
        rw [hkeeps] at h
        cases h

theorem Inv.allSound (h : b.Inv) : b.AllSound := fun vote hvote => (h.votes vote hvote).sound

/-- A run that starts with the invariant stays clean exactly if every call is allowed. -/
theorem Inv.run (h : b.Inv) {calls : List (Call κ)} (hrun : b.run fill calls = .ok b') :
    b'.Inv ∧ (b'.Clean ↔ b.Clean ∧ b.AllAllowed fill calls) := by
  induction calls generalizing b with
  | nil =>
    cases hrun
    exact ⟨h, (and_iff_left trivial).symm⟩
  | cons call calls ih =>
    rw [run, foldlM_cons] at hrun
    obtain ⟨next, hnext, hrun⟩ := bind_eq_ok.mp hrun
    obtain ⟨hinv, hclean⟩ := h.effect (step_effect h.allSound hnext)
    obtain ⟨hinv', hclean'⟩ := ih hinv hrun
    refine ⟨hinv', ?_⟩
    rw [hclean', hclean, and_assoc, AllAllowed]
    refine and_congr_right fun _ => and_congr_right fun _ => ?_
    constructor
    · intro hall other hother
      rw [hnext] at hother
      cases hother
      exact hall
    · exact fun hall => hall next hnext

theorem inv_initial (isPrimary isShutting : Bool) : (initial κ isPrimary isShutting).Inv :=
  ⟨fun _ hvote => absurd hvote not_mem_nil, rfl⟩

theorem clean_initial (isPrimary isShutting : Bool) : (initial κ isPrimary isShutting).Clean :=
  ⟨fun _ ha => absurd ha not_mem_nil, fun _ hvote => absurd hvote not_mem_nil⟩

end Batching

/-! ## The queue without the cookies -/

/-- The vote in the queue of a `Replicator`. -/
def SendVote.queued {κ : Type} (vote : SendVote κ) : Queued :=
  if vote.built.fields.isReconfiguration then .reconfiguration
  else .vote vote.built vote.isExclusiveVote

/-- What `Rsl.Cpp.Sizes` has of the replica. -/
def Sender.replicator {κ : Type} (s : Sender κ) : Replicator :=
  ⟨s.isPrimary, s.isShutting, s.votesToSend.map SendVote.queued⟩

/-- What a call is there, if it changes the queue. -/
def Call.event {κ : Type} (s : Sender κ) : Call κ → Option Event
  | .replicateRequest header primaryCookie request _ =>
    some (.replicateRequest header primaryCookie request)
  | .replicateRequestExclusiveVote header primaryCookie request _ setShutdownAfter =>
    some (.replicateRequestExclusiveVote header primaryCookie request setShutdownAfter)
  | .changeConfiguration _ _ _ verified =>
    if verified && s.refusal.isNone then some .changeConfiguration else none
  | .relinquishPrimary header primaryCookie amPrimary =>
    if header.version.raw < 5 || !amPrimary then none else some (.enqueue header primaryCookie true)
  | .heartbeat header primaryCookie => some (.enqueue header primaryCookie false)
  | .dequeue => some .dequeue
  | .setRole isPrimary isShutting => some (.setRole isPrimary isShutting)

namespace Sender

variable {κ : Type} {fill : Fill} {s s' : Sender κ} {request : Bytes} {cookie : κ}

theorem queued_addRequest {vote vote' : SendVote κ}
    (h : vote.addRequest request cookie = .ok vote') :
    ∃ built, vote.built.addRequest (truncated request) = .ok built ∧
      vote'.queued = .vote built vote.isExclusiveVote := by
  obtain ⟨built, hbuilt, h⟩ := bind_eq_ok.mp h
  cases h
  refine ⟨built, hbuilt, if_neg ?_⟩
  rw [BuiltVote.addRequest] at hbuilt
  split_ifs at hbuilt with hreconf
  obtain ⟨roomy, hroomy, hbuilt⟩ := bind_eq_ok.mp hbuilt
  obtain ⟨back, hback, hbuilt⟩ := bind_eq_ok.mp hbuilt
  cases hbuilt
  rw [BuiltVote.makeRoom] at hroomy
  split_ifs at hroomy
  · obtain ⟨newMemory, -, hroomy⟩ := bind_eq_ok.mp hroomy
    cases hroomy
    exact hreconf
  · cases hroomy
    exact hreconf

theorem replicator_addVote {header : Header} {primaryCookie : Bytes} {isExclusiveVote : Bool}
    (h : s.addVote fill header primaryCookie request cookie isExclusiveVote = .ok s') :
    s.replicator.addVote fill header primaryCookie request isExclusiveVote = .ok s'.replicator := by
  obtain ⟨built, hbuilt, h⟩ := bind_eq_ok.mp h
  obtain ⟨vote, hvote, h⟩ := bind_eq_ok.mp h
  cases h
  obtain ⟨built', hbuilt', hqueued⟩ := queued_addRequest hvote
  refine bind_eq_ok.mpr ⟨built, hbuilt, bind_eq_ok.mpr ⟨built', hbuilt', ?_⟩⟩
  show Except.ok _ = Except.ok _
  simp only [replicator, map_append, map_cons, map_nil, hqueued]

theorem joined_replicator (s : Sender κ) (request : Bytes) :
    s.replicator.joined request = (s.joined request).map SendVote.built := by
  rw [Replicator.joined, joined, replicator, getLast?_map]
  cases s.votesToSend.getLast? with
  | none => rfl
  | some vote =>
    obtain ⟨built, cookies, isExclusiveVote⟩ := vote
    cases hreconf : built.fields.isReconfiguration <;> cases isExclusiveVote <;>
      simp [SendVote.queued, SendVote.takes, hreconf, Option.filter]

/-- A call is refused by both. -/
theorem refusal_replicator (s : Sender κ) :
    (!s.replicator.isPrimary || s.replicator.isShutting) = s.refusal.isSome := by
  rw [refusal]
  cases hprimary : s.isPrimary <;> cases hshutting : s.isShutting <;>
    simp [replicator, hprimary, hshutting]

end Sender

namespace Batching

variable {κ : Type} {fill : Fill} {b b' : Batching κ} {s s' : Sender κ} {header : Header}
  {primaryCookie request : Bytes} {cookie : κ} {r : ResponseCode × Sender κ}

theorem replicateRequest_replicator
    (h : s.replicateRequest fill header primaryCookie request cookie = .ok r) :
    s.replicator.replicateRequest fill header primaryCookie request = .ok r.2.replicator := by
  rw [Sender.replicateRequest] at h
  rw [Replicator.replicateRequest, s.refusal_replicator, s.joined_replicator]
  split_ifs at h ⊢ with hlen hrefused
  · obtain ⟨code, hcode⟩ := Option.isSome_iff_exists.mp hrefused
    rw [hcode] at h
    cases h
    rfl
  · rw [Option.not_isSome_iff_eq_none.mp hrefused] at h
    cases hjoined : s.joined request with
    | none =>
      rw [hjoined] at h
      obtain ⟨s', hs', h⟩ := bind_eq_ok.mp h
      cases h
      exact Sender.replicator_addVote hs'
    | some vote =>
      rw [hjoined] at h
      obtain ⟨vote', hvote', h⟩ := bind_eq_ok.mp h
      cases h
      obtain ⟨built, hbuilt, hqueued⟩ := Sender.queued_addRequest hvote'
      obtain ⟨-, htakes⟩ := Option.filter_eq_some_iff.mp hjoined
      have hshared : vote.isExclusiveVote = false := by
        rw [SendVote.takes, Bool.and_eq_true, Bool.and_eq_true, Bool.not_eq_true'] at htakes
        simpa using htakes.1.2
      refine bind_eq_ok.mpr ⟨built, hbuilt, ?_⟩
      show Except.ok _ = Except.ok _
      simp only [Sender.replicator, map_append, map_dropLast, map_cons, map_nil, hqueued, hshared]

theorem replicateRequestExclusiveVote_replicator {setShutdownAfter : Bool}
    (h : s.replicateRequestExclusiveVote fill header primaryCookie request cookie setShutdownAfter
      = .ok r) :
    s.replicator.replicateRequestExclusiveVote fill header primaryCookie request setShutdownAfter
      = .ok r.2.replicator := by
  rw [Sender.replicateRequestExclusiveVote] at h
  rw [Replicator.replicateRequestExclusiveVote, s.refusal_replicator]
  split_ifs at h ⊢ with hlen hrefused
  · obtain ⟨code, hcode⟩ := Option.isSome_iff_exists.mp hrefused
    rw [hcode] at h
    cases h
    rfl
  · rw [Option.not_isSome_iff_eq_none.mp hrefused] at h
    obtain ⟨s', hs', h⟩ := bind_eq_ok.mp h
    cases h
    exact bind_eq_ok.mpr ⟨_, Sender.replicator_addVote hs', rfl⟩

theorem enqueue_replicator {fields : Wire.Vote}
    (h : s.enqueue fill fields = .ok s') :
    ∃ built, Vote.init fill fields = .ok built ∧ s'.replicator = { s.replicator with
      votesToSend := s.replicator.votesToSend ++
        [if fields.isReconfiguration then .reconfiguration else .vote built false] } := by
  obtain ⟨built, hbuilt, h⟩ := bind_eq_ok.mp h
  cases h
  refine ⟨built, hbuilt, ?_⟩
  simp only [Sender.replicator, map_append, map_cons, map_nil, SendVote.queued,
    (Vote.init_eq_ok hbuilt).1]

theorem changeConfiguration_replicator {configuration : MemberSet} {verified : Bool}
    (h : s.changeConfiguration fill header primaryCookie configuration verified = .ok r) :
    ((Call.changeConfiguration header primaryCookie configuration verified : Call κ).event s).elim
      (.ok s.replicator) (s.replicator.step fill) = .ok r.2.replicator := by
  rw [Sender.changeConfiguration] at h
  rw [Call.event]
  cases verified with
  | false =>
    cases h
    rfl
  | true =>
    cases hrefused : s.refusal with
    | some code =>
      rw [hrefused] at h
      cases h
      rfl
    | none =>
      rw [hrefused] at h
      obtain ⟨s', hs', h⟩ := bind_eq_ok.mp h
      cases h
      obtain ⟨built, -, heq⟩ := enqueue_replicator hs'
      exact congrArg Except.ok heq.symm

/-- A step of a run is a step of the queue in `Rsl.Cpp.Sizes`, or leaves it as it is. -/
theorem step_replicator {call : Call κ} (h : b.step fill call = .ok b') :
    (call.event b.sender).elim (.ok b.sender.replicator) (b.sender.replicator.step fill)
      = .ok b'.sender.replicator := by
  cases call with
  | replicateRequest header primaryCookie request cookie =>
    obtain ⟨r, hr, h⟩ := bind_eq_ok.mp h
    cases h
    exact replicateRequest_replicator hr
  | replicateRequestExclusiveVote header primaryCookie request cookie setShutdownAfter =>
    obtain ⟨r, hr, h⟩ := bind_eq_ok.mp h
    cases h
    exact replicateRequestExclusiveVote_replicator hr
  | changeConfiguration header primaryCookie configuration verified =>
    obtain ⟨r, hr, h⟩ := bind_eq_ok.mp h
    cases h
    exact changeConfiguration_replicator hr
  | relinquishPrimary header primaryCookie amPrimary =>
    obtain ⟨s', hs', h⟩ := bind_eq_ok.mp h
    cases h
    rw [Sender.relinquishPrimary] at hs'
    rw [Call.event]
    split_ifs at hs' ⊢
    · cases hs'
      rfl
    · obtain ⟨built, hbuilt, heq⟩ := enqueue_replicator hs'
      exact bind_eq_ok.mpr ⟨built, hbuilt, congrArg Except.ok heq.symm⟩
  | heartbeat header primaryCookie =>
    obtain ⟨s', hs', h⟩ := bind_eq_ok.mp h
    cases h
    obtain ⟨built, hbuilt, heq⟩ := enqueue_replicator hs'
    exact bind_eq_ok.mpr ⟨built, hbuilt, congrArg Except.ok heq.symm⟩
  | dequeue =>
    cases h
    exact congrArg Except.ok (by simp [Sender.replicator, map_tail])
  | setRole isPrimary isShutting =>
    cases h
    rfl

/-- A run is a run of the queue in `Rsl.Cpp.Sizes`. -/
theorem run_replicator {calls : List (Call κ)} (h : b.run fill calls = .ok b') :
    ∃ events : List Event, events.foldlM (Replicator.step fill) b.sender.replicator
      = .ok b'.sender.replicator := by
  induction calls generalizing b with
  | nil =>
    cases h
    exact ⟨[], rfl⟩
  | cons call calls ih =>
    obtain ⟨next, hnext, h⟩ := bind_eq_ok.mp h
    obtain ⟨events, hevents⟩ := ih h
    have hstep := step_replicator hnext
    cases hevent : call.event b.sender with
    | none =>
      rw [hevent] at hstep
      rw [← Except.ok.inj hstep] at hevents
      exact ⟨events, hevents⟩
    | some e =>
      rw [hevent] at hstep
      exact ⟨e :: events, bind_eq_ok.mpr ⟨_, hstep, hevents⟩⟩

end Batching

/-- **Batching.** In every run of calls and dequeues the requests of the votes in order are the
accepted ones with their cookies, exclusive and special votes hold no foreign request and batches
stay within the limit exactly if every accepted request is shorter than `2 ^ 32` bytes and none
joins a vote that relinquishes the primary. -/
theorem batching_keeps_iff {κ : Type} (fill : Fill) (isPrimary isShutting : Bool)
    (calls : List (Call κ))
    (b : Batching κ) (h : (Batching.initial κ isPrimary isShutting).run fill calls = .ok b) :
    b.Keeps ↔ (Batching.initial κ isPrimary isShutting).AllAllowed fill calls := by
  obtain ⟨hinv, hclean⟩ := (Batching.inv_initial isPrimary isShutting).run h
  rw [hinv.keeps_iff, hclean]
  exact and_iff_right (Batching.clean_initial isPrimary isShutting)

/-- Two requests in one vote, and an exclusive one. -/
def batchedCalls : List (Call Nat) :=
  [.replicateRequest requestHeader [] [7] 1, .replicateRequest requestHeader [] [8] 2,
    .replicateRequestExclusiveVote requestHeader [] [9] 3 false, .dequeue]

theorem batching_keeps_three :
    ∃ b, (Batching.initial Nat true false).run (fun _ _ => 0) batchedCalls = .ok b ∧
      b.accepted = [([7], 1), ([8], 2), ([9], 3)] ∧ b.Keeps := by
  obtain ⟨b, hrun, haccepted⟩ := Option.map_eq_some_iff.mp
    (by decide +kernel : (((Batching.initial Nat true false).run (fun _ _ => 0)
      batchedCalls).toOption.map fun b => b.accepted) = some [([7], 1), ([8], 2), ([9], 3)])
  have hrun := eq_ok_of_toOption hrun
  refine ⟨b, hrun, haccepted, (batching_keeps_iff _ true false batchedCalls b hrun).mpr ?_⟩
  refine ⟨fun _ => ⟨by decide, fun vote hvote => by cases hvote⟩, fun b₁ h₁ => ?_⟩
  refine ⟨fun _ => ⟨by decide, fun vote hvote => ?_⟩, fun b₂ h₂ =>
    ⟨fun _ => by decide, fun b₃ h₃ => ?_⟩⟩
  · -- The first vote does not relinquish the primary.
    obtain ⟨b', hb', hjoined⟩ := Option.map_eq_some_iff.mp
      (by decide +kernel : (((Batching.initial Nat true false).step (fun _ _ => 0)
        (.replicateRequest requestHeader [] [7] 1)).toOption.map fun b =>
          (b.sender.joined [8]).map fun vote => vote.built.fields.relinquishPrimary) =
            some (some false))
    rw [eq_ok_of_toOption hb'] at h₁
    cases h₁
    rw [hvote] at hjoined
    exact Option.some.inj hjoined
  · exact ⟨trivial, fun _ _ => trivial⟩

/-- A request that follows a vote that relinquishes the primary. -/
def relinquishCalls : List (Call Nat) :=
  [.relinquishPrimary requestHeader [] true, .replicateRequest requestHeader [] [7] 1]

/-- It joins that vote. -/
theorem not_batching_keeps :
    ∃ b vote, (Batching.initial Nat true false).run (fun _ _ => 0) relinquishCalls = .ok b ∧
      vote ∈ b.votes ∧ vote.built.fields.relinquishPrimary = true ∧
      vote.requests = [([7], 1)] ∧ ¬ b.Keeps := by
  obtain ⟨b, hrun, hvotes⟩ := Option.map_eq_some_iff.mp
    (by decide +kernel : (((Batching.initial Nat true false).run (fun _ _ => 0)
      relinquishCalls).toOption.map fun b => b.votes.map fun vote =>
        (vote.built.fields.relinquishPrimary, vote.requests)) = some [(true, [([7], 1)])])
  obtain ⟨vote, hmem, hvote⟩ : ∃ vote ∈ b.votes,
      (vote.built.fields.relinquishPrimary, vote.requests) = (true, [([7], 1)]) := by
    rw [← mem_map, hvotes]
    exact mem_singleton_self _
  obtain ⟨hrelinquish, hrequests⟩ := Prod.mk.inj hvote
  refine ⟨b, vote, eq_ok_of_toOption hrun, hmem, hrelinquish, hrequests, fun hkeeps => ?_⟩
  have hnone := hkeeps.special vote hmem (by rw [SendVote.isSpecial, hrelinquish, Bool.or_true])
  rw [hrequests] at hnone
  cases hnone

end Rsl.Cpp
