import Mathlib.Data.List.Basic
import Rsl.Tls.Rules

/-!
# The TLS settings of the C++ network library

The statics of `SSLAuth` in `SSLImpl.cpp`, which `SetSSLThumbprints` and `SetSSLSubjectNames` write
and which every connection reads: whether a peer's certificate is acceptable, whether the packet
port uses TLS (`IsSSLEnabled`) and whether the learn port does (`HasAnyThumbprint`, in
`StreamIO.cpp`).

A call does not write all of what it is about. A thumbprint that is not given is marked invalid, but
its bytes stay, and they are what a certificate is compared with. `settings_in_force` says for which
calls and certificates the settings are still those of the last calls.
-/

set_option autoImplicit false

namespace Rsl.Tls

/-! ## The statics -/

/-- `HexToDec`. -/
def hexToDec (ch : Char) : UInt8 :=
  if '0' ≤ ch ∧ ch ≤ '9' then UInt8.ofNat (ch.toNat - '0'.toNat)
  else if 'a' ≤ ch ∧ ch ≤ 'f' then UInt8.ofNat (ch.toNat - 'a'.toNat + 10)
  else if 'A' ≤ ch ∧ ch ≤ 'F' then UInt8.ofNat (ch.toNat - 'A'.toNat + 10)
  else 0

/-- The bytes of pairs of digits. -/
def hexBytes : Text → Thumbprint
  | high :: low :: rest => (hexToDec high * 16 + hexToDec low) :: hexBytes rest
  | _ => []

/-- `ConvertStringThumbprintToByteArray`. -/
def convertStringThumbprintToByteArray (thumbprint : Text) : Option Thumbprint :=
  if thumbprint.length / 2 ≠ 20 then none else some (hexBytes thumbprint)

/-- `ConvertStringThumbprintsToArrayOfByteArray`. -/
def convertStringThumbprintsToArrayOfByteArray (thumbprints : Text) : Option (List Thumbprint) :=
  (thumbprints.splitOn ';').mapM convertStringThumbprintToByteArray

/-- The statics of `SSLAuth`. -/
structure SslAuth where
  sslEnabled : Bool
  thumbPrintA : Thumbprint
  thumbPrintB : Thumbprint
  thumbPrintAValid : Bool
  thumbPrintBValid : Bool
  subjectA : Text
  thumbPrintsParentA : Text
  subjectAValid : Bool
  subjectB : Text
  thumbPrintsParentB : Text
  subjectBValid : Bool
  validateCAChain : Bool
  considerIdentitiesWhitelist : Bool
  deriving DecidableEq, Repr

/-- The statics before the first call. -/
def SslAuth.initial : SslAuth where
  sslEnabled := false
  thumbPrintA := List.replicate 20 0
  thumbPrintB := List.replicate 20 0
  thumbPrintAValid := false
  thumbPrintBValid := false
  subjectA := []
  thumbPrintsParentA := []
  subjectAValid := false
  subjectB := []
  thumbPrintsParentB := []
  subjectBValid := false
  validateCAChain := true
  considerIdentitiesWhitelist := true

/-! ## The calls -/

/-- The arguments of `SetSSLThumbprints`, and what it finds: whether SChannel can be initialised,
whether the store has the certificates, and whether a credential can be made of the one it takes. -/
structure ThumbprintArgs where
  thumbPrintA : Option Text
  thumbPrintB : Option Text
  validateCAChain : Bool
  sChannel : Bool
  storeHasA : Bool
  storeHasB : Bool
  credential : Bool
  deriving DecidableEq, Repr

/-- The arguments of `SetSSLSubjectNames`. -/
structure SubjectArgs where
  subjectA : Option Text
  thumbPrintsParentA : Option Text
  subjectB : Option Text
  thumbPrintsParentB : Option Text
  considerIdentitiesWhitelist : Bool
  deriving DecidableEq, Repr

inductive Call where
  | setSslThumbprints (args : ThumbprintArgs)
  | setSslSubjectNames (args : SubjectArgs)
  deriving DecidableEq, Repr

/-- `GetCredential`, for the thumbprints that are valid. -/
def getCredential (args : ThumbprintArgs) : Bool :=
  match args.thumbPrintA, args.thumbPrintB with
  | none, none => true
  -- A store is only searched when the first thumbprint is valid.
  | none, some _ => false
  | some _, none => args.storeHasA && args.credential
  | some _, some _ => (args.storeHasA || args.storeHasB) && args.credential

/-- The thumbprint of one argument: its bytes and whether it is valid; `none` when it cannot be
read. -/
def setThumbprint (old : Thumbprint) : Option Text → Option (Thumbprint × Bool)
  | none => some (old, false)
  | some text => (convertStringThumbprintToByteArray text).map fun bytes => (bytes, true)

/-- `SetSSLThumbprints`, when it succeeds. -/
def setSslThumbprints (args : ThumbprintArgs) (auth : SslAuth) : Option SslAuth :=
  if !args.sChannel then none
  else do
    let (thumbPrintA, validA) ← setThumbprint auth.thumbPrintA args.thumbPrintA
    let (thumbPrintB, validB) ← setThumbprint auth.thumbPrintB args.thumbPrintB
    if !getCredential args then none
    else
      some
        { auth with
          thumbPrintA := thumbPrintA
          thumbPrintAValid := validA
          thumbPrintB := thumbPrintB
          thumbPrintBValid := validB
          sslEnabled := args.thumbPrintA.isSome || args.thumbPrintB.isSome
          validateCAChain := args.validateCAChain }

/-- The subject and the parents of one pair of arguments, with whether they are valid. -/
def setSubject (oldSubject oldParents : Text) : Option Text → Option Text → Text × Text × Bool
  | some subject, some parents => (subject, parents, true)
  | _, _ => (oldSubject, oldParents, false)

/-- `SetSSLSubjectNames`. -/
def setSslSubjectNames (args : SubjectArgs) (auth : SslAuth) : SslAuth :=
  let (subjectA, parentsA, validA) :=
    setSubject auth.subjectA auth.thumbPrintsParentA args.subjectA args.thumbPrintsParentA
  let (subjectB, parentsB, validB) :=
    setSubject auth.subjectB auth.thumbPrintsParentB args.subjectB args.thumbPrintsParentB
  { auth with
    subjectA := subjectA
    thumbPrintsParentA := parentsA
    subjectAValid := validA
    subjectB := subjectB
    thumbPrintsParentB := parentsB
    subjectBValid := validB
    sslEnabled := auth.sslEnabled || validA || validB
    considerIdentitiesWhitelist := args.considerIdentitiesWhitelist }

/-- One call, when it succeeds. -/
def SslAuth.call (auth : SslAuth) : Call → Option SslAuth
  | .setSslThumbprints args => setSslThumbprints args auth
  | .setSslSubjectNames args => some (setSslSubjectNames args auth)

/-- The statics after calls that all succeed, the most recent one first. -/
def SslAuth.after : List Call → Option SslAuth
  | [] => some .initial
  | call :: earlier => (SslAuth.after earlier).bind (·.call call)

/-! ## A connection -/

/-- `HasAnyThumbprint`: the learn port uses TLS. -/
def SslAuth.hasAnyThumbprint (auth : SslAuth) : Bool :=
  auth.thumbPrintAValid || auth.thumbPrintBValid

/-- `IsSSLEnabled`: the packet port uses TLS. -/
def SslAuth.isSslEnabled (auth : SslAuth) : Bool := auth.sslEnabled

/-- What a connection learns of the peer's certificate: whether its chain is trusted, its SHA-1, and
its subject with the SHA-1 of its issuer. Each may not be retrievable. -/
structure PeerCertificate where
  trusted : Bool
  sha1 : Option Thumbprint
  subject : Option (Text × Option Thumbprint)
  deriving DecidableEq, Repr

/-- `IsCertificateThumbprintAcceptable`. -/
def SslAuth.isCertificateThumbprintAcceptable (auth : SslAuth) (sha1 : Option Thumbprint)
    (thumbprints : List Thumbprint) : Bool :=
  match sha1 with
  | none => false
  | some sha1 =>
    if thumbprints = [] then true
    else if !auth.considerIdentitiesWhitelist then false
    else thumbprints.contains sha1

/-- What one of the two rules for subjects says: `some` for an answer, `none` to go on. -/
def SslAuth.trySubject (auth : SslAuth) (valid : Bool) (ruleSubject ruleParents subject : Text)
    (issuer : Option Thumbprint) : Option Bool :=
  if valid && ruleSubject == subject then
    match convertStringThumbprintsToArrayOfByteArray ruleParents with
    | none => some false
    | some parents =>
      if auth.isCertificateThumbprintAcceptable issuer parents then some true else none
  else none

/-- `IsCertificateSubjectAcceptable`. -/
def SslAuth.isCertificateSubjectAcceptable (auth : SslAuth) (cert : PeerCertificate) : Bool :=
  match cert.subject with
  | none => false
  | some (subject, issuer) =>
    ((auth.trySubject auth.subjectAValid auth.subjectA auth.thumbPrintsParentA subject issuer).or
      (auth.trySubject auth.subjectBValid auth.subjectB auth.thumbPrintsParentB subject
        issuer)).getD false

/-- `ValidateCertificateAndGetContextAttributes`. -/
def SslAuth.validateCertificate (auth : SslAuth) (cert : PeerCertificate) : Bool :=
  if !cert.trusted && auth.validateCAChain then false
  else
    auth.isCertificateThumbprintAcceptable cert.sha1 [auth.thumbPrintA, auth.thumbPrintB] ||
      auth.isCertificateSubjectAcceptable cert

/-! ## What was configured -/

/-- The pair of two arguments, when both are given. -/
def pairOf : Option Text → Option Text → Option (Text × Text)
  | some subject, some parents => some (subject, parents)
  | _, _ => none

/-- The thumbprints of the most recent `SetSSLThumbprints`. -/
def lastThumbprints : List Call → List Thumbprint
  | [] => []
  | .setSslThumbprints args :: _ =>
    (args.thumbPrintA.bind convertStringThumbprintToByteArray).toList ++
      (args.thumbPrintB.bind convertStringThumbprintToByteArray).toList
  | .setSslSubjectNames _ :: earlier => lastThumbprints earlier

/-- The pairs of the most recent `SetSSLSubjectNames`. -/
def lastPairs : List Call → Option (Text × Text) × Option (Text × Text)
  | [] => (none, none)
  | .setSslThumbprints _ :: earlier => lastPairs earlier
  | .setSslSubjectNames args :: _ =>
    (pairOf args.subjectA args.thumbPrintsParentA, pairOf args.subjectB args.thumbPrintsParentB)

/-- The flag of the most recent `SetSSLSubjectNames`. -/
def lastWhitelist : List Call → Bool
  | [] => true
  | .setSslThumbprints _ :: earlier => lastWhitelist earlier
  | .setSslSubjectNames args :: _ => args.considerIdentitiesWhitelist

/-- The bytes that calls have left where the thumbprints are kept: the last ones given, however long
ago. -/
def leftBytes (argument : ThumbprintArgs → Option Text) : List Call → Thumbprint
  | [] => List.replicate 20 0
  | .setSslThumbprints args :: earlier =>
    ((argument args).bind convertStringThumbprintToByteArray).getD (leftBytes argument earlier)
  | .setSslSubjectNames _ :: earlier => leftBytes argument earlier

/-- A pair was given since the most recent `SetSSLThumbprints`. -/
def pairSince : List Call → Bool
  | [] => false
  | .setSslThumbprints _ :: _ => false
  | .setSslSubjectNames args :: earlier =>
    pairSince earlier || (pairOf args.subjectA args.thumbPrintsParentA).isSome ||
      (pairOf args.subjectB args.thumbPrintsParentB).isSome

/-- The statics as the calls explain them. -/
structure Reflects (calls : List Call) (auth : SslAuth) : Prop where
  thumbPrintA : auth.thumbPrintA = leftBytes (·.thumbPrintA) calls
  thumbPrintB : auth.thumbPrintB = leftBytes (·.thumbPrintB) calls
  valid : auth.hasAnyThumbprint = !(lastThumbprints calls).isEmpty
  pairA : (if auth.subjectAValid then some (auth.subjectA, auth.thumbPrintsParentA) else none)
    = (lastPairs calls).1
  pairB : (if auth.subjectBValid then some (auth.subjectB, auth.thumbPrintsParentB) else none)
    = (lastPairs calls).2
  enabled : auth.sslEnabled = (!(lastThumbprints calls).isEmpty || pairSince calls)
  whitelist : auth.considerIdentitiesWhitelist = lastWhitelist calls

theorem setThumbprint_eq {old bytes : Thumbprint} {argument : Option Text} {valid : Bool}
    (h : setThumbprint old argument = some (bytes, valid)) :
    bytes = (argument.bind convertStringThumbprintToByteArray).getD old ∧
      valid = (argument.bind convertStringThumbprintToByteArray).isSome ∧
        valid = argument.isSome := by
  cases argument with
  | none =>
    cases h
    exact ⟨rfl, rfl, rfl⟩
  | some text =>
    obtain ⟨given, hgiven, heq⟩ := Option.map_eq_some_iff.mp h
    cases heq
    rw [Option.bind_some, hgiven]
    exact ⟨rfl, rfl, rfl⟩

theorem setSubject_eq (oldSubject oldParents : Text) (subject parents : Option Text) :
    (if (setSubject oldSubject oldParents subject parents).2.2 then
        some ((setSubject oldSubject oldParents subject parents).1,
          (setSubject oldSubject oldParents subject parents).2.1)
      else none) = pairOf subject parents ∧
    (setSubject oldSubject oldParents subject parents).2.2 = (pairOf subject parents).isSome := by
  cases subject <;> cases parents <;> exact ⟨rfl, rfl⟩

variable {calls : List Call} {auth : SslAuth}

theorem Reflects.setSslThumbprints {auth next : SslAuth} {args : ThumbprintArgs}
    (h : Reflects calls auth) (hcall : setSslThumbprints args auth = some next) :
    Reflects (.setSslThumbprints args :: calls) next := by
  rw [Tls.setSslThumbprints] at hcall
  split at hcall
  · cases hcall
  · obtain ⟨⟨bytesA, validA⟩, hA, hcall⟩ := Option.bind_eq_some_iff.mp hcall
    obtain ⟨⟨bytesB, validB⟩, hB, hcall⟩ := Option.bind_eq_some_iff.mp hcall
    dsimp only at hcall
    split at hcall
    · cases hcall
    · cases hcall
      obtain ⟨hbytesA, hsomeA, hgivenA⟩ := setThumbprint_eq hA
      obtain ⟨hbytesB, hsomeB, hgivenB⟩ := setThumbprint_eq hB
      have hvalid : (validA || validB) =
          !(lastThumbprints (.setSslThumbprints args :: calls)).isEmpty := by
        rw [lastThumbprints, hsomeA, hsomeB]
        cases args.thumbPrintA.bind convertStringThumbprintToByteArray <;>
          cases args.thumbPrintB.bind convertStringThumbprintToByteArray <;> rfl
      constructor
      · rw [hbytesA, h.thumbPrintA, leftBytes]
      · rw [hbytesB, h.thumbPrintB, leftBytes]
      · exact hvalid
      · exact h.pairA
      · exact h.pairB
      · rw [← hvalid, pairSince, Bool.or_false, hgivenA, hgivenB]
      · exact h.whitelist

theorem Reflects.setSslSubjectNames (args : SubjectArgs) (h : Reflects calls auth) :
    Reflects (.setSslSubjectNames args :: calls) (setSslSubjectNames args auth) := by
  obtain ⟨hpairA, hvalidA⟩ :=
    setSubject_eq auth.subjectA auth.thumbPrintsParentA args.subjectA args.thumbPrintsParentA
  obtain ⟨hpairB, hvalidB⟩ :=
    setSubject_eq auth.subjectB auth.thumbPrintsParentB args.subjectB args.thumbPrintsParentB
  constructor
  · exact h.thumbPrintA
  · exact h.thumbPrintB
  · exact h.valid
  · exact hpairA
  · exact hpairB
  · rw [Tls.setSslSubjectNames, pairSince]
    simp only [hvalidA, hvalidB, h.enabled, lastThumbprints, Bool.or_assoc]
  · rfl

/-- After any calls the statics are as the calls explain them. -/
theorem reflects_after (h : SslAuth.after calls = some auth) :
    Reflects calls auth := by
  induction calls generalizing auth with
  | nil =>
    cases h
    constructor <;> rfl
  | cons call earlier ih =>
    obtain ⟨before, hbefore, hcall⟩ := Option.bind_eq_some_iff.mp h
    cases call with
    | setSslThumbprints args => exact (ih hbefore).setSslThumbprints hcall
    | setSslSubjectNames args =>
      cases hcall
      exact (ih hbefore).setSslSubjectNames args

/-! ## What is accepted -/

/-- The pair is for the subject, and the issuer is one of its parents. -/
def PairMatches (subject : Text) (issuer : Option Thumbprint) (pair : Text × Text) : Prop :=
  pair.1 = subject ∧ ∃ parents sha1, convertStringThumbprintsToArrayOfByteArray pair.2 =
    some parents ∧
    issuer = some sha1 ∧ sha1 ∈ parents

/-- The pair is for the subject, and its parents cannot be read. -/
def PairUnreadable (subject : Text) (pair : Text × Text) : Prop :=
  pair.1 = subject ∧ convertStringThumbprintsToArrayOfByteArray pair.2 = none

/-- A text has at least one thumbprint. -/
theorem parents_ne_nil {text : Text} {parents : List Thumbprint}
    (h : convertStringThumbprintsToArrayOfByteArray text = some parents) : parents ≠ [] := by
  rintro rfl
  rw [convertStringThumbprintsToArrayOfByteArray] at h
  cases hsplit : text.splitOn ';' with
  | nil => exact List.splitOn_ne_nil _ _ hsplit
  | cons first rest =>
    rw [hsplit, List.mapM_cons] at h
    obtain ⟨bytes, -, h⟩ := Option.bind_eq_some_iff.mp h
    obtain ⟨others, -, h⟩ := Option.bind_eq_some_iff.mp h
    cases h

theorem isCertificateThumbprintAcceptable_iff {sha1 : Option Thumbprint}
    {thumbprints : List Thumbprint} (hne : thumbprints ≠ []) :
    auth.isCertificateThumbprintAcceptable sha1 thumbprints = true ↔
      auth.considerIdentitiesWhitelist = true ∧ ∃ bytes,
        sha1 = some bytes ∧ bytes ∈ thumbprints := by
  cases sha1 with
  | none => simp [SslAuth.isCertificateThumbprintAcceptable]
  | some bytes =>
    rw [SslAuth.isCertificateThumbprintAcceptable, if_neg hne]
    cases auth.considerIdentitiesWhitelist <;> simp

section

variable {valid : Bool} {ruleSubject ruleParents subject : Text} {issuer : Option Thumbprint}

/-- A rule accepts when its pair matches. -/
theorem trySubject_accepts_iff :
    auth.trySubject valid ruleSubject ruleParents subject issuer = some true ↔
      auth.considerIdentitiesWhitelist = true ∧
        ∃ pair ∈ (if valid then some (ruleSubject, ruleParents) else none),
          PairMatches subject issuer pair := by
  cases valid with
  | false => simp [SslAuth.trySubject]
  | true =>
    by_cases hsubject : ruleSubject = subject
    · subst hsubject
      cases hparents : convertStringThumbprintsToArrayOfByteArray ruleParents with
      | none => simp [SslAuth.trySubject, PairMatches, hparents]
      | some parents =>
        have haccepts :=
          @isCertificateThumbprintAcceptable_iff auth issuer parents (parents_ne_nil hparents)
        have : auth.trySubject true ruleSubject ruleParents ruleSubject issuer = some true ↔
            auth.isCertificateThumbprintAcceptable issuer parents = true := by
          simp [SslAuth.trySubject, hparents]
        rw [this, haccepts]
        simp [PairMatches, hparents]
    · simp [SslAuth.trySubject, PairMatches, hsubject]

/-- A rule rejects, without a look at the next one, when its parents cannot be read. -/
theorem trySubject_rejects_iff :
    auth.trySubject valid ruleSubject ruleParents subject issuer = some false ↔
      ∃ pair ∈ (if valid then some (ruleSubject, ruleParents) else none),
        PairUnreadable subject pair := by
  cases valid with
  | false => simp [SslAuth.trySubject]
  | true =>
    by_cases hsubject : ruleSubject = subject
    · subst hsubject
      cases hparents : convertStringThumbprintsToArrayOfByteArray ruleParents with
      | none | some parents => simp [SslAuth.trySubject, PairUnreadable, hparents]
    · simp [SslAuth.trySubject, PairUnreadable, hsubject]

end

theorem or_getD_iff {first second : Option Bool} :
    (first.or second).getD false = true ↔
      first = some true ∨ (first ≠ some false ∧ second = some true) := by
  rcases first with _ | _ | _ <;> simp [Option.getD_eq_iff]

/-- The certificate's subject and issuer are those of a configured pair. -/
def NamesPair (calls : List Call) (cert : PeerCertificate) : Prop :=
  ∃ subject issuer, cert.subject = some (subject, issuer) ∧
    ((∃ pair ∈ (lastPairs calls).1, PairMatches subject issuer pair) ∨
      ∃ pair ∈ (lastPairs calls).2, PairMatches subject issuer pair)

/-- The first pair is for the certificate's subject, and its parents cannot be read. -/
def Shadowed (calls : List Call) (cert : PeerCertificate) : Prop :=
  ∃ subject issuer, cert.subject = some (subject, issuer) ∧
    ∃ pair ∈ (lastPairs calls).1, PairUnreadable subject pair

variable {cert : PeerCertificate}

theorem isCertificateSubjectAcceptable_iff
    (h : Reflects calls auth) :
    auth.isCertificateSubjectAcceptable cert = true ↔
      lastWhitelist calls = true ∧ NamesPair calls cert ∧ ¬ Shadowed calls cert := by
  rw [SslAuth.isCertificateSubjectAcceptable, NamesPair, Shadowed]
  cases hsubject : cert.subject with
  | none => simp
  | some names =>
    obtain ⟨subject, issuer⟩ := names
    simp only [or_getD_iff, ne_eq, trySubject_accepts_iff, trySubject_rejects_iff, h.pairA, h.pairB,
      h.whitelist, Option.some.injEq, Prod.mk.injEq]
    constructor
    · rintro (⟨hflag, hA⟩ | ⟨hread, hflag, hB⟩)
      · refine ⟨hflag, ⟨subject, issuer, ⟨rfl, rfl⟩, .inl hA⟩, ?_⟩
        -- The same pair cannot be both read and unreadable.
        rintro ⟨_, _, ⟨rfl, rfl⟩, pair, hpair, -, hnone⟩
        obtain ⟨pair', hpair', -, parents, sha1, hparents, -⟩ := hA
        rw [Option.mem_unique hpair' hpair, hnone] at hparents
        cases hparents
      · refine ⟨hflag, ⟨subject, issuer, ⟨rfl, rfl⟩, .inr hB⟩, ?_⟩
        rintro ⟨_, _, ⟨rfl, rfl⟩, hunreadable⟩
        exact hread hunreadable
    · rintro ⟨hflag, ⟨_, _, ⟨rfl, rfl⟩, hA | hB⟩, hnot⟩
      · exact .inl ⟨hflag, hA⟩
      · refine .inr ⟨?_, hflag, hB⟩
        intro hunreadable
        exact hnot ⟨subject, issuer, ⟨rfl, rfl⟩, hunreadable⟩

/-- A certificate with a good chain is accepted, with the flag on, for a SHA-1 that calls have left
or for its subject. -/
theorem validateCertificate_iff
    (h : Reflects calls auth) (htrusted : cert.trusted = true) :
    auth.validateCertificate cert = true ↔ lastWhitelist calls = true ∧
      ((∃ sha1 ∈ cert.sha1,
        sha1 ∈ [leftBytes (·.thumbPrintA) calls, leftBytes (·.thumbPrintB) calls]) ∨
        (NamesPair calls cert ∧ ¬ Shadowed calls cert)) := by
  have hthumb := @isCertificateThumbprintAcceptable_iff auth cert.sha1
    [auth.thumbPrintA, auth.thumbPrintB] (List.cons_ne_nil _ _)
  rw [h.thumbPrintA, h.thumbPrintB, h.whitelist] at hthumb
  rw [SslAuth.validateCertificate, htrusted, Bool.not_true, Bool.false_and]
  simp only [Bool.false_eq_true, if_false, Bool.or_eq_true, hthumb,
    isCertificateSubjectAcceptable_iff h,
    h.thumbPrintA, h.thumbPrintB, ← and_or_left, Option.mem_def]

/-! ## Settings in force -/

/-- The certificate is one that the last calls name. -/
def Named (calls : List Call) (cert : PeerCertificate) : Prop :=
  (∃ sha1 ∈ cert.sha1, sha1 ∈ lastThumbprints calls) ∨
    (lastWhitelist calls = true ∧ NamesPair calls cert)

/-- A thumbprint or a pair is configured. -/
def Configured (calls : List Call) : Prop :=
  lastThumbprints calls ≠ [] ∨ (lastPairs calls).1.isSome = true ∨ (lastPairs calls).2.isSome = true

/-- The last calls say which certificates are accepted and whether the two ports use TLS. -/
structure InForce (calls : List Call) (auth : SslAuth) (cert : PeerCertificate) : Prop where
  accepts : cert.trusted = true → (auth.validateCertificate cert = true ↔ Named calls cert)
  packetPort : auth.isSslEnabled = true ↔ Configured calls
  learnPort : auth.hasAnyThumbprint = true ↔ Configured calls

/-- What makes the last calls count. -/
structure Settled (calls : List Call) (cert : PeerCertificate) : Prop where
  /-- A SHA-1 that earlier calls left is named by the last ones. -/
  fresh : cert.trusted = true → lastWhitelist calls = true →
    ∀ sha1 ∈ cert.sha1, sha1 ∈ [leftBytes (·.thumbPrintA) calls, leftBytes (·.thumbPrintB) calls] →
      Named calls cert
  /-- No thumbprint counts on a flag that is off. -/
  flagged : cert.trusted = true → lastWhitelist calls = false →
    ∀ sha1 ∈ cert.sha1, sha1 ∉ lastThumbprints calls
  /-- No pair with unreadable parents stands before the one that matches. -/
  readable : cert.trusted = true → lastWhitelist calls = true → NamesPair calls cert →
    Shadowed calls cert →
    ∃ sha1 ∈ cert.sha1, sha1 ∈ [leftBytes (·.thumbPrintA) calls, leftBytes (·.thumbPrintB) calls]
  /-- Without a thumbprint there is no pair, and there was none since thumbprints were last set. -/
  thumbprints : lastThumbprints calls = [] →
    (lastPairs calls).1 = none ∧ (lastPairs calls).2 = none ∧ pairSince calls = false

theorem lastThumbprints_subset {sha1 : Thumbprint} (h : sha1 ∈ lastThumbprints calls) :
    sha1 ∈ [leftBytes (·.thumbPrintA) calls, leftBytes (·.thumbPrintB) calls] := by
  induction calls with
  | nil => exact absurd h List.not_mem_nil
  | cons call earlier ih =>
    cases call with
    | setSslThumbprints args =>
      simp only [lastThumbprints, List.mem_append, Option.mem_toList] at h
      simp only [leftBytes, List.mem_cons, List.not_mem_nil, or_false]
      rcases h with h | h
      · exact .inl (by rw [h]; rfl)
      · exact .inr (by rw [h]; rfl)
    | setSslSubjectNames args => exact ih h

/-- A certificate is accepted as the last calls say exactly if none of the three things spoils
it. -/
theorem accepts_iff
    (h : Reflects calls auth) (htrusted : cert.trusted = true) :
    (auth.validateCertificate cert = true ↔ Named calls cert) ↔
      (lastWhitelist calls = true → ∀ sha1 ∈ cert.sha1,
          sha1 ∈ [leftBytes (·.thumbPrintA) calls, leftBytes (·.thumbPrintB) calls] →
            Named calls cert) ∧
        (lastWhitelist calls = false → ∀ sha1 ∈ cert.sha1, sha1 ∉ lastThumbprints calls) ∧
        (lastWhitelist calls = true → NamesPair calls cert → Shadowed calls cert →
          ∃ sha1 ∈ cert.sha1,
            sha1 ∈ [leftBytes (·.thumbPrintA) calls, leftBytes (·.thumbPrintB) calls]) := by
  rw [validateCertificate_iff h htrusted]
  cases hflag : lastWhitelist calls with
  | false =>
    simp only [Named, hflag, Bool.false_eq_true, false_and, false_iff, or_false, false_implies,
      and_true, true_and, forall_const, not_exists, not_and]
  | true =>
    simp only [true_and, forall_const, Bool.true_eq_false, false_implies]
    constructor
    · intro hiff
      refine ⟨?_, ?_⟩
      · intro sha1 hsha1 hleft
        exact hiff.mp (.inl ⟨sha1, hsha1, hleft⟩)
      · intro hpair hshadowed
        rcases hiff.mpr (.inr ⟨hflag, hpair⟩) with hleft | ⟨-, hread⟩
        · exact hleft
        · exact absurd hshadowed hread
    · rintro ⟨hfresh, hreadable⟩
      constructor
      · rintro (⟨sha1, hsha1, hleft⟩ | ⟨hpair, -⟩)
        · exact hfresh sha1 hsha1 hleft
        · exact .inr ⟨hflag, hpair⟩
      · rintro (⟨sha1, hsha1, hgiven⟩ | ⟨-, hpair⟩)
        · exact .inl ⟨sha1, hsha1, lastThumbprints_subset hgiven⟩
        · by_cases hshadowed : Shadowed calls cert
          · exact .inl (hreadable hpair hshadowed)
          · exact .inr ⟨hpair, hshadowed⟩

/-- The two ports use TLS as configured exactly if a thumbprint is, or no pair is and none was since
thumbprints were last set. -/
theorem ports_iff (h : Reflects calls auth) :
    ((auth.isSslEnabled = true ↔ Configured calls) ∧
      (auth.hasAnyThumbprint = true ↔ Configured calls)) ↔
      (lastThumbprints calls = [] →
        (lastPairs calls).1 = none ∧ (lastPairs calls).2 = none ∧ pairSince calls = false) := by
  rw [SslAuth.isSslEnabled, h.enabled, h.valid, Configured]
  cases hlast : lastThumbprints calls with
  | nil => cases (lastPairs calls).1 <;> cases (lastPairs calls).2 <;>
      cases pairSince calls <;> simp
  | cons first rest => simp

/-- The settings are those of the last calls exactly if the earlier ones have left nothing that
matters, the flag is on, the parents can be read, and a thumbprint is configured if anything is. -/
theorem settings_in_force (calls : List Call) (auth : SslAuth) (cert : PeerCertificate)
    (h : SslAuth.after calls = some auth) : InForce calls auth cert ↔ Settled calls cert := by
  have hreflects := reflects_after h
  have hports := ports_iff hreflects
  constructor
  · rintro ⟨haccepts, hpacket, hlearn⟩
    have hthumbprints := hports.mp ⟨hpacket, hlearn⟩
    constructor
    · intro htrusted
      exact ((accepts_iff hreflects htrusted).mp (haccepts htrusted)).1
    · intro htrusted
      exact ((accepts_iff hreflects htrusted).mp (haccepts htrusted)).2.1
    · intro htrusted
      exact ((accepts_iff hreflects htrusted).mp (haccepts htrusted)).2.2
    · exact hthumbprints
  · rintro ⟨hfresh, hflagged, hreadable, hthumbprints⟩
    obtain ⟨hpacket, hlearn⟩ := hports.mpr hthumbprints
    refine ⟨?_, hpacket, hlearn⟩
    intro htrusted
    exact (accepts_iff hreflects htrusted).mpr
      ⟨hfresh htrusted, hflagged htrusted, hreadable htrusted⟩

/-- A call of `SetSSLThumbprints` that finds what it needs. -/
def thumbprintCall (thumbPrintA thumbPrintB : Option Text) : Call :=
  .setSslThumbprints ⟨thumbPrintA, thumbPrintB, true, true, true, true, true⟩

/-- Two thumbprints are set, and then only one. -/
def rotated : List Call :=
  [thumbprintCall (some (List.replicate 40 'c')) none,
    thumbprintCall (some (List.replicate 40 'a')) (some (List.replicate 40 'b'))]

/-- Two thumbprints are set, and then two others. -/
def replaced : List Call :=
  [thumbprintCall (some (List.replicate 40 'c')) (some (List.replicate 40 'd')),
    thumbprintCall (some (List.replicate 40 'a')) (some (List.replicate 40 'b'))]

/-- The second of the new thumbprints is accepted, with the settings of both calls. -/
theorem settings_in_force_replaced :
    ∃ auth, SslAuth.after replaced = some auth ∧
      InForce replaced auth ⟨true, some (List.replicate 20 0xdd), none⟩ := by
  obtain ⟨auth, hauth⟩ : ∃ auth, SslAuth.after replaced = some auth :=
    Option.isSome_iff_exists.mp (by decide +kernel)
  refine ⟨auth, hauth, (settings_in_force _ auth _ hauth).mpr ⟨?_, ?_, ?_, ?_⟩⟩
  · intro _ _ _ _ _
    exact .inl ⟨List.replicate 20 0xdd, rfl, by decide +kernel⟩
  · intro _ hflag
    exact absurd hflag (by decide)
  · rintro _ _ ⟨_, _, hsubject, _⟩
    cases hsubject
  · intro hnil
    exact absurd hnil (by decide +kernel)

/-- After the rotation the certificate of the thumbprint that is no longer given is still
accepted. -/
theorem not_settings_in_force_rotated :
    ∃ auth, SslAuth.after rotated = some auth ∧
      ¬ InForce rotated auth ⟨true, some (List.replicate 20 0xbb), none⟩ := by
  obtain ⟨auth, hauth, haccepted⟩ := Option.map_eq_some_iff.mp
    (by decide +kernel : (SslAuth.after rotated).map
      (·.validateCertificate ⟨true, some (List.replicate 20 0xbb), none⟩) = some true)
  refine ⟨auth, hauth, ?_⟩
  intro h
  rcases (h.accepts rfl).mp haccepted with ⟨sha1, hsha1, hgiven⟩ | ⟨-, _, _, hsubject, _⟩
  · cases hsha1
    exact absurd hgiven (by decide +kernel)
  · cases hsubject

end Rsl.Tls
