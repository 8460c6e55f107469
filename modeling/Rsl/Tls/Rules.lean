import Mathlib.Data.List.Perm.Basic

/-!
# The acceptance rule of the Rust TLS layer

`Rules::verify` of `tls/verify.rs`, with `simple_display_name` and `eku_permits` of `tls/name.rs`.
What the parser reads out of a certificate, its SHA-1, who signed it and what `webpki` says of a
chain come from a `Pki`.

The subject rule is meant to pin the issuer, but what it compares is the SHA-1 of the first
certificate that the peer presents after the leaf, and nothing says that this one issued the leaf: a
chain may be built without it, or not at all. `verify_pins_issuer` says for which lists of
certificates every set of rules does what it is meant to: those that start with a certificate that
signed the leaf.
-/

set_option autoImplicit false

namespace Rsl.Tls

/-! ## Certificates -/

/-- A certificate as it was presented. -/
abbrev Der := List UInt8

/-- A SHA-1. -/
abbrev Thumbprint := List UInt8

abbrev Text := List Char

/-- `MAX_NAME_CHARS`. -/
def maxNameChars : Nat := 255

/-- The types of an attribute that a display name is taken from. -/
inductive Oid where
  | commonName
  | organizationalUnit
  | organizationName
  | emailAddress
  | other
  deriving DecidableEq, Repr

/-- An attribute of a subject. The value is missing when it is no text. -/
structure Attribute where
  attrType : Oid
  value : Option Text
  deriving DecidableEq, Repr

inductive GeneralName where
  | rfc822Name (value : Text)
  | other
  deriving DecidableEq, Repr

/-- The extended key usages; of the others only the two of Server Gated Crypto are looked for. -/
structure ExtendedKeyUsage where
  any : Bool
  clientAuth : Bool
  serverAuth : Bool
  sgc : Bool
  deriving DecidableEq, Repr

/-- What is read out of a certificate. The key usages may be there and unreadable (`none`). -/
structure X509Certificate where
  subject : List (List Attribute)
  subjectAlternativeName : Option (List GeneralName)
  extendedKeyUsage : Option (Option ExtendedKeyUsage)
  deriving DecidableEq, Repr

/-- `Purpose`. -/
inductive Purpose where
  | server
  | client
  deriving DecidableEq, Repr

inductive VerifyError where
  | badEncoding
  | applicationVerificationFailure
  deriving DecidableEq, Repr

/-- The world of certificates: how they parse, what they hash to, who signed them, and the answers
of `webpki`. -/
structure Pki where
  fromDer : Der → Option X509Certificate
  sha1 : Der → Thumbprint
  sha1_injective : Function.Injective sha1
  signed : Der → Der → Bool
  verifyForUsage : Der → List Der → Nat → Purpose → Except VerifyError Unit

/-- `truncate`. -/
def truncate (value : Text) : Text := value.take maxNameChars

/-- The first attribute of the type with a text that is not empty. -/
def findAttribute (oid : Oid) (rdn : List Attribute) : Option Text :=
  rdn.findSome? fun attr => if attr.attrType = oid then attr.value.filter (· ≠ []) else none

/-- The first address of the alternative names. -/
def findRfc822Name (names : List GeneralName) : Option Text :=
  names.findSome? fun
    | .rfc822Name value => if value = [] then none else some value
    | .other => none

/-- `simple_display_name` of a certificate that parses. -/
def displayName (cert : X509Certificate) : Option Text :=
  let attrs := [Oid.commonName, .organizationalUnit, .organizationName, .emailAddress]
  match attrs.findSome? fun oid => cert.subject.reverse.findSome? (findAttribute oid) with
  | some value => some (truncate value)
  | none => (cert.subjectAlternativeName.bind findRfc822Name).map truncate

/-- `simple_display_name`. -/
def simpleDisplayName (pki : Pki) (der : Der) : Except VerifyError (Option Text) :=
  match pki.fromDer der with
  | none => .error .badEncoding
  | some cert => .ok (displayName cert)

/-- `eku_permits`. -/
def ekuPermits (pki : Pki) (der : Der) (purpose : Purpose) : Except VerifyError Bool :=
  match pki.fromDer der with
  | none => .error .badEncoding
  | some cert =>
    match cert.extendedKeyUsage with
    | none => .error .badEncoding
    -- No extension: good for anything.
    | some none => .ok true
    | some (some eku) =>
      if eku.any then .ok true
      else
        match purpose with
        | .client => .ok eku.clientAuth
        | .server => .ok (eku.serverAuth || eku.sgc)

/-! ## Rules -/

/-- `SubjectRule`. -/
structure SubjectRule where
  subject : Text
  parents : List Thumbprint
  deriving DecidableEq, Repr

/-- `ChainValidation`. -/
inductive ChainValidation where
  | enforce
  | logOnly
  | off
  deriving DecidableEq, Repr

/-- `Rules`, without what is only handed to `webpki`. -/
structure Rules where
  thumbprintA : Option Thumbprint
  thumbprintB : Option Thumbprint
  subjectA : Option SubjectRule
  subjectB : Option SubjectRule
  identityPins : Bool
  chain : ChainValidation
  deriving DecidableEq, Repr

/-- The rules for subjects, in the order in which they are tried. -/
def Rules.subjects (rules : Rules) : List SubjectRule :=
  rules.subjectA.toList ++ rules.subjectB.toList

/-- `verify_chain`. -/
def verifyChain (pki : Pki) (rules : Rules) (leaf : Der) (intermediates : List Der) (now : Nat)
    (purpose : Purpose) : Except VerifyError Unit :=
  if rules.chain = .off then .ok () else pki.verifyForUsage leaf intermediates now purpose

/-- `thumbprint_accepted`. -/
def thumbprintAccepted (pki : Pki) (rules : Rules) (leaf : Der) : Bool :=
  if !rules.identityPins then false
  else rules.thumbprintA == some (pki.sha1 leaf) || rules.thumbprintB == some (pki.sha1 leaf)

/-- `subject_accepted`. -/
def subjectAccepted (pki : Pki) (rules : Rules) (leaf : Der) (intermediates : List Der) :
    Except VerifyError Bool :=
  if rules.subjectA.isNone && rules.subjectB.isNone then .ok false
  else
    match simpleDisplayName pki leaf with
    | .error error => .error error
    | .ok none => .ok false
    | .ok (some name) =>
      match intermediates.head? with
      | none => .ok false
      | some parent =>
        .ok (rules.subjects.any fun rule =>
          rule.subject == name && rules.identityPins && rule.parents.contains (pki.sha1 parent))

/-- The identity check of `Rules::verify`. -/
def verifyIdentity (pki : Pki) (rules : Rules) (leaf : Der) (intermediates : List Der) :
    Except VerifyError Unit :=
  if thumbprintAccepted pki rules leaf then .ok ()
  else
    match subjectAccepted pki rules leaf intermediates with
    | .error error => .error error
    | .ok true => .ok ()
    | .ok false => .error .applicationVerificationFailure

/-- `Rules::verify`. -/
def verify (pki : Pki) (rules : Rules) (leaf : Der) (intermediates : List Der) (now : Nat)
    (purpose : Purpose) : Except VerifyError Unit :=
  match ekuPermits pki leaf purpose with
  | .error _ => .error .badEncoding
  | .ok false => .error .applicationVerificationFailure
  | .ok true =>
    match verifyChain pki rules leaf intermediates now purpose with
    | .ok () => verifyIdentity pki rules leaf intermediates
    | .error error =>
      match rules.chain with
      | .enforce => .error error
      | .logOnly | .off => verifyIdentity pki rules leaf intermediates

/-! ## When a leaf is accepted -/

section

variable {pki : Pki} {rules : Rules} {leaf : Der} {intermediates : List Der} {now : Nat}
  {purpose : Purpose}

/-- The leaf's own SHA-1 is pinned. -/
def LeafPinned (pki : Pki) (rules : Rules) (leaf : Der) : Prop :=
  rules.thumbprintA = some (pki.sha1 leaf) ∨ rules.thumbprintB = some (pki.sha1 leaf)

/-- The leaf may be used for the purpose, and its chain is good or not asked for. -/
def Passes (pki : Pki) (mode : ChainValidation) (leaf : Der) (intermediates : List Der) (now : Nat)
    (purpose : Purpose) : Prop :=
  ekuPermits pki leaf purpose = .ok true ∧
    (mode = .enforce → pki.verifyForUsage leaf intermediates now purpose = .ok ())

/-- The rule is for the leaf's name, and its parents have the first certificate presented with
it. -/
def FirstPinned (pki : Pki) (leaf : Der) (intermediates : List Der) (rule : SubjectRule) : Prop :=
  simpleDisplayName pki leaf = .ok (some rule.subject) ∧
    ∃ parent ∈ intermediates.head?, pki.sha1 parent ∈ rule.parents

/-- The rule is for the leaf's name, and its parents have one that signed the leaf. -/
def IssuerPinned (pki : Pki) (leaf : Der) (rule : SubjectRule) : Prop :=
  simpleDisplayName pki leaf = .ok (some rule.subject) ∧
    ∃ issuer, pki.signed issuer leaf = true ∧ pki.sha1 issuer ∈ rule.parents

theorem thumbprintAccepted_iff :
    thumbprintAccepted pki rules leaf = true ↔ rules.identityPins = true ∧
      LeafPinned pki rules leaf := by
  rw [thumbprintAccepted, LeafPinned]
  cases rules.identityPins <;> simp

theorem subjectAccepted_iff :
    subjectAccepted pki rules leaf intermediates = .ok true ↔
      rules.identityPins = true ∧ ∃ rule ∈ rules.subjects,
        FirstPinned pki leaf intermediates rule := by
  have hnone : (rules.subjectA.isNone && rules.subjectB.isNone) = true → rules.subjects = [] := by
    intro h
    rw [Bool.and_eq_true, Option.isNone_iff_eq_none, Option.isNone_iff_eq_none] at h
    rw [Rules.subjects, h.1, h.2]
    rfl
  rw [subjectAccepted]
  split
  · rename_i h
    simp [hnone h]
  · simp only [FirstPinned]
    cases hname : simpleDisplayName pki leaf with
    | error error => simp
    | ok name =>
      cases name with
      | none => simp
      | some name =>
        cases intermediates with
        | nil => simp
        | cons parent rest =>
          simp only [List.head?_cons, Except.ok.injEq, Option.some.injEq, Option.mem_def,
            exists_eq_left',
            List.any_eq_true, Bool.and_eq_true, beq_iff_eq, List.contains_iff_mem]
          constructor
          · rintro ⟨rule, hrule, ⟨hsubject, hpins⟩, hparent⟩
            exact ⟨hpins, rule, hrule, hsubject.symm, hparent⟩
          · rintro ⟨hpins, rule, hrule, hsubject, hparent⟩
            exact ⟨rule, hrule, ⟨hsubject.symm, hpins⟩, hparent⟩

theorem verifyIdentity_iff :
    verifyIdentity pki rules leaf intermediates = .ok () ↔ rules.identityPins = true ∧
      (LeafPinned pki rules leaf ∨ ∃ rule ∈ rules.subjects,
        FirstPinned pki leaf intermediates rule) := by
  have hthumb := @thumbprintAccepted_iff pki rules leaf
  have hsubject := @subjectAccepted_iff pki rules leaf intermediates
  rw [and_or_left, ← hthumb, ← hsubject, verifyIdentity]
  split
  · simp [*]
  · rename_i hnot
    rw [or_iff_right hnot]
    split <;> simp [*]

/-- A leaf is accepted when it passes, and it is pinned or the first certificate presented with it
is. -/
theorem verify_iff :
    verify pki rules leaf intermediates now purpose = .ok () ↔
      Passes pki rules.chain leaf intermediates now purpose ∧ rules.identityPins = true ∧
        (LeafPinned pki rules leaf ∨
          ∃ rule ∈ rules.subjects, FirstPinned pki leaf intermediates rule) := by
  rw [← verifyIdentity_iff, verify, Passes, verifyChain]
  cases heku : ekuPermits pki leaf purpose with
  | error error => simp
  | ok permits =>
    cases permits with
    | false => simp
    | true =>
      cases hmode : rules.chain <;>
        cases hchain : pki.verifyForUsage leaf intermediates now purpose <;> simp

end

/-! ## Pinning the issuer -/

/-- `after` is `before` with other certificates appended and moved, none of which issued the
leaf. -/
def Rearranged (pki : Pki) (leaf : Der) (before after : List Der) : Prop :=
  after.filter (pki.signed · leaf) = before.filter (pki.signed · leaf) ∧
    ∃ extra, after.Perm (before ++ extra)

/-- An accepted leaf that is not pinned itself has a pinned issuer, and a rejection stays one
however certificates that did not issue the leaf are appended or moved. -/
structure PinsIssuer (pki : Pki) (rules : Rules) (leaf : Der) (before after : List Der) (now : Nat)
    (purpose : Purpose) : Prop where
  issuer : verify pki rules leaf after now purpose = .ok () → ¬ LeafPinned pki rules leaf →
    ∃ rule ∈ rules.subjects, IssuerPinned pki leaf rule
  rejected : Rearranged pki leaf before after → verify pki rules leaf before now purpose ≠ .ok () →
    verify pki rules leaf after now purpose ≠ .ok ()

/-- A list with which the leaf passes starts with a certificate that signed the leaf, if the leaf
has a name that a rule could be for; and what it was rearranged from passes too and starts with
one. -/
structure IssuerFirst (pki : Pki) (mode : ChainValidation) (leaf : Der) (before after : List Der)
    (now : Nat) (purpose : Purpose) : Prop where
  issued : Passes pki mode leaf after now purpose →
    ∀ name, simpleDisplayName pki leaf = .ok (some name) →
      ∀ first ∈ after.head?, pki.signed first leaf = true
  rearranged : Rearranged pki leaf before after → Passes pki mode leaf after now purpose →
    Passes pki mode leaf before now purpose ∧
      ∀ name, simpleDisplayName pki leaf = .ok (some name) →
        ∀ first ∈ before.head?, pki.signed first leaf = true

section

variable {pki : Pki} {mode : ChainValidation} {leaf : Der} {before after : List Der} {now : Nat}
  {purpose : Purpose}

/-- The rules with one subject that one certificate may issue. -/
def onlyFrom (mode : ChainValidation) (name : Text) (parent : Thumbprint) : Rules :=
  ⟨none, none, some ⟨name, [parent]⟩, none, true, mode⟩

/-- The leaf is accepted by the rules for one issuer exactly when that one is presented first. -/
theorem verify_onlyFrom {name : Text} (hpasses : Passes pki mode leaf after now purpose)
    (hname : simpleDisplayName pki leaf = .ok (some name)) (parent : Der) :
    verify pki (onlyFrom mode name (pki.sha1 parent)) leaf after now purpose = .ok () ↔
      after.head? = some parent := by
  have hsubjects : (onlyFrom mode name (pki.sha1 parent)).subjects =
      [⟨name, [pki.sha1 parent]⟩] := rfl
  rw [verify_iff, hsubjects]
  constructor
  · rintro ⟨-, -, hleaf | ⟨rule, hrule, -, first, hfirst, hparent⟩⟩
    · simp [LeafPinned, onlyFrom] at hleaf
    · rw [List.mem_singleton.mp hrule, List.mem_singleton] at hparent
      rw [← pki.sha1_injective hparent]
      exact hfirst
  · intro hfirst
    exact ⟨hpasses, rfl, .inr ⟨_, List.mem_singleton_self _, hname, parent, hfirst,
      List.mem_singleton_self _⟩⟩

/-- Lists that start with a certificate that signed the leaf, and have the same of them, start with
the same one. -/
theorem Rearranged.head_eq (h : Rearranged pki leaf before after) {first : Der}
    (hfirst : after.head? = some first) (hsigned : pki.signed first leaf = true)
    (hbefore : ∀ other ∈ before.head?, pki.signed other leaf = true) :
    before.head? = some first := by
  have hfilter := h.1
  obtain ⟨rest, rfl⟩ : ∃ rest, after = first :: rest := by
    cases after with
    | nil => cases hfirst
    | cons head rest => exact ⟨rest, by rw [Option.some.inj hfirst]⟩
  rw [List.filter_cons, if_pos hsigned] at hfilter
  cases before with
  | nil => cases hfilter
  | cons other rest =>
    rw [List.filter_cons, if_pos (hbefore other rfl)] at hfilter
    rw [List.head?_cons, (List.cons.inj hfilter).1]

/-- Where the lists start with a certificate that signed the leaf, every set of rules pins the
issuer. -/
theorem IssuerFirst.pinsIssuer {rules : Rules}
    (h : IssuerFirst pki rules.chain leaf before after now purpose) :
    PinsIssuer pki rules leaf before after now purpose := by
  constructor
  · intro haccepted hleaf
    obtain ⟨hpasses, -, hidentity⟩ := verify_iff.mp haccepted
    obtain ⟨rule, hrule, hname, first, hfirst, hparent⟩ := hidentity.resolve_left hleaf
    exact ⟨rule, hrule, hname, first, h.issued hpasses _ hname first hfirst, hparent⟩
  · intro hmoved hrejected haccepted
    obtain ⟨hpasses, hpins, hidentity⟩ := verify_iff.mp haccepted
    obtain ⟨hbefore, hissued⟩ := h.rearranged hmoved hpasses
    refine hrejected (verify_iff.mpr ⟨hbefore, hpins, hidentity.imp_right ?_⟩)
    rintro ⟨rule, hrule, hname, first, hfirst, hparent⟩
    have hsigned := h.issued hpasses _ hname first hfirst
    have hhead := hmoved.head_eq hfirst hsigned (hissued _ hname)
    exact ⟨rule, hrule, hname, first, hhead, hparent⟩

end

/-- A leaf `[1]` that the trust anchor `[3]` issued, so that its chain is good whatever is
presented. -/
def anchoredPki : Pki where
  fromDer der := if der = [1] then some ⟨[[⟨.commonName, some ['r']⟩]], none, some none⟩ else none
  sha1 := id
  sha1_injective := Function.injective_id
  signed issuer leaf := issuer == [3] && leaf == [1]
  verifyForUsage _ _ _ _ := .ok ()

/-- The leaf's name is to be issued by `[2]`. -/
def pinnedRules : Rules := ⟨none, none, some ⟨['r'], [[2]]⟩, none, true, .enforce⟩

end Rsl.Tls
