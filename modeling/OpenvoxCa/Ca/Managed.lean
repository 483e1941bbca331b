import OpenvoxCa.Ca.Requests

/-!
# Managed certificates

The programs of `managedcert.go`: certificates that the CA issues to itself, from a specification
that an operator has written down, and hands to a store of their own. A pass over one entry
(`reconcileManagedCert`) looks at what the store holds, decides whether that will do
(`issueDecision`), and if not issues another certificate (`issueManagedUnderSubjectLock`). The
certificate is in the CA's own storage, and in the inventory, before the store is asked to take it;
where the store refuses, the certificate is revoked and the one that the store holds is put back.

The store of an entry belongs to somebody else, and may be written by anybody. What it answers in
one pass is a parameter of the pass (`ManagedCert`), and so is the key that is generated, if one is,
and whether the pass is withheld after earlier refusals.
-/

namespace OpenvoxCa.Ca

/-! ### Specifications -/

/-- `CertSpec`, without the kind of key that is generated. -/
structure CertSpec where
  subject : Text
  sans : SubjectAltNames := {}
  extKeyUsage : List ExtKeyUsage := []
  ttl : Duration := 0
  renewBefore : Duration
  reuseKey : Bool := false
  supersedeAfter : Option Duration := none
  deriving DecidableEq, Repr

def CertSpec.validate (spec : CertSpec) : Except Failure Unit :=
  let others := spec.sans.ipAddresses ++ spec.sans.emailAddresses ++ spec.sans.uris
  if ¬validateSubject spec.subject then .error .invalidSubject
  else if spec.subject = reservedKeySubject then .error .reservedSubject
  else if spec.sans.dnsNames = [] ∧ others = [] then .error .malformed
  else if ¬validateDNSAltNames spec.sans.dnsNames then .error .invalidDNSAltNames
  else if [] ∈ others then .error .malformed
  else if maxDNSAltNames < others.length then .error .malformed
  else if spec.ttl < 0 then .error .malformed
  else if spec.renewBefore ≤ 0 then .error .malformed
  else if spec.supersedeAfter.any fun d => d < 0 then .error .malformed
  else .ok ()

def CA.supersedeAfterFor (ca : CA) (spec : CertSpec) : Duration :=
  spec.supersedeAfter.getD ca.supersedeAfter

/-- What a store holds in the place of a key. -/
inductive StoredKey
  | absent
  /-- It does not parse. -/
  | unusable
  /-- The private half of a public key. -/
  | key (pub : PublicKey)
  deriving DecidableEq, Repr

/-- What a store holds: a certificate, if it holds one, and a key. -/
structure Material where
  certificate : Option CertBlob := none
  key : StoredKey := .absent
  deriving DecidableEq, Repr

/-- **An entry, in one pass.** -/
structure ManagedCert where
  spec : CertSpec
  load : Except Failure Material
  save : Except Failure Unit := .ok ()
  /-- The key that `generateKey` comes up with. -/
  generated : Option PublicKey
  /-- What `skipForSaveBackoff` says. -/
  withheld : Bool := false
  deriving DecidableEq

/-! ### The decision -/

inductive IssueReason
  | current | absent | unparseable | notOurs | keyUnusable | keyMismatch | namesMissing
  | usageMismatch | revoked | renewWindow
  deriving DecidableEq, Repr

/-- `renewWindowFor`: no more than half of the life that the certificate had before it. -/
def renewWindowFor (leaf : Certificate) (want : CertSpec) (backdate : Duration) : Duration :=
  let forward := leaf.notAfter - leaf.notBefore - backdate
  if forward ≤ 0 then 0 else min want.renewBefore (forward / 2)

/-- `leafCarriesNames`: at least the names that are wanted. -/
def leafCarriesNames (leaf : Certificate) (want : CertSpec) : Bool :=
  leaf.subject.commonName = want.subject ∧ want.sans.dnsNames ⊆ leaf.sans.dnsNames ∧
    want.sans.ipAddresses ⊆ leaf.sans.ipAddresses ∧
    want.sans.emailAddresses ⊆ leaf.sans.emailAddresses ∧ want.sans.uris ⊆ leaf.sans.uris

/-- `leafCarriesUsages`: exactly the usages that are wanted. -/
def leafCarriesUsages (leaf : Certificate) (want : CertSpec) : Bool :=
  let wanted := if want.extKeyUsage = [] then defaultLeafExtKeyUsage else want.extKeyUsage
  leaf.extKeyUsage ⊆ wanted ∧ wanted ⊆ leaf.extKeyUsage

/-- **`issueDecision`**: whether to issue, why, and the certificate that is there. -/
def issueDecision (material : Material) (want : CertSpec) (issuer : Certificate)
    (backdate : Duration) (now : Time) (revoked : Bool) :
    Bool × IssueReason × Option Certificate :=
  match material.certificate with
  | none => (true, .absent, none)
  | some blob =>
    match blob.parsed with
    | none => (true, .unparseable, none)
    | some leaf =>
      if ¬certSignedBy issuer leaf then (true, .notOurs, some leaf)
      else match material.key with
        | .absent => (true, .keyUnusable, some leaf)
        | .unusable => (true, .keyUnusable, some leaf)
        | .key pub =>
          if pub ≠ leaf.publicKey then (true, .keyMismatch, some leaf)
          else if ¬leafCarriesNames leaf want then (true, .namesMissing, some leaf)
          else if ¬leafCarriesUsages leaf want then (true, .usageMismatch, some leaf)
          else if revoked then (true, .revoked, some leaf)
          else if ¬now < leaf.notAfter - renewWindowFor leaf want backdate then
            (true, .renewWindow, some leaf)
          else (false, .current, some leaf)

/-- `currentIsThisSubjectsUnderSubjectLock`. -/
def currentIsThisSubjects (issuer : Certificate) (current : Option Certificate) (subject : Text) :
    Bool :=
  match current with
  | none => false
  | some current =>
    subject ≠ [] && certSignedBy issuer current && current.subject.commonName = subject

/-- `storedKeyIsOursUnderSubjectLock`. -/
def storedKeyIsOurs (issuer : Certificate) (current : Option Certificate) (pub : PublicKey)
    (subject : Text) : Bool :=
  currentIsThisSubjects issuer current subject &&
    current.any fun current => current.publicKey = pub

structure RevocationState where
  revoked : Bool := false
  known : Bool := false
  deriving DecidableEq, Repr

/-- **`issuanceKeyFor`**: the stored key where it may be used again, or else the generated one. -/
def issuanceKeyFor (m : ManagedCert) (issuer : Certificate) (current : Option Certificate)
    (stored : StoredKey) (revocation : RevocationState) : Option PublicKey :=
  if ¬m.spec.reuseKey then m.generated
  else if current = none then m.generated
  else match stored with
    | .absent => m.generated
    | .unusable => m.generated
    | .key pub =>
      if ¬storedKeyIsOurs issuer current pub m.spec.subject then m.generated
      else if revocation.revoked then m.generated
      else if ¬revocation.known then m.generated
      else some pub

/-! ### A pass -/

def storedMaterialRevoked (certificate : Option CertBlob) : Prog RevocationState :=
  match certificate.bind CertBlob.parsed with
  | none => return {}
  | some leaf => do
    match ← (isRevokedSerial leaf.serialNumber).attempt with
    | .error _ => return {}
    | .ok revoked => return { revoked, known := true }

/-- `warnIfDisplacingUnderSubjectLock`. It reads, and writes log lines. -/
def warnIfDisplacing (subject : Text) (current : Option Certificate) : Prog Unit := do
  match ← cmd (.getCert subject) with
  | .error _ => return ()
  | .ok blob =>
    match blob.parsed with
    | none => return ()
    | some stored =>
      if current.any fun current => stored.serialNumber = current.serialNumber then return ()
      else do
        let _ ← (isRevokedSerial stored.serialNumber).attempt
        return ()

/-- The serial of the certificate that was not delivered is revoked. -/
def revokeUndelivered (ca : CA) (certPEM : CertBlob) : Prog Unit :=
  match certPEM.parsed with
  | none => return ()
  | some cert => do
    let _ ← (withLock .crl
      (withMutex (revokeSerialLocked ca (serialHexStr cert.serialNumber)))).attempt
    return ()

/-- The CA's own record of the certificate in service is put back. -/
def restoreCurrent (ca : CA) (subject : Text) (current : Option Certificate) : Prog Unit :=
  if currentIsThisSubjects ca.caCert current subject then do
    let _ ← cmd (.saveCert subject { parsed := current })
    return ()
  else return ()

/-- The certificate that was in service is retired. -/
def retireCurrent (ca : CA) (spec : CertSpec) (current : Option Certificate) (revoked : Bool) :
    Prog Unit :=
  match current with
  | none => return ()
  | some cert =>
    if currentIsThisSubjects ca.caCert current spec.subject ∧ ¬revoked then do
      let _ ← (supersedeReplacedAfter ca spec.subject (serialHexStr cert.serialNumber)
        (ca.supersedeAfterFor spec)).attempt
      return ()
    else return ()

def issueManagedUnderSubjectLock (ca : CA) (m : ManagedCert) (current : Option Certificate)
    (stored : StoredKey) (revocation : RevocationState) : Prog Bool :=
  match issuanceKeyFor m ca.caCert current stored revocation with
  | none => .fail .keyGeneration
  | some key => do
    let certPEM ← withMutex (issueLeafLocked ca m.spec.subject { commonName := m.spec.subject } key
      m.spec.sans [] m.spec.extKeyUsage m.spec.ttl)
    match m.save with
    | .error e =>
      revokeUndelivered ca certPEM
      restoreCurrent ca m.spec.subject current
      .fail e
    | .ok _ =>
      retireCurrent ca m.spec current revocation.revoked
      return true

/-- The body of `reconcileManagedCert`, under the lock of the subject. -/
def reconcileUnderLock (ca : CA) (m : ManagedCert) (now : Time) : Prog Bool :=
  match m.load with
  | .error e => .fail e
  | .ok material => do
    let revocation ← storedMaterialRevoked material.certificate
    let decision := issueDecision material m.spec ca.caCert ca.backdate now revocation.revoked
    if ¬decision.1 then return false
    else if m.withheld then return false
    else do
      warnIfDisplacing m.spec.subject decision.2.2
      issueManagedUnderSubjectLock ca m decision.2.2 material.key revocation

/-- **`reconcileManagedCert`**: one pass over one entry, and whether it has issued. -/
def reconcileManagedCert (ca : CA) (m : ManagedCert) : Prog Bool :=
  match m.spec.validate with
  | .error e => .fail e
  | .ok _ => do
    let now ← cmd .now
    withLock (.subject m.spec.subject) (reconcileUnderLock ca m now)

end OpenvoxCa.Ca
