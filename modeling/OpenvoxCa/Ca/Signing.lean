import OpenvoxCa.Ca.Revoke

/-!
# Issuing, renewing and importing certificates

The programs of `signing.go` and `importcert.go`: signing a pending request, the two renewals,
cleaning a subject, and importing a certificate issued elsewhere under the same key. All of them run
under the lock of their subject, and all of them issue through `issueLeafLocked`, which writes two
objects – the certificate, then its line in the inventory – and deletes the first if the second
fails.

A renewal returns, besides the certificate, the error of its last step, the
retirement of the certificate it replaces: the source only logs it.
-/

namespace OpenvoxCa.Ca

open Conc.Prog (ofExcept)

/-! ### Issuing a leaf -/

/-- `certValidity`: five years. -/
def certValidity : Duration := 5 * 365 * 24 * hour

/-- `leafBackdate`; the default is five minutes. -/
def CA.backdate (ca : CA) : Duration := if 0 < ca.leafBackdate then ca.leafBackdate else 300

def defaultLeafExtKeyUsage : List ExtKeyUsage := [.serverAuth, .clientAuth]

/-- `OIDAIA`: the authority information access extension. -/
def oidAIA : List ℕ := [1, 3, 6, 1, 5, 5, 7, 1, 1]

/-- The authority information access extension for the OCSP URLs, if there are any. -/
def aiaExtension (urls : List Text) : List Extension :=
  if urls = [] then [] else [{ id := oidAIA, value := urls.flatten.map Char.toNat }]

/-- How long a leaf is to be valid, before the CA's own expiry is considered. -/
def CA.leafValidity (ca : CA) (ttl : Duration) : Duration :=
  if 0 < ttl then ttl
  else if 0 < ca.leafValidityDays then ca.leafValidityDays * 24 * hour
  else certValidity

/-- The certificate `issueLeafLocked` has signed. -/
def CA.leafTemplate (ca : CA) (subjectName : Name) (pubKey : PublicKey) (sans : SubjectAltNames)
    (extraExtensions : List Extension) (eku : List ExtKeyUsage) (ttl : Duration) (serial : ℕ)
    (now : Time) : Certificate :=
  { serialNumber := serial
    subject := subjectName
    notBefore := now - ca.backdate
    notAfter := now + min (ca.leafValidity ttl) (ca.caCert.notAfter - now)
    publicKey := pubKey
    signedBy := ca.caCert.publicKey
    extKeyUsage := if eku = [] then defaultLeafExtKeyUsage else eku
    crlDistributionPoints := ca.crlURLs
    sans := sans
    extensions := aiaExtension ca.ocspURLs ++ extraExtensions }

/-- `FormatInventoryLine`: the entry a certificate gets in the inventory. -/
def inventoryEntryFor (subject : Text) (cert : Certificate) : InventoryEntry :=
  { serial := serialHexStr cert.serialNumber
    notBefore := some cert.notBefore
    notAfter := some cert.notAfter
    subject := subject }

/-- `indexSerialLocked`. -/
def Memory.index (m : Memory) (serial subject : Text) : Memory :=
  { m with serialIndex := (serial, subject) :: m.serialIndex.filter fun e => e.1 ≠ serial }

/-- Store a certificate and its inventory entry, the tail that `issueLeafLocked` and
`importCertificateLocked` share: if the entry cannot be appended, the certificate is
deleted again. -/
def storeLocked (subject : Text) (cert : Certificate) (blob : CertBlob) : Prog Unit := do
  ask (cmd (.saveCert subject blob))
  match ← cmd (.appendInventory (inventoryEntryFor subject cert)) with
  | .error e =>
    let _ ← cmd (.deleteCert subject)
    .fail e
  | .ok _ => modifyMemory fun m => m.index (serialHexStr cert.serialNumber) subject

def issueLeafLocked (ca : CA) (subject : Text) (subjectName : Name) (pubKey : PublicKey)
    (sans : SubjectAltNames) (extraExtensions : List Extension) (eku : List ExtKeyUsage)
    (ttl : Duration) : Prog CertBlob :=
  if validatePublicKey pubKey then do
    let serial ← ask (cmd .randomSerial)
    let now ← cmd .now
    if ca.caCert.notAfter - now ≤ 0 then .fail .caExpired
    else do
      let cert ← ask (cmd (.createCertificate
        (ca.leafTemplate subjectName pubKey sans extraExtensions eku ttl serial now)))
      storeLocked subject cert { parsed := some cert }
      return { parsed := some cert }
  else .fail .keyPolicy

/-- `renewalRefreshedExtensions`: what a renewal does not carry over. -/
def renewalRefreshedExtensions : List (List ℕ) :=
  [[2, 5, 29, 35], [2, 5, 29, 14], [2, 5, 29, 31], oidAIA, [2, 5, 29, 19]]

/-- `reissueLeafLocked`: issue a successor with the extensions of the original, among them those
that are its alternative names and its extended key usage. -/
def reissueLeafLocked (ca : CA) (subject : Text) (original : Certificate) (pubKey : PublicKey) :
    Prog CertBlob :=
  let carried := original.extensions.filter fun ext => !renewalRefreshedExtensions.contains ext.id
  issueLeafLocked ca subject original.subject pubKey original.sans carried original.extKeyUsage 0

/-! ### Signing a pending request -/

/-- An alternative name with its kind, as `sanStrings` writes it. -/
inductive AltName
  | dns (name : Text) | ip (addr : Text) | email (addr : Text) | uri (u : Text)
  deriving DecidableEq, Repr

def asciiLower (s : Text) : Text :=
  s.map fun c => if 'A' ≤ c ∧ c ≤ 'Z' then Char.ofNat (c.toNat + 32) else c

def sanStrings (sans : SubjectAltNames) : List AltName :=
  sans.dnsNames.map (fun d => .dns (asciiLower d)) ++ sans.ipAddresses.map .ip ++
    sans.emailAddresses.map .email ++ sans.uris.map .uri

/-- `checkSubjectAltNames`: without the setting, only the subject's own name. -/
def checkSubjectAltNames (ca : CA) (subject : Text) (csr : SigningRequest) : Bool :=
  ca.allowSubjectAltNames || (sanStrings csr.sans).all fun name => name = .dns (asciiLower subject)

/-- Whether a request's basic constraints extension, if it decodes, asks for a CA. -/
def requestsCA (ext : Extension) : Bool :=
  match ext.id, ext.value with
  | [2, 5, 29, 19], 0x30 :: _ :: 0x01 :: 0x01 :: 0xFF :: _ => true
  | _, _ => false

def puppetOIDArc : List ℕ := [1, 3, 6, 1, 4, 1, 34380, 1]

def puppetAuthOIDArc : List ℕ := [1, 3, 6, 1, 4, 1, 34380, 1, 3]

/-- The extensions of a request that a certificate takes over: the Puppet ones that
grant nothing. -/
def copiedExtensions (csr : SigningRequest) : List Extension :=
  csr.extensions.filter fun ext =>
    puppetOIDArc.isPrefixOf ext.id && !puppetAuthOIDArc.isPrefixOf ext.id

/-- The DNS names of the certificate for a request. -/
def requestedDNSNames (ca : CA) (csr : SigningRequest) : List Text :=
  if ca.promoteCNToSAN ∧ csr.sans.dnsNames = [] ∧ csr.subject.commonName ≠ [] then
    [csr.subject.commonName]
  else csr.sans.dnsNames

def signWithDuration (ca : CA) (subject : Text) (ttl : Duration) : Prog CertBlob :=
  if validateSubject subject then do
    let csrPEM ← ask (cmd (.getCSR subject))
    match csrPEM.parsed with
    | none => .fail .malformed
    | some csr =>
      if ¬csr.signatureValid then .fail .malformed
      else if csr.extensions.any requestsCA then .fail .disallowedExtensions
      else if ¬checkSubjectAltNames ca subject csr then .fail .disallowedAltNames
      else do
        let certPEM ← issueLeafLocked ca subject csr.subject csr.publicKey
          { dnsNames := requestedDNSNames ca csr } (copiedExtensions csr) [] ttl
        let _ ← cmd (.deleteCSR subject)
        return certPEM
  else .fail .invalidSubject

/-- `SignWithTTL`; `Sign` is the case of no requested lifetime. -/
def signWithTTL (ca : CA) (subject : Text) (ttl : Duration) : Prog CertBlob :=
  if validateSubject subject then
    withLock (.subject subject) (withMutex (signWithDuration ca subject ttl))
  else .fail .invalidSubject

/-! ### Renewal -/

/-- `refuseIfSuperseded`: refuse a certificate on the list of superseded ones, and any
certificate while the list is unreadable. -/
def refuseIfSuperseded (presentedCert : Certificate) : Prog Unit := do
  let data ← loadSuperseded
  if data.corrupt then .fail .certSuperseded
  else if data.entries.any fun e =>
      normaliseSerial e.serial = some (serialHexStr presentedCert.serialNumber) then
    .fail .certSuperseded
  else return ()

/-- **`refuseIfRevoked`**: bring the cache up to date if that is possible, then ask it,
then ask the list of superseded certificates. -/
def refuseIfRevoked (ca : CA) (presentedCert : Certificate) : Prog Unit := do
  let _ ← (syncCRLCache ca).attempt
  let revoked ← isRevokedSerial presentedCert.serialNumber
  if revoked then .fail .certRevoked else refuseIfSuperseded presentedCert

/-- What a renewal returns: the new certificate, and the error of the retirement of
the old one. -/
structure Renewal where
  certificate : CertBlob
  retireError : Option Failure := none
  deriving DecidableEq, Repr

/-- `findSerialForSubject`, where a subject without an entry is no error. -/
def latestSerialIfAny (subject : Text) : Prog (Option Text) := do
  match ← cmd (.latestSerialForSubject subject) with
  | .ok s => return some s
  | .error .notExist => return none
  | .error e => .fail e

/-- The body of `Renew`, under the lock of the subject. -/
def renewLocked (ca : CA) (subject : Text) (presentedCert : Certificate) (pubKey : PublicKey) :
    Prog Renewal := do
  refuseIfRevoked ca presentedCert
  let oldSerial ← latestSerialIfAny subject
  let certPEM ← withMutex do
    let certPEM ← reissueLeafLocked ca subject presentedCert pubKey
    let _ ← cmd (.deleteCSR subject)
    return certPEM
  match oldSerial with
  | none => return { certificate := certPEM }
  | some oldSerial =>
    let r ← (supersedeReplaced ca subject oldSerial).attempt
    return { certificate := certPEM, retireError := errorOf r }

/-- **`Renew`**: renewal with a fresh signing request. It retires the newest serial the
inventory has for the subject. -/
def renew (ca : CA) (subject : Text) (csrPEM : RequestBlob) (presented : Option Certificate) :
    Prog Renewal :=
  match presented with
  | none => .fail .foreignCertificate
  | some presentedCert =>
    if certSignedBy ca.caCert presentedCert then do
      refuseIfRevoked ca presentedCert
      if presentedCert.subject.commonName ≠ subject then .fail .subjectMismatch
      else if ¬validateSubject subject then .fail .invalidSubject
      else match csrPEM.parsed with
        | none => .fail .malformed
        | some csr =>
          if ¬csr.signatureValid then .fail .malformed
          else if csr.subject.commonName ≠ subject then .fail .malformed
          else withLock (.subject subject) (renewLocked ca subject presentedCert csr.publicKey)
    else .fail .foreignCertificate

/-- The body of `AutoRenew`, under the lock of the subject. -/
def autoRenewLocked (ca : CA) (subject : Text) (presentedCert : Certificate) : Prog Renewal := do
  refuseIfRevoked ca presentedCert
  let certPEM ← withMutex
    (reissueLeafLocked ca subject presentedCert presentedCert.publicKey)
  if ¬ca.revokeOnAutoRenew then return { certificate := certPEM }
  else do
    let r ← (supersedeReplaced ca subject (serialHexStr presentedCert.serialNumber)).attempt
    return { certificate := certPEM, retireError := errorOf r }

/-- **`AutoRenew`**: renewal under the key of the presented certificate. It retires that
certificate, if it is set to. -/
def autoRenew (ca : CA) (presented : Option Certificate) : Prog Renewal :=
  match presented with
  | none => .fail .foreignCertificate
  | some presentedCert =>
    if certSignedBy ca.caCert presentedCert then
      let subject := presentedCert.subject.commonName
      if validateSubject subject then do
        refuseIfRevoked ca presentedCert
        withLock (.subject subject) (autoRenewLocked ca subject presentedCert)
      else .fail .invalidSubject
    else .fail .foreignCertificate

/-! ### Cleaning and importing -/

/-- `HasCert`: an error counts as no. -/
def hasCert (subject : Text) : Prog Bool := do
  match ← cmd (.certExists subject) with
  | .ok b => return b
  | .error _ => return false

/-- `HasCSR`: an error counts as no. -/
def hasCSR (subject : Text) : Prog Bool := do
  match ← cmd (.csrExists subject) with
  | .ok b => return b
  | .error _ => return false

/-- The half of `Clean` about the certificate: revoke it, and delete it whether that
worked or not. -/
def cleanCert (ca : CA) (subject : Text) : Prog Unit := do
  let _ ← (withLock .crl (withMutex (revokeLocked ca subject))).attempt
  let _ ← cmd (.deleteCert subject)
  return ()

/-- The half of `Clean` about the request. -/
def cleanCSR (subject : Text) : Prog Unit := do
  let _ ← cmd (.deleteCSR subject)
  return ()

/-- Run a program if a condition holds. -/
def doIf (b : Bool) (p : Prog Unit) : Prog Unit := if b then p else return ()

/-- The body of `Clean`, under the lock of the subject. -/
def cleanLocked (ca : CA) (subject : Text) : Prog Unit := do
  let hasCert ← hasCert subject
  let hasCSR ← hasCSR subject
  if !hasCert && !hasCSR then .fail .notFound
  else do
    doIf hasCert (cleanCert ca subject)
    doIf hasCSR (cleanCSR subject)

def clean (ca : CA) (subject : Text) : Prog Unit :=
  if validateSubject subject then withLock (.subject subject) (cleanLocked ca subject)
  else .fail .invalidSubject

def storedCertLocked (subject : Text) : Prog (Option Certificate) := do
  match ← cmd (.getCert subject) with
  | .ok blob => return blob.parsed
  | .error _ => return none

/-- `revokedLocked`: whether the cached list revokes the certificate. -/
def revokedIn (m : Memory) (cert : Option Certificate) : Bool :=
  match cert, m.cachedCRL with
  | some cert, some crl => serialInCRL crl cert.serialNumber
  | _, _ => false

/-- `evictRevokedLocked`: a stored certificate that is revoked makes room, any other is
in the way. -/
def evictRevokedLocked (subject : Text) : Prog Unit := do
  let present ← hasCert subject
  if present then do
    let cert ← storedCertLocked subject
    let m ← cmd .getMemory
    if revokedIn m cert then do
      let _ ← cmd (.deleteCert subject)
      return ()
    else .fail .certExists
  else return ()

structure ImportResult where
  subject : Text
  serial : Text
  notBefore : Time
  notAfter : Time
  imported : Bool
  deriving DecidableEq, Repr

/-- The result of importing a certificate, or of finding it there. -/
def importResult (subject : Text) (cert : Certificate) (imported : Bool) : ImportResult :=
  { subject := subject
    serial := serialHexStr cert.serialNumber
    notBefore := cert.notBefore
    notAfter := cert.notAfter
    imported := imported }

/-- The certificate stored for the subject, where there is one that parses. -/
def existingCert (subject : Text) : Prog (Option Certificate) := do
  let present ← hasCert subject
  if present then storedCertLocked subject else return none

def importCertificateLocked (subject : Text) (cert : Certificate) (certPEM : CertBlob) :
    Prog ImportResult := do
  let existing ← existingCert subject
  if existing = some cert then return importResult subject cert false
  else do
    let tracked ← ask (cmd (.serialExists (serialHexStr cert.serialNumber)))
    if tracked then .fail .serialExists
    else do
      evictRevokedLocked subject
      storeLocked subject cert certPEM
      return importResult subject cert true

def certMatchesSubject (cert : Certificate) (subject : Text) : Bool :=
  cert.subject.commonName = subject || cert.sans.dnsNames.contains subject

/-- **`ImportCertificate`**; `more` says that the input holds a second PEM block. -/
def importCertificate (ca : CA) (subject : Text) (certPEM : CertBlob) (more : Bool) :
    Prog ImportResult :=
  if ¬validateSubject subject then .fail .importInvalid
  else if more then .fail .importInvalid
  else match certPEM.parsed with
    | none => .fail .importInvalid
    | some cert =>
      if ¬certSignedBy ca.caCert cert ∨ cert.isCA ∨ ¬certMatchesSubject cert subject ∨
          cert.serialNumber ≤ 0 ∨ ¬cert.notBefore < cert.notAfter then .fail .importInvalid
      else withLock (.subject subject) (withMutex (importCertificateLocked subject cert certPEM))

end OpenvoxCa.Ca
