import OpenvoxCa.Ca.Serial

/-!
# The objects the certificate authority handles

Keys, certificates, signing requests, revocation lists, and the blobs storage keeps
them in. Bytes do not appear: a stored blob is what the program's own parsers make
of it, so a certificate blob is the certificate it parses to, if it does, and a CRL
blob is its list of PEM blocks. Two things are idealised.

* **Signatures.** An object records the key it was signed with, and a signature
  verifies under exactly that key. The other half of `CheckSignatureFrom` – whether
  the parent's basic constraints and key usage let it sign such an object at all –
  is a flag of the parent.
* **Times** are integers. Whether an instant lies before another is all that the
  modelled code ever asks.
-/

namespace OpenvoxCa.Ca

abbrev Time := ℤ

/-- A span of time; `time.Duration`. -/
abbrev Duration := ℤ

/-- One hour, in the seconds in which instants are counted. -/
def hour : Duration := 3600

/-! ### Keys and names -/

/-- The curves a key may lie on. -/
inductive Curve
  | p224 | p256 | p384 | p521
  deriving DecidableEq, Repr

/-- What a public key is, as far as the key policy looks at it. -/
inductive KeyKind
  | rsa (bits : ℕ)
  | ecdsa (curve : Curve)
  | other
  deriving DecidableEq, Repr

/-- A public key: its kind and its identity. -/
structure PublicKey where
  /-- Its algorithm and size. -/
  kind : KeyKind := .ecdsa .p256
  /-- Which key of that kind it is. -/
  id : ℕ
  deriving DecidableEq, Repr

/-- `validatePublicKey`: RSA of at least 2048 bits, or one of three curves. -/
def validatePublicKey (key : PublicKey) : Bool :=
  match key.kind with
  | .rsa bits => 2048 ≤ bits
  | .ecdsa .p224 => false
  | .ecdsa _ => true
  | .other => false

/-- A distinguished name: the common name, and everything else in it. -/
structure Name where
  commonName : Text
  /-- The other attributes. -/
  other : List Text := []
  deriving DecidableEq, Repr

/-- The subject alternative names of a certificate or a request. -/
structure SubjectAltNames where
  dnsNames : List Text := []
  ipAddresses : List Text := []
  emailAddresses : List Text := []
  uris : List Text := []
  deriving DecidableEq, Repr

structure Extension where
  id : List ℕ
  critical : Bool := false
  /-- The encoded value. -/
  value : List ℕ
  deriving DecidableEq, Repr

inductive ExtKeyUsage
  | serverAuth | clientAuth | other (n : ℕ)
  deriving DecidableEq, Repr

/-! ### Certificates and requests -/

structure Certificate where
  serialNumber : ℤ
  subject : Name
  notBefore : Time := 0
  notAfter : Time := 0
  publicKey : PublicKey
  /-- The key whose signature it bears. -/
  signedBy : PublicKey
  isCA : Bool := false
  /-- Its basic constraints and key usage let it sign certificates. -/
  maySignCertificates : Bool := false
  /-- Its basic constraints and key usage let it sign revocation lists. -/
  maySignCRLs : Bool := false
  extKeyUsage : List ExtKeyUsage := []
  crlDistributionPoints : List Text := []
  sans : SubjectAltNames := {}
  extensions : List Extension := []
  /-- What tells two signatures over the same contents apart. -/
  signature : ℕ := 0
  deriving DecidableEq, Repr

/-- `child.CheckSignatureFrom(parent)` for certificates. -/
def certSignedBy (parent child : Certificate) : Bool :=
  parent.maySignCertificates && child.signedBy == parent.publicKey

/-- **A certificate signing request.** -/
structure SigningRequest where
  subject : Name
  publicKey : PublicKey
  /-- Whether its self-signature verifies. -/
  signatureValid : Bool := true
  sans : SubjectAltNames := {}
  extensions : List Extension := []
  deriving DecidableEq, Repr

/-- A stored certificate: what it parses to, if it parses, and what tells apart
blobs that parse alike. -/
structure CertBlob where
  parsed : Option Certificate
  raw : ℕ := 0
  deriving DecidableEq, Repr

/-- A stored signing request: what it parses to, if it parses. -/
structure RequestBlob where
  parsed : Option SigningRequest
  deriving DecidableEq, Repr

/-! ### Revocation lists -/

/-- One line of a revocation list. -/
structure RevocationEntry where
  serialNumber : ℤ
  revocationTime : Time
  reasonCode : ℕ := 0
  deriving DecidableEq, Repr

/-- **A certificate revocation list.** -/
structure RevocationList where
  /-- Absent in the version 1 lists that cannot carry one. -/
  number : Option ℤ
  entries : List RevocationEntry
  thisUpdate : Time
  nextUpdate : Time
  issuer : Name
  /-- The key whose signature it bears. -/
  signedBy : PublicKey
  /-- What tells two signatures over the same contents apart. -/
  signature : ℕ := 0
  deriving DecidableEq, Repr

/-- The serial numbers a revocation list revokes. -/
def RevocationList.serials (crl : RevocationList) : List ℤ :=
  crl.entries.map RevocationEntry.serialNumber

def serialInCRL (crl : RevocationList) (serial : ℤ) : Bool :=
  crl.entries.any fun e => e.serialNumber == serial

theorem serialInCRL_iff {crl : RevocationList} {serial : ℤ} :
    serialInCRL crl serial = true ↔ serial ∈ crl.serials := by
  simp [serialInCRL, RevocationList.serials]

/-- One PEM block of a CRL blob: whether its label is `X509 CRL`, and what its bytes
parse to as a revocation list, if they do. -/
structure PemBlock where
  isCRL : Bool := true
  crl : Option RevocationList
  deriving DecidableEq, Repr

/-- A blob of PEM blocks, in order. -/
abbrev Blob := List PemBlock

/-- What reading the operator's chain file gives: its PEM blocks, and whether
anything but space follows the last of them. -/
structure ChainFile where
  blocks : Blob
  trailing : Bool := false
  deriving DecidableEq, Repr

/-! ### The inventory and the list of superseded certificates -/

/-- One entry of the inventory. The dates are what `time.Parse` makes of their
text. -/
structure InventoryEntry where
  serial : Text
  notBefore : Option Time
  notAfter : Option Time
  subject : Text
  deriving DecidableEq, Repr

/-- `supersededEntry`: a certificate that was replaced and awaits revocation. -/
structure SupersededEntry where
  serial : Text
  subject : Text
  revokeAt : Time
  deriving DecidableEq, Repr

/-- The stored list of superseded certificates: what `parseSuperseded` recovers
from it, and whether it reported an error while doing so. -/
structure SupersededBlob where
  entries : List SupersededEntry := []
  corrupt : Bool := false
  deriving DecidableEq, Repr

/-! ### Failures -/

/-- What a subject holds that refuses it another request. -/
inductive DuplicateState
  | requested | signed | revoked
  deriving DecidableEq, Repr

/-- The errors the modelled operations return, by the sentinel a caller could tell
them apart with. -/
inductive Failure
  /-- `fs.ErrNotExist`. -/
  | notExist
  /-- Any other failure of a storage operation. -/
  | storage
  /-- A lock that could not be taken. -/
  | lock
  /-- A signature that could not be made. -/
  | signing
  /-- A blob that does not parse. -/
  | malformed
  /-- `storage.ErrMalformedSerial`, or the malformed serials of `revoke.go`. -/
  | malformedSerial
  /-- `errChainFileFault`. -/
  | chainFileFault
  /-- `ErrForeignStoredCRL`. -/
  | foreignStoredCRL
  /-- `CRL not loaded`. -/
  | crlNotLoaded
  /-- An invalid subject name. -/
  | invalidSubject
  /-- `ErrSubjectUnknown`. -/
  | subjectUnknown
  /-- `ErrSerialUnknown`. -/
  | serialUnknown
  /-- `ErrSerialIsCurrent`. -/
  | serialIsCurrent
  /-- `ErrSerialStateUnknown`. -/
  | serialStateUnknown
  /-- `ErrCertRevoked`. -/
  | certRevoked
  /-- `ErrCertSuperseded`. -/
  | certSuperseded
  /-- `ErrForeignCertificate`. -/
  | foreignCertificate
  /-- `ErrRenewalSubjectMismatch`. -/
  | subjectMismatch
  /-- `ErrDisallowedSubjectAltNames`. -/
  | disallowedAltNames
  /-- `ErrDisallowedExtensions`. -/
  | disallowedExtensions
  /-- A key the policy refuses. -/
  | keyPolicy
  /-- The CA certificate has expired. -/
  | caExpired
  /-- `ErrNotFound`. -/
  | notFound
  /-- `ErrCertExists`. -/
  | certExists
  /-- `ErrSerialExists`, `ErrDuplicateSerial`. -/
  | serialExists
  /-- `ErrImportInvalid`. -/
  | importInvalid
  /-- `ErrCACertExists`. -/
  | caCertExists
  /-- A CA certificate that binds another key than the signer's. -/
  | caKeyMismatch
  /-- `ErrNoCSR`. -/
  | noCSR
  /-- `*DuplicateCertError`, with its `State`. -/
  | duplicateCert (state : DuplicateState)
  /-- `autosign check failed`. -/
  | autosign
  /-- `ErrReservedSubject`. -/
  | reservedSubject
  /-- The DNS names that `validateDNSAltNames` refuses. -/
  | invalidDNSAltNames
  /-- `ErrInvalidAuthGrant`. -/
  | invalidAuthGrant
  /-- A key that could not be generated, or that the caller could not take. -/
  | keyGeneration
  deriving DecidableEq, Repr

end OpenvoxCa.Ca
