import OpenvoxCa.Ca.Serving

/-!
# Importing a CA certificate

The programs of `caImport.go` and of the half of `cabundle.go` they rest on: installing a
certificate issued by an external parent, with or without a CRL chain to go with it.
`importCACertificate` runs under the bootstrap lock, and takes the CRL lock only for its last
decision; the list it carries across, re-signed under the new certificate, is read before that
(`resignStoredCRL`).

Replicas that are serving meanwhile go on under the certificate they loaded (`importing`). Warnings,
which are all that the number of dropped lists is for, are left out, and so is the wording of the
errors after the certificate has been written.
-/

namespace OpenvoxCa.Ca

open Conc.Prog (ofExcept)

/-! ### The bundle -/

def checkCAKeyType (key : PublicKey) : Bool :=
  match key.kind with
  | .rsa _ => true
  | .ecdsa _ => true
  | .other => false

/-- Each certificate is signed by the next, which is a CA, and the last by itself. -/
def chainsToRoot : List Certificate → Bool
  | [] => false
  | [root] => certSignedBy root root
  | child :: parent :: rest =>
    parent.isCA && certSignedBy parent child && chainsToRoot (parent :: rest)

def validateCABundleOrder (now : Time) (certs : List Certificate) : Bool :=
  match certs with
  | [] => false
  | cert :: _ =>
    cert.isCA && certs.all (fun c => !decide (now < c.notBefore) && !decide (c.notAfter < now)) &&
      checkCAKeyType cert.publicKey && cert.maySignCertificates && cert.maySignCRLs &&
      chainsToRoot certs

/-- `ParseCABundle`, `ValidateCABundleOrder` and `AssertSignerMatchesCert`, in a row: the
leading certificate, with the bundle. The bundle is what it parses to, if it parses. -/
def checkedBundle (bundle : Option (List Certificate)) (signer : PublicKey) :
    Prog (Certificate × List Certificate) :=
  match bundle with
  | none => .fail .malformed
  | some certs => do
    let now ← cmd .now
    if validateCABundleOrder now certs then
      match certs with
      | [] => .fail .malformed
      | cert :: rest =>
        if cert.publicKey = signer then return (cert, cert :: rest) else .fail .caKeyMismatch
    else .fail .malformed

/-! ### The list to carry across -/

/-- The list `ResignStoredCRL` has signed. -/
def resignTemplate (cert : Certificate) (old : RevocationList) (validity : Duration) (now : Time) :
    RevocationList :=
  { number := some (nextNumber old)
    entries := old.entries
    thisUpdate := now
    nextUpdate := now + validity
    issuer := cert.subject
    signedBy := cert.publicKey }

/-- `ResignStoredCRL`: the leading block of the stored chain, whoever signed it, signed
again under `cert` with the next number. -/
def resignStoredCRL (cert : Certificate) (validity : Duration) : Prog (Option Blob) := do
  match ← cmd .getCRL with
  | .error .notExist => return none
  | .error e => .fail e
  | .ok [] => .fail .malformed
  | .ok (block :: _) =>
    match block.crl with
    | none => .fail .malformed
    | some old => do
      let now ← cmd .now
      let crl ← ask (cmd (.createRevocationList (resignTemplate cert old validity now)))
      return some (encodeCRLChain [crl])

def newEmptyCRL (cert : Certificate) (validity : Duration) : Prog RevocationList := do
  let now ← cmd .now
  ask (cmd (.createRevocationList
    { number := some 1
      entries := []
      thisUpdate := now
      nextUpdate := now + validity
      issuer := cert.subject
      signedBy := cert.publicKey }))

def crlValidity : Duration := 30 * 24 * hour

/-- `storedCRLChain`: no chain is an empty one. -/
def storedCRLChain : Prog (List RevocationList) := do
  match ← cmd .getCRL with
  | .error .notExist => return []
  | .error e => .fail e
  | .ok blob =>
    match decodeCRLChain blob with
    | some stored => return stored
    | none => .fail .malformed

/-- The branch of `planCRLImport` without a chain to import: keep what is stored, in
order, or start afresh. -/
def planWithoutChain (caCert : Certificate) (stored : List RevocationList) :
    Prog (List RevocationList × Bool) :=
  if stored = [] then do
    let generated ← newEmptyCRL caCert crlValidity
    return ([generated], true)
  else match orderCRLChain stored caCert with
    | (_, _, false) => .fail .malformed
    | (ordered, _, true) => return (ordered, decide (stored ≠ ordered))

/-- The newest-wins rule across the two sources: the list of ours that leads `ordered`
gives way to a stored one that is strictly newer. -/
def preferStored (caCert : Certificate) (stored ordered : List RevocationList) :
    List RevocationList :=
  match ownCRLIn stored caCert, ordered with
  | some stale, ours :: rest => if newerCRL stale ours then stale :: rest else ours :: rest
  | _, _ => ordered

/-- The branch of `planCRLImport` with a chain to import. -/
def planWithChain (caCert : Certificate) (stored : List RevocationList) (crlPEM : Blob) :
    Prog (List RevocationList × Bool) :=
  match decodeCRLChain crlPEM with
  | none => .fail .malformed
  | some [] => .fail .malformed
  | some (crl :: incoming) =>
    match orderCRLChain (crl :: incoming) caCert with
    | (ordered, _, true) => return (preferStored caCert stored ordered, true)
    | (ordered, _, false) =>
      match ownCRLIn stored caCert with
      | some ourCRL => return (ourCRL :: ordered, true)
      | none => do
        let ourCRL ← newEmptyCRL caCert crlValidity
        return (ourCRL :: ordered, true)

/-- `planCRLImport`, once it has read the stored chain. -/
def planOver (caCert : Certificate) (crlPEM : Option Blob) (stored : List RevocationList) :
    Prog (List RevocationList × Bool) :=
  match crlPEM with
  | none => planWithoutChain caCert stored
  | some crlPEM => planWithChain caCert stored crlPEM

/-- **`planCRLImport`**: what the stored chain should become, and whether that is a
change. -/
def planCRLImport (caCert : Certificate) (crlPEM : Option Blob) :
    Prog (List RevocationList × Bool) := do
  let stored ← storedCRLChain
  planOver caCert crlPEM stored

/-! ### The import -/

/-- The section of `importCAMaterial` under the CRL lock. -/
def writePlan (caCert : Certificate) (crlPEM : Option Blob) : Prog Unit := do
  let (plan, changed) ← planCRLImport caCert crlPEM
  doIf changed (ask (cmd (.updateCRL (encodeCRLChain plan))))

/-- **`importCAMaterial`**; `withKey` says that there is a private key to write. -/
def importCAMaterial (bundle : Option (List Certificate)) (withKey : Bool) (crlPEM : Option Blob)
    (signer : PublicKey) : Prog Unit := do
  let (caCert, certs) ← checkedBundle bundle signer
  -- `EnsureDirs`
  ask (cmd .saveOther)
  let _ ← planCRLImport caCert crlPEM
  doIf withKey (ask (cmd .saveOther))
  ask (cmd (.saveCACert certs))
  -- `savePubKeyPEM`
  ask (cmd .saveOther)
  withLock .crl (writePlan caCert crlPEM)
  let hasSerial ← ask (cmd .hasSerial)
  doIf (!hasSerial) (ask (cmd .writeSerial))
  -- `TouchInventory`
  ask (cmd .saveOther)

/-- The input of `ImportCACertificate`. -/
structure CertImport where
  bundle : Option (List Certificate)
  signer : PublicKey
  crlValidity : Duration := 30 * 24 * hour
  force : Bool := true
  deriving DecidableEq

/-- The list to carry across, where there is a certificate to replace. -/
def carriedCRL (cert : Certificate) (validity : Duration) (hasCert : Bool) : Prog (Option Blob) :=
  if hasCert then resignStoredCRL cert validity else return none

/-- The section of `ImportCACertificate` under the bootstrap lock. -/
def importLocked (i : CertImport) (cert : Certificate) : Prog Bool := do
  let hasCert ← ask (cmd .hasCACert)
  if hasCert ∧ ¬i.force then .fail .caCertExists
  else do
    let crlPEM ← carriedCRL cert i.crlValidity hasCert
    importCAMaterial i.bundle false crlPEM i.signer
    return hasCert

/-- **`ImportCACertificate`**: whether a certificate was replaced. -/
def importCACertificate (i : CertImport) : Prog Bool := do
  let (cert, _) ← checkedBundle i.bundle i.signer
  withLock .bootstrap (importLocked i cert)

/-! ### An import next to a serving cluster -/

/-- What a thread may be doing: an operation of a serving replica, or the import. -/
inductive ClusterJob
  | serve (j : Job)
  | importCert (i : CertImport)

/-- **The workload of a cluster** whose replicas have loaded `caCert`, with imports. -/
abbrev importing (caCert : Certificate) : Conc.Workload interface Tid where
  Job := ClusterJob
  Err := Failure
  Res := Result
  body := fun _ job => match job with
    | .serve j => operation { toConfig := j.config, caCert := caCert } j.op
    | .importCert i => do return .flag (← importCACertificate i)

/-- A cluster with imports, in the middle of a run. -/
abbrev ImportingCluster (caCert : Certificate) := Conc.Pool machine (importing caCert)

abbrev ImportingEvent (caCert : Certificate) := Conc.Label machine (importing caCert)

end OpenvoxCa.Ca
