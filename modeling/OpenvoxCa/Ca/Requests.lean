import OpenvoxCa.Ca.Serving

/-!
# Requests and generation

The programs of `SaveRequest`, `DeleteRequest` and `GenerateWithOptions`, with the reload of the
cache that a generation makes (`loadCRLCache`). They run beside the operations of `Op`, and on the
same cluster: a thread of `issuing` may be at any of either.

Two things are parameters of a task, because they depend on nothing that is modelled: what the
autosign policy says of a request, and the key that a generation comes up with, if it does and
the caller takes it.
-/

namespace OpenvoxCa.Ca

open Conc.Prog (ofExcept)

/-! ### Reloading the cache -/

/-- The list `loadCRLCache` picks: block 0, unless the newest list of ours stands further down
the chain, or is newer. A chain that does not decode keeps block 0. -/
def loadedCRL (cert : Certificate) (blob : Blob) : Except Failure RevocationList :=
  match blob.head?.bind PemBlock.crl with
  | none => .error .malformed
  | some crl =>
    match decodeCRLChain blob with
    | none => .ok crl
    | some chain =>
      match ownCRLIn chain cert with
      | none => .ok crl
      | some newest =>
        .ok (if 0 < chain.idxOf newest ∨ newerCRL newest crl then newest else crl)

def loadCRLCache (ca : CA) : Prog Unit := do
  let blob ← getCRL
  let crl ← ofExcept (loadedCRL ca.caCert blob)
  modifyMemory fun m => m.install crl

/-! ### Requests -/

/-- What a subject holds already, if anything. -/
def heldState (subject : Text) : Prog (Option DuplicateState) := do
  let present ← ask (cmd (.certExists subject))
  if present then do
    let held ← storedCertLocked subject
    let m ← cmd .getMemory
    return some (if revokedIn m held then .revoked else .signed)
  else do
    let pending ← ask (cmd (.csrExists subject))
    return if pending then some .requested else none

def checkDuplicateLocked (ca : CA) (subject : Text) : Prog Unit := do
  match ← heldState subject with
  | none => return ()
  | some state => if ca.allowDuplicateCerts then return () else .fail (.duplicateCert state)

/-- The body of `SaveRequest`: whether the request was signed at once. The verdict of
`CheckAutosign` is nothing where the check fails. -/
def saveRequestLocked (ca : CA) (subject : Text) (csrPEM : RequestBlob) (autosign : Option Bool) :
    Prog Bool := do
  checkDuplicateLocked ca subject
  ask (cmd (.saveCSR subject csrPEM))
  match autosign with
  | none => .fail .autosign
  | some false => return false
  | some true =>
    let _ ← signWithDuration ca subject 0
    return true

def saveRequest (ca : CA) (subject : Text) (csrPEM : RequestBlob) (autosign : Option Bool) :
    Prog Bool :=
  if validateSubject subject then
    match csrPEM.parsed with
    | none => .fail .malformed
    | some csr =>
      if ¬csr.signatureValid then .fail .malformed
      else if csr.subject.commonName ≠ subject then .fail .malformed
      else withLock (.subject subject) (withMutex (saveRequestLocked ca subject csrPEM autosign))
  else .fail .invalidSubject

/-- The body of `DeleteRequest`. -/
def deleteRequestLocked (subject : Text) : Prog Unit := do
  match ← cmd (.deleteCSR subject) with
  | .ok _ => return ()
  | .error .notExist => .fail .noCSR
  | .error e => .fail e

/-- `DeleteRequest`. It takes no mutex: a pending request backs no cache. -/
def deleteRequest (subject : Text) : Prog Unit :=
  if validateSubject subject then withLock (.subject subject) (deleteRequestLocked subject)
  else .fail .invalidSubject

/-! ### What a generation may be asked for -/

/-- `AuthGrant`: one constructor makes a value, and Go has the zero value besides. -/
inductive AuthGrant
  | zero
  | ppCliAuth
  deriving DecidableEq, Repr

def oidPpCliAuth : List ℕ := puppetAuthOIDArc ++ [39]

/-- `AuthGrant.extension`: the value is a UTF8String. -/
def AuthGrant.extension : AuthGrant → Option Extension
  | .zero => none
  | .ppCliAuth =>
    some { id := oidPpCliAuth, value := 0x0c :: 4 :: ['t', 'r', 'u', 'e'].map Char.toNat }

/-- The loop of `authGrantExtensions`: no grant may be made twice. -/
def authGrantExtensionsFrom (exts : List Extension) : List AuthGrant → Option (List Extension)
  | [] => some exts
  | g :: grants =>
    match g.extension with
    | none => none
    | some ext =>
      if exts.any fun e => e.id = ext.id then none
      else authGrantExtensionsFrom (exts ++ [ext]) grants

def authGrantExtensions (grants : List AuthGrant) : Option (List Extension) :=
  authGrantExtensionsFrom [] grants

/-- The characters of a host name, apart from the hyphen. -/
def hostChar (c : Char) : Bool := ('a' ≤ c && c ≤ 'z') || ('0' ≤ c && c ≤ '9')

/-- A label of a host name: a hyphen neither begins nor ends it. -/
def hostLabel (label : Text) : Bool :=
  label.head?.any hostChar && label.getLast?.any hostChar &&
    label.all fun c => hostChar c || c == '-'

/-- `dnsNameRegex`. -/
def hostName (name : Text) : Bool := (name.splitOn '.').all hostLabel

def maxDNSAltNames : ℕ := 100

def maxDNSNameLen : ℕ := 253

def validateDNSAltNames (names : List Text) : Bool :=
  decide (names.length ≤ maxDNSAltNames) &&
    names.all fun name => decide (name.length ≤ maxDNSNameLen) && hostName name

/-- `GenerateOptions`; `EmitKey` is part of whether there is a key. -/
structure GenerateOptions where
  dnsAltNames : List Text := []
  authGrants : List AuthGrant := []
  ttl : Duration := 0
  replaceExisting : Bool := false
  retainPrivateKeyInStorage : Bool := false
  deriving DecidableEq, Repr

/-- `GenerateResult`, without the key. -/
structure GenerateResult where
  certificate : CertBlob
  replaced : Bool
  deriving DecidableEq, Repr

/-- The DNS names of a generated certificate. -/
def generatedDNSNames (ca : CA) (subject : Text) (opts : GenerateOptions) : List Text :=
  if ca.promoteCNToSAN ∧ opts.dnsAltNames = [] then [subject] else opts.dnsAltNames

/-! ### Generation -/

def storedCertSerialLocked (subject : Text) : Prog Text := storedCertSerial subject

/-- The read phase of `GenerateWithOptions`: the serial to revoke, if a certificate is to be
replaced. The cache is reloaded where there is a certificate at all. -/
def replacedSerial (ca : CA) (subject : Text) (replaceExisting : Bool) : Prog (Option Text) := do
  let present ← hasCert subject
  if ¬present then return none
  else do
    loadCRLCache ca
    if ¬replaceExisting then return none
    else do
      let serial ← storedCertSerialLocked subject
      return some serial

/-- The revoke phase. -/
def revokeReplaced (ca : CA) : Option Text → Prog Unit
  | none => return ()
  | some serial => withLock .crl (withMutex (revokeSerialLocked ca serial))

/-- The reload before the issue phase, where a certificate is being replaced. -/
def reloadReplaced (ca : CA) : Option Text → Prog Unit
  | none => return ()
  | some _ => loadCRLCache ca

/-- `SavePrivateKey`, if it is asked for: the certificate is deleted where it fails. -/
def retainPrivateKey (subject : Text) (retain : Bool) : Prog Unit :=
  if retain then do
    match ← cmd .saveOther with
    | .ok _ => return ()
    | .error e =>
      let _ ← cmd (.deleteCert subject)
      .fail e
  else return ()

/-- The issue phase. -/
def generateLocked (ca : CA) (subject : Text) (opts : GenerateOptions) (exts : List Extension)
    (key : PublicKey) (replacing : Option Text) : Prog CertBlob := do
  reloadReplaced ca replacing
  evictRevokedLocked subject
  let certPEM ← issueLeafLocked ca subject { commonName := subject } key
    { dnsNames := generatedDNSNames ca subject opts } exts [] opts.ttl
  retainPrivateKey subject opts.retainPrivateKeyInStorage
  let pending ← hasCSR subject
  doIf pending (cleanCSR subject)
  return certPEM

/-- The body of `GenerateWithOptions`, under the lock of the subject. -/
def generateUnderLock (ca : CA) (subject : Text) (opts : GenerateOptions) (exts : List Extension)
    (key : PublicKey) : Prog GenerateResult := do
  let replacing ← withMutex (replacedSerial ca subject opts.replaceExisting)
  revokeReplaced ca replacing
  let certPEM ← withMutex (generateLocked ca subject opts exts key replacing)
  return { certificate := certPEM, replaced := replacing.isSome }

def reservedKeySubject : Text := ['c', 'a']

def generateWithOptions (ca : CA) (subject : Text) (opts : GenerateOptions)
    (key : Option PublicKey) : Prog GenerateResult :=
  if ¬validateSubject subject then .fail .invalidSubject
  else if subject = reservedKeySubject then .fail .reservedSubject
  else if ¬validateDNSAltNames opts.dnsAltNames then .fail .invalidDNSAltNames
  else match authGrantExtensions opts.authGrants, key with
    | none, _ => .fail .invalidAuthGrant
    | some _, none => .fail .keyGeneration
    | some exts, some key => withLock (.subject subject)
      (generateUnderLock ca subject opts exts key)

/-! ### The workload -/

/-- **The tasks of an issuing cluster.** -/
inductive Task
  /-- An operation of a serving CA. -/
  | serve (op : Op)
  | saveRequest (subject : Text) (csrPEM : RequestBlob) (autosign : Option Bool)
  | deleteRequest (subject : Text)
  | generate (subject : Text) (opts : GenerateOptions) (key : Option PublicKey)
  deriving DecidableEq

inductive TaskResult
  | served (r : Result)
  | flag (b : Bool)
  | done
  | generated (r : GenerateResult)
  deriving DecidableEq, Repr

def taskProgram (ca : CA) : Task → Prog TaskResult
  | .serve op => do return .served (← operation ca op)
  | .saveRequest subject csrPEM autosign => do
    return .flag (← saveRequest ca subject csrPEM autosign)
  | .deleteRequest subject => do deleteRequest subject; return .done
  | .generate subject opts key => do
    return .generated (← generateWithOptions ca subject opts key)

/-- A task, and the settings it runs under. -/
structure TaskJob where
  task : Task
  config : Config := {}
  deriving DecidableEq

/-- **The workload of an issuing cluster** with CA certificate `caCert`. -/
abbrev issuing (caCert : Certificate) : Conc.Workload interface Conc.Tid where
  Job := TaskJob
  Err := Failure
  Res := TaskResult
  body := fun _ j => taskProgram { toConfig := j.config, caCert := caCert } j.task

/-- An issuing cluster in the middle of a run. -/
abbrev IssuingCluster (caCert : Certificate) := Conc.Pool machine (issuing caCert)

abbrev IssuingEvent (caCert : Certificate) := Conc.Label machine (issuing caCert)

/-- The job that a task is, as far as the CRL lock is concerned: a task that serves nothing
leaves the list of superseded certificates alone, as a re-signing does. -/
def TaskJob.job (j : TaskJob) : Job where
  op := match j.task with
    | .serve op => op
    | _ => .reissueCRL
  config := j.config

end OpenvoxCa.Ca
