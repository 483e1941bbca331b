import OpenvoxCa.Ca.System

/-!
# Reading, re-signing and caching the CRL

The programs of `crl.go`, `crlchain.go`, `crlchainfile.go` and `crlsync.go`: how a
writer reads the stored chain, signs a successor of this CA's own list, gathers the
ancestors' lists to publish with it and writes the chain back, and how a replica
brings its cached copy up to date.

Every writer of the serving CA is `readStoredCRL` followed, if there is something to change, by one
`signCRLLocked`, all of it under the cluster CRL lock. Counters and log lines are left out; so is
the argument of `upstreamCRLs` that only selects which of them to emit.
-/

namespace OpenvoxCa.Ca

open Conc.Prog (ofExcept)

/-- The settings of a server that the modelled operations read. -/
structure Config where
  /-- Whether `crl_chain_file` names a file. -/
  crlChainFile : Bool := false
  crlValidityDays : ℕ := 0
  leafValidityDays : ℕ := 0
  leafBackdate : Duration := 0
  crlURLs : List Text := []
  ocspURLs : List Text := []
  allowSubjectAltNames : Bool := false
  promoteCNToSAN : Bool := false
  revokeOnAutoRenew : Bool := false
  supersedeAfter : Duration := 0
  allowDuplicateCerts : Bool := false
  deriving DecidableEq, Repr

/-- **A serving CA**: its settings and the certificate it loaded. Its key is that
certificate's, which `loadCA` checks. -/
structure CA extends Config where
  caCert : Certificate

/-- `CRLValidityDuration`; the default is thirty days. -/
def CA.crlValidityDuration (ca : CA) : Duration :=
  if 0 < ca.crlValidityDays then ca.crlValidityDays * 24 * hour else 30 * 24 * hour

def CA.ownsCRL (ca : CA) (crl : RevocationList) : Bool := crlSignedBy ca.caCert crl

/-! ### Locks -/

/-- A command whose answer may be an error, as a program that fails with it. -/
def ask {α : Type} (p : Prog (Except Failure α)) : Prog α := p.bind ofExcept

/-- `Storage.WithLock`: the lock is released however the body ends. -/
def withLock {α : Type} (n : LockName) (body : Prog α) : Prog α := do
  ask (cmd (.lock n))
  body.ensure (cmd (.unlock n))

/-- `c.mu.Lock()` with a deferred `c.mu.Unlock()`. -/
def withMutex {α : Type} (body : Prog α) : Prog α := do
  cmd .lockMutex
  body.ensure (cmd .unlockMutex)

/-! ### The cache -/

/-- `evictOCSPLocked`. -/
def Memory.evictOCSP (m : Memory) (serial : Text) : Memory :=
  { m with ocspCache := m.ocspCache.filter fun key => key.1 ≠ serial }

/-- The serials `next` revokes and `previous` did not, as
`invalidateOCSPForNewlyRevokedLocked` finds them. -/
def newlyRevoked (previous : Option RevocationList) (next : RevocationList) : List Text :=
  let was := (previous.map RevocationList.serials).getD [] |>.map serialHexStr
  next.serials.map serialHexStr |>.filter fun key => !was.contains key

/-- `installCachedCRLLocked`. -/
def Memory.install (m : Memory) (next : RevocationList) : Memory :=
  (newlyRevoked m.cachedCRL next).foldl Memory.evictOCSP { m with cachedCRL := some next }

/-- Replace the memory of the replica by a function of what it is. -/
def modifyMemory (f : Memory → Memory) : Prog Unit := do
  let m ← cmd .getMemory
  cmd (.setMemory (f m))

/-! ### Reading the stored chain -/

def getCRL : Prog Blob := ask (cmd .getCRL)

def readStoredCRL (ca : CA) : Prog StoredCRL := do
  let blob ← getCRL
  ofExcept (parseStored ca.caCert blob)

def bundleCertificates : Prog (List Certificate) := do
  match ← ask (cmd .getCACert) with
  | some certs => return certs
  | none => .fail .malformed

/-- `upstreamCRLs`: the lists the operator's file states, or nothing where it states
none because it is not configured or not there. -/
def upstreamCRLs (ca : CA) (storedBlob : Blob) : Prog (Option (List RevocationList)) :=
  if ca.crlChainFile then do
    match ← cmd .readChainFile with
    | .absent => return none
    | .fault => .fail .chainFileFault
    | .data file =>
      let parsed ← ofExcept (decodeCRLChainStrict file)
      let issuers ← bundleCertificates
      match monotonicUpstream ca.caCert issuers storedBlob
          (verifiedUpstream ca.caCert issuers parsed) with
      | some upstream => return some upstream
      | none => .fail .malformed
  else return none

/-- `crlChainLocked`: our list, then what the file states, or else every block of the
stored chain that is not ours. -/
def crlChainLocked (ca : CA) (ourCRL : RevocationList) (storedBlob : Blob) : Prog Blob := do
  match ← upstreamCRLs ca storedBlob with
  | some upstream => return encodeCRLChain (ourCRL :: upstream)
  | none =>
    match decodeCRLChain storedBlob with
    | none => .fail .malformed
    | some stored =>
      return encodeCRLChain (ourCRL :: stored.filter fun crl => !ca.ownsCRL crl)

/-! ### Re-signing -/

/-- The number that follows that of `own`, or the first. -/
def nextNumber (own : RevocationList) : ℤ :=
  match own.number with
  | some n => n + 1
  | none => 1

/-- The list `signCRLLocked` has signed. -/
def CA.crlTemplate (ca : CA) (number : ℤ) (revoked : List RevocationEntry) (now : Time) :
    RevocationList :=
  { number := some number
    entries := revoked
    thisUpdate := now
    nextUpdate := now + ca.crlValidityDuration
    issuer := ca.caCert.subject
    signedBy := ca.caCert.publicKey }

/-- **`signCRLLocked`**: sign a list with the given entries that succeeds `prev.own`,
write the chain led by it, and cache it. -/
def signCRLLocked (ca : CA) (prev : StoredCRL) (revoked : List RevocationEntry) : Prog Unit := do
  let now ← cmd .now
  let parsed ← ask (cmd (.createRevocationList
    (ca.crlTemplate (nextNumber prev.own) revoked now)))
  let chain ← crlChainLocked ca parsed prev.blob
  ask (cmd (.updateCRL chain))
  modifyMemory fun m => m.install parsed

def reissueCRLLocked (ca : CA) : Prog Unit := do
  let stored ← readStoredCRL ca
  signCRLLocked ca stored stored.own.entries

def reissueCRL (ca : CA) : Prog Unit := withLock .crl (withMutex (reissueCRLLocked ca))

/-- The branch of `RefreshCRLIfDue` that adopts a list another replica signed. -/
def adoptCRL (m : Memory) (own : RevocationList) : Memory :=
  match own.number, m.cachedCRL.bind RevocationList.number with
  | some n, some cached => if cached < n then m.install own else m
  | some _, none => m.install own
  | none, _ => m

/-- The body of `RefreshCRLIfDue`: whether it re-signed. -/
def refreshCRLLocked (ca : CA) (refreshBefore : Duration) : Prog Bool := do
  let stored ← readStoredCRL ca
  let now ← cmd .now
  if refreshBefore < stored.own.nextUpdate - now then
    modifyMemory fun m => adoptCRL m stored.own
    return false
  else
    signCRLLocked ca stored stored.own.entries
    return true

def refreshCRLIfDue (ca : CA) (refreshBefore : Duration) : Prog Bool :=
  withLock .crl (withMutex (refreshCRLLocked ca refreshBefore))

/-- The body of `RefreshCRLChainFile`: re-sign when the file states other lists than
the chain carries. -/
def refreshCRLChainLocked (ca : CA) : Prog Bool := do
  let current ← getCRL
  match ← upstreamCRLs ca current with
  | none => return false
  | some wanted =>
    match publishedUpstream ca.caCert current with
    | none => .fail .malformed
    | some storedUpstream =>
      if storedUpstream = wanted then return false
      else do
        reissueCRLLocked ca
        return true

def refreshCRLChainFile (ca : CA) : Prog Bool :=
  if ca.crlChainFile then withLock .crl (withMutex (refreshCRLChainLocked ca)) else return false

/-! ### Bringing the cache up to date -/

/-- What `SyncCRLCache` does with the own list of the blob it read: nothing if it is
the cached one, or if the cached one is ours and not older. -/
def syncMemory (ca : CA) (ours : RevocationList) (m : Memory) : Memory :=
  match m.cachedCRL with
  | none => m.install ours
  | some cached =>
    if cached = ours then m
    else if ca.ownsCRL cached && !newerCRL ours cached then m
    else m.install ours

/-- `SyncCRLCache`: whether the cached list changed. -/
def syncCRLCache (ca : CA) : Prog Bool := do
  let blob ← getCRL
  withMutex do
    match selectOwnCRL ca.caCert blob with
    | none => .fail .malformed
    | some none => .fail .foreignStoredCRL
    | some (some ours) =>
      let m ← cmd .getMemory
      cmd (.setMemory (syncMemory ca ours m))
      return decide (syncMemory ca ours m ≠ m)

/-- `IsRevokedSerial`: what the cached list says. -/
def isRevokedSerial (serial : ℤ) : Prog Bool := do
  let m ← cmd .getMemory
  match m.cachedCRL with
  | none => .fail .crlNotLoaded
  | some crl => return serialInCRL crl serial

end OpenvoxCa.Ca
