import OpenvoxCa.Ca.Crl
import Mathlib.Data.List.Sort

/-!
# Revocation, supersession and cleanup

The programs of `revoke.go`, `supersede.go` and `cleanup.go`: the operations that
put serials on the CRL, by subject, by serial or from the list of superseded
certificates, and the one that takes them off once their certificates have expired.

Where the source returns a count *and* an error, the program returns the pair: the
count is worth something even when the operation failed.
-/

namespace OpenvoxCa.Ca

open Conc.Prog (ofExcept)

/-! ### Revoking one serial -/

/-- **`revokeSerialLocked`**: list a serial unless it is listed already. -/
def revokeSerialLocked (ca : CA) (serialStr : Text) : Prog Unit :=
  match setString16 serialStr with
  | none => .fail .malformedSerial
  | some serial => do
    let stored ← readStoredCRL ca
    if serialInCRL stored.own serial then return ()
    else do
      let now ← cmd .now
      signCRLLocked ca stored
        (stored.own.entries ++ [{ serialNumber := serial, revocationTime := now }])
      modifyMemory fun m => m.evictOCSP (serialHexStr serial)

def storedCertSerial (subject : Text) : Prog Text := do
  let blob ← ask (cmd (.getCert subject))
  match blob.parsed with
  | some cert => return serialHexStr cert.serialNumber
  | none => .fail .malformed

/-- `revokeSerialCheckedLocked`: the serial of the certificate in use is revoked only
if forced, and so is one that cannot be told apart from it. -/
def revokeSerialCheckedLocked (ca : CA) (serial : Text) (force : Bool) : Prog Unit := do
  match ← (ask (cmd (.subjectForSerial serial))).attempt with
  | .error .notExist => .fail .serialUnknown
  | .error e => .fail e
  | .ok subject =>
    match ← (storedCertSerial subject).attempt with
    | .error .notExist => revokeSerialLocked ca serial
    | .error _ => if force then revokeSerialLocked ca serial else .fail .serialStateUnknown
    | .ok live =>
      if live = serial ∧ ¬force then .fail .serialIsCurrent else revokeSerialLocked ca serial

def revokeSerial (ca : CA) (serial : Text) (force : Bool) : Prog Unit :=
  match normaliseSerial serial with
  | none => .fail .malformedSerial
  | some normalised =>
    withLock .crl (withMutex (revokeSerialCheckedLocked ca normalised force))

/-! ### The list of superseded certificates -/

/-- `loadSuperseded`: a list that is not there is empty. -/
def loadSuperseded : Prog SupersededBlob := do
  match ← cmd .getSuperseded with
  | .ok data => return data
  | .error .notExist => return {}
  | .error _ => .fail .storage

/-- `readSuperseded`: the entries recovered, and whether the list was corrupt. -/
def readSuperseded : Prog (List SupersededEntry × Bool) := do
  let data ← loadSuperseded
  return (data.entries, data.corrupt)

def writeSuperseded (entries : List SupersededEntry) : Prog Unit :=
  ask (cmd (.saveSuperseded { entries := entries }))

/-- `recordSuperseded`: put a serial on the list, to be revoked after a while. -/
def recordSuperseded (subject serial : Text) (after : Duration) : Prog Unit :=
  match normaliseSerial serial with
  | none => .fail .malformedSerial
  | some canonical => do
    let now ← cmd .now
    withLock .crl do
      let (entries, _) ← readSuperseded
      writeSuperseded
        (entries ++ [{ serial := canonical, subject := subject, revokeAt := now + after }])

/-- `supersedeReplacedAfter`: retire a replaced certificate at once, or after a
while. -/
def supersedeReplacedAfter (ca : CA) (subject oldSerial : Text) (after : Duration) : Prog Unit :=
  if after ≤ 0 then withLock .crl (withMutex (revokeSerialLocked ca oldSerial))
  else recordSuperseded subject oldSerial after

def supersedeReplaced (ca : CA) (subject oldSerial : Text) : Prog Unit :=
  supersedeReplacedAfter ca subject oldSerial ca.supersedeAfter

/-! ### Retiring the superseded certificates of a subject -/

/-- The loop of `retireSupersededForSubjectLocked`: revoke each entry, and collect
those that could not be. -/
def retireEach (ca : CA) : List SupersededEntry → Prog (List SupersededEntry)
  | [] => return []
  | e :: rest => do
    let r ← (revokeSerialLocked ca e.serial).attempt
    let failed ← retireEach ca rest
    match r with
    | .ok _ => return failed
    | .error _ => return e :: failed

/-- `retireSupersededForSubjectLocked`. It never fails: what it could not do is left
to the sweep. -/
def retireSupersededForSubjectLocked (ca : CA) (subject : Text) : Prog Unit := do
  match ← readSuperseded.attempt with
  | .error _ => return ()
  | .ok (entries, _) =>
    let mine := entries.filter fun e => e.subject = subject
    let others := entries.filter fun e => e.subject ≠ subject
    if mine = [] then return ()
    else do
      let failed ← retireEach ca mine
      let _ ← (writeSuperseded (others ++ failed)).attempt
      return ()

/-- `revokeLocked`: the subject's superseded certificates, then its newest one. -/
def revokeLocked (ca : CA) (subject : Text) : Prog Unit := do
  retireSupersededForSubjectLocked ca subject
  match ← (ask (cmd (.latestSerialForSubject subject))).attempt with
  | .error .notExist => .fail .subjectUnknown
  | .error e => .fail e
  | .ok serial => revokeSerialLocked ca serial

/-- The characters a subject may start with, and those that may follow. -/
def subjectChar (first : Bool) (c : Char) : Bool :=
  ('a' ≤ c && c ≤ 'z') || ('0' ≤ c && c ≤ '9') || c == '_' || c == '.' || (!first && c == '-')

/-- Two dots in a row. -/
def hasDotDot : Text → Bool
  | '.' :: '.' :: _ => true
  | _ :: rest => hasDotDot rest
  | [] => false

def validateSubject (subject : Text) : Bool :=
  match subject with
  | [] => false
  | c :: rest => subject ≠ ['.'] && subjectChar true c && rest.all (subjectChar false) &&
      !hasDotDot subject

/-- `Revoke`: by subject. -/
def revoke (ca : CA) (subject : Text) : Prog Unit :=
  if validateSubject subject then
    withLock (.subject subject) (withLock .crl (withMutex (revokeLocked ca subject)))
  else .fail .invalidSubject

/-! ### The sweep -/

/-- The state of the loop of `appendCRLEntriesLocked`. -/
structure AppendAcc where
  /-- The times of the serials listed so far, by their text. -/
  listed : List (Text × Time)
  /-- The times of the serials asked for. -/
  revokedAt : List (Text × Time) := []
  revoked : List RevocationEntry

/-- One round of the loop: a serial that is listed already, also by this very loop, is
not listed again. -/
def appendStep (now : Time) (acc : AppendAcc) (n : ℤ) : AppendAcc :=
  let key := serialHexStr n
  match acc.listed.lookup key with
  | some time => { acc with revokedAt := (key, time) :: acc.revokedAt }
  | none =>
    { listed := (key, now) :: acc.listed
      revokedAt := (key, now) :: acc.revokedAt
      revoked := acc.revoked ++ [{ serialNumber := n, revocationTime := now }] }

/-- The loop, from the entries of the stored list. -/
def appendEntries (now : Time) (own : RevocationList) (add : List ℤ) : AppendAcc :=
  add.foldl (appendStep now)
    { listed := (own.entries.map fun e => (serialHexStr e.serialNumber, e.revocationTime)).reverse
      revoked := own.entries }

/-- **`appendCRLEntriesLocked`**: list several serials in one write, or none where all
are listed already. -/
def appendCRLEntriesLocked (ca : CA) (add : List ℤ) : Prog (List (Text × Time)) := do
  let stored ← readStoredCRL ca
  let now ← cmd .now
  let acc := appendEntries now stored.own add
  if acc.revoked.length = stored.own.entries.length then return acc.revokedAt
  else do
    signCRLLocked ca stored acc.revoked
    return acc.revokedAt

/-- `drainOutcome`. The source's `deferred` is declared and never filled. -/
structure DrainOutcome where
  revoked : ℕ := 0
  failed : List SupersededEntry := []
  deferred : List SupersededEntry := []
  discarded : ℕ := 0
  deriving DecidableEq, Repr

/-- The number of a superseded entry, by way of its canonical text. -/
def dueNumber (e : SupersededEntry) : Option ℤ := (normaliseSerial e.serial).bind setString16

/-- **`drainDueLocked`**: revoke all due entries in one write; those whose serial is
not a number are discarded, and if the write fails all others are kept. -/
def drainDueLocked (ca : CA) (due : List SupersededEntry) : Prog DrainOutcome :=
  let batch := due.filter fun e => (dueNumber e).isSome
  let discarded := (due.filter fun e => (dueNumber e).isNone).length
  if batch = [] then return { discarded := discarded }
  else do
    match ← (appendCRLEntriesLocked ca (batch.filterMap dueNumber)).attempt with
    | .error _ => return { failed := batch, discarded := discarded }
    | .ok _ => return { revoked := batch.length, discarded := discarded }

/-- The order in which the sweep takes due entries. -/
def sortDue (due : List SupersededEntry) : List SupersededEntry :=
  due.insertionSort fun a b => a.revokeAt ≤ b.revokeAt

/-- The body of `ReconcileSuperseded`. -/
def sweepLocked (ca : CA) : Prog (ℕ × Option Failure) := do
  let (entries, corrupt) ← readSuperseded
  if entries = [] then
    if corrupt then do
      writeSuperseded []
      return (0, none)
    else return (0, none)
  else do
    let now ← cmd .now
    let pending := entries.filter fun e => now < e.revokeAt
    let due := entries.filter fun e => ¬now < e.revokeAt
    if due = [] ∧ ¬corrupt then return (0, none)
    else do
      let outcome ← withMutex (drainDueLocked ca (sortDue due))
      match ← (writeSuperseded (pending ++ outcome.failed ++ outcome.deferred)).attempt with
      | .ok _ => return (outcome.revoked, none)
      | .error e => return (outcome.revoked, some e)

/-- Turn a failure into the error half of a pair. -/
def withError {α : Type} (zero : α) (p : Prog (α × Option Failure)) :
    Prog (α × Option Failure) := do
  match ← p.attempt with
  | .ok r => return r
  | .error e => return (zero, some e)

/-- `ReconcileSuperseded`: nothing to do where the list is readable and empty. -/
def reconcileSuperseded (ca : CA) : Prog (ℕ × Option Failure) := do
  match ← loadSuperseded.attempt with
  | .ok { entries := [], corrupt := false } => return (0, none)
  | _ => withError 0 (withLock .crl (sweepLocked ca))

/-! ### Cleanup -/

/-- The entries `CleanupExpiredCerts` keeps: those that have not expired by `cutoff`,
and those whose expiry does not parse. -/
def keepEntry (cutoff : Time) (e : InventoryEntry) : Bool :=
  match e.notAfter with
  | none => true
  | some notAfter => !decide (notAfter < cutoff)

/-- `unindexSerialLocked`. -/
def Memory.unindex (m : Memory) (serial : Text) : Memory :=
  { m with serialIndex := m.serialIndex.filter fun e => e.1 ≠ serial }.evictOCSP serial

/-- `dropCRLEntriesLocked`: take serials off the list, if any of them is on it. -/
def dropCRLEntriesLocked (ca : CA) (removed : List Text) : Prog Unit := do
  let stored ← readStoredCRL ca
  let kept := stored.own.entries.filter fun e => !removed.contains (serialHexStr e.serialNumber)
  if kept.length = stored.own.entries.length then return ()
  else signCRLLocked ca stored kept

def deleteStoredCertIfSerialMatches (subject expectSerial : Text) : Prog Unit := do
  match ← cmd (.getCert subject) with
  | .error _ => return ()
  | .ok blob =>
    match blob.parsed, setString16 expectSerial with
    | some cert, some want =>
      if serialHexStr cert.serialNumber = serialHexStr want then do
        let _ ← cmd (.deleteCert subject)
        return ()
      else return ()
    | _, _ => return ()

/-- The loop over the pruned entries. -/
def deleteStoredCerts : List InventoryEntry → Prog Unit
  | [] => return ()
  | e :: rest => do
    deleteStoredCertIfSerialMatches e.subject e.serial
    deleteStoredCerts rest

/-- The error of an outcome, if it is one. -/
def errorOf {α : Type} : Except Failure α → Option Failure
  | .ok _ => none
  | .error e => some e

/-- The body of `CleanupExpiredCerts`. -/
def cleanupLocked (ca : CA) (cutoff : Time) : Prog (ℕ × Option Failure) := do
  let (dropped, pruneErr) ← cmd (.pruneInventory (keepEntry cutoff))
  if dropped = [] then return (0, pruneErr)
  else do
    let removed := (entrySerials dropped).map serialHexStr
    modifyMemory fun m => removed.foldl Memory.unindex m
    let r ← (dropCRLEntriesLocked ca removed).attempt
    deleteStoredCerts dropped
    return (dropped.length, pruneErr.or (errorOf r))

def cleanupExpiredCerts (ca : CA) (retain : Duration) : Prog (ℕ × Option Failure) := do
  let now ← cmd .now
  withError 0 (withLock .crl (withMutex (cleanupLocked ca (now - max retain 0))))

end OpenvoxCa.Ca
