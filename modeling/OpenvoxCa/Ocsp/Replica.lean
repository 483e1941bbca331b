import OpenvoxCa.Ca.Crl
import OpenvoxCa.Conc.Discipline
import OpenvoxCa.Ocsp.Responder

/-!
# One replica and its OCSP responder

The threads of one replica, over its memory and the storage it shares with its peers. A thread
answers an OCSP request (`answerOCSP`), revokes, issues or prunes, installs the CRL that another
replica has stored, or reconciles the serial index (`syncSerialIndex`); and the peers append to the
inventory, prune it and replace the stored CRL as they like.

The mutex `c.mu` is what makes the sections of these programs atomic. A section that only touches
the memory is one command; where storage is accessed while the mutex is held, it is taken and
released by commands of its own. Signing an answer, reading the inventory and reading the CRL to
synchronise with happen without it. Of the stored CRL chain there is this CA's own list, and of a
stored certificate there is its inventory entry.

Some components of the state are history and steer nothing: which cached answers an installed CRL
has overtaken, what each thread has found in the cache or stored there, which serials were issued
here, and for each thread what it last read and what was pruned since.
-/

namespace OpenvoxCa.Ocsp

open Ca (Time Duration RevocationList RevocationEntry InventoryEntry CA)

open Conc

/-! ### Requests -/

/-- **An OCSP request**, as it parses. -/
structure Request where
  serialNumber : ℤ
  hashAlgorithm : Hash
  /-- Whether the program can compute the hash. -/
  available : Bool := true
  /-- The issuer whose name and key the `CertID` has the hashes of. -/
  issuerName : Ca.Name
  issuerKey : Ca.PublicKey
  nonce : Option (List ℕ) := none
  deriving DecidableEq, Repr

def maxNonceLen : ℕ := 34

/-- The nonce that the response echoes: one that is too long is ignored. -/
def Request.echoed (req : Request) : Option (List ℕ) :=
  req.nonce.filter fun value => value.length ≤ maxNonceLen

/-- The key under which the answer is cached. -/
def Request.cacheKey (req : Request) : CacheKey :=
  ⟨serialHexStr req.serialNumber, req.hashAlgorithm⟩

def checkOCSPIssuer (req : Request) (issuer : Ca.Certificate) : Except Failure Unit :=
  if ¬req.available then .error .hashUnavailable
  else if req.issuerName = issuer.subject ∧ req.issuerKey = issuer.publicKey then .ok ()
  else .error .notAuthoritative

/-- The response that `AnswerOCSP` has signed. -/
def Request.template (req : Request) (status : Status) (now : Time) : Response where
  serialNumber := req.serialNumber
  issuerHash := req.hashAlgorithm
  status := status
  thisUpdate := now
  nextUpdate := if status = .unknown then none else some (now + ocspValidity)
  nonce := req.echoed

structure OCSPAnswer where
  der : Response
  /-- For how long a cache may reuse it; zero forbids that. -/
  maxAge : Duration
  deriving DecidableEq, Repr

/-! ### State and commands -/

/-- **The state of a replica** and of the storage it uses. -/
structure State where
  memory : Responder := {}
  inventory : List InventoryEntry := []
  /-- The stored CRL of this CA. -/
  crl : Option RevocationList := none
  /-- Who holds `c.mu` for writing. -/
  mutex : Option ℕ := none
  /-- The keys of the serials that an installed CRL has dropped since an answer was last stored. -/
  overtaken : List CacheKey := []
  /-- What the request each thread is answering has found in the cache or stored there. -/
  touched : ℕ → Option (CacheKey × Response) := fun _ => none
  /-- The serials issued here that have been in the inventory ever since and were not pruned
  here. -/
  issued : List Text := []
  /-- The counters each thread has sampled last. -/
  sampled : ℕ → ℕ × ℕ := fun _ => (0, 0)
  /-- The inventory each thread has read last. -/
  lastRead : ℕ → List InventoryEntry := fun _ => []
  /-- The serials pruned here since each thread last read the inventory. -/
  prunedSince : ℕ → List Text := fun _ => []

/-- What the read-locked section of `AnswerOCSP` finds. -/
inductive Look
  /-- A cached answer, and how long it is still valid. -/
  | hit (entry : CacheEntry) (left : Duration)
  /-- None: whether the serial is known, and the CRL to decide by. -/
  | miss (known : Bool) (crl : Option RevocationList)
  deriving DecidableEq, Repr

inductive Cmd
  | lock
  | unlock
  /-- The read-locked section of `AnswerOCSP`; a request with a nonce does not use the cache. -/
  | look (key : CacheKey) (useCache : Bool)
  | now
  /-- `ctx.Err()`. -/
  | checkContext
  | acquireSigningSlotOrShed
  | createResponse (template : Response)
  /-- The cache write of `AnswerOCSP`. -/
  | remember (key : CacheKey) (der : Response) (now : Time)
  /-- The read-locked section of `SyncSerialIndex`. -/
  | readEpochs
  | inventoryEntries
  /-- The write-locked section of `SyncSerialIndex`. -/
  | reconcile (stored : SerialIndex) (readEpoch readRemovalEpoch : ℕ)
  | getCRL
  | updateCRL (crl : RevocationList)
  /-- `x509.CreateRevocationList`, with the signing slot it waits for. -/
  | createRevocationList (template : RevocationList)
  | cachedCRL
  | install (next : RevocationList)
  | evictOCSP (serial : Text)
  | indexSerial (serial subject : Text)
  | unindexSerial (serial : Text)
  | appendInventory (entry : InventoryEntry)
  | pruneInventory (keep : InventoryEntry → Bool)

@[reducible] def Cmd.Ans : Cmd → Type
  | .lock => Unit
  | .unlock => Unit
  | .look _ _ => Look
  | .now => Time
  | .checkContext => Except Failure Unit
  | .acquireSigningSlotOrShed => Except Failure Unit
  | .createResponse _ => Except Failure Response
  | .remember _ _ _ => Bool
  | .readEpochs => ℕ × ℕ
  | .inventoryEntries => Except Failure (List InventoryEntry)
  | .reconcile _ _ _ => Responder.SerialIndexDelta
  | .getCRL => Except Failure RevocationList
  | .updateCRL _ => Except Failure Unit
  | .createRevocationList _ => Except Failure RevocationList
  | .cachedCRL => Option RevocationList
  | .install _ => Unit
  | .evictOCSP _ => Unit
  | .indexSerial _ _ => Unit
  | .unindexSerial _ => Unit
  | .appendInventory _ => Except Failure Unit
  | .pruneInventory _ => List InventoryEntry × Option Failure

/-- The interface of a replica's programs. -/
abbrev interface : Interface := ⟨Cmd, Cmd.Ans⟩

abbrev Prog := Conc.Prog interface Failure

def cmd (c : Cmd) : Prog c.Ans := Conc.Prog.cmd (I := interface) c

/-- **What the environment chooses** when a command is executed. -/
structure Choice where
  /-- The error the command reports, if it can report one. -/
  error : Option Failure := none
  /-- What the clock says, and what it says when it is read again. -/
  time : Time := 0
  later : Time := 0
  /-- What tells signatures apart. -/
  number : ℕ := 0
  /-- Which of the rejected entries a prune gets to remove, by their positions. -/
  removes : ℕ → Bool := fun _ => true

/-! ### Execution -/

/-- The answer of a command that may fail. -/
def answer {α : Type} (ch : Choice) (a : α) : Except Failure α :=
  match ch.error with
  | some e => .error e
  | none => .ok a

/-- The effect of a command that may fail. -/
def effect (ch : Choice) (s s' : State) : State := if ch.error.isSome then s else s'

namespace State

/-- Thread `t` finds an answer in the cache, or stores it there, or neither. -/
def touch (s : State) (t : ℕ) (found : Option (CacheKey × Response)) : State :=
  { s with touched := Function.update s.touched t found }

/-- An answer is stored, or not. -/
def remember (s : State) (t : ℕ) (key : CacheKey) (der : Response) (now : Time) : Bool × State :=
  match s.memory.remember key der now with
  | none => (false, s.touch t none)
  | some memory =>
    (true, { (s.touch t (some (key, der))) with
      memory := memory
      overtaken := s.overtaken.filter fun k => k ≠ key })

def install (s : State) (next : RevocationList) : State :=
  { s with memory := s.memory.install next, overtaken := s.overtaken ++ overtakenBy s.memory next }

/-- A serial is issued here. -/
def indexSerial (s : State) (serial subject : Text) : State :=
  { s with
    memory := s.memory.indexSerial serial subject
    issued := if Bears s.inventory serial then serial :: s.issued else s.issued }

/-- A serial has been pruned here. -/
def unindexSerial (s : State) (serial : Text) : State :=
  { s with
    memory := s.memory.unindexSerial serial
    issued := s.issued.filter fun k => k ≠ serial
    prunedSince := fun u => serial :: s.prunedSince u }

/-- Thread `t` reads the inventory. -/
def noteRead (s : State) (t : ℕ) : State :=
  { s with
    lastRead := Function.update s.lastRead t s.inventory
    prunedSince := Function.update s.prunedSince t [] }

/-- Entries leave the inventory. -/
def setInventory (s : State) (inventory : List InventoryEntry) : State :=
  { s with
    inventory := inventory
    issued := s.issued.filter fun k => Bears inventory k }

end State

/-- The read-locked section of `AnswerOCSP`. -/
def Responder.look (m : Responder) (key : CacheKey) (useCache : Bool) (ch : Choice) : Look :=
  let found := if useCache then m.ocspCache.lookup key else none
  match found.filter fun entry => ch.time < entry.expiresAt with
  | some entry => .hit entry (entry.expiresAt - ch.later)
  | none => .miss (decide (key.serial ∈ m.serialIndex)) m.cachedCRL

/-- The answer that was found, with its key. -/
def Look.found (key : CacheKey) : Look → Option (CacheKey × Response)
  | .hit entry _ => some (key, entry.der)
  | .miss _ _ => none

/-- **What a command does**: its answer and the state it leaves, or nothing where it has to wait. -/
def exec (t : ℕ) (s : State) : (c : Cmd) → Choice → Option (c.Ans × State)
  | .lock, _ => if s.mutex = none then some ((), { s with mutex := some t }) else none
  | .unlock, _ => some ((), { s with mutex := none })
  | .look key useCache, ch =>
    let seen := s.memory.look key useCache ch
    if s.mutex = none then some (seen, s.touch t (seen.found key)) else none
  | .now, ch => some (ch.time, s)
  | .checkContext, ch => some (answer ch (), s)
  | .acquireSigningSlotOrShed, ch => some (answer ch (), s)
  | .createResponse template, ch => some (answer ch { template with signature := ch.number }, s)
  | .remember key der now, _ => if s.mutex = none then some (s.remember t key der now) else none
  | .readEpochs, _ =>
    if s.mutex = none then
      some ((s.memory.epoch, s.memory.removalEpoch),
        { s with sampled := Function.update s.sampled t (s.memory.epoch, s.memory.removalEpoch) })
    else none
  | .inventoryEntries, ch => some (answer ch s.inventory, s.noteRead t)
  | .reconcile stored e r, _ =>
    if s.mutex = none then
      some ((s.memory.reconcile stored e r).2,
        { s with memory := (s.memory.reconcile stored e r).1 })
    else none
  | .getCRL, ch =>
    some (match s.crl with
      | some crl => answer ch crl
      | none => .error .notExist, s)
  | .updateCRL crl, ch => some (answer ch (), effect ch s { s with crl := some crl })
  | .createRevocationList template, ch =>
    some (answer ch { template with signature := ch.number }, s)
  | .cachedCRL, _ => some (s.memory.cachedCRL, s)
  | .install next, _ => some ((), s.install next)
  | .evictOCSP serial, _ => some ((), { s with memory := s.memory.evictOCSP serial })
  | .indexSerial serial subject, _ => some ((), s.indexSerial serial subject)
  | .unindexSerial serial, _ => some ((), s.unindexSerial serial)
  | .appendInventory entry, ch =>
    some (if s.inventory.any fun e => e.serial == entry.serial then (.error .serialExists, s)
      else (answer ch (), effect ch s { s with inventory := s.inventory ++ [entry] }))
  | .pruneInventory keep, ch =>
    some ((Data.retainAt (fun e i => !keep e && ch.removes i) s.inventory, ch.error),
      s.setInventory (Data.retainAt (fun e i => !(!keep e && ch.removes i)) s.inventory))

/-- **The machine**: any number of threads of one replica. -/
abbrev machine : Machine interface := ⟨State, ℕ, Choice, exec⟩

/-! ### Programs -/

/-- A command whose answer may be an error, as a program that fails with it. -/
def ask {α : Type} (p : Prog (Except Failure α)) : Prog α := p.bind Conc.Prog.ofExcept

/-- `c.mu.Lock()` with a deferred `c.mu.Unlock()`. -/
def withMutex {α : Type} (body : Prog α) : Prog α := do
  cmd .lock
  body.ensure (cmd .unlock)

/-- The cache write of `AnswerOCSP`, where the answer is of a kind that may be cached, and how long
it may be reused. -/
def cacheAnswer (req : Request) (der : Response) (now : Time) : Prog OCSPAnswer :=
  if req.echoed = none ∧ der.status ≠ .unknown ∧ ocspCacheableHash req.hashAlgorithm then do
    let cached ← cmd (.remember req.cacheKey der now)
    return ⟨der, if cached then ocspValidity else 0⟩
  else return ⟨der, 0⟩

/-- `AnswerOCSP` from a snapshot of the index and the CRL, with no lock held. -/
def signAnswer (req : Request) (known : Bool) (crl : Option RevocationList) : Prog OCSPAnswer := do
  let now ← cmd .now
  let status ← Conc.Prog.ofExcept (decideOCSPStatus crl req.serialNumber known)
  ask (cmd .checkContext)
  ask (cmd .acquireSigningSlotOrShed)
  let der ← ask (cmd (.createResponse (req.template status now)))
  cacheAnswer req der now

def answerOCSP (ca : CA) (reqDER : Option Request) : Prog OCSPAnswer :=
  match reqDER with
  | none => .fail .malformedRequest
  | some req =>
    match checkOCSPIssuer req ca.caCert with
    | .error e => .fail e
    | .ok _ => do
      match ← cmd (.look req.cacheKey req.echoed.isNone) with
      | .hit entry left => return ⟨entry.der, left⟩
      | .miss known crl => signAnswer req known crl

def syncSerialIndex : Prog Responder.SerialIndexDelta := do
  let epochs ← cmd .readEpochs
  let entries ← ask (cmd .inventoryEntries)
  cmd (.reconcile (readSerialIndex entries) epochs.1 epochs.2)

def signCRLLocked (ca : CA) (prev : RevocationList) (revoked : List RevocationEntry) :
    Prog Unit := do
  let now ← cmd .now
  let crl ← ask (cmd (.createRevocationList (ca.crlTemplate (Ca.nextNumber prev) revoked now)))
  ask (cmd (.updateCRL crl))
  cmd (.install crl)

/-- `readStoredCRL`: the stored list has to be this CA's. -/
def readStoredCRL (ca : CA) : Prog RevocationList := do
  let stored ← ask (cmd .getCRL)
  if ca.ownsCRL stored then return stored else .fail .storage

def revokeSerialLocked (ca : CA) (serialStr : Text) : Prog Unit :=
  match setString16 serialStr with
  | none => .fail .malformedSerial
  | some serial => do
    let stored ← readStoredCRL ca
    if Ca.serialInCRL stored serial then return ()
    else do
      let now ← cmd .now
      signCRLLocked ca stored
        (stored.entries ++ [{ serialNumber := serial, revocationTime := now }])
      cmd (.evictOCSP (serialHexStr serial))

/-- What `SyncCRLCache` does with the list it read. -/
def installIfNewer (ca : CA) (ours : RevocationList) (cached : Option RevocationList) :
    Prog Bool :=
  match cached with
  | none => do cmd (.install ours); return true
  | some cached =>
    if cached = ours ∨ (ca.ownsCRL cached ∧ ¬Ca.newerCRL ours cached) then return false
    else do cmd (.install ours); return true

/-- `SyncCRLCache`: the list is read without the mutex. -/
def syncCRLCache (ca : CA) : Prog Bool := do
  let ours ← ask (cmd .getCRL)
  withMutex do
    if ca.ownsCRL ours then do
      let cached ← cmd .cachedCRL
      installIfNewer ca ours cached
    else .fail .storage

/-- The branch of `RefreshCRLIfDue` that adopts a list another replica has signed. -/
def adoptCRL (stored : RevocationList) (cached : Option RevocationList) : Prog Unit :=
  match stored.number, cached.bind RevocationList.number with
  | some n, some old => if old < n then cmd (.install stored) else return ()
  | some _, none => cmd (.install stored)
  | none, _ => return ()

def refreshCRLIfDue (ca : CA) (refreshBefore : Duration) : Prog Bool :=
  withMutex do
    let stored ← readStoredCRL ca
    let now ← cmd .now
    if refreshBefore < stored.nextUpdate - now then do
      let cached ← cmd .cachedCRL
      adoptCRL stored cached
      return false
    else do
      signCRLLocked ca stored stored.entries
      return true

/-- The tail of an issuance: the inventory entry, then the index. -/
def issue (serial : ℕ) (subject : Text) (notBefore notAfter : Time) : Prog Unit :=
  withMutex do
    ask (cmd (.appendInventory
      { serial := serialHexStr serial, notBefore := notBefore, notAfter := notAfter,
        subject := subject }))
    cmd (.indexSerial (serialHexStr serial) subject)

/-- The loop of `CleanupExpiredCerts` over the removed serials. -/
def unindexEach : List Text → Prog Unit
  | [] => return ()
  | serial :: rest => do
    cmd (.unindexSerial serial)
    unindexEach rest

def dropCRLEntriesLocked (ca : CA) (removed : List Text) : Prog Unit := do
  let stored ← readStoredCRL ca
  let kept := stored.entries.filter fun e => !removed.contains (serialHexStr e.serialNumber)
  if kept.length = stored.entries.length then return () else signCRLLocked ca stored kept

/-- What `CleanupExpiredCerts` does about the entries it has pruned, as far as the memory and the
CRL are concerned. -/
def forgetPruned (ca : CA) (dropped : List InventoryEntry) : Prog ℕ :=
  if dropped = [] then return 0
  else do
    let removed := (Ca.entrySerials dropped).map serialHexStr
    unindexEach removed
    let _ ← (dropCRLEntriesLocked ca removed).attempt
    return dropped.length

def cleanupExpiredCerts (ca : CA) (retain : Duration) : Prog ℕ := do
  let now ← cmd .now
  withMutex do
    let pruned ← cmd (.pruneInventory (Ca.keepEntry (now - max retain 0)))
    forgetPruned ca pruned.1

/-! ### Jobs -/

/-- **What the threads run**: the operations of this replica, and the storage writes of its
peers. -/
inductive Job
  | answerOCSP (reqDER : Option Request)
  | revokeSerial (serialStr : Text)
  | syncCRLCache
  | refreshCRLIfDue (refreshBefore : Duration)
  | issue (serial : ℕ) (subject : Text) (notBefore notAfter : Time)
  | cleanupExpiredCerts (retain : Duration)
  | syncSerialIndex
  | peerAppend (entry : InventoryEntry)
  | peerPrune (keep : InventoryEntry → Bool)
  /-- A peer replaces the stored CRL. -/
  | peerUpdateCRL (crl : RevocationList)

inductive Result
  | answer (a : OCSPAnswer)
  | delta (d : Responder.SerialIndexDelta)
  | flag (b : Bool)
  | count (n : ℕ)
  | done
  deriving DecidableEq, Repr

def program (ca : CA) : Job → Prog Result
  | .answerOCSP reqDER => do return .answer (← answerOCSP ca reqDER)
  | .revokeSerial serialStr => do withMutex (revokeSerialLocked ca serialStr); return .done
  | .syncCRLCache => do return .flag (← syncCRLCache ca)
  | .refreshCRLIfDue refreshBefore => do return .flag (← refreshCRLIfDue ca refreshBefore)
  | .issue serial subject notBefore notAfter => do
    issue serial subject notBefore notAfter
    return .done
  | .cleanupExpiredCerts retain => do return .count (← cleanupExpiredCerts ca retain)
  | .syncSerialIndex => do return .delta (← syncSerialIndex)
  | .peerAppend entry => do ask (cmd (.appendInventory entry)); return .done
  | .peerPrune keep => do let _ ← cmd (.pruneInventory keep); return .done
  | .peerUpdateCRL crl => do ask (cmd (.updateCRL crl)); return .done

abbrev workload (ca : CA) : Workload interface ℕ where
  Job := Job
  Err := Failure
  Res := Result
  body := fun _ j => program ca j

abbrev Replica (ca : CA) := Pool machine (workload ca)

abbrev Event (ca : CA) := Label machine (workload ca)

/-! ### What a command can do -/

/-- **What a command may leave behind.** -/
inductive Effect (t : ℕ) (s : State) : Cmd → State → Prop
  | none {c} : Effect t s c s
  | mutex {c m} : Effect t s c { s with mutex := m }
  | look {key useCache found} : Effect t s (.look key useCache) (s.touch t found)
  | declined {key der now} : Effect t s (.remember key der now) (s.touch t none)
  | stored {key der now m} : s.memory.remember key der now = some m →
      Effect t s (.remember key der now)
        { (s.touch t (some (key, der))) with
          memory := m
          overtaken := s.overtaken.filter fun k => k ≠ key }
  | readEpochs : Effect t s .readEpochs
      { s with sampled := Function.update s.sampled t (s.memory.epoch, s.memory.removalEpoch) }
  | inventoryEntries : Effect t s .inventoryEntries (s.noteRead t)
  | reconcile {stored e r} : Effect t s (.reconcile stored e r)
      { s with memory := (s.memory.reconcile stored e r).1 }
  | updateCRL {crl} : Effect t s (.updateCRL crl) { s with crl := some crl }
  | install {next} : Effect t s (.install next) (s.install next)
  | evictOCSP {serial} :
      Effect t s (.evictOCSP serial) { s with memory := s.memory.evictOCSP serial }
  | indexSerial {serial subject} :
      Effect t s (.indexSerial serial subject) (s.indexSerial serial subject)
  | unindexSerial {serial} : Effect t s (.unindexSerial serial) (s.unindexSerial serial)
  | appendInventory {entry} :
      Effect t s (.appendInventory entry) { s with inventory := s.inventory ++ [entry] }
  | pruneInventory {keep inventory} : inventory ⊆ s.inventory →
      Effect t s (.pruneInventory keep) (s.setInventory inventory)

/-- **Execution has no other effect.** -/
theorem exec_effect {t : ℕ} {s s' : State} {c : Cmd} {ch : Choice} {a : c.Ans}
    (h : exec t s c ch = some (a, s')) : Effect t s c s' := by
  have heffect : ∀ {c s''}, Effect t s c s'' → Effect t s c (effect ch s s'') := by
    intro c s'' hc
    unfold effect
    split
    · exact .none
    · exact hc
  cases c with
  | lock =>
    simp only [exec] at h
    split at h <;> cases h
    exact .mutex
  | unlock => cases h; exact .mutex
  | look key useCache =>
    simp only [exec] at h
    split at h <;> cases h
    exact .look
  | remember key der now =>
    simp only [exec] at h
    split at h
    · rw [Option.some.injEq] at h
      unfold State.remember at h
      split at h <;> cases h
      · exact .declined
      · next hm => exact .stored hm
    · cases h
  | readEpochs =>
    simp only [exec] at h
    split at h <;> cases h
    exact .readEpochs
  | inventoryEntries => cases h; exact .inventoryEntries
  | reconcile stored e r =>
    simp only [exec] at h
    split at h <;> cases h
    exact .reconcile
  | updateCRL crl => cases h; exact heffect .updateCRL
  | install next => cases h; exact .install
  | evictOCSP serial => cases h; exact .evictOCSP
  | indexSerial serial subject => cases h; exact .indexSerial
  | unindexSerial serial => cases h; exact .unindexSerial
  | appendInventory entry =>
    simp only [exec, Option.some.injEq] at h
    split at h <;> cases h
    · exact .none
    · exact heffect .appendInventory
  | pruneInventory keep => cases h; exact .pruneInventory (Data.retainAt_sublist _ _).subset
  | _ => cases h; exact .none

/-! ### What the jobs issue -/

/-- The commands that store an answer or reconcile the index. -/
def Cmd.Plain : Cmd → Prop
  | .remember _ _ _ => False
  | .reconcile _ _ _ => False
  | _ => True

/-- A job that neither answers a request nor reconciles the index. -/
def Job.Plain : Job → Prop
  | .answerOCSP _ => False
  | .syncSerialIndex => False
  | _ => True

section Plain

variable {α : Type} {C : Cmd → Prop}

theorem only_cmd {c : Cmd} (hc : C c) : (cmd c).Only C := ⟨hc, fun _ => trivial⟩

theorem only_ask {p : Prog (Except Failure α)} (hp : p.Only C) : (ask p).Only C :=
  Conc.Prog.only_bind hp Conc.Prog.only_ofExcept

theorem only_withMutex {body : Prog α} (hlock : C .lock) (hunlock : C .unlock)
    (hbody : body.Only C) : (withMutex body).Only C :=
  Conc.Prog.only_bind (only_cmd hlock) fun _ => Conc.Prog.only_ensure hbody (only_cmd hunlock)

theorem signCRLLocked_plain (ca : CA) (prev : RevocationList) (revoked : List RevocationEntry) :
    (signCRLLocked ca prev revoked).Only Cmd.Plain :=
  Conc.Prog.only_bind (only_cmd trivial) fun _ =>
    Conc.Prog.only_bind (only_ask (only_cmd trivial)) fun _ =>
      Conc.Prog.only_bind (only_ask (only_cmd trivial)) fun _ => only_cmd trivial

theorem readStoredCRL_plain (ca : CA) : (readStoredCRL ca).Only Cmd.Plain := by
  refine Conc.Prog.only_bind (only_ask (only_cmd trivial)) fun stored => ?_
  split <;> trivial

theorem revokeSerialLocked_plain (ca : CA) (serialStr : Text) :
    (revokeSerialLocked ca serialStr).Only Cmd.Plain := by
  unfold revokeSerialLocked
  split
  · trivial
  · refine Conc.Prog.only_bind (readStoredCRL_plain ca) fun stored => ?_
    split
    · trivial
    · exact Conc.Prog.only_bind (only_cmd trivial) fun _ =>
        Conc.Prog.only_bind (signCRLLocked_plain ca _ _) fun _ => only_cmd trivial

theorem installIfNewer_plain (ca : CA) (ours : RevocationList) (cached : Option RevocationList) :
    (installIfNewer ca ours cached).Only Cmd.Plain := by
  unfold installIfNewer
  split
  · exact Conc.Prog.only_bind (only_cmd trivial) fun _ => trivial
  · split
    · trivial
    · exact Conc.Prog.only_bind (only_cmd trivial) fun _ => trivial

theorem syncCRLCache_plain (ca : CA) : (syncCRLCache ca).Only Cmd.Plain := by
  refine Conc.Prog.only_bind (only_ask (only_cmd trivial)) fun ours =>
    only_withMutex trivial trivial ?_
  split
  · exact Conc.Prog.only_bind (only_cmd trivial) fun cached => installIfNewer_plain ca ours cached
  · trivial

theorem adoptCRL_plain (stored : RevocationList) (cached : Option RevocationList) :
    (adoptCRL stored cached).Only Cmd.Plain := by
  unfold adoptCRL
  split
  · split
    · exact only_cmd trivial
    · trivial
  · exact only_cmd trivial
  · trivial

theorem refreshCRLIfDue_plain (ca : CA) (refreshBefore : Duration) :
    (refreshCRLIfDue ca refreshBefore).Only Cmd.Plain := by
  refine only_withMutex trivial trivial (Conc.Prog.only_bind (readStoredCRL_plain ca) fun stored =>
    Conc.Prog.only_bind (only_cmd trivial) fun now => ?_)
  split
  · exact Conc.Prog.only_bind (only_cmd trivial) fun cached =>
      Conc.Prog.only_bind (adoptCRL_plain stored cached) fun _ => trivial
  · exact Conc.Prog.only_bind (signCRLLocked_plain ca _ _) fun _ => trivial

theorem unindexEach_plain (serials : List Text) : (unindexEach serials).Only Cmd.Plain := by
  induction serials with
  | nil => trivial
  | cons serial rest ih => exact Conc.Prog.only_bind (only_cmd trivial) fun _ => ih

theorem dropCRLEntriesLocked_plain (ca : CA) (removed : List Text) :
    (dropCRLEntriesLocked ca removed).Only Cmd.Plain := by
  refine Conc.Prog.only_bind (readStoredCRL_plain ca) fun stored => ?_
  dsimp only
  split
  · trivial
  · exact signCRLLocked_plain ca _ _

theorem cleanupExpiredCerts_plain (ca : CA) (retain : Duration) :
    (cleanupExpiredCerts ca retain).Only Cmd.Plain := by
  refine Conc.Prog.only_bind (only_cmd trivial) fun now => only_withMutex trivial trivial
    (Conc.Prog.only_bind (only_cmd trivial) fun pruned => ?_)
  unfold forgetPruned
  split
  · trivial
  · exact Conc.Prog.only_bind (unindexEach_plain _) fun _ =>
      Conc.Prog.only_bind (Conc.Prog.only_attempt (dropCRLEntriesLocked_plain ca _))
        fun _ => trivial

/-- **Only requests store answers, and only syncs reconcile the index.** -/
theorem program_plain (ca : CA) {j : Job} (hj : j.Plain) : (program ca j).Only Cmd.Plain := by
  cases j with
  | answerOCSP reqDER => exact hj.elim
  | revokeSerial serialStr =>
    exact Conc.Prog.only_bind (only_withMutex trivial trivial (revokeSerialLocked_plain ca _))
      fun _ => trivial
  | syncCRLCache => exact Conc.Prog.only_bind (syncCRLCache_plain ca) fun _ => trivial
  | refreshCRLIfDue refreshBefore =>
    exact Conc.Prog.only_bind (refreshCRLIfDue_plain ca _) fun _ => trivial
  | issue serial subject notBefore notAfter =>
    refine Conc.Prog.only_bind (only_withMutex trivial trivial ?_) fun _ => trivial
    exact Conc.Prog.only_bind (only_ask (only_cmd trivial)) fun _ => only_cmd trivial
  | cleanupExpiredCerts retain =>
    exact Conc.Prog.only_bind (cleanupExpiredCerts_plain ca _) fun _ => trivial
  | syncSerialIndex => exact hj.elim
  | peerAppend entry =>
    exact Conc.Prog.only_bind (only_ask (only_cmd trivial)) fun _ => trivial
  | peerPrune keep => exact Conc.Prog.only_bind (only_cmd trivial) fun _ => trivial
  | peerUpdateCRL crl =>
    exact Conc.Prog.only_bind (only_ask (only_cmd trivial)) fun _ => trivial

end Plain

end OpenvoxCa.Ocsp
