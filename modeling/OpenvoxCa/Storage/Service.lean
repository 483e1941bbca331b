import OpenvoxCa.Conc.Protocol
import OpenvoxCa.Storage.Record

/-!
# The storage service over a structured backend

A structured backend keeps the entries of the inventory and, under a key of its own, the head of
the integrity chain over them. Each mutation of the backend changes the two at once. The *service*
of a replica is what the certificate authority calls: it holds the integrity key, appends and
prunes through the backend, and before it hands out the inventory it compares the stored head with
the chain folded over the stored entries.

This file is the machine and the programs of the service:

* `initHMAC` – `InitHMAC`, the start-up: the integrity key is loaded or
  generated under a lock of the cluster, and the inventory is verified;
* `verifyInventoryHMACLocked` and
  `compareInventoryMACLocked` – the two comparisons, the first of which
  establishes a head where none is stored;
* `appendInventoryRecord`, `pruneInventory`, `inventoryEntries` and
  `readInventory`, in the same namespace.

The mutex `inventoryMu` is that of one process. A comparison reads the head and the entries one
after the other, and a machine notes which of the two a thread has read since it has taken the mutex
(`State.log`); no program sees these notes.
-/

namespace OpenvoxCa.Storage.Service

open Conc

/-! ### The machine -/

/-- `sync.RWMutex`: one writer, or any number of readers. -/
structure RWMutex where
  writer : Option Tid := none
  readers : List Tid := []
  deriving DecidableEq

/-- What a comparison reads: the entries, or the head, which may be missing. -/
inductive Read
  | entries
  | head (found : Bool)
  deriving DecidableEq

/-- **The state of the cluster**: the store, the locks, and what the replicas remember. -/
structure State where
  /-- The entries, in the order in which they were issued. -/
  entries : List InventoryEntry := []
  /-- `KeyInventoryHMAC`: the integrity head. -/
  head : Option Bytes := none
  /-- `KeyHMACKey`: the integrity key. -/
  storedKey : Option Bytes := none
  /-- Whether there is a `KeyCRL`. -/
  hasCRL : Bool := false
  /-- The lock `lockNameHMACKey` of the cluster. -/
  keyLock : Option Tid := none
  /-- `inventoryMu` of each replica. -/
  inventoryMu : Replica → RWMutex := fun _ => {}
  /-- The field `hmacKey` of the service of each replica. -/
  hmacKey : Replica → Option Bytes := fun _ => none
  /-- Whether `InitHMAC` has returned at the replica, and returned no error. -/
  started : Replica → Bool := fun _ => false
  /-- What the threads have read since each of them has taken the mutex of its replica, the latest
  first. -/
  log : List (Tid × Read) := []

inductive Failure
  /-- `fs.ErrNotExist`. -/
  | notExist
  /-- A request that failed, or was cancelled. -/
  | unavailable
  /-- `ErrDuplicateSerial`. -/
  | duplicateSerial (serial : Text)
  /-- `malformed inventory entry`. -/
  | malformed (entry : Text)
  /-- `non-canonical inventory entry`. -/
  | nonCanonical (entry canonical : Text)
  /-- `ErrInventoryTampered`. -/
  | tampered
  deriving DecidableEq

inductive Cmd
  /-- `inventoryMu.Lock()` -/
  | lock
  /-- `inventoryMu.Unlock()` -/
  | unlock
  /-- `inventoryMu.RLock()` -/
  | rlock
  /-- `inventoryMu.RUnlock()` -/
  | runlock
  /-- Taking the lock `lockNameHMACKey`, for which the context may end the wait. -/
  | lockKey
  | unlockKey
  /-- Reading the field `hmacKey`. -/
  | getKey
  /-- Writing the field `hmacKey`. -/
  | setKey (key : Bytes)
  | awaitStarted
  /-- The replica begins to serve. -/
  | setStarted
  /-- `backend.Get` of `KeyHMACKey`. -/
  | getStoredKey
  /-- `backend.Put` of `KeyHMACKey`. -/
  | putStoredKey (key : Bytes)
  /-- `rand.Read` of `hmacKeyLen` bytes. -/
  | randomKey
  | entries
  /-- `backend.Get` of `KeyInventory`, which renders the entries. -/
  | getInventory
  /-- `backend.Get` of `KeyInventoryHMAC`. -/
  | getHead
  /-- `backend.Put` of `KeyInventoryHMAC`. -/
  | putHead (head : Bytes)
  /-- `backend.Exists` of `KeyCRL`. -/
  | hasCRL
  /-- `store.AppendEntry`, which goes on with the head when it is given a key. -/
  | appendEntry (e : InventoryEntry) (key : Option Bytes)
  | pruneEntries (keep : InventoryEntry → Bool) (key : Option Bytes)

def Cmd.Ans : Cmd → Type
  | lock => Unit
  | unlock => Unit
  | rlock => Unit
  | runlock => Unit
  | lockKey => Except Failure Unit
  | unlockKey => Unit
  | getKey => Option Bytes
  | setKey _ => Unit
  | awaitStarted => Unit
  | setStarted => Unit
  | getStoredKey => Except Failure Bytes
  | putStoredKey _ => Except Failure Unit
  | randomKey => Except Failure Bytes
  | entries => Except Failure (List InventoryEntry)
  | getInventory => Except Failure (List InventoryEntry)
  | getHead => Except Failure Bytes
  | putHead _ => Except Failure Unit
  | hasCRL => Except Failure Bool
  | appendEntry _ _ => Except Failure Unit
  | pruneEntries _ _ => Except Failure (List InventoryEntry)

/-- The interface to the store and to the process. -/
abbrev interface : Interface := ⟨Cmd, Cmd.Ans⟩

abbrev Prog := Conc.Prog interface Failure

def cmd (c : Cmd) : Prog c.Ans := Conc.Prog.cmd (I := interface) c

/-- What the environment decides about a request: whether it fails, and, where bytes are drawn,
which ones they are. -/
structure Choice where
  fails : Bool := false
  random : Bytes := []

def hmacKeyLen : ℕ := 32

/-- As many bytes as a key has, made of those drawn. -/
def fillKey (random : Bytes) : Bytes := (random ++ List.replicate hmacKeyLen 0).take hmacKeyLen

/-- A request that may fail, and fails without having had an effect. -/
def mayFail {α : Type} (ch : Choice) (s : State) (r : Except Failure α × State) :
    Option (Except Failure α × State) :=
  some (if ch.fails then (.error .unavailable, s) else r)

/-- A blob, or `fs.ErrNotExist`. -/
def orNotExist {α : Type} : Option α → Except Failure α
  | some a => .ok a
  | none => .error .notExist

namespace State

/-- The mutex of a replica is set. -/
def setMu (s : State) (r : Replica) (m : RWMutex) : State :=
  { s with inventoryMu := Function.update s.inventoryMu r m }

/-- What the thread has read since it has taken the mutex, the latest first. -/
def reads (s : State) (t : Tid) : List Read := (s.log.filter fun x => x.1 = t).map Prod.snd

/-- What the thread has read is of no concern any more. -/
def forget (s : State) (t : Tid) : State := { s with log := s.log.filter fun x => x.1 ≠ t }

/-- The thread has read something. -/
def noteRead (s : State) (t : Tid) (r : Read) : State := { s with log := (t, r) :: s.log }

variable (hmac : Bytes → Bytes → Bytes)

/-- An entry is appended, and the head goes on by it. -/
def append (s : State) (e : InventoryEntry) (key : Option Bytes) : State :=
  { s with
    entries := s.entries ++ [e]
    head := match key with
      | some key => some (advanceHead hmac key (s.head.getD []) e)
      | none => s.head }

/-- The entries that `keep` rejects are removed, and the head is that of those left. -/
def prune (s : State) (keep : InventoryEntry → Bool) (key : Option Bytes) : State :=
  { s with
    entries := s.entries.filter keep
    head := match key with
      | some key => some (foldInventoryHead hmac key (s.entries.filter keep))
      | none => s.head }

end State

/-- **What a request does.** A thread that cannot have a lock waits. -/
def exec (hmac : Bytes → Bytes → Bytes) (t : Tid) (s : State) :
    (c : Cmd) → Choice → Option (c.Ans × State)
  | .lock, _ =>
      if (s.inventoryMu t.replica).writer = none ∧ (s.inventoryMu t.replica).readers = [] then
        some ((), (s.setMu t.replica ⟨some t, []⟩).forget t)
      else none
  | .unlock, _ => some ((), (s.setMu t.replica {}).forget t)
  | .rlock, _ =>
      if (s.inventoryMu t.replica).writer = none then
        some ((), (s.setMu t.replica ⟨none, t :: (s.inventoryMu t.replica).readers⟩).forget t)
      else none
  | .runlock, _ =>
      some ((), (s.setMu t.replica
        { s.inventoryMu t.replica with
          readers := (s.inventoryMu t.replica).readers.erase t }).forget t)
  | .lockKey, ch =>
      if ch.fails then some (.error .unavailable, s)
      else if s.keyLock = none then some (.ok (), { s with keyLock := some t })
      else none
  | .unlockKey, _ => some ((), { s with keyLock := none })
  | .getKey, _ => some (s.hmacKey t.replica, s)
  | .setKey key, _ =>
      some ((), { s with hmacKey := Function.update s.hmacKey t.replica (some key) })
  | .awaitStarted, _ => if s.started t.replica then some ((), s) else none
  | .setStarted, _ => some ((), { s with started := Function.update s.started t.replica true })
  | .getStoredKey, ch => mayFail ch s (orNotExist s.storedKey, s)
  | .putStoredKey key, ch => mayFail ch s (.ok (), { s with storedKey := some key })
  | .randomKey, ch => mayFail ch s (.ok (fillKey ch.random), s)
  | .entries, ch => mayFail ch s (.ok s.entries, s.noteRead t .entries)
  | .getInventory, ch => mayFail ch s (.ok s.entries, s)
  | .getHead, ch => mayFail ch s (orNotExist s.head, s.noteRead t (.head s.head.isSome))
  | .putHead head, ch => mayFail ch s (.ok (), { s with head := some head }.forget t)
  | .hasCRL, ch => mayFail ch s (.ok s.hasCRL, s)
  | .appendEntry e key, ch => mayFail ch s
      (if s.entries.any fun e' => e'.serial = e.serial then (.error (.duplicateSerial e.serial), s)
        else (.ok (), s.append hmac e key))
  | .pruneEntries keep key, ch => mayFail ch s
      -- Where there is nothing to remove, nothing is written.
      (if s.entries.all keep then (.ok [], s)
        else (.ok (s.entries.filter fun e => !keep e), s.prune hmac keep key))

abbrev machine (hmac : Bytes → Bytes → Bytes) : Machine interface := ⟨State, Tid, Choice, exec hmac⟩

/-! ### The programs -/

section Programs

variable (hmac : Bytes → Bytes → Bytes)

/-- `inventoryMu.Lock()` with a deferred `inventoryMu.Unlock()`. -/
def withLock {α : Type} (body : Prog α) : Prog α :=
  (cmd .lock).bind fun _ => body.ensure (cmd .unlock)

/-- `inventoryMu.RLock()` with a deferred `inventoryMu.RUnlock()`. -/
def withRLock {α : Type} (body : Prog α) : Prog α :=
  (cmd .rlock).bind fun _ => body.ensure (cmd .runlock)

/-- What a stored key is used as: only one of the right length is. -/
def usable (stored : Bytes) : Option Bytes :=
  if stored.length = hmacKeyLen then some stored else none

/-- `loadHMACKey`: the stored key, if there is one and it has the right length. -/
def loadHMACKey : Prog (Option Bytes) :=
  (cmd .getStoredKey).bind fun
    | .ok stored => .ret (usable stored)
    | .error .notExist => .ret none
    | .error e => .fail e

/-- What `EnsureHMACKey` does under the lock: a key that somebody else has stored is adopted. -/
def ensureHMACKeyLocked : Prog Bytes :=
  loadHMACKey.bind fun
    | some key => .ret key
    | none => (cmd .randomKey).orFail.bind fun fresh =>
        (cmd (.putStoredKey fresh)).orFail.bind fun _ => .ret fresh

def ensureHMACKey : Prog Bytes :=
  loadHMACKey.bind fun
    | some key => .ret key
    | none => (cmd .lockKey).orFail.bind fun _ => ensureHMACKeyLocked.ensure (cmd .unlockKey)

/-- `computeInventoryHMAC`: the chain over the stored entries. -/
def computeInventoryHMAC (key : Bytes) : Prog Bytes :=
  (cmd .entries).orFail.bind fun entries => .ret (foldInventoryHead hmac key entries)

/-- `baselineInventoryHMACLocked`: the head of the entries as they stand is stored. Whether there is
a list of revoked certificates only decides how loudly it is logged. -/
def baselineInventoryHMACLocked (key : Bytes) : Prog Unit :=
  (cmd .entries).orFail.bind fun entries =>
    (cmd .hasCRL).orFail.bind fun _ =>
      (cmd (.putHead (foldInventoryHead hmac key entries))).orFail

def verifyInventoryHMACLocked (key : Bytes) : Prog Unit :=
  (cmd .getHead).bind fun
    | .error .notExist => baselineInventoryHMACLocked hmac key
    | .error e => .fail e
    | .ok storedMAC => (computeInventoryHMAC hmac key).bind fun computedMAC =>
        if storedMAC = computedMAC then .ret () else .fail .tampered

def verifyInventoryHMAC (key : Bytes) : Prog Unit := withLock (verifyInventoryHMACLocked hmac key)

/-- `compareInventoryMACLocked`: a missing head is accepted, and none is established. -/
def compareInventoryMACLocked (computed : Bytes) : Prog Unit :=
  (cmd .getHead).bind fun
    | .error .notExist => .ret ()
    | .error e => .fail e
    | .ok storedMAC => if storedMAC = computed then .ret () else .fail .tampered

def initHMAC : Prog Unit :=
  ensureHMACKey.bind fun key => (cmd (.setKey key)).bind fun _ => verifyInventoryHMAC hmac key

/-- A check that is made only with an integrity key. -/
def whenKeyed (check : Bytes → Prog Unit) : Option Bytes → Prog Unit
  | some key => check key
  | none => .ret ()

/-- `AppendInventoryRecord`: a line that is not the canonical one of what it parses to is
refused. -/
def appendInventoryRecord (entry : Text) : Prog Unit :=
  withLock <|
    match parseInventoryEntry entry with
    | none => .fail (.malformed entry)
    | some parsed =>
        if entry = canonicalInventoryLine parsed then
          (cmd .getKey).bind fun key => (cmd (.appendEntry parsed key)).orFail
        else .fail (.nonCanonical entry (canonicalInventoryLine parsed))

def pruneInventory (keep : InventoryEntry → Bool) : Prog (List InventoryEntry) :=
  withLock <| (cmd .getKey).bind fun key =>
    (whenKeyed (verifyInventoryHMACLocked hmac) key).bind fun _ =>
      (cmd (.pruneEntries keep key)).orFail

/-- `InventoryEntries`: the entries come first, and the head is compared with their chain. -/
def inventoryEntries : Prog (List InventoryEntry) :=
  withRLock <| (cmd .entries).orFail.bind fun entries =>
    (cmd .getKey).bind fun key =>
      (whenKeyed (fun key => compareInventoryMACLocked (foldInventoryHead hmac key entries))
        key).bind fun _ => .ret entries

/-- `ReadInventory`: the head comes first, then the entries, and then the blob. -/
def readInventory : Prog (List InventoryEntry) :=
  withRLock <| (cmd .getKey).bind fun key =>
    (whenKeyed (verifyInventoryHMACLocked hmac) key).bind fun _ => (cmd .getInventory).orFail

/-! ### The workload -/

/-- The calls of the service. A replica serves once its start-up has succeeded. -/
inductive Op
  | start
  | append (entry : Text)
  | prune (keep : InventoryEntry → Bool)
  | inventoryEntries
  | readInventory

/-- What they return: the entries read or removed, if any. -/
abbrev Res := List InventoryEntry

/-- A call of a replica that serves. -/
def served {α : Type} (body : Prog α) : Prog α := (cmd .awaitStarted).bind fun _ => body

def operation : Op → Prog Res
  | .start => (initHMAC hmac).bind fun _ => (cmd .setStarted).bind fun _ => .ret []
  | .append entry => served ((appendInventoryRecord entry).bind fun _ => .ret [])
  | .prune keep => served (pruneInventory hmac keep)
  | .inventoryEntries => served (inventoryEntries hmac)
  | .readInventory => served (readInventory hmac)

/-- **Any number of replicas, each with any number of threads.** -/
abbrev work : Workload interface Tid := ⟨Op, Failure, Res, fun _ op => operation hmac op⟩

abbrev Cluster := Pool (machine hmac) (work hmac)

abbrev Event := Label (machine hmac) (work hmac)

end Programs

/-! ### What a request can do -/

variable {hmac : Bytes → Bytes → Bytes} {t : Tid} {s s' : State} {ch : Choice}

theorem mayFail_eq {α : Type} {r r' : Except Failure α × State} (h : mayFail ch s r = some r') :
    r' = (.error .unavailable, s) ∨ r' = r := by
  unfold mayFail at h
  split at h
  · exact Or.inl (Option.some.inj h).symm
  · exact Or.inr (Option.some.inj h).symm

/-- A request that may fail changes nothing or does what it does. -/
theorem mayFail_state {α : Type} {r : Except Failure α × State} {a : Except Failure α}
    (h : mayFail ch s r = some (a, s')) :
    a = .error .unavailable ∧ s' = s ∨ a = r.1 ∧ s' = r.2 := by
  rcases mayFail_eq h with h | h
  · exact Or.inl (Prod.mk.inj h)
  · exact Or.inr ⟨congrArg Prod.fst h, congrArg Prod.snd h⟩

@[simp] theorem reads_forget_self : (s.forget t).reads t = [] := by
  simp [State.reads, State.forget]

theorem reads_forget_of_ne {u : Tid} (h : u ≠ t) : (s.forget t).reads u = s.reads u := by
  unfold State.reads State.forget
  rw [List.filter_filter]
  congr 1
  refine List.filter_congr fun x _ => ?_
  by_cases hx : x.1 = u <;> simp [hx, h]

@[simp] theorem reads_noteRead_self {r : Read} : (s.noteRead t r).reads t = r :: s.reads t := by
  simp [State.reads, State.noteRead]

theorem reads_noteRead_of_ne {u : Tid} {r : Read} (h : u ≠ t) :
    (s.noteRead t r).reads u = s.reads u := by
  simp [State.reads, State.noteRead, h.symm]

theorem length_fillKey (random : Bytes) : (fillKey random).length = hmacKeyLen := by
  simp [fillKey, hmacKeyLen]

end OpenvoxCa.Storage.Service
