import OpenvoxCa.Ca.Chain
import OpenvoxCa.Conc.Pool
import OpenvoxCa.Data.Positions

/-!
# The cluster: replicas, storage and locks

A cluster is any number of replicas of the server, each with its own memory, over one shared
storage. This file gives the commands the server's operations are made of (`Cmd`), the state they
act on (`State`) and what each of them does to it (`exec`), as one `Conc.Machine`: what is atomic is
exactly one command.

* A **storage command** reads or writes one object. It may fail; a failed read
  returns an error and a failed write changes nothing – except the append to the
  inventory, which on the filesystem may report a failure after the line has been
  written, and the prune, which may remove only some of the rejected entries.
* The **cluster locks** – bootstrap, CRL, and one a subject – are mutually
  exclusive across all replicas; taking one may fail instead of waiting for ever.
  Each replica has the mutex `c.mu` besides, which guards its memory.
* The **environment** chooses everything else through a
  `Choice`: which command fails, what the clock says (it need not be
  monotone), the random serials, the content of the operator's chain file.

Some components of the state are history and steer nothing: the log of the serials
that cleanup has pruned from the inventory, how long it was when the CRL lock last
changed hands, for each thread, how long it was when the thread last wrote the list of
superseded certificates, what it wrote, the first CRL chain it read, and what it has read of
the operator's file, who has written the CRL chain, what was stored there before, what the clock
said to each thread last, and what it said first under the current hold of the CRL lock.
-/

namespace OpenvoxCa.Ca

open Conc (Replica Tid)

/-! ### Locks -/

/-- The names of the cluster locks. -/
inductive LockName
  /-- `lockNameBootstrap`. -/
  | bootstrap
  /-- `lockNameCRL`. -/
  | crl
  /-- `subjectLockName`. -/
  | subject (name : Text)
  deriving DecidableEq, Repr

/-- The hashes an OCSP answer may be cached under. -/
inductive CacheHash
  | sha1 | sha256 | sha384 | sha512
  deriving DecidableEq, Repr

/-- The memory of a replica that its mutex guards. -/
structure Memory where
  /-- The CRL revocation is decided from. -/
  cachedCRL : Option RevocationList := none
  /-- The serials known to be issued, with their subjects. -/
  serialIndex : List (Text × Text) := []
  /-- The keys of the pre-signed OCSP answers. -/
  ocspCache : List (Text × CacheHash) := []
  deriving DecidableEq, Repr

/-! ### State -/

/-- What reading the operator's chain file may give. -/
inductive FileRead
  | absent
  | fault
  | data (file : ChainFile)
  deriving DecidableEq, Repr

/-- One pass over the operator's chain file: what was read of it, and the CA bundle read after
it, against which it was verified. -/
structure Pass where
  file : FileRead
  bundle : Option (List Certificate) := none
  deriving DecidableEq, Repr

/-- The latest pass goes on to read the bundle. -/
def Pass.withBundle (answer : Except Failure (Option (List Certificate))) : List Pass → List Pass
  | [] => []
  | pass :: passes =>
    match answer with
    | .ok bundle => { pass with bundle := bundle } :: passes
    | .error _ => pass :: passes

/-- **The state of a cluster.** -/
structure State where
  /-- The stored CRL blob. -/
  crl : Option Blob := none
  /-- The stored list of superseded certificates. -/
  superseded : Option SupersededBlob := none
  /-- The stored CA bundle: the certificates it parses to, if it parses. -/
  caBundle : Option (Option (List Certificate)) := none
  /-- The stored certificate of each subject. -/
  certs : Text → Option CertBlob := fun _ => none
  /-- The pending request of each subject. -/
  requests : Text → Option RequestBlob := fun _ => none
  /-- The inventory, in the order of issuance. -/
  inventory : List InventoryEntry := []
  /-- Whether the file with the next serial is there. -/
  serialFile : Bool := true
  /-- Who holds each cluster lock. -/
  owner : LockName → Option Tid := fun _ => none
  /-- Who holds the mutex of each replica. -/
  mutex : Replica → Option Tid := fun _ => none
  memory : Replica → Memory := fun _ => {}
  /-- The serials pruned from the inventory so far. -/
  pruneLog : List ℤ := []
  /-- How long the log was when the CRL lock was last taken or released. -/
  holdStart : ℕ := 0
  /-- How long the log was when each thread last wrote the list of superseded
  certificates. -/
  savedAt : Tid → ℕ := fun _ => 0
  /-- What each thread last wrote there. -/
  saved : Tid → List SupersededEntry := fun _ => []
  /-- The first CRL chain that each thread found when it read it. -/
  firstRead : Tid → Option Blob := fun _ => none
  /-- The threads that have written the CRL chain, the latest first. -/
  crlWriters : List Tid := []
  /-- The CRL chains that others have replaced, the latest first. -/
  formerCRLs : List Blob := []
  /-- The passes of each thread over the operator's chain file, the latest first. -/
  passes : Tid → List Pass := fun _ => []
  /-- What the clock said when each thread last read it. -/
  clock : Tid → Time := fun _ => 0
  /-- What it said when the holder of the CRL lock first read it. -/
  holdClock : Option Time := none

namespace State

/-- No cluster lock is held. -/
def Unlocked (s : State) : Prop := ∀ n, s.owner n = none

/-- The CRL lock changing hands closes the current stretch of the prune log. -/
def setOwner (s : State) (n : LockName) (o : Option Tid) : State :=
  { s with
    owner := Function.update s.owner n o
    holdStart := if n = .crl then s.pruneLog.length else s.holdStart
    holdClock := if n = .crl then none else s.holdClock }

/-- The serials pruned since the CRL lock last changed hands. -/
def holdPruned (s : State) : List ℤ := s.pruneLog.drop s.holdStart

/-- Thread `t` replaces the list of superseded certificates. -/
def setSuperseded (s : State) (t : Tid) (blob : SupersededBlob) : State :=
  { s with
    superseded := some blob
    savedAt := Function.update s.savedAt t s.pruneLog.length
    saved := Function.update s.saved t blob.entries }

/-- Thread `t` reads the clock. -/
def noteTime (s : State) (t : Tid) (time : Time) : State :=
  { s with
    clock := Function.update s.clock t time
    holdClock := if s.owner .crl = some t then s.holdClock.or (some time) else s.holdClock }

/-- Thread `t` reads the CRL chain. -/
def noteRead (s : State) (t : Tid) : State :=
  { s with firstRead := Function.update s.firstRead t ((s.firstRead t).or s.crl) }

/-- Thread `t` replaces the CRL chain. -/
def setCRL (s : State) (t : Tid) (blob : Blob) : State :=
  { s with
    crl := some blob
    crlWriters := t :: s.crlWriters
    formerCRLs := s.crl.toList ++ s.formerCRLs }

/-- Thread `t` reads the operator's chain file. -/
def noteFile (s : State) (t : Tid) (file : FileRead) : State :=
  { s with passes := Function.update s.passes t ({ file } :: s.passes t) }

/-- Thread `t` reads the CA bundle. -/
def noteBundle (s : State) (t : Tid) (answer : Except Failure (Option (List Certificate))) :
    State :=
  { s with passes := Function.update s.passes t (Pass.withBundle answer (s.passes t)) }

end State

/-! ### Commands -/

/-- **The commands** the operations of the server are made of. -/
inductive Cmd
  | lock (n : LockName)
  | unlock (n : LockName)
  | lockMutex
  | unlockMutex
  /-- Read this replica's memory, waiting for another holder of the mutex. -/
  | getMemory
  | setMemory (m : Memory)
  | now
  | randomSerial
  | readChainFile
  /-- `x509.CreateRevocationList`, with the signing slot it waits for. -/
  | createRevocationList (template : RevocationList)
  /-- `x509.CreateCertificate`, with the signing slot it waits for. -/
  | createCertificate (template : Certificate)
  | getCRL
  | updateCRL (blob : Blob)
  | getSuperseded
  | saveSuperseded (blob : SupersededBlob)
  | hasCACert
  | getCACert
  | saveCACert (certs : List Certificate)
  | certExists (subject : Text)
  | getCert (subject : Text)
  | saveCert (subject : Text) (blob : CertBlob)
  | deleteCert (subject : Text)
  | csrExists (subject : Text)
  | getCSR (subject : Text)
  | saveCSR (subject : Text) (blob : RequestBlob)
  | deleteCSR (subject : Text)
  | serialExists (serial : Text)
  | subjectForSerial (serial : Text)
  | latestSerialForSubject (subject : Text)
  | appendInventory (entry : InventoryEntry)
  | pruneInventory (keep : InventoryEntry → Bool)
  | hasSerial
  | writeSerial
  /-- A write the modelled operations do not read back. -/
  | saveOther

@[reducible] def Cmd.Ans : Cmd → Type
  | .lock _ => Except Failure Unit
  | .unlock _ => Unit
  | .lockMutex => Unit
  | .unlockMutex => Unit
  | .getMemory => Memory
  | .setMemory _ => Unit
  | .now => Time
  | .randomSerial => Except Failure ℕ
  | .readChainFile => FileRead
  | .createRevocationList _ => Except Failure RevocationList
  | .createCertificate _ => Except Failure Certificate
  | .getCRL => Except Failure Blob
  | .updateCRL _ => Except Failure Unit
  | .getSuperseded => Except Failure SupersededBlob
  | .saveSuperseded _ => Except Failure Unit
  | .hasCACert => Except Failure Bool
  | .getCACert => Except Failure (Option (List Certificate))
  | .saveCACert _ => Except Failure Unit
  | .certExists _ => Except Failure Bool
  | .getCert _ => Except Failure CertBlob
  | .saveCert _ _ => Except Failure Unit
  | .deleteCert _ => Except Failure Unit
  | .csrExists _ => Except Failure Bool
  | .getCSR _ => Except Failure RequestBlob
  | .saveCSR _ _ => Except Failure Unit
  | .deleteCSR _ => Except Failure Unit
  | .serialExists _ => Except Failure Bool
  | .subjectForSerial _ => Except Failure Text
  | .latestSerialForSubject _ => Except Failure Text
  | .appendInventory _ => Except Failure Unit
  | .pruneInventory _ => List InventoryEntry × Option Failure
  | .hasSerial => Except Failure Bool
  | .writeSerial => Except Failure Unit
  | .saveOther => Except Failure Unit

/-- The interface of the server's operations. -/
abbrev interface : Conc.Interface := ⟨Cmd, Cmd.Ans⟩

abbrev Prog := Conc.Prog interface Failure

def cmd (c : Cmd) : Prog c.Ans := Conc.Prog.cmd (I := interface) c

theorem always_cmd_bind {α : Type} {C : Cmd → Prop} {R : Except Failure α → Prop} {c : Cmd}
    {f : c.Ans → Prog α} (hc : C c) (hf : ∀ a, (f a).Always C R) : ((cmd c).bind f).Always C R :=
  ⟨hc, hf⟩

/-- **What the environment chooses** when a command is executed. -/
structure Choice where
  /-- The command fails. -/
  fails : Bool := false
  /-- An append that reports a failure has taken effect all the same. -/
  late : Bool := false
  time : Time := 0
  /-- A random number: a serial, or what tells signatures apart. -/
  number : ℕ := 0
  /-- What is in the operator's chain file. -/
  file : FileRead := .absent
  /-- Which of the rejected entries a prune gets to remove, by their positions. -/
  removes : ℕ → Bool := fun _ => true

/-! ### Execution -/

def readOutcome {α : Type} (ch : Choice) (stored : Option α) : Except Failure α :=
  if ch.fails then .error .storage
  else match stored with
    | some a => .ok a
    | none => .error .notExist

/-- The outcome of asking storage whether an object exists. -/
def existsOutcome {α : Type} (ch : Choice) (stored : Option α) : Except Failure Bool :=
  if ch.fails then .error .storage else .ok stored.isSome

/-- The outcome of a storage write. -/
def writeOutcome (ch : Choice) (s s' : State) : Except Failure Unit × State :=
  if ch.fails then (.error .storage, s) else (.ok (), s')

/-- The outcome of deleting a stored object. -/
def deleteOutcome {α : Type} (ch : Choice) (stored : Option α) (s s' : State) :
    Except Failure Unit × State :=
  if ch.fails then (.error .storage, s)
  else match stored with
    | some _ => (.ok (), s')
    | none => (.error .notExist, s)

/-- `latestSerialForSubject`: the serial of the subject's newest entry. -/
def latestSerial (inventory : List InventoryEntry) (subject : Text) : Option Text :=
  (inventory.reverse.find? fun e => e.subject == subject).map InventoryEntry.serial

/-- `SubjectForSerial`: the subject of the first entry whose serial has the same
canonical form. -/
def findSubject (inventory : List InventoryEntry) (serial : Text) : Option Text :=
  (normaliseSerial serial).bind fun want =>
    (inventory.find? fun e => normaliseSerial e.serial == some want).map InventoryEntry.subject

/-- The entries a prune removes: those that are rejected, as far as it gets. -/
def prunedEntries (inventory : List InventoryEntry) (keep : InventoryEntry → Bool) (ch : Choice) :
    List InventoryEntry :=
  Data.retainAt (fun e i => !keep e && ch.removes i) inventory

/-- The entries it leaves. -/
def keptEntries (inventory : List InventoryEntry) (keep : InventoryEntry → Bool) (ch : Choice) :
    List InventoryEntry :=
  Data.retainAt (fun e i => !(!keep e && ch.removes i)) inventory

/-- The serial numbers of inventory entries whose text is a number. -/
def entrySerials (entries : List InventoryEntry) : List ℤ :=
  entries.filterMap fun e => setString16 e.serial

/-- **What a command does**: its answer and the state it leaves, or nothing where it
cannot be executed yet. -/
def exec (t : Tid) (s : State) : (c : Cmd) → Choice → Option (c.Ans × State)
  | .lock n, ch =>
    if ch.fails then some (.error .lock, s)
    else if s.owner n = none then some (.ok (), s.setOwner n (some t))
    else none
  | .unlock n, _ => some ((), s.setOwner n none)
  | .lockMutex, _ =>
    if s.mutex t.replica = none then
      some ((), { s with mutex := Function.update s.mutex t.replica (some t) })
    else none
  | .unlockMutex, _ => some ((), { s with mutex := Function.update s.mutex t.replica none })
  | .getMemory, _ =>
    if s.mutex t.replica = none ∨ s.mutex t.replica = some t then
      some (s.memory t.replica, s)
    else none
  | .setMemory m, _ => some ((), { s with memory := Function.update s.memory t.replica m })
  | .now, ch => some (ch.time, s.noteTime t ch.time)
  | .randomSerial, ch =>
    some (if ch.fails then .error .signing else .ok (ch.number % 2 ^ 128), s)
  | .readChainFile, ch => some (ch.file, s.noteFile t ch.file)
  | .createRevocationList template, ch =>
    some (if ch.fails then .error .signing else .ok { template with signature := ch.number }, s)
  | .createCertificate template, ch =>
    some (if ch.fails then .error .signing else .ok { template with signature := ch.number }, s)
  | .getCRL, ch => some (readOutcome ch s.crl, s.noteRead t)
  | .updateCRL blob, ch => some (writeOutcome ch s (s.setCRL t blob))
  | .getSuperseded, ch => some (readOutcome ch s.superseded, s)
  | .saveSuperseded blob, ch => some (writeOutcome ch s (s.setSuperseded t blob))
  | .hasCACert, ch => some (existsOutcome ch s.caBundle, s)
  | .getCACert, ch =>
    some (readOutcome ch s.caBundle, s.noteBundle t (readOutcome ch s.caBundle))
  | .saveCACert certs, ch => some (writeOutcome ch s { s with caBundle := some (some certs) })
  | .certExists subject, ch => some (existsOutcome ch (s.certs subject), s)
  | .getCert subject, ch => some (readOutcome ch (s.certs subject), s)
  | .saveCert subject blob, ch =>
    some (writeOutcome ch s { s with certs := Function.update s.certs subject (some blob) })
  | .deleteCert subject, ch =>
    some (deleteOutcome ch (s.certs subject) s
      { s with certs := Function.update s.certs subject none })
  | .csrExists subject, ch => some (existsOutcome ch (s.requests subject), s)
  | .getCSR subject, ch => some (readOutcome ch (s.requests subject), s)
  | .saveCSR subject blob, ch =>
    some (writeOutcome ch s { s with requests := Function.update s.requests subject (some blob) })
  | .deleteCSR subject, ch =>
    some (deleteOutcome ch (s.requests subject) s
      { s with requests := Function.update s.requests subject none })
  | .serialExists serial, ch =>
    some (if ch.fails then .error .storage
      else .ok (s.inventory.any fun e => e.serial == serial), s)
  | .subjectForSerial serial, ch => some (readOutcome ch (findSubject s.inventory serial), s)
  | .latestSerialForSubject subject, ch =>
    some (readOutcome ch (latestSerial s.inventory subject), s)
  | .appendInventory entry, ch =>
    -- An append that reports a failure may have been carried out.
    let appended := { s with inventory := s.inventory ++ [entry] }
    some (if s.inventory.any fun e => e.serial == entry.serial then (.error .serialExists, s)
      else if ch.fails then (.error .storage, if ch.late then appended else s)
      else (.ok (), appended))
  | .pruneInventory keep, ch =>
    -- What was removed before a failure stays removed.
    let removed := prunedEntries s.inventory keep ch
    some ((removed, if ch.fails then some .storage else none),
      { s with
        inventory := keptEntries s.inventory keep ch
        pruneLog := s.pruneLog ++ entrySerials removed })
  | .hasSerial, ch => some (if ch.fails then .error .storage else .ok s.serialFile, s)
  | .writeSerial, ch => some (writeOutcome ch s { s with serialFile := true })
  | .saveOther, ch => some (writeOutcome ch s s)

/-- **The machine**: any number of threads on any number of replicas. -/
abbrev machine : Conc.Machine interface := ⟨State, Tid, Choice, exec⟩

/-! ### Who changes what -/

/-- **What a command may leave behind.** Every command leaves the state alone or does
the one thing it is for. -/
inductive Effect (t : Tid) (s : State) : Cmd → State → Prop
  | none {c} : Effect t s c s
  | lock {n} : s.owner n = none → Effect t s (.lock n) (s.setOwner n (some t))
  | unlock {n} : Effect t s (.unlock n) (s.setOwner n none)
  | lockMutex : s.mutex t.replica = none →
      Effect t s .lockMutex { s with mutex := Function.update s.mutex t.replica (some t) }
  | unlockMutex :
      Effect t s .unlockMutex { s with mutex := Function.update s.mutex t.replica none }
  | setMemory {m} :
      Effect t s (.setMemory m) { s with memory := Function.update s.memory t.replica m }
  | now {time} : Effect t s .now (s.noteTime t time)
  | readChainFile {file} : Effect t s .readChainFile (s.noteFile t file)
  | getCRL : Effect t s .getCRL (s.noteRead t)
  | updateCRL {b} : Effect t s (.updateCRL b) (s.setCRL t b)
  | saveSuperseded {b} : Effect t s (.saveSuperseded b) (s.setSuperseded t b)
  | getCACert {a} : Effect t s .getCACert (s.noteBundle t a)
  | saveCACert {cs} : Effect t s (.saveCACert cs) { s with caBundle := some (some cs) }
  | saveCert {n b} :
      Effect t s (.saveCert n b) { s with certs := Function.update s.certs n (some b) }
  | deleteCert {n} : Effect t s (.deleteCert n) { s with certs := Function.update s.certs n none }
  | saveCSR {n b} :
      Effect t s (.saveCSR n b) { s with requests := Function.update s.requests n (some b) }
  | deleteCSR {n} :
      Effect t s (.deleteCSR n) { s with requests := Function.update s.requests n none }
  | appendInventory {e} :
      Effect t s (.appendInventory e) { s with inventory := s.inventory ++ [e] }
  | pruneInventory {keep} (ch : Choice) :
      Effect t s (.pruneInventory keep)
        { s with
          inventory := keptEntries s.inventory keep ch
          pruneLog := s.pruneLog ++ entrySerials (prunedEntries s.inventory keep ch) }
  | writeSerial : Effect t s .writeSerial { s with serialFile := true }

variable {t : Tid} {s s' : State} {c : Cmd} {ch : Choice}

section Prune

variable {inventory : List InventoryEntry} {keep : InventoryEntry → Bool} {e : InventoryEntry}

theorem rejected_of_mem_prunedEntries (h : e ∈ prunedEntries inventory keep ch) :
    e ∈ inventory ∧ keep e = false := by
  obtain ⟨i, hi, hgone⟩ := Data.mem_retainAt.mp h
  exact ⟨List.mem_of_getElem? hi, by simpa using (Bool.and_eq_true_iff.mp hgone).1⟩

theorem mem_of_mem_keptEntries (h : e ∈ keptEntries inventory keep ch) : e ∈ inventory :=
  (Data.retainAt_sublist _ _).mem h

theorem mem_pruned_or_kept (keep : InventoryEntry → Bool) (ch : Choice) (h : e ∈ inventory) :
    e ∈ prunedEntries inventory keep ch ∨ e ∈ keptEntries inventory keep ch :=
  List.mem_append.mp ((Data.perm_retainAt _ _).mem_iff.mpr h)

theorem mem_keptEntries_of_keep (he : e ∈ inventory) (h : keep e = true) :
    e ∈ keptEntries inventory keep ch := by
  refine (mem_pruned_or_kept keep ch he).resolve_left fun hgone => ?_
  rw [(rejected_of_mem_prunedEntries hgone).2] at h
  cases h

end Prune

theorem writeOutcome_cases {ch : Choice} {s s' s'' : State} {r : Except Failure Unit}
    (h : some (writeOutcome ch s s') = some (r, s'')) : s'' = s ∨ s'' = s' := by
  unfold writeOutcome at h
  split at h <;> cases h
  · exact Or.inl rfl
  · exact Or.inr rfl

theorem deleteOutcome_cases {α : Type} {ch : Choice} {stored : Option α} {s s' s'' : State}
    {r : Except Failure Unit} (h : some (deleteOutcome ch stored s s') = some (r, s'')) :
    s'' = s ∨ s'' = s' := by
  unfold deleteOutcome at h
  split at h
  · cases h; exact Or.inl rfl
  · split at h <;> cases h
    · exact Or.inr rfl
    · exact Or.inl rfl

/-- **Execution has no other effect.** -/
theorem exec_effect {a : c.Ans} (h : exec t s c ch = some (a, s')) : Effect t s c s' := by
  cases c with
  | lock n =>
    simp only [exec] at h
    split at h
    · cases h; exact .none
    · split at h
      · next hfree => cases h; exact .lock hfree
      · cases h
  | unlock n => cases h; exact .unlock
  | lockMutex =>
    simp only [exec] at h
    split at h
    · next hfree => cases h; exact .lockMutex hfree
    · cases h
  | unlockMutex => cases h; exact .unlockMutex
  | getMemory =>
    simp only [exec] at h
    split at h
    · cases h; exact .none
    · cases h
  | setMemory m => cases h; exact .setMemory
  | now => cases h; exact .now
  | readChainFile => cases h; exact .readChainFile
  | getCRL => cases h; exact .getCRL
  | updateCRL b => rcases writeOutcome_cases h with rfl | rfl <;> [exact .none; exact .updateCRL]
  | saveSuperseded b =>
    rcases writeOutcome_cases h with rfl | rfl <;> [exact .none; exact .saveSuperseded]
  | getCACert => cases h; exact .getCACert
  | saveCACert cs => rcases writeOutcome_cases h with rfl | rfl <;> [exact .none; exact .saveCACert]
  | saveCert n b => rcases writeOutcome_cases h with rfl | rfl <;> [exact .none; exact .saveCert]
  | deleteCert n => rcases deleteOutcome_cases h with rfl | rfl <;> [exact .none; exact .deleteCert]
  | saveCSR n b => rcases writeOutcome_cases h with rfl | rfl <;> [exact .none; exact .saveCSR]
  | deleteCSR n => rcases deleteOutcome_cases h with rfl | rfl <;> [exact .none; exact .deleteCSR]
  | appendInventory e =>
    simp only [exec] at h
    split at h
    · cases h; exact .none
    · split at h
      · cases h
        split
        · exact .appendInventory
        · exact .none
      · cases h; exact .appendInventory
  | pruneInventory keep => cases h; exact .pruneInventory ch
  | writeSerial =>
    rcases writeOutcome_cases h with rfl | rfl <;> [exact .none; exact .writeSerial]
  | saveOther => rcases writeOutcome_cases h with rfl | rfl <;> exact .none
  | _ => cases h; exact .none

end OpenvoxCa.Ca
