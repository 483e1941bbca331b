import OpenvoxCa.Conc.Among
import OpenvoxCa.Conc.Solo
import OpenvoxCa.Storage.Spelling

/-!
# Rebuilding the integrity value

`openvox-ca rebuild-inventory-hmac` is the repair of last resort for a store whose integrity value
does not verify: it reports what it finds, and, if it is told to, computes the value again from the
inventory as it stands. Two things must not happen to it. A store of an old version still keeps the
inventory in one blob, with a value computed over the blob; there is nothing to rebuild there, and
the value is the only thing that can validate the blob. And what the operator has not been shown
must not be blessed.

The second holds whatever others do meanwhile: if the command succeeds under a usable key, then the
value it has last seen is that of the inventory it had reported (`among_command`). The first is a
matter of how the report tells an old store. It looks at the blob only where there are no entries,
and a conversion that was interrupted leaves the entries it has imported beside the blob; so the
stores that are recognised are exactly those into which nothing has been imported yet, with a blob
that has an entry (`spares_iff`).

The machine has the keys of the inventory, and one request of the command each for what the backend
can tell of its locks and for the instance lock, which the environment answers. The mutex
`inventoryMu` is that of one process, in which the command is alone. A structured backend is
*chained*; for one that is not, the blob is the inventory.
-/

namespace OpenvoxCa.Storage.Rebuild

open Conc Spelling

/-! ### The blob -/

/-- The lines of a blob that are not blank. -/
def blobLines (blob : Text) : List Text :=
  (blob.splitOn '\n').filter fun line => !line.all isSpace

/-- `parseInventoryBlobCounting`: the entries, and how many lines are none. How a line spells the
serial and the subject does not decide whether it is an entry, and is left as it is. -/
def parseInventoryBlobCounting (blob : Text) : List InventoryEntry × ℕ :=
  ((blobLines blob).filterMap parseInventoryEntry,
    ((blobLines blob).filter fun line => (parseInventoryEntry line).isNone).length)

def parseInventoryBlob (blob : Text) : List InventoryEntry := (parseInventoryBlobCounting blob).1

/-- `parseInventoryRecords`: nothing, if a line is malformed. -/
def parseInventoryRecords (blob : Text) : Option (List InventoryEntry) :=
  (blobLines blob).mapM parseInventoryEntry

def renderInventoryText (entries : List InventoryEntry) : Text :=
  entries.flatMap fun e => canonicalInventoryLine e ++ ['\n']

def utf8 (text : Text) : Bytes := text.flatMap String.utf8EncodeChar

/-- What the integrity value is computed from: the entries of a chained backend, or the blob. -/
inductive Content
  | entries (es : List InventoryEntry)
  | blob (b : Text)
  deriving DecidableEq

section Values

variable (hmac : Bytes → Bytes → Bytes) (key : Bytes)

def wholeBlobInventoryMAC (blob : Text) : Bytes := hmac key (utf8 blob)

/-- `foldInventoryHead`. -/
def foldContent : Content → Bytes
  | .entries es => foldInventoryHead hmac key es
  | .blob b => wholeBlobInventoryMAC hmac key b

end Values

/-! ### The machine -/

/-- **The keys of the inventory.** -/
structure State where
  /-- `inventory/data`: a marker, or the blob of an old version; nothing, if there is no such key.
  -/
  data : Option Text := none
  /-- The entries of a chained backend. -/
  entries : List InventoryEntry := []
  /-- `KeyInventoryHMAC`. -/
  head : Option Bytes := none
  /-- `KeyHMACKey`. -/
  storedKey : Option Bytes := none
  deriving DecidableEq

/-- The flags of the command. -/
structure Flags where
  /-- `--yes-re-bless` -/
  confirm : Bool := false
  /-- `--replicas-stopped` -/
  replicasStopped : Bool := false
  deriving DecidableEq

/-- Why the command ends with an error. -/
inductive Failure
  /-- `fs.ErrNotExist`. -/
  | notExist
  /-- A request that failed. -/
  | unavailable
  /-- The store still holds an undecomposed legacy inventory. -/
  | legacyUndecomposed
  /-- No key is stored, with or without an integrity value. -/
  | noKey (hasValue : Bool)
  /-- Refused without `--yes-re-bless`. -/
  | notConfirmed
  /-- Refused without `--replicas-stopped`. -/
  | notQuiet
  /-- The value does not verify after rebuilding. -/
  | stillUnverified
  /-- The inventory changed after it was reported. -/
  | changed
  /-- `malformed inventory line`. -/
  | malformed
  /-- A blob and entries that do not match it. -/
  | mixedVersions
  /-- `ErrInventoryTampered`. -/
  | tampered
  | duplicateSerial
  deriving DecidableEq

inductive Cmd
  /-- Whether the backend coordinates locks across hosts; nothing, if that cannot be determined. -/
  | capabilities
  /-- Taking the instance lock: whether it excludes anybody. -/
  | instanceLock
  | entries
  /-- `backend.Get` of `KeyInventory`. -/
  | getInventory
  /-- `backend.Get` of `KeyHMACKey`. -/
  | getKey
  /-- `backend.Put` of `KeyHMACKey`. -/
  | putKey (key : Bytes)
  /-- `rand.Read` of `hmacKeyLen` bytes. -/
  | randomKey
  /-- Taking the lock `lockNameHMACKey`. -/
  | lockKey
  | unlockKey
  /-- `backend.Get` of `KeyInventoryHMAC`. -/
  | getHead
  /-- `backend.Put` of `KeyInventoryHMAC`. -/
  | putHead (head : Bytes)
  /-- The marker or blob, with the entries, at once. -/
  | legacyState
  /-- The integrity value and the key, at once. -/
  | headAndKey
  | clearEntries
  | importBatch (batch : List InventoryEntry)
  /-- The marker is emptied and the value is dropped, at once. -/
  | finishImport
  | appendEntry (e : InventoryEntry) (key : Option Bytes)
  | pruneEntries (keep : InventoryEntry → Bool) (key : Option Bytes)
  /-- `backend.AppendLine` to `KeyInventory`. -/
  | appendLine (line : Text)
  /-- `backend.Put` of `KeyInventory`. -/
  | putInventory (blob : Text)

@[reducible] def Cmd.Ans : Cmd → Type
  | capabilities => Option Bool
  | instanceLock => Except Failure Bool
  | entries => Except Failure (List InventoryEntry)
  | getInventory => Except Failure Text
  | getKey => Except Failure Bytes
  | putKey _ => Except Failure Unit
  | randomKey => Except Failure Bytes
  | lockKey => Except Failure Unit
  | unlockKey => Unit
  | getHead => Except Failure Bytes
  | putHead _ => Except Failure Unit
  | legacyState => Except Failure (Option Text × List InventoryEntry)
  | headAndKey => Except Failure (Option Bytes × Option Bytes)
  | clearEntries => Except Failure Unit
  | importBatch _ => Except Failure Unit
  | finishImport => Except Failure Unit
  | appendEntry _ _ => Except Failure Unit
  | pruneEntries _ _ => Except Failure Unit
  | appendLine _ => Except Failure Unit
  | putInventory _ => Except Failure Unit

abbrev interface : Interface := ⟨Cmd, Cmd.Ans⟩

abbrev Prog := Conc.Prog interface Failure

def cmd (c : Cmd) : Prog c.Ans := Conc.Prog.cmd (I := interface) c

/-- What the environment decides about a request. -/
structure Choice where
  fails : Bool := false
  /-- A write that reports a failure has taken effect. -/
  late : Bool := false
  /-- What it answers about locks. -/
  locks : Option Bool := some true
  random : Bytes := []

def hmacKeyLen : ℕ := 32

/-- As many bytes as a key has, made of those drawn. -/
def fillKey (random : Bytes) : Bytes := (random ++ List.replicate hmacKeyLen 0).take hmacKeyLen

def reads {α : Type} (ch : Choice) (s : State) (a : Except Failure α) :
    Option (Except Failure α × State) :=
  some (if ch.fails then .error .unavailable else a, s)

def writes (ch : Choice) (s s' : State) : Option (Except Failure Unit × State) :=
  some (if ch.fails then (.error .unavailable, if ch.late then s' else s) else (.ok (), s'))

/-- A blob, or `fs.ErrNotExist`. -/
def orNotExist {α : Type} : Option α → Except Failure α
  | some a => .ok a
  | none => .error .notExist

/-- `getInventory` of a chained backend: the entries as text, or a blob beside which there are
none. -/
def State.inventoryText (s : State) : Option Text :=
  match s.data, s.entries with
  | none, [] => none
  | some blob, [] => some blob
  | _, es => some (renderInventoryText es)

/-- **What a request does.** -/
def exec (hmac : Bytes → Bytes → Bytes) (chained : Bool) (_ : Tid) (s : State) :
    (c : Cmd) → Choice → Option (c.Ans × State)
  | .capabilities, ch => some (if ch.fails then none else ch.locks, s)
  | .instanceLock, ch => reads ch s (.ok (ch.locks = some true))
  | .entries, ch => reads ch s (.ok s.entries)
  | .getInventory, ch => reads ch s (orNotExist (if chained then s.inventoryText else s.data))
  | .getKey, ch => reads ch s (orNotExist s.storedKey)
  | .putKey key, ch => writes ch s { s with storedKey := some key }
  | .randomKey, ch => reads ch s (.ok (fillKey ch.random))
  | .lockKey, ch => reads ch s (.ok ())
  | .unlockKey, _ => some ((), s)
  | .getHead, ch => reads ch s (orNotExist s.head)
  | .putHead head, ch => writes ch s { s with head := some head }
  | .legacyState, ch => reads ch s (.ok (s.data, s.entries))
  | .headAndKey, ch => reads ch s (.ok (s.head, s.storedKey))
  | .clearEntries, ch => writes ch s { s with entries := [] }
  | .importBatch batch, ch => writes ch s { s with entries := s.entries ++ batch }
  | .finishImport, ch => writes ch s { s with data := some [], head := none }
  | .appendEntry e key, ch => writes ch s
      { s with
        entries := s.entries ++ [e]
        head := match key with
          | some key => some (advanceHead hmac key (s.head.getD []) e)
          | none => s.head }
  | .pruneEntries keep key, ch => writes ch s
      { s with
        entries := s.entries.filter keep
        head := match key with
          | some key => some (foldInventoryHead hmac key (s.entries.filter keep))
          | none => s.head }
  | .appendLine line, ch => writes ch s { s with data := some (s.data.getD [] ++ line) }
  | .putInventory blob, ch => writes ch s { s with data := some blob }

abbrev machine (hmac : Bytes → Bytes → Bytes) (chained : Bool) : Machine interface :=
  ⟨State, Tid, Choice, exec hmac chained⟩

/-! ### The report -/

inductive HMACKeyState
  | usable | absent | wrongLength
  deriving DecidableEq

/-- `InventoryIntegrityReport`, with what it was computed from. -/
structure Report where
  content : Content
  /-- `KeyState`, with the key that was found. -/
  key : Option Bytes
  storedHead : Option Bytes
  legacyUndecomposed : Bool
  deriving DecidableEq

namespace Report

def keyState (rep : Report) : HMACKeyState :=
  match rep.key with
  | some key => if key.length = hmacKeyLen then .usable else .wrongLength
  | none => .absent

def entries (rep : Report) : ℕ :=
  match rep.content with
  | .entries es => es.length
  | .blob b => (parseInventoryBlob b).length

def unparseableLines (rep : Report) : ℕ :=
  match rep.content with
  | .entries _ => 0
  | .blob b => (parseInventoryBlobCounting b).2

/-- `ComputedHead`: nothing, unless the key is usable. -/
def computedHead (hmac : Bytes → Bytes → Bytes) (rep : Report) : Option Bytes :=
  match rep.key with
  | some key => if key.length = hmacKeyLen then some (foldContent hmac key rep.content) else none
  | none => none

def verifies (hmac : Bytes → Bytes → Bytes) (rep : Report) : Bool :=
  match rep.storedHead, rep.computedHead hmac with
  | some stored, some computed => stored = computed
  | _, _ => false

end Report

section Programs

variable (hmac : Bytes → Bytes → Bytes) (chained : Bool)

/-- A value, or nothing where there is none. -/
def optional {α : Type} (p : Prog (Except Failure α)) : Prog (Option α) :=
  p.bind fun
    | .ok a => .ret (some a)
    | .error .notExist => .ret none
    | .error e => .fail e

def readInventoryForHMAC : Prog Text :=
  (optional (cmd .getInventory)).bind fun blob => .ret (blob.getD [])

/-- Whether a chained store without entries still has them in a blob. -/
def detectLegacy : Content → Prog Bool
  | .entries [] => readInventoryForHMAC.bind fun legacy =>
      .ret (!(parseInventoryBlob legacy).isEmpty)
  | _ => .ret false

/-- The inventory, as the report reads it. -/
def readContent : Prog Content :=
  if chained then (cmd .entries).orFail.bind fun es => .ret (.entries es)
  else readInventoryForHMAC.bind fun blob => .ret (.blob blob)

def inventoryIntegrityReport : Prog Report :=
  (readContent chained).bind fun content =>
    (detectLegacy content).bind fun legacy =>
      (optional (cmd .getKey)).bind fun key =>
        (optional (cmd .getHead)).bind fun head =>
          .ret { content, key, storedHead := head, legacyUndecomposed := legacy }

/-! ### The command -/

/-- `loadHMACKey`: the stored key, if there is one of the right length. -/
def loadHMACKey : Prog (Option Bytes) :=
  (optional (cmd .getKey)).bind fun key => .ret (key.filter fun key => key.length = hmacKeyLen)

/-- The section of `EnsureHMACKey` under the lock. -/
def ensureHMACKeyLocked : Prog Bytes :=
  loadHMACKey.bind fun
    | some key => .ret key
    | none => (cmd .randomKey).orFail.bind fun fresh =>
        (cmd (.putKey fresh)).orFail.bind fun _ => .ret fresh

def ensureHMACKey : Prog Bytes :=
  loadHMACKey.bind fun
    | some key => .ret key
    | none => (cmd .lockKey).orFail.bind fun _ => ensureHMACKeyLocked.ensure (cmd .unlockKey)

def updateInventoryHMAC (key : Bytes) : Prog Unit :=
  (readContent chained).bind fun content => (cmd (.putHead (foldContent hmac key content))).orFail

def rebuildInventoryHMAC : Prog Unit :=
  (optional (cmd .getKey)).bind fun
    | none => .ret ()
    | some _ => ensureHMACKey.bind fun key => updateInventoryHMAC hmac chained key

/-- How the command ends without an error. -/
inductive Outcome
  /-- The stored value verifies. -/
  | verified (rep : Report)
  /-- No value is stored, so that there is nothing to rebuild. -/
  | noValue (rep : Report)
  /-- The value has been rebuilt. -/
  | rebuilt (rep after : Report)
  deriving DecidableEq

/-- Whether the inventory has changed since it was reported, as far as that can be told. -/
def contentChanged (rep after : Report) : Bool :=
  match rep.keyState with
  | .usable => after.storedHead.getD [] ≠ (rep.computedHead hmac).getD []
  | _ => after.entries ≠ rep.entries || after.unparseableLines ≠ rep.unparseableLines

/-- What the command does once it has decided to rebuild. -/
def rebuildAndCheck (rep : Report) : Prog Outcome :=
  (rebuildInventoryHMAC hmac chained).bind fun _ =>
    (inventoryIntegrityReport chained).bind fun after =>
      if !after.verifies hmac then .fail .stillUnverified
      else if contentChanged hmac rep after then .fail .changed
      else .ret (.rebuilt rep after)

/-- What the command does once the store has been found quiet. -/
def rebuildQuiet (flags : Flags) (rep : Report) : Prog Outcome :=
  (cmd .instanceLock).orFail.bind fun enforced =>
    if !enforced && !flags.replicasStopped then .fail .notQuiet
    else rebuildAndCheck hmac chained rep

/-- What the command makes of the report. -/
def actOn (flags : Flags) (locks : Option Bool) (rep : Report) : Prog Outcome :=
  if rep.legacyUndecomposed then .fail .legacyUndecomposed
  else if rep.keyState = .absent then .fail (.noKey rep.storedHead.isSome)
  else if rep.verifies hmac then .ret (.verified rep)
  else if rep.storedHead = none then .ret (.noValue rep)
  else if !flags.confirm then .fail .notConfirmed
  else if locks ≠ some false && !flags.replicasStopped then .fail .notQuiet
  else rebuildQuiet hmac chained flags rep

/-- **`rebuild-inventory-hmac`.** -/
def rebuildCommand (flags : Flags) : Prog Outcome :=
  (cmd .capabilities).bind fun locks =>
    (inventoryIntegrityReport chained).bind fun rep => actOn hmac chained flags locks rep

/-! ### The conversion -/

/-- `etcdImportBatch`. -/
def importBatchSize : ℕ := 32

def verifyLegacyInventoryMAC (blob : Text) : Prog Unit :=
  (cmd .headAndKey).orFail.bind fun
    | (none, _) => .ret ()
    | (some _, none) => .fail .tampered
    | (some stored, some key) =>
      if key.length = hmacKeyLen ∧ stored = wholeBlobInventoryMAC hmac key blob then .ret ()
      else .fail .tampered

/-- The batches, one after the other. -/
def importBatches : List (List InventoryEntry) → Prog Unit
  | [] => .ret ()
  | batch :: rest => (cmd (.importBatch batch)).orFail.bind fun _ => importBatches rest

/-- `replaceInventoryOnce`. What guards its transactions notices other writers, and is left out. -/
def replaceInventoryOnce (recs : List InventoryEntry) : Prog Unit :=
  (cmd .clearEntries).orFail.bind fun _ =>
    (importBatches (recs.toChunks importBatchSize)).bind fun _ => (cmd .finishImport).orFail

/-- **`decomposeLegacyInventory`**, of a blob that is there. -/
def decomposeLegacyInventory : Prog Unit :=
  (cmd .legacyState).orFail.bind fun (data, entries) =>
    if data.getD [] = [] then .ret ()
    else match parseInventoryRecords (data.getD []) with
      | none => .fail .malformed
      | some recs =>
        if entries <+: recs then
          (verifyLegacyInventoryMAC hmac (data.getD [])).bind fun _ => replaceInventoryOnce recs
        else .fail .mixedVersions

/-! ### Whole-blob backends -/

/-- What `AppendInventoryRecord` does where the inventory is a blob. -/
def appendToBlob (e : InventoryEntry) (key : Option Bytes) : Prog Unit :=
  readInventoryForHMAC.bind fun data =>
    if (parseInventoryBlob data).any fun old =>
        (readEntry old).serial = inventorySerial e.serial then .fail .duplicateSerial
    else
      let line := canonicalInventoryLine (openVoxEntry e) ++ ['\n']
      (cmd (.appendLine line)).orFail.bind fun _ => match key with
        | none => .ret ()
        | some key => (cmd (.putHead (wholeBlobInventoryMAC hmac key (data ++ line)))).orFail

/-- What `PruneInventory` does there: the lines that stay are written back as they are. -/
def pruneBlob (keep : InventoryEntry → Bool) (key : Option Bytes) : Prog Unit :=
  readInventoryForHMAC.bind fun data =>
    let stays := fun line => (parseInventoryEntry line).all fun e => keep (readEntry e)
    let lines := data.splitBy fun c _ => c ≠ '\n'
    if lines.all stays then .ret ()
    else (cmd (.putInventory (lines.filter stays).flatten)).orFail.bind fun _ => match key with
      | none => .ret ()
      | some key => updateInventoryHMAC hmac false key

end Programs

/-! ### The replicas -/

/-- The command, and what other replicas do. -/
inductive Job
  | rebuild (flags : Flags)
  | append (e : InventoryEntry) (key : Option Bytes)
  | prune (keep : InventoryEntry → Bool) (key : Option Bytes)
  | decompose

def body (hmac : Bytes → Bytes → Bytes) (chained : Bool) : Job → Prog (Option Outcome)
  | .rebuild flags => (rebuildCommand hmac chained flags).bind fun outcome => .ret (some outcome)
  | .append e key =>
    (if chained then (cmd (.appendEntry e key)).orFail else appendToBlob hmac e key).bind fun _ =>
      .ret none
  | .prune keep key =>
    (if chained then (cmd (.pruneEntries keep key)).orFail else pruneBlob hmac keep key).bind
      fun _ => .ret none
  | .decompose => (decomposeLegacyInventory hmac).bind fun _ => .ret none

/-- **Any number of threads.** -/
abbrev work (hmac : Bytes → Bytes → Bytes) (chained : Bool) : Workload interface Tid :=
  ⟨Job, Failure, Option Outcome, fun _ job => body hmac chained job⟩

/-! ### What the report says -/

/-- The inventory the integrity value is computed from. -/
def State.content (chained : Bool) (s : State) : Content :=
  if chained then .entries s.entries else .blob (s.data.getD [])

/-- What the report on a chained store says. -/
def State.report (s : State) : Report where
  content := .entries s.entries
  key := s.storedKey
  storedHead := s.head
  legacyUndecomposed :=
    s.entries.isEmpty && !(parseInventoryBlob (s.inventoryText.getD [])).isEmpty

section Alone

variable {hmac : Bytes → Bytes → Bytes} {t : Tid} {s : State}

theorem reads_entries : Reads (machine hmac true) t s (cmd .entries).orFail s.entries where
  only h := by
    obtain ⟨ch, a, s₁, es₁, hex, hrest, -⟩ := h.call_inv
    cases hex
    obtain ⟨-, rfl, rfl⟩ := hrest.ofExcept_inv
    exact ⟨rfl, by cases ch.fails <;> simp⟩
  can := .bind (.cmd {} rfl) .ret

/-- Reading a key that may be missing. -/
theorem reads_optional {α : Type} {p : Prog (Except Failure α)} {x : Option α}
    (honly : ∀ {es r s'}, Solo (machine hmac true) t s p es r s' →
      s' = s ∧ (r = .ok (orNotExist x) ∨ r = .ok (.error .unavailable)))
    (hcan : CanRun (machine hmac true) t s p (.ok (orNotExist x)) s) :
    Reads (machine hmac true) t s (optional p) x where
  only h := by
    rcases h.bind_inv with ⟨e, h₁, rfl⟩ | ⟨a, s₁, es₁, es₂, h₁, h₂, -⟩
    · rcases honly h₁ with ⟨-, hr | hr⟩ <;> cases hr
    · rcases honly h₁ with ⟨rfl, hr | hr⟩
      · cases hr
        cases x with
        | none | some =>
          obtain ⟨-, rfl, rfl⟩ := h₂.ret_inv
          exact ⟨rfl, Or.inl rfl⟩
      · cases hr
        obtain ⟨-, rfl, rfl⟩ := h₂.fail_inv
        exact ⟨rfl, Or.inr ⟨_, rfl⟩⟩
  can := by
    refine hcan.bind ?_
    cases x with
    | none | some => exact .ret

theorem reads_getKey : Reads (machine hmac true) t s (optional (cmd .getKey)) s.storedKey := by
  refine reads_optional (fun h => ?_) (.cmd {} rfl)
  obtain ⟨ch, a, s₁, es₁, hex, hrest, -⟩ := h.call_inv
  cases hex
  obtain ⟨-, rfl, rfl⟩ := hrest.ret_inv
  exact ⟨rfl, by cases ch.fails <;> simp⟩

theorem reads_getHead : Reads (machine hmac true) t s (optional (cmd .getHead)) s.head := by
  refine reads_optional (fun h => ?_) (.cmd {} rfl)
  obtain ⟨ch, a, s₁, es₁, hex, hrest, -⟩ := h.call_inv
  cases hex
  obtain ⟨-, rfl, rfl⟩ := hrest.ret_inv
  exact ⟨rfl, by cases ch.fails <;> simp⟩

theorem reads_getInventory :
    Reads (machine hmac true) t s readInventoryForHMAC (s.inventoryText.getD []) := by
  refine Reads.bind (reads_optional (fun h => ?_) (.cmd {} rfl)) .ret
  obtain ⟨ch, a, s₁, es₁, hex, hrest, -⟩ := h.call_inv
  cases hex
  obtain ⟨-, rfl, rfl⟩ := hrest.ret_inv
  exact ⟨rfl, by cases ch.fails <;> simp⟩

theorem reads_content :
    Reads (machine hmac true) t s (readContent true) (.entries s.entries) :=
  Reads.bind (f := fun es => .ret (Content.entries es)) reads_entries .ret

theorem reads_detectLegacy : Reads (machine hmac true) t s (detectLegacy (.entries s.entries))
    s.report.legacyUndecomposed := by
  unfold State.report
  cases hes : s.entries with
  | nil => exact reads_getInventory.bind .ret
  | cons e es => exact .ret

/-- **The report says how the store is.** -/
theorem reads_report :
    Reads (machine hmac true) t s (inventoryIntegrityReport true) s.report :=
  reads_content.bind <| reads_detectLegacy.bind <| reads_getKey.bind <| reads_getHead.bind .ret

/-- A store without a key, or one that is recognised as an old one, is left alone. -/
theorem refuses {flags : Flags} {es : List (Exchange interface)} {r : Except Failure Outcome}
    {s' : State} (h : Solo (machine hmac true) t s (rebuildCommand hmac true flags) es r s')
    (hs : s.report.legacyUndecomposed = true ∨ s.storedKey = none) :
    (∃ e, r = .error e) ∧ s' = s := by
  obtain ⟨ch, a, s₁, es₁, hex, hrest, -⟩ := h.call_inv
  cases hex
  rcases Solo.bind_inv (p := inventoryIntegrityReport true) hrest with
    ⟨e, h₁, rfl⟩ | ⟨rep, s₁, es₁, es₂, h₁, h₂, -⟩
  · exact ⟨⟨e, rfl⟩, (reads_report.only h₁).1⟩
  obtain ⟨rfl, hr | ⟨e, he⟩⟩ := reads_report.only h₁
  · cases hr
    unfold actOn at h₂
    split_ifs at h₂ with hlegacy habsent
    · obtain ⟨-, rfl, rfl⟩ := h₂.fail_inv
      exact ⟨⟨_, rfl⟩, rfl⟩
    · obtain ⟨-, rfl, rfl⟩ := h₂.fail_inv
      exact ⟨⟨_, rfl⟩, rfl⟩
    all_goals
      rcases hs with hs | hs
      · exact absurd hs hlegacy
      · exact absurd (by simp [Report.keyState, State.report, hs]) habsent
  · cases he

theorem reads_loadHMACKey : Reads (machine hmac true) t s loadHMACKey
    (s.storedKey.filter fun key => key.length = hmacKeyLen) :=
  reads_getKey.bind .ret

variable {key : Bytes}

/-- The value is computed again, from the entries there are. -/
theorem canRun_update : CanRun (machine hmac true) t s
    (updateInventoryHMAC hmac true key) (.ok ())
    { s with head := some (foldInventoryHead hmac key s.entries) } :=
  reads_content.can.bind (.bind (.cmd {} rfl) .ret)

/-- A key that is usable is kept. -/
theorem canRun_ensure_usable (hkey : s.storedKey = some key) (hlen : key.length = hmacKeyLen) :
    CanRun (machine hmac true) t s ensureHMACKey (.ok key) s := by
  refine reads_loadHMACKey.can.bind ?_
  rw [hkey, Option.filter_some, if_pos (by simpa using hlen)]
  exact .ret

/-- One that is not is replaced. -/
theorem canRun_ensure_mint (hkey : s.storedKey = some key) (hlen : key.length ≠ hmacKeyLen) :
    CanRun (machine hmac true) t s ensureHMACKey (.ok (fillKey []))
      { s with storedKey := some (fillKey []) } := by
  have hnone : (s.storedKey.filter fun key => key.length = hmacKeyLen) = none := by
    rw [hkey, Option.filter_some, if_neg (by simpa using hlen)]
  have hlocked : CanRun (machine hmac true) t s ensureHMACKeyLocked (.ok (fillKey []))
      { s with storedKey := some (fillKey []) } := by
    refine reads_loadHMACKey.can.bind ?_
    rw [hnone]
    exact .bind (.bind (.cmd {} rfl) .ret) (.bind (.bind (.cmd {} rfl) .ret) .ret)
  refine reads_loadHMACKey.can.bind ?_
  rw [hnone]
  exact .bind (.bind (.cmd {} rfl) .ret) (hlocked.ensure (.cmd {} rfl))

/-- **Rebuilding a value that does not verify changes the store.** -/
theorem canRun_rebuild (hkey : s.storedKey = some key)
    (hunverified : s.report.verifies hmac = false) (hhead : s.head ≠ none) :
    ∃ s', s' ≠ s ∧ CanRun (machine hmac true) t s (rebuildInventoryHMAC hmac true) (.ok ()) s' := by
  obtain ⟨head, hhead⟩ := Option.ne_none_iff_exists'.mp hhead
  have hfirst := (@reads_getKey hmac t s).can
  rw [hkey] at hfirst
  by_cases hlen : key.length = hmacKeyLen
  · refine ⟨_, ?_, hfirst.bind ((canRun_ensure_usable hkey hlen).bind canRun_update)⟩
    intro heq
    have hsame : some (foldInventoryHead hmac key s.entries) = s.head := congrArg State.head heq
    rw [hhead] at hsame
    simp [Report.verifies, Report.computedHead, State.report, foldContent, hkey, hlen, hhead,
      Option.some.inj hsame] at hunverified
  · refine ⟨_, ?_, hfirst.bind ((canRun_ensure_mint hkey hlen).bind canRun_update)⟩
    intro heq
    have hsame : some (fillKey []) = s.storedKey := congrArg State.storedKey heq
    rw [hkey] at hsame
    obtain rfl := Option.some.inj hsame
    exact hlen rfl

/-- **Nothing else is refused** for good: with both flags the command ends without an error, or it
changes the store. -/
theorem canRun_command (hlegacy : s.report.legacyUndecomposed = false)
    (hkey : s.storedKey = some key) :
    ∃ r s', CanRun (machine hmac true) t s (rebuildCommand hmac true ⟨true, true⟩) r s' ∧
      ((∃ o, r = .ok o) ∨ s' ≠ s) := by
  have habsent : s.report.keyState ≠ .absent := by
    simp only [Report.keyState, State.report, hkey]
    split_ifs <;> simp
  -- The report is the same in all cases; what follows it is settled by `hact`.
  suffices hact : ∃ r s', CanRun (machine hmac true) t s
      (actOn hmac true ⟨true, true⟩ (some true) s.report) r s' ∧ ((∃ o, r = .ok o) ∨ s' ≠ s) by
    obtain ⟨r, s', hrun, hend⟩ := hact
    exact ⟨r, s', .bind (.cmd {} rfl) (reads_report.can.bind hrun), hend⟩
  unfold actOn
  rw [if_neg (by simp [hlegacy]), if_neg habsent]
  split_ifs with hverifies hhead hconfirm hquiet
  · exact ⟨_, _, .ret, Or.inl ⟨_, rfl⟩⟩
  · exact ⟨_, _, .ret, Or.inl ⟨_, rfl⟩⟩
  · cases hconfirm
  · simp at hquiet
  · obtain ⟨s', hne, hrebuild⟩ := @canRun_rebuild hmac t s _ hkey
      (by simpa using hverifies) hhead
    have hcheck : ∃ r,
        CanRun (machine hmac true) t s (rebuildAndCheck hmac true s.report) r s' := by
      suffices hlast : ∃ r, CanRun (machine hmac true) t s'
          (if !s'.report.verifies hmac then .fail .stillUnverified
            else if contentChanged hmac s.report s'.report then .fail .changed
            else .ret (.rebuilt s.report s'.report) : Prog Outcome) r s' by
        obtain ⟨r, hlast⟩ := hlast
        exact ⟨r, hrebuild.bind (reads_report.can.bind hlast)⟩
      split_ifs
      · exact ⟨_, .fail⟩
      · exact ⟨_, .fail⟩
      · exact ⟨_, .ret⟩
    obtain ⟨r, hcheck⟩ := hcheck
    refine ⟨r, s', ?_, Or.inr hne⟩
    exact .bind (a := true) (.bind (.cmd {} rfl) .ret) hcheck

end Alone

/-! ### What the command has seen -/

namespace Outcome

/-- The report the operator was shown. -/
def report : Outcome → Report
  | verified rep | noValue rep | rebuilt rep _ => rep

/-- The command says that the value is good. -/
def Reassures : Outcome → Prop
  | verified _ | rebuilt _ _ => True
  | noValue _ => False

end Outcome

section Among

variable {hmac : Bytes → Bytes → Bytes} {chained : Bool} {t : Tid}
  {tr : List (Moment (machine hmac chained))}

theorem orNotExist_inj {α : Type} {x y : Option α} {fails : Bool}
    (h : (if fails then .error .unavailable else orNotExist y) = orNotExist x) : y = x := by
  cases fails <;> cases x <;> cases y <;> simp_all [orNotExist]

theorem among_optional {α : Type} {p : Prog (Except Failure α)} {x : Option α}
    (h : Among (machine hmac chained) t (optional p) tr (.ok x)) :
    Among (machine hmac chained) t p tr (.ok (orNotExist x)) := by
  obtain ⟨r, tr₁, tr₂, hp, hret, rfl⟩ := h.bind_inv_ok
  rcases r with e | a
  · cases e
    case notExist =>
      obtain ⟨rfl, hx⟩ := hret.ret_inv
      cases hx
      rwa [List.append_nil]
    all_goals cases hret.fail_inv.2
  · obtain ⟨rfl, hx⟩ := hret.ret_inv
    cases hx
    rwa [List.append_nil]

theorem among_getHead {x : Option Bytes}
    (h : Among (machine hmac chained) t (optional (cmd .getHead)) tr (.ok x)) :
    ∃ m, tr = [m] ∧ x = m.state.head := by
  obtain ⟨s, s', ch, a, tr', hex, hrest, rfl⟩ := (among_optional h).call_inv
  cases hex
  obtain ⟨rfl, ha⟩ := hrest.ret_inv
  exact ⟨_, rfl, (orNotExist_inj (Except.ok.inj ha).symm).symm⟩

/-- The inventory is read with one request, and what is read is what is there. -/
theorem among_readContent {content : Content}
    (h : Among (machine hmac chained) t (readContent chained) tr (.ok content)) :
    ∃ m, tr = [m] ∧ content = m.state.content chained := by
  cases chained with
  | true =>
    obtain ⟨es, tr₁, tr₂, h₁, h₂, rfl⟩ :=
      Among.bind_inv_ok (p := (cmd .entries).orFail) (f := fun es => .ret (Content.entries es))
        h
    obtain ⟨rfl, hes⟩ := h₂.ret_inv
    cases hes
    obtain ⟨s, s', ch, a, tr', hex, hrest, rfl⟩ := h₁.orFail_inv_ok.call_inv
    cases hex
    obtain ⟨rfl, ha⟩ := hrest.ret_inv
    rcases hfails : ch.fails
    · rw [hfails] at ha
      cases Except.ok.inj (Except.ok.inj ha)
      exact ⟨_, rfl, rfl⟩
    · rw [hfails] at ha
      cases Except.ok.inj ha
  | false =>
    obtain ⟨blob, tr₁, tr₂, h₁, h₂, rfl⟩ :=
      Among.bind_inv_ok (p := readInventoryForHMAC) (f := fun blob => .ret (Content.blob blob)) h
    obtain ⟨rfl, hblob⟩ := h₂.ret_inv
    cases hblob
    obtain ⟨x, tr₃, tr₄, h₃, h₄, rfl⟩ := h₁.bind_inv_ok
    obtain ⟨rfl, hx⟩ := h₄.ret_inv
    cases hx
    obtain ⟨s, s', ch, a, tr', hex, hrest, rfl⟩ := (among_optional h₃).call_inv
    cases hex
    obtain ⟨rfl, ha⟩ := hrest.ret_inv
    have hx := orNotExist_inj (Except.ok.inj ha).symm
    exact ⟨_, rfl, by simp [State.content, ← hx]⟩

/-- **The report is made of its first moment and its last**: what it says of the inventory, and of
the value. -/
theorem among_report {rep : Report}
    (h : Among (machine hmac chained) t (inventoryIntegrityReport chained) tr (.ok rep)) :
    ∃ m₁ mid m₂, tr = m₁ :: (mid ++ [m₂]) ∧ rep.content = m₁.state.content chained ∧
      rep.storedHead = m₂.state.head := by
  obtain ⟨content, tr₁, tr₂, hcontent, h₂, rfl⟩ := h.bind_inv_ok
  obtain ⟨legacy, tr₃, tr₄, -, h₄, rfl⟩ := h₂.bind_inv_ok
  obtain ⟨key, tr₅, tr₆, -, h₆, rfl⟩ := h₄.bind_inv_ok
  obtain ⟨head, tr₇, tr₈, hhead, h₈, rfl⟩ := h₆.bind_inv_ok
  obtain ⟨rfl, hrep⟩ := h₈.ret_inv
  obtain ⟨m₁, rfl, hm₁⟩ := among_readContent hcontent
  obtain ⟨m₂, rfl, hm₂⟩ := among_getHead hhead
  cases hrep
  exact ⟨m₁, tr₃ ++ tr₅, m₂, by simp, hm₁, hm₂⟩

variable (hmac) in
/-- A usable key: there is one, and the report has computed the value under it. -/
theorem Report.computedHead_of_usable {rep : Report} (h : rep.keyState = .usable) :
    ∃ key, rep.key = some key ∧
      rep.computedHead hmac = some (foldContent hmac key rep.content) := by
  unfold Report.keyState at h
  cases hkey : rep.key with
  | none => simp [hkey] at h
  | some key =>
    by_cases hlen : key.length = hmacKeyLen
    · exact ⟨key, rfl, by simp [Report.computedHead, hkey, hlen]⟩
    · simp [hkey, hlen] at h

theorem Report.storedHead_of_verifies {rep : Report} (h : rep.verifies hmac = true) :
    ∃ head, rep.storedHead = some head ∧ rep.computedHead hmac = some head := by
  unfold Report.verifies at h
  cases hstored : rep.storedHead with
  | none => simp [hstored] at h
  | some stored =>
    cases hcomputed : rep.computedHead hmac with
    | none => simp [hstored, hcomputed] at h
    | some computed =>
      simp only [hstored, hcomputed, decide_eq_true_eq] at h
      exact ⟨stored, rfl, by rw [h]⟩

/-- What a check after a rebuild has seen last: the value of what had been reported. -/
theorem among_rebuildAndCheck {rep : Report} {o : Outcome}
    (h : Among (machine hmac chained) t (rebuildAndCheck hmac chained rep) tr (.ok o)) :
    ∃ after mid m, o = .rebuilt rep after ∧ tr = mid ++ [m] ∧
      (rep.keyState = .usable → m.state.head = rep.computedHead hmac) := by
  obtain ⟨_, tr₁, tr₂, -, h₂, rfl⟩ := h.bind_inv_ok
  obtain ⟨after, tr₃, tr₄, hafter, h₄, rfl⟩ := h₂.bind_inv_ok
  obtain ⟨m₁, mid, m₂, rfl, -, hhead⟩ := among_report hafter
  split_ifs at h₄ with hverifies hchanged
  · cases h₄.fail_inv.2
  · cases h₄.fail_inv.2
  · obtain ⟨rfl, ho⟩ := h₄.ret_inv
    cases ho
    refine ⟨after, tr₁ ++ m₁ :: mid, m₂, rfl, by simp, fun husable => ?_⟩
    obtain ⟨key, -, hcomputed⟩ := Report.computedHead_of_usable hmac husable
    obtain ⟨head, hstored, -⟩ := Report.storedHead_of_verifies (by simpa using hverifies)
    simp only [contentChanged, husable, hstored, hcomputed, Option.getD_some, ne_eq,
      decide_not, Bool.not_eq_true, Bool.not_eq_false', decide_eq_true_eq] at hchanged
    rw [← hhead, hstored, hcomputed, hchanged]

/-- **The command blesses what it has shown.** Its second moment is that of the inventory it
reports; at its last moment the stored value is the one computed from that inventory. -/
theorem among_command {flags : Flags} {o : Outcome} (hreassures : o.Reassures)
    (husable : o.report.keyState = .usable)
    (h : Among (machine hmac chained) t (rebuildCommand hmac chained flags) tr (.ok o)) :
    ∃ m₀ m₁ mid m₂ key, tr = m₀ :: m₁ :: (mid ++ [m₂]) ∧ o.report.key = some key ∧
      o.report.content = m₁.state.content chained ∧
      m₂.state.head = some (foldContent hmac key (m₁.state.content chained)) := by
  obtain ⟨s, s', ch, locks, tr, -, h₁, rfl⟩ := h.call_inv
  obtain ⟨rep, tr₁, tr₂, hrep, h₂, rfl⟩ :=
    Among.bind_inv_ok (p := inventoryIntegrityReport chained) h₁
  obtain ⟨m₁, mid, m₂, rfl, hcontent, hhead⟩ := among_report hrep
  unfold actOn at h₂
  split_ifs at h₂ with _ _ hverifies
  · cases h₂.fail_inv.2
  · cases h₂.fail_inv.2
  · -- The report has found the stored value good.
    obtain ⟨rfl, ho⟩ := h₂.ret_inv
    cases ho
    obtain ⟨key, hkey, hcomputed⟩ := Report.computedHead_of_usable hmac husable
    obtain ⟨head, hstored, hhead'⟩ := Report.storedHead_of_verifies hverifies
    refine ⟨⟨s, .capabilities, locks⟩, m₁, mid, m₂, key, by simp, hkey, hcontent, ?_⟩
    rw [← hhead, hstored, ← hhead', ← hcontent]
    exact hcomputed
  · obtain ⟨rfl, ho⟩ := h₂.ret_inv
    cases ho
    exact hreassures.elim
  · cases h₂.fail_inv.2
  · cases h₂.fail_inv.2
  · -- It was not: another is written, and the check after it finds what the report computed.
    obtain ⟨enforced, tr₃, tr₄, -, h₄, rfl⟩ := h₂.bind_inv_ok
    split_ifs at h₄
    · cases h₄.fail_inv.2
    · obtain ⟨after, mid', m, rfl, rfl, hlast⟩ := among_rebuildAndCheck h₄
      obtain ⟨key, hkey, hcomputed⟩ := Report.computedHead_of_usable hmac husable
      refine ⟨⟨s, .capabilities, locks⟩, m₁, mid ++ m₂ :: (tr₃ ++ mid'), m, key, by simp, hkey,
        hcontent, ?_⟩
      rw [hlast husable, ← hcontent]
      exact hcomputed

end Among

/-! ### The law -/

/-- The command leaves the store alone, with an error, whichever flags it is given. -/
def Spares (hmac : Bytes → Bytes → Bytes) (t : Tid) (s : State) : Prop :=
  ∀ flags es r s', Solo (machine hmac true) t s (rebuildCommand hmac true flags) es r s' →
    (∃ e, r = .error e) ∧ s' = s

/-- **The stores with a blob that are left alone.** -/
theorem spares_iff {hmac : Bytes → Bytes → Bytes} {t : Tid} {s : State} {blob : Text}
    (hdata : s.data = some blob) :
    Spares hmac t s ↔ (s.entries = [] ∧ parseInventoryBlob blob ≠ []) ∨ s.storedKey = none := by
  have hlegacy : s.report.legacyUndecomposed = true ↔
      s.entries = [] ∧ parseInventoryBlob blob ≠ [] := by
    unfold State.report State.inventoryText
    cases hes : s.entries with
    | nil => simp [hdata]
    | cons e es => simp
  rw [← hlegacy]
  refine ⟨fun h => ?_, fun h flags es r s' hrun => refuses hrun h⟩
  by_contra hnot
  obtain ⟨hlegacy, hkey⟩ := not_or.mp hnot
  obtain ⟨key, hkey⟩ := Option.ne_none_iff_exists'.mp hkey
  obtain ⟨r, s', ⟨es, hrun⟩, hend⟩ :=
    @canRun_command hmac t _ _ (by simpa using hlegacy) hkey
  obtain ⟨⟨e, rfl⟩, rfl⟩ := h _ _ _ _ hrun
  rcases hend with ⟨o, ho⟩ | hne
  · cases ho
  · exact hne rfl

/-- The command, of which these are the moments, has blessed what it has shown: it found the
inventory it reports when it read it first, and when it ended the stored value was the one computed
from that inventory. -/
def Binds {hmac : Bytes → Bytes → Bytes} {chained : Bool}
    (tr : List (Moment (machine hmac chained))) (rep : Report) : Prop :=
  ∃ m₀ m₁ mid m₂ key, tr = m₀ :: m₁ :: (mid ++ [m₂]) ∧ rep.key = some key ∧
    rep.content = m₁.state.content chained ∧
    m₂.state.head = some (foldContent hmac key (m₁.state.content chained))

/-- Such a command, among the jobs of a run. -/
def BindsIn {hmac : Bytes → Bytes → Bytes} {chained : Bool} (s : State)
    (ls : List (Label (machine hmac chained) (work hmac chained)))
    (x : Conc.Report (machine hmac chained) (work hmac chained)) (rep : Report) : Prop :=
  ∃ tr, Among (machine hmac chained) x.tid (body hmac chained x.job) tr x.outcome ∧
    (Pool.initial s : Pool (machine hmac chained) (work hmac chained)).Has ls tr ∧ Binds tr rep

/-- **When the repair destroys nothing and blesses nothing unseen.** A chained store with a legacy
blob is left alone exactly if nothing has been imported from a blob that has an entry, or no key is
stored. Whatever others do meanwhile, a command that says that the value is good under a usable key
has blessed what it has shown. -/
theorem rebuild_spares_and_binds (hmac : Bytes → Bytes → Bytes) :
    (∀ (t : Tid) (s : State) (blob : Text), s.data = some blob → blob ≠ [] →
      (Spares hmac t s ↔
        (s.entries = [] ∧ parseInventoryBlob blob ≠ []) ∨ s.storedKey = none)) ∧
    ∀ (chained : Bool) (s : State) (ls : List (Label (machine hmac chained) (work hmac chained)))
      (q : Pool (machine hmac chained) (work hmac chained)) (x : Conc.Report _ _) (flags : Flags)
      (o : Outcome),
      (Pool.initial s : Pool (machine hmac chained) (work hmac chained)).run ls = some q →
      x ∈ q.reports → x.job = .rebuild flags → x.outcome = .ok (some o) → o.Reassures →
      o.report.keyState = .usable → BindsIn s ls x o.report := by
  refine ⟨fun t s blob hdata _ => spares_iff hdata, ?_⟩
  intro chained s ls q x flags o hrun hx hjob houtcome hreassures husable
  obtain ⟨tr, hamong, hhas⟩ := Pool.among_of_report hrun hx
  refine ⟨tr, hamong, hhas, ?_⟩
  have hbody : Among (machine hmac chained) x.tid
      ((rebuildCommand hmac chained flags).bind fun o => .ret (some o)) tr (.ok (some o)) := by
    have heq : (work hmac chained).body x.tid x.job =
        (rebuildCommand hmac chained flags).bind fun o => .ret (some o) := by
      rw [hjob]
      rfl
    rwa [heq, houtcome] at hamong
  obtain ⟨o', tr₁, tr₂, hcommand, hret, rfl⟩ := hbody.bind_inv_ok
  obtain ⟨rfl, ho⟩ := hret.ret_inv
  cases ho
  rw [List.append_nil]
  exact among_command hreassures husable hcommand

/-! ### A conversion that was interrupted -/

/-- A code from which everything can be read. -/
def sampleHmac (key text : Bytes) : Bytes := key ++ text

def sampleKey : Bytes := List.replicate hmacKeyLen 0

/-- A blob of one entry. -/
def sampleBlob : Text := ['1', ' ', '2', ' ', '3', ' ', '/', 'n', '\n']

/-- A store of an old version, with its value. -/
def legacyStore : State where
  data := some sampleBlob
  head := some (wholeBlobInventoryMAC sampleHmac sampleKey sampleBlob)
  storedKey := some sampleKey

/-- The store after the conversion has imported its batch. -/
def halfConverted : State := { legacyStore with entries := parseInventoryBlob sampleBlob }

/-- **An interrupted conversion is not recognised.** The conversion imports its only batch, and the
transaction that would empty the marker fails. The command, told to bless, then writes the value of
the imported entries over the value of the blob, which is still there. -/
theorem interrupted_conversion_loses_baseline :
    (∃ es e, Solo (machine sampleHmac true) ⟨0, 0⟩ legacyStore
      (decomposeLegacyInventory sampleHmac) es (.error e) halfConverted) ∧
    ∃ es o s', Solo (machine sampleHmac true) ⟨0, 0⟩ halfConverted
        (rebuildCommand sampleHmac true ⟨true, true⟩) es (.ok o) s' ∧
      s'.data = some sampleBlob ∧
      s'.head ≠ some (wholeBlobInventoryMAC sampleHmac sampleKey sampleBlob) := by
  have hconversion : ((decomposeLegacyInventory sampleHmac).runAlone (machine sampleHmac true)
      ⟨0, 0⟩ (List.replicate 4 ({} : Choice) ++ [{ fails := true }]) legacyStore).map
        (fun x => (x.2.1, x.2.2)) = some (.error .unavailable, halfConverted) := by
    decide +kernel
  have hcommand : ((rebuildCommand sampleHmac true ⟨true, true⟩).runAlone (machine sampleHmac true)
      ⟨0, 0⟩ (List.replicate 12 ({} : Choice)) halfConverted).map
        (fun x => (x.2.1.isOk, x.2.2.data, decide (x.2.2.head = legacyStore.head))) =
      some (true, some sampleBlob, false) := by
    decide +kernel
  obtain ⟨⟨es, r, s'⟩, hrun, hseen⟩ := Option.map_eq_some_iff.mp hconversion
  obtain ⟨rfl, rfl⟩ := Prod.mk.inj hseen
  refine ⟨⟨es, _, .of_runAlone hrun⟩, ?_⟩
  obtain ⟨⟨es, r, s'⟩, hrun, hseen⟩ := Option.map_eq_some_iff.mp hcommand
  simp only [Prod.mk.injEq, decide_eq_false_iff_not] at hseen
  obtain ⟨hok, hdata, hhead⟩ := hseen
  cases r with
  | error e => cases hok
  | ok o => exact ⟨es, o, s', .of_runAlone hrun, hdata, hhead⟩

/-- A store whose value does not verify. -/
def tamperedStore : State where
  data := some []
  entries := parseInventoryBlob sampleBlob
  head := some []
  storedKey := some sampleKey

/-- The command on that store, with both flags. -/
def sampleRun : List (Label (machine sampleHmac true) (work sampleHmac true)) :=
  [.start ⟨0, 0⟩ (.rebuild ⟨true, true⟩)] ++ List.replicate 12 (.step ⟨0, 0⟩ {}) ++
    [.finish ⟨0, 0⟩]

/-- Whether a report is that of a rebuilt value, under a usable key. -/
def isRebuilt (x : Conc.Report (machine sampleHmac true) (work sampleHmac true)) : Bool :=
  match x.job, x.outcome with
  | .rebuild _, .ok (some (.rebuilt rep _)) => rep.keyState = .usable
  | _, _ => false

/-- A store of an old version is left alone, and a store whose value does not verify is repaired. -/
theorem rebuild_spares_and_binds_sample : Spares sampleHmac ⟨0, 0⟩ legacyStore ∧
    ∃ q x rep, (Pool.initial tamperedStore).run sampleRun = some q ∧ x ∈ q.reports ∧
      BindsIn tamperedStore sampleRun x rep := by
  refine ⟨((rebuild_spares_and_binds sampleHmac).1 _ legacyStore sampleBlob rfl (by decide)).mpr
    (Or.inl ⟨rfl, by decide +kernel⟩), ?_⟩
  have hseen : ((Pool.initial tamperedStore).run sampleRun).map
      (fun q => q.reports.any isRebuilt) = some true := by
    decide +kernel
  obtain ⟨q, hrun, hany⟩ := Option.map_eq_some_iff.mp hseen
  obtain ⟨x, hx, hrebuilt⟩ := List.any_eq_true.mp hany
  unfold isRebuilt at hrebuilt
  split at hrebuilt
  · next flags rep after hjob hout =>
    exact ⟨q, x, rep, hrun, hx, (rebuild_spares_and_binds sampleHmac).2 true tamperedStore sampleRun
      q
      x flags (.rebuilt rep after) hrun hx hjob hout trivial (of_decide_eq_true hrebuilt)⟩
  · cases hrebuilt

end OpenvoxCa.Storage.Rebuild
