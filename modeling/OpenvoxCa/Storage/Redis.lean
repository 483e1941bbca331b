import OpenvoxCa.Conc.Discipline
import OpenvoxCa.Storage.Record
import Mathlib.Data.List.Dedup

/-!
# The inventory in Redis

The Redis backend keeps the entries in a hash under their numbers, with a counter, two index hashes,
a presence marker and the head of the integrity chain. What changes them is a handful of Lua
scripts, each of which runs on its own; what a script writes is computed by its caller from what it
has read before, so a script first compares: the head with the one the caller has seen, or the
counter, or both. There are four calls:

* `appendEntry` – `AppendEntry`, guarded on the head;
* `appendInventoryLines` – a direct append of lines, which leaves the head
  as it is and compares nothing;
* `pruneEntries` – `PruneEntries`, guarded on the counter and the head;
* `putInventory` – a replacement of everything, in several scripts guarded
  on the counter, which leaves the head as it is.

A script whose answer gets lost may or may not have run. Besides the keys, the machine keeps a few
marks about the run so far that no program reads (`Marks`). The legacy conversion, which uses the
same scripts under a lock of its own, is left out, and with it the guard on the presence marker that
only it has.
-/

namespace OpenvoxCa.Storage.Redis

open Conc

open Data (Table)

/-! ### Keys and scripts -/

/-- **The keys of the inventory** and what they hold. -/
structure Keys where
  /-- `inventory:data`: the presence marker. -/
  data : Bool := false
  /-- `inventory:hmac`: the integrity head. -/
  hmac : Option Bytes := none
  /-- `inventory:seq`: the last number allocated. -/
  seq : Option ℕ := none
  /-- `inventory:entries`: a record under each number. -/
  entries : Table ℕ CertRecord := .empty
  /-- `inventory:by-serial`. -/
  bySerial : Text → Option SerialValue := fun _ => none
  /-- `inventory:by-subject`: the serial issued last. -/
  bySubject : Text → Option Text := fun _ => none

/-- The entries in the order of their numbers. -/
def Keys.rows (k : Keys) : List Row := k.entries.rows

/-- The counter, 0 when it is missing. -/
def Keys.last (k : Keys) : ℕ := k.seq.getD 0

/-- The head, empty when it is missing. -/
def Keys.head (k : Keys) : Bytes := k.hmac.getD []

/-- `headArgs`: the head that was read and the one to write, when integrity checking is on. -/
abbrev HeadArgs := Option (Bytes × Bytes)

def headArgs (newHead : Option (Bytes → Bytes)) (prev : Bytes) : HeadArgs :=
  newHead.map fun newHead => (prev, newHead prev)

/-- `redisPrunePlan`: what a prune removes, what stays, and what becomes of the indexes. -/
structure PrunePlan where
  removed : List Row
  survivors : List Row
  serialDrops : List Text
  subjectSets : List (Text × Text)
  subjectDrops : List Text

/-- The scripts, with their arguments. -/
inductive Script
  /-- `redisAppendEntryLua`. -/
  | appendEntry (head : HeadArgs) (rec : CertRecord)
  /-- `redisAppendLinesLua`. -/
  | appendLines (recs : List CertRecord)
  /-- `redisPruneLua`. -/
  | prune (seq : ℕ) (head : HeadArgs) (plan : PrunePlan)
  /-- `redisReplaceWipeLua`. -/
  | replaceWipe (seq : ℕ)
  /-- `redisReplaceBatchLua`. -/
  | replaceBatch (seq next : ℕ) (rows : List (Row × SerialValue))
  /-- `redisReplaceFinishLua`. -/
  | replaceFinish (seq : ℕ)

inductive Status
  | ok
  | dup (serial : Text)
  | conflict
  deriving DecidableEq, Repr

/-- `head_conflicts`. -/
def headConflicts (k : Keys) : HeadArgs → Bool
  | none => false
  | some (prev, _) => k.head ≠ prev

/-- `write_head`. -/
def writeHead (k : Keys) : HeadArgs → Keys
  | none => k
  | some (_, new) => { k with hmac := some new }

/-- An entry and its index fields. -/
def Keys.addRow (k : Keys) (r : Row) (value : SerialValue) : Keys :=
  { k with
    entries := k.entries.put r.1 r.2
    bySerial := Function.update k.bySerial r.2.serial (some value)
    bySubject := Function.update k.bySubject r.2.subject (some r.2.serial) }

/-- Entries and their index fields, one after the other. -/
def Keys.addRows (k : Keys) (rows : List (Row × SerialValue)) : Keys :=
  rows.foldl (fun k r => k.addRow r.1 r.2) k

/-- The records under the numbers that follow `n`. -/
def number : ℕ → List CertRecord → List Row
  | _, [] => []
  | n, rec :: recs => (n + 1, rec) :: number (n + 1) recs

/-- Rows with their own numbers in the index by serial. -/
def numbered (rows : List Row) : List (Row × SerialValue) := rows.map fun r => (r, .number r.1)

/-- The deletions and the changes of the indexes of a prune. -/
def Keys.pruned (k : Keys) (plan : PrunePlan) : Keys :=
  { k with
    entries := k.entries.retain fun r => r.1 ∉ plan.removed.map Prod.fst
    bySerial := fun serial => if serial ∈ plan.serialDrops then none else k.bySerial serial
    bySubject := fun subject =>
      if subject ∈ plan.subjectDrops then none
      else ((plan.subjectSets.lookup subject).or (k.bySubject subject)) }

/-- **What a script does**: its answer, and the keys it leaves. -/
def Script.run (k : Keys) : Script → Status × Keys
  | appendEntry head rec =>
      if (k.bySerial rec.serial).isSome then (.dup rec.serial, k)
      else if headConflicts k head then (.conflict, k)
      else
        let k := { k with seq := some (k.last + 1) }
        let k := k.addRow (k.last, rec) (.number k.last)
        (.ok, { writeHead k head with data := true })
  | appendLines recs =>
      match recs.find? fun rec => (k.bySerial rec.serial).isSome with
      | some rec => (.dup rec.serial, k)
      | none =>
          (.ok, { k.addRows (numbered (number k.last recs)) with
            seq := some (k.last + recs.length), data := true })
  | prune seq head plan =>
      if k.last ≠ seq then (.conflict, k)
      else if headConflicts k head then (.conflict, k)
      else (.ok, writeHead (k.pruned plan) head)
  | replaceWipe seq =>
      if k.last ≠ seq then (.conflict, k)
      else (.ok, { k with
        entries := .empty, bySerial := fun _ => none, bySubject := fun _ => none, seq := some 0 })
  | replaceBatch seq next rows =>
      if k.last ≠ seq then (.conflict, k)
      else (.ok, { k.addRows rows with seq := some next })
  | replaceFinish seq =>
      if k.last ≠ seq then (.conflict, k)
      else (.ok, { k with data := true })

/-! ### The machine -/

inductive Job
  | append (rec : CertRecord)
  | appendLines (recs : List CertRecord)
  | prune (keep : InventoryEntry → Bool)
  | replace (recs : List CertRecord)

def redisImportBatch : ℕ := 512

/-- The call relies on the counter from one request to the next: a prune, or a replacement that
takes several batches. -/
def Job.fences : Job → Bool
  | prune _ => true
  | replace recs => redisImportBatch < recs.length
  | _ => false

/-- **Marks about the run so far.** -/
structure Marks where
  /-- Who is in the middle of a call that relies on the counter. -/
  fencers : List Tid := []
  /-- Nobody has wiped the inventory while somebody else was. -/
  fenced : Bool := true
  /-- Lines were appended directly, or the inventory replaced, after the last prune that has removed
  something. -/
  behind : Bool := false
  /-- The heads that prunes in progress have read while they were behind. -/
  misread : List (Tid × Bytes) := []
  /-- A prune has put the head back that another one in progress had read so. -/
  restored : Bool := false
  /-- The inventories that prunes have read or left. -/
  inventories : List (List Row) := []
  /-- The serials that `AppendEntry` has written. -/
  issued : List Text := []

/-- A call begins. -/
def Marks.begin (m : Marks) (t : Tid) (j : Job) : Marks :=
  { m with fencers := if j.fences then t :: m.fencers else m.fencers }

/-- A call ends. -/
def Marks.finish (m : Marks) (t : Tid) : Marks :=
  { m with fencers := m.fencers.erase t, misread := m.misread.filter fun x => x.1 ≠ t }

/-- A prune has read a snapshot. -/
def Marks.read (m : Marks) (t : Tid) (k : Keys) : Marks :=
  { m with
    misread := (if m.behind then [(t, k.head)] else []) ++ m.misread.filter fun x => x.1 ≠ t
    inventories := k.rows :: m.inventories }

/-- A script has run, and left the keys `k`. -/
def Marks.ran (m : Marks) (t : Tid) (k : Keys) : Script → Marks
  | .appendEntry _ rec => { m with issued := rec.serial :: m.issued }
  | .appendLines _ => { m with behind := true }
  | .prune _ _ _ => { m with
      behind := false
      restored := m.restored || m.misread.any fun x => x.1 ≠ t && x.2 = k.head
      inventories := k.rows :: m.inventories }
  | .replaceWipe _ => { m with behind := true, fenced := m.fenced && m.fencers.all (· = t) }
  | .replaceBatch _ _ _ => { m with behind := true }
  | .replaceFinish _ => m

/-- **The state**: the store, the lock of each replica, and the marks. -/
structure State where
  keys : Keys := {}
  /-- `appendMu` of each replica. -/
  appendMu : Replica → Option Tid := fun _ => none
  marks : Marks := {}

/-- A script has run and taken effect. -/
def State.did (s : State) (t : Tid) (sc : Script) : State :=
  { s with keys := (sc.run s.keys).2, marks := s.marks.ran t (sc.run s.keys).2 sc }

/-- A script has run. -/
def State.ran (s : State) (t : Tid) (sc : Script) : State :=
  if (sc.run s.keys).1 = .ok then s.did t sc else s

inductive Cmd
  | lockAppend (j : Job)
  | unlockAppend
  | readHead
  /-- `readInventorySnapshot`: entries, counter and head. -/
  | readInventorySnapshot
  /-- The read of the counter. -/
  | readSeq
  | runInvScript (script : Script)
  /-- `scriptBackoff`: it ends early, with an error, when the context does. -/
  | scriptBackoff

/-- What `readInventorySnapshot` returns. -/
structure Snapshot where
  recs : List Row
  seq : ℕ
  head : Bytes

def Cmd.Ans : Cmd → Type
  | lockAppend _ => Unit
  | unlockAppend => Unit
  | readHead => Except Failure Bytes
  | readInventorySnapshot => Except Failure Snapshot
  | readSeq => Except Failure ℕ
  | runInvScript _ => Except Failure Status
  | scriptBackoff => Except Failure Unit

abbrev interface : Interface := ⟨Cmd, Cmd.Ans⟩

abbrev Prog := Conc.Prog interface Failure

def cmd (c : Cmd) : Prog c.Ans := Conc.Prog.cmd (I := interface) c

/-- What the environment decides about a request: it is answered, or never reaches the server, or
its answer gets lost. -/
inductive Choice
  | answered
  | refused
  | lost
  deriving DecidableEq

/-- The answer to a read. -/
def Choice.answer {α : Type} (ch : Choice) (a : α) : Except Failure α :=
  if ch = .answered then .ok a else .error .unavailable

/-- **What a request does.** -/
def exec (t : Tid) (s : State) : (c : Cmd) → Choice → Option (c.Ans × State)
  | .lockAppend j, _ =>
      if s.appendMu t.replica = none then
        some ((), { s with
          appendMu := Function.update s.appendMu t.replica (some t)
          marks := s.marks.begin t j })
      else none
  | .unlockAppend, _ =>
      some ((), { s with
        appendMu := Function.update s.appendMu t.replica none
        marks := s.marks.finish t })
  | .readHead, ch => some (ch.answer s.keys.head, s)
  | .readInventorySnapshot, ch =>
      some (ch.answer ⟨s.keys.rows, s.keys.last, s.keys.head⟩,
        if ch = .answered then { s with marks := s.marks.read t s.keys } else s)
  | .readSeq, ch => some (ch.answer s.keys.last, s)
  | .runInvScript sc, ch =>
      some (ch.answer (sc.run s.keys).1, if ch = .refused then s else s.ran t sc)
  | .scriptBackoff, ch => some (ch.answer (), s)

abbrev machine : Machine interface := ⟨State, Tid, Choice, exec⟩

/-! ### Appending -/

def redisMaxRetries : ℕ := 16

/-- `appendMu.Lock()` with a deferred `appendMu.Unlock()`. -/
def withAppendMu {α : Type} (j : Job) (body : Prog α) : Prog α :=
  body.between (cmd (.lockAppend j)) (cmd .unlockAppend)

/-- The attempts of `AppendEntry`. -/
def appendAttempts (rec : CertRecord) (newHead : Option (Bytes → Bytes)) : ℕ → Prog Unit
  | 0 => .fail .appendContention
  | n + 1 => (cmd .readHead).orFail.bind fun prev =>
      (cmd (.runInvScript (.appendEntry (headArgs newHead prev) rec))).orFail.bind fun
        | .ok => .ret ()
        | .dup serial => .fail (.duplicateSerial serial)
        | .conflict => (cmd .scriptBackoff).orFail.bind fun _ => appendAttempts rec newHead n

def appendEntry (rec : CertRecord) (newHead : Option (Bytes → Bytes)) : Prog Unit :=
  withAppendMu (.append rec) (appendAttempts rec newHead redisMaxRetries)

/-- The first serial that a record before has already. -/
def firstDuplicate : (seen : List Text) → List CertRecord → Option Text
  | _, [] => none
  | seen, rec :: recs =>
      if rec.serial ∈ seen then some rec.serial else firstDuplicate (rec.serial :: seen) recs

def rejectDuplicateSerials (recs : List CertRecord) : Prog Unit :=
  match firstDuplicate [] recs with
  | some serial => .fail (.duplicateSerial serial)
  | none => .ret ()

/-- `appendInventoryLines`, of records that `parseInventoryRecords` has returned. -/
def appendInventoryLines (recs : List CertRecord) : Prog Unit :=
  (rejectDuplicateSerials recs).bind fun _ =>
    if recs = [] then .ret ()
    else if redisImportBatch < recs.length then .fail (.tooManyLines recs.length)
    else withAppendMu (.appendLines recs) <|
      (cmd (.runInvScript (.appendLines recs))).orFail.bind fun
        | .dup serial => .fail (.duplicateSerial serial)
        | _ => .ret ()

/-! ### Pruning -/

def redisPruneMaxPerCall : ℕ := 5000

/-- The rows to remove and those that stay: at most `room` of those that `keep` rejects go. -/
def splitRows (keep : InventoryEntry → Bool) : (room : ℕ) → List Row → List Row × List Row
  | _, [] => ([], [])
  | 0, r :: recs => ([], r :: recs)
  | room + 1, r :: recs =>
      if keep (entryOf r) then
        let rest := splitRows keep (room + 1) recs
        (rest.1, r :: rest.2)
      else
        let rest := splitRows keep room recs
        (r :: rest.1, rest.2)

def planRedisPrune (recs : List Row) (keep : InventoryEntry → Bool) : PrunePlan :=
  let removed := (splitRows keep redisPruneMaxPerCall recs).1
  let survivors := (splitRows keep redisPruneMaxPerCall recs).2
  let subjects := (removed.map fun r => r.2.subject).dedup
  { removed, survivors
    serialDrops := (removed.map fun r => r.2.serial).dedup.filter fun serial =>
      survivors.countP (fun r => r.2.serial = serial) = 0
    subjectSets := subjects.filterMap fun subject =>
      (newestSerial survivors subject).map fun serial => (subject, serial)
    subjectDrops := subjects.filter fun subject => (newestSerial survivors subject).isNone }

/-- The head over the survivors: the chain is rebuilt from nothing. -/
def survivorsHead (advanceHead : Option (Bytes → InventoryEntry → Bytes)) (survivors : List Row) :
    Option (Bytes → Bytes) :=
  advanceHead.map fun advanceHead => fun _ => (entriesOf survivors).foldl advanceHead []

/-- The attempts of `PruneEntries`. -/
def pruneAttempts (keep : InventoryEntry → Bool)
    (advanceHead : Option (Bytes → InventoryEntry → Bytes)) : ℕ → Prog (List InventoryEntry)
  | 0 => .fail .pruneContention
  | n + 1 => (cmd .readInventorySnapshot).orFail.bind fun snap =>
      let plan := planRedisPrune snap.recs keep
      if plan.removed = [] then .ret []
      else
        (cmd (.runInvScript (.prune snap.seq
          (headArgs (survivorsHead advanceHead plan.survivors) snap.head) plan))).orFail.bind fun
          | .ok => .ret (entriesOf plan.removed)
          | _ => (cmd .scriptBackoff).orFail.bind fun _ => pruneAttempts keep advanceHead n

def pruneEntries (keep : InventoryEntry → Bool)
    (advanceHead : Option (Bytes → InventoryEntry → Bytes)) : Prog (List InventoryEntry) :=
  withAppendMu (.prune keep) (pruneAttempts keep advanceHead redisMaxRetries)

/-! ### Replacing -/

def duplicateSerials (recs : List CertRecord) : List Text :=
  ((recs.filter fun rec => 1 < recs.countP fun r => r.serial = rec.serial).map fun rec =>
    rec.serial).dedup

/-- The rows of a batch, with what goes into the index by serial. -/
def batchRows (dups : List Text) (start : ℕ) (batch : List CertRecord) : List (Row × SerialValue) :=
  (number start batch).map fun r => (r, if r.2.serial ∈ dups then .ambiguous else .number r.1)

/-- The batches of a replacement, and its last step: `rest` is still to be written. It returns
whether a guard has failed. -/
def importBatches (dups : List Text) (total : ℕ) :
    (fuel written : ℕ) → (rest : List CertRecord) → Prog Bool
  | 0, _, _ => finish
  | fuel + 1, written, rest =>
      if rest = [] then finish
      else
        let batch := rest.take redisImportBatch
        (cmd (.runInvScript (.replaceBatch written (written + batch.length)
          (batchRows dups written batch)))).orFail.bind fun
          | .ok => importBatches dups total fuel (written + batch.length)
              (rest.drop redisImportBatch)
          | _ => .ret true
where
  finish : Prog Bool := (cmd (.runInvScript (.replaceFinish total))).orFail.bind fun
    | .ok => .ret false
    | _ => .ret true

/-- `replaceInventoryOnce`, without a guard on the marker and with the head left alone. -/
def replaceInventoryOnce (recs : List CertRecord) : Prog Bool :=
  (cmd .readSeq).orFail.bind fun seq =>
    (cmd (.runInvScript (.replaceWipe seq))).orFail.bind fun
      | .ok => importBatches (duplicateSerials recs) recs.length recs.length 0 recs
      | _ => .ret true

/-- The attempts of `putInventory`. -/
def replaceAttempts (recs : List CertRecord) : ℕ → Prog Unit
  | 0 => .fail .replaceContention
  | n + 1 => (replaceInventoryOnce recs).bind fun conflict =>
      if conflict then (cmd .scriptBackoff).orFail.bind fun _ => replaceAttempts recs n
      else .ret ()

/-- `putInventory`, of records that `parseInventoryRecords` has returned. -/
def putInventory (recs : List CertRecord) : Prog Unit :=
  (rejectDuplicateSerials recs).bind fun _ =>
    withAppendMu (.replace recs) (replaceAttempts recs redisMaxRetries)

/-! ### The workload -/

inductive Result
  | done
  | pruned (removed : List InventoryEntry)
  deriving DecidableEq

/-- **Any number of replicas, with all four calls**, and integrity checking on. -/
abbrev inventoryWork (hmac : Bytes → Bytes → Bytes) (key : Bytes) : Workload interface Tid where
  Job := Job
  Err := Failure
  Res := Result
  body := fun _ job => match job with
    | .append rec => (appendEntry rec (some fun prev =>
        advanceHead hmac key prev rec.toInventoryEntry)).bind fun _ => .ret .done
    | .appendLines recs => (appendInventoryLines recs).bind fun _ => .ret .done
    | .prune keep => (pruneEntries keep (some (advanceHead hmac key))).bind fun removed =>
        .ret (.pruned removed)
    | .replace recs => (putInventory recs).bind fun _ => .ret .done

abbrev Cluster (hmac : Bytes → Bytes → Bytes) (key : Bytes) :=
  Pool machine (inventoryWork hmac key)

abbrev Event (hmac : Bytes → Bytes → Bytes) (key : Bytes) :=
  Label machine (inventoryWork hmac key)

end OpenvoxCa.Storage.Redis
