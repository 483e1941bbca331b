import OpenvoxCa.Storage.Ledger
import Mathlib.Data.List.Dedup

/-!
# The inventory in etcd

The etcd backend keeps one key an entry, a counter, two indexes over the entries and the head of the
integrity chain. etcd runs transactions of the form compare-then-write, so a mutation reads what it
needs, computes in between, and commits a transaction that is guarded on the counter not having been
touched since. The counter is written again by every mutation: its *revision* is the fence
(`Guard.seqRevision`).

This file is the machine and the two programs that mutate the inventory of a serving cluster:

* `appendEntry` – `AppendEntry`;
* `pruneEntries` – `PruneEntries`, which removes its entries in batches,
  the newest first, and starts over when the fence has moved.

A transaction takes effect as a whole or not at all, and one that reports an error did not take
effect.
-/

namespace OpenvoxCa.Storage.Etcd

open Conc

open Data (Table)

/-! ### Keys and transactions -/

/-- **The keys of the inventory** and what they hold. -/
structure Keys where
  /-- `inventory/data`: the presence marker. -/
  data : Bool := false
  /-- `inventory/hmac`: the integrity head. -/
  hmac : Option Bytes := none
  /-- `inventory/seq`: the last number allocated. -/
  seq : Option ℕ := none
  /-- `inventory/entries/`: a record under each number. -/
  entries : Table ℕ CertRecord := .empty
  /-- `inventory/by-serial/`. -/
  bySerial : Text → Option SerialValue := fun _ => none
  /-- `inventory/by-subject/`: the serial issued last. -/
  bySubject : Text → Option Text := fun _ => none

/-- The entries in the order of their numbers. -/
def Keys.rows (k : Keys) : List Row := k.entries.rows

/-- The last number allocated; 0 when there is no counter. -/
def Keys.last (k : Keys) : ℕ := k.seq.getD 0

/-- One write of a transaction. -/
inductive Op
  | putEntry (seq : ℕ) (rec : CertRecord)
  | deleteEntry (seq : ℕ)
  | putSeq (last : ℕ)
  | putSerial (serial : Text) (value : SerialValue)
  | deleteSerial (serial : Text)
  | putSubject (subject serial : Text)
  | deleteSubject (subject : Text)
  | putHMAC (head : Bytes)
  /-- `markerTouchOp`. -/
  | putData
  deriving DecidableEq

/-- What a write does. -/
def Op.apply (k : Keys) : Op → Keys
  | putEntry seq rec => { k with entries := k.entries.put seq rec }
  | deleteEntry seq => { k with entries := k.entries.erase seq }
  | putSeq last => { k with seq := some last }
  | putSerial serial value => { k with bySerial := Function.update k.bySerial serial (some value) }
  | deleteSerial serial => { k with bySerial := Function.update k.bySerial serial none }
  | putSubject subject serial =>
      { k with bySubject := Function.update k.bySubject subject (some serial) }
  | deleteSubject subject => { k with bySubject := Function.update k.bySubject subject none }
  | putHMAC head => { k with hmac := some head }
  | putData => { k with data := true }

/-- The writes of a transaction, one after the other. -/
def Keys.after (k : Keys) (ops : List Op) : Keys := ops.foldl Op.apply k

/-- The write is one to the counter. -/
def Op.isPutSeq : Op → Bool
  | putSeq _ => true
  | _ => false

/-- What a transaction may be guarded on. -/
inductive Guard
  /-- The revision of the counter is still this one; that of a missing key is 0. -/
  | seqRevision (rev : ℕ)
  /-- The by-serial key has never been created, or is deleted. -/
  | serialAbsent (serial : Text)
  deriving DecidableEq

/-! ### The machine -/

/-- **The state of the cluster**: the store, the lock of each replica, and the ledger. -/
structure State where
  keys : Keys := {}
  /-- The revision of the store. -/
  revision : ℕ := 0
  /-- The revision at which the counter was last written; 0 when it is missing. -/
  seqRevision : ℕ := 0
  /-- `appendMu` of each replica. -/
  appendMu : Replica → Option Tid := fun _ => none
  /-- The calls each thread has made, the latest first. -/
  calls : Tid → List Call := fun _ => []

/-- `etcdSeqState`. -/
structure SeqState where
  present : Bool
  rev : ℕ
  last : ℕ
  deriving DecidableEq

/-- What `AppendEntry` reads in one transaction. -/
structure FenceRead where
  seq : SeqState
  head : Option Bytes
  /-- Whether there is a by-serial key. -/
  taken : Bool
  deriving DecidableEq

/-- The answer to a transaction. -/
structure TxnResponse where
  succeeded : Bool
  revision : ℕ
  deriving DecidableEq

inductive Cmd
  | lockAppend
  | unlockAppend
  /-- The read of `AppendEntry`. -/
  | readFence (serial : Text)
  /-- `readIndexedRecords`: the entries and the counter, in one transaction. -/
  | readIndexedRecords
  /-- A guarded transaction. -/
  | commit (guards : List Guard) (ops : List Op)
  /-- `txnBackoff`: it ends early, with an error, when the context does. -/
  | backoff

def Cmd.Ans : Cmd → Type
  | lockAppend => Unit
  | unlockAppend => Unit
  | readFence _ => Except Failure FenceRead
  | readIndexedRecords => Except Failure (List Row × SeqState)
  | commit _ _ => Except Failure TxnResponse
  | backoff => Except Failure Unit

abbrev interface : Interface := ⟨Cmd, Cmd.Ans⟩

abbrev Prog := Conc.Prog interface Failure

def cmd (c : Cmd) : Prog c.Ans := Conc.Prog.cmd (I := interface) c

/-- `decodeSeqState` of what is stored. -/
def State.seqState (s : State) : SeqState := ⟨s.keys.seq.isSome, s.seqRevision, s.keys.last⟩

def Guard.holds (s : State) : Guard → Bool
  | seqRevision rev => s.seqRevision = rev
  | serialAbsent serial => (s.keys.bySerial serial).isNone

/-- A transaction of thread `t` has taken effect. -/
def State.committed (s : State) (t : Tid) (ops : List Op) : State :=
  { s with
    keys := s.keys.after ops
    revision := s.revision + 1
    seqRevision := if ops.any Op.isPutSeq then s.revision + 1 else s.seqRevision
    calls := Function.update s.calls t
      (noteRows s.keys.rows (s.keys.after ops).rows (s.calls t)) }

/-- **What a request does**, when the environment decides whether it fails. A transaction is
atomic, and has not taken effect when it reports an error. -/
def exec (t : Tid) (s : State) : (c : Cmd) → Bool → Option (c.Ans × State)
  | .lockAppend, _ =>
      if s.appendMu t.replica = none then
        some ((), { s with
          appendMu := Function.update s.appendMu t.replica (some t)
          calls := Function.update s.calls t ({} :: s.calls t) })
      else none
  | .unlockAppend, _ =>
      some ((), { s with appendMu := Function.update s.appendMu t.replica none })
  | .readFence serial, fails =>
      some (if fails then .error .unavailable
        else .ok ⟨s.seqState, s.keys.hmac, (s.keys.bySerial serial).isSome⟩, s)
  | .readIndexedRecords, fails =>
      some (if fails then .error .unavailable else .ok (s.keys.rows, s.seqState), s)
  | .commit guards ops, fails =>
      if fails then some (.error .unavailable, s)
      else if guards.all (Guard.holds s) then
        some (.ok ⟨true, s.revision + 1⟩, s.committed t ops)
      else some (.ok ⟨false, s.revision⟩, s)
  | .backoff, fails => some (if fails then .error .unavailable else .ok (), s)

abbrev machine : Machine interface := ⟨State, Tid, Bool, exec⟩

/-! ### Appending -/

def etcdMaxTxnRetries : ℕ := 16

/-- `appendMu.Lock()` with a deferred `appendMu.Unlock()`. -/
def withAppendMu {α : Type} (body : Prog α) : Prog α :=
  body.between (cmd .lockAppend) (cmd .unlockAppend)

/-- The writes of an append under number `next`. -/
def appendOps (rec : CertRecord) (newHead : Option (Bytes → Bytes)) (head : Option Bytes)
    (next : ℕ) : List Op :=
  [.putEntry next rec, .putSeq next, .putSerial rec.serial (.number next),
    .putSubject rec.subject rec.serial, .putData] ++
  match newHead with
  | some newHead => [.putHMAC (newHead (head.getD []))]
  | none => []

/-- The attempts of `AppendEntry`. -/
def appendAttempts (rec : CertRecord) (newHead : Option (Bytes → Bytes)) : ℕ → Prog Unit
  | 0 => .fail .appendContention
  | n + 1 => (cmd (.readFence rec.serial)).orFail.bind fun read =>
      if read.taken then .fail (.duplicateSerial rec.serial)
      else
        (cmd (.commit [.seqRevision read.seq.rev, .serialAbsent rec.serial]
          (appendOps rec newHead read.head (read.seq.last + 1)))).orFail.bind fun resp =>
            if resp.succeeded then .ret ()
            else (cmd .backoff).orFail.bind fun _ => appendAttempts rec newHead n

def appendEntry (rec : CertRecord) (newHead : Option (Bytes → Bytes)) : Prog Unit :=
  withAppendMu (appendAttempts rec newHead etcdMaxTxnRetries)

/-! ### Pruning -/

def etcdPruneBatch : ℕ := 30

def etcdPruneMaxBatchesPerCall : ℕ := 30

/-- The offsets at which the batches of `n` removals start, those of the last `maxBatches`. -/
def batchStarts (n maxBatches : ℕ) : List ℕ :=
  let starts := (List.range ((n + etcdPruneBatch - 1) / etcdPruneBatch)).map (· * etcdPruneBatch)
  starts.drop (starts.length - maxBatches)

/-- What one attempt computes from what it has read, before its first batch. -/
structure Plan where
  /-- The rows read. -/
  recs : List Row
  removed : List Row
  survivors : List Row
  /-- What is written to the counter. -/
  seqVal : ℕ
  /-- How the chain goes on, when integrity checking is on. -/
  advance : Option (Bytes → InventoryEntry → Bytes)
  /-- The head before the first row of each batch. -/
  prefixAt : List (ℕ × Bytes)

/-- `prefixAt`: one fold over all rows, with a checkpoint just before the row with number
`cut s` for each offset `s`. -/
def checkpoints (advance : Bytes → InventoryEntry → Bytes) (cut : ℕ → ℕ) :
    List ℕ → Bytes → List Row → List (ℕ × Bytes)
  | _, _, [] => []
  | [], head, r :: recs => checkpoints advance cut [] (advance head (entryOf r)) recs
  | s :: starts, head, r :: recs =>
      if cut s = r.1 then
        (s, head) :: checkpoints advance cut starts (advance head (entryOf r)) recs
      else checkpoints advance cut (s :: starts) (advance head (entryOf r)) recs

/-- The number of the row at an offset into the removals. -/
def cutSeq (removed : List Row) (s : ℕ) : ℕ := (removed[s]?.map Prod.fst).getD 0

/-- The deletions of a batch: every entry, and the by-serial key of a serial whose last bearer
goes. `bearers` counts the rows that bear each serial. -/
def batchDeletes (bearers : Text → ℕ) : List Row → List Op × (Text → ℕ)
  | [] => ([], bearers)
  | r :: batch =>
      let left := Function.update bearers r.2.serial (bearers r.2.serial - 1)
      let rest := batchDeletes left batch
      (.deleteEntry r.1 :: (if left r.2.serial = 0 then [.deleteSerial r.2.serial] else []) ++
      rest.1,
        rest.2)

/-- The serial and the number of the subject's newest entry before the cut; empty and 0 when
there is none. -/
def newestBefore (recs : List Row) (cut : ℕ) (subject : Text) : Text × ℕ :=
  match ((recs.filter fun r => r.2.subject = subject).takeWhile fun r => r.1 < cut).getLast? with
  | some r => (r.2.serial, r.1)
  | none => ([], 0)

/-- The serial of the subject's newest entry after the batch: the newest survivor, if it is
behind the cut, or else the newest entry before it. -/
def newestLeft (recs survivors : List Row) (cut : ℕ) (subject : Text) : Text :=
  match (survivors.filter fun r => r.2.subject = subject).getLast? with
  | some lv =>
      if cut < lv.1 ∧ (newestBefore recs cut subject).2 < lv.1 then lv.2.serial
      else (newestBefore recs cut subject).1
  | none => (newestBefore recs cut subject).1

/-- The by-subject key of a subject after the batch. -/
def repoint (recs survivors : List Row) (cut : ℕ) (subject : Text) : Op :=
  if newestLeft recs survivors cut subject = [] then .deleteSubject subject
  else .putSubject subject (newestLeft recs survivors cut subject)

/-- The batch that starts at an offset. -/
def Plan.batch (p : Plan) (s : ℕ) : List Row := (p.removed.drop s).take etcdPruneBatch

/-- The head after the batch: the checkpoint, and the survivors behind the cut. -/
def Plan.headOps (p : Plan) (s : ℕ) : List Op :=
  match p.advance with
  | some advance =>
      let tail := p.survivors.dropWhile fun r => r.1 ≤ cutSeq p.removed s
      [.putHMAC ((entriesOf tail).foldl advance ((p.prefixAt.lookup s).getD []))]
  | none => []

/-- The writes of the batch that starts at an offset. -/
def Plan.batchOps (p : Plan) (bearers : Text → ℕ) (s : ℕ) : List Op :=
  (batchDeletes bearers (p.batch s)).1 ++
    ((p.batch s).map fun r => r.2.subject).dedup.map
      (repoint p.recs p.survivors (cutSeq p.removed s)) ++
    p.headOps s ++ [.putSeq p.seqVal]

/-- What `pruneEntriesOnce` returns. -/
structure PruneOnce where
  committed : List Row
  batches : ℕ
  conflict : Bool
  err : Option Failure

/-- The batches of one attempt, those left to do as a list of offsets, the next one first. -/
def pruneBatches (p : Plan) (first : ℕ) :
    List ℕ → (seqRev committedFrom batches : ℕ) → (bearers : Text → ℕ) → Prog PruneOnce
  | [], _, _, batches, _ => .ret ⟨p.removed.drop first, batches, false, none⟩
  | s :: starts, seqRev, committedFrom, batches, bearers =>
      (cmd (.commit [.seqRevision seqRev] (p.batchOps bearers s))).bind fun
        | .error e => .ret ⟨p.removed.drop committedFrom, batches, false, some e⟩
        | .ok resp =>
            if resp.succeeded then
              pruneBatches p first starts resp.revision s (batches + 1)
                (batchDeletes bearers (p.batch s)).2
            else .ret ⟨p.removed.drop committedFrom, batches, true, none⟩

/-- The plan of an attempt. -/
def planPrune (keep : InventoryEntry → Bool) (advance : Option (Bytes → InventoryEntry → Bytes))
    (recs : List Row) (seq : SeqState) (starts : List ℕ) : Plan :=
  let removed := recs.filter fun r => !keep (entryOf r)
  { recs, removed
    survivors := recs.filter fun r => keep (entryOf r)
    seqVal := if seq.present then seq.last else (recs.getLast?.map Prod.fst).getD 0
    advance
    prefixAt := match advance with
      | some advance => checkpoints advance (cutSeq removed) starts [] recs
      | none => [] }

def pruneEntriesOnce (keep : InventoryEntry → Bool)
    (advance : Option (Bytes → InventoryEntry → Bytes)) (maxBatches : ℕ) : Prog PruneOnce :=
  (cmd .readIndexedRecords).bind fun
    | .error e => .ret ⟨[], 0, false, some e⟩
    | .ok (recs, seq) =>
        let removed := recs.filter fun r => !keep (entryOf r)
        if removed = [] then .ret ⟨[], 0, false, none⟩
        else
          let starts := batchStarts removed.length maxBatches
          pruneBatches (planPrune keep advance recs seq starts) (starts.headD 0) starts.reverse
            seq.rev removed.length 0 fun serial => recs.countP fun r => r.2.serial = serial

/-- `finish`: the removals in the order of their numbers. -/
def finish (all : List Row) : List InventoryEntry :=
  entriesOf (all.insertionSort fun a b => a.1 ≤ b.1)

/-- The attempts of `PruneEntries`, with what is left of the budget and what has been removed. -/
def pruneAttempts (keep : InventoryEntry → Bool)
    (advance : Option (Bytes → InventoryEntry → Bytes)) :
    ℕ → (budget : ℕ) → (all : List Row) → Prog (List InventoryEntry × Option Failure)
  | 0, _, all => .ret (finish all, some .pruneContention)
  | n + 1, budget, all =>
      (pruneEntriesOnce keep advance budget).bind fun once =>
        let all := all ++ once.committed
        let budget := budget - once.batches
        match once.err with
        | some e => .ret (finish all, some e)
        | none =>
            if once.conflict = false ∨ budget = 0 then .ret (finish all, none)
            else (cmd .backoff).bind fun
              | .error e => .ret (finish all, some e)
              | .ok _ => pruneAttempts keep advance n budget all

/-- `PruneEntries`: what was removed, and the error that ended it, if any. -/
def pruneEntries (keep : InventoryEntry → Bool)
    (advance : Option (Bytes → InventoryEntry → Bytes)) :
    Prog (List InventoryEntry × Option Failure) :=
  withAppendMu (pruneAttempts keep advance etcdMaxTxnRetries etcdPruneMaxBatchesPerCall [])

/-! ### The workload -/

/-- **The etcd inventory store.** -/
def store : InventoryStore interface where
  batched := true
  appendEntry := appendEntry
  pruneEntries := pruneEntries

abbrev Cluster (hmac : Bytes → Bytes → Bytes) (key : Bytes) :=
  Pool machine (store.work Tid hmac key)

abbrev Event (hmac : Bytes → Bytes → Bytes) (key : Bytes) :=
  Label machine (store.work Tid hmac key)

end OpenvoxCa.Storage.Etcd
