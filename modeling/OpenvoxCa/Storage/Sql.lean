import OpenvoxCa.Storage.Ledger

/-!
# The inventory in an SQL database

The SQL backends keep one row an entry, in a table whose ids the database hands out in increasing
order, and two rows of the table of blobs: the head of the integrity chain, and an empty *presence
marker*. `AppendEntry` and `PruneEntries` are transactions of several statements. Each statement
sees what is committed when it begins, under the transaction's own writes, so two statements of one
transaction may see different states. What rules that out is the first statement: it locks the
marker row, and a lock is held to the end of its transaction.

The machine executes one statement at a time (`exec`). A statement waits for the locks it needs –
those of the rows it writes or selects for update, and that of the unique index on serials – and may
fail at any time; a transaction whose commit reports an error has not been committed. Modelled are
the engines that have row locks: on SQLite, where `FOR UPDATE` is left out, transactions do not
overlap.
-/

namespace OpenvoxCa.Storage.Sql

open Conc

open Data (Table)

/-! ### The database -/

/-- The rows of the table of blobs that belong to the inventory. -/
inductive BlobKey
  /-- `KeyInventory`: the presence marker. -/
  | inventory
  /-- `KeyInventoryHMAC`: the integrity head. -/
  | inventoryHMAC
  deriving DecidableEq, Repr

/-- **What is committed.** -/
structure Db where
  /-- `puppet_ca_inventory`. -/
  rows : Table ℕ CertRecord := .empty
  /-- `puppet_ca_blobs`. -/
  blobs : BlobKey → Option Bytes := fun _ => none
  /-- All ids that were ever committed are below; no statement reads it. -/
  high : ℕ := 0

/-- **The writes of a transaction** that is not committed yet. -/
structure Tx where
  inserted : List Row := []
  deleted : List ℕ := []
  blobs : BlobKey → Option Bytes := fun _ => none

/-- The database under the writes of a transaction: what its statements see, and what is committed
in the end. -/
def Db.after (db : Db) (x : Tx) : Db where
  rows := x.inserted.foldl (fun T r => T.put r.1 r.2) (db.rows.retain fun r => r.1 ∉ x.deleted)
  blobs := fun key => (x.blobs key).or (db.blobs key)
  high := x.inserted.foldl (fun n r => max n (r.1 + 1)) db.high

/-- What a transaction may lock. -/
inductive Lock
  | blob (key : BlobKey)
  | row (id : ℕ)
  /-- The entry of a serial in the unique index. -/
  | serial (serial : Text)
  deriving DecidableEq

/-- **The state**: the database with its open transactions and their locks, the lock of each
replica, and the ledger. -/
structure State where
  db : Db := {}
  /-- The least id that has not been handed out. -/
  nextId : ℕ := 0
  tx : Tid → Tx := fun _ => {}
  locks : Lock → Option Tid := fun _ => none
  /-- `appendMu` of each replica. -/
  appendMu : Replica → Option Tid := fun _ => none
  /-- The calls each thread has made, the latest first. -/
  calls : Tid → List Call := fun _ => []

/-- What a statement of thread `t` sees. -/
def State.seen (s : State) (t : Tid) : Db := s.db.after (s.tx t)

/-- No other transaction has one of the locks. -/
def State.Free (s : State) (t : Tid) (ls : List Lock) : Prop :=
  ∀ l ∈ ls, s.locks l = none ∨ s.locks l = some t

instance (s : State) (t : Tid) (ls : List Lock) : Decidable (s.Free t ls) :=
  inferInstanceAs (Decidable (∀ l ∈ ls, _))

/-- A statement of thread `t` takes locks, and leaves the transaction with these writes. -/
def State.worked (s : State) (t : Tid) (ls : List Lock) (x : Tx) (nextId : ℕ) : State :=
  { s with
    locks := fun l => if l ∈ ls then some t else s.locks l
    tx := Function.update s.tx t x
    nextId }

/-- The transaction of thread `t` has ended. -/
def State.ended (s : State) (t : Tid) : State :=
  { s with
    locks := fun l => if s.locks l = some t then none else s.locks l
    tx := Function.update s.tx t {} }

/-- The transaction of thread `t` is committed. -/
def State.committed (s : State) (t : Tid) : State :=
  { s.ended t with
    db := s.seen t
    calls := Function.update s.calls t
      (noteRows s.db.rows.rows (s.seen t).rows.rows (s.calls t)) }

/-! ### Statements -/

inductive Cmd
  | lockAppend
  | unlockAppend
  | begin
  | commit
  | rollback
  /-- `blobDataTx`: the row of a key, if any; with `forUpdate` it is locked. -/
  | blobDataTx (key : BlobKey) (forUpdate : Bool)
  /-- `NewInsert` of an inventory row. -/
  | insert (rec : CertRecord)
  /-- `NewSelect` of all inventory rows, by id. -/
  | selectRows
  /-- `NewDelete` of the inventory rows with these ids. -/
  | delete (ids : List ℕ)
  | upsert (key : BlobKey) (data : Bytes)
  /-- The pause before the next attempt: it ends early, with an error, when the context does. -/
  | wait

def Cmd.Ans : Cmd → Type
  | lockAppend => Unit
  | unlockAppend => Unit
  | begin => Except Failure Unit
  | commit => Except Failure Unit
  | rollback => Unit
  | blobDataTx _ _ => Except Failure (Option Bytes)
  | insert _ => Except Failure Unit
  | selectRows => Except Failure (List Row)
  | delete _ => Except Failure Unit
  | upsert _ _ => Except Failure Unit
  | wait => Except Failure Unit

abbrev interface : Interface := ⟨Cmd, Cmd.Ans⟩

abbrev Prog := Conc.Prog interface Failure

def cmd (c : Cmd) : Prog c.Ans := Conc.Prog.cmd (I := interface) c

/-- What the environment decides about a statement: that it fails, or that it does not and how many
ids an insert skips. -/
inductive Choice
  | ok (skip : ℕ)
  | fails (conflict : Bool)

/-- The error of a statement that fails. -/
def failure (conflict : Bool) : Failure := if conflict then .lockConflict else .unavailable

/-- **What a statement does**; none if it has to wait for a lock. -/
def exec (t : Tid) (s : State) : (c : Cmd) → Choice → Option (c.Ans × State)
  | .lockAppend, _ =>
      if s.appendMu t.replica = none then
        some ((), { s with
          appendMu := Function.update s.appendMu t.replica (some t)
          calls := Function.update s.calls t ({} :: s.calls t) })
      else none
  | .unlockAppend, _ =>
      some ((), { s with appendMu := Function.update s.appendMu t.replica none })
  | .begin, .ok _ => some (.ok (), s.worked t [] {} s.nextId)
  | .begin, .fails conflict => some (.error (failure conflict), s)
  | .commit, .ok _ => some (.ok (), s.committed t)
  | .commit, .fails conflict => some (.error (failure conflict), s.ended t)
  | .rollback, _ => some ((), s.ended t)
  | .blobDataTx key forUpdate, .ok _ =>
      -- A row that is not there is not locked.
      if forUpdate && ((s.seen t).blobs key).isSome then
        if s.Free t [.blob key] then
          some (.ok ((s.seen t).blobs key), s.worked t [.blob key] (s.tx t) s.nextId)
        else none
      else some (.ok ((s.seen t).blobs key), s)
  | .blobDataTx _ _, .fails conflict => some (.error (failure conflict), s)
  | .insert rec, .ok skip =>
      if s.Free t [.serial rec.serial] then
        if (s.seen t).rows.rows.any fun r => r.2.serial = rec.serial then
          some (.error (.duplicateSerial rec.serial), s)
        else
          -- Numbers may be skipped, and a rollback does not give them back.
          some (.ok (), s.worked t [.serial rec.serial]
            { s.tx t with inserted := (s.tx t).inserted ++ [(s.nextId + skip, rec)] }
            (s.nextId + skip + 1))
      else none
  | .insert _, .fails conflict => some (.error (failure conflict), s)
  | .selectRows, .ok _ => some (.ok (s.seen t).rows.rows, s)
  | .selectRows, .fails conflict => some (.error (failure conflict), s)
  | .delete ids, .ok _ =>
      if s.Free t (ids.map Lock.row) then
        some (.ok (), s.worked t (ids.map Lock.row)
          { s.tx t with deleted := (s.tx t).deleted ++ ids } s.nextId)
      else none
  | .delete _, .fails conflict => some (.error (failure conflict), s)
  | .upsert key data, .ok _ =>
      if s.Free t [.blob key] then
        some (.ok (), s.worked t [.blob key]
          { s.tx t with blobs := Function.update (s.tx t).blobs key (some data) } s.nextId)
      else none
  | .upsert _ _, .fails conflict => some (.error (failure conflict), s)
  | .wait, .ok _ => some (.ok (), s)
  | .wait, .fails conflict => some (.error (failure conflict), s)

abbrev machine : Machine interface := ⟨State, Tid, Choice, exec⟩

/-! ### Transactions -/

/-- `RunInTx`: the transaction is committed if the body succeeds, and rolled back if not. -/
def runInTx {α : Type} (body : Prog α) : Prog α :=
  (cmd .begin).orFail.bind fun _ => body.attempt.bind fun
    | .ok a => (cmd .commit).orFail.bind fun _ => .ret a
    | .error e => (cmd .rollback).bind fun _ => .fail e

def isRetryableSQLError : Failure → Bool
  | .lockConflict => true
  | _ => false

def maxAttempts : ℕ := 10

/-- Attempts, with how many more may follow the one that is made. -/
def attempts {α : Type} (once : Prog α) : ℕ → Prog α
  | 0 => once
  | n + 1 => once.attempt.bind fun
      | .ok a => .ret a
      | .error e =>
          if isRetryableSQLError e then (cmd .wait).orFail.bind fun _ => attempts once n
          else .fail e

/-- `appendMu.Lock()` with a deferred `appendMu.Unlock()`. -/
def withAppendMu {α : Type} (body : Prog α) : Prog α :=
  body.between (cmd .lockAppend) (cmd .unlockAppend)

/-! ### Appending -/

/-- The head is advanced, when integrity checking is on. -/
def advance : Option (Bytes → Bytes) → Prog Unit
  | none => .ret ()
  | some newHead => (cmd (.blobDataTx .inventoryHMAC false)).orFail.bind fun prev =>
      (cmd (.upsert .inventoryHMAC (newHead (prev.getD [])))).orFail

/-- The statements of the transaction of an append. -/
def appendStatements (rec : CertRecord) (newHead : Option (Bytes → Bytes)) : Prog Unit :=
  (cmd (.blobDataTx .inventory true)).orFail.bind fun _ =>
  (cmd (.insert rec)).orFail.bind fun _ =>
  (advance newHead).bind fun _ =>
  (cmd (.upsert .inventory [])).orFail

def appendEntryOnce (rec : CertRecord) (newHead : Option (Bytes → Bytes)) : Prog Unit :=
  runInTx (appendStatements rec newHead)

def appendEntry (rec : CertRecord) (newHead : Option (Bytes → Bytes)) : Prog Unit :=
  withAppendMu (attempts (appendEntryOnce rec newHead) (maxAttempts - 1))

/-! ### Pruning -/

/-- The head over the survivors, when integrity checking is on. -/
def rewriteHead (survivors : List Row) : Option (Bytes → InventoryEntry → Bytes) → Prog Unit
  | none => .ret ()
  | some advanceHead =>
      (cmd (.upsert .inventoryHMAC ((entriesOf survivors).foldl advanceHead []))).orFail

/-- The statements of the transaction of a prune. -/
def pruneStatements (keep : InventoryEntry → Bool)
    (advanceHead : Option (Bytes → InventoryEntry → Bytes)) : Prog (List InventoryEntry) :=
  (cmd (.blobDataTx .inventory true)).orFail.bind fun _ =>
  (cmd .selectRows).orFail.bind fun rows =>
    let survivors := rows.filter fun r => keep (entryOf r)
    let removed := rows.filter fun r => !keep (entryOf r)
    if removed = [] then .ret []
    else
      (cmd (.delete (removed.map Prod.fst))).orFail.bind fun _ =>
      (rewriteHead survivors advanceHead).bind fun _ => .ret (entriesOf removed)

def pruneEntriesOnce (keep : InventoryEntry → Bool)
    (advanceHead : Option (Bytes → InventoryEntry → Bytes)) : Prog (List InventoryEntry) :=
  runInTx (pruneStatements keep advanceHead)

/-- `PruneEntries`: what was removed, or nothing and an error. -/
def pruneEntries (keep : InventoryEntry → Bool)
    (advanceHead : Option (Bytes → InventoryEntry → Bytes)) :
    Prog (List InventoryEntry × Option Failure) :=
  withAppendMu <| (attempts (pruneEntriesOnce keep advanceHead) (maxAttempts - 1)).attempt.bind fun
    | .ok removed => .ret (removed, none)
    | .error e => .ret ([], some e)

/-! ### The workload -/

/-- **The SQL inventory store.** -/
def store : InventoryStore interface where
  batched := false
  appendEntry := appendEntry
  pruneEntries := pruneEntries

abbrev Cluster (hmac : Bytes → Bytes → Bytes) (key : Bytes) :=
  Pool machine (store.work Tid hmac key)

abbrev Event (hmac : Bytes → Bytes → Bytes) (key : Bytes) :=
  Label machine (store.work Tid hmac key)

end OpenvoxCa.Storage.Sql
