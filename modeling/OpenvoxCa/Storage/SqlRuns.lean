import OpenvoxCa.Storage.Sql

/-!
# Every run of the SQL inventory

Any number of replicas append and prune, one statement at a time, in any interleaving and with any
statements failing. Who has the lock on the marker row is alone with the database: nobody else
commits (`allowed`), so what its statements see is what is committed when it commits (`Owns`), and
the id of its row is larger than all that were committed before.
-/

namespace OpenvoxCa.Storage.Sql

open Conc

open Data (Table Ascending)

variable {hmac : Bytes → Bytes → Bytes} {key : Bytes} {t u : Tid} {s s' : State}

/-! ### What a statement does -/

/-- **What a statement of thread `t` does to the state.** -/
inductive Effect (t : Tid) (s : State) : Cmd → State → Prop
  | same {c : Cmd} : Effect t s c s
  | lock : s.appendMu t.replica = none → Effect t s .lockAppend
      { s with
        appendMu := Function.update s.appendMu t.replica (some t)
        calls := Function.update s.calls t ({} :: s.calls t) }
  | unlock : Effect t s .unlockAppend
      { s with appendMu := Function.update s.appendMu t.replica none }
  | worked {c : Cmd} (ls : List Lock) (x : Tx) (n : ℕ) : c ≠ .lockAppend → s.Free t ls →
      s.nextId ≤ n → Effect t s c (s.worked t ls x n)
  | ended {c : Cmd} : Effect t s c (s.ended t)
  | committed : Effect t s .commit (s.committed t)

variable {c : Cmd}

theorem exec_effect {ch : Choice} {a : c.Ans} (h : exec t s c ch = some (a, s')) :
    Effect t s c s' := by
  have hsome : ∀ {x : c.Ans × State}, some x = some (a, s') → x.2 = s' := fun h => by
    rw [Option.some.inj h]
  cases c with
  | lockAppend =>
    simp only [exec] at h
    split at h
    · next hfree => exact hsome h ▸ .lock hfree
    · cases h
  | unlockAppend => exact hsome h ▸ .unlock
  | begin =>
    cases ch with
    | ok _ => exact hsome h ▸ .worked [] {} _ (by simp) (by simp [State.Free]) le_rfl
    | fails _ => exact hsome h ▸ .same
  | commit =>
    cases ch with
    | ok _ => exact hsome h ▸ .committed
    | fails _ => exact hsome h ▸ .ended
  | rollback => exact hsome h ▸ .ended
  | blobDataTx k forUpdate =>
    cases ch with
    | fails _ => exact hsome h ▸ .same
    | ok _ =>
      simp only [exec] at h
      split at h
      · split at h
        · next hfree => exact hsome h ▸ .worked _ _ _ (by simp) hfree le_rfl
        · cases h
      · exact hsome h ▸ .same
  | insert rec =>
    cases ch with
    | fails _ => exact hsome h ▸ .same
    | ok skip =>
      simp only [exec] at h
      split at h
      · next hfree =>
        split at h
        · exact hsome h ▸ .same
        · exact hsome h ▸ .worked _ _ _ (by simp) hfree (by omega)
      · cases h
  | selectRows =>
    cases ch with
    | ok | fails => exact hsome h ▸ .same
  | delete ids =>
    cases ch with
    | fails _ => exact hsome h ▸ .same
    | ok _ =>
      simp only [exec] at h
      split at h
      · next hfree => exact hsome h ▸ .worked _ _ _ (by simp) hfree le_rfl
      · cases h
  | upsert k data =>
    cases ch with
    | fails _ => exact hsome h ▸ .same
    | ok _ =>
      simp only [exec] at h
      split at h
      · next hfree => exact hsome h ▸ .worked _ _ _ (by simp) hfree le_rfl
      · cases h
  | wait =>
    cases ch with
    | ok | fails => exact hsome h ▸ .same

/-! ### The discipline -/

/-- The transaction of the thread has locked the marker row. -/
def Locked (t : Tid) (s : State) : Prop := s.locks (.blob .inventory) = some t

variable (hmac key) in
/-- **The database is consistent**: the head is the chain over the rows by id, no two rows bear one
serial, and there is a marker. -/
structure Db.Consistent (db : Db) : Prop where
  head : (db.blobs .inventoryHMAC).getD [] = headOf hmac key db.rows.rows
  serials : (db.rows.rows.map fun r => r.2.serial).Nodup
  marker : (db.blobs .inventory).isSome = true
  high : ∀ r ∈ db.rows.rows, r.1 < db.high

/-- **What the ledger sees of a state.** -/
def State.view (s : State) : View Tid where
  rows := s.db.rows.rows
  next := s.db.high
  calls := s.calls
  held := HasMu s.appendMu

variable (hmac key) in
/-- **What holds at every moment.** -/
structure Sane (s : State) : Prop where
  consistent : s.db.Consistent hmac key
  high : s.db.high ≤ s.nextId
  /-- A transaction is in the middle of a call. -/
  calling : ∀ t, Locked t s → HasMu s.appendMu t
  ledger : LedgerOk s.view

variable (hmac key) in
/-- **When a thread may issue a statement**: while it holds its replica's lock, which it lets go of
only when its transaction has ended. It commits only under the lock on the marker, and what is right
for the state it finds. -/
def allowed (t : Tid) (j : Job) (c : Cmd)
    (s : State) : Prop :=
  match c with
  | .lockAppend => True
  | .unlockAppend => HasMu s.appendMu t ∧ ¬Locked t s
  | .commit => HasMu s.appendMu t ∧ Locked t s ∧ (s.seen t).Consistent hmac key ∧
      (s.seen t).high ≤ s.nextId ∧
      RowStep s.db.rows.rows s.db.high (s.seen t).rows.rows (s.seen t).high j
  | _ => HasMu s.appendMu t

/-- **An allowed statement goes through the ledger.** -/
theorem ledgerStep_exec {j : Job} {ch : Choice} {a : c.Ans} (hall : allowed hmac key t j c s)
    (hex : exec t s c ch = some (a, s')) : LedgerStep t j s.view s'.view := by
  cases exec_effect hex with
  | same => exact .quiet rfl le_rfl rfl fun _ h => h
  | lock _ =>
    refine .enter rfl le_rfl rfl fun v hv => ?_
    exact (held_of_update hv).imp (fun h => (Option.some.inj h).symm) fun h => h
  | unlock =>
    refine .quiet rfl le_rfl rfl fun v hv => ?_
    exact (held_of_update hv).resolve_left (by simp)
  | worked | ended => exact .quiet rfl le_rfl rfl fun _ h => h
  | committed =>
    obtain ⟨hheld, -, -, -, hstep⟩ := hall
    exact .change hstep hheld rfl fun _ h => h

/-- A thread may issue statements only while it holds its replica's lock. -/
theorem holds_of_allowed {j : Job} (hall : allowed hmac key t j c s) (hc : c ≠ .lockAppend) :
    HasMu s.appendMu t := by
  cases c with
  | lockAppend => exact absurd rfl hc
  | unlockAppend | commit => exact hall.1
  | _ => exact hall

/-- Whether a thread has the lock on the marker is not for the others to change. -/
theorem locked_iff (hne : u ≠ t) (h : Effect u s c s') : Locked t s' ↔ Locked t s := by
  have hended : (if s.locks (.blob .inventory) = some u then none
      else s.locks (.blob .inventory)) = some t ↔ Locked t s := by
    split
    · next hu =>
      rw [Locked, hu]
      simp [hne]
    · exact Iff.rfl
  cases h with
  | same | lock | unlock => exact Iff.rfl
  | worked ls x n _ hfree _ =>
    change (if Lock.blob .inventory ∈ ls then some u else s.locks _) = some t ↔ _
    split
    · next hmem =>
      rw [Locked]
      rcases hfree _ hmem with hl | hl <;> simp [hl, hne]
    · exact Iff.rfl
  | ended | committed => exact hended

theorem not_locked_ended (s : State) (t : Tid) : ¬Locked t (s.ended t) := by
  change (if _ then none else _) ≠ some t
  split
  · simp
  · next h => exact h

/-- The lock of a replica stays with who has it, or is let go of. -/
theorem holds_exec {j : Job} (hne : u ≠ t) (hs : HasMu s.appendMu t)
    (hall : allowed hmac key u j c s)
    (h : Effect u s c s') : HasMu s'.appendMu t := by
  cases h with
  | same => exact hs
  | lock hnone => exact held_update hs hne (Or.inl hnone)
  | unlock => exact held_update hs hne (Or.inr hall.1)
  | worked | ended | committed => exact hs

/-- A transaction that has the lock on the marker stays in the middle of a call. -/
theorem calling_exec {j : Job} (h : ∀ t, Locked t s → HasMu s.appendMu t)
    (hall : allowed hmac key t j c s)
    (heff : Effect t s c s') (v : Tid) (hv : Locked v s') : HasMu s'.appendMu v := by
  rcases eq_or_ne t v with rfl | hne
  · cases heff with
    | same => exact h _ hv
    | lock _ => exact Function.update_self _ _ _
    | unlock => exact absurd hv hall.2
    | worked ls x n hc _ _ =>
      have hheld : HasMu s.appendMu t := holds_of_allowed hall hc
      exact hheld
    | ended | committed => exact absurd hv (not_locked_ended s t)
  · exact holds_exec hne (h v ((locked_iff hne heff).mp hv)) hall heff

/-- **What an allowed statement keeps.** -/
theorem Sane.exec {j : Job} {ch : Choice} {a : c.Ans} (h : Sane hmac key s)
    (hall : allowed hmac key t j c s) (hex : exec t s c ch = some (a, s')) : Sane hmac key s' := by
  have hledger := h.ledger.step (ledgerStep_exec hall hex)
  have hcalling := calling_exec h.calling hall (exec_effect hex)
  cases exec_effect hex with
  | same => exact h
  | lock | unlock => exact ⟨h.consistent, h.high, hcalling, hledger⟩
  | worked ls x n _ _ hle => exact ⟨h.consistent, h.high.trans hle, hcalling, hledger⟩
  | ended => exact ⟨h.consistent, h.high, hcalling, hledger⟩
  | committed => exact ⟨hall.2.2.1, hall.2.2.2.1, hcalling, hledger⟩

variable (hmac key) in
def discipline : Discipline machine Job where
  Inv := Sane hmac key
  Allowed := allowed hmac key
  inv_exec := Sane.exec

variable (hmac key) in
def booked : Booked machine where
  toDiscipline := discipline hmac key
  view := State.view
  ledger := fun hinv => hinv.ledger
  step := fun _ hall hex => ledgerStep_exec hall hex
  held_stable := by
    rintro t s s' hs ⟨u, hne, j, c, ch, a, -, hall, hex⟩
    exact holds_exec hne hs hall (exec_effect hex)

/-! ### What the others leave alone -/

/-- The thread holds the lock of its replica and has made these calls. -/
def Mine (t : Tid) (cs : List Call) (s : State) : Prop := HasMu s.appendMu t ∧ s.calls t = cs

/-- So it is between two attempts: it has no lock on the marker either. -/
def InCall (t : Tid) (cs : List Call) (s : State) : Prop := Mine t cs s ∧ ¬Locked t s

/-- **The thread owns the database**: it has locked the marker, what is committed is `db`, and its
writes so far are `x`. -/
structure Owns (t : Tid) (cs : List Call) (db : Db) (x : Tx) (s : State) : Prop where
  mine : Mine t cs s
  locked : Locked t s
  db : s.db = db
  tx : s.tx t = x
  issued : ∀ r ∈ x.inserted, r.1 < s.nextId

section Stability

variable {cs : List Call} {db : Db} {x : Tx}

theorem mine_stable : Stable (discipline hmac key) t (Mine t cs) :=
  (booked hmac key).mine_stable

theorem not_locked_stable : Stable (discipline hmac key) t fun s => ¬Locked t s := by
  rintro s s' hs ⟨u, hne, j, c, ch, a, -, -, hex⟩
  rwa [locked_iff hne (exec_effect hex)]

theorem inCall_stable : Stable (discipline hmac key) t (InCall t cs) :=
  mine_stable.and not_locked_stable

/-- The writes of a transaction are its own. -/
theorem tx_eq (hne : u ≠ t) (h : Effect u s c s') : s'.tx t = s.tx t := by
  cases h with
  | same | lock | unlock => rfl
  | worked | ended | committed => exact Function.update_of_ne hne.symm _ _

theorem tx_stable : Stable (discipline hmac key) t fun s => s.tx t = x := by
  rintro s s' hs ⟨u, hne, j, c, ch, a, -, -, hex⟩
  exact (tx_eq hne (exec_effect hex)).trans hs

theorem nextId_le (h : Effect u s c s') : s.nextId ≤ s'.nextId := by
  cases h with
  | worked ls y n _ _ hle => exact hle
  | _ => exact le_rfl

/-- **Nobody else commits while the marker is locked.** -/
theorem db_eq (hne : u ≠ t) (hlocked : Locked t s) {j : Job} (hall : allowed hmac key u j c s)
    (h : Effect u s c s') : s'.db = s.db := by
  cases h with
  | committed =>
    have hu : s.locks (.blob .inventory) = some u := hall.2.1
    rw [show s.locks (.blob .inventory) = some t from hlocked] at hu
    exact absurd (Option.some.inj hu).symm hne
  | _ => rfl

theorem owns_stable : Stable (discipline hmac key) t (Owns t cs db x) := by
  rintro s s' hs hrely
  have hmine := mine_stable hs.mine hrely
  obtain ⟨u, hne, j, c, ch, a, -, hall, hex⟩ := hrely
  have heff := exec_effect hex
  exact ⟨hmine, (locked_iff hne heff).mpr hs.locked, (db_eq hne hs.locked hall heff).trans hs.db,
    (tx_eq hne heff).trans hs.tx, fun r hr => (hs.issued r hr).trans_le (nextId_le heff)⟩

end Stability

/-! ### Statements under the lock -/

section Statements

variable {cs : List Call} {db : Db} {x : Tx} {ch : Choice}

theorem Owns.seen (h : Owns t cs db x s) : s.seen t = db.after x := by
  rw [State.seen, h.db, h.tx]

/-- More locks, and other writes. -/
theorem Owns.worked (h : Owns t cs db x s) (ls : List Lock) (y : Tx) {n : ℕ}
    (hn : ∀ r ∈ y.inserted, r.1 < n) : Owns t cs db y (s.worked t ls y n) := by
  refine ⟨h.mine, ?_, h.db, Function.update_self _ _ _, hn⟩
  change (if _ then some t else s.locks _) = some t
  split
  · rfl
  · exact h.locked

/-- What is known after a statement under the lock, by the answer: either the writes are such, or
the transaction is to be rolled back. -/
def After {α : Type} (t : Tid) (cs : List Call) (P : α → State → Prop) :
    Except Failure α → State → Prop
  | .ok a => P a
  | .error _ => Mine t cs

/-- The lock on the marker. -/
theorem lock_exec {a : Except Failure (Option Bytes)} (hinv : Sane hmac key s)
    (hs : InCall t cs s ∧ s.tx t = {})
    (hex : exec t s (.blobDataTx .inventory true) ch = some (a, s')) :
    After t cs (fun _ s => ∃ db, db.Consistent hmac key ∧ Owns t cs db {} s) a s' := by
  cases ch with
  | fails _ =>
    cases hex
    exact hs.1.1
  | ok _ =>
    have hmarker : ((s.seen t).blobs .inventory).isSome = true := by
      rw [State.seen, hs.2]
      exact hinv.consistent.marker
    simp only [exec, hmarker, Bool.and_true, if_true] at hex
    split at hex
    · cases hex
      have hlocked : Locked t (s.worked t [.blob .inventory] (s.tx t) s.nextId) := by
        simp [Locked, State.worked]
      refine ⟨s.db, hinv.consistent, hs.1.1, hlocked, rfl, ?_, by simp⟩
      change Function.update s.tx t (s.tx t) t = {}
      rw [Function.update_self, hs.2]
    · cases hex

/-- A read of the head. -/
theorem read_exec {a : Except Failure (Option Bytes)} (hs : Owns t cs db x s) {k : BlobKey}
    (hex : exec t s (.blobDataTx k false) ch = some (a, s')) :
    After t cs (fun b s => b = (db.after x).blobs k ∧ Owns t cs db x s) a s' := by
  cases ch with
  | fails _ =>
    cases hex
    exact hs.mine
  | ok _ =>
    cases hex
    exact ⟨by rw [hs.seen], hs⟩

theorem select_exec {a : Except Failure (List Row)} (hs : Owns t cs db x s)
    (hex : exec t s .selectRows ch = some (a, s')) :
    After t cs (fun rows s => rows = (db.after x).rows.rows ∧ Owns t cs db x s) a s' := by
  cases ch with
  | fails _ =>
    cases hex
    exact hs.mine
  | ok _ =>
    cases hex
    exact ⟨by rw [hs.seen], hs⟩

theorem upsert_exec {a : Except Failure Unit} (hs : Owns t cs db x s) {k : BlobKey} {data : Bytes}
    (hex : exec t s (.upsert k data) ch = some (a, s')) :
    After t cs (fun _ => Owns t cs db { x with blobs := Function.update x.blobs k (some data) })
      a s' := by
  cases ch with
  | fails _ =>
    cases hex
    exact hs.mine
  | ok _ =>
    simp only [exec] at hex
    split at hex
    · cases hex
      rw [hs.tx]
      exact hs.worked _ _ hs.issued
    · cases hex

theorem delete_exec {a : Except Failure Unit} (hs : Owns t cs db x s) {ids : List ℕ}
    (hex : exec t s (.delete ids) ch = some (a, s')) :
    After t cs (fun _ => Owns t cs db { x with deleted := x.deleted ++ ids }) a s' := by
  cases ch with
  | fails _ =>
    cases hex
    exact hs.mine
  | ok _ =>
    simp only [exec] at hex
    split at hex
    · cases hex
      rw [hs.tx]
      exact hs.worked _ _ hs.issued
    · cases hex

/-- **The id of a new row is larger than all that were committed**, and nobody bears its serial. -/
theorem insert_exec {a : Except Failure Unit} {rec : CertRecord} (hinv : Sane hmac key s)
    (hs : Owns t cs db {} s) (hex : exec t s (.insert rec) ch = some (a, s')) :
    After t cs (fun _ s => ∃ n, (db.high ≤ n ∧ ¬Borne db.rows.rows rec.serial) ∧
      Owns t cs db { inserted := [(n, rec)] } s) a s' := by
  cases ch with
  | fails _ =>
    cases hex
    exact hs.mine
  | ok skip =>
    simp only [exec] at hex
    split at hex
    · split at hex
      · cases hex
        exact hs.mine
      · next hnew =>
        cases hex
        rw [hs.tx]
        refine ⟨s.nextId + skip, ⟨?_, ?_⟩, hs.worked _ _ (by simp)⟩
        · have := hinv.high
          rw [hs.db] at this
          omega
        · rw [hs.seen] at hnew
          simpa [Db.after, Borne] using hnew
    · cases hex

end Statements

/-! ### Transactions -/

section Transactions

variable {cs : List Call} {j : Job} {α : Type}

/-- How a transaction ends: it was committed, and the call has done what `C` says by then; or it has
done nothing. -/
def Ended (t : Tid) (cs : List Call) (C : α → List Call → Prop) : Except Failure α → State → Prop
  | .ok a => fun s => ∃ cs', C a cs' ∧ InCall t cs' s
  | .error _ => InCall t cs

variable {C : α → List Call → Prop}

theorem ended_stable {r : Except Failure α} : Stable (discipline hmac key) t (Ended t cs C r) := by
  cases r with
  | ok a => exact Stable.exists fun _ => (Stable.const _).and inCall_stable
  | error e => exact inCall_stable

/-- **A transaction**: what its body leaves under the lock is committed as a whole, if it is right,
or nothing is. -/
theorem runInTx_spec {body : Prog α} {P : α → Db → Tx → Prop}
    (hbody : Triple (discipline hmac key) t j (fun s => InCall t cs s ∧ s.tx t = {}) body
      (After t cs fun a s => ∃ db x, P a db x ∧ Owns t cs db x s))
    (hright : ∀ a db x n, P a db x → (∀ r ∈ x.inserted, r.1 < n) → db.high ≤ n →
      (db.after x).Consistent hmac key ∧ (db.after x).high ≤ n ∧
      RowStep db.rows.rows db.high (db.after x).rows.rows (db.after x).high j)
    (hcalls : ∀ a db x, P a db x → C a (noteRows db.rows.rows (db.after x).rows.rows cs)) :
    Triple (discipline hmac key) t j (InCall t cs) (runInTx body) (Ended t cs C) := by
  refine Triple.call (R := fun r s => match r with
    | .ok _ => InCall t cs s ∧ s.tx t = {}
    | .error _ => InCall t cs s) inCall_stable (fun _ _ hs => hs.1.1) ?_ ?_
  · rintro s (skip | conflict) a s' - hs hex
    · cases hex
      exact ⟨⟨hs.1, fun h => hs.2 (by simpa [Locked, State.worked] using h)⟩,
        Function.update_self _ _ _⟩
    · cases hex
      exact hs
  rintro (e | _)
  · exact Triple.fail inCall_stable fun s _ hs => hs
  refine Triple.attempt_bind hbody ?_
  rintro (e | a)
  · -- The body has failed: whatever it has written is dropped.
    refine Triple.call (R := fun _ => InCall t cs) mine_stable (fun _ _ hs => hs.1) ?_ fun _ => ?_
    · rintro s ch a s' - hs hex
      cases hex
      exact ⟨hs, not_locked_ended s t⟩
    · exact Triple.fail inCall_stable fun s _ hs => hs
  · -- The commit takes all that the body has left, or conflicts and takes nothing.
    refine Triple.exists_pre fun db => Triple.exists_pre fun x => Triple.pure_pre fun hP => ?_
    refine Triple.call (R := fun r => Ended t cs (fun _ => C a) r) owns_stable ?_ ?_ ?_
    · intro s hinv hs
      have hhigh := hinv.high
      rw [hs.db] at hhigh
      obtain ⟨hcons, hle, hstep⟩ := hright a db x s.nextId hP hs.issued hhigh
      refine ⟨hs.mine.1, hs.locked, ?_, ?_, ?_⟩
      · rwa [hs.seen]
      · rwa [hs.seen]
      · rwa [hs.seen, hs.db]
    · rintro s (skip | conflict) r s' hinv hs hex
      · cases hex
        refine ⟨_, hcalls a db x hP, ⟨hs.mine.1, ?_⟩, not_locked_ended s t⟩
        change Function.update s.calls t _ t = _
        rw [Function.update_self, hs.seen, hs.db, hs.mine.2]
      · cases hex
        exact ⟨hs.mine, not_locked_ended s t⟩
    · rintro (e | _)
      · exact Triple.fail inCall_stable fun s _ hs => hs
      · exact Triple.ret ended_stable fun s _ hs => hs

/-- **Attempts**: the last one decides. -/
theorem attempts_spec {once : Prog α}
    (honce : Triple (discipline hmac key) t j (InCall t cs) once (Ended t cs C)) (n : ℕ) :
    Triple (discipline hmac key) t j (InCall t cs) (attempts once n) (Ended t cs C) := by
  induction n with
  | zero => exact honce
  | succ n ih =>
    refine Triple.attempt_bind honce ?_
    rintro (e | a)
    · change Triple (discipline hmac key) t j (InCall t cs) (ite _ _ _) _
      split
      · refine Triple.call (R := fun _ => InCall t cs) inCall_stable (fun _ _ hs => hs.1.1) ?_ ?_
        · rintro s (skip | conflict) a s' - hs hex
          · cases hex
            exact hs
          · cases hex
            exact hs
        · rintro (e | _)
          · exact Triple.fail inCall_stable fun s _ hs => hs
          · exact ih
      · exact Triple.fail inCall_stable fun s _ hs => hs
    · exact Triple.ret ended_stable fun s _ hs => hs

/-- **A body under the lock of the replica**: the call is entered in the ledger, and the lock is
released. -/
theorem withAppendMu_spec {body : Prog α} {C : Except Failure α → List Call → Prop}
    (h : Triple (discipline hmac key) t j (InCall t ({} :: cs)) body
      fun r s => ∃ cs', C r cs' ∧ InCall t cs' s) :
    Triple (discipline hmac key) t j (fun s => s.calls t = cs) (withAppendMu body)
      fun r s => ¬HasMu s.appendMu t ∧ C r (s.calls t) := by
  have hbody : Triple (discipline hmac key) t j (InCall t ({} :: cs)) body
      fun r s => (HasMu s.appendMu t ∧ ¬Locked t s) ∧ C r (s.calls t) := by
    refine h.weaken ?_
    rintro r s - ⟨cs', hC, ⟨hmu, rfl⟩, hlocked⟩
    exact ⟨⟨hmu, hlocked⟩, hC⟩
  refine (booked hmac key).withMu_spec (fun _ => trivial) ?_ hbody
    (((booked hmac key).held_stable t).and not_locked_stable) (fun _ hs => hs) ?_
  · rintro s ch a s' hinv hs hex
    simp only [exec] at hex
    split at hex
    · next hfree =>
      cases hex
      refine ⟨⟨Function.update_self _ _ _, ?_⟩, fun hlocked => ?_⟩
      · change Function.update s.calls t ({} :: s.calls t) t = _
        rw [Function.update_self]
        exact congrArg _ hs
      · cases hfree.symm.trans (hinv.calling t hlocked)
    · cases hex
  · rintro s ch a s' hex
    cases hex
    exact ⟨not_hasMu_update, rfl⟩

end Transactions

/-! ### Appending -/

section Append

variable {cs : List Call} {db : Db} {rec : CertRecord} {n : ℕ}

variable (hmac key) in
/-- The writes of an append. -/
def appendTx (db : Db) (rec : CertRecord) (n : ℕ) :
    Tx where
  inserted := [(n, rec)]
  blobs := Function.update (Function.update (fun _ => none) .inventoryHMAC
    (some (advanceHead hmac key ((db.blobs .inventoryHMAC).getD []) rec.toInventoryEntry)))
    .inventory (some [])

variable (hmac key) in
/-- When they are right: the id is a new one, and so is the serial. -/
structure Appends (db : Db) (rec : CertRecord)
    (n : ℕ) : Prop where
  consistent : db.Consistent hmac key
  high : db.high ≤ n
  fresh : ¬Borne db.rows.rows rec.serial

theorem Appends.rows (h : Appends hmac key db rec n) :
    (db.after (appendTx hmac key db rec n)).rows.rows = db.rows.rows ++ [(n, rec)] := by
  have hretain : db.rows.retain (fun r => r.1 ∉ (appendTx hmac key db rec n).deleted) =
    db.rows := by
    refine Table.ext ?_
    simp [appendTx]
  change (List.foldl _ (db.rows.retain _) [(n, rec)]).rows = _
  rw [hretain]
  exact Table.rows_put_of_lt (fun r hr => (h.consistent.high r hr).trans_le h.high) rec

theorem Appends.consistent_after (h : Appends hmac key db rec n) :
    (db.after (appendTx hmac key db rec n)).Consistent hmac key := by
  have hhigh : (db.after (appendTx hmac key db rec n)).high = n + 1 :=
    max_eq_right (h.high.trans (Nat.le_succ n))
  refine ⟨?_, ?_, rfl, ?_⟩
  · rw [h.rows, headOf_append, ← h.consistent.head]
    rfl
  · rw [h.rows, List.map_append, List.nodup_append]
    refine ⟨h.consistent.serials, by simp, ?_⟩
    rintro x hx y hy rfl
    obtain ⟨r, hr, hrx⟩ := List.mem_map.mp hx
    exact h.fresh ⟨r, hr, hrx.trans (by simpa using hy)⟩
  · intro r hr
    rw [h.rows] at hr
    rw [hhigh]
    rcases List.mem_append.mp hr with hr | hr
    · exact (h.consistent.high r hr).trans_le (h.high.trans (Nat.le_succ n))
    · rw [List.mem_singleton.mp hr]
      exact Nat.lt_succ_self n

theorem Appends.rowStep (h : Appends hmac key db rec n) :
    RowStep db.rows.rows db.high (db.after (appendTx hmac key db rec n)).rows.rows
      (db.after (appendTx hmac key db rec n)).high (.append rec) :=
  .append rec n h.rows h.high (lt_max_of_lt_right (Nat.lt_succ_self n))

theorem appendStatements_spec :
    Triple (discipline hmac key) t (.append rec) (fun s => InCall t cs s ∧ s.tx t = {})
      (appendStatements rec (some fun prev => advanceHead hmac key prev rec.toInventoryEntry))
      (After t cs fun _ s => ∃ db x, (∃ n, Appends hmac key db rec n ∧
        x = appendTx hmac key db rec n) ∧ Owns t cs db x s) := by
  refine Triple.call (inCall_stable.and tx_stable) (fun _ _ hs => hs.1.1.1)
    (fun s ch a s' hinv hs hex => lock_exec hinv hs hex) ?_
  rintro (e | _)
  · exact Triple.fail mine_stable fun s _ hs => hs
  refine Triple.exists_pre fun db => Triple.pure_pre fun hcons => ?_
  refine Triple.call owns_stable (fun _ _ hs => hs.mine.1)
    (fun s ch a s' hinv hs hex => insert_exec hinv hs hex) ?_
  rintro (e | _)
  · exact Triple.fail mine_stable fun s _ hs => hs
  refine Triple.exists_pre fun n => Triple.pure_pre fun ⟨hhigh, hfresh⟩ => ?_
  refine Triple.call owns_stable (fun _ _ hs => hs.mine.1)
    (fun s ch a s' _ hs hex => read_exec hs hex) ?_
  rintro (e | prev)
  · exact Triple.fail mine_stable fun s _ hs => hs
  refine Triple.pure_pre ?_
  rintro rfl
  refine Triple.call owns_stable (fun _ _ hs => hs.mine.1)
    (fun s ch a s' _ hs hex => upsert_exec hs hex) ?_
  rintro (e | _)
  · exact Triple.fail mine_stable fun s _ hs => hs
  refine Triple.call owns_stable (fun _ _ hs => hs.mine.1)
    (fun s ch a s' _ hs hex => upsert_exec hs hex) ?_
  rintro (e | _)
  · exact Triple.fail mine_stable fun s _ hs => hs
  · exact Triple.ret owns_stable fun s _ hs => ⟨db, _, ⟨n, ⟨hcons, hhigh, hfresh⟩, rfl⟩, hs⟩

theorem appendEntryOnce_spec :
    Triple (discipline hmac key) t (.append rec) (InCall t ({} :: cs))
      (appendEntryOnce rec (some fun prev => advanceHead hmac key prev rec.toInventoryEntry))
      (Ended t ({} :: cs) fun _ cs' => ∃ n, cs' = { added := [(n, rec)] } :: cs) := by
  refine runInTx_spec appendStatements_spec ?_ ?_
  · rintro - db x m ⟨n, h, rfl⟩ hissued hle
    exact ⟨h.consistent_after, max_le hle (hissued (n, rec) List.mem_cons_self), h.rowStep⟩
  · rintro - db x ⟨n, h, rfl⟩
    rw [h.rows]
    refine ⟨n, noteRows_append _ fun hmem => ?_⟩
    exact absurd (h.consistent.high _ hmem) (Nat.not_lt.mpr h.high)

theorem appendEntry_spec (rec : CertRecord) (cs : List Call) :
    Triple (discipline hmac key) t (.append rec) (fun s => s.calls t = cs)
      (appendEntry rec (some fun prev => advanceHead hmac key prev rec.toInventoryEntry))
      fun r s => ¬HasMu s.appendMu t ∧ AppendOutcome rec cs r (s.calls t) := by
  refine withAppendMu_spec ((attempts_spec appendEntryOnce_spec _).weaken ?_)
  rintro (e | _) s - hs
  · exact ⟨_, rfl, hs⟩
  · exact hs

end Append

/-! ### Pruning -/

section Prune

variable {cs : List Call} {db : Db} {keep : InventoryEntry → Bool}

/-- The rows a prune removes. -/
def Db.rejected (db : Db) (keep : InventoryEntry → Bool) : List Row :=
  db.rows.rows.filter fun r => !keep (entryOf r)

variable (hmac key) in
/-- **When the writes of a prune are right**: they leave the rows to keep, and the chain over
them. -/
structure Prunes (keep : InventoryEntry → Bool)
    (db : Db) (x : Tx) : Prop where
  consistent : db.Consistent hmac key
  rows : (db.after x).rows.rows = db.rows.rows.filter fun r => keep (entryOf r)
  head : ((db.after x).blobs .inventoryHMAC).getD [] = headOf hmac key (db.after x).rows.rows
  marker : x.blobs .inventory = none
  high : x.inserted = []

theorem Prunes.consistent_after {x : Tx} (h : Prunes hmac key keep db x) :
    (db.after x).Consistent hmac key := by
  refine ⟨h.head, ?_, ?_, fun r hr => ?_⟩
  · rw [h.rows]
    exact h.consistent.serials.sublist (List.filter_sublist.map _)
  · change ((x.blobs .inventory).or (db.blobs .inventory)).isSome = true
    rw [h.marker]
    exact h.consistent.marker
  · rw [h.rows] at hr
    rw [Db.after, h.high]
    exact h.consistent.high r (List.mem_filter.mp hr).1

theorem Prunes.rowStep {x : Tx} (h : Prunes hmac key keep db x) :
    RowStep db.rows.rows db.high (db.after x).rows.rows (db.after x).high (.prune keep) := by
  refine .prune keep (fun r => keep (entryOf r)) h.rows (fun _ _ hr => hr) ?_
  rw [Db.after, h.high]
  exact le_rfl

/-- Nothing to remove. -/
theorem prunes_nothing (hcons : db.Consistent hmac key) (h : db.rejected keep = []) :
    Prunes hmac key keep db {} := by
  have hafter : (db.after {}).rows.rows = db.rows.rows := by simp [Db.after]
  refine ⟨hcons, ?_, ?_, rfl, rfl⟩
  · rw [hafter, eq_comm, List.filter_eq_self]
    intro r hr
    simpa using List.filter_eq_nil_iff.mp h r hr
  · rw [hafter]
    exact hcons.head

/-- The rows to remove, and the chain over the others. -/
theorem prunes_rejected (hcons : db.Consistent hmac key) :
    Prunes hmac key keep db
      { deleted := (db.rejected keep).map Prod.fst
        blobs := Function.update (fun _ => none) .inventoryHMAC (some
          ((entriesOf (db.rows.rows.filter fun r => keep (entryOf r))).foldl
            (advanceHead hmac key) [])) } := by
  have hrows : db.rows.rows.filter (fun r => r.1 ∉ (db.rejected keep).map Prod.fst) =
      db.rows.rows.filter fun r => keep (entryOf r) := by
    refine List.filter_congr fun r hr => ?_
    rw [Bool.eq_iff_iff, decide_eq_true_iff]
    constructor
    · intro hnot
      by_contra hkeep
      exact hnot (List.mem_map_of_mem (List.mem_filter.mpr ⟨hr, by simpa using hkeep⟩))
    · intro hkeep hmem
      obtain ⟨r', hr', hid⟩ := List.mem_map.mp hmem
      obtain ⟨hr', hrej⟩ := List.mem_filter.mp hr'
      rw [db.rows.eq_of_key_eq hr' hr hid, hkeep] at hrej
      cases hrej
  refine ⟨hcons, hrows, ?_, rfl, rfl⟩
  change _ = headOf hmac key (db.rows.rows.filter _)
  rw [hrows]
  rfl

theorem pruneStatements_spec :
    Triple (discipline hmac key) t (.prune keep) (fun s => InCall t cs s ∧ s.tx t = {})
      (pruneStatements keep (some (advanceHead hmac key)))
      (After t cs fun l s => ∃ db x,
      (Prunes hmac key keep db x ∧ l = entriesOf (db.rejected keep)) ∧
        Owns t cs db x s) := by
  refine Triple.call (inCall_stable.and tx_stable) (fun _ _ hs => hs.1.1.1)
    (fun s ch a s' hinv hs hex => lock_exec hinv hs hex) ?_
  rintro (e | _)
  · exact Triple.fail mine_stable fun s _ hs => hs
  refine Triple.exists_pre fun db => Triple.pure_pre fun hcons => ?_
  refine Triple.call owns_stable (fun _ _ hs => hs.mine.1)
    (fun s ch a s' _ hs hex => select_exec hs hex) ?_
  rintro (e | rows)
  · exact Triple.fail mine_stable fun s _ hs => hs
  refine Triple.pure_pre fun hrows => ?_
  obtain rfl : rows = db.rows.rows := hrows.trans (by simp [Db.after])
  change Triple (discipline hmac key) t _ _ (ite (db.rejected keep = []) _ _) _
  split
  · next hnone =>
    refine Triple.ret owns_stable fun s _ hs => ?_
    exact ⟨db, {}, ⟨prunes_nothing hcons hnone, by rw [hnone]; rfl⟩, hs⟩
  · refine Triple.call owns_stable (fun _ _ hs => hs.mine.1)
      (fun s ch a s' _ hs hex => delete_exec hs hex) ?_
    rintro (e | _)
    · exact Triple.fail mine_stable fun s _ hs => hs
    refine Triple.call owns_stable (fun _ _ hs => hs.mine.1)
      (fun s ch a s' _ hs hex => upsert_exec hs hex) ?_
    rintro (e | _)
    · exact Triple.fail mine_stable fun s _ hs => hs
    · exact Triple.ret owns_stable fun s _ hs => ⟨db, _, ⟨prunes_rejected hcons, rfl⟩, hs⟩

theorem pruneEntriesOnce_spec :
    Triple (discipline hmac key) t (.prune keep) (InCall t ({} :: cs))
      (pruneEntriesOnce keep (some (advanceHead hmac key)))
      (Ended t ({} :: cs) fun l => PruneOutcome false keep cs (.ok (l, none))) := by
  refine runInTx_spec pruneStatements_spec ?_ ?_
  · rintro - db x m ⟨h, -⟩ - hle
    refine ⟨h.consistent_after, ?_, h.rowStep⟩
    rwa [Db.after, h.high]
  · rintro - db x ⟨h, rfl⟩
    rw [h.rows, noteRows_filter]
    refine ⟨_, _, none, rfl, rfl, by simp, db.rows.sorted.filter _, List.Perm.refl _,
      fun r hr => ?_⟩
    simpa using (List.mem_filter.mp hr).2

theorem pruneEntries_spec (keep : InventoryEntry → Bool) (cs : List Call) :
    Triple (discipline hmac key) t (.prune keep) (fun s => s.calls t = cs)
      (pruneEntries keep (some (advanceHead hmac key)))
      fun r s => ¬HasMu s.appendMu t ∧ PruneOutcome false keep cs r (s.calls t) := by
  refine withAppendMu_spec (Triple.attempt_bind (attempts_spec pruneEntriesOnce_spec _) ?_)
  rintro (e | l)
  · refine Triple.ret inCall_stable fun s _ hs => ⟨_, ?_, hs⟩
    exact ⟨[], [], some e, rfl, rfl, fun _ _ => rfl, List.Pairwise.nil, List.Perm.nil, by simp⟩
  · exact Triple.ret ended_stable fun s _ hs => hs

end Prune

/-! ### Every run -/

variable (hmac key) in
/-- **The SQL inventory goes through the ledger.** -/
def ledgered : Ledgered machine store hmac key where
  toBooked := booked hmac key
  append_spec := fun _ rec cs => appendEntry_spec rec cs
  prune_spec := fun _ keep cs => pruneEntries_spec keep cs

variable (hmac key) in
/-- **Where a cluster starts**: a consistent database, no id handed out that is not past those
committed, no lock held, no call made. -/
structure State.AtRest (s : State) : Prop where
  consistent : s.db.Consistent hmac key
  high : s.db.high ≤ s.nextId
  unlocked : ∀ l, s.locks l = none
  free : ∀ r, s.appendMu r = none
  fresh : ∀ t, s.calls t = []

theorem State.AtRest.not_holds (h : s.AtRest hmac key) (t : Tid) : ¬s.view.held t := by
  simp [State.view, HasMu, h.free]

theorem State.AtRest.sane (h : s.AtRest hmac key) : Sane hmac key s := by
  have hcalls : ∀ t, s.view.calls t = [] := h.fresh
  refine ⟨h.consistent, h.high, ?_, s.db.rows.sorted, h.consistent.high, ?_, ?_, ?_, ?_⟩
  · simp [Locked, h.unlocked]
  · simp [hcalls]
  · simp [hcalls]
  · simp [hcalls]
  · exact fun t hheld => absurd hheld (h.not_holds t)

section Run

variable {s₀ : State} {q : Cluster hmac key} {ls : List (Event hmac key)}

/-- **The SQL inventory.** Any number of replicas append and prune, from any consistent database,
statement by statement in any interleaving, with any statements failing and any transactions
aborted. At every moment what is committed is consistent: the head is the chain over the rows by id,
and no two rows bear one serial. The calls that every thread has reported are as reported
(`Accounts`): a successful append has added its record once, a prune has returned what it has
removed, in order and all of it rejected, or an error and has removed nothing. And what an append
has added is there until a prune returns it. -/
theorem sql_inventory (h₀ : s₀.AtRest hmac key)
    (hrun : (Pool.initial s₀ : Cluster hmac key).run ls = some q) :
    q.shared.db.Consistent hmac key ∧
    ∀ t, ∃ now past, q.shared.calls t = now ++ past ∧
      List.Forall₂ Accounts past (q.reportsOf t) ∧
      ∀ c ∈ past, ∀ r ∈ c.added, Placed State.view q r := by
  have hreach := (ledgered hmac key).reachable h₀.sane h₀.fresh h₀.not_holds hrun
  exact ⟨hreach.1.1.consistent,
    (ledgered hmac key).calls_of_run h₀.sane h₀.fresh h₀.not_holds hrun⟩

end Run

/-! Two replicas append at the same time, and the first one then prunes. -/

/-- The inventory after bootstrap: a marker, and nothing else. -/
def touched : State :=
  { db := { blobs := Function.update (fun _ => none) .inventory (some []) } }

variable (hmac key) in
theorem atRest_touched : touched.AtRest hmac key where
  consistent := ⟨rfl, by simp [touched], rfl, by simp [touched]⟩
  high := le_rfl
  unlocked := fun _ => rfl
  free := fun _ => rfl
  fresh := fun _ => rfl

/-- The second replica has begun its transaction when the first one has the lock, and waits. -/
def sampleEvents : List (Event (fun _ m => m) []) :=
  [.start ⟨0, 0⟩ (.append (sampleRecord ['A'] serialA_ne_nil))] ++
  List.replicate 3 (.step ⟨0, 0⟩ (.ok 0)) ++
  [.start ⟨1, 0⟩ (.append (sampleRecord ['B'] serialB_ne_nil))] ++
  List.replicate 2 (.step ⟨1, 0⟩ (.ok 0)) ++ List.replicate 6 (.step ⟨0, 0⟩ (.ok 0)) ++
  [.finish ⟨0, 0⟩] ++ List.replicate 7 (.step ⟨1, 0⟩ (.ok 3)) ++ [.finish ⟨1, 0⟩] ++
  [.start ⟨0, 0⟩ (.prune fun e => e.serial = ['B'])] ++
  List.replicate 8 (.step ⟨0, 0⟩ (.ok 0)) ++ [.finish ⟨0, 0⟩]

def sampleRun : Option (Cluster (fun _ m => m) []) := (Pool.initial touched).run sampleEvents

theorem sampleRun_eq : sampleRun.map (fun q => (q.shared.db.rows.rows.map Prod.fst,
    q.reports.length)) = some ([4], 3) := by
  decide +kernel

theorem sql_inventory_sample : ∃ q, sampleRun = some q ∧ q.shared.db.rows.rows.map Prod.fst = [4] ∧
    q.reports.length = 3 ∧ q.shared.db.Consistent (fun _ m => m) [] := by
  obtain ⟨q, hq, hseen⟩ := Option.map_eq_some_iff.mp sampleRun_eq
  obtain ⟨hrows, hreports⟩ := Prod.mk.inj hseen
  exact ⟨q, hq, hrows, hreports, (sql_inventory (atRest_touched _ _) hq).1⟩

end OpenvoxCa.Storage.Sql
