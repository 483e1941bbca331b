import OpenvoxCa.Storage.EtcdWrites

/-!
# Every run of the etcd inventory

Any number of replicas append to the inventory and prune it, in any interleaving, with any of their
requests failing. The discipline they keep is short: every transaction that takes effect moves the
fence, and what it writes is right for the state it finds (`allowed`). That it is right for *that*
state, and not only for the one its writer has read, is the fence's doing: the revision of the
counter is still the one that was read, so nothing has been written since (`Conc.Fenced`).

The two results are

* `etcd_inventory`: the inventory is consistent in every state, and an entry
  that was appended is there until a prune returns it;
* `etcd_prune_reports`: a prune returns exactly what it has removed.
-/

namespace OpenvoxCa.Storage.Etcd

open Conc

open Data (Table Ascending)

variable {hmac : Bytes → Bytes → Bytes} {key : Bytes} {t u : Tid} {s s' : State}

/-! ### What a request does -/

/-- **What a request of thread `t` does to the state.** -/
inductive Effect (t : Tid) (s : State) : Cmd → State → Prop
  | same {c : Cmd} : Effect t s c s
  | lock : s.appendMu t.replica = none → Effect t s .lockAppend
      { s with
        appendMu := Function.update s.appendMu t.replica (some t)
        calls := Function.update s.calls t ({} :: s.calls t) }
  | unlock : Effect t s .unlockAppend
      { s with appendMu := Function.update s.appendMu t.replica none }
  | commit {guards : List Guard} {ops : List Op} : guards.all (Guard.holds s) = true →
      Effect t s (.commit guards ops) (s.committed t ops)

variable {ch : Bool}

theorem exec_effect {c : Cmd} {a : c.Ans} (h : exec t s c ch = some (a, s')) : Effect t s c s' := by
  cases c with
  | lockAppend =>
    simp only [exec] at h
    split at h
    · next hfree =>
      cases h
      exact .lock hfree
    · cases h
  | unlockAppend =>
    cases h
    exact .unlock
  | commit guards ops =>
    simp only [exec] at h
    split at h
    · cases h
      exact .same
    · split at h
      · next hguards =>
        cases h
        exact .commit hguards
      · cases h
        exact .same
  | _ =>
    cases h
    exact .same

/-! ### The ledger -/

/-- **What the ledger sees of a state.** -/
def State.view (s : State) : View Tid where
  rows := s.keys.rows
  next := s.keys.last + 1
  calls := s.calls
  held := HasMu s.appendMu

variable (hmac key) in
/-- **What holds at every moment.** -/
structure Sane (s : State) : Prop where
  consistent : s.keys.Consistent hmac key
  revision : s.seqRevision ≤ s.revision
  ledger : LedgerOk s.view

variable (hmac key) in
/-- **When a thread may issue a request**: it lets go of the lock only if it holds it, and writes
only while it does; what it writes moves the fence, and is right for the state it finds. -/
def allowed (t : Tid) (j : Job) (c : Cmd)
    (s : State) : Prop :=
  match c with
  | .unlockAppend => HasMu s.appendMu t
  | .commit guards ops => HasMu s.appendMu t ∧ ops.any Op.isPutSeq = true ∧
      (guards.all (Guard.holds s) = true →
        (s.keys.after ops).Consistent hmac key ∧
          RowStep s.keys.rows (s.keys.last + 1) (s.keys.after ops).rows
            ((s.keys.after ops).last + 1) j)
  | _ => True

/-- **An allowed request goes through the ledger.** -/
theorem ledgerStep_exec {j : Job} {c : Cmd} {a : c.Ans} (hall : allowed hmac key t j c s)
    (hex : exec t s c ch = some (a, s')) : LedgerStep t j s.view s'.view := by
  cases exec_effect hex with
  | same => exact .quiet rfl le_rfl rfl fun _ h => h
  | lock _ =>
    refine .enter rfl le_rfl rfl fun v hv => ?_
    exact (held_of_update hv).imp (fun h => (Option.some.inj h).symm) fun h => h
  | unlock =>
    refine .quiet rfl le_rfl rfl fun v hv => ?_
    exact (held_of_update hv).resolve_left (by simp)
  | commit hguards =>
    obtain ⟨hheld, -, hright⟩ := hall
    exact .change (hright hguards).2 hheld rfl fun _ h => h

/-- **What an allowed request keeps.** -/
theorem Sane.exec {j : Job} {c : Cmd} {a : c.Ans} (h : Sane hmac key s)
    (hall : allowed hmac key t j c s) (hex : exec t s c ch = some (a, s')) : Sane hmac key s' := by
  have hledger := h.ledger.step (ledgerStep_exec hall hex)
  cases exec_effect hex with
  | same => exact h
  | lock | unlock => exact ⟨h.consistent, h.revision, hledger⟩
  | commit hguards =>
    refine ⟨(hall.2.2 hguards).1, ?_, hledger⟩
    change ite _ _ _ ≤ s.revision + 1
    split
    · exact le_rfl
    · exact Nat.le_succ_of_le h.revision

variable (hmac key) in
def discipline : Discipline machine Job where
  Inv := Sane hmac key
  Allowed := allowed hmac key
  inv_exec := Sane.exec

/-! ### What the others leave alone -/

theorem holds_stable : Stable (discipline hmac key) t fun s => HasMu s.appendMu t := by
  rintro s s' hs ⟨u, hne, j, c, ch, a, -, hall, hex⟩
  cases exec_effect hex with
  | same => exact hs
  | lock hnone => exact held_update hs hne (Or.inl hnone)
  | unlock => exact held_update hs hne (Or.inr hall)
  | commit _ => exact hs

variable (hmac key) in
def booked : Booked machine where
  toDiscipline := discipline hmac key
  view := State.view
  ledger := fun hinv => hinv.ledger
  step := fun _ hall hex => ledgerStep_exec hall hex
  held_stable := fun _ => holds_stable

/-- Every transaction moves the fence. -/
theorem fence_of_moves (h : Moves (discipline hmac key) u s s') :
    s'.seqRevision = s.seqRevision ∧ s'.keys = s.keys ∨ s.seqRevision < s'.seqRevision := by
  obtain ⟨j, c, ch, a, hinv, hall, hex⟩ := h
  cases exec_effect hex with
  | same | lock | unlock => exact Or.inl ⟨rfl, rfl⟩
  | commit _ =>
    right
    change s.seqRevision < ite _ _ _
    rw [if_pos hall.2.1]
    exact Nat.lt_succ_of_le hinv.revision

/-- **What was read at a revision of the counter**, for as long as the counter is at it. -/
abbrev ReadAt (rev : ℕ) (k : Keys) : State → Prop :=
  Fenced (M := machine) State.seqRevision State.keys rev k

theorem ReadAt.stable {rev : ℕ} {k : Keys} : Stable (discipline hmac key) t (ReadAt rev k) :=
  Fenced.stable fun _ _ _ h => fence_of_moves h

/-- The thread holds the lock of its replica and has made these calls. -/
def Mine (t : Tid) (cs : List Call) (s : State) : Prop := HasMu s.appendMu t ∧ s.calls t = cs

theorem mine_stable {cs : List Call} : Stable (discipline hmac key) t (Mine t cs) :=
  (booked hmac key).mine_stable

/-! ### Appending -/

section Append

variable {rec : CertRecord} {cs : List Call} {j : Job}

variable (hmac key) in
/-- What `AppendEntry` knows after its read: the keys were such at the revision it has seen. -/
def FenceOk (t : Tid) (cs : List Call)
    (read : FenceRead) (s : State) : Prop :=
  ∃ k : Keys, (k.Consistent hmac key ∧ read.seq.last = k.last ∧ read.head = k.hmac) ∧
    ReadAt read.seq.rev k s ∧ Mine t ({} :: cs) s

variable (hmac key) in
/-- The same, by the answer to the read. -/
def AfterRead (t : Tid) (cs : List Call) :
    Except Failure FenceRead → State → Prop
  | .ok read => FenceOk hmac key t cs read
  | .error _ => Mine t ({} :: cs)

/-- What `AppendEntry` knows after its transaction, by the answer. -/
def AfterCommit (t : Tid) (rec : CertRecord) (cs : List Call) :
    Except Failure TxnResponse → State → Prop
  | .ok ⟨true, _⟩ => fun s => ∃ n, Mine t ({ added := [(n, rec)] } :: cs) s
  | _ => Mine t ({} :: cs)

theorem afterRead_exec {serial : Text} {a : Except Failure FenceRead} (hinv : Sane hmac key s)
    (hs : Mine t ({} :: cs) s) (hex : exec t s (.readFence serial) ch = some (a, s')) :
    AfterRead hmac key t cs a s' := by
  cases hex
  cases ch with
  | true => exact hs
  | false => exact ⟨s.keys, ⟨hinv.consistent, rfl, rfl⟩, ⟨le_rfl, fun _ => rfl⟩, hs⟩

/-- The writes of an append are right for the state that was read. -/
theorem allowed_append {k : Keys} {read : FenceRead} {serial : Text}
    (hk : k.Consistent hmac key ∧ read.seq.last = k.last ∧ read.head = k.hmac)
    (hread : ReadAt read.seq.rev k s) (hs : Mine t ({} :: cs) s) :
    allowed hmac key t (.append rec)
      (.commit [.seqRevision read.seq.rev, .serialAbsent serial]
        (appendOps rec (some fun prev => advanceHead hmac key prev rec.toInventoryEntry) read.head
          (read.seq.last + 1))) s := by
  obtain ⟨hcons, hlast, hhead⟩ := hk
  refine ⟨hs.1, rfl, fun hguards => ?_⟩
  have hrev : s.seqRevision = read.seq.rev := by
    simpa [Guard.holds] using List.all_eq_true.mp hguards (.seqRevision read.seq.rev) (by simp)
  rw [hread.2 hrev, hlast, hhead]
  exact ⟨hcons.withRow, .append rec _ (Keys.rows_withRow hcons) le_rfl (Nat.lt_succ_self _)⟩

/-- What the transaction of an append leaves. -/
theorem afterCommit_exec {k : Keys} {read : FenceRead} {serial : Text}
    {a : Except Failure TxnResponse}
    (hk : k.Consistent hmac key ∧ read.seq.last = k.last ∧ read.head = k.hmac)
    (hread : ReadAt read.seq.rev k s) (hs : Mine t ({} :: cs) s)
    (hex : exec t s (.commit [.seqRevision read.seq.rev, .serialAbsent serial]
        (appendOps rec (some fun prev => advanceHead hmac key prev rec.toInventoryEntry) read.head
          (read.seq.last + 1))) ch = some (a, s')) : AfterCommit t rec cs a s' := by
  obtain ⟨hcons, hlast, hhead⟩ := hk
  simp only [exec] at hex
  split at hex
  · cases hex
    exact hs
  · split at hex
    · next hguards =>
      cases hex
      have hrev : s.seqRevision = read.seq.rev := by
        simpa [Guard.holds] using List.all_eq_true.mp hguards (.seqRevision read.seq.rev) (by simp)
      have hkeys := hread.2 hrev
      refine ⟨k.last + 1, hs.1, ?_⟩
      change Function.update s.calls t _ t = _
      have hrows : (k.after (appendOps rec (some fun prev =>
          advanceHead hmac key prev rec.toInventoryEntry) k.hmac (k.last + 1))).rows =
            k.rows ++ [(k.last + 1, rec)] := Keys.rows_withRow hcons
      rw [Function.update_self, hs.2, hkeys, hlast, hhead, hrows]
      refine noteRows_append _ fun hmem => ?_
      have := hcons.counter _ hmem
      simp at this
    · cases hex
      exact hs

theorem appendAttempts_spec (n : ℕ) :
    Triple (discipline hmac key) t (.append rec) (Mine t ({} :: cs))
      (appendAttempts rec (some fun prev => advanceHead hmac key prev rec.toInventoryEntry) n)
      fun r s => HasMu s.appendMu t ∧ AppendOutcome rec cs r (s.calls t) := by
  induction n with
  | zero => exact Triple.fail mine_stable fun s _ hs => hs
  | succ n ih =>
    refine Triple.call mine_stable (fun _ _ _ => trivial)
      (fun s ch a s' hinv hs hex => afterRead_exec hinv hs hex) ?_
    rintro (e | read)
    · exact Triple.fail mine_stable fun s _ hs => hs
    refine Triple.exists_pre fun k => Triple.pure_pre fun hk => ?_
    have hst : Stable (discipline hmac key) t fun s =>
        ReadAt read.seq.rev k s ∧ Mine t ({} :: cs) s := ReadAt.stable.and mine_stable
    change Triple _ _ _ _ (ite _ _ _) _
    split
    · exact Triple.fail hst fun s _ hs => hs.2
    · refine Triple.call hst (fun s _ hs => allowed_append hk hs.1 hs.2)
        (fun s ch a s' _ hs hex => afterCommit_exec hk hs.1 hs.2 hex) ?_
      rintro (e | ⟨_ | _, rev⟩)
      · exact Triple.fail mine_stable fun s _ hs => hs
      · -- Another writer was first: wait, and start over.
        refine Triple.call (R := fun _ => Mine t ({} :: cs)) mine_stable
          (fun _ _ _ => trivial) ?_ ?_
        · rintro s ch a s' - hs hex
          cases hex
          exact hs
        · rintro (e | _)
          · exact Triple.fail mine_stable fun s _ hs => hs
          · exact ih
      · exact Triple.exists_pre fun m => Triple.ret mine_stable fun s _ hs => ⟨hs.1, m, hs.2⟩

end Append

/-! ### Pruning -/

section Prune

variable {keep : InventoryEntry → Bool} {cs : List Call} {all : List Row} {p : Plan}
  {starts : List ℕ} {k : Keys} {bearers : Text → ℕ} {first offset done rev batches : ℕ}

/-- The thread is in a call that has removed these rows so far, in some order, and added none. -/
def Removing (t : Tid) (cs : List Call) (all : List Row) (s : State) : Prop :=
  ∃ rows, rows.Perm all ∧ Mine t ({ removed := rows } :: cs) s

theorem removing_stable : Stable (discipline hmac key) t (Removing t cs all) :=
  Stable.exists fun _ => (Stable.const _).and mine_stable

theorem Removing.congr {all' : List Row} (h : Removing t cs all s) (hperm : all.Perm all') :
    Removing t cs all' s := by
  obtain ⟨rows, hrows, hs⟩ := h
  exact ⟨rows, hrows.trans hperm, hs⟩

variable (hmac key) in
/-- What is known after the transaction of a batch, by the answer. -/
def AfterBatch (t : Tid) (cs : List Call)
    (all : List Row) (p : Plan) (bearers : Text → ℕ) (done offset : ℕ) :
    Except Failure TxnResponse → State → Prop
  | .ok ⟨true, rev⟩ => fun s =>
      ∃ k, p.Stage hmac key k offset (batchDeletes bearers (p.batch offset)).2 ∧
        ReadAt rev k s ∧ Removing t cs (all ++ p.removed.drop offset) s
  | _ => Removing t cs (all ++ p.removed.drop done)

theorem rows_removed (hdone : done = min (offset + etcdPruneBatch) p.removed.length)
    {rows : List Row} :
    noteRows (p.left done) (p.left offset) ({ removed := rows } :: cs) =
      { removed := rows ++ (p.left done).filter (· ∉ p.left offset) } :: cs := by
  have hadded : (p.left offset).filter (· ∉ p.left done) = [] := by
    refine List.filter_eq_nil_iff.mpr fun r hr => ?_
    rw [Plan.left_filter hdone] at hr
    simpa using (List.mem_filter.mp hr).1
  rw [noteRows, hadded]
  rfl

/-- What goes with a batch is the batch. -/
theorem batch_perm (hf : p.Fits hmac key keep starts)
    (hdone : done = min (offset + etcdPruneBatch) p.removed.length) :
    ((p.left done).filter (· ∉ p.left offset)).Perm (p.batch offset) := by
  refine (List.perm_ext_iff_of_nodup ?_ ?_).mpr fun r => ?_
  · exact (hf.ascending.nodup.filter _).filter _
  · exact (hf.removed_ascending.nodup.sublist (List.drop_sublist _ _)).sublist
      (List.take_sublist _ _)
  · rw [hf.mem_batch_iff hdone, List.mem_filter]
    simp

theorem afterBatch_exec (hf : p.Fits hmac key keep starts)
    (hstage : p.Stage hmac key k done bearers) (hmem : offset ∈ starts)
    (hlt : offset < p.removed.length)
    (hdone : done = min (offset + etcdPruneBatch) p.removed.length) (hread : ReadAt rev k s)
    (hs : Removing t cs (all ++ p.removed.drop done) s) {a : Except Failure TxnResponse}
    (hex : exec t s (.commit [.seqRevision rev] (p.batchOps bearers offset)) ch = some (a, s')) :
    AfterBatch hmac key t cs all p bearers done offset a s' := by
  simp only [exec] at hex
  split at hex
  · cases hex
    exact hs
  · split at hex
    · next hguards =>
      cases hex
      have hkeys : s.keys = k := hread.2 (by simpa [Guard.holds] using hguards)
      have hnext := hstage.next hf hmem hlt hdone
      have hputs : (p.batchOps bearers offset).any Op.isPutSeq = true := by
        simp [Plan.batchOps, Op.isPutSeq]
      refine ⟨_, hnext, ⟨?_, fun _ => by rw [← hkeys]; rfl⟩, ?_⟩
      · change s.revision + 1 ≤ ite _ _ _
        rw [if_pos hputs]
      · obtain ⟨rows, hrows, hheld, hcalls⟩ := hs
        refine ⟨rows ++ (p.left done).filter (· ∉ p.left offset), ?_, hheld, ?_⟩
        · rw [Plan.drop_eq hdone]
          refine (hrows.append (batch_perm hf hdone)).trans ?_
          rw [List.append_assoc]
          exact List.Perm.append_left _ List.perm_append_comm
        · change Function.update s.calls t _ t = _
          rw [Function.update_self, hcalls, hkeys, hstage.rows, hnext.rows,
            rows_removed hdone]
    · cases hex
      exact hs

theorem allowed_batch (hf : p.Fits hmac key keep starts)
    (hstage : p.Stage hmac key k done bearers) (hmem : offset ∈ starts)
    (hlt : offset < p.removed.length)
    (hdone : done = min (offset + etcdPruneBatch) p.removed.length)
    (hread : ReadAt rev k s) (hs : Removing t cs all s) :
    allowed hmac key t (.prune keep)
      (.commit [.seqRevision rev] (p.batchOps bearers offset)) s := by
  obtain ⟨rows, -, hheld, -⟩ := hs
  refine ⟨hheld, by simp [Plan.batchOps, Op.isPutSeq], fun hguards => ?_⟩
  rw [hread.2 (by simpa [Guard.holds] using hguards)]
  exact ⟨(hstage.next hf hmem hlt hdone).consistent, rowStep_batch hf hstage hmem hdone⟩

/-- How an attempt ends: it says what it has removed, all of it rejected. -/
def OnceOutcome (t : Tid) (cs : List Call) (keep : InventoryEntry → Bool) (all : List Row)
    (r : Except Failure PruneOnce) (s : State) : Prop :=
  ∃ once, r = .ok once ∧ (∀ x ∈ once.committed, keep (entryOf x) = false) ∧
    Removing t cs (all ++ once.committed) s

theorem pruneBatches_spec (hf : p.Fits hmac key keep starts) {todo : List ℕ}
    (hsub : ∀ x ∈ todo, x ∈ starts) (hb : Batches p.removed.length done todo)
    (hstage : p.Stage hmac key k done bearers) (hfirst : todo.getLastD done = first) :
    Triple (discipline hmac key) t (.prune keep)
      (fun s => ReadAt rev k s ∧ Removing t cs (all ++ p.removed.drop done) s)
      (pruneBatches p first todo rev done batches bearers) (OnceOutcome t cs keep all) := by
  have hkeep : ∀ i, ∀ x ∈ p.removed.drop i, keep (entryOf x) = false := fun i x hx =>
    (hf.mem_removed.mp (List.mem_of_mem_drop hx)).2
  induction todo generalizing k done rev batches bearers with
  | nil =>
    obtain rfl : done = first := hfirst
    exact Triple.ret (ReadAt.stable.and removing_stable) fun s _ hs => ⟨_, rfl, hkeep _, hs.2⟩
  | cons offset todo ih =>
    obtain ⟨hlt, hdone, hb'⟩ := hb
    have hmem := hsub offset List.mem_cons_self
    refine Triple.call (ReadAt.stable.and removing_stable)
      (fun s _ hs => allowed_batch hf hstage hmem hlt hdone hs.1 hs.2)
      (fun s ch a s' _ hs hex => afterBatch_exec hf hstage hmem hlt hdone hs.1 hs.2 hex) ?_
    rintro (e | ⟨_ | _, rev'⟩)
    · exact Triple.ret removing_stable fun s _ hs => ⟨_, rfl, hkeep _, hs⟩
    · exact Triple.ret removing_stable fun s _ hs => ⟨_, rfl, hkeep _, hs⟩
    · refine Triple.exists_pre fun k' => Triple.pure_pre fun hstage' => ?_
      rw [List.getLastD_cons] at hfirst
      exact ih (fun x hx => hsub x (List.mem_cons_of_mem _ hx)) hb' hstage' hfirst

theorem pruneEntriesOnce_spec {maxBatches : ℕ} (hmax : 0 < maxBatches) :
    Triple (discipline hmac key) t (.prune keep) (Removing t cs all)
      (pruneEntriesOnce keep (some (advanceHead hmac key)) maxBatches)
      (OnceOutcome t cs keep all) := by
  -- Nothing has been removed yet when an attempt ends early.
  have hnone : ∀ err, ∀ s, Removing t cs all s →
      OnceOutcome t cs keep all (.ok ⟨[], 0, false, err⟩) s := fun err s hs =>
    ⟨_, rfl, by simp, by simpa using hs⟩
  refine Triple.call (R := fun (a : Except Failure (List Row × SeqState)) s =>
    match a with
    | .ok (recs, seq) => ∃ k : Keys,
        (k.Consistent hmac key ∧ recs = k.rows ∧ seq = ⟨k.seq.isSome, seq.rev, k.last⟩) ∧
        ReadAt seq.rev k s ∧ Removing t cs all s
    | .error _ => Removing t cs all s) removing_stable (fun _ _ _ => trivial) ?_ ?_
  · rintro s ch a s' hinv hs hex
    cases hex
    cases ch with
    | true => exact hs
    | false =>
      exact ⟨s.keys, ⟨hinv.consistent, rfl, rfl⟩, ⟨le_rfl, fun _ => rfl⟩, hs⟩
  · rintro (e | ⟨recs, seq⟩)
    · exact Triple.ret removing_stable fun s _ hs => hnone _ s hs
    refine Triple.exists_pre fun k => Triple.pure_pre ?_
    rintro ⟨hcons, rfl, hseq⟩
    change Triple _ _ _ _ (ite _ _ _) _
    split
    · exact Triple.ret (ReadAt.stable.and removing_stable) fun s _ hs => hnone _ s hs.2
    · next hremoved =>
      set n := (k.rows.filter fun r => !keep (entryOf r)).length
      have hstarts : batchStarts n maxBatches ≠ [] :=
        batchStarts_ne_nil (List.length_pos_iff.mpr hremoved) hmax
      have hstage : (planPrune keep (some (advanceHead hmac key)) k.rows seq
          (batchStarts n maxBatches)).Stage hmac key k n
            fun serial => k.rows.countP fun r => r.2.serial = serial := by
        rw [hseq]
        exact Plan.Stage.start hcons _ _
      refine (pruneBatches_spec (planPrune_fits k.entries.sorted seq maxBatches)
        (fun x hx => List.mem_reverse.mp hx) (batches_batchStarts _ _) hstage ?_).conseq ?_
        fun _ _ _ h => h
      · obtain ⟨x, xs, hx⟩ := List.exists_cons_of_ne_nil hstarts
        change (batchStarts n maxBatches).reverse.getLastD n = (batchStarts n maxBatches).headD 0
        rw [hx]
        simp
      · rintro s ⟨hread, hs⟩
        refine ⟨hread, hs.congr ?_⟩
        simp [planPrune]

/-- How the attempts end: they return what they have removed, all of it rejected. -/
def AttemptsOutcome (t : Tid) (cs : List Call) (keep : InventoryEntry → Bool)
    (r : Except Failure (List InventoryEntry × Option Failure)) (s : State) : Prop :=
  ∃ all err, r = .ok (finish all, err) ∧ (∀ x ∈ all, keep (entryOf x) = false) ∧
    Removing t cs all s

theorem pruneAttempts_spec {budget : ℕ} (hbudget : 0 < budget) (n : ℕ)
    (hall : ∀ x ∈ all, keep (entryOf x) = false) :
    Triple (discipline hmac key) t (.prune keep) (Removing t cs all)
      (pruneAttempts keep (some (advanceHead hmac key)) n budget all)
      (AttemptsOutcome t cs keep) := by
  induction n generalizing budget all with
  | zero => exact Triple.ret removing_stable fun s _ hs => ⟨all, _, rfl, hall, hs⟩
  | succ n ih =>
    refine (pruneEntriesOnce_spec hbudget).seq (by rintro _ _ ⟨_, ⟨⟩, _⟩) fun once =>
      Triple.exists_pre fun _ => Triple.pure_pre ?_
    rintro ⟨⟩
    refine Triple.pure_pre fun honce => ?_
    have hall' : ∀ x ∈ all ++ once.committed, keep (entryOf x) = false := by
      intro x hx
      rcases List.mem_append.mp hx with hx | hx
      · exact hall x hx
      · exact honce x hx
    have hdone : ∀ err, Triple (discipline hmac key) t (.prune keep)
        (Removing t cs (all ++ once.committed)) (.ret (finish (all ++ once.committed), err))
        (AttemptsOutcome t cs keep) := fun err =>
      Triple.ret removing_stable fun s _ hs => ⟨_, err, rfl, hall', hs⟩
    simp only
    split
    · exact hdone _
    · split
      · exact hdone _
      · next hgo =>
        refine Triple.call (R := fun _ => Removing t cs (all ++ once.committed)) removing_stable
          (fun _ _ _ => trivial) ?_ ?_
        · rintro s ch a s' - hs hex
          cases hex
          exact hs
        · rintro (e | _)
          · exact hdone _
          · exact ih (Nat.pos_of_ne_zero fun h => hgo (Or.inr h)) hall'

end Prune

/-! ### The calls -/

section Calls

variable {cs : List Call} {j : Job}

/-- **A body under the lock**: the call is entered in the ledger, and the lock is released. -/
theorem withAppendMu_spec {α : Type} {body : Prog α} {C : Except Failure α → List Call → Prop}
    (h : Triple (discipline hmac key) t j (Mine t ({} :: cs)) body
      fun r s => HasMu s.appendMu t ∧ C r (s.calls t)) :
    Triple (discipline hmac key) t j (fun s => s.calls t = cs) (withAppendMu body)
      fun r s => ¬HasMu s.appendMu t ∧ C r (s.calls t) := by
  refine (booked hmac key).withMu_spec (fun _ => trivial) ?_ h holds_stable (fun _ hs => hs) ?_
  · rintro s ch a s' - hs hex
    simp only [exec] at hex
    split at hex
    · cases hex
      refine ⟨Function.update_self _ _ _, ?_⟩
      change Function.update s.calls t ({} :: s.calls t) t = _
      rw [Function.update_self]
      exact congrArg _ hs
    · cases hex
  · rintro s ch a s' hex
    cases hex
    exact ⟨not_hasMu_update, rfl⟩

theorem appendEntry_spec (rec : CertRecord) (cs : List Call) :
    Triple (discipline hmac key) t (.append rec) (fun s => s.calls t = cs)
      (appendEntry rec (some fun prev => advanceHead hmac key prev rec.toInventoryEntry))
      fun r s => ¬HasMu s.appendMu t ∧ AppendOutcome rec cs r (s.calls t) :=
  withAppendMu_spec (appendAttempts_spec etcdMaxTxnRetries)

/-- The numbers of the rows a call has removed are distinct, so sorting them orders them strictly.
-/
theorem ascending_sort {all : List Row} (h : (all.map Prod.fst).Nodup) :
    Ascending (all.insertionSort fun a b => a.1 ≤ b.1) := by
  have : Std.Total fun a b : Row => a.1 ≤ b.1 := ⟨fun a b => Nat.le_total a.1 b.1⟩
  have : IsTrans Row fun a b => a.1 ≤ b.1 := ⟨fun _ _ _ => Nat.le_trans⟩
  have hsorted := List.pairwise_insertionSort (fun a b : Row => a.1 ≤ b.1) all
  have hnodup : (all.insertionSort fun a b => a.1 ≤ b.1).Pairwise fun a b => a.1 ≠ b.1 :=
    List.pairwise_map.mp (((List.perm_insertionSort _ all).map Prod.fst).nodup_iff.mpr h)
  exact (hsorted.and hnodup).imp fun ⟨hle, hne⟩ => lt_of_le_of_ne hle hne

theorem pruneEntries_spec (keep : InventoryEntry → Bool) (cs : List Call) :
    Triple (discipline hmac key) t (.prune keep) (fun s => s.calls t = cs)
      (pruneEntries keep (some (advanceHead hmac key)))
      fun r s => ¬HasMu s.appendMu t ∧ PruneOutcome true keep cs r (s.calls t) := by
  refine withAppendMu_spec ((pruneAttempts_spec (by decide) etcdMaxTxnRetries
    (by simp)).conseq (fun s' hs' => ⟨[], .nil, hs'⟩) ?_)
  rintro r s hinv ⟨all, err, rfl, hkeep, rows, hperm, hheld, hcalls⟩
  have hdistinct : (all.map Prod.fst).Nodup := by
    have hmem : ({ removed := rows } : Call) ∈ s.view.calls t := by
      change _ ∈ s.calls t
      rw [hcalls]
      exact List.mem_cons_self
    exact (hperm.map Prod.fst).nodup_iff.mp (hinv.ledger.distinct t _ hmem)
  refine ⟨hheld, _, rows, err, rfl, hcalls, by simp, ascending_sort hdistinct, ?_, fun x hx => ?_⟩
  · exact (List.perm_insertionSort _ all).trans hperm.symm
  · exact hkeep x ((List.perm_insertionSort _ all).mem_iff.mp hx)

end Calls

/-! ### Every run -/

variable (hmac key) in
/-- **The etcd inventory goes through the ledger.** -/
def ledgered : Ledgered machine store hmac key where
  toBooked := booked hmac key
  append_spec := fun _ rec cs => appendEntry_spec rec cs
  prune_spec := fun _ keep cs => pruneEntries_spec keep cs

variable (hmac key) in
/-- **Where a cluster starts**: any consistent inventory, no lock held, no call made. -/
structure State.AtRest (s : State) : Prop where
  consistent : s.keys.Consistent hmac key
  revision : s.seqRevision ≤ s.revision
  free : ∀ r, s.appendMu r = none
  fresh : ∀ t, s.calls t = []

theorem State.AtRest.not_holds (h : s.AtRest hmac key) (t : Tid) : ¬s.view.held t := by
  simp [State.view, HasMu, h.free]

theorem State.AtRest.sane (h : s.AtRest hmac key) : Sane hmac key s := by
  have hcalls : ∀ t, s.view.calls t = [] := h.fresh
  refine ⟨h.consistent, h.revision, s.keys.entries.sorted, ?_, ?_, ?_, ?_, ?_⟩
  · exact fun r hr => Nat.lt_succ_of_le (h.consistent.counter r hr)
  · simp [hcalls]
  · simp [hcalls]
  · simp [hcalls]
  · exact fun t hheld => absurd hheld (h.not_holds t)

section Run

variable {s₀ : State} {q : Cluster hmac key} {ls : List (Event hmac key)}

/-- **The etcd inventory.** Any number of replicas append and prune, from any consistent inventory,
in any interleaving and with any requests failing. In every state they reach the inventory is
consistent. The calls that every thread has reported are as reported (`Accounts`): a successful
append has added its record. And what an append has added is stored until a prune returns it. -/
theorem etcd_inventory (h₀ : s₀.AtRest hmac key)
    (hrun : (Pool.initial s₀ : Cluster hmac key).run ls = some q) :
    q.shared.keys.Consistent hmac key ∧
    ∀ t, ∃ now past, q.shared.calls t = now ++ past ∧
      List.Forall₂ Accounts past (q.reportsOf t) ∧
      ∀ c ∈ past, ∀ r ∈ c.added, Placed State.view q r := by
  have hreach := (ledgered hmac key).reachable h₀.sane h₀.fresh h₀.not_holds hrun
  exact ⟨hreach.1.1.consistent,
    (ledgered hmac key).calls_of_run h₀.sane h₀.fresh h₀.not_holds hrun⟩

/-- **A prune of the etcd inventory returns exactly what it has removed.** In any run of any number
of replicas, with any conflicts and any requests failing, a prune that is about to return has the
rows it has removed, in the order of their numbers and none twice; its predicate rejects all of
them, none is stored any more; and it returns their entries, with or without an error. -/
theorem etcd_prune_reports (h₀ : s₀.AtRest hmac key)
    (hrun : (Pool.initial s₀ : Cluster hmac key).run ls = some q) {keep : InventoryEntry → Bool}
    {r : Except Failure Result} (ht : q.thread t = .running (.prune keep) (Prog.ofExcept r)) :
    ∃ l err c past rows, r = .ok (.pruned l err) ∧ q.shared.calls t = c :: past ∧
      List.Forall₂ Accounts past (q.reportsOf t) ∧ l = entriesOf rows ∧ Ascending rows ∧
      rows.Perm c.removed ∧
      ∀ x ∈ rows, keep (entryOf x) = false ∧ x ∉ q.shared.keys.rows :=
  (ledgered hmac key).prune_of_run h₀.sane h₀.fresh h₀.not_holds hrun ht

end Run

/-! Two replicas, one appending and pruning, the other appending in between. -/

variable (hmac key) in
theorem atRest_empty : ({} : State).AtRest hmac key where
  consistent := ⟨rfl, by simp [Keys.rows], by simp [Keys.rows, Borne], fun _ => rfl⟩
  revision := le_rfl
  free := fun _ => rfl
  fresh := fun _ => rfl

/-- Each replica appends a record; the first one then prunes, up to the point where it returns. -/
def sampleEvents : List (Event (fun _ m => m) []) :=
  [.start ⟨0, 0⟩ (.append (sampleRecord ['A'] serialA_ne_nil)), .step ⟨0, 0⟩ false,
    .step ⟨0, 0⟩ false,
    .start ⟨1, 0⟩ (.append (sampleRecord ['B'] serialB_ne_nil)), .step ⟨1, 0⟩ false,
      .step ⟨1, 0⟩ false,
    -- The second replica is first; the first one has to start over.
    .step ⟨1, 0⟩ false, .step ⟨0, 0⟩ false, .step ⟨0, 0⟩ false, .step ⟨0, 0⟩ false,
    .step ⟨0, 0⟩ false, .step ⟨0, 0⟩ false, .finish ⟨0, 0⟩,
    .start ⟨0, 0⟩ (.prune fun e => e.serial = ['A']), .step ⟨0, 0⟩ false, .step ⟨0, 0⟩ false,
    .step ⟨0, 0⟩ false, .step ⟨0, 0⟩ false]

def sampleRun : Option (Cluster (fun _ m => m) []) := (Pool.initial ({} : State)).run sampleEvents

/-- What a thread is about to return. -/
def returning (q : Cluster (fun _ m => m) []) (t : Tid) : Option (List InventoryEntry) :=
  match q.thread t with
  | .running (.prune _) (.ret (.pruned l _)) => some l
  | _ => none

theorem exists_of_returning {q : Cluster (fun _ m => m) []} {l : List InventoryEntry}
    (h : returning q t = some l) : ∃ keep err,
      q.thread t = .running (.prune keep) (Prog.ofExcept (.ok (.pruned l err))) := by
  unfold returning at h
  split at h
  · next keep l' err hq =>
    obtain rfl := Option.some.inj h
    exact ⟨keep, err, hq⟩
  · cases h

theorem sampleRun_eq : sampleRun.map (fun q => (q.shared.keys.rows.map Prod.fst,
    (returning q ⟨0, 0⟩).map fun l => l.map fun e => e.serial)) =
      some ([2], some [['B']]) := by
  decide +kernel

theorem etcd_inventory_sample : ∃ q, sampleRun = some q ∧
    q.shared.keys.rows.map Prod.fst = [2] ∧ q.shared.keys.Consistent (fun _ m => m) [] := by
  obtain ⟨q, hq, hseen⟩ := Option.map_eq_some_iff.mp sampleRun_eq
  exact ⟨q, hq, (Prod.mk.inj hseen).1, (etcd_inventory (atRest_empty _ _) hq).1⟩

theorem etcd_prune_reports_sample : ∃ q keep err l rows, sampleRun = some q ∧
    q.thread ⟨0, 0⟩ = .running (.prune keep) (Prog.ofExcept (.ok (.pruned l err))) ∧
    l.map (fun e => e.serial) = [['B']] ∧ l = entriesOf rows ∧
    ∀ x ∈ rows, keep (entryOf x) = false ∧ x ∉ q.shared.keys.rows := by
  obtain ⟨q, hq, hseen⟩ := Option.map_eq_some_iff.mp sampleRun_eq
  obtain ⟨l, hl, hserials⟩ := Option.map_eq_some_iff.mp (Prod.mk.inj hseen).2
  obtain ⟨keep, err, hthread⟩ := exists_of_returning hl
  obtain ⟨l', err', c, past, rows, hr, -, -, hrows, -, -, hgone⟩ :=
    etcd_prune_reports (atRest_empty _ _) hq hthread
  obtain ⟨rfl, -⟩ := Result.pruned.inj (Except.ok.inj hr)
  exact ⟨q, keep, err, l, rows, hq, hthread, hserials, hrows, hgone⟩

end OpenvoxCa.Storage.Etcd
