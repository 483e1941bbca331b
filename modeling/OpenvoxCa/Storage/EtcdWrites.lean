import OpenvoxCa.Storage.Etcd

/-!
# What the transactions of the etcd inventory write

Both mutations compute their writes from what they have read. This file shows that the writes are
right for the state they were computed from: they take a consistent inventory to a consistent one,
with one row more at the end (`appended`) or without the rows of a batch (`Plan.Stage.next`). That
the state is still the one that was read is the business of the fence, in `EtcdRuns`.

The argument for a batch is the one in the comments of the source. Batches go from the newest
removal to the oldest, so when the batch that starts at offset `s` has been committed, everything
older than the removal at `s` is still there, and from there on only survivors are (`Plan.left_eq`):
the head is a checkpoint continued over survivors, and the newest entry of a subject is the newest
survivor behind the cut or the newest entry before it.
-/

namespace OpenvoxCa.Storage.Etcd

open Data (Table Ascending)

variable {hmac : Bytes → Bytes → Bytes} {key : Bytes}

/-! ### Consistent inventories -/

variable (hmac key) in
/-- **The inventory is consistent**: the head is the chain over the entries, the counter is past
every number, there is a by-serial key for exactly the serials borne, and the by-subject index has
the newest serial of every subject. -/
structure Keys.Consistent (k : Keys) : Prop where
  head : k.hmac.getD [] = headOf hmac key k.rows
  counter : ∀ r ∈ k.rows, r.1 ≤ k.last
  serials : ∀ serial, (k.bySerial serial).isSome = true ↔ Borne k.rows serial
  subjects : ∀ subject, k.bySubject subject = newestSerial k.rows subject

theorem Keys.after_append (k : Keys) (ops ops' : List Op) :
    k.after (ops ++ ops') = (k.after ops).after ops' := List.foldl_append

@[simp] theorem Keys.after_nil (k : Keys) : k.after [] = k := rfl

theorem Keys.after_cons (k : Keys) (op : Op) (ops : List Op) :
    k.after (op :: ops) = (op.apply k).after ops := rfl

/-! ### Appending -/

section Append

variable {k : Keys} {rec : CertRecord}

variable (hmac key) in
/-- The keys after an append. -/
def Keys.withRow (k : Keys) (rec : CertRecord) : Keys :=
  k.after (appendOps rec (some fun prev => advanceHead hmac key prev rec.toInventoryEntry) k.hmac
    (k.last + 1))

theorem Keys.rows_withRow (h : k.Consistent hmac key) :
    (k.withRow hmac key rec).rows = k.rows ++ [(k.last + 1, rec)] :=
  Table.rows_put_of_lt (fun r hr => Nat.lt_succ_of_le (h.counter r hr)) rec

/-- **The writes of an append add one row to a consistent inventory.** -/
theorem Keys.Consistent.withRow (h : k.Consistent hmac key) :
    (k.withRow hmac key rec).Consistent hmac key := by
  have hrows : (k.withRow hmac key rec).rows = k.rows ++ [(k.last + 1, rec)] :=
    Keys.rows_withRow h
  refine ⟨?_, ?_, fun serial => ?_, fun subject => ?_⟩
  · rw [hrows, headOf_append, ← h.head]
    rfl
  · intro r hr
    rw [hrows] at hr
    change r.1 ≤ k.last + 1
    rcases List.mem_append.mp hr with hr | hr
    · exact Nat.le_succ_of_le (h.counter r hr)
    · rw [List.mem_singleton.mp hr]
  · change (Function.update k.bySerial rec.serial _ serial).isSome = true ↔ _
    rw [hrows, borne_append, borne_singleton, ← h.serials]
    rcases eq_or_ne serial rec.serial with rfl | hne
    · simp
    · rw [Function.update_of_ne hne]
      simp [hne.symm]
  · change Function.update k.bySubject rec.subject _ subject = _
    rw [hrows, newestSerial_append, newestSerial_singleton, ← h.subjects]
    rcases eq_or_ne subject rec.subject with rfl | hne
    · simp
    · rw [Function.update_of_ne hne, if_neg hne.symm, Option.none_or]

end Append

/-! ### The deletions of a batch -/

section Deletes

variable {batch : List Row} {bearers : Text → ℕ}

/-- How many of the rows bear the serial. -/
def bearersOf (rows : List Row) (serial : Text) : ℕ := rows.countP fun r => r.2.serial = serial

theorem batchDeletes_bearers (bearers : Text → ℕ) (serial : Text) :
    (batchDeletes bearers batch).2 serial = bearers serial - bearersOf batch serial := by
  induction batch generalizing bearers with
  | nil => rfl
  | cons r batch ih =>
    rw [batchDeletes, ih, bearersOf, bearersOf, List.countP_cons]
    rcases eq_or_ne serial r.2.serial with rfl | hne
    · rw [Function.update_self, if_pos (by simp)]
      omega
    · rw [Function.update_of_ne hne, if_neg (by simpa using hne.symm), Nat.add_zero]

theorem borne_iff_bearersOf {rows : List Row} {serial : Text} :
    Borne rows serial ↔ 0 < bearersOf rows serial := by
  simp [Borne, bearersOf, List.countP_pos_iff]

/-- **The deletions of a batch**: its entries go, and the by-serial keys of those of its serials
that nobody is left to bear. -/
theorem after_batchDeletes (k : Keys) (bearers : Text → ℕ) (batch : List Row) :
    k.after (batchDeletes bearers batch).1 =
      { k with
        entries := k.entries.retain fun r => r.1 ∉ batch.map Prod.fst
        bySerial := fun x =>
          if 0 < bearersOf batch x ∧ bearers x ≤ bearersOf batch x then none
          else k.bySerial x } := by
  induction batch generalizing k bearers with
  | nil =>
    have hentries : (k.entries.retain fun r => r.1 ∉ ([] : List Row).map Prod.fst) = k.entries := by
      ext1
      simp
    rw [hentries]
    simp [batchDeletes, bearersOf]
  | cons r batch ih =>
    have hentries : ((k.entries.erase r.1).retain fun x => x.1 ∉ batch.map Prod.fst) =
        k.entries.retain fun x => x.1 ∉ (r :: batch).map Prod.fst := by
      ext1
      rw [Table.rows_retain, Table.rows_erase, List.filter_filter, Table.rows_retain]
      refine List.filter_congr fun x _ => ?_
      rw [List.map_cons, Bool.eq_iff_iff]
      simp [and_comm]
    have hcount : ∀ x, bearersOf (r :: batch) x =
        bearersOf batch x + if r.2.serial = x then 1 else 0 := by
      intro x
      simp [bearersOf, List.countP_cons]
    rw [batchDeletes, List.cons_append, Keys.after_cons, Keys.after_append, ih]
    -- The key of the serial goes with this row, with a later row of the batch, or stays.
    split <;>
    · next hleft =>
      rw [Function.update_self] at hleft
      simp only [Keys.after_cons, Keys.after_nil, Op.apply]
      congr 1
      funext x
      rw [hcount]
      rcases eq_or_ne x r.2.serial with rfl | hne
      · simp only [Function.update_self, if_true]
        split <;> split <;> first | rfl | omega
      · simp [Function.update_of_ne hne, hne.symm]

end Deletes

/-! ### The newest entry of a subject -/

section Repoint

variable {recs survivors : List Row} {cut : ℕ} {subject : Text}

/-- The by-subject key a batch writes. -/
def leftSerial (recs survivors : List Row) (cut : ℕ) (subject : Text) : Option Text :=
  if newestLeft recs survivors cut subject = [] then none
  else some (newestLeft recs survivors cut subject)

theorem after_repoint (k : Keys) (recs survivors : List Row) (cut : ℕ) (subjects : List Text) :
    k.after (subjects.map (repoint recs survivors cut)) =
      { k with
        bySubject := fun x =>
          if x ∈ subjects then leftSerial recs survivors cut x else k.bySubject x } := by
  induction subjects generalizing k with
  | nil => simp
  | cons subject subjects ih =>
    have happly : (repoint recs survivors cut subject).apply k =
        { k with bySubject :=
            Function.update k.bySubject subject (leftSerial recs survivors cut subject) } := by
      rw [repoint, leftSerial]
      split <;> rfl
    rw [List.map_cons, Keys.after_cons, happly, ih]
    congr 1
    funext x
    rcases eq_or_ne x subject with rfl | hne
    · simp
    · simp [hne]

theorem newestBefore_eq (h : Ascending recs) :
    newestBefore recs cut subject =
      ((recs.filter fun r => r.1 < cut).filter fun r => r.2.subject = subject).getLast?.elim
        ([], 0) fun r => (r.2.serial, r.1) := by
  have hcomm : ((recs.filter fun r => r.2.subject = subject).filter fun r => r.1 < cut) =
      (recs.filter fun r => r.1 < cut).filter fun r => r.2.subject = subject := by
    rw [List.filter_filter, List.filter_filter]
    exact List.filter_congr fun r _ => Bool.and_comm _ _
  rw [newestBefore, Ascending.takeWhile_lt (h.filter _), hcomm]
  cases ((recs.filter fun r => r.1 < cut).filter fun r => r.2.subject = subject).getLast? with
  | none | some => rfl

theorem newestBefore_le (h : Ascending recs) : (newestBefore recs cut subject).2 ≤ cut := by
  rw [newestBefore_eq h]
  cases hr : ((recs.filter fun r => r.1 < cut).filter fun r => r.2.subject = subject).getLast? with
  | none => exact Nat.zero_le _
  | some r =>
    have hmem := List.mem_filter.mp (List.mem_filter.mp (List.mem_of_getLast? hr)).1
    exact (by simpa using hmem.2 : r.1 < cut).le

/-- A serial is not empty, so the empty text says that there is none. -/
theorem newestBefore_serial (h : Ascending recs) :
    (if (newestBefore recs cut subject).1 = [] then none
      else some (newestBefore recs cut subject).1) =
        newestSerial (recs.filter fun r => r.1 < cut) subject := by
  rw [newestBefore_eq h, newestSerial]
  cases ((recs.filter fun r => r.1 < cut).filter fun r => r.2.subject = subject).getLast? with
  | none => exact if_pos rfl
  | some r => exact if_neg r.2.serial_ne

/-- **The newest entry left**: with everything before the cut and the survivors behind it still
there, the batch writes the newest serial of the subject. -/
theorem leftSerial_eq (hrecs : Ascending recs) (hsurv : Ascending survivors) :
    leftSerial recs survivors cut subject = newestSerial
      ((recs.filter fun r => r.1 < cut) ++ survivors.filter fun r => cut < r.1) subject := by
  have hlast : ((survivors.filter fun r => cut < r.1).filter fun r =>
      r.2.subject = subject).getLast? =
        (survivors.filter fun r => r.2.subject = subject).getLast?.filter fun r => cut < r.1 := by
    rw [← Ascending.getLast?_filter_gt (hsurv.filter _), List.filter_filter, List.filter_filter]
    simp only [Bool.and_comm]
  have hbefore : (newestBefore recs cut subject).2 ≤ cut := newestBefore_le hrecs
  rw [newestSerial_append, newestSerial, hlast, leftSerial, newestLeft]
  cases (survivors.filter fun r => r.2.subject = subject).getLast? with
  | none => exact newestBefore_serial hrecs
  | some lv =>
    by_cases hcut : cut < lv.1
    · have hold : (newestBefore recs cut subject).2 < lv.1 := hbefore.trans_lt hcut
      simp [Option.filter, hcut, hold, lv.2.serial_ne]
    · simp only [hcut, false_and, if_false, Option.filter, decide_false, Bool.false_eq_true,
        Option.map_none, Option.none_or]
      exact newestBefore_serial hrecs

end Repoint

/-! ### The head -/

/-- **The checkpoints**: each of them is the chain over the rows before its cut. -/
theorem lookup_checkpoints {advance : Bytes → InventoryEntry → Bytes} {cut : ℕ → ℕ}
    {recs : List Row} (hrecs : Ascending recs) {starts : List ℕ}
    (hstarts : starts.Pairwise fun a b => cut a < cut b)
    (hcut : ∀ s ∈ starts, ∃ r ∈ recs, r.1 = cut s) (head : Bytes) {s : ℕ} (hs : s ∈ starts) :
    (checkpoints advance cut starts head recs).lookup s =
      some ((entriesOf (recs.filter fun r => r.1 < cut s)).foldl advance head) := by
  induction recs generalizing starts head with
  | nil =>
    obtain ⟨r, hr, -⟩ := hcut s hs
    cases hr
  | cons r recs ih =>
    obtain ⟨hr, hrecs⟩ := List.pairwise_cons.mp hrecs
    rcases starts with _ | ⟨first, starts⟩
    · cases hs
    obtain ⟨hfirst, hstarts'⟩ := List.pairwise_cons.mp hstarts
    have hafter : r.1 < cut s → (entriesOf ((r :: recs).filter fun x => x.1 < cut s)).foldl advance
      head =
        (entriesOf (recs.filter fun x => x.1 < cut s)).foldl advance
          (advance head (entryOf r)) := by
      intro hlt
      rw [List.filter_cons_of_pos (by simpa using hlt)]
      rfl
    -- A cut that is not the number of this row is that of a later one.
    have hlater : ∀ x ∈ first :: starts, cut x ≠ r.1 → r.1 < cut x ∧ ∃ y ∈ recs, y.1 = cut x := by
      intro x hx hne
      obtain ⟨y, hy, hyx⟩ := hcut x hx
      rcases List.mem_cons.mp hy with rfl | hy
      · exact absurd hyx.symm hne
      · exact ⟨hyx ▸ hr y hy, y, hy, hyx⟩
    rw [checkpoints]
    by_cases hrow : cut first = r.1
    · rw [if_pos hrow]
      rcases List.mem_cons.mp hs with rfl | hs'
      · have hnone : ((r :: recs).filter fun x => x.1 < cut s) = [] := by
          refine List.filter_eq_nil_iff.mpr fun x hx => ?_
          rcases List.mem_cons.mp hx with rfl | hx
          · simp [hrow]
          · simpa [hrow] using (hr x hx).le
        rw [List.lookup_cons_self, hnone]
        rfl
      · have hlt := hfirst s hs'
        have hne : s ≠ first := by
          rintro rfl
          exact lt_irrefl _ hlt
        rw [List.lookup_cons, beq_false_of_ne hne, hafter (hrow ▸ hlt)]
        refine ih hrecs hstarts' (fun x hx => ?_) _ hs'
        exact (hlater x (List.mem_cons_of_mem _ hx) (hrow ▸ hfirst x hx).ne').2
    · have hall : ∀ x ∈ first :: starts, cut x ≠ r.1 := by
        intro x hx
        have hlt := (hlater first List.mem_cons_self hrow).1
        rcases List.mem_cons.mp hx with rfl | hx
        · exact hrow
        · exact (hlt.trans (hfirst x hx)).ne'
      rw [if_neg hrow, hafter (hlater s hs (hall s hs)).1]
      exact ih hrecs hstarts (fun x hx => (hlater x hx (hall x hx)).2) _ hs

/-! ### The batches -/

/-- **The offsets of the batches left to do**, from the last to the first: each batch ends where
the one before it, of `n` removals, started. -/
def Batches (n : ℕ) : ℕ → List ℕ → Prop
  | _, [] => True
  | done, s :: starts => s < n ∧ done = min (s + etcdPruneBatch) n ∧ Batches n s starts

theorem batches_range {n m : ℕ} (hm : ∀ i < m, i * etcdPruneBatch < n) (d : ℕ) :
    Batches n (min (m * etcdPruneBatch) n)
      (((List.range m).map (· * etcdPruneBatch)).drop d).reverse := by
  induction m with
  | zero => simp [Batches]
  | succ m ih =>
    have hlt : m * etcdPruneBatch < n := hm m (Nat.lt_succ_self m)
    rw [List.range_succ, List.map_append, List.drop_append, List.length_map, List.length_range]
    rcases Nat.lt_or_ge m d with hd | hd
    · -- The last batch is dropped, and with it all others.
      have hnil : ((List.range m).map (· * etcdPruneBatch)).drop d = [] :=
        List.drop_eq_nil_of_le (by simpa using hd.le)
      rw [hnil, List.drop_eq_nil_of_le (by simp; omega)]
      trivial
    · rw [Nat.sub_eq_zero_of_le hd, List.drop_zero, List.reverse_append]
      refine ⟨hlt, by rw [Nat.succ_mul], ?_⟩
      have hprev := ih fun i hi => hm i (Nat.lt_succ_of_lt hi)
      rwa [min_eq_left hlt.le] at hprev

theorem batches_batchStarts (n maxBatches : ℕ) :
    Batches n n (batchStarts n maxBatches).reverse := by
  have h := batches_range (n := n) (m := (n + etcdPruneBatch - 1) / etcdPruneBatch)
    (fun i hi => by simp only [etcdPruneBatch] at hi ⊢; omega)
    (((List.range ((n + etcdPruneBatch - 1) / etcdPruneBatch)).map (· * etcdPruneBatch)).length
      - maxBatches)
  have hn : min ((n + etcdPruneBatch - 1) / etcdPruneBatch * etcdPruneBatch) n = n := by
    simp only [etcdPruneBatch]
    omega
  rwa [hn] at h

theorem Batches.lt {n done : ℕ} {starts : List ℕ} (h : Batches n done starts) :
    ∀ s ∈ starts, s < n := by
  induction starts generalizing done with
  | nil => simp
  | cons s starts ih =>
    intro x hx
    rcases List.mem_cons.mp hx with rfl | hx
    · exact h.1
    · exact ih h.2.2 x hx

theorem batchStarts_ascending (n maxBatches : ℕ) :
    (batchStarts n maxBatches).Pairwise fun a b => a < b := by
  refine List.Pairwise.drop (List.pairwise_map.mpr ?_)
  refine List.pairwise_lt_range.imp fun h => ?_
  exact Nat.mul_lt_mul_of_pos_right h (by decide)

theorem batchStarts_ne_nil {n maxBatches : ℕ} (hn : 0 < n) (hmax : 0 < maxBatches) :
    batchStarts n maxBatches ≠ [] := by
  simp only [batchStarts, ne_eq, List.drop_eq_nil_iff, List.length_map, List.length_range,
    etcdPruneBatch]
  omega

/-! ### One batch after the other -/

variable (hmac key) in
/-- **A plan that fits what was read**: the rows are split by the predicate, and the checkpoints
are right for the offsets to come. -/
structure Plan.Fits (keep : InventoryEntry → Bool)
    (p : Plan) (starts : List ℕ) : Prop where
  ascending : Ascending p.recs
  removed : p.removed = p.recs.filter fun r => !keep (entryOf r)
  survivors : p.survivors = p.recs.filter fun r => keep (entryOf r)
  advance : p.advance = some (advanceHead hmac key)
  prefixAt : ∀ s ∈ starts, p.prefixAt.lookup s =
    some (headOf hmac key (p.recs.filter fun r => r.1 < cutSeq p.removed s))

/-- The rows left when the removals from an offset on are gone. -/
def Plan.left (p : Plan) (s : ℕ) : List Row := p.recs.filter fun r => r ∉ p.removed.drop s

section Stage

variable {keep : InventoryEntry → Bool} {p : Plan} {starts : List ℕ} {s done : ℕ}

theorem cutSeq_eq {removed : List Row} (hs : s < removed.length) :
    cutSeq removed s = removed[s].1 := by
  rw [cutSeq, List.getElem?_eq_getElem hs]
  rfl

theorem Plan.Fits.removed_ascending (h : p.Fits hmac key keep starts) : Ascending p.removed := by
  rw [h.removed]
  exact h.ascending.filter _

theorem Plan.Fits.mem_removed (h : p.Fits hmac key keep starts) {r : Row} :
    r ∈ p.removed ↔ r ∈ p.recs ∧ keep (entryOf r) = false := by
  rw [h.removed, List.mem_filter]
  simp

theorem Plan.Fits.mem_drop (h : p.Fits hmac key keep starts) (hs : s < p.removed.length) {r : Row} :
    r ∈ p.removed.drop s ↔ r ∈ p.removed ∧ cutSeq p.removed s ≤ r.1 := by
  rw [h.removed_ascending.mem_drop_iff hs, cutSeq_eq hs]

/-- **Before the cut everything is left, behind it the survivors are.** -/
theorem Plan.Fits.left_eq (h : p.Fits hmac key keep starts) (hs : s < p.removed.length) :
    p.left s = (p.recs.filter fun r => r.1 < cutSeq p.removed s) ++
      p.survivors.filter fun r => cutSeq p.removed s < r.1 := by
  have hsplit := Data.filter_lt_append_filter_ge (h.ascending.filter fun r =>
    r ∉ p.removed.drop s) (cutSeq p.removed s)
  rw [Plan.left, ← hsplit, List.filter_filter, List.filter_filter]
  congr 1
  · refine List.filter_congr fun r hr => ?_
    rw [Bool.eq_iff_iff]
    simp only [h.mem_drop hs, Bool.and_eq_true, decide_eq_true_eq, not_and, not_le]
    tauto
  · rw [h.survivors, List.filter_filter]
    refine List.filter_congr fun r hr => ?_
    have hcut := h.mem_removed.mp (List.getElem_mem hs)
    rw [Bool.eq_iff_iff]
    simp only [h.mem_drop hs, h.mem_removed, hr, true_and, Bool.and_eq_true, decide_eq_true_eq,
      not_and, not_le]
    constructor
    · rintro ⟨hle, hnot⟩
      have hkeep : keep (entryOf r) = true := by
        by_contra hkeep
        exact absurd hle (not_le.mpr (hnot (by simpa using hkeep)))
      refine ⟨lt_of_le_of_ne hle fun heq => ?_, hkeep⟩
      -- A survivor does not have the number of the removal at the cut.
      have := h.ascending.eq_of_key_eq hcut.1 hr (by rw [← cutSeq_eq hs]; exact heq)
      rw [this, hkeep] at hcut
      simp at hcut
    · rintro ⟨hlt, hkeep⟩
      exact ⟨hlt.le, fun hno => by simp [hkeep] at hno⟩

theorem Plan.drop_eq (hdone : done = min (s + etcdPruneBatch) p.removed.length) :
    p.removed.drop s = p.batch s ++ p.removed.drop done := by
  have hrest : p.removed.drop done = (p.removed.drop s).drop etcdPruneBatch := by
    rw [List.drop_drop, hdone]
    rcases Nat.le_total (s + etcdPruneBatch) p.removed.length with hle | hle
    · rw [min_eq_left hle]
    · rw [min_eq_right hle, List.drop_length, List.drop_eq_nil_of_le hle]
  rw [Plan.batch, hrest, List.take_append_drop]

theorem Plan.mem_left {r : Row} :
    r ∈ p.left s ↔ r ∈ p.recs ∧ r ∉ p.removed.drop s := by
  rw [Plan.left, List.mem_filter]
  simp

/-- A row of the batch is left before it and not after it. -/
theorem Plan.Fits.mem_batch_iff (h : p.Fits hmac key keep starts)
    (hdone : done = min (s + etcdPruneBatch) p.removed.length) {r : Row} :
    r ∈ p.batch s ↔ r ∈ p.left done ∧ r ∉ p.left s := by
  have hdisj : (p.batch s ++ p.removed.drop done).Nodup := by
    rw [← Plan.drop_eq hdone]
    exact h.removed_ascending.nodup.sublist (List.drop_sublist _ _)
  rw [Plan.mem_left, Plan.mem_left, Plan.drop_eq hdone, List.mem_append]
  constructor
  · intro hr
    have hmem : r ∈ p.recs :=
      (h.mem_removed.mp (List.mem_of_mem_drop (List.mem_of_mem_take hr))).1
    exact ⟨⟨hmem, fun hno => (List.nodup_append.mp hdisj).2.2 r hr r hno rfl⟩, by tauto⟩
  · tauto

/-- **The rows a batch leaves** are those before it but for the batch. -/
theorem Plan.left_filter (hdone : done = min (s + etcdPruneBatch) p.removed.length) :
    p.left s = (p.left done).filter fun r => r ∉ p.batch s := by
  rw [Plan.left, Plan.left, List.filter_filter, Plan.drop_eq hdone]
  refine List.filter_congr fun r _ => ?_
  rw [Bool.eq_iff_iff]
  simp

variable (hmac key) in
/-- **Where an attempt stands** when the removals from offset `done` on are gone: the inventory is
consistent, it has the rows that are left, and the bearers of each serial are counted right. -/
structure Plan.Stage (p : Plan) (k : Keys) (done : ℕ)
    (bearers : Text → ℕ) : Prop where
  consistent : k.Consistent hmac key
  rows : k.rows = p.left done
  last : k.last = p.seqVal
  bearers : ∀ serial, bearers serial = bearersOf k.rows serial

variable {k : Keys} {bearers : Text → ℕ}

/-- The keys after a batch, one by one. -/
theorem Plan.Fits.after_batchOps (hf : p.Fits hmac key keep starts) (hs : s ∈ starts) :
    k.after (p.batchOps bearers s) =
      { data := k.data
        hmac := some ((entriesOf (p.survivors.filter fun r => cutSeq p.removed s < r.1)).foldl
          (advanceHead hmac key)
          (headOf hmac key (p.recs.filter fun r => r.1 < cutSeq p.removed s)))
        seq := some p.seqVal
        entries := k.entries.retain fun r => r.1 ∉ (p.batch s).map Prod.fst
        bySerial := fun x =>
          if 0 < bearersOf (p.batch s) x ∧ bearers x ≤ bearersOf (p.batch s) x then none
          else k.bySerial x
        bySubject := fun x =>
          if x ∈ (p.batch s).map fun r => r.2.subject then
            leftSerial p.recs p.survivors (cutSeq p.removed s) x
          else k.bySubject x } := by
  have hsurv : Ascending p.survivors := hf.survivors ▸ hf.ascending.filter _
  rw [Plan.batchOps, Keys.after_append, Keys.after_append, Keys.after_append, after_batchDeletes,
    after_repoint, Plan.headOps, hf.advance]
  simp only [hf.prefixAt s hs, hsurv.dropWhile_le, Option.getD_some, List.mem_dedup,
    Keys.after_cons, Keys.after_nil, Op.apply]

theorem Plan.Fits.rows_after_batchOps (hf : p.Fits hmac key keep starts) (hs : s ∈ starts)
    (hdone : done = min (s + etcdPruneBatch) p.removed.length)
    (hrows : k.rows = p.left done) : (k.after (p.batchOps bearers s)).rows = p.left s := by
  rw [hf.after_batchOps hs, Plan.left_filter hdone, ← hrows]
  refine List.filter_congr fun r hr => ?_
  have hrecs : r ∈ p.recs := by
    rw [← Keys.rows, hrows] at hr
    exact (Plan.mem_left.mp hr).1
  rw [Bool.eq_iff_iff]
  simp only [decide_eq_true_eq, List.mem_map, not_exists, not_and]
  constructor
  · exact fun hno hmem => hno r hmem rfl
  · intro hno x hx hxr
    have hx' : x ∈ p.recs :=
      (hf.mem_removed.mp (List.mem_of_mem_drop (List.mem_of_mem_take hx))).1
    exact hno (hf.ascending.eq_of_key_eq hx' hrecs hxr ▸ hx)

/-- Each row is left or in the batch. -/
theorem Plan.Fits.bearersOf_left (hf : p.Fits hmac key keep starts)
    (hdone : done = min (s + etcdPruneBatch) p.removed.length) (serial : Text) :
    bearersOf (p.left done) serial =
      bearersOf (p.left s) serial + bearersOf (p.batch s) serial := by
  have hperm : ((p.left done).filter fun r => !decide (r ∉ p.batch s)).Perm (p.batch s) := by
    refine (List.perm_ext_iff_of_nodup ?_ ?_).mpr fun r => ?_
    · exact (hf.ascending.nodup.filter _).filter _
    · exact (hf.removed_ascending.nodup.sublist (List.drop_sublist _ _)).sublist
        (List.take_sublist _ _)
    · have := hf.mem_batch_iff hdone (r := r)
      simp only [List.mem_filter]
      simp
      tauto
  rw [Plan.left_filter hdone, bearersOf, bearersOf, bearersOf, ← hperm.countP_eq]
  exact List.countP_eq_countP_filter_add _ _ _

/-- **One batch more**: the writes of the batch take the inventory to the next stage. -/
theorem Plan.Stage.next (hf : p.Fits hmac key keep starts) (h : p.Stage hmac key k done bearers)
    (hs : s ∈ starts) (hlt : s < p.removed.length)
    (hdone : done = min (s + etcdPruneBatch) p.removed.length) :
    p.Stage hmac key (k.after (p.batchOps bearers s)) s (batchDeletes bearers (p.batch s)).2 := by
  have hrows : (k.after (p.batchOps bearers s)).rows = p.left s :=
    hf.rows_after_batchOps hs hdone h.rows
  have hcount : ∀ x, bearers x = bearersOf (p.left s) x + bearersOf (p.batch s) x := by
    intro x
    rw [h.bearers, h.rows, hf.bearersOf_left hdone]
  refine ⟨⟨?_, ?_, fun x => ?_, fun x => ?_⟩, hrows, ?_, fun x => ?_⟩
  · rw [hrows, hf.left_eq hlt, headOf_append, hf.after_batchOps hs]
    rfl
  · intro r hr
    rw [hrows, Plan.left_filter hdone, ← h.rows] at hr
    have hle := h.consistent.counter r (List.mem_filter.mp hr).1
    rw [h.last] at hle
    rw [hf.after_batchOps hs]
    exact hle
  · rw [hrows, hf.after_batchOps hs, borne_iff_bearersOf]
    have hx := h.consistent.serials x
    rw [borne_iff_bearersOf, ← h.bearers, hcount] at hx
    simp only [hcount]
    split
    · next hgone => simp; omega
    · next hleft => rw [hx]; omega
  · rw [hrows, hf.after_batchOps hs]
    simp only
    split
    · rw [leftSerial_eq hf.ascending (hf.survivors ▸ hf.ascending.filter _), hf.left_eq hlt]
    · next hnot =>
      -- No row of the batch is of this subject, so its rows are the same.
      rw [h.consistent.subjects, h.rows]
      refine newestSerial_congr ?_
      rw [Plan.left_filter hdone, List.filter_filter]
      refine List.filter_congr fun r _ => ?_
      rw [Bool.eq_iff_iff]
      simp only [decide_eq_true_eq, Bool.and_eq_true]
      refine ⟨fun hr => ⟨hr, fun hmem => hnot ?_⟩, fun hr => hr.1⟩
      exact List.mem_map.mpr ⟨r, hmem, hr⟩
  · rw [hf.after_batchOps hs]
    rfl
  · rw [batchDeletes_bearers, hcount, hrows]
    omega

theorem rowStep_batch (hf : p.Fits hmac key keep starts) (h : p.Stage hmac key k done bearers)
    (hs : s ∈ starts) (hdone : done = min (s + etcdPruneBatch) p.removed.length) :
    RowStep k.rows (k.last + 1) (k.after (p.batchOps bearers s)).rows
      ((k.after (p.batchOps bearers s)).last + 1) (.prune keep) := by
  refine .prune keep (fun r => r ∉ p.batch s) ?_ (fun r _ hr => ?_) ?_
  · rw [hf.rows_after_batchOps hs hdone h.rows, Plan.left_filter hdone, h.rows]
  · have hmem : r ∈ p.batch s := by simpa using hr
    exact (hf.mem_removed.mp (List.mem_of_mem_drop (List.mem_of_mem_take hmem))).2
  · rw [hf.after_batchOps hs, h.last]
    exact le_rfl

/-- **The plan fits the rows it is made from.** -/
theorem planPrune_fits {recs : List Row} (hrecs : Ascending recs) (seq : SeqState)
    (maxBatches : ℕ) :
    let starts := batchStarts (recs.filter fun r => !keep (entryOf r)).length maxBatches
    (planPrune keep (some (advanceHead hmac key)) recs seq starts).Fits hmac key keep starts := by
  intro starts
  refine ⟨hrecs, rfl, rfl, rfl, fun s hs => ?_⟩
  have hremoved : Ascending (recs.filter fun r => !keep (entryOf r)) := hrecs.filter _
  have hlt : ∀ x ∈ starts, x < (recs.filter fun r => !keep (entryOf r)).length := fun x hx =>
    (batches_batchStarts _ _).lt x (List.mem_reverse.mpr hx)
  refine lookup_checkpoints hrecs ?_ ?_ [] hs
  · refine (batchStarts_ascending _ _).imp_of_mem fun {a b} ha hb hab => ?_
    rw [cutSeq_eq (hlt a ha), cutSeq_eq (hlt b hb)]
    exact List.pairwise_iff_getElem.mp hremoved a b _ _ hab
  · intro x hx
    exact ⟨_, (List.mem_filter.mp (List.getElem_mem (hlt x hx))).1, (cutSeq_eq (hlt x hx)).symm⟩

/-- **The first stage**: nothing has been removed yet. -/
theorem Plan.Stage.start (h : k.Consistent hmac key) (seqRev : ℕ) (starts : List ℕ) :
    (planPrune keep (some (advanceHead hmac key)) k.rows ⟨k.seq.isSome, seqRev, k.last⟩
      starts).Stage hmac key k (k.rows.filter fun r => !keep (entryOf r)).length
      fun serial => k.rows.countP fun r => r.2.serial = serial := by
  refine ⟨h, ?_, ?_, fun _ => rfl⟩
  · simp [Plan.left, planPrune]
  · rw [planPrune]
    cases hseq : k.seq with
    | some last => simp [Keys.last, hseq]
    | none =>
      -- Without a counter the entries have number 0.
      have hlast : k.last = 0 := by simp [Keys.last, hseq]
      cases hrow : k.rows.getLast? with
      | none => simp [hlast]
      | some r =>
        have hr := h.counter r (List.mem_of_getLast? hrow)
        simp [hlast]
        omega

end Stage

end OpenvoxCa.Storage.Etcd
