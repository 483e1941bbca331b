import OpenvoxCa.Ocsp.Coherence

/-!
# Keeping the serial index in step with the inventory

A pass of `syncSerialIndex` samples two counters, reads the inventory without any lock, and only
then reconciles the index with what it has read. What makes the gap safe is what the counters count.
Nothing is issued here without raising the first, so as long as it stands, every serial issued here
is in what was read; nothing leaves the index without raising the second, so as long as it stands,
nothing was pruned here since the read. These two sentences (`Prepared`) hold at every moment
between the read and the reconciliation, whatever the other threads, other passes among them, and
the other replicas do.
-/

namespace OpenvoxCa.Ocsp

open Ca (CA)

open Conc

variable {ca : CA} {t u : ℕ} {s s' : State} {c : Cmd} {ch : Choice} {stored : SerialIndex} {e r : ℕ}

/-! ### Steps -/

/-- **What the step of another thread does to the counters** of a pass: they grow, and what they
count cannot happen without it. -/
structure Counted (t : ℕ) (s s' : State) : Prop where
  sampled : s'.sampled t = s.sampled t
  lastRead : s'.lastRead t = s.lastRead t
  epoch : s.memory.epoch ≤ s'.memory.epoch
  removalEpoch : s.memory.removalEpoch ≤ s'.memory.removalEpoch
  issued : s'.memory.epoch = s.memory.epoch → s'.issued ⊆ s.issued
  pruned : s'.memory.removalEpoch = s.memory.removalEpoch → s'.prunedSince t = s.prunedSince t

/-- A step that leaves the counters alone, and what they count. -/
theorem Counted.of_eq (hsampled : s'.sampled t = s.sampled t) (hread : s'.lastRead t = s.lastRead t)
    (hepoch : s'.memory.epoch = s.memory.epoch)
    (hremoval : s'.memory.removalEpoch = s.memory.removalEpoch) (hissued : s'.issued ⊆ s.issued)
    (hpruned : s'.prunedSince t = s.prunedSince t) : Counted t s s' :=
  ⟨hsampled, hread, hepoch.ge, hremoval.ge, fun _ => hissued, fun _ => hpruned⟩

theorem counted_exec {a : c.Ans} (hne : u ≠ t) (hex : exec u s c ch = some (a, s')) :
    Counted t s s' := by
  cases exec_effect hex with
  | readEpochs =>
    exact .of_eq (Function.update_of_ne hne.symm _ _) rfl rfl rfl (List.Subset.refl _) rfl
  | inventoryEntries =>
    exact .of_eq rfl (Function.update_of_ne hne.symm _ _) rfl rfl (List.Subset.refl _)
      (Function.update_of_ne hne.symm _ _)
  | stored hm =>
    obtain ⟨-, rfl⟩ := Responder.remember_eq_some hm
    exact .of_eq rfl rfl rfl rfl (List.Subset.refl _) rfl
  | reconcile =>
    exact ⟨rfl, rfl, Responder.reconcile_epochs.1, Responder.reconcile_epochs.2,
      fun _ => List.Subset.refl _, fun _ => rfl⟩
  | install =>
    obtain ⟨-, -, hepoch, hremoval, -⟩ := Responder.foldl_evictOCSP
      (Ca.newlyRevoked s.memory.cachedCRL _) { s.memory with cachedCRL := some _ }
    exact .of_eq rfl rfl hepoch hremoval (List.Subset.refl _) rfl
  | indexSerial =>
    exact ⟨rfl, rfl, Nat.le_succ _, le_rfl, fun h => absurd h (Nat.succ_ne_self _), fun _ => rfl⟩
  | unindexSerial =>
    exact ⟨rfl, rfl, Nat.le_succ _, Nat.le_succ _, fun h => absurd h (Nat.succ_ne_self _),
      fun h => absurd h (Nat.succ_ne_self _)⟩
  | pruneInventory _ => exact .of_eq rfl rfl rfl rfl (List.filter_subset_self _) rfl
  | _ => exact .of_eq rfl rfl rfl rfl (List.Subset.refl _) rfl

/-! ### The discipline -/

/-- The serials issued here are in the inventory and in the index. -/
def Indexed (s : State) : Prop :=
  ∀ serial ∈ s.issued, Bears s.inventory serial ∧ serial ∈ s.memory.serialIndex

/-- A thread has sampled the counters. -/
structure Sampled (t : ℕ) (e r : ℕ) (s : State) : Prop where
  sampled : s.sampled t = (e, r)
  epoch : e ≤ s.memory.epoch
  removalEpoch : r ≤ s.memory.removalEpoch

/-- **A thread is about to reconcile** the index with what it has read: if nothing was issued or
pruned here since it sampled the counters, what was issued here is in what it read; if nothing has
left the index, nothing was pruned here since. -/
structure Prepared (t : ℕ) (stored : SerialIndex) (e r : ℕ) (s : State) : Prop extends
    Sampled t e r s where
  read : stored = readSerialIndex (s.lastRead t)
  issued : s.memory.epoch = e → ∀ serial ∈ s.issued, serial ∈ stored
  pruned : s.memory.removalEpoch = r → s.prunedSince t = []

/-- Only a thread that is prepared reconciles. -/
def syncAllowed (t : ℕ) (c : Cmd) (s : State) : Prop :=
  match c with
  | .reconcile stored e r => Prepared t stored e r s
  | _ => True

/-- The commands that leave reconciling alone. -/
def Cmd.NotReconcile : Cmd → Prop
  | .reconcile _ _ _ => False
  | _ => True

theorem Cmd.NotReconcile.syncAllowed (h : c.NotReconcile) (t : ℕ) (s : State) :
    syncAllowed t c s := by
  cases c <;> first | exact h.elim | trivial

theorem Cmd.Plain.notReconcile (h : c.Plain) : c.NotReconcile := by
  cases c <;> first | exact h.elim | trivial

/-- **Every command keeps what was issued here in the index.** -/
theorem indexed_exec {a : c.Ans} (h : Indexed s) (hc : syncAllowed t c s)
    (hex : exec t s c ch = some (a, s')) : Indexed s' := by
  cases exec_effect hex with
  | stored hm =>
    obtain ⟨-, rfl⟩ := Responder.remember_eq_some hm
    exact h
  | reconcile =>
    intro serial hserial
    obtain ⟨hbears, hindex⟩ := h serial hserial
    exact ⟨hbears, Responder.mem_reconcile hindex fun he => hc.issued he serial hserial⟩
  | install =>
    intro serial hserial
    change _ ∧ serial ∈ (s.memory.install _).serialIndex
    rw [Responder.install_serialIndex]
    exact h serial hserial
  | @indexSerial serial subject =>
    intro k hk
    change _ ∧ k ∈ s.memory.serialIndex.insert serial subject
    rw [AList.mem_insert]
    change k ∈ (if Bears s.inventory serial then serial :: s.issued else s.issued) at hk
    split at hk
    · next hbears =>
      rcases List.mem_cons.mp hk with rfl | hk
      · exact ⟨hbears, Or.inl rfl⟩
      · exact ⟨(h k hk).1, Or.inr (h k hk).2⟩
    · exact ⟨(h k hk).1, Or.inr (h k hk).2⟩
  | @unindexSerial serial =>
    intro k hk
    obtain ⟨hk, hne⟩ := List.mem_filter.mp hk
    exact ⟨(h k hk).1, AList.mem_erase.mpr ⟨of_decide_eq_true hne, (h k hk).2⟩⟩
  | appendInventory =>
    intro k hk
    obtain ⟨⟨entry, hentry, hcanon⟩, hindex⟩ := h k hk
    exact ⟨⟨entry, List.mem_append_left _ hentry, hcanon⟩, hindex⟩
  | pruneInventory _ =>
    intro k hk
    obtain ⟨hk, hbears⟩ := List.mem_filter.mp hk
    exact ⟨of_decide_eq_true hbears, (h k hk).2⟩
  | _ => exact h

/-- What was issued here stays in the index, as long as only prepared threads reconcile it. -/
def syncing : Discipline machine Job where
  Inv := Indexed
  Allowed := fun t _ c s => syncAllowed t c s
  inv_exec := fun hinv hall hex => indexed_exec hinv hall hex

theorem counted_of_rely (h : Rely syncing t s s') : Counted t s s' := by
  obtain ⟨u, hne, j, c, ch, a, -, -, hex⟩ := h
  exact counted_exec hne hex

theorem sampled_stable : Stable syncing t (Sampled t e r) := by
  intro s s' hs hrely
  have hc := counted_of_rely hrely
  exact ⟨hc.sampled.trans hs.sampled, hs.epoch.trans hc.epoch,
    hs.removalEpoch.trans hc.removalEpoch⟩

theorem prepared_stable : Stable syncing t (Prepared t stored e r) := by
  intro s s' hs hrely
  have hc := counted_of_rely hrely
  refine ⟨sampled_stable hs.toSampled hrely, ?_, fun he serial hserial => ?_, fun hr => ?_⟩
  · rw [hc.lastRead]
    exact hs.read
  · -- The counter was at `e` before, so nothing has been issued in between.
    have hbefore : s.memory.epoch = e := le_antisymm (hc.epoch.trans he.le) hs.epoch
    exact hs.issued hbefore serial (hc.issued (he.trans hbefore.symm) hserial)
  · have hbefore : s.memory.removalEpoch = r :=
      le_antisymm (hc.removalEpoch.trans hr.le) hs.removalEpoch
    rw [hc.pruned (hr.trans hbefore.symm)]
    exact hs.pruned hbefore

/-! ### The pass -/

variable {j : Job}

/-- **A pass reconciles only when it is prepared.** -/
theorem syncSerialIndex_spec :
    Triple syncing t j (fun _ => True) syncSerialIndex fun _ _ => True := by
  refine Triple.call (R := fun epochs s => Sampled t epochs.1 epochs.2 s) (Stable.const True)
    (fun _ _ _ => trivial) ?_ fun epochs => ?_
  · intro s ch epochs s' _ _ hex
    simp only [exec] at hex
    split at hex <;> cases hex
    exact ⟨Function.update_self _ _ _, le_rfl, le_rfl⟩
  refine Triple.call (R := fun answer s => ∀ entries, answer = .ok entries →
    Prepared t (readSerialIndex entries) epochs.1 epochs.2 s) sampled_stable
    (fun _ _ _ => trivial) ?_ fun answer => ?_
  · intro s ch answer s' hinv hs hex entries hanswer
    obtain ⟨hok, rfl⟩ := Prod.mk.inj (Option.some.inj hex)
    have hentries : entries = s.inventory := by
      rw [← hok] at hanswer
      unfold Ocsp.answer at hanswer
      split at hanswer
      · cases hanswer
      · exact (Except.ok.inj hanswer).symm
    refine ⟨⟨hs.sampled, hs.epoch, hs.removalEpoch⟩, ?_, fun _ serial hserial => ?_,
      fun _ => Function.update_self _ _ _⟩
    · change _ = readSerialIndex (Function.update s.lastRead t s.inventory t)
      rw [Function.update_self, hentries]
    · rw [hentries]
      exact mem_readSerialIndex.mpr (hinv serial hserial).1
  · have hstable : Stable syncing t fun s => ∀ entries, answer = .ok entries →
        Prepared t (readSerialIndex entries) epochs.1 epochs.2 s :=
      fun s s' hs hrely entries hok => prepared_stable (hs entries hok) hrely
    cases answer with
    | error e => exact Triple.fail hstable fun _ _ _ => trivial
    | ok entries =>
      exact Triple.call (R := fun _ _ => True) hstable (fun s _ hs => hs entries rfl)
        (fun _ _ _ _ _ _ _ => trivial) fun _ => Triple.ret (Stable.const True) fun _ _ _ => trivial

theorem answerOCSP_notReconcile (reqDER : Option Request) :
    (answerOCSP ca reqDER).Only Cmd.NotReconcile := by
  have hcmd : ∀ {c : Cmd} {α : Type} {k : c.Ans → Prog α}, c.NotReconcile →
      (∀ a, (k a).Only Cmd.NotReconcile) → ((cmd c).bind k).Only Cmd.NotReconcile :=
    fun hc hk => Conc.Prog.only_bind (only_cmd hc) hk
  have hask : ∀ {α β : Type} {p : Prog (Except Failure β)} {k : β → Prog α},
      p.Only Cmd.NotReconcile → (∀ a, (k a).Only Cmd.NotReconcile) →
        ((ask p).bind k).Only Cmd.NotReconcile :=
    fun hp hk => Conc.Prog.only_bind (only_ask hp) hk
  unfold answerOCSP
  split
  · trivial
  split
  · trivial
  refine hcmd trivial fun seen => ?_
  split
  · trivial
  refine hcmd trivial fun now => Conc.Prog.only_bind (Conc.Prog.only_ofExcept _) fun status => ?_
  refine hask (only_cmd trivial) fun _ => hask (only_cmd trivial) fun _ =>
    hask (only_cmd trivial) fun der => ?_
  unfold cacheAnswer
  split
  · exact hcmd trivial fun _ => trivial
  · trivial

/-- Only passes reconcile. -/
theorem program_notReconcile {j : Job} (hj : j ≠ .syncSerialIndex) :
    (program ca j).Only Cmd.NotReconcile := by
  cases j with
  | answerOCSP reqDER => exact Conc.Prog.only_bind (answerOCSP_notReconcile reqDER) fun _ => trivial
  | syncSerialIndex => exact absurd rfl hj
  | _ => exact Conc.Prog.always_imp (program_plain ca trivial) fun c hc => hc.notReconcile

/-- The outline of a replica, as far as its index is concerned. -/
def syncOutline (ca : CA) : Outline machine (workload ca) where
  toDiscipline := syncing
  Menu := fun _ => True
  Idle := fun _ _ _ => True
  Post := fun _ _ _ _ => True
  idle_stable := fun _ _ => Stable.const True
  job := by
    intro t j rs _
    by_cases hj : j = .syncSerialIndex
    · subst hj
      exact syncSerialIndex_spec.seq (fun _ _ _ => ⟨trivial, trivial⟩)
        fun _ => Triple.ret (Stable.const True) fun _ _ _ => ⟨trivial, trivial⟩
    · exact (Triple.of_always (Stable.const True)
        (fun c (hc : Cmd.NotReconcile c) s _ _ => hc.syncAllowed t s)
        (fun _ _ _ _ _ _ _ _ => trivial) (program_notReconcile hj)).conseq (fun _ _ => trivial)
        fun _ _ _ _ => ⟨trivial, trivial⟩

/-! ### Runs -/

/-- **In every run**, with any number of overlapping passes, a serial issued here that has been in
the inventory ever since, and was not pruned here, is in the index. When a pass is about to
reconcile the index with the inventory it has read, it will not put back a serial that was pruned
here since; and if neither counter has moved since it sampled them, it will leave the index equal to
what it has read. -/
theorem index_keeps_local_knowledge (hs : s.issued = []) {ls : List (Event ca)} {q : Replica ca}
    (hrun : (Pool.initial s : Replica ca).run ls = some q) :
    (∀ serial ∈ q.shared.issued, serial ∈ q.shared.memory.serialIndex) ∧
    ∀ t j stored e r k, q.thread t = .running j (.call (.reconcile stored e r) k) →
      (∀ serial ∈ q.shared.prunedSince t,
        serial ∈ (q.shared.memory.reconcile stored e r).1.serialIndex →
          serial ∈ q.shared.memory.serialIndex) ∧
      ((q.shared.memory.epoch, q.shared.memory.removalEpoch) = q.shared.sampled t →
        ∀ serial, (q.shared.memory.reconcile stored e r).1.serialIndex.lookup serial =
          (readSerialIndex (q.shared.lastRead t)).lookup serial) := by
  have hstart : (syncOutline ca).Sound (Pool.initial s) :=
    (syncOutline ca).sound_initial (fun serial hserial => by simp [hs] at hserial) fun _ => trivial
  obtain ⟨hsound, -⟩ := hstart.run (syncOutline ca) (fun _ _ _ => trivial) hrun
  refine ⟨fun serial hserial => (hsound.1 serial hserial).2, fun t j stored e r k ht => ?_⟩
  have hprep : Prepared t stored e r q.shared := hsound.allowed (syncOutline ca) ht
  refine ⟨fun serial hserial hafter => ?_, fun heq serial => ?_⟩
  · refine Responder.mem_of_mem_reconcile (fun hr => ?_) hafter
    rw [hprep.pruned hr] at hserial
    cases hserial
  · rw [hprep.sampled, Prod.mk.injEq] at heq
    rw [Responder.reconcile_undisturbed heq.1 heq.2, hprep.read]

/-- What a thread is about to reconcile the index with, if it is. -/
def pendingReconcile (q : Replica ca) (t : ℕ) : Option (SerialIndex × ℕ × ℕ) :=
  match q.thread t with
  | .running _ (.call (.reconcile stored e r) _) => some (stored, e, r)
  | _ => none

theorem exists_of_pendingReconcile {q : Replica ca} {t : ℕ}
    (h : pendingReconcile q t = some (stored, e, r)) :
    ∃ j k, q.thread t = .running j (.call (.reconcile stored e r) k) := by
  unfold pendingReconcile at h
  split at h
  · next hthread =>
    cases h
    exact ⟨_, _, hthread⟩
  · cases h

/-- A pass has read the inventory when serial 5 is pruned. -/
def overlapping : List (Event replicaCA) :=
  stepsOf 0 .syncSerialIndex 2 ++
    .start 1 (.cleanupExpiredCerts 0) :: List.replicate 6 (.step 1 { time := 1000 })

theorem index_keeps_local_knowledge_sample : ∃ (q : Replica replicaCA) (stored : SerialIndex)
    (e r : ℕ), (Pool.initial { replicaState with crl := none }).run overlapping = some q ∧
      pendingReconcile q 0 = some (stored, e, r) ∧ ['5'] ∈ stored ∧
      ['5'] ∈ q.shared.prunedSince 0 ∧
      ['5'] ∉ (q.shared.memory.reconcile stored e r).1.serialIndex := by
  have hrun : ((Pool.initial { replicaState with crl := none } : Replica replicaCA).run
      overlapping).map (fun q => (decide (['5'] ∈ q.shared.memory.serialIndex),
        q.shared.prunedSince 0, (pendingReconcile q 0).map fun p => decide (['5'] ∈ p.1))) =
      some (false, [['5']], some true) := by
    decide +kernel
  obtain ⟨q, hq, heq⟩ := Option.map_eq_some_iff.mp hrun
  simp only [Prod.mk.injEq, Option.map_eq_some_iff] at heq
  obtain ⟨hindex, hpruned, ⟨stored, e, r⟩, hpending, hstored⟩ := heq
  obtain ⟨j, k, hthread⟩ := exists_of_pendingReconcile hpending
  refine ⟨q, stored, e, r, hq, hpending, of_decide_eq_true hstored, by simp [hpruned],
    fun hafter => ?_⟩
  exact of_decide_eq_false hindex (((index_keeps_local_knowledge rfl hq).2 0 j stored e r k
    hthread).1 _ (by simp [hpruned]) hafter)

end OpenvoxCa.Ocsp
