import OpenvoxCa.Storage.Redis
import OpenvoxCa.Storage.Ledger

/-!
# Every run of the Redis inventory

A script compares the head or the counter with what its caller has read, and that is all that stands
between a stale plan and the keys. Appends raise the counter, so they are always noticed. A prune
leaves it alone, and is noticed by the head, as long as it does not put back the one that was there;
a replacement sets the counter back, and is not noticed when it comes back to the same one. So there
are three things that must not happen (`Fair`): somebody wipes the inventory while another call
relies on the counter; a prune puts back the head that another one has read while the head was left
behind; two inventories of the run, one a part of the other, have the same chain. In every run in
which they do not, the indexes are right at every moment, and so is the head, unless it was left
behind (`redis_inventory`). The first two do happen, to ill effect (`redis_inventory_fails`).
-/

namespace OpenvoxCa.Storage.Redis

open Conc

open Data (Table Ascending)

variable {hmac : Bytes → Bytes → Bytes} {key : Bytes}

/-! ### Indexes -/

/-- **The indexes are right**: no entry has a number above `n`; the index by serial names the entry
that bears a serial, or has the sentinel – as it must when several do –; and the index by subject
has the newest serial of every subject. -/
structure Indexed (k : Keys) (n : ℕ) : Prop where
  counter : ∀ r ∈ k.rows, r.1 ≤ n
  serials : ∀ r ∈ k.rows,
    k.bySerial r.2.serial = some (.number r.1) ∨ k.bySerial r.2.serial = some .ambiguous
  subjects : ∀ subject, k.bySubject subject = newestSerial k.rows subject

/-- How many rows bear the serial. -/
def bearers (rows : List Row) (serial : Text) : ℕ := rows.countP fun r => r.2.serial = serial

theorem bearers_append (rows rows' : List Row) (serial : Text) :
    bearers (rows ++ rows') serial = bearers rows serial + bearers rows' serial :=
  List.countP_append

theorem bearers_eq_zero {rows : List Row} {serial : Text} (h : ¬Borne rows serial) :
    bearers rows serial = 0 := by
  rw [bearers, List.countP_eq_zero]
  intro r hr hs
  exact h ⟨r, hr, by simpa using hs⟩

section Indexes

variable {k : Keys} {n : ℕ} {r : Row} {recs : List CertRecord}

theorem Indexed.not_borne (h : Indexed k n) {serial : Text}
    (hs : (k.bySerial serial).isSome = false) :
    ¬Borne k.rows serial := by
  rintro ⟨r, hr, rfl⟩
  rcases h.serials r hr with hr | hr <;> simp [hr] at hs

theorem rows_addRow (h : ∀ x ∈ k.rows, x.1 < r.1) (value : SerialValue) :
    (k.addRow r value).rows = k.rows ++ [r] :=
  Table.rows_put_of_lt h r.2

/-- **An entry with a new number and a new serial.** -/
theorem Indexed.addRow (h : Indexed k n) (hn : n < r.1) (hnew : ¬Borne k.rows r.2.serial) :
    Indexed (k.addRow r (.number r.1)) r.1 := by
  have hrows : (k.addRow r (.number r.1)).rows = k.rows ++ [r] :=
    rows_addRow (fun x hx => (h.counter x hx).trans_lt hn) _
  refine ⟨fun x hx => ?_, fun x hx => ?_, fun subject => ?_⟩
  · rw [hrows] at hx
    rcases List.mem_append.mp hx with hx | hx
    · exact ((h.counter x hx).trans_lt hn).le
    · rw [List.mem_singleton.mp hx]
  · change Function.update k.bySerial r.2.serial _ x.2.serial = _ ∨
      Function.update k.bySerial r.2.serial _ x.2.serial = _
    rw [hrows] at hx
    rcases List.mem_append.mp hx with hx | hx
    · have hne : x.2.serial ≠ r.2.serial := fun heq => hnew ⟨x, hx, heq⟩
      rw [Function.update_of_ne hne]
      exact h.serials x hx
    · rw [List.mem_singleton.mp hx, Function.update_self]
      exact Or.inl rfl
  · change Function.update k.bySubject r.2.subject _ subject = _
    rw [hrows, newestSerial_append, newestSerial_singleton, ← h.subjects]
    rcases eq_or_ne subject r.2.subject with rfl | hne
    · simp
    · rw [Function.update_of_ne hne, if_neg hne.symm, Option.none_or]

theorem mem_number {x : Row} (h : x ∈ number n recs) : n < x.1 ∧ x.2 ∈ recs := by
  induction recs generalizing n with
  | nil => cases h
  | cons rec recs ih =>
    rcases List.mem_cons.mp h with rfl | h
    · exact ⟨Nat.lt_succ_self n, List.mem_cons_self⟩
    · obtain ⟨hlt, hmem⟩ := ih h
      exact ⟨by omega, List.mem_cons_of_mem _ hmem⟩

theorem number_append (recs' : List CertRecord) :
    number n (recs ++ recs') = number n recs ++ number (n + recs.length) recs' := by
  induction recs generalizing n with
  | nil => rfl
  | cons rec recs ih =>
    rw [List.cons_append, number, ih, number, List.cons_append, List.length_cons]
    congr 3
    omega

theorem bearers_number_le (h : (recs.map fun rec => rec.serial).Nodup) (n : ℕ) (serial : Text) :
    bearers (number n recs) serial ≤ 1 := by
  induction recs generalizing n with
  | nil => exact Nat.zero_le 1
  | cons rec recs ih =>
    rw [List.map_cons, List.nodup_cons] at h
    rw [number, bearers, List.countP_cons]
    by_cases hs : rec.serial = serial
    · have hzero : bearers (number (n + 1) recs) serial = 0 := by
        refine bearers_eq_zero ?_
        rintro ⟨x, hx, rfl⟩
        exact h.1 (hs ▸ List.mem_map_of_mem (mem_number hx).2)
      rw [bearers] at hzero
      simp [hzero, hs]
    · have hle := ih h.2 (n + 1)
      rw [bearers] at hle
      simpa [hs] using hle

/-- **Entries with new numbers and new serials.** -/
theorem Indexed.addRows (h : Indexed k n) (hnew : ∀ rec ∈ recs, ¬Borne k.rows rec.serial)
    (hnodup : (recs.map fun rec => rec.serial).Nodup) :
    Indexed (k.addRows (numbered (number n recs))) (n + recs.length) ∧
      (k.addRows (numbered (number n recs))).rows = k.rows ++ number n recs := by
  induction recs generalizing k n with
  | nil => exact ⟨h, (List.append_nil _).symm⟩
  | cons rec recs ih =>
    rw [List.map_cons, List.nodup_cons] at hnodup
    have hrow := h.addRow (r := (n + 1, rec)) (Nat.lt_succ_self n) (hnew rec List.mem_cons_self)
    have hrows : (k.addRow (n + 1, rec) (.number (n + 1))).rows = k.rows ++ [(n + 1, rec)] :=
      rows_addRow (fun x hx => Nat.lt_succ_of_le (h.counter x hx)) _
    have hnew' : ∀ rec' ∈ recs,
        ¬Borne (k.addRow (n + 1, rec) (.number (n + 1))).rows rec'.serial := by
      intro rec' hmem
      rw [hrows, borne_append, borne_singleton]
      rintro (hb | hb)
      · exact hnew rec' (List.mem_cons_of_mem _ hmem) hb
      · have heq : rec.serial = rec'.serial := hb
        exact hnodup.1 (heq ▸ List.mem_map_of_mem hmem)
    obtain ⟨hind, heq⟩ := ih hrow hnew' hnodup.2
    refine ⟨?_, heq.trans ?_⟩
    · rw [List.length_cons, Nat.add_comm recs.length, ← Nat.add_assoc]
      exact hind
    · rw [hrows, List.append_assoc]
      rfl

end Indexes

/-! ### The plan of a prune -/

variable {k : Keys}

section Plan

variable {keep : InventoryEntry → Bool} {recs : List Row}

/-- What stays is what is not removed. -/
theorem splitRows_spec (keep : InventoryEntry → Bool) (room : ℕ) {recs : List Row}
    (h : Ascending recs) :
    (splitRows keep room recs).2 =
      recs.filter (fun r => r.1 ∉ (splitRows keep room recs).1.map Prod.fst) ∧
    (splitRows keep room recs).1.Sublist recs := by
  induction recs generalizing room with
  | nil => exact ⟨by cases room <;> rfl, by cases room <;> exact List.Sublist.refl _⟩
  | cons r recs ih =>
    obtain ⟨hr, hrecs⟩ := List.pairwise_cons.mp h
    cases room with
    | zero => exact ⟨by simp [splitRows], List.nil_sublist _⟩
    | succ room =>
      by_cases hkeep : keep (entryOf r) = true
      · obtain ⟨hstay, hgo⟩ := ih (room + 1) hrecs
        have hnot : r.1 ∉ (splitRows keep (room + 1) recs).1.map Prod.fst := by
          intro hmem
          obtain ⟨x, hx, hxr⟩ := List.mem_map.mp hmem
          have := hr x (hgo.mem hx)
          omega
        rw [splitRows, if_pos hkeep]
        refine ⟨?_, hgo.cons r⟩
        simp only
        rw [List.filter_cons_of_pos (by simpa using hnot), ← hstay]
      · obtain ⟨hstay, hgo⟩ := ih room hrecs
        rw [splitRows, if_neg hkeep]
        refine ⟨?_, hgo.cons_cons r⟩
        simp only [List.map_cons]
        rw [List.filter_cons_of_neg (by simp), hstay]
        refine List.filter_congr fun x hx => ?_
        have hne : x.1 ≠ r.1 := (hr x hx).ne'
        rw [Bool.eq_iff_iff]
        simp [hne]

/-- What a prune leaves of the rows. -/
theorem rows_pruned (k : Keys) (keep : InventoryEntry → Bool) :
    (k.pruned (planRedisPrune k.rows keep)).rows = (planRedisPrune k.rows keep).survivors :=
  (splitRows_spec keep redisPruneMaxPerCall k.entries.sorted).1.symm

theorem survivors_sublist (k : Keys) (keep : InventoryEntry → Bool) :
    (planRedisPrune k.rows keep).survivors.Sublist k.rows := by
  rw [← rows_pruned]
  exact List.filter_sublist

theorem lookup_filterMap {f : Text → Option Text} {subjects : List Text} {subject : Text} :
    (subjects.filterMap fun x => (f x).map fun y => (x, y)).lookup subject =
      if subject ∈ subjects then f subject else none := by
  induction subjects with
  | nil => rfl
  | cons x subjects ih =>
    rcases hf : f x with _ | y
    · rw [List.filterMap_cons_none (by simp [hf]), ih]
      rcases eq_or_ne subject x with rfl | hne
      · simp [hf]
      · simp [hne]
    · rw [List.filterMap_cons_some (b := (x, y)) (by simp [hf]), List.lookup_cons, ih]
      rcases eq_or_ne subject x with rfl | hne
      · simp [hf]
      · simp [hne, beq_false_of_ne hne]

theorem mem_subjectDrops {subject : Text} : subject ∈ (planRedisPrune recs keep).subjectDrops ↔
    (∃ r ∈ (planRedisPrune recs keep).removed, r.2.subject = subject) ∧
      newestSerial (planRedisPrune recs keep).survivors subject = none := by
  simp [planRedisPrune]

theorem lookup_subjectSets {subject : Text} :
    (planRedisPrune recs keep).subjectSets.lookup subject =
      if ∃ r ∈ (planRedisPrune recs keep).removed, r.2.subject = subject then
        newestSerial (planRedisPrune recs keep).survivors subject
      else none := by
  rw [planRedisPrune, lookup_filterMap]
  simp only [List.mem_dedup, List.mem_map]

theorem borne_of_mem_survivors {r : Row} (hr : r ∈ (planRedisPrune recs keep).survivors) :
    r.2.serial ∉ (planRedisPrune recs keep).serialDrops := by
  intro hmem
  have hzero : bearers (planRedisPrune recs keep).survivors r.2.serial = 0 := by
    rw [planRedisPrune, List.mem_filter, decide_eq_true_iff] at hmem
    exact hmem.2
  rw [bearers, List.countP_eq_zero] at hzero
  exact absurd (hzero r hr) (by simp)

/-- **A prune repairs the indexes.** -/
theorem Indexed.pruned {n : ℕ} (h : Indexed k n) (keep : InventoryEntry → Bool) :
    Indexed (k.pruned (planRedisPrune k.rows keep)) n := by
  have hrows := rows_pruned k keep
  have hsub := survivors_sublist k keep
  refine ⟨fun r hr => ?_, fun r hr => ?_, fun subject => ?_⟩
  · rw [hrows] at hr
    exact h.counter r (hsub.mem hr)
  · rw [hrows] at hr
    change (if _ then none else k.bySerial _) = _ ∨ (if _ then none else k.bySerial _) = _
    rw [if_neg (borne_of_mem_survivors hr)]
    exact h.serials r (hsub.mem hr)
  · rw [hrows]
    change (if subject ∈ (planRedisPrune k.rows keep).subjectDrops then none
      else ((planRedisPrune k.rows keep).subjectSets.lookup subject).or (k.bySubject subject)) = _
    by_cases hmem : ∃ r ∈ (planRedisPrune k.rows keep).removed, r.2.subject = subject
    · rcases hnew : newestSerial (planRedisPrune k.rows keep).survivors subject with _ | serial
      · rw [if_pos (mem_subjectDrops.mpr ⟨hmem, hnew⟩)]
      · have hnot : subject ∉ (planRedisPrune k.rows keep).subjectDrops := by
          simp [mem_subjectDrops, hnew]
        rw [if_neg hnot, lookup_subjectSets, if_pos hmem, hnew, Option.some_or]
    · -- No row of the subject has gone.
      rw [if_neg fun h => hmem (mem_subjectDrops.mp h).1, lookup_subjectSets, if_neg hmem,
        Option.none_or, h.subjects]
      refine newestSerial_congr ?_
      rw [← hrows]
      change _ = List.filter _ (List.filter _ k.rows)
      rw [List.filter_filter]
      refine List.filter_congr fun r hr => ?_
      rw [Bool.eq_iff_iff]
      simp only [decide_eq_true_eq, Bool.and_eq_true]
      refine ⟨fun hs => ⟨hs, fun hgone => hmem ?_⟩, fun hs => hs.1⟩
      obtain ⟨x, hx, hxr⟩ := List.mem_map.mp hgone
      have hxk : x ∈ k.rows :=
        (splitRows_spec keep redisPruneMaxPerCall k.entries.sorted).2.mem hx
      rw [k.entries.eq_of_key_eq hxk hr hxr] at hx
      exact ⟨r, hx, hs⟩

end Plan

/-! ### Fair runs -/

variable {t u : Tid} {s s' : State} {j : Job}

variable (hmac key) in
/-- **The chain tells the inventories of the list from parts of them** that are in it, too. -/
def Tells (l : List (List Row)) : Prop :=
  ∀ rows ∈ l, ∀ rows' ∈ l, rows'.Sublist rows → headOf hmac key rows' = headOf hmac key rows →
    rows' = rows

variable (hmac key) in
/-- **The run so far is fair**: nobody has wiped the inventory while another call relied on the
counter, no prune has put a head back that another one had read while it was behind, and the chain
tells the inventories apart that prunes have read or left. -/
structure Fair (s : State) : Prop where
  fenced : s.marks.fenced = true
  restored : s.marks.restored = false
  tells : Tells hmac key s.marks.inventories

variable (hmac key) in
/-- **The inventory is as it should be**: the indexes are right, nobody else bears a serial that
`AppendEntry` has written, and the head is the chain over the entries, unless it was left behind. -/
structure Good (s : State) : Prop where
  indexed : Indexed s.keys s.keys.last
  issued : ∀ serial ∈ s.marks.issued, bearers s.keys.rows serial ≤ 1
  head : s.marks.behind = false → s.keys.head = headOf hmac key s.keys.rows

variable (hmac key) in
/-- **When a script is right for the state it finds.** -/
def Right (s : State) : Script → Prop
  | .appendEntry head rec => ∃ prev,
      head = some (prev, advanceHead hmac key prev rec.toInventoryEntry)
  | .appendLines recs => recs ≠ [] ∧ (recs.map fun rec => rec.serial).Nodup
  | .prune _ head plan => ∃ keep prev,
      plan = planRedisPrune s.keys.rows keep ∧ head = some (prev, headOf hmac key plan.survivors)
  | .replaceWipe _ => True
  | .replaceBatch _ next rows => ∃ recs, recs ≠ [] ∧
      rows = numbered (number s.keys.last recs) ∧ next = s.keys.last + recs.length ∧
      (∀ rec ∈ recs, ¬Borne s.keys.rows rec.serial) ∧ (recs.map fun rec => rec.serial).Nodup
  | .replaceFinish _ => True

variable (hmac key) in
/-- **When a thread may issue a request**: it lets go of the lock only if it holds it; and as long
as the run is fair, a script that takes effect is right for the state it finds. -/
def allowed (t : Tid) (_ : Job) (c : Cmd) (s : State) : Prop :=
  match c with
  | .unlockAppend => HasMu s.appendMu t
  | .runInvScript sc => Fair hmac key s → (sc.run s.keys).1 = .ok → Right hmac key s sc
  | _ => True

/-- **What a request of thread `t` does to the state.** -/
inductive Effect (t : Tid) (s : State) : Cmd → State → Prop
  | same {c : Cmd} : Effect t s c s
  | lock (j : Job) : s.appendMu t.replica = none → Effect t s (.lockAppend j)
      { s with
        appendMu := Function.update s.appendMu t.replica (some t)
        marks := s.marks.begin t j }
  | unlock : Effect t s .unlockAppend
      { s with
        appendMu := Function.update s.appendMu t.replica none
        marks := s.marks.finish t }
  | read : Effect t s .readInventorySnapshot { s with marks := s.marks.read t s.keys }
  | ran (sc : Script) : (sc.run s.keys).1 = .ok → Effect t s (.runInvScript sc) (s.did t sc)

theorem exec_effect {c : Cmd} {ch : Choice} {a : c.Ans} (h : exec t s c ch = some (a, s')) :
    Effect t s c s' := by
  cases c with
  | lockAppend j =>
    simp only [exec] at h
    split at h
    · next hfree =>
      cases h
      exact .lock j hfree
    · cases h
  | unlockAppend =>
    cases h
    exact .unlock
  | readInventorySnapshot =>
    cases h
    split
    · exact .read
    · exact .same
  | runInvScript sc =>
    cases h
    split
    · exact .same
    · rw [State.ran]
      split
      · next hok => exact .ran sc hok
      · exact .same
  | _ =>
    cases h
    exact .same

theorem Effect.inventories {c : Cmd} (h : Effect t s c s') :
    s.marks.inventories ⊆ s'.marks.inventories := by
  cases h with
  | read => exact List.subset_cons_self _ _
  | ran sc _ =>
    cases sc with
    | prune seq head plan => exact List.subset_cons_self _ _
    | _ => exact List.Subset.refl _
  | _ => exact List.Subset.refl _

/-- A run that is fair has been fair. -/
theorem Effect.fair {c : Cmd} (h : Effect t s c s') (hfair : Fair hmac key s') :
    Fair hmac key s := by
  obtain ⟨hfenced, hrestored, htells⟩ := hfair
  have hold : Tells hmac key s.marks.inventories := fun rows hrows rows' hrows' =>
    htells rows (h.inventories hrows) rows' (h.inventories hrows')
  cases h with
  | ran sc _ =>
    cases sc with
    | prune seq head plan => exact ⟨hfenced, (Bool.or_eq_false_iff.mp hrestored).1, hold⟩
    | replaceWipe seq => exact ⟨(Bool.and_eq_true_iff.mp hfenced).1, hrestored, hold⟩
    | _ => exact ⟨hfenced, hrestored, hold⟩
  | _ => exact ⟨hfenced, hrestored, hold⟩

/-- The fencers change only when a call begins or ends. -/
theorem Marks.ran_fencers (m : Marks) (k : Keys) (sc : Script) :
    (m.ran t k sc).fencers = m.fencers := by
  cases sc <;> rfl

/-! ### What a script keeps -/

variable {recs done batch : List CertRecord}

section Scripts

/-- A script that succeeds has got past a check. -/
theorem of_check {c : Prop} [Decidable c] {x : Status} {y : Status × Keys}
    (h : (if c then (x, k) else y).1 = .ok) (hx : x ≠ .ok) :
    ¬c ∧ y.1 = .ok ∧ (if c then (x, k) else y) = y := by
  split at h
  · exact absurd h hx
  · next hc => exact ⟨hc, h, if_neg hc⟩

/-- What `redisAppendEntryLua` leaves. -/
theorem run_appendEntry {head : HeadArgs} {rec : CertRecord}
    (h : ((Script.appendEntry head rec).run k).1 = .ok) :
    (k.bySerial rec.serial).isSome = false ∧ headConflicts k head = false ∧
      ((Script.appendEntry head rec).run k).2 =
        { writeHead (Keys.addRow { k with seq := some (k.last + 1) } (k.last + 1, rec)
            (.number (k.last + 1))) head with data := true } := by
  obtain ⟨hserial, h, heq⟩ := of_check h nofun
  obtain ⟨hhead, -, heq'⟩ := of_check h nofun
  exact ⟨by simpa using hserial, by simpa using hhead, congrArg Prod.snd (heq.trans heq')⟩

/-- What a script guarded on the counter leaves. -/
theorem run_prune {seq : ℕ} {head : HeadArgs} {plan : PrunePlan}
    (h : ((Script.prune seq head plan).run k).1 = .ok) :
    k.last = seq ∧ headConflicts k head = false ∧
      ((Script.prune seq head plan).run k).2 = writeHead (k.pruned plan) head := by
  obtain ⟨hseq, h, heq⟩ := of_check h nofun
  obtain ⟨hhead, -, heq'⟩ := of_check h nofun
  exact ⟨not_not.mp hseq, by simpa using hhead, congrArg Prod.snd (heq.trans heq')⟩

theorem run_appendLines (h : ((Script.appendLines recs).run k).1 = .ok) :
    (∀ rec ∈ recs, (k.bySerial rec.serial).isSome = false) ∧
      ((Script.appendLines recs).run k).2 =
        { k.addRows (numbered (number k.last recs)) with
          seq := some (k.last + recs.length), data := true } := by
  simp only [Script.run] at h ⊢
  split at h
  · cases h
  · next hnone =>
    exact ⟨fun rec hrec => by simpa using List.find?_eq_none.mp hnone rec hrec, rfl⟩

theorem run_replaceWipe {seq : ℕ} (h : ((Script.replaceWipe seq).run k).1 = .ok) :
    ((Script.replaceWipe seq).run k).2 = { k with
      entries := .empty, bySerial := fun _ => none, bySubject := fun _ => none, seq := some 0 } :=
  congrArg Prod.snd (of_check h nofun).2.2

theorem run_replaceBatch {seq next : ℕ} {rows : List (Row × SerialValue)}
    (h : ((Script.replaceBatch seq next rows).run k).1 = .ok) :
    k.last = seq ∧ ((Script.replaceBatch seq next rows).run k).2 =
      { k.addRows rows with seq := some next } := by
  obtain ⟨hseq, -, heq⟩ := of_check h nofun
  exact ⟨not_not.mp hseq, congrArg Prod.snd heq⟩

theorem run_replaceFinish {seq : ℕ} (h : ((Script.replaceFinish seq).run k).1 = .ok) :
    ((Script.replaceFinish seq).run k).2 = { k with data := true } :=
  congrArg Prod.snd (of_check h nofun).2.2

theorem Good.appendEntry {head : HeadArgs} {rec : CertRecord} (h : Good hmac key s)
    (hright : Right hmac key s (.appendEntry head rec))
    (hok : ((Script.appendEntry head rec).run s.keys).1 = .ok) :
    Good hmac key (s.did t (.appendEntry head rec)) := by
  obtain ⟨prev, rfl⟩ := hright
  obtain ⟨hserial, hhead, hrun⟩ := run_appendEntry hok
  have hnew : ¬Borne s.keys.rows rec.serial := h.indexed.not_borne hserial
  have hind := h.indexed.addRow (r := (s.keys.last + 1, rec)) (Nat.lt_succ_self _) hnew
  have hrows : (s.keys.addRow (s.keys.last + 1, rec) (.number (s.keys.last + 1))).rows =
      s.keys.rows ++ [(s.keys.last + 1, rec)] :=
    rows_addRow (fun x hx => Nat.lt_succ_of_le (h.indexed.counter x hx)) _
  rw [State.did, hrun]
  refine ⟨⟨hind.counter, hind.serials, hind.subjects⟩, fun serial hmem => ?_, fun hbehind => ?_⟩
  · change bearers
        (s.keys.addRow (s.keys.last + 1, rec) (.number (s.keys.last + 1))).rows serial ≤ 1
    rw [hrows, bearers_append]
    rcases eq_or_ne rec.serial serial with rfl | hne
    · rw [bearers_eq_zero hnew]
      simp [bearers]
    · have hold : bearers s.keys.rows serial ≤ 1 :=
        h.issued serial ((List.mem_cons.mp hmem).resolve_left hne.symm)
      simpa [bearers, hne] using hold
  · have hprev : s.keys.head = prev := by simpa [headConflicts] using hhead
    change advanceHead hmac key prev rec.toInventoryEntry =
      headOf hmac key (s.keys.addRow (s.keys.last + 1, rec) (.number (s.keys.last + 1))).rows
    rw [hrows, headOf_append, ← h.head hbehind, hprev]
    rfl

/-- Rows that are added while the head is behind. -/
theorem Good.addRows {m : Marks} (h : Good hmac key s)
    (hnew : ∀ rec ∈ recs, ¬Borne s.keys.rows rec.serial)
    (hnodup : (recs.map fun rec => rec.serial).Nodup)
    (hentries : k.entries = (s.keys.addRows (numbered (number s.keys.last recs))).entries)
    (hserial : k.bySerial = (s.keys.addRows (numbered (number s.keys.last recs))).bySerial)
    (hsubject : k.bySubject = (s.keys.addRows (numbered (number s.keys.last recs))).bySubject)
    (hlast : k.last = s.keys.last + recs.length) (hissued : m.issued = s.marks.issued)
    (hbehind : m.behind = true) : Good hmac key { s with keys := k, marks := m } := by
  obtain ⟨hind, hrows⟩ := h.indexed.addRows hnew hnodup
  have hk : k.rows = s.keys.rows ++ number s.keys.last recs := by
    rw [Keys.rows, hentries]
    exact hrows
  have hmem : ∀ r ∈ k.rows,
      r ∈ (s.keys.addRows (numbered (number s.keys.last recs))).rows := by rw [hk, hrows]; simp
  refine ⟨⟨fun r hr => ?_, fun r hr => ?_, fun subject => ?_⟩, fun serial hmem => ?_, fun hb => ?_⟩
  · change r.1 ≤ k.last
    rw [hlast]
    exact hind.counter r (hmem r hr)
  · change k.bySerial _ = _ ∨ k.bySerial _ = _
    rw [hserial]
    exact hind.serials r (hmem r hr)
  · change k.bySubject subject = newestSerial k.rows subject
    rw [hsubject, hk, hind.subjects, hrows]
  · change bearers k.rows serial ≤ 1
    rw [hk, bearers_append]
    have hmem' : serial ∈ s.marks.issued := hissued ▸ hmem
    -- Either a new row bears the serial, and no old one does, or only old ones may.
    by_cases hborne : ∃ rec ∈ recs, rec.serial = serial
    · obtain ⟨rec, hrec, rfl⟩ := hborne
      rw [bearers_eq_zero (hnew rec hrec), Nat.zero_add]
      exact bearers_number_le hnodup _ _
    · have hzero : bearers (number s.keys.last recs) serial = 0 := by
        refine bearers_eq_zero ?_
        rintro ⟨r, hr, hs⟩
        exact hborne ⟨r.2, (mem_number hr).2, hs⟩
      rw [hzero]
      exact h.issued serial hmem'
  · rw [show m.behind = false from hb] at hbehind
    cases hbehind

/-- **What a script keeps.** -/
theorem Good.did {sc : Script} (h : Good hmac key s) (hright : Right hmac key s sc)
    (hok : (sc.run s.keys).1 = .ok) : Good hmac key (s.did t sc) := by
  cases sc with
  | appendEntry head rec => exact h.appendEntry hright hok
  | appendLines recs =>
    obtain ⟨hserials, hrun⟩ := run_appendLines hok
    rw [State.did, hrun]
    exact h.addRows (fun rec hrec => h.indexed.not_borne (hserials rec hrec)) hright.2
      rfl rfl rfl rfl rfl rfl
  | prune seq head plan =>
    obtain ⟨keep, prev, rfl, rfl⟩ := hright
    obtain ⟨-, -, hrun⟩ := run_prune hok
    have hind := h.indexed.pruned keep
    have hrows := rows_pruned s.keys keep
    rw [State.did, hrun]
    refine ⟨⟨hind.counter, hind.serials, hind.subjects⟩, fun serial hmem => ?_, fun _ => ?_⟩
    · change bearers (s.keys.pruned (planRedisPrune s.keys.rows keep)).rows serial ≤ 1
      rw [hrows]
      exact ((survivors_sublist s.keys keep).countP_le).trans (h.issued serial hmem)
    · change headOf hmac key _ =
        headOf hmac key (s.keys.pruned (planRedisPrune s.keys.rows keep)).rows
      rw [hrows]
  | replaceWipe seq =>
    rw [State.did, run_replaceWipe hok]
    refine ⟨⟨?_, ?_, fun _ => rfl⟩, fun serial _ => Nat.zero_le 1, ?_⟩
    · simp [Keys.rows]
    · simp [Keys.rows]
    · simp [Marks.ran]
  | replaceBatch seq next rows =>
    obtain ⟨recs, -, rfl, rfl, hnew, hnodup⟩ := hright
    rw [State.did, (run_replaceBatch hok).2]
    exact h.addRows hnew hnodup rfl rfl rfl rfl rfl rfl
  | replaceFinish seq =>
    rw [State.did, run_replaceFinish hok]
    exact ⟨⟨h.indexed.counter, h.indexed.serials, h.indexed.subjects⟩, h.issued, h.head⟩

end Scripts

/-! ### The discipline -/

variable (hmac key) in
/-- **What holds at every moment.** -/
def Sane (s : State) : Prop :=
  Fair hmac key s → Good hmac key s

theorem Sane.exec {c : Cmd} {ch : Choice} {a : c.Ans} (h : Sane hmac key s)
    (hall : allowed hmac key t j c s) (hex : exec t s c ch = some (a, s')) : Sane hmac key s' := by
  intro hfair'
  have hfair := (exec_effect hex).fair hfair'
  have hgood := h hfair
  cases exec_effect hex with
  | ran sc hok => exact hgood.did (hall hfair hok) hok
  | _ => exact ⟨hgood.indexed, hgood.issued, hgood.head⟩

variable (hmac key) in
def discipline : Discipline machine Job where
  Inv := Sane hmac key
  Allowed := allowed hmac key
  inv_exec := Sane.exec

/-! ### What the others leave alone -/

theorem holds_stable : Stable (discipline hmac key) t fun s => HasMu s.appendMu t := by
  rintro s s' hs ⟨u, hne, j, c, ch, a, -, hall, hex⟩
  cases exec_effect hex with
  | lock j hnone => exact held_update hs hne (Or.inl hnone)
  | unlock => exact held_update hs hne (Or.inr hall)
  | _ => exact hs

theorem fencing_stable : Stable (discipline hmac key) t fun s => t ∈ s.marks.fencers := by
  rintro s s' hmem ⟨u, hne, j, c, ch, a, -, -, hex⟩
  cases exec_effect hex with
  | lock j _ =>
    change t ∈ (if j.fences then u :: s.marks.fencers else s.marks.fencers)
    split
    · exact List.mem_cons_of_mem _ hmem
    · exact hmem
  | unlock => exact (List.mem_erase_of_ne hne.symm).mpr hmem
  | ran sc _ =>
    change t ∈ (s.marks.ran u _ sc).fencers
    rwa [s.marks.ran_fencers]
  | _ => exact hmem

/-- What a prune has read while the head was behind is its own affair. -/
theorem misread_of_effect {c : Cmd} {head : Bytes} (hne : u ≠ t) (h : Effect u s c s') :
    (t, head) ∈ s'.marks.misread ↔ (t, head) ∈ s.marks.misread := by
  cases h with
  | unlock => simp [Marks.finish, hne.symm]
  | read =>
    simp only [Marks.read, List.mem_append, List.mem_filter]
    split <;> simp [hne.symm]
  | ran sc _ => cases sc <;> exact Iff.rfl
  | _ => exact Iff.rfl

variable (hmac key) in
/-- **What the others do to the rows**: they raise the counter, or leave everything as it is, or
remove rows – and do not put a head back that the thread has read while it was behind –, or they
wipe everything, when the thread does not rely on the counter. -/
theorem rows_of_moves (hne : u ≠ t) (hfair' : Fair hmac key s')
    (h : Moves (discipline hmac key) u s s') :
    s.keys.last < s'.keys.last ∨
    (s'.keys.last = s.keys.last ∧ s'.keys.rows = s.keys.rows ∧ s'.keys.head = s.keys.head ∧
      s'.marks.behind = s.marks.behind) ∨
    (s'.keys.last = s.keys.last ∧ s'.keys.rows.Sublist s.keys.rows ∧ s'.marks.behind = false ∧
      s'.keys.rows ∈ s'.marks.inventories ∧
      ∀ head, (t, head) ∈ s.marks.misread → s'.keys.head ≠ head) ∨
    (s'.keys.last = 0 ∧ s'.keys.rows = [] ∧ t ∉ s.marks.fencers) := by
  obtain ⟨j, c, ch, a, hinv, hall, hex⟩ := h
  have hfair := (exec_effect hex).fair hfair'
  cases exec_effect hex with
  | ran sc hok =>
    have hright : Right hmac key s sc := hall hfair hok
    cases sc with
    | appendEntry head rec =>
      left
      obtain ⟨prev, rfl⟩ := hright
      change s.keys.last < ((Script.appendEntry _ rec).run s.keys).2.last
      rw [(run_appendEntry hok).2.2]
      exact Nat.lt_succ_self _
    | appendLines recs =>
      left
      change s.keys.last < ((Script.appendLines recs).run s.keys).2.last
      rw [(run_appendLines hok).2]
      exact Nat.lt_add_of_pos_right (List.length_pos_iff.mpr hright.1)
    | prune seq head plan =>
      obtain ⟨keep, prev, rfl, rfl⟩ := hright
      have hrun := (run_prune hok).2.2
      refine Or.inr (Or.inr (Or.inl ⟨?_, ?_, rfl, List.mem_cons_self, fun head hmis heq => ?_⟩))
      · rw [State.did, hrun]
        rfl
      · rw [State.did, hrun]
        exact List.filter_sublist
      -- In a fair run no prune puts a head back that another one has misread.
      · have hnone := List.any_eq_false.mp (Bool.or_eq_false_iff.mp hfair'.restored).2 _ hmis
        simp only [ne_eq, hne.symm, not_false_eq_true, decide_true, Bool.true_and,
          decide_eq_true_eq] at hnone
        exact hnone heq.symm
    | replaceWipe seq =>
      have hwipe := run_replaceWipe hok
      refine Or.inr (Or.inr (Or.inr ⟨?_, ?_, fun hmem => hne.symm ?_⟩))
      · rw [State.did, hwipe]
        rfl
      · rw [State.did, hwipe]
        rfl
      -- In a fair run nobody but the one who wipes may rely on the counter.
      · have hall := (Bool.and_eq_true_iff.mp hfair'.fenced).2
        simpa using List.all_eq_true.mp hall t hmem
    | replaceBatch seq next rows =>
      obtain ⟨recs, hnonempty, rfl, rfl, -, -⟩ := hright
      left
      change s.keys.last < ((Script.replaceBatch seq _ _).run s.keys).2.last
      rw [(run_replaceBatch hok).2]
      exact Nat.lt_add_of_pos_right (List.length_pos_iff.mpr hnonempty)
    | replaceFinish seq =>
      refine Or.inr (Or.inl ?_)
      rw [State.did, run_replaceFinish hok]
      exact ⟨rfl, rfl, rfl, rfl⟩
  | _ => exact Or.inr (Or.inl ⟨rfl, rfl, rfl, rfl⟩)

/-- **A thread in the middle of a call.** -/
structure Ready (t : Tid) (j : Job) (s : State) : Prop where
  holds : HasMu s.appendMu t
  fencing : j.fences = true → t ∈ s.marks.fencers

theorem ready_stable : Stable (discipline hmac key) t (Ready t j) := fun _ _ hs hrely =>
  ⟨holds_stable hs.holds hrely, fun h => fencing_stable (hs.fencing h) hrely⟩

/-- The rows are some of those of the snapshot, as a prune has left them, and the head is not the
one that was read, if that was behind. -/
structure Overtaken (t : Tid) (snap : Snapshot) (s : State) : Prop where
  rows : s.keys.rows.Sublist snap.recs
  stored : s.keys.rows ∈ s.marks.inventories
  chained : s.marks.behind = false
  head : (t, snap.head) ∈ s.marks.misread → s.keys.head ≠ snap.head

variable (hmac key) in
/-- **What a snapshot still says**: if the counter is as it was, the rows are those of the snapshot,
or a prune has removed some of them. -/
structure Seen (t : Tid) (snap : Snapshot) (s : State) : Prop where
  counter : snap.seq ≤ s.keys.last
  rows : s.keys.last = snap.seq → s.keys.rows = snap.recs ∨ Overtaken t snap s
  stored : snap.recs ∈ s.marks.inventories
  head : snap.head = headOf hmac key snap.recs ∨ (t, snap.head) ∈ s.marks.misread

variable (hmac key) in
/-- **How far a replacement has got**: if the counter is as it has left it, the rows are the records
it has written, but for what was pruned. -/
def Written (recs : List CertRecord) (s : State) : Prop :=
  Fair hmac key s → recs.length ≤ s.keys.last ∧
    (s.keys.last = recs.length → s.keys.rows.Sublist (number 0 recs))

theorem seen_stable (hj : j.fences = true) {snap : Snapshot} :
    Stable (discipline hmac key) t fun s =>
      Ready t j s ∧ (Fair hmac key s → Seen hmac key t snap s) := by
  rintro s s' ⟨hready, hseen⟩ hrely
  refine ⟨ready_stable hready hrely, fun hfair' => ?_⟩
  obtain ⟨u, hne, hmove⟩ := hrely
  obtain ⟨j', c, ch, a, hinv, hall, hex⟩ := id hmove
  have heff := exec_effect hex
  obtain ⟨hle, hrows, hstored, hhead⟩ := hseen (heff.fair hfair')
  have hmis : (t, snap.head) ∈ s'.marks.misread ↔ (t, snap.head) ∈ s.marks.misread :=
    misread_of_effect hne heff
  rw [← hmis] at hhead
  have hstored := heff.inventories hstored
  rcases rows_of_moves hmac key hne hfair' hmove with
    h | ⟨h, heq, hsame, hbehind⟩ | ⟨h, hpart, hbehind, hleft, hnew⟩ | ⟨-, -, hno⟩
  · exact ⟨by omega, fun hlast => by omega, hstored, hhead⟩
  · refine ⟨by omega, fun hlast => ?_, hstored, hhead⟩
    rcases hrows (h ▸ hlast) with hall | hover
    · exact Or.inl (heq.trans hall)
    · refine Or.inr ⟨heq ▸ hover.rows, heq ▸ heff.inventories hover.stored,
        hbehind.trans hover.chained, ?_⟩
      rw [hmis, hsame]
      exact hover.head
  · refine ⟨by omega, fun hlast => Or.inr ⟨hpart.trans ?_, hleft, hbehind, ?_⟩, hstored, hhead⟩
    · rcases hrows (h ▸ hlast) with hall | hover
      · rw [hall]
      · exact hover.rows
    · rw [hmis]
      exact hnew snap.head
  · exact absurd (hready.fencing hj) hno

theorem written_stable (hj : recs = [] ∨ j.fences = true) :
    Stable (discipline hmac key) t fun s => Ready t j s ∧ Written hmac key recs s := by
  rintro s s' ⟨hready, hwritten⟩ hrely
  refine ⟨ready_stable hready hrely, fun hfair' => ?_⟩
  obtain ⟨u, hne, hmove⟩ := hrely
  obtain ⟨j', c, ch, a, hinv, hall, hex⟩ := id hmove
  obtain ⟨hle, hrows⟩ := hwritten ((exec_effect hex).fair hfair')
  rcases rows_of_moves hmac key hne hfair' hmove with
    h | ⟨h, heq, -⟩ | ⟨h, hpart, -⟩ | ⟨hlast, hnil, hno⟩
  · exact ⟨by omega, fun hlast => by omega⟩
  · rw [h, heq]
    exact ⟨hle, hrows⟩
  · rw [h]
    exact ⟨hle, fun hlast => hpart.trans (hrows hlast)⟩
  · rcases hj with rfl | hj
    · exact ⟨Nat.zero_le _, fun _ => by rw [hnil]; exact List.nil_sublist _⟩
    · exact absurd (hready.fencing hj) hno

/-! ### Appending -/

section Append

/-- The request neither begins nor ends a call. -/
def Cmd.inside : Cmd → Bool
  | lockAppend _ => false
  | unlockAppend => false
  | _ => true

/-- Such a request leaves its caller in the middle of the call. -/
theorem ready_exec {c : Cmd} {ch : Choice} {a : c.Ans} (hc : c.inside = true) (hs : Ready t j s)
    (hex : exec t s c ch = some (a, s')) : Ready t j s' := by
  cases exec_effect hex with
  | same => exact hs
  | lock | unlock => cases hc
  | read => exact ⟨hs.holds, hs.fencing⟩
  | ran sc _ =>
    refine ⟨hs.holds, fun h => ?_⟩
    change t ∈ (s.marks.ran t _ sc).fencers
    rw [s.marks.ran_fencers]
    exact hs.fencing h

/-- A request that may be issued anywhere, and what comes after it. -/
theorem ready_call {α : Type} (c : Cmd) {k : c.Ans → Prog α} (hc : c.inside = true)
    (hall : ∀ s, allowed hmac key t j c s)
    (hk : ∀ a, Keeps (discipline hmac key) t j (Ready t j) (k a)) :
    Keeps (discipline hmac key) t j (Ready t j) (.call c k) :=
  Triple.call ready_stable (fun s _ _ => hall s) (fun _ _ _ _ _ hs hex => ready_exec hc hs hex) hk

/-- A pause, and what comes after it. -/
theorem backoff_bind {α : Type} {p : Prog α} (h : Keeps (discipline hmac key) t j (Ready t j) p) :
    Keeps (discipline hmac key) t j (Ready t j) ((cmd .scriptBackoff).orFail.bind fun _ => p) := by
  refine ready_call .scriptBackoff rfl (fun _ => trivial) ?_
  rintro (e | _)
  · exact Keeps.fail ready_stable
  · exact h

theorem appendAttempts_spec (rec : CertRecord) (n : ℕ) :
    Keeps (discipline hmac key) t j (Ready t j)
      (appendAttempts rec (some fun prev => advanceHead hmac key prev rec.toInventoryEntry) n) := by
  induction n with
  | zero => exact Keeps.fail ready_stable
  | succ n ih =>
    refine ready_call _ rfl (fun _ => trivial) ?_
    rintro (e | prev)
    · exact Keeps.fail ready_stable
    refine ready_call _ rfl (fun _ _ _ => ⟨prev, rfl⟩) ?_
    rintro (e | _ | serial | _)
    · exact Keeps.fail ready_stable
    · exact Keeps.ret ready_stable
    · exact Keeps.fail ready_stable
    · exact backoff_bind ih

theorem firstDuplicate_none {seen : List Text} (h : firstDuplicate seen recs = none) :
    (recs.map fun rec => rec.serial).Nodup ∧ ∀ rec ∈ recs, rec.serial ∉ seen := by
  induction recs generalizing seen with
  | nil => exact ⟨List.nodup_nil, by simp⟩
  | cons rec recs ih =>
    rw [firstDuplicate] at h
    split at h
    · cases h
    · next hnot =>
      obtain ⟨hnodup, hseen⟩ := ih h
      refine ⟨List.nodup_cons.mpr ⟨fun hmem => ?_, hnodup⟩, fun rec' hmem => ?_⟩
      · obtain ⟨rec', hrec', heq⟩ := List.mem_map.mp hmem
        exact hseen rec' hrec' (heq ▸ List.mem_cons_self)
      · rcases List.mem_cons.mp hmem with rfl | hmem
        · exact hnot
        · exact fun hs => hseen rec' hmem (List.mem_cons_of_mem _ hs)

/-- After the check the serials are distinct. -/
theorem rejectDuplicateSerials_bind {α : Type} {f : Unit → Prog α} {P : State → Prop}
    {Q : Except Failure α → State → Prop} (hst : Stable (discipline hmac key) t P)
    (hfail : ∀ e s, P s → Q (.error e) s)
    (h : (recs.map fun rec => rec.serial).Nodup → Triple (discipline hmac key) t j P (f ()) Q) :
    Triple (discipline hmac key) t j P ((rejectDuplicateSerials recs).bind f) Q := by
  rw [rejectDuplicateSerials]
  split
  · exact Triple.fail hst fun s _ hs => hfail _ s hs
  · next hnone => exact h (firstDuplicate_none hnone).1

end Append

/-! ### Pruning -/

section Prune

variable {keep : InventoryEntry → Bool} {snap : Snapshot}

/-- **A prune that takes effect has seen the rows as they are.** -/
theorem rows_of_seen (hgood : Good hmac key s) (hfair : Fair hmac key s)
    (hseen : Seen hmac key t snap s) (hlast : s.keys.last = snap.seq)
    (hhead : s.keys.head = snap.head) : s.keys.rows = snap.recs := by
  rcases hseen.rows hlast with hall | hover
  · exact hall
  rcases hseen.head with hchain | hmis
  · -- The head was the chain over the snapshot, and now is the chain over a part of it.
    refine hfair.tells _ hseen.stored _ hover.stored hover.rows ?_
    rw [← hgood.head hover.chained, hhead, hchain]
  · exact absurd hhead (hover.head hmis)

theorem pruneAttempts_spec (n : ℕ) :
    Keeps (discipline hmac key) t (.prune keep) (Ready t (.prune keep))
      (pruneAttempts keep (some (advanceHead hmac key)) n) := by
  induction n with
  | zero => exact Keeps.fail ready_stable
  | succ n ih =>
    refine Triple.call (R := fun a s => Ready t (.prune keep) s ∧
      ∀ snap, a = .ok snap → Fair hmac key s → Seen hmac key t snap s) ready_stable
      (fun _ _ _ => trivial) ?_ ?_
    · rintro s ch a s' hinv hs hex
      have heff : Effect t s .readInventorySnapshot s' := exec_effect hex
      cases hex
      cases ch with
      | answered =>
        refine ⟨⟨hs.holds, hs.fencing⟩, fun snap hsnap hfair' => ?_⟩
        obtain rfl := Except.ok.inj hsnap
        refine ⟨le_rfl, fun _ => Or.inl rfl, List.mem_cons_self, ?_⟩
        -- The head that was read is the chain over the rows, or it is noted as misread.
        cases hbehind : s.marks.behind with
        | false => exact Or.inl ((hinv (heff.fair hfair')).head hbehind)
        | true => exact Or.inr (by simp [Marks.read, hbehind])
      | refused | lost => exact ⟨hs, fun _ hsnap => by cases hsnap⟩
    rintro (e | snap)
    · refine (Keeps.fail ready_stable).strengthen fun s hs => hs.1
    refine Triple.conseq (P := fun s => Ready t (.prune keep) s ∧
      (Fair hmac key s → Seen hmac key t snap s)) ?_ (fun s hs => ⟨hs.1, hs.2 snap rfl⟩)
        fun _ _ _ h => h
    change Triple (discipline hmac key) t _ _ (ite _ _ _) _
    split
    · exact Triple.ret (seen_stable rfl) fun s _ hs => hs.1
    · refine Triple.call (R := fun _ => Ready t (.prune keep)) (seen_stable rfl) ?_
        (fun s ch a s' _ hs hex => ready_exec (c := .runInvScript _) rfl hs.1 hex) ?_
      · rintro s hinv ⟨hready, hseen⟩ hfair hok
        obtain ⟨hlast, hhead, -⟩ := run_prune hok
        have hrows := rows_of_seen (hinv hfair) hfair (hseen hfair) hlast (by
          simpa [headConflicts, headArgs, survivorsHead] using hhead)
        exact ⟨keep, snap.head, by rw [hrows], rfl⟩
      rintro (e | _ | serial | _)
      · exact Keeps.fail ready_stable
      · exact Keeps.ret ready_stable
      · exact backoff_bind ih
      · exact backoff_bind ih

end Prune

/-! ### Replacing -/

section Replace

variable {recs rest : List CertRecord} {dups : List Text} {total : ℕ}

/-- Without duplicates every serial is its own. -/
theorem duplicateSerials_eq_nil (h : (recs.map fun rec => rec.serial).Nodup) :
    duplicateSerials recs = [] := by
  have hnone : (recs.filter fun rec => 1 < recs.countP fun r => r.serial = rec.serial) = [] := by
    refine List.filter_eq_nil_iff.mpr fun rec hrec => ?_
    have hle := List.nodup_iff_count_le_one.mp h rec.serial
    rw [List.count, List.countP_map] at hle
    simpa [Function.comp_def, beq_eq_decide] using hle
  rw [duplicateSerials, hnone]
  rfl

theorem finish_spec : Keeps (discipline hmac key) t j (Ready t j)
    (importBatches.finish total) := by
  refine ready_call _ rfl (fun _ _ _ => trivial) ?_
  rintro (e | _ | serial | _)
  · exact Keeps.fail ready_stable
  · exact Keeps.ret ready_stable
  · exact Keeps.ret ready_stable
  · exact Keeps.ret ready_stable

/-- A script that answers has taken effect. -/
theorem did_of_answer {sc : Script} {ch : Choice}
    (hex : exec t s (.runInvScript sc) ch = some ((.ok .ok : Except Failure Status), s')) :
    (sc.run s.keys).1 = .ok ∧ s' = s.did t sc := by
  obtain ⟨hans, rfl⟩ := Prod.mk.inj (Option.some.inj hex)
  cases ch with
  | answered =>
    have hok : (sc.run s.keys).1 = .ok := Except.ok.inj hans
    exact ⟨hok, if_pos hok⟩
  | refused | lost => cases hans

/-- The records of a batch are new. -/
theorem not_borne_of_sublist {rows : List Row}
    (hnodup : ((done ++ batch).map fun rec => rec.serial).Nodup)
    (hrows : rows.Sublist (number 0 done)) : ∀ rec ∈ batch, ¬Borne rows rec.serial := by
  rw [List.map_append, List.nodup_append] at hnodup
  rintro rec hrec ⟨r, hr, hs⟩
  exact hnodup.2.2 _ (List.mem_map_of_mem (mem_number (hrows.mem hr)).2) _
    (List.mem_map_of_mem hrec) hs

/-- A batch adds its records to those written. -/
theorem Written.did {next : ℕ} (hinv : Sane hmac key s)
    (hnodup : ((done ++ batch).map fun rec => rec.serial).Nodup)
    (hwritten : Written hmac key done s)
    (hnext : next = (done ++ batch).length)
    (hok : ((Script.replaceBatch done.length next (numbered (number done.length batch))).run
      s.keys).1 = .ok) :
    Written hmac key (done ++ batch)
      (s.did t (.replaceBatch done.length next (numbered (number done.length batch)))) := by
  intro hfair'
  have hfair := (Effect.ran (t := t) _ hok).fair hfair'
  obtain ⟨hlast, hrun⟩ := run_replaceBatch hok
  have hrows := (hwritten hfair).2 hlast
  have hind := (hinv hfair).indexed
  rw [hlast] at hind
  have hadd := (hind.addRows (not_borne_of_sublist hnodup hrows)
    (List.nodup_append.mp (List.map_append ▸ hnodup)).2.1).2
  rw [State.did, hrun]
  refine ⟨hnext.ge, fun _ => ?_⟩
  change (s.keys.addRows (numbered (number done.length batch))).rows.Sublist _
  rw [hadd, number_append, Nat.zero_add]
  exact hrows.append (List.Sublist.refl _)

theorem right_batch (hnodup : ((done ++ batch).map fun rec => rec.serial).Nodup)
    (hbatch : batch ≠ []) (hwritten : Written hmac key done s) (hfair : Fair hmac key s)
    (hok : ((Script.replaceBatch done.length (done.length + batch.length)
      (numbered (number done.length batch))).run s.keys).1 = .ok) :
    Right hmac key s (.replaceBatch done.length (done.length + batch.length)
      (numbered (number done.length batch))) := by
  obtain ⟨hlast, -⟩ := run_replaceBatch hok
  exact ⟨batch, hbatch, by rw [hlast], by rw [hlast],
    not_borne_of_sublist hnodup ((hwritten hfair).2 hlast),
    (List.nodup_append.mp (List.map_append ▸ hnodup)).2.1⟩

/-- **The batches.** From the second one on the replacement relies on the counter. -/
theorem importBatches_spec (fuel : ℕ) {rest : List CertRecord}
    (hnodup : ((done ++ rest).map fun rec => rec.serial).Nodup)
    (hlong : rest ≠ [] → done = [] ∨ (Job.replace recs).fences = true)
    (hlen : done.length + rest.length = recs.length) :
    Triple (discipline hmac key) t (.replace recs)
      (fun s => Ready t (.replace recs) s ∧ (rest ≠ [] → Written hmac key done s))
      (importBatches [] total fuel done.length rest) fun _ => Ready t (.replace recs) := by
  induction fuel generalizing done rest with
  | zero => exact finish_spec.strengthen fun s hs => hs.1
  | succ fuel ih =>
    rw [importBatches]
    split
    · exact finish_spec.strengthen fun s hs => hs.1
    · next hrest =>
      have hsplit : done ++ rest = (done ++ rest.take redisImportBatch) ++
          rest.drop redisImportBatch := by
        rw [List.append_assoc, List.take_append_drop]
      rw [hsplit] at hnodup
      have hbatch : ((done ++ rest.take redisImportBatch).map fun rec => rec.serial).Nodup := by
        rw [List.map_append, List.nodup_append] at hnodup
        exact hnodup.1
      -- Only a replacement of more than one batch has anything left after this one.
      have hmore : rest.drop redisImportBatch ≠ [] → (Job.replace recs).fences = true := by
        intro hdrop
        have := List.drop_eq_nil_iff.not.mp hdrop
        simp only [Job.fences, decide_eq_true_iff]
        omega
      have hspec := ih hnodup (fun hdrop => Or.inr (hmore hdrop)) (by
        rw [← hlen, ← List.length_append, ← List.length_append, ← hsplit])
      rw [List.length_append] at hspec
      have hbatches : rest.take redisImportBatch ≠ [] := by simpa [redisImportBatch] using hrest
      simp only
      rw [show ∀ n b, batchRows [] n b = numbered (number n b) by simp [batchRows, numbered]]
      refine Triple.strengthen (P := fun s => Ready t (.replace recs) s ∧ Written hmac key done s)
        ?_ fun s hs => ⟨hs.1, hs.2 hrest⟩
      refine Triple.call (R := fun a s => Ready t (.replace recs) s ∧
        (a = .ok .ok → Written hmac key (done ++ rest.take redisImportBatch) s))
        (written_stable (hlong hrest)) (fun s _ hs => right_batch hbatch hbatches hs.2) ?_ ?_
      · rintro s ch a s' hinv ⟨hready, hwritten⟩ hex
        refine ⟨ready_exec (c := .runInvScript _) rfl hready hex, ?_⟩
        rintro rfl
        obtain ⟨hok, rfl⟩ := did_of_answer (t := t) hex
        exact hwritten.did hinv hbatch (List.length_append).symm hok
      · rintro (e | _ | serial | _)
        · exact (Keeps.fail ready_stable).strengthen fun s hs => hs.1
        · exact hspec.strengthen fun s hs => ⟨hs.1, fun _ => hs.2 rfl⟩
        · exact (Keeps.ret ready_stable).strengthen fun s hs => hs.1
        · exact (Keeps.ret ready_stable).strengthen fun s hs => hs.1

theorem replaceInventoryOnce_spec (hnodup : (recs.map fun rec => rec.serial).Nodup) :
    Keeps (discipline hmac key) t (.replace recs) (Ready t (.replace recs))
      (replaceInventoryOnce recs) := by
  refine ready_call _ rfl (fun _ => trivial) ?_
  rintro (e | seq)
  · exact Keeps.fail ready_stable
  refine Triple.call (R := fun a s => Ready t (.replace recs) s ∧
    (a = .ok .ok → Written hmac key [] s)) ready_stable
    (fun _ _ _ _ _ => trivial) ?_ ?_
  · rintro s ch a s' hinv hready hex
    refine ⟨ready_exec (c := .runInvScript _) rfl hready hex, ?_⟩
    rintro rfl -
    obtain ⟨hok, rfl⟩ := did_of_answer (t := t) hex
    rw [State.did, run_replaceWipe hok]
    exact ⟨Nat.zero_le _, fun _ => List.Sublist.refl _⟩
  · rintro (e | _ | serial | _)
    · exact (Keeps.fail ready_stable).strengthen fun s hs => hs.1
    · have hspec : Triple (discipline hmac key) t (.replace recs)
          (fun s => Ready t (.replace recs) s ∧ (recs ≠ [] → Written hmac key [] s))
          (importBatches [] recs.length recs.length 0 recs) fun _ => Ready t (.replace recs) :=
        importBatches_spec recs.length hnodup (fun _ => Or.inl rfl) (Nat.zero_add _)
      have hprog : importBatches (duplicateSerials recs) recs.length recs.length 0 recs =
          importBatches [] recs.length recs.length 0 recs := by
        rw [duplicateSerials_eq_nil hnodup]
      change Triple _ _ _ _ (importBatches (duplicateSerials recs) recs.length recs.length 0 recs) _
      rw [hprog]
      exact hspec.strengthen fun s hs => ⟨hs.1, fun _ => hs.2 rfl⟩
    · exact (Keeps.ret ready_stable).strengthen fun s hs => hs.1
    · exact (Keeps.ret ready_stable).strengthen fun s hs => hs.1

theorem replaceAttempts_spec (hnodup : (recs.map fun rec => rec.serial).Nodup) (n : ℕ) :
    Keeps (discipline hmac key) t (.replace recs) (Ready t (.replace recs))
      (replaceAttempts recs n) := by
  induction n with
  | zero => exact Keeps.fail ready_stable
  | succ n ih =>
    refine Keeps.bind (replaceInventoryOnce_spec hnodup) fun conflict => ?_
    split
    · exact backoff_bind ih
    · exact Keeps.ret ready_stable

end Replace

/-! ### The calls -/

/-- **A body under the lock**: the call is marked as begun, and as ended. -/
theorem withAppendMu_spec {α : Type} {body : Prog α}
    (h : Keeps (discipline hmac key) t j (Ready t j) body) :
    Keeps (discipline hmac key) t j (fun _ => True) (withAppendMu j body) := by
  refine Triple.between (Stable.const _) (fun _ _ _ => trivial) ?_ h (fun _ => ready_stable)
    (fun _ _ _ hs => hs.holds) (fun _ _ _ _ _ _ _ _ => trivial) fun _ => Stable.const _
  rintro s ch a s' - - hex
  simp only [exec] at hex
  split at hex
  · cases hex
    exact ⟨Function.update_self _ _ _, fun hj => by simp [Marks.begin, hj]⟩
  · cases hex

/-- **Every call keeps the discipline.** -/
theorem body_spec (j : Job) : Keeps (discipline hmac key) t j (fun _ => True)
    ((inventoryWork hmac key).body t j) := by
  have hret : ∀ {r : Result}, Keeps (discipline hmac key) t j (fun _ => True)
      (.ret r : Prog Result) := Triple.ret (Stable.const _) fun _ _ _ => trivial
  cases j with
  | append rec =>
    exact Keeps.bind (withAppendMu_spec (appendAttempts_spec rec _)) fun _ => hret
  | appendLines recs =>
    refine Keeps.bind ?_ fun _ => hret
    refine rejectDuplicateSerials_bind (Stable.const _) (fun _ _ _ => trivial) fun hnodup => ?_
    split
    · exact Triple.ret (Stable.const _) fun _ _ _ => trivial
    · next hne =>
      split
      · exact Triple.fail (Stable.const _) fun _ _ _ => trivial
      · refine withAppendMu_spec (ready_call _ rfl (fun _ _ _ => ⟨hne, hnodup⟩) ?_)
        rintro (e | _ | serial | _)
        · exact Keeps.fail ready_stable
        · exact Keeps.ret ready_stable
        · exact Keeps.fail ready_stable
        · exact Keeps.ret ready_stable
  | prune keep =>
    exact Keeps.bind (withAppendMu_spec (pruneAttempts_spec _)) fun _ => hret
  | replace recs =>
    refine Keeps.bind ?_ fun _ => hret
    exact rejectDuplicateSerials_bind (Stable.const _) (fun _ _ _ => trivial) fun hnodup =>
      withAppendMu_spec (replaceAttempts_spec hnodup _)

/-! ### Every run -/

variable (hmac key) in
/-- **The proof outline of the inventory.** -/
def inventoryOutline :
    Outline machine (inventoryWork hmac key) where
  toDiscipline := discipline hmac key
  Menu := fun _ => True
  Idle := fun _ _ _ => True
  Post := fun _ _ _ _ => True
  idle_stable := fun _ _ => Stable.const _
  job := fun _ j _ _ => (body_spec j).conseq (fun _ h => h) fun _ _ _ _ => ⟨trivial, trivial⟩

variable (hmac key) in
/-- **Where a cluster starts**: the indexes are right, the head is the chain over the entries, and
nothing has happened yet. -/
structure State.AtRest (s : State) : Prop where
  indexed : Indexed s.keys s.keys.last
  head : s.keys.head = headOf hmac key s.keys.rows
  fresh : s.marks = {}

section Run

variable {s₀ : State} {q : Cluster hmac key} {ls : List (Event hmac key)}

/-- **The Redis inventory.** Any number of replicas append entries and lines, prune and replace, in
any interleaving, with any requests failing and any answers getting lost. As long as nobody has
wiped the inventory while somebody else was in the middle of a prune or of a replacement in several
batches, no prune has put back the head that another one had read while it was behind, and the chain
tells the inventories apart that prunes have read or left, at every moment: the counter is at least
every number, the index by serial names the entry that bears a serial or has the sentinel, the index
by subject has the newest serial, no serial that `AppendEntry` has written is borne twice; and the
head is the chain over the entries, unless lines were appended directly or the inventory replaced
after the last prune. -/
theorem redis_inventory (h₀ : s₀.AtRest hmac key)
    (hrun : (Pool.initial s₀ : Cluster hmac key).run ls = some q) (hfair : Fair hmac key q.shared) :
    Good hmac key q.shared := by
  have hinit : Sane hmac key s₀ := fun _ =>
    ⟨h₀.indexed, by simp [h₀.fresh], fun _ => h₀.head⟩
  have hsound : (inventoryOutline hmac key).Sound (Pool.initial s₀) :=
    Outline.sound_initial _ hinit fun _ => trivial
  exact (hsound.run _ (fun _ _ _ => trivial) hrun).1.1 hfair

end Run

/-! Two replicas, with a MAC that tells everything apart. -/

variable (hmac key) in
theorem atRest_empty : ({} : State).AtRest hmac key where
  indexed := ⟨by simp [Keys.rows], by simp [Keys.rows], fun _ => rfl⟩
  head := rfl
  fresh := rfl

instance (l : List (List Row)) : Decidable (Tells hmac key l) :=
  inferInstanceAs (Decidable (∀ rows ∈ l, ∀ rows' ∈ l, rows'.Sublist rows → _ → rows' = rows))

def echoMac (_ message : Bytes) : Bytes := message

def recordOf (serial : Char) : CertRecord := sampleRecord [serial] (List.cons_ne_nil _ _)

/-- A call of a thread, with `n` requests that are answered. -/
def callOf (t : Tid) (j : Job) (n : ℕ) : List (Event echoMac []) :=
  .start t j :: (List.replicate n (.step t .answered) ++ [.finish t])

/-- The first replica reads the head, then the second one is faster; the first one starts over. Two
prunes overlap, and the second one, which has come too late, reads again. The inventory is replaced,
and a line comes in directly. -/
def sampleEvents : List (Event echoMac []) :=
  [.start ⟨0, 0⟩ (.append (recordOf 'A'))] ++ List.replicate 2 (.step ⟨0, 0⟩ .answered) ++
  callOf ⟨1, 0⟩ (.append (recordOf 'B')) 4 ++
  List.replicate 5 (.step ⟨0, 0⟩ .answered) ++ [.finish ⟨0, 0⟩] ++
  [.start ⟨0, 0⟩ (.prune fun e => e.serial = ['A'])] ++ List.replicate 2 (.step ⟨0, 0⟩ .answered) ++
  callOf ⟨1, 0⟩ (.prune fun e => e.serial = ['A']) 4 ++
  List.replicate 4 (.step ⟨0, 0⟩ .answered) ++ [.finish ⟨0, 0⟩] ++
  callOf ⟨1, 0⟩ (.replace [recordOf 'C', recordOf 'D']) 6 ++
  callOf ⟨0, 0⟩ (.appendLines [recordOf 'E']) 3

def sampleRun : Option (Cluster echoMac []) := (Pool.initial ({} : State)).run sampleEvents

theorem sampleRun_eq : sampleRun.map (fun q => (q.shared.keys.rows.map fun r => (r.1, r.2.serial),
    q.shared.marks.fenced, q.shared.marks.restored,
    decide (Tells echoMac [] q.shared.marks.inventories), q.shared.marks.inventories.length)) =
      some ([(1, ['C']), (2, ['D']), (3, ['E'])], true, false, true, 4) := by
  decide +kernel

theorem redis_inventory_sample : ∃ q, sampleRun = some q ∧
    q.shared.keys.rows.map (fun r => (r.1, r.2.serial)) = [(1, ['C']), (2, ['D']), (3, ['E'])] ∧
    q.shared.marks.inventories.length = 4 ∧ Good echoMac [] q.shared := by
  obtain ⟨q, hq, hseen⟩ := Option.map_eq_some_iff.mp sampleRun_eq
  simp only [Prod.mk.injEq] at hseen
  obtain ⟨hrows, hfenced, hrestored, htells, hlen⟩ := hseen
  exact ⟨q, hq, hrows, hlen, redis_inventory (atRest_empty _ _) hq
    ⟨hfenced, hrestored, of_decide_eq_true htells⟩⟩

/-! ### What goes wrong otherwise -/

/-- A run from `s` in which `n` calls have ended leads to keys with the property. -/
def Reaches (s : State) (ls : List (Event echoMac [])) (n : ℕ) (P : Keys → Prop) : Prop :=
  ∃ q : Cluster echoMac [], (Pool.initial s).run ls = some q ∧ q.reports.length = n ∧
    P q.shared.keys

theorem reaches_of_decide {s : State} {ls : List (Event echoMac [])} {n : ℕ} {P : Keys → Prop}
    [DecidablePred P] (h : (((Pool.initial s : Cluster echoMac []).run ls).any fun q =>
      decide (q.reports.length = n ∧ P q.shared.keys)) = true) :
    Reaches s ls n P := by
  cases hq : (Pool.initial s : Cluster echoMac []).run ls with
  | none =>
    rw [hq] at h
    cases h
  | some q =>
    rw [hq] at h
    exact ⟨q, hq, of_decide_eq_true h⟩

/-- The subject that all records of the samples have. -/
def sampleSubject : Text := ['n']

/-- The same serial is borne twice, by certificates that expire at different times. -/
def twins : List Row := [(1, recordOf 'A'), (2, { recordOf 'A' with notAfter := ['3'] })]

def twinState : State where
  keys :=
    { seq := some 2
      hmac := some (headOf echoMac [] twins)
      entries := twins.foldl (fun entries r => entries.put r.1 r.2) .empty
      bySerial := fun serial => if serial = ['A'] then some .ambiguous else none
      bySubject := newestSerial twins }

theorem twinState_atRest : twinState.AtRest echoMac [] := by
  have hrows : twinState.keys.rows = twins := by decide
  refine ⟨⟨?_, ?_, fun subject => by rw [hrows]; rfl⟩, by rw [hrows]; rfl, rfl⟩
  · rw [hrows]
    decide
  · rw [hrows]
    decide

/-- A prune has read two rows when something else happens to them. -/
def overtakenEvents (second during : List (Event echoMac [])) : List (Event echoMac []) :=
  callOf ⟨0, 0⟩ (.append (recordOf 'A')) 4 ++ second ++
    [.start ⟨0, 0⟩ (.prune fun e => e.serial = ['B'])] ++
    List.replicate 2 (.step ⟨0, 0⟩ .answered) ++ during ++
    List.replicate 2 (.step ⟨0, 0⟩ .answered) ++ [.finish ⟨0, 0⟩]

/-- A replacement begins. -/
theorem run_replace {p : Cluster hmac key} {ls : List (Event hmac key)} {recs : List CertRecord}
    {prog : Prog Unit} (hidle : p.thread t = .idle) (hprog : putInventory recs = prog) :
    p.run (.start t (.replace recs) :: ls) =
      (p.setThread t (.running (.replace recs) (prog.bind fun _ => .ret .done))).run ls := by
  simp only [Pool.run, Pool.next, hidle, ← hprog]
  rfl

/-- A request is answered. -/
theorem run_step {p : Cluster hmac key} {ls : List (Event hmac key)} {c : Cmd} {ch : Choice}
    {k : c.Ans → Prog Result} {a : c.Ans} (hrun : p.thread t = .running j (.call c k))
    (hex : exec t p.shared c ch = some (a, s)) :
    p.run (.step t ch :: ls) =
      ({ (p.setThread t (.running j (k a))) with shared := s } : Cluster hmac key).run ls := by
  simp only [Pool.run, Pool.next, Pool.advance, hrun, hex]
  rfl

/-- A script takes effect. -/
theorem exec_script {sc : Script} (hok : (sc.run s.keys).1 = .ok) :
    exec t s (.runInvScript sc) .answered =
    some ((.ok .ok : Except Failure Status), s.did t sc) := by
  simp only [exec, State.ran, hok, Choice.answer, if_true, reduceCtorEq, if_false]
  rfl

section Interleaved

variable {batch others : List CertRecord} {x : CertRecord}

theorem firstDuplicate_eq_none {seen : List Text} {recs : List CertRecord}
    (h : (recs.map fun rec => rec.serial).Nodup) (hseen : ∀ rec ∈ recs, rec.serial ∉ seen) :
    firstDuplicate seen recs = none := by
  induction recs generalizing seen with
  | nil => rfl
  | cons rec recs ih =>
    rw [List.map_cons, List.nodup_cons] at h
    rw [firstDuplicate, if_neg (hseen rec List.mem_cons_self)]
    refine ih h.2 fun rec' hrec' hmem => ?_
    rcases List.mem_cons.mp hmem with heq | hmem
    · exact h.1 (heq ▸ List.mem_map_of_mem hrec')
    · exact hseen rec' (List.mem_cons_of_mem _ hrec') hmem

/-- One batch of a replacement, and the rest. -/
theorem importBatches_append (rest : List CertRecord) (total fuel written : ℕ)
    (hlen : batch.length = redisImportBatch) :
    importBatches [] total (fuel + 1) written (batch ++ rest) =
      (cmd (.runInvScript (.replaceBatch written (written + redisImportBatch)
        (numbered (number written batch))))).orFail.bind fun
          | .ok => importBatches [] total fuel (written + redisImportBatch) rest
          | _ => .ret true := by
  have hne : batch ++ rest ≠ [] := by
    intro h
    rw [(List.append_eq_nil_iff.mp h).1] at hlen
    cases hlen
  rw [importBatches, if_neg hne, ← hlen, List.take_left, List.drop_left]
  rfl

/-- The first replacement has two batches, the second one, which begins after the first batch, has
one. Its last request gets lost. -/
def interleavedEvents (recs recs' : List CertRecord) : List (Event echoMac []) :=
  [.start ⟨0, 0⟩ (.replace recs), .start ⟨1, 0⟩ (.replace recs')] ++
  List.replicate 4 (.step ⟨0, 0⟩ .answered) ++ List.replicate 4 (.step ⟨1, 0⟩ .answered) ++
  List.replicate 3 (.step ⟨0, 0⟩ .answered) ++ [.finish ⟨0, 0⟩] ++
  [.step ⟨1, 0⟩ .refused, .step ⟨1, 0⟩ .answered, .finish ⟨1, 0⟩]

/-- The batches of a replacement, where its records are new to each other. -/
theorem putInventory_eq {recs : List CertRecord} {batches : Prog Bool}
    (h : (recs.map fun rec => rec.serial).Nodup)
    (hbatches : importBatches [] recs.length recs.length 0 recs = batches) :
    putInventory recs = withAppendMu (.replace recs)
      (((cmd .readSeq).orFail.bind fun seq =>
        (cmd (.runInvScript (.replaceWipe seq))).orFail.bind fun
          | .ok => batches
          | _ => .ret true).bind fun conflict =>
        if conflict then (cmd .scriptBackoff).orFail.bind fun _ => replaceAttempts recs 15
        else .ret ()) := by
  rw [putInventory, rejectDuplicateSerials, firstDuplicate_eq_none h (by simp), ← hbatches,
    ← duplicateSerials_eq_nil h]
  rfl

/-- A batch, and a record of it under the number that follows. -/
theorem mixed_keys (hk : Indexed k 0) (hempty : k.rows = [])
    (hlen : (x :: others).length = redisImportBatch)
    (h : ((x :: others).map fun rec => rec.serial).Nodup) :
    let k' : Keys := { Keys.addRows { k.addRows (numbered (number 0 (x :: others))) with
      seq := some 512 } (numbered (number 512 [x])) with seq := some 513, data := true }
    (1, x) ∈ k'.rows ∧ (513, x) ∈ k'.rows ∧ k'.bySerial x.serial = some (.number 513) := by
  intro k'
  obtain ⟨hind, hrows⟩ := hk.addRows (by simp [hempty, Borne]) h
  have hrows' : k'.rows = (k.addRows (numbered (number 0 (x :: others)))).rows ++ [(513, x)] := by
    refine rows_addRow (r := (513, x)) (fun y hy => ?_) (.number 513)
    have hle := hind.counter y hy
    rw [hlen] at hle
    exact Nat.lt_succ_of_le hle
  rw [hrows', hrows, hempty]
  exact ⟨by simp [number], by simp, Function.update_self _ _ _⟩

theorem run_interleaved (batch others : List CertRecord) (hlen : batch.length = redisImportBatch)
    (hlen' : (x :: others).length = redisImportBatch)
    (h : ((batch ++ [x]).map fun rec => rec.serial).Nodup)
    (h' : ((x :: others).map fun rec => rec.serial).Nodup) :
    Reaches {} (interleavedEvents (batch ++ [x]) (x :: others)) 2 fun k =>
      (1, x) ∈ k.rows ∧ (513, x) ∈ k.rows ∧ k.bySerial x.serial = some (.number 513) := by
  have hbatches : importBatches [] (batch ++ [x]).length (batch ++ [x]).length 0 (batch ++ [x]) =
      (cmd (.runInvScript (.replaceBatch 0 512 (numbered (number 0 batch))))).orFail.bind fun
        | .ok => (cmd (.runInvScript (.replaceBatch 512 513
            (numbered (number 512 [x]))))).orFail.bind fun
            | .ok => importBatches.finish 513
            | _ => .ret true
        | _ => .ret true := by
    rw [List.length_append, hlen]
    exact importBatches_append [x] 513 512 0 hlen
  have hbatches' : importBatches [] (x :: others).length (x :: others).length 0 (x :: others) =
      (cmd (.runInvScript (.replaceBatch 0 512 (numbered (number 0 (x :: others)))))).orFail.bind
        fun
        | .ok => importBatches.finish 512
        | _ => .ret true := by
    rw [hlen']
    have hone := importBatches_append [] 512 511 0 hlen'
    rwa [List.append_nil] at hone
  refine ⟨_, (run_replace rfl (putInventory_eq h hbatches)).trans <|
    (run_replace rfl (putInventory_eq h' hbatches')).trans <|
    (run_step rfl rfl).trans <| (run_step rfl rfl).trans <|
    (run_step rfl (exec_script rfl)).trans <| (run_step rfl (exec_script rfl)).trans <|
    (run_step rfl rfl).trans <| (run_step rfl rfl).trans <|
    (run_step rfl (exec_script rfl)).trans <| (run_step rfl (exec_script rfl)).trans <|
    (run_step rfl (exec_script rfl)).trans <| (run_step rfl (exec_script rfl)).trans <|
    (run_step rfl rfl).trans <| rfl, rfl, ?_⟩
  refine mixed_keys (k := Prod.snd (Script.run _ (.replaceWipe 512))) ?_ ?_ hlen' h'
  · rw [run_replaceWipe rfl]
    exact ⟨by simp [Keys.rows], by simp [Keys.rows], fun _ => rfl⟩
  · rw [run_replaceWipe rfl]
    rfl

end Interleaved

def recordNo (n : ℕ) : CertRecord := sampleRecord (List.replicate (n + 1) 'A') (by simp)

theorem nodup_recordNo {l : List ℕ} (h : l.Nodup) :
    ((l.map recordNo).map fun rec => rec.serial).Nodup := by
  rw [List.map_map]
  exact h.map fun m n hmn => by simpa [recordNo, sampleRecord] using congrArg List.length hmn

/-- **What the scripts do not notice.** A direct append of lines leaves the head behind. The last
bearer of a serial that was borne twice keeps the sentinel. A prune goes by rows that a replacement
has replaced, where the counter is the same, and points the subject at a serial that nobody bears;
or by rows that another prune has removed, where the head had been left behind and is back. Two
replacements are mixed, where one is in several batches and the other comes back to the counter
between two of them. -/
theorem redis_inventory_fails :
    (Reaches {} (callOf ⟨0, 0⟩ (.appendLines [recordOf 'A']) 3) 1 fun k =>
      k.rows.length = 1 ∧ k.head ≠ headOf echoMac [] k.rows) ∧
    (twinState.AtRest echoMac [] ∧
      Reaches twinState (callOf ⟨0, 0⟩ (.prune fun e => e.notAfter = ['3']) 4) 1 fun k =>
        bearers k.rows ['A'] = 1 ∧ k.bySerial ['A'] = some .ambiguous) ∧
    (Reaches {} (overtakenEvents (callOf ⟨0, 0⟩ (.append (recordOf 'B')) 4)
        (callOf ⟨1, 0⟩ (.replace [recordOf 'C', recordOf 'D']) 6)) 4 fun k =>
      (k.rows.map fun r => r.2.serial) = [['D']] ∧ k.bySubject sampleSubject = some ['B']) ∧
    (Reaches {} (overtakenEvents (callOf ⟨1, 0⟩ (.appendLines [recordOf 'B']) 3)
        (callOf ⟨1, 0⟩ (.prune fun e => e.serial = ['A']) 4)) 4 fun k =>
      k.rows = [] ∧ k.bySubject sampleSubject = some ['B'] ∧ k.head ≠ headOf echoMac [] k.rows) ∧
    ∃ (recs recs' : List CertRecord) (x : CertRecord),
      Reaches {} (interleavedEvents recs recs') 2 fun k =>
        (1, x) ∈ k.rows ∧ (513, x) ∈ k.rows ∧ k.bySerial x.serial = some (.number 513) := by
  refine ⟨reaches_of_decide (by decide +kernel), ⟨twinState_atRest,
    reaches_of_decide (by decide +kernel)⟩, reaches_of_decide (by decide +kernel),
    reaches_of_decide (by decide +kernel), _, _, recordNo 512,
    run_interleaved ((List.range 512).map recordNo) ((List.range 511).map recordNo)
      (by simp [redisImportBatch]) (by simp [redisImportBatch]) ?_ ?_⟩
  · rw [← List.map_singleton, ← List.map_append, ← List.range_succ]
    exact nodup_recordNo List.nodup_range
  · rw [← List.map_cons]
    exact nodup_recordNo (List.nodup_cons.mpr ⟨by simp, List.nodup_range⟩)

end OpenvoxCa.Storage.Redis
