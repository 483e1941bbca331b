import OpenvoxCa.Conc.Discipline
import OpenvoxCa.Storage.Record

/-!
# Structured backends and the ledger of their calls

A structured backend serves two calls that change the inventory, `AppendEntry` and `PruneEntries`
(`InventoryStore`). What is promised about them is the same for every backend, and so is the
book-keeping that says so: a *ledger* of what each call has added to the rows and removed from them.
A machine enters a call in the ledger when the call begins and notes in it every change of the rows
(`noteRows`); no program reads it.

The first part says what a step may do to the ledger (`LedgerStep`) and that such steps keep it in
order: what was added is still there or was removed, and a number that was removed never comes back.
The second part puts the calls next to the reports of a run (`Matched`): a call that has ended is as
it was reported, so that a row, once appended, is there until a prune returns it
(`placed_of_added`).
-/

namespace OpenvoxCa.Storage

open Conc

open Data (Ascending)

/-! ### Calls -/

/-- `InventoryStore`: the two calls of a structured backend that change the inventory. A prune
returns the entries it has removed, and the error that ended it, if any. -/
structure InventoryStore (I : Interface) where
  /-- A prune takes several transactions, so that one that ends with an error may have removed
  something. -/
  batched : Bool
  appendEntry : CertRecord → Option (Bytes → Bytes) → Prog I Failure Unit
  pruneEntries : (InventoryEntry → Bool) → Option (Bytes → InventoryEntry → Bytes) →
    Prog I Failure (List InventoryEntry × Option Failure)

inductive Job
  | append (rec : CertRecord)
  | prune (keep : InventoryEntry → Bool)

inductive Result
  | appended
  | pruned (removed : List InventoryEntry) (err : Option Failure)
  deriving DecidableEq

/-- **Any number of replicas, appending and pruning**, with integrity checking on. -/
abbrev InventoryStore.work {I : Interface} (B : InventoryStore I) (T : Type)
    (hmac : Bytes → Bytes → Bytes) (key : Bytes) : Workload I T where
  Job := Job
  Err := Failure
  Res := Result
  body := fun _ job => match job with
    | .append rec => (B.appendEntry rec (some fun prev =>
        advanceHead hmac key prev rec.toInventoryEntry)).bind fun _ => .ret .appended
    | .prune keep => (B.pruneEntries keep (some (advanceHead hmac key))).bind fun r =>
        .ret (.pruned r.1 r.2)

/-- **What a call has done to the rows**: those it has added and those it has removed. -/
structure Call where
  added : List Row := []
  removed : List Row := []
  deriving DecidableEq

/-- The calls of a thread after the latest one has changed the rows. -/
def noteRows (before after : List Row) : List Call → List Call
  | [] => []
  | c :: cs => { added := c.added ++ after.filter (· ∉ before)
                 removed := c.removed ++ before.filter (· ∉ after) } :: cs

/-- **What a call may do to the rows** at once, and to the least number not given out yet: an append
adds a row with a new number; a prune removes rows that its predicate rejects. -/
inductive RowStep (rows : List Row) (next : ℕ) (rows' : List Row) (next' : ℕ) : Job → Prop
  | append (rec : CertRecord) (n : ℕ) : rows' = rows ++ [(n, rec)] → next ≤ n → n < next' →
      RowStep rows next rows' next' (.append rec)
  | prune (keep : InventoryEntry → Bool) (p : Row → Bool) : rows' = rows.filter p →
      (∀ r ∈ rows, p r = false → keep (entryOf r) = false) → next ≤ next' →
      RowStep rows next rows' next' (.prune keep)

namespace RowStep

variable {rows rows' : List Row} {next next' : ℕ} {j : Job} {r : Row}

/-- A row that is there after the step was there before, or has a new number. -/
theorem mem_or_le (h : RowStep rows next rows' next' j) (hr : r ∈ rows') :
    r ∈ rows ∨ next ≤ r.1 := by
  cases h with
  | append rec n hrows hle _ =>
    rw [hrows] at hr
    rcases List.mem_append.mp hr with hr | hr
    · exact Or.inl hr
    · rw [List.mem_singleton.mp hr]
      exact Or.inr hle
  | prune keep p hrows _ _ =>
    rw [hrows] at hr
    exact Or.inl (List.mem_filter.mp hr).1

theorem next_le (h : RowStep rows next rows' next' j) : next ≤ next' := by
  cases h with
  | append rec n _ hle hlt => omega
  | prune keep p _ _ hle => exact hle

end RowStep

/-- A call adds its first row. -/
theorem noteRows_append {rows : List Row} {r : Row} (cs : List Call) (hnew : r ∉ rows) :
    noteRows rows (rows ++ [r]) ({} :: cs) = { added := [r] } :: cs := by
  have hadded : (rows ++ [r]).filter (· ∉ rows) = [r] := by
    rw [List.filter_append]
    simp [hnew]
  have hremoved : rows.filter (· ∉ rows ++ [r]) = [] :=
    List.filter_eq_nil_iff.mpr fun x hx => by simp [hx]
  rw [noteRows, hadded, hremoved]
  rfl

theorem noteRows_filter {rows : List Row} (p : Row → Bool) (removed : List Row) (cs : List Call) :
    noteRows rows (rows.filter p) ({ removed := removed } :: cs) =
      { removed := removed ++ rows.filter fun r => !p r } :: cs := by
  have hadded : (rows.filter p).filter (· ∉ rows) = [] :=
    List.filter_eq_nil_iff.mpr fun r hr => by simpa using (List.mem_filter.mp hr).1
  have hremoved : rows.filter (· ∉ rows.filter p) = rows.filter fun r => !p r := by
    refine List.filter_congr fun r hr => ?_
    rw [Bool.eq_iff_iff]
    simp [hr]
  rw [noteRows, hadded, hremoved]
  rfl

/-! ### The lock of a replica

`appendMu` serialises the calls of one replica; a call is entered in the ledger when it has the
lock. -/

section AppendMu

variable {mu : Replica → Option Tid} {t u : Tid} {o : Option Tid}

/-- The thread has the lock of its replica. -/
def HasMu (mu : Replica → Option Tid) (t : Tid) : Prop := mu t.replica = some t

/-- Who has the lock after it was given to `o` had it before, or is given it. -/
theorem held_of_update (h : HasMu (Function.update mu u.replica o) t) :
    o = some t ∨ HasMu mu t := by
  unfold HasMu at h
  rcases eq_or_ne t.replica u.replica with heq | hne
  · rw [heq, Function.update_self] at h
    exact Or.inl h
  · rw [Function.update_of_ne hne] at h
    exact Or.inr h

/-- The lock stays with who has it, as long as it is taken only when it is free and released only
by its holder. -/
theorem held_update (h : HasMu mu t) (hne : u ≠ t) (hu : mu u.replica = none ∨ HasMu mu u) :
    HasMu (Function.update mu u.replica o) t := by
  unfold HasMu at *
  rcases eq_or_ne t.replica u.replica with heq | hrep
  · rw [← heq, h] at hu
    rcases hu with hu | hu
    · cases hu
    · exact absurd (Option.some.inj hu).symm hne
  · rw [Function.update_of_ne hrep]
    exact h

theorem not_hasMu_update : ¬HasMu (Function.update mu t.replica none) t := by
  simp [HasMu]

end AppendMu

/-! ### The ledger -/

section Ledger

variable {T : Type}

/-- **What the ledger sees of a state**: the rows, the least number not given out yet, the calls of
each thread, the latest first, and who is in the middle of one. -/
structure View (T : Type) where
  rows : List Row
  next : ℕ
  calls : T → List Call
  held : T → Prop

/-- **The ledger is in order**: what was added is still there or was removed; what was removed has a
number that is not there any more, and will not be given out again. -/
structure LedgerOk (v : View T) : Prop where
  ascending : Ascending v.rows
  bound : ∀ r ∈ v.rows, r.1 < v.next
  kept : ∀ t, ∀ c ∈ v.calls t, ∀ r ∈ c.added, r ∈ v.rows ∨ ∃ u, ∃ c' ∈ v.calls u, r ∈ c'.removed
  gone : ∀ t, ∀ c ∈ v.calls t, ∀ r ∈ c.removed, r.1 < v.next ∧ r.1 ∉ v.rows.map Prod.fst
  distinct : ∀ t, ∀ c ∈ v.calls t, (c.removed.map Prod.fst).Nodup
  /-- Who is in the middle of a call has an entry for it. -/
  calling : ∀ t, v.held t → v.calls t ≠ []

variable [DecidableEq T]

/-- **What a step of thread `t` may do to the ledger**, in the middle of job `j`: nothing, or enter
a call, or change the rows and note it. -/
inductive LedgerStep (t : T) (j : Job) (v v' : View T) : Prop
  | quiet : v'.rows = v.rows → v.next ≤ v'.next → v'.calls = v.calls →
      (∀ u, v'.held u → v.held u) → LedgerStep t j v v'
  | enter : v'.rows = v.rows → v.next ≤ v'.next →
      v'.calls = Function.update v.calls t ({} :: v.calls t) →
      (∀ u, v'.held u → u = t ∨ v.held u) → LedgerStep t j v v'
  | change : RowStep v.rows v.next v'.rows v'.next j → v.held t →
      v'.calls = Function.update v.calls t (noteRows v.rows v'.rows (v.calls t)) →
      (∀ u, v'.held u → v.held u) → LedgerStep t j v v'

theorem numbers_nodup {rows : List Row} (h : Ascending rows) : (rows.map Prod.fst).Nodup :=
  List.pairwise_map.mpr (h.imp fun hlt => hlt.ne)

section Step

variable {t : T} {j : Job} {v v' : View T}

/-- A call in the ledger after thread `t` has changed the rows. -/
theorem mem_update_noteRows {before after : List Row} {u : T} {c : Call}
    (h : c ∈ Function.update v.calls t (noteRows before after (v.calls t)) u) :
    c ∈ v.calls u ∨ ∃ d ∈ v.calls u, c = { added := d.added ++ after.filter (· ∉ before)
                                           removed := d.removed ++ before.filter (· ∉ after) } := by
  rcases eq_or_ne u t with rfl | hne
  · rw [Function.update_self] at h
    revert h
    cases v.calls u with
    | nil => exact nofun
    | cons d ds =>
      intro h
      rcases List.mem_cons.mp h with rfl | h
      · exact Or.inr ⟨d, List.mem_cons_self, rfl⟩
      · exact Or.inl (List.mem_cons_of_mem _ h)
  · rw [Function.update_of_ne hne] at h
    exact Or.inl h

/-- What was removed stays in the ledger. -/
theorem exists_update_noteRows {before after : List Row} {u : T} {c : Call} {r : Row}
    (hc : c ∈ v.calls u) (hr : r ∈ c.removed) :
    ∃ d ∈ Function.update v.calls t (noteRows before after (v.calls t)) u, r ∈ d.removed := by
  rcases eq_or_ne u t with rfl | hne
  · rw [Function.update_self]
    revert hc
    cases v.calls u with
    | nil => exact nofun
    | cons d ds =>
      intro hc
      rcases List.mem_cons.mp hc with rfl | hc
      · exact ⟨_, List.mem_cons_self, List.mem_append_left _ hr⟩
      · exact ⟨c, List.mem_cons_of_mem _ hc, hr⟩
  · rw [Function.update_of_ne hne]
    exact ⟨c, hc, hr⟩

/-- A row that is there before the rows change, and not after, is noted. -/
theorem exists_noted {after : List Row} {r : Row} (hcalls : v.calls t ≠ []) (hr : r ∈ v.rows)
    (hafter : r ∉ after) :
    ∃ c ∈ Function.update v.calls t (noteRows v.rows after (v.calls t)) t, r ∈ c.removed := by
  obtain ⟨c, cs, hcs⟩ := List.exists_cons_of_ne_nil hcalls
  rw [Function.update_self, hcs]
  refine ⟨_, List.mem_cons_self, List.mem_append_right _ (List.mem_filter.mpr ⟨hr, ?_⟩)⟩
  simpa using hafter

omit [DecidableEq T] in
theorem LedgerOk.quiet (h : LedgerOk v) (hrows : v'.rows = v.rows) (hnext : v.next ≤ v'.next)
    (hcalls : v'.calls = v.calls) (hheld : ∀ u, v'.held u → v.held u) : LedgerOk v' where
  ascending := hrows ▸ h.ascending
  bound := fun r hr => (h.bound r (hrows ▸ hr)).trans_le hnext
  kept := by
    rw [hrows, hcalls]
    exact h.kept
  gone := fun u c hc r hr => by
    obtain ⟨hlt, hn⟩ := h.gone u c (hcalls ▸ hc) r hr
    exact ⟨hlt.trans_le hnext, hrows ▸ hn⟩
  distinct := by
    rw [hcalls]
    exact h.distinct
  calling := fun u hu => hcalls ▸ h.calling u (hheld u hu)

theorem LedgerOk.enter (h : LedgerOk v) (hrows : v'.rows = v.rows) (hnext : v.next ≤ v'.next)
    (hcalls : v'.calls = Function.update v.calls t ({} :: v.calls t))
    (hheld : ∀ u, v'.held u → u = t ∨ v.held u) : LedgerOk v' := by
  have hback : ∀ u, ∀ c ∈ v'.calls u, c = {} ∨ c ∈ v.calls u := by
    intro u c hc
    rw [hcalls] at hc
    rcases eq_or_ne u t with rfl | hne
    · rw [Function.update_self] at hc
      exact List.mem_cons.mp hc
    · rw [Function.update_of_ne hne] at hc
      exact Or.inr hc
  have hmem : ∀ u, ∀ c ∈ v.calls u, c ∈ v'.calls u := by
    intro u c hc
    rw [hcalls]
    rcases eq_or_ne u t with rfl | hne
    · rw [Function.update_self]
      exact List.mem_cons_of_mem _ hc
    · rwa [Function.update_of_ne hne]
  refine ⟨hrows ▸ h.ascending, fun r hr => (h.bound r (hrows ▸ hr)).trans_le hnext, ?_, ?_, ?_, ?_⟩
  · intro u c hc r hr
    rcases hback u c hc with rfl | hc
    · cases hr
    · rcases h.kept u c hc r hr with hr | ⟨w, c', hc', hr⟩
      · exact Or.inl (hrows ▸ hr)
      · exact Or.inr ⟨w, c', hmem w c' hc', hr⟩
  · intro u c hc r hr
    rcases hback u c hc with rfl | hc
    · cases hr
    · obtain ⟨hlt, hn⟩ := h.gone u c hc r hr
      exact ⟨hlt.trans_le hnext, hrows ▸ hn⟩
  · intro u c hc
    rcases hback u c hc with rfl | hc
    · exact List.nodup_nil
    · exact h.distinct u c hc
  · intro u hu hnil
    rw [hcalls] at hnil
    rcases eq_or_ne u t with rfl | hne
    · rw [Function.update_self] at hnil
      cases hnil
    · rw [Function.update_of_ne hne] at hnil
      exact h.calling u ((hheld u hu).resolve_left hne) hnil

omit [DecidableEq T] in
theorem RowStep.ascending (h : LedgerOk v) (hstep : RowStep v.rows v.next v'.rows v'.next j) :
    Ascending v'.rows ∧ ∀ r ∈ v'.rows, r.1 < v'.next := by
  cases hstep with
  | append rec n hrows hle hlt =>
    rw [hrows]
    constructor
    · refine List.pairwise_append.mpr ⟨h.ascending, List.pairwise_singleton _ _, ?_⟩
      intro a ha b hb
      rw [List.mem_singleton.mp hb]
      exact (h.bound a ha).trans_le hle
    · intro r hr
      rcases List.mem_append.mp hr with hr | hr
      · exact (h.bound r hr).trans (hle.trans_lt hlt)
      · rw [List.mem_singleton.mp hr]
        exact hlt
  | prune keep p hrows _ hle =>
    rw [hrows]
    exact ⟨h.ascending.filter _, fun r hr => (h.bound r (List.mem_filter.mp hr).1).trans_le hle⟩

/-- **A change of the rows keeps the ledger in order.** -/
theorem LedgerOk.change (h : LedgerOk v) (hstep : RowStep v.rows v.next v'.rows v'.next j)
    (hheld : v.held t)
    (hcalls : v'.calls = Function.update v.calls t (noteRows v.rows v'.rows (v.calls t)))
    (hheld' : ∀ u, v'.held u → v.held u) : LedgerOk v' := by
  have hne := h.calling t hheld
  -- What is there before and not after has gone into the ledger of the thread.
  have hgoes : ∀ r ∈ v.rows, r ∈ v'.rows ∨ ∃ u, ∃ c ∈ v'.calls u, r ∈ c.removed := by
    intro r hr
    by_cases hafter : r ∈ v'.rows
    · exact Or.inl hafter
    · rw [hcalls]
      exact Or.inr ⟨t, exists_noted hne hr hafter⟩
  have hstays : ∀ u c r, c ∈ v.calls u → r ∈ c.removed → ∃ u, ∃ c ∈ v'.calls u, r ∈ c.removed := by
    intro u c r hc hr
    rw [hcalls]
    exact ⟨u, exists_update_noteRows hc hr⟩
  have hback : ∀ n < v.next, n ∉ v.rows.map Prod.fst → n ∉ v'.rows.map Prod.fst := by
    rintro n hlt hn hmem
    obtain ⟨r, hr, rfl⟩ := List.mem_map.mp hmem
    rcases hstep.mem_or_le hr with hr | hle
    · exact hn (List.mem_map_of_mem hr)
    · omega
  obtain ⟨hasc, hbound⟩ := hstep.ascending h
  refine ⟨hasc, hbound, ?_, ?_, ?_, ?_⟩
  · intro u c hc r hr
    rw [hcalls] at hc
    have hold : ∀ d ∈ v.calls u, r ∈ d.added →
        r ∈ v'.rows ∨ ∃ u, ∃ c ∈ v'.calls u, r ∈ c.removed := by
      intro d hd hr
      rcases h.kept u d hd r hr with hr | ⟨w, c', hc', hr⟩
      · exact hgoes r hr
      · exact Or.inr (hstays w c' r hc' hr)
    rcases mem_update_noteRows hc with hc | ⟨d, hd, rfl⟩
    · exact hold c hc hr
    · rcases List.mem_append.mp hr with hr | hr
      · exact hold d hd hr
      · exact Or.inl (List.mem_filter.mp hr).1
  · intro u c hc r hr
    rw [hcalls] at hc
    have hold : ∀ d ∈ v.calls u, r ∈ d.removed → r.1 < v'.next ∧ r.1 ∉ v'.rows.map Prod.fst := by
      intro d hd hr
      obtain ⟨hlt, hn⟩ := h.gone u d hd r hr
      exact ⟨hlt.trans_le hstep.next_le, hback r.1 hlt hn⟩
    rcases mem_update_noteRows hc with hc | ⟨d, hd, rfl⟩
    · exact hold c hc hr
    · rcases List.mem_append.mp hr with hr | hr
      · exact hold d hd hr
      · obtain ⟨hr, hafter⟩ := List.mem_filter.mp hr
        refine ⟨(h.bound r hr).trans_le hstep.next_le, fun hmem => ?_⟩
        obtain ⟨x, hx, hxr⟩ := List.mem_map.mp hmem
        rcases hstep.mem_or_le hx with hx' | hle
        · rw [h.ascending.eq_of_key_eq hx' hr hxr] at hx
          simp [hx] at hafter
        · have := h.bound r hr
          omega
  · intro u c hc
    rw [hcalls] at hc
    rcases mem_update_noteRows hc with hc | ⟨d, hd, rfl⟩
    · exact h.distinct u c hc
    · rw [List.map_append, List.nodup_append]
      refine ⟨h.distinct u d hd, ?_, ?_⟩
      · exact (numbers_nodup h.ascending).sublist (List.filter_sublist.map _)
      · rintro n hn m hm rfl
        obtain ⟨r, hr, rfl⟩ := List.mem_map.mp hn
        obtain ⟨x, hx, hxr⟩ := List.mem_map.mp hm
        exact (h.gone u d hd r hr).2 (hxr ▸ List.mem_map_of_mem (List.mem_filter.mp hx).1)
  · intro u hu hnil
    have hcall := h.calling u (hheld' u hu)
    rw [hcalls] at hnil
    rcases eq_or_ne u t with rfl | hne
    · rw [Function.update_self] at hnil
      obtain ⟨c, cs, hcs⟩ := List.exists_cons_of_ne_nil hcall
      simp [hcs, noteRows] at hnil
    · rw [Function.update_of_ne hne] at hnil
      exact hcall hnil

/-- **Every step keeps the ledger in order.** -/
theorem LedgerOk.step (h : LedgerOk v) (hstep : LedgerStep t j v v') : LedgerOk v' := by
  cases hstep with
  | quiet hrows hnext hcalls hheld => exact h.quiet hrows hnext hcalls hheld
  | enter hrows hnext hcalls hheld => exact h.enter hrows hnext hcalls hheld
  | change hstep hheld hcalls hheld' => exact h.change hstep hheld hcalls hheld'

/-- The calls of the others are as they were. -/
theorem LedgerStep.calls_of_ne (h : LedgerStep t j v v') {u : T} (hne : u ≠ t) :
    v'.calls u = v.calls u := by
  cases h with
  | quiet _ _ hcalls _ => rw [hcalls]
  | enter _ _ hcalls | change _ _ hcalls => rw [hcalls, Function.update_of_ne hne]

theorem LedgerStep.held_of_ne (h : LedgerStep t j v v') {u : T} (hne : u ≠ t) (hu : v'.held u) :
    v.held u := by
  cases h with
  | quiet _ _ _ hheld => exact hheld u hu
  | enter _ _ _ hheld => exact (hheld u hu).resolve_left hne
  | change _ _ _ hheld => exact hheld u hu

end Step

end Ledger

variable {I : Interface} {M : Machine I}

/-- **A discipline whose steps go through the ledger**: what the ledger sees of a state, and that
nobody else ends a call of a thread. -/
structure Booked (M : Machine I) [DecidableEq M.Tid] extends Discipline M Job where
  view : M.State → View M.Tid
  known : ∀ {t j c s}, toDiscipline.Known t j c s := by intros; trivial
  allowed_of_duty : ∀ {t j c s}, toDiscipline.Duty t j c s → toDiscipline.Allowed t j c s := by
    intros; assumption
  ledger : ∀ {s}, Inv s → LedgerOk (view s)
  step : ∀ {t j c ch a s s'}, Inv s → toDiscipline.Allowed t j c s →
    M.exec t s c ch = some (a, s') → LedgerStep t j (view s) (view s')
  held_stable : ∀ t, Stable toDiscipline t fun s => (view s).held t

namespace Booked

variable [DecidableEq M.Tid] (L : Booked M) {t : M.Tid} {j : Job} {cs : List Call}

/-- What the others do says nothing about the calls of a thread. -/
theorem calls_stable (C : List Call → Prop) :
    Stable L.toDiscipline t fun s => C ((L.view s).calls t) := by
  rintro s s' hs ⟨u, hne, j, c, ch, a, hinv, hall, hex⟩
  rwa [(L.step hinv hall hex).calls_of_ne hne.symm]

theorem not_held_stable : Stable L.toDiscipline t fun s => ¬(L.view s).held t := by
  rintro s s' hs ⟨u, hne, j, c, ch, a, hinv, hall, hex⟩ hheld
  exact hs ((L.step hinv hall hex).held_of_ne hne.symm hheld)

/-- The thread is in the middle of a call, and has made these. -/
theorem mine_stable : Stable L.toDiscipline t fun s =>
    (L.view s).held t ∧ (L.view s).calls t = cs :=
  (L.held_stable t).and (L.calls_stable (· = cs))

/-- **A body under the lock of the replica**: the call is entered in the ledger, and the lock is
released. -/
theorem withMu_spec {lock unlock : I.Cmd} {ε α : Type} {body : Prog I ε α} {A R : M.State → Prop}
    {C : Except ε α → List Call → Prop} (hlock : ∀ s, L.Duty t j lock s)
    (henter : ∀ s ch a s', L.Inv s → (L.view s).calls t = cs →
      M.exec t s lock ch = some (a, s') → A s')
    (hbody : Triple L.toDiscipline t j A body fun r s => R s ∧ C r ((L.view s).calls t))
    (hR : Stable L.toDiscipline t R) (hunlock : ∀ s, R s → L.Duty t j unlock s)
    (hleave : ∀ s ch a s', M.exec t s unlock ch = some (a, s') →
      ¬(L.view s').held t ∧ (L.view s').calls t = (L.view s).calls t) :
    Triple L.toDiscipline t j (fun s => (L.view s).calls t = cs)
      (.call lock fun _ => (body.attempt : Prog I ε (Except ε α)).bind fun r =>
        .call unlock fun _ => Prog.ofExcept r)
      fun r s => ¬(L.view s).held t ∧ C r ((L.view s).calls t) := by
  refine Triple.between (L.calls_stable (· = cs)) (fun s _ _ => hlock s) henter hbody
    (fun r => hR.and (L.calls_stable (C r))) (fun _ s _ hs => hunlock s hs.1) ?_
    fun r => L.not_held_stable.and (L.calls_stable (C r))
  intro r s ch a s' _ hs hex
  obtain ⟨hfree, hcalls⟩ := hleave s ch a s' hex
  exact ⟨hfree, hcalls.symm ▸ hs.2⟩

end Booked

/-! ### Calls and reports -/

section Reports

variable {B : InventoryStore I} {hmac : Bytes → Bytes → Bytes} {key : Bytes}

abbrev CallReport (M : Machine I) (B : InventoryStore I) (hmac : Bytes → Bytes → Bytes)
    (key : Bytes) := Report M (B.work M.Tid hmac key)

/-- **A call is as it was reported**: a successful append has added its record and nothing else, a
failed one nothing; a prune has returned the rows it has removed, in the order of their numbers and
none twice, and its predicate rejects all of them; if it is one transaction and has returned an
error, there are none. -/
def Accounts (c : Call) (rep : CallReport M B hmac key) : Prop :=
  match rep.job, rep.outcome with
  | .append rec, .ok .appended => ∃ n, c = { added := [(n, rec)] }
  | .append _, .error _ => c = {}
  | .prune keep, .ok (.pruned l err) => c.added = [] ∧
      (B.batched = false → err.isSome → c.removed = []) ∧ ∃ rows : List Row, Ascending rows ∧
      rows.Perm c.removed ∧ l = entriesOf rows ∧ ∀ r ∈ rows, keep (entryOf r) = false
  | _, _ => False

/-- How an append ends: it has added its record and nothing else, or nothing. -/
def AppendOutcome (rec : CertRecord) (cs : List Call) (r : Except Failure Unit)
    (cs' : List Call) : Prop :=
  match r with
  | .ok _ => ∃ n, cs' = { added := [(n, rec)] } :: cs
  | .error _ => cs' = {} :: cs

/-- How a prune ends: it returns what it has removed, in order, all of it rejected; and nothing
with an error, unless it is `batched`. -/
def PruneOutcome (batched : Bool) (keep : InventoryEntry → Bool) (cs : List Call)
    (r : Except Failure (List InventoryEntry × Option Failure)) (cs' : List Call) : Prop :=
  ∃ rows removed err, r = .ok (entriesOf rows, err) ∧ cs' = { removed := removed } :: cs ∧
    (batched = false → err.isSome → removed = []) ∧
    Ascending rows ∧ rows.Perm removed ∧ ∀ x ∈ rows, keep (entryOf x) = false

/-- A call that has removed a row and was reported is a prune that has returned it. -/
theorem Accounts.returned {c : Call} {rep : CallReport M B hmac key} {r : Row}
    (h : Accounts c rep) (hr : r ∈ c.removed) : ∃ keep l err, rep.job = .prune keep ∧
      rep.outcome = .ok (.pruned l err) ∧ entryOf r ∈ l := by
  rcases hjob : rep.job with rec | keep <;> rcases hout : rep.outcome with e | (_ | ⟨l, err⟩) <;>
    simp only [Accounts, hjob, hout] at h
  · rw [h] at hr
    cases hr
  · obtain ⟨n, rfl⟩ := h
    cases hr
  · obtain ⟨-, -, rows, -, hperm, rfl, -⟩ := h
    exact ⟨keep, _, err, rfl, rfl, List.mem_map_of_mem (hperm.mem_iff.mpr hr)⟩

/-- **Between two calls**: the thread is not in the middle of one, and its calls are as it has
reported them. -/
def Settled (view : M.State → View M.Tid) (t : M.Tid) (rs : List (CallReport M B hmac key))
    (s : M.State) : Prop :=
  ¬(view s).held t ∧ List.Forall₂ Accounts ((view s).calls t) rs

variable [DecidableEq M.Tid]

/-- **A store whose steps go through the ledger**, and what its two calls do to it. -/
structure Ledgered (M : Machine I) [DecidableEq M.Tid] (B : InventoryStore I)
    (hmac : Bytes → Bytes → Bytes) (key : Bytes) extends Booked M where
  append_spec : ∀ t rec cs, Triple toDiscipline t (.append rec) (fun s => (view s).calls t = cs)
    (B.appendEntry rec (some fun prev => advanceHead hmac key prev rec.toInventoryEntry))
    fun r s => ¬(view s).held t ∧ AppendOutcome rec cs r ((view s).calls t)
  prune_spec : ∀ t keep cs, Triple toDiscipline t (.prune keep) (fun s => (view s).calls t = cs)
    (B.pruneEntries keep (some (advanceHead hmac key)))
    fun r s => ¬(view s).held t ∧ PruneOutcome B.batched keep cs r ((view s).calls t)

namespace Ledgered

variable (L : Ledgered M B hmac key) {t u : M.Tid} {s s' : M.State}

theorem settled_stable {rs : List (CallReport M B hmac key)} :
    Stable L.toDiscipline t (Settled L.view t rs) :=
  L.not_held_stable.and (L.calls_stable fun cs => List.Forall₂ Accounts cs rs)

theorem append_job (rec : CertRecord) (rs : List (CallReport M B hmac key)) :
    Triple L.toDiscipline t (.append rec) (Settled L.view t rs)
      ((B.work M.Tid hmac key).body t (.append rec))
      fun r s => Settled L.view t (⟨t, .append rec, r⟩ :: rs) s := by
  intro s hs
  refine Triple.bind (P := fun s' => (L.view s').calls t = (L.view s).calls t)
    (R := fun _ s' => ¬(L.view s').held t ∧
      AppendOutcome rec ((L.view s).calls t) (.ok ()) ((L.view s').calls t)) ?_ ?_ s rfl
  · refine (L.append_spec t rec _).weaken ?_
    rintro (e | _) s' - ⟨hfree, hout⟩
    · have hcalls : (L.view s').calls t = {} :: (L.view s).calls t := hout
      exact ⟨hfree, hcalls ▸ List.Forall₂.cons rfl hs.2⟩
    · exact ⟨hfree, hout⟩
  · rintro -
    refine Triple.ret (L.not_held_stable.and
      (L.calls_stable fun cs' => AppendOutcome rec ((L.view s).calls t) (.ok ()) cs')) ?_
    rintro s' - ⟨hfree, n, hcalls⟩
    exact ⟨hfree, hcalls ▸ List.Forall₂.cons ⟨n, rfl⟩ hs.2⟩

theorem prune_job (keep : InventoryEntry → Bool) (rs : List (CallReport M B hmac key)) :
    Triple L.toDiscipline t (.prune keep) (Settled L.view t rs)
      ((B.work M.Tid hmac key).body t (.prune keep))
      fun r s => Settled L.view t (⟨t, .prune keep, r⟩ :: rs) s := by
  intro s hs
  refine Triple.bind (P := fun s' => (L.view s').calls t = (L.view s).calls t)
    (R := fun r s' => ¬(L.view s').held t ∧
      PruneOutcome B.batched keep ((L.view s).calls t) (.ok r) ((L.view s').calls t)) ?_ ?_ s rfl
  · refine (L.prune_spec t keep _).weaken ?_
    rintro (e | r) s' - ⟨hfree, hout⟩
    · obtain ⟨rows, removed, err, hr, -⟩ := hout
      cases hr
    · exact ⟨hfree, hout⟩
  · intro r
    refine Triple.ret (L.not_held_stable.and
      (L.calls_stable (PruneOutcome B.batched keep ((L.view s).calls t) (.ok r)))) ?_
    rintro s' - ⟨hfree, rows, removed, err, hr, hcalls, hnone, hasc, hperm, hkeep⟩
    obtain rfl := Except.ok.inj hr
    exact ⟨hfree, hcalls ▸ List.Forall₂.cons ⟨rfl, hnone, rows, hasc, hperm, rfl, hkeep⟩ hs.2⟩

/-- **The proof outline of a ledgered store.** -/
def outline : Outline M (B.work M.Tid hmac key) where
  toDiscipline := L.toDiscipline
  Menu := fun _ => True
  Idle := Settled L.view
  Post := fun _ _ _ _ => True
  known := L.known
  allowed_of_duty := L.allowed_of_duty
  idle_stable := fun _ _ => L.settled_stable
  job := fun t j rs _ => by
    cases j with
    | append rec => exact (L.append_job rec rs).conseq (fun _ h => h) fun _ _ _ h => ⟨h, trivial⟩
    | prune keep => exact (L.prune_job keep rs).conseq (fun _ h => h) fun _ _ _ h => ⟨h, trivial⟩

end Ledgered

/-! ### Every run -/

/-- **The calls of a thread and its reports**: those in `past` have been reported, one by one;
`now` is what it is in the middle of. Only a prune removes rows. -/
structure Matched (view : M.State → View M.Tid) (q : Pool M (B.work M.Tid hmac key)) (t : M.Tid)
    (now past : List Call) : Prop where
  calls : (view q.shared).calls t = now ++ past
  reported : List.Forall₂ Accounts past (q.reportsOf t)
  idle : q.thread t = .idle → now = []
  held : (view q.shared).held t → now ≠ []
  pruning : ∀ c ∈ now, ∀ r ∈ c.removed, ∃ keep rest, q.thread t = .running (.prune keep) rest

/-- **Where a row is**: it is stored, and nobody has removed it; or a prune has returned it; or a
prune that is still running has removed it. -/
inductive Placed (view : M.State → View M.Tid) (q : Pool M (B.work M.Tid hmac key)) (r : Row) : Prop
  | stored : r ∈ (view q.shared).rows → (∀ u, ∀ c ∈ (view q.shared).calls u, r ∉ c.removed) →
      Placed view q r
  | returned (rep : CallReport M B hmac key) (keep : InventoryEntry → Bool)
      (l : List InventoryEntry) (err : Option Failure) : rep ∈ q.reports →
      rep.job = .prune keep → rep.outcome = .ok (.pruned l err) → entryOf r ∈ l →
      r ∉ (view q.shared).rows → Placed view q r
  | pruning (u : M.Tid) (keep : InventoryEntry → Bool) (rest : Prog I Failure Result) (c : Call) :
      q.thread u = .running (.prune keep) rest → c ∈ (view q.shared).calls u → r ∈ c.removed →
      r ∉ (view q.shared).rows → Placed view q r

section Runs

variable {view : M.State → View M.Tid} {q q' : Pool M (B.work M.Tid hmac key)}
  {t : M.Tid} {now past : List Call}

/-- A thread that nothing happens to stays matched. -/
theorem Matched.frame (h : Matched view q t now past)
    (hcalls : (view q'.shared).calls t = (view q.shared).calls t)
    (hthread : q'.thread t = q.thread t) (hreports : q'.reportsOf t = q.reportsOf t)
    (hheld : (view q'.shared).held t → (view q.shared).held t) : Matched view q' t now past := by
  refine ⟨hcalls.trans h.calls, ?_, ?_, fun hs => h.held (hheld hs), ?_⟩
  · rw [hreports]
    exact h.reported
  · rw [hthread]
    exact h.idle
  · rw [hthread]
    exact h.pruning

/-- The thread that takes a step stays matched. -/
theorem Matched.step {j : Job} (h : Matched view q t now past)
    (hstep : LedgerStep t j (view q.shared) (view q'.shared)) {rest rest' : Prog I Failure Result}
    (hthread : q.thread t = .running j rest) (hthread' : q'.thread t = .running j rest')
    (hreports : q'.reportsOf t = q.reportsOf t) : ∃ now', Matched view q' t now' past := by
  have hrep : List.Forall₂ Accounts past (q'.reportsOf t) := by
    rw [hreports]
    exact h.reported
  have hidle : ∀ now', q'.thread t = .idle → now' = ([] : List Call) := by
    intro now' hid
    rw [hthread'] at hid
    cases hid
  have hpruning : ∀ c ∈ now, ∀ r ∈ c.removed,
      ∃ keep rest, q'.thread t = .running (.prune keep) rest := by
    intro c hc r hr
    obtain ⟨keep, rest, hrun⟩ := h.pruning c hc r hr
    rw [hthread] at hrun
    obtain ⟨rfl, -⟩ := Thread.running.inj hrun
    exact ⟨keep, _, hthread'⟩
  cases hstep with
  | quiet _ _ hcalls hheld =>
    exact ⟨now, ⟨hcalls ▸ h.calls, hrep, hidle now, fun hu => h.held (hheld t hu), hpruning⟩⟩
  | enter _ _ hcalls _ =>
    refine ⟨{} :: now, ⟨?_, hrep, hidle _, fun _ => List.cons_ne_nil _ _, ?_⟩⟩
    · rw [hcalls, Function.update_self, h.calls, List.cons_append]
    · intro c hc r hr
      rcases List.mem_cons.mp hc with rfl | hc
      · cases hr
      · exact hpruning c hc r hr
  | change hstep hheld hcalls _ =>
    obtain ⟨d, now', rfl⟩ := List.exists_cons_of_ne_nil (h.held hheld)
    refine ⟨noteRows (view q.shared).rows (view q'.shared).rows (d :: now'),
      ⟨?_, hrep, hidle _, fun _ => List.cons_ne_nil _ _, ?_⟩⟩
    · rw [hcalls, Function.update_self, h.calls]
      rfl
    · intro c hc r hr
      rcases List.mem_cons.mp hc with rfl | hc
      · rcases List.mem_append.mp hr with hr | hr
        · exact hpruning d List.mem_cons_self r hr
        · cases hstep with
          | append rec n hrows _ _ =>
            -- An append removes nothing.
            obtain ⟨hr, hafter⟩ := List.mem_filter.mp hr
            simp [hrows, hr] at hafter
          | prune keep p _ _ _ => exact ⟨keep, _, hthread'⟩
      · exact hpruning c (List.mem_cons_of_mem _ hc) r hr

namespace Ledgered

variable (L : Ledgered M B hmac key) {l : Label M (B.work M.Tid hmac key)}
  {ls : List (Label M (B.work M.Tid hmac key))}

/-- **One event keeps every thread matched.** -/
theorem exists_matched_next (hsound : L.outline.Sound q) (hnext : q.next l = some q')
    (h : ∀ t, ∃ now past, Matched L.view q t now past) :
    ∀ t, ∃ now past, Matched L.view q' t now past := by
  intro v
  obtain ⟨now, past, hv⟩ := h v
  obtain ⟨t, j, -, hidle, rfl⟩ | ⟨t, ch, j, c, k, a, s, -, hrun, hex, rfl⟩ |
    ⟨t, j, r, -, hrun, rfl⟩ := Pool.next_cases hnext
  · -- A call begins: nothing is in the ledger yet.
    rcases eq_or_ne v t with rfl | hne
    · obtain rfl := hv.idle hidle
      refine ⟨[], past, ⟨hv.calls, hv.reported, fun _ => rfl, hv.held, ?_⟩⟩
      simp
    · exact ⟨now, past, hv.frame rfl (Function.update_of_ne hne _ _) rfl fun hs => hs⟩
  · have hstep := L.step hsound.1 (hsound.allowed _ hrun) hex
    rcases eq_or_ne v t with rfl | hne
    · have hv' : ∃ now', Matched L.view
          { (q.setThread v (.running j (k a))) with shared := s } v now' past :=
        hv.step hstep hrun (Function.update_self _ _ _) rfl
      exact hv'.imp fun now' h => ⟨past, h⟩
    · exact ⟨now, past, hv.frame (hstep.calls_of_ne hne) (Function.update_of_ne hne _ _) rfl
        (hstep.held_of_ne hne)⟩
  · -- A call ends: it joins those that were reported.
    rcases eq_or_ne v t with rfl | hne
    · obtain ⟨hfree, hcalls⟩ := hsound.settled _ hrun
      refine ⟨[], (L.view q.shared).calls v,
        ⟨rfl, ?_, fun _ => rfl, fun hs => absurd hs hfree, by simp⟩⟩
      change List.Forall₂ Accounts _ ((⟨v, j, r⟩ :: q.reports).filter fun r => r.tid = v)
      rw [List.filter_cons_of_pos (by simp)]
      exact hcalls
    · refine ⟨now, past, hv.frame rfl (Function.update_of_ne hne _ _) ?_ fun hs => hs⟩
      exact List.filter_cons_of_neg (by simpa using hne.symm)

/-- **Every run keeps every thread matched.** -/
theorem matched_of_run {p : Pool M (B.work M.Tid hmac key)} (hsound : L.outline.Sound p)
    (h : ∀ t, ∃ now past, Matched L.view p t now past) (hrun : p.run ls = some q) :
    ∀ t, ∃ now past, Matched L.view q t now past := by
  induction ls generalizing p with
  | nil =>
    obtain rfl := Option.some.inj hrun
    exact h
  | cons l ls ih =>
    obtain ⟨p', hnext, hrest⟩ := Pool.run_cons.mp hrun
    exact ih (hsound.next _ (fun _ _ _ => trivial) hnext).1
      (L.exists_matched_next hsound hnext h) hrest

/-- What every run comes to, from a state where no call has been made yet. -/
theorem reachable {s₀ : M.State} (hinv : L.Inv s₀) (hfresh : ∀ t, (L.view s₀).calls t = [])
    (hfree : ∀ t, ¬(L.view s₀).held t) (hrun : (Pool.initial s₀).run ls = some q) :
    L.outline.Sound q ∧ ∀ t, ∃ now past, Matched L.view q t now past := by
  have hsound : L.outline.Sound (Pool.initial s₀) :=
    Outline.sound_initial _ hinv fun t => ⟨hfree t, by rw [hfresh]; exact .nil⟩
  refine ⟨(hsound.run _ (fun _ _ _ => trivial) hrun).1, L.matched_of_run hsound (fun t => ?_) hrun⟩
  exact ⟨[], [], ⟨hfresh t, .nil, fun _ => rfl, fun h => absurd h (hfree t), by simp⟩⟩

/-- What a call has added is stored until a prune returns it. -/
theorem placed_of_added (hsound : L.outline.Sound q)
    (hmatched : ∀ t, ∃ now past, Matched L.view q t now past) {c : Call} {r : Row}
    (hc : c ∈ (L.view q.shared).calls t) (hr : r ∈ c.added) : Placed L.view q r := by
  have hledger := L.ledger hsound.1
  have hgone : ∀ u, ∀ c ∈ (L.view q.shared).calls u, r ∈ c.removed → r ∉ (L.view q.shared).rows :=
    fun u c hc hr hmem => (hledger.gone u c hc r hr).2 (List.mem_map_of_mem hmem)
  rcases hledger.kept t c hc r hr with hstored | ⟨u, c', hc', hr'⟩
  · exact .stored hstored fun u c hc hr => hgone u c hc hr hstored
  · -- The call that removed it is over and has been reported, or is a prune in progress.
    obtain ⟨now, past, hu⟩ := hmatched u
    have hmem := hc'
    rw [hu.calls] at hmem
    rcases List.mem_append.mp hmem with hnow | hpast
    · obtain ⟨keep, rest, hrun⟩ := hu.pruning c' hnow r hr'
      exact .pruning u keep rest c' hrun hc' hr' (hgone u c' hc' hr')
    · obtain ⟨rep, hrep, hacc⟩ : ∃ rep ∈ q.reportsOf u, Accounts c' rep := by
        obtain ⟨i, hi, rfl⟩ := List.getElem_of_mem hpast
        have hlen := hu.reported.length_eq
        exact ⟨_, List.getElem_mem (hlen ▸ hi), hu.reported.get hi (hlen ▸ hi)⟩
      obtain ⟨keep, l, err, hjob, hout, hl⟩ := hacc.returned hr'
      exact .returned rep keep l err (List.mem_filter.mp hrep).1 hjob hout hl (hgone u c' hc' hr')

/-- **The calls of a run.** Those that every thread has reported are as reported, and what an append
has added is stored until a prune returns it. -/
theorem calls_of_run {s₀ : M.State} (hinv : L.Inv s₀) (hfresh : ∀ t, (L.view s₀).calls t = [])
    (hfree : ∀ t, ¬(L.view s₀).held t) (hrun : (Pool.initial s₀).run ls = some q) (t : M.Tid) :
    ∃ now past, (L.view q.shared).calls t = now ++ past ∧
      List.Forall₂ Accounts past (q.reportsOf t) ∧
      ∀ c ∈ past, ∀ r ∈ c.added, Placed L.view q r := by
  obtain ⟨hsound, hmatched⟩ := L.reachable hinv hfresh hfree hrun
  obtain ⟨now, past, ht⟩ := hmatched t
  refine ⟨now, past, ht.calls, ht.reported, fun c hc r hr => ?_⟩
  have hmem : c ∈ (L.view q.shared).calls t := by
    rw [ht.calls]
    exact List.mem_append_right _ hc
  exact L.placed_of_added hsound hmatched hmem hr

/-- **A prune that is about to return** has the rows it has removed, in the order of their numbers
and none twice; its predicate rejects all of them, none is stored any more; and it returns their
entries. -/
theorem prune_of_run {s₀ : M.State} (hinv : L.Inv s₀) (hfresh : ∀ t, (L.view s₀).calls t = [])
    (hfree : ∀ t, ¬(L.view s₀).held t) (hrun : (Pool.initial s₀).run ls = some q)
    {keep : InventoryEntry → Bool} {r : Except Failure Result}
    (ht : q.thread t = .running (.prune keep) (Prog.ofExcept r)) :
    ∃ l err c past rows, r = .ok (.pruned l err) ∧ (L.view q.shared).calls t = c :: past ∧
      List.Forall₂ Accounts past (q.reportsOf t) ∧ l = entriesOf rows ∧ Ascending rows ∧
      rows.Perm c.removed ∧
      ∀ x ∈ rows, keep (entryOf x) = false ∧ x ∉ (L.view q.shared).rows := by
  obtain ⟨hsound, -⟩ := L.reachable hinv hfresh hfree hrun
  obtain ⟨-, hcalls⟩ := hsound.settled _ ht
  have hledger := L.ledger hsound.1
  obtain ⟨c, past, hacc, hpast, heq⟩ := List.forall₂_cons_right_iff.mp hcalls
  rcases r with e | (_ | ⟨l, err⟩)
  · exact absurd hacc (by simp [Accounts])
  · exact absurd hacc (by simp [Accounts])
  · obtain ⟨-, -, rows, hasc, hperm, rfl, hkeep⟩ := hacc
    refine ⟨_, err, c, past, rows, rfl, heq, hpast, rfl, hasc, hperm, fun x hx => ⟨hkeep x hx, ?_⟩⟩
    intro hmem
    have hc : c ∈ (L.view q.shared).calls t := heq ▸ List.mem_cons_self
    exact (hledger.gone t c hc x (hperm.mem_iff.mp hx)).2 (List.mem_map_of_mem hmem)

end Ledgered

end Runs

end Reports

end OpenvoxCa.Storage
