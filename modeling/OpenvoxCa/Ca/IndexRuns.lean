import Mathlib.Data.Set.Finite.Basic
import OpenvoxCa.Ca.CertIndex

/-!
# Runs of a cluster with an index

In a run of `indexing`, threads are at their certificates at any time, and the newest line of a
subject that somebody is at need not be that of the stored certificate. What holds throughout is
said together with the states of the threads in the protocol (`IndexInv`): who holds which lock, who
is at which certificate, and that the rows of all other subjects are in order.

The invariant survives a thread that stops, as long as it is at no certificate of a subject with an
older row. Three more things would break it: a deletion that is to undo a failed write and fails
itself, with a row there, a prune that removes the newest row of a subject and leaves an older one,
and a pass over a managed certificate that puts an earlier certificate back. Steps without the first
two are `CarefulStep`, jobs without the last are `IndexJob.Keeps`; and in a run of these the index
is in order whenever the cluster is at rest (`orderly_of_run`).
-/

namespace OpenvoxCa.Ca

open Conc

/-! ### The newest row -/

/-- The newest row of a subject. -/
def latestRow (rows : List IndexRow) (n : Text) : Option IndexRow :=
  (rows.filter fun r => r.entry.subject = n).getLast?

section Rows

variable {rows : List IndexRow} {r : IndexRow} {n : Text}

theorem latestRow_append_self (h : r.entry.subject = n) : latestRow (rows ++ [r]) n = some r := by
  simp [latestRow, List.filter_append, h]

theorem latestRow_append_of_ne (h : r.entry.subject ≠ n) :
    latestRow (rows ++ [r]) n = latestRow rows n := by
  simp [latestRow, List.filter_append, h]

theorem subject_of_latestRow (h : latestRow rows n = some r) : r ∈ rows ∧ r.entry.subject = n := by
  obtain ⟨hmem, hn⟩ := List.mem_filter.mp (List.mem_of_getLast? h)
  exact ⟨hmem, of_decide_eq_true hn⟩

theorem latestRow_isSome (hr : r ∈ rows) (hn : r.entry.subject = n) :
    (latestRow rows n).isSome = true := by
  have hmem : r ∈ rows.filter fun r => r.entry.subject = n :=
    List.mem_filter.mpr ⟨hr, decide_eq_true hn⟩
  exact List.getLast?_isSome.mpr (List.ne_nil_of_mem hmem)

end Rows

/-! ### What holds between the certificates and their lines -/

variable {s s' : IndexState} {n : Text}

namespace IndexState

/-- **The newest row of a subject is that of its stored certificate**, unless its fields have never
been filled in. -/
def Matches (s : IndexState) (n : Text) : Prop :=
  ∀ blob, s.store.certs n = some blob → ∃ cert, blob.parsed = some cert ∧
    ∀ row, latestRow s.rows n = some row →
      row.projected = none ∨ row.projected = some cert ∧ row.entry = inventoryEntryFor n cert

theorem setUnrecorded_self {t : Tid} {o : Option (Text × Certificate)} (h : s.unrecorded t = o) :
    s.setUnrecorded t o = s := by
  subst h
  rw [setUnrecorded, Function.update_eq_self]

theorem matches_congr (hcerts : s'.store.certs n = s.store.certs n)
    (hrows : latestRow s'.rows n = latestRow s.rows n) (h : s.Matches n) : s'.Matches n := by
  intro blob hblob
  rw [hcerts] at hblob
  rw [hrows]
  exact h blob hblob

theorem matches_of_absent (h : s.store.certs n = none) : s.Matches n := by
  intro blob hblob
  rw [h] at hblob
  cases hblob

/-- **The index is in order**: nobody is at a certificate, the newest rows are those of the stored
certificates, and what is stored is stored for valid subjects. -/
structure Orderly (s : IndexState) : Prop where
  unrecorded : ∀ t, s.unrecorded t = none
  described : ∀ n, s.Matches n
  certs_valid : ∀ n, s.store.certs n ≠ none → validateSubject n = true
  requests_valid : ∀ n, s.store.requests n ≠ none → validateSubject n = true

/-- **A prune does not uncover an older row**: while a certificate of a subject is stored, the
newest row that is left of it is the newest there was. -/
def PrunesWhole (s : IndexState) (keep : InventoryEntry → Bool) (ch : Choice) : Prop :=
  ∀ n, s.store.certs n ≠ none → ∀ row, latestRow (s.keptRows keep ch) n = some row →
    latestRow s.rows n = some row

end IndexState

/-- **Steps that leave nothing half done.** A thread that has stored a certificate without its line
does not stop, and where it deletes the certificate again, the deletion succeeds, if the subject has
a row; and a prune does not uncover an older row. -/
def CarefulStep {caCert : Certificate} (p : IndexCluster caCert) : IndexEvent caCert → Prop
  | .step t ch => ∀ j c k, p.thread t = .running j (.call c k) →
      (∀ n cert, p.shared.unrecorded t = some (n, cert) → latestRow p.shared.rows n ≠ none →
        ch.crash = false ∧ ∀ m, c = .deleteCert m → ch.fails = false) ∧
      ∀ keep, c = .pruneInventory keep → p.shared.PrunesWhole keep ch.toChoice
  | _ => True

/-- **The invariant** of a cluster whose threads are at `q` in the protocol. -/
structure IndexInv (s : IndexState) (q : Tid → Storing) : Prop where
  valid : ∀ t n, n ∈ (q t).subjects → validateSubject n = true
  held : ∀ t n, s.crashed t = false → n ∈ (q t).subjects → s.store.owner (.subject n) = some t
  opened : ∀ t, s.crashed t = false → (q t).opened = s.unrecorded t
  crashed : ∀ t, s.crashed t = true → s.unrecorded t = none
  unrecorded : ∀ t n cert, s.unrecorded t = some (n, cert) → n ∈ (q t).subjects ∧
    ∀ blob, s.store.certs n = some blob → blob.parsed = some cert
  described : ∀ n, s.Matches n ∨ ∃ t cert, s.unrecorded t = some (n, cert)
  certs_valid : ∀ n, s.store.certs n ≠ none → validateSubject n = true
  requests_valid : ∀ n, s.store.requests n ≠ none → validateSubject n = true

namespace IndexInv

variable {s : IndexState} {q : Tid → Storing} {t : Tid} {q' : Storing}

/-- **Nobody else is at a subject** whose lock a thread holds. -/
theorem alone (h : IndexInv s q) {u : Tid} {cert : Certificate} (halive : s.crashed t = false)
    (ht : n ∈ (q t).subjects) (hu : s.unrecorded u = some (n, cert)) : u = t := by
  have hualive : s.crashed u = false := by
    by_contra hdead
    rw [h.crashed u (Bool.eq_true_of_not_eq_false hdead)] at hu
    cases hu
  have hown := h.held u n hualive (h.unrecorded u n cert hu).1
  rw [h.held t n halive ht] at hown
  exact (Option.some.inj hown).symm

/-- **What has to be seen to** when a thread takes a step: all but the last two points are about the
thread itself, or say that it leaves the others alone. -/
theorem step (h : IndexInv s q) (hcrashed : s'.crashed = s.crashed)
    (hdead : s'.crashed t = true → s'.unrecorded t = none)
    (hopened : s'.crashed t = false → q'.opened = s'.unrecorded t)
    (hrest : ∀ u, u ≠ t → s'.unrecorded u = s.unrecorded u)
    (hsubjects : ∀ n ∈ q'.subjects, validateSubject n = true ∧
      (s'.crashed t = false → s'.store.owner (.subject n) = some t))
    (howner : ∀ u n, u ≠ t → s.store.owner (.subject n) = some u →
      s'.store.owner (.subject n) = some u)
    (hat : ∀ n cert, s'.unrecorded t = some (n, cert) → n ∈ q'.subjects ∧
      ∀ blob, s'.store.certs n = some blob → blob.parsed = some cert)
    (hcerts : ∀ u n cert blob, u ≠ t → s.unrecorded u = some (n, cert) →
      s'.store.certs n = some blob → s.store.certs n = some blob)
    (hdescribed : ∀ n, (s.Matches n ∨ ∃ cert, s.unrecorded t = some (n, cert)) →
      s'.Matches n ∨ ∃ cert, s'.unrecorded t = some (n, cert))
    (hvalid : ∀ n, s'.store.certs n ≠ none ∨ s'.store.requests n ≠ none →
      validateSubject n = true) :
    IndexInv s' (Function.update q t q') where
  valid u n hn := by
    rcases eq_or_ne u t with rfl | hne
    · rw [Function.update_self] at hn
      exact (hsubjects n hn).1
    · rw [Function.update_of_ne hne] at hn
      exact h.valid u n hn
  held u n halive hn := by
    rcases eq_or_ne u t with rfl | hne
    · rw [Function.update_self] at hn
      exact (hsubjects n hn).2 halive
    · rw [Function.update_of_ne hne] at hn
      rw [hcrashed] at halive
      exact howner u n hne (h.held u n halive hn)
  opened u halive := by
    rcases eq_or_ne u t with rfl | hne
    · rw [Function.update_self, hopened halive]
    · rw [Function.update_of_ne hne, hrest u hne]
      exact h.opened u (by rw [← hcrashed]; exact halive)
  crashed u hu := by
    rcases eq_or_ne u t with rfl | hne
    · exact hdead hu
    · rw [hrest u hne]
      exact h.crashed u (by rw [← hcrashed]; exact hu)
  unrecorded u n cert hu := by
    rcases eq_or_ne u t with rfl | hne
    · rw [Function.update_self]
      exact hat n cert hu
    · rw [hrest u hne] at hu
      rw [Function.update_of_ne hne]
      obtain ⟨hn, hparsed⟩ := h.unrecorded u n cert hu
      exact ⟨hn, fun blob hblob => hparsed blob (hcerts u n cert blob hne hu hblob)⟩
  described n := by
    have hself : s.Matches n ∨ (∃ cert, s.unrecorded t = some (n, cert)) →
        s'.Matches n ∨ ∃ u cert, s'.unrecorded u = some (n, cert) :=
      fun hn => (hdescribed n hn).imp id fun ⟨cert, hcert⟩ => ⟨t, cert, hcert⟩
    rcases h.described n with hmatch | ⟨u, cert, hu⟩
    · exact hself (.inl hmatch)
    · rcases eq_or_ne u t with rfl | hne
      · exact hself (.inr ⟨cert, hu⟩)
      -- The certificate of another thread waits for its row as before.
      · exact .inr ⟨u, cert, (hrest u hne).trans hu⟩
  certs_valid n hn := hvalid n (.inl hn)
  requests_valid n hn := hvalid n (.inr hn)

/-- A certificate whose subject has no row is in order without one. -/
theorem matches_of_no_row (h : IndexInv s q) {cert : Certificate}
    (ht : s.unrecorded t = some (n, cert)) (hrow : latestRow s.rows n = none) : s.Matches n := by
  refine fun blob hblob => ⟨cert, (h.unrecorded t n cert ht).2 blob hblob, fun row hlatest => ?_⟩
  rw [hrow] at hlatest
  cases hlatest

theorem certs_or_requests (h : IndexInv s q)
    (hn : s.store.certs n ≠ none ∨ s.store.requests n ≠ none) : validateSubject n = true :=
  hn.elim (h.certs_valid n) (h.requests_valid n)

/-- A thread's own subjects, where it takes or releases none. -/
theorem subjects (h : IndexInv s q) : ∀ n ∈ (q t).subjects, validateSubject n = true ∧
    (s.crashed t = false → s.store.owner (.subject n) = some t) :=
  fun n hn => ⟨h.valid t n hn, fun halive => h.held t n halive hn⟩

/-- A change to the store that is about none of this. -/
theorem frame (h : IndexInv s q) {store : State} (hcerts : store.certs = s.store.certs)
    (hrequests : ∀ n, store.requests n ≠ none →
      s.store.requests n ≠ none ∨ validateSubject n = true)
    (howner : ∀ n, store.owner (.subject n) = s.store.owner (.subject n)) :
    IndexInv { s with store } (Function.update q t (q t)) := by
  have hmatch : ∀ n, s.Matches n → ({ s with store } : IndexState).Matches n := by
    intro n hn blob hblob
    exact hn blob (by rw [← hcerts]; exact hblob)
  refine h.step rfl (h.crashed t) (h.opened t) (fun _ _ => rfl) (fun n hn => ?_)
    (fun u n _ hu => (howner n).trans hu) (fun n cert ht => ?_)
    (fun u n cert blob _ _ hblob => by rw [← hcerts]; exact hblob)
    (fun n hn => hn.imp (hmatch n) id) (fun n hn => ?_)
  · refine ⟨h.valid t n hn, fun halive => (howner n).trans (h.held t n halive hn)⟩
  · obtain ⟨hn, hparsed⟩ := h.unrecorded t n cert ht
    exact ⟨hn, fun blob hblob => hparsed blob (by rw [← hcerts]; exact hblob)⟩
  · rcases hn with hn | hn
    · exact h.certs_valid n (by rw [← hcerts]; exact hn)
    · exact (hrequests n hn).elim (h.requests_valid n) id

/-- A thread that has stopped goes on releasing locks that are no longer its own. -/
theorem dead (h : IndexInv s q) (hdead : s.crashed t = true)
    (hsub : q'.subjects ⊆ (q t).subjects) : IndexInv s (Function.update q t q') := by
  have hnone := h.crashed t hdead
  have hnot : s.crashed t = false → q'.opened = s.unrecorded t :=
    fun halive => absurd (halive.symm.trans hdead) Bool.false_ne_true
  refine h.step rfl (fun _ => hnone) hnot (fun _ _ => rfl)
    (fun n hn => h.subjects n (hsub hn)) (fun _ _ _ hu => hu) (fun n cert ht => ?_)
    (fun _ _ _ _ _ _ hblob => hblob) (fun _ hn => hn) (fun _ => h.certs_or_requests)
  rw [hnone] at ht
  cases ht

/-- **A thread stops** that is at no certificate of a subject with a row. -/
theorem crash (h : IndexInv s q)
    (hrow : ∀ n cert, s.unrecorded t = some (n, cert) → latestRow s.rows n = none) :
    IndexInv (s.crash t) q where
  valid := h.valid
  held u n halive hn := by
    have hne : u ≠ t := by
      rintro rfl
      simp [IndexState.crash] at halive
    have hown := h.held u n (by simpa [IndexState.crash, hne] using halive) hn
    show (if s.store.owner (.subject n) = some t then none else s.store.owner (.subject n)) = some u
    rw [if_neg (by rw [hown]; simpa using hne), hown]
  opened u halive := by
    have hne : u ≠ t := by
      rintro rfl
      simp [IndexState.crash] at halive
    exact (h.opened u (by simpa [IndexState.crash, hne] using halive)).trans
      (Function.update_of_ne hne _ _).symm
  crashed u hdead := by
    rcases eq_or_ne u t with rfl | hne
    · exact Function.update_self ..
    · exact (Function.update_of_ne hne _ _).trans
        (h.crashed u (by simpa [IndexState.crash, hne] using hdead))
  unrecorded u n cert hu := by
    rcases eq_or_ne u t with rfl | hne
    · simp [IndexState.crash] at hu
    · exact h.unrecorded u n cert ((Function.update_of_ne hne _ _).symm.trans hu)
  described n := by
    rcases h.described n with hmatch | ⟨u, cert, hu⟩
    · exact .inl hmatch
    · rcases eq_or_ne u t with rfl | hne
      · exact .inl (h.matches_of_no_row hu (hrow n cert hu))
      · exact .inr ⟨u, cert, (Function.update_of_ne hne _ _).trans hu⟩
  certs_valid := h.certs_valid
  requests_valid := h.requests_valid

theorem owner_setOwner {store : State} {o : Option Tid} {m : Text} (hne : m ≠ n) :
    (store.setOwner (.subject n) o).owner (.subject m) = store.owner (.subject m) :=
  Function.update_of_ne (by simpa using hne) _ _

/-- **The lock of a subject is taken.** -/
theorem locked (h : IndexInv s q) (hvalid : validateSubject n = true)
    (hfree : s.store.owner (.subject n) = none) :
    IndexInv { s with store := s.store.setOwner (.subject n) (some t) }
      (Function.update q t { q t with subjects := n :: (q t).subjects }) := by
  refine h.step rfl (h.crashed t) (h.opened t) (fun _ _ => rfl) (fun m hm => ?_)
    (fun u m _ hu => ?_) (fun m cert ht => ?_) (fun _ _ _ _ _ _ hblob => hblob)
    (fun _ hn => hn) (fun _ => h.certs_or_requests)
  · rcases eq_or_ne m n with rfl | hne
    · exact ⟨hvalid, fun _ => Function.update_self ..⟩
    · have hm := (List.mem_cons.mp hm).resolve_left hne
      exact ⟨h.valid t m hm, fun halive => (owner_setOwner hne).trans (h.held t m halive hm)⟩
  · have hne : m ≠ n := by
      rintro rfl
      rw [hfree] at hu
      cases hu
    exact (owner_setOwner hne).trans hu
  · obtain ⟨hm, hparsed⟩ := h.unrecorded t m cert ht
    exact ⟨List.mem_cons_of_mem _ hm, hparsed⟩

/-- **A thread gives up a certificate** of a subject without a row. -/
theorem released (h : IndexInv s q)
    (hrow : ∀ n cert, s.unrecorded t = some (n, cert) → latestRow s.rows n = none) :
    IndexInv (s.setUnrecorded t none) (Function.update q t { q t with opened := none }) := by
  have hself : Function.update s.unrecorded t none t = none := Function.update_self ..
  refine h.step rfl (fun _ => hself) (fun _ => hself.symm)
    (fun u hne => Function.update_of_ne hne _ _) h.subjects (fun _ _ _ hu => hu)
    (fun m cert hm => ?_) (fun _ _ _ _ _ _ hblob => hblob) (fun m hm => .inl ?_)
    (fun _ => h.certs_or_requests)
  · cases hself.symm.trans hm
  · rcases hm with hm | ⟨cert, ht⟩
    · exact hm
    · exact h.matches_of_no_row ht (hrow m cert ht)

/-- **The lock of a subject is released**, by a thread that is not at the subject. -/
theorem unlocked (h : IndexInv s q) (halive : s.crashed t = false) (hn : n ∈ (q t).subjects)
    (hfar : ∀ p, (q t).opened = some p → p.1 ≠ n) :
    IndexInv { s with store := s.store.setOwner (.subject n) none }
      (Function.update q t { q t with subjects := (q t).subjects.filter fun m => m ≠ n }) := by
  refine h.step rfl (h.crashed t) (h.opened t) (fun _ _ => rfl) (fun m hm => ?_)
    (fun u m hne hu => ?_) (fun m cert ht => ?_) (fun _ _ _ _ _ _ hblob => hblob)
    (fun _ hn => hn) (fun _ => h.certs_or_requests)
  · obtain ⟨hm, hne⟩ := List.mem_filter.mp hm
    exact ⟨h.valid t m hm, fun halive =>
      (owner_setOwner (of_decide_eq_true hne)).trans (h.held t m halive hm)⟩
  · have hmn : m ≠ n := by
      rintro rfl
      rw [h.held t m halive hn] at hu
      exact hne (Option.some.inj hu).symm
    exact (owner_setOwner hmn).trans hu
  · obtain ⟨hm, hparsed⟩ := h.unrecorded t m cert ht
    have hne : m ≠ n := hfar (m, cert) ((h.opened t halive).trans ht)
    exact ⟨List.mem_filter.mpr ⟨hm, decide_eq_true hne⟩, hparsed⟩

/-- **A certificate is stored.** -/
theorem saved (h : IndexInv s q) {blob : CertBlob} {cert : Certificate}
    (halive : s.crashed t = false) (hn : n ∈ (q t).subjects) (hnone : (q t).opened = none)
    (hparsed : blob.parsed = some cert) :
    IndexInv (({ s with store := { s.store with
        certs := Function.update s.store.certs n (some blob) } } : IndexState).setUnrecorded t
          (some (n, cert)))
      (Function.update q t { q t with opened := some (n, cert) }) := by
  refine h.step rfl (fun hdead => ?_) (fun _ => (Function.update_self t _ s.unrecorded).symm)
    (fun u hne => Function.update_of_ne hne _ _) h.subjects (fun _ _ _ hu => hu)
    (fun m cert' ht => ?_) (fun u m cert' blob' hne hu hblob => ?_) (fun m hm => ?_)
    (fun m hm => ?_)
  · exact absurd (halive.symm.trans hdead) Bool.false_ne_true
  · obtain ⟨rfl, rfl⟩ := Prod.mk.inj
      (Option.some.inj ((Function.update_self t _ s.unrecorded).symm.trans ht))
    refine ⟨hn, fun blob' hblob => ?_⟩
    obtain rfl := Option.some.inj ((Function.update_self n _ s.store.certs).symm.trans hblob)
    exact hparsed
  · have hmn : m ≠ n := by
      rintro rfl
      exact hne (h.alone halive hn hu)
    exact (Function.update_of_ne hmn _ _).symm.trans hblob
  · rcases eq_or_ne m n with rfl | hmn
    · exact .inr ⟨cert, Function.update_self ..⟩
    · refine .inl (hm.elim (IndexState.matches_congr (Function.update_of_ne hmn _ _) rfl) ?_)
      rintro ⟨cert', ht⟩
      rw [← h.opened t halive, hnone] at ht
      cases ht
  · rcases eq_or_ne m n with rfl | hmn
    · exact h.valid t m hn
    · refine h.certs_or_requests (hm.imp (fun hm => ?_) id)
      exact fun hnone => hm ((Function.update_of_ne hmn _ _).trans hnone)

/-- **The line of a certificate is written**, and the thread may be told so or not. -/
theorem appended (h : IndexInv s q) {cert : Certificate} (ht : s.unrecorded t = some (n, cert))
    (told : Bool) (inventory : List InventoryEntry) :
    IndexInv (({ s with
        store := { s.store with inventory }
        rows := s.rows ++ [{ entry := inventoryEntryFor n cert, projected := some cert }] } :
          IndexState).setUnrecorded t (if told then none else some (n, cert)))
      (Function.update q t { q t with opened := if told then none else some (n, cert) }) := by
  have hself := Function.update_self t (if told then none else some (n, cert)) s.unrecorded
  refine h.step rfl (fun hdead => ?_) (fun _ => hself.symm)
    (fun u hne => Function.update_of_ne hne _ _) h.subjects (fun _ _ _ hu => hu)
    (fun m cert' hm => ?_) (fun _ _ _ _ _ _ hblob => hblob) (fun m hm => ?_)
    (fun _ => h.certs_or_requests)
  · rw [h.crashed t hdead] at ht
    cases ht
  · have hm : (if told then none else some (n, cert)) = some (m, cert') := hself.symm.trans hm
    refine h.unrecorded t m cert' ?_
    cases told with
    | true => cases hm
    | false => exact ht.trans hm
  · rcases eq_or_ne m n with rfl | hmn
    · cases told with
      | false => exact .inr ⟨cert, hself⟩
      | true =>
        refine .inl fun blob hblob => ⟨cert, (h.unrecorded t m cert ht).2 blob hblob, ?_⟩
        intro row' hrow'
        obtain rfl := Option.some.inj ((latestRow_append_self rfl).symm.trans hrow')
        exact .inr ⟨rfl, rfl⟩
    · refine .inl (hm.elim (IndexState.matches_congr rfl
        (latestRow_append_of_ne (show (inventoryEntryFor n cert).subject ≠ m from hmn.symm))) ?_)
      rintro ⟨cert', hm⟩
      rw [ht] at hm
      exact absurd (Prod.mk.inj (Option.some.inj hm)).1.symm hmn

/-- **The certificate of a subject is deleted, or is not there.** -/
theorem deleted (h : IndexInv s q) (halive : s.crashed t = false)
    (hat : ∀ p, (q t).opened = some p → p.1 = n)
    {store : State} (hstore : store = s.store ∧ s.store.certs n = none ∨
      store = { s.store with certs := Function.update s.store.certs n none }) :
    IndexInv (({ s with store } : IndexState).setUnrecorded t none)
      (Function.update q t { q t with opened := none }) := by
  have hself : Function.update s.unrecorded t none t = none := Function.update_self ..
  have hcerts : ∀ m, store.certs m = if m = n then none else s.store.certs m := by
    intro m
    rcases hstore with ⟨rfl, hnone⟩ | rfl
    · split_ifs with hm
      · rw [hm, hnone]
      · rfl
    · exact Function.update_apply ..
  have hrequests : store.requests = s.store.requests := by rcases hstore with ⟨rfl, -⟩ | rfl <;> rfl
  have howner : store.owner = s.store.owner := by rcases hstore with ⟨rfl, -⟩ | rfl <;> rfl
  refine h.step rfl (fun _ => hself) (fun _ => hself.symm)
    (fun u hne => Function.update_of_ne hne _ _)
    (fun m hm => ?_) (fun u m _ hu => (congrFun howner _).trans hu) (fun m cert hm => ?_)
    (fun u m cert blob _ _ hblob => ?_) (fun m hm => .inl ?_) (fun m hm => ?_)
  · exact ⟨h.valid t m hm, fun halive => (congrFun howner _).trans (h.held t m halive hm)⟩
  · cases hself.symm.trans hm
  · have hblob : store.certs m = some blob := hblob
    rw [hcerts m] at hblob
    split_ifs at hblob
    exact hblob
  · rcases eq_or_ne m n with rfl | hmn
    · exact IndexState.matches_of_absent ((hcerts m).trans (if_pos rfl))
    · refine hm.elim (IndexState.matches_congr ((hcerts m).trans (if_neg hmn)) rfl) ?_
      rintro ⟨cert, ht⟩
      exact absurd (hat (m, cert) ((h.opened t halive).trans ht)) hmn
  · refine h.certs_or_requests (hm.imp (fun hm hnone => hm ?_) (fun hm => hrequests ▸ hm))
    show store.certs m = none
    rw [hcerts m, hnone, ite_self]

theorem pruned (h : IndexInv s q) {keep : InventoryEntry → Bool} {ch : Choice}
    (hwhole : s.PrunesWhole keep ch) {inventory : List InventoryEntry} {pruneLog : List ℤ} :
    IndexInv { s with
        store := { s.store with inventory, pruneLog }
        rows := s.keptRows keep ch }
      (Function.update q t (q t)) := by
  refine h.step rfl (h.crashed t) (h.opened t) (fun _ _ => rfl) h.subjects (fun _ _ _ hu => hu)
    (h.unrecorded t) (fun _ _ _ _ _ _ hblob => hblob) (fun m hm => hm.imp (fun hm => ?_) id)
    (fun _ => h.certs_or_requests)
  intro blob hblob
  obtain ⟨cert, hparsed, hrow⟩ := hm blob hblob
  refine ⟨cert, hparsed, fun row hlatest => hrow row (hwhole m ?_ row hlatest)⟩
  rw [show s.store.certs m = some blob from hblob]
  exact Option.some_ne_none _

end IndexInv

/-! ### Runs -/

section Runs

variable {caCert : Certificate} {s : IndexState} {q : Tid → Storing} {t : Tid} {c : Cmd}

/-- The commands that neither the index nor the protocol takes notice of. -/
def Cmd.Unnoticed : Cmd → Prop
  | .saveCert _ _ => False
  | .saveCSR _ _ => False
  | .deleteCert _ => False
  | .appendInventory _ => False
  | .pruneInventory _ => False
  | .lock (.subject _) => False
  | .unlock (.subject _) => False
  | _ => True

theorem Storing.next_of_unnoticed (hc : c.Unnoticed) (q : Storing) (a : c.Ans) :
    q.next c a = some q := by
  cases c with
  | lock n | unlock n => cases n <;> first | exact hc.elim | rfl
  | _ => first | exact hc.elim | rfl

theorem IndexState.after_of_unnoticed (hc : c.Unnoticed) (ch : Choice) (store : State) :
    s.after t c ch store = { s with store } := by
  cases c <;> first | exact hc.elim | rfl

/-- **They leave the certificates and the locks of subjects alone**, and store no request. -/
theorem effect_unnoticed {store store' : State} (h : Effect t store c store') (hc : c.Unnoticed) :
    store'.certs = store.certs ∧
      (∀ n, store'.requests n ≠ none → store.requests n ≠ none) ∧
      ∀ n, store'.owner (.subject n) = store.owner (.subject n) := by
  have howner : ∀ {m o}, (Cmd.lock m).Unnoticed → ∀ n,
      (store.setOwner m o).owner (.subject n) = store.owner (.subject n) := by
    intro m o hm n
    refine Function.update_of_ne ?_ _ _
    rintro rfl
    exact hm
  cases h with
  | lock hfree => exact ⟨rfl, fun _ hn => hn, howner hc⟩
  | @unlock m =>
    refine ⟨rfl, fun _ hn => hn, howner ?_⟩
    cases m <;> first | exact hc.elim | trivial
  | @deleteCSR m =>
    refine ⟨rfl, fun n hn => ?_, fun _ => rfl⟩
    rcases eq_or_ne n m with rfl | hne
    · exact absurd (Function.update_self ..) hn
    · exact fun hnone => hn ((Function.update_of_ne hne _ _).trans hnone)
  | saveCert | saveCSR | deleteCert | appendInventory | pruneInventory => exact hc.elim
  | _ => exact ⟨rfl, fun _ hn => hn, fun _ => rfl⟩

theorem Storing.next_deadAnswer (q : Storing) (c : Cmd) :
    ∃ q', q.next c (deadAnswer c) = some q' ∧ q'.subjects ⊆ q.subjects := by
  have hsame : ∃ q', some q = some q' ∧ q'.subjects ⊆ q.subjects := ⟨q, rfl, fun _ hn => hn⟩
  cases c with
  | unlock n =>
    cases n with
    | subject n => exact ⟨_, rfl, List.filter_subset_self _⟩
    | _ => exact hsame
  | lock n => cases n <;> exact hsame
  | deleteCert n => exact ⟨_, rfl, fun _ hn => hn⟩
  | _ => exact hsame

/-- **One command of a thread that has not stopped.** -/
theorem IndexInv.exec {ch : Choice} {a : c.Ans} {store : State} (h : IndexInv s q)
    (halive : s.crashed t = false) (hallows : (q t).Allows c)
    (hdelete : ∀ n cert, s.unrecorded t = some (n, cert) → latestRow s.rows n ≠ none →
      ∀ m, c = .deleteCert m → ch.fails = false)
    (hprune : ∀ keep, c = .pruneInventory keep → s.PrunesWhole keep ch)
    (hex : exec t s.store c ch = some (a, store)) :
    ∃ q', (q t).next c a = some q' ∧
      IndexInv (s.after t c ch store) (Function.update q t q') := by
  have hplain : c.Unnoticed → ∃ q', (q t).next c a = some q' ∧
      IndexInv (s.after t c ch store) (Function.update q t q') := by
    intro hc
    obtain ⟨hcerts, hrequests, howner⟩ := effect_unnoticed (exec_effect hex) hc
    refine ⟨q t, Storing.next_of_unnoticed hc _ a, ?_⟩
    rw [IndexState.after_of_unnoticed hc]
    exact h.frame hcerts (fun n hn => .inl (hrequests n hn)) howner
  -- the command fails, or finds that its work is done
  have hnothing : IndexInv s (Function.update q t (q t)) := by
    rw [Function.update_eq_self]
    exact h
  cases c with
  | lock n =>
    cases n with
    | subject n =>
      simp only [Ca.exec] at hex
      split_ifs at hex with hfails hfree
      · cases hex
        exact ⟨q t, rfl, hnothing⟩
      · cases hex
        exact ⟨_, rfl, h.locked hallows hfree⟩
    | _ => exact hplain trivial
  | unlock n =>
    cases n with
    | subject n =>
      cases hex
      exact ⟨_, rfl, h.unlocked halive hallows.1 hallows.2⟩
    | _ => exact hplain trivial
  | saveCert n blob =>
    obtain ⟨hn, hnone, hparsed⟩ := hallows
    obtain ⟨cert, hcert⟩ := Option.isSome_iff_exists.mp hparsed
    simp only [Ca.exec, writeOutcome] at hex
    split_ifs at hex with hfails
    · cases hex
      refine ⟨q t, rfl, ?_⟩
      simpa [IndexState.after, hfails] using hnothing
    · cases hex
      refine ⟨{ q t with opened := some (n, cert) }, by simp [Storing.next, hcert], ?_⟩
      have hsaved := h.saved halive hn hnone hcert
      simpa [IndexState.after, hfails, hcert] using hsaved
  | saveCSR n blob =>
    simp only [Ca.exec, writeOutcome] at hex
    split_ifs at hex
    · cases hex
      exact ⟨q t, rfl, hnothing⟩
    · cases hex
      refine ⟨q t, rfl, h.frame rfl (fun m hm => ?_) fun _ => rfl⟩
      rcases eq_or_ne m n with rfl | hne
      · exact .inr (h.valid t m hallows)
      · exact .inl fun hnone => hm ((Function.update_of_ne hne _ _).trans hnone)
  | deleteCert n =>
    simp only [Ca.exec, deleteOutcome] at hex
    split_ifs at hex with hfails
    · cases hex
      refine ⟨_, rfl, h.released fun m cert ht => ?_⟩
      by_contra hrow
      exact absurd hfails (by simp [hdelete m cert ht hrow n rfl])
    · cases hstored : s.store.certs n with
      | some blob =>
        rw [hstored] at hex
        cases hex
        exact ⟨_, rfl, h.deleted halive hallows (.inr rfl)⟩
      | none =>
        rw [hstored] at hex
        cases hex
        exact ⟨_, rfl, h.deleted halive hallows (.inl ⟨rfl, hstored⟩)⟩
  | appendInventory e =>
    obtain ⟨n, cert, hopened, rfl⟩ := hallows
    have ht : s.unrecorded t = some (n, cert) := (h.opened t halive).symm.trans hopened
    simp only [Ca.exec] at hex
    split_ifs at hex with hknown hfails hlate
    · cases hex
      refine ⟨q t, rfl, ?_⟩
      simpa [IndexState.after] using hnothing
    · cases hex
      refine ⟨{ q t with opened := some (n, cert) }, by rw [← hopened]; rfl, ?_⟩
      have happended := h.appended ht false (s.store.inventory ++ [inventoryEntryFor n cert])
      rw [IndexState.setUnrecorded_self (by simpa using ht)] at happended
      simpa [IndexState.after, hfails, hlate, ht] using happended
    · cases hex
      refine ⟨q t, rfl, ?_⟩
      simpa [IndexState.after] using hnothing
    · cases hex
      refine ⟨{ q t with opened := none }, rfl, ?_⟩
      have happended := h.appended ht true (s.store.inventory ++ [inventoryEntryFor n cert])
      simpa [IndexState.after, hfails, ht] using happended
  | pruneInventory keep =>
    cases hex
    exact ⟨q t, rfl, h.pruned (hprune keep rfl)⟩
  | _ => exact hplain trivial

/-- **One command of any thread**, in a careful step. -/
theorem IndexInv.execIndexed {ch : IndexChoice} {a : c.Ans} (h : IndexInv s q)
    (hallows : (q t).Allows c)
    (hcareful : ∀ n cert, s.unrecorded t = some (n, cert) → latestRow s.rows n ≠ none →
      ch.crash = false ∧ ∀ m, c = .deleteCert m → ch.fails = false)
    (hprune : ∀ keep, c = .pruneInventory keep → s.PrunesWhole keep ch.toChoice)
    (hex : execIndexed t s c ch = some (a, s')) :
    ∃ q', (q t).next c a = some q' ∧ IndexInv s' (Function.update q t q') := by
  simp only [Ca.execIndexed] at hex
  split_ifs at hex with hdead hcrash
  · cases hex
    obtain ⟨q', hq', hsub⟩ := (q t).next_deadAnswer c
    exact ⟨q', hq', h.dead hdead hsub⟩
  · cases hex
    have hrow : ∀ n cert, s.unrecorded t = some (n, cert) → latestRow s.rows n = none := by
      intro n cert ht
      by_contra hrow
      exact absurd hcrash (by simp [(hcareful n cert ht hrow).1])
    obtain ⟨q', hq', hsub⟩ := (q t).next_deadAnswer c
    exact ⟨q', hq', (h.crash hrow).dead (Function.update_self ..) hsub⟩
  · obtain ⟨⟨a', store⟩, hexec, heq⟩ := Option.map_eq_some_iff.mp hex
    cases heq
    exact h.exec (Bool.eq_false_of_not_eq_true hdead) hallows
      (fun n cert ht hrow => (hcareful n cert ht hrow).2) hprune hexec

/-! #### Finitely many objects -/

/-- Only finitely many subjects have a certificate or a request. -/
def IndexState.FinitelyMany (s : IndexState) : Prop :=
  {n | s.store.certs n ≠ none}.Finite ∧ {n | s.store.requests n ≠ none}.Finite

/-- Setting one value leaves finitely many set. -/
theorem finite_update {α : Type} {f : Text → Option α} (h : {n | f n ≠ none}.Finite) (n : Text)
    (o : Option α) : {m | Function.update f n o m ≠ none}.Finite := by
  refine (h.insert n).subset fun m hm => ?_
  rcases eq_or_ne m n with rfl | hne
  · exact Set.mem_insert _ _
  · exact Set.mem_insert_of_mem _ fun hnone => hm ((Function.update_of_ne hne _ _).trans hnone)

theorem IndexState.store_after (ch : Choice) (store : State) :
    (s.after t c ch store).store = store := by
  cases c <;> first | rfl | (simp only [after]; split_ifs <;> rfl)

theorem IndexState.FinitelyMany.exec {ch : IndexChoice} {a : c.Ans} (h : s.FinitelyMany)
    (hex : Ca.execIndexed t s c ch = some (a, s')) : s'.FinitelyMany := by
  simp only [Ca.execIndexed] at hex
  split_ifs at hex with hdead hcrash
  · cases hex
    exact h
  · cases hex
    exact h
  · obtain ⟨⟨a', store⟩, hexec, heq⟩ := Option.map_eq_some_iff.mp hex
    cases heq
    unfold IndexState.FinitelyMany
    rw [IndexState.store_after]
    cases exec_effect hexec with
    | saveCert | deleteCert => exact ⟨finite_update h.1 _ _, h.2⟩
    | saveCSR | deleteCSR => exact ⟨h.1, finite_update h.2 _ _⟩
    | _ => exact h

/-- **A cluster at rest**: every thread is between two jobs, or has stopped. -/
def AtRest (p : IndexCluster caCert) : Prop :=
  ∀ t, p.thread t = .idle ∨ p.shared.crashed t = true

/-- **The newest rows stay those of the stored certificates**: in every run of careful steps, whose
passes over managed certificates put nothing back, an index that is in order is in order again
whenever the cluster is at rest. -/
theorem orderly_of_run {ls : List (IndexEvent caCert)} {p : IndexCluster caCert} (hs : s.Orderly)
    (hcareful : (Pool.initial s).Throughout CarefulStep ls)
    (hjobs : ∀ t j, .start t j ∈ ls → IndexJob.Keeps caCert j)
    (hrun : (Pool.initial s).run ls = some p) (hrest : AtRest p) : p.shared.Orderly := by
  have hinit : IndexInv s fun _ => {} :=
    { valid := nofun
      held := nofun
      opened := fun t _ => (hs.unrecorded t).symm
      crashed := fun t _ => hs.unrecorded t
      unrecorded := fun t n cert ht => by
        rw [hs.unrecorded t] at ht
        cases ht
      described := fun n => .inl (hs.described n)
      certs_valid := hs.certs_valid
      requests_valid := hs.requests_valid }
  have hstart : ∀ t, ((Pool.initial s : IndexCluster caCert).thread t).At storing {} {} :=
    fun t => rfl
  obtain ⟨q, hinv, hat⟩ := Pool.follows_run (fun t j => stays_job)
    (fun hthread hstep hex hinv hallows =>
      hinv.execIndexed hallows (hstep _ _ _ hthread).1 (hstep _ _ _ hthread).2 hex)
    hinit hstart hcareful hjobs hrun
  have hnone : ∀ t, p.shared.unrecorded t = none := by
    intro t
    rcases hdead : p.shared.crashed t
    · have ht := hat t
      rw [(hrest t).resolve_right (by simp [hdead])] at ht
      rw [← hinv.opened t hdead, show q t = {} from ht]
    · exact hinv.crashed t hdead
  refine ⟨hnone, fun n => ?_, hinv.certs_valid, hinv.requests_valid⟩
  refine (hinv.described n).resolve_right ?_
  rintro ⟨t, cert, ht⟩
  rw [hnone t] at ht
  cases ht

end Runs

end OpenvoxCa.Ca
