import OpenvoxCa.Ca.Serving
import OpenvoxCa.Ca.Locks

/-!
# What the CRL lock protects

Seven operations rewrite the stored CRL chain and three the list of superseded certificates. This
file says what any of them may do to either, and when: `crlDiscipline` asks that the chain and the
list are written only by the holder of the cluster's CRL lock, and only if the write is an
*amendment* of what is stored at that moment.

* A chain amends the stored one (`Amends`) if it is led by a list of
  ours that succeeds the stored own CRL in number, drops no serial but those this
  very hold of the lock has pruned from the inventory, repeats none, and is the only
  list of ours in the chain.
* What amends the list depends on who writes it (`ListDuty`): a
  recording appends, a revocation by subject disposes of that subject's entries, a
  sweep of those that are due.

The rest of the file is what every proof about these operations uses: what the holder of the lock
knows stays true while it holds it (`Holding.stable`), and what a step that does its duty conserves
(`UntilPruned.amending`).
-/

namespace OpenvoxCa.Ca

open Conc

/-! ### Listed and pending serials -/

/-- The serials on the stored own CRL of a blob. -/
def listedIn (cert : Certificate) (blob : Option Blob) : List ℤ :=
  ((blob.bind (storedOwn cert)).map RevocationList.serials).getD []

/-- **The serials on the stored own CRL.** -/
def State.listed (s : State) (cert : Certificate) : List ℤ := listedIn cert s.crl

/-- The entries of a stored list of superseded certificates. -/
def entriesOf (blob : Option SupersededBlob) : List SupersededEntry :=
  (blob.map SupersededBlob.entries).getD []

/-- **The entries on the stored list of superseded certificates.** -/
def State.pending (s : State) : List SupersededEntry := entriesOf s.superseded

/-- Some entry bears the serial `n`. -/
def Bears (entries : List SupersededEntry) (n : ℤ) : Prop := ∃ e ∈ entries, dueNumber e = some n

variable {cert : Certificate}

theorem listedIn_of_storedOwn {blob : Blob} {own : RevocationList}
    (h : storedOwn cert blob = some own) : listedIn cert (some blob) = own.serials := by
  simp [listedIn, h]

variable {n : ℤ}

/-- The number of an entry is the one its canonical text says. -/
theorem dueNumber_eq_some {e : SupersededEntry} :
    dueNumber e = some n ↔ normaliseSerial e.serial = some (serialHexStr n) := by
  unfold dueNumber
  constructor
  · intro h
    obtain ⟨c, hc, hn⟩ := Option.bind_eq_some_iff.mp h
    obtain ⟨m, -, rfl⟩ := exists_of_normaliseSerial hc
    rw [setString16_serialHexStr] at hn
    rw [hc, Option.some.inj hn]
  · intro h
    rw [h, Option.bind_some, setString16_serialHexStr]

/-- An entry has no number exactly when `NormaliseSerial` rejects its serial. -/
theorem dueNumber_eq_none {e : SupersededEntry} :
    dueNumber e = none ↔ normaliseSerial e.serial = none := by
  unfold dueNumber
  cases h : normaliseSerial e.serial with
  | none => simp
  | some c =>
    obtain ⟨m, -, rfl⟩ := exists_of_normaliseSerial h
    simp

/-! ### Amendments of the chain -/

/-- **`b` amends the stored chain**, given the serials pruned in this hold of the
lock. -/
def Amends (cert : Certificate) (pruned : List ℤ) (old : Option Blob) (b : Blob) : Prop :=
  ∃ blob own crl ancestors, old = some blob ∧ storedOwn cert blob = some own ∧
    b = encodeCRLChain (crl :: ancestors) ∧ crlSignedBy cert crl = true ∧
    (∀ c ∈ ancestors, crlSignedBy cert c = false) ∧ crl.number = some (nextNumber own) ∧
    (∀ n ∈ own.serials, n ∈ crl.serials ∨ n ∈ pruned) ∧
    (own.serials.Nodup → crl.serials.Nodup)

namespace Amends

variable {cert : Certificate} {pruned : List ℤ} {old : Option Blob} {b : Blob}

/-- An amendment loses no serial but the pruned ones. -/
theorem mem_listedIn (h : Amends cert pruned old b) (hn : n ∈ listedIn cert old) :
    n ∈ listedIn cert (some b) ∨ n ∈ pruned := by
  obtain ⟨blob, own, crl, anc, rfl, hown, rfl, hcrl, hanc, -, hkeep, -⟩ := h
  rw [listedIn_of_storedOwn hown] at hn
  rw [listedIn_of_storedOwn (storedOwn_encode hcrl hanc)]
  exact hkeep n hn

/-- **The number of an amendment exceeds every own number of the chain it replaces.** -/
theorem number_lt (h : Amends cert pruned old b) :
    ∃ blob crl k, old = some blob ∧ storedOwn cert b = some crl ∧ crl.number = some k ∧
      ∀ c ∈ candidates blob, crlSignedBy cert c = true → ∀ m, c.number = some m → m < k := by
  obtain ⟨blob, own, crl, anc, rfl, hown, rfl, hcrl, hanc, hnum, -, -⟩ := h
  refine ⟨blob, crl, _, rfl, storedOwn_encode hcrl hanc, hnum, ?_⟩
  intro c hc hcown m hm
  have hle : rank c ≤ rank own := rank_le_ownCRLIn hown hc hcown
  unfold rank at hle
  rw [hm, Prod.Lex.toLex_le_toLex] at hle
  unfold nextNumber
  -- A numbered list is never older than a numberless one, so `own` has a number too.
  cases hnumber : own.number with
  | none =>
    simp only [hnumber, Option.isSome_some, Option.isSome_none] at hle
    exact absurd hle (by simp)
  | some n =>
    simp only [hnumber, Option.isSome_some, Option.getD_some, lt_irrefl, true_and, false_or] at hle
    exact Int.lt_add_one_of_le hle

theorem nodup (h : Amends cert pruned old b) (hn : (listedIn cert old).Nodup) :
    (listedIn cert (some b)).Nodup := by
  obtain ⟨blob, own, crl, anc, rfl, hown, rfl, hcrl, hanc, -, -, hnodup⟩ := h
  rw [listedIn_of_storedOwn hown] at hn
  rw [listedIn_of_storedOwn (storedOwn_encode hcrl hanc)]
  exact hnodup hn

end Amends

/-! ### Amendments of the list -/

/-- What a sweep makes of the list: it leaves the entries alone that are not yet due by what the
clock said when it was read under the lock, and disposes of every due entry in exactly one of three
ways. Of an empty list it makes an empty list, and need not have read the clock. -/
def Sweeps (cert : Certificate) (s : State) (entries : List SupersededEntry) : Prop :=
  ∃ (now : Time) (revoked failed discarded : List SupersededEntry),
    (s.pending = [] ∨ s.holdClock = some now) ∧
    (s.pending.filter fun e => ¬now < e.revokeAt).Perm (revoked ++ failed ++ discarded) ∧
    entries = (s.pending.filter fun e => now < e.revokeAt) ++ failed ∧
    (∀ e ∈ revoked, ∃ n ∈ s.listed cert, dueNumber e = some n) ∧
    ∀ e ∈ discarded, normaliseSerial e.serial = none ∧ ¬IsHexNumber e.serial

/-- What a revocation by subject makes of the list: it leaves the entries of other
subjects alone, and keeps those of its own that it did not get onto the CRL. -/
def Retires (cert : Certificate) (subject : Text) (s : State) (entries : List SupersededEntry) :
    Prop :=
  ∃ revoked failed : List SupersededEntry,
    (s.pending.filter fun e => e.subject = subject).Perm (revoked ++ failed) ∧
    entries = (s.pending.filter fun e => e.subject ≠ subject) ++ failed ∧
    ∀ e ∈ revoked, ∃ n ∈ s.listed cert, setString16 e.serial = some n

/-- What a recording makes of the list: it appends the serial in its canonical form, due `after`
what the clock said when the thread last read it. -/
def Records (t : Tid) (subject serial : Text) (after : Duration) (s : State)
    (entries : List SupersededEntry) : Prop :=
  ∃ canonical, normaliseSerial serial = some canonical ∧ entries = s.pending ++
    [{ serial := canonical, subject := subject, revokeAt := s.clock t + after }]

/-- **What an operation of thread `t` may make of the list of superseded certificates.** -/
def ListDuty (cert : Certificate) (t : Tid) (op : Op) (s : State)
    (entries : List SupersededEntry) : Prop :=
  match op with
  | .reconcileSuperseded => Sweeps cert s entries
  | .revoke subject => Retires cert subject s entries
  | .clean subject => Retires cert subject s entries
  | .recordSuperseded subject serial after => Records t subject serial after s entries
  | .renew subject _ _ => ∃ serial after, Records t subject serial after s entries
  | .autoRenew presented => ∃ leaf ∈ presented, ∃ serial after,
      Records t leaf.subject.commonName serial after s entries
  | _ => False

variable {entries : List SupersededEntry}

theorem Sweeps.bears {s : State} (h : Sweeps cert s entries) (hn : Bears s.pending n) :
    Bears entries n ∨ n ∈ s.listed cert := by
  obtain ⟨now, revoked, failed, discarded, -, hperm, rfl, hrev, hdis⟩ := h
  obtain ⟨e, he, hen⟩ := hn
  by_cases hdue : now < e.revokeAt
  · exact Or.inl ⟨e, List.mem_append_left _ (List.mem_filter.mpr ⟨he, by simpa using hdue⟩), hen⟩
  · have hmem := hperm.subset (List.mem_filter.mpr ⟨he, by simpa using hdue⟩)
    rcases List.mem_append.mp hmem with hmem | hmem
    · rcases List.mem_append.mp hmem with hmem | hmem
      · obtain ⟨m, hm, hem⟩ := hrev e hmem
        rw [hem] at hen
        exact Or.inr (Option.some.inj hen ▸ hm)
      · exact Or.inl ⟨e, List.mem_append_right _ hmem, hen⟩
    · rw [dueNumber_eq_none.mpr (hdis e hmem).1] at hen
      cases hen

theorem Retires.bears {subject : Text} {s : State} (h : Retires cert subject s entries)
    (hn : Bears s.pending n) : Bears entries n ∨ n ∈ s.listed cert := by
  obtain ⟨revoked, failed, hperm, rfl, hrev⟩ := h
  obtain ⟨e, he, hen⟩ := hn
  by_cases hsub : e.subject = subject
  · have hmem := hperm.subset (List.mem_filter.mpr ⟨he, by simpa using hsub⟩)
    rcases List.mem_append.mp hmem with hmem | hmem
    · obtain ⟨m, hm, hem⟩ := hrev e hmem
      exact Or.inr (serial_unique hem (dueNumber_eq_some.mp hen) ▸ hm)
    · exact Or.inl ⟨e, List.mem_append_right _ hmem, hen⟩
  · exact Or.inl ⟨e, List.mem_append_left _ (List.mem_filter.mpr ⟨he, by simpa using hsub⟩), hen⟩

/-- **A serial leaves the list only for the CRL.** -/
theorem ListDuty.bears {t : Tid} {op : Op} {s : State} (h : ListDuty cert t op s entries)
    (hn : Bears s.pending n) : Bears entries n ∨ n ∈ s.listed cert := by
  have hrec : ∀ {subject serial after}, Records t subject serial after s entries →
      Bears entries n ∨ n ∈ s.listed cert := by
    rintro subject serial after ⟨canonical, -, rfl⟩
    obtain ⟨e', he', hn'⟩ := hn
    exact Or.inl ⟨e', List.mem_append_left _ he', hn'⟩
  cases op with
  | reconcileSuperseded => exact Sweeps.bears h hn
  | revoke | clean => exact Retires.bears h hn
  | recordSuperseded _ _ _ => exact hrec h
  | renew _ _ _ =>
    obtain ⟨serial, after, h⟩ := h
    exact hrec h
  | autoRenew _ =>
    obtain ⟨leaf, -, serial, after, h⟩ := h
    exact hrec h
  | _ => exact h.elim

/-! ### The discipline -/

/-- What of the pruned serials an operation may take off the CRL: a cleanup all of them, any other
operation none. -/
def Op.drops (pruned : List ℤ) : Op → List ℤ
  | .cleanupExpiredCerts _ => pruned
  | _ => []

theorem Op.drops_subset (pruned : List ℤ) (op : Op) : op.drops pruned ⊆ pruned := by
  cases op with
  | cleanupExpiredCerts retain => exact List.Subset.refl _
  | _ => exact List.nil_subset _

/-- What an operation of a serving CA may make of the chain and of the list. -/
def crlAllowed (cert : Certificate) (t : Tid) (j : Job) : Cmd → State → Prop
  | .unlock n, s => s.owner n = some t
  | .updateCRL b, s => s.owner .crl = some t ∧ Amends cert (j.op.drops s.holdPruned) s.crl b
  | .saveSuperseded blob, s => s.owner .crl = some t ∧ ListDuty cert t j.op s blob.entries
  | .pruneInventory _, s => s.owner .crl = some t
  | _, _ => True

theorem lockAllowed_of_crlAllowed {t : Tid} {j : Job} {c : Cmd} {s : State}
    (h : crlAllowed cert t j c s) : lockAllowed t c s := by
  cases c with
  | unlock n => exact h
  | updateCRL | saveSuperseded => exact h.1
  | pruneInventory keep => exact h
  | _ => trivial

/-- **The discipline of the CRL lock**: all that is assumed of the others is that they
respect the locks; what is shown of an operation is that it amends. -/
def crlDiscipline (cert : Certificate) : Discipline machine Job where
  Inv := HistoryOk
  Allowed := fun t _ => lockAllowed t
  Duty := crlAllowed cert
  inv_exec := fun hinv _ hex => hinv.effect (exec_effect hex)

/-- The pass over the operator's file that a thread's write of the chain rests on: the latest, if
a file is configured. -/
def CA.statement (ca : CA) (t : Tid) (s : State) : Option Pass :=
  if ca.crlChainFile then (s.passes t).head? else none

/-- **What a rewritten chain carries of the ancestors' lists**: those stored, unless the file
states which. -/
def Carries (cert : Certificate) (blob : Blob) (ancestors : List RevocationList) :
    Option Pass → Prop
  | none => publishedUpstream cert blob = some ancestors
  | some pass =>
    match pass.file with
    | .absent => publishedUpstream cert blob = some ancestors
    | .fault => False
    | .data file => ∃ parsed issuers, decodeCRLChainStrict file = .ok parsed ∧
        pass.bundle = some issuers ∧
        monotonicUpstream cert issuers blob (verifiedUpstream cert issuers parsed) = some ancestors

/-- What a write of the chain is asked with regard to the ancestors' lists. -/
def chainDuty (ca : CA) (t : Tid) : Cmd → State → Prop
  | .updateCRL b, s => ∃ blob ours ancestors, s.crl = some blob ∧
      b = encodeCRLChain (ours :: ancestors) ∧
      Carries ca.caCert blob ancestors (ca.statement t s)
  | _, _ => True

/-- **The discipline of the CRL's writers**: an operation of `ca` amends, and deals with the
ancestors' lists as the operator's file says. -/
def writerDiscipline (ca : CA) : Discipline machine Job :=
  { crlDiscipline ca.caCert with
    Duty := fun t j c s => crlAllowed ca.caCert t j c s ∧ chainDuty ca t c s }

variable {ca : CA} {cert : Certificate} {t u : Tid} {j : Job} {s s' : State}

theorem Cmd.Quiet.allowed {c : Cmd} (hq : c.Quiet) : crlAllowed cert t j c s := by
  cases c <;> first | exact hq.elim | trivial

theorem Cmd.Quiet.chainDuty {c : Cmd} (hq : c.Quiet) : Ca.chainDuty ca t c s := by
  cases c <;> first | exact hq.elim | trivial

theorem writer_lockRules : QuietRules (writerDiscipline ca) t j :=
  ⟨⟨fun h => h, fun _ h => h, ⟨trivial, trivial⟩, fun h => ⟨h, trivial⟩⟩,
    fun h => ⟨h.allowed, h.chainDuty⟩⟩

theorem Held.stable (ns : List LockName) : Stable (writerDiscipline ca) t (Held t ns) :=
  Held.stable_of_allowed (fun h => h) (fun _ h => h) ns

/-! ### What the holder of the lock knows -/

/-- What the holder of the CRL lock knows: the locks it holds, the stored chain, the
stored list, and the serials it has pruned. -/
structure Holding (t : Tid) (ns : List LockName) (b : Option Blob) (l : Option SupersededBlob)
    (pruned : List ℤ) (s : State) : Prop where
  held : Held t (.crl :: ns) s
  crl : s.crl = b
  superseded : s.superseded = l
  pruned : s.holdPruned = pruned

namespace Holding

variable {ns : List LockName} {b : Option Blob} {l : Option SupersededBlob} {pruned : List ℤ}

theorem owner (h : Holding t ns b l pruned s) : s.owner .crl = some t :=
  (h.held _).mpr List.mem_cons_self

/-- **What the holder of the CRL lock knows stays true while it holds it.** -/
theorem stable : Stable (writerDiscipline ca) t (Holding t ns b l pruned) := by
  rintro s s' hs ⟨u, hne, hmove⟩
  have hst : Stable (writerDiscipline ca) t (Held t (.crl :: ns)) := Held.stable _
  have hheld : Held t (.crl :: ns) s' := hst hs.held ⟨u, hne, hmove⟩
  obtain ⟨j, c, ch, a, -, hall, hex⟩ := hmove
  have howner := hs.owner
  -- Another thread that wrote the chain or the list, pruned, or passed the lock on
  -- would have to hold it.
  have hnot : s.owner .crl ≠ some u := by simpa [howner] using hne.symm
  have hsetOwner : ∀ m o, m ≠ LockName.crl → Held t (.crl :: ns) (s.setOwner m o) →
      Holding t ns b l pruned (s.setOwner m o) := by
    intro m o hm hh
    refine ⟨hh, hs.crl, hs.superseded, ?_⟩
    have := hs.pruned
    simpa [State.holdPruned, State.setOwner, hm] using this
  cases exec_effect hex with
  | lock hfree =>
    refine hsetOwner _ _ ?_ hheld
    rintro rfl
    rw [howner] at hfree
    cases hfree
  | unlock =>
    refine hsetOwner _ _ ?_ hheld
    rintro rfl
    exact hnot hall
  | updateCRL | saveSuperseded | pruneInventory => exact absurd hall hnot
  | _ => exact ⟨hheld, hs.crl, hs.superseded, hs.pruned⟩

end Holding

theorem aboutCRL_holding {ns : List LockName} {b : Option Blob} {l : Option SupersededBlob}
    {pruned : List ℤ} : AboutCRL (Holding t ns b l pruned) := by
  intro s s' h hs
  refine ⟨aboutCRL_held _ s s' h hs.held, h.crl.trans hs.crl, h.superseded.trans hs.superseded, ?_⟩
  rw [State.holdPruned, h.pruneLog, h.holdStart]
  exact hs.pruned

/-! #### What the clock has said -/

/-- What the clock first said under this hold of the CRL lock, if `t` holds it. -/
def Clocked (t : Tid) (time : Option Time) (s : State) : Prop :=
  s.owner .crl = some t → s.holdClock = time

/-- What is said of the holder says nothing of others. -/
theorem Clocked.setOwner {time : Option Time} {n : LockName} {o : Option Tid}
    (h : Clocked t time s) (ho : o ≠ some t) : Clocked t time (s.setOwner n o) := by
  intro howner
  rcases eq_or_ne n .crl with rfl | hn
  · simp only [State.setOwner, Function.update_self] at howner
    exact absurd howner ho
  · simp only [State.setOwner, Function.update_of_ne hn.symm, if_neg hn] at howner ⊢
    exact h howner

theorem Clocked.stable {time : Option Time} :
    Stable (writerDiscipline ca) t (Clocked t time) := by
  rintro s s' hs ⟨u, hne, j, c, ch, a, -, -, hex⟩ howner
  cases exec_effect hex with
  | lock => exact hs.setOwner (by simpa using hne) howner
  | unlock => exact hs.setOwner (by simp) howner
  | now =>
    have hother : s.owner .crl ≠ some u := by
      rw [show s.owner .crl = some t from howner]
      simpa using hne.symm
    exact (if_neg hother).trans (hs howner)
  | _ => exact hs howner

/-- The commands that take no cluster lock. -/
def Cmd.TakesNoLock : Cmd → Prop
  | .lock _ => False
  | _ => True

/-- The first thing that the clock said stays the first. -/
theorem Clocked.effect {c : Cmd} {now : Time} (h : Clocked t (some now) s) (hc : c.TakesNoLock)
    (he : Effect t s c s') : Clocked t (some now) s' := by
  intro howner
  cases he with
  | lock => exact hc.elim
  | unlock => exact h.setOwner (by simp) howner
  | now =>
    have hnow : s.holdClock = some now := h howner
    have howner : s.owner .crl = some t := howner
    simp [State.noteTime, howner, hnow]
  | _ => exact h howner

/-- What the clock last said to a thread. -/
theorem clock_stable {now : Time} : Stable (writerDiscipline ca) t fun s => s.clock t = now := by
  rintro s s' hs ⟨u, hne, j, c, ch, a, -, -, hex⟩
  cases exec_effect hex with
  | now => exact (Function.update_of_ne hne.symm _ _).trans hs
  | _ => exact hs

/-! ### What an amending step conserves -/

/-- One step of thread `u` that does its duty. -/
def Amending (cert : Certificate) (u : Tid) (s s' : State) : Prop :=
  ∃ j c ch a, HistoryOk s ∧ crlAllowed cert u j c s ∧ exec u s c ch = some (a, s')

/-- **A serial leaves the stored own CRL only if this hold of the lock has pruned
it.** -/
theorem mem_listed_of_amending (h : Amending cert u s s') (hn : n ∈ s.listed cert) :
    n ∈ s'.listed cert ∨ n ∈ s.holdPruned := by
  obtain ⟨j, c, ch, a, -, hall, hex⟩ := h
  cases exec_effect hex with
  | updateCRL => exact (hall.2.mem_listedIn hn).imp_right fun h => Op.drops_subset _ _ h
  | _ => exact Or.inl hn

/-- **A serial leaves the list of superseded certificates only for the CRL.** -/
theorem bears_of_amending (h : Amending cert u s s') (hn : Bears s.pending n) :
    Bears s'.pending n ∨ n ∈ s'.listed cert := by
  obtain ⟨j, c, ch, a, -, hall, hex⟩ := h
  cases exec_effect hex with
  | saveSuperseded => exact hall.2.bears hn
  | _ => exact Or.inl hn

/-- The history only grows. -/
theorem history_of_amending (h : Amending cert u s s') :
    s.pruneLog <+: s'.pruneLog ∧ s.holdStart ≤ s'.holdStart := by
  obtain ⟨j, c, ch, a, hinv, hall, hex⟩ := h
  have hset : ∀ m o, s.holdStart ≤ (s.setOwner m o).holdStart := by
    intro m o
    simp only [State.setOwner]
    split <;> [exact hinv.1; exact le_rfl]
  cases exec_effect hex with
  | lock | unlock => exact ⟨List.prefix_rfl, hset _ _⟩
  | pruneInventory => exact ⟨List.prefix_append _ _, le_rfl⟩
  | _ => exact ⟨List.prefix_rfl, le_rfl⟩

/-- `K` holds, or the serial `n` has been pruned since the prune log had length `k`. -/
structure UntilPruned (K : State → Prop) (n : ℤ) (k : ℕ) (s : State) : Prop where
  kept : K s ∨ n ∈ s.pruneLog.drop k
  le_holdStart : k ≤ s.holdStart

/-- What only a prune in the same hold of the lock can end lasts until a prune. -/
theorem UntilPruned.amending {K : State → Prop} {k : ℕ} (hs : UntilPruned K n k s)
    (h : Amending cert u s s') (hK : K s → K s' ∨ n ∈ s.holdPruned) : UntilPruned K n k s' := by
  obtain ⟨hlog, hhold⟩ := history_of_amending h
  have hdrop : s.pruneLog.drop k ⊆ s'.pruneLog.drop k := by
    obtain ⟨x, hx⟩ := hlog
    rw [← hx, List.drop_append]
    exact List.subset_append_left _ _
  refine ⟨?_, hs.le_holdStart.trans hhold⟩
  rcases hs.kept with hn | hn
  · refine (hK hn).imp_right fun hn => ?_
    have hsub : s.holdPruned ⊆ s.pruneLog.drop k := by
      obtain ⟨d, hd⟩ := Nat.exists_eq_add_of_le hs.le_holdStart
      rw [State.holdPruned, hd, ← List.drop_drop]
      exact List.drop_subset _ _
    exact hdrop (hsub hn)
  · exact Or.inr (hdrop hn)

/-- The serial `n` is on the list of superseded certificates or on the stored own CRL. -/
def Kept (cert : Certificate) (n : ℤ) (s : State) : Prop :=
  Bears s.pending n ∨ n ∈ s.listed cert

theorem kept_of_amending (h : Amending cert u s s') (hs : Kept cert n s) :
    Kept cert n s' ∨ n ∈ s.holdPruned := by
  rcases hs with hn | hn
  · exact Or.inl (bears_of_amending h hn)
  · exact (mem_listed_of_amending h hn).imp_left Or.inr

/-- The serial is kept, or has been pruned since the prune log had length `k`. -/
abbrev Conserved (cert : Certificate) (n : ℤ) : ℕ → State → Prop := UntilPruned (Kept cert n) n

theorem Conserved.amending {k : ℕ} (hs : Conserved cert n k s) (h : Amending cert u s s') :
    Conserved cert n k s' :=
  UntilPruned.amending hs h (kept_of_amending h)

end OpenvoxCa.Ca
