import OpenvoxCa.Ca.Conservation
import OpenvoxCa.Conc.Restrict

/-!
# Listed serials and the inventory

A cleanup pass takes off the CRL the serials of the inventory entries it has pruned, and no
other ones. A listed serial that no entry of the inventory bears is therefore there to stay.
This file says what keeps every listed serial borne by an entry.

A run is *careful* (`Careful`) if

* a prune spares the entries of serials that are pending, and those of the subjects somebody is
  at work on (`Sparing`);
* who has pruned can read, sign and write the CRL (`Hampers`);
* a renewal under the presented key presents a certificate that the inventory knows
  (`CarefulJob`).

The first two conditions are about whoever executes the command, and are put into the machine
(`carefulMachine`); the third one is about the job as well, and is what the discipline takes as
known. `booksDiscipline` then asks of a thread that what it writes to the CRL or to the list of
superseded certificates is borne by an entry, and that it does not give the CRL lock back while a
serial it has pruned is listed. What is borne by an entry stays so for the holder of the CRL lock
(`Books.stable`), and what is borne by an entry of a subject for the holder of that subject's lock
(`Tending.stable`).
-/

namespace OpenvoxCa.Ca

open Conc

variable {ca : CA} {cert : Certificate} {t u : Tid} {j : Job} {s s' : State}
  {ns : List LockName} {b : Option Blob} {l : Option SupersededBlob} {pruned : List ℤ}
  {N : ℤ → Prop} {c : Cmd} {α β : Type}

/-! ### Bearing a serial -/

/-- An entry of the inventory bears the serial `n`, in the eyes of `CleanupExpiredCerts`. -/
def State.Borne (s : State) (n : ℤ) : Prop := ∃ e ∈ s.inventory, setString16 e.serial = some n

/-- An entry of the subject does. -/
def State.BorneBy (s : State) (subject : Text) (n : ℤ) : Prop :=
  ∃ e ∈ s.inventory, e.subject = subject ∧ setString16 e.serial = some n

/-- The text stands for `n`, to `SetString` or to `NormaliseSerial`. -/
def Spells (serial : Text) (n : ℤ) : Prop :=
  setString16 serial = some n ∨ normaliseSerial serial = some (serialHexStr n)

/-- **No serial of the inventory has space around it or `0x` in front**: what `NormaliseSerial`
reads, the `SetString` of `CleanupExpiredCerts` does too. -/
def State.Legible (s : State) : Prop :=
  ∀ e ∈ s.inventory, (normaliseSerial e.serial).isSome → (setString16 e.serial).isSome

theorem State.Legible.setString16 (h : s.Legible) {e : InventoryEntry} (he : e ∈ s.inventory)
    {n : ℤ} (hn : Spells e.serial n) : setString16 e.serial = some n := by
  rcases hn with hn | hn
  · exact hn
  · obtain ⟨m, hm⟩ := Option.isSome_iff_exists.mp (h e he (by simp [hn]))
    exact serial_unique hm hn ▸ hm

/-- A superseded certificate has the serial `n`, in the eyes of a sweep or of a revocation of
its subject. -/
def Awaits (entries : List SupersededEntry) (n : ℤ) : Prop :=
  ∃ e ∈ entries, setString16 e.serial = some n ∨ dueNumber e = some n

theorem State.BorneBy.borne {subject : Text} {n : ℤ} (h : s.BorneBy subject n) : s.Borne n := by
  obtain ⟨e, he, -, hn⟩ := h
  exact ⟨e, he, hn⟩

theorem State.Borne.mono {n : ℤ} (h : s.Borne n) (hsub : s.inventory ⊆ s'.inventory) :
    s'.Borne n := by
  obtain ⟨e, he, hn⟩ := h
  exact ⟨e, hsub he, hn⟩

theorem Awaits.mono {entries entries' : List SupersededEntry} {n : ℤ} (h : Awaits entries n)
    (hsub : entries ⊆ entries') : Awaits entries' n := by
  obtain ⟨e, he, hn⟩ := h
  exact ⟨e, hsub he, hn⟩

/-- Nothing but a prune takes entries away. -/
theorem Effect.inventory (h : Effect t s c s') (hc : ∀ keep, c ≠ .pruneInventory keep) :
    s.inventory ⊆ s'.inventory := by
  cases h with
  | appendInventory => exact List.subset_append_left _ _
  | pruneInventory => exact absurd rfl (hc _)
  | _ => exact List.Subset.refl _

/-! ### Careful runs -/

/-- **A prune is sparing**: no entry that it is to remove has a pending serial, or belongs to a
subject whose lock is held. -/
def Sparing (s : State) (keep : InventoryEntry → Bool) : Prop :=
  ∀ e ∈ s.inventory, keep e = false → s.owner (.subject e.subject) = none ∧
    ∀ n, setString16 e.serial = some n → ¬Awaits s.pending n

/-- Thread `t` holds the CRL lock, and serials have been pruned under it. -/
def AmidPrune (t : Tid) (s : State) : Prop := s.owner .crl = some t ∧ s.holdPruned ≠ []

/-- **What keeps the CRL from being re-signed**: a CRL that cannot be read or parsed, a signature
or a write that fails, and trouble with the operator's chain file or with the CA bundle. -/
def Hampers (cert : Certificate) (s : State) : Cmd → Choice → Prop
  | .getCRL, ch => ch.fails = true ∨ ∃ blob, s.crl = some blob ∧
      ((∃ e, parseStored cert blob = .error e) ∨ decodeCRLChain blob = none)
  | .createRevocationList _, ch => ch.fails = true
  | .readChainFile, ch => ch.file = .fault ∨
      ∃ file e, ch.file = .data file ∧ decodeCRLChainStrict file = .error e
  | .getCACert, ch => ch.fails = true ∨ ¬∃ certs, s.caBundle = some (some certs)
  | .updateCRL _, ch => ch.fails = true
  | _, _ => False

/-- The command is executed with care, whoever issues it. -/
def CarefulExec (cert : Certificate) (t : Tid) (s : State) : Cmd → Choice → Prop
  | .pruneInventory keep, _ => Sparing s keep
  | c, ch => AmidPrune t s → ¬Hampers cert s c ch

/-- The command is issued with care: a renewal under the presented key that will retire the
presented certificate takes the lock of the subject while the inventory has that certificate
under the subject's name. -/
def CarefulJob (j : Job) : Cmd → State → Prop
  | .lock (.subject _), s => ∀ presented, j.op = .autoRenew (some presented) →
      j.config.revokeOnAutoRenew = true →
      s.BorneBy presented.subject.commonName presented.serialNumber
  | _, _ => True

def Careful (p : Cluster cert) (l : Event cert) : Prop :=
  ∀ t ch j c k, l = .step t ch → p.thread t = .running j (.call c k) →
    CarefulExec cert t p.shared c ch ∧ CarefulJob j c p.shared

open Classical in
/-- Execution, where nothing is executed without care. -/
noncomputable def execCareful (cert : Certificate) (t : Tid) (s : State) (c : Cmd) (ch : Choice) :
    Option (c.Ans × State) :=
  if CarefulExec cert t s c ch then exec t s c ch else none

noncomputable abbrev carefulMachine (cert : Certificate) : Machine interface :=
  machine.withExec (execCareful cert)

theorem execCareful_eq_some {ch : Choice} {r : c.Ans × State}
    (h : execCareful cert t s c ch = some r) :
    exec t s c ch = some r ∧ CarefulExec cert t s c ch := by
  unfold execCareful at h
  split at h
  · next hcare => exact ⟨h, hcare⟩
  · cases h

theorem exec_of_careful {ch : Choice} {r : c.Ans × State}
    (h : execCareful cert t s c ch = some r) : exec t s c ch = some r :=
  (execCareful_eq_some h).1

theorem Careful.permits {p : Cluster cert} {l : Event cert} (h : Careful p l) :
    p.Permits (execCareful cert) l := by
  intro t ch j c k hl ht
  exact if_pos (h t ch j c k hl ht).1

/-! ### The discipline -/

/-- **What holds at every moment**: every pending serial is borne by an entry, and so is every
listed one, but for those pruned in this hold of the CRL lock. -/
structure BooksInv (cert : Certificate) (s : State) : Prop where
  history : HistoryOk s
  free : s.owner .crl = none → s.holdPruned = []
  legible : s.Legible
  pending : ∀ n, Awaits s.pending n → s.Borne n
  listed : ∀ n ∈ s.listed cert, s.Borne n ∨ n ∈ s.holdPruned

/-- **What a command is asked**: what is written to the CRL or to the list is borne by an entry,
and who gives the CRL lock back leaves no listed serial behind that is not. -/
def booksDuty (cert : Certificate) (t : Tid) : Cmd → State → Prop
  | .unlock n, s => s.owner n = some t ∧ (n = .crl → ∀ m ∈ s.listed cert, s.Borne m)
  | .updateCRL blob, s => s.owner .crl = some t ∧
      ∀ m ∈ listedIn cert (some blob), m ∈ s.listed cert ∨ s.Borne m
  | .saveSuperseded blob, s => s.owner .crl = some t ∧ ∀ m, Awaits blob.entries m → s.Borne m
  | .pruneInventory _, s => s.owner .crl = some t
  | .appendInventory e, _ => (setString16 e.serial).isSome
  | _, _ => True

theorem lockAllowed_of_booksDuty (h : booksDuty cert t c s) : lockAllowed t c s := by
  cases c with
  | unlock | updateCRL | saveSuperseded => exact h.1
  | pruneInventory keep => exact h
  | _ => trivial

theorem Cmd.Benign.booksDuty (h : c.Benign) : booksDuty cert t c s := by
  cases c <;> first | exact h | exact h.elim

theorem holdPruned_setOwner_crl (s : State) (o : Option Tid) :
    (s.setOwner .crl o).holdPruned = [] := by
  simp [State.holdPruned, State.setOwner]

namespace BooksInv

/-- A lock other than the CRL lock changes hands. -/
theorem setOwner (h : BooksInv cert s) {n : LockName} (hn : n ≠ .crl) {o : Option Tid}
    (hhist : HistoryOk (s.setOwner n o)) : BooksInv cert (s.setOwner n o) := by
  have hpruned : (s.setOwner n o).holdPruned = s.holdPruned := by
    simp [State.holdPruned, State.setOwner, hn]
  refine ⟨hhist, fun hfree => ?_, h.legible, h.pending, fun m hm => ?_⟩
  · rw [hpruned]
    exact h.free ((Function.update_of_ne hn.symm _ _).symm.trans hfree)
  · rw [hpruned]
    exact h.listed m hm

/-- The CRL lock changes hands, and every listed serial is borne by an entry. -/
theorem setOwner_crl (h : BooksInv cert s) {o : Option Tid}
    (hlisted : ∀ m ∈ s.listed cert, s.Borne m) (hhist : HistoryOk (s.setOwner .crl o)) :
    BooksInv cert (s.setOwner .crl o) :=
  ⟨hhist, fun _ => holdPruned_setOwner_crl s o, h.legible, h.pending,
    fun m hm => Or.inl (hlisted m hm)⟩

/-- **A sparing prune.** A serial loses its last entry only by being pruned. -/
theorem prune (h : BooksInv cert s) {keep : InventoryEntry → Bool} (hspare : Sparing s keep)
    (howner : s.owner .crl = some t) {ch : Choice} {s' : State}
    (hinv : s'.inventory = keptEntries s.inventory keep ch)
    (hlog : s'.pruneLog = s.pruneLog ++ entrySerials (prunedEntries s.inventory keep ch))
    (hsame : s'.crl = s.crl ∧ s'.superseded = s.superseded ∧ s'.owner = s.owner ∧
      s'.holdStart = s.holdStart) (hhist : HistoryOk s') : BooksInv cert s' := by
  obtain ⟨hcrl, hsup, howner', hstart⟩ := hsame
  have hpruned : s'.holdPruned = s.holdPruned ++
      entrySerials (prunedEntries s.inventory keep ch) := by
    rw [State.holdPruned, hlog, hstart, List.drop_append_of_le_length h.history.1]
    rfl
  have hmem : ∀ e ∈ s.inventory,
      e ∈ prunedEntries s.inventory keep ch ∨ e ∈ s'.inventory := fun e he => by
    rw [hinv]
    exact mem_pruned_or_kept keep ch he
  refine ⟨hhist, fun hfree => ?_, fun e he => ?_, fun n hn => ?_, fun n hn => ?_⟩
  · rw [howner', howner] at hfree
    cases hfree
  · rw [hinv] at he
    exact h.legible e (mem_of_mem_keptEntries he)
  · -- What is pending was spared.
    rw [State.pending, hsup] at hn
    obtain ⟨e, he, hen⟩ := h.pending n hn
    rcases hmem e he with hgone | he'
    · exact absurd hn ((hspare e he (rejected_of_mem_prunedEntries hgone).2).2 n hen)
    · exact ⟨e, he', hen⟩
  · rw [hpruned]
    rw [State.listed, hcrl] at hn
    rcases h.listed n hn with ⟨e, he, hen⟩ | hold
    · rcases hmem e he with hgone | he'
      · exact Or.inr (List.mem_append_right _ (List.mem_filterMap.mpr ⟨e, hgone, hen⟩))
      · exact Or.inl ⟨e, he', hen⟩
    · exact Or.inr (List.mem_append_left _ hold)

/-- **Careful steps that do their duty keep the books.** -/
theorem step (h : BooksInv cert s) {ch : Choice} {a : c.Ans} (hduty : booksDuty cert t c s)
    (hex : execCareful cert t s c ch = some (a, s')) : BooksInv cert s' := by
  obtain ⟨hex, hcare⟩ := execCareful_eq_some hex
  have heff := exec_effect hex
  have hhist := h.history.effect heff
  cases heff with
  | @lock n hfree =>
    rcases eq_or_ne n .crl with rfl | hn
    · refine h.setOwner_crl (fun m hm => ?_) hhist
      refine (h.listed m hm).resolve_right ?_
      simp [h.free hfree]
    · exact h.setOwner hn hhist
  | @unlock n =>
    rcases eq_or_ne n .crl with rfl | hn
    · exact h.setOwner_crl (hduty.2 rfl) hhist
    · exact h.setOwner hn hhist
  | updateCRL =>
    refine ⟨hhist, h.free, h.legible, h.pending, fun m hm => ?_⟩
    exact (hduty.2 m hm).elim (h.listed m) Or.inl
  | saveSuperseded => exact ⟨hhist, h.free, h.legible, hduty.2, h.listed⟩
  | appendInventory =>
    refine ⟨hhist, h.free, fun e he => ?_, fun n hn => ?_, fun n hn => ?_⟩
    · rcases List.mem_append.mp he with he | he
      · exact h.legible e he
      · rw [List.mem_singleton.mp he]
        exact fun _ => hduty
    · exact (h.pending n hn).mono (List.subset_append_left _ _)
    · exact (h.listed n hn).imp_left fun hb => hb.mono (List.subset_append_left _ _)
  | pruneInventory _ =>
    exact h.prune hcare hduty rfl rfl ⟨rfl, rfl, rfl, rfl⟩ hhist
  | _ => exact ⟨hhist, h.free, h.legible, h.pending, h.listed⟩

end BooksInv

noncomputable def booksDiscipline (cert : Certificate) : Discipline (carefulMachine cert) Job where
  Inv := BooksInv cert
  Allowed := fun t _ => booksDuty cert t
  Known := fun _ => CarefulJob
  inv_exec := fun hinv hduty hex => hinv.step hduty hex

/-! ### What stays true -/

/-- A step of the others, as the CRL lock sees it. -/
theorem rely_crl (h : Rely (booksDiscipline cert) t s s') : Rely (writerDiscipline ca) t s s' := by
  obtain ⟨u, hne, j, c, ch, a, hinv, hduty, hex⟩ := h
  exact ⟨u, hne, j, c, ch, a, hinv.history, lockAllowed_of_booksDuty hduty, exec_of_careful hex⟩

theorem relyStar_crl (h : RelyStar (booksDiscipline cert) t s s') :
    RelyStar (writerDiscipline ca) t s s' :=
  Relation.ReflTransGen.mono (fun _ _ => rely_crl) _ _ h

theorem stable_of_crl {P : State → Prop} (h : Stable (writerDiscipline ca) t P) :
    Stable (booksDiscipline cert) t P :=
  fun _ _ hs hrely => h hs (rely_crl hrely)

theorem held_stable_books : Stable (booksDiscipline cert) t (Held t ns) :=
  stable_of_crl (Held.stable ns : Stable (writerDiscipline { caCert := cert }) t _)

/-- **What the holder of the CRL lock knows**: besides the chain and the list, that each serial
of `N` is borne by an entry. -/
structure Books (t : Tid) (ns : List LockName) (b : Option Blob) (l : Option SupersededBlob)
    (pruned : List ℤ) (N : ℤ → Prop) (s : State) : Prop extends Holding t ns b l pruned s where
  borne : ∀ n, N n → s.Borne n

/-- Nobody else prunes. -/
theorem Books.stable : Stable (booksDiscipline cert) t (Books t ns b l pruned N) := by
  intro s s' hs hrely
  have hcrl : Rely (writerDiscipline { caCert := cert }) t s s' := rely_crl hrely
  refine ⟨Holding.stable hs.toHolding hcrl, fun n hn => (hs.borne n hn).mono ?_⟩
  obtain ⟨u, hne, j, c, ch, a, -, hduty, hex⟩ := hrely
  refine (exec_effect (exec_of_careful hex)).inventory ?_
  rintro keep rfl
  exact hne (Option.some.inj (hduty.symm.trans hs.owner))

/-- What a subject's lock is good for: the entries of the subject that bear what the text stands
for stay. -/
structure Tending (t : Tid) (sub serial : Text) (s : State) : Prop where
  held : Held t [.subject sub] s
  borne : ∀ n, Spells serial n → s.BorneBy sub n

theorem Tending.stable {sub serial : Text} :
    Stable (booksDiscipline cert) t (Tending t sub serial) := by
  intro s s' hs hrely
  refine ⟨held_stable_books hs.held hrely, fun n hn => ?_⟩
  obtain ⟨u, hne, j, c, ch, a, -, hduty, hex⟩ := hrely
  obtain ⟨hex, hcare⟩ := execCareful_eq_some hex
  obtain ⟨e, he, hsub, hen⟩ := hs.borne n hn
  have howner : s.owner (.subject sub) = some t := (hs.held _).mpr (List.mem_singleton.mpr rfl)
  cases exec_effect hex with
  | appendInventory => exact ⟨e, List.mem_append_left _ he, hsub, hen⟩
  | @pruneInventory keep _ =>
    -- A sparing prune leaves the entries of a subject alone whose lock is held.
    have hkeep : keep e = true := by
      by_contra hnot
      have hfree := (hcare e he (by simpa using hnot)).1
      rw [hsub, howner] at hfree
      cases hfree
    exact ⟨e, mem_keptEntries_of_keep he hkeep, hsub, hen⟩
  | _ => exact ⟨e, he, hsub, hen⟩

/-- An assertion that survives benign commands: it is about the chain, the list and the locks,
or says what the inventory has. -/
def AboutBooks (P : State → Prop) : Prop :=
  ∀ s s', SameCRL s s' → s.inventory ⊆ s'.inventory → P s → P s'

theorem aboutBooks_held : AboutBooks (Held t ns) :=
  fun s s' hss _ hs => aboutCRL_held ns s s' hss hs

theorem aboutBooks_books : AboutBooks (Books t ns b l pruned N) :=
  fun s s' hss hsub hs =>
    ⟨aboutCRL_holding s s' hss hs.toHolding, fun n hn => (hs.borne n hn).mono hsub⟩

theorem aboutBooks_tending {sub serial : Text} : AboutBooks (Tending t sub serial) := by
  intro s s' hss hsub hs
  refine ⟨aboutCRL_held _ s s' hss hs.held, fun n hn => ?_⟩
  obtain ⟨e, he, hes, hen⟩ := hs.borne n hn
  exact ⟨e, hsub he, hes, hen⟩

theorem AboutBooks.effect {P : State → Prop} (hP : AboutBooks P) (hc : c.Quiet)
    (he : Effect t s c s') (hs : P s) : P s' := by
  refine hP s s' (hc.sameCRL he) (he.inventory ?_) hs
  rintro keep rfl
  exact hc

/-! ### Rules -/

section Rules

variable {P : State → Prop} {R : Except Failure α → Prop}

theorem benign_spec {ε : Type} {R : Except ε α → Prop} (hst : Stable (booksDiscipline cert) t P)
    (hP : AboutBooks P) {p : Conc.Prog interface ε α} (hp : p.Always Cmd.Benign R) :
    Triple (booksDiscipline cert) t j P p fun r s => R r ∧ P s :=
  Triple.of_always hst (fun _ hc _ _ _ => hc.booksDuty)
    (fun _ hc _ _ _ _ hs he => hP.effect hc.quiet (exec_effect (exec_of_careful he)) hs) hp

theorem benign_keeps (hst : Stable (booksDiscipline cert) t P) (hP : AboutBooks P) {p : Prog α}
    (hp : p.Only Cmd.Benign) : Keeps (booksDiscipline cert) t j P p :=
  (benign_spec hst hP hp).weaken fun _ _ _ hs => hs.2

/-- A benign program, followed by anything. -/
theorem benign_bind (hst : Stable (booksDiscipline cert) t P) (hP : AboutBooks P) {p : Prog α}
    (hp : p.Always Cmd.Benign R) {f : α → Prog β} {Q : Except Failure β → State → Prop}
    (herr : ∀ e s, R (.error e) → P s → Q (.error e) s)
    (hf : ∀ a, R (.ok a) → Triple (booksDiscipline cert) t j P (f a) Q) :
    Triple (booksDiscipline cert) t j P (p.bind f) Q :=
  (benign_spec hst hP hp).seq (fun e s hr => herr e s hr.1 hr.2) fun a => Triple.pure_pre (hf a)

/-- A benign command, followed by anything. -/
theorem benign_cmd_bind (hst : Stable (booksDiscipline cert) t P) (hP : AboutBooks P)
    (hc : c.Benign) {f : c.Ans → Prog β} {Q : Except Failure β → State → Prop}
    (hf : ∀ a, Triple (booksDiscipline cert) t j P (f a) Q) :
    Triple (booksDiscipline cert) t j P ((cmd c).bind f) Q :=
  Triple.call hst (fun _ _ _ => hc.booksDuty)
    (fun _ _ _ _ _ hs he => hP.effect hc.quiet (exec_effect (exec_of_careful he)) hs) hf

/-- **What a program that only asks was shown to find out about the CRL**, under the discipline
of the CRL lock, it finds out here, and leaves alone what else is known. -/
theorem asking_spec {p : Prog α} {Q : Except Failure α → State → Prop}
    (h : Triple (writerDiscipline ca) t j (Holding t ns b l pruned) p fun r s =>
      Q r s ∧ Holding t ns b l pruned s) (hp : p.Only Cmd.Reads) :
    Triple (booksDiscipline cert) t j (Books t ns b l pruned N) p fun r s =>
      Q r s ∧ Books t ns b l pruned N s := by
  intro s hs
  have hw : wp (booksDiscipline cert) t j p
      (fun r s => Q r s ∧ Holding t ns b l pruned s) s := by
    have hwp := h s hs.toHolding
    clear h hs
    induction p generalizing s with
    | ret | fail =>
      exact fun s' hs' hi => hwp s' (relyStar_crl hs') hi.history
    | call c k ih =>
      intro s' hs' hi _
      obtain ⟨-, hk⟩ := hwp s' (relyStar_crl hs') hi.history trivial
      exact ⟨Cmd.Benign.booksDuty (Cmd.Reads.local hp.1).benign,
        fun ch a s'' he => ih a (hp.2 a) s'' (hk ch a s'' (exec_of_careful he))⟩
  have hbooks : wp (booksDiscipline cert) t j p (fun _ s => Books t ns b l pruned N s) s :=
    benign_keeps Books.stable aboutBooks_books (always_benign (always_local hp)) s hs
  exact wp_mono (wp_inter hw hbooks) fun r s _ h => ⟨h.1.1, h.2⟩

/-- The mutex of a replica is of no concern to the books. -/
theorem withMutex_books {body : Prog α} {Q : Except Failure α → State → Prop}
    (hst : Stable (booksDiscipline cert) t P) (hP : AboutBooks P)
    (hQst : ∀ r, Stable (booksDiscipline cert) t (Q r)) (hQ : ∀ r, AboutBooks (Q r))
    (hbody : Triple (booksDiscipline cert) t j P body Q) :
    Triple (booksDiscipline cert) t j P (withMutex body) Q :=
  Triple.between hst (fun _ _ _ => trivial)
    (fun _ _ _ _ _ hs he => hP.effect (c := .lockMutex) trivial
      (exec_effect (exec_of_careful he)) hs) hbody hQst (fun _ _ _ _ => trivial)
    (fun r _ _ _ _ _ hs he => (hQ r).effect (c := .unlockMutex) trivial
      (exec_effect (exec_of_careful he)) hs) hQst

end Rules

/-! ### Holding the CRL lock -/

/-- **The books are in order**: the holder of the CRL lock has left no pruned serial listed. -/
def Accounted (cert : Certificate) (t : Tid) (ns : List LockName) (s : State) : Prop :=
  ∃ b l pruned, Holding t ns b l pruned s ∧ ∀ n ∈ listedIn cert b, n ∉ pruned

theorem Accounted.stable : Stable (booksDiscipline cert) t (Accounted cert t ns) := by
  have hcrl : Stable (writerDiscipline { caCert := cert }) t (Accounted cert t ns) :=
    .exists fun _ => .exists fun _ => .exists fun _ => Holding.stable.and (Stable.const _)
  exact stable_of_crl hcrl

theorem aboutBooks_accounted : AboutBooks (Accounted cert t ns) := by
  rintro s s' hss - ⟨b, l, pruned, hs, hlisted⟩
  exact ⟨b, l, pruned, aboutCRL_holding s s' hss hs, hlisted⟩

/-- Who has pruned nothing knows the serials of `N` to be borne. -/
def Counts (t : Tid) (ns : List LockName) (N : ℤ → Prop) (s : State) : Prop :=
  ∃ b l, Books t ns b l [] N s

theorem Counts.stable : Stable (booksDiscipline cert) t (Counts t ns N) :=
  Stable.exists fun _ => Stable.exists fun _ => Books.stable

theorem aboutBooks_counts : AboutBooks (Counts t ns N) := by
  rintro s s' hss hsub ⟨b, l, hs⟩
  exact ⟨b, l, aboutBooks_books s s' hss hsub hs⟩

theorem Counts.accounted (h : Counts t ns N s) : Accounted cert t ns s := by
  obtain ⟨b, l, hs⟩ := h
  exact ⟨b, l, [], hs.toHolding, by simp⟩

theorem Books.counts (h : Books t ns b l [] N s) : Counts t ns N s := ⟨b, l, h⟩

/-- **Taking the CRL lock.** Every pending serial is borne by an entry then, and so is what was
known to be before; giving the lock back takes books in order. -/
theorem withCRLLock_books {B : State → Prop} {body : Prog α} (hn : .crl ∉ ns)
    (hst : Stable (booksDiscipline cert) t B) (hB : ∀ s, B s → ∀ n, N n → s.Borne n)
    (hbody : ∀ b l, Triple (booksDiscipline cert) t j
      (Books t ns b l [] fun n => N n ∨ Awaits (entriesOf l) n) body fun _ s =>
        Accounted cert t ns s) :
    Triple (booksDiscipline cert) t j (fun s => Held t ns s ∧ B s) (withLock .crl body)
      fun _ s => Held t ns s := by
  refine (withLock_triple (P := fun _ s => Accounted cert t ns s) (Q := fun _ _ => True)
    (A := fun s => ∃ b l, Books t ns b l [] (fun n => N n ∨ Awaits (entriesOf l) n) s)
    exec_of_careful (fun _ => held_stable_books) hn hst (fun _ => trivial) ?_ ?_
    (fun _ => Accounted.stable) ?_ (fun _ _ _ _ => trivial) (fun _ => Stable.const _)
    fun _ _ => trivial).weaken fun _ _ _ hs => hs.1
  · intro s hinv _ hs hheld
    refine ⟨s.crl, s.superseded, ⟨hheld, rfl, rfl, holdPruned_setOwner_crl s _⟩, fun n hn => ?_⟩
    exact hn.elim (hB s hs n) (hinv.pending n)
  · refine Triple.exists_pre fun b => Triple.exists_pre fun l =>
      (hbody b l).weaken fun r s _ hs => ⟨?_, hs⟩
    obtain ⟨b', l', pruned', hhold, -⟩ := hs
    exact hhold.held
  · rintro r s hinv - ⟨b, l, pruned, hs, hlisted⟩
    refine ⟨hs.owner, fun _ m hm => (hinv.listed m hm).resolve_right ?_⟩
    rw [hs.pruned]
    rw [State.listed, hs.crl] at hm
    exact hlisted m hm

/-! ### Re-signing -/

/-- `readStoredCRL`: who has pruned can read the CRL, unless there is none. -/
theorem readStoredCRL_books :
    Triple (booksDiscipline ca.caCert) t j (Books t ns b l pruned N) (readStoredCRL ca) fun r s =>
      (match r with
        | .ok stored => ReadOf ca.caCert b stored ∧
            (pruned ≠ [] → decodeCRLChain stored.blob ≠ none)
        | .error _ => pruned ≠ [] → listedIn ca.caCert b = []) ∧ Books t ns b l pruned N s := by
  refine Triple.call (R := fun a s => (match a with
      | .ok blob => b = some blob ∧ (pruned ≠ [] → decodeCRLChain blob ≠ none ∧
          ∀ e, parseStored ca.caCert blob ≠ .error e)
      | .error _ => pruned ≠ [] → b = none) ∧ Books t ns b l pruned N s) Books.stable
    (fun _ _ _ => trivial) ?_ fun a => ?_
  · intro s ch a s' _ hs he
    obtain ⟨he, hcare⟩ := execCareful_eq_some he
    cases he
    have hamid : pruned ≠ [] → ¬Hampers ca.caCert s .getCRL ch := fun hne =>
      hcare ⟨hs.owner, by rwa [hs.pruned]⟩
    refine ⟨?_, aboutBooks_books s _ ⟨rfl, rfl, rfl, rfl, rfl, rfl, rfl⟩ (List.Subset.refl _) hs⟩
    rw [← hs.crl]
    cases hread : readOutcome ch s.crl with
    | ok blob =>
      have hblob := readOutcome_eq_ok hread
      refine ⟨hblob, fun hne => ⟨fun hnone => ?_, fun e herr => ?_⟩⟩
      · exact hamid hne (Or.inr ⟨blob, hblob, Or.inr hnone⟩)
      · exact hamid hne (Or.inr ⟨blob, hblob, Or.inl ⟨e, herr⟩⟩)
    | error e =>
      intro hne
      cases hcrl : s.crl with
      | none => rfl
      | some blob =>
        -- A careful read does not fail, and there is something to read.
        have hfails : ch.fails = false := by simpa using fun h => hamid hne (Or.inl h)
        simp [readOutcome, hfails, hcrl] at hread
  · cases a with
    | error e =>
      refine Triple.fail ((Stable.const _).and Books.stable) fun s _ hs => ⟨fun hne => ?_, hs.2⟩
      rw [hs.1 hne]
      rfl
    | ok blob =>
      refine Triple.pure_pre fun hb => Triple.ofExcept Books.stable fun s _ hs => ?_
      cases hparse : parseStored ca.caCert blob with
      | error e => exact ⟨fun hne => absurd hparse ((hb.2 hne).2 e), hs⟩
      | ok stored =>
        obtain ⟨hblob, hown⟩ := parseStored_eq_ok hparse
        subst hblob
        exact ⟨⟨⟨hb.1, hown⟩, fun hne => (hb.2 hne).1⟩, hs⟩

section Amid

/-! Who has pruned is not hampered. -/

theorem Books.unhampered {ch : Choice} (hs : Books t ns b l pruned N s) (hpruned : pruned ≠ [])
    (hcare : AmidPrune t s → ¬Hampers cert s c ch) : ¬Hampers cert s c ch :=
  hcare ⟨hs.owner, by rwa [hs.pruned]⟩

variable (hpruned : pruned ≠ [])

include hpruned

theorem bundleCertificates_amid :
    Triple (booksDiscipline cert) t j (Books t ns b l pruned N) bundleCertificates fun r s =>
      (∃ certs, r = .ok certs) ∧ Books t ns b l pruned N s := by
  refine Triple.call (R := fun a s => (∃ certs, a = .ok (some certs)) ∧ Books t ns b l pruned N s)
    Books.stable (fun _ _ _ => trivial) ?_ fun a => Triple.pure_pre ?_
  · intro s ch a s' _ hs he
    obtain ⟨he, hcare⟩ := execCareful_eq_some he
    cases he
    have hbundle := hs.unhampered hpruned hcare
    simp only [Hampers, not_or, not_not, Bool.not_eq_true] at hbundle
    obtain ⟨hfails, certs, hcerts⟩ := hbundle
    exact ⟨⟨certs, by simp [readOutcome, hfails, hcerts]⟩,
      ⟨hs.held, hs.crl, hs.superseded, hs.pruned⟩, hs.borne⟩
  · rintro ⟨certs, rfl⟩
    exact Triple.ret Books.stable fun s _ hs => ⟨⟨certs, rfl⟩, hs⟩

theorem upstreamCRLs_amid {blob : Blob} (hdec : decodeCRLChain blob ≠ none) :
    Triple (booksDiscipline ca.caCert) t j (Books t ns b l pruned N) (upstreamCRLs ca blob)
      fun r s => (∃ upstream, r = .ok upstream) ∧ Books t ns b l pruned N s := by
  obtain ⟨chain, hchain⟩ := Option.ne_none_iff_exists'.mp hdec
  unfold upstreamCRLs
  split
  · refine Triple.call (R := fun a s => (a = .absent ∨ ∃ file parsed, a = .data file ∧
        decodeCRLChainStrict file = .ok parsed) ∧ Books t ns b l pruned N s) Books.stable
      (fun _ _ _ => trivial) ?_ fun a => Triple.pure_pre fun ha => ?_
    · intro s ch a s' _ hs he
      obtain ⟨he, hcare⟩ := execCareful_eq_some he
      cases he
      refine ⟨?_, ⟨hs.held, hs.crl, hs.superseded, hs.pruned⟩, hs.borne⟩
      have hfile := hs.unhampered hpruned hcare
      cases hf : ch.file with
      | absent => exact Or.inl rfl
      | fault => exact absurd (Or.inl hf) hfile
      | data file =>
        cases hparsed : decodeCRLChainStrict file with
        | ok parsed => exact Or.inr ⟨file, parsed, rfl, hparsed⟩
        | error e => exact absurd (Or.inr ⟨file, e, hf, hparsed⟩) hfile
    · obtain rfl | ⟨file, parsed, rfl, hparsed⟩ := ha
      · exact Triple.ret Books.stable fun s _ hs => ⟨⟨_, rfl⟩, hs⟩
      · simp only [Prog.ret_bind, hparsed, Prog.ofExcept]
        change Triple (booksDiscipline ca.caCert) t j (Books t ns b l pruned N)
          (bundleCertificates.bind _) _
        refine (bundleCertificates_amid hpruned).seq (by rintro _ _ ⟨⟨_, ⟨⟩⟩, _⟩) fun issuers =>
          Triple.pure_pre fun _ => ?_
        simp only [monotonicUpstream, publishedUpstream, hchain, Option.map_some]
        exact Triple.ret Books.stable fun s _ hs => ⟨⟨_, rfl⟩, hs⟩
  · exact Triple.ret Books.stable fun s _ hs => ⟨⟨_, rfl⟩, hs⟩

end Amid

/-- `crlChainLocked`: what is published with our list is nobody's own, and who has pruned has a
chain to publish. -/
theorem crlChainLocked_books {crl : RevocationList} {blob : Blob}
    (hdec : pruned ≠ [] → decodeCRLChain blob ≠ none) :
    Triple (booksDiscipline ca.caCert) t j (Books t ns b l pruned N) (crlChainLocked ca crl blob)
      fun r s => (match r with
        | .ok chain => ∃ ancestors, chain = encodeCRLChain (crl :: ancestors) ∧
            ∀ c ∈ ancestors, crlSignedBy ca.caCert c = false
        | .error _ => pruned = []) ∧ Books t ns b l pruned N s := by
  have halways : Triple (booksDiscipline ca.caCert) t j (Books t ns b l pruned N)
      (crlChainLocked ca crl blob) fun r s => (∀ chain, r = .ok chain →
        ∃ ancestors, chain = encodeCRLChain (crl :: ancestors) ∧
          ∀ c ∈ ancestors, crlSignedBy ca.caCert c = false) ∧ Books t ns b l pruned N s :=
    benign_spec Books.stable aboutBooks_books
      (always_benign (always_local (crlChainLocked_always ca crl blob)))
  by_cases hpruned : pruned = []
  · refine halways.weaken fun r s _ hr => ⟨?_, hr.2⟩
    cases r with
    | ok chain => exact hr.1 chain rfl
    | error e => exact hpruned
  · have hok : Triple (booksDiscipline ca.caCert) t j (Books t ns b l pruned N)
        (crlChainLocked ca crl blob) fun r s => ∃ chain, r = .ok chain := by
      refine (upstreamCRLs_amid hpruned (hdec hpruned)).seq (by rintro _ _ ⟨⟨_, ⟨⟩⟩, _⟩)
        fun upstream => Triple.pure_pre fun _ => ?_
      obtain ⟨chain, hchain⟩ := Option.ne_none_iff_exists'.mp (hdec hpruned)
      cases upstream with
      | some upstream => exact Triple.ret Books.stable fun s _ _ => ⟨_, rfl⟩
      | none =>
        simp only [hchain]
        exact Triple.ret Books.stable fun s _ _ => ⟨_, rfl⟩
    intro s hs
    refine wp_mono (wp_inter (halways s hs) (hok s hs)) ?_
    rintro _ s' - ⟨⟨hr, hs'⟩, chain, rfl⟩
    exact ⟨hr chain rfl, hs'⟩

/-- `UpdateCRL`, with serials that are listed already or borne by an entry. -/
theorem updateCRL_books {chain : Blob}
    (hchain : ∀ m ∈ listedIn cert (some chain), m ∈ listedIn cert b ∨ N m) :
    Triple (booksDiscipline cert) t j (Books t ns b l pruned N) (ask (cmd (.updateCRL chain)))
      fun r s => match r with
        | .ok _ => Books t ns (some chain) l pruned N s
        | .error _ => pruned = [] ∧ Books t ns b l pruned N s := by
  refine Triple.call (R := fun a s => match a with
      | .ok _ => Books t ns (some chain) l pruned N s
      | .error _ => pruned = [] ∧ Books t ns b l pruned N s) Books.stable ?_ ?_ fun a => ?_
  · intro s _ hs
    refine ⟨hs.owner, fun m hm => (hchain m hm).imp (fun h => ?_) (hs.borne m)⟩
    rwa [State.listed, hs.crl]
  · intro s ch a s' _ hs he
    obtain ⟨he, hcare⟩ := execCareful_eq_some he
    have hwrite := Option.some.inj he
    unfold writeOutcome at hwrite
    by_cases hfails : ch.fails = true
    · rw [if_pos hfails] at hwrite
      obtain ⟨rfl, rfl⟩ := Prod.mk.inj hwrite
      refine ⟨?_, hs⟩
      by_contra hpruned
      exact hs.unhampered hpruned hcare hfails
    · rw [if_neg hfails] at hwrite
      obtain ⟨rfl, rfl⟩ := Prod.mk.inj hwrite
      exact ⟨⟨hs.held, rfl, hs.superseded, hs.pruned⟩, hs.borne⟩
  · cases a with
    | ok _ => exact Triple.ret Books.stable fun s _ hs => hs
    | error e => exact Triple.fail ((Stable.const _).and Books.stable) fun s _ hs => hs

/-- **`signCRLLocked`** writes a CRL with the entries it is given, which are listed already or
borne by an entry; if it was a prune that made it necessary, it does not fail. -/
theorem signCRLLocked_books {stored : StoredCRL} {revoked : List RevocationEntry}
    (hread : ReadOf ca.caCert b stored) (hdec : pruned ≠ [] → decodeCRLChain stored.blob ≠ none)
    (hrevoked : ∀ e ∈ revoked, e.serialNumber ∈ stored.own.serials ∨ N e.serialNumber) :
    Triple (booksDiscipline ca.caCert) t j (Books t ns b l pruned N)
      (signCRLLocked ca stored revoked) fun r s => match r with
        | .ok _ => ∃ b', WroteEntries ca.caCert revoked b' ∧ Books t ns b' l pruned N s
        | .error _ => pruned = [] ∧ Books t ns b l pruned N s := by
  refine benign_cmd_bind Books.stable aboutBooks_books (c := .now) trivial fun now => ?_
  -- The signature: it fails only where nothing was pruned.
  refine Triple.call (R := fun a s => (match a with
      | .ok crl => crl.entries = revoked ∧ crl.signedBy = ca.caCert.publicKey ∧
          crl.issuer = ca.caCert.subject
      | .error _ => pruned = []) ∧ Books t ns b l pruned N s) Books.stable (fun _ _ _ => trivial) ?_
    fun a => Triple.pure_pre fun ha => ?_
  · intro s ch a s' _ hs he
    obtain ⟨he, hcare⟩ := execCareful_eq_some he
    cases he
    refine ⟨?_, hs⟩
    by_cases hfails : ch.fails = true
    · simp only [hfails, if_true]
      by_contra hpruned
      exact hs.unhampered hpruned hcare hfails
    · simp only [hfails]
      exact ⟨rfl, rfl, rfl⟩
  cases a with
  | error e => exact Triple.fail Books.stable fun s _ hs => ⟨ha, hs⟩
  | ok crl =>
    obtain ⟨hentries, hsigned, -⟩ := ha
    have hserials : crl.serials = revoked.map RevocationEntry.serialNumber := by
      rw [RevocationList.serials, hentries]
    have hown := hread.signs hsigned
    refine (crlChainLocked_books hdec).seq (fun _ _ hs => hs) fun chain => Triple.pure_pre ?_
    rintro ⟨ancestors, rfl, hforeign⟩
    have hlisted : listedIn ca.caCert (some (encodeCRLChain (crl :: ancestors))) =
        revoked.map RevocationEntry.serialNumber :=
      (listedIn_of_storedOwn (storedOwn_encode hown hforeign)).trans hserials
    refine (updateCRL_books fun m hm => ?_).seq (fun _ _ hs => hs) fun _ => ?_
    · rw [hlisted] at hm
      obtain ⟨e, he, rfl⟩ := List.mem_map.mp hm
      rw [hread.listedIn]
      exact hrevoked e he
    · refine (benign_spec Books.stable aboutBooks_books
        (always_benign (modifyMemory_always _))).weaken ?_
      rintro _ s - ⟨rfl, hs⟩
      exact ⟨_, hlisted, hs⟩

end OpenvoxCa.Ca
