import OpenvoxCa.Ca.Alone
import OpenvoxCa.Ca.Managed
import OpenvoxCa.Ca.RequestSpecs
import OpenvoxCa.Conc.Protocol

/-!
# The certificate index

Structured backends keep, beside each line of the inventory, the fields of the certificate that a
listing shows. This file has the cluster of `machine` with such an index (`IndexState`), in which a
thread may stop for good between any two of its commands: its locks are freed, and what it goes on
to ask for has no effect (`execIndexed`).

Storing a certificate takes two writes, the certificate and its line. In between, the newest line of
the subject is that of an earlier certificate, if it has one. A thread is meanwhile *at it*, which
is a state of a protocol (`storing`): who is at it holds the lock of the subject, and goes on to
write the line or to delete the certificate. Every operation follows the protocol (`stays_job`), if
a pass over a managed certificate puts nothing back.
-/

namespace OpenvoxCa.Ca

open Conc

/-! ### The machine -/

/-- A row of the index: a line of the inventory, and the certificate that its fields are taken from,
unless they have never been filled in. -/
structure IndexRow where
  entry : InventoryEntry
  projected : Option Certificate
  deriving DecidableEq, Repr

/-- **A cluster with an index.** -/
structure IndexState where
  store : State := {}
  /-- The rows, in the order of issuance. -/
  rows : List IndexRow := []
  /-- The certificate that each thread has stored without its line, with its subject. -/
  unrecorded : Tid → Option (Text × Certificate) := fun _ => none
  /-- The threads that have stopped for good. -/
  crashed : Tid → Bool := fun _ => false

/-- What the environment chooses, with whether the thread stops instead. -/
structure IndexChoice extends Choice where
  crash : Bool := false

namespace IndexState

/-- A thread stops, and its locks are freed. -/
def crash (s : IndexState) (t : Tid) : IndexState :=
  { s with
    crashed := Function.update s.crashed t true
    unrecorded := Function.update s.unrecorded t none
    store :=
      { s.store with
        owner := fun n => if s.store.owner n = some t then none else s.store.owner n
        mutex := fun r => if s.store.mutex r = some t then none else s.store.mutex r } }

/-- A thread is at a certificate, or at none. -/
def setUnrecorded (s : IndexState) (t : Tid) (o : Option (Text × Certificate)) : IndexState :=
  { s with unrecorded := Function.update s.unrecorded t o }

/-- The rows that a prune leaves. -/
def keptRows (s : IndexState) (keep : InventoryEntry → Bool) (ch : Choice) : List IndexRow :=
  Data.retainAt (fun r i => !(!keep r.entry && ch.removes i)) s.rows

/-- The index after a command: an appended line gets a row with the fields of the certificate that
the thread has stored, a pruned line loses its row. -/
def after (s : IndexState) (t : Tid) (c : Cmd) (ch : Choice) (store : State) : IndexState :=
  match c with
  | .saveCert n blob =>
    if ch.fails then { s with store }
    else { s with store }.setUnrecorded t (blob.parsed.map fun cert => (n, cert))
  | .deleteCert _ => { s with store }.setUnrecorded t none
  | .appendInventory entry =>
    if store.inventory.length = s.store.inventory.length then { s with store }
    else
      let row : IndexRow := { entry, projected := (s.unrecorded t).map Prod.snd }
      if ch.fails then { s with store, rows := s.rows ++ [row] }
      else { s with store, rows := s.rows ++ [row] }.setUnrecorded t none
  | .pruneInventory keep =>
    { s with store, rows := s.keptRows keep ch }
  | _ => { s with store }

end IndexState

/-- What a thread that has stopped would be answered; it is not there to be told. -/
def deadAnswer : (c : Cmd) → c.Ans
  | .lock _ => .error .lock
  | .unlock _ => ()
  | .lockMutex => ()
  | .unlockMutex => ()
  | .getMemory => {}
  | .setMemory _ => ()
  | .now => 0
  | .randomSerial => .error .signing
  | .readChainFile => .fault
  | .createRevocationList _ => .error .signing
  | .createCertificate _ => .error .signing
  | .getCRL => .error .storage
  | .updateCRL _ => .error .storage
  | .getSuperseded => .error .storage
  | .saveSuperseded _ => .error .storage
  | .hasCACert => .error .storage
  | .getCACert => .error .storage
  | .saveCACert _ => .error .storage
  | .certExists _ => .error .storage
  | .getCert _ => .error .storage
  | .saveCert _ _ => .error .storage
  | .deleteCert _ => .error .storage
  | .csrExists _ => .error .storage
  | .getCSR _ => .error .storage
  | .saveCSR _ _ => .error .storage
  | .deleteCSR _ => .error .storage
  | .serialExists _ => .error .storage
  | .subjectForSerial _ => .error .storage
  | .latestSerialForSubject _ => .error .storage
  | .appendInventory _ => .error .storage
  | .pruneInventory _ => ([], some .storage)
  | .hasSerial => .error .storage
  | .writeSerial => .error .storage
  | .saveOther => .error .storage

/-- **What a command does** in a cluster with an index. -/
def execIndexed (t : Tid) (s : IndexState) (c : Cmd) (ch : IndexChoice) :
    Option (c.Ans × IndexState) :=
  if s.crashed t then some (deadAnswer c, s)
  else if ch.crash then some (deadAnswer c, s.crash t)
  else (exec t s.store c ch.toChoice).map fun r => (r.1, s.after t c ch.toChoice r.2)

abbrev indexMachine : Machine interface := ⟨IndexState, Tid, IndexChoice, execIndexed⟩

/-- What the threads run: the tasks of an issuing cluster, and passes over managed certificates. -/
inductive IndexTask
  | task (task : Task)
  | managed (m : ManagedCert)
  deriving DecidableEq

/-- A task, and the settings it runs under. -/
structure IndexJob where
  task : IndexTask
  config : Config := {}
  deriving DecidableEq

def indexProgram (ca : CA) : IndexTask → Prog TaskResult
  | .task task => taskProgram ca task
  | .managed m => do return .flag (← reconcileManagedCert ca m)

/-- **The workload of a cluster with an index.** -/
abbrev indexing (caCert : Certificate) : Workload interface Tid where
  Job := IndexJob
  Err := Failure
  Res := TaskResult
  body := fun _ j => indexProgram { toConfig := j.config, caCert := caCert } j.task

/-- A cluster with an index in the middle of a run. -/
abbrev IndexCluster (caCert : Certificate) := Pool indexMachine (indexing caCert)

abbrev IndexEvent (caCert : Certificate) := Label indexMachine (indexing caCert)

/-! ### The protocol of a certificate and its line -/

/-- **Where a thread is**: the subjects whose locks it holds, and the certificate it has stored
without its line, if it is at one. -/
structure Storing where
  subjects : List Text := []
  opened : Option (Text × Certificate) := none
  deriving DecidableEq

/-- What a thread may ask for: locks of valid subjects only, and everything under the lock of its
subject. A certificate is stored, then its line is written, or it is deleted again, before the lock
is released. -/
def Storing.Allows (q : Storing) : Cmd → Prop
  | .saveCert n blob => n ∈ q.subjects ∧ q.opened = none ∧ blob.parsed.isSome = true
  | .appendInventory e => ∃ n cert, q.opened = some (n, cert) ∧ e = inventoryEntryFor n cert
  | .deleteCert n => ∀ p, q.opened = some p → p.1 = n
  | .saveCSR n _ => n ∈ q.subjects
  | .lock (.subject n) => validateSubject n = true
  | .unlock (.subject n) => n ∈ q.subjects ∧ ∀ p, q.opened = some p → p.1 ≠ n
  | _ => True

/-- Where an answer leads. After a deletion the thread is at nothing any more, even if it fails. -/
def Storing.next (q : Storing) : (c : Cmd) → c.Ans → Option Storing
  | .saveCert n blob, .ok _ => some { q with opened := blob.parsed.map fun cert => (n, cert) }
  | .appendInventory _, .ok _ => some { q with opened := none }
  | .deleteCert _, _ => some { q with opened := none }
  | .lock (.subject n), .ok _ => some { q with subjects := n :: q.subjects }
  | .unlock (.subject n), _ => some { q with subjects := q.subjects.filter fun m => m ≠ n }
  | _, _ => some q

abbrev storing : Protocol interface Storing := ⟨Storing.Allows, Storing.next⟩

/-- The commands that store nothing of a subject, write no line, and leave the locks of subjects
alone. -/
def Cmd.Tame : Cmd → Prop
  | .saveCert _ _ => False
  | .saveCSR _ _ => False
  | .appendInventory _ => False
  | .lock (.subject _) => False
  | .unlock (.subject _) => False
  | _ => True

theorem Cmd.Local.tame {c : Cmd} (h : c.Local) : c.Tame := by
  cases c <;> first | exact h.elim | trivial

section Programs

variable {ca : CA} {α β : Type} {subjects : List Text}

theorem tame_local {p : Prog α} {R : Except Failure α → Prop} (h : p.Always Cmd.Local R) :
    p.Only Cmd.Tame :=
  Prog.always_imp (Prog.always_mono h fun _ _ => trivial) fun _ => Cmd.Local.tame

theorem Cmd.Neutral.tame {c : Cmd} (h : c.Neutral) : c.Tame := by
  cases c <;> first | exact h.elim | trivial

theorem tame_signCRLLocked (stored : StoredCRL) (revoked : List RevocationEntry) :
    (signCRLLocked ca stored revoked).Only Cmd.Tame :=
  closed_signCRLLocked (Prog.closed_only fun _ h => h.neutral.tame)
    (fun _ => only_cmd trivial) (fun _ => tame_local (local_modifyMemory _)) _ _

/-! #### Programs that follow the protocol -/

theorem Cmd.Tame.allows {c : Cmd} (h : c.Tame) : Storing.Allows { subjects } c := by
  cases c with
  | saveCert | saveCSR | appendInventory => exact h.elim
  | deleteCert n => exact fun _ hp => absurd hp (by simp)
  | lock n | unlock n => cases n <;> first | exact h.elim | trivial
  | _ => trivial

theorem Cmd.Tame.next {c : Cmd} (h : c.Tame) {a : c.Ans} {q : Storing}
    (hq : Storing.next { subjects } c a = some q) : q = { subjects } := by
  cases c with
  | saveCert | saveCSR | appendInventory => exact h.elim
  | deleteCert n => exact (Option.some.inj hq).symm
  | lock n => cases n <;> cases a <;> first | exact h.elim | exact (Option.some.inj hq).symm
  | unlock n => cases n <;> first | exact h.elim | exact (Option.some.inj hq).symm
  | _ => exact (Option.some.inj hq).symm

/-- **Tame commands leave a thread where it is**, unless it is at a certificate. -/
theorem stays_of_tame {p : Prog α} (h : p.Only Cmd.Tame) : Stays storing { subjects } p :=
  Stays.of_only (C := Cmd.Tame) (fun _ hc => ⟨hc.allows, fun _ _ => hc.next⟩) h

theorem stays_withMutex {body : Prog α} (h : Stays storing { subjects } body) :
    Stays storing { subjects } (withMutex body) := by
  refine ⟨trivial, fun a q hq => ?_⟩
  obtain rfl := Option.some.inj hq
  refine Follows.ensure (h.mono fun r q hq => ?_)
  subst hq
  exact ⟨trivial, fun a q hq => (Option.some.inj hq).symm⟩

theorem stays_withCRLLock {body : Prog α} (h : Stays storing { subjects } body) :
    Stays storing { subjects } (withLock .crl body) := by
  refine ⟨trivial, fun a q hq => ?_⟩
  obtain rfl := Option.some.inj hq
  cases a with
  | error e => rfl
  | ok _ =>
    refine Follows.ensure (h.mono fun r q hq => ?_)
    subst hq
    exact ⟨trivial, fun a q hq => (Option.some.inj hq).symm⟩

/-- **Under the lock of a subject.** -/
theorem stays_withSubjectLock {subject : Text} {body : Prog α}
    (hvalid : validateSubject subject = true)
    (h : Stays storing { subjects := [subject] } body) :
    Stays storing {} (withLock (.subject subject) body) := by
  refine ⟨hvalid, fun a q hq => ?_⟩
  cases a with
  | error e => exact (Option.some.inj hq).symm
  | ok _ =>
    obtain rfl := Option.some.inj hq
    refine Follows.ensure (h.mono fun r q hq => ?_)
    subst hq
    refine ⟨⟨List.mem_singleton_self _, fun _ hp => absurd hp (by simp)⟩, fun a q hq => ?_⟩
    obtain rfl := Option.some.inj hq
    show (⟨_, _⟩ : Storing) = _
    congr 1
    simp

/-- **A certificate and its line**: where the line is not written, the certificate goes. -/
theorem stays_storeLocked {subject : Text} {cert : Certificate} {blob : CertBlob}
    (hsubject : subject ∈ subjects) (hblob : blob.parsed = some cert) :
    Stays storing { subjects } (storeLocked subject cert blob) := by
  refine ⟨⟨hsubject, rfl, by rw [hblob]; rfl⟩, fun a q hq => ?_⟩
  cases a with
  | error e => exact (Option.some.inj hq).symm
  | ok _ =>
    obtain rfl := Option.some.inj hq
    refine ⟨⟨subject, cert, by rw [hblob]; rfl, rfl⟩, fun a q hq => ?_⟩
    cases a with
    | ok _ =>
      obtain rfl := Option.some.inj hq
      exact stays_of_tame (tame_local (local_modifyMemory _))
    | error e =>
      obtain rfl := Option.some.inj hq
      have hat : ∀ p, blob.parsed.map (fun cert => (subject, cert)) = some p → p.1 = subject := by
        intro p hp
        obtain ⟨c, -, rfl⟩ := Option.map_eq_some_iff.mp hp
        rfl
      exact ⟨hat, fun a q hq => (Option.some.inj hq).symm⟩

/-- The subjects whose locks are among `ns`. -/
def heldSubjects (ns : List LockName) : List Text :=
  ns.filterMap fun n => match n with
    | .subject subject => some subject
    | _ => none

theorem mem_heldSubjects {ns : List LockName} {subject : Text} (h : .subject subject ∈ ns) :
    subject ∈ heldSubjects ns :=
  List.mem_filterMap.mpr ⟨_, h, rfl⟩

/-- **The pieces of the operations follow the protocol.** -/
theorem serves_storing (ca : CA) : Serves ca fun ns _ {_} p =>
    Stays storing { subjects := heldSubjects ns } p where
  closed := fun _ _ => Stays.closed fun hp =>
    stays_of_tame (Prog.always_imp hp fun _ => Cmd.Neutral.tame)
  withMutex := stays_withMutex
  withSubject := stays_withSubjectLock
  withCRL := fun _ => stays_withCRLLock
  sign := fun _ _ _ => stays_of_tame (tame_signCRLLocked _ _)
  refresh := fun d _ => stays_of_tame (closed_refreshCRLLocked (Prog.closed_only fun _ h =>
    h.neutral.tame) tame_signCRLLocked (fun _ => tame_local (local_modifyMemory _)) d)
  prune := fun _ _ => stays_of_tame (only_cmd trivial)
  save := fun _ _ => stays_of_tame (only_cmd trivial)
  modify := fun f _ => stays_of_tame (tame_local (local_modifyMemory f))
  load := stays_of_tame (tame_local (local_loadCRLCache ca))
  sync := stays_of_tame (tame_local (local_syncCRLCache ca))
  create := fun _ => stays_of_tame (only_cmd trivial)
  store := fun hns hblob => stays_storeLocked (mem_heldSubjects hns) hblob
  request := fun _ hns => ⟨mem_heldSubjects hns, fun _ _ hq => (Option.some.inj hq).symm⟩

/-! #### A pass over a managed certificate -/

/-- **A refused certificate puts another one back**: the one that the store of the entry holds. -/
def ManagedCert.Restores (caCert : Certificate) (m : ManagedCert) : Prop :=
  ∃ e material, m.save = .error e ∧ m.load = .ok material ∧
    currentIsThisSubjects caCert (material.certificate.bind CertBlob.parsed) m.spec.subject = true

/-- The certificate that a decision is about is the one that the store holds. -/
theorem issueDecision_current {material : Material} {want : CertSpec} {issuer : Certificate}
    {backdate : Duration} {now : Time} {revoked : Bool} :
    (issueDecision material want issuer backdate now revoked).2.2 =
      material.certificate.bind CertBlob.parsed := by
  unfold issueDecision
  cases material.certificate with
  | none => rfl
  | some blob =>
    cases hparsed : blob.parsed with
    | none => simp [hparsed]
    | some leaf =>
      simp only [Option.bind_some, hparsed]
      split
      · rfl
      · cases material.key with
        | absent | unusable => rfl
        | key pub => simp only; split_ifs <;> rfl

theorem validateSubject_of_validate {spec : CertSpec} {u : Unit} (h : spec.validate = .ok u) :
    validateSubject spec.subject = true := by
  by_contra hinvalid
  simp [CertSpec.validate, hinvalid] at h

theorem reads_storedMaterialRevoked (certificate : Option CertBlob) :
    (storedMaterialRevoked certificate).Only Cmd.Reads := by
  unfold storedMaterialRevoked
  split
  · trivial
  · refine Prog.only_bind (Prog.only_attempt (reads_isRevokedSerial _)) fun r => ?_
    cases r <;> trivial

theorem reads_warnIfDisplacing (subject : Text) (current : Option Certificate) :
    (warnIfDisplacing subject current).Only Cmd.Reads := by
  refine always_cmd_bind trivial fun r => ?_
  split
  · trivial
  split
  · trivial
  split
  · trivial
  · exact Prog.only_bind (Prog.only_attempt (reads_isRevokedSerial _)) fun _ => trivial

theorem stays_reconcileManagedCert {m : ManagedCert} (hm : ¬m.Restores ca.caCert) :
    Stays storing {} (reconcileManagedCert ca m) := by
  unfold reconcileManagedCert
  split
  · rfl
  next hspec =>
  have hserves := serves_storing ca
  have hsub := hserves.closed [.subject m.spec.subject] false
  have hcrl : LockName.crl ∉ [LockName.subject m.spec.subject] := by simp
  refine Stays.bind (stays_of_tame (only_cmd (c := .now) trivial)) fun now =>
    stays_withSubjectLock (validateSubject_of_validate hspec) ?_
  unfold reconcileUnderLock
  split
  · rfl
  next material hload =>
  refine hsub.bind (hsub.only (neutral_of_reads (reads_storedMaterialRevoked _)))
    fun revocation => ?_
  simp only [issueDecision_current]
  split
  · rfl
  split
  · rfl
  refine hsub.bind (hsub.only (neutral_of_reads (reads_warnIfDisplacing _ _))) fun _ => ?_
  unfold issueManagedUnderSubjectLock
  split
  · rfl
  refine hsub.bind (hserves.withMutex (hserves.issueLeafLocked List.mem_cons_self _ _ _ _ _ _))
    fun certPEM => ?_
  split
  · next e hsave =>
    refine hsub.bind ?_ fun _ => hsub.bind ?_ fun _ => rfl
    · unfold revokeUndelivered
      split
      · rfl
      · exact hsub.bind (hsub.attempt (hserves.section_crl hcrl
          (hserves.revokeSerialLocked _ List.mem_cons_self))) fun _ => rfl
    · unfold restoreCurrent
      split
      -- nothing is put back: that is what the condition says
      · next hours => exact absurd ⟨e, material, hsave, hload, hours⟩ hm
      · rfl
  · refine hsub.bind ?_ fun _ => rfl
    unfold retireCurrent
    split
    · rfl
    split
    · exact hsub.bind (hsub.attempt (hserves.supersedeReplacedAfter hcrl _ _ _)) fun _ => rfl
    · rfl

/-! #### Every job -/

/-- The jobs that put no certificate back. -/
def IndexJob.Keeps (caCert : Certificate) (j : IndexJob) : Prop :=
  ∀ m, j.task = .managed m → ¬m.Restores caCert

/-- **Every job follows the protocol**, if it puts no certificate back. -/
theorem stays_job {caCert : Certificate} {t : Tid} {j : IndexJob} (hj : j.Keeps caCert) :
    Stays storing {} ((indexing caCert).body t j) := by
  obtain ⟨task, config⟩ := j
  cases task with
  | managed m => exact Stays.bind (stays_reconcileManagedCert (hj m rfl)) fun _ => rfl
  | task task => exact (serves_storing _).task task

end Programs

end OpenvoxCa.Ca
