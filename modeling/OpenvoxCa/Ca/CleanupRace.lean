import OpenvoxCa.Ca.Conservation

/-!
# Cleanup among other operations

A cleanup pass deletes the stored certificate of a subject whose inventory entry it has pruned,
provided that the stored certificate is still the pruned one: it reads the certificate, compares the
serials, and deletes. The pass holds the CRL lock meanwhile, and issuance takes the lock of the
subject, so nothing keeps a certificate from being stored in between (`cleanup_deletes_successor`).

That is the only thing that can go wrong. `cleanup_deletes_pruned` lets any number of passes run
among threads that run *anything at all* – the operations of this server, or whatever else is made
of its commands – and asks of them one thing, that no certificate is stored for a subject at a
moment at which a pass is about to delete the certificate of that subject. What such a pass deletes
is then what it has pruned.

Of the program of a pass one fact is used (`Guarded`): a delete comes right after a read of the same
certificate that has found a serial the pass has pruned.
-/

namespace OpenvoxCa.Ca

open Conc

/-! ### The workload -/

/-- The jobs: cleanup passes, and anything at all. -/
inductive RaceJob
  | cleanup (ca : CA) (retain : Duration)
  | other (p : Prog Result)

def raceBody : RaceJob → Prog Result
  | .cleanup ca retain => operation ca (.cleanupExpiredCerts retain)
  | .other p => p

/-- Cleanup passes among other programs. -/
abbrev race : Workload interface Tid where
  Job := RaceJob
  Err := Failure
  Res := Result
  body := fun _ => raceBody

/-- A cluster in the middle of such a run. -/
abbrev Race := Pool machine race

abbrev RaceEvent := Label machine race

/-- A pass of thread `t` is about to delete the certificate of the subject. -/
def Race.AboutToDelete (p : Race) (t : Tid) (subject : Text) : Prop :=
  ∃ ca retain k, p.thread t = .running (.cleanup ca retain) (.call (.deleteCert subject) k)

/-- **Nothing comes in between**: the event does not store a certificate for a subject whose
certificate a pass is about to delete. -/
def Race.Undisturbed (p : Race) (l : RaceEvent) : Prop :=
  ∀ u ch j subject blob k, l = .step u ch →
    p.thread u = .running j (.call (.saveCert subject blob) k) → ∀ t, ¬p.AboutToDelete t subject

/-- The serials that the next command of a thread prunes. -/
def pruning (s : State) (ch : Choice) : Thread machine race → List ℤ
  | .running _ (.call (.pruneInventory keep) _) =>
    entrySerials (prunedEntries s.inventory keep ch)
  | _ => []

/-- What is noted of a run: the serials that each thread has pruned from the inventory in the
job it is running. -/
def Race.notePruned (p : Race) (l : RaceEvent) (pruned : Tid → List ℤ) : Tid → List ℤ :=
  match l with
  | .start t _ => Function.update pruned t []
  | .step t ch => Function.update pruned t (pruned t ++ pruning p.shared ch (p.thread t))
  | .finish _ => pruned

/-- The serials that each thread has pruned in the job it is running at the end of a run. -/
def Race.pruned (p : Race) (ls : List RaceEvent) : Tid → List ℤ :=
  p.noting Race.notePruned ls fun _ => []

/-! ### The program of a pass -/

section Program

variable {α β : Type} {S S' : List ℤ} {last : Option (Text × CertBlob)}

/-- What a pass may do that has pruned the serials `S` and has just read `last`: delete a
certificate that it has just read and whose serial it has pruned. -/
def Cmd.Guard (S : List ℤ) (last : Option (Text × CertBlob)) : Cmd → Prop
  | .deleteCert subject => ∃ blob cert, last = some (subject, blob) ∧ blob.parsed = some cert ∧
      cert.serialNumber ∈ S
  | _ => True

/-- The serials pruned after a command. -/
def prunedAfter (S : List ℤ) : (c : Cmd) → c.Ans → List ℤ
  | .pruneInventory _, a => S ++ entrySerials a.1
  | _, _ => S

/-- The certificate that a command has read. -/
def justRead : (c : Cmd) → c.Ans → Option (Text × CertBlob)
  | .getCert subject, .ok blob => some (subject, blob)
  | _, _ => none

/-- **A program whose deletes are guarded**, whatever the answers are. -/
def Guarded (S : List ℤ) (last : Option (Text × CertBlob)) : Prog α → Prop
  | .ret _ => True
  | .fail _ => True
  | .call c k => Cmd.Guard S last c ∧ ∀ a, Guarded (prunedAfter S c a) (justRead c a) (k a)

theorem subset_prunedAfter (S : List ℤ) (c : Cmd) (a : c.Ans) : S ⊆ prunedAfter S c a := by
  cases c <;> first | exact List.Subset.refl _ | exact List.subset_append_left _ _

def Cmd.DeletesNothing : Cmd → Prop
  | .deleteCert _ => False
  | _ => True

variable {p : Prog α}

theorem guarded_of_only (hp : p.Only Cmd.DeletesNothing) : Guarded S last p := by
  induction p generalizing S last with
  | ret | fail => trivial
  | call c k ih =>
    refine ⟨?_, fun a => ih a (hp.2 a)⟩
    cases c <;> first | trivial | exact hp.1.elim

/-- Sequencing: the second program is guarded whatever has been read before. -/
theorem guarded_bind {f : α → Prog β} (hp : Guarded S last p)
    (hf : ∀ a S' last', S ⊆ S' → Guarded S' last' (f a)) : Guarded S last (p.bind f) := by
  induction p generalizing S last with
  | ret a => exact hf a S last (List.Subset.refl _)
  | fail e => trivial
  | call c k ih =>
    exact ⟨hp.1, fun a => ih a (hp.2 a) fun b S' last' hS =>
      hf b S' last' (List.Subset.trans (subset_prunedAfter S c a) hS)⟩

theorem guarded_attempt (hp : Guarded S last p) :
    Guarded S last (p.attempt : Prog (Except Failure α)) := by
  induction p generalizing S last with
  | ret | fail => trivial
  | call c k ih => exact ⟨hp.1, fun a => ih a (hp.2 a)⟩

theorem guarded_ensure {fin : Prog Unit} (hp : Guarded S last p)
    (hfin : fin.Only Cmd.DeletesNothing) : Guarded S last (p.ensure fin) :=
  guarded_bind (guarded_attempt hp) fun r _ _ _ => guarded_of_only
    (Prog.only_bind hfin fun _ => Prog.only_ofExcept r)

/-- A delete is guarded by the comparison before it. -/
theorem guarded_deleteStoredCert {subject serial : Text}
    (hS : ∀ n, setString16 serial = some n → n ∈ S) :
    Guarded S last (deleteStoredCertIfSerialMatches subject serial) := by
  refine ⟨trivial, fun a => ?_⟩
  cases a with
  | error e => trivial
  | ok blob =>
    simp only [Prog.ret_bind]
    split
    · next cert want hcert hwant =>
      split
      · next heq =>
        refine ⟨⟨blob, cert, rfl, hcert, ?_⟩, fun _ => trivial⟩
        rw [serialHexStr_inj.mp heq]
        exact hS want hwant
      · trivial
    · trivial

theorem guarded_deleteStoredCerts {dropped : List InventoryEntry} (hS : entrySerials dropped ⊆ S) :
    Guarded S last (deleteStoredCerts dropped) := by
  induction dropped generalizing S last with
  | nil => trivial
  | cons e rest ih =>
    have hrest : entrySerials rest ⊆ S := fun n hn => hS (by
      obtain ⟨e', he', hn⟩ := List.mem_filterMap.mp hn
      exact List.mem_filterMap.mpr ⟨e', List.mem_cons_of_mem _ he', hn⟩)
    refine guarded_bind (guarded_deleteStoredCert fun n hn => hS ?_) fun _ S' _ hSS' =>
      ih (List.Subset.trans hrest hSS')
    exact List.mem_filterMap.mpr ⟨e, List.mem_cons_self, hn⟩

theorem deletesNothing_of_local (hp : p.Only Cmd.Local) : p.Only Cmd.DeletesNothing :=
  Prog.always_imp hp fun c hc => by cases c <;> trivial

theorem deletesNothing_dropCRLEntriesLocked (ca : CA) (removed : List Text) :
    (dropCRLEntriesLocked ca removed).Only Cmd.DeletesNothing := by
  have hreads : Prog.Closed Cmd.Reads fun {α} (p : Prog α) => p.Only Cmd.DeletesNothing :=
    Prog.closed_only fun c hc => by cases c <;> first | exact hc.elim | trivial
  exact closed_dropCRLEntriesLocked hreads (closed_signCRLLocked hreads (fun _ => only_cmd trivial)
    fun _ => deletesNothing_of_local (local_modifyMemory _)) removed

/-- The body of a pass: what it deletes certificates for are the entries it has pruned. -/
theorem guarded_cleanupLocked (ca : CA) (cutoff : Time) :
    Guarded S last (cleanupLocked ca cutoff) := by
  refine ⟨trivial, fun a => ?_⟩
  obtain ⟨dropped, pruneErr⟩ := a
  simp only [Prog.ret_bind]
  split
  · trivial
  · refine guarded_bind (guarded_of_only (deletesNothing_of_local (local_modifyMemory _)))
      fun _ S₁ _ hS₁ => ?_
    refine guarded_bind (guarded_of_only (Prog.only_attempt
      (deletesNothing_dropCRLEntriesLocked ca _))) fun r S₂ _ hS₂ => ?_
    refine guarded_bind (guarded_deleteStoredCerts ?_) fun _ _ _ _ => trivial
    exact List.Subset.trans (List.subset_append_right _ _) (List.Subset.trans hS₁ hS₂)

/-- **The deletes of a pass are guarded.** -/
theorem guarded_cleanup (ca : CA) (retain : Duration) :
    Guarded S last (raceBody (.cleanup ca retain)) := by
  have hlocked : ∀ S last cutoff, Guarded S last
      (withLock .crl (withMutex (cleanupLocked ca cutoff))) := by
    intro S last cutoff
    refine guarded_bind (guarded_of_only (only_ask (only_cmd (c := .lock .crl) trivial)))
      fun _ _ _ _ => ?_
    refine guarded_ensure ?_ (only_cmd (c := .unlock .crl) trivial)
    refine guarded_bind (guarded_of_only (only_cmd (c := .lockMutex) trivial)) fun _ _ _ _ => ?_
    exact guarded_ensure (guarded_cleanupLocked ca cutoff) (only_cmd (c := .unlockMutex) trivial)
  have hpass : Guarded S last (cleanupExpiredCerts ca retain) := by
    refine guarded_bind (guarded_of_only (only_cmd (c := .now) trivial)) fun now _ _ _ => ?_
    refine guarded_bind (guarded_attempt (hlocked _ _ _)) fun r _ _ _ => ?_
    cases r <;> trivial
  exact guarded_bind hpass fun _ _ _ _ => trivial

end Program

/-! ### Every run -/

/-- **What is known of a pass that is under way**: its deletes are guarded, and when it is
about to delete a certificate, what is stored is what it has read, or nothing. -/
structure Watched (S : List ℤ) (s : State) (rest : Prog Result) : Prop where
  guarded : ∃ last, Guarded S last rest
  fresh : ∀ subject k, rest = .call (.deleteCert subject) k → ∃ blob cert,
    blob.parsed = some cert ∧ cert.serialNumber ∈ S ∧
      (s.certs subject = none ∨ s.certs subject = some blob)

/-- Every pass under way is watched. -/
def Race.Watching (p : Race) (pruned : Tid → List ℤ) : Prop :=
  ∀ t ca retain rest, p.thread t = .running (.cleanup ca retain) rest →
    Watched (pruned t) p.shared rest

/-- One command of a pass. -/
theorem Watched.next {S : List ℤ} {t : Tid} {s s' : State} {c : Cmd} {k : c.Ans → Prog Result}
    {ch : Choice} {a : c.Ans} (h : Watched S s (.call c k)) (hex : exec t s c ch = some (a, s')) :
    Watched (prunedAfter S c a) s' (k a) := by
  obtain ⟨last, -, hrest⟩ := h.guarded
  refine ⟨⟨_, hrest a⟩, fun subject k' hk => ?_⟩
  have hguard := hrest a
  rw [hk] at hguard
  obtain ⟨blob, cert, hread, hparsed, hserial⟩ := hguard.1
  refine ⟨blob, cert, hparsed, hserial, Or.inr ?_⟩
  -- The certificate was read by this very command.
  cases c with
  | getCert name =>
    cases a with
    | error e => cases hread
    | ok b =>
      cases hread
      obtain ⟨hok, rfl⟩ := Prod.mk.inj (Option.some.inj hex)
      exact readOutcome_eq_ok hok
  | _ => cases hread

/-- A command of somebody else that stores no certificate where a pass is about to delete. -/
theorem Watched.transfer {S : List ℤ} {u : Tid} {s s' : State} {c : Cmd} {rest : Prog Result}
    (h : Watched S s rest) (he : Effect u s c s')
    (hc : ∀ subject blob, c = .saveCert subject blob →
      ∀ k, rest ≠ .call (.deleteCert subject) k) : Watched S s' rest := by
  refine ⟨h.guarded, fun subject k hk => ?_⟩
  obtain ⟨blob, cert, hparsed, hserial, hstored⟩ := h.fresh subject k hk
  refine ⟨blob, cert, hparsed, hserial, ?_⟩
  cases he with
  | saveCert =>
    next name b =>
    have hne : subject ≠ name := by
      rintro rfl
      exact hc _ _ rfl k hk
    simpa [hne] using hstored
  | deleteCert =>
    next name =>
    by_cases hname : subject = name
    · subst hname
      simp
    · simpa [hname] using hstored
  | _ => exact hstored

variable {pruned : Tid → List ℤ}

/-- What is noted of a command is what it pruned. -/
theorem Race.notePruned_self {p : Race} {t : Tid} {j : RaceJob} {c : Cmd} {k : c.Ans → Prog Result}
    {ch : Choice} {a : c.Ans} {s : State} (ht : p.thread t = .running j (.call c k))
    (hex : exec t p.shared c ch = some (a, s)) :
    p.notePruned (.step t ch) pruned t = prunedAfter (pruned t) c a := by
  refine (Function.update_self ..).trans ?_
  rw [ht]
  cases c with
  | pruneInventory keep =>
    obtain ⟨rfl, -⟩ := Prod.mk.inj (Option.some.inj hex)
    rfl
  | _ => exact List.append_nil _

theorem Race.notePruned_other {p : Race} {t : Tid} {l : RaceEvent} (hl : l.tid ≠ t) :
    p.notePruned l pruned t = pruned t := by
  cases l with
  | start | step => exact Function.update_of_ne (Ne.symm hl) ..
  | finish u => rfl

theorem Race.watching_next {p q : Race} {l : RaceEvent} (h : p.Watching pruned)
    (hl : p.Undisturbed l) (hnext : p.next l = some q) : q.Watching (p.notePruned l pruned) := by
  intro t ca retain rest ht
  obtain ⟨rfl, rfl, hs⟩ | ⟨ch, c, k, a, rfl, hp, hex, rfl⟩ | ⟨hne, hp, hs⟩ :=
    Pool.next_running hnext ht
  · rw [show p.notePruned (.start t (.cleanup ca retain)) pruned t = [] from
      Function.update_self ..]
    exact ⟨⟨none, guarded_cleanup ca retain⟩, by rintro subject k ⟨⟩⟩
  · rw [Race.notePruned_self hp hex]
    exact (h t ca retain _ hp).next hex
  · rw [Race.notePruned_other hne]
    rcases hs with hs | ⟨ch, i, c, k, a, hstep, hu, hex⟩
    · rw [hs]
      exact h t ca retain rest hp
    · refine (h t ca retain rest hp).transfer (exec_effect hex) ?_
      rintro subject blob rfl k' rfl
      exact hl _ ch i subject blob k hstep hu t ⟨ca, retain, k', hp⟩

/-- **A cleanup pass deletes only what it has pruned**, among threads that run anything at all:
in every run in which no certificate is stored for a subject while a pass is about to delete the
certificate of that subject, the certificate that a pass is about to delete has a serial that
this pass has pruned from the inventory. -/
theorem cleanup_deletes_pruned {s₀ : State} {ls : List RaceEvent} {q : Race}
    (hrun : (Pool.initial s₀ : Race).run ls = some q)
    (hls : (Pool.initial s₀ : Race).Throughout Race.Undisturbed ls) {t : Tid} {subject : Text}
    (ht : q.AboutToDelete t subject) {blob : CertBlob}
    (hblob : q.shared.certs subject = some blob) :
    ∃ cert, blob.parsed = some cert ∧
      cert.serialNumber ∈ Race.pruned (Pool.initial s₀) ls t := by
  have hinit : Race.Watching (Pool.initial s₀) fun _ => [] := by
    rintro t ca retain rest ⟨⟩
  have hq : q.Watching (Race.pruned (Pool.initial s₀) ls) :=
    Pool.noting_of_run (C := Race.Undisturbed) Race.watching_next hinit hls hrun
  obtain ⟨ca, retain, k, ht⟩ := ht
  obtain ⟨b, cert, hparsed, hserial, hstored⟩ := (hq t ca retain _ ht).fresh subject k rfl
  rw [hblob] at hstored
  obtain rfl := Option.some.inj (hstored.resolve_left (by simp))
  exact ⟨cert, hparsed, hserial⟩

/-! A node whose certificate has expired asks for a new one while its entry is cleaned up. -/

/-- The certificate `05` of the node `n`, which expired at time `10`. -/
def expiredLeaf : Certificate :=
  { serialNumber := 5
    subject := { commonName := ['n'] }
    notAfter := 10
    publicKey := { id := 7 }
    signedBy := sampleCert.publicKey }

/-- Its storage: the certificate, its entry, and the request for another one. -/
def expiredState : State :=
  { crl := some (encodeCRLChain [sampleCRL])
    certs := fun _ => some { parsed := some expiredLeaf }
    requests := fun _ => some
      { parsed := some { subject := { commonName := ['n'] }, publicKey := { id := 7 } } }
    inventory :=
      [{ serial := ['0', '5'], notBefore := some 0, notAfter := some 10, subject := ['n'] }] }

/-- One thread takes a number of steps at time `50`, where `9` is the next random serial. -/
def raceSteps (t : Tid) (steps : ℕ) : List RaceEvent :=
  List.replicate steps (.step t { time := 50, number := 9 })

/-- A pass gets as far as deleting the certificate. -/
def passReads : List RaceEvent :=
  .start ⟨0, 0⟩ (.cleanup { caCert := sampleCert } 0) :: raceSteps ⟨0, 0⟩ 8

/-- The request is signed on another replica. -/
def requestSigned : List RaceEvent :=
  .start ⟨1, 0⟩ (.other (operation { caCert := sampleCert } (.signWithTTL ['n'] 0))) ::
    raceSteps ⟨1, 0⟩ 13

/-- The subject whose certificate the thread is about to delete. -/
def deleting (p : Race) (t : Tid) : Option Text :=
  match p.thread t with
  | .running (.cleanup _ _) (.call (.deleteCert subject) _) => some subject
  | _ => none

theorem aboutToDelete_of_deleting {p : Race} {t : Tid} {subject : Text}
    (h : deleting p t = some subject) : p.AboutToDelete t subject := by
  unfold deleting at h
  split at h
  · next hth =>
    obtain rfl := Option.some.inj h
    exact ⟨_, _, _, hth⟩
  · cases h

/-- **Cleanup deletes a certificate it has not pruned.** The pass reads the expired certificate
`5` of the node; another replica signs the node's request and stores the certificate `9`; the
pass, which has pruned `5` and nothing else, deletes it. -/
theorem cleanup_deletes_successor : ∃ p q : Race,
    (Pool.initial expiredState : Race).run (passReads ++ requestSigned) = some p ∧
      p.AboutToDelete ⟨0, 0⟩ ['n'] ∧ storedSerial p.shared ['n'] = some 9 ∧
      Race.pruned (Pool.initial expiredState) (passReads ++ requestSigned) ⟨0, 0⟩ = [5] ∧
      p.next (.step ⟨0, 0⟩ {}) = some q ∧ q.shared.certs ['n'] = none := by
  have hrun : ((Pool.initial expiredState : Race).run (passReads ++ requestSigned)).map
      (fun p => (deleting p ⟨0, 0⟩, storedSerial p.shared ['n'],
        (p.next (.step ⟨0, 0⟩ {})).map fun q => q.shared.certs ['n'])) =
      some (some ['n'], some 9, some none) := by decide +kernel
  obtain ⟨p, hp, hv⟩ := Option.map_eq_some_iff.mp hrun
  obtain ⟨hdelete, hv⟩ := Prod.mk.inj hv
  obtain ⟨hstored, hv⟩ := Prod.mk.inj hv
  obtain ⟨q, hq, hgone⟩ := Option.map_eq_some_iff.mp hv
  exact ⟨p, q, hp, aboutToDelete_of_deleting hdelete, hstored, by decide +kernel, hq, hgone⟩

/-- The event stores no certificate. -/
def storesNothing (p : Race) : RaceEvent → Bool
  | .step u _ =>
    match p.thread u with
    | .running _ (.call (.saveCert _ _) _) => false
    | _ => true
  | _ => true

theorem undisturbed_of_storesNothing {p : Race} {l : RaceEvent} (h : storesNothing p l = true) :
    p.Undisturbed l := by
  rintro u ch j subject blob k rfl hu
  simp [storesNothing, hu] at h

/-- Left to itself, the pass deletes the certificate that it has pruned. -/
theorem cleanup_deletes_pruned_sample : ∃ p : Race, ∃ blob cert,
    (Pool.initial expiredState : Race).run passReads = some p ∧
      p.AboutToDelete ⟨0, 0⟩ ['n'] ∧ p.shared.certs ['n'] = some blob ∧
      blob.parsed = some cert ∧
      cert.serialNumber ∈ Race.pruned (Pool.initial expiredState) passReads ⟨0, 0⟩ := by
  have hrun : ((Pool.initial expiredState : Race).run passReads).map
      (fun p => (deleting p ⟨0, 0⟩, p.shared.certs ['n'])) =
      some (some ['n'], some { parsed := some expiredLeaf }) := by decide +kernel
  have hcalm : (Pool.initial expiredState : Race).Throughout Race.Undisturbed passReads :=
    Pool.throughout_of_check undisturbed_of_storesNothing (by decide +kernel)
  obtain ⟨p, hp, hv⟩ := Option.map_eq_some_iff.mp hrun
  obtain ⟨hdelete, hstored⟩ := Prod.mk.inj hv
  have habout := aboutToDelete_of_deleting hdelete
  obtain ⟨cert, hparsed, hserial⟩ := cleanup_deletes_pruned hp hcalm habout hstored
  exact ⟨p, _, cert, hp, habout, hstored, hparsed, hserial⟩

end OpenvoxCa.Ca
