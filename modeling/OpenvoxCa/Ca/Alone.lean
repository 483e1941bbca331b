import OpenvoxCa.Ca.ServingSpecs
import OpenvoxCa.Conc.Solo

/-!
# Operations running alone

An operation that nobody interferes with, from its first command to its last. This file has what the
runs of `Conc.Solo` share, whichever operation they are of: a section under a lock or under the
mutex is the section (`solo_withLock`, `solo_withMutex`), and a program that issues no command to
change something does not change it – the CRL side of storage (`solo_sameCRL`), or the certificates
and the inventory (`solo_sameCerts`).
-/

namespace OpenvoxCa.Ca

open Conc

variable {t : Tid} {c : Cmd} {s s' s'' : State} {es : List (Exchange interface)} {α : Type}

/-! ### The certificates and the inventory -/

/-- The commands that touch neither a stored certificate nor the inventory. -/
def Cmd.SparesCerts : Cmd → Prop
  | .saveCert _ _ => False
  | .deleteCert _ => False
  | .appendInventory _ => False
  | .pruneInventory _ => False
  | _ => True

/-- The states agree in both. -/
structure SameCerts (s s' : State) : Prop where
  certs : s'.certs = s.certs
  inventory : s'.inventory = s.inventory

theorem SameCerts.refl (s : State) : SameCerts s s := ⟨rfl, rfl⟩

theorem SameCerts.trans (h : SameCerts s s') (h' : SameCerts s' s'') : SameCerts s s'' :=
  ⟨h'.certs.trans h.certs, h'.inventory.trans h.inventory⟩

theorem Cmd.SparesCerts.same (h : c.SparesCerts) (he : Effect t s c s') : SameCerts s s' := by
  cases he with
  | saveCert | deleteCert | appendInventory | pruneInventory => exact h.elim
  | _ => exact ⟨rfl, rfl⟩

theorem Cmd.Local.sparesCerts (h : c.Local) : c.SparesCerts := by
  cases c <;> first | exact h.elim | trivial

theorem SameCRL.refl (s : State) : SameCRL s s := ⟨rfl, rfl, rfl, rfl, rfl, rfl, rfl⟩

theorem SameCRL.trans (h : SameCRL s s') (h' : SameCRL s' s'') : SameCRL s s'' :=
  ⟨h'.owner.trans h.owner, h'.crl.trans h.crl, h'.superseded.trans h.superseded,
    h'.pruneLog.trans h.pruneLog, h'.holdStart.trans h.holdStart, h'.saved.trans h.saved,
    h'.crlWriters.trans h.crlWriters⟩

/-! ### Programs that spare the certificates -/

variable {body p : Prog α}

theorem only_withLock {C : Cmd → Prop} {n : LockName} (hlock : C (.lock n))
    (hunlock : C (.unlock n)) (hbody : body.Only C) : (withLock n body).Only C :=
  Prog.only_bind (only_ask (only_cmd hlock)) fun _ => Prog.only_ensure hbody (only_cmd hunlock)

theorem always_sparesCerts {R : Except Failure α → Prop} (h : p.Always Cmd.Local R) :
    p.Always Cmd.SparesCerts R :=
  Prog.always_imp h fun _ => Cmd.Local.sparesCerts

section Crl

variable {ca : CA}

theorem closed_sparesCerts : Prog.Closed Cmd.Reads fun {α} (p : Prog α) => p.Only Cmd.SparesCerts :=
  Prog.closed_only fun _ hc => hc.local.sparesCerts

theorem sparesCerts_signCRLLocked (stored : StoredCRL) (revoked : List RevocationEntry) :
    (signCRLLocked ca stored revoked).Only Cmd.SparesCerts :=
  closed_signCRLLocked closed_sparesCerts (fun _ => only_cmd trivial)
    (fun _ => always_sparesCerts (local_modifyMemory _)) stored revoked

theorem sparesCerts_revokeSerialLocked (serial : Text) :
    (revokeSerialLocked ca serial).Only Cmd.SparesCerts :=
  closed_revokeSerialLocked closed_sparesCerts sparesCerts_signCRLLocked
    (fun _ => always_sparesCerts (local_modifyMemory _)) serial

theorem sparesCerts_dropCRLEntriesLocked (removed : List Text) :
    (dropCRLEntriesLocked ca removed).Only Cmd.SparesCerts :=
  closed_dropCRLEntriesLocked closed_sparesCerts sparesCerts_signCRLLocked removed

end Crl

/-! ### What a run leaves alone -/

variable {r : Except Failure α}

theorem solo_sameCerts (h : Solo machine t s p es r s') (hp : p.Only Cmd.SparesCerts) :
    SameCerts s s' :=
  h.keeps (P := SameCerts s) (fun hc hex hs => hs.trans (hc.same (exec_effect hex))) hp (.refl s)

theorem solo_sameCRL (h : Solo machine t s p es r s') (hp : p.Only Cmd.Quiet) : SameCRL s s' :=
  h.keeps (P := SameCRL s) (fun hc hex hs => hs.trans (hc.sameCRL (exec_effect hex))) hp (.refl s)

/-- A program of local commands changes nothing but the replica's memory and the history. -/
theorem solo_local (h : Solo machine t s p es r s') (hp : p.Only Cmd.Local) :
    SameCRL s s' ∧ SameCerts s s' :=
  ⟨solo_sameCRL h (always_quiet hp),
    solo_sameCerts h (Prog.always_imp hp fun _ => Cmd.Local.sparesCerts)⟩

theorem solo_historyOk (h : Solo machine t s p es r s') (hs : HistoryOk s) : HistoryOk s' :=
  h.invariant (P := HistoryOk) (fun hex hs => hs.effect (exec_effect hex)) hs

/-- **A run alone satisfies the specifications of the CRL lock.** -/
theorem solo_spec {ca : CA} {j : Job} {P : State → Prop} {Q : Except Failure α → State → Prop}
    (h : Solo machine t s p es r s') (hinv : HistoryOk s)
    (hp : Triple (writerDiscipline ca) t j P p Q) (hs : P s) : Q r s' :=
  (h.of_wp (D := writerDiscipline ca) (fun _ _ => trivial)
    (fun hinv _ hex => hinv.effect (exec_effect hex)) hinv (hp s hs)).1

/-- A command, and what is done with its answer. -/
theorem solo_cmd_bind {f : c.Ans → Prog α} (h : Solo machine t s ((cmd c).bind f) es r s') :
    ∃ ch a s₁ es₁, exec t s c ch = some (a, s₁) ∧ Solo machine t s₁ (f a) es₁ r s' ∧
      es = ⟨c, a⟩ :: es₁ :=
  Solo.call_inv h

/-- Signing a list: it is the template, with a signature. -/
theorem solo_createRevocationList {template : RevocationList} {r : Except Failure RevocationList}
    (h : Solo machine t s (ask (cmd (.createRevocationList template))) es r s') :
    s' = s ∧ ∀ crl, r = .ok crl → crl.number = template.number ∧
      crl.entries = template.entries ∧ crl.signedBy = template.signedBy := by
  obtain ⟨ch, a, s₁, es₁, hex, hret, -⟩ := solo_cmd_bind h
  cases hex
  obtain ⟨-, rfl, rfl⟩ := Solo.ofExcept_inv hret
  refine ⟨rfl, fun crl hcrl => ?_⟩
  split at hcrl
  · cases hcrl
  · obtain rfl := Except.ok.inj hcrl
    exact ⟨rfl, rfl, rfl⟩

/-! ### Sections -/

theorem HistoryOk.setOwner (h : HistoryOk s) (n : LockName) (o : Option Tid) :
    HistoryOk (s.setOwner n o) := by
  refine ⟨?_, h.2⟩
  simp only [State.setOwner]
  split <;> [exact le_rfl; exact h.1]

/-- **A section under a lock is the section**, unless the lock could not be taken. -/
theorem solo_withLock {n : LockName} (h : Solo machine t s (withLock n body) es r s') :
    (r = .error .lock ∧ s' = s ∧ es = [⟨.lock n, .error .lock⟩]) ∨
    ∃ s₁ es₁, Solo machine t (s.setOwner n (some t)) body es₁ r s₁ ∧ s' = s₁.setOwner n none ∧
      es = ⟨.lock n, .ok ()⟩ :: (es₁ ++ [⟨.unlock n, ()⟩]) := by
  obtain ⟨ch, a, s₁, es₁, hex, h, rfl⟩ := Solo.call_inv h
  simp only [exec] at hex
  split at hex
  · cases hex
    obtain ⟨rfl, rfl, rfl⟩ := Solo.fail_inv h
    exact Or.inl ⟨rfl, rfl, rfl⟩
  · split at hex
    · cases hex
      obtain ⟨r', s₂, es₂, es₃, hbody, hfin, rfl⟩ := Solo.ensure_inv h
      obtain ⟨ch', a', s₃, es₄, hex', hret, rfl⟩ := Solo.call_inv hfin
      obtain ⟨rfl, rfl, rfl⟩ := Solo.ofExcept_inv hret
      cases hex'
      exact Or.inr ⟨s₂, es₂, hbody, rfl, rfl⟩
    · cases hex

/-- The replica's mutex changes hands. -/
def State.setMutex (s : State) (i : Replica) (o : Option Tid) : State :=
  { s with mutex := Function.update s.mutex i o }

theorem solo_withMutex (h : Solo machine t s (withMutex body) es r s') :
    ∃ s₁ es₁, Solo machine t (s.setMutex t.replica (some t)) body es₁ r s₁ ∧
      s' = s₁.setMutex t.replica none ∧
      es = ⟨.lockMutex, ()⟩ :: (es₁ ++ [⟨.unlockMutex, ()⟩]) := by
  obtain ⟨ch, a, s₁, es₁, hex, h, rfl⟩ := Solo.call_inv h
  simp only [exec] at hex
  split at hex
  · cases hex
    obtain ⟨r', s₂, es₂, es₃, hbody, hfin, rfl⟩ := Solo.ensure_inv h
    obtain ⟨ch', a', s₃, es₄, hex', hret, rfl⟩ := Solo.call_inv hfin
    obtain ⟨rfl, rfl, rfl⟩ := Solo.ofExcept_inv hret
    cases hex'
    exact ⟨s₂, es₂, hbody, rfl, rfl⟩
  · cases hex

/-- A lock that is free can be taken. -/
theorem canRun_withLock {n : LockName} (hfree : s.owner n = none)
    (h : CanRun machine t (s.setOwner n (some t)) body r s') :
    CanRun machine t s (withLock n body) r (s'.setOwner n none) := by
  have hlock : exec t s (.lock n) {} = some (.ok (), s.setOwner n (some t)) := by
    simp [exec, hfree]
  have hunlock : exec t s' (.unlock n) {} = some ((), s'.setOwner n none) := rfl
  exact ((CanRun.cmd (M := machine) ({} : Choice) hlock).bind (.ofExcept _)).bind
    (h.ensure (.cmd (M := machine) ({} : Choice) hunlock))

theorem canRun_withMutex (hfree : s.mutex t.replica = none)
    (h : CanRun machine t (s.setMutex t.replica (some t)) body r s') :
    CanRun machine t s (withMutex body) r (s'.setMutex t.replica none) := by
  have hlock : exec t s .lockMutex {} = some ((), s.setMutex t.replica (some t)) := by
    simp [exec, hfree, State.setMutex]
  have hunlock : exec t s' .unlockMutex {} = some ((), s'.setMutex t.replica none) := rfl
  exact (CanRun.cmd (M := machine) ({} : Choice) hlock).bind
    (h.ensure (.cmd (M := machine) ({} : Choice) hunlock))

end OpenvoxCa.Ca
