import OpenvoxCa.Ca.Managed
import OpenvoxCa.Ca.Retirement
import OpenvoxCa.Ca.Rollback

/-!
# A certificate that its store refuses

A managed certificate is written into the CA's own storage before it is handed to the store of its
entry. If the store refuses it, it is revoked, and the certificate that *the store* holds is put
back in the place that it has taken. That is the one that the CA had only where the two agree
beforehand. Where the CA had none, as in every first issuance, or where the store holds nothing that
is this CA's, nothing is put back, and what stays on record is the certificate that has just been
revoked (`refused_write_leaves_revoked`).

`refused_write_restores_iff` is the exact account, of an issuance from any state and with any
content of the store.
-/

namespace OpenvoxCa.Ca

open Conc

variable {ca : CA} {m : ManagedCert} {t : Tid} {s s' : State} {ns : List LockName}
  {es : List (Exchange interface)} {r : Except Failure Bool} {subject : Text} {cert : Certificate}
  {current : Option Certificate}

/-! ### The issuance -/

theorem solo_storeLocked {blob : CertBlob}
    (h : Solo machine t s (storeLocked subject cert blob) es (.ok ()) s') :
    s'.certs subject = some blob := by
  obtain ⟨ch, a, s₁, es₁, hex, hrest, -⟩ := Solo.call_inv h
  simp only [exec, writeOutcome] at hex
  split at hex <;> cases hex
  · cases (Solo.fail_inv hrest).2.1
  obtain ⟨ch₂, a₂, s₂, es₂, hex₂, hrest₂, -⟩ := Solo.call_inv hrest
  rcases a₂ with e | _
  · obtain ⟨ch₃, a₃, s₃, es₃, -, hrest₃, -⟩ := Solo.call_inv hrest₂
    cases (Solo.fail_inv hrest₃).2.1
  · rw [(solo_sameCerts hrest₂ (always_sparesCerts (local_modifyMemory _))).certs,
      exec_appendInventory (t := t) hex₂]
    exact Function.update_self _ _ _

/-- **What is issued is on record.** -/
theorem solo_issueLeafLocked {name : Name} {key : PublicKey} {sans : SubjectAltNames}
    {exts : List Extension} {eku : List ExtKeyUsage} {ttl : Duration} {blob : CertBlob}
    (h : Solo machine t s (issueLeafLocked ca subject name key sans exts eku ttl)
      es (.ok blob) s') :
    ∃ cert template, (⟨.createCertificate template, .ok cert⟩ : Exchange interface) ∈ es ∧
      blob = { parsed := some cert } ∧ s'.certs subject = some blob := by
  unfold issueLeafLocked at h
  split at h
  case isFalse => cases (Solo.fail_inv h).2.1
  obtain ⟨serial, s₁, es₁, _, -, h₁, rfl⟩ := Solo.bind_inv_ok h
  obtain ⟨now, s₂, es₂, _, -, h₂, rfl⟩ := Solo.bind_inv_ok h₁
  split at h₂
  · cases (Solo.fail_inv h₂).2.1
  obtain ⟨cert, s₃, es₃, _, hsign, h₃, rfl⟩ := Solo.bind_inv_ok h₂
  obtain ⟨_, s₄, es₄, _, hstore, hret, rfl⟩ := Solo.bind_inv_ok h₃
  obtain ⟨-, hblob, rfl⟩ := Solo.ret_inv hret
  obtain ⟨ch, a, _, _, -, hsigned, rfl⟩ := solo_cmd_bind hsign
  obtain ⟨-, rfl, -⟩ := Solo.ofExcept_inv hsigned
  obtain rfl := Except.ok.inj hblob
  exact ⟨cert, _, List.mem_append_right _ (List.mem_append_right _
    (List.mem_append_left _ List.mem_cons_self)), rfl, solo_storeLocked hstore⟩

/-! ### The rollback -/

/-- The certificate is revoked, or the CRL is what it was. -/
theorem solo_revokeUndelivered {r : Except Failure Unit} (hinv : HistoryOk s) (hheld : Held t ns s)
    (h : Solo machine t s (revokeUndelivered ca { parsed := some cert }) es r s') :
    r = .ok () ∧ s'.certs = s.certs ∧ s'.superseded = s.superseded ∧
      (s'.crl = s.crl ∨ Lists ca.caCert cert.serialNumber s.crl s'.crl) := by
  have hspares : (revokeUndelivered ca { parsed := some cert }).Only Cmd.SparesCerts :=
    Prog.only_bind (Prog.only_attempt (only_withLock trivial trivial
      (only_withMutex trivial trivial (sparesCerts_revokeSerialLocked _)))) fun _ => trivial
  have hcerts := (solo_sameCerts h hspares).certs
  obtain ⟨r', s₁, es₁, es₂, hrevoke, hret, -⟩ := Solo.attempt_bind_inv h
  obtain ⟨-, rfl, rfl⟩ := Solo.ret_inv hret
  obtain ⟨hsup, herr, hok⟩ := solo_revokeAtOnce hinv hheld hrevoke
  refine ⟨rfl, hcerts, hsup, ?_⟩
  cases r' with
  | error e => exact Or.inl (herr e rfl)
  | ok _ =>
    obtain ⟨n, hn, hlists⟩ := hok rfl
    obtain rfl := Option.some.inj ((setString16_serialHexStr _).symm.trans hn)
    exact Or.inr hlists

/-- The certificate of the store is put back, if it is this CA's. -/
theorem solo_restoreCurrent {r : Except Failure Unit}
    (h : Solo machine t s (restoreCurrent ca subject current) es r s')
    (hsaved : ∀ blob e, (⟨.saveCert subject blob, .error e⟩ : Exchange interface) ∉ es) :
    r = .ok () ∧ SameCRL s s' ∧
      s'.certs subject = if currentIsThisSubjects ca.caCert current subject
        then some { parsed := current } else s.certs subject := by
  unfold restoreCurrent at h
  split at h
  · next hours =>
    obtain ⟨ch, a, s₁, es₁, hex, hret, rfl⟩ := Solo.call_inv h
    obtain ⟨rfl, rfl, rfl⟩ := Solo.ret_inv hret
    simp only [exec, writeOutcome] at hex
    split at hex <;> cases hex
    · exact absurd List.mem_cons_self (hsaved _ _)
    · rw [if_pos hours]
      exact ⟨rfl, ⟨rfl, rfl, rfl, rfl, rfl, rfl, rfl⟩, Function.update_self _ _ _⟩
  · next hours =>
    obtain ⟨rfl, rfl, rfl⟩ := Solo.ret_inv h
    exact ⟨rfl, .refl _, (if_neg hours).symm⟩

/-- **What a refused issuance leaves behind**, where the CRL is another one and no write of a
certificate has failed. -/
theorem solo_issueManaged_refused {stored : StoredKey} {revocation : RevocationState} {e : Failure}
    (hinv : HistoryOk s) (hheld : Held t ns s) (hrefused : m.save = .error e)
    (h : Solo machine t s (issueManagedUnderSubjectLock ca m current stored revocation) es r s')
    (hcrl : s'.crl ≠ s.crl)
    (hsaved : ∀ blob e, (⟨.saveCert m.spec.subject blob, .error e⟩ : Exchange interface) ∉ es) :
    ∃ cert template, (⟨.createCertificate template, .ok cert⟩ : Exchange interface) ∈ es ∧
      s'.superseded = s.superseded ∧ Lists ca.caCert cert.serialNumber s.crl s'.crl ∧
      s'.certs m.spec.subject = if currentIsThisSubjects ca.caCert current m.spec.subject
        then some { parsed := current } else some { parsed := some cert } := by
  unfold issueManagedUnderSubjectLock at h
  split at h
  · obtain ⟨-, -, rfl⟩ := Solo.fail_inv h
    exact absurd rfl hcrl
  next key _ =>
  have hquiet := quiet_withMutex (quiet_issueLeafLocked ca m.spec.subject
    { commonName := m.spec.subject } key m.spec.sans [] m.spec.extKeyUsage m.spec.ttl)
  rcases h.bind_inv with ⟨e, hfail, -⟩ | ⟨certPEM, s₁, es₁, es₂, hok, hrest, rfl⟩
  · exact absurd (solo_sameCRL hfail hquiet).crl hcrl
  have hsame := solo_sameCRL hok hquiet
  have hinv₁ := solo_historyOk hok hinv
  obtain ⟨u, es₃, hissue, rfl, rfl⟩ := solo_withMutex hok
  obtain ⟨cert, template, hsigned, rfl, hstored⟩ := solo_issueLeafLocked hissue
  simp only [hrefused] at hrest
  -- The certificate is on record, and the store has refused it.
  have hheld₁ := aboutCRL_held _ _ _ hsame hheld
  rcases hrest.bind_inv with ⟨e, hfail, -⟩ | ⟨_, s₂, es₄, es₅, hrevoke, hrest₂, rfl⟩
  · cases (solo_revokeUndelivered hinv₁ hheld₁ hfail).1
  obtain ⟨-, hcerts, hsup, hlists⟩ := solo_revokeUndelivered hinv₁ hheld₁ hrevoke
  rcases hrest₂.bind_inv with ⟨e, hfail, -⟩ | ⟨_, s₃, es₆, es₇, hrestore, hret, rfl⟩
  · cases (solo_restoreCurrent hfail fun blob e hx => hsaved blob e (by simp [hx])).1
  obtain ⟨-, hcrl₃, hcerts₃⟩ := solo_restoreCurrent hrestore fun blob e hx =>
    hsaved blob e (by simp [hx])
  obtain ⟨rfl, -, rfl⟩ := Solo.fail_inv hret
  rw [← hcrl₃.crl, hsame.crl] at hlists
  refine ⟨cert, template, by simp [hsigned],
    (hcrl₃.superseded.trans hsup).trans hsame.superseded, hlists.resolve_left hcrl, ?_⟩
  rw [hcerts₃, hcerts]
  exact congrArg _ hstored

/-! ### The exact account -/

/-- **The subject is as it was**, and the serial `n` is retired. -/
structure Restored (cert : Certificate) (subject : Text) (n : ℤ) (s s' : State) : Prop where
  record : s'.certs subject = s.certs subject
  retired : Kept cert n s'
  spared : ∀ c, s'.certs subject = some { parsed := some c } →
    (c.serialNumber ∈ s'.listed cert → c.serialNumber ∈ s.listed cert) ∧
      (Bears s'.pending c.serialNumber → Bears s.pending c.serialNumber)

/-- **A refused write leaves the subject as it was exactly if the store holds the certificate on
record**, and it is this CA's for the subject. `current` is what the store holds, the writes of the
rollback succeed, and the serial that was drawn is neither that of the store's certificate nor that
of the CA's. -/
theorem refused_write_restores_iff {stored : StoredKey} {revocation : RevocationState} {e : Failure}
    (hinv : HistoryOk s) (hheld : Held t ns s) (hrefused : m.save = .error e)
    (h : Solo machine t s (issueManagedUnderSubjectLock ca m current stored revocation) es r s')
    (hcrl : s'.crl ≠ s.crl)
    (hsaved : ∀ blob e, (⟨.saveCert m.spec.subject blob, .error e⟩ : Exchange interface) ∉ es) :
    ∃ cert template, (⟨.createCertificate template, .ok cert⟩ : Exchange interface) ∈ es ∧
      ((∀ c, current = some c ∨ s.certs m.spec.subject = some { parsed := some c } →
          c.serialNumber ≠ cert.serialNumber) →
        (Restored ca.caCert m.spec.subject cert.serialNumber s s' ↔
          currentIsThisSubjects ca.caCert current m.spec.subject = true ∧
            s.certs m.spec.subject = some { parsed := current })) := by
  obtain ⟨cert, template, hsigned, hsup, hlists, hnow⟩ :=
    solo_issueManaged_refused hinv hheld hrefused h hcrl hsaved
  refine ⟨cert, template, hsigned, fun hfresh => ?_⟩
  constructor
  · intro hrestored
    have hsame := hrestored.record
    rw [hnow] at hsame
    split at hsame
    · next hours => exact ⟨hours, hsame.symm⟩
    · exact absurd rfl (hfresh cert (Or.inr hsame.symm))
  · rintro ⟨hours, hrecorded⟩
    rw [if_pos hours] at hnow
    refine ⟨hnow.trans hrecorded.symm, Or.inr ((hlists _).mpr (Or.inl rfl)), fun c hc => ⟨?_, ?_⟩⟩
    · have hcurrent := congrArg CertBlob.parsed (Option.some.inj (hnow.symm.trans hc))
      exact fun hn => ((hlists _).mp hn).resolve_left (hfresh c (Or.inl hcurrent))
    · rw [State.pending, hsup]
      exact id

/-! An entry for the node `n` is refused: the storage has the certificate that the store has, or
there has never been one. -/

def refusedEntry : ManagedCert where
  spec := { subject := ['n'], sans := { dnsNames := [['n']] }, renewBefore := 1 }
  load := .ok {}
  save := .error .storage
  generated := some { id := 9 }

/-- The storage before, under the lock of the subject. -/
def refusedState (record : Option Certificate) : State :=
  { sampleState with
    certs := fun name => if name = ['n'] then record.map fun c => { parsed := some c } else none
    owner := fun n => if n = .subject ['n'] then some ⟨0, 0⟩ else none }

theorem refusedState_ok (record : Option Certificate) : HistoryOk (refusedState record) ∧
    Held ⟨0, 0⟩ [.subject ['n']] (refusedState record) :=
  ⟨⟨le_rfl, fun _ => le_rfl⟩, fun n => by simp [refusedState]⟩

/-- A serial that was signed, or a certificate that could not be saved. -/
def aboutRefusal : Exchange interface → Option (Option ℤ)
  | ⟨.createCertificate _, .ok cert⟩ => some (some cert.serialNumber)
  | ⟨.saveCert _ _, .error _⟩ => some none
  | _ => none

/-- The issuance draws the serial 6, and nothing but the store refuses it. -/
def refusal (current : Option Certificate) :
    Option (List (Exchange interface) × Except Failure Bool × State) :=
  (issueManagedUnderSubjectLock { caCert := sampleCert } refusedEntry current .absent {}).runAlone
    machine ⟨0, 0⟩ (List.replicate 40 { number := 6 }) (refusedState current)

/-- What is seen of it: the exchanges that it is about, the serial on record then, and the CRL. -/
def refusalSeen (current : Option Certificate) : Option (List (Option ℤ) × Option ℤ × List ℤ) :=
  (refusal current).map fun x =>
    (x.1.filterMap aboutRefusal, storedSerial x.2.2 ['n'], x.2.2.listed sampleCert)

theorem refusal_of_seen {n : ℤ} (h : refusalSeen current = some ([some 6], some n, [6])) :
    ∃ es r s', Solo machine ⟨0, 0⟩ (refusedState current)
      (issueManagedUnderSubjectLock { caCert := sampleCert } refusedEntry current .absent {})
      es r s' ∧
      s'.crl ≠ (refusedState current).crl ∧
      (∀ blob e, (⟨.saveCert ['n'] blob, .error e⟩ : Exchange interface) ∉ es) ∧
      (∀ template cert, (⟨.createCertificate template, .ok cert⟩ : Exchange interface) ∈ es →
        cert.serialNumber = 6) ∧ storedSerial s' ['n'] = some n ∧ 6 ∈ s'.listed sampleCert := by
  obtain ⟨⟨es, r, s'⟩, hrun, hseen⟩ := Option.map_eq_some_iff.mp h
  simp only [Prod.mk.injEq] at hseen
  obtain ⟨hes, hrecord, hlisted⟩ := hseen
  have habout : ∀ x ∈ es, ∀ y, aboutRefusal x = some y → y = some 6 := fun x hx y hy => by
    simpa [hes] using List.mem_filterMap.mpr ⟨x, hx, hy⟩
  refine ⟨es, r, s', .of_runAlone hrun, fun hcrl => ?_, fun blob e hx => ?_,
    fun template cert hx => ?_,
    hrecord, by simp [hlisted]⟩
  · rw [State.listed, hcrl] at hlisted
    change listedIn sampleCert sampleState.crl = [6] at hlisted
    revert hlisted
    decide
  · cases habout _ hx none rfl
  · exact Option.some.inj (habout _ hx (some cert.serialNumber) rfl)

set_option synthInstance.maxSize 512 in
theorem refused_write_restores_sample : ∃ es r s',
    Solo machine ⟨0, 0⟩ (refusedState (some sampleLeaf)) (issueManagedUnderSubjectLock
      { caCert := sampleCert } refusedEntry (some sampleLeaf) .absent {}) es r s' ∧
    Restored sampleCert ['n'] 6 (refusedState (some sampleLeaf)) s' := by
  have hseen : refusalSeen (some sampleLeaf) = some ([some 6], some 5, [6]) := by decide +kernel
  obtain ⟨es, r, s', hsolo, hcrl, hsaved, hserial, -⟩ := refusal_of_seen hseen
  obtain ⟨cert, template, hsigned, hiff⟩ := refused_write_restores_iff
    (refusedState_ok _).1 (refusedState_ok _).2 rfl hsolo hcrl hsaved
  rw [hserial template cert hsigned] at hiff
  refine ⟨es, r, s', hsolo, (hiff fun c hc => ?_).mpr ⟨by decide, rfl⟩⟩
  rcases hc with hc | hc <;> cases hc <;> decide

set_option synthInstance.maxSize 512 in
/-- **The revoked certificate stays on record**: the first certificate of the entry is refused, and
where the CA had none it has one that is on its CRL. -/
theorem refused_write_leaves_revoked : ∃ es r s', Solo machine ⟨0, 0⟩ (refusedState none)
    (issueManagedUnderSubjectLock { caCert := sampleCert } refusedEntry none .absent {}) es r s' ∧
    (∀ blob e, (⟨.saveCert ['n'] blob, .error e⟩ : Exchange interface) ∉ es) ∧
    (refusedState none).certs ['n'] = none ∧ storedSerial s' ['n'] = some 6 ∧
    6 ∈ s'.listed sampleCert := by
  have hseen : refusalSeen none = some ([some 6], some 6, [6]) := by decide +kernel
  obtain ⟨es, r, s', hsolo, -, hsaved, -, hrecord, hlisted⟩ := refusal_of_seen hseen
  exact ⟨es, r, s', hsolo, hsaved, rfl, hrecord, hlisted⟩

end OpenvoxCa.Ca
