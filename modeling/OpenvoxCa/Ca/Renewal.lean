import OpenvoxCa.Ca.Conservation
import OpenvoxCa.Ca.Gate

/-!
# Renewal and revocation by subject

`gate_spec` shows that every operation about a subject meets the duties of the gate. The heart of it
is `refuseIfRevoked_spec`: under the lock of the subject, a renewal that gets past the gate presents
a serial that is neither on the stored own CRL nor on the list of superseded certificates, and
neither can change before the renewal is done issuing.

`revoked_not_renewed` is what follows for every run: once a serial is listed or pending, no renewal
presenting it ever comes to signing, storing or appending again.
-/

namespace OpenvoxCa.Ca

open Conc

variable {ca : CA} {cert : Certificate} {sub : Text} {t : Tid} {j : Job} {ns : List LockName}
  {A : State → Prop} {α β : Type}
  {exec' : Tid → State → (c : Cmd) → Choice → Option (c.Ans × State)}
  {D : Discipline (machine.withExec exec') Job}

/-! ### Rules -/

/-- The states agree in what the gate is about. -/
structure SameGate (s s' : State) : Prop extends SameCRL s s' where
  mutex : s'.mutex = s.mutex
  memory : s'.memory = s.memory

theorem Cmd.Calm.sameGate {c : Cmd} {s s' : State} (hc : c.Calm ∨ c.Mints)
    (he : Effect t s c s') : SameGate s s' := by
  cases he with
  | lock => exact (hc.elim id id).elim
  | unlock => exact (hc.elim id id).elim
  | lockMutex => exact (hc.elim id id).elim
  | unlockMutex => exact (hc.elim id id).elim
  | setMemory => exact (hc.elim id id).elim
  | updateCRL => exact (hc.elim id id).elim
  | saveSuperseded => exact (hc.elim id id).elim
  | pruneInventory => exact (hc.elim id id).elim
  | _ => exact ⟨⟨rfl, rfl, rfl, rfl, rfl, rfl, rfl⟩, rfl, rfl⟩

/-- An assertion about nothing else. -/
def AboutGate (P : State → Prop) : Prop := ∀ s s', SameGate s s' → P s → P s'

theorem AboutCRL.aboutGate (h : AboutCRL A) : AboutGate A := fun s s' hss => h s s' hss.toSameCRL

variable {P : State → Prop}

theorem AboutGate.and {Q : State → Prop} (hP : AboutGate P) (hQ : AboutGate Q) :
    AboutGate fun s => P s ∧ Q s :=
  fun s s' hss hs => ⟨hP s s' hss hs.1, hQ s s' hss hs.2⟩

theorem aboutGate_locked : AboutGate (Locked t) := by
  intro s s' hss hs
  rw [Locked, hss.mutex]
  exact hs

/-- **A program that issues nothing while the presented certificate is not admissible**, and
leaves alone what the gate is about. -/
theorem minting_spec [GateRules D cert sub] (hst : Stable D t P) (hP : AboutGate P)
    (hadm : ∀ s, P s → Admissible cert j s) {p : Prog α}
    (hp : p.Only fun c : Cmd => c.Calm ∨ c.Mints) : Keeps D t j P p := by
  refine (Triple.of_always hst ?_ (fun c hc s ch a s' hs he => hP s s'
    (Cmd.Calm.sameGate hc (exec_effect (exec_of (D := D) he))) hs) hp).weaken fun _ _ _ hs => hs.2
  intro c hc s _ hs
  rcases hc with hc | hc
  · exact GateRules.duty hc.gateDuty
  · exact GateRules.duty (by cases c <;> first | exact hadm s hs | exact hc.elim)

theorem calm_spec [GateRules D cert sub] (hst : Stable D t P) (hP : AboutGate P) {p : Prog α}
    {R : Except Failure α → Prop} (hp : p.Always Cmd.Calm R) :
    Triple D t j P p fun r s => R r ∧ P s :=
  Triple.of_always hst (fun _ hc _ _ _ => GateRules.duty hc.gateDuty) (fun _ hc s _ _ s' hs he =>
    hP s s' (Cmd.Calm.sameGate (Or.inl hc) (exec_effect (exec_of (D := D) he))) hs) hp

theorem calm_keeps [GateRules D cert sub] (hst : Stable D t P) (hP : AboutGate P) {p : Prog α}
    (hp : p.Only Cmd.Calm) : Keeps D t j P p :=
  (calm_spec hst hP hp).weaken fun _ _ _ hs => hs.2

/-- Taking the mutex and giving it back. -/
theorem withMutex_gate [GateRules D cert sub] {Q : Except Failure α → State → Prop} {body : Prog α}
    (hst : Stable D t A) (hA : AboutCRL A)
    (hQst : ∀ r, Stable D t (Q r))
    (hQ : ∀ r s x, Q r s → Q r { s with mutex := x })
    (hbody : Triple D t j (fun s => Locked t s ∧ A s) body fun r s =>
      Locked t s ∧ Q r s) :
    Triple D t j A (withMutex body) Q :=
  withMutex_triple hst (fun s _ hs => hA s _ ⟨rfl, rfl, rfl, rfl, rfl, rfl, rfl⟩ hs) hQst hQ hbody

theorem withMutex_gate_keeps [GateRules D cert sub] {body : Prog α} (hst : Stable D t A)
    (hA : AboutCRL A)
    (hbody : Keeps D t j (fun s => Locked t s ∧ A s) body) :
    Keeps D t j A (withMutex body) :=
  withMutex_gate hst hA (fun _ => hst)
    (fun _ s _ hs => hA s _ ⟨rfl, rfl, rfl, rfl, rfl, rfl, rfl⟩ hs) hbody

variable {Q : Except Failure β → State → Prop}

/-- Writing the memory under the mutex, from what is known of it. -/
theorem setMemory_bind [GateRules D cert sub] {m : Memory} {new : Memory} {f : Unit → Prog β}
    {B : State → Prop}
    (hst : Stable D t A)
    (hok : ∀ s own, GateInv cert s → A s → s.memory t.replica = m → Reads cert own s.crl →
      MemoryOk cert own m new)
    (hB : ∀ s, GateInv cert s → A s → s.memory t.replica = m →
      B { s with memory := Function.update s.memory t.replica new })
    (hf : Triple D t j (fun s => Locked t s ∧ B s) (f ()) Q) :
    Triple D t j
      (fun s => (Locked t s ∧ s.memory t.replica = m) ∧ A s) ((cmd (.setMemory new)).bind f) Q := by
  refine setMemory_triple hst ?_ (fun s hinv => hB s (GateRules.inv hinv)) hf
  rintro s hinv hlocked hA rfl
  exact GateRules.duty ⟨hlocked, fun own hown => hok s own (GateRules.inv hinv) hA rfl hown⟩

theorem modifyMemory_gate [GateRules D cert sub] {f : Memory → Memory} (hst : Stable D t A)
    (hA : AboutCRL A) (hok : ∀ s own, GateInv cert s → A s → Reads cert own s.crl →
      MemoryOk cert own (s.memory t.replica) (f (s.memory t.replica))) :
    Keeps D t j (fun s => Locked t s ∧ A s) (modifyMemory f) := by
  refine getMemory_bind hst fun m => setMemory_bind (f := Prog.ret) hst ?_ ?_
    (Keeps.ret (Locked.stable.and hst))
  · rintro s own hinv hs rfl hown
    exact hok s own hinv hs hown
  · exact fun s _ hs _ => hA s _ ⟨rfl, rfl, rfl, rfl, rfl, rfl, rfl⟩ hs

/-- Memory changes that leave the cached list alone. -/
theorem modifyMemory_gate_keeps [GateRules D cert sub] {f : Memory → Memory}
    (hf : ∀ m, (f m).cachedCRL = m.cachedCRL)
    (hst : Stable D t A) (hA : AboutCRL A) :
    Keeps D t j (fun s => Locked t s ∧ A s) (modifyMemory f) := by
  refine modifyMemory_gate hst hA fun s own hinv _ hown => ⟨?_, fun h => (hf _).trans h⟩
  intro c hc
  exact hinv.cache hown t.replica c ((hf _).symm.trans hc)

/-! ### Bringing the cache up to date -/

@[simp] theorem cachedCRL_install (m : Memory) (next : RevocationList) :
    (m.install next).cachedCRL = some next := by
  have general : ∀ (keys : List Text) (m : Memory),
      (keys.foldl Memory.evictOCSP m).cachedCRL = m.cachedCRL := by
    intro keys
    induction keys with
    | nil => exact fun m => rfl
    | cons key keys ih => exact fun m => ih (m.evictOCSP key)
  exact general _ _

/-- **`SyncCRLCache` brings the cache forward, never back.** -/
theorem syncMemory_ok {own ours : RevocationList} {m : Memory}
    (hsigned : crlSignedBy ca.caCert own = true)
    (hcache : CacheBehind ca.caCert own m) (hours : Behind own ours) :
    MemoryOk ca.caCert own m (syncMemory ca ours m) := by
  have hinstall : m.cachedCRL ≠ some own → MemoryOk ca.caCert own m (m.install ours) := by
    refine fun hne => ⟨fun c hc _ => ?_, fun h => absurd h hne⟩
    rw [cachedCRL_install] at hc
    exact Option.some.inj hc ▸ hours
  unfold syncMemory
  split
  · next hnone => exact hinstall (by simp [hnone])
  · next cached hcached =>
    split
    · exact ⟨hcache, id⟩
    · next hne =>
      split
      · exact ⟨hcache, id⟩
      · next hold =>
        refine hinstall fun heq => hold ?_
        obtain rfl : cached = own := Option.some.inj (hcached.symm.trans heq)
        simp [CA.ownsCRL, hsigned, hours.not_newer]

/-- With the stored own CRL it leaves the cache up to date. -/
theorem syncMemory_own {own : RevocationList} {m : Memory}
    (hcache : CacheBehind ca.caCert own m) : (syncMemory ca own m).cachedCRL = some own := by
  unfold syncMemory
  split
  · exact cachedCRL_install m own
  · next cached hcached =>
    split
    · next heq => rw [hcached, heq]
    · next hne =>
      split
      · next hold =>
        rw [Bool.and_eq_true, Bool.not_eq_true'] at hold
        rcases hcache cached hcached hold.1 with rfl | hnewer
        · exact absurd rfl hne
        · rw [hold.2] at hnewer
          cases hnewer
      · exact cachedCRL_install m own

/-- `GetCRL`, followed by anything: it reads the stored chain. -/
theorem getCRL_bind [GateRules D cert sub] {B : Blob → State → Prop} {f : Blob → Prog β}
    (hst : Stable D t A)
    (hB : ∀ s blob, GateInv cert s → A s → s.crl = some blob → B blob (s.noteRead t))
    (hf : ∀ blob, Triple D t j (B blob) (f blob) Q) : Triple D t j A (getCRL.bind f) Q := by
  refine Triple.call (R := fun a s => ∃ blob, a = .ok blob ∧ B blob s) hst
    (fun _ _ _ => GateRules.duty trivial) ?_ fun a => Triple.exists_pre fun blob =>
    Triple.pure_pre ?_
  · intro s ch a s' hinv hs he
    have hinv : GateInv cert s := GateRules.inv hinv
    obtain ⟨own, hown, -⟩ := hinv.chain
    obtain ⟨blob, hblob, -⟩ := Option.bind_eq_some_iff.mp hown.stored
    obtain ⟨rfl, rfl⟩ := Prod.mk.inj (Option.some.inj (exec_of (D := D) he))
    refine ⟨blob, ?_, hB s blob hinv hs hblob⟩
    simp [readOutcome, GateRules.reads (D := D) he, hblob]
  · rintro rfl
    exact hf blob

/-- `SyncCRLCache`: where the chain stands still, the cache is up to date afterwards. -/
theorem syncCRLCache_spec [GateRules D ca.caCert sub] (hst : Stable D t A) (hA : AboutCRL A) :
    Triple D t j A (syncCRLCache ca) fun _ s =>
      A s ∧ Synced ca.caCert A t s := by
  -- What was read is the stored own CRL, and stays it or becomes an older one.
  refine getCRL_bind (B := fun blob s => ∃ ours, (selectOwnCRL ca.caCert blob = some (some ours) ∧
      ∀ own b l, Pinned A b l → Reads ca.caCert own b → ours = own) ∧
      A s ∧ ∃ own, Reads ca.caCert own s.crl ∧ Behind own ours) hst ?_ fun blob =>
    Triple.exists_pre fun ours => Triple.pure_pre fun ⟨hours, hpinned⟩ => ?_
  · intro s blob hinv hs hblob
    obtain ⟨own, hown, -⟩ := hinv.chain
    refine ⟨own, ⟨?_, fun own' b l hpin hown' => ?_⟩,
      hA s _ ⟨rfl, rfl, rfl, rfl, rfl, rfl, rfl⟩ hs, own, hown, Or.inl rfl⟩
    · simpa [hblob] using hown.select
    · rw [← (hpin s hs).1] at hown'
      exact hown.unique hown'
  · have hread : Stable D t fun s => A s ∧
        ∃ own, Reads ca.caCert own s.crl ∧ Behind own ours := hst.and behind_stable
    refine withMutex_gate hread ?_ (fun _ => Synced.stable hst) ?_ ?_
    · rintro s s' hss ⟨hs, hbehind⟩
      exact ⟨hA s s' hss hs, by rwa [hss.crl]⟩
    · exact fun r s x hs => ⟨hA s _ ⟨rfl, rfl, rfl, rfl, rfl, rfl, rfl⟩ hs.1, hs.2⟩
    · rw [hours]
      refine getMemory_bind hread fun m => setMemory_bind (B := fun s => A s ∧
        Synced ca.caCert A t s) hread ?_ ?_ (Triple.ret (Locked.stable.and (Synced.stable hst))
          fun s _ hs => hs)
      · rintro s own hinv ⟨-, own', hown', hbehind⟩ rfl hown
        rw [hown'.unique hown] at hbehind
        exact syncMemory_ok hown.signed (hinv.cache hown _) hbehind
      · rintro s hinv ⟨hs, -⟩ rfl
        refine ⟨hA s _ ⟨rfl, rfl, rfl, rfl, rfl, rfl, rfl⟩ hs, fun own b l hpin hown => ?_⟩
        have hcrl : Reads ca.caCert own s.crl := by rwa [(hpin s hs).1]
        simp only [hpinned own b l hpin hown, Function.update_self]
        exact syncMemory_own (hinv.cache hcrl _)

/-! ### The gate -/

/-- `IsRevokedSerial`: where the chain stands still and the cache is up to date, the answer is
that of the stored own CRL. -/
theorem isRevokedSerial_spec [GateRules D cert sub] {serial : ℤ} (hst : Stable D t A) :
    Triple D t j (fun s => A s ∧ Synced cert A t s)
      (isRevokedSerial serial) fun r s => (∀ revoked, r = .ok revoked → ∀ own b l, Pinned A b l →
        Reads cert own b → revoked = serialInCRL own serial) ∧ A s := by
  refine gate_call (R := fun m s => (∀ own b l, Pinned A b l → Reads cert own b →
    m.cachedCRL = some own) ∧ A s) (Synced.stable hst) (fun _ _ _ => trivial) ?_ fun m =>
    Triple.pure_pre fun hm => ?_
  · rintro s ch a s' - ⟨hs, hsynced⟩ he
    simp only [exec] at he
    split at he
    · cases he
      exact ⟨hsynced, hs⟩
    · cases he
  · simp only [Prog.ret_bind]
    split
    · exact Triple.fail hst fun s _ hs => ⟨by simp, hs⟩
    · next crl hcrl =>
      refine Triple.ret hst fun s _ hs => ⟨?_, hs⟩
      rintro _ ⟨⟩ own b l hpin hown
      rw [hm own b l hpin hown] at hcrl
      rw [Option.some.inj hcrl]

variable {presentedCert : Certificate}

/-- `refuseIfSuperseded`: what gets past it is not on the list. -/
theorem refuseIfSuperseded_spec [GateRules D cert sub] (hst : Stable D t A) :
    Triple D t j A (refuseIfSuperseded presentedCert) fun r s =>
      (r = .ok () → ∀ b l, Pinned A b l → ¬Bears (entriesOf l) presentedCert.serialNumber) ∧
      A s := by
  refine Triple.bind (R := fun data s => (∀ b l, Pinned A b l → data.entries = entriesOf l) ∧ A s)
    ?_ fun data => Triple.pure_pre fun hdata => ?_
  · refine gate_call (R := fun a s =>
      (∀ b l, Pinned A b l → (∀ data, a = .ok data → l = some data) ∧
      (a = .error .notExist → l = none)) ∧ A s) hst (fun _ _ _ => trivial) ?_ fun a =>
      Triple.pure_pre fun ha => ?_
    · intro s ch a s' _ hs he
      cases he
      refine ⟨fun b l hpin => ?_, hs⟩
      rw [← (hpin s hs).2]
      exact ⟨fun data h => readOutcome_eq_ok h, fun h => readOutcome_eq_notExist h⟩
    · cases a with
      | ok data =>
        refine Triple.ret hst fun s _ hs => ⟨fun b l hpin => ?_, hs⟩
        simp [(ha b l hpin).1 data rfl, entriesOf]
      | error e =>
        cases e with
        | notExist =>
          refine Triple.ret hst fun s _ hs => ⟨fun b l hpin => ?_, hs⟩
          simp [(ha b l hpin).2 rfl, entriesOf]
        | _ => exact Triple.fail hst fun s _ hs => ⟨by simp, hs⟩
  · split
    · exact Triple.fail hst fun s _ hs => ⟨by simp, hs⟩
    · split
      · exact Triple.fail hst fun s _ hs => ⟨by simp, hs⟩
      · next hnone =>
        refine Triple.ret hst fun s _ hs => ⟨fun _ b l hpin => ?_, hs⟩
        -- An entry that bears the serial would have been found.
        rintro ⟨e, he, hn⟩
        refine hnone (List.any_eq_true.mpr ⟨e, ?_, ?_⟩)
        · rwa [hdata b l hpin]
        · simpa using dueNumber_eq_some.mp hn

/-- **The gate**: under an assertion that determines the chain and the list, what gets past it
is on neither. -/
theorem refuseIfRevoked_spec [GateRules D ca.caCert sub] (hst : Stable D t A) (hA : AboutCRL A) :
    Triple D t j A (refuseIfRevoked ca presentedCert) fun r s =>
      (r = .ok () → ∀ own b l, Pinned A b l → Reads ca.caCert own b →
        presentedCert.serialNumber ∉ own.serials ∧
          ¬Bears (entriesOf l) presentedCert.serialNumber) ∧ A s := by
  refine Triple.attempt_bind (syncCRLCache_spec hst hA) fun _ => ?_
  refine (isRevokedSerial_spec hst).seq (fun _ _ hs => ⟨by simp, hs.2⟩) fun revoked =>
    Triple.pure_pre fun hrevoked => ?_
  split
  · exact Triple.fail hst fun s _ hs => ⟨by simp, hs⟩
  · next hnot =>
    refine (refuseIfSuperseded_spec hst).weaken fun r s _ hs => ⟨?_, hs.2⟩
    intro hok own b l hpin hown
    refine ⟨fun hmem => hnot ?_, hs.1 hok b l hpin⟩
    rw [hrevoked revoked rfl own b l hpin hown]
    exact serialInCRL_iff.mpr hmem

/-! ### Issuing -/

variable {subject : Text}

section Issuing

variable (hst : Stable D t A) (hA : AboutCRL A)
  (hadm : ∀ s, A s → Admissible cert j s)

include hst hA hadm

theorem issuing_keeps [GateRules D cert sub] {p : Prog α}
    (hp : p.Only fun c : Cmd => c.Calm ∨ c.Mints) :
    Keeps D t j (fun s => Locked t s ∧ A s) p :=
  minting_spec (Locked.stable.and hst) (aboutGate_locked.and hA.aboutGate)
    (fun s hs => hadm s hs.2) hp

theorem storeLocked_gate [GateRules D cert sub] {leaf : Certificate} {blob : CertBlob} :
    Keeps D t j (fun s => Locked t s ∧ A s)
      (storeLocked subject leaf blob) := by
  refine Keeps.bind (issuing_keeps hst hA hadm
    (only_ask (only_cmd (c := .saveCert subject blob) (Or.inr trivial)))) fun _ => ?_
  refine Keeps.bind (issuing_keeps hst hA hadm
    (only_cmd (c := .appendInventory _) (Or.inr trivial))) fun r => ?_
  cases r with
  | error e =>
    exact Keeps.bind (issuing_keeps hst hA hadm (only_cmd (c := .deleteCert subject)
      (Or.inl trivial))) fun _ => Keeps.fail (Locked.stable.and hst)
  | ok _ => exact modifyMemory_gate_keeps (fun _ => rfl) hst hA

/-- `issueLeafLocked` issues while the presented certificate is admissible. -/
theorem issueLeafLocked_gate [GateRules D cert sub] {subjectName : Name} {pubKey : PublicKey}
    {sans : SubjectAltNames} {exts : List Extension} {eku : List ExtKeyUsage} {ttl : Duration} :
    Keeps D t j (fun s => Locked t s ∧ A s)
      (issueLeafLocked ca subject subjectName pubKey sans exts eku ttl) :=
  closed_issueLeafLocked (Keeps.closed fun hp => issuing_keeps hst hA hadm
      (Prog.always_imp hp fun _ hc => Or.inl hc.calm))
    (fun _ => issuing_keeps hst hA hadm (only_cmd (Or.inr trivial)))
    (fun _ => storeLocked_gate hst hA hadm) _ _ _ _ _ _

end Issuing

/-! ### Writing the chain and the list -/

theorem held_stable_gate [GateRules D cert sub] : Stable D t (Held t ns) :=
  (gate_lockRules (j := { op := .syncCRLCache })).held_stable ns

theorem busy_stable [GateRules D cert sub] : Stable D t fun s => Locked t s ∧ Held t ns s :=
  Locked.stable.and held_stable_gate

theorem aboutGate_busy : AboutGate fun s => Locked t s ∧ Held t ns s :=
  aboutGate_locked.and (aboutCRL_held ns).aboutGate

theorem closed_busy [GateRules D cert sub] : Prog.Closed Cmd.Reads fun {α} (p : Prog α) =>
    Keeps D t j (fun s => Locked t s ∧ Held t ns s) p :=
  Keeps.closed fun hp => calm_keeps busy_stable aboutGate_busy (always_calm hp)

/-- A section under the CRL lock and the mutex. -/
theorem withCRLLock_gate [GateRules D cert sub] (hn : .crl ∉ ns) {body : Prog α}
    (hbody : Keeps D t j
      (fun s => Locked t s ∧ Held t (.crl :: ns) s) body) :
    Keeps D t j (Held t ns) (withLock .crl (withMutex body)) :=
  gate_lockRules.withLock_keeps hn
    (withMutex_gate_keeps held_stable_gate (aboutCRL_held _) hbody)

/-- The locks `ns`, the CRL lock among them, are all that writing the chain takes. -/
def WritesCRL (D : Discipline (machine.withExec exec') Job) (t : Tid) (j : Job)
    (ns : List LockName) : Prop :=
  .crl ∈ ns ∧ ∀ b s, Held t ns s → D.Duty t j (.updateCRL b) s

/-- The holder of the subject's lock may write the chain. -/
theorem writesCRL_of_subject [GateRules D cert sub] (hns : .subject sub ∈ ns) (hcrl : .crl ∈ ns) :
    WritesCRL D t j ns :=
  ⟨hcrl, fun _ _ hs => GateRules.duty ((hs _).mpr hns)⟩

/-- `signCRLLocked` under the CRL lock: what it caches is what it stored. -/
theorem signCRLLocked_gate [GateRules D ca.caCert sub] (hw : WritesCRL D t j ns)
    {stored : StoredCRL} {revoked : List RevocationEntry} :
    Keeps D t j (fun s => Locked t s ∧ Held t ns s) (signCRLLocked ca stored revoked) := by
  have hsigner : SignerRules D t j ca.caCert ns :=
    { gate_lockRules with
      calm := fun hc => GateRules.duty hc.gateDuty
      signs := by
        intro s hinv
        obtain ⟨own, hread, -⟩ := (GateRules.inv hinv : GateInv ca.caCert s).chain
        exact ⟨own, hread.signed⟩
      update := fun b s _ hs => hw.2 b s hs
      settled := fun b l => Settled.stable (Or.inr hw.1) }
  refine signCRLLocked_installs hsigner fun crl anc l hown hanc =>
    modifyMemory_gate (hsigner.settled _ l) aboutCRL_settled ?_
  intro s own hinv hs hread
  rw [hs.crl] at hread
  obtain rfl := (reads_encode hown hanc).unique hread
  refine ⟨fun c hc _ => Or.inl ?_, fun _ => cachedCRL_install _ _⟩
  rw [cachedCRL_install] at hc
  exact (Option.some.inj hc).symm

theorem revokeSerialLocked_gate [GateRules D ca.caCert sub] (hw : WritesCRL D t j ns)
    {serialStr : Text} :
    Keeps D t j (fun s => Locked t s ∧ Held t ns s) (revokeSerialLocked ca serialStr) :=
  closed_revokeSerialLocked closed_busy (fun _ _ => signCRLLocked_gate hw)
    (fun _ => modifyMemory_gate_keeps (fun _ => rfl) held_stable_gate (aboutCRL_held ns)) _

/-- `writeSuperseded` under the lock of the subject. -/
theorem writeSuperseded_gate [GateRules D cert sub] {B : State → Prop} (hst : Stable D t B)
    (howner : ∀ s, B s → s.owner (.subject sub) = some t)
    (hB : ∀ s b, B s → B (s.setSuperseded t b)) {entries : List SupersededEntry} :
    Keeps D t j B (writeSuperseded entries) := by
  refine gate_call (R := fun _ s => B s) hst (fun s _ hs => howner s hs) ?_ fun a =>
    Triple.ofExcept hst fun s _ hs => hs
  intro s ch a s' _ hs he
  have he := Option.some.inj he
  unfold writeOutcome at he
  split at he <;> obtain ⟨rfl, rfl⟩ := Prod.mk.inj he
  · exact hs
  · exact hB s _ hs

theorem revokeLocked_gate [GateRules D ca.caCert sub] (hns : .subject sub ∈ ns) (hcrl : .crl ∈ ns) :
    Keeps D t j (fun s => Locked t s ∧ Held t ns s) (revokeLocked ca subject) := by
  have hrevoke : ∀ serial, Keeps D t j (fun s => Locked t s ∧ Held t ns s)
      (revokeSerialLocked ca serial) :=
    fun _ => revokeSerialLocked_gate (writesCRL_of_subject hns hcrl)
  exact closed_revokeLocked closed_busy hrevoke (closed_retireSupersededForSubjectLocked closed_busy
    hrevoke (fun _ => writeSuperseded_gate busy_stable (fun s hs => (hs.2 _).mpr hns)
      fun s b hs => hs) subject)

theorem recordSuperseded_gate [GateRules D cert sub] (hns : .subject sub ∈ ns) (hn : .crl ∉ ns)
    {serial : Text} {after : Duration} :
    Keeps D t j (Held t ns) (recordSuperseded subject serial after) := by
  unfold recordSuperseded
  split
  · exact Keeps.fail held_stable_gate
  · refine Keeps.bind (calm_keeps held_stable_gate (aboutCRL_held ns).aboutGate
      (only_cmd (c := .now) trivial)) fun now => gate_lockRules.withLock_keeps hn ?_
    refine Keeps.bind (calm_keeps held_stable_gate (aboutCRL_held _).aboutGate
      (always_calm reads_readSuperseded)) fun read => ?_
    exact writeSuperseded_gate held_stable_gate
      (fun s hs => (hs _).mpr (List.mem_cons_of_mem _ hns)) fun s b hs => hs

theorem supersedeReplaced_gate [GateRules D ca.caCert sub] (hns : .subject sub ∈ ns)
    (hn : .crl ∉ ns) {oldSerial : Text} :
    Keeps D t j (Held t ns) (supersedeReplaced ca subject oldSerial) := by
  unfold supersedeReplaced supersedeReplacedAfter
  split
  · exact withCRLLock_gate hn (revokeSerialLocked_gate
      (writesCRL_of_subject (List.mem_cons_of_mem _ hns) List.mem_cons_self))
  · exact recordSuperseded_gate hns hn

/-! ### The operations of a subject -/

/-- **What follows the gate under the lock of the subject** may count on the presented
certificate being admissible, as long as the chain and the list stand still. -/
theorem refuseIfRevoked_bind [GateRules D ca.caCert sub]
    (hns : .subject sub ∈ ns) (hop : j.op.presented = some presentedCert) {f : Unit → Prog β}
    (herr : ∀ e s, Held t ns s → Q (.error e) s)
    (hf : ∀ b l, (∀ s, Settled t ns b l s → Admissible ca.caCert j s) →
      Triple D t j (Settled t ns b l) (f ()) Q) :
    Triple D t j (Held t ns) ((refuseIfRevoked ca presentedCert).bind f) Q := by
  refine Triple.conseq (P := fun s => ∃ b l, Settled t ns b l s) (Triple.exists_pre fun b =>
    Triple.exists_pre fun l => ?_) (fun s hs => ⟨s.crl, s.superseded, hs, rfl, rfl⟩)
    fun _ _ _ hs => hs
  refine Triple.bind (R := fun _ s => (∀ s, Settled t ns b l s → Admissible ca.caCert j s) ∧
    Settled t ns b l s)
    ((refuseIfRevoked_spec (Settled.stable (Or.inl hns)) aboutCRL_settled).weaken ?_)
    fun _ => Triple.pure_pre (hf b l)
  rintro (e | _) s hinv ⟨hok, hs⟩
  · exact herr e s hs.held
  · refine ⟨fun s' hs' c hc => ?_, hs⟩
    obtain rfl := Option.some.inj (hop.symm.trans hc)
    obtain ⟨own, hread, -⟩ := (GateRules.inv hinv : GateInv ca.caCert s).chain
    rw [hs.crl] at hread
    obtain ⟨hlisted, hpending⟩ := hok rfl own b l (fun _ hs => ⟨hs.crl, hs.superseded⟩) hread
    rintro (hbears | hmem)
    · exact hpending (by rwa [State.pending, hs'.superseded] at hbears)
    · exact hlisted (by rwa [State.listed, hs'.crl, hread.listedIn] at hmem)

theorem renewLocked_gate [GateRules D ca.caCert sub] {pubKey : PublicKey}
    (hop : j.op.presented = some presentedCert) :
    Keeps D t j (Held t [.subject sub])
      (renewLocked ca sub presentedCert pubKey) := by
  have hns : LockName.subject sub ∈ [LockName.subject sub] := List.mem_cons_self
  refine refuseIfRevoked_bind hns hop (fun _ _ hs => hs) fun b l hadm => ?_
  have hst : Stable D t (Settled t [.subject sub] b l) :=
    Settled.stable (Or.inl hns)
  have hheld : ∀ {p : Prog Renewal},
      Keeps D t j (Held t [.subject sub]) p →
      Triple D t j (Settled t [.subject sub] b l) p
        fun _ s => Held t [.subject sub] s :=
    fun h => h.strengthen fun _ hs => hs.held
  refine (calm_keeps hst aboutCRL_settled.aboutGate (always_calm (reads_latestSerialIfAny sub))).seq
    (fun _ _ hs => hs.held) fun oldSerial => ?_
  refine (withMutex_gate_keeps hst aboutCRL_settled (Keeps.bind
    (issueLeafLocked_gate hst aboutCRL_settled hadm) fun certPEM => Keeps.bind
    (calm_keeps (Locked.stable.and hst) (aboutGate_locked.and aboutCRL_settled.aboutGate)
      (only_cmd (c := .deleteCSR sub) trivial)) fun _ =>
    Keeps.ret (Locked.stable.and hst))).seq (fun _ _ hs => hs.held) fun certPEM => hheld ?_
  cases oldSerial with
  | none => exact Keeps.ret held_stable_gate
  | some oldSerial =>
    exact Keeps.bind (Keeps.attempt (supersedeReplaced_gate hns (by simp))) fun _ =>
      Keeps.ret held_stable_gate

theorem autoRenewLocked_gate [GateRules D ca.caCert sub]
    (hop : j.op.presented = some presentedCert) :
    Keeps D t j (Held t [.subject sub]) (autoRenewLocked ca sub presentedCert) := by
  have hns : LockName.subject sub ∈ [LockName.subject sub] := List.mem_cons_self
  refine refuseIfRevoked_bind hns hop (fun _ _ hs => hs) fun b l hadm => ?_
  have hst : Stable D t (Settled t [.subject sub] b l) :=
    Settled.stable (Or.inl hns)
  refine ((withMutex_gate_keeps hst aboutCRL_settled (issueLeafLocked_gate hst aboutCRL_settled
    hadm)).weaken fun _ _ _ hs => hs.held).seq (fun _ _ hs => hs) fun certPEM => ?_
  split
  · exact Keeps.ret held_stable_gate
  · exact Keeps.bind (Keeps.attempt (supersedeReplaced_gate hns (by simp))) fun _ =>
      Keeps.ret held_stable_gate

/-- Outside the lock the gate may be asked too, and what it says is nothing to go by. -/
theorem refuseIfRevoked_gate [GateRules D ca.caCert sub] :
    Keeps D t j (Held t ns) (refuseIfRevoked ca presentedCert) :=
  (refuseIfRevoked_spec held_stable_gate (aboutCRL_held ns)).weaken
    fun _ _ _ hs => hs.2

/-- The operations of a subject do their duty by the gate where their pieces do. -/
theorem builds_gate [GateRules D cert sub] : Builds fun ns b {_} p =>
    Keeps D t j (Placed t ns b) p where
  closed := by
    rintro ns (_ | _)
    · exact Keeps.closed fun hp => calm_keeps held_stable_gate (aboutCRL_held ns).aboutGate
        (Prog.always_imp hp fun _ => Cmd.Neutral.calm)
    · exact Keeps.closed fun hp => calm_keeps busy_stable aboutGate_busy
        (Prog.always_imp hp fun _ => Cmd.Neutral.calm)
  withMutex := withMutex_gate_keeps held_stable_gate (aboutCRL_held _)
  withSubject := fun _ => gate_lockRules.withLock_keeps (by simp)

/-- **Every operation about the subject meets the duties of the gate.** -/
theorem gate_spec (ca : CA) [GateRules D ca.caCert sub] (t : Tid) (j : Job)
    (hj : j.op.About sub) : Keeps D t j (Held t []) (operation ca j.op) := by
  have hres : ∀ {α : Type} {f : α → Result} {p : Prog α}, Keeps D t j (Held t []) p →
      Keeps D t j (Held t []) (p.bind fun a => .ret (f a)) :=
    fun hp => Keeps.bind hp fun _ => Keeps.ret held_stable_gate
  have hbuild : Builds fun ns b {_} p => Keeps D t j (Placed t ns b) p := builds_gate
  have hrevoke : Keeps D t j (Held t [.subject sub])
      (withLock .crl (withMutex (revokeLocked ca sub))) :=
    withCRLLock_gate (by simp) (revokeLocked_gate (by simp) (by simp))
  cases hop : j.op with
  | revoke subject =>
    rw [hop] at hj
    obtain rfl := hj
    exact hres (hbuild.revoke hrevoke)
  | clean subject =>
    rw [hop] at hj
    obtain rfl := hj
    exact hres (hbuild.clean hrevoke)
  | renew subject csrPEM presented =>
    rw [hop] at hj
    obtain rfl := hj
    refine hres (hbuild.renew (fun _ => refuseIfRevoked_gate) (fun cert pubKey hcert => ?_) csrPEM)
    exact renewLocked_gate (by rw [hop]; exact hcert)
  | autoRenew presented =>
    rw [hop] at hj
    refine hres (hbuild.autoRenew (fun _ => refuseIfRevoked_gate) fun cert hcert => ?_)
    obtain rfl := hj cert hcert
    exact autoRenewLocked_gate (by rw [hop]; exact hcert)
  | syncCRLCache =>
    exact hres ((syncCRLCache_spec held_stable_gate (aboutCRL_held [])).weaken
      fun _ _ _ hs => hs.1)
  | _ =>
    rw [hop] at hj
    exact hj.elim

/-- **An operation does its duty by the CRL lock and by the gate.** -/
theorem operation_gate (ca : CA) [GateRules D ca.caCert sub] (hknown : ∀ c s, D.Known t j c s)
    (hgate : Keeps D t j (Held t []) (operation ca j.op)) :
    Triple (D.withDuty (fun t j c s => crlAllowed ca.caCert t j c s ∧ D.Duty t j c s)
      fun _ _ _ _ => True) t j (Held t []) (operation ca j.op) fun _ s => Held t [] s ∧ True := by
  intro s hs
  have hcrl : wp (D.withDuty (crlAllowed ca.caCert) fun _ _ _ _ => True) t j (operation ca j.op)
      (fun r s => Held t [] s ∧ servingPost t j r s) s := by
    refine wp_transfer (M := machine) (D := writerDiscipline ca) ?_ ?_ ?_ ?_ ?_
      (operation_spec ca t j s hs)
    · exact fun _ _ _ _ _ h => exec_of (D := D) h
    · exact fun s h => (GateRules.inv (D := D) h).history
    · exact fun u i c s hinv h => ⟨i, lockAllowed_of_crlAllowed (GateRules.allowed (D := D) hinv h)⟩
    · exact fun _ _ _ h => h
    · exact fun _ _ _ h => h.1
  have hgate : wp (D.withDuty D.Duty (crlAllowed ca.caCert)) t j (operation ca j.op)
      (fun _ s => Held t [] s) s := by
    refine wp_transfer (M := machine.withExec exec') (D := D) ?_ ?_ ?_ ?_ ?_ (hgate s hs)
    · exact fun _ _ _ _ _ h => h
    · exact fun _ h => h
    · exact fun _ i _ _ _ h => ⟨i, h⟩
    · exact fun c s _ _ => hknown c s
    · exact fun _ _ _ h => h
  exact wp_mono (wp_and hcrl hgate) fun _ _ _ h => ⟨h.2, trivial⟩

/-! ### Every run -/

/-- A cluster that can read its CRL, in the middle of a run. -/
abbrev ReadingCluster (caCert : Certificate) := Pool readingMachine (serving caCert)

abbrev ReadingEvent (caCert : Certificate) := Label readingMachine (serving caCert)

/-- **The proof outline of a cluster at work on one subject.** -/
def gateOutline (cert : Certificate) (sub : Text) : Outline readingMachine (serving cert) where
  toDiscipline := (gateDiscipline cert sub).withDuty
    (fun t j c s => crlAllowed cert t j c s ∧ gateDuty cert sub t j c s) fun _ _ _ _ => True
  Menu := fun j => j.op.About sub
  Idle := fun t _ => Held t []
  Post := fun _ _ _ _ => True
  idle_stable := fun _ _ => held_stable_gate (D := gateDiscipline cert sub)
  job := fun t j _ hj => operation_gate { toConfig := j.config, caCert := cert }
    (fun _ _ => trivial) (gate_spec (D := gateDiscipline cert sub) _ t j hj)

/-- **A cluster to start from**: nobody holds a lock, no cleanup is under way, the chain is led
by a list of this CA's own, and no replica has cached an own list that is ahead of the stored
one. -/
structure State.Ready (s : State) (cert : Certificate) : Prop where
  unlocked : s.Unlocked
  history : HistoryOk s
  unpruned : s.holdPruned = []
  leads : ∃ crl chain, s.crl = some (encodeCRLChain (crl :: chain)) ∧ crlSignedBy cert crl = true
  cache : ∀ own, s.crl.bind (storedOwn cert) = some own → ∀ r, CacheBehind cert own (s.memory r)

theorem State.Ready.gateInv {s : State} (h : s.Ready cert) : GateInv cert s := by
  obtain ⟨crl, chain, hcrl, hown⟩ := h.leads
  obtain ⟨own, hread⟩ : ∃ own, Reads cert own s.crl := hcrl ▸ exists_reads hown
  exact ⟨h.history, own, hread, h.cache own hread.stored⟩

theorem State.Ready.held {s : State} (h : s.Ready cert) (t : Tid) : Held t [] s :=
  fun n => by simp [h.unlocked n]

section Run

variable {n : ℤ} {u : Tid} {s s' : State}

/-- Nothing is pruned. -/
theorem unpruned_of_moves [GateRules D cert sub] (h : Moves D u s s') (hs : s.holdPruned = []) :
    s'.holdPruned = [] := by
  have hset : ∀ m o, (s.setOwner m o).holdPruned = [] := by
    intro m o
    unfold State.holdPruned State.setOwner at *
    split <;> simp_all
  obtain ⟨j, c, ch, a, -, hall, hex⟩ := h
  cases exec_effect (exec_of (D := D) hex) with
  | lock | unlock => exact hset _ _
  | pruneInventory => exact (GateRules.unpruned hall).elim
  | _ => exact hs

/-- So a listed or pending serial stays listed or pending. -/
theorem kept_of_moves [GateRules D cert sub] (h : Moves D u s s')
    (hs : s.holdPruned = [] ∧ Kept cert n s) : s'.holdPruned = [] ∧ Kept cert n s' := by
  refine ⟨unpruned_of_moves h hs.1, ?_⟩
  obtain ⟨j, c, ch, a, hinv, hall, hex⟩ := h
  have hamend : Amending cert u s s' :=
    ⟨j, c, ch, a, (GateRules.inv hinv).history, GateRules.allowed hinv hall, exec_of (D := D) hex⟩
  exact (kept_of_amending hamend hs.2).resolve_right (by simp [hs.1])

/-- **What is listed or pending is not renewed**, in the runs of a cluster whose moves are those
of the discipline and which issues nothing for a presented certificate that is not
admissible. -/
theorem not_mints_of_kept [GateRules D cert sub]
    {O : Outline (machine.withExec exec') (serving cert)}
    (hmoves : ∀ {u s s'}, Moves O.toDiscipline u s s' → Moves D u s s')
    (hmints : ∀ {t j c s}, O.Allowed t j c s → c.Mints → Admissible cert j s)
    {p₀ p q : Pool (machine.withExec exec') (serving cert)} (h₀ : O.Sound p₀)
    (hunpruned : p₀.shared.holdPruned = [])
    {ls ls' : List (Label (machine.withExec exec') (serving cert))} (hls : O.Within (ls ++ ls'))
    (hp : p₀.run ls = some p) (hq : p.run ls' = some q) {c₀ : Certificate}
    (hkept : Kept cert c₀.serialNumber p.shared) {t : Tid} {j : Job} {c : Cmd}
    {k : c.Ans → Prog Result} (ht : q.thread t = .running j (.call c k))
    (hj : j.op.presented = some c₀) : ¬c.Mints := by
  have hp' := h₀.run _ (fun t j h => hls t j (List.mem_append_left _ h)) hp
  have hq' := hp'.1.run _ (fun t j h => hls t j (List.mem_append_right _ h)) hq
  have hunpruned : p.shared.holdPruned = [] :=
    AnyMoves.star (fun u s s' h => unpruned_of_moves (hmoves h)) hp'.2 hunpruned
  have hkept' := AnyMoves.star (fun u s s' h => kept_of_moves (hmoves h)) hq'.2 ⟨hunpruned, hkept⟩
  exact fun hm => hmints (hq'.1.allowed _ ht) hm c₀ hj hkept'.2

end Run

/-- **A revoked or superseded certificate is not renewed.** In every run of renewals and
revocations by subject of one subject, on any number of replicas: once a serial is on the
stored own CRL or on the list of superseded certificates, in `p`, no renewal that presents it
signs, stores or appends anything in any later state `q` – be it one that had begun before, or
one that had not yet taken the lock of the subject. -/
theorem revoked_not_renewed {s₀ : State} (h₀ : s₀.Ready cert) {ls ls' : List (ReadingEvent cert)}
    {p q : ReadingCluster cert} (hls : ∀ t j, .start t j ∈ ls ++ ls' → j.op.About sub)
    (hp : (Pool.initial s₀).run ls = some p) (hq : p.run ls' = some q) {c₀ : Certificate}
    (hkept : Kept cert c₀.serialNumber p.shared) {t : Tid} {j : Job} {c : Cmd}
    {k : c.Ans → Prog Result} (ht : q.thread t = .running j (.call c k))
    (hj : j.op.presented = some c₀) : ¬c.Mints := by
  refine not_mints_of_kept (D := gateDiscipline cert sub) (O := gateOutline cert sub)
    (fun h => h) (fun {t j c s} hall hm => ?_)
    (Outline.sound_initial _ h₀.gateInv h₀.held) h₀.unpruned hls hp hq hkept ht hj
  cases c <;> first | exact hall.2 | exact hm.elim

/-! A cluster to renew in: a certificate of the node, not yet revoked. -/

/-- One thread takes a number of steps in which nothing fails. -/
def readingSteps (thread steps : ℕ) : List (ReadingEvent sampleCert) :=
  List.replicate steps (.step ⟨0, thread⟩ {})

/-- A renewal has got past the gate, but does not hold the lock yet, when the node is
revoked. -/
def overtaken : List (ReadingEvent sampleCert) :=
  .start ⟨0, 1⟩ { op := .autoRenew (some sampleLeaf) } :: readingSteps 1 7 ++
    .start ⟨0, 0⟩ { op := .revoke ['n'] } :: readingSteps 0 17

/-- The certificate presented by the renewal on thread `t`, where it is about to look at the
cache. -/
def lookingUp (p : ReadingCluster sampleCert) (t : Tid) : Option Certificate :=
  match p.thread t with
  | .running j (.call .getMemory _) => j.op.presented
  | _ => none

theorem exists_of_lookingUp {p : ReadingCluster sampleCert} {t : Tid} {c : Certificate}
    (h : lookingUp p t = some c) : ∃ j, j.op.presented = some c ∧
      ∃ k : Memory → Prog Result, p.thread t = .running j (.call .getMemory k) := by
  unfold lookingUp at h
  split at h
  · next hth => exact ⟨_, h, _, hth⟩
  · cases h

theorem sampleState_ready : sampleState.Ready sampleCert where
  unlocked := fun _ => rfl
  history := ⟨le_rfl, fun _ => le_rfl⟩
  unpruned := rfl
  leads := ⟨sampleCRL, [], rfl, by decide⟩
  cache := by
    rintro own - r c hc
    cases hc

/-- The overtaken renewal takes the lock and asks again; it does not come to issuing. -/
theorem revoked_not_renewed_sample : ∃ p q : ReadingCluster sampleCert,
    (Pool.initial sampleState).run overtaken = some p ∧ p.run (readingSteps 1 6) = some q ∧
      p.shared.listed sampleCert = [5] ∧ ∃ j c, ∃ k : c.Ans → Prog Result,
        q.thread ⟨0, 1⟩ = .running j (.call c k) ∧ ¬c.Mints := by
  have hrun : ((Pool.initial sampleState).run overtaken).map (fun p =>
      (p.shared.listed sampleCert, (p.run (readingSteps 1 6)).map fun q => lookingUp q ⟨0, 1⟩)) =
      some ([5], some (some sampleLeaf)) := by decide +kernel
  obtain ⟨p, hp, hv⟩ := Option.map_eq_some_iff.mp hrun
  obtain ⟨hlisted, hv⟩ := Prod.mk.inj hv
  obtain ⟨q, hq, hlook⟩ := Option.map_eq_some_iff.mp hv
  obtain ⟨j, hj, k, hth⟩ := exists_of_lookingUp hlook
  refine ⟨p, q, hp, hq, hlisted, j, .getMemory, k, hth, ?_⟩
  have habout : ∀ t j, .start t j ∈ overtaken ++ readingSteps 1 6 → j.op.About ['n'] := by
    simp only [overtaken, readingSteps, List.mem_append, List.mem_cons, List.mem_replicate]
    rintro t j (((⟨⟨⟩⟩ | ⟨-, ⟨⟩⟩) | ⟨⟨⟩⟩ | ⟨-, ⟨⟩⟩) | ⟨-, ⟨⟩⟩)
    · rintro c ⟨⟩
      rfl
    · rfl
  exact revoked_not_renewed sampleState_ready habout hp hq (Or.inr (by simp [hlisted, sampleLeaf]))
    hth hj

end OpenvoxCa.Ca
