import OpenvoxCa.Ca.Alone
import OpenvoxCa.Ca.Renewal

/-!
# What a failed issuance leaves behind

An issuance writes two objects, the certificate and its line in the inventory. If the second write
fails the first is undone – by a delete. That restores what was there before where nothing was there
before; where the new certificate has replaced another, as it does in every renewal, the other one
is gone too (`failed_renewal_deletes`). An import deletes a revoked certificate to make room, and
does not put it back when it fails afterwards.

`failed_issuance` is the exact account, for an operation that runs from any state to a failure with
any storage command failing on the way: the certificate of the subject is what it was if and only if
there was none, or the line of another did not fail, and neither did the save of an import for which
a certificate had to make room that the replica knows to be revoked. In any case a certificate that
is stored has its line in the inventory.
-/

namespace OpenvoxCa.Ca

open Conc

variable {ca : CA} {t : Tid} {subject : Text} {s s' s₁ : State} {evicted : Prop}
  {es es₁ es₂ : List (Exchange interface)} {ok : Bool}

/-! ### What failed -/

/-- The line of the inventory could not be written. -/
def AppendFailed (es : List (Exchange interface)) : Prop :=
  ∃ entry e, (⟨.appendInventory entry, .error e⟩ : Exchange interface) ∈ es

/-- The look at whether a certificate is stored failed, or its removal. -/
def RoomFailed (x : Exchange interface) : Prop :=
  ∃ name e, x = ⟨.certExists name, .error e⟩ ∨ x = ⟨.deleteCert name, .error e⟩

/-- **The certificate could not be saved**, and it was not making room for it, right before, that
failed. -/
def SaveFailed (es : List (Exchange interface)) : Prop :=
  ∃ es₁ x name blob e es₂, es = es₁ ++ [x] ++ ⟨.saveCert name blob, .error e⟩ :: es₂ ∧ ¬RoomFailed x

/-- **The rollbacks succeed**: a delete that comes after a failed append does not fail. -/
def RollbackOk (es : List (Exchange interface)) : Prop :=
  ∀ es₁ es₂ name r, es = es₁ ++ ⟨.deleteCert name, r⟩ :: es₂ → AppendFailed es₁ → r = .ok ()

/-- Nothing was asked that concerns the certificates. -/
def Spared (es : List (Exchange interface)) : Prop := ∀ x ∈ es, x.1.SparesCerts

/-- No certificate was to be saved. -/
def NoSave (es : List (Exchange interface)) : Prop :=
  ∀ name blob r, (⟨.saveCert name blob, r⟩ : Exchange interface) ∉ es

theorem Spared.noSave (h : Spared es) : NoSave es := fun _ _ _ hmem => h _ hmem

theorem Spared.not_appendFailed (h : Spared es) : ¬AppendFailed es := by
  rintro ⟨entry, e, hmem⟩
  exact h _ hmem

theorem noSave_append : NoSave (es₁ ++ es₂) ↔ NoSave es₁ ∧ NoSave es₂ := by
  simp only [NoSave, List.mem_append, not_or, forall_and]

theorem appendFailed_append :
    AppendFailed (es₁ ++ es₂) ↔ AppendFailed es₁ ∨ AppendFailed es₂ := by
  simp only [AppendFailed, List.mem_append, exists_or]

theorem RollbackOk.of_append (h : RollbackOk (es₁ ++ es₂)) : RollbackOk es₁ ∧ RollbackOk es₂ := by
  constructor
  · rintro fs gs name r rfl happ
    exact h fs (gs ++ es₂) name r (by simp) happ
  · rintro fs gs name r rfl happ
    exact h (es₁ ++ fs) gs name r (by simp) (appendFailed_append.mpr (Or.inr happ))

/-! ### What was there before -/

/-- A stored certificate has its line in the inventory. -/
def Tracked (subject : Text) (s : State) : Prop :=
  ∀ blob cert, s.certs subject = some blob → blob.parsed = some cert →
    ∃ e ∈ s.inventory, setString16 e.serial = some cert.serialNumber

/-- **The stored certificate is revoked**, by the list that the replica has in memory. -/
def KnownRevoked (t : Tid) (subject : Text) (s : State) : Prop :=
  ∃ blob cert crl, s.certs subject = some blob ∧ blob.parsed = some cert ∧
    (s.memory t.replica).cachedCRL = some crl ∧ cert.serialNumber ∈ crl.serials

/-- **`evicted` says that a certificate is lost to an import that failed**: it was known to be
revoked, and its successor could not be saved. This is said once of all that was asked, and is the
same for the part of it in which the certificate is saved. -/
structure Decides (t : Tid) (subject : Text) (s : State) (es : List (Exchange interface))
    (evicted : Prop) : Prop where
  spared : NoSave es → ¬evicted
  failed : ∀ es₁ x name blob e es₂, es = es₁ ++ [x] ++ ⟨.saveCert name blob, .error e⟩ :: es₂ →
    NoSave (es₁ ++ [x]) → NoSave es₂ → (evicted ↔ KnownRevoked t subject s ∧ ¬RoomFailed x)

namespace Decides

theorem of_saveFailed : Decides t subject s es (KnownRevoked t subject s ∧ SaveFailed es) where
  spared h := by
    rintro ⟨-, fs, x, name, blob, e, gs, rfl, -⟩
    exact h name blob (.error e) (by simp)
  failed := by
    rintro fs x name blob e gs rfl hfs hgs
    refine and_congr_right fun _ => ⟨?_, fun hx => ⟨fs, x, name, blob, e, gs, rfl, hx⟩⟩
    rintro ⟨fs', x', name', blob', e', gs', heq, hx'⟩
    -- There is one save only, so that what comes right before it is the same.
    obtain ⟨hpre, -, -⟩ :=
      (List.append_cons_inj_of_notMem (hfs name' blob' _) (hgs name' blob' _)).mp heq
    obtain rfl : x = x' := by simpa using (List.append_inj' hpre rfl).2
    exact hx'

theorem inner (h : Decides t subject s es evicted) {p q : List (Exchange interface)}
    (hes : es = p ++ es₁ ++ q) (hpre : NoSave p) (hpost : NoSave q)
    (hcerts : s₁.certs = s.certs) (hmem : s₁.memory = s.memory) :
    Decides t subject s₁ es₁ evicted where
  spared hno := h.spared (hes ▸ noSave_append.mpr ⟨noSave_append.mpr ⟨hpre, hno⟩, hpost⟩)
  failed := by
    rintro fs x name blob e gs rfl hfs hgs
    rw [KnownRevoked, hcerts, hmem]
    refine h.failed (p ++ fs) x name blob e (gs ++ q) (by simp [hes]) ?_
      (noSave_append.mpr ⟨hgs, hpost⟩)
    rw [List.append_assoc]
    exact noSave_append.mpr ⟨hpre, hfs⟩

end Decides

/-! ### What an issuance does -/

/-- **What an issuance for the subject comes to**, by whether it succeeded: it has left the
certificate alone; or removed it, and then it has failed; or stored another with its line, and
then it has succeeded; or a rollback failed. -/
inductive Issuance (subject : Text) (evicted : Prop) (s : State) (es : List (Exchange interface))
    (s' : State) : Bool → Prop
  | untouched {ok : Bool} : s'.certs subject = s.certs subject → s.inventory ⊆ s'.inventory →
      ¬AppendFailed es → ¬evicted → Issuance subject evicted s es s' ok
  | removed : s'.certs subject = none → AppendFailed es ∨ evicted →
      Issuance subject evicted s es s' false
  | stored : Tracked subject s' → Issuance subject evicted s es s' true
  | stuck {ok : Bool} : ¬RollbackOk es → Issuance subject evicted s es s' ok

namespace Issuance

theorem of_spared (h : SameCerts s s') (hes : Spared es) (hev : ¬evicted) :
    Issuance subject evicted s es s' ok :=
  .untouched (by rw [h.certs]) (by rw [h.inventory]; exact List.Subset.refl _)
    hes.not_appendFailed hev

/-- Something that changes nothing comes first. -/
theorem after (hs : SameCerts s s₁) (hes : ¬AppendFailed es₁)
    (h : Issuance subject evicted s₁ es₂ s' ok) :
    Issuance subject evicted s (es₁ ++ es₂) s' ok := by
  cases h with
  | untouched hcert hinv happ hev =>
    exact .untouched (hcert.trans (by rw [hs.certs])) (hs.inventory ▸ hinv)
      (mt appendFailed_append.mp (not_or.mpr ⟨hes, happ⟩)) hev
  | removed hcert hlost =>
    exact .removed hcert (hlost.imp_left fun happ => appendFailed_append.mpr (Or.inr happ))
  | stored htr => exact .stored htr
  | stuck hroll => exact .stuck fun h => hroll h.of_append.2

/-- Something that spares the certificates comes last. -/
theorem before (h : Issuance subject evicted s es₁ s₁ ok) (hs : SameCerts s₁ s')
    (hes : Spared es₂) : Issuance subject evicted s (es₁ ++ es₂) s' ok := by
  cases h with
  | untouched hcert hinv happ hev =>
    exact .untouched (by rw [hs.certs, hcert]) (by rwa [hs.inventory])
      (mt appendFailed_append.mp (not_or.mpr ⟨happ, hes.not_appendFailed⟩)) hev
  | removed hcert hlost =>
    exact .removed (by rw [hs.certs, hcert])
      (hlost.imp_left fun happ => appendFailed_append.mpr (Or.inl happ))
  | stored htr =>
    refine .stored fun blob cert hblob hparsed => ?_
    rw [hs.inventory]
    exact htr blob cert (by rwa [← hs.certs]) hparsed
  | stuck hroll => exact .stuck fun h => hroll h.of_append.1

/-- **The certificate is what it was exactly if there was none or it was not lost.** -/
theorem restored (h : Issuance subject evicted s es s' false) (hroll : RollbackOk es) :
    s'.certs subject = s.certs subject ↔ s.certs subject = none ∨ ¬AppendFailed es ∧ ¬evicted := by
  cases h with
  | untouched hcert hinv happ hev => exact iff_of_true hcert (Or.inr ⟨happ, hev⟩)
  | removed hcert hlost =>
    rw [hcert]
    constructor
    · exact fun h => Or.inl h.symm
    · rintro (h | h)
      · exact h.symm
      · exact absurd hlost (not_or.mpr h)
  | stuck h => exact absurd hroll h

theorem tracked (h : Issuance subject evicted s es s' ok) (hroll : RollbackOk es)
    (hs : Tracked subject s) : Tracked subject s' := by
  cases h with
  | untouched hcert hinv _ _ =>
    intro blob cert hblob hparsed
    obtain ⟨e, he, hserial⟩ := hs blob cert (by rwa [← hcert]) hparsed
    exact ⟨e, hinv he, hserial⟩
  | removed hcert _ =>
    intro blob cert hblob
    rw [hcert] at hblob
    cases hblob
  | stored htr => exact htr
  | stuck h => exact absurd hroll h

end Issuance

/-! ### Programs around an issuance -/

section Around

variable {α β : Type}

/-- A program that spares the certificates, before an issuance that evicts nothing. -/
theorem issuance_bind {p : Prog α} {f : α → Prog β} {r : Except Failure β}
    (hp : p.Only Cmd.SparesCerts) (h : Solo machine t s (p.bind f) es r s')
    (hf : ∀ {a s₁ es₁}, Solo machine t s₁ (f a) es₁ r s' →
      Issuance subject False s₁ es₁ s' r.isOk) :
    Issuance subject False s es s' r.isOk := by
  rcases h.bind_inv with ⟨e, hfail, rfl⟩ | ⟨a, s₁, es₁, es₂, hok, hrest, rfl⟩
  · exact .of_spared (solo_sameCerts hfail hp) (hfail.always hp).2 not_false
  · have hes : Spared es₁ := (hok.always hp).2
    exact (hf hrest).after (solo_sameCerts hok hp) hes.not_appendFailed

/-- Reads, before an issuance that may evict. -/
theorem Decides.reads_bind {p : Prog α} {f : α → Prog β} {r : Except Failure β}
    (hev : Decides t subject s es evicted) (hp : p.Only Cmd.Reads)
    (h : Solo machine t s (p.bind f) es r s')
    (hf : ∀ {a s₁ es₁}, Solo machine t s₁ (f a) es₁ r s' → Decides t subject s₁ es₁ evicted →
      Issuance subject evicted s₁ es₁ s' r.isOk) : Issuance subject evicted s es s' r.isOk := by
  have hspares := always_sparesCerts (always_local hp)
  rcases h.bind_inv with ⟨e, hfail, rfl⟩ | ⟨a, s₁, es₁, es₂, hok, hrest, rfl⟩
  · have hes : Spared es := (hfail.always hspares).2
    exact .of_spared (solo_sameCerts hfail hspares) hes (hev.spared hes.noSave)
  · have hes : Spared es₁ := (hok.always hspares).2
    have hsame := solo_sameCerts hok hspares
    have hmem : s₁.memory = s.memory := hok.keeps (P := fun u : State => u.memory = s.memory)
      (fun hc hex hs => by cases exec_effect hex <;> first | exact hc.elim | exact hs) hp rfl
    refine (hf hrest (hev.inner (q := []) ?_ hes.noSave ?_ hsame.certs hmem)).after hsame
      hes.not_appendFailed
    · simp
    · simp [NoSave]

/-- A program that spares the certificates and cannot fail, after an issuance. -/
theorem issuance_bind_last {p : Prog α} {f : α → Prog β} {r : Except Failure β}
    (hf : ∀ a, (f a).Always Cmd.SparesCerts fun r => r.isOk = true)
    (h : Solo machine t s (p.bind f) es r s')
    (hp : ∀ {r s₁ es₁}, Solo machine t s p es₁ r s₁ → (∃ es₂, es = es₁ ++ es₂ ∧ Spared es₂) →
      Issuance subject evicted s es₁ s₁ r.isOk) :
    Issuance subject evicted s es s' r.isOk := by
  rcases h.bind_inv with ⟨e, hfail, rfl⟩ | ⟨a, s₁, es₁, es₂, hok, hrest, rfl⟩
  · exact hp hfail ⟨[], by simp, by simp [Spared]⟩
  · obtain ⟨hr, hes⟩ := hrest.always (hf a)
    rw [hr]
    exact (hp hok ⟨es₂, rfl, hes⟩).before
      (solo_sameCerts hrest (Prog.always_mono (hf a) fun _ _ => trivial)) hes

/-- A section is the issuance in it. -/
theorem Issuance.enclosed {x y : Exchange interface} {s₂ : State}
    (h : Issuance subject evicted s₁ es s₂ ok) (hs : SameCerts s s₁) (hs' : SameCerts s₂ s')
    (hx : x.1.SparesCerts) (hy : y.1.SparesCerts) :
    Issuance subject evicted s (x :: (es ++ [y])) s' ok := by
  have henter : Spared [x] := by simpa [Spared] using hx
  exact (h.before hs' (by simpa [Spared] using hy)).after hs henter.not_appendFailed

theorem issuance_withLock {n : LockName} {body : Prog α} {r : Except Failure α}
    (h : Solo machine t s (withLock n body) es r s') (hev : NoSave es → ¬evicted)
    (hbody : ∀ {u' es₁}, Solo machine t (s.setOwner n (some t)) body es₁ r u' →
      es = [⟨.lock n, .ok ()⟩] ++ es₁ ++ [⟨.unlock n, ()⟩] →
      Issuance subject evicted (s.setOwner n (some t)) es₁ u' r.isOk) :
    Issuance subject evicted s es s' r.isOk := by
  obtain ⟨rfl, rfl, rfl⟩ | ⟨s₁, es₁, hrun, rfl, rfl⟩ := solo_withLock h
  · have hes : Spared [⟨.lock n, .error .lock⟩] := by simp [Spared, Cmd.SparesCerts]
    exact .of_spared (.refl _) hes (hev hes.noSave)
  · exact (hbody hrun rfl).enclosed ⟨rfl, rfl⟩ ⟨rfl, rfl⟩ trivial trivial

theorem issuance_withMutex {body : Prog α} {r : Except Failure α}
    (h : Solo machine t s (withMutex body) es r s')
    (hbody : ∀ {u' es₁}, Solo machine t (s.setMutex t.replica (some t)) body es₁ r u' →
      es = [⟨.lockMutex, ()⟩] ++ es₁ ++ [⟨.unlockMutex, ()⟩] →
      Issuance subject evicted (s.setMutex t.replica (some t)) es₁ u' r.isOk) :
    Issuance subject evicted s es s' r.isOk := by
  obtain ⟨s₁, es₁, hrun, rfl, rfl⟩ := solo_withMutex h
  exact (hbody hrun rfl).enclosed ⟨rfl, rfl⟩ ⟨rfl, rfl⟩ trivial trivial

end Around

theorem Decides.of_fail {α : Type} {e : Failure} {r : Except Failure α}
    (hev : Decides t subject s es evicted) (h : Solo machine t s (.fail e : Prog α) es r s') :
    Issuance subject evicted s es s' r.isOk := by
  obtain ⟨rfl, rfl, rfl⟩ := Solo.fail_inv h
  exact .of_spared (.refl _) (by simp [Spared]) (hev.spared (by simp [NoSave]))

theorem Issuance.of_fail {α : Type} {e : Failure} {r : Except Failure α}
    (h : Solo machine t s (.fail e : Prog α) es r s') :
    Issuance subject False s es s' r.isOk := by
  obtain ⟨rfl, rfl, rfl⟩ := Solo.fail_inv h
  exact .of_spared (.refl _) (by simp [Spared]) not_false

/-! ### The two writes -/

theorem exec_deleteCert {name : Text} {ch : Choice} {s s' : State}
    (h : exec t s (.deleteCert name) ch = some (.ok (), s')) :
    s' = { s with certs := Function.update s.certs name none } := by
  simp only [exec, deleteOutcome] at h
  split at h
  · cases h
  · split at h
    · exact (Prod.mk.inj (Option.some.inj h)).2.symm
    · cases h

theorem exec_deleteCert_error {name : Text} {ch : Choice} {e : Failure} {s s' : State}
    (h : exec t s (.deleteCert name) ch = some (.error e, s')) : s' = s := by
  simp only [exec, deleteOutcome] at h
  split at h
  · exact (Prod.mk.inj (Option.some.inj h)).2.symm
  · split at h
    · cases h
    · exact (Prod.mk.inj (Option.some.inj h)).2.symm

theorem exec_appendInventory {entry : InventoryEntry} {ch : Choice} {s s' : State}
    (h : exec t s (.appendInventory entry) ch = some (.ok (), s')) :
    s' = { s with inventory := s.inventory ++ [entry] } := by
  simp only [exec] at h
  split at h
  · cases h
  · split at h
    · cases h
    · exact (Prod.mk.inj (Option.some.inj h)).2.symm

/-- **The certificate and its line**: both are stored, or none; what was there before is
overwritten, and gone with the rollback. -/
theorem storeLocked_outcome {cert : Certificate} {blob : CertBlob} {r : Except Failure Unit}
    (hblob : blob.parsed = some cert)
    (h : Solo machine t s (storeLocked subject cert blob) es r s') :
    (∃ e, es = [⟨.saveCert subject blob, .error e⟩] ∧ r = .error e ∧ s' = s) ∨
    (∃ e, r = .error e ∧ s'.certs subject = none ∧ AppendFailed es) ∨
    (r = .ok () ∧ Tracked subject s') ∨ ¬RollbackOk es := by
  obtain ⟨ch, a, s₁, es₁, hex, hrest, rfl⟩ := Solo.call_inv h
  simp only [exec, writeOutcome] at hex
  split at hex <;> cases hex
  · obtain ⟨rfl, rfl, rfl⟩ := Solo.fail_inv hrest
    exact Or.inl ⟨_, rfl, rfl, rfl⟩
  · obtain ⟨ch₂, a₂, s₂, es₂, hex₂, hrest₂, rfl⟩ := Solo.call_inv hrest
    rcases a₂ with e | _
    · -- The append failed: what was saved is deleted again.
      obtain ⟨ch₃, a₃, s₃, es₃, hex₃, hrest₃, rfl⟩ := Solo.call_inv hrest₂
      obtain ⟨rfl, rfl, rfl⟩ := Solo.fail_inv hrest₃
      rcases a₃ with e' | _
      · refine Or.inr (Or.inr (Or.inr fun hroll => ?_))
        have := hroll [⟨.saveCert subject blob, .ok ()⟩,
          ⟨.appendInventory (inventoryEntryFor subject cert), .error e⟩] [] subject (.error e') rfl
          ⟨inventoryEntryFor subject cert, e, by simp⟩
        cases this
      · have hdeleted := exec_deleteCert (t := t) hex₃
        refine Or.inr (Or.inl ⟨e, rfl, ?_, inventoryEntryFor subject cert, e, by simp⟩)
        rw [hdeleted]
        exact Function.update_self _ _ _
    · have happended := exec_appendInventory (t := t) hex₂
      have hsame := solo_sameCerts hrest₂ (always_sparesCerts (local_modifyMemory _))
      obtain ⟨rfl, -⟩ := hrest₂.always (modifyMemory_always _)
      refine Or.inr (Or.inr (Or.inl ⟨rfl, fun blob' cert' hstored hparsed => ?_⟩))
      rw [hsame.certs, happended] at hstored
      change Function.update s.certs subject (some blob) subject = some blob' at hstored
      rw [Function.update_self] at hstored
      obtain rfl := Option.some.inj hstored
      obtain rfl := Option.some.inj (hblob.symm.trans hparsed)
      refine ⟨inventoryEntryFor subject cert, ?_, setString16_serialHexStr _⟩
      rw [hsame.inventory, happended]
      exact List.mem_append_right _ (List.mem_singleton.mpr rfl)

/-- Nothing has to make room. -/
theorem issuance_storeLocked {cert : Certificate} {blob : CertBlob} {r : Except Failure Unit}
    (hblob : blob.parsed = some cert)
    (h : Solo machine t s (storeLocked subject cert blob) es r s') :
    Issuance subject False s es s' r.isOk := by
  obtain ⟨e, rfl, rfl, rfl⟩ | ⟨e, rfl, hcert, happ⟩ | ⟨rfl, htr⟩ | hroll :=
    storeLocked_outcome hblob h
  · exact .untouched rfl (List.Subset.refl _) (by simp [AppendFailed]) not_false
  · exact .removed hcert (Or.inl happ)
  · exact .stored htr
  · exact .stuck hroll

theorem issuance_issueLeafLocked {subjectName : Name} {pubKey : PublicKey} {sans : SubjectAltNames}
    {exts : List Extension} {eku : List ExtKeyUsage} {ttl : Duration} {r : Except Failure CertBlob}
    (h : Solo machine t s (issueLeafLocked ca subject subjectName pubKey sans exts eku ttl) es r
      s') : Issuance subject False s es s' r.isOk := by
  unfold issueLeafLocked at h
  split at h
  · refine issuance_bind (only_ask (only_cmd (c := .randomSerial) trivial)) h fun h => ?_
    refine issuance_bind (only_cmd (c := .now) trivial) h fun h => ?_
    split at h
    · exact .of_fail h
    · refine issuance_bind (only_ask (only_cmd (c := .createCertificate _) trivial)) h fun h => ?_
      refine issuance_bind_last (fun _ => ?_) h fun h _ => issuance_storeLocked rfl h
      rfl
  · exact .of_fail h

/-! ### The operations -/

theorem issuance_signWithTTL {ttl : Duration} {r : Except Failure CertBlob}
    (h : Solo machine t s (signWithTTL ca subject ttl) es r s') :
    Issuance subject False s es s' r.isOk := by
  unfold signWithTTL at h
  split at h
  · next hvalid =>
    refine issuance_withLock h (fun _ => id) fun h _ => issuance_withMutex h fun h _ => ?_
    rw [signWithDuration, if_pos hvalid] at h
    refine issuance_bind (only_ask (only_cmd (c := .getCSR subject) trivial)) h fun h => ?_
    split at h
    · exact .of_fail h
    · split at h
      · exact .of_fail h
      · split at h
        · exact .of_fail h
        · split at h
          · exact .of_fail h
          · refine issuance_bind_last (fun certPEM => ?_) h fun h _ => issuance_issueLeafLocked h
            exact always_cmd_bind trivial fun _ => rfl
  · exact .of_fail h

theorem sparesCerts_supersedeReplaced (subject serial : Text) :
    (supersedeReplaced ca subject serial).Only Cmd.SparesCerts := by
  unfold supersedeReplaced supersedeReplacedAfter
  split
  · exact only_withLock trivial trivial
      (only_withMutex trivial trivial (sparesCerts_revokeSerialLocked serial))
  · unfold recordSuperseded
    split
    · trivial
    · refine always_cmd_bind trivial fun now => only_withLock trivial trivial ?_
      exact Prog.only_bind (always_sparesCerts (always_local reads_readSuperseded)) fun read =>
        only_ask (only_cmd (c := .saveSuperseded _) trivial)

/-- The last step of a renewal cannot fail it. -/
theorem sparesCerts_retire (subject serial : Text) (certPEM : CertBlob) :
    (((supersedeReplaced ca subject serial).attempt : Prog (Except Failure Unit)).bind fun r =>
      .ret { certificate := certPEM, retireError := errorOf r : Renewal }).Always Cmd.SparesCerts
        fun r => r.isOk = true :=
  Prog.always_bind (Prog.always_attempt
    (Prog.always_mono (sparesCerts_supersedeReplaced subject serial) fun _ _ => rfl))

variable {r : Except Failure Renewal}

theorem issuance_renewLocked {presentedCert : Certificate} {pubKey : PublicKey}
    (h : Solo machine t s (renewLocked ca subject presentedCert pubKey) es r s') :
    Issuance subject False s es s' r.isOk := by
  refine issuance_bind (always_sparesCerts (local_refuseIfRevoked ca presentedCert)) h fun h => ?_
  refine issuance_bind (always_sparesCerts (always_local (reads_latestSerialIfAny subject))) h
    fun {oldSerial} _ _ h => ?_
  refine issuance_bind_last (fun certPEM => ?_) h fun h _ => issuance_withMutex h fun h _ => ?_
  · cases oldSerial with
    | none => rfl
    | some serial => exact sparesCerts_retire subject serial certPEM
  · refine issuance_bind_last (fun _ => ?_) h fun h _ => issuance_issueLeafLocked h
    exact always_cmd_bind trivial fun _ => rfl

theorem issuance_autoRenewLocked {presentedCert : Certificate}
    (h : Solo machine t s (autoRenewLocked ca subject presentedCert) es r s') :
    Issuance subject False s es s' r.isOk := by
  refine issuance_bind (always_sparesCerts (local_refuseIfRevoked ca presentedCert)) h fun h => ?_
  refine issuance_bind_last (fun certPEM => ?_) h fun h _ =>
    issuance_withMutex h fun h _ => issuance_issueLeafLocked h
  split
  · rfl
  · exact sparesCerts_retire subject _ certPEM

theorem issuance_renew {csrPEM : RequestBlob} {presented : Option Certificate}
    (h : Solo machine t s (renew ca subject csrPEM presented) es r s') :
    Issuance subject False s es s' r.isOk := by
  unfold renew at h
  split at h
  · exact .of_fail h
  · split at h
    · refine issuance_bind (always_sparesCerts (local_refuseIfRevoked ca _)) h fun h => ?_
      split at h
      · exact .of_fail h
      · split at h
        · exact .of_fail h
        · split at h
          · exact .of_fail h
          · split at h
            · exact .of_fail h
            · split at h
              · exact .of_fail h
              · exact issuance_withLock h (fun _ => id) fun h _ => issuance_renewLocked h
    · exact .of_fail h

theorem issuance_autoRenew {c : Certificate}
    (h : Solo machine t s (autoRenew ca (some c)) es r s') :
    Issuance c.subject.commonName False s es s' r.isOk := by
  unfold autoRenew at h
  simp only at h
  split at h
  · split at h
    · refine issuance_bind (always_sparesCerts (local_refuseIfRevoked ca _)) h fun h => ?_
      exact issuance_withLock h (fun _ => id) fun h _ => issuance_autoRenewLocked h
    · exact .of_fail h
  · exact .of_fail h

/-! ### Making room -/

theorem solo_hasCert {r : Except Failure Bool} (h : Solo machine t s (hasCert subject) es r s') :
    s' = s ∧ ((∃ e, es = [⟨.certExists subject, .error e⟩] ∧ r = .ok false) ∨
      es = [⟨.certExists subject, .ok (s.certs subject).isSome⟩] ∧
        r = .ok (s.certs subject).isSome) := by
  obtain ⟨ch, a, s₁, es₁, hex, hrest, rfl⟩ := Solo.call_inv h
  simp only [exec, existsOutcome] at hex
  split at hex <;> cases hex <;> obtain ⟨rfl, rfl, rfl⟩ := Solo.ret_inv hrest
  · exact ⟨rfl, Or.inl ⟨_, rfl, rfl⟩⟩
  · exact ⟨rfl, Or.inr ⟨rfl, rfl⟩⟩

theorem solo_storedCertLocked {r : Except Failure (Option Certificate)}
    (h : Solo machine t s (storedCertLocked subject) es r s') :
    s' = s ∧ ∃ found, r = .ok found ∧
      ∀ cert, found = some cert → ∃ blob, s.certs subject = some blob ∧
        blob.parsed = some cert := by
  obtain ⟨ch, a, s₁, es₁, hex, hrest, rfl⟩ := Solo.call_inv h
  cases hex
  rcases hread : readOutcome ch (s.certs subject) with e | blob
  · rw [hread] at hrest
    obtain ⟨-, rfl, rfl⟩ := Solo.ret_inv hrest
    exact ⟨rfl, none, rfl, by simp⟩
  · rw [hread] at hrest
    obtain ⟨-, rfl, rfl⟩ := Solo.ret_inv hrest
    exact ⟨rfl, _, rfl, fun cert hcert => ⟨blob, readOutcome_eq_ok hread, hcert⟩⟩

/-- What the code sees to be revoked is known to be. -/
theorem knownRevoked_of_revokedIn {found : Option Certificate}
    (hfound : ∀ cert, found = some cert →
      ∃ blob, s.certs subject = some blob ∧ blob.parsed = some cert)
    (h : revokedIn (s.memory t.replica) found = true) : KnownRevoked t subject s := by
  unfold revokedIn at h
  split at h
  · next cert crl hcrl =>
    obtain ⟨blob, hblob, hparsed⟩ := hfound cert rfl
    exact ⟨blob, cert, crl, hblob, hparsed, hcrl, serialInCRL_iff.mp h⟩
  · cases h

/-- **What making room comes to**: a certificate is in the way; or nothing is changed, where none
was known to be revoked or the last command failed; or a revoked one is deleted. -/
theorem solo_evictRevokedLocked {r : Except Failure Unit}
    (h : Solo machine t s (evictRevokedLocked subject) es r s') :
    (∃ e, r = .error e ∧ s' = s ∧ Spared es) ∨
    ∃ es₁ x, es = es₁ ++ [x] ∧ r = .ok () ∧ Spared es₁ ∧
      (s' = s ∧ (KnownRevoked t subject s → RoomFailed x) ∨
        s'.certs subject = none ∧ KnownRevoked t subject s ∧ ¬RoomFailed x) ∧
      (x.1.SparesCerts ∨ ∃ a, x = ⟨.deleteCert subject, a⟩) := by
  rcases h.bind_inv with ⟨e, hfail, rfl⟩ | ⟨present, s₁, es₁, es₂, hlook, h, rfl⟩
  · obtain ⟨-, ⟨-, -, ⟨⟩⟩ | ⟨-, ⟨⟩⟩⟩ := solo_hasCert hfail
  obtain ⟨rfl, ⟨e, rfl, hpresent⟩ | ⟨rfl, hpresent⟩⟩ := solo_hasCert hlook
  all_goals obtain rfl := Except.ok.inj hpresent
  · -- The look has failed, which counts as nothing being stored.
    obtain ⟨rfl, rfl, rfl⟩ := Solo.ret_inv h
    exact Or.inr ⟨[], _, rfl, rfl, by simp [Spared], Or.inl ⟨rfl, fun _ => ⟨_, _, Or.inl rfl⟩⟩,
      Or.inl trivial⟩
  split at h
  · next hsome =>
    rcases h.bind_inv with ⟨e, hfail, rfl⟩ | ⟨found, s₂, es₃, es₄, hstored, hrest, rfl⟩
    · obtain ⟨-, found, ⟨⟩, -⟩ := solo_storedCertLocked hfail
    have hes₃ : Spared es₃ :=
      (hstored.always (always_sparesCerts (always_local (reads_storedCertLocked subject)))).2
    obtain ⟨rfl, found', hfound, hcert⟩ := solo_storedCertLocked hstored
    obtain rfl := Except.ok.inj hfound
    obtain ⟨ch, m, s₃, es₅, hex, hroom, rfl⟩ := solo_cmd_bind hrest
    obtain ⟨rfl, rfl⟩ : m = s₂.memory t.replica ∧ s₂ = s₃ := by
      simp only [exec] at hex
      split at hex <;> cases hex
      exact ⟨rfl, rfl⟩
    have hread : Spared (⟨.certExists subject, .ok (s₂.certs subject).isSome⟩ ::
        (es₃ ++ [⟨.getMemory, s₂.memory t.replica⟩])) := by
      simp only [Spared, List.mem_cons, List.mem_append, List.not_mem_nil, or_false]
      rintro x (rfl | hx | rfl)
      · trivial
      · exact hes₃ x hx
      · trivial
    split at hroom
    · next hrevoked =>
      have hknown := knownRevoked_of_revokedIn (t := t) hcert hrevoked
      -- A removal that fails is only logged, and the certificate stays.
      obtain ⟨ch, a, s₄, es₆, hex, hdone, rfl⟩ := solo_cmd_bind hroom
      obtain ⟨rfl, rfl, rfl⟩ := Solo.ret_inv hdone
      refine Or.inr ⟨_, ⟨.deleteCert subject, a⟩, by simp, rfl, hread, ?_, Or.inr ⟨a, rfl⟩⟩
      rcases a with e | _
      · exact Or.inl ⟨exec_deleteCert_error (t := t) hex, fun _ => ⟨_, _, Or.inr rfl⟩⟩
      · refine Or.inr ⟨?_, hknown, by rintro ⟨_, _, h | h⟩ <;> cases h⟩
        rw [exec_deleteCert (t := t) hex]
        exact Function.update_self _ _ _
    · obtain ⟨rfl, rfl, rfl⟩ := Solo.fail_inv hroom
      exact Or.inl ⟨_, rfl, rfl, by simpa using hread⟩
  · next hnone =>
    obtain ⟨rfl, rfl, rfl⟩ := Solo.ret_inv h
    refine Or.inr ⟨[], _, rfl, rfl, by simp [Spared], Or.inl ⟨rfl, ?_⟩, Or.inl trivial⟩
    rintro ⟨blob, _, _, hblob, -⟩
    simp [hblob] at hnone

/-- **Making room, and storing the certificate.** One that was known to be revoked is lost if its
successor cannot be saved. -/
theorem Decides.evict_store {cert : Certificate} {blob : CertBlob} {r : Except Failure Unit}
    (hblob : blob.parsed = some cert) (hev : Decides t subject s es evicted)
    (h : Solo machine t s ((evictRevokedLocked subject).bind fun _ =>
      storeLocked subject cert blob) es r s') : Issuance subject evicted s es s' r.isOk := by
  rcases h.bind_inv with ⟨e, hfail, rfl⟩ | ⟨_, s₁, es₁, es₂, hroom, hstore, rfl⟩
  · obtain ⟨_, -, rfl, hes⟩ | ⟨_, _, -, ⟨⟩, -⟩ := solo_evictRevokedLocked hfail
    exact .of_spared (.refl _) hes (hev.spared hes.noSave)
  obtain ⟨_, ⟨⟩, -⟩ | ⟨fs, x, rfl, -, hfs, hcase, hx⟩ := solo_evictRevokedLocked hroom
  have hsave : NoSave (fs ++ [x]) := by
    refine noSave_append.mpr ⟨hfs.noSave, ?_⟩
    rintro name blob r hmem
    obtain rfl := List.mem_singleton.mp hmem
    obtain hx | ⟨a, ⟨⟩⟩ := hx
    exact hx
  have happ : ¬AppendFailed (fs ++ [x]) := by
    refine mt appendFailed_append.mp (not_or.mpr ⟨hfs.not_appendFailed, ?_⟩)
    rintro ⟨entry, e, hmem⟩
    obtain rfl := List.mem_singleton.mp hmem
    obtain hx | ⟨a, ⟨⟩⟩ := hx
    exact hx
  obtain ⟨e, rfl, rfl, rfl⟩ | ⟨e, rfl, hcert, hline⟩ | ⟨rfl, htr⟩ | hroll :=
    storeLocked_outcome hblob hstore
  · -- The save failed: what is lost depends on whether a certificate has been deleted for it.
    have hiff := hev.failed fs x subject blob e [] rfl hsave (by simp [NoSave])
    have hno : ¬AppendFailed (fs ++ [x] ++ [⟨.saveCert subject blob, .error e⟩]) :=
      mt appendFailed_append.mp (not_or.mpr ⟨happ, by simp [AppendFailed]⟩)
    obtain ⟨rfl, hkept⟩ | ⟨hcert, hgone⟩ := hcase
    · exact .untouched rfl (List.Subset.refl _) hno fun hgone =>
        (hiff.mp hgone).2 (hkept (hiff.mp hgone).1)
    · exact .removed hcert (Or.inr (hiff.mpr hgone))
  · exact .removed hcert (Or.inl (appendFailed_append.mpr (Or.inr hline)))
  · exact .stored htr
  · exact .stuck fun h => hroll h.of_append.2

theorem Decides.importCertificateLocked {cert : Certificate} {certPEM : CertBlob}
    {r : Except Failure ImportResult} (hev : Decides t subject s es evicted)
    (hparsed : certPEM.parsed = some cert)
    (h : Solo machine t s (importCertificateLocked subject cert certPEM) es r s') :
    Issuance subject evicted s es s' r.isOk := by
  refine hev.reads_bind (reads_existingCert subject) h fun h hev => ?_
  split at h
  · obtain ⟨rfl, rfl, rfl⟩ := Solo.ret_inv h
    exact .of_spared (.refl _) (by simp [Spared]) (hev.spared (by simp [NoSave]))
  refine hev.reads_bind (only_ask (only_cmd (c := .serialExists _) trivial)) h fun h hev => ?_
  split at h
  · exact hev.of_fail h
  simp only [Prog.bind_eq] at h
  rw [← Prog.bind_assoc _ fun _ => storeLocked subject cert certPEM] at h
  refine issuance_bind_last (fun _ => ?_) h fun h ⟨es₂, heq, hes₂⟩ => ?_
  · rfl
  · exact (hev.inner (p := []) heq (by simp [NoSave]) hes₂.noSave rfl rfl).evict_store hparsed h

theorem issuance_importCertificate {certPEM : CertBlob} {more : Bool}
    {r : Except Failure ImportResult} (hev : Decides t subject s es evicted)
    (h : Solo machine t s (importCertificate ca subject certPEM more) es r s') :
    Issuance subject evicted s es s' r.isOk := by
  unfold importCertificate at h
  split at h
  · exact hev.of_fail h
  · split at h
    · exact hev.of_fail h
    · split at h
      · exact hev.of_fail h
      · next cert hparsed =>
        split at h
        · exact hev.of_fail h
        · refine issuance_withLock h hev.spared fun h heq => ?_
          refine issuance_withMutex h fun h heq' => ?_
          refine Decides.importCertificateLocked ?_ hparsed h
          exact (hev.inner heq (by simp [NoSave]) (by simp [NoSave]) rfl rfl).inner heq'
            (by simp [NoSave]) (by simp [NoSave]) rfl rfl

/-- The subject an operation issues for. -/
def Op.issuesFor : Op → Option Text
  | .signWithTTL subject _ => some subject
  | .renew subject _ _ => some subject
  | .autoRenew presented => presented.map fun c => c.subject.commonName
  | .importCertificate subject _ _ => some subject
  | _ => none

/-- The operation imports a certificate. -/
def Op.imports : Op → Prop
  | .importCertificate _ _ _ => True
  | _ => False

theorem issuance_operation {op : Op} {r : Except Failure Result} (hop : op.issuesFor = some subject)
    (h : Solo machine t s (operation ca op) es r s') :
    Issuance subject (op.imports ∧ KnownRevoked t subject s ∧ SaveFailed es) s es s' r.isOk := by
  cases op with
  | signWithTTL name ttl =>
    obtain rfl := Option.some.inj hop
    simp only [Op.imports, false_and]
    refine issuance_bind_last (fun _ => ?_) h fun h _ => issuance_signWithTTL h
    rfl
  | renew name csrPEM presented =>
    obtain rfl := Option.some.inj hop
    simp only [Op.imports, false_and]
    refine issuance_bind_last (fun _ => ?_) h fun h _ => issuance_renew h
    rfl
  | autoRenew presented =>
    obtain ⟨c, rfl, rfl⟩ := Option.map_eq_some_iff.mp hop
    simp only [Op.imports, false_and]
    refine issuance_bind_last (fun _ => ?_) h fun h _ => issuance_autoRenew h
    rfl
  | importCertificate name certPEM more =>
    obtain rfl := Option.some.inj hop
    simp only [Op.imports, true_and]
    refine issuance_bind_last (fun _ => ?_) h fun h ⟨es₂, heq, hes₂⟩ =>
      issuance_importCertificate (Decides.of_saveFailed.inner (p := []) heq (by simp [NoSave])
        hes₂.noSave rfl rfl) h
    rfl
  | _ => cases hop

/-- **What a failed issuance leaves behind.** `Sign`, `Renew`, `AutoRenew` or
`ImportCertificate` runs for a subject, from any state in which a certificate stored for the
subject has its line in the inventory, with any choice of what fails on the way but the
rollbacks. If it returns an error, the certificate stored for the subject is the one before,
absent if it was absent, if and only if there was none, or the append to the inventory has not
failed, and neither has the save of an import before which the certificate stored was revoked by the
list that the replica has in memory (if making room was not what failed). However the operation
ends, a certificate stored for the subject has its line in the inventory. -/
theorem failed_issuance {op : Op} {r : Except Failure Result} (hop : op.issuesFor = some subject)
    (h : Solo machine t s (operation ca op) es r s') (htracked : Tracked subject s)
    (hroll : RollbackOk es) :
    (∀ e, r = .error e → (s'.certs subject = s.certs subject ↔
      s.certs subject = none ∨ ¬AppendFailed es ∧
        ¬(op.imports ∧ KnownRevoked t subject s ∧ SaveFailed es))) ∧ Tracked subject s' := by
  have hissue := issuance_operation hop h
  refine ⟨?_, hissue.tracked hroll htracked⟩
  rintro e rfl
  exact hissue.restored hroll

/-! A renewal in the sample cluster, where the certificate of the node is stored. -/

/-- The storage before. -/
def renewState : State :=
  { sampleState with
    certs := fun name => if name = ['n'] then some { parsed := some sampleLeaf } else none }

theorem renewState_tracked : Tracked ['n'] renewState := by
  rintro _ cert ⟨⟩ ⟨⟩
  exact ⟨_, List.mem_singleton.mpr rfl, by decide⟩

/-- The commands a rollback is about, with how they ended. -/
def aboutRollback : Exchange interface → Option (Bool × Bool)
  | ⟨.appendInventory _, r⟩ => some (false, r.isOk)
  | ⟨.deleteCert _, r⟩ => some (true, r.isOk)
  | _ => none

theorem rollbackOk_of_succeeds (h : (true, false) ∉ es.filterMap aboutRollback) :
    RollbackOk es := by
  rintro fs gs name r rfl -
  rcases r with e | _
  · simp [aboutRollback, Except.isOk, Except.toBool] at h
  · rfl

theorem not_appendFailed_of_no_command (h : es.filterMap aboutRollback = []) :
    ¬AppendFailed es := by
  rintro ⟨entry, e, hmem⟩
  cases List.filterMap_eq_nil_iff.mp h _ hmem

/-- The node renews, and the command number `k` fails. -/
def renewalFailingAt (k : ℕ) :
    Option (List (Exchange interface) × Except Failure Result × State) :=
  (operation { caCert := sampleCert } (.autoRenew (some sampleLeaf))).runAlone machine ⟨0, 0⟩
    (List.replicate k ({} : Choice) ++ ({ fails := true } : Choice) ::
      List.replicate 10 ({} : Choice)) renewState

/-- What is seen of such a renewal: the commands about the rollback, whether it succeeded, and
the certificate that is stored then. -/
def renewalSeen (k : ℕ) : Option (List (Bool × Bool) × Bool × Option CertBlob) :=
  (renewalFailingAt k).map fun x => (x.1.filterMap aboutRollback, x.2.1.isOk, x.2.2.certs ['n'])

theorem solo_of_renewalSeen {k : ℕ} {cs : List (Bool × Bool)} {stored : Option CertBlob}
    (h : renewalSeen k = some (cs, false, stored)) :
    ∃ es e s', Solo machine ⟨0, 0⟩ renewState
      (operation { caCert := sampleCert } (.autoRenew (some sampleLeaf))) es (.error e) s' ∧
      es.filterMap aboutRollback = cs ∧ s'.certs ['n'] = stored := by
  obtain ⟨⟨es, r, s'⟩, hrun, hseen⟩ := Option.map_eq_some_iff.mp h
  simp only [Prod.mk.injEq] at hseen
  obtain ⟨hcs, hr, hstored⟩ := hseen
  rcases r with e | a
  · exact ⟨es, e, s', Solo.of_runAlone hrun, hcs, hstored⟩
  · cases hr

set_option synthInstance.maxSize 512 in
/-- The certificate cannot be saved: the renewal fails, and what was stored is still there. -/
theorem failed_issuance_sample : ∃ es e s', Solo machine ⟨0, 0⟩ renewState
    (operation { caCert := sampleCert } (.autoRenew (some sampleLeaf))) es (.error e) s' ∧
    s'.certs ['n'] = renewState.certs ['n'] ∧ Tracked ['n'] s' := by
  have hseen : renewalSeen 19 = some ([], false, renewState.certs ['n']) := by decide +kernel
  obtain ⟨es, e, s', hsolo, hcs, -⟩ := solo_of_renewalSeen hseen
  have hroll : RollbackOk es := rollbackOk_of_succeeds (by simp [hcs])
  have hop : (Op.autoRenew (some sampleLeaf)).issuesFor = some ['n'] := rfl
  obtain ⟨hrestored, htracked⟩ := failed_issuance hop hsolo renewState_tracked hroll
  exact ⟨es, e, s', hsolo, (hrestored e rfl).mpr
    (Or.inr ⟨not_appendFailed_of_no_command hcs, fun hlost => hlost.1⟩), htracked⟩

set_option synthInstance.maxSize 512 in
/-- **A failed renewal deletes the certificate it was to replace**: the line of the new
certificate cannot be written, the rollback deletes what is stored, and the node is left with
nothing. -/
theorem failed_renewal_deletes : ∃ es e s', Solo machine ⟨0, 0⟩ renewState
    (operation { caCert := sampleCert } (.autoRenew (some sampleLeaf))) es (.error e) s' ∧
    Tracked ['n'] renewState ∧ RollbackOk es ∧
    renewState.certs ['n'] = some { parsed := some sampleLeaf } ∧ s'.certs ['n'] = none := by
  have hseen : renewalSeen 20 = some ([(false, false), (true, true)], false, none) := by
    decide +kernel
  obtain ⟨es, e, s', hsolo, hcs, hstored⟩ := solo_of_renewalSeen hseen
  exact ⟨es, e, s', hsolo, renewState_tracked, rollbackOk_of_succeeds (by simp [hcs]), rfl, hstored⟩

end OpenvoxCa.Ca
