import OpenvoxCa.Ca.CrlSpecs
import OpenvoxCa.Ca.Requests

/-!
# How the operations are put together

A result about every operation is about a few pieces of them: a list is signed, a certificate is
stored, the superseded certificates are saved, a lock is taken. Each discipline, protocol or class
of commands has its own say about the pieces; the way from there to the operations is always the
same, and is gone here once. What composition keeps (`Conc.Prog.Closed`) and the pieces of a program
have, the program has.

A rule asks for the pieces of the program at hand and for nothing else, so that a result may stop
where it has something of its own to say. Where it has not, `Serves` names the pieces of all the
operations, and `Serves.task` puts them together.
-/

namespace OpenvoxCa.Ca

open Conc Prog

/-! ### What only asks -/

theorem reads_loadSuperseded : loadSuperseded.Only Cmd.Reads := by
  refine always_cmd_bind trivial fun r => ?_
  rcases r with e | data
  · cases e <;> trivial
  · trivial

theorem reads_readSuperseded : readSuperseded.Only Cmd.Reads :=
  only_bind reads_loadSuperseded fun _ => trivial

theorem reads_latestSerialIfAny (subject : Text) : (latestSerialIfAny subject).Only Cmd.Reads := by
  refine always_cmd_bind trivial fun r => ?_
  rcases r with e | serial
  · cases e <;> trivial
  · trivial

theorem reads_storedCertSerial (subject : Text) : (storedCertSerial subject).Only Cmd.Reads := by
  refine only_bind (only_ask (only_cmd (c := .getCert subject) trivial)) fun blob => ?_
  cases blob.parsed <;> trivial

theorem reads_hasCert (subject : Text) : (hasCert subject).Only Cmd.Reads := by
  refine always_cmd_bind trivial fun r => ?_
  cases r <;> trivial

theorem reads_hasCSR (subject : Text) : (hasCSR subject).Only Cmd.Reads := by
  refine always_cmd_bind trivial fun r => ?_
  cases r <;> trivial

theorem reads_storedCertLocked (subject : Text) : (storedCertLocked subject).Only Cmd.Reads := by
  refine always_cmd_bind trivial fun r => ?_
  cases r <;> trivial

theorem reads_existingCert (subject : Text) : (existingCert subject).Only Cmd.Reads := by
  refine only_bind (reads_hasCert subject) fun present => ?_
  split
  · exact reads_storedCertLocked subject
  · trivial

theorem reads_isRevokedSerial (serial : ℤ) : (isRevokedSerial serial).Only Cmd.Reads := by
  refine always_cmd_bind trivial fun m => ?_
  cases m.cachedCRL <;> trivial

theorem reads_refuseIfSuperseded (cert : Certificate) :
    (refuseIfSuperseded cert).Only Cmd.Reads := by
  refine only_bind reads_loadSuperseded fun data => ?_
  split
  · trivial
  · split <;> trivial

theorem reads_checkDuplicateLocked (ca : CA) (subject : Text) :
    (checkDuplicateLocked ca subject).Only Cmd.Reads := by
  refine only_bind (only_bind (only_ask (only_cmd (c := .certExists subject) trivial))
    fun present => ?_) fun state => ?_
  · split
    · exact only_bind (reads_storedCertLocked subject) fun _ =>
        always_cmd_bind trivial fun _ => trivial
    · exact only_bind (only_ask (only_cmd (c := .csrExists subject) trivial)) fun _ => trivial
  · cases state with
    | none => trivial
    | some state =>
      simp only
      split <;> trivial

/-! ### What asks, and deletes -/

/-- The calm commands that store no request. -/
def Cmd.Neutral : Cmd → Prop
  | .saveCSR _ _ => False
  | c => c.Calm

theorem Cmd.Reads.neutral {c : Cmd} (h : c.Reads) : c.Neutral := by
  cases c <;> first | exact h.elim | trivial

theorem Cmd.Neutral.benign {c : Cmd} (h : c.Neutral) : c.Benign := by
  cases c <;> first | exact h.elim | trivial

theorem Cmd.Neutral.quiet {c : Cmd} (h : c.Neutral) : c.Quiet := h.benign.quiet

theorem Cmd.Neutral.calm {c : Cmd} (h : c.Neutral) : c.Calm := by
  cases c <;> first | exact h.elim | exact h

theorem neutral_of_reads {α : Type} {p : Prog α} (h : p.Only Cmd.Reads) : p.Only Cmd.Neutral :=
  always_imp h fun _ => Cmd.Reads.neutral

theorem neutral_deleteStoredCerts (entries : List InventoryEntry) :
    (deleteStoredCerts entries).Only Cmd.Neutral := by
  induction entries with
  | nil => trivial
  | cons e rest ih =>
    refine only_bind (always_cmd_bind trivial fun r => ?_) fun _ => ih
    cases r with
    | error _ => trivial
    | ok blob =>
      simp only
      split
      · split
        · exact always_cmd_bind trivial fun _ => trivial
        · trivial
      · trivial

theorem neutral_evictRevokedLocked (subject : Text) :
    (evictRevokedLocked subject).Only Cmd.Neutral := by
  refine only_bind (neutral_of_reads (reads_hasCert subject)) fun present => ?_
  split
  · refine only_bind (neutral_of_reads (reads_storedCertLocked subject)) fun cert =>
      always_cmd_bind trivial fun m => ?_
    split
    · exact always_cmd_bind trivial fun _ => trivial
    · trivial
  · trivial

theorem neutral_retainPrivateKey (subject : Text) (retain : Bool) :
    (retainPrivateKey subject retain).Only Cmd.Neutral := by
  unfold retainPrivateKey
  split
  · refine always_cmd_bind trivial fun r => ?_
    cases r with
    | ok _ => trivial
    | error e => exact always_cmd_bind trivial fun _ => trivial
  · trivial

theorem neutral_deleteRequestLocked (subject : Text) :
    (deleteRequestLocked subject).Only Cmd.Neutral := by
  refine always_cmd_bind trivial fun r => ?_
  rcases r with e | _
  · cases e <;> trivial
  · trivial

/-! ### Programs on the lists -/

section Lists

variable {ca : CA} {K : ∀ {α : Type}, Prog α → Prop} (h : Closed Cmd.Reads K)

include h

theorem closed_ask {α : Type} {p : Prog (Except Failure α)} (hp : K p) : K (ask p) :=
  h.bind hp h.ofExcept

theorem closed_signCRLLocked (hupdate : ∀ chain, K (cmd (.updateCRL chain)))
    (hinstall : ∀ crl, K (modifyMemory fun m => m.install crl)) (stored : StoredCRL)
    (revoked : List RevocationEntry) : K (signCRLLocked ca stored revoked) :=
  h.bind (h.only (only_cmd (c := .now) trivial)) fun _ =>
    h.bind (h.only (only_ask (only_cmd (c := .createRevocationList _) trivial))) fun crl =>
    h.bind (h.only (always_mono (crlChainLocked_always ca crl stored.blob) fun _ _ => trivial))
      fun chain => h.bind (closed_ask h (hupdate chain)) fun _ => hinstall crl

section Signing

variable (hsign : ∀ stored revoked, K (signCRLLocked ca stored revoked))

include hsign

theorem closed_revokeSerialLocked
    (hevict : ∀ serial, K (modifyMemory fun m => m.evictOCSP serial)) (serial : Text) :
    K (revokeSerialLocked ca serial) := by
  unfold revokeSerialLocked
  split
  · exact h.fail _
  · refine h.bind (h.only (reads_readStoredCRL ca)) fun stored => ?_
    split
    · exact h.ret _
    · exact h.bind (h.only (only_cmd (c := .now) trivial)) fun now =>
        h.bind (hsign _ _) fun _ => hevict _

theorem closed_reissueCRLLocked : K (reissueCRLLocked ca) :=
  h.bind (h.only (reads_readStoredCRL ca)) fun _ => hsign _ _

theorem closed_refreshCRLLocked (hadopt : ∀ own, K (modifyMemory fun m => adoptCRL m own))
    (refreshBefore : Duration) : K (refreshCRLLocked ca refreshBefore) := by
  refine h.bind (h.only (reads_readStoredCRL ca)) fun stored =>
    h.bind (h.only (only_cmd (c := .now) trivial)) fun now => ?_
  split
  · exact h.bind (hadopt _) fun _ => h.ret _
  · exact h.bind (hsign _ _) fun _ => h.ret _

theorem closed_appendCRLEntriesLocked (add : List ℤ) : K (appendCRLEntriesLocked ca add) := by
  refine h.bind (h.only (reads_readStoredCRL ca)) fun stored =>
    h.bind (h.only (only_cmd (c := .now) trivial)) fun now => ?_
  simp only
  split
  · exact h.ret _
  · exact h.bind (hsign _ _) fun _ => h.ret _

theorem closed_dropCRLEntriesLocked (removed : List Text) :
    K (dropCRLEntriesLocked ca removed) := by
  refine h.bind (h.only (reads_readStoredCRL ca)) fun stored => ?_
  simp only
  split
  · exact h.ret _
  · exact hsign _ _

end Signing

theorem closed_drainDueLocked (happend : ∀ add, K (appendCRLEntriesLocked ca add))
    (due : List SupersededEntry) : K (drainDueLocked ca due) := by
  unfold drainDueLocked
  simp only
  split
  · exact h.ret _
  · refine h.bind (h.attempt (happend _)) fun r => ?_
    cases r <;> exact h.ret _

theorem closed_sweepLocked (hwrite : ∀ entries, K (writeSuperseded entries))
    (hdrain : ∀ due, K (withMutex (drainDueLocked ca due))) : K (sweepLocked ca) := by
  refine h.bind (h.only reads_readSuperseded) fun ⟨entries, corrupt⟩ => ?_
  simp only
  split
  · split
    · exact h.bind (hwrite _) fun _ => h.ret _
    · exact h.ret _
  · refine h.bind (h.only (only_cmd (c := .now) trivial)) fun now => ?_
    split
    · exact h.ret _
    · refine h.bind (hdrain _) fun outcome => h.bind (h.attempt (hwrite _)) fun r => ?_
      cases r <;> exact h.ret _

theorem closed_refreshCRLChainLocked (hreissue : K (reissueCRLLocked ca)) :
    K (refreshCRLChainLocked ca) := by
  refine h.bind (h.only (only_ask (only_cmd (c := .getCRL) trivial))) fun current =>
    h.bind (h.only (always_mono (upstreamCRLs_always ca current) fun _ _ => trivial))
      fun upstream => ?_
  cases upstream with
  | none => exact h.ret _
  | some wanted =>
    simp only
    split
    · exact h.fail _
    · split
      · exact h.ret _
      · exact h.bind hreissue fun _ => h.ret _

section Revoking

variable (hrevoke : ∀ serial, K (revokeSerialLocked ca serial))

include hrevoke

theorem closed_retireSupersededForSubjectLocked (hwrite : ∀ entries, K (writeSuperseded entries))
    (subject : Text) : K (retireSupersededForSubjectLocked ca subject) := by
  have heach : ∀ mine, K (retireEach ca mine) := by
    intro mine
    induction mine with
    | nil => exact h.ret _
    | cons e rest ih =>
      refine h.bind (h.attempt (hrevoke _)) fun r => h.bind ih fun failed => ?_
      cases r <;> exact h.ret _
  refine h.bind (h.attempt (h.only reads_readSuperseded)) fun r => ?_
  rcases r with e | ⟨entries, corrupt⟩
  · exact h.ret _
  · simp only
    split
    · exact h.ret _
    · exact h.bind (heach _) fun failed => h.bind (h.attempt (hwrite _)) fun _ => h.ret _

theorem closed_revokeLocked {subject : Text}
    (hretire : K (retireSupersededForSubjectLocked ca subject)) : K (revokeLocked ca subject) := by
  refine h.bind hretire fun _ => h.bind (h.attempt (h.only (only_ask
    (only_cmd (c := .latestSerialForSubject subject) trivial)))) fun r => ?_
  rcases r with e | serial
  · cases e <;> exact h.fail _
  · exact hrevoke _

theorem closed_revokeSerialCheckedLocked (serial : Text) (force : Bool) :
    K (revokeSerialCheckedLocked ca serial force) := by
  refine h.bind (h.attempt (h.only (only_ask
    (only_cmd (c := .subjectForSerial serial) trivial)))) fun r => ?_
  rcases r with e | subject
  · cases e <;> exact h.fail _
  · refine h.bind (h.attempt (h.only (reads_storedCertSerial subject))) fun r => ?_
    split
    · exact hrevoke _
    · split
      · exact hrevoke _
      · exact h.fail _
    · split
      · exact h.fail _
      · exact hrevoke _

end Revoking

theorem closed_withError {α : Type} {zero : α} {p : Prog (α × Option Failure)} (hp : K p) :
    K (withError zero p) := by
  refine h.bind (h.attempt hp) fun r => ?_
  cases r <;> exact h.ret _

theorem closed_refuseIfRevoked (hsync : K (syncCRLCache ca)) (cert : Certificate) :
    K (refuseIfRevoked ca cert) := by
  refine h.bind (h.attempt hsync) fun _ =>
    h.bind (h.only (reads_isRevokedSerial _)) fun revoked => ?_
  split
  · exact h.fail _
  · exact h.only (reads_refuseIfSuperseded cert)

theorem closed_issueLeafLocked {subject : Text}
    (hcreate : ∀ leaf, K (cmd (.createCertificate leaf)))
    (hstore : ∀ leaf, K (storeLocked subject leaf { parsed := some leaf })) (subjectName : Name)
    (pubKey : PublicKey) (sans : SubjectAltNames) (exts : List Extension) (eku : List ExtKeyUsage)
    (ttl : Duration) : K (issueLeafLocked ca subject subjectName pubKey sans exts eku ttl) := by
  unfold issueLeafLocked
  split
  · refine h.bind (h.only (only_ask (only_cmd (c := .randomSerial) trivial))) fun serial =>
      h.bind (h.only (only_cmd (c := .now) trivial)) fun now => ?_
    split
    · exact h.fail _
    · exact h.bind (closed_ask h (hcreate _)) fun leaf => h.bind (hstore leaf) fun _ => h.ret _
  · exact h.fail _

theorem closed_doIf {b : Bool} {p : Prog Unit} (hp : K p) : K (doIf b p) := by
  unfold doIf
  split
  · exact hp
  · exact h.ret _

end Lists

/-! ### Programs on a subject -/

section Subjects

variable {ca : CA} {K : ∀ {α : Type}, Prog α → Prop} (h : Closed Cmd.Neutral K) {subject : Text}

include h

theorem closed_reads : Closed Cmd.Reads K := h.mono fun _ => Cmd.Reads.neutral

theorem closed_cleanupLocked (hprune : ∀ keep, K (cmd (.pruneInventory keep)))
    (hunindex : ∀ removed : List Text, K (modifyMemory fun m => removed.foldl Memory.unindex m))
    (hdrop : ∀ removed, K (dropCRLEntriesLocked ca removed)) (cutoff : Time) :
    K (cleanupLocked ca cutoff) := by
  refine h.bind (hprune _) fun ⟨dropped, pruneErr⟩ => ?_
  simp only
  split
  · exact h.ret _
  · exact h.bind (hunindex _) fun _ => h.bind (h.attempt (hdrop _)) fun r =>
      h.bind (h.only (neutral_deleteStoredCerts dropped)) fun _ => h.ret _

theorem closed_importCertificateLocked {cert : Certificate} {certPEM : CertBlob}
    (hstore : K (storeLocked subject cert certPEM)) :
    K (importCertificateLocked subject cert certPEM) := by
  refine h.bind (h.only (neutral_of_reads (reads_existingCert subject))) fun existing => ?_
  split
  · exact h.ret _
  · refine h.bind (h.only (only_ask (only_cmd (c := .serialExists _) trivial))) fun tracked => ?_
    split
    · exact h.fail _
    · exact h.bind (h.only (neutral_evictRevokedLocked subject)) fun _ =>
        h.bind hstore fun _ => h.ret _

theorem closed_replacedSerial (hload : K (loadCRLCache ca)) (replaceExisting : Bool) :
    K (replacedSerial ca subject replaceExisting) := by
  refine h.bind (h.only (neutral_of_reads (reads_hasCert subject))) fun present => ?_
  split
  · exact h.ret _
  · refine h.bind hload fun _ => ?_
    split
    · exact h.ret _
    · exact h.bind (h.only (neutral_of_reads (reads_storedCertSerial subject))) fun _ => h.ret _

section Issuing

variable (hissue : ∀ name key sans exts eku ttl,
  K (issueLeafLocked ca subject name key sans exts eku ttl))

include hissue

theorem closed_signWithDuration (ttl : Duration) : K (signWithDuration ca subject ttl) := by
  unfold signWithDuration
  split
  · refine h.bind (h.only (only_ask (only_cmd (c := .getCSR subject) trivial))) fun csrPEM => ?_
    split
    · exact h.fail _
    split
    · exact h.fail _
    split
    · exact h.fail _
    split
    · exact h.fail _
    · exact h.bind (hissue _ _ _ _ _ _) fun _ =>
        h.bind (h.only (only_cmd (c := .deleteCSR subject) trivial)) fun _ => h.ret _
  · exact h.fail _

theorem closed_saveRequestLocked {csrPEM : RequestBlob} (hsave : K (cmd (.saveCSR subject csrPEM)))
    (autosign : Option Bool) : K (saveRequestLocked ca subject csrPEM autosign) := by
  refine h.bind (h.only (neutral_of_reads (reads_checkDuplicateLocked ca subject))) fun _ =>
    h.bind (closed_ask (closed_reads h) hsave) fun _ => ?_
  rcases autosign with _ | _ | _
  · exact h.fail _
  · exact h.ret _
  · exact h.bind (closed_signWithDuration h hissue 0) fun _ => h.ret _

theorem closed_generateLocked (hload : K (loadCRLCache ca)) (opts : GenerateOptions)
    (exts : List Extension) (key : PublicKey) (replacing : Option Text) :
    K (generateLocked ca subject opts exts key replacing) := by
  refine h.bind ?_ fun _ => h.bind (h.only (neutral_evictRevokedLocked subject)) fun _ =>
    h.bind (hissue _ _ _ _ _ _) fun _ =>
      h.bind (h.only (neutral_retainPrivateKey subject _)) fun _ =>
    h.bind (h.only (neutral_of_reads (reads_hasCSR subject))) fun _ =>
    h.bind (closed_doIf (closed_reads h) (h.only (always_cmd_bind trivial fun _ => trivial)))
      fun _ => h.ret _
  cases replacing with
  | none => exact h.ret _
  | some _ => exact hload

end Issuing

end Subjects

/-! ### Operations -/

/-- A property of programs by where they run: under the cluster locks `ns`, and, if the flag is
set, under the mutex of the replica. -/
structure Builds (K : List LockName → Bool → ∀ {α : Type}, Prog α → Prop) : Prop where
  closed : ∀ ns b, Closed Cmd.Neutral (K ns b)
  withMutex : ∀ {ns} {α : Type} {body : Prog α}, K ns true body → K ns false (withMutex body)
  withSubject : ∀ {subject} {α : Type} {body : Prog α}, validateSubject subject = true →
    K [.subject subject] false body → K [] false (withLock (.subject subject) body)

namespace Builds

variable {ca : CA} {K : List LockName → Bool → ∀ {α : Type}, Prog α → Prop} (h : Builds K)
  {subject : Text}

include h

theorem revoke (hrevoke : K [.subject subject] false
    (withLock .crl (Ca.withMutex (revokeLocked ca subject)))) :
    K [] false (revoke ca subject) := by
  unfold Ca.revoke
  split
  · next hvalid => exact h.withSubject hvalid hrevoke
  · exact (h.closed _ _).fail _

theorem clean (hrevoke : K [.subject subject] false
    (withLock .crl (Ca.withMutex (revokeLocked ca subject)))) :
    K [] false (clean ca subject) := by
  unfold Ca.clean
  have hsub := h.closed [.subject subject] false
  split
  · next hvalid =>
    refine h.withSubject hvalid (hsub.bind (hsub.only (neutral_of_reads (reads_hasCert subject)))
      fun hasCert => hsub.bind (hsub.only (neutral_of_reads (reads_hasCSR subject)))
      fun hasCSR => ?_)
    split
    · exact hsub.fail _
    · exact hsub.bind (closed_doIf (closed_reads hsub) (hsub.bind (hsub.attempt hrevoke) fun _ =>
        hsub.only (always_cmd_bind trivial fun _ => trivial))) fun _ =>
        closed_doIf (closed_reads hsub) (hsub.only (always_cmd_bind trivial fun _ => trivial))
  · exact (h.closed _ _).fail _

theorem importCertificate {certPEM : CertBlob} (hstore : ∀ cert, certPEM.parsed = some cert →
    K [.subject subject] true (storeLocked subject cert certPEM)) (more : Bool) :
    K [] false (importCertificate ca subject certPEM more) := by
  have hnone := h.closed [] false
  unfold Ca.importCertificate
  split
  · exact hnone.fail _
  next hvalid =>
  split
  · exact hnone.fail _
  split
  · exact hnone.fail _
  next cert hcert =>
  split
  · exact hnone.fail _
  · exact h.withSubject (not_not.mp hvalid) (h.withMutex
      (closed_importCertificateLocked (h.closed _ _) (hstore cert hcert)))

theorem deleteRequest : K [] false (deleteRequest subject) := by
  unfold Ca.deleteRequest
  split
  · next hvalid =>
    exact h.withSubject hvalid ((h.closed _ _).only (neutral_deleteRequestLocked subject))
  · exact (h.closed _ _).fail _

section Issuing

variable (hissue : ∀ name key sans exts eku ttl, K [.subject subject] true
  (issueLeafLocked ca subject name key sans exts eku ttl))

include hissue

theorem signWithTTL (ttl : Duration) : K [] false (signWithTTL ca subject ttl) := by
  unfold Ca.signWithTTL
  split
  · next hvalid =>
    exact h.withSubject hvalid (h.withMutex (closed_signWithDuration (h.closed _ _) hissue ttl))
  · exact (h.closed _ _).fail _

theorem saveRequest (hsave : ∀ csrPEM, K [.subject subject] true (cmd (.saveCSR subject csrPEM)))
    (csrPEM : RequestBlob) (autosign : Option Bool) :
    K [] false (saveRequest ca subject csrPEM autosign) := by
  have hnone := h.closed [] false
  unfold Ca.saveRequest
  split
  · next hvalid =>
    split
    · exact hnone.fail _
    split
    · exact hnone.fail _
    split
    · exact hnone.fail _
    · exact h.withSubject hvalid (h.withMutex
        (closed_saveRequestLocked (h.closed _ _) hissue (hsave _) autosign))
  · exact hnone.fail _

theorem generateWithOptions (hload : K [.subject subject] true (loadCRLCache ca))
    (hrevoke : ∀ serial, K [.subject subject] false
      (withLock .crl (Ca.withMutex (revokeSerialLocked ca serial)))) (opts : GenerateOptions)
    (key : Option PublicKey) : K [] false (generateWithOptions ca subject opts key) := by
  have hnone := h.closed [] false
  have hsub := h.closed [.subject subject] false
  unfold Ca.generateWithOptions
  split
  · exact hnone.fail _
  next hvalid =>
  split
  · exact hnone.fail _
  split
  · exact hnone.fail _
  split
  · exact hnone.fail _
  · exact hnone.fail _
  · refine h.withSubject (not_not.mp hvalid) (hsub.bind (h.withMutex
      (closed_replacedSerial (h.closed _ _) hload _)) fun replacing => hsub.bind ?_ fun _ =>
      hsub.bind (h.withMutex (closed_generateLocked (h.closed _ _) hissue hload _ _ _ _))
        fun _ => hsub.ret _)
    cases replacing with
    | none => exact hsub.ret _
    | some serial => exact hrevoke serial

section Renewing

variable (hrefuse : ∀ cert, K [.subject subject] false (refuseIfRevoked ca cert))
  (hretire : ∀ serial, K [.subject subject] false (supersedeReplaced ca subject serial))

include hrefuse hretire

theorem renewLocked (cert : Certificate) (pubKey : PublicKey) :
    K [.subject subject] false (renewLocked ca subject cert pubKey) := by
  have hsub := h.closed [.subject subject] false
  have hbusy := h.closed [.subject subject] true
  refine hsub.bind (hrefuse cert) fun _ =>
    hsub.bind (hsub.only (neutral_of_reads (reads_latestSerialIfAny subject))) fun oldSerial =>
    hsub.bind (h.withMutex (hbusy.bind (hissue _ _ _ _ _ _) fun _ =>
      hbusy.bind (hbusy.only (only_cmd (c := .deleteCSR subject) trivial)) fun _ =>
      hbusy.ret _)) fun certPEM => ?_
  cases oldSerial with
  | none => exact hsub.ret _
  | some oldSerial => exact hsub.bind (hsub.attempt (hretire oldSerial)) fun _ => hsub.ret _

theorem autoRenewLocked (cert : Certificate) :
    K [.subject subject] false (autoRenewLocked ca subject cert) := by
  have hsub := h.closed [.subject subject] false
  refine hsub.bind (hrefuse cert) fun _ =>
    hsub.bind (h.withMutex (hissue _ _ _ _ _ _)) fun certPEM => ?_
  split
  · exact hsub.ret _
  · exact hsub.bind (hsub.attempt (hretire _)) fun _ => hsub.ret _

end Renewing

end Issuing

theorem renew (hrefuse : ∀ cert, K [] false (refuseIfRevoked ca cert))
    {presented : Option Certificate} (hrenew : ∀ cert pubKey, presented = some cert →
      K [.subject subject] false (Ca.renewLocked ca subject cert pubKey)) (csrPEM : RequestBlob) :
    K [] false (renew ca subject csrPEM presented) := by
  have hnone := h.closed [] false
  unfold Ca.renew
  split
  · exact hnone.fail _
  split
  · refine hnone.bind (hrefuse _) fun _ => ?_
    split
    · exact hnone.fail _
    split
    · exact hnone.fail _
    next hvalid =>
    split
    · exact hnone.fail _
    split
    · exact hnone.fail _
    split
    · exact hnone.fail _
    · exact h.withSubject (not_not.mp hvalid) (hrenew _ _ rfl)
  · exact hnone.fail _

theorem autoRenew (hrefuse : ∀ cert, K [] false (refuseIfRevoked ca cert))
    {presented : Option Certificate} (hrenew : ∀ cert, presented = some cert →
      K [.subject cert.subject.commonName] false
        (Ca.autoRenewLocked ca cert.subject.commonName cert)) :
    K [] false (autoRenew ca presented) := by
  have hnone := h.closed [] false
  unfold Ca.autoRenew
  split
  · exact hnone.fail _
  split
  · simp only
    split
    · next hvalid =>
      exact hnone.bind (hrefuse _) fun _ => h.withSubject hvalid (hrenew _ rfl)
    · exact hnone.fail _
  · exact hnone.fail _

end Builds

/-! ### Every task -/

/-- **The pieces of all the operations**, where they run. -/
structure Serves (ca : CA) (K : List LockName → Bool → ∀ {α : Type}, Prog α → Prop) : Prop
    extends Builds K where
  withCRL : ∀ {ns} {α : Type} {body : Prog α}, .crl ∉ ns →
    K (.crl :: ns) false body → K ns false (withLock .crl body)
  sign : ∀ {ns} stored revoked, .crl ∈ ns → K ns true (signCRLLocked ca stored revoked)
  refresh : ∀ {ns} refreshBefore, .crl ∈ ns → K ns true (refreshCRLLocked ca refreshBefore)
  prune : ∀ {ns} keep, .crl ∈ ns → K ns true (cmd (.pruneInventory keep))
  save : ∀ {ns b} blob, .crl ∈ ns → K ns b (cmd (.saveSuperseded blob))
  modify : ∀ {ns} f, (∀ m, (f m).cachedCRL = m.cachedCRL) → K ns true (modifyMemory f)
  load : ∀ {ns}, K ns true (loadCRLCache ca)
  sync : ∀ {ns}, K ns false (syncCRLCache ca)
  create : ∀ {ns} leaf, K ns true (cmd (.createCertificate leaf))
  store : ∀ {ns subject leaf blob}, .subject subject ∈ ns → blob.parsed = some leaf →
    K ns true (storeLocked subject leaf blob)
  request : ∀ {ns subject} csrPEM, .subject subject ∈ ns →
    K ns true (cmd (.saveCSR subject csrPEM))

theorem cachedCRL_unindex (removed : List Text) (m : Memory) :
    (removed.foldl Memory.unindex m).cachedCRL = m.cachedCRL := by
  induction removed generalizing m with
  | nil => rfl
  | cons key removed ih => exact ih (m.unindex key)

namespace Serves

variable {ca : CA} {K : List LockName → Bool → ∀ {α : Type}, Prog α → Prop} (h : Serves ca K)
  {ns : List LockName}

include h

theorem reads (ns : List LockName) (b : Bool) : Closed Cmd.Reads (K ns b) :=
  closed_reads (h.closed ns b)

theorem write {b : Bool} (entries : List SupersededEntry) (hns : .crl ∈ ns) :
    K ns b (writeSuperseded entries) :=
  closed_ask (h.reads ns b) (h.save _ hns)

theorem revokeSerialLocked (serial : Text) (hns : .crl ∈ ns) :
    K ns true (revokeSerialLocked ca serial) :=
  closed_revokeSerialLocked (h.reads _ _) (fun _ _ => h.sign _ _ hns)
    (fun _ => h.modify _ fun _ => rfl) serial

theorem revokeLocked (subject : Text) (hns : .crl ∈ ns) : K ns true (revokeLocked ca subject) :=
  closed_revokeLocked (h.reads _ _) (fun serial => h.revokeSerialLocked serial hns)
    (closed_retireSupersededForSubjectLocked (h.reads _ _)
      (fun serial => h.revokeSerialLocked serial hns) (fun _ => h.write _ hns) subject)

theorem reissueCRLLocked (hns : .crl ∈ ns) : K ns true (reissueCRLLocked ca) :=
  closed_reissueCRLLocked (h.reads _ _) fun _ _ => h.sign _ _ hns

/-- A section under the CRL lock and the mutex. -/
theorem section_crl {α : Type} {body : Prog α} (hn : .crl ∉ ns) (hbody : K (.crl :: ns) true body) :
    K ns false (withLock .crl (Ca.withMutex body)) :=
  h.withCRL hn (h.withMutex hbody)

theorem recordSuperseded (hn : .crl ∉ ns) (subject serial : Text) (after : Duration) :
    K ns false (recordSuperseded subject serial after) := by
  have hcrl := h.reads (.crl :: ns) false
  unfold Ca.recordSuperseded
  split
  · exact (h.closed _ _).fail _
  · exact (h.closed _ _).bind ((h.closed _ _).only (only_cmd (c := .now) trivial)) fun now =>
      h.withCRL hn (hcrl.bind (hcrl.only reads_readSuperseded) fun _ =>
        h.write _ List.mem_cons_self)

theorem supersedeReplacedAfter (hn : .crl ∉ ns) (subject serial : Text) (after : Duration) :
    K ns false (supersedeReplacedAfter ca subject serial after) := by
  unfold Ca.supersedeReplacedAfter
  split
  · exact h.section_crl hn (h.revokeSerialLocked serial List.mem_cons_self)
  · exact h.recordSuperseded hn subject serial after

theorem refuseIfRevoked (cert : Certificate) : K ns false (refuseIfRevoked ca cert) :=
  closed_refuseIfRevoked (h.reads _ _) h.sync cert

theorem issueLeafLocked {subject : Text} (hns : .subject subject ∈ ns) (name : Name)
    (key : PublicKey) (sans : SubjectAltNames) (exts : List Extension) (eku : List ExtKeyUsage)
    (ttl : Duration) : K ns true (issueLeafLocked ca subject name key sans exts eku ttl) :=
  closed_issueLeafLocked (h.reads _ _) h.create (fun _ => h.store hns rfl)
    name key sans exts eku ttl

theorem sweep : K [] false (withLock .crl (sweepLocked ca)) := by
  have hns : LockName.crl ∈ [LockName.crl] := List.mem_cons_self
  exact h.withCRL (by simp) (closed_sweepLocked (h.reads _ _) (fun _ => h.write _ hns) fun due =>
    h.withMutex (closed_drainDueLocked (h.reads _ _)
      (closed_appendCRLEntriesLocked (h.reads _ _) fun _ _ => h.sign _ _ hns) due))

theorem reconcileSuperseded : K [] false (reconcileSuperseded ca) := by
  refine (h.reads _ _).bind ((h.reads _ _).attempt ((h.reads _ _).only reads_loadSuperseded))
    fun r => ?_
  split
  · exact (h.reads _ _).ret _
  · exact closed_withError (h.reads _ _) h.sweep

theorem cleanupExpiredCerts (retain : Duration) : K [] false (cleanupExpiredCerts ca retain) := by
  have hns : LockName.crl ∈ [LockName.crl] := List.mem_cons_self
  exact (h.reads _ _).bind ((h.reads _ _).only (only_cmd (c := .now) trivial)) fun now =>
    closed_withError (h.reads _ _) (h.section_crl (by simp) (closed_cleanupLocked (h.closed _ _)
      (fun _ => h.prune _ hns) (fun removed => h.modify _ (cachedCRL_unindex removed))
      (closed_dropCRLEntriesLocked (h.reads _ _) fun _ _ => h.sign _ _ hns) _))

theorem operation (op : Op) : K [] false (operation ca op) := by
  have hnone := h.closed [] false
  have hres : ∀ {β : Type} {f : β → Result} {p : Prog β}, K [] false p →
      K [] false (p.bind fun a => .ret (f a)) := fun hp => hnone.bind hp fun _ => hnone.ret _
  have hns : LockName.crl ∈ [LockName.crl] := List.mem_cons_self
  -- What several operations have in common, by the locks it runs under.
  have hissue : ∀ subject name key sans exts eku ttl, K [.subject subject] true
      (Ca.issueLeafLocked ca subject name key sans exts eku ttl) :=
    fun _ _ _ _ _ _ _ => h.issueLeafLocked List.mem_cons_self _ _ _ _ _ _
  have hretire : ∀ subject serial, K [.subject subject] false
      (supersedeReplaced ca subject serial) :=
    fun _ _ => h.supersedeReplacedAfter (by simp) _ _ _
  have hrevoke : ∀ subject, K [.subject subject] false
      (withLock .crl (Ca.withMutex (Ca.revokeLocked ca subject))) :=
    fun _ => h.section_crl (by simp) (h.revokeLocked _ List.mem_cons_self)
  cases op with
  | revoke subject => exact hres (h.revoke (hrevoke subject))
  | revokeSerial serial force =>
    refine hres ?_
    unfold revokeSerial
    split
    · exact hnone.fail _
    · exact h.section_crl (by simp) (closed_revokeSerialCheckedLocked (h.reads _ _)
        (fun serial => h.revokeSerialLocked serial hns) _ _)
  | recordSuperseded subject serial after => exact hres (h.recordSuperseded (by simp) _ _ _)
  | reconcileSuperseded => exact hres h.reconcileSuperseded
  | reissueCRL => exact hres (h.section_crl (by simp) (h.reissueCRLLocked hns))
  | refreshCRLIfDue d => exact hres (h.section_crl (by simp) (h.refresh d hns))
  | refreshCRLChainFile =>
    refine hres ?_
    unfold refreshCRLChainFile
    split
    · exact h.section_crl (by simp)
        (closed_refreshCRLChainLocked (h.reads _ _) (h.reissueCRLLocked hns))
    · exact hnone.ret _
  | cleanupExpiredCerts retain => exact hres (h.cleanupExpiredCerts retain)
  | syncCRLCache => exact hres h.sync
  | signWithTTL subject ttl => exact hres (h.signWithTTL (hissue subject) ttl)
  | renew subject csrPEM presented =>
    exact hres (h.renew h.refuseIfRevoked (fun cert pubKey _ =>
      h.renewLocked (hissue subject) h.refuseIfRevoked (hretire subject) cert pubKey) csrPEM)
  | autoRenew presented =>
    exact hres (h.autoRenew h.refuseIfRevoked fun cert _ =>
      h.autoRenewLocked (hissue _) h.refuseIfRevoked (hretire _) cert)
  | clean subject => exact hres (h.clean (hrevoke subject))
  | importCertificate subject certPEM more =>
    exact hres (h.importCertificate (fun cert hcert => h.store List.mem_cons_self hcert) more)

theorem task (task : Task) : K [] false (taskProgram ca task) := by
  have hnone := h.closed [] false
  have hres : ∀ {β : Type} {f : β → TaskResult} {p : Prog β}, K [] false p →
      K [] false (p.bind fun a => .ret (f a)) := fun hp => hnone.bind hp fun _ => hnone.ret _
  have hissue : ∀ subject name key sans exts eku ttl, K [.subject subject] true
      (Ca.issueLeafLocked ca subject name key sans exts eku ttl) :=
    fun _ _ _ _ _ _ _ => h.issueLeafLocked List.mem_cons_self _ _ _ _ _ _
  cases task with
  | serve op => exact hres (h.operation op)
  | saveRequest subject csrPEM autosign =>
    exact hres (h.saveRequest (hissue subject) (fun _ => h.request _ List.mem_cons_self) _ _)
  | deleteRequest subject => exact hres h.deleteRequest
  | generate subject opts key =>
    exact hres (h.generateWithOptions (hissue subject) h.load (fun serial =>
      h.section_crl (by simp) (h.revokeSerialLocked serial List.mem_cons_self)) _ _)

end Serves

end OpenvoxCa.Ca
