import OpenvoxCa.Ca.Shape
import OpenvoxCa.Ca.SupersedeSpecs

/-!
# Every operation keeps to the discipline of the CRL lock

The last layer of triples: the bodies of re-signing, refresh and cleanup, the operations of a
subject around them, and at the end all of it as one statement about any operation
(`operation_spec`). Cleanup is the one operation that takes serials off the CRL, and what it takes
off is what this hold of the lock has pruned (`dropCRLEntriesLocked_spec`); signing and importing do
not come near the CRL at all.
-/

namespace OpenvoxCa.Ca

open Conc

variable {ca : CA} {cert : Certificate} {t : Tid} {j : Job} {ns : List LockName}
  {pruned : List ℤ} {α : Type}

/-! ### Rules for programs that keep an assertion -/

theorem quiet_keeps {P : State → Prop} (hst : Stable (writerDiscipline ca) t P) (hP : AboutCRL P)
    {p : Prog α} (hp : p.Only Cmd.Quiet) : Keeps (writerDiscipline ca) t j P p :=
  (quiet_spec hst hP hp).weaken fun _ _ _ hs => hs.2

variable {body : Prog α}

theorem quiet_withMutex (hbody : body.Only Cmd.Quiet) : (withMutex body).Only Cmd.Quiet :=
  only_withMutex trivial trivial hbody

theorem withMutex_keeps {P : State → Prop} (hst : Stable (writerDiscipline ca) t P)
    (hP : AboutCRL P) (hbody : Keeps (writerDiscipline ca) t j P body) :
    Keeps (writerDiscipline ca) t j P (withMutex body) :=
  withMutex_spec hst hP (fun _ => hst) (fun _ => hP) hbody

/-- A section under the CRL lock. -/
theorem withCRLLock_keeps (hn : .crl ∉ ns)
    (hbody : Triple (writerDiscipline ca) t j (fun s => Inside t ns [] s ∧ Clocked t none s) body
      fun _ s => ∃ pruned, Inside t ns pruned s) :
    Keeps (writerDiscipline ca) t j (Held t ns) (withLock .crl body) := by
  refine (withCRLLock_spec (B := fun _ => True) (Q := fun _ _ => True) hn (Stable.const _)
    (fun _ _ _ => trivial) (fun b l => hbody.conseq (fun s hs => ⟨hs.1.inside, hs.2.1⟩) ?_)
    (fun _ => Stable.const _) (fun _ _ _ _ => trivial) fun _ => trivial).conseq
    (fun _ hs => ⟨hs, trivial⟩) fun _ _ _ hs => hs.1
  rintro r s - ⟨pruned, b, l, hs⟩
  exact ⟨⟨b, l, pruned, hs⟩, trivial⟩

/-- A section under the CRL lock that prunes nothing. -/
theorem withCRLLock_mutex_keeps (hn : .crl ∉ ns)
    (hbody : Keeps (writerDiscipline ca) t j (Inside t ns []) body) :
    Keeps (writerDiscipline ca) t j (Held t ns) (withLock .crl (withMutex body)) :=
  withCRLLock_keeps hn <| (withMutex_keeps Inside.stable aboutCRL_inside hbody).conseq
    (fun _ hs => hs.1) fun _ _ _ hs => ⟨[], hs⟩

/-! ### Re-signing and cleanup -/

/-- `signCRLLocked`, where it does not matter whether it succeeds. -/
theorem signCRLLocked_inside {b : Option Blob} {l : Option SupersededBlob} {stored : StoredCRL}
    {revoked : List RevocationEntry} (hread : ReadOf ca.caCert b stored)
    (hkeep : ∀ n ∈ stored.own.serials,
      n ∈ revoked.map RevocationEntry.serialNumber ∨ n ∈ j.op.drops pruned)
    (hnodup : stored.own.serials.Nodup → (revoked.map RevocationEntry.serialNumber).Nodup) :
    Triple (writerDiscipline ca) t j (Holding t ns b l pruned)
      (signCRLLocked ca stored revoked) fun _ s => Inside t ns pruned s := by
  refine (signCRLLocked_spec hread hkeep hnodup).weaken fun r s _ hr => ?_
  cases r with
  | ok _ =>
    obtain ⟨b', -, hs⟩ := hr
    exact hs.inside
  | error _ => exact hr.inside

theorem reissueCRLLocked_keeps :
    Keeps (writerDiscipline ca) t j (Inside t ns pruned) (reissueCRLLocked ca) :=
  Triple.exists_pre fun _ => Triple.exists_pre fun _ =>
    readStoredCRL_bind (fun _ _ hs => hs.inside) fun _ hread =>
      signCRLLocked_inside hread (fun _ hn => Or.inl hn) fun h => h

theorem refreshCRLLocked_keeps {refreshBefore : Duration} :
    Keeps (writerDiscipline ca) t j (Inside t ns pruned)
      (refreshCRLLocked ca refreshBefore) := by
  refine Triple.exists_pre fun b => Triple.exists_pre fun l =>
    readStoredCRL_bind (fun e s hs => hs.inside) fun stored hread => ?_
  refine quiet_cmd_bind Holding.stable aboutCRL_holding (c := .now) trivial fun now => ?_
  split
  · refine (Keeps.bind (quiet_keeps Holding.stable aboutCRL_holding
      (always_quiet (local_modifyMemory _)))
      fun _ => Keeps.ret Holding.stable).weaken fun r s _ hs => hs.inside
  · exact (signCRLLocked_inside hread (fun n hn => Or.inl hn) fun h => h).seq (fun _ _ hs => hs)
      fun _ => Keeps.ret Inside.stable

/-- **Cleanup takes off the CRL only what it has pruned.** -/
theorem dropCRLEntriesLocked_spec {removed : List ℤ} (hsub : removed ⊆ j.op.drops pruned) :
    Keeps (writerDiscipline ca) t j (Inside t ns pruned)
      (dropCRLEntriesLocked ca (removed.map serialHexStr)) := by
  refine Triple.exists_pre fun b => Triple.exists_pre fun l =>
    readStoredCRL_bind (fun e s hs => hs.inside) fun stored hread => ?_
  simp only
  split
  · exact Triple.ret Holding.stable fun s _ hs => hs.inside
  · refine signCRLLocked_inside hread ?_ fun h => ?_
    · intro n hn
      obtain ⟨e, he, rfl⟩ := List.mem_map.mp hn
      by_cases hrem : e.serialNumber ∈ removed
      · exact Or.inr (hsub hrem)
      · refine Or.inl (List.mem_map.mpr ⟨e, List.mem_filter.mpr ⟨he, ?_⟩, rfl⟩)
        simpa using hrem
    · exact (List.filter_sublist.map RevocationEntry.serialNumber).nodup h

/-- The prune comes first, and under the same hold of the lock. -/
theorem pruneInventory_bind {keep : InventoryEntry → Bool} {β : Type}
    {f : List InventoryEntry × Option Failure → Prog β} {Q : Except Failure β → State → Prop}
    (hf : ∀ dropped, Triple (writerDiscipline ca) t j
      (Inside t ns (pruned ++ entrySerials dropped.1)) (f dropped) Q) :
    Triple (writerDiscipline ca) t j (Inside t ns pruned)
      ((cmd (.pruneInventory keep)).bind f) Q := by
  refine Triple.call (R := fun a s => Inside t ns (pruned ++ entrySerials a.1) s) Inside.stable
    ?_ ?_ hf
  · rintro s - ⟨b, l, hs⟩
    exact ⟨hs.owner, trivial⟩
  · rintro s ch a s' hinv ⟨b, l, hs⟩ he
    cases he
    refine ⟨b, l, hs.held, hs.crl, hs.superseded, ?_⟩
    rw [← hs.pruned]
    exact List.drop_append_of_le_length hinv.1

theorem cleanupLocked_spec {retain : Duration} (hop : j.op = .cleanupExpiredCerts retain)
    {cutoff : Time} : Triple (writerDiscipline ca) t j (Inside t ns pruned)
    (cleanupLocked ca cutoff)
      fun _ s => ∃ pruned, Inside t ns pruned s := by
  refine pruneInventory_bind fun ⟨dropped, pruneErr⟩ => ?_
  refine Triple.conseq (Q := fun _ s => Inside t ns (pruned ++ entrySerials dropped) s) ?_
    (fun _ hs => hs) fun _ _ _ hs => ⟨_, hs⟩
  simp only
  split
  · exact Keeps.ret Inside.stable
  · refine Keeps.bind (quiet_keeps Inside.stable aboutCRL_inside
      (always_quiet (local_modifyMemory _))) fun _ => ?_
    refine Keeps.bind (Keeps.attempt
      (dropCRLEntriesLocked_spec (hop ▸ List.subset_append_right _ _))) fun r => ?_
    exact Keeps.bind (quiet_keeps Inside.stable aboutCRL_inside
      (Prog.always_imp (neutral_deleteStoredCerts dropped) fun _ => Cmd.Neutral.quiet))
      fun _ => Keeps.ret Inside.stable

/-! ### Programs that leave the CRL alone -/

theorem local_syncCRLCache (ca : CA) : (syncCRLCache ca).Only Cmd.Local := by
  refine Prog.only_bind (only_ask (only_cmd (c := .getCRL) trivial)) fun blob =>
    only_withMutex trivial trivial ?_
  split
  · trivial
  · trivial
  · exact always_cmd_bind trivial fun m => always_cmd_bind trivial fun _ => trivial

theorem local_refuseIfRevoked (ca : CA) (presentedCert : Certificate) :
    (refuseIfRevoked ca presentedCert).Only Cmd.Local :=
  closed_refuseIfRevoked (Prog.closed_only fun _ => Cmd.Reads.local) (local_syncCRLCache ca) _

theorem benign_storeLocked (subject : Text) (cert : Certificate) (blob : CertBlob) :
    (storeLocked subject cert blob).Only Cmd.Benign := by
  refine Prog.only_bind (only_ask (only_cmd (c := .saveCert subject blob) trivial)) fun _ =>
    always_cmd_bind ?_ fun r => ?_
  · exact Option.isSome_iff_exists.mpr ⟨_, setString16_serialHexStr cert.serialNumber⟩
  · cases r with
    | error e => exact always_cmd_bind trivial fun _ => trivial
    | ok _ => exact always_benign (local_modifyMemory _)

theorem benign_issueLeafLocked (ca : CA) (subject : Text) (subjectName : Name)
    (pubKey : PublicKey) (sans : SubjectAltNames) (exts : List Extension) (eku : List ExtKeyUsage)
    (ttl : Duration) :
    (issueLeafLocked ca subject subjectName pubKey sans exts eku ttl).Only Cmd.Benign :=
  closed_issueLeafLocked (Prog.closed_only fun _ h => h.neutral.benign)
    (fun _ => only_cmd trivial) (fun _ => benign_storeLocked _ _ _) _ _ _ _ _ _

theorem quiet_issueLeafLocked (ca : CA) (subject : Text) (subjectName : Name) (pubKey : PublicKey)
    (sans : SubjectAltNames) (exts : List Extension) (eku : List ExtKeyUsage) (ttl : Duration) :
    (issueLeafLocked ca subject subjectName pubKey sans exts eku ttl).Only Cmd.Quiet :=
  Prog.always_imp (benign_issueLeafLocked ca subject subjectName pubKey sans exts eku ttl)
    fun _ => Cmd.Benign.quiet

/-! ### Any operation -/

theorem held_quiet {p : Prog α} (hp : p.Only Cmd.Quiet) :
    Keeps (writerDiscipline ca) t j (Held t ns) p :=
  quiet_keeps (Held.stable ns) (aboutCRL_held ns) hp

theorem closed_inside : Prog.Closed Cmd.Reads fun {α} (p : Prog α) =>
    Keeps (writerDiscipline ca) t j (Inside t ns pruned) p :=
  Keeps.closed fun hp => quiet_keeps Inside.stable aboutCRL_inside (always_quiet (always_local hp))

/-- The operations of a subject keep to the discipline where their pieces do. -/
theorem builds_writer (ca : CA) (t : Tid) (j : Job) : Builds fun ns _ {_} p =>
    Keeps (writerDiscipline ca) t j (Held t ns) p where
  closed := fun _ _ => Keeps.closed fun hp =>
    held_quiet (Prog.always_imp hp fun _ => Cmd.Neutral.quiet)
  withMutex := withMutex_keeps (Held.stable _) (aboutCRL_held _)
  withSubject := fun _ => writer_lockRules.withLock_keeps (by simp)

theorem supersedeReplaced_keeps {subject oldSerial : Text} (hn : .crl ∉ ns)
    (hop : ∀ s entries, Records t subject oldSerial ca.supersedeAfter s entries →
      ListDuty ca.caCert t j.op s entries) :
    Keeps (writerDiscipline ca) t j (Held t ns) (supersedeReplaced ca subject oldSerial) := by
  unfold supersedeReplaced supersedeReplacedAfter
  split
  · exact withCRLLock_mutex_keeps hn revokeSerialLocked_inside
  · exact (recordSuperseded_spec hn hop).weaken fun _ _ _ hs => hs.1

theorem reconcileSuperseded_keeps (hop : j.op = .reconcileSuperseded) :
    Keeps (writerDiscipline ca) t j (Held t []) (reconcileSuperseded ca) := by
  have hnone := closed_reads ((builds_writer ca t j).closed [] false)
  refine Keeps.bind (Keeps.attempt (hnone.only reads_loadSuperseded)) fun r => ?_
  split
  · exact Keeps.ret (Held.stable [])
  · exact closed_withError hnone (withCRLLock_keeps (by simp)
      ((sweepLocked_spec hop).weaken fun _ _ _ hs => ⟨[], hs⟩))

theorem cleanupExpiredCerts_keeps {retain : Duration} (hop : j.op = .cleanupExpiredCerts retain) :
    Keeps (writerDiscipline ca) t j (Held t []) (cleanupExpiredCerts ca retain) := by
  have hnone := closed_reads ((builds_writer ca t j).closed [] false)
  refine Keeps.bind (hnone.only (only_cmd (c := .now) trivial)) fun now =>
    closed_withError hnone (withCRLLock_keeps (by simp) ?_)
  exact Triple.strengthen (withMutex_spec Inside.stable aboutCRL_inside
    (fun _ => Stable.exists fun _ => Inside.stable) (fun _ => AboutCRL.exists fun _ =>
      aboutCRL_inside) (cleanupLocked_spec hop)) fun _ hs => hs.1

/-- What the operations promise about their outcome: a recording that succeeds has put
its serial on the list. -/
def servingPost (t : Tid) (j : Job) (r : Except Failure Result) (s : State) : Prop :=
  match j.op with
  | .recordSuperseded _ serial _ => r = .ok .done → ∃ n,
      normaliseSerial serial = some (serialHexStr n) ∧ Bears (s.saved t) n
  | _ => True

/-- An operation that promises nothing but to keep to the discipline, with its result
wrapped. -/
theorem keeps_result {f : α → Result} {p : Prog α} {Q : Except Failure Result → State → Prop}
    (hp : Keeps (writerDiscipline ca) t j (Held t []) p) (hQ : ∀ r s, Q r s) :
    Triple (writerDiscipline ca) t j (Held t []) (p.bind fun a => .ret (f a)) fun r s =>
      Held t [] s ∧ Q r s :=
  (Keeps.bind hp fun _ => Keeps.ret (Held.stable [])).weaken
    fun r s _ hs => ⟨hs, hQ r s⟩

/-- **Every operation keeps to the discipline**, whatever fails in it. -/
theorem operation_spec (ca : CA) (t : Tid) (j : Job) :
    Triple (writerDiscipline ca) t j (Held t []) (operation ca j.op) fun r s =>
      Held t [] s ∧ servingPost t j r s := by
  unfold servingPost
  -- First what several operations have in common.
  have hbuild := builds_writer ca t j
  have hissue : ∀ {ns} subject name key sans exts eku ttl,
    Keeps (writerDiscipline ca) t j (Held t ns)
      (issueLeafLocked ca subject name key sans exts eku ttl) :=
    fun _ _ _ _ _ _ _ => held_quiet (quiet_issueLeafLocked _ _ _ _ _ _ _ _)
  have hrefuse : ∀ {ns} cert, Keeps (writerDiscipline ca) t j (Held t ns)
      (refuseIfRevoked ca cert) :=
    fun _ => held_quiet (always_quiet (local_refuseIfRevoked _ _))
  have hrevoke : ∀ subject, (∀ s entries, Retires ca.caCert subject s entries →
      ListDuty ca.caCert t j.op s entries) →
      Keeps (writerDiscipline ca) t j (Held t [.subject subject])
        (withLock .crl (withMutex (revokeLocked ca subject))) :=
    fun _ hduty => withCRLLock_mutex_keeps (by simp) (revokeLocked_spec hduty)
  cases hop : j.op with
  | revoke subject =>
    refine keeps_result (hbuild.revoke (hrevoke subject fun s entries h => ?_)) fun _ _ => trivial
    rwa [hop]
  | revokeSerial serial force =>
    refine keeps_result ?_ fun _ _ => trivial
    unfold revokeSerial
    split
    · exact Keeps.fail (Held.stable [])
    · exact withCRLLock_mutex_keeps (by simp)
        (closed_revokeSerialCheckedLocked closed_inside (fun _ => revokeSerialLocked_inside) _ _)
  | recordSuperseded subject serial after =>
    -- What the thread has saved is remembered after it has released the lock.
    have hst : Stable (writerDiscipline ca) t fun s => Held t [] s ∧ ∃ entries,
        s.saved t = entries ∧ ∃ n, normaliseSerial serial = some (serialHexStr n) ∧
          Bears entries n :=
      (Held.stable []).and (Stable.exists fun entries => Stable.and saved_stable (Stable.const _))
    refine Triple.bind (R := fun _ (s : State) => Held t [] s ∧ ∃ entries, s.saved t = entries ∧
      ∃ n,
        normaliseSerial serial = some (serialHexStr n) ∧ Bears entries n)
      ((recordSuperseded_spec (by simp) fun s entries h => ?_).weaken
        fun r s _ hr => ?_) fun _ => Triple.ret hst fun s _ hs => ?_
    · rw [hop]
      exact h
    · rcases r with e | _
      · exact ⟨hr.1, by simp⟩
      · exact ⟨hr.1, _, rfl, hr.2 rfl⟩
    · obtain ⟨hheld, _, rfl, hn⟩ := hs
      exact ⟨hheld, fun _ => hn⟩
  | reconcileSuperseded => exact keeps_result (reconcileSuperseded_keeps hop) fun _ _ => trivial
  | reissueCRL =>
    exact keeps_result (withCRLLock_mutex_keeps (by simp) reissueCRLLocked_keeps)
      fun _ _ => trivial
  | refreshCRLIfDue d =>
    exact keeps_result (withCRLLock_mutex_keeps (by simp) refreshCRLLocked_keeps)
      fun _ _ => trivial
  | refreshCRLChainFile =>
    refine keeps_result ?_ fun _ _ => trivial
    unfold refreshCRLChainFile
    split
    · exact withCRLLock_mutex_keeps (by simp)
        (closed_refreshCRLChainLocked closed_inside reissueCRLLocked_keeps)
    · exact Keeps.ret (Held.stable [])
  | cleanupExpiredCerts retain =>
    exact keeps_result (cleanupExpiredCerts_keeps hop) fun _ _ => trivial
  | syncCRLCache =>
    exact keeps_result (held_quiet (always_quiet (local_syncCRLCache _))) fun _ _ => trivial
  | signWithTTL subject ttl =>
    exact keeps_result (hbuild.signWithTTL (hissue subject) ttl) fun _ _ => trivial
  | renew subject csrPEM presented =>
    refine keeps_result (hbuild.renew hrefuse (fun cert pubKey _ => hbuild.renewLocked
      (hissue subject) hrefuse (fun serial => supersedeReplaced_keeps (by simp)
      fun s entries h => ?_) cert pubKey) csrPEM) fun _ _ => trivial
    rw [hop]
    exact ⟨serial, _, h⟩
  | autoRenew presented =>
    refine keeps_result (hbuild.autoRenew hrefuse fun cert hcert => hbuild.autoRenewLocked
      (hissue _) hrefuse (fun serial => supersedeReplaced_keeps (by simp)
      fun s entries h => ?_) cert) fun _ _ => trivial
    rw [hop]
    exact ⟨cert, hcert, serial, _, h⟩
  | clean subject =>
    refine keeps_result (hbuild.clean (hrevoke subject fun s entries h => ?_)) fun _ _ => trivial
    rwa [hop]
  | importCertificate subject certPEM more =>
    exact keeps_result (hbuild.importCertificate (fun _ _ => held_quiet (Prog.always_imp
      (benign_storeLocked _ _ _) fun _ => Cmd.Benign.quiet)) more) fun _ _ => trivial

end OpenvoxCa.Ca
