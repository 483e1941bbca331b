import OpenvoxCa.Ca.CrlLock
import OpenvoxCa.Ca.Upstream

/-!
# The specifications of the CRL's writers

One triple a function, from `getCRL` up to the bodies of the operations, under the discipline of
`writerDiscipline`. The two that carry the weight are `readStoredCRL_spec` – what a writer starts
from *is* the stored own CRL, and stays it while the lock is held – and `signCRLLocked_spec` – what
it writes amends that, whatever it keeps, provided it drops only serials it has pruned and repeats
none. Every operation above them is a matter of which entries it passes down.
-/

namespace OpenvoxCa.Ca

open Conc

variable {ca : CA} {t : Tid} {j : Job} {ns : List LockName} {b : Option Blob}
  {l : Option SupersededBlob} {pruned : List ℤ}

/-! ### Rules for locks and quiet programs -/

section Rules

variable {α β : Type} {P : State → Prop}

theorem quiet_spec {ε : Type} (hst : Stable (writerDiscipline ca) t P) (hP : AboutCRL P)
    {p : Conc.Prog interface ε α} {R : Except ε α → Prop} (hp : p.Always Cmd.Quiet R) :
    Triple (writerDiscipline ca) t j P p fun r s => R r ∧ P s :=
  writer_lockRules.quiet_spec hst hP.keptByQuiet hp

theorem quiet_bind (hst : Stable (writerDiscipline ca) t P) (hP : AboutCRL P) {p : Prog α}
    {R : Except Failure α → Prop} (hp : p.Always Cmd.Quiet R) {f : α → Prog β}
    {Q : Except Failure β → State → Prop} (herr : ∀ e s, R (.error e) → P s → Q (.error e) s)
    (hf : ∀ a, R (.ok a) → Triple (writerDiscipline ca) t j P (f a) Q) :
    Triple (writerDiscipline ca) t j P (p.bind f) Q :=
  writer_lockRules.quiet_bind hst hP.keptByQuiet hp herr hf

theorem quiet_cmd_bind (hst : Stable (writerDiscipline ca) t P) (hP : AboutCRL P) {c : Cmd}
    (hc : c.Quiet) {f : c.Ans → Prog β} {Q : Except Failure β → State → Prop}
    (hf : ∀ a, Triple (writerDiscipline ca) t j P (f a) Q) :
    Triple (writerDiscipline ca) t j P ((cmd c).bind f) Q :=
  writer_lockRules.quiet_cmd_bind hst hP.keptByQuiet hc hf

theorem withMutex_spec {body : Prog α} {Q : Except Failure α → State → Prop}
    (hst : Stable (writerDiscipline ca) t P) (hP : AboutCRL P)
    (hQst : ∀ r, Stable (writerDiscipline ca) t (Q r)) (hQ : ∀ r, AboutCRL (Q r))
    (hbody : Triple (writerDiscipline ca) t j P body Q) :
    Triple (writerDiscipline ca) t j P (withMutex body) Q :=
  writer_lockRules.withMutex_spec hst hP.keptByQuiet hQst (fun r => (hQ r).keptByQuiet) hbody

end Rules

theorem modifyMemory_always (f : Memory → Memory) :
    (modifyMemory f).Always Cmd.Local fun r => r = .ok () :=
  ⟨trivial, fun _ => ⟨trivial, fun _ => rfl⟩⟩

theorem local_modifyMemory (f : Memory → Memory) : (modifyMemory f).Only Cmd.Local :=
  Prog.always_mono (modifyMemory_always f) fun _ _ => trivial

theorem only_withMutex {α : Type} {body : Prog α} {C : Cmd → Prop} (hlock : C .lockMutex)
    (hunlock : C .unlockMutex) (hbody : body.Only C) : (withMutex body).Only C :=
  always_cmd_bind hlock fun _ => Prog.only_ensure hbody (only_cmd hunlock)

/-- Taking the CRL lock: nothing has been pruned and no clock has been read in this hold yet. -/
theorem withCRLLock_spec {α : Type} {body : Prog α} {B : State → Prop}
    {Q : Except Failure α → State → Prop} (hn : .crl ∉ ns)
    (hst : Stable (writerDiscipline ca) t B) (hset : ∀ s o, B s → B (s.setOwner .crl o))
    (hbody : ∀ b l, Triple (writerDiscipline ca) t j
      (fun s => Holding t ns b l [] s ∧ Clocked t none s ∧ B s) body fun r s =>
        (∃ b l pruned, Holding t ns b l pruned s) ∧ Q r s)
    (hQst : ∀ r, Stable (writerDiscipline ca) t (Q r))
    (hunlock : ∀ r s, HistoryOk s → Q r s → Q r (s.setOwner .crl none))
    (hfail : ∀ s, Q (.error .lock) s) :
    Triple (writerDiscipline ca) t j (fun s => Held t ns s ∧ B s) (withLock .crl body) fun r s =>
      Held t ns s ∧ Q r s := by
  refine writer_lockRules.withLock_spec (A := fun s => ∃ b l, Holding t ns b l [] s ∧
    Clocked t none s ∧ B s) hn hst ?_ ?_ hQst hunlock fun s _ => hfail s
  · intro s _ hb hheld
    exact ⟨s.crl, s.superseded, ⟨hheld, rfl, rfl, by simp [State.holdPruned, State.setOwner]⟩,
      fun _ => by simp [State.setOwner], hset s _ hb⟩
  · refine Triple.exists_pre fun b => Triple.exists_pre fun l =>
      (hbody b l).weaken fun r s _ hr => ?_
    obtain ⟨⟨b', l', pruned, hhold⟩, hq⟩ := hr
    exact ⟨hhold.held, hq⟩

/-! ### Reading the chain -/

theorem readOutcome_eq_ok {α : Type} {ch : Choice} {stored : Option α} {a : α}
    (h : readOutcome ch stored = .ok a) : stored = some a := by
  unfold readOutcome at h
  split at h
  · cases h
  · split at h
    · exact congrArg some (Except.ok.inj h)
    · cases h

theorem readOutcome_eq_notExist {α : Type} {ch : Choice} {stored : Option α}
    (h : readOutcome ch stored = .error .notExist) : stored = none := by
  unfold readOutcome at h
  split at h
  · cases h
  · cases stored with
    | some a => cases h
    | none => rfl

/-- **What the holder of the CRL lock reads is stored.** -/
theorem QuietRules.getCRL_spec {J : Type}
    {exec' : Tid → State → (c : Cmd) → Choice → Option (c.Ans × State)}
    {D : Discipline (machine.withExec exec') J} {i : J} (h : QuietRules D t i)
    (hst : Stable D t (Holding t ns b l pruned)) :
    Triple D t i (Holding t ns b l pruned) getCRL fun r s =>
      (∀ blob, r = .ok blob → b = some blob) ∧ Holding t ns b l pruned s := by
  refine Triple.call (R := fun a s => (∀ blob, a = .ok blob → b = some blob) ∧
    Holding t ns b l pruned s) hst (fun _ _ _ => h.quiet trivial) ?_ fun a =>
    Triple.ofExcept ((Stable.const _).and hst) fun s _ hs => hs
  intro s ch a s' _ hs he
  obtain ⟨rfl, rfl⟩ := Prod.mk.inj (Option.some.inj (h.exec he))
  refine ⟨fun blob h => ?_, hs.held, hs.crl, hs.superseded, hs.pruned⟩
  rw [← hs.crl]
  exact readOutcome_eq_ok h

theorem getCRL_spec :
    Triple (writerDiscipline ca) t j (Holding t ns b l pruned) getCRL fun r s =>
      (∀ blob, r = .ok blob → b = some blob) ∧ Holding t ns b l pruned s :=
  writer_lockRules.getCRL_spec Holding.stable

theorem reads_readStoredCRL (ca : CA) : (readStoredCRL ca).Only Cmd.Reads :=
  Prog.only_bind (only_ask (only_cmd (c := .getCRL) trivial)) fun _ => Prog.only_ofExcept _

/-- What a successful `readStoredCRL` says about the stored chain. -/
def ReadOf (cert : Certificate) (b : Option Blob) (stored : StoredCRL) : Prop :=
  b = some stored.blob ∧ storedOwn cert stored.blob = some stored.own

theorem ReadOf.listedIn {cert : Certificate} {stored : StoredCRL} (h : ReadOf cert b stored) :
    listedIn cert b = stored.own.serials := by
  rw [h.1]
  exact listedIn_of_storedOwn h.2

/-- The list that was read is ours, so what our key signs is ours too. -/
theorem ReadOf.signs {cert : Certificate} {stored : StoredCRL} {crl : RevocationList}
    (h : ReadOf cert b stored) (hsigned : crl.signedBy = cert.publicKey) :
    crlSignedBy cert crl = true := by
  have hown := (ownCRLIn_mem h.2).2
  simp only [crlSignedBy, Bool.and_eq_true] at hown ⊢
  exact ⟨hown.1, by simp [hsigned]⟩

/-- **A writer starts from the stored own CRL.** -/
theorem readStoredCRL_spec :
    Triple (writerDiscipline ca) t j (Holding t ns b l pruned) (readStoredCRL ca) fun r s =>
      (∀ stored, r = .ok stored → ReadOf ca.caCert b stored) ∧ Holding t ns b l pruned s := by
  refine getCRL_spec.seq (fun _ _ hr => ⟨by simp, hr.2⟩) fun blob => Triple.pure_pre fun hb =>
    Triple.ofExcept Holding.stable fun s _ hs => ⟨fun stored h => ?_, hs⟩
  obtain ⟨hblob, hown⟩ := parseStored_eq_ok h
  subst hblob
  exact ⟨hb _ rfl, hown⟩

/-- `readStoredCRL`, followed by anything. -/
theorem readStoredCRL_bind {β : Type} {f : StoredCRL → Prog β}
    {Q : Except Failure β → State → Prop}
    (herr : ∀ e s, Holding t ns b l pruned s → Q (.error e) s)
    (hf : ∀ stored, ReadOf ca.caCert b stored →
      Triple (writerDiscipline ca) t j (Holding t ns b l pruned) (f stored) Q) :
    Triple (writerDiscipline ca) t j (Holding t ns b l pruned) ((readStoredCRL ca).bind f) Q :=
  readStoredCRL_spec.seq (fun e s hr => herr e s hr.2) fun stored =>
    Triple.pure_pre fun hread => hf stored (hread _ rfl)

/-! ### Signing and writing -/

theorem reads_bundleCertificates : bundleCertificates.Only Cmd.Reads := by
  refine Prog.only_bind (only_ask (only_cmd (c := .getCACert) trivial)) fun bundle => ?_
  cases bundle <;> trivial

theorem upstreamCRLs_always (ca : CA) (blob : Blob) :
    (upstreamCRLs ca blob).Always Cmd.Reads fun r => ∀ upstream, r = .ok (some upstream) →
      ∀ crl ∈ upstream, crlSignedBy ca.caCert crl = false := by
  unfold upstreamCRLs
  split
  · refine always_cmd_bind trivial fun file => ?_
    cases file with
    | absent | fault => simp
    | data file =>
      refine Prog.always_bind (Prog.always_mono (Prog.only_ofExcept _) fun r _ => ?_)
      cases r with
      | error e => simp
      | ok parsed =>
        refine Prog.always_bind (Prog.always_mono reads_bundleCertificates fun r _ => ?_)
        cases r with
        | error e => simp
        | ok issuers =>
          simp only
          split
          · next upstream h =>
            simp only [Prog.pure_eq, Prog.always_ret, Except.ok.injEq, Option.some.injEq]
            rintro _ rfl
            exact foreign_of_mem_monotonicUpstream foreign_of_mem_verifiedUpstream h
          · simp
  · simp

/-- **What is published with our list is nobody's own.** -/
theorem crlChainLocked_always (ca : CA) (ourCRL : RevocationList) (blob : Blob) :
    (crlChainLocked ca ourCRL blob).Always Cmd.Reads fun r => ∀ chain, r = .ok chain →
      ∃ ancestors, chain = encodeCRLChain (ourCRL :: ancestors) ∧
        ∀ crl ∈ ancestors, crlSignedBy ca.caCert crl = false := by
  refine Prog.always_bind (Prog.always_mono (upstreamCRLs_always ca blob) fun r hr => ?_)
  cases r with
  | error e => simp
  | ok upstream =>
    cases upstream with
    | some upstream =>
      simp only [Prog.pure_eq, Prog.always_ret, Except.ok.injEq]
      rintro _ rfl
      exact ⟨upstream, rfl, hr upstream rfl⟩
    | none =>
      simp only
      split
      · simp
      · next stored _ =>
        simp only [Prog.pure_eq, Prog.always_ret, Except.ok.injEq]
        rintro _ rfl
        exact ⟨_, rfl, by simp [CA.ownsCRL]⟩

/-! What is read of the operator's file is in the passes of the thread, so that a write of the
chain can be held to it. -/

section Passes

variable {J : Type} {exec' : Tid → State → (c : Cmd) → Choice → Option (c.Ans × State)}
  {D : Discipline (machine.withExec exec') J} {i : J} {P : State → Prop} {ps : List Pass}

/-- Nobody else makes a thread's passes. -/
theorem LockRules.with_passes (h : LockRules D t i) (hst : Stable D t P) (ps : List Pass) :
    Stable D t fun s => P s ∧ s.passes t = ps := by
  refine hst.and ?_
  rintro s s' hs ⟨u, hne, -, c, ch, a, -, -, hex⟩
  cases exec_effect (h.exec hex) with
  | readChainFile | getCACert => exact (Function.update_of_ne hne.symm _ _).trans hs
  | _ => exact hs

/-- What a pass says is to be published, if it says anything. -/
def States (cert : Certificate) (blob : Blob) (pass : Option Pass) :
    Option (List RevocationList) → Prop
  | none => ∀ p ∈ pass, p.file = .absent
  | some upstream => ∃ p file, pass = some p ∧ p.file = .data file ∧
      Carries cert blob upstream pass

theorem bundleCertificates_spec (h : QuietRules D t i) (hst : Stable D t P) (hP : KeptByQuiet t P)
    {file : FileRead} {before : Option (List Certificate)} :
    Triple D t i (fun s => P s ∧ s.passes t = ⟨file, before⟩ :: ps) bundleCertificates fun r s =>
      P s ∧ ∀ issuers, r = .ok issuers → s.passes t = ⟨file, some issuers⟩ :: ps := by
  have hkept := h.with_passes hst
  refine Triple.call (R := fun a s => P s ∧ ∀ bundle, a = .ok bundle →
    s.passes t = ⟨file, bundle⟩ :: ps) (hkept _) (fun _ _ _ => h.quiet trivial) ?_ fun a => ?_
  · rintro s ch a s' - ⟨hs, hps⟩ he
    obtain ⟨rfl, rfl⟩ := Prod.mk.inj (Option.some.inj (h.exec he))
    refine ⟨hP (c := .getCACert) trivial .getCACert hs, fun bundle hbundle => ?_⟩
    simp [State.noteBundle, hps, Pass.withBundle, hbundle]
  · cases a with
    | error e =>
      exact (Triple.fail hst fun s _ hs => ⟨hs, by simp⟩).conseq (fun s hs => hs.1)
        fun _ _ _ hr => hr
    | ok bundle =>
      refine Triple.conseq (P := fun s : State => P s ∧ s.passes t = ⟨file, bundle⟩ :: ps) ?_
        (fun s hs => ⟨hs.1, hs.2 _ rfl⟩) fun _ _ _ hr => hr
      cases bundle with
      | none => exact Triple.fail (hkept _) fun s _ hs => ⟨hs.1, by simp⟩
      | some issuers =>
        refine Triple.ret (hkept _) fun s _ hs => ⟨hs.1, ?_⟩
        rintro _ ⟨⟩
        exact hs.2

/-- **One pass over the operator's file.** -/
theorem upstreamCRLs_spec (h : QuietRules D t i) (hst : Stable D t P) (hP : KeptByQuiet t P)
    {blob : Blob} :
    Triple D t i (fun s => P s ∧ s.passes t = ps) (upstreamCRLs ca blob) fun r s => P s ∧
      ∀ upstream, r = .ok upstream → ∃ pass : Option Pass, pass.isSome = ca.crlChainFile ∧
        s.passes t = pass.toList ++ ps ∧ States ca.caCert blob pass upstream := by
  have hkept := h.with_passes hst
  unfold upstreamCRLs
  split
  · next hfile =>
    refine Triple.call (R := fun a s => P s ∧ s.passes t = ⟨a, none⟩ :: ps) (hkept _)
      (fun _ _ _ => h.quiet trivial) ?_ fun file => ?_
    · rintro s ch a s' - ⟨hs, hps⟩ he
      obtain ⟨rfl, rfl⟩ := Prod.mk.inj (Option.some.inj (h.exec he))
      exact ⟨hP (c := .readChainFile) trivial .readChainFile hs, by simp [State.noteFile, hps]⟩
    · cases file with
      | absent =>
        refine Triple.ret (hkept _) fun s _ hs => ⟨hs.1, ?_⟩
        rintro _ ⟨⟩
        exact ⟨some ⟨.absent, none⟩, hfile.symm, hs.2, by simp [States]⟩
      | fault => exact Triple.fail (hkept _) fun s _ hs => ⟨hs.1, by simp⟩
      | data file =>
        refine Triple.bind (R := fun parsed (s : State) => decodeCRLChainStrict file = .ok parsed ∧
          P s ∧
          s.passes t = ⟨.data file, none⟩ :: ps) (Triple.ofExcept (hkept _) ?_) fun parsed =>
          Triple.pure_pre fun hparsed => ?_
        · intro s _ hs
          cases hdec : decodeCRLChainStrict file with
          | ok parsed => exact ⟨rfl, hs⟩
          | error e => exact ⟨hs.1, by simp⟩
        · refine (bundleCertificates_spec h hst hP).seq
            (fun _ _ hr => ⟨hr.1, by simp⟩) fun issuers =>
            Triple.strengthen (P := fun s : State => P s ∧
              s.passes t = ⟨.data file, some issuers⟩ :: ps) ?_ fun _ hs => ⟨hs.1, hs.2 _ rfl⟩
          cases hup : monotonicUpstream ca.caCert issuers blob
              (verifiedUpstream ca.caCert issuers parsed) with
          | none => exact Triple.fail (hkept _) fun s _ hs => ⟨hs.1, by simp⟩
          | some upstream =>
            refine Triple.ret (hkept _) fun s _ hs => ⟨hs.1, ?_⟩
            rintro _ ⟨⟩
            exact ⟨some ⟨.data file, some issuers⟩, hfile.symm, hs.2, _, file, rfl, rfl, parsed,
              issuers, hparsed, rfl, hup⟩
  · next hfile =>
    refine Triple.ret (hkept _) fun s _ hs => ⟨hs.1, ?_⟩
    rintro _ ⟨⟩
    exact ⟨none, by simpa using hfile, hs.2, by simp [States]⟩

/-- **What is published with our list** is what the pass over the file says. -/
theorem crlChainLocked_spec (h : QuietRules D t i) (hst : Stable D t P) (hP : KeptByQuiet t P)
    {ourCRL : RevocationList} {blob : Blob} :
    Triple D t i (fun s => P s ∧ s.passes t = ps) (crlChainLocked ca ourCRL blob) fun r s => P s ∧
      ∀ chain, r = .ok chain → ∃ (ancestors : List RevocationList) (pass : Option Pass),
        chain = encodeCRLChain (ourCRL :: ancestors) ∧ Carries ca.caCert blob ancestors pass ∧
        pass.isSome = ca.crlChainFile ∧ s.passes t = pass.toList ++ ps := by
  have hkept := h.with_passes hst
  refine Triple.bind (R := fun upstream (s : State) => ∃ pass : Option Pass,
    (pass.isSome = ca.crlChainFile ∧ States ca.caCert blob pass upstream) ∧ P s ∧
      s.passes t = pass.toList ++ ps)
    ((upstreamCRLs_spec h hst hP).weaken fun r s _ hr => ?_) fun upstream =>
    Triple.exists_pre fun pass => Triple.pure_pre fun hpass => ?_
  · cases r with
    | ok upstream =>
      obtain ⟨pass, hsome, hps, hstates⟩ := hr.2 upstream rfl
      exact ⟨pass, ⟨hsome, hstates⟩, hr.1, hps⟩
    | error e => exact ⟨hr.1, by simp⟩
  · cases upstream with
    | some upstream =>
      obtain ⟨p, file, -, -, hcarries⟩ := hpass.2
      refine Triple.ret (hkept _) fun s _ hs => ⟨hs.1, ?_⟩
      rintro _ ⟨⟩
      exact ⟨upstream, pass, rfl, hcarries, hpass.1, hs.2⟩
    | none =>
      -- Nothing is stated: the stored blocks are carried over.
      have hkeep : ∀ {ancestors}, publishedUpstream ca.caCert blob = some ancestors →
          Carries ca.caCert blob ancestors pass := by
        intro ancestors hpub
        cases pass with
        | none => exact hpub
        | some p => simpa [Carries, hpass.2 p rfl] using hpub
      cases hdec : decodeCRLChain blob with
      | none => exact Triple.fail (hkept _) fun s _ hs => ⟨hs.1, by simp⟩
      | some stored =>
        refine Triple.ret (hkept _) fun s _ hs => ⟨hs.1, ?_⟩
        rintro _ ⟨⟩
        exact ⟨_, pass, rfl, hkeep (by simp [publishedUpstream, hdec, CA.ownsCRL]), hpass.1, hs.2⟩

end Passes

theorem Carries.foreign {cert : Certificate} {blob : Blob} {ancestors : List RevocationList}
    {pass : Option Pass} (h : Carries cert blob ancestors pass) :
    ∀ c ∈ ancestors, crlSignedBy cert c = false := by
  have hpublished : publishedUpstream cert blob = some ancestors →
      ∀ c ∈ ancestors, crlSignedBy cert c = false := foreign_of_mem_published
  cases pass with
  | none => exact hpublished h
  | some pass =>
    obtain ⟨file, bundle⟩ := pass
    cases file with
    | absent => exact hpublished h
    | fault => exact h.elim
    | data file =>
      obtain ⟨parsed, issuers, -, -, hup⟩ := h
      exact foreign_of_mem_monotonicUpstream foreign_of_mem_verifiedUpstream hup

theorem statement_eq {pass : Option Pass} {ps : List Pass} {s : State}
    (hpass : pass.isSome = ca.crlChainFile) (hs : s.passes t = pass.toList ++ ps) :
    ca.statement t s = pass := by
  unfold CA.statement
  cases pass with
  | none => rw [← hpass]; rfl
  | some pass => rw [← hpass, hs]; rfl

/-- After a successful write the stored own CRL has the entries that were passed. -/
def WroteEntries (cert : Certificate) (entries : List RevocationEntry) (b : Option Blob) : Prop :=
  listedIn cert b = entries.map RevocationEntry.serialNumber

/-- `UpdateCRL`: allowed where the new chain amends the stored one, and carries the ancestors'
lists that the thread's latest pass over the file says. -/
theorem updateCRL_spec {chain : Blob} {ps : List Pass}
    (hamend : Amends ca.caCert (j.op.drops pruned) b chain)
    (hchain : ∀ s, s.crl = b → s.passes t = ps → chainDuty ca t (.updateCRL chain) s) :
    Triple (writerDiscipline ca) t j (fun s => Holding t ns b l pruned s ∧ s.passes t = ps)
      (ask (cmd (.updateCRL chain))) fun r s => match r with
        | .ok _ => Holding t ns (some chain) l pruned s
        | .error _ => Holding t ns b l pruned s := by
  refine Triple.call (R := fun a s => match a with
      | .ok _ => Holding t ns (some chain) l pruned s
      | .error _ => Holding t ns b l pruned s)
    ((writer_lockRules (j := j)).with_passes Holding.stable ps) ?_ ?_ fun a => ?_
  · rintro s - ⟨hs, hps⟩
    refine ⟨⟨hs.owner, ?_⟩, hchain s hs.crl hps⟩
    rw [hs.pruned, hs.crl]
    exact hamend
  · rintro s ch a s' - ⟨hs, -⟩ he
    have he := Option.some.inj he
    unfold writeOutcome at he
    split at he <;> obtain ⟨rfl, rfl⟩ := Prod.mk.inj he
    · exact hs
    · exact ⟨hs.held, rfl, hs.superseded, hs.pruned⟩
  · cases a with
    | ok _ => exact Triple.ret Holding.stable fun s _ hs => hs
    | error e => exact Triple.fail Holding.stable fun s _ hs => hs

/-- **`signCRLLocked` amends the stored chain**: it writes nothing, or a chain led by a
list with the entries it was given. -/
theorem signCRLLocked_spec {stored : StoredCRL} {revoked : List RevocationEntry}
    (hread : ReadOf ca.caCert b stored)
    (hkeep : ∀ n ∈ stored.own.serials,
      n ∈ revoked.map RevocationEntry.serialNumber ∨ n ∈ j.op.drops pruned)
    (hnodup : stored.own.serials.Nodup → (revoked.map RevocationEntry.serialNumber).Nodup) :
    Triple (writerDiscipline ca) t j (Holding t ns b l pruned)
      (signCRLLocked ca stored revoked) fun r s => match r with
        | .ok _ => ∃ b', WroteEntries ca.caCert revoked b' ∧ Holding t ns b' l pruned s
        | .error _ => Holding t ns b l pruned s := by
  refine quiet_cmd_bind Holding.stable aboutCRL_holding (c := .now) trivial fun now => ?_
  refine writer_lockRules.createRevocationList_bind Holding.stable (fun _ => ⟨trivial, trivial⟩)
    (fun e s hs => hs) fun crl hnumber hentries hsigned => ?_
  refine Triple.conseq (P := fun s : State => ∃ ps, Holding t ns b l pruned s ∧ s.passes t = ps)
    (Triple.exists_pre fun ps => ?_) (fun s hs => ⟨_, hs, rfl⟩) fun _ _ _ hr => hr
  refine Triple.bind (R := fun chain (s : State) =>
    ∃ (ancestors : List RevocationList) (pass : Option Pass),
    (chain = encodeCRLChain (crl :: ancestors) ∧ Carries ca.caCert stored.blob ancestors pass ∧
      pass.isSome = ca.crlChainFile) ∧ Holding t ns b l pruned s ∧
      s.passes t = pass.toList ++ ps)
    ((crlChainLocked_spec writer_lockRules Holding.stable aboutCRL_holding.keptByQuiet).weaken
      fun r s _ hr => ?_) fun chain => Triple.exists_pre fun ancestors =>
    Triple.exists_pre fun pass => Triple.pure_pre ?_
  · cases r with
    | ok chain =>
      obtain ⟨ancestors, pass, hchain, hcarries, hpass, hps⟩ := hr.2 chain rfl
      exact ⟨ancestors, pass, ⟨hchain, hcarries, hpass⟩, hr.1, hps⟩
    | error e => exact hr.1
  rintro ⟨rfl, hcarries, hpass⟩
  -- The new chain is led by the list just signed, and nothing that follows is ours.
  have hforeign := hcarries.foreign
  have hown := hread.signs hsigned
  have hserials : crl.serials = revoked.map RevocationEntry.serialNumber := by
    rw [RevocationList.serials, hentries]
    rfl
  have hamend : Amends ca.caCert (j.op.drops pruned) b (encodeCRLChain (crl :: ancestors)) :=
    ⟨stored.blob, stored.own, crl, ancestors, hread.1, hread.2, rfl, hown, hforeign, hnumber,
      by rwa [hserials], by rwa [hserials]⟩
  have hchain : ∀ s, s.crl = b → s.passes t = pass.toList ++ ps →
      chainDuty ca t (.updateCRL (encodeCRLChain (crl :: ancestors))) s := by
    intro s hcrl hps
    exact ⟨stored.blob, crl, ancestors, hcrl.trans hread.1, rfl, statement_eq hpass hps ▸ hcarries⟩
  refine (updateCRL_spec hamend hchain).seq (fun _ _ hs => hs) fun _ => (quiet_spec Holding.stable
    aboutCRL_holding (always_quiet (modifyMemory_always _))).weaken ?_
  rintro _ s - ⟨rfl, hs⟩
  exact ⟨_, (listedIn_of_storedOwn (storedOwn_encode hown hforeign)).trans hserials, hs⟩

/-- `signCRLLocked`, followed by anything. -/
theorem signCRLLocked_bind {stored : StoredCRL} {revoked : List RevocationEntry} {β : Type}
    {f : Unit → Prog β} {Q : Except Failure β → State → Prop}
    (hread : ReadOf ca.caCert b stored)
    (hkeep : ∀ n ∈ stored.own.serials,
      n ∈ revoked.map RevocationEntry.serialNumber ∨ n ∈ j.op.drops pruned)
    (hnodup : stored.own.serials.Nodup → (revoked.map RevocationEntry.serialNumber).Nodup)
    (herr : ∀ e s, Holding t ns b l pruned s → Q (.error e) s)
    (hf : ∀ b', WroteEntries ca.caCert revoked b' →
      Triple (writerDiscipline ca) t j (Holding t ns b' l pruned) (f ()) Q) :
    Triple (writerDiscipline ca) t j (Holding t ns b l pruned)
      ((signCRLLocked ca stored revoked).bind f) Q :=
  (signCRLLocked_spec hread hkeep hnodup).seq herr
    fun _ => Triple.exists_pre fun b' => Triple.pure_pre (hf b')

/-! ### Listing serials -/

/-- What a writer that only adds to the list leaves behind. -/
def Grown (cert : Certificate) (b b' : Option Blob) : Prop := listedIn cert b ⊆ listedIn cert b'

/-- What a writer leaves behind that lists the serial `n` and no other. -/
def Lists (cert : Certificate) (n : ℤ) (b b' : Option Blob) : Prop :=
  ∀ m, m ∈ listedIn cert b' ↔ m = n ∨ m ∈ listedIn cert b

theorem revokeSerialLocked_spec {serialStr : Text} :
    Triple (writerDiscipline ca) t j (Holding t ns b l pruned)
      (revokeSerialLocked ca serialStr) fun r s => match r with
        | .ok _ => ∃ n b', setString16 serialStr = some n ∧ Lists ca.caCert n b b' ∧
            Holding t ns b' l pruned s
        | .error _ => Holding t ns b l pruned s := by
  unfold revokeSerialLocked
  cases hserial : setString16 serialStr with
  | none => exact Triple.fail Holding.stable fun s _ hs => hs
  | some n =>
    refine readStoredCRL_bind (fun e s hs => hs) fun stored hread => ?_
    split
    · next hlisted =>
      have hn : n ∈ listedIn ca.caCert b := by
        rw [hread.listedIn]
        exact serialInCRL_iff.mp hlisted
      refine Triple.ret Holding.stable fun s _ hs => ⟨n, b, rfl, fun m => ?_, hs⟩
      exact ⟨Or.inr, fun hm => hm.elim (fun h => h ▸ hn) id⟩
    · next hlisted =>
      have hnew : n ∉ stored.own.serials := fun h => hlisted (serialInCRL_iff.mpr h)
      refine quiet_cmd_bind Holding.stable aboutCRL_holding (c := .now) trivial fun now => ?_
      refine signCRLLocked_bind hread ?_ ?_ (fun e s hs => hs) fun b' hb' => ?_
      · intro m hm
        rw [List.map_append]
        exact Or.inl (List.mem_append_left _ hm)
      · intro hnodup
        rw [List.map_append]
        exact hnodup.append (by simp) (by simpa using hnew)
      · have hlist : listedIn ca.caCert b' = stored.own.serials ++ [n] :=
          hb'.trans (by rw [List.map_append]; rfl)
        refine (quiet_spec Holding.stable
          aboutCRL_holding (always_quiet (modifyMemory_always _))).weaken ?_
        rintro _ s - ⟨rfl, hs⟩
        refine ⟨n, b', rfl, fun m => ?_, hs⟩
        rw [hread.listedIn, hlist, List.mem_append, List.mem_singleton, or_comm]

def AppendAcc.serials (acc : AppendAcc) : List ℤ := acc.revoked.map RevocationEntry.serialNumber

/-- The invariant of the loop of `appendCRLEntriesLocked`: the keys of `listed` are the
texts of the serials listed. -/
def AppendAcc.Keyed (acc : AppendAcc) : Prop :=
  ∀ m, acc.listed.lookup (serialHexStr m) = none ↔ m ∉ acc.serials

/-- One round keeps what was listed in front, lists the serial, and repeats nothing. -/
theorem appendStep_spec (now : Time) {acc : AppendAcc} (hacc : acc.Keyed) (n : ℤ) :
    (appendStep now acc n).Keyed ∧ acc.revoked <+: (appendStep now acc n).revoked ∧
      n ∈ (appendStep now acc n).serials ∧
      (acc.serials.Nodup → (appendStep now acc n).serials.Nodup) := by
  cases hlook : acc.listed.lookup (serialHexStr n) with
  | some time =>
    have heq : appendStep now acc n =
        { acc with revokedAt := (serialHexStr n, time) :: acc.revokedAt } := by
      simp only [appendStep, hlook]
    rw [heq]
    refine ⟨hacc, List.prefix_rfl, ?_, fun h => h⟩
    by_contra hn
    rw [(hacc n).mpr hn] at hlook
    cases hlook
  | none =>
    have heq : appendStep now acc n =
        { listed := (serialHexStr n, now) :: acc.listed
          revokedAt := (serialHexStr n, now) :: acc.revokedAt
          revoked := acc.revoked ++ [{ serialNumber := n, revocationTime := now }] } := by
      simp only [appendStep, hlook]
    rw [heq]
    refine ⟨fun m => ?_, List.prefix_append _ _, by simp [AppendAcc.serials], fun h => ?_⟩
    · rcases eq_or_ne m n with rfl | hne
      · simp [AppendAcc.serials]
      · have hkey : (serialHexStr m == serialHexStr n) = false := by simpa using hne
        have := hacc m
        simpa [List.lookup_cons, hkey, AppendAcc.serials, hne] using this
    · change (List.map _ (acc.revoked ++ [_])).Nodup
      rw [List.map_append]
      exact h.append (by simp) (by simpa using (hacc n).mp hlook)

/-- The loop as a whole. -/
theorem foldl_appendStep_spec (now : Time) (add : List ℤ) {acc : AppendAcc} (hacc : acc.Keyed) :
    acc.revoked <+: (add.foldl (appendStep now) acc).revoked ∧
      (∀ n ∈ add, n ∈ (add.foldl (appendStep now) acc).serials) ∧
      (acc.serials.Nodup → (add.foldl (appendStep now) acc).serials.Nodup) := by
  induction add generalizing acc with
  | nil => exact ⟨List.prefix_rfl, by simp, fun h => h⟩
  | cons n add ih =>
    obtain ⟨hkeyed, hpre, hmem, hnodup⟩ := appendStep_spec now hacc n
    obtain ⟨hpre', hmem', hnodup'⟩ := ih hkeyed
    refine ⟨hpre.trans hpre', ?_, fun h => hnodup' (hnodup h)⟩
    rintro m (_ | ⟨_, hm⟩)
    · exact (hpre'.map _).subset hmem
    · exact hmem' m hm

theorem appendEntries_spec (now : Time) (own : RevocationList) (add : List ℤ) :
    own.entries <+: (appendEntries now own add).revoked ∧
      add ⊆ (appendEntries now own add).serials ∧
      (own.serials.Nodup → (appendEntries now own add).serials.Nodup) := by
  have hkeyed : AppendAcc.Keyed
      { listed := (own.entries.map fun e =>
          (serialHexStr e.serialNumber, e.revocationTime)).reverse
        revoked := own.entries } := by
    intro m
    simp only [List.lookup_eq_none_iff, List.mem_reverse, List.mem_map, AppendAcc.serials]
    constructor
    · rintro h ⟨e, he, rfl⟩
      exact absurd (h _ ⟨e, he, rfl⟩) (by simp)
    · rintro h _ ⟨e, he, rfl⟩
      simpa using fun heq => h ⟨e, he, heq.symm⟩
  exact foldl_appendStep_spec now add hkeyed

/-- `appendCRLEntriesLocked`: everything it was asked to list is listed. -/
theorem appendCRLEntriesLocked_spec {add : List ℤ} :
    Triple (writerDiscipline ca) t j (Holding t ns b l pruned)
      (appendCRLEntriesLocked ca add) fun r s => match r with
        | .ok _ => ∃ b', add ⊆ listedIn ca.caCert b' ∧ Grown ca.caCert b b' ∧
            Holding t ns b' l pruned s
        | .error _ => Holding t ns b l pruned s := by
  refine readStoredCRL_bind (fun e s hs => hs) fun stored hread => ?_
  refine quiet_cmd_bind Holding.stable aboutCRL_holding (c := .now) trivial fun now => ?_
  obtain ⟨hpre, hadd, hnodup⟩ := appendEntries_spec now stored.own add
  have hsub : stored.own.serials ⊆ (appendEntries now stored.own add).serials :=
    (hpre.map RevocationEntry.serialNumber).subset
  simp only
  split
  · next hlen =>
    refine Triple.ret Holding.stable fun s _ hs => ⟨b, ?_, List.Subset.refl _, hs⟩
    have heq := hpre.eq_of_length hlen.symm
    rw [hread.listedIn, RevocationList.serials, heq]
    exact hadd
  · refine signCRLLocked_bind hread (fun n hn => Or.inl (hsub hn)) hnodup (fun e s hs => hs)
      fun b' hb' => Triple.ret Holding.stable fun s _ hs => ⟨b', ?_, ?_, hs⟩
    · rw [hb']
      exact hadd
    · rw [Grown, hread.listedIn, hb']
      exact hsub

end OpenvoxCa.Ca
