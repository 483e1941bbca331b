import OpenvoxCa.Ca.Conservation
import OpenvoxCa.Ca.RequestSpecs

/-!
# Ancestors' lists are not lost by accident

Every write of the CRL chain carries the lists of this CA's ancestors along, and nobody here can
sign those again. Which of them it carries is decided by one pass over the operator's file, if one
is configured: `Carries` says what a pass comes to, and `chainDuty` that every writer keeps to its
own latest pass. This file draws the consequences for a cluster in which the stored CA bundle may be
replaced at any moment as well.

`RefreshCRLChainFile` makes two passes, one to decide whether the chain needs rewriting, the other,
under the same hold of the CRL lock, to rewrite it. The file may change in between. What can be said
of the first pass is that it came to something else than what is published (`decideDuty`).

`ancestors_never_go_back` is what follows for every run.
-/

namespace OpenvoxCa.Ca

open Conc

variable {ca : CA} {cert : Certificate} {t u : Tid} {j : Job} {ns : List LockName} {s s' : State}
  {b : Option Blob} {l : Option SupersededBlob} {pruned : List ℤ}

/-! ### The cluster -/

/-- What a thread may be doing: a task, or replacing the stored CA bundle. -/
inductive PublishJob
  | task (j : TaskJob)
  | saveBundle (certs : List Certificate)
  deriving DecidableEq

/-- The CA that runs a task. -/
abbrev TaskJob.server (j : TaskJob) (cert : Certificate) : CA :=
  { toConfig := j.config, caCert := cert }

/-- **The workload of an issuing cluster whose bundle may change**, with CA certificate
`caCert`. -/
abbrev publishing (caCert : Certificate) : Workload interface Tid where
  Job := PublishJob
  Err := Failure
  Res := TaskResult
  body := fun _ job => match job with
    | .task j => taskProgram (j.server caCert) j.task
    | .saveBundle certs => do
      ask (cmd (.saveCACert certs))
      return .done

/-- Such a cluster in the middle of a run. -/
abbrev PublishingCluster (caCert : Certificate) := Pool machine (publishing caCert)

abbrev PublishingEvent (caCert : Certificate) := Label machine (publishing caCert)

/-- **The newest list that is published for an ancestor.** -/
def State.ancestorCRL (s : State) (cert ancestor : Certificate) : Option RevocationList :=
  (s.crl.bind (publishedUpstream cert)).bind fun published => ownCRLIn published ancestor

/-- Nothing is stated: there was no pass, as no file is configured, or no file was there. -/
def Unstated (pass : Option Pass) : Prop := ∀ p ∈ pass, p.file = .absent

/-- The pass was over a file that cannot be read, or that is not a chain. -/
def Pass.Unusable (pass : Pass) : Prop :=
  pass.file = .fault ∨ ∃ file e, pass.file = .data file ∧ decodeCRLChainStrict file = .error e

/-! ### What a pass comes to -/

namespace Carries

variable {blob : Blob} {ancestors published : List RevocationList} {pass : Option Pass}

/-- A pass leaves the published lists as they are, or it is over a file that states what to
publish. -/
theorem cases (h : Carries cert blob ancestors pass) :
    (Unstated pass ∧ publishedUpstream cert blob = some ancestors) ∨
      ∃ file parsed issuers, pass = some ⟨.data file, some issuers⟩ ∧
        decodeCRLChainStrict file = .ok parsed ∧
        monotonicUpstream cert issuers blob (verifiedUpstream cert issuers parsed) =
          some ancestors := by
  cases pass with
  | none => exact Or.inl ⟨by simp [Unstated], h⟩
  | some pass =>
    obtain ⟨file, bundle⟩ := pass
    cases file with
    | absent => exact Or.inl ⟨by simp [Unstated], h⟩
    | fault => exact h.elim
    | data file =>
      obtain ⟨parsed, issuers, hparsed, rfl, hup⟩ := h
      exact Or.inr ⟨file, parsed, issuers, rfl, hparsed, hup⟩

theorem exists_published (h : Carries cert blob ancestors pass) :
    ∃ published, publishedUpstream cert blob = some published := by
  obtain ⟨-, hpub⟩ | ⟨_, _, _, -, -, hup⟩ := h.cases
  · exact ⟨_, hpub⟩
  · exact (exists_merge_of_monotonicUpstream hup).imp fun _ h => h.1

theorem unique {ancestors' : List RevocationList} (h : Carries cert blob ancestors pass)
    (h' : Carries cert blob ancestors' pass) : ancestors = ancestors' := by
  obtain ⟨hun, hpub⟩ | ⟨file, parsed, issuers, rfl, hparsed, hup⟩ := h.cases
  · obtain ⟨-, hpub'⟩ | ⟨file, _, _, rfl, -, -⟩ := h'.cases
    · exact Option.some.inj (hpub.symm.trans hpub')
    · exact absurd (hun _ rfl) (by simp)
  · obtain ⟨parsed', issuers', hparsed', hbundle, hup'⟩ := h'
    obtain rfl := Option.some.inj hbundle
    obtain rfl := Except.ok.inj (hparsed.symm.trans hparsed')
    exact Option.some.inj (hup.symm.trans hup')

/-- **The newest list of an ancestor is not replaced by an older one.** -/
theorem rank_le {ancestor : Certificate} {c c' : RevocationList}
    (h : Carries cert blob ancestors pass) (hpub : publishedUpstream cert blob = some published)
    (hc : ownCRLIn published ancestor = some c) (hc' : ownCRLIn ancestors ancestor = some c') :
    rank c ≤ rank c' := by
  obtain ⟨-, hpub'⟩ | ⟨file, parsed, issuers, -, -, hup⟩ := h.cases
  · obtain rfl := Option.some.inj (hpub.symm.trans hpub')
    exact (Option.some.inj (hc.symm.trans hc')) ▸ le_rfl
  · obtain ⟨hmem, hsigned⟩ := ownCRLIn_mem hc
    obtain ⟨hmem', hsigned'⟩ := ownCRLIn_mem hc'
    exact rank_le_of_monotonicUpstream hup hpub hmem hsigned hmem' hsigned'

/-- **What is carried was published, or is signed by a certificate of the bundle.** -/
theorem mem_or_signed (h : Carries cert blob ancestors pass)
    (hpub : publishedUpstream cert blob = some published) {c : RevocationList}
    (hc : c ∈ ancestors) : c ∈ published ∨ ∃ p issuers, pass = some p ∧ p.bundle = some issuers ∧
      ∃ signer ∈ issuers, crlSignedBy signer c = true := by
  obtain ⟨-, hpub'⟩ | ⟨file, parsed, issuers, rfl, -, hup⟩ := h.cases
  · obtain rfl := Option.some.inj (hpub.symm.trans hpub')
    exact Or.inl hc
  · exact (mem_or_signed_of_monotonicUpstream hup hpub hc).imp_right
      fun hsigned => ⟨_, issuers, rfl, rfl, hsigned⟩

theorem eq_published (h : Carries cert blob ancestors pass) (hun : Unstated pass)
    (hpub : publishedUpstream cert blob = some published) : ancestors = published := by
  obtain ⟨-, hpub'⟩ | ⟨file, _, _, rfl, -, -⟩ := h.cases
  · exact Option.some.inj (hpub'.symm.trans hpub)
  · exact absurd (hun _ rfl) (by simp)

/-- Nothing is published on the strength of a file that is not a chain. -/
theorem usable (h : Carries cert blob ancestors pass) : ∀ p ∈ pass, ¬p.Unusable := by
  rintro p hp hbad
  obtain ⟨hun, -⟩ | ⟨file, parsed, issuers, rfl, hparsed, -⟩ := h.cases
  · rcases hbad with hbad | ⟨file, e, hbad, -⟩
    · simp [hun p hp] at hbad
    · simp [hun p hp] at hbad
  · obtain rfl := Option.some.inj hp
    rcases hbad with hbad | ⟨file', e, hbad, herr⟩
    · cases hbad
    · obtain rfl := FileRead.data.inj hbad
      rw [hparsed] at herr
      cases herr

/-- **A chain that a pass has been written to comes out of the same pass unchanged.** -/
theorem again {ours : RevocationList} (hours : crlSignedBy cert ours = true)
    (h : Carries cert blob ancestors pass) :
    Carries cert (encodeCRLChain (ours :: ancestors)) ancestors pass := by
  have hpub := publishedUpstream_encode hours h.foreign
  cases pass with
  | none => exact hpub
  | some pass =>
    obtain ⟨file, bundle⟩ := pass
    cases file with
    | absent => exact hpub
    | fault => exact h.elim
    | data file =>
      obtain ⟨parsed, issuers, hparsed, hbundle, hup⟩ := h
      exact ⟨parsed, issuers, hparsed, hbundle, monotonicUpstream_again hours hup⟩

end Carries

/-! ### The refresh decides before it writes -/

/-- The pass comes to something else than what is published. -/
def Changes (cert : Certificate) (b : Option Blob) (pass : Pass) : Prop :=
  ∃ blob upstream, b = some blob ∧ Carries cert blob upstream (some pass) ∧
    publishedUpstream cert blob ≠ some upstream

/-- What a refresh is asked: the pass before the one it writes made it necessary. -/
def decideDuty (cert : Certificate) (t : Tid) : Cmd → State → Prop
  | .updateCRL _, s => ∃ latest decided before, s.passes t = latest :: decided :: before ∧
      Changes cert s.crl decided
  | _, _ => True

/-- The discipline of a refresh. -/
def decideDiscipline (ca : CA) : Discipline machine Job :=
  { crlDiscipline ca.caCert with Duty := fun t _ => decideDuty ca.caCert t }

theorem Cmd.Quiet.decideDuty {c : Cmd} (hq : c.Quiet) : Ca.decideDuty cert t c s := by
  cases c <;> first | exact hq.elim | trivial

theorem decide_lockRules : QuietRules (decideDiscipline ca) t j :=
  ⟨⟨fun h => h, fun _ h => h, trivial, fun _ => trivial⟩, fun h => h.decideDuty⟩

/-- The two disciplines assume the same of the others. -/
theorem stable_decide {P : State → Prop} (h : Stable (writerDiscipline ca) t P) :
    Stable (decideDiscipline ca) t P := h

theorem held_stable_decide (ns : List LockName) : Stable (decideDiscipline ca) t (Held t ns) :=
  stable_decide (Held.stable ns)

theorem holding_stable_decide : Stable (decideDiscipline ca) t (Holding t ns b l pruned) :=
  stable_decide Holding.stable

/-- The quiet commands that make no pass over the file. -/
def Cmd.Aside : Cmd → Prop
  | .readChainFile => False
  | .getCACert => False
  | c => c.Quiet

theorem Cmd.Aside.quiet {c : Cmd} (h : c.Aside) : c.Quiet := by
  cases c <;> first | exact h | trivial

theorem Cmd.Aside.passes {c : Cmd} (h : c.Aside) (he : Effect t s c s') :
    s'.passes = s.passes := by
  cases he <;> first | exact h.elim | rfl

/-- Programs of such commands leave the lock's holder and its passes as they are. -/
theorem aside_spec {α ε : Type} {ps : List Pass} {p : Conc.Prog interface ε α}
    {R : Except ε α → Prop} (hp : p.Always Cmd.Aside R) :
    Triple (decideDiscipline ca) t j (fun s => Holding t ns b l pruned s ∧ s.passes t = ps) p
      fun r s => R r ∧ Holding t ns b l pruned s ∧ s.passes t = ps := by
  refine Triple.of_always ((decide_lockRules (j := j)).with_passes holding_stable_decide ps)
    (fun c hc s _ _ => hc.quiet.decideDuty) ?_ hp
  rintro c hc s ch a s' ⟨hs, hps⟩ he
  have heff := exec_effect he
  exact ⟨aboutCRL_holding _ _ (hc.quiet.sameCRL heff) hs, by rw [hc.passes heff, hps]⟩

theorem aside_bind {α β : Type} {ps : List Pass} {p : Prog α} {f : α → Prog β}
    {Q : Except Failure β → State → Prop} (hp : p.Only Cmd.Aside)
    (herr : ∀ e s, Holding t ns b l pruned s → Q (.error e) s)
    (hf : ∀ a, Triple (decideDiscipline ca) t j
      (fun s => Holding t ns b l pruned s ∧ s.passes t = ps) (f a) Q) :
    Triple (decideDiscipline ca) t j (fun s => Holding t ns b l pruned s ∧ s.passes t = ps)
      (p.bind f) Q :=
  (aside_spec hp).seq (fun e s hr => herr e s hr.2.1) fun a => Triple.pure_pre fun _ => hf a

/-- **The rewriting of a refresh**: it rests on another pass, made after the deciding one. -/
theorem reissueCRLLocked_decides {decided : Pass} {before : List Pass}
    (hfile : ca.crlChainFile = true) (hchanges : Changes ca.caCert b decided) :
    Triple (decideDiscipline ca) t j
      (fun s => Holding t ns b l pruned s ∧ s.passes t = decided :: before) (reissueCRLLocked ca)
      fun _ s => Held t (.crl :: ns) s := by
  have herr : ∀ (e : Failure) (s : State), Holding t ns b l pruned s → Held t (.crl :: ns) s :=
    fun _ _ hs => hs.held
  refine aside_bind (Prog.only_bind (only_ask (only_cmd (c := .getCRL) trivial)) fun _ =>
    Prog.only_ofExcept _) herr fun stored => ?_
  refine aside_bind (only_cmd (c := .now) trivial) herr fun now => ?_
  refine aside_bind (only_ask (only_cmd (c := .createRevocationList _) trivial)) herr fun crl => ?_
  refine Triple.bind (R := fun _ (s : State) => ∃ pass, Holding t ns b l pruned s ∧
    s.passes t = pass :: decided :: before)
    ((crlChainLocked_spec decide_lockRules holding_stable_decide
      aboutCRL_holding.keptByQuiet).weaken fun r s _ hr => ?_) fun chain =>
    Triple.exists_pre fun pass => ?_
  · cases r with
    | error e => exact hr.1.held
    | ok chain =>
      obtain ⟨-, pass, -, -, hpass, hps⟩ := hr.2 chain rfl
      obtain ⟨pass, rfl⟩ := Option.isSome_iff_exists.mp (hpass.trans hfile)
      exact ⟨pass, hr.1, hps⟩
  refine Triple.bind (R := fun _ s => Held t (.crl :: ns) s) ?_ fun _ => ?_
  · refine Triple.call (R := fun _ s => Held t (.crl :: ns) s)
      ((decide_lockRules (j := j)).with_passes holding_stable_decide _) ?_ ?_ fun a => ?_
    · rintro s - ⟨hs, hps⟩
      exact ⟨pass, decided, before, hps, hs.crl ▸ hchanges⟩
    · rintro s ch a s' - ⟨hs, -⟩ he
      rcases writeOutcome_cases he with rfl | rfl
      · exact hs.held
      · exact hs.held
    · cases a with
      | ok _ => exact Triple.ret (held_stable_decide _) fun s _ hs => hs
      | error e => exact Triple.fail (held_stable_decide _) fun s _ hs => hs
  · exact (decide_lockRules.quiet_spec (held_stable_decide _) (aboutCRL_held _).keptByQuiet
      (always_quiet (modifyMemory_always _))).weaken fun _ _ _ hs => hs.2

theorem refreshCRLChainLocked_decides (hfile : ca.crlChainFile = true) :
    Triple (decideDiscipline ca) t j (Holding t ns b l pruned) (refreshCRLChainLocked ca)
      fun _ s => Held t (.crl :: ns) s := by
  have hst : Stable (decideDiscipline ca) t (Held t (.crl :: ns)) := held_stable_decide _
  refine (decide_lockRules.getCRL_spec holding_stable_decide).seq (fun _ _ hr => hr.2.held)
    fun current => Triple.pure_pre fun hcurrent => ?_
  refine Triple.conseq (P := fun s : State => ∃ ps, Holding t ns b l pruned s ∧ s.passes t = ps)
    (Triple.exists_pre fun ps => ?_) (fun s hs => ⟨_, hs, rfl⟩) fun _ _ _ hr => hr
  refine Triple.bind (R := fun upstream (s : State) => ∃ pass : Option Pass,
    States ca.caCert current pass upstream ∧ Holding t ns b l pruned s ∧
      s.passes t = pass.toList ++ ps)
    ((upstreamCRLs_spec decide_lockRules holding_stable_decide
      aboutCRL_holding.keptByQuiet).weaken fun r s _ hr => ?_) fun upstream =>
    Triple.exists_pre fun pass => Triple.pure_pre fun hstates => ?_
  · cases r with
    | error e => exact hr.1.held
    | ok upstream =>
      obtain ⟨pass, -, hps, hstates⟩ := hr.2 upstream rfl
      exact ⟨pass, hstates, hr.1, hps⟩
  have hkept : Stable (decideDiscipline ca) t fun s =>
      Holding t ns b l pruned s ∧ s.passes t = pass.toList ++ ps :=
    (decide_lockRules (j := j)).with_passes holding_stable_decide _
  cases upstream with
  | none => exact Triple.ret hkept fun s _ hs => hs.1.held
  | some wanted =>
    obtain ⟨decided, file, rfl, -, hcarries⟩ := hstates
    cases hstored : publishedUpstream ca.caCert current with
    | none =>
      simp only
      exact Triple.fail hkept fun s _ hs => hs.1.held
    | some storedUpstream =>
      simp only
      split
      · exact Triple.ret hkept fun s _ hs => hs.1.held
      · next hne =>
        have hchanges : Changes ca.caCert b decided :=
          ⟨current, wanted, hcurrent _ rfl, hcarries, by simpa [hstored] using hne⟩
        exact (reissueCRLLocked_decides hfile hchanges).seq (fun _ _ hs => hs)
          fun _ => Keeps.ret hst

/-- **A refresh writes only where its first pass asks for it.** -/
theorem refreshCRLChainFile_decides :
    Keeps (decideDiscipline ca) t j (Held t []) (refreshCRLChainFile ca) := by
  unfold refreshCRLChainFile
  split
  · next hfile =>
    have hrules : QuietRules (decideDiscipline ca) t j := decide_lockRules
    refine Triple.conseq (P := fun s => Held t [] s ∧ True) (Q := fun _ s => Held t [] s ∧ True)
      (hrules.withLock_spec (A := fun s => ∃ b l, Holding t [] b l [] s) (by simp)
        (Stable.const _) ?_ ?_ (fun _ => Stable.const _) (fun _ _ _ _ => trivial)
          fun _ _ => trivial)
      (fun _ hs => ⟨hs, trivial⟩) fun _ _ _ hs => hs.1
    · intro s _ _ hheld
      exact ⟨s.crl, s.superseded, hheld, rfl, rfl, by simp [State.holdPruned, State.setOwner]⟩
    · refine Triple.exists_pre fun b => Triple.exists_pre fun l => ?_
      refine (decide_lockRules.withMutex_spec holding_stable_decide aboutCRL_holding.keptByQuiet
        (fun _ => held_stable_decide _) (fun _ => (aboutCRL_held _).keptByQuiet)
        (refreshCRLChainLocked_decides hfile)).weaken fun _ _ _ hs => ⟨hs, trivial⟩
  · exact Keeps.ret (held_stable_decide [])

/-! ### What an amendment and a refresh may do to storage -/

/-- The commands that change nothing in storage but the CRL chain. -/
def Cmd.Publishes : Cmd → Prop
  | .lock _ => True
  | .unlock _ => True
  | .updateCRL _ => True
  | c => c.Local

theorem Cmd.Local.publishes {c : Cmd} (h : c.Local) : c.Publishes := by
  cases c <;> first | exact h | trivial

theorem publishes_of_local {α : Type} {p : Prog α} {R : Except Failure α → Prop}
    (h : p.Always Cmd.Local R) : p.Only Cmd.Publishes :=
  Prog.always_mono (Prog.always_imp h fun _ => Cmd.Local.publishes) fun _ _ => trivial

theorem signCRLLocked_publishes (ca : CA) (stored : StoredCRL) (revoked : List RevocationEntry) :
    (signCRLLocked ca stored revoked).Only Cmd.Publishes := by
  refine Prog.only_bind (only_cmd (c := .now) trivial) fun now => ?_
  refine Prog.only_bind (only_ask (only_cmd (c := .createRevocationList _) trivial)) fun crl => ?_
  refine Prog.only_bind (publishes_of_local
    (always_local (crlChainLocked_always ca crl stored.blob)))
    fun chain => ?_
  refine Prog.only_bind (only_ask (only_cmd (c := .updateCRL chain) trivial)) fun _ => ?_
  exact publishes_of_local (modifyMemory_always _)

theorem refreshCRLChainFile_publishes (ca : CA) :
    (refreshCRLChainFile ca).Only Cmd.Publishes := by
  have hlock : ∀ {body : Prog Bool}, body.Only Cmd.Publishes →
      (withLock .crl body).Only Cmd.Publishes := fun hbody =>
    Prog.only_bind (only_ask (only_cmd (c := .lock .crl) trivial)) fun _ =>
      Prog.only_bind (Prog.only_attempt hbody) fun r =>
        Prog.only_bind (only_cmd (c := .unlock .crl) trivial) fun _ => Prog.only_ofExcept r
  unfold refreshCRLChainFile
  split
  · refine hlock (only_withMutex trivial trivial ?_)
    refine Prog.only_bind (only_ask (only_cmd (c := .getCRL) trivial)) fun current => ?_
    refine Prog.only_bind (publishes_of_local (always_local (upstreamCRLs_always ca current)))
      fun upstream => ?_
    cases upstream with
    | none => trivial
    | some wanted =>
      simp only
      split
      · trivial
      · split
        · trivial
        · refine Prog.only_bind (Prog.only_bind ?_ fun stored =>
            signCRLLocked_publishes ca stored _)
            fun _ => trivial
          exact publishes_of_local (always_local (reads_readStoredCRL ca))
  · trivial

/-! ### Every run -/

/-- What a thread's write of the chain is held to. -/
def writerDuty (cert : Certificate) (t : Tid) : PublishJob → Cmd → State → Prop
  | .task j, c, s => crlAllowed cert t j.job c s ∧ chainDuty (j.server cert) t c s
  | .saveBundle _, c, _ => c.Quiet

/-- What a refresh is held to besides. -/
def refreshDuty (cert : Certificate) (t : Tid) (job : PublishJob) (c : Cmd) (s : State) : Prop :=
  ∀ j, job = .task j → j.task = .serve .refreshCRLChainFile → decideDuty cert t c s

theorem lockAllowed_of_writerDuty {job : PublishJob} {c : Cmd} (h : writerDuty cert t job c s) :
    lockAllowed t c s := by
  cases job with
  | task j => exact lockAllowed_of_crlAllowed h.1
  | saveBundle certs => cases c <;> first | exact h.elim | trivial

/-- **The discipline of a publishing cluster.** -/
def publishDiscipline (cert : Certificate) : Discipline machine PublishJob where
  Inv := HistoryOk
  Allowed := fun t job c s => writerDuty cert t job c s ∧ refreshDuty cert t job c s
  inv_exec := fun hinv _ hex => hinv.effect (exec_effect hex)

theorem held_stable_publish : Stable (publishDiscipline cert) t (Held t ns) :=
  Held.stable_of_allowed (fun h => h) (fun _ h => lockAllowed_of_writerDuty (And.left h)) ns

/-- A task does its duty. -/
theorem task_publishes {j : TaskJob} {G : Tid → PublishJob → Cmd → State → Prop}
    (hG : ∀ c s, writerDuty cert t (.task j) c s → G t (.task j) c s)
    (K : Tid → PublishJob → Cmd → State → Prop) :
    Keeps ((publishDiscipline cert).withDuty G K) t (.task j) (Held t [])
      (taskProgram (j.server cert) j.task) :=
  (task_spec (j.server cert) t j).transfer (fun _ _ _ _ _ h => h) (fun _ h => h)
    (fun _ _ _ _ _ h => ⟨j.job, lockAllowed_of_writerDuty h.1⟩) (fun _ _ _ _ => trivial)
    fun c s _ h => hG c s h

/-- A task does its duty as a refresh, whether it is one or not. -/
theorem task_decides {j : TaskJob} (K : Tid → PublishJob → Cmd → State → Prop) :
    Keeps ((publishDiscipline cert).withDuty (refreshDuty cert) K) t (.task j) (Held t [])
      (taskProgram (j.server cert) j.task) := by
  by_cases htask : j.task = .serve .refreshCRLChainFile
  · rw [htask]
    have hkeeps : Keeps (decideDiscipline (j.server cert)) t j.job (Held t [])
        (taskProgram (j.server cert) (.serve .refreshCRLChainFile)) :=
      Keeps.bind (Keeps.bind refreshCRLChainFile_decides fun _ => Keeps.ret (held_stable_decide []))
        fun _ => Keeps.ret (held_stable_decide [])
    exact hkeeps.transfer (fun _ _ _ _ _ h => h) (fun _ h => h)
      (fun _ _ _ _ _ h => ⟨j.job, lockAllowed_of_writerDuty h.1⟩) (fun _ _ _ _ => trivial)
      fun _ _ _ h _ _ _ => h
  · refine task_publishes (fun c s _ i hi hne => ?_) K
    obtain rfl := PublishJob.task.inj hi
    exact absurd hne htask

/-- **The proof outline of a publishing cluster.** -/
def publishOutline (cert : Certificate) : Outline machine (publishing cert) where
  toDiscipline := (publishDiscipline cert).withDuty
    (fun t job c s => writerDuty cert t job c s ∧ refreshDuty cert t job c s) fun _ _ _ _ => True
  Menu := fun _ => True
  Idle := fun t _ => Held t []
  Post := fun _ _ _ _ => True
  idle_stable := fun _ _ => held_stable_publish
  job := by
    intro t job rs _ s hs
    cases job with
    | task j =>
      exact wp_mono (wp_and (task_publishes (fun _ _ h => h) (fun _ _ _ _ => True) s hs)
        (task_decides (writerDuty cert) s hs)) fun _ _ _ h => ⟨h.1, trivial⟩
    | saveBundle certs =>
      have hquiet : (publishing cert).body t (.saveBundle certs) |>.Only Cmd.Quiet :=
        Prog.only_bind (only_ask (only_cmd (c := .saveCACert certs) trivial)) fun _ => trivial
      refine wp_mono (Triple.of_always held_stable_publish (fun c hc s _ _ => ⟨hc, ?_⟩) ?_ hquiet
        s hs)
        fun _ _ _ h => ⟨h.2, trivial⟩
      · rintro i ⟨⟩
      · exact fun c hc s ch a s' hs he => (aboutCRL_held _).keptByQuiet hc (exec_effect he) hs

variable {p q : PublishingCluster cert} {ls ls' : List (PublishingEvent cert)}

theorem publish_sound {s₀ : State} (hfree : s₀.Unlocked) (hhist : HistoryOk s₀)
    (hp : (Pool.initial s₀).run ls = some p) : (publishOutline cert).Sound p := by
  have hinit : (publishOutline cert).Sound (Pool.initial s₀) :=
    Outline.sound_initial _ hhist fun t n => by simp [hfree n]
  exact (hinit.run _ (fun _ _ _ => trivial) hp).1

theorem encodeCRLChain_injective : Function.Injective encodeCRLChain := by
  intro a b h
  have hdec := congrArg decodeCRLChain h
  simpa using hdec

/-- The chain that a task is about to write. -/
theorem writerDuty.chain {j : TaskJob} {chain : Blob}
    (h : writerDuty cert t (.task j) (.updateCRL chain) s) :
    ∃ blob ours ancestors, s.crl = some blob ∧ chain = encodeCRLChain (ours :: ancestors) ∧
      crlSignedBy cert ours = true ∧
      Carries cert blob ancestors ((j.server cert).statement t s) := by
  obtain ⟨⟨-, _, own, crl, anc, -, -, hchain, hown, -⟩, blob, ours, ancestors, hblob, hours,
    hcarries⟩ := h
  obtain ⟨rfl, -⟩ := List.cons.inj (encodeCRLChain_injective (hchain.symm.trans hours))
  exact ⟨blob, crl, ancestors, hblob, hours, hown, hcarries⟩

/-- **One step: no ancestor's newest list is replaced by an older one.** -/
theorem rank_le_of_moves {ancestor : Certificate} {c c' : RevocationList}
    (h : Moves (publishOutline cert).toDiscipline u s s')
    (hc : s.ancestorCRL cert ancestor = some c) (hc' : s'.ancestorCRL cert ancestor = some c') :
    rank c ≤ rank c' := by
  obtain ⟨job, cmd, ch, a, -, hall, hex⟩ := h
  have hsame : s'.crl = s.crl → rank c ≤ rank c' := by
    intro heq
    rw [State.ancestorCRL, heq] at hc'
    exact (Option.some.inj (hc.symm.trans hc')) ▸ le_rfl
  cases exec_effect hex with
  | updateCRL =>
    cases job with
    | saveBundle certs => exact hall.1.elim
    | task j =>
      obtain ⟨blob, ours, ancestors, hblob, rfl, hours, hcarries⟩ := hall.1.chain
      obtain ⟨published, hpub⟩ := hcarries.exists_published
      have hnew := publishedUpstream_encode hours hcarries.foreign
      simp only [State.ancestorCRL, hblob, Option.bind_some, hpub] at hc
      simp only [State.ancestorCRL, State.setCRL, Option.bind_some, hnew] at hc'
      exact hcarries.rank_le hpub hc hc'
  | _ => exact hsame rfl

/-- **Any number of steps**, as long as some list is published for the ancestor. -/
theorem rank_le_of_run {ancestor : Certificate} {c c' : RevocationList}
    (hs : (publishOutline cert).Sound p) (hq : p.run ls' = some q)
    (hstays : ∀ ls₁ m, ls₁ <+: ls' → p.run ls₁ = some m → m.shared.ancestorCRL cert ancestor ≠ none)
    (hc : p.shared.ancestorCRL cert ancestor = some c)
    (hc' : q.shared.ancestorCRL cert ancestor = some c') : rank c ≤ rank c' := by
  induction ls' generalizing p c with
  | nil =>
    obtain rfl := Option.some.inj hq
    exact (Option.some.inj (hc.symm.trans hc')) ▸ le_rfl
  | cons l ls' ih =>
    obtain ⟨m, hm, hrest⟩ := (Pool.run_cons (M := machine)).mp hq
    obtain ⟨hsound, hmove⟩ := hs.next _ (fun _ _ _ => trivial) hm
    have hrun : p.run [l] = some m := (Pool.run_cons (M := machine)).mpr ⟨m, hm, rfl⟩
    obtain ⟨d, hd⟩ := Option.ne_none_iff_exists'.mp (hstays [l] m (by simp) hrun)
    have hstep : rank c ≤ rank d := by
      rcases hmove with heq | ⟨u, hmove⟩
      · rw [heq, hc] at hd
        exact (Option.some.inj hd) ▸ le_rfl
      · exact rank_le_of_moves hmove hc hd
    refine hstep.trans (ih hsound hrest (fun ls₁ m' hpre hm' => ?_) hd)
    exact hstays (l :: ls₁) m' (List.cons_prefix_cons.mpr ⟨rfl, hpre⟩)
      ((Pool.run_cons (M := machine)).mpr ⟨m, hm, hm'⟩)

/-- **Ancestors' lists never go back and are not lost by accident.** In every run of a publishing
cluster, from any stored chain, with the operator's file read differently each time and any command
failing:

* as long as a list is published for an ancestor, the newest one is not replaced by an older one;
* a task about to write the chain writes, besides its own list, only lists that are stored or that
  a certificate of the bundle signed against which its latest pass verified the file; the very
  lists that are stored, if nothing is stated; and nothing at all on the strength of a file that is
  unreadable or not a chain, as amendments and refreshes touch nothing else in storage;
* once a chain is stored that was written from some pass, a refresh that is about to write has
  found another file or another bundle. -/
theorem ancestors_never_go_back {s₀ : State} (hfree : s₀.Unlocked) (hhist : HistoryOk s₀)
    (hp : (Pool.initial s₀).run ls = some p) (hq : p.run ls' = some q) :
    (∀ ancestor c c', (∀ ls₁ m, ls₁ <+: ls' → p.run ls₁ = some m →
        m.shared.ancestorCRL cert ancestor ≠ none) →
      p.shared.ancestorCRL cert ancestor = some c → q.shared.ancestorCRL cert ancestor = some c' →
        newerCRL c c' = false) ∧
    (∀ t j chain k, p.thread t = .running (.task j) (.call (.updateCRL chain) k) →
      ∃ stored published ours ancestors, p.shared.crl = some stored ∧
        publishedUpstream cert stored = some published ∧
        chain = encodeCRLChain (ours :: ancestors) ∧ crlSignedBy cert ours = true ∧
        (∀ c ∈ ancestors, c ∈ published ∨ ∃ pass issuers,
          (j.server cert).statement t p.shared = some pass ∧ pass.bundle = some issuers ∧
            ∃ signer ∈ issuers, crlSignedBy signer c = true) ∧
        (Unstated ((j.server cert).statement t p.shared) → ancestors = published) ∧
        (∀ pass ∈ (j.server cert).statement t p.shared, ¬pass.Unusable) ∧
        ∀ u i chain' k', q.shared.crl = some chain →
          q.thread u = .running (.task i) (.call (.updateCRL chain') k') →
          i.task = .serve .refreshCRLChainFile →
          ∃ latest decided before, q.shared.passes u = latest :: decided :: before ∧
            (j.server cert).statement t p.shared ≠ some decided) ∧
    (∀ ca stored revoked, (signCRLLocked ca stored revoked).Only Cmd.Publishes) ∧
    ∀ ca, (refreshCRLChainFile ca).Only Cmd.Publishes := by
  have hsound := publish_sound hfree hhist hp
  refine ⟨fun ancestor c c' hstays hc hc' => ?_, fun t j chain k ht => ?_, signCRLLocked_publishes,
    refreshCRLChainFile_publishes⟩
  · have hle := rank_le_of_run hsound hq hstays hc hc'
    rw [Bool.eq_false_iff, ne_eq, newerCRL_iff]
    exact not_lt.mpr hle
  obtain ⟨blob, ours, ancestors, hblob, rfl, hours, hcarries⟩ := (hsound.allowed _ ht).1.chain
  obtain ⟨published, hpub⟩ := hcarries.exists_published
  refine ⟨blob, published, ours, ancestors, hblob, hpub, rfl, hours,
    fun c hc => hcarries.mem_or_signed hpub hc, fun hun => hcarries.eq_published hun hpub,
    hcarries.usable, fun u i chain' k' hcrl hu hi => ?_⟩
  -- The refresh has decided that its first pass comes to something else than what is stored.
  have hqsound := (hsound.run _ (fun _ _ _ => trivial) hq).1
  obtain ⟨latest, decided, before, hps, blob', upstream, hblob', hup, hne⟩ :=
    (hqsound.allowed _ hu).2 i rfl hi
  refine ⟨latest, decided, before, hps, fun heq => hne ?_⟩
  obtain rfl := Option.some.inj (hcrl.symm.trans hblob')
  have hagain := hcarries.again hours
  rw [heq] at hagain
  rw [publishedUpstream_encode hours hcarries.foreign, hup.unique hagain]

/-! Two refreshes by two replicas, whose files are ahead of what is published. -/

/-- The root above the sample CA. -/
def sampleRoot : Certificate :=
  { serialNumber := 2
    subject := { commonName := ['r'] }
    publicKey := { id := 9 }
    signedBy := { id := 9 }
    isCA := true
    maySignCRLs := true }

def rootCRL (number : ℤ) : RevocationList :=
  { number := some number
    entries := []
    thisUpdate := 0
    nextUpdate := 1000
    issuer := sampleRoot.subject
    signedBy := sampleRoot.publicKey }

/-- The sample CA's own list, signed again at the start of time. -/
def resignedCRL (number : ℤ) : RevocationList :=
  { sampleCRL with number := some number, nextUpdate := 30 * 86400 }

/-- The root's first list is published, and the root is in the bundle. -/
def chainedState : State :=
  { crl := some (encodeCRLChain [sampleCRL, rootCRL 1])
    caBundle := some (some [sampleCert, sampleRoot]) }

/-- The task of refreshing the chain from the operator's file. -/
def chainRefresh : TaskJob :=
  { task := .serve .refreshCRLChainFile, config := { crlChainFile := true } }

/-- A refresh by one replica up to its write, while the file holds the root's list of the given
number. -/
def refreshFrom (t : Tid) (number : ℤ) : List (PublishingEvent sampleCert) :=
  .start t (.task chainRefresh) :: List.replicate 10
    (.step t { file := .data { blocks := encodeCRLChain [rootCRL number] } })

/-- The other replica's refresh, once the first has written. -/
def refreshAfter : List (PublishingEvent sampleCert) :=
  List.replicate 5 (.step ⟨0, 0⟩ {}) ++ refreshFrom ⟨1, 0⟩ 3

/-- The task of a thread that is about to write the chain, and the chain. -/
def writing (p : PublishingCluster cert) (t : Tid) : Option (TaskJob × Blob) :=
  match p.thread t with
  | .running (.task j) (.call (.updateCRL chain) _) => some (j, chain)
  | _ => none

theorem thread_of_writing {j : TaskJob} {chain : Blob} (h : writing p t = some (j, chain)) :
    ∃ k, p.thread t = .running (.task j) (.call (.updateCRL chain) k) := by
  unfold writing at h
  split at h
  · next i c k hthread =>
    cases h
    exact ⟨k, hthread⟩
  · cases h

/-- The second refresh publishes the root's third list over its second, and has found another
file than the one that was written from. -/
theorem ancestors_never_go_back_sample : ∃ p q : PublishingCluster sampleCert,
    (Pool.initial chainedState).run (refreshFrom ⟨0, 0⟩ 2) = some p ∧
      p.run refreshAfter = some q ∧
      p.shared.ancestorCRL sampleCert sampleRoot = some (rootCRL 1) ∧
      q.shared.ancestorCRL sampleCert sampleRoot = some (rootCRL 2) ∧
      newerCRL (rootCRL 1) (rootCRL 2) = false ∧
      ∃ latest decided before, q.shared.passes ⟨1, 0⟩ = latest :: decided :: before ∧
        (chainRefresh.server sampleCert).statement ⟨0, 0⟩ p.shared ≠ some decided := by
  have hfirst : ((Pool.initial chainedState).run (refreshFrom ⟨0, 0⟩ 2)).map (fun p =>
      (writing p ⟨0, 0⟩, p.shared.ancestorCRL sampleCert sampleRoot)) =
      some (some (chainRefresh, encodeCRLChain [resignedCRL 2, rootCRL 2]),
        some (rootCRL 1)) := by
    decide +kernel
  have hsecond : ((Pool.initial chainedState).run (refreshFrom ⟨0, 0⟩ 2 ++ refreshAfter)).map
      (fun q => (q.shared.crl, writing q ⟨1, 0⟩, q.shared.ancestorCRL sampleCert sampleRoot)) =
      some (some (encodeCRLChain [resignedCRL 2, rootCRL 2]),
        some (chainRefresh, encodeCRLChain [resignedCRL 3, rootCRL 3]),
        some (rootCRL 2)) := by
    decide +kernel
  have hstays : (List.range 17).all (fun n => ((Pool.initial chainedState).run
      (refreshFrom ⟨0, 0⟩ 2 ++ refreshAfter.take n)).any fun m =>
        (m.shared.ancestorCRL sampleCert sampleRoot).isSome) = true := by
    decide +kernel
  obtain ⟨p, hp, hpeq⟩ := Option.map_eq_some_iff.mp hfirst
  obtain ⟨hwriting, hroot⟩ := Prod.mk.inj hpeq
  obtain ⟨q, hpq, hqeq⟩ := Option.map_eq_some_iff.mp hsecond
  obtain ⟨hcrl, hqeq⟩ := Prod.mk.inj hqeq
  obtain ⟨hwriting', hroot'⟩ := Prod.mk.inj hqeq
  obtain ⟨p', hp', hq⟩ := (Pool.run_append (M := machine)).mp hpq
  obtain rfl := Option.some.inj (hp.symm.trans hp')
  obtain ⟨k, hk⟩ := thread_of_writing hwriting
  obtain ⟨k', hk'⟩ := thread_of_writing hwriting'
  obtain ⟨hback, hwrite, -⟩ :=
    ancestors_never_go_back (fun _ => rfl) ⟨le_rfl, fun _ => le_rfl⟩ hp hq
  refine ⟨p, q, hp, hq, hroot, hroot', hback _ _ _ (fun ls₁ m hpre hm => ?_) hroot hroot', ?_⟩
  · have htake := List.prefix_iff_eq_take.mp hpre
    have hlen : ls₁.length < 17 := lt_of_le_of_lt hpre.length_le (by decide)
    have hall := List.all_eq_true.mp hstays _ (List.mem_range.mpr hlen)
    rw [← htake, (Pool.run_append (M := machine)).mpr ⟨p, hp, hm⟩] at hall
    simpa [Option.isSome_iff_ne_none] using hall
  · obtain ⟨-, -, -, -, -, -, -, -, -, -, -, hrefresh⟩ := hwrite _ _ _ k hk
    exact hrefresh _ _ _ k' hcrl hk' rfl

/-! ### Locks -/

/-- **No task leaves a lock behind.** In every run, whichever of its commands fail: who holds a lock
of the cluster has a command left to issue, so that all locks are free when nobody is at work. -/
theorem lock_holder_at_work {s₀ : State} (hfree : s₀.Unlocked) (hhist : HistoryOk s₀)
    (hp : (Pool.initial s₀).run ls = some p) {n : LockName} (hheld : p.shared.owner n = some t) :
    ∃ job c k, p.thread t = .running job (.call c k) := by
  have hsound := publish_sound hfree hhist hp
  have hbusy : ¬Held t [] p.shared := fun h => List.not_mem_nil ((h n).mp hheld)
  have hok := hsound.2 t
  rcases hth : p.thread t with _ | ⟨job, rest⟩
  · rw [hth] at hok
    exact absurd hok hbusy
  · cases rest with
    | call c k => exact ⟨job, c, k, rfl⟩
    | ret a => exact absurd (hsound.settled _ (r := .ok a) hth) hbusy
    | fail e => exact absurd (hsound.settled _ (r := .error e) hth) hbusy

/-- A refresh that is about to write. -/
theorem lock_holder_at_work_sample : ∃ p : PublishingCluster sampleCert,
    (Pool.initial chainedState).run (refreshFrom ⟨0, 0⟩ 2) = some p ∧
      p.shared.owner .crl = some ⟨0, 0⟩ ∧
      ∃ job c k, p.thread ⟨0, 0⟩ = .running job (.call c k) := by
  have hrun : ((Pool.initial chainedState : PublishingCluster sampleCert).run
      (refreshFrom ⟨0, 0⟩ 2)).map (fun p => p.shared.owner .crl) = some (some ⟨0, 0⟩) := by
    decide +kernel
  obtain ⟨p, hp, hheld⟩ := Option.map_eq_some_iff.mp hrun
  exact ⟨p, hp, hheld, lock_holder_at_work (fun _ => rfl) ⟨le_rfl, fun _ => le_rfl⟩ hp hheld⟩

end OpenvoxCa.Ca
