import OpenvoxCa.Ca.Conservation
import OpenvoxCa.Ca.Import

/-!
# A forced import next to a serving cluster

`ImportCACertificate` reads the list it carries across before it takes the CRL lock. Once
it has the lock it compares what it re-signed with what is stored then, and the newer of
the two leads the chain it writes. This file says when that is enough.

The list it re-signed has the number after the one it read. Each revocation in between has moved the
stored number up by one. So with the key unchanged the stored list is older if there was none, newer
if there were two or more, and *equal* in number if there was exactly one: the tie goes to the
re-signed list, and the revocation is lost (`import_loses_revocation`). With the key changed no
stored list counts as this CA's own any more, so the re-signed list wins against any number of
revocations.

`import_keeps_revocations` is the exact condition: block 0 of what the import writes has every
serial that was listed at any time before if and only if the chain it read first and the chain it
replaces satisfy `CarriesAll`.
-/

namespace OpenvoxCa.Ca

open Conc

variable {cert new : Certificate}

/-! ### The list that leads -/

/-- The leading block of a chain. -/
def blockZero (b : Blob) : Option RevocationList := b.head?.bind PemBlock.crl

/-- The newest stored list that `new` signed, where its number exceeds the one after `old`'s:
it outruns a copy of `old`. -/
def outrunner (new : Certificate) (old : RevocationList) (stored : List RevocationList) :
    Option RevocationList :=
  (ownCRLIn stored new).filter fun newest => newest.number.any fun m => nextNumber old < m

/-- **Everything listed is carried across**, judging by the chain `first` that the import read
before it took the CRL lock and by the chain `stored` that it replaces: what is listed in
`stored` is on the stored list that outruns the copy, or, where there is none, it was on
block 0 of `first` already. -/
def CarriesAll (cert new : Certificate) (first stored : Option Blob) : Prop :=
  match first.bind blockZero with
  | none => True
  | some old =>
    match outrunner new old ((stored.bind decodeCRLChain).getD []) with
    | some newest => listedIn cert stored ⊆ newest.serials
    | none => listedIn cert stored ⊆ old.serials

instance (cert new : Certificate) (first stored : Option Blob) :
    Decidable (CarriesAll cert new first stored) := by
  unfold CarriesAll
  split
  · infer_instance
  · split <;> infer_instance

/-- The list that leads, of the copy `r` and of what is stored. -/
def leadOf (new : Certificate) (stored : List RevocationList) (r : RevocationList) :
    RevocationList :=
  match ownCRLIn stored new with
  | some newest => if newerCRL newest r then newest else r
  | none => r

theorem preferStored_singleton (new : Certificate) (stored : List RevocationList)
    (r : RevocationList) : preferStored new stored [r] = [leadOf new stored r] := by
  unfold preferStored leadOf
  cases ownCRLIn stored new with
  | none => rfl
  | some newest =>
    simp only
    split <;> rfl

theorem newerCRL_of_number (newest : RevocationList) {r : RevocationList} {k : ℤ}
    (h : r.number = some k) : newerCRL newest r = newest.number.any fun m => decide (k < m) := by
  unfold newerCRL
  rw [h]
  cases newest.number <;> rfl

/-- **The copy leads unless a stored list outruns it.** -/
theorem subset_leadOf_iff {old r : RevocationList} {first stored : Option Blob}
    (hfirst : first.bind blockZero = some old) (hnum : r.number = some (nextNumber old))
    (hent : r.entries = old.entries) :
    listedIn cert stored ⊆ (leadOf new ((stored.bind decodeCRLChain).getD []) r).serials ↔
      CarriesAll cert new first stored := by
  have hserials : r.serials = old.serials := by
    rw [RevocationList.serials, hent]
    rfl
  unfold CarriesAll leadOf outrunner
  rw [hfirst]
  cases ownCRLIn ((stored.bind decodeCRLChain).getD []) new with
  | none => simp [hserials]
  | some newest =>
    have hnewer := newerCRL_of_number newest hnum
    cases hout : newest.number.any fun m => decide (nextNumber old < m) with
    | true => simp [hnewer, hout, Option.filter]
    | false => simp [hnewer, hout, hserials, Option.filter]

/-! ### What the programs of the import can do -/

/-- The certificate an import installs. -/
def CertImport.leading (i : CertImport) : Option Certificate := i.bundle.bind List.head?

theorem checkedBundle_always {C : Cmd → Prop} (hnow : C .now) (bundle : Option (List Certificate))
    (signer : PublicKey) : (checkedBundle bundle signer).Always C fun r =>
      ∀ checked, r = .ok checked → bundle.bind List.head? = some checked.1 ∧
        checked.1.maySignCRLs = true := by
  unfold checkedBundle
  cases bundle with
  | none => simp
  | some certs =>
    refine always_cmd_bind hnow fun now => ?_
    split
    · next hvalid =>
      cases certs with
      | nil => simp
      | cons cert rest =>
        simp only
        split
        · simp only [Prog.pure_eq, Prog.always_ret, Except.ok.injEq]
          rintro _ rfl
          simp only [validateCABundleOrder, Bool.and_eq_true] at hvalid
          exact ⟨rfl, hvalid.1.2⟩
        · simp
    · simp

theorem quiet_newEmptyCRL (caCert : Certificate) (validity : Duration) :
    (newEmptyCRL caCert validity).Only Cmd.Quiet :=
  always_cmd_bind trivial fun _ => only_ask (only_cmd (c := .createRevocationList _) trivial)

theorem quiet_storedCRLChain : storedCRLChain.Only Cmd.Quiet := by
  refine always_cmd_bind trivial fun r => ?_
  rcases r with e | blob
  · cases e <;> trivial
  · simp only
    split <;> trivial

theorem quiet_planWithoutChain (caCert : Certificate) (stored : List RevocationList) :
    (planWithoutChain caCert stored).Only Cmd.Quiet := by
  unfold planWithoutChain
  split
  · exact Prog.only_bind (quiet_newEmptyCRL _ _) fun _ => trivial
  · split <;> trivial

theorem quiet_planWithChain (caCert : Certificate) (stored : List RevocationList) (crlPEM : Blob) :
    (planWithChain caCert stored crlPEM).Only Cmd.Quiet := by
  unfold planWithChain
  split
  · trivial
  · trivial
  · split
    · trivial
    · split
      · trivial
      · exact Prog.only_bind (quiet_newEmptyCRL _ _) fun _ => trivial

theorem quiet_planCRLImport (caCert : Certificate) (crlPEM : Option Blob) :
    (planCRLImport caCert crlPEM).Only Cmd.Quiet := by
  refine Prog.only_bind quiet_storedCRLChain fun stored => ?_
  cases crlPEM with
  | none => exact quiet_planWithoutChain caCert stored
  | some crlPEM => exact quiet_planWithChain caCert stored crlPEM

/-- What the import carries across was re-signed from block 0 of the chain `first`, if there
was one. -/
def CarriedFrom (new : Certificate) (crlPEM first : Option Blob) : Prop :=
  (crlPEM = none ∧ first = none) ∨ ∃ r old, crlPEM = some (encodeCRLChain [r]) ∧
    first.bind blockZero = some old ∧ r.signedBy = new.publicKey ∧
    r.number = some (nextNumber old) ∧ r.entries = old.entries

/-- A chain to write over `b`: it leads with everything listed there exactly if all of it is
carried across. -/
def ExactPlan (cert new : Certificate) (first b : Option Blob) (plan : List RevocationList) :
    Prop :=
  ∃ lead rest, plan = lead :: rest ∧
    (listedIn cert b ⊆ lead.serials ↔ CarriesAll cert new first b)

theorem plan_always {crlPEM first b : Option Blob} (hnew : new.maySignCRLs = true)
    (hfrom : CarriedFrom new crlPEM first) (hnone : first = none → b = none) :
    (planOver new crlPEM ((b.bind decodeCRLChain).getD [])).Always Cmd.Quiet
      fun r => ∀ plan changed, r = .ok (plan, changed) → ExactPlan cert new first b plan := by
  rcases hfrom with ⟨rfl, rfl⟩ | ⟨r, old, rfl, hfirst, hsigned, hnum, hent⟩
  · -- There is nothing stored, so nothing to lose.
    rw [hnone rfl]
    refine Prog.always_bind (Prog.always_mono (quiet_newEmptyCRL new _) fun r _ => ?_)
    cases r with
    | error e => simp
    | ok generated =>
      simp only [Prog.pure_eq, Prog.always_ret, Except.ok.injEq, Prod.mk.injEq]
      rintro _ _ ⟨rfl, -⟩
      exact ⟨generated, [], rfl, by simp [listedIn, CarriesAll]⟩
  · have hown : crlSignedBy new r = true := by simp [crlSignedBy, hnew, hsigned]
    have hplan : ∀ stored, planWithChain new stored (encodeCRLChain [r]) =
        .ret ([leadOf new stored r], true) := by
      intro stored
      rw [← preferStored_singleton]
      simp [planWithChain, orderCRLChain, orderStep, hown]
    simp only [planOver, hplan, Prog.always_ret, Except.ok.injEq, Prod.mk.injEq]
    rintro _ _ ⟨rfl, -⟩
    exact ⟨_, [], rfl, subset_leadOf_iff hfirst hnum hent⟩

/-! ### The discipline -/

/-- What the import may make of the chain: it writes it once, and exactly. -/
def importAllowed (cert : Certificate) (i : CertImport) (t : Tid) : Cmd → State → Prop
  | .unlock n, s => s.owner n = some t
  | .updateCRL b, s => s.owner .crl = some t ∧ t ∉ s.crlWriters ∧ ∃ new plan,
      i.leading = some new ∧ b = encodeCRLChain plan ∧
        ExactPlan cert new (s.firstRead t) s.crl plan
  | .saveSuperseded _, _ => False
  | .pruneInventory _, _ => False
  | _, _ => True

/-- **The discipline of a cluster with one import**, by thread `t₀`. -/
def importDiscipline (cert : Certificate) (t₀ : Tid) : Discipline machine ClusterJob where
  Inv := HistoryOk
  Allowed := fun t job c s => match job with
    | .serve j => crlAllowed cert t j c s
    | .importCert i => t = t₀ ∧ importAllowed cert i t c s
  inv_exec := fun hinv _ hex => hinv.effect (exec_effect hex)

variable {t₀ : Tid} {i : CertImport} {ns : List LockName} {crlPEM : Option Blob}

variable {s : State}

theorem lockAllowed_of_importAllowed {t : Tid} {c : Cmd} (h : importAllowed cert i t c s) :
    lockAllowed t c s := by
  cases c with
  | unlock n => exact h
  | updateCRL b => exact h.1
  | saveSuperseded | pruneInventory => exact h.elim
  | _ => trivial

theorem importDiscipline_lockAllowed {t : Tid} {job : ClusterJob} {c : Cmd}
    (h : (importDiscipline cert t₀).Allowed t job c s) : lockAllowed t c s := by
  cases job with
  | serve j => exact lockAllowed_of_crlAllowed h
  | importCert i => exact lockAllowed_of_importAllowed h.2

theorem import_lockRules : QuietRules (importDiscipline cert t₀) t₀ (.importCert i) where
  exec := fun h => h
  allowed := fun _ h => importDiscipline_lockAllowed h
  lock := ⟨rfl, trivial⟩
  unlock := fun h => ⟨rfl, h⟩
  quiet := fun {c} _ hq => ⟨rfl, by cases c <;> first | exact hq.elim | trivial⟩

/-- The others amend. -/
theorem amending_of_rely {s' : State} (h : Rely (importDiscipline cert t₀) t₀ s s') :
    ∃ u ≠ t₀, Amending cert u s s' := by
  obtain ⟨u, hne, job, c, ch, a, hinv, hall, hex⟩ := h
  cases job with
  | serve j => exact ⟨u, hne, j, c, ch, a, hinv, hall, hex⟩
  | importCert i => exact absurd hall.1 hne

/-! ### The import, step by step -/

/-- The import has not read the chain yet, nor written it, and there is a certificate for it
to replace. -/
structure Fresh (t₀ : Tid) (s : State) : Prop where
  unwritten : t₀ ∉ s.crlWriters
  unread : s.firstRead t₀ = none
  replaces : s.caBundle ≠ none

/-- The import has not written the chain yet, and `first` is what it read. -/
structure HasRead (t₀ : Tid) (first : Option Blob) (s : State) : Prop where
  unwritten : t₀ ∉ s.crlWriters
  reads : s.firstRead t₀ = first
  absent : first = none → s.crl = none

variable {first : Option Blob}

theorem Fresh.stable : Stable (importDiscipline cert t₀) t₀ (Fresh t₀) := by
  intro s s' hs hrely
  obtain ⟨u, hne, j, c, ch, a, -, -, hex⟩ := amending_of_rely hrely
  cases exec_effect hex with
  | getCRL =>
    exact ⟨hs.unwritten, (Function.update_of_ne hne.symm _ _).trans hs.unread, hs.replaces⟩
  | updateCRL =>
    exact ⟨by simpa [State.setCRL, hs.unwritten] using hne.symm, hs.unread, hs.replaces⟩
  | saveCACert => exact ⟨hs.unwritten, hs.unread, by simp⟩
  | _ => exact ⟨hs.unwritten, hs.unread, hs.replaces⟩

theorem HasRead.stable : Stable (importDiscipline cert t₀) t₀ (HasRead t₀ first) := by
  intro s s' hs hrely
  obtain ⟨u, hne, j, c, ch, a, -, hall, hex⟩ := amending_of_rely hrely
  cases exec_effect hex with
  | getCRL =>
    exact ⟨hs.unwritten, (Function.update_of_ne hne.symm _ _).trans hs.reads, hs.absent⟩
  | updateCRL =>
    refine ⟨by simpa [State.setCRL, hs.unwritten] using hne.symm, hs.reads, fun hnone => ?_⟩
    -- There is a chain to amend only where the import found one.
    obtain ⟨-, blob, own, crl, anc, hold, -⟩ := hall
    rw [hs.absent hnone] at hold
    cases hold
  | _ => exact ⟨hs.unwritten, hs.reads, hs.absent⟩

/-- Reading the chain again changes nothing. -/
theorem HasRead.keptByQuiet : KeptByQuiet t₀ (HasRead t₀ first) := by
  intro c s s' hq he hs
  cases he with
  | getCRL =>
    refine ⟨hs.unwritten, ?_, hs.absent⟩
    simp only [State.noteRead, Function.update_self, hs.reads]
    cases first with
    | none => exact hs.absent rfl
    | some blob => rfl
  | updateCRL => exact hq.elim
  | _ => exact ⟨hs.unwritten, hs.reads, hs.absent⟩

/-- Under the CRL lock the chain does not change at all. -/
structure Frozen (t₀ : Tid) (ns : List LockName) (first b : Option Blob) (s : State) : Prop where
  held : Held t₀ (.crl :: ns) s
  read : HasRead t₀ first s
  crl : s.crl = b

variable {b : Option Blob}

theorem Frozen.owner (h : Frozen t₀ ns first b s) : s.owner .crl = some t₀ :=
  (h.held _).mpr List.mem_cons_self

theorem Held.stable_importing (ns : List LockName) :
    Stable (importDiscipline cert t₀) t₀ (Held t₀ ns) :=
  Held.stable_of_allowed (fun h => h) (fun _ h => importDiscipline_lockAllowed h) ns

theorem Frozen.stable : Stable (importDiscipline cert t₀) t₀ (Frozen t₀ ns first b) := by
  intro s s' hs hrely
  refine ⟨Held.stable_importing _ hs.held hrely, HasRead.stable hs.read hrely, ?_⟩
  obtain ⟨u, hne, j, c, ch, a, -, hall, hex⟩ := amending_of_rely hrely
  cases exec_effect hex with
  | updateCRL => exact absurd (hs.owner.symm.trans hall.1) (by simpa using hne.symm)
  | _ => exact hs.crl

theorem Frozen.keptByQuiet : KeptByQuiet t₀ (Frozen t₀ ns first b) :=
  fun _ s s' hq he hs => ⟨aboutCRL_held _ s s' (hq.sameCRL he) hs.held,
    HasRead.keptByQuiet hq he hs.read, (hq.sameCRL he).crl.trans hs.crl⟩

/-- What the importing thread knows once it has been answered about the stored chain. -/
def ChainRead (t₀ : Tid) (ns : List LockName) (a : Except Failure Blob) (s : State) : Prop :=
  match a with
  | .ok blob => Held t₀ ns s ∧ HasRead t₀ (some blob) s
  | .error .notExist => Held t₀ ns s ∧ HasRead t₀ none s
  | .error _ => Held t₀ ns s

/-- `ResignStoredCRL`: what is carried across is block 0 of the chain it finds, with the next
number. -/
theorem resignStoredCRL_spec {validity : Duration} :
    Triple (importDiscipline cert t₀) t₀ (.importCert i)
      (fun s => Held t₀ ns s ∧ Fresh t₀ s) (resignStoredCRL new validity)
      fun r s => Held t₀ ns s ∧ ∀ crlPEM, r = .ok crlPEM →
        ∃ first, CarriedFrom new crlPEM first ∧ HasRead t₀ first s := by
  have hrules : QuietRules (importDiscipline cert t₀) t₀ (.importCert i) := import_lockRules
  have hheld := hrules.held_stable ns
  have hst : ∀ first, Stable (importDiscipline cert t₀) t₀
      fun s => Held t₀ ns s ∧ HasRead t₀ first s := fun _ => hheld.and HasRead.stable
  refine Triple.call (R := ChainRead t₀ ns) (hheld.and Fresh.stable)
    (fun _ _ _ => hrules.quiet trivial) ?_ fun a => ?_
  · rintro s ch a s' - ⟨hs, hfresh⟩ he
    cases he
    have hread : (s.noteRead t₀).firstRead t₀ = s.crl := by
      simp [State.noteRead, hfresh.unread]
    unfold ChainRead
    split
    · next hok =>
      have hcrl := readOutcome_eq_ok hok
      exact ⟨hs, hfresh.unwritten, hread.trans hcrl, by simp⟩
    · next hnone =>
      have hcrl := readOutcome_eq_notExist hnone
      exact ⟨hs, hfresh.unwritten, hread.trans hcrl, fun _ => hcrl⟩
    · exact hs
  · rcases a with e | blob
    · cases e with
      | notExist =>
        refine Triple.ret (hst none) fun s _ hs => ⟨hs.1, ?_⟩
        rintro _ ⟨⟩
        exact ⟨none, Or.inl ⟨rfl, rfl⟩, hs.2⟩
      | _ => exact Triple.fail hheld fun s _ hs => ⟨hs, by simp⟩
    · -- Only block 0 is parsed: what follows it in the chain is not looked at.
      rcases blob with _ | ⟨block, rest⟩
      · exact Triple.fail (hst _) fun s _ hs => ⟨hs.1, by simp⟩
      · cases hold : block.crl with
        | none =>
          simp only [Prog.ret_bind, hold]
          exact Triple.fail (hst _) fun s _ hs => ⟨hs.1, by simp⟩
        | some old =>
          simp only [Prog.ret_bind, hold]
          refine hrules.quiet_cmd_bind (hst _)
            ((aboutCRL_held ns).keptByQuiet.and HasRead.keptByQuiet) (c := .now) trivial
            fun now => ?_
          refine hrules.createRevocationList_bind (hst _) (fun _ => hrules.quiet trivial)
            (fun e s hs => ⟨hs.1, by simp⟩) fun crl hnum hent hsigned =>
              Triple.ret (hst _) fun s _ hs => ⟨hs.1, ?_⟩
          rintro _ ⟨⟩
          exact ⟨some (block :: rest), Or.inr ⟨crl, old, rfl, hold, hsigned, hnum, hent⟩, hs.2⟩

/-- `storedCRLChain` under the CRL lock. -/
theorem storedCRLChain_bind {β : Type} {f : List RevocationList → Prog β}
    {Q : Except Failure β → State → Prop}
    (herr : ∀ e s, Frozen t₀ ns first b s → Q (.error e) s)
    (hf : Triple (importDiscipline cert t₀) t₀ (.importCert i) (Frozen t₀ ns first b)
      (f ((b.bind decodeCRLChain).getD [])) Q) :
    Triple (importDiscipline cert t₀) t₀ (.importCert i) (Frozen t₀ ns first b)
      (storedCRLChain.bind f) Q := by
  refine Triple.bind (R := fun stored s => stored = (b.bind decodeCRLChain).getD [] ∧
    Frozen t₀ ns first b s) ?_ fun stored => Triple.pure_pre fun hstored => hstored ▸ hf
  refine Triple.call (R := fun a s => ((∀ blob, a = .ok blob → b = some blob) ∧
      (a = .error .notExist → b = none)) ∧ Frozen t₀ ns first b s)
    Frozen.stable (fun _ _ _ => import_lockRules.quiet trivial) ?_ fun a =>
    Triple.pure_pre fun ha => ?_
  · intro s ch a s' _ hs he
    have hfrozen := Frozen.keptByQuiet (c := .getCRL) trivial (exec_effect he) hs
    cases he
    exact ⟨⟨fun blob hok => hs.crl.symm.trans (readOutcome_eq_ok hok),
      fun hnone => hs.crl.symm.trans (readOutcome_eq_notExist hnone)⟩, hfrozen⟩
  · rcases a with e | blob
    · cases e with
      | notExist => exact Triple.ret Frozen.stable fun s _ hs => ⟨by simp [ha.2 rfl], hs⟩
      | _ => exact Triple.fail Frozen.stable fun s _ hs => herr _ s hs
    · simp only [Prog.ret_bind]
      cases hdecode : decodeCRLChain blob with
      | none => exact Triple.fail Frozen.stable fun s _ hs => herr _ s hs
      | some stored =>
        refine Triple.ret Frozen.stable fun s _ hs => ⟨?_, hs⟩
        rw [ha.1 blob rfl, Option.bind_some, hdecode]
        rfl

/-- **The section of the import under the CRL lock.** -/
theorem writePlan_spec (hi : i.leading = some new) (hnew : new.maySignCRLs = true)
    (hfrom : CarriedFrom new crlPEM first) (hnone : first = none → b = none) :
    Triple (importDiscipline cert t₀) t₀ (.importCert i) (Frozen t₀ ns first b)
      (writePlan new crlPEM) fun _ s => Held t₀ (.crl :: ns) s := by
  have hrules : QuietRules (importDiscipline cert t₀) t₀ (.importCert i) := import_lockRules
  have hheld := hrules.held_stable (.crl :: ns)
  rw [writePlan, planCRLImport, Prog.bind_eq, Prog.bind_eq, Prog.bind_assoc]
  refine storedCRLChain_bind (fun e s hs => hs.held) ?_
  refine hrules.quiet_bind (R := fun r => ∀ plan changed, r = .ok (plan, changed) →
    ExactPlan cert new first b plan) Frozen.stable Frozen.keptByQuiet
    (plan_always hnew hfrom hnone) (fun e s _ hs => hs.held) ?_
  rintro ⟨plan, changed⟩ hplan
  simp only [doIf]
  split
  · refine Triple.call (R := fun _ s => Held t₀ (.crl :: ns) s) Frozen.stable ?_ ?_ fun a =>
      Triple.ofExcept hheld fun s _ hs => hs
    · intro s _ hs
      refine ⟨rfl, hs.owner, hs.read.unwritten, new, plan, hi, rfl, ?_⟩
      rw [hs.read.reads, hs.crl]
      exact hplan plan changed rfl
    · intro s ch a s' _ hs he
      rcases writeOutcome_cases he with rfl | rfl <;> exact hs.held
  · exact Triple.ret Frozen.stable fun s _ hs => hs.held

theorem only_doIf {C : Cmd → Prop} {c : Bool} {p : Prog Unit} (hp : p.Only C) :
    (doIf c p).Only C := by
  unfold doIf
  split
  · exact hp
  · trivial

theorem importCAMaterial_spec (hn : .crl ∉ ns) (hi : i.leading = some new)
    (hfrom : CarriedFrom new crlPEM first) :
    Triple (importDiscipline cert t₀) t₀ (.importCert i)
      (fun s => Held t₀ ns s ∧ HasRead t₀ first s)
      (importCAMaterial i.bundle false crlPEM i.signer) fun _ s => Held t₀ ns s := by
  have hrules : QuietRules (importDiscipline cert t₀) t₀ (.importCert i) := import_lockRules
  have hheld := hrules.held_stable ns
  have hst : Stable (importDiscipline cert t₀) t₀ fun s => Held t₀ ns s ∧ HasRead t₀ first s :=
    hheld.and HasRead.stable
  have hkept : KeptByQuiet t₀ fun s => Held t₀ ns s ∧ HasRead t₀ first s :=
    (aboutCRL_held ns).keptByQuiet.and HasRead.keptByQuiet
  refine hrules.quiet_bind hst hkept (checkedBundle_always trivial i.bundle i.signer)
    (fun e s _ hs => hs.1) ?_
  rintro ⟨caCert, certs⟩ hchecked
  obtain ⟨hlead, hmay⟩ := hchecked _ rfl
  obtain rfl : new = caCert := Option.some.inj (hi.symm.trans hlead)
  -- Everything up to the lock leaves the chain alone.
  have hquiet : ∀ {α β : Type} {p : Prog α} {f : α → Prog β}, p.Only Cmd.Quiet →
      (∀ a, Triple (importDiscipline cert t₀) t₀ (.importCert i)
        (fun s => Held t₀ ns s ∧ HasRead t₀ first s) (f a) fun _ s => Held t₀ ns s) →
      Triple (importDiscipline cert t₀) t₀ (.importCert i)
        (fun s => Held t₀ ns s ∧ HasRead t₀ first s) (p.bind f) fun _ s => Held t₀ ns s :=
    fun hp hf => hrules.quiet_bind hst hkept hp (fun e s _ hs => hs.1) fun a _ => hf a
  refine hquiet (only_ask (only_cmd (c := .saveOther) trivial)) fun _ => ?_
  refine hquiet (quiet_planCRLImport new crlPEM) fun _ => ?_
  refine hquiet (only_doIf (only_ask (only_cmd (c := .saveOther) trivial))) fun _ => ?_
  refine hquiet (only_ask (only_cmd (c := .saveCACert certs) trivial)) fun _ => ?_
  refine hquiet (only_ask (only_cmd (c := .saveOther) trivial)) fun _ => ?_
  have hlocked : Triple (importDiscipline cert t₀) t₀ (.importCert i)
      (fun s => Held t₀ ns s ∧ HasRead t₀ first s)
      (withLock .crl (writePlan new crlPEM)) fun _ s => Held t₀ ns s := by
    refine (hrules.withLock_spec (A := fun s => ∃ b, (first = none → b = none) ∧
      Frozen t₀ ns first b s) (Q := fun _ _ => True) hn HasRead.stable ?_ ?_
      (fun _ => Stable.const _) (fun _ _ _ _ => trivial) fun _ _ => trivial).weaken
        fun _ _ _ hs => hs.1
    · intro s _ hread hh
      exact ⟨s.crl, hread.absent, hh, ⟨hread.unwritten, hread.reads, hread.absent⟩, rfl⟩
    · refine Triple.exists_pre fun b => Triple.pure_pre fun hnone => ?_
      exact (writePlan_spec hi hmay hfrom hnone).weaken
        fun _ _ _ hs => ⟨hs, trivial⟩
  refine hlocked.seq (fun _ _ hs => hs) fun _ => (hrules.quiet_spec (R := fun _ => True) hheld
    (aboutCRL_held ns).keptByQuiet ?_).weaken fun _ _ _ hs => hs.2
  refine Prog.only_bind (only_ask (only_cmd (c := .hasSerial) trivial)) fun hasSerial => ?_
  refine Prog.only_bind (only_doIf (only_ask (only_cmd (c := .writeSerial) trivial))) fun _ => ?_
  exact only_ask (only_cmd (c := .saveOther) trivial)

/-- The section of the import under the bootstrap lock. -/
theorem importLocked_spec (hi : i.leading = some new) :
    Triple (importDiscipline cert t₀) t₀ (.importCert i)
      (fun s => Held t₀ [.bootstrap] s ∧ Fresh t₀ s) (importLocked i new)
      fun _ s => Held t₀ [.bootstrap] s := by
  have hheld : Stable (importDiscipline cert t₀) t₀ (Held t₀ [.bootstrap]) :=
    Held.stable_importing _
  have hst : Stable (importDiscipline cert t₀) t₀ fun s => Held t₀ [.bootstrap] s ∧ Fresh t₀ s :=
    hheld.and Fresh.stable
  refine Triple.call (R := fun a s => (∀ had, a = .ok had → had = true) ∧
    Held t₀ [.bootstrap] s ∧ Fresh t₀ s) hst (fun _ _ _ => import_lockRules.quiet trivial) ?_
    fun a => Triple.pure_pre fun ha => ?_
  · rintro s ch a s' - hs he
    cases he
    -- The import replaces a certificate, so a look that does not fail finds it.
    refine ⟨fun had hok => ?_, hs⟩
    unfold existsOutcome at hok
    split at hok
    · cases hok
    · rw [← Except.ok.inj hok, Option.isSome_iff_ne_none]
      exact hs.2.replaces
  · rcases a with e | had
    · exact Triple.fail hst fun s _ hs => hs.1
    · obtain rfl := ha had rfl
      simp only [Prog.ofExcept, Prog.ret_bind]
      split
      · exact Triple.fail hst fun s _ hs => hs.1
      · refine Triple.bind (R := fun crlPEM s => ∃ first, CarriedFrom new crlPEM first ∧
          Held t₀ [.bootstrap] s ∧ HasRead t₀ first s) ?_ fun crlPEM => ?_
        · refine resignStoredCRL_spec.weaken ?_
          rintro (e | crlPEM) s - hs
          · exact hs.1
          · obtain ⟨first, hfrom, hread⟩ := hs.2 crlPEM rfl
            exact ⟨first, hfrom, hs.1, hread⟩
        · refine Triple.exists_pre fun first => Triple.pure_pre fun hfrom => ?_
          exact (importCAMaterial_spec (by simp) hi hfrom).seq (fun _ _ hs => hs) fun _ =>
            Keeps.ret hheld

theorem importCACertificate_spec :
    Triple (importDiscipline cert t₀) t₀ (.importCert i)
      (fun s => Held t₀ [] s ∧ Fresh t₀ s) (importCACertificate i) fun _ s => Held t₀ [] s := by
  have hrules : QuietRules (importDiscipline cert t₀) t₀ (.importCert i) := import_lockRules
  have hst : Stable (importDiscipline cert t₀) t₀ fun s => Held t₀ [] s ∧ Fresh t₀ s :=
    (hrules.held_stable []).and Fresh.stable
  refine (Triple.of_always (C := Eq Cmd.now) hst ?_ ?_
    (checkedBundle_always rfl i.bundle i.signer)).seq (fun _ _ hs => hs.2.1) ?_
  · rintro _ rfl s - -
    exact hrules.quiet trivial
  · rintro _ rfl s ch a s' hs he
    cases he
    exact ⟨hs.1, hs.2.unwritten, hs.2.unread, hs.2.replaces⟩
  · rintro ⟨new, certs⟩
    refine Triple.pure_pre fun hi => ?_
    refine (hrules.withLock_spec (A := fun s => Held t₀ [.bootstrap] s ∧ Fresh t₀ s)
      (Q := fun _ _ => True) (by simp) Fresh.stable ?_ ((importLocked_spec (hi _ rfl).1).weaken
        fun _ _ _ hs => ⟨hs, trivial⟩) (fun _ => Stable.const _)
      (fun _ _ _ _ => trivial) fun _ _ => trivial).weaken fun _ _ _ hs => hs.1
    exact fun s _ hfresh hh => ⟨hh, hfresh.unwritten, hfresh.unread, hfresh.replaces⟩

/-! ### Every run -/

/-- **The proof outline of a serving cluster next to one import.** -/
def importOutline (cert : Certificate) (t₀ : Tid) : Outline machine (importing cert) where
  toDiscipline := importDiscipline cert t₀
  Menu := fun job => ∃ j, job = .serve j
  Idle := fun t _ => Held t []
  Post := fun _ _ _ _ => True
  idle_stable := fun _ _ =>
    Held.stable_of_allowed (fun h => h) (fun _ h => importDiscipline_lockAllowed h) []
  job := by
    rintro t _ _ ⟨j, rfl⟩
    refine ((operation_spec { toConfig := j.config, caCert := cert } t j).weaken
      fun r s _ hs => ?_).transfer (fun _ _ _ _ _ h => h) (fun _ h => h) ?_ (fun _ _ _ h => h)
      fun _ _ _ h => h.1
    · exact ⟨hs.1, trivial⟩
    · exact fun u job c s _ h => ⟨j, importDiscipline_lockAllowed h⟩

/-- A step amends, or is the import's write. -/
theorem amending_or_written {u : Tid} {s' : State} (h : Moves (importDiscipline cert t₀) u s s') :
    Amending cert u s s' ∨ t₀ ∈ s'.crlWriters := by
  obtain ⟨job, c, ch, a, hinv, hall, hex⟩ := h
  cases job with
  | serve j => exact Or.inl ⟨j, c, ch, a, hinv, hall, hex⟩
  | importCert i =>
    obtain ⟨rfl, hall⟩ := hall
    have hamend : (∀ b, c ≠ .updateCRL b) → Amending cert u s s' := by
      intro hne
      refine ⟨{ op := .reissueCRL }, c, ch, a, hinv, ?_, hex⟩
      cases c with
      | unlock n => exact hall
      | updateCRL b => exact absurd rfl (hne b)
      | saveSuperseded | pruneInventory => exact hall.elim
      | _ => trivial
    cases c with
    | updateCRL b =>
      rcases writeOutcome_cases hex with rfl | rfl
      · exact Or.inl ⟨{ op := .reissueCRL }, .randomSerial, ch, _, hinv, trivial, rfl⟩
      · exact Or.inr (by simp [State.setCRL])
    | _ => exact Or.inl (hamend (by simp))

/-- Until the import writes the chain, what is listed stays listed until it is pruned. -/
theorem listed_until_written {u : Tid} {n : ℤ} {k : ℕ} {s' : State}
    (h : Moves (importDiscipline cert t₀) u s s')
    (hs : t₀ ∈ s.crlWriters ∨ UntilPruned (fun s => n ∈ s.listed cert) n k s) :
    t₀ ∈ s'.crlWriters ∨ UntilPruned (fun s => n ∈ s.listed cert) n k s' := by
  rcases hs with hs | hs
  · obtain ⟨job, c, ch, a, -, -, hex⟩ := h
    cases exec_effect hex with
    | updateCRL => exact Or.inl (List.mem_cons_of_mem _ hs)
    | _ => exact Or.inl hs
  · rcases amending_or_written h with ham | hw
    · exact Or.inr (UntilPruned.amending hs ham (mem_listed_of_amending ham))
    · exact Or.inl hw

/-- The import starts: its thread satisfies its specification. -/
theorem sound_importing {s₀ : State} (hrest : s₀.AtRest) (hfresh : Fresh t₀ s₀)
    {p : ImportingCluster cert}
    (hp : (Pool.initial s₀ : ImportingCluster cert).next (.start t₀ (.importCert i)) = some p) :
    (importOutline cert t₀).Sound p := by
  obtain rfl := Option.some.inj hp
  have hidle : ∀ t, Held t [] s₀ := fun t n => by simp [hrest.unlocked n]
  have hinit : (importOutline cert t₀).Sound (Pool.initial s₀) :=
    Outline.sound_initial _ hrest.history hidle
  refine hinit.setThread _ ?_
  have hbody : Triple (importDiscipline cert t₀) t₀ (.importCert i)
      (fun s => Held t₀ [] s ∧ Fresh t₀ s)
      ((importCACertificate i).bind fun b => .ret (Result.flag b)) fun _ s => Held t₀ [] s ∧ True :=
    importCACertificate_spec.seq (fun _ _ hs => ⟨hs, trivial⟩) fun b =>
      Triple.ret (Held.stable_importing []) fun _ _ hs => ⟨hs, trivial⟩
  exact hbody s₀ ⟨hidle t₀, hfresh⟩

/-- **When a forced import loses no revocation.** One thread of a cluster is given an import
that replaces the stored certificate, nothing has been pruned, and that thread is about to write
the chain `b`: block 0 of `b` has every serial that was on the stored own CRL at any moment
`p₁` since the import started if and only if everything listed is carried across, judging by
the chain that the import read first and by the chain it replaces. -/
theorem import_keeps_revocations {s₀ : State} (hrest : s₀.AtRest) (hfresh : Fresh t₀ s₀)
    {ls : List (ImportingEvent cert)} {p : ImportingCluster cert}
    (hp : (Pool.initial s₀ : ImportingCluster cert).run (.start t₀ (.importCert i) :: ls) = some p)
    (hone : ∀ t i', .start t (.importCert i') ∉ ls) (hprune : p.shared.pruneLog = []) {b : Blob}
    {k : Cmd.Ans (.updateCRL b) → Prog Result}
    (ht : p.thread t₀ = .running (.importCert i) (.call (.updateCRL b) k)) :
    (∀ ls₁ ls₂ p₁, ls = ls₁ ++ ls₂ →
      (Pool.initial s₀ : ImportingCluster cert).run (.start t₀ (.importCert i) :: ls₁) = some p₁ →
      ∃ h, blockZero b = some h ∧ p₁.shared.listed cert ⊆ h.serials) ↔
    ∃ new, i.leading = some new ∧
      CarriesAll cert new (p.shared.firstRead t₀) p.shared.crl := by
  have hwithin : ∀ ls' ⊆ ls, (importOutline cert t₀).Within ls' := by
    rintro ls' hsub t (j | i') hmem
    · exact ⟨j, rfl⟩
    · exact absurd (hsub hmem) (hone t i')
  have hsound : ∀ ls' ⊆ ls, ∀ q, (Pool.initial s₀ : ImportingCluster cert).run
      (.start t₀ (.importCert i) :: ls') = some q → (importOutline cert t₀).Sound q := by
    intro ls' hsub q hq
    obtain ⟨p₀, hp₀, hrun⟩ := Pool.run_cons (M := machine).mp hq
    exact ((sound_importing hrest hfresh hp₀).run _ (hwithin ls' hsub) hrun).1
  obtain ⟨-, -, hunwritten, new, _, hi, rfl, lead, rest, rfl, hexact⟩ :=
    (hsound ls (List.Subset.refl _) p hp).allowed _ ht
  have hlead : blockZero (encodeCRLChain (lead :: rest)) = some lead := rfl
  constructor
  · intro hall
    obtain ⟨h, hh, hsub⟩ := hall ls [] p (List.append_nil ls).symm hp
    obtain rfl := Option.some.inj (hlead.symm.trans hh)
    exact ⟨new, hi, hexact.mp hsub⟩
  · rintro ⟨new', hi', hcarries⟩ ls₁ ls₂ p₁ rfl hp₁
    obtain rfl := Option.some.inj (hi.symm.trans hi')
    refine ⟨lead, hlead, fun n hn => hexact.mpr hcarries ?_⟩
    -- What was listed in the state in between is listed still.
    rw [← List.cons_append] at hp
    obtain ⟨q, hq, hrest₂⟩ := Pool.run_append (M := machine).mp hp
    obtain rfl := Option.some.inj (hp₁.symm.trans hq)
    have hmoves := ((hsound ls₁ (List.subset_append_left _ _) p₁ hp₁).run _
      (hwithin ls₂ (List.subset_append_right _ _)) hrest₂).2
    have hstart : t₀ ∈ p₁.shared.crlWriters ∨
        UntilPruned (fun s => n ∈ s.listed cert) n p₁.shared.holdStart p₁.shared :=
      Or.inr ⟨Or.inl hn, le_rfl⟩
    have hkept := AnyMoves.star (fun u s s' hmove => listed_until_written hmove) hmoves hstart
    rcases (hkept.resolve_left hunwritten).kept with hn | hn
    · exact hn
    · simp [hprune] at hn

/-! A cluster to import into: the sample cluster, with its certificate stored. -/

/-- An import into the sample cluster of a certificate for the key `key`. -/
def sampleImport (key : PublicKey) : CertImport :=
  { bundle := some [{ sampleCert with serialNumber := 2, publicKey := key, signedBy := key }]
    signer := key }

def importState : State := { sampleState with caBundle := some (some [sampleCert]) }

def importStarted (key : PublicKey) : ImportingEvent sampleCert :=
  .start ⟨0, 0⟩ (.importCert (sampleImport key))

/-- Thread `thread` takes a number of steps in which nothing fails. -/
def stepsOf (thread steps : ℕ) : List (ImportingEvent sampleCert) :=
  List.replicate steps (.step ⟨0, thread⟩ {})

/-- A second thread revokes the node. -/
def revocation : List (ImportingEvent sampleCert) :=
  .start ⟨0, 1⟩ (.serve { op := .revoke ['n'] }) :: stepsOf 1 17

/-- What the import on thread `t` is about to write. -/
def pendingWrite (p : ImportingCluster sampleCert) (t : Tid) : Option (CertImport × Blob) :=
  match p.thread t with
  | .running (.importCert i) (.call (.updateCRL b) _) => some (i, b)
  | _ => none

theorem exists_of_pendingWrite {p : ImportingCluster sampleCert} {t : Tid} {b : Blob}
    (h : pendingWrite p t = some (i, b)) : ∃ k : Cmd.Ans (.updateCRL b) → Prog Result,
      p.thread t = .running (.importCert i) (.call (.updateCRL b) k) := by
  unfold pendingWrite at h
  split at h
  · next hth =>
    cases h
    exact ⟨_, hth⟩
  · cases h

theorem importState_atRest : importState.AtRest :=
  ⟨fun _ => rfl, ⟨le_rfl, fun _ => le_rfl⟩, fun _ => rfl⟩

set_option synthInstance.maxSize 512 in
/-- The node is revoked before the import reads the list: it is carried across. -/
theorem import_keeps_revocations_sample : ∃ p : ImportingCluster sampleCert,
    (Pool.initial importState).run
      (importStarted sampleCert.publicKey :: (revocation ++ stepsOf 0 13)) = some p ∧
      p.shared.listed sampleCert = [5] ∧
      ∃ b h, pendingWrite p ⟨0, 0⟩ = some (sampleImport sampleCert.publicKey, b) ∧
        blockZero b = some h ∧ 5 ∈ h.serials := by
  have hrun : ((Pool.initial importState).run (importStarted sampleCert.publicKey ::
      (revocation ++ stepsOf 0 13))).map (fun p => (p.shared.listed sampleCert,
        p.shared.pruneLog, (pendingWrite p ⟨0, 0⟩).map Prod.fst,
        (sampleImport sampleCert.publicKey).leading.map fun new =>
          decide (CarriesAll sampleCert new (p.shared.firstRead ⟨0, 0⟩) p.shared.crl))) =
      some ([5], [], some (sampleImport sampleCert.publicKey), some true) := by
    decide +kernel
  obtain ⟨p, hp, hv⟩ := Option.map_eq_some_iff.mp hrun
  obtain ⟨hlisted, hv⟩ := Prod.mk.inj hv
  obtain ⟨hprune, hv⟩ := Prod.mk.inj hv
  obtain ⟨hwrite, hcarries⟩ := Prod.mk.inj hv
  obtain ⟨⟨i, b⟩, hwrite, rfl⟩ := Option.map_eq_some_iff.mp hwrite
  obtain ⟨k, hth⟩ := exists_of_pendingWrite hwrite
  obtain ⟨new, hnew, hcarries⟩ := Option.map_eq_some_iff.mp hcarries
  have hone : ∀ t i', .start t (.importCert i') ∉ revocation ++ stepsOf 0 13 := by
    simp [revocation, stepsOf]
  obtain ⟨h, hh, hsub⟩ := (import_keeps_revocations importState_atRest
    ⟨by simp [importState, sampleState], rfl, by simp [importState]⟩ hp hone hprune hth).mpr
    ⟨new, hnew, of_decide_eq_true hcarries⟩ _ [] p (List.append_nil _).symm hp
  exact ⟨p, hp, hlisted, b, h, hwrite, hh, hsub (by simp [hlisted])⟩

/-- The node is revoked once an import for the key `key` has read the list, and block 0 of
the chain that the import then writes does not have it. -/
def LosesRevocation (key : PublicKey) : Prop :=
  ∃ p₁ p : ImportingCluster sampleCert,
    (Pool.initial importState).run (importStarted key :: (stepsOf 0 4 ++ revocation)) = some p₁ ∧
      p₁.run (stepsOf 0 10) = some p ∧ p₁.shared.listed sampleCert = [5] ∧
      p.shared.crlWriters.head? = some ⟨0, 0⟩ ∧
      (p.shared.crl.bind blockZero).map RevocationList.serials = some []

/-- **A forced import can lose a revocation**, whether the certificate keeps the key or
changes it. -/
theorem import_loses_revocation :
    LosesRevocation sampleCert.publicKey ∧ LosesRevocation { id := 1 } := by
  have hlost : ∀ key, ((Pool.initial importState).run
      (importStarted key :: (stepsOf 0 4 ++ revocation))).map (fun p₁ =>
        (p₁.shared.listed sampleCert, (p₁.run (stepsOf 0 10)).map fun p =>
          (p.shared.crlWriters.head?, (p.shared.crl.bind blockZero).map RevocationList.serials))) =
        some ([5], some (some ⟨0, 0⟩, some [])) → LosesRevocation key := by
    intro key h
    obtain ⟨p₁, hp₁, hv₁⟩ := Option.map_eq_some_iff.mp h
    obtain ⟨hlisted, hv₁⟩ := Prod.mk.inj hv₁
    obtain ⟨p, hp, hv⟩ := Option.map_eq_some_iff.mp hv₁
    obtain ⟨hwriter, hserials⟩ := Prod.mk.inj hv
    exact ⟨p₁, p, hp₁, hp, hlisted, hwriter, hserials⟩
  exact ⟨hlost _ (by decide +kernel), hlost _ (by decide +kernel)⟩

end OpenvoxCa.Ca
