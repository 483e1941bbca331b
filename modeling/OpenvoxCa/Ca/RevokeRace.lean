import OpenvoxCa.Ca.Renewal
import OpenvoxCa.Conc.Restrict

/-!
# Renewal and revocation by serial

A renewal asks whether the certificate it was presented with is revoked, under the lock of the
subject, and then signs and stores a successor, still under that lock. A revocation by subject takes
the same lock. A revocation by *serial* does not: it takes the CRL lock only, and may commit between
the renewal's question and its signature (`revoked_serial_renewed`).

Everything else is in order. `revoked_serial_not_renewed` is about every run in which nobody writes
the CRL while somebody else holds the lock of the subject (`Orderly`): once the presented serial is
listed, nothing is signed or stored for it any more. The proof is that of the gate, with the reason
why the chain stands still under the lock of the subject replaced: here it is that the runs are
orderly.
-/

namespace OpenvoxCa.Ca

open Conc

variable {ca : CA} {cert : Certificate} {sub : Text} {t : Tid} {j : Job} {s s' : State}

/-! ### Orderly runs -/

/-- Nobody but `t` holds the lock of the subject. -/
def FreeFor (sub : Text) (t : Tid) (s : State) : Prop :=
  s.owner (.subject sub) = none ∨ s.owner (.subject sub) = some t

instance (sub : Text) (t : Tid) (s : State) : Decidable (FreeFor sub t s) :=
  inferInstanceAs (Decidable (_ ∨ _))

/-- **The event is orderly**: if it writes the CRL, nobody else holds the lock of the subject. -/
def Orderly (sub : Text) (p : ReadingCluster cert) (l : ReadingEvent cert) : Prop :=
  ∀ t ch j b k, l = .step t ch → p.thread t = .running j (.call (.updateCRL b) k) →
    FreeFor sub t p.shared

/-- Execution, where a write of the CRL waits until nobody else holds the lock of the subject. -/
def execOrderly (sub : Text) (t : Tid) (s : State) : (c : Cmd) → Choice → Option (c.Ans × State)
  | .updateCRL b, ch => if FreeFor sub t s then execReading t s (.updateCRL b) ch else none
  | c, ch => execReading t s c ch

abbrev orderlyMachine (sub : Text) : Machine interface := machine.withExec (execOrderly sub)

theorem reading_of_orderly {c : Cmd} {ch : Choice} {r : c.Ans × State}
    (h : execOrderly sub t s c ch = some r) : execReading t s c ch = some r := by
  cases c with
  | updateCRL b =>
    simp only [execOrderly] at h
    split at h
    · exact h
    · cases h
  | _ => exact h

theorem freeFor_of_orderly {b : Blob} {ch : Choice} {r : Except Failure Unit × State}
    (h : execOrderly sub t s (.updateCRL b) ch = some r) : FreeFor sub t s := by
  simp only [execOrderly] at h
  split at h
  · next hfree => exact hfree
  · cases h

/-- An orderly event is one that the machine of orderly runs permits. -/
theorem Orderly.permits {p : ReadingCluster cert} {l : ReadingEvent cert} (h : Orderly sub p l) :
    p.Permits (execOrderly sub) l := by
  rintro t ch j c k rfl ht
  cases c with
  | updateCRL b => exact if_pos (h t ch j b k rfl ht)
  | _ => rfl

/-! ### The discipline -/

/-- What a command is asked besides respecting the CRL lock: what the gate asks, but that the
chain is written under the lock of the subject. -/
def orderlyDuty (cert : Certificate) (sub : Text) (t : Tid) (j : Job) : Cmd → State → Prop
  | .updateCRL _, _ => True
  | c, s => gateDuty cert sub t j c s

theorem gateStep_of_orderly {c : Cmd} {ch : Choice} {r : c.Ans × State}
    (h : orderlyDuty cert sub t j c s) (hex : execOrderly sub t s c ch = some r) :
    gateStep cert sub t c s := by
  cases c with
  | updateCRL b =>
    intro v hv
    rcases freeFor_of_orderly hex with hfree | hown
    · rw [hfree] at hv
      cases hv
    · exact Option.some.inj (hv.symm.trans hown)
  | _ => exact gateStep_of_gateDuty (j := j) h

/-- **The discipline of orderly runs.** -/
def orderlyDiscipline (cert : Certificate) (sub : Text) : Discipline (orderlyMachine sub) Job where
  Inv := GateInv cert
  Allowed := fun t j c s => crlAllowed cert t j c s ∧ orderlyDuty cert sub t j c s
  Duty := orderlyDuty cert sub
  inv_exec := fun hinv hall hex => hinv.step hall.1 (gateStep_of_orderly hall.2 hex)
    (exec_effect (exec_of_reading (reading_of_orderly hex)))

instance : GateRules (orderlyDiscipline cert sub) cert sub where
  exec_of := fun h => exec_of_reading (reading_of_orderly h)
  reads := fun h => GateRules.reads (D := gateDiscipline cert sub) (reading_of_orderly h)
  inv := id
  allowed := fun _ h => h.1
  step := fun _ hall hex => gateStep_of_orderly hall.2 hex
  duty := by
    intro t j c s h
    cases c <;> first | exact h | trivial
  unpruned := fun h => h.2

/-! ### The operations -/

/-- A revocation by serial, in an orderly run. -/
theorem revokeSerial_gate {serial : Text} {force : Bool} :
    Keeps (orderlyDiscipline ca.caCert sub) t j (Held t []) (revokeSerial ca serial force) := by
  unfold revokeSerial
  split
  · exact Keeps.fail held_stable_gate
  · exact withCRLLock_gate (by simp) (closed_revokeSerialCheckedLocked closed_busy
      (fun _ => revokeSerialLocked_gate
        ⟨List.mem_singleton.mpr rfl, fun _ _ _ => trivial⟩) _ _)

/-- **The operations that contend for a certificate**: revocations by serial, renewals that
present it, and whatever else is about its subject. -/
inductive Op.Contends (c₀ : Certificate) : Op → Prop
  | revokeSerial (serial : Text) (force : Bool) : Op.Contends c₀ (.revokeSerial serial force)
  | renew (subject : Text) (csrPEM : RequestBlob) : Op.Contends c₀ (.renew subject csrPEM (some c₀))
  | about {op : Op} (h : op.About c₀.subject.commonName) : Op.Contends c₀ op

theorem orderly_spec (ca : CA) (c₀ : Certificate) (t : Tid) (j : Job) (hj : j.op.Contends c₀) :
    Keeps (orderlyDiscipline ca.caCert c₀.subject.commonName) t j (Held t [])
      (operation ca j.op) := by
  generalize hop : j.op = op at hj
  cases hj with
  | revokeSerial serial force =>
    exact Keeps.bind revokeSerial_gate fun _ => Keeps.ret held_stable_gate
  | renew subject csrPEM =>
    by_cases hname : c₀.subject.commonName = subject
    · have habout : j.op.About c₀.subject.commonName := by
        rw [hop]
        exact hname.symm
      exact hop ▸ gate_spec ca t j habout
    · -- A renewal under a name that is not that of the presented certificate comes to nothing.
      refine Keeps.bind ?_ fun _ => Keeps.ret held_stable_gate
      simp only [renew, if_pos hname]
      split
      · exact Keeps.bind refuseIfRevoked_gate fun _ => Keeps.fail held_stable_gate
      · exact Keeps.fail held_stable_gate
  | about habout => exact hop ▸ gate_spec ca t j (hop ▸ habout)

/-! ### Every run -/

variable {c₀ : Certificate}

/-- **The proof outline of an orderly cluster.** -/
def orderlyOutline (cert c₀ : Certificate) :
    Outline (orderlyMachine c₀.subject.commonName) (serving cert) where
  toDiscipline := (orderlyDiscipline cert c₀.subject.commonName).withDuty
    (fun t j c s => crlAllowed cert t j c s ∧ orderlyDuty cert c₀.subject.commonName t j c s)
    fun _ _ _ _ => True
  Menu := fun j => j.op.Contends c₀
  Idle := fun t _ => Held t []
  Post := fun _ _ _ _ => True
  idle_stable := fun _ _ => held_stable_gate (D := orderlyDiscipline cert c₀.subject.commonName)
  job := fun t j _ hj => operation_gate { toConfig := j.config, caCert := cert }
    (fun _ _ => trivial) (orderly_spec { toConfig := j.config, caCert := cert } c₀ t j hj)

/-- **A certificate revoked by serial is not renewed**, in orderly runs. In every run of
revocations by serial, renewals that present `c₀` and other operations about its subject, on any
number of replicas, in which nobody writes the CRL while somebody else holds the lock of the
subject: once the serial of `c₀` is on the stored own CRL, in `p`, no renewal that presents `c₀`
signs, stores or appends anything in any later state `q`. -/
theorem revoked_serial_not_renewed {s₀ : State} (h₀ : s₀.Ready cert)
    {ls ls' : List (ReadingEvent cert)} {p q : ReadingCluster cert}
    (hls : ∀ t j, .start t j ∈ ls ++ ls' → j.op.Contends c₀)
    (hp : (Pool.initial s₀).run ls = some p) (hq : p.run ls' = some q)
    (horderly : (Pool.initial s₀ : ReadingCluster cert).Throughout
      (Orderly c₀.subject.commonName) (ls ++ ls'))
    (hlisted : c₀.serialNumber ∈ p.shared.listed cert) {t : Tid} {j : Job} {c : Cmd}
    {k : c.Ans → Prog Result} (ht : q.thread t = .running j (.call c k))
    (hj : j.op.presented = some c₀) : ¬c.Mints := by
  have hpermits := Pool.throughout_append hp (horderly.mono Orderly.permits)
  -- The run is one of the machine on which a write of the CRL waits for the subject's lock.
  have hp' := Pool.restrict_run _ hp hpermits.1
  have hq' := Pool.restrict_run _ hq hpermits.2
  have ht' := Pool.restrict_thread (execOrderly c₀.subject.commonName) ht
  refine not_mints_of_kept (D := orderlyDiscipline cert c₀.subject.commonName)
    (O := orderlyOutline cert c₀) (fun h => h) (fun {t j c s} hall hm => ?_)
    (Outline.sound_initial _ h₀.gateInv h₀.held) h₀.unpruned ?_ hp' hq' (Or.inr hlisted) ht' hj
  · cases c <;> first | exact hall.2 | exact hm.elim
  · intro t j hstart
    rw [← List.map_append] at hstart
    exact hls t j (start_mem_restrict _ hstart)

/-! A cluster in which the certificate of the node is stored. -/

def leafState : State := { sampleState with certs := fun _ => some { parsed := some sampleLeaf } }

/-- A thread takes a number of steps, where `9` is the next random serial. -/
def renewingSteps (t : Tid) (steps : ℕ) : List (ReadingEvent sampleCert) :=
  List.replicate steps (.step t { number := 9 })

/-- A renewal has got past the gate under the lock of the subject. -/
def pastGate : List (ReadingEvent sampleCert) :=
  .start ⟨1, 0⟩ { op := .autoRenew (some sampleLeaf) } :: renewingSteps ⟨1, 0⟩ 15

/-- Another replica revokes the serial `5`, from beginning to end. -/
def revokedBySerial : List (ReadingEvent sampleCert) :=
  .start ⟨0, 0⟩ { op := .revokeSerial ['5'] true } :: renewingSteps ⟨0, 0⟩ 15 ++ [.finish ⟨0, 0⟩]

/-- **A certificate is renewed after it was revoked by serial.** The renewal of the certificate
`5` gets past its last question; another replica revokes `5`, which is on the stored CRL, and
reports success; the renewal then signs and stores the certificate `9`. -/
theorem revoked_serial_renewed : ∃ p q : ReadingCluster sampleCert,
    (Pool.initial leafState).run (pastGate ++ revokedBySerial) = some p ∧
      p.shared.listed sampleCert = [5] ∧ storedSerial p.shared ['n'] = some 5 ∧
      p.run (renewingSteps ⟨1, 0⟩ 5) = some q ∧ storedSerial q.shared ['n'] = some 9 := by
  have hrun : ((Pool.initial leafState).run (pastGate ++ revokedBySerial)).map (fun p =>
      (p.shared.listed sampleCert, storedSerial p.shared ['n'],
        (p.run (renewingSteps ⟨1, 0⟩ 5)).map fun q => storedSerial q.shared ['n'])) =
      some ([5], some 5, some (some 9)) := by decide +kernel
  obtain ⟨p, hp, hv⟩ := Option.map_eq_some_iff.mp hrun
  obtain ⟨hlisted, hv⟩ := Prod.mk.inj hv
  obtain ⟨hbefore, hv⟩ := Prod.mk.inj hv
  obtain ⟨q, hq, hafter⟩ := Option.map_eq_some_iff.mp hv
  exact ⟨p, q, hp, hlisted, hbefore, hq, hafter⟩

def checkOrderly (sub : Text) (p : ReadingCluster cert) : ReadingEvent cert → Bool
  | .step t _ =>
    match p.thread t with
    | .running _ (.call (.updateCRL _) _) => decide (FreeFor sub t p.shared)
    | _ => true
  | _ => true

theorem orderly_of_check {p : ReadingCluster cert} {l : ReadingEvent cert}
    (h : checkOrderly sub p l = true) : Orderly sub p l := by
  rintro t ch j b k rfl ht
  simpa [checkOrderly, ht] using h

theorem leafState_ready : leafState.Ready sampleCert :=
  have h := sampleState_ready
  ⟨h.unlocked, h.history, h.unpruned, h.leads, h.cache⟩

/-- A renewal that has got past the first gate only. -/
def outsideLock : List (ReadingEvent sampleCert) :=
  .start ⟨1, 0⟩ { op := .autoRenew (some sampleLeaf) } :: renewingSteps ⟨1, 0⟩ 7

/-- It takes the lock and asks again; it does not come to issuing. -/
theorem revoked_serial_not_renewed_sample : ∃ p q : ReadingCluster sampleCert,
    (Pool.initial leafState).run (outsideLock ++ revokedBySerial) = some p ∧
      p.run (renewingSteps ⟨1, 0⟩ 6) = some q ∧ p.shared.listed sampleCert = [5] ∧
      ∃ j c, ∃ k : c.Ans → Prog Result, q.thread ⟨1, 0⟩ = .running j (.call c k) ∧ ¬c.Mints := by
  have hrun : ((Pool.initial leafState).run (outsideLock ++ revokedBySerial)).map (fun p =>
      (p.shared.listed sampleCert,
        (p.run (renewingSteps ⟨1, 0⟩ 6)).map fun q => lookingUp q ⟨1, 0⟩)) =
      some ([5], some (some sampleLeaf)) := by decide +kernel
  obtain ⟨p, hp, hv⟩ := Option.map_eq_some_iff.mp hrun
  obtain ⟨hlisted, hv⟩ := Prod.mk.inj hv
  obtain ⟨q, hq, hlook⟩ := Option.map_eq_some_iff.mp hv
  obtain ⟨j, hj, k, hth⟩ := exists_of_lookingUp hlook
  refine ⟨p, q, hp, hq, hlisted, j, .getMemory, k, hth, ?_⟩
  have hcontends : ∀ t j, .start t j ∈ (outsideLock ++ revokedBySerial) ++ renewingSteps ⟨1, 0⟩ 6 →
      j.op.Contends sampleLeaf := by
    simp only [outsideLock, revokedBySerial, renewingSteps, List.mem_append, List.mem_cons,
      List.mem_replicate, List.not_mem_nil, or_false]
    rintro t j (((⟨⟨⟩⟩ | ⟨-, ⟨⟩⟩) | (⟨⟨⟩⟩ | ⟨-, ⟨⟩⟩) | ⟨⟨⟩⟩) | ⟨-, ⟨⟩⟩)
    · exact .about (by rintro c ⟨⟩; rfl)
    · exact .revokeSerial _ _
  exact revoked_serial_not_renewed leafState_ready hcontends hp hq
    (Pool.throughout_of_check orderly_of_check (by decide +kernel)) (by simp [hlisted, sampleLeaf])
    hth hj

end OpenvoxCa.Ca
