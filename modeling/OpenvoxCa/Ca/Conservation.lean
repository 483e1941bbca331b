import OpenvoxCa.Ca.ServingSpecs

/-!
# No revocation is lost

What holds in every run of a serving cluster – any number of replicas and threads, any operations of
`Op` in any interleaving, and any command failing – once every operation keeps to the discipline of
the CRL lock.

* `revocations_persist` – a serial on the stored own CRL stays there until a
  cleanup prunes an inventory entry bearing it, CRL numbers only grow, and no serial
  comes to be listed twice;
* `superseded_persist` – a recorded serial is on the list of superseded
  certificates or on the CRL ever after, with the same proviso, and the list only ever
  changes by a recording, by a revocation of a subject or by a sweep, each within its
  bounds.

The proviso is stated with the prune log. `s.pruneLog.drop s.holdStart` is what has been
pruned under the current hold of the CRL lock, so a serial that is listed in `p` and not in
`q` was pruned by a cleanup that was under way in `p` or began later.
-/

namespace OpenvoxCa.Ca

open Conc

variable {cert : Certificate}

/-! ### The discipline of a serving cluster -/

variable (cert) in
/-- **A serial that `t` wrote on the list** is on it while `t` holds the lock, and has not
been lost since. -/
def Recorded (t : Tid) (n : ℤ) (s : State) : Prop :=
  (s.owner .crl = some t ∧ Bears s.pending n) ∨ Conserved cert n (s.savedAt t) s

variable (cert) in
/-- What every thread wrote last has not been lost. -/
def RecordedOk (s : State) : Prop := ∀ t n, Bears (s.saved t) n → Recorded cert t n s

/-- The CRL lock changes hands. -/
theorem Recorded.setOwner_crl {t : Tid} {n : ℤ} {s : State} {o : Option Tid} (hinv : HistoryOk s)
    (h : Recorded cert t n s) : Recorded cert t n (s.setOwner .crl o) := by
  refine Or.inr ?_
  rcases h with ⟨-, hn⟩ | h
  · exact ⟨Or.inl (Or.inl hn), by simpa [State.setOwner] using hinv.2 t⟩
  · exact ⟨h.kept, by simpa [State.setOwner] using h.le_holdStart.trans hinv.1⟩

/-- Another lock changes hands. -/
theorem Recorded.setOwner_of_ne {t : Tid} {n : ℤ} {s : State} {m : LockName} {o : Option Tid}
    (hm : .crl ≠ m) (h : Recorded cert t n s) : Recorded cert t n (s.setOwner m o) := by
  rcases h with ⟨howner, hn⟩ | h
  · exact Or.inl ⟨(Function.update_of_ne hm _ _).trans howner, hn⟩
  · exact Or.inr ⟨h.kept, by simpa [State.setOwner, hm.symm] using h.le_holdStart⟩

/-- **No step that does its duty loses a recorded serial.** -/
theorem RecordedOk.amending {u : Tid} {s s' : State} (hs : RecordedOk cert s)
    (h : Amending cert u s s') : RecordedOk cert s' := by
  intro t n hn
  have hlast : s'.savedAt t = s.savedAt t → Conserved cert n (s.savedAt t) s →
      Recorded cert t n s' := fun heq hc => Or.inr (heq ▸ Conserved.amending hc h)
  have hset : ∀ m o, Recorded cert t n s → Recorded cert t n (s.setOwner m o) := by
    intro m o hr
    rcases eq_or_ne .crl m with rfl | hne
    · obtain ⟨-, -, -, -, hinv, -, -⟩ := h
      exact hr.setOwner_crl hinv
    · exact hr.setOwner_of_ne hne
  obtain ⟨j, c, ch, a, -, hall, hex⟩ := h
  cases exec_effect hex with
  | lock | unlock => exact hset _ _ (hs t n hn)
  | saveSuperseded =>
    rcases eq_or_ne t u with rfl | hne
    · exact Or.inl ⟨hall.1, by simpa [State.setSuperseded, State.pending, entriesOf] using hn⟩
    · have hold : Recorded cert t n s :=
        hs t n (by simpa [State.setSuperseded, Function.update_of_ne hne] using hn)
      refine hold.elim (fun hl => ?_) (hlast (Function.update_of_ne hne _ _))
      exact absurd (hl.1.symm.trans hall.1) (by simpa using hne)
  | _ =>
    rcases hs t n hn with hl | hc
    · exact Or.inl hl
    · exact hlast rfl hc

/-- **The discipline of a serving cluster.** -/
def servingDiscipline (cert : Certificate) : Discipline machine Job where
  Inv := fun s => HistoryOk s ∧ RecordedOk cert s
  Allowed := crlAllowed cert
  inv_exec := fun hinv hall hex => ⟨hinv.1.effect (exec_effect hex),
    hinv.2.amending ⟨_, _, _, _, hinv.1, hall, hex⟩⟩

theorem amending_of_moves {u : Tid} {s s' : State} (h : Moves (servingDiscipline cert) u s s') :
    Amending cert u s s' := by
  obtain ⟨j, c, ch, a, hinv, hall, hex⟩ := h
  exact ⟨j, c, ch, a, hinv.1, hall, hex⟩

theorem Held.stable_serving {t : Tid} (ns : List LockName) :
    Stable (servingDiscipline cert) t (Held t ns) :=
  Held.stable_of_allowed (fun h => h) (fun _ h => lockAllowed_of_crlAllowed h) ns

/-- **The proof outline of a serving cluster.** -/
def servingOutline (cert : Certificate) : Outline machine (serving cert) where
  toDiscipline := servingDiscipline cert
  Menu := fun _ => True
  Idle := fun t _ => Held t []
  Post := servingPost
  idle_stable := fun _ _ => Held.stable_serving []
  job := fun t j _ _ => by
    refine (operation_spec { toConfig := j.config, caCert := cert } t j).transfer
      (fun _ _ _ _ _ h => h) ?_ ?_ (fun _ _ _ h => h) (fun _ _ _ h => h.1)
    · exact fun s h => h.1
    · exact fun u i c s _ h => ⟨i, lockAllowed_of_crlAllowed h⟩

/-! ### What holds in every run -/

/-- Nobody holds a cluster lock, and the history is in order. -/
structure State.AtRest (s : State) : Prop where
  unlocked : s.Unlocked
  history : HistoryOk s
  saved : ∀ t, s.saved t = []

variable {s₀ : State} {p q : Cluster cert} {ls ls' : List (Event cert)}

/-- **Every state a run reaches is sound.** -/
theorem sound_of_run (h₀ : s₀.AtRest) (hp : (Pool.initial s₀).run ls = some p) :
    (servingOutline cert).Sound p := by
  have hrec : RecordedOk cert s₀ := by
    rintro t n ⟨e, he, -⟩
    simp [h₀.saved t] at he
  have hinit : (servingOutline cert).Sound (Pool.initial s₀) :=
    Outline.sound_initial _ ⟨h₀.history, hrec⟩ fun t n => by simp [h₀.unlocked n]
  exact (hinit.run _ (fun _ _ _ => trivial) hp).1

/-- **What every step that does its duty keeps, every run keeps.** -/
theorem keep_of_run {P : State → Prop} (hs : (servingOutline cert).Sound p)
    (hq : p.run ls' = some q) (hstep : ∀ u s s', Amending cert u s s' → P s → P s')
    (hp : P p.shared) : P q.shared :=
  AnyMoves.star (fun u s s' h => hstep u s s' (amending_of_moves h))
    (hs.run _ (fun _ _ _ => trivial) hq).2 hp

theorem listed_nodup_of_amending {u : Tid} {s s' : State} (h : Amending cert u s s')
    (hs : (s.listed cert).Nodup) : (s'.listed cert).Nodup := by
  obtain ⟨j, c, ch, a, -, hall, hex⟩ := h
  cases exec_effect hex with
  | updateCRL => exact hall.2.nodup hs
  | _ => exact hs

/-- **No revocation is ever lost.** In every state `p` that a cluster reaches:
whatever is on the stored own CRL is still there in every later state `q`, unless an
inventory entry bearing it has been pruned; a thread about to write the chain writes an
own CRL whose number exceeds that of every own CRL in the chain it replaces; and nothing
is listed twice, if nothing was at first. -/
theorem revocations_persist (h₀ : s₀.AtRest) (hp : (Pool.initial s₀).run ls = some p) :
    (∀ ls' q, p.run ls' = some q → ∀ n ∈ p.shared.listed cert,
      n ∈ q.shared.listed cert ∨ n ∈ q.shared.pruneLog.drop p.shared.holdStart) ∧
    (∀ t j b k, p.thread t = .running j (.call (.updateCRL b) k) →
      ∃ blob crl number, p.shared.crl = some blob ∧ storedOwn cert b = some crl ∧
        crl.number = some number ∧ ∀ c ∈ candidates blob, crlSignedBy cert c = true →
          ∀ m, c.number = some m → m < number) ∧
    ((s₀.listed cert).Nodup → (p.shared.listed cert).Nodup) := by
  have hsound := sound_of_run h₀ hp
  refine ⟨fun ls' q hq n hn => ?_, fun t j b k ht => ?_, fun hnodup => ?_⟩
  · have hstart : UntilPruned (fun s => n ∈ s.listed cert) n p.shared.holdStart p.shared :=
      ⟨Or.inl hn, le_rfl⟩
    exact (keep_of_run hsound hq (fun u s s' h hs => UntilPruned.amending hs h
      (mem_listed_of_amending h)) hstart).kept
  · obtain ⟨-, hamend⟩ := hsound.allowed _ ht
    exact hamend.number_lt
  · have hinit : (servingOutline cert).Sound (Pool.initial s₀) := sound_of_run h₀ (Pool.run_nil _)
    exact keep_of_run hinit hp (fun u s s' h => listed_nodup_of_amending h) hnodup

/-! A small cluster to try things out on: one certificate, an empty list, and one
issued serial. -/

/-- The certificate of the sample cluster. -/
def sampleCert : Certificate :=
  { serialNumber := 1
    subject := { commonName := ['c', 'a'] }
    notAfter := 2000000000
    publicKey := { id := 0 }
    signedBy := { id := 0 }
    isCA := true
    maySignCertificates := true
    maySignCRLs := true }

def sampleCRL : RevocationList :=
  { number := some 1
    entries := []
    thisUpdate := 0
    nextUpdate := 1000
    issuer := sampleCert.subject
    signedBy := sampleCert.publicKey }

/-- Its storage: the list, and the certificate `05` of the node `n`. -/
def sampleState : State :=
  { crl := some (encodeCRLChain [sampleCRL])
    inventory :=
      [{ serial := ['0', '5'], notBefore := some 0, notAfter := some 100, subject := ['n'] }] }

/-- The certificate `05` of the node `n`. -/
def sampleLeaf : Certificate :=
  { serialNumber := 5
    subject := { commonName := ['n'] }
    notAfter := 100
    publicKey := { id := 7 }
    signedBy := sampleCert.publicKey }

theorem sampleState_atRest : sampleState.AtRest :=
  ⟨fun _ => rfl, ⟨le_rfl, fun _ => le_rfl⟩, fun _ => rfl⟩

/-- The serial of the certificate stored for a subject. -/
def storedSerial (s : State) (subject : Text) : Option ℤ :=
  ((s.certs subject).bind CertBlob.parsed).map Certificate.serialNumber

/-- One thread runs one operation for a number of steps in which nothing fails. -/
def runOf (cert : Certificate) (op : Op) (steps : ℕ) : List (Event cert) :=
  .start ⟨0, 0⟩ { op := op } :: List.replicate steps (.step ⟨0, 0⟩ {})

/-- The node is revoked, and stays so. -/
theorem revocations_persist_sample : ∃ p : Cluster sampleCert,
    (Pool.initial sampleState).run (runOf sampleCert (.revoke ['n']) 17) = some p ∧
      p.shared.listed sampleCert = [5] ∧ ∀ ls' q, p.run ls' = some q →
        5 ∈ q.shared.listed sampleCert ∨ 5 ∈ q.shared.pruneLog.drop p.shared.holdStart := by
  have hrun : ((Pool.initial sampleState).run (runOf sampleCert (.revoke ['n']) 17)).map
      (fun p => p.shared.listed sampleCert) = some [5] := by decide +kernel
  obtain ⟨p, hp, hlisted⟩ := Option.map_eq_some_iff.mp hrun
  refine ⟨p, hp, hlisted, fun ls' q hq => ?_⟩
  exact (revocations_persist sampleState_atRest hp).1 ls' q hq 5 (by simp [hlisted])

/-- **No recorded serial is ever lost.** In every state `p` that a cluster reaches: the
serial of a recording that is about to report its success is, in every later state, on the
list or on the stored own CRL, unless pruned since it was written; so is every serial that
is on either in `p`; and the next event leaves the list alone or is a step of the holder of the
CRL lock, and makes of the list what the operation of that thread may – a recording appends its
serial, due as long after its reading of the clock as it was told, a revocation by subject leaves
other subjects' entries alone, a sweep leaves alone what is not due by its reading of the clock and
splits what is due into revoked, kept and discarded, discarding no hexadecimal number. -/
theorem superseded_persist (h₀ : s₀.AtRest) (hp : (Pool.initial s₀).run ls = some p) :
    (∀ t j subject serial after, p.thread t = .running j (.ret .done) →
      j.op = .recordSuperseded subject serial after →
      ∃ n, normaliseSerial serial = some (serialHexStr n) ∧ ∀ ls' q, p.run ls' = some q →
        Bears q.shared.pending n ∨ n ∈ q.shared.listed cert ∨
          n ∈ q.shared.pruneLog.drop (p.shared.savedAt t)) ∧
    (∀ ls' q, p.run ls' = some q → ∀ n, Bears p.shared.pending n ∨ n ∈ p.shared.listed cert →
      Bears q.shared.pending n ∨ n ∈ q.shared.listed cert ∨
        n ∈ q.shared.pruneLog.drop p.shared.holdStart) ∧
    (∀ l q, p.next l = some q → q.shared.pending = p.shared.pending ∨
      ∃ j rest, p.thread l.tid = .running j rest ∧ p.shared.owner .crl = some l.tid ∧
        ListDuty cert l.tid j.op p.shared q.shared.pending) := by
  have hsound := sound_of_run h₀ hp
  have hlast : ∀ ls' q, p.run ls' = some q → ∀ n k, Conserved cert n k p.shared →
      Bears q.shared.pending n ∨ n ∈ q.shared.listed cert ∨ n ∈ q.shared.pruneLog.drop k := by
    intro ls' q hq n k hn
    have hend := keep_of_run hsound hq (fun u s s' h hs => Conserved.amending hs h) hn
    exact or_assoc.mp hend.kept
  refine ⟨fun t j subject serial after ht hop => ?_, fun ls' q hq n hn => ?_, fun l q hq => ?_⟩
  · have hpost := hsound.post _ (r := .ok .done) ht
    simp only [servingOutline, servingPost, hop] at hpost
    obtain ⟨n, hserial, hn⟩ := hpost trivial
    -- The thread has released the lock, so what it wrote has been conserved since.
    have hidle := hsound.2 t
    rw [ht] at hidle
    have hheld : Held t [] p.shared := (hidle p.shared .refl hsound.1).1
    have hcons := (hsound.1.2 t n hn).resolve_left fun h => by simpa using (hheld _).mp h.1
    exact ⟨n, hserial, fun ls' q hq => hlast ls' q hq n _ hcons⟩
  · exact hlast ls' q hq n _ ⟨Or.inl hn, le_rfl⟩
  · obtain ⟨t, j, -, -, rfl⟩ | ⟨t, ch, j, c, k, a, s, rfl, ht, hex, rfl⟩ | ⟨t, j, r, -, -, rfl⟩ :=
      Pool.next_cases hq
    · exact Or.inl rfl
    · have hall := hsound.allowed _ ht
      cases exec_effect hex with
      | saveSuperseded => exact Or.inr ⟨j, _, ht, hall.1, hall.2⟩
      | _ => exact Or.inl rfl
    · exact Or.inl rfl

/-- The node's certificate is recorded as superseded, and is not forgotten. -/
theorem superseded_persist_sample : ∃ p : Cluster sampleCert,
    (Pool.initial sampleState).run
      (runOf sampleCert (.recordSuperseded ['n'] ['0', '5'] 60) 5) = some p ∧
      p.shared.pending = [{ serial := serialHexStr 5, subject := ['n'], revokeAt := 60 }] ∧
      ∀ ls' q, p.run ls' = some q → Bears q.shared.pending 5 ∨ 5 ∈ q.shared.listed sampleCert ∨
        5 ∈ q.shared.pruneLog.drop p.shared.holdStart := by
  have hrun : ((Pool.initial sampleState).run (runOf sampleCert
      (.recordSuperseded ['n'] ['0', '5'] 60) 5)).map (fun p => p.shared.pending) =
      some [{ serial := serialHexStr 5, subject := ['n'], revokeAt := 60 }] := by decide +kernel
  obtain ⟨p, hp, hpending⟩ := Option.map_eq_some_iff.mp hrun
  refine ⟨p, hp, hpending, fun ls' q hq => ?_⟩
  have hbears : Bears p.shared.pending 5 := by
    rw [hpending]
    exact ⟨_, List.mem_singleton.mpr rfl, by decide +kernel⟩
  exact (superseded_persist sampleState_atRest hp).2.1 ls' q hq 5 (Or.inl hbears)

end OpenvoxCa.Ca
