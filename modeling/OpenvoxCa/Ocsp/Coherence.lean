import OpenvoxCa.Ocsp.Replica

/-!
# The answers of a responder in every run

Answers are signed outside the lock, so between the decision and the cache write anything may
happen: a revocation, a prune, the CRL of another replica. The cache write decides again, and that
is enough for every moment of every run (`cached_answers_justified`): no cached `good` for a serial
the cached CRL revokes, no cached answer for a serial outside the index, and nothing may be reused
that is not in the cache.

For a cached `revoked` it is not quite enough. An installed CRL evicts what it newly revokes and
nothing else, so if it has lost a serial, because another replica has pruned the certificate, the
old answer stays until it expires or the serial leaves the index (`revoked_answer_outlives_entry`).
-/

namespace OpenvoxCa.Ocsp

open Ca (CA)

open Conc

variable {ca : CA} {t u : ℕ} {s s' : State} {c : Cmd} {ch : Choice}

/-! ### Steps -/

/-- An answer offered to the cache is a definite one, under the key of its serial and a hash that
evictions cover. -/
def rememberAllowed : Cmd → Prop
  | .remember key der _ => key.serial = serialHexStr der.serialNumber ∧
      ocspCacheableHash key.hash ∧ der.status ≠ .unknown
  | _ => True

theorem Cmd.Plain.rememberAllowed (h : c.Plain) : rememberAllowed c := by
  cases c <;> first | exact h.elim | trivial

/-- **Every command keeps the cache coherent.** -/
theorem coherent_exec {a : c.Ans} (h : Coherent s.memory s.overtaken) (hc : rememberAllowed c)
    (hex : exec t s c ch = some (a, s')) : Coherent s'.memory s'.overtaken := by
  cases exec_effect hex with
  | stored hm => exact h.remember hc.1 hc.2.1 hc.2.2 hm
  | reconcile => exact h.reconcile _ _ _
  | install => exact h.install _
  | evictOCSP => exact h.evictOCSP _
  | indexSerial => exact h.indexSerial _ _
  | unindexSerial => exact h.unindexSerial _
  | _ => exact h

/-- What a thread has touched is its own. -/
theorem touched_exec {a : c.Ans} (hne : u ≠ t) (hex : exec u s c ch = some (a, s')) :
    s'.touched t = s.touched t := by
  cases exec_effect hex with
  | look | declined | stored => exact Function.update_of_ne hne.symm _ _
  | _ => rfl

/-! ### The discipline -/

/-- Commands keep the cache coherent, as long as only proper answers are offered to it. -/
def coherence : Discipline machine Job where
  Inv := fun s => Coherent s.memory s.overtaken
  Allowed := fun _ _ c _ => rememberAllowed c
  inv_exec := fun hinv hall hex => coherent_exec hinv hall hex

/-- The request of a thread has found this answer in the cache, or stored it there. -/
def Touched (t : ℕ) (key : CacheKey) (der : Response) (s : State) : Prop :=
  s.touched t = some (key, der)

theorem touched_stable (key : CacheKey) (der : Response) :
    Stable coherence t (Touched t key der) := by
  rintro s s' hs ⟨u, hne, j, c, ch, a, -, -, hex⟩
  exact (touched_exec hne hex).trans hs

/-- **What an answer may be reused for**: nothing, unless it is in the cache. -/
def Reusable (t : ℕ) (req : Request) (r : Except Failure OCSPAnswer) (s : State) : Prop :=
  ∀ answer, r = .ok answer → 0 < answer.maxAge → Touched t req.cacheKey answer.der s

variable {j : Job} {req : Request}

/-- A command of which only the answer matters. -/
theorem cmd_spec {c : Cmd} {R : c.Ans → Prop} (hc : rememberAllowed c)
    (hR : ∀ s ch a s', exec t s c ch = some (a, s') → R a) :
    Triple coherence t j (fun _ => True) (cmd c) fun r _ => ∀ a, r = .ok a → R a := by
  refine Triple.call (R := fun a _ => R a) (Stable.const True) (fun _ _ _ => hc)
    (fun s ch a s' _ _ hex => hR s ch a s' hex) fun a => Triple.ret (Stable.const _) ?_
  rintro s - ha a' ⟨⟩
  exact ha

/-- The same, in the middle of a program that stops at its errors. -/
theorem ask_bind_spec {α β : Type} {p : Prog (Except Failure β)} {k : β → Prog α} {R : β → Prop}
    {Q : Except Failure α → State → Prop}
    (hp : Triple coherence t j (fun _ => True) p fun r _ => ∀ a, r = .ok a → ∀ b, a = .ok b → R b)
    (hfail : ∀ e s, Q (.error e) s)
    (hk : ∀ b, R b → Triple coherence t j (fun _ => True) (k b) Q) :
    Triple coherence t j (fun _ => True) ((ask p).bind k) Q := by
  refine Triple.bind (R := fun b _ => R b) ?_ fun b s hb => hk b hb s trivial
  refine hp.seq (fun e s _ => hfail e s) fun a => Triple.ofExcept (Stable.const _) ?_
  rintro s - ha
  cases a with
  | ok b => exact ha _ rfl b rfl
  | error e => exact hfail e s

/-- **The cache write**: the answer may be reused if it was stored. -/
theorem cacheAnswer_spec {der : Response} {now : Ca.Time}
    (hserial : der.serialNumber = req.serialNumber) :
    Triple coherence t j (fun _ => True) (cacheAnswer req der now) (Reusable t req) := by
  unfold cacheAnswer
  split
  · next hcache =>
    refine Triple.call (R := fun cached s => cached = true → Touched t req.cacheKey der s)
      (Stable.const True) (fun _ _ _ => ⟨?_, hcache.2.2, hcache.2.1⟩) ?_ fun cached => ?_
    · rw [hserial]
      rfl
    · intro s ch cached s' _ _ hex hcached
      simp only [exec] at hex
      split at hex
      · rw [Option.some.injEq] at hex
        unfold State.remember at hex
        split at hex <;> cases hex
        · cases hcached
        · exact Function.update_self _ _ _
      · cases hex
    · refine Triple.ret (fun s s' hs hrely hcached => touched_stable _ _ (hs hcached) hrely) ?_
      rintro s - hs answer ⟨⟩ hpos
      cases cached with
      | true => exact hs rfl
      | false => exact absurd hpos (lt_irrefl _)
  · refine Triple.ret (Stable.const True) ?_
    rintro s - - answer ⟨⟩ hpos
    exact absurd hpos (lt_irrefl _)

theorem signAnswer_spec (known : Bool) (crl : Option Ca.RevocationList) :
    Triple coherence t j (fun _ => True) (signAnswer req known crl) (Reusable t req) := by
  have hfail : ∀ e s, Reusable t req (.error e) s := by
    rintro e s answer ⟨⟩
  have hcheck : ∀ c : Cmd, rememberAllowed c →
      Triple coherence t j (fun _ => True) (cmd c) fun r _ => ∀ a, r = .ok a → True :=
    fun c hc => cmd_spec (R := fun _ => True) hc fun _ _ _ _ _ => trivial
  refine ((hcheck .now trivial).weaken fun _ _ _ _ => trivial).seq
    (fun e s _ => hfail e s) fun now =>
    ?_
  cases hstatus : decideOCSPStatus crl req.serialNumber known with
  | error e => exact Triple.fail (Stable.const True) fun s _ _ => hfail e s
  | ok status =>
    refine ask_bind_spec (R := fun _ => True)
      ((hcheck .checkContext trivial).weaken fun _ _ _ _ _ _ _ _ => trivial)
      hfail fun _ _ => ?_
    refine ask_bind_spec (R := fun _ => True)
      ((hcheck .acquireSigningSlotOrShed trivial).weaken
        fun _ _ _ _ _ _ _ _ => trivial) hfail fun _ _ => ?_
    refine ask_bind_spec (R := fun der => der.serialNumber = req.serialNumber)
      (cmd_spec (c := .createResponse (req.template status now)) trivial ?_) hfail
        fun der hserial => cacheAnswer_spec hserial
    -- What is signed is the template, so it is about the serial asked for.
    rintro s ch a s' hex der rfl
    simp only [exec, Option.some.injEq, Prod.mk.injEq] at hex
    unfold answer at hex
    split at hex
    · cases hex.1
    · obtain rfl : _ = der := Except.ok.inj hex.1
      rfl

/-- **A request**: its answer may be reused only if it was found in the cache or stored there. -/
theorem answerOCSP_spec (reqDER : Option Request) :
    Triple coherence t j (fun _ => True) (answerOCSP ca reqDER)
      fun r s => ∀ req, reqDER = some req → Reusable t req r s := by
  unfold answerOCSP
  split
  · exact Triple.fail (Stable.const True) fun _ _ _ req hreq => nomatch hreq
  · next req =>
    split
    · refine Triple.fail (Stable.const True) ?_
      rintro s - - req' - answer ⟨⟩
    · refine Triple.call (R := fun seen s => ∀ entry left, seen = .hit entry left →
        Touched t req.cacheKey entry.der s) (Stable.const True) (fun _ _ _ => trivial) ?_
        fun seen => ?_
      · rintro s ch seen s' - - hex entry left rfl
        simp only [exec] at hex
        split at hex
        · rw [Option.some.injEq, Prod.mk.injEq] at hex
          rw [← hex.2, hex.1]
          exact Function.update_self _ _ _
        · cases hex
      · cases seen with
        | hit entry left =>
          refine Triple.ret (fun s s' hs hrely e l h => touched_stable _ _ (hs e l h) hrely) ?_
          rintro s - hs req' ⟨⟩ answer ⟨⟩ -
          exact hs entry left rfl
        | miss known crl =>
          refine (signAnswer_spec known crl).conseq (fun _ _ => trivial) ?_
          rintro r s - hr req' ⟨⟩
          exact hr

/-! ### Runs -/

/-- What a job promises about what it returns. -/
def ReusableResult (t : ℕ) (j : Job) (r : Except Failure Result) (s : State) : Prop :=
  ∀ req answer, j = .answerOCSP (some req) → r = .ok (.answer answer) → 0 < answer.maxAge →
    Touched t req.cacheKey answer.der s

/-- Jobs that answer no request offer nothing to the cache. -/
theorem program_rememberAllowed (ca : CA) {j : Job} (hj : ∀ reqDER, j ≠ .answerOCSP reqDER) :
    (program ca j).Only rememberAllowed := by
  cases j with
  | answerOCSP reqDER => exact absurd rfl (hj reqDER)
  | syncSerialIndex =>
    exact Conc.Prog.only_bind (Conc.Prog.only_bind (only_cmd trivial) fun _ =>
      Conc.Prog.only_bind (only_ask (only_cmd trivial)) fun _ => only_cmd trivial) fun _ => trivial
  | _ => exact Conc.Prog.always_imp (program_plain ca trivial) fun c hc => hc.rememberAllowed

theorem answerJob_spec (reqDER : Option Request) :
    Triple coherence t (.answerOCSP reqDER) (fun _ => True) (program ca (.answerOCSP reqDER))
      fun r s => True ∧ ReusableResult t (.answerOCSP reqDER) r s := by
  refine ((answerOCSP_spec reqDER).strengthen fun _ _ => trivial).seq
    (fun _ _ _ => ⟨trivial, by rintro req answer - ⟨⟩⟩) fun answer => ?_
  refine Triple.ret (fun s s' hs hrely req hreq a ha hpos =>
    touched_stable _ _ (hs req hreq a ha hpos) hrely) fun s _ hs => ⟨trivial, ?_⟩
  rintro req a ⟨⟩ ⟨⟩ hpos
  exact hs req rfl answer rfl hpos

theorem otherJob_spec {j : Job} (hj : ∀ reqDER, j ≠ .answerOCSP reqDER) :
    Triple coherence t j (fun _ => True) (program ca j) fun r s =>
    True ∧ ReusableResult t j r s := by
  refine (Triple.of_always (Stable.const True) (fun c hc _ _ _ => hc)
    (fun _ _ _ _ _ _ _ _ => trivial) (program_rememberAllowed ca hj)).conseq (fun _ _ => trivial) ?_
  intro r s _ _
  exact ⟨trivial, fun req _ hreq => absurd hreq (hj _)⟩

/-- The outline of a replica, as far as its answers are concerned. -/
def coherenceOutline (ca : CA) : Outline machine (workload ca) where
  toDiscipline := coherence
  Menu := fun _ => True
  Idle := fun _ _ _ => True
  Post := ReusableResult
  idle_stable := fun _ _ => Stable.const True
  job := by
    intro t j rs _
    by_cases hj : ∃ reqDER, j = .answerOCSP reqDER
    · obtain ⟨reqDER, rfl⟩ := hj
      exact answerJob_spec reqDER
    · exact otherJob_spec fun reqDER hreq => hj ⟨reqDER, hreq⟩

/-- Nothing has been answered yet. -/
structure State.Starting (s : State) : Prop where
  cache : s.memory.ocspCache = ∅
  overtaken : s.overtaken = []

theorem State.Starting.sound (hs : s.Starting) : (coherenceOutline ca).Sound (Pool.initial s) := by
  refine (coherenceOutline ca).sound_initial (fun key entry hentry => ?_) fun _ => trivial
  rw [hs.cache, AList.lookup_empty] at hentry
  cases hentry

/-- **At every moment of every run**, the cache holds no answer `good` for a serial that the cached
CRL revokes, no answer for a serial outside the index, and no answer `revoked` for a serial that the
cached CRL does not revoke, unless a CRL installed since the answer was stored has dropped it. And
an answer about to be returned with a positive maximal age is one that its request has found in the
cache or stored there. -/
theorem cached_answers_justified (hs : s.Starting) {ls : List (Event ca)} {q : Replica ca}
    (hrun : (Pool.initial s : Replica ca).run ls = some q) :
    (∀ key entry, q.shared.memory.ocspCache.lookup key = some entry →
      (entry.der.status = .good → ¬q.shared.memory.Revokes entry.der.serialNumber) ∧
      (∀ time, entry.der.status = .revoked time →
        q.shared.memory.Revokes entry.der.serialNumber ∨ key ∈ q.shared.overtaken) ∧
      serialHexStr entry.der.serialNumber ∈ q.shared.memory.serialIndex) ∧
    ∀ t req answer, q.thread t = .running (.answerOCSP (some req)) (.ret (.answer answer)) →
      0 < answer.maxAge → q.shared.touched t = some (req.cacheKey, answer.der) := by
  obtain ⟨hsound, -⟩ := hs.sound.run (coherenceOutline ca) (fun _ _ _ => trivial) hrun
  refine ⟨fun key entry hentry => ?_, fun t req answer ht hpos => ?_⟩
  · have hj := hsound.1 key entry hentry
    exact ⟨hj.good, hj.revoked, hj.serial ▸ hj.known⟩
  · exact hsound.post (coherenceOutline ca) (r := .ok (.answer answer)) ht req answer rfl rfl hpos

/-! ### A run -/

def replicaCA : CA where
  caCert :=
    { serialNumber := 1
      subject := { commonName := ['c', 'a'] }
      notAfter := 1000000
      publicKey := { id := 1 }
      signedBy := { id := 1 }
      maySignCRLs := true }

def replicaCRL (number : ℤ) (entries : List Ca.RevocationEntry) : Ca.RevocationList :=
  replicaCA.crlTemplate number entries 0

/-- Serial 5 has been issued, and revoked since. -/
def replicaState : State where
  memory :=
    { cachedCRL := some (replicaCRL 1 [{ serialNumber := 5, revocationTime := 10 }])
      serialIndex := AList.singleton ['5'] ['n'] }
  inventory := [{ serial := ['5'], notBefore := some 0, notAfter := some 100, subject := ['n'] }]
  crl := some (replicaCRL 1 [{ serialNumber := 5, revocationTime := 10 }])

theorem replicaState_starting : replicaState.Starting := ⟨rfl, rfl⟩

/-- A request about serial 5. -/
def replicaRequest : Request :=
  { serialNumber := 5
    hashAlgorithm := .sha256
    issuerName := replicaCA.caCert.subject
    issuerKey := replicaCA.caCert.publicKey }

/-- Thread `t` runs a job of so many commands, up to its report. -/
def stepsOf (t : ℕ) (j : Job) (steps : ℕ) : List (Event replicaCA) :=
  .start t j :: List.replicate steps (.step t {})

/-- The request is answered, and the answer cached. -/
def answered : List (Event replicaCA) := stepsOf 0 (.answerOCSP (some replicaRequest)) 6

/-- What the cache says about serial 5, and whether the cached CRL revokes it. -/
def aboutFive (q : Replica replicaCA) : Option Status × Option Bool :=
  ((q.shared.memory.ocspCache.lookup ⟨['5'], .sha256⟩).map fun entry => entry.der.status,
    q.shared.memory.cachedCRL.map fun crl => Ca.serialInCRL crl 5)

theorem cached_answers_justified_sample : ∃ q : Replica replicaCA,
    (Pool.initial replicaState).run answered = some q ∧
      ∃ entry, q.shared.memory.ocspCache.lookup ⟨['5'], .sha256⟩ = some entry ∧
        entry.der.status = .revoked 10 ∧
        serialHexStr entry.der.serialNumber ∈ q.shared.memory.serialIndex := by
  have hseen : ((Pool.initial replicaState : Replica replicaCA).run answered).map aboutFive =
      some (some (.revoked 10), some true) := by
    decide +kernel
  obtain ⟨q, hq, habout⟩ := Option.map_eq_some_iff.mp hseen
  obtain ⟨entry, hentry, hstatus⟩ := Option.map_eq_some_iff.mp (congrArg Prod.fst habout)
  exact ⟨q, hq, entry, hentry, hstatus,
    ((cached_answers_justified replicaState_starting hq).1 _ _ hentry).2.2⟩

/-- **A cached `revoked` outlives the entry it was computed from**: after the answer about serial 5,
another replica stores a CRL without it, and this replica installs that one. -/
theorem revoked_answer_outlives_entry : ∃ q : Replica replicaCA,
    (Pool.initial replicaState).run (answered ++ .finish 0 ::
      (stepsOf 1 (.peerUpdateCRL (replicaCRL 2 [])) 1 ++ stepsOf 2 .syncCRLCache 5)) = some q ∧
      ∃ entry, q.shared.memory.ocspCache.lookup ⟨['5'], .sha256⟩ = some entry ∧
        entry.der.status = .revoked 10 ∧
        ¬q.shared.memory.Revokes 5 := by
  have hrun : ((Pool.initial replicaState : Replica replicaCA).run (answered ++ .finish 0 ::
      (stepsOf 1 (.peerUpdateCRL (replicaCRL 2 [])) 1 ++ stepsOf 2 .syncCRLCache 5))).map
      aboutFive = some (some (.revoked 10), some false) := by
    decide +kernel
  obtain ⟨q, hq, habout⟩ := Option.map_eq_some_iff.mp hrun
  obtain ⟨entry, hentry, hstatus⟩ := Option.map_eq_some_iff.mp (congrArg Prod.fst habout)
  obtain ⟨crl, hcrl, hfive⟩ := Option.map_eq_some_iff.mp (congrArg Prod.snd habout)
  refine ⟨q, hq, entry, hentry, hstatus, ?_⟩
  rintro ⟨crl', hcrl', hmem⟩
  obtain rfl : crl = crl' := Option.some.inj (hcrl.symm.trans hcrl')
  rw [← Ca.serialInCRL_iff, hfive] at hmem
  cases hmem

end OpenvoxCa.Ocsp
