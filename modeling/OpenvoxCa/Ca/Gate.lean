import OpenvoxCa.Ca.Mutex
import OpenvoxCa.Ca.ServingSpecs

/-!
# The gate of a renewal

Before it issues anything, a renewal asks whether the certificate it was presented with is
revoked or superseded. It asks twice, before it takes the lock of the subject and under it,
and it asks a cached list and a stored one, which are not read at the same moment. This file
says what makes the second answer right.

* The **chain** and the **list** are not written by anybody else while a thread holds the lock
  of the subject; so for a renewal holding the lock both stand still
  (`Settled.stable`). Where all operations are about that subject this is because
  they write under its lock only.
* The **cache** of a replica holds the stored own CRL or an older one
  (`GateInv`). Once it holds the stored one it goes on to, because a replica
  never replaces an own list by one that is not newer.

`gateDuty` asks this of every command, and asks of those that issue something that the presented
serial is neither listed nor pending at that very moment. It comes on top of what the CRL lock asks
(`crlAllowed`), and it is about a cluster that can read its CRL (`execReading`): where it cannot, a
renewal goes by the cached list.

What the proofs use of the discipline is `GateRules`, so that they serve wherever the chain stands
still under the lock of the subject, for whichever reason.
-/

namespace OpenvoxCa.Ca

open Conc

variable {cert : Certificate} {sub : Text} {t u : Tid} {j : Job} {s s' : State}

/-! ### A cluster that can read its CRL -/

/-- Execution, where reading the CRL does not fail. -/
def execReading (t : Tid) (s : State) : (c : Cmd) → Choice → Option (c.Ans × State)
  | .getCRL, ch => if ch.fails then none else exec t s .getCRL ch
  | c, ch => exec t s c ch

/-- **The machine of a cluster that can read its CRL.** -/
abbrev readingMachine : Machine interface := machine.withExec execReading

/-- It can do nothing new. -/
theorem exec_of_reading {c : Cmd} {ch : Choice} {r : c.Ans × State}
    (h : readingMachine.exec t s c ch = some r) : exec t s c ch = some r := by
  cases c with
  | getCRL =>
    simp only [execReading] at h
    split at h
    · cases h
    · exact h
  | _ => exact h

/-! ### Older lists -/

/-- `crl` is `own`, or older. -/
def Behind (own crl : RevocationList) : Prop := crl = own ∨ newerCRL own crl = true

theorem newerCRL_trans {a b c : RevocationList} (hab : newerCRL a b = true)
    (hbc : newerCRL b c = true) : newerCRL a c = true :=
  newerCRL_iff.mpr ((newerCRL_iff.mp hbc).trans (newerCRL_iff.mp hab))

variable {own crl : RevocationList}

theorem Behind.trans {next : RevocationList} (h : Behind own crl) (hnext : newerCRL next own = true)
    : Behind next crl := by
  rcases h with rfl | h
  · exact Or.inr hnext
  · exact Or.inr (newerCRL_trans hnext h)

theorem Behind.not_newer (h : Behind own crl) : newerCRL crl own = false := by
  rw [Bool.eq_false_iff, Ne, newerCRL_iff, not_lt]
  rcases h with rfl | h
  · exact le_rfl
  · exact (newerCRL_iff.mp h).le

/-- The list that follows `own` is newer. -/
theorem newerCRL_of_next (h : crl.number = some (nextNumber own)) : newerCRL crl own = true := by
  unfold newerCRL nextNumber at *
  rw [h]
  cases own.number <;> simp

/-! ### Reading the chain -/

/-- The stored chain decodes, and `own` is its newest own list to all readers. -/
structure Reads (cert : Certificate) (own : RevocationList) (b : Option Blob) : Prop where
  select : b.bind (selectOwnCRL cert) = some (some own)
  stored : b.bind (storedOwn cert) = some own

variable {b : Option Blob}

theorem Reads.unique {own' : RevocationList} (h : Reads cert own b) (h' : Reads cert own' b) :
    own = own' :=
  Option.some.inj (h.stored.symm.trans h'.stored)

theorem Reads.signed (h : Reads cert own b) : crlSignedBy cert own = true := by
  obtain ⟨blob, -, hown⟩ := Option.bind_eq_some_iff.mp h.stored
  exact (ownCRLIn_mem hown).2

theorem Reads.listedIn (h : Reads cert own b) : listedIn cert b = own.serials := by
  rw [Ca.listedIn, h.stored]
  rfl

/-- A chain as the writers write it. -/
theorem reads_encode {chain : List RevocationList} (hown : crlSignedBy cert crl = true)
    (hrest : ∀ c ∈ chain, crlSignedBy cert c = false) :
    Reads cert crl (some (encodeCRLChain (crl :: chain))) := by
  refine ⟨?_, storedOwn_encode hown hrest⟩
  simp [selectOwnCRL, ownCRLIn_cons_foreign_tail hown hrest]

/-- A chain led by a list of ours. -/
theorem exists_reads {chain : List RevocationList} (hown : crlSignedBy cert crl = true) :
    ∃ own, Reads cert own (some (encodeCRLChain (crl :: chain))) := by
  have hdec := decodeCRLChain_encodeCRLChain (crl :: chain)
  have hstored : storedOwn cert (encodeCRLChain (crl :: chain)) = ownCRLIn (crl :: chain) cert :=
    storedOwn_eq_ownCRLIn hdec (by simp [encodeCRLChain])
  have hsome : ownCRLIn (crl :: chain) cert = some _ := ownCRLIn_cons_own hown
  refine ⟨_, ?_, hstored.trans hsome⟩
  simp [selectOwnCRL, hsome]

theorem Amends.reads {pruned : List ℤ} {old : Option Blob} {b : Blob} (h : Amends cert pruned old b)
    (hold : Reads cert own old) : ∃ crl, Reads cert crl (some b) ∧ newerCRL crl own = true := by
  obtain ⟨blob, own', crl, anc, rfl, hown, rfl, hcrl, hanc, hnum, -, -⟩ := h
  obtain rfl : own' = own := Option.some.inj (hown.symm.trans hold.stored)
  exact ⟨crl, reads_encode hcrl hanc, newerCRL_of_next hnum⟩

/-! ### The invariant -/

/-- Every own list that a memory caches is `own`, or older. -/
def CacheBehind (cert : Certificate) (own : RevocationList) (m : Memory) : Prop :=
  ∀ c, m.cachedCRL = some c → crlSignedBy cert c = true → Behind own c

/-- **The chain can be read, and no replica's cache is ahead of it.** -/
structure GateInv (cert : Certificate) (s : State) : Prop where
  history : HistoryOk s
  chain : ∃ own, Reads cert own s.crl ∧ ∀ r, CacheBehind cert own (s.memory r)

theorem GateInv.cache (h : GateInv cert s) (hown : Reads cert own s.crl) (r : Replica) :
    CacheBehind cert own (s.memory r) := by
  obtain ⟨own', hown', hcache⟩ := h.chain
  rw [hown.unique hown']
  exact hcache r

/-! ### Signing and installing a list -/

/-- What the holder of the subject's lock knows: the chain and the list. -/
structure Settled (t : Tid) (ns : List LockName) (b : Option Blob) (l : Option SupersededBlob)
    (s : State) : Prop where
  held : Held t ns s
  crl : s.crl = b
  superseded : s.superseded = l

theorem aboutCRL_settled {ns : List LockName} {l : Option SupersededBlob} :
    AboutCRL (Settled t ns b l) :=
  fun s s' h hs => ⟨aboutCRL_held _ s s' h hs.held, h.crl.trans hs.crl,
    h.superseded.trans hs.superseded⟩

section Signer

variable {J : Type} {exec' : Tid → State → (c : Cmd) → Choice → Option (c.Ans × State)}
  {D : Discipline (machine.withExec exec') J} {i : J} {ca : CA} {ns : List LockName}

/-- **What it takes of a discipline to sign a list and install it** under the locks `ns`, the CRL
lock among them: the chain and the list stand still, this CA may sign lists, and nothing more is
asked for a calm command and for writing the chain. -/
structure SignerRules (D : Discipline (machine.withExec exec') J) (t : Tid) (i : J)
    (cert : Certificate) (ns : List LockName) : Prop extends LockRules D t i where
  calm : ∀ {c s}, c.Calm → D.Duty t i c s
  signs : ∀ {s}, D.Inv s → ∃ own, crlSignedBy cert own = true
  update : ∀ b s, D.Inv s → Held t ns s → D.Duty t i (.updateCRL b) s
  settled : ∀ b l, Stable D t (Settled t ns b l)

theorem SignerRules.calm_spec {α : Type} {p : Prog α} {R : Except Failure α → Prop} [MutexRules D]
    (h : SignerRules D t i cert ns) (hp : p.Always Cmd.Calm R) :
    Triple D t i (fun s => Locked t s ∧ Held t ns s) p fun r s =>
      R r ∧ Locked t s ∧ Held t ns s := by
  refine Triple.of_always (Locked.stable.and (h.held_stable ns)) (fun _ hc _ _ _ => h.calm hc) ?_ hp
  rintro c hc s ch a s' ⟨hlocked, hheld⟩ he
  cases exec_effect (h.exec he) with
  | lock | unlock | lockMutex | unlockMutex => exact hc.elim
  | _ => exact ⟨hlocked, hheld⟩

/-- **`signCRLLocked` installs the list that it has stored**: when it does, that list leads the
stored chain. -/
theorem signCRLLocked_installs [MutexRules D] (h : SignerRules D t i ca.caCert ns)
    {stored : StoredCRL} {revoked : List RevocationEntry}
    (hinstall : ∀ crl anc l, crlSignedBy ca.caCert crl = true →
      (∀ c ∈ anc, crlSignedBy ca.caCert c = false) →
      Keeps D t i (fun s => Locked t s ∧ Settled t ns (some (encodeCRLChain (crl :: anc))) l s)
        (modifyMemory fun m => m.install crl)) :
    Keeps D t i (fun s => Locked t s ∧ Held t ns s) (signCRLLocked ca stored revoked) := by
  have hbusy : Stable D t fun s => Locked t s ∧ Held t ns s :=
    Locked.stable.and (h.held_stable ns)
  refine Keeps.bind ((h.calm_spec (only_cmd (c := .now) trivial)).weaken
    fun _ _ _ hs => hs.2) fun now => ?_
  refine h.createRevocationList_bind hbusy (fun _ => h.calm trivial) (fun _ _ hs => hs)
    fun crl _ _ hsigned => ?_
  refine (h.calm_spec (always_calm (crlChainLocked_always ca crl stored.blob))).seq
    (fun _ _ hs => hs.2) fun chain => Triple.pure_pre fun hchain => ?_
  obtain ⟨anc, rfl, hanc⟩ := hchain chain rfl
  refine Triple.bind (R := fun _ s => crlSignedBy ca.caCert crl = true ∧ ∃ l, Locked t s ∧
    Settled t ns (some (encodeCRLChain (crl :: anc))) l s) ?_ fun _ => Triple.pure_pre fun hown =>
    Triple.exists_pre fun l => (hinstall crl anc l hown hanc).weaken
      fun _ _ _ hs => ⟨hs.1, hs.2.held⟩
  refine Triple.call (R := fun a s => match a with
    | .ok _ => crlSignedBy ca.caCert crl = true ∧ ∃ l, Locked t s ∧
        Settled t ns (some (encodeCRLChain (crl :: anc))) l s
    | .error _ => Locked t s ∧ Held t ns s) hbusy
    (fun s hinv hs => h.update _ s hinv hs.2) ?_ fun a => ?_
  · rintro s ch a s' hinv ⟨hlocked, hheld⟩ he
    have he := Option.some.inj (h.exec he)
    unfold writeOutcome at he
    split at he <;> obtain ⟨rfl, rfl⟩ := Prod.mk.inj he
    · exact ⟨hlocked, hheld⟩
    · -- Some list is ours, so what our key signs is ours too.
      obtain ⟨own, hmay⟩ := h.signs hinv
      simp only [crlSignedBy, Bool.and_eq_true] at hmay
      exact ⟨by simp [crlSignedBy, hmay.1, hsigned, CA.crlTemplate], s.superseded, hlocked,
        hheld, rfl, rfl⟩
  · cases a with
    | ok _ =>
      exact Triple.ret ((Stable.const _).and (Stable.exists fun l => Locked.stable.and
        (h.settled _ l))) fun s _ hs => hs
    | error e => exact Triple.fail hbusy fun s _ hs => hs

end Signer

/-! ### The duties -/

/-- The certificate that a renewal is presented with. -/
def Op.presented : Op → Option Certificate
  | .renew _ _ presented => presented
  | .autoRenew presented => presented
  | _ => none

/-- The operations about the subject `sub`: its renewals, its revocations by subject, and,
because it is about no subject at all, the update of the cache. -/
def Op.About (sub : Text) : Op → Prop
  | .renew subject _ _ => subject = sub
  | .autoRenew presented => ∀ c ∈ presented, c.subject.commonName = sub
  | .revoke subject => subject = sub
  | .clean subject => subject = sub
  | .syncCRLCache => True
  | _ => False

/-- The commands that sign a certificate, store one, or append to the inventory. -/
def Cmd.Mints : Cmd → Prop
  | .createCertificate _ => True
  | .saveCert _ _ => True
  | .appendInventory _ => True
  | _ => False

/-- What the holder of the mutex may make of the memory, where `own` is the stored own CRL. -/
structure MemoryOk (cert : Certificate) (own : RevocationList) (old new : Memory) : Prop where
  behind : CacheBehind cert own new
  keeps : old.cachedCRL = some own → new.cachedCRL = some own

/-- Neither the stored own CRL nor the list of superseded certificates has the certificate
that the job presents. -/
def Admissible (cert : Certificate) (j : Job) (s : State) : Prop :=
  ∀ c, j.op.presented = some c → ¬Kept cert c.serialNumber s

/-- **What a command is asked besides respecting the CRL lock.** -/
def gateDuty (cert : Certificate) (sub : Text) (t : Tid) (j : Job) : Cmd → State → Prop
  | .unlockMutex, s => s.mutex t.replica = some t
  | .setMemory m, s => s.mutex t.replica = some t ∧
      ∀ own, Reads cert own s.crl → MemoryOk cert own (s.memory t.replica) m
  | .updateCRL _, s => s.owner (.subject sub) = some t
  | .saveSuperseded _, s => s.owner (.subject sub) = some t
  | .pruneInventory _, _ => False
  | .createCertificate _, s => Admissible cert j s
  | .saveCert _ _, s => Admissible cert j s
  | .appendInventory _, s => Admissible cert j s
  | _, _ => True

/-- What a command of somebody does to what the gate is about, as the others see it: it leaves
the memory of a replica to the holder of its mutex, and the chain and the list to the holder of
the subject's lock, if there is one. -/
def gateStep (cert : Certificate) (sub : Text) (t : Tid) : Cmd → State → Prop
  | .unlockMutex, s => s.mutex t.replica = some t
  | .setMemory m, s => s.mutex t.replica = some t ∧
      ∀ own, Reads cert own s.crl → MemoryOk cert own (s.memory t.replica) m
  | .updateCRL _, s => ∀ u, s.owner (.subject sub) = some u → u = t
  | .saveSuperseded _, s => ∀ u, s.owner (.subject sub) = some u → u = t
  | _, _ => True

/-- **Steps that respect the CRL lock and the gate keep the invariant.** -/
theorem GateInv.step {c : Cmd} (h : GateInv cert s) (hcrl : crlAllowed cert t j c s)
    (hgate : gateStep cert sub t c s) (heff : Effect t s c s') : GateInv cert s' := by
  refine ⟨h.history.effect heff, ?_⟩
  obtain ⟨own, hown, hcache⟩ := h.chain
  cases heff with
  | updateCRL =>
    obtain ⟨crl, hcrl', hnewer⟩ := hcrl.2.reads hown
    exact ⟨crl, hcrl', fun r c hc hsigned => (hcache r c hc hsigned).trans hnewer⟩
  | setMemory =>
    refine ⟨own, hown, fun r => ?_⟩
    rcases eq_or_ne r t.replica with rfl | hne
    · simpa using (hgate.2 own hown).behind
    · simpa [Function.update_of_ne hne] using hcache r
  | _ => exact ⟨own, hown, hcache⟩

/-- Who holds the lock of the subject is the only one to hold it. -/
theorem gateStep_of_gateDuty {c : Cmd} (h : gateDuty cert sub t j c s) :
    gateStep cert sub t c s := by
  cases c with
  | unlockMutex | setMemory => exact h
  | updateCRL | saveSuperseded => exact fun v hv => Option.some.inj (hv.symm.trans h)
  | _ => trivial

def gateDiscipline (cert : Certificate) (sub : Text) : Discipline readingMachine Job where
  Inv := GateInv cert
  Allowed := fun t j c s => crlAllowed cert t j c s ∧ gateDuty cert sub t j c s
  Duty := gateDuty cert sub
  inv_exec := fun hinv hall hex =>
    hinv.step hall.1 (gateStep_of_gateDuty hall.2) (exec_effect (exec_of_reading hex))

/-- **What the proofs about the gate use of a discipline.** Its machine can read the CRL, and may be
one that can do less; a step of the others is as `gateStep` says, and prunes nothing; and no more is
asked of a thread than `gateDuty`. -/
class GateRules {exec' : Tid → State → (c : Cmd) → Choice → Option (c.Ans × State)}
    (D : Discipline (machine.withExec exec') Job) (cert : outParam Certificate)
    (sub : outParam Text) : Prop where
  exec_of : ∀ {t s c ch r}, exec' t s c ch = some r → exec t s c ch = some r
  reads : ∀ {t s ch r}, exec' t s .getCRL ch = some r → ch.fails = false
  inv : ∀ {s}, D.Inv s → GateInv cert s
  allowed : ∀ {u i c s}, D.Inv s → D.Allowed u i c s → crlAllowed cert u i c s
  step : ∀ {u i c s ch r}, D.Inv s → D.Allowed u i c s → exec' u s c ch = some r →
    gateStep cert sub u c s
  duty : ∀ {t j c s}, gateDuty cert sub t j c s → D.Duty t j c s
  unpruned : ∀ {u i removals s}, ¬D.Allowed u i (.pruneInventory removals) s

export GateRules (exec_of)

instance : GateRules (gateDiscipline cert sub) cert sub where
  exec_of := fun h => exec_of_reading h
  reads := by
    intro t s ch r h
    simp only [execReading] at h
    split at h
    · cases h
    · next hfails => simpa using hfails
  inv := id
  allowed := fun _ h => h.1
  step := fun _ h _ => gateStep_of_gateDuty h.2
  duty := id
  unpruned := fun h => h.2

section Rules

variable {exec' : Tid → State → (c : Cmd) → Choice → Option (c.Ans × State)}
  {D : Discipline (machine.withExec exec') Job}

theorem gate_lockRules [GateRules D cert sub] : LockRules D t j where
  exec := fun h => exec_of (D := D) h
  allowed := fun hinv h => lockAllowed_of_crlAllowed (GateRules.allowed hinv h)
  lock := GateRules.duty trivial
  unlock := fun _ => GateRules.duty trivial

instance (priority := low) [GateRules D cert sub] : MutexRules D where
  exec_of := fun h => exec_of (D := D) h
  allowed := by
    intro u i c s ch r hinv hall hex
    have hgate : gateStep cert sub u c s := GateRules.step hinv hall hex
    cases c with
    | unlockMutex => exact hgate
    | setMemory m => exact hgate.1
    | _ => trivial
  lockMutex := GateRules.duty trivial
  unlockMutex := fun h => GateRules.duty h
  getMemory := GateRules.duty trivial

theorem Cmd.Calm.gateDuty {c : Cmd} (h : c.Calm) : gateDuty cert sub t j c s := by
  cases c <;> first | exact h.elim | trivial

/-- **One command**, where the duties are those of the gate. -/
theorem gate_call [GateRules D cert sub] {α : Type} {c : Cmd} {k : c.Ans → Prog α}
    {P : State → Prop} {Q : Except Failure α → State → Prop} (hst : Stable D t P)
    {R : c.Ans → State → Prop}
    (hduty : ∀ s, GateInv cert s → P s → Ca.gateDuty cert sub t j c s)
    (hex : ∀ s ch a s', GateInv cert s → P s → exec t s c ch = some (a, s') → R a s')
    (hk : ∀ a, Triple D t j (R a) (k a) Q) : Triple D t j P (.call c k) Q :=
  Triple.call hst (fun s hinv hs => GateRules.duty (hduty s (GateRules.inv hinv) hs))
    (fun s ch a s' hinv hs he => hex s ch a s' (GateRules.inv hinv) hs (exec_of (D := D) he)) hk

/-! ### What stays true -/

/-- A step of the others, with its effect. -/
theorem effect_of_rely [GateRules D cert sub] (h : Rely D t s s') :
    ∃ u ≠ t, ∃ j c, GateInv cert s ∧ crlAllowed cert u j c s ∧ gateStep cert sub u c s ∧
      Effect u s c s' := by
  obtain ⟨u, hne, j, c, ch, a, hinv, hall, hex⟩ := h
  exact ⟨u, hne, j, c, GateRules.inv hinv, GateRules.allowed hinv hall,
    GateRules.step hinv hall hex, exec_effect (exec_of (D := D) hex)⟩

/-- **Under the lock of the subject, the chain and the list stand still**, and so they do under
the CRL lock. -/
theorem Settled.stable [GateRules D cert sub] {ns : List LockName} {l : Option SupersededBlob}
    (hns : .subject sub ∈ ns ∨ .crl ∈ ns) : Stable D t (Settled t ns b l) := by
  intro s s' hs hrely
  have hheld : Held t ns s' :=
    (gate_lockRules (j := { op := .syncCRLCache })).held_stable ns hs.held hrely
  obtain ⟨u, hne, j, c, -, hcrl, hgate, heff⟩ := effect_of_rely hrely
  have hwrite : s.owner .crl = some u →
      (∀ v, s.owner (.subject sub) = some v → v = u) → False := by
    intro hcrl hgate
    rcases hns with hns | hns
    · exact hne (hgate t ((hs.held _).mpr hns)).symm
    · exact hne (Option.some.inj (hcrl.symm.trans ((hs.held _).mpr hns)))
  cases heff with
  | updateCRL | saveSuperseded => exact (hwrite hcrl.1 hgate).elim
  | _ => exact ⟨hheld, hs.crl, hs.superseded⟩

/-- A list that was read stays the stored own CRL or becomes an older one. -/
theorem behind_stable [GateRules D cert sub] : Stable D t fun s =>
    ∃ own, Reads cert own s.crl ∧ Behind own crl := by
  rintro s s' ⟨own, hown, hbehind⟩ hrely
  obtain ⟨u, hne, j, c, -, hcrl, -, heff⟩ := effect_of_rely hrely
  cases heff with
  | updateCRL =>
    obtain ⟨next, hnext, hnewer⟩ := hcrl.2.reads hown
    exact ⟨next, hnext, hbehind.trans hnewer⟩
  | _ => exact ⟨own, hown, hbehind⟩

/-- The assertion `A` determines the chain and the list. -/
def Pinned (A : State → Prop) (b : Option Blob) (l : Option SupersededBlob) : Prop :=
  ∀ s, A s → s.crl = b ∧ s.superseded = l

/-- Where `A` determines the chain, the replica has cached its own list. -/
def Synced (cert : Certificate) (A : State → Prop) (t : Tid) (s : State) : Prop :=
  ∀ own b l, Pinned A b l → Reads cert own b → (s.memory t.replica).cachedCRL = some own

/-- **A cache that is up to date stays so**, as long as the chain stands still. -/
theorem Synced.stable [GateRules D cert sub] {A : State → Prop} (hst : Stable D t A) :
    Stable D t fun s => A s ∧ Synced cert A t s := by
  rintro s s' ⟨hA, hs⟩ hrely
  refine ⟨hst hA hrely, fun own b l hpin hown => ?_⟩
  have hcached := hs own b l hpin hown
  obtain ⟨u, hne, j, c, -, -, hgate, heff⟩ := effect_of_rely hrely
  cases heff with
  | setMemory =>
    rcases eq_or_ne t.replica u.replica with heq | hreplica
    · have hok := hgate.2 own ((hpin s hA).1 ▸ hown)
      rw [← heq] at hok ⊢
      simpa using hok.keeps hcached
    · exact (congrArg Memory.cachedCRL (Function.update_of_ne hreplica _ _)).trans hcached
  | _ => exact hcached

end Rules

end OpenvoxCa.Ca
