import OpenvoxCa.Ca.Renewal
import OpenvoxCa.Ca.RequestSpecs

/-!
# The cached CRL never goes back

Four programs install a list in a replica's cache: `signCRLLocked` the one it has just stored,
`RefreshCRLIfDue` the one it finds under the CRL lock, `loadCRLCache` the one it finds while it
holds the mutex, and `SyncCRLCache` one that it read before it took the mutex, and which may be
of any age by then. They order lists by different tests, and nothing makes them take turns.

What carries all four is that the cache is never *ahead*: every list a replica caches was the stored
own CRL at some time, and the stored own CRL is that list or a newer one (`Seen`). Lists only become
older, so a list that was read stays seen however long it is held on to; and a list that is stored
now is not older than any cached one, whichever test it is put to. `cacheDuty` asks of every write
of a memory that it installs a list that was seen, and one that the cached list is not newer than
(`Advances`).

`refused_ever_after` is what follows for every run.
-/

namespace OpenvoxCa.Ca

open Conc

variable {ca : CA} {cert : Certificate} {t u : Tid} {j : TaskJob} {ns : List LockName}
  {s s' : State} {α : Type}

/-! ### The stored own CRL -/

/-- `own` is the own CRL of the chain `b`, it has a number, and the chain begins with a CRL
block. -/
structure Published (cert : Certificate) (own : RevocationList) (b : Option Blob) : Prop where
  stored : b.bind (storedOwn cert) = some own
  leads : ∀ blob ∈ b, ∀ block ∈ blob.head?, block.isCRL = true
  numbered : own.number.isSome

namespace Published

variable {own : RevocationList} {b : Option Blob}

theorem unique {own' : RevocationList} (h : Published cert own b) (h' : Published cert own' b) :
    own = own' :=
  Option.some.inj (h.stored.symm.trans h'.stored)

theorem signed (h : Published cert own b) : crlSignedBy cert own = true := by
  obtain ⟨blob, -, hown⟩ := Option.bind_eq_some_iff.mp h.stored
  exact (ownCRLIn_mem hown).2

theorem exists_blob (h : Published cert own b) : ∃ blob, b = some blob ∧
    storedOwn cert blob = some own ∧ ∀ block ∈ blob.head?, block.isCRL = true := by
  obtain ⟨blob, hb, hown⟩ := Option.bind_eq_some_iff.mp h.stored
  exact ⟨blob, hb, hown, h.leads blob hb⟩

/-- What `SyncCRLCache` takes from the chain. -/
theorem select {ours : RevocationList} {blob : Blob} (h : Published cert own (some blob))
    (hours : selectOwnCRL cert blob = some (some ours)) : ours = own := by
  obtain ⟨chain, hdec, hchain⟩ := Option.map_eq_some_iff.mp hours
  have hown : storedOwn cert blob = ownCRLIn chain cert :=
    storedOwn_eq_ownCRLIn hdec (h.leads blob rfl)
  exact Option.some.inj (hchain.symm.trans (hown.symm.trans h.stored))

/-- What `loadCRLCache` takes from it. -/
theorem loaded {crl : RevocationList} {blob : Blob} (h : Published cert own (some blob))
    (hcrl : loadedCRL cert blob = .ok crl) : crl = own := by
  have hstored : ownCRLIn (candidates blob) cert = some own := h.stored
  unfold loadedCRL at hcrl
  cases hhead : blob.head?.bind PemBlock.crl with
  | none => simp [hhead] at hcrl
  | some lead =>
    cases hdec : decodeCRLChain blob with
    | none =>
      -- Block 0 is all there is to choose from.
      obtain rfl : lead = crl := by simpa [hhead, hdec] using hcrl
      have hcand : candidates blob = [lead] := by simp [candidates, hhead, hdec]
      rw [hcand] at hstored
      exact (List.mem_singleton.mp (ownCRLIn_mem hstored).1).symm
    | some chain =>
      have hown : ownCRLIn chain cert = some own :=
        (storedOwn_eq_ownCRLIn hdec (h.leads blob rfl)).symm.trans h.stored
      simp only [hhead, hdec, hown, Except.ok.injEq] at hcrl
      split at hcrl
      · exact hcrl.symm
      · next hnot =>
        -- The newest list of ours is the first of the chain, which is block 0.
        obtain ⟨block, hblock, hlead⟩ := Option.bind_eq_some_iff.mp hhead
        obtain ⟨rest, rfl⟩ : ∃ rest, chain = lead :: rest := by
          cases blob with
          | nil => simp at hblock
          | cons first blocks =>
            obtain rfl : first = block := by simpa using hblock
            exact decodeCRLChain_cons hdec (h.leads _ rfl first rfl) hlead
        have hfirst : (lead :: rest).idxOf own = 0 := by
          by_contra hne
          exact hnot (Or.inl (Nat.pos_of_ne_zero hne))
        rw [← hcrl]
        by_contra hne
        simp [hne] at hfirst

theorem of_amends {pruned : List ℤ} {old : Option Blob} {blob : Blob} (h : Published cert own old)
    (hamend : Amends cert pruned old blob) :
    ∃ next, Published cert next (some blob) ∧ newerCRL next own = true := by
  obtain ⟨_, own', crl, anc, rfl, hown, rfl, hcrl, hanc, hnum, -, -⟩ := hamend
  obtain rfl : own' = own := Option.some.inj (hown.symm.trans h.stored)
  refine ⟨crl, ⟨storedOwn_encode hcrl hanc, ?_, by simp [hnum]⟩, newerCRL_of_next hnum⟩
  rintro _ ⟨⟩ block hblock
  obtain rfl : (⟨true, some crl⟩ : PemBlock) = block := by simpa [encodeCRLChain] using hblock
  rfl

end Published

/-! ### Lists that were stored -/

/-- `b` is the stored chain, or was once. -/
def Chained (b : Blob) (s : State) : Prop := s.crl = some b ∨ b ∈ s.formerCRLs

theorem Chained.effect {b : Blob} {c : Cmd} (h : Chained b s) (he : Effect t s c s') :
    Chained b s' := by
  cases he with
  | updateCRL =>
    refine Or.inr (List.mem_append.mpr ?_)
    exact h.imp_left fun hb => by simp [hb]
  | _ => exact h

/-- **A list that was stored**: it was the own CRL of some chain, and the stored own CRL is that
list or a newer one. -/
structure Seen (cert : Certificate) (c : RevocationList) (s : State) : Prop where
  was : ∃ b, Chained b s ∧ Published cert c (some b)
  behind : ∃ own, Published cert own s.crl ∧ Behind own c

theorem Published.seen {own : RevocationList} (h : Published cert own s.crl) : Seen cert own s := by
  obtain ⟨blob, hblob, -⟩ := h.exists_blob
  exact ⟨⟨blob, Or.inl hblob, hblob ▸ h⟩, own, h, Or.inl rfl⟩

theorem Seen.signed {c : RevocationList} (h : Seen cert c s) : crlSignedBy cert c = true :=
  h.was.elim fun _ hb => hb.2.signed

theorem Seen.numbered {c : RevocationList} (h : Seen cert c s) : c.number.isSome :=
  h.was.elim fun _ hb => hb.2.numbered

theorem Seen.behind_own {c own : RevocationList} (h : Seen cert c s)
    (hown : Published cert own s.crl) : Behind own c := by
  obtain ⟨own', hown', hbehind⟩ := h.behind
  rwa [hown.unique hown']

/-- **What was stored stays seen.** -/
theorem Seen.effect {c : RevocationList} {cmd : Cmd} {i : Job} (h : Seen cert c s)
    (hall : crlAllowed cert u i cmd s) (he : Effect u s cmd s') : Seen cert c s' := by
  obtain ⟨⟨b, hb, hpub⟩, own, hown, hbehind⟩ := h
  refine ⟨⟨b, hb.effect he, hpub⟩, ?_⟩
  cases he with
  | updateCRL =>
    obtain ⟨next, hnext, hnewer⟩ := hown.of_amends hall.2
    exact ⟨next, hnext, hbehind.trans hnewer⟩
  | _ => exact ⟨own, hown, hbehind⟩

/-! ### The duty -/

/-- What the holder of the mutex may make of the memory: the cached list was stored at some
time, and the one cached before is that list or an older one. -/
structure Advances (cert : Certificate) (s : State) (old new : Memory) : Prop where
  seen : ∀ c, new.cachedCRL = some c → Seen cert c s
  forward : ∀ c, old.cachedCRL = some c → ∃ c', new.cachedCRL = some c' ∧ Behind c' c

/-- **What a command is asked besides respecting the CRL lock.** -/
def cacheDuty (cert : Certificate) (t : Tid) : Cmd → State → Prop
  | .unlockMutex, s => Locked t s
  | .setMemory m, s => Locked t s ∧ Advances cert s (s.memory t.replica) m
  | _, _ => True

/-- **The stored chain has a numbered own CRL, and no cache is ahead of it.** -/
structure CacheInv (cert : Certificate) (s : State) : Prop where
  history : HistoryOk s
  chain : ∃ own, Published cert own s.crl
  cache : ∀ r c, (s.memory r).cachedCRL = some c → Seen cert c s

theorem CacheInv.step {c : Cmd} {i : Job} (h : CacheInv cert s) (hall : crlAllowed cert u i c s)
    (hduty : cacheDuty cert u c s) (he : Effect u s c s') : CacheInv cert s' := by
  have hseen : ∀ r crl, (s.memory r).cachedCRL = some crl → Seen cert crl s' :=
    fun r crl hc => (h.cache r crl hc).effect hall he
  obtain ⟨own, hown⟩ := h.chain
  refine ⟨h.history.effect he, ?_, ?_⟩
  · obtain ⟨own', hown', -⟩ := (hown.seen.effect hall he).behind
    exact ⟨own', hown'⟩
  · intro r crl hc
    cases he with
    | setMemory =>
      rcases eq_or_ne r u.replica with rfl | hne
      · exact (hduty.2.seen crl (by simpa using hc)).effect hall .setMemory
      · exact hseen r crl (by simpa [Function.update_of_ne hne] using hc)
    | _ => exact hseen r crl hc

def cacheDiscipline (cert : Certificate) : Discipline machine TaskJob where
  Inv := CacheInv cert
  Allowed := fun t j c s => crlAllowed cert t j.job c s ∧ cacheDuty cert t c s
  Duty := fun t _ => cacheDuty cert t
  inv_exec := fun hinv hall hex => hinv.step hall.1 hall.2 (exec_effect hex)

theorem cache_lockRules : LockRules (cacheDiscipline cert) t j where
  exec := fun h => h
  allowed := fun _ h => lockAllowed_of_crlAllowed h.1
  lock := trivial
  unlock := fun _ => trivial

instance : MutexRules (cacheDiscipline cert) where
  exec_of := fun h => h
  allowed := by
    rintro u i c s ch r - ⟨-, hduty⟩ -
    cases c with
    | unlockMutex => exact hduty
    | setMemory m => exact hduty.1
    | _ => trivial
  lockMutex := trivial
  unlockMutex := fun h => h
  getMemory := trivial

theorem Seen.stable {c : RevocationList} : Stable (cacheDiscipline cert) t (Seen cert c) := by
  rintro s s' hs ⟨u, -, i, cmd, ch, a, -, hall, hex⟩
  exact hs.effect hall.1 (exec_effect hex)

theorem held_stable_cache : Stable (cacheDiscipline cert) t (Held t ns) :=
  (cache_lockRules (j := { task := .deleteRequest [] })).held_stable ns

theorem busy_stable_cache : Stable (cacheDiscipline cert) t (Busy t ns) :=
  Locked.stable.and held_stable_cache

/-- **Under the CRL lock the chain stands still.** -/
theorem settled_stable_cache {b : Option Blob} {l : Option SupersededBlob} (hns : .crl ∈ ns) :
    Stable (cacheDiscipline cert) t (Settled t ns b l) := by
  intro s s' hs hrely
  have hheld : Held t ns s' := held_stable_cache hs.held hrely
  obtain ⟨u, hne, i, c, ch, a, -, hall, hex⟩ := hrely
  have hwrite : s.owner .crl ≠ some u := by
    rw [(hs.held _).mpr hns]
    simpa using hne.symm
  cases exec_effect hex with
  | updateCRL | saveSuperseded => exact absurd hall.1.1 hwrite
  | _ => exact ⟨hheld, hs.crl, hs.superseded⟩

/-! ### The four installers -/

variable {r : Replica}

/-- Memory changes that leave the cached list alone. -/
theorem Advances.of_same {m m' : Memory} (h : CacheInv cert s) (hm : s.memory r = m)
    (heq : m'.cachedCRL = m.cachedCRL) : Advances cert s m m' := by
  subst hm
  refine ⟨fun c hc => h.cache r c (heq.symm.trans hc), fun c hc => ⟨c, heq.trans hc, Or.inl rfl⟩⟩

/-- Installing a list that was stored, and that no cached list is newer than. -/
theorem Advances.install {m : Memory} {own : RevocationList} (hown : Seen cert own s)
    (hm : ∀ c, m.cachedCRL = some c → Behind own c) : Advances cert s m (m.install own) := by
  refine ⟨fun c hc => ?_, fun c hc => ⟨own, cachedCRL_install m own, hm c hc⟩⟩
  rw [cachedCRL_install] at hc
  exact Option.some.inj hc ▸ hown

/-- `SyncCRLCache` goes by `newerCRL`. -/
theorem Advances.sync {ours : RevocationList} (h : CacheInv ca.caCert s)
    (hours : Seen ca.caCert ours s) :
    Advances ca.caCert s (s.memory r) (syncMemory ca ours (s.memory r)) := by
  have hsame : Advances ca.caCert s (s.memory r) (s.memory r) := .of_same h rfl rfl
  unfold syncMemory
  split
  · next hnone => exact .install hours (by simp [hnone])
  · next cached hcached =>
    split
    · exact hsame
    · split
      · exact hsame
      · next hnot =>
        refine .install hours fun c hc => ?_
        obtain rfl := Option.some.inj (hcached.symm.trans hc)
        simpa [CA.ownsCRL, (h.cache r cached hcached).signed, Behind] using Or.inr hnot

/-- `RefreshCRLIfDue` goes by the numbers. -/
theorem Advances.adopt {own : RevocationList} (h : CacheInv cert s) (hown : Seen cert own s) :
    Advances cert s (s.memory r) (adoptCRL (s.memory r) own) := by
  have hsame : Advances cert s (s.memory r) (s.memory r) := .of_same h rfl rfl
  unfold adoptCRL
  split
  · next n cached hn hcached =>
    split
    · next hlt =>
      refine .install hown fun c hc => Or.inr ?_
      have hnumber : c.number = some cached := by simpa [hc] using hcached
      simp [newerCRL, hn, hnumber, hlt]
    · exact hsame
  · next n hn hnone =>
    -- A cached list has a number, so there is none.
    refine .install hown fun c hc => ?_
    have hnumbered := (h.cache r c hc).numbered
    simp_all
  · exact hsame

/-- `GetCRL`, followed by anything: what is read is the stored own CRL, and stays one that was
stored, and what follows then from the two stays true of it. -/
theorem getCRL_seen_bind {β : Type} {P : State → Prop} {F : RevocationList → Prop}
    (hst : Stable (cacheDiscipline cert) t P) (hP : ∀ s, P s → P (s.noteRead t))
    (hF : ∀ s own, CacheInv cert s → P s → Published cert own s.crl → F own)
    {f : Blob → Prog β} {Q : Except Failure β → State → Prop} (herr : ∀ e s, P s → Q (.error e) s)
    (hf : ∀ blob own, Published cert own (some blob) → F own →
      Triple (cacheDiscipline cert) t j (fun s => P s ∧ Seen cert own s) (f blob) Q) :
    Triple (cacheDiscipline cert) t j P (getCRL.bind f) Q := by
  refine Triple.call (R := fun a s => match a with
    | .ok blob => ∃ own, (Published cert own (some blob) ∧ F own) ∧ P s ∧ Seen cert own s
    | .error _ => P s) hst (fun _ _ _ => trivial) ?_ fun a => ?_
  · intro s ch a s' hinv hs he
    cases he
    obtain ⟨own, hown⟩ := hinv.chain
    cases hr : readOutcome ch s.crl with
    | error e => exact hP s hs
    | ok blob =>
      exact ⟨own, ⟨readOutcome_eq_ok hr ▸ hown, hF s own hinv hs hown⟩, hP s hs, hown.seen.was,
        hown.seen.behind⟩
  · cases a with
    | error e => exact Triple.fail hst fun s _ hs => herr e s hs
    | ok blob =>
      exact Triple.exists_pre fun own => Triple.pure_pre fun hown => hf blob own hown.1 hown.2

theorem modifyMemory_cache {f : Memory → Memory} (hf : ∀ m, (f m).cachedCRL = m.cachedCRL) :
    Keeps (cacheDiscipline cert) t j (Busy t ns) (modifyMemory f) :=
  modifyMemory_triple held_stable_cache held_stable_cache
    (fun _ hinv hlocked _ => ⟨hlocked, .of_same hinv rfl (hf _)⟩) fun _ _ hs => hs

theorem signCRLLocked_cache (hns : .crl ∈ ns) {stored : StoredCRL}
    {revoked : List RevocationEntry} :
    Keeps (cacheDiscipline ca.caCert) t j (Busy t ns) (signCRLLocked ca stored revoked) := by
  have hsigner : SignerRules (cacheDiscipline ca.caCert) t j ca.caCert ns :=
    { cache_lockRules with
      calm := fun {c s} hc => by cases c <;> first | exact hc.elim | trivial
      signs := fun hinv => hinv.chain.imp fun _ hown => hown.signed
      update := fun _ _ _ _ => trivial
      settled := fun _ _ => settled_stable_cache hns }
  refine signCRLLocked_installs hsigner fun crl anc l hown hanc => modifyMemory_triple
    (hsigner.settled _ l) (hsigner.settled _ l) (fun s hinv hlocked hs => ⟨hlocked, ?_⟩)
    fun _ _ hs => ⟨hs.held, hs.crl, hs.superseded⟩
  obtain ⟨own, hpub⟩ := hinv.chain
  obtain rfl : crl = own := by
    have hstored := hpub.stored
    rw [hs.crl] at hstored
    exact Option.some.inj ((storedOwn_encode hown hanc).symm.trans hstored)
  exact .install hpub.seen fun c hc => (hinv.cache t.replica c hc).behind_own hpub

/-- `loadCRLCache`, under the mutex: no cached list is newer than what is stored, and while the
mutex is held the cached list does not change. -/
theorem loadCRLCache_cache :
    Keeps (cacheDiscipline ca.caCert) t j (Busy t ns) (loadCRLCache ca) := by
  refine Triple.conseq (P := fun s : State => ∃ m, (Locked t s ∧ s.memory t.replica = m) ∧
    Held t ns s) (Triple.exists_pre fun m => ?_) (fun s hs => ⟨_, ⟨hs.1, rfl⟩, hs.2⟩)
    fun _ _ _ hs => hs
  have hst : Stable (cacheDiscipline ca.caCert) t fun s =>
      (Locked t s ∧ s.memory t.replica = m) ∧ Held t ns s :=
    Locked.stable_memory.and held_stable_cache
  -- The cached list is compared with what is read, at the moment it is read.
  refine getCRL_seen_bind (F := fun own => ∀ c, m.cachedCRL = some c → Behind own c) hst
    (fun _ hs => hs) ?_ (fun _ _ hs => ⟨hs.1.1, hs.2⟩) fun blob own hown hm => ?_
  · rintro s own hinv ⟨⟨-, rfl⟩, -⟩ hown c hc
    exact (hinv.cache t.replica c hc).behind_own hown
  · cases hload : loadedCRL ca.caCert blob with
    | error e => exact Triple.fail (hst.and Seen.stable) fun s _ hs => ⟨hs.1.1.1, hs.1.2⟩
    | ok crl =>
      obtain rfl := hown.loaded hload
      refine (modifyMemory_triple (A := fun s => ((Locked t s ∧ s.memory t.replica = m) ∧
        Held t ns s) ∧ Seen ca.caCert crl s) (hst.and Seen.stable) held_stable_cache ?_
        fun _ _ hs => hs.1.2).strengthen fun s hs => ⟨hs.1.1.1, hs⟩
      rintro s - hlocked ⟨⟨⟨-, rfl⟩, -⟩, hseen⟩
      exact ⟨hlocked, .install hseen hm⟩

/-- `SyncCRLCache`: what it read may be old by the time it has the mutex. -/
theorem syncCRLCache_cache :
    Keeps (cacheDiscipline ca.caCert) t j (Held t ns) (syncCRLCache ca) := by
  refine getCRL_seen_bind (F := fun _ => True) held_stable_cache (fun _ hs => hs)
    (fun _ _ _ _ _ => trivial) (fun _ _ hs => hs) fun blob own hown _ => ?_
  have hst : Stable (cacheDiscipline ca.caCert) t fun s => Held t ns s ∧ Seen ca.caCert own s :=
    held_stable_cache.and Seen.stable
  refine withMutex_triple hst (fun s x hs => ⟨hs.1, hs.2.was, hs.2.behind⟩)
    (fun _ => held_stable_cache) (fun _ _ _ hs => hs) ?_
  split
  · exact Triple.fail (Locked.stable.and hst) fun s _ hs => ⟨hs.1, hs.2.1⟩
  · exact Triple.fail (Locked.stable.and hst) fun s _ hs => ⟨hs.1, hs.2.1⟩
  · next ours hours =>
    obtain rfl := hown.select hours
    refine getMemory_bind hst fun m => setMemory_triple (B := Held t ns) hst ?_
      (fun _ _ hs _ => hs.1) (Keeps.ret (Locked.stable.and held_stable_cache))
    rintro s hinv hlocked hs rfl
    exact ⟨hlocked, .sync hinv hs.2⟩

/-! ### Programs that leave the cache alone -/

/-- The commands that leave the locks, the mutexes and the memories alone. -/
def Cmd.Plain : Cmd → Prop
  | .lock _ => False
  | .unlock _ => False
  | .lockMutex => False
  | .unlockMutex => False
  | .setMemory _ => False
  | _ => True

theorem Cmd.Neutral.plain {c : Cmd} (h : c.Neutral) : c.Plain := by
  cases c <;> first | exact h.elim | trivial

/-- **A plain program** keeps what is known about locks. -/
theorem plain_keeps {P : State → Prop} (hst : Stable (cacheDiscipline cert) t P)
    (hP : ∀ s s', s'.owner = s.owner → s'.mutex = s.mutex → P s → P s') {p : Prog α}
    (hp : p.Only Cmd.Plain) : Keeps (cacheDiscipline cert) t j P p := by
  refine (Triple.of_always hst ?_ ?_ hp).weaken fun _ _ _ hs => hs.2
  · intro c hc s _ _
    cases c <;> first | exact hc.elim | trivial
  · intro c hc s ch a s' hs he
    cases exec_effect he with
    | lock | unlock | lockMutex | unlockMutex | setMemory => exact hc.elim
    | _ => exact hP s _ rfl rfl hs

theorem held_plain {p : Prog α} (hp : p.Only Cmd.Plain) :
    Keeps (cacheDiscipline cert) t j (Held t ns) p := by
  refine plain_keeps held_stable_cache (fun s s' howner _ hs n => ?_) hp
  rw [howner]
  exact hs n

theorem busy_plain {p : Prog α} (hp : p.Only Cmd.Plain) :
    Keeps (cacheDiscipline cert) t j (Busy t ns) p := by
  refine plain_keeps busy_stable_cache (fun s s' howner hmutex hs => ⟨?_, fun n => ?_⟩) hp
  · rw [Locked, hmutex]
    exact hs.1
  · rw [howner]
    exact hs.2 n

/-! ### Every task -/

/-- `RefreshCRLIfDue`: what it adopts is the stored own CRL. -/
theorem refreshCRLLocked_cache (hns : .crl ∈ ns) {refreshBefore : Duration} :
    Keeps (cacheDiscipline ca.caCert) t j (Busy t ns) (refreshCRLLocked ca refreshBefore) := by
  have hst : ∀ own, Stable (cacheDiscipline ca.caCert) t fun s =>
      Busy t ns s ∧ Seen ca.caCert own s := fun own => busy_stable_cache.and Seen.stable
  have hbusy : ∀ {β : Type} {own : RevocationList} {p : Prog β},
      Keeps (cacheDiscipline ca.caCert) t j (Busy t ns) p →
      Triple (cacheDiscipline ca.caCert) t j (fun s => Busy t ns s ∧ Seen ca.caCert own s) p
        fun _ s => Busy t ns s :=
    fun h => h.strengthen fun _ hs => hs.1
  unfold refreshCRLLocked readStoredCRL
  rw [Prog.bind_eq, Prog.bind_eq, Prog.bind_assoc]
  refine getCRL_seen_bind (F := fun _ => True) busy_stable_cache (fun _ hs => hs)
    (fun _ _ _ _ _ => trivial) (fun _ _ hs => hs) fun blob own hown _ => ?_
  cases hstored : parseStored ca.caCert blob with
  | error e => exact Triple.fail (hst own) fun s _ hs => hs.1
  | ok stored =>
    obtain rfl : stored.own = own :=
      Option.some.inj ((parseStored_eq_ok hstored).2.symm.trans hown.stored)
    refine Triple.call (R := fun _ s => Busy t ns s ∧ Seen ca.caCert stored.own s)
      (hst _) (fun _ _ _ => trivial) ?_ fun now => ?_
    · intro s ch a s' _ hs he
      cases he
      exact ⟨hs.1, hs.2.was, hs.2.behind⟩
    · simp only [Prog.ret_bind]
      split
      · exact ((modifyMemory_triple (A := fun s => Held t ns s ∧ Seen ca.caCert stored.own s)
          (held_stable_cache.and Seen.stable) held_stable_cache
          (fun s hinv hlocked hs => ⟨hlocked, .adopt hinv hs.2⟩) fun _ _ hs => hs.1).strengthen
          fun s hs => ⟨hs.1.1, hs.1.2, hs.2⟩).seq (fun _ _ hs => hs) fun _ =>
          Keeps.ret busy_stable_cache
      · exact hbusy (Keeps.bind (signCRLLocked_cache hns) fun _ => Keeps.ret busy_stable_cache)

theorem storeLocked_cache {subject : Text} {leaf : Certificate} {blob : CertBlob} :
    Keeps (cacheDiscipline cert) t j (Busy t ns) (storeLocked subject leaf blob) := by
  refine Keeps.bind (busy_plain (only_ask (only_cmd (c := .saveCert subject blob) trivial)))
    fun _ => Keeps.bind (busy_plain (only_cmd (c := .appendInventory _) trivial)) fun r => ?_
  cases r with
  | error e =>
    exact Keeps.bind (busy_plain (only_cmd (c := .deleteCert subject) trivial)) fun _ =>
      Keeps.fail busy_stable_cache
  | ok _ => exact modifyMemory_cache fun _ => rfl

/-- **The pieces of the operations bring the cache forward, never back.** -/
theorem serves_cache (ca : CA) (t : Tid) (j : TaskJob) : Serves ca fun ns b {_} p =>
    Keeps (cacheDiscipline ca.caCert) t j (Placed t ns b) p where
  closed := by
    rintro ns (_ | _)
    · exact Keeps.closed fun hp => held_plain (Prog.always_imp hp fun _ => Cmd.Neutral.plain)
    · exact Keeps.closed fun hp => busy_plain (Prog.always_imp hp fun _ => Cmd.Neutral.plain)
  withMutex := withMutex_triple held_stable_cache (fun _ _ hs => hs) (fun _ => held_stable_cache)
    (fun _ _ _ hs => hs)
  withSubject := fun _ => cache_lockRules.withLock_keeps (by simp)
  withCRL := fun hn => cache_lockRules.withLock_keeps hn
  sign := fun _ _ hns => signCRLLocked_cache hns
  refresh := fun _ hns => refreshCRLLocked_cache hns
  prune := fun _ _ => busy_plain (only_cmd trivial)
  save := by
    rintro ns (_ | _) blob -
    · exact held_plain (only_cmd trivial)
    · exact busy_plain (only_cmd trivial)
  modify := fun _ => modifyMemory_cache
  load := loadCRLCache_cache
  sync := syncCRLCache_cache
  create := fun _ => busy_plain (only_cmd trivial)
  store := fun _ _ => storeLocked_cache
  request := fun _ _ => busy_plain (only_cmd trivial)

/-! ### Every run -/

/-- **The proof outline of an issuing cluster**, as far as its caches go. -/
def cacheOutline (cert : Certificate) : Outline machine (issuing cert) where
  toDiscipline := (cacheDiscipline cert).withDuty
    (fun t j c s => crlAllowed cert t j.job c s ∧ cacheDuty cert t c s) fun _ _ _ _ => True
  Menu := fun _ => True
  Idle := fun t _ => Held t []
  Post := fun _ _ _ _ => True
  idle_stable := fun _ _ => held_stable_cache
  job := by
    intro t j rs _ s hs
    let ca : CA := { toConfig := j.config, caCert := cert }
    have hcrl : wp ((cacheDiscipline cert).withDuty (fun t j => crlAllowed cert t j.job)
        fun _ _ _ _ => True) t j (taskProgram ca j.task) (fun _ s => Held t [] s) s := by
      refine wp_transfer (M := machine) (D := writerDiscipline ca) ?_ ?_ ?_ ?_ ?_
        (task_spec ca t j s hs)
      · exact fun _ _ _ _ _ h => h
      · exact fun s h => h.history
      · exact fun u i c s _ h => ⟨i.job, lockAllowed_of_crlAllowed h.1⟩
      · exact fun _ _ _ h => h
      · exact fun _ _ _ h => h.1
    have hcache : wp ((cacheDiscipline cert).withDuty (fun t _ => cacheDuty cert t)
        fun t j => crlAllowed cert t j.job) t j (taskProgram ca j.task)
        (fun _ s => Held t [] s) s := by
      refine wp_transfer (M := machine) (D := cacheDiscipline cert) ?_ ?_ ?_ ?_ ?_
        ((serves_cache ca t j).task j.task s hs)
      · exact fun _ _ _ _ _ h => h
      · exact fun _ h => h
      · exact fun _ i _ _ _ h => ⟨i, h⟩
      · exact fun _ _ _ _ => trivial
      · exact fun _ _ _ h => h
    exact wp_mono (wp_and hcrl hcache) fun _ _ _ h => ⟨h.2, trivial⟩

/-- **A cluster to start from**: nobody holds a lock, the stored chain begins with a CRL block
and has a numbered own CRL, and a replica that has cached a list has cached that one. -/
structure State.Fresh (s : State) (cert : Certificate) : Prop where
  unlocked : s.Unlocked
  history : HistoryOk s
  former : s.formerCRLs = []
  chain : ∃ own, Published cert own s.crl
  cache : ∀ r c, (s.memory r).cachedCRL = some c → s.crl.bind (storedOwn cert) = some c

theorem State.Fresh.inv (h : s.Fresh cert) : CacheInv cert s := by
  obtain ⟨own, hown⟩ := h.chain
  refine ⟨h.history, ⟨own, hown⟩, fun r c hc => ?_⟩
  obtain rfl : own = c := Option.some.inj (hown.stored.symm.trans (h.cache r c hc))
  exact hown.seen

variable {p q : IssuingCluster cert} {ls ls' : List (IssuingEvent cert)}

theorem State.Fresh.sound (h : s.Fresh cert) :
    (cacheOutline cert).Sound (Pool.initial s) :=
  Outline.sound_initial _ h.inv fun t n => by simp [h.unlocked n]

theorem Behind.trans' {a b c : RevocationList} (hab : Behind a b) (hbc : Behind b c) :
    Behind a c := by
  rcases hab with rfl | hab
  · exact hbc
  · exact hbc.trans hab

/-- One step: the stored own CRL is replaced by a newer one or not at all. -/
theorem own_of_moves {c : RevocationList} (h : Moves (cacheOutline cert).toDiscipline u s s')
    (hs : ∃ own, Published cert own s.crl ∧ Behind own c) :
    ∃ own, Published cert own s'.crl ∧ Behind own c := by
  obtain ⟨own, hown, hbehind⟩ := hs
  obtain ⟨i, cmd, ch, a, -, hall, hex⟩ := h
  obtain ⟨own', hown', hnext⟩ := (hown.seen.effect hall.1 (exec_effect hex)).behind
  exact ⟨own', hown', hnext.trans' hbehind⟩

/-- One step: a cached list is replaced by a newer one or not at all. -/
theorem cached_of_moves {c : RevocationList} (h : Moves (cacheOutline cert).toDiscipline u s s')
    (hs : ∃ c', (s.memory r).cachedCRL = some c' ∧ Behind c' c) :
    ∃ c', (s'.memory r).cachedCRL = some c' ∧ Behind c' c := by
  obtain ⟨c', hc', hbehind⟩ := hs
  obtain ⟨i, cmd, ch, a, -, hall, hex⟩ := h
  cases exec_effect hex with
  | setMemory =>
    rcases eq_or_ne r u.replica with rfl | hne
    · obtain ⟨next, hnext, hforward⟩ := hall.2.2.forward c' hc'
      exact ⟨next, by simpa using hnext, hforward.trans' hbehind⟩
    · exact ⟨c', by simpa [Function.update_of_ne hne] using hc', hbehind⟩
  | _ => exact ⟨c', hc', hbehind⟩

theorem chained_of_former {b : Blob} {c : Cmd} (he : Effect t s c s') (hb : b ∈ s'.formerCRLs) :
    Chained b s := by
  cases he with
  | updateCRL =>
    rcases List.mem_append.mp hb with hb | hb
    · exact Or.inl (Option.mem_toList.mp hb)
    · exact Or.inr hb
  | _ => exact Or.inr hb

/-- A chain that was stored was stored at some moment of the run, or was replaced before it. -/
theorem exists_moment {b : Blob} (hrun : p.run ls = some q) (hb : Chained b q.shared) :
    b ∈ p.shared.formerCRLs ∨ ∃ ls₁ m, ls₁ <+: ls ∧ p.run ls₁ = some m ∧
      m.shared.crl = some b := by
  rcases hb with hcrl | hformer
  · exact Or.inr ⟨ls, q, List.prefix_rfl, hrun, hcrl⟩
  refine or_iff_not_imp_left.mpr fun hnew => ?_
  -- It was the stored one until the event that made it a former one.
  obtain ⟨ls₁, l, ls₂, x, y, rfl, hx, hnext, hnot, hin⟩ := Pool.exists_change
    (P := fun m : IssuingCluster cert => b ∉ m.shared.formerCRLs) hrun hnew (not_not_intro hformer)
  refine ⟨ls₁, x, List.prefix_append _ _, hx, ?_⟩
  obtain ⟨u, i, rfl, -, rfl⟩ | ⟨u, ch, i, c, k, a, s, rfl, -, hex, rfl⟩ |
    ⟨u, i, r, rfl, -, rfl⟩ := Pool.next_cases hnext
  · exact absurd hnot hin
  · exact (chained_of_former (exec_effect hex) (not_not.mp hin)).resolve_right hnot
  · exact absurd hnot hin

theorem Behind.antisymm {a b : RevocationList} (hab : Behind a b) (hba : Behind b a) : a = b := by
  rcases hab with rfl | hab
  · rfl
  · rw [hba.not_newer] at hab
    cases hab

theorem Behind.number_le {own c : RevocationList} {k k' : ℤ} (h : Behind own c)
    (hk : c.number = some k) (hk' : own.number = some k') : k ≤ k' := by
  rcases h with rfl | h
  · exact (Option.some.inj (hk.symm.trans hk')).le
  · simp only [newerCRL, hk', hk, decide_eq_true_eq] at h
    exact h.le

/-- **What every step keeps, every run keeps.** -/
theorem keep_of_issuing_run {P : State → Prop} (hs : (cacheOutline cert).Sound p)
    (hq : p.run ls' = some q)
    (hstep : ∀ u s s', Moves (cacheOutline cert).toDiscipline u s s' → P s → P s')
    (hp : P p.shared) : P q.shared :=
  AnyMoves.star hstep (hs.run _ (fun _ _ _ => trivial) hq).2 hp

/-- **A cleanup takes the serial off the stored own CRL**: the event is a step of one that has
pruned it from the inventory, under the same hold of the CRL lock. -/
structure TakesOff (n : ℤ) (p : IssuingCluster cert) (l : IssuingEvent cert)
    (q : IssuingCluster cert) : Prop where
  cleanup : ∃ j rest retain, p.thread l.tid = .running j rest ∧
    j.task = .serve (.cleanupExpiredCerts retain)
  pruned : n ∈ p.shared.holdPruned
  listed : n ∈ p.shared.listed cert
  gone : n ∉ q.shared.listed cert

/-- Only a cleanup takes a serial off. -/
theorem takesOff_of_next (hs : (cacheOutline cert).Sound p) {l : IssuingEvent cert}
    (hnext : p.next l = some q) {n : ℤ} (hn : n ∈ p.shared.listed cert)
    (hgone : n ∉ q.shared.listed cert) : TakesOff n p l q := by
  obtain ⟨t, j, rfl, -, rfl⟩ | ⟨t, ch, j, c, k, a, s, rfl, ht, hex, rfl⟩ | ⟨t, j, r, rfl, -, rfl⟩ :=
    Pool.next_cases hnext
  · exact absurd hn hgone
  · have hall := (hs.allowed _ ht).1
    cases exec_effect hex with
    | updateCRL =>
      have hdrops := (hall.2.mem_listedIn hn).resolve_left hgone
      refine ⟨?_, Op.drops_subset _ _ hdrops, hn, hgone⟩
      unfold TaskJob.job at hdrops
      split at hdrops
      · next op htask =>
        cases op with
        | cleanupExpiredCerts retain => exact ⟨j, _, retain, ht, htask⟩
        | _ => cases hdrops
      · cases hdrops
    | _ => exact absurd hn hgone
  · exact absurd hn hgone

/-- The own CRL that is stored. -/
def State.own (s : State) (cert : Certificate) : Option RevocationList :=
  s.crl.bind (storedOwn cert)

theorem listed_of_own {c : RevocationList} (h : s.own cert = some c) :
    s.listed cert = c.serials := by
  rw [State.listed, listedIn]
  exact congrArg (fun own => (own.map RevocationList.serials).getD []) h

/-- A cached list was the stored one at some moment. -/
theorem exists_moment_of_cached {s₀ : State} (h₀ : s₀.Fresh cert)
    (hp : (Pool.initial s₀).run ls = some p) {c : RevocationList}
    (hc : (p.shared.memory r).cachedCRL = some c) :
    ∃ ls₁ m, ls₁ <+: ls ∧ (Pool.initial s₀).run ls₁ = some m ∧ m.shared.own cert = some c := by
  have hsound := (h₀.sound.run _ (fun _ _ _ => trivial) hp).1
  obtain ⟨b, hb, hpub⟩ := (hsound.1.cache r c hc).was
  rcases exists_moment hp hb with hformer | ⟨ls₁, m, hpre, hm, hcrl⟩
  · rw [show (Pool.initial s₀ : IssuingCluster cert).shared.formerCRLs = [] from
      h₀.former] at hformer
    cases hformer
  · exact ⟨ls₁, m, hpre, hm, by rw [State.own, hcrl]; exact hpub.stored⟩

/-- **Once refused, refused ever after.** In every run of an issuing cluster, with any command
failing: whatever list `c` a replica has cached in `p` was the stored own CRL at some moment `m`
before; the list it has cached in any later state `q` has no smaller number; and what `c` revokes
that one revokes too, unless the write of a cleanup has taken the serial off since `m`. -/
theorem refused_ever_after {s₀ : State} (h₀ : s₀.Fresh cert)
    (hp : (Pool.initial s₀).run ls = some p) (hq : p.run ls' = some q) {r : Replica}
    {c : RevocationList} (hc : (p.shared.memory r).cachedCRL = some c) :
    (∃ ls₁ m, ls₁ <+: ls ∧ (Pool.initial s₀).run ls₁ = some m ∧ m.shared.own cert = some c) ∧
    ∃ c' k k', (q.shared.memory r).cachedCRL = some c' ∧ c.number = some k ∧
      c'.number = some k' ∧ k ≤ k' ∧
      ∀ ls₁ m, ls₁ <+: ls → (Pool.initial s₀).run ls₁ = some m → m.shared.own cert = some c →
        ∀ n, serialInCRL c n = true → serialInCRL c' n = true ∨
          ∃ ls₂ l rest x y, ls ++ ls' = ls₂ ++ l :: rest ∧ ls₁ <+: ls₂ ∧
            (Pool.initial s₀).run ls₂ = some x ∧ x.next l = some y ∧ TakesOff n x l y := by
  have hall : (Pool.initial s₀).run (ls ++ ls') = some q :=
    (Pool.run_append (M := machine)).mpr ⟨p, hp, hq⟩
  have hsound : ∀ {ls : List (IssuingEvent cert)} {m : IssuingCluster cert},
      (Pool.initial s₀).run ls = some m → (cacheOutline cert).Sound m :=
    fun hm => (h₀.sound.run _ (fun _ _ _ => trivial) hm).1
  obtain ⟨c', hc', hforward⟩ := keep_of_issuing_run (hsound hp) hq
    (fun _ _ _ h hs => cached_of_moves (r := r) (c := c) h hs) ⟨c, hc, Or.inl rfl⟩
  obtain ⟨k, hk⟩ := Option.isSome_iff_exists.mp ((hsound hp).1.cache r c hc).numbered
  obtain ⟨k', hk'⟩ := Option.isSome_iff_exists.mp ((hsound hall).1.cache r c' hc').numbered
  refine ⟨exists_moment_of_cached h₀ hp hc, c', k, k', hc', hk, hk', hforward.number_le hk hk',
    fun ls₁ m hpre hm hown n hn => or_iff_not_imp_left.mpr fun hgone => ?_⟩
  obtain ⟨ls₂, m', ⟨after, hafter⟩, hm', hown'⟩ := exists_moment_of_cached h₀ hall hc'
  rw [serialInCRL_iff, ← listed_of_own hown'] at hgone
  rw [serialInCRL_iff, ← listed_of_own hown] at hn
  -- The two moments lie on one run, and the list stored later is not older.
  rcases List.prefix_or_prefix_of_prefix (hpre.trans (List.prefix_append ls ls'))
    ⟨after, hafter⟩ with ⟨between, rfl⟩ | ⟨between, rfl⟩
  · obtain ⟨x, hx, hrun⟩ := (Pool.run_append (M := machine)).mp hm'
    obtain rfl := Option.some.inj (hm.symm.trans hx)
    obtain ⟨first, l, rest, x, y, rfl, hx, hnext, hin, hout⟩ := Pool.exists_change
      (P := fun p : IssuingCluster cert => n ∈ p.shared.listed cert) hrun hn hgone
    have hx := (Pool.run_append (M := machine)).mpr ⟨m, hm, hx⟩
    exact ⟨ls₁ ++ first, l, rest ++ after, x, y, by simp [← hafter], List.prefix_append _ _, hx,
      hnext, takesOff_of_next (hsound hx) hnext hin hout⟩
  · obtain ⟨x, hx, hrun⟩ := (Pool.run_append (M := machine)).mp hm
    obtain rfl := Option.some.inj (hm'.symm.trans hx)
    obtain ⟨own', hpub'⟩ := (hsound hm').1.chain
    obtain rfl : own' = c' := Option.some.inj (hpub'.stored.symm.trans hown')
    obtain ⟨own, hpub, hbehind⟩ := keep_of_issuing_run (hsound hm') hrun
      (fun _ _ _ h hs => own_of_moves (c := own') h hs) ⟨own', hpub', Or.inl rfl⟩
    obtain rfl : own = c := Option.some.inj (hpub.stored.symm.trans hown)
    obtain rfl := hforward.antisymm hbehind
    rw [listed_of_own hown'] at hgone
    rw [listed_of_own hown] at hn
    exact absurd hn hgone

/-! A replica that reads the chain, revokes a serial, and only then puts what it read to use. -/

/-- One thread takes a number of steps in which nothing fails. -/
def issuingSteps (t : Tid) (steps : ℕ) : List (IssuingEvent sampleCert) :=
  List.replicate steps (.step t {})

/-- The chain is read by one thread before the other revokes the node. -/
def readBeforeRevoked : List (IssuingEvent sampleCert) :=
  .start ⟨0, 1⟩ { task := .serve .syncCRLCache } :: issuingSteps ⟨0, 1⟩ 1 ++
    .start ⟨0, 0⟩ { task := .serve (.revoke ['n']) } :: issuingSteps ⟨0, 0⟩ 17

theorem sampleState_fresh : sampleState.Fresh sampleCert where
  unlocked := fun _ => rfl
  history := ⟨le_rfl, fun _ => le_rfl⟩
  former := rfl
  chain := by
    refine ⟨sampleCRL, by decide, ?_, rfl⟩
    rintro _ ⟨⟩ block hblock
    obtain rfl : (⟨true, some sampleCRL⟩ : PemBlock) = block := by
      simpa [encodeCRLChain] using hblock
    rfl
  cache := by
    rintro r c hc
    cases hc

/-- What was read before the revocation does not take it back. -/
theorem refused_ever_after_sample : ∃ p q : IssuingCluster sampleCert, ∃ c c' k k',
    (Pool.initial sampleState).run readBeforeRevoked = some p ∧
      p.run (issuingSteps ⟨0, 1⟩ 4) = some q ∧ (p.shared.memory 0).cachedCRL = some c ∧
      (q.shared.memory 0).cachedCRL = some c' ∧ serialInCRL c 5 = true ∧ c.number = some k ∧
      c'.number = some k' ∧ k ≤ k' ∧ serialInCRL c' 5 = true := by
  have hrun : ((Pool.initial sampleState).run readBeforeRevoked).map (fun p =>
      ((p.shared.memory 0).cachedCRL.map fun c => serialInCRL c 5,
        (p.run (issuingSteps ⟨0, 1⟩ 4)).isSome)) = some (some true, true) := by decide +kernel
  have hcheck : (Pool.initial sampleState).checkThroughout
      (fun (p : IssuingCluster sampleCert) _ => p.shared.holdPruned == [])
      (readBeforeRevoked ++ issuingSteps ⟨0, 1⟩ 4) = true := by decide +kernel
  obtain ⟨p, hp, hv⟩ := Option.map_eq_some_iff.mp hrun
  obtain ⟨hc, hv⟩ := Prod.mk.inj hv
  obtain ⟨c, hc, hlisted⟩ := Option.map_eq_some_iff.mp hc
  obtain ⟨q, hq⟩ := Option.isSome_iff_exists.mp hv
  obtain ⟨⟨ls₁, m, hpre, hm, hown⟩, c', k, k', hc', hk, hk', hle, hkept⟩ :=
    refused_ever_after sampleState_fresh hp hq hc
  refine ⟨p, q, c, c', k, k', hp, hq, hc, hc', hlisted, hk, hk', hle,
    (hkept ls₁ m hpre hm hown 5 hlisted).resolve_right ?_⟩
  -- Nothing is pruned in this run.
  rintro ⟨ls₂, l, rest, x, y, heq, -, hx, -, htakes⟩
  have hnever := Pool.throughout_of_check (M := machine)
    (C := fun p _ => p.shared.holdPruned = []) (fun h => beq_iff_eq.mp h) hcheck
  rw [heq] at hnever
  have hnone := (Pool.throughout_append hx hnever).2.1
  have hpruned := htakes.pruned
  rw [hnone] at hpruned
  cases hpruned

/-- **A replica is up to date if its number is.** In every run of an issuing cluster, with any
command failing, the list that a replica goes by is the stored own CRL itself, or one of a smaller
number: no two replicas go by different lists of the number that is stored. -/
theorem cached_current_or_older {s₀ : State} (h₀ : s₀.Fresh cert)
    (hp : (Pool.initial s₀).run ls = some p) {r : Replica} {c : RevocationList}
    (hc : (p.shared.memory r).cachedCRL = some c) :
    ∃ own k k', p.shared.own cert = some own ∧ c.number = some k ∧ own.number = some k' ∧
      (c = own ∨ k < k') := by
  have hinv := (h₀.sound.run _ (fun _ _ _ => trivial) hp).1.1
  obtain ⟨own, hown, hbehind⟩ := (hinv.cache r c hc).behind
  obtain ⟨k, hk⟩ := Option.isSome_iff_exists.mp (hinv.cache r c hc).numbered
  obtain ⟨k', hk'⟩ := Option.isSome_iff_exists.mp hown.numbered
  refine ⟨own, k, k', hown.stored, hk, hk', hbehind.imp_right fun hnewer => ?_⟩
  simpa [newerCRL, hk, hk'] using hnewer

/-- The replica that has revoked a certificate. -/
theorem cached_current_or_older_sample : ∃ p : IssuingCluster sampleCert, ∃ c own k k',
    (Pool.initial sampleState).run readBeforeRevoked = some p ∧
      (p.shared.memory 0).cachedCRL = some c ∧ p.shared.own sampleCert = some own ∧
      c.number = some k ∧ own.number = some k' ∧ (c = own ∨ k < k') := by
  have hrun : ((Pool.initial sampleState).run readBeforeRevoked).map (fun p =>
      (p.shared.memory 0).cachedCRL.isSome) = some true := by decide +kernel
  obtain ⟨p, hp, hc⟩ := Option.map_eq_some_iff.mp hrun
  obtain ⟨c, hc⟩ := Option.isSome_iff_exists.mp hc
  obtain ⟨own, k, k', h⟩ := cached_current_or_older sampleState_fresh hp hc
  exact ⟨p, c, own, k, k', hp, hc, h⟩

end OpenvoxCa.Ca
