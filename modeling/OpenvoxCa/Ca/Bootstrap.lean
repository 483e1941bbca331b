import OpenvoxCa.Ca.Startup
import OpenvoxCa.Conc.Protocol

/-!
# One authority, and the inventory it starts with

Two results about the participants of `Startup`, from one account of what a participant knows.

**There is only ever one authority** (`one_authority`). The key is written by whoever holds the
bootstrap lock and has found none under it; the certificate is written by whoever holds the lock and
has found none under it, or by a forced import; and what is written binds the stored key. What a
participant knows at any time follows from the answers it has got (`Known.next`), and it asks for
nothing that it does not know to be in order (`Known.Allows`), whatever the others do. A crash
changes nothing about this, because what a participant knows by holding the lock need be so only
while it is alive (`Known.Holds`).

**The inventory survives the start**, but not always. `TouchInventory` looks whether there is an
inventory and, if there is none, replaces it by an empty one; the fence of the replacement is read
after the look. By then the list of revoked certificates has been published, which is all another
replica needs to start and to issue. What it issues in between is erased (`issuance_erased`); if no
append takes effect in between, nothing is (`issuances_kept`).
-/

namespace OpenvoxCa.Ca.Startup

open Conc

/-! ### What a request can do -/

/-- **What a request can do to the state.** -/
inductive Effect (t : Tid) (s : State) : Cmd → State → Prop
  | none (c : Cmd) : Effect t s c s
  | begin : Effect t s .begin { s with begun := Function.update s.begun t s.bundles.length }
  | lock : s.bootstrapLock = none → Effect t s .lockBootstrap { s with bootstrapLock := some t }
  | unlock : Effect t s .unlockBootstrap
      { s with bootstrapLock := none, touching := s.touching.filter (· ≠ t) }
  | saveCAKey (key : PublicKey) : Effect t s (.saveCAKey key) { s with caKey := some key }
  | saveCACert (bundle : List Certificate) : Effect t s (.saveCACert bundle)
      { s with caCert := some bundle, bundles := bundle :: s.bundles }
  /-- Blobs, and marks of the replicas, that the rest does not depend on. -/
  | aside (c : Cmd) (pubKey crl serial : Bool) (started : Replica → Bool) :
      Effect t s c { s with pubKey := pubKey, crl := crl, serial := serial, started := started }
  | touch : s.marker = false → Effect t s .hasInventory { s with touching := t :: s.touching }
  /-- A transaction changes the inventory, and nothing else. -/
  | commit (rev : ℕ) (absent : Option Text) (ops : List InvOp) : Effect t s (.commit rev absent ops)
      { s with
        entries := (ops.foldl InvOp.apply s).entries
        marker := (ops.foldl InvOp.apply s).marker
        revision := s.revision + 1
        seqRevision := s.revision + 1 }
  | crash (victim : Tid) : Effect t s (.crash victim)
      { s with
        dead := victim :: s.dead
        bootstrapLock := if s.bootstrapLock = some victim then Option.none else s.bootstrapLock
        touching := s.touching.filter (· ≠ victim) }

section Exec

variable {t : Tid} {s s' : State} {c : Cmd} {ch : Choice}

theorem read_eq {α : Type} {r a : Except Failure α} (h : read ch s r = some (a, s')) :
    (∀ x, a = .ok x → r = .ok x) ∧ s' = s := by
  cases h
  refine ⟨fun x hx => ?_, rfl⟩
  split at hx
  · cases hx
  · exact hx

theorem eq_some_of_orNotExist {α : Type} {o : Option α} {a : α} (h : orNotExist o = .ok a) :
    o = some a := by
  cases o with
  | none => cases h
  | some b => rw [Except.ok.inj h]

theorem write_eq {s₁ : State} {a : Except Failure Unit} (h : write ch s s₁ = some (a, s')) :
    a = .error .unavailable ∧ s' = s ∨ s' = s₁ := by
  unfold write at h
  split at h
  · cases h
    split
    · exact Or.inr rfl
    · exact Or.inl ⟨rfl, rfl⟩
  · cases h
    exact Or.inr rfl

/-- What a transaction has done, by its answer. -/
theorem commit_eq {rev : ℕ} {absent : Option Text} {ops : List InvOp}
    {a : Except Failure (Option ℕ)} (h : step t s (.commit rev absent ops) ch = some (a, s')) :
    (∀ r, a ≠ .ok (some r)) ∧ s' = s ∨ s' = s.committed ops := by
  simp only [step] at h
  split at h
  · cases h
    exact Or.inl ⟨nofun, rfl⟩
  · split at h
    · cases h
      exact Or.inr rfl
    · cases h
      refine Or.inl ⟨fun r => ?_, rfl⟩
      cases ch.fails <;> simp

theorem committed_eq (s : State) (ops : List InvOp) : s.committed ops =
    { s with
      entries := (ops.foldl InvOp.apply s).entries
      marker := (ops.foldl InvOp.apply s).marker
      revision := s.revision + 1
      seqRevision := s.revision + 1 } := by
  suffices h : ∀ s₁ : State, ∃ entries marker,
      ops.foldl InvOp.apply s₁ = { s₁ with entries, marker } by
    obtain ⟨entries, marker, heq⟩ := h s
    rw [State.committed, heq]
  induction ops with
  | nil => exact fun s₁ => ⟨s₁.entries, s₁.marker, rfl⟩
  | cons op ops ih =>
    intro s₁
    cases op with
    | clear => exact ih { s₁ with entries := [] }
    | putEntry e => exact ih { s₁ with entries := s₁.entries ++ [e] }
    | touch => exact ih { s₁ with marker := true }

theorem step_effect {a : c.Ans} (h : step t s c ch = some (a, s')) : Effect t s c s' := by
  have hread : ∀ {α : Type} {r a : Except Failure α} {c : Cmd},
      read ch s r = some (a, s') → Effect t s c s' := fun h => (read_eq h).2 ▸ .none _
  have hwrite : ∀ {s₁ : State} {a : Except Failure Unit} {c : Cmd},
      write ch s s₁ = some (a, s') → Effect t s c s₁ → Effect t s c s' := fun h he => by
    rcases write_eq h with ⟨-, rfl⟩ | rfl
    · exact .none _
    · exact he
  cases c with
  | begin =>
    cases h
    exact .begin
  | ensureDirs | initHMAC => exact hread h
  | lockBootstrap =>
    simp only [step] at h
    split at h
    · cases h
      exact .none _
    · split at h
      · next hfree =>
        cases h
        exact .lock hfree
      · cases h
  | unlockBootstrap =>
    cases h
    exact .unlock
  | getCAKey | hasCAKey => exact hread h
  | saveCAKey key => exact hwrite h (.saveCAKey key)
  | getCACert | hasCACert => exact hread h
  | saveCACert bundle => exact hwrite h (.saveCACert bundle)
  | generateKey | selfSign => exact hread h
  | savePubKey => exact hwrite h (.aside _ true s.crl s.serial s.started)
  | getCRL => exact hread h
  | updateCRL => exact hwrite h (.aside _ s.pubKey true s.serial s.started)
  | planCRLImport | resignStoredCRL | hasSerial => exact hread h
  | writeSerial => exact hwrite h (.aside _ s.pubKey s.crl true s.started)
  | now =>
    cases h
    exact .none _
  | hasInventory =>
    simp only [step] at h
    split at h
    · cases h
      exact .none _
    · split at h
      · cases h
        exact .none _
      · next hmarker =>
        cases h
        exact .touch (by simpa using hmarker)
  | readSeq | readFence => exact hread h
  | commit rev absent ops =>
    rcases commit_eq h with ⟨-, rfl⟩ | rfl
    · exact .none _
    · rw [committed_eq]
      exact .commit rev absent ops
  | backoff => exact hread h
  | awaitStarted =>
    simp only [step] at h
    split at h
    · cases h
      exact .none _
    · cases h
  | setStarted =>
    cases h
    exact .aside _ s.pubKey s.crl s.serial _
  | crash victim =>
    cases h
    exact .crash victim

theorem step_of_exec {r : c.Ans × State} (h : exec t s c ch = some r) :
    t ∉ s.dead ∧ step t s c ch = some r := by
  unfold exec at h
  split at h
  · cases h
  · next halive => exact ⟨halive, h⟩

end Exec

/-! ### The invariant -/

/-- A bundle that binds the stored key. -/
def State.Binds (s : State) (bundle : List Certificate) : Prop :=
  ∃ cert rest, bundle = cert :: rest ∧ s.caKey = some cert.publicKey

/-- **What holds at every moment**, where `careful` says that no append takes effect while somebody
is about to create the inventory. -/
structure Inv (careful : Prop) (s : State) : Prop where
  /-- The stored bundle is the latest one. -/
  current : s.caCert = s.bundles.head?
  /-- Every bundle that was ever stored binds the stored key. -/
  bound : ∀ bundle ∈ s.bundles, s.Binds bundle
  /-- Where there is an entry, there is an inventory. -/
  marked : s.entries ≠ [] → s.marker = true
  /-- Whoever is about to create the inventory erases nothing. -/
  touched : careful → s.touching ≠ [] → s.entries = []

/-- The transactions on the inventory: clearing it, which is for whoever has found none, writing the
marker, and an append. -/
def commitRule (touching : Prop) (ops : List InvOp) : Prop :=
  ops = [.clear] ∧ touching ∨ ops = [.touch] ∨ ∃ e, ops = [.putEntry e, .touch]

/-- **What a participant may do.** The key and the certificate are written under the lock, where
there is none; a forced import may replace the certificate. -/
def Rule (t : Tid) (j : Op) (c : Cmd) (s : State) : Prop :=
  match c with
  | .unlockBootstrap => s.bootstrapLock = some t
  | .saveCAKey _ => s.bootstrapLock = some t ∧ s.caKey = none
  | .saveCACert bundle => s.bootstrapLock = some t ∧ s.Binds bundle ∧
      (s.caCert = none ∨ ∃ b, j = .importCert b true)
  | .commit _ _ ops => commitRule (t ∈ s.touching) ops
  | _ => True

variable {careful : Prop} {t u : Tid} {s s' : State} {c : Cmd} {j : Op}

/-- A step that leaves the authority and the inventory alone. -/
theorem Inv.congr (h : Inv careful s) (hcert : s'.caCert = s.caCert)
    (hbundles : s'.bundles = s.bundles) (hkey : s'.caKey = s.caKey)
    (hentries : s'.entries = s.entries) (hmarker : s'.marker = s.marker)
    (htouch : careful → s'.touching ≠ [] → s'.entries = []) : Inv careful s' where
  current := by rw [hcert, hbundles, h.current]
  bound := by
    simp only [State.Binds, hbundles, hkey]
    exact h.bound
  marked := by
    rw [hentries, hmarker]
    exact h.marked
  touched := htouch

/-- Those who are about to create the inventory become fewer. -/
theorem Inv.touched_filter (h : Inv careful s) (q : Tid → Bool) (hcare : careful)
    (hne : s.touching.filter q ≠ []) : s.entries = [] := by
  refine h.touched hcare fun hnil => hne ?_
  rw [hnil]
  rfl

/-- **Requests in order keep the invariant.** -/
theorem Inv.effect (h : Inv careful s) (hrule : Rule t j c s) (heff : Effect t s c s')
    (hcare : careful → s.touching ≠ [] → s'.entries ⊆ s.entries) : Inv careful s' := by
  cases heff with
  | none => exact h
  | begin | lock => exact h.congr rfl rfl rfl rfl rfl h.touched
  | unlock => exact h.congr rfl rfl rfl rfl rfl (h.touched_filter _)
  | saveCAKey key =>
    -- There was no key, so that nothing was bound to it.
    refine { h with bound := fun bundle hb => ?_ }
    obtain ⟨cert, rest, -, hkey⟩ := h.bound bundle hb
    cases hrule.2.symm.trans hkey
  | saveCACert bundle =>
    refine { h with current := rfl, bound := fun b hb => ?_ }
    rcases List.mem_cons.mp hb with rfl | hb
    · exact hrule.2.1
    · exact h.bound b hb
  | aside pubKey crl serial started => exact h.congr rfl rfl rfl rfl rfl h.touched
  | touch hmarker =>
    refine h.congr rfl rfl rfl rfl rfl fun _ _ => ?_
    by_contra hne
    cases hmarker.symm.trans (h.marked hne)
  | commit rev absent ops =>
    rcases hrule with ⟨rfl, -⟩ | rfl | ⟨e, rfl⟩
    · exact { h with marked := fun hne => absurd rfl hne, touched := fun _ _ => rfl }
    · exact { h with marked := fun _ => rfl }
    · refine { h with marked := fun _ => rfl, touched := fun hset hne => ?_ }
      have hmem := hcare hset hne (List.mem_append_right s.entries (List.mem_singleton_self e))
      rw [h.touched hset hne] at hmem
      cases hmem
  | crash victim => exact h.congr rfl rfl rfl rfl rfl (h.touched_filter _)

/-- **A key that is stored stays.** -/
theorem caKey_kept (hrule : Rule t j c s) (heff : Effect t s c s') {key : PublicKey}
    (hs : s.caKey = some key) : s'.caKey = some key := by
  cases heff with
  | saveCAKey key' => cases hrule.2.symm.trans hs
  | _ => exact hs

/-- **An entry stays**, where no append falls into the creation of the inventory. -/
theorem entry_kept (h : Inv careful s) (hrule : Rule t j c s) (heff : Effect t s c s')
    (hcare : careful) {e : InventoryEntry} (hs : e ∈ s.entries) : e ∈ s'.entries := by
  cases heff with
  | commit rev absent ops =>
    rcases hrule with ⟨rfl, htouch⟩ | rfl | ⟨e', rfl⟩
    · -- There is nothing to clear.
      rw [h.touched hcare (List.ne_nil_of_mem htouch)] at hs
      cases hs
    · exact hs
    · exact List.mem_append_left _ hs
  | _ => exact hs

/-! ### What a participant knows -/

/-- The bundles that have been stored since the participant began, the one that was stored then
among them. -/
def since (t : Tid) (s : State) : List (List Certificate) :=
  s.bundles.take (s.bundles.length + 1 - s.begun t)

def Begun (t : Tid) (s : State) : Prop := s.begun t ≤ s.bundles.length

/-- The latest bundle has been stored since. -/
theorem mem_since_cons {bundle : List Certificate} {bs : List (List Certificate)}
    (hbs : s.bundles = bundle :: bs) (hbegun : Begun t s) : bundle ∈ since t s := by
  have hle : s.begun t ≤ bs.length + 1 := by
    have := hbegun
    rwa [Begun, hbs, List.length_cons] at this
  obtain ⟨n, hn⟩ : ∃ n, bs.length + 1 + 1 - s.begun t = n + 1 :=
    ⟨bs.length + 1 - s.begun t, by omega⟩
  rw [since, hbs, List.length_cons, hn, List.take_succ_cons]
  exact List.mem_cons_self

/-- What has been stored since has also been stored since when one more has been. -/
theorem mem_since_of_mem {bundle b : List Certificate} (hbegun : Begun t s) (h : b ∈ since t s) :
    b ∈ (bundle :: s.bundles).take ((bundle :: s.bundles).length + 1 - s.begun t) := by
  have hle : s.begun t ≤ s.bundles.length := hbegun
  obtain ⟨n, hn⟩ : ∃ n, s.bundles.length + 1 - s.begun t = n ∧
      s.bundles.length + 1 + 1 - s.begun t = n + 1 :=
    ⟨s.bundles.length + 1 - s.begun t, rfl, by omega⟩
  rw [since, hn.1] at h
  rw [List.length_cons, hn.2, List.take_succ_cons]
  exact List.mem_cons_of_mem _ h

/-- The bundle was stored at some time since the participant began. -/
def StoredSince (t : Tid) (bundle : List Certificate) (s : State) : Prop :=
  Begun t s ∧ bundle ∈ since t s

/-- **The pair that was loaded**: the stored key, and a certificate that was stored at some time
since the participant began. -/
def Loaded (t : Tid) (pair : PublicKey × Certificate) (s : State) : Prop :=
  s.caKey = some pair.1 ∧ pair.2.publicKey = pair.1 ∧ ∃ rest, StoredSince t (pair.2 :: rest) s

/-- **What a participant knows**, by the answers it has got. -/
structure Known where
  /-- It holds the bootstrap lock. -/
  lock : Bool := false
  /-- Under the lock, it has found no key. -/
  noKey : Bool := false
  /-- Under the lock, it has found no certificate. -/
  noCert : Bool := false
  /-- It is about to create the inventory. -/
  touching : Bool := false
  /-- It has begun to start. -/
  began : Bool := false
  /-- The stored key. -/
  key : Option PublicKey := none
  /-- A bundle that has been stored since it began. -/
  bundle : Option (List Certificate) := none
  /-- An entry that it has appended. -/
  entry : Option InventoryEntry := none

namespace Known

/-- **What a participant may ask for**, by what it knows. -/
def Allows (j : Op) (q : Known) : Cmd → Prop
  | .unlockBootstrap => q.lock = true
  | .saveCAKey _ => q.lock = true ∧ q.noKey = true
  | .saveCACert bundle => q.lock = true ∧
      (∃ cert rest, bundle = cert :: rest ∧ q.key = some cert.publicKey) ∧
      (q.noCert = true ∨ ∃ b, j = .importCert b true)
  | .commit _ _ ops => commitRule (q.touching = true) ops
  | _ => True

/-- **What it learns from an answer.** -/
def next (q : Known) : (c : Cmd) → c.Ans → Option Known
  | .begin, _ => some { q with began := true, bundle := none }
  | .lockBootstrap, .ok _ => some { q with lock := true, noKey := false, noCert := false }
  | .unlockBootstrap, _ => some { q with lock := false, touching := false }
  | .getCAKey, .ok key => some { q with key := some key }
  | .hasCAKey, .ok has => some { q with noKey := !has }
  | .saveCAKey key, .ok _ => some { q with noKey := false, key := some key }
  | .saveCAKey _, .error _ => some { q with noKey := false }
  | .getCACert, .ok bundle => some { q with bundle := some bundle }
  | .hasCACert, .ok has => some { q with noCert := !has }
  | .saveCACert bundle, .ok _ => some { q with noCert := false, bundle := some bundle }
  | .saveCACert _, .error _ => some { q with noCert := false }
  -- A certificate that is signed for a key is for that key.
  | .selfSign key, .ok cert => if cert.publicKey = key then some q else none
  | .hasInventory, .ok false => some { q with touching := true }
  | .commit _ _ [.putEntry e, .touch], .ok (some _) => some { q with entry := some e }
  | _, _ => some q

/-- **What it knows is so.** What it knows by holding the lock is so while it is alive. -/
structure Holds (careful : Prop) (t : Tid) (q : Known) (s : State) : Prop where
  lock : t ∉ s.dead → q.lock = true → s.bootstrapLock = some t
  noKey : t ∉ s.dead → q.lock = true → q.noKey = true → s.caKey = none
  noCert : t ∉ s.dead → q.lock = true → q.noCert = true → s.caCert = none
  touching : t ∉ s.dead → q.touching = true → t ∈ s.touching
  began : q.began = true → Begun t s
  key : ∀ key, q.key = some key → s.caKey = some key
  bundle : q.began = true → ∀ b, q.bundle = some b → b ∈ since t s
  entry : careful → ∀ e, q.entry = some e → e ∈ s.entries

variable {q : Known}

theorem holds_nothing : ({} : Known).Holds careful t s :=
  ⟨nofun, nofun, nofun, nofun, nofun, nofun, nofun, nofun⟩

/-- What it asks for is in order. -/
theorem Holds.rule (h : q.Holds careful t s) (halive : t ∉ s.dead) (hc : q.Allows j c) :
    Rule t j c s := by
  cases c with
  | unlockBootstrap => exact h.lock halive hc
  | saveCAKey key => exact ⟨h.lock halive hc.1, h.noKey halive hc.1 hc.2⟩
  | saveCACert bundle =>
    obtain ⟨hlock, ⟨cert, rest, rfl, hkey⟩, hnone⟩ := hc
    exact ⟨h.lock halive hlock, ⟨cert, rest, rfl, h.key _ hkey⟩,
      hnone.imp_left (h.noCert halive hlock)⟩
  | commit rev absent ops =>
    exact hc.imp_left fun hclear => ⟨hclear.1, h.touching halive hclear.2⟩
  | _ => trivial

end Known


/-- The request does not bear on what its own participant knows. -/
def Cmd.besides : Cmd → Bool
  | .begin => false
  | .unlockBootstrap => false
  | .saveCAKey _ => false
  | .saveCACert _ => false
  | _ => true

/-- **What a participant knows stays so**, whatever the others do, and whatever it does itself that
does not bear on it. -/
theorem Known.Holds.effect {q : Known} (h : q.Holds careful t s) (hinv : Inv careful s)
    (hrule : Rule u j c s) (heff : Effect u s c s') (hother : u ≠ t ∨ c.besides = true) :
    q.Holds careful t s' := by
  -- Who holds the lock is the only one to hold it.
  have halone : u ≠ t → t ∉ s.dead → q.lock = true → s.bootstrapLock ≠ some u :=
    fun hne halive hlock hu => hne (Option.some.inj (hu.symm.trans (h.lock halive hlock)))
  have hkey : ∀ key, q.key = some key → s'.caKey = some key :=
    fun key hq => caKey_kept hrule heff (h.key key hq)
  have hentry : careful → ∀ e, q.entry = some e → e ∈ s'.entries :=
    fun hcare e hq => entry_kept hinv hrule heff hcare (h.entry hcare e hq)
  cases heff with
  | none => exact h
  | begin =>
    have hbegun : Function.update s.begun u s.bundles.length t = s.begun t :=
      Function.update_of_ne (hother.resolve_right nofun).symm _ _
    exact { h with
      began := fun hq => hbegun.trans_le (h.began hq)
      bundle := fun hq b hb => by
        change b ∈ List.take (_ - Function.update s.begun u _ t) _
        rw [hbegun]
        exact h.bundle hq b hb }
  | lock hfree =>
    exact { h with lock := fun halive hq => by cases hfree.symm.trans (h.lock halive hq) }
  | unlock =>
    have hne : u ≠ t := hother.resolve_right nofun
    exact { h with
      lock := fun halive hq => absurd hrule (halone hne halive hq)
      touching := fun halive hq =>
        List.mem_filter.mpr ⟨h.touching halive hq, by simpa using hne.symm⟩ }
  | saveCAKey key =>
    exact { h with
      noKey := fun halive hq => absurd hrule.1 (halone (hother.resolve_right nofun) halive hq)
      key := hkey }
  | saveCACert bundle =>
    exact { h with
      noCert := fun halive hq => absurd hrule.1 (halone (hother.resolve_right nofun) halive hq)
      began := fun hq => Nat.le_succ_of_le (h.began hq)
      bundle := fun hq b hb => mem_since_of_mem (h.began hq) (h.bundle hq b hb) }
  | aside pubKey crl serial started => exact { h with key := hkey }
  | touch _ =>
    exact { h with touching := fun halive hq => List.mem_cons_of_mem _ (h.touching halive hq) }
  | commit rev absent ops => exact { h with entry := hentry }
  | crash victim =>
    have halive : t ∉ victim :: s.dead → t ≠ victim ∧ t ∉ s.dead := by simp
    refine { h with
      lock := fun hd hq => ?_
      noKey := fun hd => h.noKey (halive hd).2
      noCert := fun hd => h.noCert (halive hd).2
      touching := fun hd hq =>
        List.mem_filter.mpr ⟨h.touching (halive hd).2 hq, by simpa using (halive hd).1⟩ }
    have hlock := h.lock (halive hd).2 hq
    have hother : s.bootstrapLock ≠ some victim := by
      rw [hlock]
      simpa using (halive hd).1
    exact (if_neg hother).trans hlock

/-- **What a participant learns is so**, if it asks for what it may. -/
theorem Known.Holds.step {q : Known} (h : q.Holds careful t s) (hinv : Inv careful s)
    (halive : t ∉ s.dead) (hc : q.Allows j c) {ch : Choice} {a : c.Ans}
    (hstep : step t s c ch = some (a, s')) :
    ∃ q', q.next c a = some q' ∧ q'.Holds careful t s' := by
  have hrule : Rule t j c s := h.rule halive hc
  have heff : Effect t s c s' := step_effect hstep
  have hs : c.besides = true → q.Holds careful t s' :=
    fun hbesides => h.effect hinv hrule heff (Or.inr hbesides)
  cases c with
  | begin =>
    cases hstep
    exact ⟨_, rfl, { h with began := fun _ => (Function.update_self ..).le, bundle := nofun }⟩
  | lockBootstrap =>
    simp only [Startup.step] at hstep
    split at hstep
    · cases hstep
      exact ⟨q, rfl, h⟩
    · split at hstep
      · cases hstep
        exact ⟨_, rfl, { hs rfl with lock := fun _ _ => rfl, noKey := nofun, noCert := nofun }⟩
      · cases hstep
  | unlockBootstrap =>
    cases hstep
    exact ⟨_, rfl, { h with lock := nofun, noKey := nofun, noCert := nofun, touching := nofun }⟩
  | getCAKey =>
    obtain ⟨ha, rfl⟩ := read_eq hstep
    rcases a with e | key
    · exact ⟨q, rfl, h⟩
    · refine ⟨_, rfl, { h with key := ?_ }⟩
      rintro _ ⟨⟩
      exact eq_some_of_orNotExist (ha key rfl)
  | hasCAKey =>
    obtain ⟨ha, rfl⟩ := read_eq hstep
    rcases a with e | has
    · exact ⟨q, rfl, h⟩
    · refine ⟨_, rfl, { h with noKey := fun _ _ hno => ?_ }⟩
      simpa [← Except.ok.inj (ha has rfl)] using hno
  | hasCACert =>
    obtain ⟨ha, rfl⟩ := read_eq hstep
    rcases a with e | has
    · exact ⟨q, rfl, h⟩
    · refine ⟨_, rfl, { h with noCert := fun _ _ hno => ?_ }⟩
      simpa [← Except.ok.inj (ha has rfl)] using hno
  | saveCAKey key =>
    -- A key is stored only where there is none, so no other was read before.
    have hunknown : ∀ key, q.key ≠ some key := by
      rintro key hq
      cases hrule.2.symm.trans (h.key key hq)
    rcases write_eq hstep with ⟨rfl, rfl⟩ | rfl
    · exact ⟨_, rfl, { h with noKey := nofun }⟩
    · rcases a with e | _
      · exact ⟨_, rfl, { h with noKey := nofun, key := fun key hq => absurd hq (hunknown key) }⟩
      · exact ⟨_, rfl, { h with noKey := nofun, key := fun _ hq => hq }⟩
  | getCACert =>
    obtain ⟨ha, rfl⟩ := read_eq hstep
    rcases a with e | bundle
    · exact ⟨q, rfl, h⟩
    · refine ⟨_, rfl, { h with bundle := ?_ }⟩
      rintro hq _ ⟨⟩
      have hstored : s'.caCert = some bundle := eq_some_of_orNotExist (ha bundle rfl)
      -- The stored bundle is the latest of all that ever were.
      obtain ⟨bs, hbs⟩ := List.head?_eq_some_iff.mp (hinv.current ▸ hstored)
      exact mem_since_cons hbs (h.began hq)
  | saveCACert bundle =>
    have hbegan : q.began = true → s.begun t ≤ s.bundles.length + 1 :=
      fun hq => Nat.le_succ_of_le (h.began hq)
    rcases write_eq hstep with ⟨rfl, rfl⟩ | rfl
    · exact ⟨_, rfl, { h with noCert := nofun }⟩
    · rcases a with e | _
      · exact ⟨_, rfl, { h with
          noCert := nofun
          began := hbegan
          bundle := fun hq b hb => mem_since_of_mem (h.began hq) (h.bundle hq b hb) }⟩
      · refine ⟨_, rfl, { h with noCert := nofun, began := hbegan, bundle := ?_ }⟩
        rintro hq _ ⟨⟩
        exact mem_since_cons rfl (hbegan hq)
  | selfSign key =>
    obtain ⟨ha, rfl⟩ := read_eq hstep
    rcases a with e | cert
    · exact ⟨q, rfl, h⟩
    · exact ⟨q, if_pos (by rw [← Except.ok.inj (ha cert rfl)]; rfl), h⟩
  | hasInventory =>
    simp only [Startup.step] at hstep
    split at hstep
    · cases hstep
      exact ⟨q, rfl, h⟩
    · split at hstep
      · cases hstep
        exact ⟨q, rfl, h⟩
      · cases hstep
        exact ⟨_, rfl, { h with touching := fun _ _ => List.mem_cons_self }⟩
  | commit rev absent ops =>
    rcases hc with ⟨rfl, -⟩ | rfl | ⟨e, rfl⟩
    · exact ⟨q, by rcases a with _ | _ | _ <;> rfl, hs rfl⟩
    · exact ⟨q, by rcases a with _ | _ | _ <;> rfl, hs rfl⟩
    · rcases a with f | _ | r
      · exact ⟨q, rfl, hs rfl⟩
      · exact ⟨q, rfl, hs rfl⟩
      · refine ⟨_, rfl, { hs rfl with entry := ?_ }⟩
        rintro hcare _ ⟨⟩
        rcases commit_eq hstep with ⟨hne, -⟩ | rfl
        · exact absurd rfl (hne r)
        · exact List.mem_append_right _ List.mem_cons_self
  | _ => exact ⟨q, rfl, hs rfl⟩

/-! ### The programs -/

/-- **What is asked of a participant**, by its job. -/
abbrev protocol (j : Op) : Protocol interface Known := ⟨Known.Allows j, Known.next⟩

section Programs

variable {q : Known} {α β : Type} {p : Prog α} {f : α → Prog β}

/-- Anybody may ask for it, and nothing is learnt from the answer. -/
def Cmd.quiet : Cmd → Bool
  | .lockBootstrap => false
  | .getCAKey => false
  | .hasCAKey => false
  | .getCACert => false
  | .hasCACert => false
  | .hasInventory => false
  | .commit _ _ _ => false
  | c => c.besides

theorem Cmd.stays (hc : c.quiet = true) :
    q.Allows j c ∧ ∀ a q', q.next c a = some q' → q' = q := by
  cases c with
  | selfSign key =>
    refine ⟨trivial, ?_⟩
    rintro (e | cert) q' hq'
    · exact (Option.some.inj hq').symm
    · exact (Option.some.inj (Option.ite_none_right_eq_some.mp hq').2).symm
  | _ => first | exact ⟨trivial, fun a q' hq' => (Option.some.inj hq').symm⟩ | cases hc

/-- **A program that leaves the authority alone**: all it may learn is that it is to create the
inventory. -/
def Aside (j : Op) (p : Prog α) : Prop :=
  ∀ q, Follows (protocol j) q p fun _ q' => ∃ touching, q' = { q with touching }

theorem aside_of_quiet (h : p.Only fun (c : Cmd) => c.quiet = true) : Aside j p :=
  fun q => (Stays.of_only (fun _ hc => Cmd.stays hc) h).mono fun _ _ hq => ⟨q.touching, hq⟩

theorem Aside.follows_bind (hp : Aside j p) {Q : Except Failure β → Known → Prop}
    (herr : ∀ e touching, Q (.error e) { q with touching })
    (hf : ∀ a touching, Follows (protocol j) { q with touching } (f a) Q) :
    Follows (protocol j) q (p.bind f) Q := by
  refine Follows.bind ((hp q).mono ?_)
  rintro (e | a) _ ⟨touching, rfl⟩
  · exact herr e touching
  · exact hf a touching

theorem Aside.bind (hp : Aside j p) (hf : ∀ a, Aside j (f a)) : Aside j (p.bind f) :=
  fun _ => hp.follows_bind (fun _ touching => ⟨touching, rfl⟩) fun a _ => hf a _

theorem aside_ret (a : α) : Aside j (.ret a : Prog α) := aside_of_quiet trivial

theorem aside_cmd (hc : c.quiet = true) : Aside j (cmd c) := aside_of_quiet ⟨hc, fun _ => trivial⟩

theorem Aside.orFail {p : Prog (Except Failure α)} (h : Aside j p) : Aside j p.orFail :=
  h.bind fun r => aside_of_quiet (Conc.Prog.only_ofExcept r)

/-- The attempts to create the inventory, by whoever has found none. -/
theorem stays_putAttempts (hq : q.touching = true) (n : ℕ) :
    Stays (protocol j) q (putAttempts n) := by
  induction n with
  | zero => rfl
  | succ n ih =>
    refine Stays.bind ⟨trivial, ?_⟩ fun conflict => ?_
    · rintro (e | rev) _ ⟨⟩
      · rfl
      refine ⟨Or.inl ⟨rfl, hq⟩, ?_⟩
      rintro (e | _ | rev) _ ⟨⟩
      · rfl
      · rfl
      refine ⟨Or.inr (Or.inl rfl), ?_⟩
      rintro (e | _ | rev) _ ⟨⟩ <;> rfl
    · split
      · refine ⟨trivial, ?_⟩
        rintro (e | _) _ ⟨⟩
        · rfl
        · exact ih
      · rfl

theorem aside_touchInventory : Aside j touchInventory := by
  refine fun q => ⟨trivial, ?_⟩
  rintro (e | _ | _) _ ⟨⟩
  · exact ⟨q.touching, rfl⟩
  · exact (stays_putAttempts rfl _).mono fun _ _ hq => ⟨true, hq⟩
  · exact ⟨q.touching, rfl⟩

theorem aside_ensureSerial : Aside j ensureSerial := by
  refine (aside_cmd (c := .hasSerial) rfl).orFail.bind fun has => ?_
  split
  · exact aside_ret ()
  · exact (aside_cmd (c := .writeSerial) rfl).orFail

theorem aside_seedSupportingStateLocked : Aside j seedSupportingStateLocked := by
  refine (aside_cmd (c := .savePubKey) rfl).orFail.bind fun _ => ?_
  refine (aside_cmd (c := .getCRL) rfl).bind fun r => ?_
  split
  · exact aside_ret ()
  · exact (aside_cmd (c := .updateCRL) rfl).orFail.bind fun _ =>
      aside_touchInventory.bind fun _ => aside_ensureSerial
  · exact aside_of_quiet trivial

/-- **A section under the bootstrap lock.** -/
theorem follows_withBootstrapLock {Q : Except Failure α → Known → Prop}
    (herr : ∀ e, Q (.error e) q)
    (hp : Follows (protocol j) { q with lock := true, noKey := false, noCert := false } p
      fun r q' => q'.lock = true ∧ Q r { q' with lock := false, touching := false }) :
    Follows (protocol j) q (withBootstrapLock p) Q := by
  refine ⟨trivial, ?_⟩
  rintro (e | _) _ ⟨⟩
  · exact herr e
  · refine Follows.ensure (hp.mono fun r q' hr => ⟨hr.1, ?_⟩)
    rintro _ _ ⟨⟩
    exact hr.2

theorem of_error {P : α → Prop} {e : Failure} (a : α) (h : .error e = Except.ok a) : P a :=
  nomatch h

/-! #### Loading and bootstrapping -/

/-- The participant has loaded the pair. -/
def Known.Loaded (q : Known) (pair : PublicKey × Certificate) : Prop :=
  q.began = true ∧ q.key = some pair.1 ∧ pair.2.publicKey = pair.1 ∧
    ∃ rest, q.bundle = some (pair.2 :: rest)

/-- **`loadCA`** returns the stored key and a certificate that is stored when it is read. -/
theorem follows_loadCA (hq : q.began = true) : Follows (protocol j) q loadCA fun r q' =>
    (∃ key bundle, q' = { q with key, bundle }) ∧ ∀ pair, r = .ok pair → q'.Loaded pair := by
  refine ⟨trivial, ?_⟩
  rintro (e | key) _ ⟨⟩
  · exact ⟨⟨_, _, rfl⟩, of_error⟩
  refine ⟨trivial, ?_⟩
  rintro (e | bundle) _ ⟨⟩
  · exact ⟨⟨_, _, rfl⟩, of_error⟩
  cases bundle with
  | nil => exact ⟨⟨_, _, rfl⟩, of_error⟩
  | cons cert rest =>
    change Follows _ _ (if _ then if _ then _ else _ else _) _
    split
    · split
      · next hkey =>
        refine ⟨⟨_, _, rfl⟩, ?_⟩
        rintro _ ⟨⟩
        exact ⟨hq, rfl, hkey, rest, rfl⟩
      · exact ⟨⟨_, _, rfl⟩, of_error⟩
    · exact ⟨⟨_, _, rfl⟩, of_error⟩

/-- How a start ends: it has loaded the pair that it returns, and holds the lock if it did
before. -/
def Started (lock : Bool) (r : Except Failure (PublicKey × Certificate)) (q : Known) : Prop :=
  q.lock = lock ∧ ∀ pair, r = .ok pair → q.Loaded pair

/-- What is left of a start keeps the pair that was loaded. -/
theorem follows_finish {pair : PublicKey × Certificate} (hp : Aside j p) (hq : q.Loaded pair) :
    Follows (protocol j) q (p.bind fun _ => .ret pair) (Started q.lock) := by
  refine hp.follows_bind (fun _ _ => ⟨rfl, of_error⟩) fun _ _ => ⟨rfl, ?_⟩
  rintro _ ⟨⟩
  exact hq

/-- **`bootstrapCA`**: where neither a key nor a certificate is stored, a key is, and then a
certificate that binds it. The key comes first, so that the certificate never stands alone. -/
theorem follows_bootstrapCA (hbegan : q.began = true) (hlock : q.lock = true)
    (hkey : q.noKey = true) (hcert : q.noCert = true) :
    Follows (protocol j) q bootstrapCA (Started true) := by
  refine ⟨trivial, ?_⟩
  rintro (e | key) _ ⟨⟩
  · exact ⟨hlock, of_error⟩
  refine ⟨trivial, ?_⟩
  rintro (e | cert) q' hq'
  · exact ⟨(Option.some.inj hq') ▸ hlock, of_error⟩
  obtain ⟨hbinds, hq'⟩ := Option.ite_none_right_eq_some.mp hq'
  obtain rfl := Option.some.inj hq'
  refine ⟨⟨hlock, hkey⟩, ?_⟩
  rintro (e | _) _ ⟨⟩
  · exact ⟨hlock, of_error⟩
  refine ⟨⟨hlock, ⟨cert, [], rfl, congrArg some hbinds.symm⟩, Or.inl hcert⟩, ?_⟩
  rintro (e | _) _ ⟨⟩
  · exact ⟨hlock, of_error⟩
  refine (aside_cmd (c := .savePubKey) rfl).orFail.follows_bind (fun _ _ => ⟨hlock, of_error⟩)
    fun _ _ => (aside_cmd (c := .updateCRL) rfl).orFail.follows_bind (fun _ _ => ⟨hlock, of_error⟩)
    fun _ _ => ?_
  rw [← hlock]
  exact follows_finish aside_touchInventory ⟨hbegan, rfl, hbinds, [], rfl⟩

theorem aside_finishLoadExisting {seed : Prog Unit} (hseed : Aside j seed) :
    Aside j (finishLoadExisting seed) := by
  refine (aside_cmd (c := .getCRL) rfl).bind fun r => ?_
  split
  · exact aside_ret ()
  · exact hseed.bind fun _ => (aside_cmd (c := .getCRL) rfl).orFail
  · exact aside_of_quiet trivial

/-- **`Init` under the lock.** -/
theorem follows_initLocked (hbegan : q.began = true) (hlock : q.lock = true) (noBootstrap : Bool) :
    Follows (protocol j) q (initLocked noBootstrap) (Started true) := by
  refine Follows.bind (Follows.attempt ((follows_loadCA hbegan).mono ?_))
  rintro (e | pair) _ ⟨⟨key, bundle, rfl⟩, hloaded⟩
  · refine ⟨trivial, ?_⟩
    rintro (e | hasCert) _ ⟨⟩
    · exact ⟨hlock, of_error⟩
    refine ⟨trivial, ?_⟩
    rintro (e | hasKey) _ ⟨⟩
    · exact ⟨hlock, of_error⟩
    cases hasCert with
    | true => cases hasKey <;> exact ⟨hlock, of_error⟩
    | false =>
      cases hasKey with
      | true => exact ⟨hlock, of_error⟩
      | false =>
        cases noBootstrap with
        | true => exact ⟨hlock, of_error⟩
        | false => exact follows_bootstrapCA hbegan hlock rfl rfl
  · rw [← hlock]
    exact follows_finish (aside_finishLoadExisting aside_seedSupportingStateLocked)
      (hloaded pair rfl)

/-- An authority that is there has been loaded, and what it needs is seeded under the lock. -/
theorem follows_finishLoadExisting {pair : PublicKey × Certificate} (hq : q.Loaded pair) :
    Follows (protocol j) q ((finishLoadExisting seedSupportingState).bind fun _ => .ret pair)
      fun r q' => ∀ pair, r = .ok pair → q'.Loaded pair := by
  have hkept : Follows (protocol j) q (finishLoadExisting seedSupportingState)
      fun _ q' => q'.Loaded pair := by
    refine ⟨trivial, ?_⟩
    rintro (e | _) _ ⟨⟩
    · cases e with
      | notExist =>
        change Follows _ _ (seedSupportingState.bind _) _
        refine Follows.bind (follows_withBootstrapLock (fun _ => hq)
          ((aside_seedSupportingStateLocked _).mono ?_))
        rintro (e | _) _ ⟨touching, rfl⟩
        · exact ⟨rfl, hq⟩
        · refine ⟨rfl, trivial, ?_⟩
          rintro (e | _) _ ⟨⟩ <;> exact hq
      | _ => exact hq
    · exact hq
  refine Follows.bind (hkept.mono ?_)
  rintro (e | _) q' hq'
  · exact of_error
  · rintro _ ⟨⟩
    exact hq'

/-- **`Init` returns the stored pair.** -/
theorem follows_init (noBootstrap : Bool) :
    Follows (protocol j) {} (init noBootstrap) fun r q => ∀ pair, r = .ok pair → q.Loaded pair := by
  refine ⟨trivial, ?_⟩
  rintro _ _ ⟨⟩
  refine (aside_cmd (c := .ensureDirs) rfl).orFail.follows_bind (fun _ _ => of_error) fun _ _ =>
    (aside_cmd (c := .initHMAC) rfl).orFail.follows_bind (fun _ _ => of_error) fun _ _ => ?_
  refine Follows.bind (Follows.attempt ((follows_loadCA rfl).mono ?_))
  rintro (e | pair) _ ⟨⟨key, bundle, rfl⟩, hloaded⟩
  · exact follows_withBootstrapLock (fun _ => of_error) (follows_initLocked rfl rfl noBootstrap)
  · exact follows_finishLoadExisting (hloaded pair rfl)

/-! #### Operators -/

/-- How a key is obtained: it is the stored one. -/
def Obtains (r : Except Failure PublicKey) (q : Known) : Prop :=
  ∀ key, r = .ok key → q.key = some key

theorem follows_getCAKey : Follows (protocol j) q (cmd .getCAKey).orFail Obtains := by
  refine ⟨trivial, ?_⟩
  rintro (e | key) _ ⟨⟩
  · exact of_error
  · rintro _ ⟨⟩
    rfl

/-- **A key is created only where there is none.** -/
theorem follows_createCAKeyLocked (hlock : q.lock = true) :
    Follows (protocol j) q createCAKeyLocked fun r q' => q'.lock = true ∧
      ∀ created, r = .ok created → ∀ key, created = some key → q'.key = some key := by
  refine ⟨trivial, ?_⟩
  rintro (e | _ | _) _ ⟨⟩
  · exact ⟨hlock, of_error⟩
  · refine ⟨trivial, ?_⟩
    rintro (e | key) _ ⟨⟩
    · exact ⟨hlock, of_error⟩
    refine ⟨trivial, ?_⟩
    rintro (e | _) _ ⟨⟩
    · exact ⟨hlock, of_error⟩
    refine ⟨⟨hlock, rfl⟩, ?_⟩
    rintro (e | _) _ ⟨⟩
    · exact ⟨hlock, of_error⟩
    · refine ⟨hlock, ?_⟩
      rintro _ ⟨⟩ _ ⟨⟩
      rfl
  · refine ⟨hlock, ?_⟩
    rintro _ ⟨⟩ _ ⟨⟩

/-- **`LoadOrCreateCAKey` returns the stored key.** -/
theorem follows_loadOrCreateCAKey (create : Bool) :
    Follows (protocol j) q (loadOrCreateCAKey create) Obtains := by
  refine ⟨trivial, ?_⟩
  rintro (e | hasKey) _ ⟨⟩
  · exact of_error
  cases hasKey with
  | true => exact follows_getCAKey
  | false =>
    cases create with
    | false => exact of_error
    | true =>
      change Follows _ _ ((withBootstrapLock createCAKeyLocked).bind _) _
      refine Follows.bind (follows_withBootstrapLock (fun _ => of_error)
        ((follows_createCAKeyLocked rfl).mono ?_))
      rintro (e | created) q' ⟨hlock, hkey⟩
      · exact ⟨hlock, of_error⟩
      refine ⟨hlock, ?_⟩
      cases created with
      | none => exact follows_getCAKey
      | some key =>
        rintro _ ⟨⟩
        exact hkey _ rfl key rfl

variable {bundle : Option (List Certificate)} {signer : PublicKey}

/-- Checking a bundle, before a program that needs it to be in order. -/
theorem follows_checkBundle_bind {f : List Certificate → Prog α}
    {Q : Except Failure α → Known → Prop}
    (herr : ∀ e, Q (.error e) q) (hf : ∀ cert rest, cert.publicKey = signer →
      Follows (protocol j) q (f (cert :: rest)) Q) :
    Follows (protocol j) q ((checkBundle bundle signer).bind f) Q := by
  rcases bundle with _ | certs
  · exact herr _
  refine ⟨trivial, ?_⟩
  rintro now _ ⟨⟩
  change Follows _ _ (Conc.Prog.bind (if _ then _ else _) _) _
  split
  · rcases certs with _ | ⟨cert, rest⟩
    · exact herr _
    change Follows _ _ (Conc.Prog.bind (if _ then _ else _) _) _
    split
    · next hsigner => exact hf cert rest hsigner
    · exact herr _
  · exact herr _

/-- What an import does after the certificate has been written. -/
theorem aside_importTail : Aside j ((cmd .savePubKey).orFail.bind fun _ =>
    (cmd .planCRLImport).orFail.bind fun changed =>
      (if changed then (cmd .updateCRL).orFail else .ret ()).bind fun _ =>
        ensureSerial.bind fun _ => touchInventory) := by
  refine (aside_cmd (c := .savePubKey) rfl).orFail.bind fun _ => ?_
  refine (aside_cmd (c := .planCRLImport) rfl).orFail.bind fun changed => ?_
  refine Aside.bind ?_ fun _ => aside_ensureSerial.bind fun _ => aside_touchInventory
  split
  · exact (aside_cmd (c := .updateCRL) rfl).orFail
  · exact aside_ret ()

/-- **What an import writes binds the stored key.** -/
theorem follows_importCAMaterial (hlock : q.lock = true) (hkey : q.key = some signer)
    (hcert : q.noCert = true ∨ ∃ b, j = .importCert b true) :
    Follows (protocol j) q (importCAMaterial bundle signer) fun _ q' => q'.lock = true := by
  refine follows_checkBundle_bind (fun _ => hlock) fun cert rest hsigner => ?_
  refine (aside_cmd (c := .ensureDirs) rfl).orFail.follows_bind (fun _ _ => hlock) fun _ _ =>
    (aside_cmd (c := .planCRLImport) rfl).orFail.follows_bind (fun _ _ => hlock) fun _ _ => ?_
  refine ⟨⟨hlock, ⟨cert, rest, rfl, hkey.trans (congrArg some hsigner.symm)⟩, hcert⟩, ?_⟩
  rintro (e | _) _ ⟨⟩
  · exact hlock
  · refine (aside_importTail _).mono ?_
    rintro _ _ ⟨touching, rfl⟩
    exact hlock

theorem follows_importLocked {force : Bool} (hforce : force = true → ∃ b, j = .importCert b true)
    (hlock : q.lock = true) (hkey : q.key = some signer) :
    Follows (protocol j) q (importLocked bundle signer force) fun _ q' => q'.lock = true := by
  refine ⟨trivial, ?_⟩
  rintro (e | hasCert) _ ⟨⟩
  · exact hlock
  cases hasCert with
  | false => exact follows_importCAMaterial hlock hkey (Or.inl rfl)
  | true =>
    cases force with
    | false => exact hlock
    | true =>
      exact (aside_cmd (c := .resignStoredCRL) rfl).orFail.follows_bind (fun _ _ => hlock)
        fun _ _ => follows_importCAMaterial hlock hkey (Or.inr (hforce rfl))

theorem follows_importCommand {force : Bool} (hforce : force = true → ∃ b, j = .importCert b true) :
    Follows (protocol j) q (importCommand bundle force) fun _ _ => True := by
  refine Follows.bind ((follows_loadOrCreateCAKey false).mono ?_)
  rintro (e | signer) q' hkey
  · trivial
  refine follows_checkBundle_bind (fun _ => trivial) fun _ _ _ =>
    follows_checkBundle_bind (fun _ => trivial) fun _ _ _ => ?_
  refine follows_withBootstrapLock (fun _ => trivial) (Follows.mono
    (follows_importLocked hforce ?_ ?_) fun _ _ hlock => ⟨hlock, trivial⟩)
  · rfl
  · exact hkey signer rfl

/-! #### Issuing -/

theorem follows_appendAttempts (e : InventoryEntry) (n : ℕ) :
    Follows (protocol j) q (appendAttempts e n) fun r q' => ∀ a, r = .ok a → q'.entry = some e := by
  induction n with
  | zero => exact of_error
  | succ n ih =>
    refine ⟨trivial, ?_⟩
    rintro (f | fence) _ ⟨⟩
    · exact of_error
    change Follows _ _ (if _ then _ else _) _
    split
    · exact of_error
    refine ⟨Or.inr (Or.inr ⟨e, rfl⟩), ?_⟩
    rintro (f | _ | r) _ ⟨⟩
    · exact of_error
    · refine ⟨trivial, ?_⟩
      rintro (f | _) _ ⟨⟩
      · exact of_error
      · exact ih
    · exact fun _ _ => rfl

/-- What a participant knows when its job is done. -/
def Promise (j : Op) (r : Except Failure Res) (q : Known) : Prop :=
  match j with
  | .init _ => ∀ pair, r = .ok (some pair) → q.Loaded pair
  | .issue e => ∀ res, r = .ok res → q.entry = some e
  | _ => True

/-- **Every participant** asks for what it may, and keeps its promise. -/
theorem follows_operation (op : Op) : Follows (protocol op) {} (operation op) (Promise op) := by
  cases op with
  | init noBootstrap =>
    refine Follows.bind ((follows_init noBootstrap).mono ?_)
    rintro (e | pair) q hloaded
    · exact fun _ h => nomatch h
    · refine ⟨trivial, ?_⟩
      rintro _ _ ⟨⟩ _ ⟨⟩
      exact hloaded pair rfl
  | createKey create =>
    refine Follows.bind ((follows_loadOrCreateCAKey create).mono ?_)
    rintro (e | key) q - <;> trivial
  | importCert bundle force =>
    refine Follows.bind ((follows_importCommand ?_).mono ?_)
    · rintro rfl
      exact ⟨bundle, rfl⟩
    · rintro (e | _) q - <;> trivial
  | issue e =>
    refine ⟨trivial, ?_⟩
    rintro _ _ ⟨⟩
    change Follows _ _ ((appendEntry e).bind _) _
    refine Follows.bind ((follows_appendAttempts e _).mono ?_)
    rintro (f | _) q hentry
    · exact of_error
    · exact fun _ _ => hentry () rfl
  | crash victim => exact ⟨trivial, fun _ _ _ => trivial⟩

end Programs

/-! ### Runs -/

/-- **A store to start on**: a stored bundle binds the stored key, and there is an inventory if
there is an entry. -/
structure State.Proper (s : State) : Prop where
  stored : s.bundles = s.caCert.toList
  binds : ∀ bundle, s.caCert = some bundle → s.Binds bundle
  marked : s.entries ≠ [] → s.marker = true
  untouched : s.touching = []
  alive : s.dead = []

theorem State.Proper.inv (h : s.Proper) : Inv careful s where
  current := by
    rw [h.stored]
    cases s.caCert <;> rfl
  bound := by
    intro bundle hb
    rw [h.stored] at hb
    exact h.binds bundle (Option.mem_toList.mp hb)
  marked := h.marked
  touched := fun _ hne => absurd h.untouched hne

theorem proper_empty : ({} : State).Proper where
  stored := rfl
  binds := fun _ h => (nomatch h)
  marked := fun h => absurd rfl h
  untouched := rfl
  alive := rfl

section Runs

variable {q : Tid → Known} {rs : List (Report machine work)}

/-- **What holds of a run**: the invariant, what the participants know, and what the reports of
those who have issued say. -/
structure Placed (careful : Prop) (s : State) (q : Tid → Known) (rs : List (Report machine work)) :
    Prop where
  inv : Inv careful s
  knows : ∀ t, (q t).Holds careful t s
  kept : careful → ∀ r ∈ rs, ∀ e, r.job = .issue e → (∃ res, r.outcome = .ok res) → e ∈ s.entries

/-- **One request.** -/
theorem Placed.exec (h : Placed careful s q rs) (hc : (q t).Allows j c) {ch : Choice} {a : c.Ans}
    (hex : exec t s c ch = some (a, s'))
    (hcare : careful → s.touching ≠ [] → s'.entries ⊆ s.entries) :
    ∃ q', (q t).next c a = some q' ∧ Placed careful s' (Function.update q t q') rs := by
  obtain ⟨halive, hstep⟩ := step_of_exec hex
  have hrule : Rule t j c s := (h.knows t).rule halive hc
  have heff : Effect t s c s' := step_effect hstep
  obtain ⟨q', hnext, hq'⟩ := (h.knows t).step h.inv halive hc hstep
  refine ⟨q', hnext, h.inv.effect hrule heff hcare, fun u => ?_, fun hcare r hr e hj hres =>
    entry_kept h.inv hrule heff hcare (h.kept hcare r hr e hj hres)⟩
  rcases eq_or_ne u t with rfl | hne
  · rwa [Function.update_self]
  · rw [Function.update_of_ne hne]
    exact (h.knows u).effect h.inv hrule heff (Or.inl hne.symm)

/-- **One report.** -/
theorem Placed.report (h : Placed careful s q rs) {r : Except Failure Res}
    (hr : Promise j r (q t)) : Placed careful s (Function.update q t {}) (⟨t, j, r⟩ :: rs) := by
  refine ⟨h.inv, fun u => ?_, fun hcare r' hr' e hj hres => ?_⟩
  · rcases eq_or_ne u t with rfl | hne
    · rw [Function.update_self]
      exact Known.holds_nothing
    · rw [Function.update_of_ne hne]
      exact h.knows u
  · rcases List.mem_cons.mp hr' with rfl | hr'
    · subst hj
      obtain ⟨res, hres⟩ := hres
      exact (h.knows t).entry hcare e (hr res hres)
    · exact h.kept hcare r' hr' e hj hres

variable {s₀ : State} {ls : List Event} {p : Cluster}

/-- **The event adds no entry while the inventory is being created**, that is while somebody has
found that there is none, and is about to create it. -/
def Undisturbed (p : Cluster) (l : Event) : Prop :=
  ∀ q, p.next l = some q → p.shared.touching ≠ [] → q.shared.entries ⊆ p.shared.entries

variable (careful) in
/-- **A run**: every participant is somewhere in its job with what it knows. -/
theorem placed_of_run (h₀ : s₀.Proper)
    (hcare : (Pool.initial s₀ : Cluster).Throughout (fun p l => careful → Undisturbed p l) ls)
    (hrun : (Pool.initial s₀ : Cluster).run ls = some p) :
    ∃ q, Placed careful p.shared q p.reports ∧
      ∀ t, (p.thread t).Heading {} protocol Promise (q t) := by
  have hinit : Placed careful s₀ (fun _ => {}) [] :=
    ⟨h₀.inv, fun _ => Known.holds_nothing, fun _ _ h => by cases h⟩
  have hidle : ∀ t, ((Pool.initial s₀ : Cluster).thread t).Heading {} protocol Promise {} :=
    fun _ => rfl
  have hmenu : ∀ t op, (.start t op : Event) ∈ ls → True := fun _ _ _ => trivial
  refine Pool.heading_run (Placed careful) (fun _ op _ => follows_operation op) ?_
    (fun h => h.report) hinit hidle hcare hmenu hrun
  intro p t ch j c k a s q hthread hundisturbed hex h hc
  refine h.exec hc hex fun hcare => hundisturbed hcare { p.setThread t (.running j (k a)) with
    shared := s } ?_
  have hex : exec t p.shared c ch = some (a, s) := hex
  simp [Pool.next, Pool.advance, hthread, hex]

/-- **There is only ever one authority.** Any number of replicas start, operators create keys, and
install certificates with and without force; any request may fail, with or without an effect, and
anyone may crash at any time. Then, at every moment, every bundle that was ever stored binds the
stored key; the next event neither replaces a stored key nor, unless it is that of a forced import,
a stored certificate; and a start that is about to return a pair has loaded the stored key and a
certificate that was the stored one at some time since it began. -/
theorem one_authority (h₀ : s₀.Proper) (hrun : (Pool.initial s₀ : Cluster).run ls = some p) :
    (p.shared.caCert = p.shared.bundles.head? ∧
      ∀ bundle ∈ p.shared.bundles, p.shared.Binds bundle) ∧
    (∀ l q, p.next l = some q →
      (∀ key, p.shared.caKey = some key → q.shared.caKey = some key) ∧
      ∀ bundle, p.shared.caCert = some bundle → q.shared.caCert = some bundle ∨
        ∃ t ch b rest, l = .step t ch ∧ p.thread t = .running (.importCert b true) rest) ∧
    ∀ t noBootstrap pair,
      p.thread t = .running (.init noBootstrap) (Conc.Prog.ofExcept (.ok (some pair))) →
      Loaded t pair p.shared := by
  obtain ⟨q, h, hat⟩ := placed_of_run False h₀
    (Pool.throughout_of_forall fun _ _ => False.elim) hrun
  refine ⟨⟨h.inv.current, h.inv.bound⟩, fun l p' hnext => ?_, ?_⟩
  · obtain ⟨t, j, rfl, -, rfl⟩ | ⟨t, ch, j, c, k, a, s, rfl, ht, hex, rfl⟩ |
      ⟨t, j, r, rfl, -, rfl⟩ := Pool.next_cases hnext
    · exact ⟨fun _ h => h, fun _ h => Or.inl h⟩
    · -- A request is executed by somebody alive, who asks for what it may.
      obtain ⟨halive, hstep⟩ := step_of_exec hex
      have hthread := hat t
      rw [ht] at hthread
      have hrule : Rule t j c p.shared := (h.knows t).rule halive hthread.1
      have heff : Effect t p.shared c s := step_effect hstep
      refine ⟨fun key => caKey_kept hrule heff, fun bundle hbundle => ?_⟩
      cases heff with
      | saveCACert bundle' =>
        rcases hrule.2.2 with hnone | ⟨b, rfl⟩
        · cases hnone.symm.trans hbundle
        · exact Or.inr ⟨t, ch, b, _, rfl, ht⟩
      | _ => exact Or.inl hbundle
    · exact ⟨fun _ h => h, fun _ h => Or.inl h⟩
  · intro t noBootstrap pair ht
    have hthread := hat t
    rw [ht] at hthread
    obtain ⟨hbegan, hkey, hpair, rest, hbundle⟩ := hthread pair rfl
    have hknows := h.knows t
    exact ⟨hknows.key _ hkey, hpair, rest, hknows.began hbegan, hknows.bundle hbegan _ hbundle⟩

/-- **No issuance is erased.** Any number of replicas start and issue, and anyone may crash; if no
append takes effect while somebody who has found no inventory is about to create one, every entry
whose append was reported to have succeeded is in the inventory ever after. -/
theorem issuances_kept (h₀ : s₀.Proper)
    (hcare : (Pool.initial s₀ : Cluster).Throughout Undisturbed ls)
    (hrun : (Pool.initial s₀ : Cluster).run ls = some p) :
    ∀ r ∈ p.reports, ∀ e, r.job = .issue e → (∃ res, r.outcome = .ok res) →
      e ∈ p.shared.entries := by
  obtain ⟨q, h, -⟩ := placed_of_run True h₀ (hcare.mono fun h _ => h) hrun
  exact h.kept trivial

end Runs

/-! ### Runs of two replicas -/

section Samples

def sampleEntry : InventoryEntry where
  serial := "0001".toList
  notBefore := some 0
  notAfter := some 1000
  subject := "/n".toList

/-- A number of requests of a thread, none of which fails. -/
def steps (n : ℕ) (t : Tid) : List Event := List.replicate n (.step t {})

def call (t : Tid) (op : Op) (n : ℕ) : List Event := [.start t op] ++ steps n t ++ [.finish t]

/-- Whether the report is that of the sample's append, which has succeeded. -/
def isIssued (r : Report machine work) : Bool :=
  match r.job, r.outcome with
  | .issue e, .ok _ => decide (e = sampleEntry)
  | _, _ => false

theorem issued_of_isIssued {r : Report machine work} (h : isIssued r = true) :
    r.job = .issue sampleEntry ∧ ∃ res, r.outcome = .ok res := by
  unfold isIssued at h
  split at h
  · next hjob hout => exact ⟨of_decide_eq_true h ▸ hjob, _, hout⟩
  · cases h

/-- Replica 0 creates an authority and has found no inventory when replica 1 starts, which takes
nothing but what is stored by then, and issues; replica 0 then creates the inventory. -/
def erasingEvents : List Event :=
  [.start ⟨0, 0⟩ (.init false)] ++ steps 15 ⟨0, 0⟩ ++ call ⟨1, 0⟩ (.init false) 7 ++
    call ⟨1, 0⟩ (.issue sampleEntry) 3 ++ steps 5 ⟨0, 0⟩ ++ [.finish ⟨0, 0⟩]

/-- **An issuance can be erased by the start of another replica.** Nothing fails and nobody
crashes. -/
theorem issuance_erased : ∃ p, ({} : State).Proper ∧
    (Pool.initial ({} : State) : Cluster).run erasingEvents = some p ∧
    (∀ r ∈ p.reports, ∃ res, r.outcome = .ok res) ∧
    (∃ r ∈ p.reports, r.job = .issue sampleEntry ∧ ∃ res, r.outcome = .ok res) ∧
    sampleEntry ∉ p.shared.entries := by
  have hseen : ((Pool.initial ({} : State) : Cluster).run erasingEvents).map
      (fun p => (p.reports.all fun r => r.outcome.toBool, p.reports.any isIssued,
        p.shared.entries)) = some (true, true, []) := by
    decide +kernel
  obtain ⟨p, hp, hp'⟩ := Option.map_eq_some_iff.mp hseen
  simp only [Prod.mk.injEq] at hp'
  obtain ⟨hok, hany, hentries⟩ := hp'
  obtain ⟨r, hr, hissued⟩ := List.any_eq_true.mp hany
  refine ⟨p, proper_empty, hp, fun r hr => ?_, ⟨r, hr, issued_of_isIssued hissued⟩, ?_⟩
  · have hbool := List.all_eq_true.mp hok r hr
    cases hout : r.outcome with
    | ok res => exact ⟨res, rfl⟩
    | error e =>
      rw [hout] at hbool
      cases hbool
  · rw [hentries]
    exact List.not_mem_nil

/-- Whether the event adds no entry while the inventory is being created. -/
def checkUndisturbed (p : Cluster) (l : Event) : Bool :=
  (p.next l).all fun q =>
    p.shared.touching.isEmpty || q.shared.entries.all (· ∈ p.shared.entries)

theorem undisturbed_of_check {p : Cluster} {l : Event} (h : checkUndisturbed p l = true) :
    Undisturbed p l := by
  intro q hnext hne e he
  rw [checkUndisturbed, hnext] at h
  have hall : ∀ e ∈ q.shared.entries, e ∈ p.shared.entries := by simpa [hne] using h
  exact hall e he

/-- Where replica 0 has finished before replica 1 issues, the entry stays. -/
theorem issuances_kept_sample : ∃ ls p, (Pool.initial ({} : State) : Cluster).run ls = some p ∧
    sampleEntry ∈ p.shared.entries := by
  let ls : List Event := call ⟨0, 0⟩ (.init false) 20 ++ call ⟨1, 0⟩ (.init false) 7 ++
    call ⟨1, 0⟩ (.issue sampleEntry) 3
  have hseen : ((Pool.initial ({} : State) : Cluster).run ls).map
      (fun p => p.reports.any isIssued) = some true := by
    decide +kernel
  have hcheck :
      (Pool.initial ({} : State) : Cluster).checkThroughout checkUndisturbed ls = true := by
    decide +kernel
  obtain ⟨p, hp, hany⟩ := Option.map_eq_some_iff.mp hseen
  obtain ⟨r, hr, hissued⟩ := List.any_eq_true.mp hany
  obtain ⟨hjob, hout⟩ := issued_of_isIssued hissued
  exact ⟨ls, p, hp, issuances_kept proper_empty
    (Pool.throughout_of_check undisturbed_of_check hcheck) hp r hr sampleEntry hjob hout⟩

/-- The certificate an operator installs. -/
def sampleCert : Certificate where
  serialNumber := 7
  subject := { commonName := "CA".toList }
  notAfter := 1000
  publicKey := ⟨.ecdsa .p256, 0⟩
  signedBy := ⟨.ecdsa .p256, 0⟩
  isCA := true
  maySignCertificates := true
  maySignCRLs := true

/-- A replica creates an authority, crashes when it has published the list, and an operator installs
another certificate by force: both certificates bind the stored key. -/
theorem one_authority_sample : ∃ ls p, (Pool.initial ({} : State) : Cluster).run ls = some p ∧
    p.shared.bundles.length = 2 ∧ ∀ bundle ∈ p.shared.bundles, p.shared.Binds bundle := by
  let ls : List Event := [.start ⟨0, 0⟩ (.init false)] ++ steps 14 ⟨0, 0⟩ ++
    call ⟨2, 0⟩ (.crash ⟨0, 0⟩) 1 ++ call ⟨1, 0⟩ (.importCert (some [sampleCert]) true) 21
  have hseen : ((Pool.initial ({} : State) : Cluster).run ls).map
      (fun p => p.shared.bundles.length) = some 2 := by
    decide +kernel
  obtain ⟨p, hp, hlen⟩ := Option.map_eq_some_iff.mp hseen
  exact ⟨ls, p, hp, hlen, (one_authority proper_empty hp).1.2⟩

end Samples

end OpenvoxCa.Ca.Startup
