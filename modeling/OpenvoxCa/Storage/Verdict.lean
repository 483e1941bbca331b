import OpenvoxCa.Storage.Service

/-!
# When the inventory is called tampered with

Every mutation of a structured backend changes the entries and the integrity head at once, so the
two agree at every moment. A comparison nevertheless takes two requests, and the mutex that covers
them is that of one process: what another replica appends or prunes in between makes the replica
compare the head of one inventory with the entries of another. The same holds for the first head of
a store, which is computed from the entries by one request and written by another.

Both are settled here by one argument. `Care` says which of these stretches no mutation of another
replica may fall into. In the runs in which none does, the head, where there is one, is the chain
over the entries (`Inv`), and what a thread has learnt from the answers it has got is so (`Known`):
in the middle of such a stretch, that the entries are still those it has seen. And so

* no call of theirs reports tampering
  (`not_tampered_of_undisturbed`);
* from a store without a key and without a head they arrive at one key and at the head of the
  entries (`coldStart_agrees`); the key is agreed on in every run.

The lock on the key is the reason why the key needs no care: it is written by whoever holds the
lock and has found none.
-/

namespace OpenvoxCa.Storage.Service

open Conc

variable {hmac : Bytes → Bytes → Bytes}

/-! ### Stretches between two requests -/

/-- **Which stretches are left alone by the mutations of other replicas.** -/
structure Care where
  /-- Those from the read of the entries to the write of a first head. -/
  baselines : Bool
  /-- Those from the first read of a comparison to its second. -/
  comparisons : Bool

def Care.full : Care := ⟨true, true⟩

/-- A thread that has read this is in such a stretch. -/
def Care.guards (care : Care) : List Read → Bool
  | [.entries, .head false] => care.baselines
  | [.entries] => care.comparisons
  | [.head true] => care.comparisons
  | _ => false

/-- The request changes the entries. -/
def Cmd.mutates : Cmd → Bool
  | appendEntry _ _ => true
  | pruneEntries _ _ => true
  | _ => false

/-- **No thread of another replica is in such a stretch.** -/
def State.Undisturbed (s : State) (care : Care) (t : Tid) : Prop :=
  ∀ x ∈ s.log, x.1.replica = t.replica ∨ care.guards (s.reads x.1) = false

instance {s : State} {care : Care} {t : Tid} : Decidable (s.Undisturbed care t) :=
  inferInstanceAs (Decidable (∀ x ∈ s.log, _ ∨ _))

variable {s s' : State} {care : Care}

theorem State.Undisturbed.guards {t u : Tid} (h : s.Undisturbed care t)
    (hne : u.replica ≠ t.replica) : care.guards (s.reads u) = false := by
  cases hreads : s.reads u with
  | nil => rfl
  | cons r rs =>
    -- What the thread has read is in the log, and the log is what is looked at.
    have hmem : r ∈ s.reads u := hreads ▸ List.mem_cons_self
    obtain ⟨x, hx, -⟩ := List.mem_map.mp hmem
    obtain ⟨hxl, hxu⟩ := List.mem_filter.mp hx
    have hu : x.1 = u := by simpa using hxu
    have := h x hxl
    rw [hu, hreads] at this
    exact this.resolve_left hne

/-! ### What a request can do -/

/-- **What a request can do to the state.** -/
inductive Effect (hmac : Bytes → Bytes → Bytes) (t : Tid) (s : State) : Cmd → State → Prop
  | none (c : Cmd) : Effect hmac t s c s
  | lock : (s.inventoryMu t.replica).writer = none → (s.inventoryMu t.replica).readers = [] →
      Effect hmac t s .lock ((s.setMu t.replica ⟨some t, []⟩).forget t)
  | unlock : Effect hmac t s .unlock ((s.setMu t.replica {}).forget t)
  | rlock : (s.inventoryMu t.replica).writer = none → Effect hmac t s .rlock
      ((s.setMu t.replica ⟨none, t :: (s.inventoryMu t.replica).readers⟩).forget t)
  | runlock : Effect hmac t s .runlock ((s.setMu t.replica
      { s.inventoryMu t.replica with
        readers := (s.inventoryMu t.replica).readers.erase t }).forget t)
  | lockKey : s.keyLock = none → Effect hmac t s .lockKey { s with keyLock := some t }
  | unlockKey : Effect hmac t s .unlockKey { s with keyLock := none }
  | setKey (key : Bytes) : Effect hmac t s (.setKey key)
      { s with hmacKey := Function.update s.hmacKey t.replica (some key) }
  | setStarted : Effect hmac t s .setStarted
      { s with started := Function.update s.started t.replica true }
  | putStoredKey (key : Bytes) : Effect hmac t s (.putStoredKey key)
    { s with storedKey := some key }
  | read (c : Cmd) (r : Read) : Effect hmac t s c (s.noteRead t r)
  | putHead (head : Bytes) : Effect hmac t s (.putHead head) ({ s with head := some head }.forget t)
  | append (e : InventoryEntry) (key : Option Bytes) :
      Effect hmac t s (.appendEntry e key) (s.append hmac e key)
  | prune (keep : InventoryEntry → Bool) (key : Option Bytes) :
      Effect hmac t s (.pruneEntries keep key) (s.prune hmac keep key)

variable {ch : Choice}

/-- A request that may fail has the effect it has, or none. -/
theorem effect_of_mayFail {t : Tid} {c : Cmd} {α : Type} {r : Except Failure α × State}
    {a : Except Failure α} (h : mayFail ch s r = some (a, s')) (hr : Effect hmac t s c r.2) :
    Effect hmac t s c s' := by
  rcases mayFail_state h with ⟨-, rfl⟩ | ⟨-, rfl⟩
  · exact .none c
  · exact hr

theorem exec_effect {t : Tid} {c : Cmd} {a : c.Ans} (h : exec hmac t s c ch = some (a, s')) :
    Effect hmac t s c s' := by
  cases c with
  | lock =>
    simp only [exec] at h
    split at h
    · next hfree =>
      cases h
      exact .lock hfree.1 hfree.2
    · cases h
  | unlock =>
    cases h
    exact .unlock
  | rlock =>
    simp only [exec] at h
    split at h
    · next hfree =>
      cases h
      exact .rlock hfree
    · cases h
  | runlock =>
    cases h
    exact .runlock
  | lockKey =>
    simp only [exec] at h
    split at h
    · cases h
      exact .none _
    · split at h
      · next hfree =>
        cases h
        exact .lockKey hfree
      · cases h
  | unlockKey =>
    cases h
    exact .unlockKey
  | getKey =>
    cases h
    exact .none _
  | setKey key =>
    cases h
    exact .setKey key
  | awaitStarted =>
    simp only [exec] at h
    split at h
    · cases h
      exact .none _
    · cases h
  | setStarted =>
    cases h
    exact .setStarted
  | getStoredKey | randomKey | getInventory | hasCRL => exact effect_of_mayFail h (.none _)
  | putStoredKey key => exact effect_of_mayFail h (.putStoredKey key)
  | entries | getHead => exact effect_of_mayFail h (.read _ _)
  | putHead head => exact effect_of_mayFail h (.putHead head)
  | appendEntry e key =>
    refine effect_of_mayFail h ?_
    split
    · exact .none _
    · exact .append e key
  | pruneEntries keep key =>
    refine effect_of_mayFail h ?_
    split
    · exact .none _
    · exact .prune keep key

/-! ### What holds at every moment -/

variable {key : Bytes}

namespace State

/-- The key that is stored, and that has the right length. -/
def KeyIs (s : State) (key : Bytes) : Prop := s.storedKey = some key ∧ key.length = hmacKeyLen

/-- The thread holds the mutex of its replica, to write or to read. -/
def Holds (s : State) (t : Tid) : Bool → Prop
  | true => (s.inventoryMu t.replica).writer = some t
  | false => t ∈ (s.inventoryMu t.replica).readers

theorem KeyIs.unique {key' : Bytes} (h : s.KeyIs key) (h' : s.KeyIs key') : key = key' :=
  Option.some.inj (h.1.symm.trans h'.1)

end State

variable (hmac) in
/-- **What holds at every moment.** -/
structure Inv (care : Care) (s : State) : Prop where
  /-- The replicas use the stored key. -/
  held : ∀ r key, s.hmacKey r = some key → s.KeyIs key
  /-- A replica that serves has a key, and there is a head. -/
  serving : ∀ r, s.started r = true → (s.hmacKey r).isSome ∧ s.head.isSome
  /-- Whoever writes is alone. -/
  alone : ∀ r, (s.inventoryMu r).writer.isSome → (s.inventoryMu r).readers = []
  /-- A head was computed with a stored key. -/
  headed : s.head.isSome → ∃ key, s.KeyIs key
  /-- The head is the chain over the entries. -/
  chained : care.baselines = true → ∀ head key, s.head = some head → s.KeyIs key →
    head = foldInventoryHead hmac key s.entries

variable (hmac) in
/-- **What a thread may do.** The key is written by whoever holds the lock and finds none; the head
is written by whoever knows the entries; the entries change under the mutex, and the head with
them. -/
def Allowed (care : Care) (t : Tid) (c : Cmd) (s : State) : Prop :=
  match c with
  | .unlock => s.Holds t true
  | .runlock => s.Holds t false
  | .unlockKey => s.keyLock = some t
  | .putStoredKey key => s.keyLock = some t ∧ (∀ key, ¬s.KeyIs key) ∧ key.length = hmacKeyLen
  | .setKey key => s.KeyIs key
  | .setStarted => (s.hmacKey t.replica).isSome ∧ s.head.isSome
  | .putHead head => ∃ key, s.KeyIs key ∧
      (care.baselines = true → head = foldInventoryHead hmac key s.entries)
  | .appendEntry _ key => s.Holds t true ∧ s.head.isSome ∧ ∃ k, key = some k ∧ s.KeyIs k
  | .pruneEntries _ key => s.Holds t true ∧ s.head.isSome ∧ ∃ k, key = some k ∧ s.KeyIs k
  | _ => True

section Invariant

variable {t u : Tid} {c : Cmd}

/-- A step that leaves the store, the keys and the marks of the replicas alone keeps the
invariant, if the mutexes stay in order. -/
theorem Inv.congr (h : Inv hmac care s) (hkey : s'.hmacKey = s.hmacKey)
    (hstarted : s'.started = s.started) (hhead : s'.head = s.head)
    (hstored : s'.storedKey = s.storedKey) (hentries : s'.entries = s.entries)
    (halone : ∀ r, (s'.inventoryMu r).writer.isSome → (s'.inventoryMu r).readers = []) :
    Inv hmac care s' where
  held := by
    rw [hkey]
    simpa only [State.KeyIs, hstored] using h.held
  serving := by
    rw [hstarted, hkey, hhead]
    exact h.serving
  alone := halone
  headed := by
    rw [hhead]
    simpa only [State.KeyIs, hstored] using h.headed
  chained := by
    rw [hhead, hentries]
    simpa only [State.KeyIs, hstored] using h.chained

/-- The mutex of one replica is set to one that is in order. -/
theorem Inv.setMu (h : Inv hmac care s) {r : Replica} {m : RWMutex}
    (hm : m.writer.isSome → m.readers = []) : Inv hmac care ((s.setMu r m).forget t) := by
  refine h.congr rfl rfl rfl rfl rfl fun r' => ?_
  change (Function.update s.inventoryMu r m r').writer.isSome → _
  rcases eq_or_ne r' r with rfl | hne
  · simpa [State.setMu, State.forget] using hm
  · simpa [State.setMu, State.forget, hne] using h.alone r'

/-- The entries and the head change together, under the stored key. -/
theorem Inv.mutate (h : Inv hmac care s) (hkey : s.KeyIs key) {entries : List InventoryEntry}
    {head : Bytes} (hchain : care.baselines = true → head = foldInventoryHead hmac key entries) :
    Inv hmac care { s with entries := entries, head := some head } where
  held := h.held
  serving := fun r hr => ⟨(h.serving r hr).1, rfl⟩
  alone := h.alone
  headed := fun _ => ⟨key, hkey⟩
  chained := by
    intro hcare head' key' hhead hkey'
    obtain rfl := Option.some.inj hhead
    obtain rfl := hkey.unique hkey'
    exact hchain hcare

/-- **Allowed requests keep the invariant.** -/
theorem Inv.effect (h : Inv hmac care s) (hall : Allowed hmac care t c s)
    (heff : Effect hmac t s c s') : Inv hmac care s' := by
  cases heff with
  | none => exact h
  | lock _ _ | unlock => exact h.setMu fun _ => rfl
  | rlock hw => exact h.setMu nofun
  | runlock =>
    refine h.setMu fun hw => ?_
    change (s.inventoryMu t.replica).readers.erase t = []
    rw [h.alone _ hw]
    rfl
  | lockKey _ | unlockKey | read _ _ => exact h.congr rfl rfl rfl rfl rfl h.alone
  | setKey key =>
    have hk : s.KeyIs key := hall
    exact
    { held := by
        intro r k hr
        change Function.update s.hmacKey t.replica (some key) r = some k at hr
        rcases eq_or_ne r t.replica with rfl | hne
        · rw [Function.update_self] at hr
          obtain rfl := Option.some.inj hr
          exact hk
        · rw [Function.update_of_ne hne] at hr
          exact h.held r k hr
      serving := by
        intro r hr
        refine ⟨?_, (h.serving r hr).2⟩
        change (Function.update s.hmacKey t.replica (some key) r).isSome
        rcases eq_or_ne r t.replica with rfl | hne
        · simp
        · rw [Function.update_of_ne hne]
          exact (h.serving r hr).1
      alone := h.alone
      headed := h.headed
      chained := h.chained }
  | setStarted =>
    refine { h with serving := fun r hr => ?_ }
    change Function.update s.started t.replica true r = true at hr
    rcases eq_or_ne r t.replica with rfl | hne
    · exact hall
    · rw [Function.update_of_ne hne] at hr
      exact h.serving r hr
  | putStoredKey key =>
    -- Nobody has a key yet, and so there is no head either.
    obtain ⟨-, hnone, hlen⟩ := hall
    have hhead : s.head = Option.none := by
      cases hs : s.head with
      | none => rfl
      | some head =>
        obtain ⟨k, hk⟩ := h.headed (by rw [hs]; rfl)
        exact absurd hk (hnone k)
    exact
    { held := fun r k hr => absurd (h.held r k hr) (hnone k)
      serving := h.serving
      alone := h.alone
      headed := fun hs => absurd (h.headed hs) fun ⟨k, hk⟩ => hnone k hk
      chained := fun _ head _ hs => by
        rw [show s.head = some head from hs] at hhead
        cases hhead }
  | putHead head =>
    obtain ⟨key, hkey, hchain⟩ := hall
    exact (h.mutate hkey hchain).congr rfl rfl rfl rfl rfl h.alone
  | append e key =>
    obtain ⟨-, hhead, k, rfl, hkey⟩ := hall
    obtain ⟨head, hs⟩ := Option.isSome_iff_exists.mp hhead
    refine h.mutate hkey fun hcare => ?_
    rw [hs, h.chained hcare head k hs hkey]
    simp [foldInventoryHead]
  | prune keep key =>
    obtain ⟨-, -, k, rfl, hkey⟩ := hall
    exact h.mutate hkey fun _ => rfl

/-- **A key that is stored stays.** -/
theorem keyIs_kept (hall : Allowed hmac care t c s) (heff : Effect hmac t s c s')
    (hs : s.KeyIs key) : s'.KeyIs key := by
  cases heff with
  | putStoredKey key' => exact absurd hs (hall.2.1 key)
  | _ => exact hs

/-- What one thread reads is of no concern to what another has read. -/
theorem Effect.reads (h : Effect hmac u s c s') (hne : t ≠ u) : s'.reads t = s.reads t := by
  cases h with
  | lock _ _ | unlock | rlock _ | runlock | putHead _ => exact reads_forget_of_ne hne
  | read c r => exact reads_noteRead_of_ne hne
  | _ => rfl

/-- The mutex of a replica after it has been set. -/
theorem setMu_forget_mu {r r' : Replica} {m : RWMutex} :
    ((s.setMu r m).forget u).inventoryMu r' = if r' = r then m else s.inventoryMu r' := by
  change Function.update s.inventoryMu r m r' = _
  rw [Function.update_apply]

/-- **A thread holds the mutex until it releases it.** -/
theorem holds_kept {w : Bool} (hinv : Inv hmac care s) (hall : Allowed hmac care u c s)
    (heff : Effect hmac u s c s') (hne : t ≠ u) (hs : s.Holds t w) : s'.Holds t w := by
  -- Only the mutex of the thread's own replica matters.
  by_cases hr : t.replica = u.replica
  case neg =>
    cases heff <;> cases w <;> first
      | exact hs
      | (simp only [State.Holds, setMu_forget_mu, if_neg hr]; exact hs)
  have hwriter : ∀ v, s.Holds t true → (s.inventoryMu u.replica).writer = v → v = some t :=
    fun v h hv => hv.symm.trans (hr ▸ h)
  have hreader : s.Holds t false → (s.inventoryMu u.replica).readers ≠ [] := fun h hnil => by
    have : t ∈ (s.inventoryMu u.replica).readers := hr ▸ h
    rw [hnil] at this
    cases this
  cases heff with
  | lock hw hread =>
    cases w with
    | true => cases hwriter _ hs hw
    | false => exact absurd hread (hreader hs)
  | unlock =>
    have hu : (s.inventoryMu u.replica).writer = some u := hall
    cases w with
    | true => exact absurd (Option.some.inj (hwriter _ hs hu)).symm hne
    | false => exact absurd (hinv.alone _ (by rw [hu]; rfl)) (hreader hs)
  | rlock hw =>
    cases w with
    | true => cases hwriter _ hs hw
    | false =>
      simp only [State.Holds, setMu_forget_mu, if_pos hr]
      exact List.mem_cons_of_mem _ (hr ▸ hs)
  | runlock =>
    cases w with
    | true =>
      simp only [State.Holds, setMu_forget_mu, if_pos hr]
      exact hr ▸ hs
    | false =>
      simp only [State.Holds, setMu_forget_mu, if_pos hr]
      exact (List.mem_erase_of_ne hne).mpr (hr ▸ hs)
  | _ => exact hs

/-- Two threads of one replica do not hold the mutex at once, if one of them writes. -/
theorem State.Holds.ne_replica {w : Bool} (hinv : Inv hmac care s) (ht : s.Holds t w)
    (hu : s.Holds u true) (hne : t ≠ u) : t.replica ≠ u.replica := by
  intro hr
  have hw : (s.inventoryMu t.replica).writer = some u := hr ▸ hu
  cases w with
  | true => exact hne.symm (Option.some.inj (hw.symm.trans ht))
  | false =>
    have hmem : t ∈ (s.inventoryMu t.replica).readers := ht
    rw [hinv.alone _ (by rw [hw]; rfl)] at hmem
    cases hmem

end Invariant

/-! ### What a thread knows -/

/-- **What a thread knows**, by the answers it has got. -/
structure Known where
  /-- How it holds the mutex of its replica: to write, or to read. -/
  mu : Option Bool := none
  /-- It holds the lock on the key. -/
  keyLock : Bool := false
  /-- Under that lock, it has found no key. -/
  keyless : Bool := false
  /-- The stored key. -/
  key : Option Bytes := none
  /-- Its replica has a key. -/
  hasKey : Bool := false
  /-- Its replica serves. -/
  serves : Bool := false
  /-- There is a head. -/
  headed : Bool := false
  /-- What it has read since it has taken the mutex, the latest first. -/
  reads : List Read := []
  /-- The entries, if they are what it has read last. -/
  entries : Option (List InventoryEntry) := none
  /-- The head, if it is what it has read last. -/
  head : Option Bytes := none

namespace Known

variable (hmac) in
/-- What the thread has read last is of these entries. -/
def Fits (care : Care) (q : Known) (es : List InventoryEntry) : Prop :=
  (∀ es', q.entries = some es' → es' = es) ∧
    (care.baselines = true → ∀ head key, q.head = some head → q.key = some key →
      head = foldInventoryHead hmac key es)

variable (hmac) in
/-- **What a thread may ask for**, by what it knows. -/
def Allows (q : Known) : Cmd → Prop
  | .unlock => q.mu = some true
  | .runlock => q.mu = some false
  | .unlockKey => q.keyLock = true
  | .getKey => q.serves = true
  | .setKey key => q.key = some key
  | .setStarted => q.hasKey = true ∧ q.headed = true
  | .putStoredKey key => q.keyLock = true ∧ q.keyless = true ∧ key.length = hmacKeyLen
  | .putHead head => ∃ key es, q.mu.isSome ∧ q.key = some key ∧
      q.reads = [.entries, .head false] ∧ q.entries = some es ∧ head = foldInventoryHead hmac key es
  | .appendEntry _ key => q.mu = some true ∧ q.headed = true ∧ ∃ k, key = some k ∧ q.key = some k
  | .pruneEntries _ key => q.mu = some true ∧ q.headed = true ∧ ∃ k, key = some k ∧ q.key = some k
  | _ => True

variable (hmac) in
/-- **Which answers it has to expect**: a replica that serves has a key, what is read in one stretch
fits together, and no request accuses anybody. -/
def Expects (care : Care) (q : Known) : (c : Cmd) → c.Ans → Prop
  | .getKey, (key : Option Bytes) => key.isSome
  | .randomKey, .ok fresh => fresh.length = hmacKeyLen
  | .entries, .ok es => q.mu.isSome → care.guards q.reads = true → q.Fits hmac care es
  | .getHead, .ok head => q.mu.isSome → care.guards q.reads = true → care.baselines = true →
      ∀ es key, q.entries = some es → q.key = some key → head = foldInventoryHead hmac key es
  | .lockKey, .error e | .getStoredKey, .error e | .putStoredKey _, .error e
  | .randomKey, .error e | .entries, .error e | .getInventory, .error e | .getHead, .error e
  | .putHead _, .error e | .hasCRL, .error e | .appendEntry _ _, .error e
  | .pruneEntries _ _, .error e => e ≠ .tampered
  | _, _ => True

/-- **What it learns from an answer.** -/
def learn (q : Known) : (c : Cmd) → c.Ans → Known
  | .lock, _ => { q with mu := some true, reads := [], entries := none, head := none }
  | .rlock, _ => { q with mu := some false, reads := [], entries := none, head := none }
  | .unlock, _ => { q with mu := none }
  | .runlock, _ => { q with mu := none }
  | .lockKey, .ok _ => { q with keyLock := true, keyless := false }
  | .unlockKey, _ => { q with keyLock := false }
  | .getKey, some key => { q with key := some key, headed := true, head := none }
  | .setKey _, _ => { q with hasKey := true }
  | .awaitStarted, _ => { q with serves := true }
  | .getStoredKey, .ok stored => match usable stored with
    | some key => { q with key := some key, head := none }
    | none => { q with keyless := true }
  | .getStoredKey, .error .notExist => { q with keyless := true }
  | .putStoredKey key, .ok _ => { q with keyless := false, key := some key, head := none }
  | .entries, .ok es => { q with reads := .entries :: q.reads, entries := some es, head := none }
  | .getHead, .ok head =>
    { q with headed := true, reads := .head true :: q.reads, entries := none, head := some head }
  | .getHead, .error .notExist =>
    { q with reads := .head false :: q.reads, entries := none, head := none }
  | .putHead _, .ok _ => { q with headed := true, reads := [], entries := none, head := none }
  | .appendEntry _ _, .ok _ => { q with entries := none, head := none }
  | .pruneEntries _ _, .ok _ => { q with entries := none, head := none }
  | _, _ => q

variable (hmac) in
/-- **What it knows is so.** -/
structure Holds (care : Care) (t : Tid) (q : Known) (s : State) : Prop where
  mu : ∀ w, q.mu = some w → s.Holds t w
  keyLock : q.keyLock = true → s.keyLock = some t
  keyless : q.keyLock = true → q.keyless = true → ∀ key, ¬s.KeyIs key
  key : ∀ key, q.key = some key → s.KeyIs key
  hasKey : q.hasKey = true → (s.hmacKey t.replica).isSome
  serves : q.serves = true → s.started t.replica = true
  headed : q.headed = true → s.head.isSome
  reads : q.mu.isSome → s.reads t = q.reads
  seen : q.mu.isSome → care.guards q.reads = true → q.Fits hmac care s.entries

variable {q : Known} {t u : Tid} {c : Cmd}

theorem holds_nothing : ({} : Known).Holds hmac care t s :=
  ⟨nofun, nofun, nofun, nofun, nofun, nofun, nofun, nofun, nofun⟩

/-- Where nothing has been read, everything fits. -/
theorem fits_nothing {es : List InventoryEntry} (hentries : q.entries = none)
    (hhead : q.head = none) : q.Fits hmac care es := by
  simp [Fits, hentries, hhead]

/-- What it asks for is allowed. -/
theorem Holds.allowed (h : q.Holds hmac care t s) (hc : q.Allows hmac c) :
    Allowed hmac care t c s := by
  cases c with
  | unlock => exact h.mu true hc
  | runlock => exact h.mu false hc
  | unlockKey => exact h.keyLock hc
  | putStoredKey key => exact ⟨h.keyLock hc.1, h.keyless hc.1 hc.2.1, hc.2.2⟩
  | setKey key => exact h.key key hc
  | setStarted => exact ⟨h.hasKey hc.1, h.headed hc.2⟩
  | putHead head =>
    obtain ⟨key, es, hmu, hkey, hreads, hes, rfl⟩ := hc
    refine ⟨key, h.key key hkey, fun hcare => ?_⟩
    rw [(h.seen hmu (by rw [hreads]; exact hcare)).1 es hes]
  | appendEntry _ key | pruneEntries _ key =>
    obtain ⟨hmu, hhead, k, rfl, hk⟩ := hc
    exact ⟨h.mu true hmu, h.headed hhead, k, rfl, h.key k hk⟩
  | _ => trivial

/-- **What a thread knows stays so**, whatever the others do, if their mutations do not disturb
it. -/
theorem Holds.effect (h : q.Holds hmac care t s) (hinv : Inv hmac care s)
    (hall : Allowed hmac care u c s) (heff : Effect hmac u s c s') (hne : t ≠ u)
    (hcare : c.mutates = true → s.Undisturbed care u) : q.Holds hmac care t s' := by
  have hmu : ∀ w, q.mu = some w → s'.Holds t w :=
    fun w hq => holds_kept hinv hall heff hne (h.mu w hq)
  have hreads : q.mu.isSome → s'.reads t = q.reads :=
    fun hq => (heff.reads hne).trans (h.reads hq)
  -- A mutation is that of another replica, and disturbs nobody.
  have halone : s.Holds u true → s.Undisturbed care u → q.mu.isSome → care.guards q.reads ≠ true :=
    fun hu hundisturbed hq => by
      obtain ⟨w, hw⟩ := Option.isSome_iff_exists.mp hq
      rw [← h.reads hq, hundisturbed.guards ((h.mu w hw).ne_replica hinv hu hne)]
      nofun
  cases heff with
  | none => exact h
  | lock _ _ | unlock | rlock _ | runlock => exact { h with mu := hmu, reads := hreads }
  | lockKey hfree =>
    exact { h with keyLock := fun hq => by cases hfree.symm.trans (h.keyLock hq) }
  | unlockKey =>
    exact { h with
      keyLock := fun hq => absurd (Option.some.inj ((h.keyLock hq).symm.trans hall)) hne }
  | setKey key =>
    refine { h with hasKey := fun hq => ?_ }
    change (Function.update s.hmacKey u.replica (some key) t.replica).isSome
    rw [Function.update_apply]
    split
    · rfl
    · exact h.hasKey hq
  | setStarted =>
    refine { h with serves := fun hq => ?_ }
    change Function.update s.started u.replica true t.replica = true
    rw [Function.update_apply, h.serves hq, ite_self]
  | putStoredKey key =>
    exact { h with
      keyless := fun hq => absurd (Option.some.inj ((h.keyLock hq).symm.trans hall.1)) hne
      key := fun key' hq => absurd (h.key key' hq) (hall.2.1 key') }
  | read c r => exact { h with reads := hreads }
  | putHead head => exact { h with headed := fun _ => rfl, reads := hreads }
  | append _ key | prune _ key =>
    obtain ⟨hu, -, k, rfl, -⟩ := hall
    exact { h with
      headed := fun _ => rfl
      seen := fun hq hg => absurd hg (halone hu (hcare rfl) hq) }

theorem keyIs_of_usable {stored : Bytes} (hstored : s.storedKey = some stored)
    (h : usable stored = some key) : s.KeyIs key := by
  unfold usable at h
  split at h
  · next hlen =>
    obtain rfl := Option.some.inj h
    exact ⟨hstored, hlen⟩
  · cases h

theorem not_keyIs_of_usable {stored : Bytes} (hstored : s.storedKey = some stored)
    (h : usable stored = none) (key : Bytes) : ¬s.KeyIs key := by
  rintro ⟨hkey, hlen⟩
  obtain rfl := Option.some.inj (hstored.symm.trans hkey)
  simp [usable, hlen] at h

/-- **What a thread learns is so**, if it asks for what it may. -/
theorem Holds.step (h : q.Holds hmac care t s) (hinv : Inv hmac care s) (hc : q.Allows hmac c)
    {a : c.Ans} (hex : exec hmac t s c ch = some (a, s')) :
    q.Expects hmac care c a ∧ (q.learn c a).Holds hmac care t s' := by
  cases c with
  | lock | rlock =>
    simp only [exec] at hex
    split at hex
    · cases hex
      exact ⟨trivial, { h with
        mu := by
          rintro _ ⟨⟩
          simp [State.Holds, setMu_forget_mu]
        reads := fun _ => reads_forget_self
        seen := fun _ _ => fits_nothing rfl rfl }⟩
    · cases hex
  | unlock | runlock =>
    cases hex
    exact ⟨trivial, { h with mu := nofun, reads := nofun, seen := nofun }⟩
  | lockKey =>
    simp only [exec] at hex
    split at hex
    · cases hex
      exact ⟨nofun, h⟩
    · split at hex
      · cases hex
        exact ⟨trivial, { h with keyLock := fun _ => rfl, keyless := nofun }⟩
      · cases hex
  | unlockKey =>
    cases hex
    exact ⟨trivial, { h with keyLock := nofun, keyless := nofun }⟩
  | getKey =>
    cases hex
    -- A replica that serves has a key in memory, and there is a head.
    obtain ⟨hsome, hhead⟩ := hinv.serving _ (h.serves hc)
    obtain ⟨key, hkey⟩ := Option.isSome_iff_exists.mp hsome
    rw [hkey]
    exact ⟨rfl, { h with
      key := by
        rintro _ ⟨⟩
        exact hinv.held _ _ hkey
      headed := fun _ => hhead
      seen := fun hq hg => ⟨(h.seen hq hg).1, nofun⟩ }⟩
  | setKey key =>
    cases hex
    exact ⟨trivial, { h with hasKey := fun _ => by simp }⟩
  | awaitStarted =>
    simp only [exec] at hex
    split at hex
    · next hstarted =>
      cases hex
      exact ⟨trivial, { h with serves := fun _ => hstarted }⟩
    · cases hex
  | setStarted =>
    cases hex
    exact ⟨trivial, { h with serves := fun _ => by simp }⟩
  | getStoredKey =>
    rcases mayFail_state hex with ⟨rfl, rfl⟩ | ⟨rfl, rfl⟩
    · exact ⟨nofun, h⟩
    -- Whether the stored key is usable or not, the thread knows it from now on.
    cases hstored : s'.storedKey with
    | none => exact ⟨nofun, { h with keyless := fun _ _ _ hk => by cases hk.1.symm.trans hstored }⟩
    | some stored =>
      refine ⟨trivial, ?_⟩
      simp only [orNotExist, learn]
      split
      · next key hu =>
        exact { h with
          key := by
            rintro _ ⟨⟩
            exact keyIs_of_usable hstored hu
          seen := fun hq hg => ⟨(h.seen hq hg).1, nofun⟩ }
      · next hu => exact { h with keyless := fun _ _ => not_keyIs_of_usable hstored hu }
  | putStoredKey key =>
    rcases mayFail_state hex with ⟨rfl, rfl⟩ | ⟨rfl, rfl⟩
    · exact ⟨nofun, h⟩
    · exact ⟨trivial, { h with
        keyless := nofun
        key := by
          rintro _ ⟨⟩
          exact ⟨rfl, hc.2.2⟩
        seen := fun hq hg => ⟨(h.seen hq hg).1, nofun⟩ }⟩
  | randomKey =>
    rcases mayFail_state hex with ⟨rfl, rfl⟩ | ⟨rfl, rfl⟩
    · exact ⟨nofun, h⟩
    · exact ⟨length_fillKey _, h⟩
  | entries =>
    rcases mayFail_state hex with ⟨rfl, rfl⟩ | ⟨rfl, rfl⟩
    · exact ⟨nofun, h⟩
    · refine ⟨h.seen, { h with
        reads := fun hq => reads_noteRead_self.trans (congrArg _ (h.reads hq))
        seen := fun _ _ => ⟨?_, nofun⟩ }⟩
      rintro _ ⟨⟩
      rfl
  | getInventory | hasCRL =>
    rcases mayFail_state hex with ⟨rfl, rfl⟩ | ⟨rfl, rfl⟩
    · exact ⟨nofun, h⟩
    · exact ⟨trivial, h⟩
  | getHead =>
    rcases mayFail_state hex with ⟨rfl, rfl⟩ | ⟨rfl, rfl⟩
    · exact ⟨nofun, h⟩
    -- The read is noted: it may begin a stretch that others are to leave alone.
    have hreads : q.mu.isSome →
        (s.noteRead t (.head s.head.isSome)).reads t = .head s.head.isSome :: q.reads :=
      fun hq => reads_noteRead_self.trans (congrArg _ (h.reads hq))
    cases hhead : s.head with
    | none =>
      rw [hhead] at hreads
      exact ⟨nofun, { h with reads := hreads, seen := fun _ _ => fits_nothing rfl rfl }⟩
    | some head =>
      rw [hhead] at hreads
      have hchain : care.baselines = true → ∀ key, q.key = some key →
          head = foldInventoryHead hmac key s.entries :=
        fun hb key hkey => hinv.chained hb head key hhead (h.key key hkey)
      -- Where entries were read before, they are still there, and the head is the chain over them.
      refine ⟨fun hq hg hb es key hes hkey => ?_, { h with
        headed := fun _ => Option.isSome_iff_exists.mpr ⟨head, hhead⟩
        reads := hreads
        seen := fun _ _ => ⟨nofun, ?_⟩ }⟩
      · rw [(h.seen hq hg).1 es hes]
        exact hchain hb key hkey
      · rintro hb _ key ⟨⟩ hkey
        exact hchain hb key hkey
  | putHead head =>
    rcases mayFail_state hex with ⟨rfl, rfl⟩ | ⟨rfl, rfl⟩
    · exact ⟨nofun, h⟩
    · exact ⟨trivial, { h with
        headed := fun _ => rfl
        reads := fun _ => reads_forget_self
        seen := fun _ _ => fits_nothing rfl rfl }⟩
  | appendEntry e key =>
    obtain ⟨-, -, k, rfl, -⟩ := hc
    rcases mayFail_state hex with ⟨rfl, rfl⟩ | ⟨rfl, rfl⟩
    · exact ⟨nofun, h⟩
    · split
      · exact ⟨nofun, h⟩
      · exact ⟨trivial, { h with
          headed := fun _ => rfl
          seen := fun _ _ => fits_nothing rfl rfl }⟩
  | pruneEntries keep key =>
    obtain ⟨-, -, k, rfl, -⟩ := hc
    rcases mayFail_state hex with ⟨rfl, rfl⟩ | ⟨rfl, rfl⟩
    · exact ⟨nofun, h⟩
    · split
      · exact ⟨trivial, { h with seen := fun _ _ => fits_nothing rfl rfl }⟩
      · exact ⟨trivial, { h with
          headed := fun _ => rfl
          seen := fun _ _ => fits_nothing rfl rfl }⟩

end Known

/-! ### The programs -/

/-- **The verdict of a call**: it does not speak of tampering, if the stretches are left alone. -/
def Sober {α : Type} (care : Care) (r : Except Failure α) : Prop :=
  care.baselines = true → care.comparisons = true → r ≠ .error .tampered

variable (hmac) in
open Classical in
/-- **What is asked of a thread**, and what it makes of the answers it expects. -/
noncomputable def protocol (care : Care) : Protocol interface Known where
  Allows := Known.Allows hmac
  next := fun q c a => if q.Expects hmac care c a then some (q.learn c a) else none

section Programs

variable {q : Known} {w : Bool} {es : List InventoryEntry} {α β : Type}
  {Q : Except Failure α → Known → Prop}

theorem sober_ok (a : α) : Sober care (.ok a) := fun _ _ => nofun

theorem sober_error {e : Failure} (h : e ≠ .tampered) : Sober care (.error e : Except Failure α) :=
  fun _ _ he => h (Except.error.inj he)

theorem Sober.error {e : Failure} (h : Sober care (.error e : Except Failure α)) :
    Sober care (.error e : Except Failure β) :=
  fun hb hc he => h hb hc (congrArg _ (Except.error.inj he))

/-- **One request.** -/
theorem follows_ask {c : Cmd} {k : c.Ans → Prog α} (hc : q.Allows hmac c)
    (hk : ∀ a, q.Expects hmac care c a → Follows (protocol hmac care) (q.learn c a) (k a) Q) :
    Follows (protocol hmac care) q ((cmd c).bind k) Q := by
  refine ⟨hc, fun a q' hq' => ?_⟩
  obtain ⟨ha, hq'⟩ := Option.ite_none_right_eq_some.mp hq'
  obtain rfl := Option.some.inj hq'
  exact hk a ha

/-- **Loading the key.** -/
theorem follows_loadHMACKey {Q : Except Failure (Option Bytes) → Known → Prop}
    (herr : ∀ e, e ≠ .tampered → Q (.error e) q)
    (hkey : ∀ key, Q (.ok (some key)) { q with key := some key, head := none })
    (hnone : Q (.ok none) { q with keyless := true }) :
    Follows (protocol hmac care) q loadHMACKey Q := by
  refine follows_ask trivial ?_
  rintro (e | stored) ha
  · cases e with
    | notExist => exact hnone
    | _ => exact herr _ ha
  · change Follows _ (match usable stored with | some _ => _ | none => _) (.ret (usable stored)) _
    cases usable stored with
    | none => exact hnone
    | some key => exact hkey key

/-- How the key is obtained: it is the stored one. -/
def Obtains (r : Except Failure Bytes) (q : Known) : Prop :=
  match r with
  | .ok key => q.key = some key
  | .error e => e ≠ .tampered

theorem follows_ensureHMACKeyLocked (hq : q.keyLock = true) :
    Follows (protocol hmac care) q ensureHMACKeyLocked fun r q' =>
      q'.keyLock = true ∧ Obtains r q' := by
  refine Follows.bind (follows_loadHMACKey (fun e he => ⟨hq, he⟩) (fun key => ⟨hq, rfl⟩) ?_)
  -- There is no key, and there will be none until this thread writes one.
  refine follows_ask trivial ?_
  rintro (e | fresh) ha
  · exact ⟨hq, ha⟩
  refine follows_ask ⟨hq, rfl, ha⟩ ?_
  rintro (e | _) ha
  · exact ⟨hq, ha⟩
  · exact ⟨hq, rfl⟩

/-- **`EnsureHMACKey` returns the stored key.** -/
theorem follows_ensureHMACKey : Follows (protocol hmac care) q ensureHMACKey Obtains := by
  refine Follows.bind (follows_loadHMACKey (fun e he => he) (fun key => rfl) ?_)
  refine follows_ask trivial ?_
  rintro (e | _) ha
  · exact ha
  refine Follows.ensure ((follows_ensureHMACKeyLocked rfl).mono ?_)
  rintro r q' ⟨hlock, hr⟩
  exact follows_ask hlock fun _ _ => by cases r <;> exact hr

/-! #### Sections under the mutex -/

/-- A section of a writer, or of a reader. -/
abbrev withMu (body : Prog α) : Bool → Prog α
  | true => withLock body
  | false => withRLock body

/-- What is known when the mutex has been taken. -/
abbrev Known.entered (q : Known) (w : Bool) : Known :=
  { q with mu := some w, reads := [], entries := none, head := none }

theorem follows_withMu {body : Prog α} (w : Bool)
    (hbody : Follows (protocol hmac care) (q.entered w) body fun r q' =>
      q'.mu = some w ∧ Q r { q' with mu := none }) :
    Follows (protocol hmac care) q (withMu body w) Q := by
  cases w
  all_goals
    refine follows_ask trivial fun _ _ => Follows.ensure (hbody.mono ?_)
    rintro r q' ⟨hmu, hr⟩
    exact follows_ask hmu fun _ _ => hr

/-! #### The comparisons -/

/-- What a verification knows at its end: besides what it did before, that there is a head if it has
found nothing wrong. -/
def Verified (care : Care) (q : Known) (r : Except Failure Unit) (q' : Known) : Prop :=
  Sober care r ∧ ∃ headed reads entries head, q' = { q with headed, reads, entries, head } ∧
    (r = .ok () → headed = true)

theorem verified_error {e : Failure} (he : e ≠ .tampered) {headed : Bool} {reads : List Read}
    {entries : Option (List InventoryEntry)} {head : Option Bytes} :
    Verified care q (.error e) { q with headed, reads, entries, head } :=
  ⟨sober_error he, _, _, _, _, rfl, nofun⟩

/-- **A verification**: a first head is that of the entries that are stored, and a head that is
there is compared with that of the entries it belongs to. -/
theorem follows_verifyInventoryHMACLocked (hmu : q.mu.isSome) (hreads : q.reads = [])
    (hkey : q.key = some key) : Follows (protocol hmac care) q (verifyInventoryHMACLocked hmac key)
      (Verified care q) := by
  refine follows_ask trivial ?_
  rintro (e | head) ha
  · cases e with
    | notExist =>
      refine follows_ask trivial ?_
      rintro (e | es) ha
      · exact verified_error ha
      refine follows_ask trivial ?_
      rintro (e | _) ha
      · exact verified_error ha
      refine follows_ask ⟨key, es, hmu, hkey, by simp [Known.learn, hreads], rfl, rfl⟩ ?_
      rintro (e | _) ha
      · exact verified_error ha
      · exact ⟨sober_ok _, _, _, _, _, rfl, fun _ => rfl⟩
    | _ => exact verified_error ha
  · refine follows_ask trivial ?_
    rintro (e | es) hfits
    · exact verified_error hfits
    change Follows _ _ (if _ then _ else _) _
    split
    · exact ⟨sober_ok _, _, _, _, _, rfl, fun _ => rfl⟩
    · next hne =>
      -- The two differ, so that something has come in between.
      refine ⟨fun hb hc => absurd ?_ hne, _, _, _, _, rfl, nofun⟩
      exact (hfits hmu (by simp [Known.learn, hreads, Care.guards, hc])).2 hb head key rfl hkey

/-- **A comparison with a chain that is at hand**: it is the chain over the entries that were
read. -/
theorem follows_compareInventoryMACLocked (hmu : q.mu.isSome) (hreads : q.reads = [.entries])
    (hes : q.entries = some es) (hkey : q.key = some key) :
    Follows (protocol hmac care) q (compareInventoryMACLocked (foldInventoryHead hmac key es))
      fun r q' => q'.mu = q.mu ∧ Sober care r := by
  refine follows_ask trivial ?_
  rintro (e | head) ha
  · cases e with
    | notExist => exact ⟨rfl, sober_ok _⟩
    | _ => exact ⟨rfl, sober_error ha⟩
  · change Follows _ _ (if _ then _ else _) _
    split
    · exact ⟨rfl, sober_ok _⟩
    · next hne =>
      refine ⟨rfl, fun hb hc => absurd ?_ hne⟩
      exact ha hmu (by simp [hreads, Care.guards, hc]) hb es key hes hkey

/-! #### The calls -/

/-- **`InitHMAC`**: the replica has a key, and a head is stored. -/
theorem follows_initHMAC : Follows (protocol hmac care) q (initHMAC hmac) fun r q' =>
    Sober care r ∧ (r = .ok () → q'.hasKey = true ∧ q'.headed = true) := by
  refine Follows.bind (follows_ensureHMACKey.mono ?_)
  rintro (e | key) q hkey
  · exact ⟨sober_error hkey, nofun⟩
  refine follows_ask hkey fun _ _ => follows_withMu true ?_
  refine Follows.mono (follows_verifyInventoryHMACLocked rfl rfl ?_) ?_
  · exact hkey
  rintro r _ ⟨hsober, headed, reads, entries, head, rfl, hheaded⟩
  exact ⟨rfl, hsober, fun hr => ⟨rfl, hheaded hr⟩⟩

/-- The key of a replica that serves. -/
theorem follows_getKey {k : Option Bytes → Prog α} (hq : q.serves = true)
    (hk : ∀ key, Follows (protocol hmac care)
      { q with key := some key, headed := true, head := none } (k (some key)) Q) :
    Follows (protocol hmac care) q ((cmd .getKey).bind k) Q := by
  refine follows_ask hq ?_
  rintro (_ | key) ha
  · cases ha
  · exact hk key

theorem follows_appendInventoryRecord (entry : Text) (hq : q.serves = true) :
    Follows (protocol hmac care) q (appendInventoryRecord entry) fun r _ => Sober care r := by
  refine follows_withMu true ?_
  split
  · exact ⟨rfl, sober_error nofun⟩
  split
  case isFalse => exact ⟨rfl, sober_error nofun⟩
  refine follows_getKey hq fun key => follows_ask ⟨rfl, rfl, key, rfl, rfl⟩ ?_
  rintro (e | _) ha
  · exact ⟨rfl, sober_error ha⟩
  · exact ⟨rfl, sober_ok _⟩

theorem follows_pruneInventory (keep : InventoryEntry → Bool) (hq : q.serves = true) :
    Follows (protocol hmac care) q (pruneInventory hmac keep) fun r _ => Sober care r := by
  refine follows_withMu true (follows_getKey hq fun key => ?_)
  refine Follows.bind ((follows_verifyInventoryHMACLocked rfl rfl rfl).mono ?_)
  rintro (e | _) _ ⟨hsober, headed, reads, entries, head, rfl, hheaded⟩
  · exact ⟨rfl, hsober.error⟩
  refine follows_ask ⟨rfl, hheaded rfl, key, rfl, rfl⟩ ?_
  rintro (e | _) ha
  · exact ⟨rfl, sober_error ha⟩
  · exact ⟨rfl, sober_ok _⟩

theorem follows_inventoryEntries (hq : q.serves = true) :
    Follows (protocol hmac care) q (inventoryEntries hmac) fun r _ => Sober care r := by
  refine follows_withMu false (follows_ask trivial ?_)
  rintro (e | es) ha
  · exact ⟨rfl, sober_error ha⟩
  refine follows_getKey hq fun key => ?_
  refine Follows.bind ((follows_compareInventoryMACLocked rfl rfl rfl rfl).mono ?_)
  rintro (e | _) q' ⟨hmu, hsober⟩
  · exact ⟨hmu, hsober.error⟩
  · exact ⟨hmu, sober_ok _⟩

theorem follows_readInventory (hq : q.serves = true) :
    Follows (protocol hmac care) q (readInventory hmac) fun r _ => Sober care r := by
  refine follows_withMu false (follows_getKey hq fun key => ?_)
  refine Follows.bind ((follows_verifyInventoryHMACLocked rfl rfl rfl).mono ?_)
  rintro (e | _) _ ⟨hsober, headed, reads, entries, head, rfl, -⟩
  · exact ⟨rfl, hsober.error⟩
  refine follows_ask trivial ?_
  rintro (e | _) ha
  · exact ⟨rfl, sober_error ha⟩
  · exact ⟨rfl, sober_ok _⟩

/-- **Every call of the service** asks for what it may, and is sober. -/
theorem follows_operation (op : Op) :
    Follows (protocol hmac care) {} (operation hmac op) fun r _ => Sober care r := by
  cases op with
  | start =>
    refine Follows.bind (follows_initHMAC.mono ?_)
    rintro (e | _) q ⟨hsober, hq⟩
    · exact hsober.error
    · exact follows_ask (hq rfl) fun _ _ => sober_ok _
  | append entry =>
    refine follows_ask trivial fun _ _ => ?_
    refine Follows.bind ((follows_appendInventoryRecord entry rfl).mono ?_)
    rintro (e | _) q hsober
    · exact hsober.error
    · exact sober_ok _
  | prune keep => exact follows_ask trivial fun _ _ => follows_pruneInventory keep rfl
  | inventoryEntries => exact follows_ask trivial fun _ _ => follows_inventoryEntries rfl
  | readInventory => exact follows_ask trivial fun _ _ => follows_readInventory rfl

end Programs

/-! ### Runs -/

section Runs

variable {s₀ : State} {ls : List (Event hmac)} {p : Cluster hmac} {q : Tid → Known}

/-- **No mutation of the event falls into a stretch that is to be left alone.** -/
def Undisturbed (care : Care) (p : Cluster hmac) (l : Event hmac) : Prop :=
  ∀ t ch op c k, l = .step t ch → p.thread t = .running op (.call c k) → c.mutates = true →
    p.shared.Undisturbed care t

variable (hmac) in
/-- **What holds of a run**: the invariant, what the threads know, what lasts, and that the calls
that have returned are sober. -/
structure Placed (care : Care) (F : State → Prop) (s : State) (q : Tid → Known)
    (rs : List (Report (machine hmac) (work hmac))) : Prop where
  inv : Inv hmac care s
  knows : ∀ t, (q t).Holds hmac care t s
  lasts : F s
  sober : ∀ r ∈ rs, Sober care r.outcome

variable {F : State → Prop} (hF : ∀ {t c s s'}, Allowed hmac care t c s → Effect hmac t s c s' →
  F s → F s')

include hF

/-- **A run in which no mutation disturbs anybody**: every thread is somewhere in its call with what
it knows. -/
theorem placed_of_run {p' : Cluster hmac} (h : Placed hmac care F p.shared q p.reports)
    (hat : ∀ t, (p.thread t).Heading {} (fun _ => protocol hmac care)
      (fun _ r _ => Sober care r) (q t))
    (hcare : p.Throughout (Undisturbed care) ls) (hrun : p.run ls = some p') :
    ∃ q', Placed hmac care F p'.shared q' p'.reports ∧ ∀ t, (p'.thread t).Heading {}
      (fun _ => protocol hmac care) (fun _ r _ => Sober care r) (q' t) := by
  have hmenu : ∀ t op, (.start t op : Event hmac) ∈ ls → True := fun _ _ _ => trivial
  refine Pool.heading_run (Placed hmac care F) (fun _ op _ => follows_operation op) ?_ ?_ h hat
    hcare hmenu hrun
  · intro p t ch j c k a s q hthread hundisturbed hex h hc
    have hall := (h.knows t).allowed hc
    have heff := exec_effect hex
    obtain ⟨ha, hlearnt⟩ := (h.knows t).step h.inv hc hex
    refine ⟨_, if_pos ha, h.inv.effect hall heff, fun u => ?_, hF hall heff h.lasts, h.sober⟩
    rcases eq_or_ne u t with rfl | hne
    · rwa [Function.update_self]
    · rw [Function.update_of_ne hne]
      exact (h.knows u).effect h.inv hall heff hne (hundisturbed t ch j c k rfl hthread)
  · intro t j r s q rs h hr
    refine ⟨h.inv, fun u => ?_, h.lasts, List.forall_mem_cons.mpr ⟨hr, h.sober⟩⟩
    rcases eq_or_ne u t with rfl | hne
    · rw [Function.update_self]
      exact Known.holds_nothing
    · rw [Function.update_of_ne hne]
      exact h.knows u

omit hF

/-- The same, from the beginning. -/
theorem placed_of_initial (hinv : Inv hmac care s₀)
    (hcare : (Pool.initial s₀ : Cluster hmac).Throughout (Undisturbed care) ls)
    (hrun : (Pool.initial s₀ : Cluster hmac).run ls = some p) :
    ∃ q, Placed hmac care (fun _ => True) p.shared q p.reports ∧ ∀ t, (p.thread t).Heading {}
      (fun _ => protocol hmac care) (fun _ r _ => Sober care r) (q t) := by
  have hinit : Placed hmac care (fun _ => True) s₀ (fun _ => {}) [] :=
    ⟨hinv, fun _ => Known.holds_nothing, trivial, nofun⟩
  have hidle : ∀ t, ((Pool.initial s₀ : Cluster hmac).thread t).Heading {}
    (fun _ => protocol hmac care) (fun _ r _ => Sober care r) {} := fun _ => rfl
  exact placed_of_run (fun _ _ h => h) hinit hidle hcare hrun

variable (hmac) in
/-- **A store in use**: the head is that of the entries under the stored key, and the replicas that
are up use this key. -/
structure State.InUse (key : Bytes) (s : State) : Prop where
  stored : s.KeyIs key
  head : s.head = some (foldInventoryHead hmac key s.entries)
  keys : ∀ r, s.hmacKey r = some key ∨ s.hmacKey r = none ∧ s.started r = false
  free : ∀ r, s.inventoryMu r = {}

theorem State.InUse.inv (h : s.InUse hmac key) :
    Inv hmac care s where
  held := by
    intro r k hk
    rcases h.keys r with hr | ⟨hr, -⟩
    · obtain rfl := Option.some.inj (hr.symm.trans hk)
      exact h.stored
    · cases hr.symm.trans hk
  serving := by
    intro r hr
    rcases h.keys r with hk | ⟨-, hdown⟩
    · exact ⟨by rw [hk]; rfl, by rw [h.head]; rfl⟩
    · cases hr.symm.trans hdown
  alone := fun r => by rw [h.free r]; nofun
  headed := fun _ => ⟨key, h.stored⟩
  chained := by
    intro _ head k hhead hk
    obtain rfl := h.stored.unique hk
    exact Option.some.inj (hhead.symm.trans h.head)

/-- **No false verdict.** Any number of replicas append, prune, verify and start, over a store in
use; if no append or prune of one of them is executed while a comparison of another is between its
two reads, no call reports tampering. -/
theorem not_tampered_of_undisturbed {key : Bytes} (h₀ : s₀.InUse hmac key)
    (hcare : (Pool.initial s₀ : Cluster hmac).Throughout (Undisturbed .full) ls)
    (hrun : (Pool.initial s₀ : Cluster hmac).run ls = some p) :
    ∀ r ∈ p.reports, r.outcome ≠ .error .tampered := by
  obtain ⟨q, h, -⟩ := placed_of_initial h₀.inv hcare hrun
  exact fun r hr => h.sober r hr rfl rfl

/-- **A store that nobody has started on**: no usable key and no head. -/
structure State.Cold (s : State) : Prop where
  keyless : ∀ key, ¬s.KeyIs key
  headless : s.head = none
  down : ∀ r, s.hmacKey r = none ∧ s.started r = false
  free : ∀ r, s.inventoryMu r = {}

theorem State.Cold.inv (h : s.Cold) : Inv hmac care s where
  held := fun r k hk => by cases (h.down r).1.symm.trans hk
  serving := fun r hr => by cases (h.down r).2.symm.trans hr
  alone := fun r => by rw [h.free r]; nofun
  headed := fun hhead => by
    rw [h.headless] at hhead
    cases hhead
  chained := fun _ _ k _ hk => absurd hk (h.keyless k)

/-- Where nothing is to be left alone, nothing is disturbed. -/
theorem undisturbed_none {l : Event hmac} : Undisturbed ⟨false, false⟩ p l := by
  intro t ch op c k _ _ _ x _
  refine Or.inr ?_
  unfold Care.guards
  split <;> rfl

/-- **A cold start.** Any number of replicas start on a store with no usable key and no head, and
append as soon as they have started. Every replica that has started uses the stored key. If no
append is executed while another replica is between reading the entries and storing the head of its
first verification, then, at every moment, a stored head is the chain over the stored entries under
the stored key, and there is one once a replica has started. -/
theorem coldStart_agrees (h₀ : s₀.Cold)
    (hrun : (Pool.initial s₀ : Cluster hmac).run ls = some p) :
    (∀ r, p.shared.started r = true →
      ∃ key, p.shared.KeyIs key ∧ p.shared.hmacKey r = some key) ∧
    ((Pool.initial s₀ : Cluster hmac).Throughout (Undisturbed ⟨true, false⟩) ls →
      (∀ head, p.shared.head = some head →
        ∃ key, p.shared.KeyIs key ∧ head = foldInventoryHead hmac key p.shared.entries) ∧
      ∀ r, p.shared.started r = true → p.shared.head.isSome) := by
  refine ⟨fun r hr => ?_, fun hcare => ?_⟩
  · have hcare : (Pool.initial s₀ : Cluster hmac).Throughout (Undisturbed ⟨false, false⟩) ls :=
      Pool.throughout_of_forall fun _ _ => undisturbed_none
    obtain ⟨q, h, -⟩ := placed_of_initial h₀.inv hcare hrun
    obtain ⟨key, hkey⟩ := Option.isSome_iff_exists.mp (h.inv.serving r hr).1
    exact ⟨key, h.inv.held r key hkey, hkey⟩
  · obtain ⟨q, h, -⟩ := placed_of_initial h₀.inv hcare hrun
    refine ⟨fun head hhead => ?_, fun r hr => (h.inv.serving r hr).2⟩
    obtain ⟨key, hkey⟩ := h.inv.headed (by rw [hhead]; rfl)
    exact ⟨key, hkey, h.inv.chained rfl head key hhead hkey⟩

end Runs

/-! ### Runs of two replicas -/

section Samples

/-- A function in the place of the authentication code: it tells the lines apart. -/
def sampleHmac (_ m : Bytes) : Bytes := 1 :: m

/-- A key of the right length. -/
def sampleKey : Bytes := fillKey []

/-- A store in use, with an empty inventory, and every replica up. -/
def sampleStore : State where
  head := some []
  storedKey := some sampleKey
  hmacKey := fun _ => some sampleKey
  started := fun _ => true

theorem sampleStore_inUse : sampleStore.InUse sampleHmac sampleKey where
  stored := ⟨rfl, by decide⟩
  head := rfl
  keys := fun _ => Or.inl rfl
  free := fun _ => rfl

theorem cold_empty : ({} : State).Cold where
  keyless := fun _ h => by cases h.1
  headless := rfl
  down := fun _ => ⟨rfl, rfl⟩
  free := fun _ => rfl

def sampleLine : Text := "A 1 2 /n".toList

/-- A number of requests of a thread, none of which fails. -/
def steps (n : ℕ) (t : Tid) : List (Event sampleHmac) := List.replicate n (.step t {})

/-- Whether an event disturbs anybody. -/
def checkUndisturbed (care : Care) (p : Cluster hmac) : Event hmac → Bool
  | .step t _ =>
    match p.thread t with
    | .running _ (.call c _) => !Cmd.mutates c || decide (p.shared.Undisturbed care t)
    | _ => true
  | _ => true

theorem undisturbed_of_check {p : Cluster hmac} {l : Event hmac}
    (h : checkUndisturbed care p l = true) : Undisturbed care p l := by
  rintro t ch op c k rfl ht hc
  have h' : (!Cmd.mutates c || decide (p.shared.Undisturbed care t)) = true := by
    simpa only [checkUndisturbed, ht] using h
  rw [hc] at h'
  simpa using h'

/-- A replica has read the entries when another one appends: it then compares their chain with the
head of an inventory that is longer. -/
theorem tampered_after_append : ∃ ls p, sampleStore.InUse sampleHmac sampleKey ∧
    (Pool.initial sampleStore : Cluster sampleHmac).run ls = some p ∧
    ∃ r ∈ p.reports, r.outcome = .error .tampered := by
  have hseen : ((Pool.initial sampleStore : Cluster sampleHmac).run
      ([.start ⟨0, 0⟩ .inventoryEntries] ++ steps 3 ⟨0, 0⟩ ++
        [.start ⟨1, 0⟩ (.append sampleLine)] ++
        steps 5 ⟨1, 0⟩ ++ [.finish ⟨1, 0⟩] ++ steps 3 ⟨0, 0⟩ ++ [.finish ⟨0, 0⟩])).map
      (fun p => p.reports.any fun r => r.outcome = .error .tampered) = some true := by
    decide +kernel
  obtain ⟨p, hp, hany⟩ := Option.map_eq_some_iff.mp hseen
  obtain ⟨r, hr, htampered⟩ := List.any_eq_true.mp hany
  exact ⟨_, p, sampleStore_inUse, hp, r, hr, of_decide_eq_true htampered⟩

/-- Where the append comes first, the comparison finds nothing wrong. -/
theorem not_tampered_sample : ∃ ls p,
    (Pool.initial sampleStore : Cluster sampleHmac).run ls = some p ∧
    p.reports.length = 2 ∧ ∀ r ∈ p.reports, r.outcome ≠ .error .tampered := by
  let ls : List (Event sampleHmac) := [.start ⟨1, 0⟩ (.append sampleLine)] ++ steps 5 ⟨1, 0⟩ ++
    [.finish ⟨1, 0⟩, .start ⟨0, 0⟩ .inventoryEntries] ++ steps 6 ⟨0, 0⟩ ++ [.finish ⟨0, 0⟩]
  have hseen : ((Pool.initial sampleStore : Cluster sampleHmac).run ls).map
      (fun p => p.reports.length) = some 2 := by
    decide +kernel
  have hcheck : (Pool.initial sampleStore : Cluster sampleHmac).checkThroughout
      (checkUndisturbed .full) ls = true := by
    decide +kernel
  obtain ⟨p, hp, hlen⟩ := Option.map_eq_some_iff.mp hseen
  exact ⟨ls, p, hp, hlen, not_tampered_of_undisturbed sampleStore_inUse
    (Pool.throughout_of_check undisturbed_of_check hcheck) hp⟩

/-- Two replicas start at once. The second one reads the entries, the first one stores the head,
has started and appends; the second one then stores the head of the entries it has read. -/
def coldEvents : List (Event sampleHmac) :=
  [.start ⟨0, 0⟩ .start] ++ steps 7 ⟨0, 0⟩ ++ [.start ⟨1, 0⟩ .start] ++ steps 5 ⟨1, 0⟩ ++
    steps 7 ⟨0, 0⟩ ++ [.finish ⟨0, 0⟩, .start ⟨0, 0⟩ (.append sampleLine)] ++ steps 5 ⟨0, 0⟩ ++
    [.finish ⟨0, 0⟩] ++ steps 4 ⟨1, 0⟩ ++ [.finish ⟨1, 0⟩]

/-- Whether the thread is between two calls. -/
def isIdle (p : Cluster sampleHmac) (t : Tid) : Bool :=
  match p.thread t with
  | .idle => true
  | .running _ _ => false

theorem thread_of_isIdle {p : Cluster sampleHmac} {t : Tid} (h : isIdle p t = true) :
    p.thread t = .idle := by
  unfold isIdle at h
  split at h
  · next ht => exact ht
  · cases h

/-- **The head of a cold start can be stale** when nothing is in progress any more. -/
theorem coldStart_stale_head : ∃ p, ({} : State).Cold ∧
    (Pool.initial ({} : State) : Cluster sampleHmac).run coldEvents = some p ∧
    (∀ t, p.thread t = .idle) ∧ (∀ r ∈ p.reports, ∃ res, r.outcome = .ok res) ∧
    p.shared.KeyIs sampleKey ∧
    p.shared.head ≠ some (foldInventoryHead sampleHmac sampleKey p.shared.entries) := by
  have hseen : ((Pool.initial ({} : State) : Cluster sampleHmac).run coldEvents).map
      (fun p => (p.shared.storedKey, p.shared.head, p.shared.entries.length,
        isIdle p ⟨0, 0⟩, isIdle p ⟨1, 0⟩, p.reports.all fun r => r.outcome.toBool)) =
      some (some sampleKey, some [], 1, true, true, true) := by
    decide +kernel
  obtain ⟨p, hp, hp'⟩ := Option.map_eq_some_iff.mp hseen
  simp only [Prod.mk.injEq] at hp'
  obtain ⟨hkey, hhead, hlen, hidle0, hidle1, hok⟩ := hp'
  refine ⟨p, cold_empty, hp, fun t => ?_, fun r hr => ?_, ⟨hkey, by decide⟩, ?_⟩
  · -- Only two threads have ever done anything.
    by_cases h0 : t = ⟨0, 0⟩
    · exact h0 ▸ thread_of_isIdle hidle0
    by_cases h1 : t = ⟨1, 0⟩
    · exact h1 ▸ thread_of_isIdle hidle1
    refine Pool.thread_of_run hp fun l hl => ?_
    have htid : ∀ l ∈ coldEvents, l.tid = ⟨0, 0⟩ ∨ l.tid = ⟨1, 0⟩ := by decide +kernel
    rcases htid l hl with h | h
    · exact fun ht => h0 (ht.symm.trans h)
    · exact fun ht => h1 (ht.symm.trans h)
  · have := List.all_eq_true.mp hok r hr
    cases ho : r.outcome with
    | error e =>
      rw [ho] at this
      cases this
    | ok res => exact ⟨res, rfl⟩
  · -- The head says that the inventory is empty.
    obtain ⟨e, he⟩ := List.length_eq_one_iff.mp hlen
    rw [hhead, he]
    simp [foldInventoryHead, advanceHead, chainInventoryMAC, sampleHmac]

/-- Where the second replica starts after the first, the head is that of the entries. -/
theorem coldStart_sample : ∃ ls p,
    (Pool.initial ({} : State) : Cluster sampleHmac).run ls = some p ∧
    p.shared.started 0 = true ∧ p.shared.started 1 = true ∧ p.shared.entries.length = 1 ∧
    (∃ key, p.shared.KeyIs key ∧ p.shared.hmacKey 1 = some key) ∧
    ∀ head, p.shared.head = some head →
      ∃ key, p.shared.KeyIs key ∧ head = foldInventoryHead sampleHmac key p.shared.entries := by
  let ls : List (Event sampleHmac) := [.start ⟨0, 0⟩ .start] ++ steps 14 ⟨0, 0⟩ ++
    [.finish ⟨0, 0⟩, .start ⟨0, 0⟩ (.append sampleLine)] ++ steps 5 ⟨0, 0⟩ ++
    [.start ⟨1, 0⟩ .start] ++ steps 7 ⟨1, 0⟩
  have hseen : ((Pool.initial ({} : State) : Cluster sampleHmac).run ls).map
      (fun p => (p.shared.started 0, p.shared.started 1, p.shared.entries.length)) =
      some (true, true, 1) := by
    decide +kernel
  have hcheck : (Pool.initial ({} : State) : Cluster sampleHmac).checkThroughout
      (checkUndisturbed ⟨true, false⟩) ls = true := by
    decide +kernel
  obtain ⟨p, hp, hp'⟩ := Option.map_eq_some_iff.mp hseen
  simp only [Prod.mk.injEq] at hp'
  obtain ⟨h0, h1, hlen⟩ := hp'
  obtain ⟨hkeys, hheads⟩ := coldStart_agrees cold_empty hp
  exact ⟨ls, p, hp, h0, h1, hlen, hkeys 1 h1,
    (hheads (Pool.throughout_of_check undisturbed_of_check hcheck)).1⟩

/-- **The integrity key is made once.** However many replicas start at the same time, and whatever
else goes on: a usable key that is stored is never replaced, and every replica that has a key has
that one. -/
theorem key_made_once (h₀ : s₀.Cold) (hp : (Pool.initial s₀ : Cluster hmac).run ls = some p)
    {ls' : List (Event hmac)} {q : Cluster hmac} (hq : p.run ls' = some q) {key : Bytes}
    (hkey : p.shared.KeyIs key) :
    q.shared.KeyIs key ∧ ∀ r key', q.shared.hmacKey r = some key' → key' = key := by
  have hany : ∀ {p : Cluster hmac} {ls}, p.Throughout (Undisturbed ⟨false, false⟩) ls :=
    Pool.throughout_of_forall fun _ _ => undisturbed_none
  obtain ⟨_, hmid, hat⟩ := placed_of_initial h₀.inv hany hp
  obtain ⟨_, hend, -⟩ := placed_of_run keyIs_kept { hmid with lasts := hkey } hat hany hq
  exact ⟨hend.lasts, fun r key' hr => (hend.inv.held r key' hr).unique hend.lasts⟩

/-- Two replicas start at the same time. -/
theorem key_made_once_sample : ∃ p,
    (Pool.initial ({} : State) : Cluster sampleHmac).run coldEvents = some p ∧
    p.shared.KeyIs sampleKey ∧ ∀ r key', p.shared.hmacKey r = some key' → key' = sampleKey := by
  have hrun : ((Pool.initial ({} : State) : Cluster sampleHmac).run coldEvents).map
      (fun p => p.shared.storedKey) = some (some sampleKey) := by decide +kernel
  obtain ⟨p, hp, hkey⟩ := Option.map_eq_some_iff.mp hrun
  exact ⟨p, hp, key_made_once cold_empty hp (Pool.run_nil p) ⟨hkey, rfl⟩⟩

end Samples

end OpenvoxCa.Storage.Service
