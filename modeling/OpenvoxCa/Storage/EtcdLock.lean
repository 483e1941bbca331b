import OpenvoxCa.Conc.Protocol
import Mathlib.Data.List.Basic

/-!
# The distributed lock on etcd

A lock is taken twice. Inside a process a mutex of the name comes first; then a key is created under
the name, attached to the lease of the process' session, and the caller waits until there is no
older key. All acquisitions of a session share that lease, so two of them under one name are one
and the same key: what tells them apart is the local mutex, and the local mutex alone.

A request that fails may have been carried out. An acquisition that fails may therefore have left
its key behind, and so may a release; on a lease that is being renewed such a key would keep the
others waiting for good. This is why a failed acquisition gives its key back like a release, why a
release is retried, in the background, and why the local mutex is not given up before the key is
gone or the session has lapsed.

The invariant is in `Inv`: a key on a lease that is renewed belongs to the caller that has the local
mutex of its process (`attached`), and the caller that has the lock has the oldest key (`head`). Of
the mutex of etcd's client (`concurrency.Mutex`) no more is assumed than which requests it makes,
and that it does not succeed before it has been told that no key is older than its own (`Client`).
Machine and programs are those of one name.

A lease lapses only after its session has stopped renewing it, and not while the lock is held
through it: holders renew in time. A thread whose release has failed goes on as the goroutine that
retries it; what its caller does next is done by another thread.
-/

namespace OpenvoxCa.Storage.EtcdLock

open Conc

/-! ### The machine -/

/-- A lease; they are numbered as they are granted. -/
abbrev Lease := ℕ

/-- A lock key: the lease it is attached to, which is the last part of its name, and the revision
at which it was created. -/
structure Key where
  lease : Lease
  createRev : ℕ
  deriving DecidableEq

/-- What becomes of a lease. -/
inductive Renewal
  /-- The session renews it. -/
  | live
  /-- The session has ended (`sess.Done()`), the lease has not. -/
  | stopped
  /-- The lease has ended, and the keys on it are gone. -/
  | lapsed
  deriving DecidableEq

/-- What a caller is doing between taking the local mutex and giving it up. -/
inductive Stage
  | acquiring (lease : Lease)
  | holding (lease : Lease)
  /-- It gives its key back, for the first time or again. -/
  | releasing (lease : Lease)
  deriving DecidableEq

/-- The lease its key is attached to. -/
def Stage.lease : Stage → Lease
  | acquiring l | holding l | releasing l => l

/-- **The state of the lock of one name.** -/
structure State where
  /-- The revision of the store. -/
  revision : ℕ := 0
  /-- The keys of the name, in the order of their creation. -/
  keys : List Key := []
  /-- How many leases have been granted. -/
  granted : ℕ := 0
  /-- The process a lease was granted to. -/
  owner : Lease → Replica := fun _ => 0
  renewal : Lease → Renewal := fun _ => .live
  /-- `session` of each process. -/
  session : Replica → Option Lease := fun _ => none
  /-- The local mutex of the name, in each process. -/
  localMu : Replica → Option Tid := fun _ => none
  /-- What each caller is doing. -/
  stage : Tid → Option Stage := fun _ => none

/-- Why an acquisition fails. -/
inductive Failure
  | unavailable
  /-- `ErrSessionExpired`. -/
  | sessionExpired
  deriving DecidableEq

inductive Cmd
  /-- `local.Lock()`. -/
  | lockLocal
  /-- `local.Unlock()`. -/
  | unlockLocal
  /-- `ensureSession`, which is one critical section of the process. -/
  | ensureSession
  /-- `tryAcquire`: the key is created unless it is there; the answer is its revision, and that of
  the oldest key. -/
  | tryAcquire (lease : Lease)
  /-- `waitDeletes`: there is no key older than this revision. -/
  | waitDeletes (rev : ℕ)
  /-- Whether the key is still there. -/
  | getKey (lease : Lease)
  /-- The `Unlock` by which the client's `Lock` cleans up. -/
  | cleanup (lease : Lease)
  /-- The look at `sess.Done()` before a lock is granted. -/
  | sessionDone (lease : Lease)
  /-- What the caller does under the lock. -/
  | critical
  /-- `release`: one attempt to delete the key. -/
  | release (lease : Lease)
  /-- The wait of `retryRelease`, for the ticker or for `sess.Done()`. -/
  | awaitRetry (lease : Lease)
  /-- A session ends. -/
  | stop (lease : Lease)
  /-- A lease ends. -/
  | lapse (lease : Lease)
  /-- Nothing that ever happens. -/
  | never

@[reducible] def Cmd.Ans : Cmd → Type
  | lockLocal => Unit
  | unlockLocal => Unit
  | ensureSession => Except Failure Lease
  | tryAcquire _ => Except Failure (ℕ × ℕ)
  | waitDeletes _ => Except Failure Unit
  | getKey _ => Except Failure Bool
  | cleanup _ => Except Failure Unit
  | sessionDone _ => Bool
  | critical => Unit
  | release _ => Except Failure Unit
  | awaitRetry _ => Bool
  | stop _ => Unit
  | lapse _ => Unit
  | never => Empty

abbrev interface : Interface := ⟨Cmd, Cmd.Ans⟩

abbrev Prog := Conc.Prog interface Failure

def cmd (c : Cmd) : Prog c.Ans := Conc.Prog.cmd (I := interface) c

/-- What the environment decides about a request. -/
structure Choice where
  fails : Bool := false
  /-- A request that fails has been carried out. -/
  late : Bool := false

/-- The key on a lease is deleted. -/
def State.without (s : State) (l : Lease) : State :=
  { s with keys := s.keys.filter fun k => k.lease ≠ l }

/-- The key on a lease is created, unless it is there. -/
def State.put (s : State) (l : Lease) : State :=
  let present := s.keys.any fun k => k.lease = l
  { s with
    revision := if present then s.revision else s.revision + 1
    keys := if present then s.keys else s.keys ++ [⟨l, s.revision + 1⟩] }

/-- The revision of the key on a lease. -/
def State.revOf (s : State) (l : Lease) : ℕ :=
  ((s.keys.find? fun k => k.lease = l).map Key.createRev).getD 0

/-- The revision of the oldest key. -/
def State.firstRev (s : State) : ℕ := (s.keys.head?.map Key.createRev).getD 0

/-- A caller is at a stage. -/
def State.setStage (s : State) (t : Tid) (st : Option Stage) : State :=
  { s with stage := Function.update s.stage t st }

/-- A session begins, on a new lease. -/
def State.grant (s : State) (r : Replica) : State :=
  { s with
    granted := s.granted + 1
    owner := Function.update s.owner s.granted r
    renewal := Function.update s.renewal s.granted .live
    session := Function.update s.session r (some s.granted) }

/-- The session of a process that is being renewed. -/
def State.liveSession (s : State) (r : Replica) : Option Lease :=
  (s.session r).filter fun l => s.renewal l = .live

/-- The lock is held through the lease. -/
def State.heldThrough (s : State) (l : Lease) : Bool :=
  match s.localMu (s.owner l) with
  | some t => s.stage t = some (.holding l)
  | none => false

/-- A deletion, which may fail with or without an effect. -/
def deletion (ch : Choice) (s s' : State) : Option (Except Failure Unit × State) :=
  some (if ch.fails then (.error .unavailable, if ch.late then s' else s) else (.ok (), s'))

/-- **What a request does.** -/
def exec (t : Tid) (s : State) : (c : Cmd) → Choice → Option (c.Ans × State)
  | .lockLocal, _ =>
      if s.localMu t.replica = none then
        some ((), { s with localMu := Function.update s.localMu t.replica (some t) })
      else none
  | .unlockLocal, _ =>
      some ((), { s.setStage t none with localMu := Function.update s.localMu t.replica none })
  | .ensureSession, ch =>
      if ch.fails then some (.error .unavailable, s)
      else match s.liveSession t.replica with
        | some l => some (.ok l, s.setStage t (some (.acquiring l)))
        | none => some (.ok s.granted, (s.grant t.replica).setStage t (some (.acquiring s.granted)))
  | .tryAcquire l, ch =>
      if s.renewal l = .lapsed ∨ ch.fails ∧ !ch.late then some (.error .unavailable, s)
      else some (if ch.fails then .error .unavailable
        else .ok ((s.put l).revOf l, (s.put l).firstRev), s.put l)
  | .waitDeletes rev, ch =>
      if ch.fails then some (.error .unavailable, s)
      else if s.keys.all fun k => rev ≤ k.createRev then some (.ok (), s) else none
  | .getKey l, ch =>
      some (if ch.fails then .error .unavailable else .ok (s.keys.any fun k => k.lease = l), s)
  | .cleanup l, ch => deletion ch s (s.without l)
  | .sessionDone l, _ =>
      if s.renewal l = .live then some (false, s.setStage t (some (.holding l))) else some (true, s)
  | .critical, _ => some ((), s)
  | .release l, ch =>
      deletion ch (s.setStage t (some (.releasing l)))
      ((s.without l).setStage t (some (.releasing l)))
  | .awaitRetry l, ch => some (s.renewal l ≠ .live && ch.fails, s)
  | .stop l, _ =>
      some ((), if s.renewal l = .live then
        { s with renewal := Function.update s.renewal l .stopped } else s)
  | .lapse l, _ =>
      -- A lease lapses after its session has stopped, and not under the lock.
      if s.renewal l = .stopped ∧ !s.heldThrough l then
        some ((), { s.without l with renewal := Function.update s.renewal l .lapsed })
      else none
  | .never, _ => none

abbrev machine : Machine interface := ⟨State, Tid, Choice, exec⟩

/-! ### What a caller asks for -/

/-- **Where a caller is**, as its own requests and the answers to them say. -/
inductive Phase
  | idle
  /-- It has the local mutex, and no key. -/
  | entered
  | acquiring (lease : Lease)
  /-- Its key has this revision. -/
  | queued (lease : Lease) (rev : ℕ)
  /-- Its key has this revision, and none is older. -/
  | front (lease : Lease) (rev : ℕ)
  | holding (lease : Lease)
  | releasing (lease : Lease)
  /-- Its key is gone, or its session has ended. -/
  | gone (lease : Lease)

namespace Phase

def stage : Phase → Option Stage
  | idle | entered => none
  | acquiring l | queued l _ | front l _ => some (.acquiring l)
  | holding l => some (.holding l)
  | releasing l | gone l => some (.releasing l)

/-- **When a caller may make a request.** -/
def Allows (q : Phase) : Cmd → Prop
  | .lockLocal | .stop _ | .lapse _ => q = idle
  | .unlockLocal => q = entered ∨ ∃ l, q = gone l
  | .ensureSession => q = entered
  | .tryAcquire l => q = acquiring l
  | .waitDeletes rev => ∃ l, q = queued l rev
  | .cleanup l => q.stage = some (.acquiring l)
  | .sessionDone l => ∃ rev, q = front l rev
  | .critical => ∃ l, q = holding l
  | .release l => ∃ st, q.stage = some st ∧ st.lease = l
  | .awaitRetry l => q = releasing l
  | .getKey _ | .never => True

/-- Where an answer leads. -/
def next (q : Phase) : (c : Cmd) → c.Ans → Phase
  | .lockLocal, _ => entered
  | .unlockLocal, _ => idle
  | .ensureSession, .ok l => acquiring l
  | .tryAcquire l, .ok (rev, first) => if first = rev then front l rev else queued l rev
  | .waitDeletes _, .ok _ =>
      match q with
      | queued l rev => front l rev
      | q => q
  | .cleanup l, _ => acquiring l
  | .sessionDone l, done => if done then acquiring l else holding l
  | .release l, .ok _ => gone l
  | .release l, .error _ => releasing l
  | .awaitRetry l, true => gone l
  | _, _ => q

end Phase

abbrev protocol : Protocol interface Phase := .total Phase.Allows Phase.next

/-- **The mutex of etcd's client**, of which it is known what its `Lock` asks for: it creates the
key on the lease, waits until there is none older than the revision it was answered, looks whether
its own is there and deletes it when it gives up. It succeeds only at the front. -/
structure Client where
  lock : Lease → Prog Unit
  locks : ∀ l, Follows protocol (.acquiring l) (lock l) fun r q =>
    q.stage = some (.acquiring l) ∧ (r = .ok () → ∃ rev, q = .front l rev)

/-! ### The programs -/

/-- One attempt to delete the key: the local mutex is given up if it succeeds. -/
def releaseOr (l : Lease) (retry : Prog Unit) : Prog Unit :=
  (cmd (.release l)).bind fun
    | .ok _ => cmd .unlockLocal
    | .error _ => retry

/-- `retryRelease`, for a number of attempts that may be any. -/
def retryRelease (l : Lease) : ℕ → Prog Unit
  | 0 => (cmd .never).bind fun no => no.elim
  | n + 1 => (cmd (.awaitRetry l)).bind fun done =>
      if done then cmd .unlockLocal else releaseOr l (retryRelease l n)

/-- `Unlock`, and the retries that go on after it has returned an error. -/
def unlock (retries : ℕ) (l : Lease) : Prog Unit := releaseOr l (retryRelease l retries)

def acquireLock (client : Client) (retries : ℕ) : Prog Lease :=
  (cmd .lockLocal).bind fun _ =>
    (cmd .ensureSession).bind fun
      | .error e => (cmd .unlockLocal).bind fun _ => .fail e
      | .ok l => (client.lock l).attempt.bind fun
        | .error e => (unlock retries l).bind fun _ => .fail e
        | .ok _ => (cmd (.sessionDone l)).bind fun done =>
          if done then (unlock retries l).bind fun _ => .fail .sessionExpired
          else .ret l

/-- What a caller does under the lock, in so many steps. -/
def underLock : ℕ → Prog Unit
  | 0 => .ret ()
  | n + 1 => (cmd .critical).bind fun _ => underLock n

inductive Job
  /-- A caller acquires the lock, does something and releases it. -/
  | use (steps retries : ℕ)
  | stop (lease : Lease)
  | lapse (lease : Lease)

def body (client : Client) : Job → Prog Unit
  | .use steps retries => (acquireLock client retries).bind fun l =>
      (underLock steps).bind fun _ => unlock retries l
  | .stop l => cmd (.stop l)
  | .lapse l => cmd (.lapse l)

/-- **Any number of processes and goroutines.** -/
abbrev work (client : Client) : Workload interface Tid :=
  ⟨Job, Failure, Unit, fun _ job => body client job⟩

abbrev Cluster (client : Client) := Pool machine (work client)

abbrev Event (client : Client) := Label machine (work client)

/-! ### The client's mutex -/

/-- `Lock` of `concurrency.Mutex`. -/
def mutexLock (l : Lease) : Prog Unit :=
  (cmd (.tryAcquire l)).orFail.bind fun (myRev, firstRev) =>
    if firstRev = myRev then .ret ()
    else (cmd (.waitDeletes myRev)).bind fun
      | .error e => (cmd (.cleanup l)).bind fun _ => .fail e
      | .ok _ => (cmd (.getKey l)).bind fun
        | .error e => (cmd (.cleanup l)).bind fun _ => .fail e
        | .ok present => if present then .ret () else .fail .sessionExpired

/-- **The client's mutex is as it is asked to be.** -/
def concurrencyMutex : Client where
  lock := mutexLock
  locks l := by
    have hcleanup : ∀ {q : Phase} {e}, q.stage = some (.acquiring l) →
        Follows protocol q ((cmd (.cleanup l)).bind fun _ => (.fail e : Prog Unit)) fun r q =>
          q.stage = some (.acquiring l) ∧ (r = .ok () → ∃ rev, q = .front l rev) :=
      fun hq => Follows.call hq fun _ => ⟨rfl, nofun⟩
    refine Follows.call rfl fun a => ?_
    rcases a with e | ⟨rev, first⟩
    · exact ⟨rfl, nofun⟩
    change Follows protocol (if first = rev then _ else _) (if first = rev then _ else _) _
    split_ifs with hfirst
    · exact ⟨rfl, fun _ => ⟨rev, rfl⟩⟩
    refine Follows.call ⟨l, rfl⟩ fun a => ?_
    cases a with
    | error e => exact hcleanup rfl
    | ok _ =>
      refine Follows.call trivial fun a => ?_
      rcases a with e | _ | _
      · exact hcleanup rfl
      · exact ⟨rfl, nofun⟩
      · exact ⟨rfl, fun _ => ⟨rev, rfl⟩⟩

/-! ### The invariant -/

/-- The keys are in the order of their revisions, there is one on a lease at most, and both
revisions and leases are of the past. -/
structure Orderly (s : State) : Prop where
  ascending : s.keys.Pairwise fun k k' => k.createRev < k'.createRev
  bounded : ∀ k ∈ s.keys, k.createRev ≤ s.revision
  unique : s.keys.Pairwise fun k k' => k.lease ≠ k'.lease
  known : ∀ k ∈ s.keys, k.lease < s.granted

/-- The key on a lease is the oldest. -/
def Oldest (s : State) (l : Lease) : Prop := ∃ k, s.keys.head? = some k ∧ k.lease = l

/-- **What holds at every moment.** -/
structure Inv (s : State) : Prop extends Orderly s where
  lapsed : ∀ k ∈ s.keys, s.renewal k.lease ≠ .lapsed
  session : ∀ {r l}, s.session r = some l → s.owner l = r ∧ l < s.granted
  /-- Who is at a stage has the local mutex, and a lease of its process. -/
  staged : ∀ {t st}, s.stage t = some st →
    s.localMu t.replica = some t ∧ s.owner st.lease = t.replica ∧ st.lease < s.granted
  /-- **A key on a lease that is renewed belongs to who has the local mutex.** -/
  attached : ∀ k ∈ s.keys, s.renewal k.lease = .live →
    ∃ t st, s.localMu (s.owner k.lease) = some t ∧ s.stage t = some st ∧ st.lease = k.lease
  /-- **Who has the lock has the oldest key.** -/
  head : ∀ {t l}, s.stage t = some (.holding l) → Oldest s l

variable {s : State} {st : Stage}

/-- No two callers are at a stage with one lease. -/
theorem Inv.stage_unique (h : Inv s) {t u : Tid} {st' : Stage} (ht : s.stage t = some st)
    (hu : s.stage u = some st') (hl : st.lease = st'.lease) : t = u := by
  obtain ⟨hmt, hot, -⟩ := h.staged ht
  obtain ⟨hmu, hou, -⟩ := h.staged hu
  rw [← hot, hl, hou] at hmt
  exact Option.some.inj (hmt.symm.trans hmu)

variable {l : Lease}

/-- **No two callers have the lock.** -/
theorem Inv.holding_unique (h : Inv s) {t u : Tid} {l' : Lease} (ht : s.stage t = some (.holding l))
    (hu : s.stage u = some (.holding l')) : t = u := by
  obtain ⟨k, hk, rfl⟩ := h.head ht
  obtain ⟨k', hk', rfl⟩ := h.head hu
  obtain rfl := Option.some.inj (hk.symm.trans hk')
  exact h.stage_unique ht hu rfl

/-! ### Keys come and go -/

theorem mem_without {k : Key} : k ∈ (s.without l).keys ↔ k ∈ s.keys ∧ k.lease ≠ l := by
  simp [State.without]

theorem Orderly.without (h : Orderly s) (l : Lease) : Orderly (s.without l) where
  ascending := h.ascending.filter _
  bounded k hk := h.bounded k (mem_without.mp hk).1
  unique := h.unique.filter _
  known k hk := h.known k (mem_without.mp hk).1

theorem Oldest.without {l' : Lease} (h : Oldest s l) (hne : l ≠ l') : Oldest (s.without l') l := by
  obtain ⟨k, hk, rfl⟩ := h
  obtain ⟨rest, hrest⟩ := List.head?_eq_some_iff.mp hk
  exact ⟨k, by simp [State.without, hrest, hne], rfl⟩

theorem put_of_mem (h : ∃ k ∈ s.keys, k.lease = l) : s.put l = s := by
  have hany : (s.keys.any fun k => k.lease = l) = true := by simpa using h
  simp only [State.put, hany, if_true]

theorem put_of_not_mem (h : ¬∃ k ∈ s.keys, k.lease = l) :
    s.put l = { s with revision := s.revision + 1, keys := s.keys ++ [⟨l, s.revision + 1⟩] } := by
  have hany : ¬(s.keys.any fun k => k.lease = l) = true := by simpa using h
  simp only [State.put, if_neg hany]

/-- A key that is created is younger than all others. -/
theorem Orderly.put (h : Orderly s) (hl : l < s.granted) : Orderly (s.put l) := by
  by_cases hmem : ∃ k ∈ s.keys, k.lease = l
  · rw [put_of_mem hmem]
    exact h
  · rw [put_of_not_mem hmem]
    refine ⟨?_, ?_, ?_, ?_⟩
    · refine List.pairwise_append.mpr ⟨h.ascending, List.pairwise_singleton _ _, ?_⟩
      intro k hk k' hk'
      obtain rfl := List.mem_singleton.mp hk'
      have := h.bounded k hk
      simp only
      omega
    · intro k hk
      rcases List.mem_append.mp hk with hk | hk
      · have := h.bounded k hk
        simp only
        omega
      · obtain rfl := List.mem_singleton.mp hk
        exact Nat.le_refl _
    · refine List.pairwise_append.mpr ⟨h.unique, List.pairwise_singleton _ _, ?_⟩
      intro k hk k' hk'
      obtain rfl := List.mem_singleton.mp hk'
      exact fun heq => hmem ⟨k, hk, heq⟩
    · intro k hk
      rcases List.mem_append.mp hk with hk | hk
      · exact h.known k hk
      · obtain rfl := List.mem_singleton.mp hk
        exact hl

theorem Oldest.put (h : Oldest s l) (l' : Lease) : Oldest (s.put l') l := by
  by_cases hmem : ∃ k ∈ s.keys, k.lease = l'
  · rwa [put_of_mem hmem]
  · obtain ⟨k, hk, rfl⟩ := h
    obtain ⟨rest, hrest⟩ := List.head?_eq_some_iff.mp hk
    exact ⟨k, by simp [put_of_not_mem hmem, hrest], rfl⟩

/-- The other keys stay, and the key is there. -/
theorem mem_put {k : Key} (h : k ∈ (s.put l).keys) : k ∈ s.keys ∨ k.lease = l := by
  by_cases hmem : ∃ k ∈ s.keys, k.lease = l
  · rw [put_of_mem hmem] at h
    exact Or.inl h
  · rw [put_of_not_mem hmem] at h
    rcases List.mem_append.mp h with h | h
    · exact Or.inl h
    · obtain rfl := List.mem_singleton.mp h
      exact Or.inr rfl

/-! ### What the requests keep -/

variable {s s' : State} {t : Tid} {l : Lease}

/-- A caller that has the local mutex goes on to a stage, with the lease on which its process has
keys, if on any that is renewed. -/
theorem Inv.setStage (h : Inv s) (hmu : s.localMu t.replica = some t)
    (howner : s.owner st.lease = t.replica) (hlt : st.lease < s.granted)
    (hkeys : ∀ k ∈ s.keys, s.renewal k.lease = .live → s.owner k.lease = t.replica →
      k.lease = st.lease)
    (hhead : ∀ l, st = .holding l → Oldest s l) : Inv (s.setStage t (some st)) where
  toOrderly := ⟨h.ascending, h.bounded, h.unique, h.known⟩
  lapsed := h.lapsed
  session := h.session
  staged {u su} hu := by
    change Function.update s.stage t (some st) u = some su at hu
    rcases eq_or_ne u t with rfl | hne
    · rw [Function.update_self] at hu
      obtain rfl := Option.some.inj hu
      exact ⟨hmu, howner, hlt⟩
    · rw [Function.update_of_ne hne] at hu
      exact h.staged hu
  attached k hk hlive := by
    obtain ⟨u, su, hmu', hsu, hlu⟩ := h.attached k hk hlive
    rcases eq_or_ne u t with rfl | hne
    · have hown : s.owner k.lease = u.replica := by
        rw [← hlu]
        exact (h.staged hsu).2.1
      exact ⟨u, st, hmu', Function.update_self _ _ _, (hkeys k hk hlive hown).symm⟩
    · exact ⟨u, su, hmu', (Function.update_of_ne hne _ _).trans hsu, hlu⟩
  head {u l} hu := by
    change Function.update s.stage t (some st) u = some _ at hu
    rcases eq_or_ne u t with rfl | hne
    · rw [Function.update_self] at hu
      exact hhead l (Option.some.inj hu)
    · rw [Function.update_of_ne hne] at hu
      exact h.head hu

/-- While a caller is at a stage, its process has no other key that is renewed. -/
theorem Inv.lease_of_key (h : Inv s) (hst : s.stage t = some st) {k : Key} (hk : k ∈ s.keys)
    (hlive : s.renewal k.lease = .live) (howner : s.owner k.lease = t.replica) :
    k.lease = st.lease := by
  obtain ⟨u, su, hmu, hsu, hlu⟩ := h.attached k hk hlive
  rw [howner, (h.staged hst).1] at hmu
  obtain rfl := Option.some.inj hmu
  obtain rfl := Option.some.inj (hst.symm.trans hsu)
  exact hlu.symm

/-- A key is deleted that nobody has the lock by. -/
theorem Inv.without (h : Inv s) (hnot : ∀ u, s.stage u ≠ some (.holding l)) :
    Inv (s.without l) where
  toOrderly := h.toOrderly.without l
  lapsed k hk := h.lapsed k (mem_without.mp hk).1
  session := h.session
  staged := h.staged
  attached k hk := h.attached k (mem_without.mp hk).1
  head {u _} hu := (h.head hu).without fun heq => hnot u (heq ▸ hu)

theorem Inv.grant (h : Inv s) (r : Replica) : Inv (s.grant r) where
  toOrderly := ⟨h.ascending, h.bounded, h.unique, fun k hk => Nat.lt_succ_of_lt (h.known k hk)⟩
  lapsed k hk := by
    have hne := Nat.ne_of_lt (h.known k hk)
    change Function.update s.renewal s.granted .live k.lease ≠ _
    rw [Function.update_of_ne hne]
    exact h.lapsed k hk
  session {r' l} hl := by
    change Function.update s.session r (some s.granted) r' = some l at hl
    change Function.update s.owner s.granted r l = r' ∧ l < s.granted + 1
    rcases eq_or_ne r' r with rfl | hne
    · rw [Function.update_self] at hl
      obtain rfl := Option.some.inj hl
      exact ⟨Function.update_self _ _ _, Nat.lt_succ_self _⟩
    · rw [Function.update_of_ne hne] at hl
      obtain ⟨howner, hlt⟩ := h.session hl
      exact ⟨(Function.update_of_ne (Nat.ne_of_lt hlt) _ _).trans howner, Nat.lt_succ_of_lt hlt⟩
  staged {u st} hu := by
    obtain ⟨hmu, howner, hlt⟩ := h.staged hu
    exact ⟨hmu, (Function.update_of_ne (Nat.ne_of_lt hlt) _ _).trans howner, Nat.lt_succ_of_lt hlt⟩
  attached k hk hlive := by
    have hne := Nat.ne_of_lt (h.known k hk)
    change Function.update s.renewal s.granted .live k.lease = _ at hlive
    rw [Function.update_of_ne hne] at hlive
    obtain ⟨u, st, hmu, hst, hl⟩ := h.attached k hk hlive
    refine ⟨u, st, ?_, hst, hl⟩
    change s.localMu (Function.update s.owner s.granted r k.lease) = _
    rwa [Function.update_of_ne hne]
  head := h.head

/-- A caller that acquires the lock creates its key. -/
theorem Inv.put (h : Inv s) (hst : s.stage t = some (.acquiring l))
    (hlapsed : s.renewal l ≠ .lapsed) : Inv (s.put l) := by
  obtain ⟨hmu, howner, hlt⟩ := h.staged hst
  refine ⟨h.toOrderly.put hlt, fun k hk => ?_, h.session, h.staged, fun k hk hlive => ?_,
    fun hu => (h.head hu).put l⟩
  · rcases mem_put hk with hk | rfl
    · exact h.lapsed k hk
    · exact hlapsed
  · rcases mem_put hk with hk | rfl
    · exact h.attached k hk hlive
    · exact ⟨t, _, (congrArg s.localMu howner).trans hmu, hst, rfl⟩

theorem ne_of_held {r r' : Replica} {u : Tid} (hfree : s.localMu r = none)
    (hheld : s.localMu r' = some u) : r' ≠ r := by
  rintro rfl
  cases hfree.symm.trans hheld

theorem Inv.lockLocal (h : Inv s) (hfree : s.localMu t.replica = none) :
    Inv { s with localMu := Function.update s.localMu t.replica (some t) } where
  toOrderly := ⟨h.ascending, h.bounded, h.unique, h.known⟩
  lapsed := h.lapsed
  session := h.session
  staged {u st} hu := by
    obtain ⟨hmu, hrest⟩ := h.staged hu
    exact ⟨(Function.update_of_ne (ne_of_held hfree hmu) _ _).trans hmu, hrest⟩
  attached k hk hlive := by
    obtain ⟨u, st, hmu, hrest⟩ := h.attached k hk hlive
    exact ⟨u, st, (Function.update_of_ne (ne_of_held hfree hmu) _ _).trans hmu, hrest⟩
  head := h.head

/-- The local mutex is given up when the key is gone, or the session has ended. -/
theorem Inv.unlockLocal (h : Inv s) (hmu : s.localMu t.replica = some t)
    (hgone : ∀ st, s.stage t = some st → s.renewal st.lease = .live →
      ∀ k ∈ s.keys, k.lease ≠ st.lease) :
    Inv { s.setStage t none with localMu := Function.update s.localMu t.replica none } := by
  -- Whoever else is at a stage is one of another process.
  have hother : ∀ {u st}, u ≠ t → s.stage u = some st → u.replica ≠ t.replica := by
    intro u st hne hu heq
    obtain ⟨hmu', -⟩ := h.staged hu
    rw [heq, hmu] at hmu'
    exact hne (Option.some.inj hmu').symm
  have hstage : ∀ {u st}, (s.setStage t none).stage u = some st → u ≠ t ∧ s.stage u = some st := by
    intro u st hu
    change Function.update s.stage t none u = _ at hu
    rcases eq_or_ne u t with rfl | hne
    · rw [Function.update_self] at hu
      cases hu
    · rw [Function.update_of_ne hne] at hu
      exact ⟨hne, hu⟩
  refine ⟨⟨h.ascending, h.bounded, h.unique, h.known⟩, h.lapsed, h.session, fun hu => ?_,
    fun k hk hlive => ?_, fun hu => h.head (hstage hu).2⟩
  · obtain ⟨hne, hu⟩ := hstage hu
    obtain ⟨hmu', hrest⟩ := h.staged hu
    exact ⟨(Function.update_of_ne (hother hne hu) _ _).trans hmu', hrest⟩
  · obtain ⟨u, st, hmu', hu, hl⟩ := h.attached k hk hlive
    have hne : u ≠ t := by
      rintro rfl
      exact hgone st hu (hl ▸ hlive) k hk hl.symm
    refine ⟨u, st, ?_, (Function.update_of_ne hne _ _).trans hu, hl⟩
    have howner : s.owner k.lease = u.replica := by
      rw [← hl]
      exact (h.staged hu).2.1
    change Function.update s.localMu t.replica none (s.owner k.lease) = _
    rwa [howner, Function.update_of_ne (hother hne hu), ← howner]

/-- A session ends, and perhaps the lease. -/
theorem Inv.setRenewal (h : Inv s) {x : Renewal} (hx : x ≠ .live)
    (hlapsed : x = .lapsed → ∀ k ∈ s.keys, k.lease ≠ l) :
    Inv { s with renewal := Function.update s.renewal l x } where
  toOrderly := ⟨h.ascending, h.bounded, h.unique, h.known⟩
  lapsed k hk heq := by
    change Function.update s.renewal l x k.lease = _ at heq
    rcases eq_or_ne k.lease l with hkl | hne
    · rw [hkl, Function.update_self] at heq
      exact hlapsed heq k hk hkl
    · rw [Function.update_of_ne hne] at heq
      exact h.lapsed k hk heq
  session := h.session
  staged := h.staged
  attached k hk hlive := by
    change Function.update s.renewal l x k.lease = _ at hlive
    rcases eq_or_ne k.lease l with hkl | hne
    · rw [hkl, Function.update_self] at hlive
      exact absurd hlive hx
    · rw [Function.update_of_ne hne] at hlive
      exact h.attached k hk hlive
  head := h.head

theorem Inv.not_heldThrough (h : Inv s) (hheld : s.heldThrough l = false) (u : Tid) :
    s.stage u ≠ some (.holding l) := by
  intro hu
  obtain ⟨hmu, howner, -⟩ := h.staged hu
  simp [State.heldThrough, show s.owner l = u.replica from howner, hmu, hu] at hheld

theorem liveSession_eq_some {r : Replica} (h : s.liveSession r = some l) :
    s.session r = some l ∧ s.renewal l = .live := by
  simpa [State.liveSession, Option.filter_eq_some_iff] using h

/-! ### What a request can do -/

/-- **What an allowed request of `t` can do to the state.** -/
inductive Effect (t : Tid) (s : State) : State → Prop
  | refl : Effect t s s
  | lock : s.localMu t.replica = none →
      Effect t s { s with localMu := Function.update s.localMu t.replica (some t) }
  | unlock : s.localMu t.replica = some t →
      (∀ st, s.stage t = some st → s.renewal st.lease = .live → ∀ k ∈ s.keys, k.lease ≠ st.lease) →
      Effect t s { s.setStage t none with localMu := Function.update s.localMu t.replica none }
  | join (l : Lease) : s.localMu t.replica = some t → s.stage t = none →
      s.liveSession t.replica = some l → Effect t s (s.setStage t (some (.acquiring l)))
  | begin : s.localMu t.replica = some t → s.stage t = none →
      Effect t s ((s.grant t.replica).setStage t (some (.acquiring s.granted)))
  | put (l : Lease) : s.stage t = some (.acquiring l) → s.renewal l ≠ .lapsed → Effect t s (s.put l)
  | withdraw (l : Lease) : s.stage t = some (.acquiring l) → Effect t s (s.without l)
  | hold (l : Lease) : s.stage t = some (.acquiring l) → Oldest s l →
      Effect t s (s.setStage t (some (.holding l)))
  | release (st : Stage) : s.stage t = some st →
      Effect t s (s.setStage t (some (.releasing st.lease)))
  | delete (st : Stage) : s.stage t = some st →
      Effect t s ((s.without st.lease).setStage t (some (.releasing st.lease)))
  | stop (l : Lease) : Effect t s { s with renewal := Function.update s.renewal l .stopped }
  | lapse (l : Lease) : s.heldThrough l = false →
      Effect t s { s.without l with renewal := Function.update s.renewal l .lapsed }

/-- A deletion has its effect, or it has failed. -/
theorem deletion_cases {ch : Choice} {s₁ s₂ : State} {a : Except Failure Unit}
    (h : deletion ch s₁ s₂ = some (a, s')) : s' = s₂ ∨ s' = s₁ ∧ ∃ e, a = .error e := by
  unfold deletion at h
  split_ifs at h
  all_goals cases h
  · exact Or.inl rfl
  · exact Or.inr ⟨rfl, _, rfl⟩
  · exact Or.inl rfl

/-- A caller that gives its key back. -/
theorem Inv.releasing (h : Inv s) (hst : s.stage t = some st) :
    Inv (s.setStage t (some (.releasing st.lease))) := by
  obtain ⟨hmu, howner, hlt⟩ := h.staged hst
  exact h.setStage hmu howner hlt (fun k hk hlive hown => h.lease_of_key hst hk hlive hown) nofun

/-- **Every allowed request keeps the invariant.** -/
theorem Effect.inv (he : Effect t s s') (h : Inv s) : Inv s' := by
  -- A process whose local mutex is held by a caller at no stage has no key that is renewed.
  have hkeys : s.localMu t.replica = some t → s.stage t = none → ∀ k ∈ s.keys,
      s.renewal k.lease = .live → s.owner k.lease ≠ t.replica := by
    intro hmu hnone k hk hlive hown
    obtain ⟨u, st, hmu', hu, -⟩ := h.attached k hk hlive
    rw [hown, hmu] at hmu'
    obtain rfl := Option.some.inj hmu'
    cases hnone.symm.trans hu
  cases he with
  | refl => exact h
  | lock hfree => exact h.lockLocal hfree
  | unlock hmu hgone => exact h.unlockLocal hmu hgone
  | join l hmu hnone hl =>
    obtain ⟨howner, hlt⟩ := h.session (liveSession_eq_some hl).1
    exact h.setStage hmu howner hlt
      (fun k hk hlive hown => absurd hown (hkeys hmu hnone k hk hlive)) nofun
  | begin hmu hnone =>
    refine (h.grant t.replica).setStage hmu (Function.update_self _ _ _) (Nat.lt_succ_self _)
      (fun k hk hlive hown => ?_) nofun
    have hne := Nat.ne_of_lt (h.known k hk)
    change Function.update s.renewal s.granted .live k.lease = _ at hlive
    change Function.update s.owner s.granted t.replica k.lease = _ at hown
    rw [Function.update_of_ne hne] at hlive hown
    exact absurd hown (hkeys hmu hnone k hk hlive)
  | put l hst hlapsed => exact h.put hst hlapsed
  | withdraw l hst =>
    refine h.without fun u hu => ?_
    obtain rfl := h.stage_unique hst hu rfl
    cases hst.symm.trans hu
  | hold l hst holdest =>
    obtain ⟨hmu, howner, hlt⟩ := h.staged hst
    refine h.setStage hmu howner hlt (fun k hk hlive hown => h.lease_of_key hst hk hlive hown) ?_
    rintro l' ⟨⟩
    exact holdest
  | release st hst => exact h.releasing hst
  | delete st hst =>
    have hself : (s.setStage t (some (.releasing st.lease))).stage t = some (.releasing st.lease) :=
      Function.update_self _ _ _
    refine Inv.without (h.releasing hst) fun u hu => ?_
    obtain rfl := (h.releasing hst).stage_unique hself hu rfl
    cases hself.symm.trans hu
  | stop l => exact h.setRenewal nofun nofun
  | lapse l hheld =>
    exact (h.without (h.not_heldThrough hheld)).setRenewal nofun
      fun _ k hk => (mem_without.mp hk).2

/-! ### What the others leave alone -/

variable {u : Tid}

theorem Effect.stage_eq (he : Effect u s s') (hne : t ≠ u) : s'.stage t = s.stage t := by
  cases he with
  | unlock | join | begin | hold | release | delete => exact Function.update_of_ne hne _ _
  | refl | lock | put | withdraw | stop | lapse => rfl

theorem Effect.localMu_eq (he : Effect u s s') (hne : t ≠ u) (h : s.localMu t.replica = some t) :
    s'.localMu t.replica = some t := by
  cases he with
  | lock hfree => exact (Function.update_of_ne (ne_of_held hfree h) _ _).trans h
  | unlock hmu =>
    refine (Function.update_of_ne (fun heq => hne ?_) _ _).trans h
    rw [heq, hmu] at h
    exact (Option.some.inj h).symm
  | refl | join | begin | put | withdraw | hold | release | delete | stop | lapse => exact h

/-- A session that has ended does not begin again. -/
theorem Effect.not_live (he : Effect u s s') (hlt : l < s.granted) (h : s.renewal l ≠ .live) :
    s'.renewal l ≠ .live := by
  cases he with
  | begin => exact fun heq => h ((Function.update_of_ne (Nat.ne_of_lt hlt) _ _).symm.trans heq)
  | stop l' | lapse l' =>
    change Function.update s.renewal l' _ l ≠ _
    rcases eq_or_ne l l' with rfl | hne
    · rw [Function.update_self]
      decide
    · rwa [Function.update_of_ne hne]
  | refl | lock | unlock | join | put | withdraw | hold | release | delete => exact h

/-- **A key is deleted by nobody but the caller it belongs to**, unless its session has ended. -/
theorem Effect.key (he : Effect u s s') (h : Inv s) (hst : s.stage t = some st) (hne : t ≠ u)
    {k : Key} (hk : k ∈ s.keys) (hl : k.lease = st.lease) :
    k ∈ s'.keys ∨ s'.renewal k.lease ≠ .live := by
  cases he with
  | put l =>
    refine Or.inl ?_
    by_cases hmem : ∃ k ∈ s.keys, k.lease = l
    · rwa [put_of_mem hmem]
    · rw [put_of_not_mem hmem]
      exact List.mem_append_left _ hk
  | withdraw _ hu | delete _ hu =>
    refine Or.inl (mem_without.mpr ⟨hk, fun heq => hne ?_⟩)
    exact h.stage_unique hst hu (hl.symm.trans heq)
  | lapse l =>
    rcases eq_or_ne k.lease l with heq | hkl
    · refine Or.inr ?_
      rw [heq]
      simp
    · exact Or.inl (mem_without.mpr ⟨hk, hkl⟩)
  | refl | lock | unlock | join | begin | hold | release | stop => exact Or.inl hk

/-- **A key that is new is younger than all there were**, and belongs to who creates it. -/
theorem Effect.new_key (he : Effect u s s') {k : Key} (hk : k ∈ s'.keys) :
    k ∈ s.keys ∨ k.createRev = s.revision + 1 ∧ s.stage u = some (.acquiring k.lease) := by
  cases he with
  | put l hu =>
    by_cases hmem : ∃ k ∈ s.keys, k.lease = l
    · rw [put_of_mem hmem] at hk
      exact Or.inl hk
    · rw [put_of_not_mem hmem] at hk
      rcases List.mem_append.mp hk with hk | hk
      · exact Or.inl hk
      · obtain rfl := List.mem_singleton.mp hk
        exact Or.inr ⟨rfl, hu⟩
  | withdraw | delete | lapse => exact Or.inl (mem_without.mp hk).1
  | refl | lock | unlock | join | begin | hold | release | stop => exact Or.inl hk

theorem Effect.revision_le (he : Effect u s s') : s.revision ≤ s'.revision := by
  cases he with
  | put l =>
    by_cases hmem : ∃ k ∈ s.keys, k.lease = l
    · exact Nat.le_of_eq (congrArg State.revision (put_of_mem hmem).symm)
    · rw [put_of_not_mem hmem]
      exact Nat.le_succ _
  | refl | lock | unlock | join | begin | withdraw | hold | release | delete | stop | lapse =>
    exact Nat.le_refl _

/-! ### What a caller knows -/

/-- No key is older than this revision. -/
def First (rev : ℕ) (s : State) : Prop := ∀ k ∈ s.keys, rev ≤ k.createRev

/-- The key on a lease has a revision, unless the session has ended. -/
def Known (l : Lease) (rev : ℕ) (s : State) : Prop :=
  rev ≤ s.revision ∧ (s.renewal l = .live → ⟨l, rev⟩ ∈ s.keys)

/-- What a caller knows beside its stage. -/
def Phase.Assures (t : Tid) : Phase → State → Prop
  | entered, s => s.localMu t.replica = some t
  | queued l rev, s => Known l rev s
  | front l rev, s => Known l rev s ∧ First rev s
  | gone l, s => s.renewal l = .live → ∀ k ∈ s.keys, k.lease ≠ l
  | _, _ => True

/-- **What a caller can rely on**, where it is. -/
def Stands (t : Tid) (q : Phase) (s : State) : Prop := s.stage t = q.stage ∧ q.Assures t s

variable {q : Phase}

/-- The others leave it that way. -/
theorem Stands.stable (h : Stands t q s) (hinv : Inv s) (he : Effect u s s') (hne : t ≠ u) :
    Stands t q s' := by
  have hlive : ∀ {st}, s.stage t = some st → s'.renewal st.lease = .live →
      s.renewal st.lease = .live := fun hst hlive =>
    by_contra fun hnot => he.not_live (hinv.staged hst).2.2 hnot hlive
  have hknown : ∀ {l rev}, s.stage t = some (.acquiring l) → Known l rev s → Known l rev s' := by
    intro l rev hst hk
    refine ⟨Nat.le_trans hk.1 he.revision_le, fun hl => ?_⟩
    exact (he.key hinv hst hne (hk.2 (hlive hst hl)) rfl).resolve_right fun hnot => hnot hl
  refine ⟨(he.stage_eq hne).trans h.1, ?_⟩
  cases q with
  | entered => exact he.localMu_eq hne h.2
  | queued l rev => exact hknown h.1 h.2
  | front l rev =>
    refine ⟨hknown h.1 h.2.1, fun k hk => ?_⟩
    rcases he.new_key hk with hk | ⟨hrev, -⟩
    · exact h.2.2 k hk
    · have := h.2.1.1
      omega
  | gone l =>
    intro hl k hk heq
    rcases he.new_key hk with hk | ⟨-, hu⟩
    · exact h.2 (hlive h.1 hl) k hk heq
    · exact hne (hinv.stage_unique h.1 hu heq.symm)
  | _ => trivial

/-- A key that is not younger than any is the oldest. -/
theorem Orderly.oldest (h : Orderly s) {rev : ℕ} (hk : ⟨l, rev⟩ ∈ s.keys) (hfirst : First rev s) :
    Oldest s l := by
  cases hkeys : s.keys with
  | nil =>
    rw [hkeys] at hk
    cases hk
  | cons k rest =>
    have hasc := h.ascending
    rw [hkeys] at hk hasc
    rcases List.mem_cons.mp hk with rfl | hk
    · exact ⟨_, by rw [hkeys]; rfl, rfl⟩
    · have hlt := (List.pairwise_cons.mp hasc).1 _ hk
      have hle := hfirst k (by rw [hkeys]; exact List.mem_cons_self)
      exact absurd hlt (Nat.not_lt.mpr hle)

/-- The oldest key has the revision that is answered. -/
theorem Orderly.first (h : Orderly s) : First s.firstRev s := by
  intro k hk
  unfold State.firstRev
  cases hkeys : s.keys with
  | nil =>
    rw [hkeys] at hk
    cases hk
  | cons k₀ rest =>
    have hasc := h.ascending
    rw [hkeys] at hk hasc
    rcases List.mem_cons.mp hk with rfl | hk
    · exact Nat.le_refl _
    · exact Nat.le_of_lt ((List.pairwise_cons.mp hasc).1 k hk)

/-- The key is there once it has been created, with the revision that is answered. -/
theorem mem_put_revOf : ⟨l, (s.put l).revOf l⟩ ∈ (s.put l).keys := by
  have hmem : ∃ k ∈ (s.put l).keys, k.lease = l := by
    by_cases hmem : ∃ k ∈ s.keys, k.lease = l
    · rwa [put_of_mem hmem]
    · rw [put_of_not_mem hmem]
      exact ⟨_, List.mem_append_right _ (List.mem_singleton_self _), rfl⟩
  obtain ⟨k, hk, hl⟩ := hmem
  unfold State.revOf
  cases hfind : (s.put l).keys.find? fun k => k.lease = l with
  | none => exact absurd hl (by simpa using List.find?_eq_none.mp hfind k hk)
  | some k' =>
    obtain rfl : k'.lease = l := by simpa using List.find?_some hfind
    exact List.mem_of_find?_eq_some hfind

theorem setStage_self {st : Option Stage} : (s.setStage t st).stage t = st :=
  Function.update_self _ _ _

/-- **What a request does, and where its answer leads.** -/
theorem exec_step {c : Cmd} {ch : Choice} {a : c.Ans} (hinv : Inv s) (hs : Stands t q s)
    (hall : q.Allows c) (hex : exec t s c ch = some (a, s')) :
    Effect t s s' ∧ Stands t (q.next c a) s' := by
  cases c with
  | lockLocal =>
    obtain rfl : q = .idle := hall
    simp only [exec] at hex
    split_ifs at hex with hfree
    cases hex
    exact ⟨.lock hfree, hs.1, Function.update_self _ _ _⟩
  | unlockLocal =>
    cases hex
    refine ⟨?_, setStage_self, trivial⟩
    rcases hall with rfl | ⟨l, rfl⟩
    · exact .unlock hs.2 fun st hst => by cases hs.1.symm.trans hst
    · refine .unlock (hinv.staged hs.1).1 fun st hst => ?_
      obtain rfl := Option.some.inj (hs.1.symm.trans hst)
      exact hs.2
  | ensureSession =>
    obtain rfl : q = .entered := hall
    simp only [exec] at hex
    split_ifs at hex
    · cases hex
      exact ⟨.refl, hs⟩
    · split at hex
      · next l hl =>
        cases hex
        exact ⟨.join l hs.2 hs.1 hl, setStage_self, trivial⟩
      · cases hex
        exact ⟨.begin hs.2 hs.1, setStage_self, trivial⟩
  | tryAcquire l =>
    obtain rfl : q = .acquiring l := hall
    simp only [exec] at hex
    split_ifs at hex with hfail
    · cases hex
      exact ⟨.refl, hs⟩
    -- The lease has not lapsed: the key is put on it, whether or not the answer arrives.
    all_goals have he := Effect.put l hs.1 fun hlapsed => hfail (Or.inl hlapsed)
    · cases hex
      exact ⟨he, hs.1, trivial⟩
    · cases hex
      have hinv' := he.inv hinv
      have hknown : Known l ((s.put l).revOf l) (s.put l) :=
        ⟨hinv'.bounded _ mem_put_revOf, fun _ => mem_put_revOf⟩
      refine ⟨he, ?_⟩
      change Stands t (if _ then _ else _) _
      split_ifs with hfirst
      · exact ⟨hs.1, hknown, hfirst ▸ hinv'.first⟩
      · exact ⟨hs.1, hknown⟩
  | waitDeletes rev =>
    obtain ⟨l, rfl⟩ := hall
    simp only [exec] at hex
    split_ifs at hex with _ hfirst
    · cases hex
      exact ⟨.refl, hs⟩
    · cases hex
      exact ⟨.refl, hs.1, hs.2, fun k hk => by simpa using List.all_eq_true.mp hfirst k hk⟩
  | cleanup l =>
    rcases deletion_cases hex with rfl | ⟨rfl, -⟩
    · exact ⟨.withdraw l (hs.1.trans hall), hs.1.trans hall, trivial⟩
    · exact ⟨.refl, hs.1.trans hall, trivial⟩
  | sessionDone l =>
    obtain ⟨rev, rfl⟩ := hall
    simp only [exec] at hex
    split_ifs at hex with hlive
    · cases hex
      -- The lease is live, so the key is still there, and none is older.
      exact ⟨.hold l hs.1 (hinv.oldest (hs.2.1.2 hlive) hs.2.2), setStage_self, trivial⟩
    · cases hex
      exact ⟨.refl, hs.1, trivial⟩
  | release l =>
    obtain ⟨st, hst, rfl⟩ := hall
    -- The key is gone, or there is an error and it may still be there.
    rcases deletion_cases hex with rfl | ⟨rfl, e, rfl⟩
    · refine ⟨.delete st (hs.1.trans hst), ?_⟩
      cases a with
      | ok _ => exact ⟨setStage_self, fun _ k hk => (mem_without.mp hk).2⟩
      | error e => exact ⟨setStage_self, trivial⟩
    · exact ⟨.release st (hs.1.trans hst), setStage_self, trivial⟩
  | awaitRetry l =>
    obtain rfl : q = .releasing l := hall
    simp only [exec, Option.some.injEq, Prod.mk.injEq] at hex
    obtain ⟨hdone, rfl⟩ := hex
    cases a with
    | true =>
      refine ⟨.refl, hs.1, fun hlive => ?_⟩
      simp [hlive] at hdone
    | false => exact ⟨.refl, hs⟩
  | stop l =>
    obtain rfl : q = .idle := hall
    cases hex
    split_ifs
    · exact ⟨.stop l, hs.1, trivial⟩
    · exact ⟨.refl, hs⟩
  | lapse l =>
    obtain rfl : q = .idle := hall
    simp only [exec] at hex
    split_ifs at hex with hlapse
    cases hex
    exact ⟨.lapse l (by simpa using hlapse.2), hs.1, trivial⟩
  | getKey l | critical =>
    cases hex
    exact ⟨.refl, hs⟩
  | never => cases hex

/-! ### The programs follow the protocol -/

theorem releaseOr_follows {retry : Prog Unit} (hq : ∃ st, q.stage = some st ∧ st.lease = l)
    (hretry : Follows protocol (.releasing l) retry fun _ q' => q' = .idle) :
    Follows protocol q (releaseOr l retry) fun _ q' => q' = .idle := by
  refine Follows.call hq fun a => ?_
  cases a with
  | ok _ => exact Follows.call (Or.inr ⟨l, rfl⟩) fun _ => rfl
  | error _ => exact hretry

theorem retryRelease_follows (n : ℕ) :
    Follows protocol (.releasing l) (retryRelease l n) fun _ q' => q' = .idle := by
  induction n with
  | zero => exact Follows.call trivial fun no => no.elim
  | succ n ih =>
    refine Follows.call rfl fun done => ?_
    cases done with
    | true => exact Follows.call (Or.inr ⟨l, rfl⟩) fun _ => rfl
    | false => exact releaseOr_follows ⟨_, rfl, rfl⟩ ih

/-- **A caller that releases the lock has no key in the end**, when the retries have ended. -/
theorem unlock_follows {retries : ℕ} (hq : ∃ st, q.stage = some st ∧ st.lease = l) :
    Follows protocol q (unlock retries l) fun _ q' => q' = .idle :=
  releaseOr_follows hq (retryRelease_follows retries)

/-- How an acquisition ends. -/
def Acquired : Except Failure Lease → Phase → Prop
  | .ok l, q => q = .holding l
  | .error _, q => q = .idle

variable {client : Client}

/-- **A successful acquisition holds the lock; a failed one has given back what it took.** -/
theorem acquireLock_follows {retries : ℕ} :
    Follows protocol .idle (acquireLock client retries) Acquired := by
  have hgive : ∀ {q l e}, q.stage = some (.acquiring l) → Follows protocol q
      ((unlock retries l).bind fun _ => (.fail e : Prog Lease)) Acquired := by
    intro q l e hq
    refine Follows.bind ((unlock_follows ⟨_, hq, rfl⟩).mono fun r q' hq' => ?_)
    cases r <;> exact hq'
  refine Follows.call rfl fun _ => Follows.call rfl fun a => ?_
  rcases a with e | l
  · exact Follows.call (Or.inl rfl) fun _ => rfl
  change Follows protocol (.acquiring l) ((client.lock l).attempt.bind _) _
  refine Follows.bind (Follows.attempt ((client.locks l).mono fun r q hq => ?_))
  rcases r with e | _
  · exact hgive hq.1
  obtain ⟨rev, rfl⟩ := hq.2 rfl
  refine Follows.call ⟨rev, rfl⟩ fun done => ?_
  cases done with
  | true => exact hgive rfl
  | false => rfl

theorem underLock_follows {n : ℕ} :
    Follows protocol (.holding l) (underLock n) fun r q => r = .ok () ∧ q = .holding l := by
  induction n with
  | zero => exact ⟨rfl, rfl⟩
  | succ n ih => exact Follows.call ⟨l, rfl⟩ fun _ => ih

/-- **Every job ends as it has begun.** -/
theorem body_follows (j : Job) : Follows protocol .idle (body client j) fun _ q => q = .idle := by
  cases j with
  | use steps retries =>
    refine Follows.bind (acquireLock_follows.mono fun r q hq => ?_)
    cases r with
    | error e => exact hq
    | ok l =>
      obtain rfl : q = .holding l := hq
      refine Follows.bind (underLock_follows.mono ?_)
      rintro _ _ ⟨rfl, rfl⟩
      exact unlock_follows ⟨_, rfl, rfl⟩
  | stop l | lapse l => exact Follows.call rfl fun _ => rfl

/-- **The invariant, and where the callers are.** -/
structure Placed (s : State) (q : Tid → Phase) : Prop where
  inv : Inv s
  stands : ∀ t, Stands t (q t) s

theorem Placed.exec {q : Tid → Phase} {c : Cmd} {ch : Choice} {a : c.Ans} (h : Placed s q)
    (hall : (q t).Allows c) (hex : exec t s c ch = some (a, s')) :
    Placed s' (Function.update q t ((q t).next c a)) := by
  obtain ⟨he, hself⟩ := exec_step h.inv (h.stands t) hall hex
  refine ⟨he.inv h.inv, fun u => ?_⟩
  rcases eq_or_ne u t with rfl | hne
  · rwa [Function.update_self]
  · rw [Function.update_of_ne hne]
    exact (h.stands u).stable h.inv he hne

/-! ### What holds in every run -/

/-- A caller has the lock: it has acquired it and has not begun to release it. -/
def Holds (p : Cluster client) (t : Tid) : Prop := ∃ l, p.shared.stage t = some (.holding l)

/-- The caller is about to delete the key on the lease: a release, a retry, or a failed
acquisition that cleans up. -/
def Deletes (p : Cluster client) (t : Tid) (l : Lease) : Prop :=
  ∃ j c k, p.thread t = .running j (.call c k) ∧ (c = .release l ∨ c = .cleanup l)

/-- An acquisition relies on the key on the lease. -/
def ReliesOn (p : Cluster client) (t : Tid) (l : Lease) : Prop :=
  ∃ st, p.shared.stage t = some st ∧ st.lease = l

/-- **The locks of etcd exclude.** -/
structure Excludes (p : Cluster client) : Prop where
  /-- Who does something under the lock has it. -/
  inside : ∀ {t j k}, p.thread t = .running j (.call .critical k) → Holds p t
  exclusive : ∀ {t u}, Holds p t → Holds p u → t = u
  /-- Nobody deletes a key that another acquisition relies on. -/
  undisturbed : ∀ {t u l}, Deletes p t l → ReliesOn p u l → u = t
  /-- A key on a lease that is renewed belongs to a caller that has not ended. -/
  owned : ∀ key ∈ p.shared.keys, p.shared.renewal key.lease = .live →
    ∃ t, ReliesOn p t key.lease ∧ ∃ j rest, p.thread t = .running j rest

theorem excludes_of_run {ls : List (Event client)} {p : Cluster client}
    (h : (Pool.initial ({} : State) : Cluster client).run ls = some p) : Excludes p := by
  have hinit : Placed {} fun _ => .idle :=
    ⟨⟨⟨List.Pairwise.nil, nofun, List.Pairwise.nil, nofun⟩, nofun, nofun, nofun, nofun, nofun⟩,
      fun _ => ⟨rfl, trivial⟩⟩
  obtain ⟨q, ⟨hinv, hstands⟩, hidle, hallows⟩ := Pool.total_run (fun _ j => body_follows j)
    (fun hex hplaced hallows => hplaced.exec hallows hex) hinit h
  refine ⟨fun {t _ _} ht => ?_, ?_, ?_, fun key hkey hlive => ?_⟩
  · obtain ⟨l, hq⟩ := hallows ht
    exact ⟨l, (hstands t).1.trans (congrArg Phase.stage hq)⟩
  · rintro t u ⟨l, ht⟩ ⟨l', hu⟩
    exact hinv.holding_unique ht hu
  · rintro t u l ⟨j, c, k, ht, hc⟩ ⟨st, hu, hl⟩
    have hown : ∃ st, (q t).stage = some st ∧ st.lease = l := by
      rcases hc with rfl | rfl
      · exact hallows ht
      · exact ⟨_, hallows ht, rfl⟩
    obtain ⟨st', ht', hl'⟩ := hown
    exact hinv.stage_unique hu ((hstands t).1.trans ht') (hl.trans hl'.symm)
  · obtain ⟨t, st, -, hst, hl⟩ := hinv.attached key hkey hlive
    refine ⟨t, ⟨st, hst, hl⟩, ?_⟩
    cases ht : p.thread t with
    | idle => cases ((hstands t).1.trans (congrArg Phase.stage (hidle t ht))).symm.trans hst
    | running j rest => exact ⟨j, rest, rfl⟩

end OpenvoxCa.Storage.EtcdLock
