import OpenvoxCa.Storage.EtcdLock

/-!
# The distributed lock on Redis

On Redis a lock is one key, which holds a token that its acquisition has drawn. The key is set if
there is none; it is deleted by a script that looks at the token first. A request that fails may
have been carried out, and nothing is done about it: a key that a failed acquisition or release has
left behind lapses with its time to live.

So there is less to arrange than on etcd (`EtcdLock`). The token tells two acquisitions apart, even
two of one process; that no two draw the same is all that is needed, and sixteen random bytes are
taken to see to that. What the heartbeat of a holder does is to extend the time to live, so that the
key does not lapse while the lock is held; the machine has it that way.

The last section puts the two backends together.
-/

namespace OpenvoxCa.Storage

namespace RedisLock

open Conc

/-! ### The machine -/

/-- A token; they are numbered as they are drawn. -/
abbrev Token := ℕ

/-- What a caller is doing between drawing its token and giving up the local mutex. -/
inductive Stage
  | acquiring (token : Token)
  | holding (token : Token)
  | releasing (token : Token)
  deriving DecidableEq

def Stage.token : Stage → Token
  | acquiring x | holding x | releasing x => x

/-- **The state of the lock of one name.** -/
structure State where
  /-- The token in the lock key. -/
  key : Option Token := none
  /-- How many tokens have been drawn. -/
  drawn : ℕ := 0
  drawnBy : Token → Tid := fun _ => ⟨0, 0⟩
  /-- The local mutex of the name, in each process. -/
  localMu : Replica → Option Tid := fun _ => none
  /-- What each caller is doing. -/
  stage : Tid → Option Stage := fun _ => none

/-- Why an acquisition or a release fails. -/
inductive Failure
  | unavailable
  deriving DecidableEq

inductive Cmd
  /-- `local.Lock()`. -/
  | lockLocal
  /-- `local.Unlock()`. -/
  | unlockLocal
  /-- `newLockToken`. -/
  | newToken
  /-- `SetNX` of the lock key: whether it was set. -/
  | setNX (token : Token)
  /-- The wait between two attempts, for the timer or for the context. -/
  | backoff
  /-- What the caller does under the lock. -/
  | critical
  /-- `unlockLuaScript`: whether the key was deleted. -/
  | release (token : Token)
  /-- The key lapses. -/
  | lapse
  /-- Nothing that ever happens. -/
  | never

@[reducible] def Cmd.Ans : Cmd → Type
  | lockLocal => Unit
  | unlockLocal => Unit
  | newToken => Except Failure Token
  | setNX _ => Except Failure Bool
  | backoff => Except Failure Unit
  | critical => Unit
  | release _ => Except Failure Bool
  | lapse => Unit
  | never => Empty

abbrev interface : Interface := ⟨Cmd, Cmd.Ans⟩

abbrev Prog := Conc.Prog interface Failure

def cmd (c : Cmd) : Prog c.Ans := Conc.Prog.cmd (I := interface) c

/-- What the environment decides about a request. -/
structure Choice where
  fails : Bool := false
  /-- A request that fails has been carried out. -/
  late : Bool := false

/-- A caller is at a stage. -/
def State.setStage (s : State) (t : Tid) (st : Option Stage) : State :=
  { s with stage := Function.update s.stage t st }

/-- The key is set unless there is one. -/
def State.set (s : State) (x : Token) : State := { s with key := s.key.or (some x) }

/-- The key is deleted if it has the token. -/
def State.delete (s : State) (x : Token) : State :=
  { s with key := s.key.filter fun y => y ≠ x }

/-- A token is drawn. -/
def State.draw (s : State) (t : Tid) : State :=
  { s with drawn := s.drawn + 1, drawnBy := Function.update s.drawnBy s.drawn t }

/-- The lock is held by who has drawn the token. -/
def State.heldBy (s : State) (x : Token) : Bool := s.stage (s.drawnBy x) = some (.holding x)

/-- **What a request does.** -/
def exec (t : Tid) (s : State) : (c : Cmd) → Choice → Option (c.Ans × State)
  | .lockLocal, _ =>
      if s.localMu t.replica = none then
        some ((), { s with localMu := Function.update s.localMu t.replica (some t) })
      else none
  | .unlockLocal, _ =>
      some ((), { s.setStage t none with localMu := Function.update s.localMu t.replica none })
  | .newToken, ch =>
      if ch.fails then some (.error .unavailable, s)
      else some (.ok s.drawn, (s.draw t).setStage t (some (.acquiring s.drawn)))
  | .setNX x, ch =>
      if ch.fails then some (.error .unavailable, if ch.late then s.set x else s)
      else if s.key = none then some (.ok true, (s.set x).setStage t (some (.holding x)))
      else some (.ok false, s)
  | .backoff, ch => some (if ch.fails then .error .unavailable else .ok (), s)
  | .critical, _ => some ((), s)
  | .release x, ch =>
      if ch.fails then
        some (.error .unavailable,
          (if ch.late then s.delete x else s).setStage t (some (.releasing x)))
      else some (.ok (s.key = some x), (s.delete x).setStage t (some (.releasing x)))
  | .lapse, _ =>
      match s.key with
      | some x => if s.heldBy x then none else some ((), { s with key := none })
      | none => none
  | .never, _ => none

abbrev machine : Machine interface := ⟨State, Tid, Choice, exec⟩

/-! ### What a caller asks for -/

/-- **When a caller may make a request**, by its stage. -/
def Allows (st : Option Stage) : Cmd → Prop
  | .setNX x => st = some (.acquiring x)
  | .critical => ∃ x, st = some (.holding x)
  | .release x => st = some (.holding x)
  | _ => True

/-- Where an answer leads. -/
def next (st : Option Stage) : (c : Cmd) → c.Ans → Option Stage
  | .unlockLocal, _ => none
  | .newToken, .ok x => some (.acquiring x)
  | .setNX x, .ok true => some (.holding x)
  | .release x, _ => some (.releasing x)
  | _, _ => st

abbrev protocol : Protocol interface (Option Stage) := .total Allows next

/-! ### The programs -/

/-- The local mutex is given up, and the acquisition fails. -/
def giveUp {α : Type} (e : Failure) : Prog α := (cmd .unlockLocal).bind fun _ => .fail e

/-- The loop of `AcquireLock`, for a number of attempts that may be any. -/
def acquireAttempts (x : Token) : ℕ → Prog Token
  | 0 => (cmd .never).bind fun no => no.elim
  | n + 1 => (cmd (.setNX x)).bind fun
      | .error e => giveUp e
      | .ok true => .ret x
      | .ok false => (cmd .backoff).bind fun
        | .error e => giveUp e
        | .ok _ => acquireAttempts x n

def acquireLock (attempts : ℕ) : Prog Token :=
  (cmd .lockLocal).bind fun _ =>
    (cmd .newToken).bind fun
      | .error e => giveUp e
      | .ok x => acquireAttempts x attempts

/-- What a caller does under the lock, in so many steps. -/
def underLock : ℕ → Prog Unit
  | 0 => .ret ()
  | n + 1 => (cmd .critical).bind fun _ => underLock n

def unlock (x : Token) : Prog Unit :=
  (cmd (.release x)).bind fun r => (cmd .unlockLocal).bind fun _ => match r with
    | .error e => .fail e
    | .ok _ => .ret ()

inductive Job
  /-- A caller acquires the lock, does something and releases it. -/
  | use (steps attempts : ℕ)
  | lapse

def body : Job → Prog Unit
  | .use steps attempts => (acquireLock attempts).bind fun x =>
      (underLock steps).bind fun _ => unlock x
  | .lapse => cmd .lapse

/-- **Any number of processes and goroutines.** -/
abbrev work : Workload interface Tid := ⟨Job, Failure, Unit, fun _ job => body job⟩

abbrev Cluster := Pool machine work

abbrev Event := Label machine work

/-! ### The invariant -/

/-- **What holds at every moment.** -/
structure Inv (s : State) : Prop where
  /-- A token is that of the caller who has drawn it. -/
  drawn : ∀ {t st}, s.stage t = some st → st.token < s.drawn ∧ s.drawnBy st.token = t
  /-- **Who has the lock has the key.** -/
  key : ∀ {t x}, s.stage t = some (.holding x) → s.key = some x

variable {s s' : State} {t u : Tid} {x : Token}

/-- No two callers have one token. -/
theorem Inv.stage_unique (h : Inv s) {st st' : Stage} (ht : s.stage t = some st)
    (hu : s.stage u = some st') (hx : st.token = st'.token) : t = u := by
  rw [← (h.drawn ht).2, ← (h.drawn hu).2, hx]

/-- **No two callers have the lock.** -/
theorem Inv.holding_unique (h : Inv s) {y : Token} (ht : s.stage t = some (.holding x))
    (hu : s.stage u = some (.holding y)) : t = u := by
  obtain rfl := Option.some.inj ((h.key ht).symm.trans (h.key hu))
  exact h.stage_unique ht hu rfl

/-! ### What a request can do -/

/-- **What an allowed request of `t` can do to the state**, but for the local mutex. -/
inductive Effect (t : Tid) (s : State) : State → Prop
  | refl : Effect t s s
  | lock (mu : Replica → Option Tid) : Effect t s { s with localMu := mu }
  | leave (mu : Replica → Option Tid) : Effect t s { s.setStage t none with localMu := mu }
  | draw : Effect t s ((s.draw t).setStage t (some (.acquiring s.drawn)))
  | set (x : Token) : s.stage t = some (.acquiring x) → Effect t s (s.set x)
  | hold (x : Token) : s.stage t = some (.acquiring x) → s.key = none →
      Effect t s ((s.set x).setStage t (some (.holding x)))
  | release (x : Token) : s.stage t = some (.holding x) →
      Effect t s (s.setStage t (some (.releasing x)))
  | delete (x : Token) : s.stage t = some (.holding x) →
      Effect t s ((s.delete x).setStage t (some (.releasing x)))
  | lapse (x : Token) : s.key = some x → s.heldBy x = false → Effect t s { s with key := none }

theorem setStage_self {st : Option Stage} : (s.setStage t st).stage t = st :=
  Function.update_self _ _ _

/-- **What a request does, and where its answer leads.** -/
theorem exec_step {c : Cmd} {ch : Choice} {a : c.Ans} (hall : Allows (s.stage t) c)
    (hex : exec t s c ch = some (a, s')) :
    Effect t s s' ∧ s'.stage t = next (s.stage t) c a := by
  cases c with
  | lockLocal =>
    simp only [exec] at hex
    split_ifs at hex
    cases hex
    exact ⟨.lock _, rfl⟩
  | unlockLocal =>
    cases hex
    exact ⟨.leave _, setStage_self⟩
  | newToken =>
    simp only [exec] at hex
    split_ifs at hex
    · cases hex
      exact ⟨.refl, rfl⟩
    · cases hex
      exact ⟨.draw, setStage_self⟩
  | setNX x =>
    simp only [exec] at hex
    split_ifs at hex with _ _ hnone
    · cases hex
      exact ⟨.set x hall, rfl⟩
    · cases hex
      exact ⟨.refl, rfl⟩
    · cases hex
      exact ⟨.hold x hall hnone, setStage_self⟩
    · cases hex
      exact ⟨.refl, rfl⟩
  | release x =>
    simp only [exec] at hex
    split_ifs at hex
    · cases hex
      exact ⟨.delete x hall, setStage_self⟩
    · cases hex
      exact ⟨.release x hall, setStage_self⟩
    · cases hex
      exact ⟨.delete x hall, setStage_self⟩
  | lapse =>
    simp only [exec] at hex
    split at hex
    · next x hx =>
      split_ifs at hex with hheld
      cases hex
      exact ⟨.lapse x hx (by simpa using hheld), rfl⟩
    · cases hex
  | backoff | critical =>
    cases hex
    exact ⟨.refl, rfl⟩
  | never => cases hex

theorem Effect.stage_eq (he : Effect u s s') (hne : t ≠ u) : s'.stage t = s.stage t := by
  cases he with
  | leave | draw | hold | release | delete => exact Function.update_of_ne hne _ _
  | refl | lock | set | lapse => rfl

/-- A caller goes on to a stage, with its own token. -/
theorem Inv.setStage (h : Inv s) {st : Stage} (hlt : st.token < s.drawn)
    (hby : s.drawnBy st.token = t) (hkey : ∀ x, st = .holding x → s.key = some x) :
    Inv (s.setStage t (some st)) where
  drawn {u su} hu := by
    change Function.update s.stage t (some st) u = some su at hu
    rcases eq_or_ne u t with rfl | hne
    · rw [Function.update_self] at hu
      obtain rfl := Option.some.inj hu
      exact ⟨hlt, hby⟩
    · rw [Function.update_of_ne hne] at hu
      exact h.drawn hu
  key {u x} hu := by
    change Function.update s.stage t (some st) u = some _ at hu
    rcases eq_or_ne u t with rfl | hne
    · rw [Function.update_self] at hu
      exact hkey x (Option.some.inj hu)
    · rw [Function.update_of_ne hne] at hu
      exact h.key hu

theorem Inv.draw (h : Inv s) (t : Tid) : Inv (s.draw t) where
  drawn hu := by
    obtain ⟨hlt, hby⟩ := h.drawn hu
    exact ⟨Nat.lt_succ_of_lt hlt, (Function.update_of_ne (Nat.ne_of_lt hlt) _ _).trans hby⟩
  key := h.key

/-- A key that is there is not set again. -/
theorem Inv.set (h : Inv s) (x : Token) : Inv (s.set x) where
  drawn := h.drawn
  key hu := by
    simp [State.set, h.key hu]

/-- A key is deleted with whose token nobody has the lock. -/
theorem Inv.delete (h : Inv s) (hnot : ∀ u, s.stage u ≠ some (.holding x)) : Inv (s.delete x) where
  drawn := h.drawn
  key {u y} hu := by
    have hne : y ≠ x := fun heq => hnot u (heq ▸ hu)
    simp [State.delete, h.key hu, hne]

/-- **Every allowed request keeps the invariant.** -/
theorem Effect.inv (he : Effect t s s') (h : Inv s) : Inv s' := by
  have hreleasing : ∀ {x}, s.stage t = some (.holding x) →
      Inv (s.setStage t (some (.releasing x))) := by
    intro x hst
    obtain ⟨hlt, hby⟩ := h.drawn hst
    exact h.setStage hlt hby nofun
  cases he with
  | refl => exact h
  | lock => exact ⟨h.drawn, h.key⟩
  | leave =>
    have hstage : ∀ {u st}, (s.setStage t none).stage u = some st → s.stage u = some st := by
      intro u st hu
      change Function.update s.stage t none u = _ at hu
      rcases eq_or_ne u t with rfl | hne
      · rw [Function.update_self] at hu
        cases hu
      · rwa [Function.update_of_ne hne] at hu
    exact ⟨fun hu => h.drawn (hstage hu), fun hu => h.key (hstage hu)⟩
  | draw => exact (h.draw t).setStage (Nat.lt_succ_self _) (Function.update_self _ _ _) nofun
  | set x => exact h.set x
  | hold x hst hnone =>
    obtain ⟨hlt, hby⟩ := h.drawn hst
    refine (h.set x).setStage hlt hby ?_
    rintro y ⟨⟩
    simp [State.set, hnone]
  | release x hst => exact hreleasing hst
  | delete x hst =>
    have hself : (s.setStage t (some (.releasing x))).stage t = some (.releasing x) :=
      Function.update_self _ _ _
    refine Inv.delete (hreleasing hst) fun u hu => ?_
    obtain rfl := (hreleasing hst).stage_unique hself hu rfl
    cases hself.symm.trans hu
  | lapse x hx hheld =>
    refine ⟨h.drawn, fun {u y} hu => ?_⟩
    obtain rfl := Option.some.inj (hx.symm.trans (h.key hu))
    have hby : s.drawnBy x = u := (h.drawn hu).2
    simp [State.heldBy, hby, show s.stage u = some (.holding x) from hu] at hheld

/-- **The invariant, and where the callers are.** -/
def Placed (s : State) (q : Tid → Option Stage) : Prop := Inv s ∧ s.stage = q

theorem Placed.exec {q : Tid → Option Stage} {c : Cmd} {ch : Choice} {a : c.Ans} (h : Placed s q)
    (hall : Allows (q t) c) (hex : exec t s c ch = some (a, s')) :
    Placed s' (Function.update q t (next (q t) c a)) := by
  obtain ⟨hinv, rfl⟩ := h
  obtain ⟨he, hself⟩ := exec_step hall hex
  refine ⟨he.inv hinv, funext fun u => ?_⟩
  rcases eq_or_ne u t with rfl | hne
  · rwa [Function.update_self]
  · rw [Function.update_of_ne hne]
    exact he.stage_eq hne

/-! ### The programs follow the protocol -/

/-- How an acquisition ends. -/
def Acquired : Except Failure Token → Option Stage → Prop
  | .ok x, st => st = some (.holding x)
  | .error _, st => st = none

theorem giveUp_follows {st : Option Stage} {e : Failure} :
    Follows protocol st (giveUp e) Acquired :=
  Follows.call trivial fun _ => rfl

theorem acquireAttempts_follows (n : ℕ) :
    Follows protocol (some (.acquiring x)) (acquireAttempts x n) Acquired := by
  induction n with
  | zero => exact Follows.call trivial fun no => no.elim
  | succ n ih =>
    refine Follows.call rfl fun a => ?_
    rcases a with e | _ | _
    · exact giveUp_follows
    · refine Follows.call trivial fun a => ?_
      cases a with
      | error e => exact giveUp_follows
      | ok _ => exact ih
    · rfl

/-- **A successful acquisition holds the lock.** -/
theorem acquireLock_follows {attempts : ℕ} :
    Follows protocol none (acquireLock attempts) Acquired := by
  refine Follows.call trivial fun _ => Follows.call trivial fun a => ?_
  cases a with
  | error e => exact giveUp_follows
  | ok x => exact acquireAttempts_follows attempts

theorem underLock_follows {n : ℕ} : Follows protocol (some (.holding x)) (underLock n)
    fun r st => r = .ok () ∧ st = some (.holding x) := by
  induction n with
  | zero => exact ⟨rfl, rfl⟩
  | succ n ih => exact Follows.call ⟨x, rfl⟩ fun _ => ih

theorem unlock_follows :
    Follows protocol (some (.holding x)) (unlock x) fun _ st => st = none := by
  refine Follows.call rfl fun r => Follows.call trivial fun _ => ?_
  cases r <;> rfl

/-- **Every job ends as it has begun.** -/
theorem body_follows (j : Job) : Follows protocol none (body j) fun _ st => st = none := by
  cases j with
  | use steps attempts =>
    refine Follows.bind (acquireLock_follows.mono fun r st hst => ?_)
    cases r with
    | error e => exact hst
    | ok x =>
      obtain rfl : st = some (.holding x) := hst
      refine Follows.bind (underLock_follows.mono ?_)
      rintro _ _ ⟨rfl, rfl⟩
      exact unlock_follows
  | lapse => exact Follows.call trivial fun _ => rfl

/-! ### What holds in every run -/

/-- A caller has the lock: it has acquired it and has not begun to release it. -/
def Holds (p : Cluster) (t : Tid) : Prop := ∃ x, p.shared.stage t = some (.holding x)

/-- The caller is about to have the key deleted if it has the token. -/
def Deletes (p : Cluster) (t : Tid) (x : Token) : Prop :=
  ∃ j k, p.thread t = .running j (.call (.release x) k)

/-- An acquisition relies on a key with the token. -/
def ReliesOn (p : Cluster) (t : Tid) (x : Token) : Prop :=
  ∃ st, p.shared.stage t = some st ∧ st.token = x

/-- **The locks of Redis exclude.** -/
structure Excludes (p : Cluster) : Prop where
  /-- Who does something under the lock has it. -/
  inside : ∀ {t j k}, p.thread t = .running j (.call .critical k) → Holds p t
  exclusive : ∀ {t u}, Holds p t → Holds p u → t = u
  /-- Nobody has a key deleted that another acquisition relies on. -/
  undisturbed : ∀ {t u x}, Deletes p t x → ReliesOn p u x → u = t

theorem excludes_of_run {ls : List Event} {p : Cluster}
    (h : (Pool.initial ({} : State) : Cluster).run ls = some p) : Excludes p := by
  have hinit : Placed {} fun _ => none := ⟨⟨nofun, nofun⟩, rfl⟩
  obtain ⟨q, ⟨hinv, rfl⟩, -, hallows⟩ := Pool.total_run (fun _ j => body_follows j)
    (fun hex hplaced hallows => hplaced.exec hallows hex) hinit h
  refine ⟨hallows, ?_, ?_⟩
  · rintro t u ⟨x, ht⟩ ⟨y, hu⟩
    exact hinv.holding_unique ht hu
  · rintro t u x ⟨j, k, ht⟩ ⟨st, hu, hx⟩
    exact hinv.stage_unique hu (hallows ht) hx

end RedisLock

/-! ### Both backends -/

open Conc

/-- **Distributed locks exclude**, on etcd and on Redis. -/
theorem distributed_locks_exclude :
    (∀ (client : EtcdLock.Client) (ls : List (EtcdLock.Event client))
      (p : EtcdLock.Cluster client),
      (Pool.initial ({} : EtcdLock.State) : EtcdLock.Cluster client).run ls = some p →
        EtcdLock.Excludes p) ∧
    ∀ (ls : List RedisLock.Event) (p : RedisLock.Cluster),
      (Pool.initial ({} : RedisLock.State) : RedisLock.Cluster).run ls = some p →
        RedisLock.Excludes p :=
  ⟨fun _ _ _ => EtcdLock.excludes_of_run, fun _ _ => RedisLock.excludes_of_run⟩

/-- Two processes on etcd. The second waits for the first, whose release fails once. -/
def etcdHandover : List (EtcdLock.Event EtcdLock.concurrencyMutex) :=
  [.start ⟨0, 0⟩ (.use 1 3)] ++ List.replicate 4 (.step ⟨0, 0⟩ {}) ++
    [.start ⟨1, 0⟩ (.use 1 3)] ++ List.replicate 3 (.step ⟨1, 0⟩ {}) ++
    [.step ⟨0, 0⟩ {}, .step ⟨0, 0⟩ { fails := true }] ++ List.replicate 3 (.step ⟨0, 0⟩ {}) ++
    List.replicate 3 (.step ⟨1, 0⟩ {})

/-- Two processes on Redis. The first fails to acquire the lock, but has set the key; the second
gets the lock when the key has lapsed. -/
def redisHandover : List RedisLock.Event :=
  [.start ⟨0, 0⟩ (.use 1 3)] ++ List.replicate 2 (.step ⟨0, 0⟩ {}) ++
    [.step ⟨0, 0⟩ { fails := true, late := true }, .step ⟨0, 0⟩ {}] ++
    [.start ⟨1, 0⟩ (.use 1 3)] ++ List.replicate 4 (.step ⟨1, 0⟩ {}) ++
    [.start ⟨2, 0⟩ .lapse, .step ⟨2, 0⟩ {}] ++ [.step ⟨1, 0⟩ {}]

/-- In both runs the second process has the lock in the end. -/
theorem distributed_locks_exclude_handover :
    (∃ p, (Pool.initial ({} : EtcdLock.State) : EtcdLock.Cluster EtcdLock.concurrencyMutex).run
        etcdHandover = some p ∧ EtcdLock.Holds p ⟨1, 0⟩ ∧ EtcdLock.Excludes p) ∧
    ∃ p, (Pool.initial ({} : RedisLock.State) : RedisLock.Cluster).run redisHandover = some p ∧
      RedisLock.Holds p ⟨1, 0⟩ ∧ RedisLock.Excludes p := by
  have hetcd : ((Pool.initial ({} : EtcdLock.State) :
      EtcdLock.Cluster EtcdLock.concurrencyMutex).run etcdHandover).map
        (fun p => p.shared.stage ⟨1, 0⟩) = some (some (.holding 1)) := by
    decide +kernel
  have hredis : ((Pool.initial ({} : RedisLock.State) : RedisLock.Cluster).run redisHandover).map
      (fun p => p.shared.stage ⟨1, 0⟩) = some (some (.holding 1)) := by
    decide +kernel
  obtain ⟨p, hp, hstage⟩ := Option.map_eq_some_iff.mp hetcd
  obtain ⟨q, hq, hstage'⟩ := Option.map_eq_some_iff.mp hredis
  exact ⟨⟨p, hp, ⟨1, hstage⟩, distributed_locks_exclude.1 _ _ p hp⟩,
    q, hq, ⟨1, hstage'⟩, distributed_locks_exclude.2 _ q hq⟩

end OpenvoxCa.Storage
