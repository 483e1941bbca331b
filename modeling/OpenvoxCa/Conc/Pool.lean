import OpenvoxCa.Conc.Program
import Mathlib.Data.Nat.Notation
import Mathlib.Logic.Relation

/-!
# Threads over a shared machine

A `Machine` answers the commands of an interface: it has a shared state, and an execution function
that a command of one thread runs through. Everything the environment is free to decide – whether a
write fails, what the clock says, which of several outcomes a race has – is a *choice* handed to
that function, so the machine is a program that can be run, and its nondeterminism is a quantifier
over choices and nothing more. A command that cannot proceed has no successor at all: that is what
waiting for a lock is.

A `Pool` is a machine state together with one thread per identifier, each idle or in the middle of a
job. A label says which thread does what next (`Label`), and a run is a list of labels. Quantifying
over all lists of labels is quantifying over all interleavings, over all numbers of jobs and – the
set of identifiers being arbitrary – over all numbers of threads.
-/

namespace OpenvoxCa.Conc

/-- **A machine for an interface**: a shared state, the identifiers of the threads
using it, and what each command does to the state. `exec t s c ch` is the answer
to `c` and the state after it when thread `t` issues `c` in state `s` and the
environment chooses `ch`; it is `none` when the command cannot proceed there. -/
structure Machine (I : Interface) where
  State : Type
  Tid : Type
  /-- What the environment is free to decide about one command. -/
  Choice : Type
  exec : Tid → State → (c : I.Cmd) → Choice → Option (I.Ans c × State)

/-- **The jobs the threads of a machine may run**: each thread runs one after
another, in any order, as many as it likes. -/
structure Workload (I : Interface) (Tid : Type) where
  Job : Type
  /-- What a job fails with. -/
  Err : Type
  Res : Type
  /-- The program of a job, run on behalf of a thread. -/
  body : Tid → Job → Prog I Err Res

variable {I : Interface} (M : Machine I) (W : Workload I M.Tid)

inductive Thread where
  /-- Nothing: it may start any job. -/
  | idle : Thread
  /-- It is running `job`, of which `rest` is left. -/
  | running (job : W.Job) (rest : Prog I W.Err W.Res) : Thread

/-- One event of a run: a thread starts a job, issues the next command of its job
under a choice of the environment, or reports the outcome of its job. -/
inductive Label where
  /-- Thread `t` starts job `j`. -/
  | start (t : M.Tid) (j : W.Job) : Label
  /-- Thread `t` issues its next command, and the environment chooses `ch`. -/
  | step (t : M.Tid) (ch : M.Choice) : Label
  /-- Thread `t` reports the outcome of its job and becomes idle. -/
  | finish (t : M.Tid) : Label

/-- A report: who ran what, with which outcome. -/
structure Report where
  tid : M.Tid
  job : W.Job
  outcome : Except W.Err W.Res

/-- **A pool of threads over a shared state**, with the reports made so far, the
latest first. -/
structure Pool where
  shared : M.State
  thread : M.Tid → Thread M W
  reports : List (Report M W)

variable {M W}

/-- The thread whose event it is. -/
def Label.tid : Label M W → M.Tid
  | .start t _ => t
  | .step t _ => t
  | .finish t => t

namespace Pool

/-- All threads idle, nothing reported yet. -/
def initial (s : M.State) : Pool M W := ⟨s, fun _ => .idle, []⟩

variable [DecidableEq M.Tid]

/-- Replace the thread at `t`. -/
def setThread (p : Pool M W) (t : M.Tid) (th : Thread M W) : Pool M W :=
  { p with thread := Function.update p.thread t th }

/-- The reports a thread has made so far, the latest first. -/
def reportsOf (p : Pool M W) (t : M.Tid) : List (Report M W) :=
  p.reports.filter fun r => r.tid = t

/-- What a thread does when it is scheduled with choice `ch`: the command it is
at, executed. -/
def advance (p : Pool M W) (t : M.Tid) (ch : M.Choice) : Option (Pool M W) :=
  match p.thread t with
  | .running j (.call c k) =>
    match M.exec t p.shared c ch with
    | some (a, s) => some { (p.setThread t (.running j (k a))) with shared := s }
    | none => none
  | _ => none

/-- What a thread does when its job is over: it reports the outcome. -/
def report (p : Pool M W) (t : M.Tid) : Option (Pool M W) :=
  match p.thread t with
  | .running j (.ret a) =>
    some { (p.setThread t .idle) with reports := ⟨t, j, .ok a⟩ :: p.reports }
  | .running j (.fail e) =>
    some { (p.setThread t .idle) with reports := ⟨t, j, .error e⟩ :: p.reports }
  | _ => none

/-- One event, when it can happen. -/
def next (p : Pool M W) : Label M W → Option (Pool M W)
  | .start t j =>
    match p.thread t with
    | .idle => some (p.setThread t (.running j (W.body t j)))
    | .running _ _ => none
  | .step t ch => p.advance t ch
  | .finish t => p.report t

/-- **A run**: the events of the list, one after the other. -/
def run (p : Pool M W) : List (Label M W) → Option (Pool M W)
  | [] => some p
  | l :: ls => (p.next l).bind fun q => q.run ls

@[simp] theorem run_nil (p : Pool M W) : p.run [] = some p := rfl

variable {p q : Pool M W} {ls : List (Label M W)}

theorem run_cons {l : Label M W} :
    p.run (l :: ls) = some q ↔ ∃ r, p.next l = some r ∧ r.run ls = some q := by
  simp only [run, Option.bind_eq_some_iff]

/-- A run splits wherever its list of events does. -/
theorem run_append {ls' : List (Label M W)} :
    p.run (ls ++ ls') = some q ↔ ∃ r, p.run ls = some r ∧ r.run ls' = some q := by
  induction ls generalizing p with
  | nil => simp
  | cons l ls ih =>
    rw [List.cons_append, run_cons]
    constructor
    · rintro ⟨r, hr, hrun⟩
      obtain ⟨m, hm, hq⟩ := ih.mp hrun
      exact ⟨m, run_cons.mpr ⟨r, hr, hm⟩, hq⟩
    · rintro ⟨m, hm, hq⟩
      obtain ⟨r, hr, hrun⟩ := run_cons.mp hm
      exact ⟨r, hr, ih.mpr ⟨m, hrun, hq⟩⟩

/-- **What one event can do to a pool.** Either a thread starts a job, or it
executes a command, or it reports; nothing else moves. -/
theorem next_cases {l : Label M W} (h : p.next l = some q) :
    (∃ t j, l = .start t j ∧ p.thread t = .idle ∧
      q = p.setThread t (.running j (W.body t j))) ∨
    (∃ t ch j c k a s, l = .step t ch ∧ p.thread t = .running j (.call c k) ∧
      M.exec t p.shared c ch = some (a, s) ∧
      q = { (p.setThread t (.running j (k a))) with shared := s }) ∨
    (∃ t j r, l = .finish t ∧ p.thread t = .running j (Prog.ofExcept r) ∧
      q = { (p.setThread t .idle) with reports := ⟨t, j, r⟩ :: p.reports }) := by
  cases l with
  | start t j =>
    simp only [next] at h
    split at h
    · rename_i hidle
      exact Or.inl ⟨t, j, rfl, hidle, (Option.some.inj h).symm⟩
    · cases h
  | step t ch =>
    simp only [next, advance] at h
    split at h
    · rename_i j c k hrun
      split at h
      · rename_i a s hex
        exact Or.inr (Or.inl ⟨t, ch, j, c, k, a, s, rfl, hrun, hex, (Option.some.inj h).symm⟩)
      · cases h
    · cases h
  | finish t =>
    simp only [next, report] at h
    split at h
    · rename_i j a hrun
      exact Or.inr (Or.inr ⟨t, j, .ok a, rfl, hrun, (Option.some.inj h).symm⟩)
    · rename_i j e hrun
      exact Or.inr (Or.inr ⟨t, j, .error e, rfl, hrun, (Option.some.inj h).symm⟩)
    · cases h

/-- **One event, seen from a thread that is running a job after it**: the thread has just
started the job, it has executed a command of it, or the event was somebody else's. -/
theorem next_running {l : Label M W} (h : p.next l = some q) {t : M.Tid} {j : W.Job}
    {rest : Prog I W.Err W.Res} (ht : q.thread t = .running j rest) :
    (l = .start t j ∧ rest = W.body t j ∧ q.shared = p.shared) ∨
    (∃ ch c k a, l = .step t ch ∧ p.thread t = .running j (.call c k) ∧
      M.exec t p.shared c ch = some (a, q.shared) ∧ rest = k a) ∨
    (l.tid ≠ t ∧ p.thread t = .running j rest ∧ (q.shared = p.shared ∨
      ∃ ch i c k a, l = .step l.tid ch ∧ p.thread l.tid = .running i (.call c k) ∧
        M.exec l.tid p.shared c ch = some (a, q.shared))) := by
  obtain ⟨u, i, rfl, -, rfl⟩ | ⟨u, ch, i, c, k, a, s, rfl, hu, hex, rfl⟩ |
    ⟨u, i, r, rfl, -, rfl⟩ := next_cases h
  · change Function.update p.thread u _ t = _ at ht
    by_cases htu : u = t
    · subst htu
      rw [Function.update_self] at ht
      cases ht
      exact Or.inl ⟨rfl, rfl, rfl⟩
    · rw [Function.update_of_ne (Ne.symm htu)] at ht
      exact Or.inr (Or.inr ⟨htu, ht, Or.inl rfl⟩)
  · change Function.update p.thread u _ t = _ at ht
    by_cases htu : u = t
    · subst htu
      rw [Function.update_self] at ht
      cases ht
      exact Or.inr (Or.inl ⟨ch, c, k, a, rfl, hu, hex, rfl⟩)
    · rw [Function.update_of_ne (Ne.symm htu)] at ht
      exact Or.inr (Or.inr ⟨htu, ht, Or.inr ⟨ch, i, c, k, a, rfl, hu, hex⟩⟩)
  · change Function.update p.thread u _ t = _ at ht
    by_cases htu : u = t
    · subst htu
      rw [Function.update_self] at ht
      cases ht
    · rw [Function.update_of_ne (Ne.symm htu)] at ht
      exact Or.inr (Or.inr ⟨htu, ht, Or.inl rfl⟩)

/-- A thread that no event is about stays as it is. -/
theorem thread_of_run {t : M.Tid} (h : p.run ls = some q) (hls : ∀ l ∈ ls, l.tid ≠ t) :
    q.thread t = p.thread t := by
  induction ls generalizing p with
  | nil =>
    obtain rfl := Option.some.inj h
    rfl
  | cons l ls ih =>
    obtain ⟨r, hnext, hrun⟩ := run_cons.mp h
    have hl := hls l List.mem_cons_self
    rw [ih hrun fun l hl => hls l (List.mem_cons_of_mem _ hl)]
    obtain ⟨u, j, rfl, -, rfl⟩ | ⟨u, ch, j, c, k, a, s, rfl, -, -, rfl⟩ |
      ⟨u, j, o, rfl, -, rfl⟩ := next_cases hnext
    · exact Function.update_of_ne (Ne.symm hl) _ _
    · exact Function.update_of_ne (Ne.symm hl) _ _
    · exact Function.update_of_ne (Ne.symm hl) _ _

/-- What is true at first and not in the end ceases to be so at some event. -/
theorem exists_change {P : Pool M W → Prop} (h : p.run ls = some q) (hp : P p) (hq : ¬P q) :
    ∃ ls₁ l ls₂ x y, ls = ls₁ ++ l :: ls₂ ∧ p.run ls₁ = some x ∧ x.next l = some y ∧ P x ∧
    ¬P y := by
  induction ls generalizing p with
  | nil =>
    obtain rfl := Option.some.inj h
    exact absurd hp hq
  | cons l ls ih =>
    obtain ⟨r, hnext, hrun⟩ := run_cons.mp h
    by_cases hr : P r
    · obtain ⟨ls₁, l', ls₂, x, y, rfl, hx, hy⟩ := ih hrun hr
      exact ⟨l :: ls₁, l', ls₂, x, y, rfl, run_cons.mpr ⟨r, hnext, hx⟩, hy⟩
    · exact ⟨[], l, ls, p, r, rfl, rfl, hnext, hp, hr⟩

/-- **What every command keeps, every run keeps.** -/
theorem shared_of_run (Inv : M.State → Prop)
    (hexec : ∀ t s c ch a s', M.exec t s c ch = some (a, s') → Inv s → Inv s')
    (h : p.run ls = some q) (hp : Inv p.shared) : Inv q.shared := by
  induction ls generalizing p with
  | nil =>
    obtain rfl := Option.some.inj h
    exact hp
  | cons l ls ih =>
    obtain ⟨r, hnext, hrun⟩ := run_cons.mp h
    refine ih hrun ?_
    obtain ⟨t, j, rfl, -, rfl⟩ | ⟨t, ch, j, c, k, a, s, rfl, -, hex, rfl⟩ |
      ⟨t, j, o, rfl, -, rfl⟩ := next_cases hnext
    · exact hp
    · exact hexec t _ c ch a s hex hp
    · exact hp

/-! ### Runs under a condition, with a history -/

/-- Each event of a run meets a condition where it happens. -/
def Throughout (C : Pool M W → Label M W → Prop) (p : Pool M W) : List (Label M W) → Prop
  | [] => True
  | l :: ls => C p l ∧ ∀ q, p.next l = some q → q.Throughout C ls

/-- A condition that can be evaluated, evaluated at each event of a run. -/
def checkThroughout (check : Pool M W → Label M W → Bool) (p : Pool M W) :
    List (Label M W) → Bool
  | [] => true
  | l :: ls => check p l && match p.next l with
    | some q => q.checkThroughout check ls
    | none => true

variable {C : Pool M W → Label M W → Prop}

theorem throughout_of_check {check : Pool M W → Label M W → Bool}
    (h : ∀ {p l}, check p l = true → C p l) (hls : p.checkThroughout check ls = true) :
    p.Throughout C ls := by
  induction ls generalizing p with
  | nil => trivial
  | cons l ls ih =>
    simp only [checkThroughout, Bool.and_eq_true] at hls
    refine ⟨h hls.1, fun q hq => ih ?_⟩
    simpa [hq] using hls.2

theorem throughout_of_forall (h : ∀ p l, C p l) : p.Throughout C ls := by
  induction ls generalizing p with
  | nil => trivial
  | cons l ls ih => exact ⟨h p l, fun q _ => ih⟩

theorem Throughout.mono {C' : Pool M W → Label M W → Prop} (h : ∀ {p l}, C p l → C' p l)
    (hls : p.Throughout C ls) : p.Throughout C' ls := by
  induction ls generalizing p with
  | nil => trivial
  | cons l ls ih => exact ⟨h hls.1, fun q hq => ih (hls.2 q hq)⟩

theorem throughout_append {ls' : List (Label M W)} (hrun : p.run ls = some q)
    (h : p.Throughout C (ls ++ ls')) : p.Throughout C ls ∧ q.Throughout C ls' := by
  induction ls generalizing p with
  | nil =>
    obtain rfl := Option.some.inj hrun
    exact ⟨trivial, h⟩
  | cons l ls ih =>
    obtain ⟨r, hnext, hrun⟩ := run_cons.mp hrun
    obtain ⟨hl, hrest⟩ := ih hrun (h.2 r hnext)
    refine ⟨⟨h.1, fun r' hr' => ?_⟩, hrest⟩
    rwa [← Option.some.inj (hnext.symm.trans hr')]

/-- What somebody who watches a run writes down: `note p l h` is what the notes `h` become
when the event `l` happens in `p`. -/
def noting {H : Type} (note : Pool M W → Label M W → H → H) (p : Pool M W) :
    List (Label M W) → H → H
  | [], h => h
  | l :: ls, h =>
    match p.next l with
    | some q => q.noting note ls (note p l h)
    | none => h

/-- **What every event that meets the condition preserves, a run of such events preserves.** -/
theorem noting_of_run {H : Type} {note : Pool M W → Label M W → H → H} {Inv : Pool M W → H → Prop}
    (hstep : ∀ {p q l h}, Inv p h → C p l → p.next l = some q → Inv q (note p l h)) {h : H}
    (hp : Inv p h) (hls : p.Throughout C ls) (hrun : p.run ls = some q) :
    Inv q (p.noting note ls h) := by
  induction ls generalizing p h with
  | nil =>
    obtain rfl := Option.some.inj hrun
    exact hp
  | cons l ls ih =>
    obtain ⟨r, hnext, hrun⟩ := run_cons.mp hrun
    simp only [noting, hnext]
    exact ih (hstep hp hls.1 hnext) (hls.2 r hnext) hrun

end Pool

/-! ### Threads of replicas -/

/-- A replica of a server. -/
abbrev Replica := ℕ

structure Tid where
  replica : Replica
  thread : ℕ
  deriving DecidableEq, Repr

end OpenvoxCa.Conc
