import OpenvoxCa.Conc.Discipline

/-!
# Machines that can do less

What is proved of all runs of a machine that refuses some commands holds of those runs of the full
machine in which no refused command is executed. `Pool.restrict` reads a pool of the full machine as
one of the restricted machine – the two have the same states and the same threads, and differ in
nothing but what may happen next – and `Pool.restrict_run` says that a run goes over into a run, as
long as each of its commands is executed the same way by both (`Pool.Permits`).
-/

namespace OpenvoxCa.Conc

variable {I : Interface} {M : Machine I} {W : Workload I M.Tid}
  (exec' : M.Tid → M.State → (c : I.Cmd) → M.Choice → Option (I.Ans c × M.State))

/-- A thread of the restricted machine. -/
def Thread.restrict : Thread M W → Thread (M.withExec exec') W
  | .idle => .idle
  | .running j rest => .running j rest

/-- An event of the restricted machine. -/
def Label.restrict : Label M W → Label (M.withExec exec') W
  | .start t j => .start t j
  | .step t ch => .step t ch
  | .finish t => .finish t

theorem start_mem_restrict {t : M.Tid} {j : W.Job} {ls : List (Label M W)}
    (h : .start t j ∈ ls.map (Label.restrict exec')) : .start t j ∈ ls := by
  obtain ⟨l, hl, heq⟩ := List.mem_map.mp h
  cases l with
  | start u i =>
    obtain ⟨rfl, rfl⟩ := Label.start.inj heq
    exact hl
  | step | finish => cases heq

/-- A report of the restricted machine. -/
def Report.restrict (r : Report M W) : Report (M.withExec exec') W := ⟨r.tid, r.job, r.outcome⟩

namespace Pool

/-- **A pool of the restricted machine.** -/
def restrict (p : Pool M W) : Pool (M.withExec exec') W :=
  ⟨p.shared, fun t => (p.thread t).restrict exec', p.reports.map (Report.restrict exec')⟩

/-- **The restricted machine permits the event**: it executes the command in the same way. -/
def Permits (p : Pool M W) (l : Label M W) : Prop :=
  ∀ t ch j c k, l = .step t ch → p.thread t = .running j (.call c k) →
    exec' t p.shared c ch = M.exec t p.shared c ch

variable {p : Pool M W}

theorem restrict_thread {t : M.Tid} {th : Thread M W} (h : p.thread t = th) :
    (p.restrict exec').thread t = th.restrict exec' :=
  congrArg (Thread.restrict exec') h

/-- A command about to be executed is the same. -/
theorem of_restrict {l : Label M W} {t : M.Tid} {ch : M.Choice} {j : W.Job}
    {rest : Prog I W.Err W.Res} (hl : l.restrict exec' = .step t ch)
    (ht : (p.restrict exec').thread t = .running j rest) :
    l = .step t ch ∧ p.thread t = .running j rest := by
  refine ⟨?_, ?_⟩
  · cases l with
    | step u ch' =>
      obtain ⟨rfl, rfl⟩ := Label.step.inj hl
      rfl
    | start | finish => cases hl
  · change (p.thread t).restrict exec' = _ at ht
    cases hth : p.thread t with
    | idle =>
      rw [hth] at ht
      cases ht
    | running i rest' =>
      rw [hth] at ht
      obtain ⟨rfl, rfl⟩ := Thread.running.inj ht
      rfl

variable [DecidableEq M.Tid]

theorem restrict_setThread (p : Pool M W) (t : M.Tid) (th : Thread M W) :
    (p.setThread t th).restrict exec' =
      Pool.setThread (M := M.withExec exec') (p.restrict exec') t (th.restrict exec') := by
  unfold restrict setThread
  congr 1
  funext u
  rcases eq_or_ne u t with rfl | hne
  · simp
  · simp [hne]

theorem restrict_next {q : Pool M W} {l : Label M W} (h : p.next l = some q)
    (hl : p.Permits exec' l) :
    Pool.next (M := M.withExec exec') (p.restrict exec') (l.restrict exec') =
      some (q.restrict exec') := by
  obtain ⟨t, j, rfl, hidle, rfl⟩ | ⟨t, ch, j, c, k, a, s, rfl, ht, hex, rfl⟩ |
    ⟨t, j, r, rfl, ht, rfl⟩ := next_cases h
  · simp only [Label.restrict, next, restrict_thread exec' hidle, Thread.restrict,
      restrict_setThread]
  · have hex' : exec' t (p.restrict exec').shared c ch = some (a, s) :=
      (hl t ch j c k rfl ht).trans hex
    simp only [Label.restrict, next, advance, restrict_thread exec' ht, Thread.restrict, hex']
    have hset := restrict_setThread exec' p t (.running j (k a))
    simp only [Thread.restrict] at hset
    rw [← hset]
    rfl
  · have hset := restrict_setThread exec' p t .idle
    simp only [Thread.restrict] at hset
    cases r with
    | ok | error =>
      simp only [Label.restrict, next, report, restrict_thread exec' ht, Thread.restrict,
        Prog.ofExcept]
      rw [← hset]
      rfl

/-- **A run that the restricted machine permits is a run of the restricted machine.** -/
theorem restrict_run {q : Pool M W} {ls : List (Label M W)} (h : p.run ls = some q)
    (hls : p.Throughout (Permits exec') ls) :
    Pool.run (M := M.withExec exec') (p.restrict exec') (ls.map (Label.restrict exec')) =
      some (q.restrict exec') := by
  induction ls generalizing p with
  | nil =>
    obtain rfl := Option.some.inj h
    rfl
  | cons l ls ih =>
    obtain ⟨r, hnext, hrun⟩ := run_cons.mp h
    exact (run_cons (M := M.withExec exec')).mpr
      ⟨_, restrict_next exec' hnext hls.1, ih hrun (hls.2 r hnext)⟩

/-- What is true throughout a run is true throughout the run of the restricted machine. -/
theorem restrict_throughout {C : Pool M W → Label M W → Prop}
    {K : Pool (M.withExec exec') W → Label (M.withExec exec') W → Prop}
    (hC : ∀ {p l}, C p l → K (p.restrict exec') (l.restrict exec')) {q : Pool M W}
    {ls : List (Label M W)} (h : p.run ls = some q) (hls : p.Throughout (Permits exec') ls)
    (hc : p.Throughout C ls) :
    Pool.Throughout (M := M.withExec exec') K (p.restrict exec')
      (ls.map (Label.restrict exec')) := by
  induction ls generalizing p with
  | nil => trivial
  | cons l ls ih =>
    obtain ⟨r, hnext, hrun⟩ := run_cons.mp h
    refine ⟨hC hc.1, fun r' hr' => ?_⟩
    obtain rfl : r.restrict exec' = r' :=
      Option.some.inj ((restrict_next exec' hnext hls.1).symm.trans hr')
    exact ih hrun (hls.2 r hnext) (hc.2 r hnext)

end Pool

end OpenvoxCa.Conc
