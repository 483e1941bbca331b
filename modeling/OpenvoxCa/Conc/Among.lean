import OpenvoxCa.Conc.Pool
import Mathlib.Data.List.Induction

/-!
# A program running among others

Between two commands of a program anything may happen to the state: somebody else moves.
`Among M t p tr r` says that thread `t` can run `p` to the outcome `r` when each of
its commands finds *some* state, and `tr` are the moments at which it did: the state found, the
command, and the answer. Nothing is assumed of how one state comes from the one before, so what
holds of every such run holds whatever the others do.

It is what a pool makes of a job. The moments of a job that a pool has reported are moments of the
pool's run, in that order (`Pool.among_of_report`).
-/

namespace OpenvoxCa.Conc

variable {I : Interface}

/-- **A moment of a run**: a command, the state in which it was executed, and the answer. -/
structure Moment (M : Machine I) where
  state : M.State
  cmd : I.Cmd
  ans : I.Ans cmd

/-- **Running among others**, with the moments at which commands were executed. -/
inductive Among (M : Machine I) (t : M.Tid) {ε α : Type} :
    Prog I ε α → List (Moment M) → Except ε α → Prop
  | ret {a} : Among M t (.ret a) [] (.ok a)
  | fail {e} : Among M t (.fail e) [] (.error e)
  | call {s s' c k ch a tr r} : M.exec t s c ch = some (a, s') → Among M t (k a) tr r →
      Among M t (.call c k) (⟨s, c, a⟩ :: tr) r

variable {M : Machine I} {t : M.Tid} {ε ε' α β : Type} {tr : List (Moment M)}

namespace Among

/-! ### Taking a run apart -/

theorem ret_inv {a : α} {r : Except ε α} (h : Among M t (.ret a) tr r) : tr = [] ∧ r = .ok a := by
  cases h
  exact ⟨rfl, rfl⟩

theorem fail_inv {e : ε} {r : Except ε α} (h : Among M t (.fail e) tr r) :
    tr = [] ∧ r = .error e := by
  cases h
  exact ⟨rfl, rfl⟩

theorem call_inv {c : I.Cmd} {k : I.Ans c → Prog I ε α} {r : Except ε α}
    (h : Among M t (.call c k) tr r) :
    ∃ s s' ch a tr', M.exec t s c ch = some (a, s') ∧ Among M t (k a) tr' r ∧
      tr = ⟨s, c, a⟩ :: tr' := by
  cases h with
  | call hex hrest => exact ⟨_, _, _, _, _, hex, hrest, rfl⟩

theorem bind_inv {p : Prog I ε α} {f : α → Prog I ε β} {r : Except ε β}
    (h : Among M t (p.bind f) tr r) :
    (∃ e, Among M t p tr (.error e) ∧ r = .error e) ∨
    ∃ a tr₁ tr₂, Among M t p tr₁ (.ok a) ∧ Among M t (f a) tr₂ r ∧ tr = tr₁ ++ tr₂ := by
  induction p generalizing tr with
  | ret a => exact Or.inr ⟨a, [], tr, .ret, h, rfl⟩
  | fail e =>
    obtain ⟨rfl, rfl⟩ := fail_inv h
    exact Or.inl ⟨e, .fail, rfl⟩
  | call c k ih =>
    obtain ⟨s, s', ch, a, tr', hex, hrest, rfl⟩ := call_inv h
    rcases ih a hrest with ⟨e, hfail, rfl⟩ | ⟨b, tr₁, tr₂, hok, hf, rfl⟩
    · exact Or.inl ⟨e, .call hex hfail, rfl⟩
    · exact Or.inr ⟨b, _, tr₂, .call hex hok, hf, rfl⟩

/-- A sequence that returns. -/
theorem bind_inv_ok {p : Prog I ε α} {f : α → Prog I ε β} {b : β}
    (h : Among M t (p.bind f) tr (.ok b)) :
    ∃ a tr₁ tr₂, Among M t p tr₁ (.ok a) ∧ Among M t (f a) tr₂ (.ok b) ∧ tr = tr₁ ++ tr₂ := by
  rcases h.bind_inv with ⟨e, -, he⟩ | h
  · cases he
  · exact h

/-- A command whose answer may be a failure, and that succeeds. -/
theorem orFail_inv_ok {p : Prog I ε (Except ε α)} {a : α} (h : Among M t p.orFail tr (.ok a)) :
    Among M t p tr (.ok (.ok a)) := by
  obtain ⟨r, tr₁, tr₂, hp, hret, rfl⟩ := h.bind_inv_ok
  cases r with
  | error e => cases (fail_inv hret).2
  | ok b =>
    obtain ⟨rfl, hb⟩ := ret_inv hret
    cases hb
    rw [List.append_nil]
    exact hp

end Among

/-! ### In a pool -/

namespace Pool

variable {W : Workload I M.Tid} [DecidableEq M.Tid]

/-- The states in which the events of a run happen. -/
def visited (p : Pool M W) : List (Label M W) → List M.State
  | [] => []
  | l :: ls => p.shared :: match p.next l with
    | some q => q.visited ls
    | none => []

variable {ls : List (Label M W)}

theorem visited_snoc {p q : Pool M W} {l : Label M W} (h : p.run ls = some q) :
    p.visited (ls ++ [l]) = p.visited ls ++ [q.shared] := by
  induction ls generalizing p with
  | nil =>
    obtain rfl := Option.some.inj h
    cases hnext : p.next l <;> simp [visited, hnext]
  | cons l' ls ih =>
    obtain ⟨p', hnext, hrun⟩ := run_cons.mp h
    simp [visited, hnext, ih hrun]

/-- The moments `tr` are moments of the run, in that order. -/
def Has (p : Pool M W) (ls : List (Label M W)) (tr : List (Moment M)) : Prop :=
  (tr.map Moment.state).Sublist (p.visited ls)

theorem Has.mono {p q : Pool M W} {l : Label M W} {tr : List (Moment M)} (hrun : p.run ls = some q)
    (h : p.Has ls tr) : p.Has (ls ++ [l]) tr := by
  rw [Has, visited_snoc hrun]
  exact h.trans (List.sublist_append_left _ _)

/-- What a running thread has done so far. -/
def Traced (p₀ : Pool M W) (ls : List (Label M W)) (t : M.Tid) (j : W.Job)
    (rest : Prog I W.Err W.Res) : Prop :=
  ∃ tr₀, p₀.Has ls tr₀ ∧ ∀ tr r, Among M t rest tr r → Among M t (W.body t j) (tr₀ ++ tr) r

/-- One event: who was traced still is, and so is who moves. -/
theorem Traced.next {p₀ p q : Pool M W} {l : Label M W} (hrun : p₀.run ls = some p)
    (hnext : p.next l = some q)
    (ih : ∀ t j rest, p.thread t = .running j rest → Traced p₀ ls t j rest) {t : M.Tid} {j : W.Job}
    {rest : Prog I W.Err W.Res} (ht : q.thread t = .running j rest) :
    Traced p₀ (ls ++ [l]) t j rest := by
  rcases next_running hnext ht with ⟨-, rfl, -⟩ | ⟨ch, c, k, a, -, hp, hex, rfl⟩ | ⟨-, hp, -⟩
  · exact ⟨[], List.nil_sublist _, fun tr r h => h⟩
  · obtain ⟨tr₀, hhas, htrace⟩ := ih t j _ hp
    refine ⟨tr₀ ++ [⟨p.shared, c, a⟩], ?_, fun tr r h => ?_⟩
    · rw [Has, visited_snoc hrun, List.map_append]
      exact hhas.append (List.Sublist.refl _)
    rw [List.append_assoc]
    exact htrace _ r (.call hex h)
  · obtain ⟨tr₀, hhas, htrace⟩ := ih t j rest hp
    exact ⟨tr₀, hhas.mono hrun, htrace⟩

/-- **Every job of a pool is traced**, and so is every report. -/
theorem traced_of_run {p₀ q : Pool M W} (hidle : ∀ t, p₀.thread t = .idle)
    (hreports : p₀.reports = []) (hrun : p₀.run ls = some q) :
    (∀ t j rest, q.thread t = .running j rest → Traced p₀ ls t j rest) ∧
      ∀ x ∈ q.reports, ∃ tr, Among M x.tid (W.body x.tid x.job) tr x.outcome ∧ p₀.Has ls tr := by
  induction ls using List.reverseRecOn generalizing q with
  | nil =>
    obtain rfl := Option.some.inj hrun
    refine ⟨fun t j rest ht => ?_, fun x hx => ?_⟩
    · cases (hidle t).symm.trans ht
    · rw [hreports] at hx
      cases hx
  | append_singleton ls l ih =>
    obtain ⟨p, hp, hlast⟩ := run_append.mp hrun
    obtain ⟨hthreads, hreported⟩ := ih hp
    obtain ⟨q', hnext, hq'⟩ := run_cons.mp hlast
    obtain rfl := Option.some.inj hq'
    refine ⟨fun t j rest ht => Traced.next hp hnext hthreads ht, fun x hx => ?_⟩
    have hold : x ∈ p.reports → ∃ tr, Among M x.tid (W.body x.tid x.job) tr x.outcome ∧
        p₀.Has (ls ++ [l]) tr := by
      intro hx
      obtain ⟨tr, hamong, hhas⟩ := hreported x hx
      exact ⟨tr, hamong, hhas.mono hp⟩
    obtain ⟨t, j, -, -, rfl⟩ | ⟨t, ch, j, c, k, a, s, -, -, -, rfl⟩ | ⟨t, j, r, -, ht, rfl⟩ :=
      next_cases hnext
    · exact hold hx
    · exact hold hx
    · rcases List.mem_cons.mp hx with rfl | hx
      · obtain ⟨tr₀, hhas, htrace⟩ := hthreads t j _ ht
        have hend : Among M t (Prog.ofExcept r : Prog I W.Err W.Res) [] r := by
          cases r with
          | ok a => exact .ret
          | error e => exact .fail
        refine ⟨tr₀, ?_, hhas.mono hp⟩
        have := htrace [] r hend
        rwa [List.append_nil] at this
      · exact hold hx

/-- **A job that a pool has reported has run among the others**, at moments of the pool's run. -/
theorem among_of_report {s : M.State} {q : Pool M W} {x : Report M W}
    (hrun : (initial s : Pool M W).run ls = some q) (hx : x ∈ q.reports) :
    ∃ tr, Among M x.tid (W.body x.tid x.job) tr x.outcome ∧ (initial s : Pool M W).Has ls tr :=
  (traced_of_run (fun _ => rfl) rfl hrun).2 x hx

end Pool

end OpenvoxCa.Conc
