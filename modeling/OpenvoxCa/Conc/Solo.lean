import OpenvoxCa.Conc.Discipline

/-!
# A program running alone

Where nobody else moves, a program is an ordinary sequential one, and what it does
is best read from its beginning to its end. `Solo M t s p es r s'` says
that thread `t`, running `p` alone from state `s`, ends with outcome `r` in state
`s'`, and that `es` is what passed between the program and its environment on the
way: the commands it issued, each with the answer it got.

Such a run is taken apart along the program that makes it (`Solo.bind_inv`, `Solo.attempt_inv`,
`Solo.ensure_inv`) and put together along it (`CanRun.bind`, `CanRun.ensure`), it satisfies every
specification proved for the program among other threads (`Solo.of_wp`), and it is what a stretch of
a pool's run amounts to in which only one thread takes steps (`Pool.solo_of_run`).
-/

namespace OpenvoxCa.Conc

variable {I : Interface}

/-- A command and the answer to it. -/
abbrev Exchange (I : Interface) := (c : I.Cmd) × I.Ans c

/-- **Running alone**: thread `t` runs a program from one state to another, with the
exchanges it makes on the way. -/
inductive Solo (M : Machine I) (t : M.Tid) {ε α : Type} :
    M.State → Prog I ε α → List (Exchange I) → Except ε α → M.State → Prop
  | ret {s a} : Solo M t s (.ret a) [] (.ok a) s
  | fail {s e} : Solo M t s (.fail e) [] (.error e) s
  | call {s s' s'' c k ch a es r} : M.exec t s c ch = some (a, s') → Solo M t s' (k a) es r s'' →
      Solo M t s (.call c k) (⟨c, a⟩ :: es) r s''

variable {M : Machine I} {t : M.Tid} {ε ε' α β : Type} {s s' : M.State} {es : List (Exchange I)}

variable {r : Except ε α} {p : Prog I ε α} {f : α → Prog I ε β}

namespace Solo

/-! ### Taking a run apart -/

theorem ret_inv {a : α} (h : Solo M t s (.ret a) es r s') : es = [] ∧ r = .ok a ∧ s' = s := by
  cases h
  exact ⟨rfl, rfl, rfl⟩

theorem fail_inv {e : ε} (h : Solo M t s (.fail e) es r s') : es = [] ∧ r = .error e ∧ s' = s := by
  cases h
  exact ⟨rfl, rfl, rfl⟩

theorem not_ok_of_fail {e : ε} {a : α} : ¬Solo M t s (.fail e : Prog I ε α) es (.ok a) s' := by
  intro h
  obtain ⟨-, he, -⟩ := fail_inv h
  cases he

/-- The first command, and the rest. -/
theorem call_inv {c : I.Cmd} {k : I.Ans c → Prog I ε α} (h : Solo M t s (.call c k) es r s') :
    ∃ ch a s₁ es₁, M.exec t s c ch = some (a, s₁) ∧ Solo M t s₁ (k a) es₁ r s' ∧
      es = ⟨c, a⟩ :: es₁ := by
  cases h with
  | call hex hrest => exact ⟨_, _, _, _, hex, hrest, rfl⟩

theorem ofExcept_inv {r' : Except ε α} (h : Solo M t s (Prog.ofExcept r) es r' s') :
    es = [] ∧ r' = r ∧ s' = s := by
  cases r with
  | ok a => exact ret_inv h
  | error e => exact fail_inv h

/-- **Sequencing**: the first program fails and that is it, or it returns and the second
goes on from where it left off. -/
theorem bind_inv {r : Except ε β} (h : Solo M t s (p.bind f) es r s') :
    (∃ e, Solo M t s p es (.error e) s' ∧ r = .error e) ∨
    ∃ a s₁ es₁ es₂, Solo M t s p es₁ (.ok a) s₁ ∧ Solo M t s₁ (f a) es₂ r s' ∧ es = es₁ ++ es₂ := by
  induction p generalizing s es with
  | ret a => exact Or.inr ⟨a, s, [], es, .ret, h, rfl⟩
  | fail e =>
    obtain ⟨rfl, rfl, rfl⟩ := fail_inv h
    exact Or.inl ⟨e, .fail, rfl⟩
  | call c k ih =>
    obtain ⟨ch, a, s₁, es₁, hex, hrest, rfl⟩ := call_inv h
    rcases ih a hrest with ⟨e, hfail, rfl⟩ | ⟨b, s₂, es₂, es₃, hok, hf, rfl⟩
    · exact Or.inl ⟨e, .call hex hfail, rfl⟩
    · exact Or.inr ⟨b, s₂, _, es₃, .call hex hok, hf, rfl⟩

/-- A sequence that returns. -/
theorem bind_inv_ok {b : β} (h : Solo M t s (p.bind f) es (.ok b) s') :
    ∃ a s₁ es₁ es₂, Solo M t s p es₁ (.ok a) s₁ ∧ Solo M t s₁ (f a) es₂ (.ok b) s' ∧
      es = es₁ ++ es₂ := by
  rcases h.bind_inv with ⟨e, -, he⟩ | h
  · cases he
  · exact h

theorem attempt_inv {r : Except ε' (Except ε α)}
    (h : Solo M t s (p.attempt : Prog I ε' (Except ε α)) es r s') :
    ∃ r', r = .ok r' ∧ Solo M t s p es r' s' := by
  induction p generalizing s es with
  | ret a =>
    obtain ⟨rfl, rfl, rfl⟩ := ret_inv h
    exact ⟨_, rfl, .ret⟩
  | fail e =>
    obtain ⟨rfl, rfl, rfl⟩ := ret_inv h
    exact ⟨_, rfl, .fail⟩
  | call c k ih =>
    obtain ⟨ch, a, s₁, es₁, hex, hrest, rfl⟩ := call_inv h
    obtain ⟨r', rfl, hp⟩ := ih a hrest
    exact ⟨r', rfl, .call hex hp⟩

/-- Sequencing after an attempt. -/
theorem attempt_bind_inv {f : Except ε α → Prog I ε' β} {r : Except ε' β}
    (h : Solo M t s ((p.attempt : Prog I ε' (Except ε α)).bind f) es r s') :
    ∃ r' s₁ es₁ es₂, Solo M t s p es₁ r' s₁ ∧ Solo M t s₁ (f r') es₂ r s' ∧ es = es₁ ++ es₂ := by
  rcases h.bind_inv with ⟨e, hp, -⟩ | ⟨a, s₁, es₁, es₂, hp, hf, rfl⟩
  · obtain ⟨r', hr', -⟩ := hp.attempt_inv
    cases hr'
  · obtain ⟨r', hr', hp⟩ := hp.attempt_inv
    cases hr'
    exact ⟨a, s₁, es₁, es₂, hp, hf, rfl⟩

/-- What is run after a program is run after it whatever the outcome. -/
theorem ensure_inv {fin : Prog I ε Unit} (h : Solo M t s (p.ensure fin) es r s') :
    ∃ r' s₁ es₁ es₂, Solo M t s p es₁ r' s₁ ∧
      Solo M t s₁ (fin.bind fun _ => Prog.ofExcept r') es₂ r s' ∧ es = es₁ ++ es₂ :=
  h.attempt_bind_inv

/-! ### What a run satisfies -/

/-- **What every specification promises, a run alone delivers.** -/
theorem of_wp {Job : Type} {D : Discipline M Job} {j : Job} {Φ : Except ε α → M.State → Prop}
    (h : Solo M t s p es r s') (hknown : ∀ c s, D.Known t j c s)
    (hinv : ∀ {c s ch a s'}, D.Inv s → D.Duty t j c s → M.exec t s c ch = some (a, s') → D.Inv s')
    (hs : D.Inv s) (hwp : wp D t j p Φ s) : Φ r s' ∧ D.Inv s' := by
  induction h with
  | ret | fail => exact ⟨hwp _ .refl hs, hs⟩
  | call hex _ ih =>
    obtain ⟨hduty, hrest⟩ := hwp _ .refl hs (hknown _ _)
    exact ih (hinv hs hduty hex) (hrest _ _ _ hex)

/-- A run makes the exchanges and ends as the program always does. -/
theorem always {C : I.Cmd → Prop} {R : Except ε α → Prop} (h : Solo M t s p es r s')
    (hp : p.Always C R) : R r ∧ ∀ x ∈ es, C x.1 := by
  induction h with
  | ret | fail => exact ⟨hp, by simp⟩
  | call _ _ ih =>
    obtain ⟨hr, hes⟩ := ih (hp.2 _)
    exact ⟨hr, List.forall_mem_cons.mpr ⟨hp.1, hes⟩⟩

/-- **What every command of a program keeps, a run of it keeps.** -/
theorem keeps {C : I.Cmd → Prop} {P : M.State → Prop}
    (hstep : ∀ {c s ch a s'}, C c → M.exec t s c ch = some (a, s') → P s → P s')
    (h : Solo M t s p es r s') (hp : p.Only C) (hs : P s) : P s' := by
  induction h with
  | ret | fail => exact hs
  | call hex _ ih => exact ih (hp.2 _) (hstep hp.1 hex hs)

/-- What every command keeps, every run keeps. -/
theorem invariant {P : M.State → Prop}
    (hstep : ∀ {c s ch a s'}, M.exec t s c ch = some (a, s') → P s → P s')
    (h : Solo M t s p es r s') (hs : P s) : P s' := by
  induction h with
  | ret | fail => exact hs
  | call hex _ ih => exact ih (hstep hex hs)

end Solo

/-! ### What a program does with good answers -/

/-- **Given** only answers that meet `ok`, the program ends with an outcome that meets `R`. -/
def Prog.Given (ok : (c : I.Cmd) → I.Ans c → Prop) (R : Except ε α → Prop) : Prog I ε α → Prop
  | .ret a => R (.ok a)
  | .fail e => R (.error e)
  | .call c k => ∀ a, ok c a → (k a).Given ok R

theorem Solo.given {ok : (c : I.Cmd) → I.Ans c → Prop} {R : Except ε α → Prop}
    (h : Solo M t s p es r s') (hes : ∀ x ∈ es, ok x.1 x.2) (hp : p.Given ok R) : R r := by
  induction h with
  | ret | fail => exact hp
  | call _ _ ih =>
    obtain ⟨ha, hes⟩ := List.forall_mem_cons.mp hes
    exact ih hes (hp _ ha)

/-! ### Putting a run together -/

/-- **A program can run** alone from `s` to `s'`, with some exchanges. -/
def CanRun (M : Machine I) (t : M.Tid) (s : M.State) (p : Prog I ε α) (r : Except ε α)
    (s' : M.State) : Prop :=
  ∃ es, Solo M t s p es r s'

namespace CanRun

variable {s₁ : M.State} {p : Prog I ε α} {r : Except ε α}

theorem ret {a : α} : CanRun M t s (.ret a : Prog I ε α) (.ok a) s := ⟨[], .ret⟩

theorem fail {e : ε} : CanRun M t s (.fail e : Prog I ε α) (.error e) s := ⟨[], .fail⟩

theorem ofExcept (r : Except ε α) : CanRun M t s (Prog.ofExcept r) r s := by
  cases r with
  | ok a => exact ret
  | error e => exact fail

theorem cmd {c : I.Cmd} {a : I.Ans c} (ch : M.Choice) (h : M.exec t s c ch = some (a, s')) :
    CanRun M t s (Prog.cmd c : Prog I ε (I.Ans c)) (.ok a) s' :=
  ⟨_, .call h .ret⟩

theorem bind {a : α} {r : Except ε β} (h : CanRun M t s p (.ok a) s₁)
    (hf : CanRun M t s₁ (f a) r s') : CanRun M t s (p.bind f) r s' := by
  obtain ⟨es, h⟩ := h
  generalize hr : Except.ok a = r' at h
  induction h with
  | ret =>
    cases hr
    exact hf
  | fail => cases hr
  | call hex _ ih =>
    obtain ⟨es, hrest⟩ := ih hf hr
    exact ⟨_, .call hex hrest⟩

theorem bind_error {e : ε} (h : CanRun M t s p (.error e) s') :
    CanRun M t s (p.bind f) (.error e) s' := by
  obtain ⟨es, h⟩ := h
  generalize hr : Except.error e = r' at h
  induction h with
  | ret => cases hr
  | fail =>
    cases hr
    exact fail
  | call hex _ ih =>
    obtain ⟨es, hrest⟩ := ih hr
    exact ⟨_, .call hex hrest⟩

theorem attempt (h : CanRun M t s p r s') :
    CanRun M t s (p.attempt : Prog I ε' (Except ε α)) (.ok r) s' := by
  obtain ⟨es, h⟩ := h
  refine ⟨es, ?_⟩
  induction h with
  | ret | fail => exact .ret
  | call hex _ ih => exact .call hex ih

theorem ensure {fin : Prog I ε Unit} (h : CanRun M t s p r s₁)
    (hfin : CanRun M t s₁ fin (.ok ()) s') : CanRun M t s (p.ensure fin) r s' :=
  h.attempt.bind (hfin.bind (ofExcept r))

end CanRun

/-! ### Reading -/

/-- **A program reads** `x` in state `s`: running alone it leaves the state alone, it returns `x`
unless it fails, and it can return `x`. -/
structure Reads (M : Machine I) (t : M.Tid) (s : M.State) (p : Prog I ε α) (x : α) : Prop where
  only : ∀ {es r s'}, Solo M t s p es r s' → s' = s ∧ (r = .ok x ∨ ∃ e, r = .error e)
  can : CanRun M t s p (.ok x) s

namespace Reads

variable {p : Prog I ε α} {x : α}

theorem ret : Reads M t s (.ret x : Prog I ε α) x where
  only h := by
    obtain ⟨-, rfl, rfl⟩ := h.ret_inv
    exact ⟨rfl, Or.inl rfl⟩
  can := .ret

theorem bind {y : β} (hp : Reads M t s p x) (hf : Reads M t s (f x) y) :
    Reads M t s (p.bind f) y where
  only h := by
    rcases h.bind_inv with ⟨e, h₁, rfl⟩ | ⟨a, s₁, es₁, es₂, h₁, h₂, -⟩
    · exact ⟨(hp.only h₁).1, Or.inr ⟨e, rfl⟩⟩
    · obtain ⟨rfl, hr | ⟨e, he⟩⟩ := hp.only h₁
      · cases hr
        exact hf.only h₂
      · cases he
  can := hp.can.bind hf.can

end Reads

/-! ### Running a program -/

/-- Run a program alone, given the choices of the environment; nothing where they run out or a
command cannot be executed. -/
def Prog.runAlone (M : Machine I) (t : M.Tid) :
    Prog I ε α → List M.Choice → M.State → Option (List (Exchange I) × Except ε α × M.State)
  | .ret a, _, s => some ([], .ok a, s)
  | .fail e, _, s => some ([], .error e, s)
  | .call _ _, [], _ => none
  | .call c k, ch :: chs, s => (M.exec t s c ch).bind fun x =>
      ((k x.1).runAlone M t chs x.2).map fun y => (⟨c, x.1⟩ :: y.1, y.2)

theorem Solo.of_runAlone {chs : List M.Choice} (h : p.runAlone M t chs s = some (es, r, s')) :
    Solo M t s p es r s' := by
  induction p generalizing chs s es with
  | ret a =>
    cases h
    exact .ret
  | fail e =>
    cases h
    exact .fail
  | call c k ih =>
    cases chs with
    | nil => cases h
    | cons ch chs =>
      obtain ⟨⟨a, s₁⟩, hex, h⟩ := Option.bind_eq_some_iff.mp h
      obtain ⟨⟨es₁, r', s₂⟩, hrest, heq⟩ := Option.map_eq_some_iff.mp h
      cases heq
      exact .call hex (ih a hrest)

/-! ### Alone in a pool -/

namespace Pool

variable {W : Workload I M.Tid} [DecidableEq M.Tid]

/-- Only thread `t` takes steps. -/
def Alone (t : M.Tid) (ls : List (Label M W)) : Prop := ∀ l ∈ ls, ∃ ch, l = .step t ch

/-- **Where only one thread takes steps, its job runs alone.** -/
theorem solo_of_run {p q : Pool M W} {j j' : W.Job} {rest : Prog I W.Err W.Res}
    {r : Except W.Err W.Res} {ls : List (Label M W)} (hls : Alone t ls) (hrun : p.run ls = some q)
    (hp : p.thread t = .running j rest) (hq : q.thread t = .running j' (Prog.ofExcept r)) :
    j' = j ∧ ∃ es, Solo M t p.shared rest es r q.shared := by
  induction ls generalizing p rest with
  | nil =>
    obtain rfl := Option.some.inj hrun
    obtain ⟨rfl, rfl⟩ := Thread.running.inj (hp.symm.trans hq)
    cases r with
    | ok a => exact ⟨rfl, [], .ret⟩
    | error e => exact ⟨rfl, [], .fail⟩
  | cons l ls ih =>
    obtain ⟨ch, rfl⟩ := hls l List.mem_cons_self
    obtain ⟨p', hnext, hrun⟩ := run_cons.mp hrun
    obtain ⟨_, _, hl, -⟩ | ⟨u, ch', i, c, k, a, s, hl, hth, hex, rfl⟩ | ⟨_, _, _, hl, -⟩ :=
      next_cases hnext
    · cases hl
    · cases hl
      obtain ⟨rfl, rfl⟩ := Thread.running.inj (hp.symm.trans hth)
      obtain ⟨rfl, es, hsolo⟩ := ih (fun l hl => hls l (List.mem_cons_of_mem _ hl)) hrun
        (Function.update_self _ _ _)
      exact ⟨rfl, _, .call hex hsolo⟩
    · cases hl

end Pool

end OpenvoxCa.Conc
