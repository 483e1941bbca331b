import Mathlib.Logic.Function.Basic

/-!
# Programs that talk to a shared environment

The programs verified in this development never run alone: each of them is a sequence of *commands*
to an environment it shares with other programs – take a lock, read a key, commit a transaction –
with ordinary computation in between. `Prog` is that shape and nothing else: a tree whose nodes are
commands and whose branches are the answers the environment may give.

A program can also fail, and failing is not the same thing as answering: a failure skips whatever
was to come next (`Prog.bind`) unless somebody looks at it (`Prog.attempt`). This is the control
flow of a language in which every call returns an error that the caller either passes on or
inspects.

Nothing here says what a command does. That is the business of a machine, in `Pool`.
-/

namespace OpenvoxCa.Conc

/-- What a program may ask of its environment: the commands, and the type of the
answers each of them takes. -/
structure Interface where
  Cmd : Type
  Ans : Cmd → Type

/-- **A program over an interface**: it returns a value, fails with an error, or
issues a command and goes on with the answer. -/
inductive Prog (I : Interface) (ε α : Type) : Type where
  /-- The program is over and returns `a`. -/
  | ret (a : α) : Prog I ε α
  /-- The program is over and has failed with `e`. -/
  | fail (e : ε) : Prog I ε α
  /-- The program issues `c` and goes on with the answer. -/
  | call (c : I.Cmd) (k : I.Ans c → Prog I ε α) : Prog I ε α

namespace Prog

variable {I : Interface} {ε ε' α β γ : Type}

/-- Sequencing. A failure of the first program is a failure of the whole. -/
def bind : Prog I ε α → (α → Prog I ε β) → Prog I ε β
  | ret a, f => f a
  | fail e, _ => fail e
  | call c k, f => call c fun a => (k a).bind f

instance : Monad (Prog I ε) where
  pure := ret
  bind := bind

def cmd (c : I.Cmd) : Prog I ε (I.Ans c) := call c ret

/-- Run a program and hand its outcome, failure or value, to whoever asks: the
result never fails itself. -/
def attempt : Prog I ε α → Prog I ε' (Except ε α)
  | ret a => ret (.ok a)
  | fail e => ret (.error e)
  | call c k => call c fun a => (k a).attempt

/-- An outcome, turned back into a program. -/
def ofExcept : Except ε α → Prog I ε α
  | .ok a => ret a
  | .error e => fail e

/-- A program whose value may be an error, as one that fails with it. -/
def orFail (p : Prog I ε (Except ε α)) : Prog I ε α := p.bind ofExcept

/-- Run `fin` after `p` whatever the outcome of `p`, and keep that outcome. -/
def ensure (p : Prog I ε α) (fin : Prog I ε Unit) : Prog I ε α :=
  (p.attempt : Prog I ε (Except ε α)).bind fun r => fin.bind fun _ => ofExcept r

/-- Run `p` between two others, the second of which is run whatever the outcome of `p`. -/
def between (p : Prog I ε α) (first last : Prog I ε Unit) : Prog I ε α :=
  first.bind fun _ => p.ensure last

@[simp] theorem pure_eq (a : α) : (pure a : Prog I ε α) = ret a := rfl

@[simp] theorem bind_eq (p : Prog I ε α) (f : α → Prog I ε β) : p >>= f = p.bind f := rfl

@[simp] theorem ret_bind (a : α) (f : α → Prog I ε β) : (ret a).bind f = f a := rfl

theorem bind_assoc (p : Prog I ε α) (f : α → Prog I ε β) (g : β → Prog I ε γ) :
    (p.bind f).bind g = p.bind fun a => (f a).bind g := by
  induction p with
  | ret | fail => rfl
  | call c k ih => exact congrArg (call c) (funext ih)

/-! ### What a program can issue and how it can end -/

/-- **Whatever the answers are**, every command the program issues satisfies `C` and
its outcome satisfies `R`. -/
def Always (C : I.Cmd → Prop) (R : Except ε α → Prop) : Prog I ε α → Prop
  | ret a => R (.ok a)
  | fail e => R (.error e)
  | call c k => C c ∧ ∀ a, (k a).Always C R

/-- Every command the program issues satisfies `C`. -/
abbrev Only (C : I.Cmd → Prop) : Prog I ε α → Prop := Always C fun _ => True

section Always

variable {C : I.Cmd → Prop} {R R' : Except ε α → Prop}

@[simp] theorem always_ret {a : α} : (ret a : Prog I ε α).Always C R ↔ R (.ok a) := Iff.rfl

@[simp] theorem always_fail {e : ε} : (fail e : Prog I ε α).Always C R ↔ R (.error e) := Iff.rfl

variable {p : Prog I ε α}

theorem always_mono (h : p.Always C R) (hR : ∀ r, R r → R' r) : p.Always C R' := by
  induction p with
  | ret | fail => exact hR _ h
  | call c k ih => exact ⟨h.1, fun a => ih a (h.2 a)⟩

theorem always_imp {C' : I.Cmd → Prop} (h : p.Always C R) (hC : ∀ c, C c → C' c) :
    p.Always C' R := by
  induction p with
  | ret | fail => exact h
  | call c k ih => exact ⟨hC c h.1, fun a => ih a (h.2 a)⟩

theorem always_bind {f : α → Prog I ε β} {S : Except ε β → Prop}
    (h : p.Always C fun r => match r with | .ok a => (f a).Always C S | .error e => S (.error e)) :
    (p.bind f).Always C S := by
  induction p with
  | ret | fail => exact h
  | call c k ih => exact ⟨h.1, fun a => ih a (h.2 a)⟩

theorem always_attempt {S : Except ε' (Except ε α) → Prop} (h : p.Always C fun r => S (.ok r)) :
    (p.attempt : Prog I ε' (Except ε α)).Always C S := by
  induction p with
  | ret | fail => exact h
  | call c k ih => exact ⟨h.1, fun a => ih a (h.2 a)⟩

theorem only_bind {f : α → Prog I ε β} (hp : p.Only C) (hf : ∀ a, (f a).Only C) :
    (p.bind f).Only C := by
  refine always_bind (always_mono hp fun r _ => ?_)
  cases r with
  | ok a => exact hf a
  | error e => trivial

theorem only_attempt (hp : p.Only C) : (p.attempt : Prog I ε' (Except ε α)).Only C :=
  always_attempt hp

theorem only_ofExcept (r : Except ε α) : (ofExcept r : Prog I ε α).Only C := by
  cases r <;> trivial

theorem only_ensure {fin : Prog I ε Unit} (hp : p.Only C) (hfin : fin.Only C) :
    (p.ensure fin).Only C :=
  only_bind (only_attempt hp) fun r => only_bind hfin fun _ => only_ofExcept r

end Always

/-! ### Properties that composition keeps -/

/-- **A property of programs that composition keeps**, and that the programs of commands from `C`
have: that they issue certain commands only, that they keep an assertion, that they follow a
protocol and end where they began. What a program is made of decides whether it has it. -/
structure Closed (C : I.Cmd → Prop) (K : ∀ {α : Type}, Prog I ε α → Prop) : Prop where
  bind : ∀ {α β : Type} {p : Prog I ε α} {f : α → Prog I ε β}, K p → (∀ a, K (f a)) → K (p.bind f)
  attempt : ∀ {α : Type} {p : Prog I ε α}, K p → K (p.attempt : Prog I ε (Except ε α))
  only : ∀ {α : Type} {p : Prog I ε α}, p.Only C → K p

namespace Closed

variable {C C' : I.Cmd → Prop} {K : ∀ {α : Type}, Prog I ε α → Prop}

theorem ret (h : Closed C K) (a : α) : K (ret a : Prog I ε α) := h.only trivial

theorem fail (h : Closed C K) (e : ε) : K (fail e : Prog I ε α) := h.only trivial

theorem mono (h : Closed C' K) (hC : ∀ c, C c → C' c) : Closed C K where
  bind := h.bind
  attempt := h.attempt
  only := fun hp => h.only (always_imp hp hC)

theorem ofExcept (h : Closed C K) (r : Except ε α) : K (ofExcept r : Prog I ε α) :=
  h.only (only_ofExcept r)

end Closed

theorem closed_only {C C' : I.Cmd → Prop} (hC : ∀ c, C c → C' c) :
    Closed C fun {α} (p : Prog I ε α) => p.Only C' where
  bind := only_bind
  attempt := only_attempt
  only := fun hp => always_imp hp hC

end Prog

end OpenvoxCa.Conc
