import OpenvoxCa.Conc.Pool

/-!
# Reasoning about one thread at a time

What makes the threads of a pool tractable is that each of them may only do so much to the state it
shares. A `Discipline` says so command by command: `Allowed t j c s` is the condition under which
thread `t`, in the middle of job `j`, may issue command `c` in state `s`, and `Inv` is an invariant
every allowed command keeps. Everything a proof ever needs to know about the *other* threads is that
they keep to the discipline.

`wp` is the weakest precondition of a program for one thread under such a discipline: between any
two of its own commands the others may take any number of allowed steps (`RelyStar`), and each
command the program issues must itself be as the discipline demands. The program never mentions the
others; the rules of this file – `wp_bind`, `Triple.call`, `wp_attempt` – are those of sequential
programs, with the one addition that an assertion carried across a command has to be *stable*.
Stability is where locks come in: an assertion about what a lock protects is stable for the thread
holding it, because nobody else is allowed to change it.

What is asked of a thread (`Duty`) need not be what is assumed of the others (`Allowed`). A
specification is worth most where it assumes little and shows much: it can then be used under every
discipline that assumes more and asks for less (`wp_transfer`), and two specifications of one
program can be put together, the second taking the duties shown by the first as known (`wp_and`).

The last section puts the threads back together. If every job of a menu satisfies its specification
(`Outline`), then in **every** run, with any number of threads and in any interleaving, every
command executed was allowed, the invariant holds throughout, and every job about to report
satisfies its postcondition (`Outline.Sound.run`).
-/

namespace OpenvoxCa.Conc

variable {I : Interface}

/-- **A discipline**: when a thread may issue a command, and what allowed commands
keep true. -/
structure Discipline (M : Machine I) (Job : Type) where
  /-- What holds at every moment. -/
  Inv : M.State → Prop
  /-- When thread `t`, running job `j`, may issue command `c`, as the others see it. -/
  Allowed : M.Tid → Job → I.Cmd → M.State → Prop
  /-- What has to be shown of a thread issuing a command. -/
  Duty : M.Tid → Job → I.Cmd → M.State → Prop := Allowed
  /-- What is known already of a thread issuing a command. -/
  Known : M.Tid → Job → I.Cmd → M.State → Prop := fun _ _ _ _ => True
  /-- Allowed commands keep the invariant. -/
  inv_exec : ∀ {t j c s ch a s'}, Inv s → Allowed t j c s →
    M.exec t s c ch = some (a, s') → Inv s'

variable {M : Machine I} {Job : Type} (D : Discipline M Job)

/-- One allowed step of thread `t`, in the middle of some job. -/
def Moves (t : M.Tid) (s s' : M.State) : Prop :=
  ∃ j c ch a, D.Inv s ∧ D.Allowed t j c s ∧ M.exec t s c ch = some (a, s')

/-- One allowed step of some thread. -/
def AnyMoves (s s' : M.State) : Prop := ∃ t, Moves D t s s'

/-- One allowed step of a thread other than `t`. -/
def Rely (t : M.Tid) (s s' : M.State) : Prop := ∃ u, u ≠ t ∧ Moves D u s s'

/-- Any number of allowed steps of the threads other than `t`. -/
abbrev RelyStar (t : M.Tid) : M.State → M.State → Prop := Relation.ReflTransGen (Rely D t)

/-- An assertion is **stable** for `t` when no allowed step of another thread
breaks it. -/
def Stable (t : M.Tid) (P : M.State → Prop) : Prop :=
  ∀ ⦃s s'⦄, P s → Rely D t s s' → P s'

variable {D}

theorem Moves.inv {t : M.Tid} {s s' : M.State} (h : Moves D t s s') : D.Inv s' := by
  obtain ⟨j, c, ch, a, hinv, hall, hex⟩ := h
  exact D.inv_exec hinv hall hex

/-- What every allowed step keeps, any number of them keep. -/
theorem AnyMoves.star {P : M.State → Prop} (hstep : ∀ u s s', Moves D u s s' → P s → P s')
    {s s' : M.State} (h : Relation.ReflTransGen (AnyMoves D) s s') (hs : P s) : P s' := by
  induction h with
  | refl => exact hs
  | tail _ hmove ih =>
    obtain ⟨u, hmove⟩ := hmove
    exact hstep u _ _ hmove ih

theorem Stable.star {t : M.Tid} {P : M.State → Prop} (hP : Stable D t P) {s s' : M.State}
    (hs : P s) (h : RelyStar D t s s') : P s' := by
  induction h with
  | refl => exact hs
  | tail _ hstep ih => exact hP ih hstep

theorem Stable.and {t : M.Tid} {P Q : M.State → Prop} (hP : Stable D t P) (hQ : Stable D t Q) :
    Stable D t fun s => P s ∧ Q s :=
  fun _ _ hs h => ⟨hP hs.1 h, hQ hs.2 h⟩

theorem Stable.exists {t : M.Tid} {ι : Type} {P : ι → M.State → Prop}
    (hP : ∀ i, Stable D t (P i)) : Stable D t fun s => ∃ i, P i s := by
  rintro s s' ⟨i, hi⟩ h
  exact ⟨i, hP i hi h⟩

theorem Stable.const {t : M.Tid} (p : Prop) : Stable D t fun _ => p := fun _ _ hs _ => hs

/-! ### Weakest preconditions -/

variable (D)

/-- **The weakest precondition of a program for thread `t` running job `j`**: the
others may move before each command and at the end, every command the program
issues meets its duty where it is issued, and the outcome satisfies `Φ`. -/
def wp (t : M.Tid) (j : Job) {ε α : Type} :
    Prog I ε α → (Except ε α → M.State → Prop) → M.State → Prop
  | .ret a, Φ, s => ∀ s', RelyStar D t s s' → D.Inv s' → Φ (.ok a) s'
  | .fail e, Φ, s => ∀ s', RelyStar D t s s' → D.Inv s' → Φ (.error e) s'
  | .call c k, Φ, s => ∀ s', RelyStar D t s s' → D.Inv s' → D.Known t j c s' →
      D.Duty t j c s' ∧ ∀ ch a s'', M.exec t s' c ch = some (a, s'') → wp t j (k a) Φ s''

variable {D} {t : M.Tid} {j : Job} {ε ε' α β : Type}

variable {Φ Ψ : Except ε α → M.State → Prop}

/-- What the others do first does not matter. -/
theorem wp_rely {p : Prog I ε α} {s s' : M.State} (h : wp D t j p Φ s) (hs : RelyStar D t s s') :
    wp D t j p Φ s' := by
  cases p with
  | ret | fail | call => exact fun s'' hs'' => h s'' (hs.trans hs'')

/-- A precondition may be checked after the others have moved, and under the
invariant. -/
theorem wp_of_rely {p : Prog I ε α} {s : M.State}
    (h : ∀ s', RelyStar D t s s' → D.Inv s' → wp D t j p Φ s') : wp D t j p Φ s := by
  cases p with
  | ret | fail | call => exact fun s' hs' hi => h s' hs' hi s' .refl hi

theorem wp_mono {p : Prog I ε α} {s : M.State} (h : wp D t j p Φ s)
    (hΦ : ∀ r s', D.Inv s' → Φ r s' → Ψ r s') : wp D t j p Ψ s := by
  induction p generalizing s with
  | ret | fail => exact fun s' hs' hi => hΦ _ _ hi (h s' hs' hi)
  | call c k ih =>
    intro s' hs' hi hkn
    obtain ⟨hall, hk⟩ := h s' hs' hi hkn
    exact ⟨hall, fun ch a s'' hex => ih a (hk ch a s'' hex)⟩

theorem wp_bind {p : Prog I ε α} {f : α → Prog I ε β} {Φ : Except ε β → M.State → Prop}
    {s : M.State}
    (h : wp D t j p (fun r s' => match r with
      | .ok a => wp D t j (f a) Φ s'
      | .error e => Φ (.error e) s') s) : wp D t j (p.bind f) Φ s := by
  induction p generalizing s with
  | ret a => exact wp_of_rely fun s' hs' hi => h s' hs' hi
  | fail e => exact h
  | call c k ih =>
    intro s' hs' hi hkn
    obtain ⟨hall, hk⟩ := h s' hs' hi hkn
    exact ⟨hall, fun ch a s'' hex => ih a (hk ch a s'' hex)⟩

/-- Looking at an outcome instead of passing it on. -/
theorem wp_attempt {p : Prog I ε α} {Φ : Except ε' (Except ε α) → M.State → Prop} {s : M.State}
    (h : wp D t j p (fun r s' => Φ (.ok r) s') s) : wp D t j p.attempt Φ s := by
  induction p generalizing s with
  | ret | fail => exact h
  | call c k ih =>
    intro s' hs' hi hkn
    obtain ⟨hall, hk⟩ := h s' hs' hi hkn
    exact ⟨hall, fun ch a s'' hex => ih a (hk ch a s'' hex)⟩

/-- Two postconditions of one program. -/
theorem wp_inter {p : Prog I ε α} {s : M.State} (hΦ : wp D t j p Φ s) (hΨ : wp D t j p Ψ s) :
    wp D t j p (fun r s => Φ r s ∧ Ψ r s) s := by
  induction p generalizing s with
  | ret | fail => exact fun s' hs' hi => ⟨hΦ s' hs' hi, hΨ s' hs' hi⟩
  | call c k ih =>
    intro s' hs' hi hkn
    obtain ⟨hduty, hkΦ⟩ := hΦ s' hs' hi hkn
    obtain ⟨-, hkΨ⟩ := hΨ s' hs' hi hkn
    exact ⟨hduty, fun ch a s'' hex => ih a (hkΦ ch a s'' hex) (hkΨ ch a s'' hex)⟩

/-! ### Changing the discipline -/

section Change

variable {Job' : Type}

/-- The machine `M` with another execution function. -/
abbrev Machine.withExec (M : Machine I)
    (exec : M.Tid → M.State → (c : I.Cmd) → M.Choice → Option (I.Ans c × M.State)) : Machine I :=
  ⟨M.State, M.Tid, M.Choice, exec⟩

/-- **A specification holds under every discipline that assumes more and asks for
less**, also on a machine that can do less. -/
theorem wp_transfer {exec : M.Tid → M.State → (c : I.Cmd) → M.Choice → Option (I.Ans c × M.State)}
    {D' : Discipline (M.withExec exec) Job'} {j' : Job'}
    (hexec : ∀ t s c ch r, exec t s c ch = some r → M.exec t s c ch = some r)
    (hinv : ∀ s, D'.Inv s → D.Inv s)
    (hallowed : ∀ u i c s, D'.Inv s → D'.Allowed u i c s → ∃ i', D.Allowed u i' c s)
    (hknown : ∀ c s, D'.Inv s → D'.Known t j' c s → D.Known t j c s)
    (hduty : ∀ c s, D'.Inv s → D.Duty t j c s → D'.Duty t j' c s) {p : Prog I ε α} {s : M.State}
    (h : wp D t j p Φ s) : wp D' t j' p Φ s := by
  have hrely : ∀ s s', RelyStar D' t s s' → RelyStar D t s s' := by
    intro s s' hs
    refine Relation.ReflTransGen.mono ?_ _ _ hs
    rintro s s' ⟨u, hne, i, c, ch, a, hi, hall, hex⟩
    obtain ⟨i', hall'⟩ := hallowed u i c s hi hall
    exact ⟨u, hne, i', c, ch, a, hinv s hi, hall', hexec _ _ _ _ _ hex⟩
  induction p generalizing s with
  | ret | fail => exact fun s' hs' hi => h s' (hrely _ _ hs') (hinv s' hi)
  | call c k ih =>
    intro s' hs' hi hkn
    obtain ⟨hd, hk⟩ := h s' (hrely _ _ hs') (hinv s' hi) (hknown c s' hi hkn)
    exact ⟨hduty c s' hi hd, fun ch a s'' hex => ih a (hk ch a s'' (hexec _ _ _ _ _ hex))⟩

/-- A discipline with other duties, and other things known. -/
abbrev Discipline.withDuty (D : Discipline M Job) (G K : M.Tid → Job → I.Cmd → M.State → Prop) :
    Discipline M Job :=
  { D with Duty := G, Known := K }

/-- **Two specifications of one program**: what the first shows, the second knows. -/
theorem wp_and {G H K : M.Tid → Job → I.Cmd → M.State → Prop} {p : Prog I ε α} {s : M.State}
    (hG : wp (D.withDuty G K) t j p Φ s) (hH : wp (D.withDuty H G) t j p Ψ s) :
    wp (D.withDuty (fun t j c s => G t j c s ∧ H t j c s) K) t j p
    (fun r s => Φ r s ∧ Ψ r s) s := by
  induction p generalizing s with
  | ret | fail => exact fun s' hs' hi => ⟨hG s' hs' hi, hH s' hs' hi⟩
  | call c k ih =>
    intro s' hs' hi hkn
    obtain ⟨hg, hkG⟩ := hG s' hs' hi hkn
    obtain ⟨hh, hkH⟩ := hH s' hs' hi hg
    exact ⟨⟨hg, hh⟩, fun ch a s'' hex => ih a (hkG ch a s'' hex) (hkH ch a s'' hex)⟩

end Change

/-! ### Triples -/

variable (D t j) in
/-- **A triple**: from every state satisfying `P` the program is safe and its
outcome satisfies `Q`. -/
def Triple (P : M.State → Prop) (p : Prog I ε α) (Q : Except ε α → M.State → Prop) : Prop :=
  ∀ s, P s → wp D t j p Q s

namespace Triple

variable {P P' : M.State → Prop} {Q Q' : Except ε α → M.State → Prop}

theorem conseq {p : Prog I ε α} (h : Triple D t j P p Q) (hP : ∀ s, P' s → P s)
    (hQ : ∀ r s, D.Inv s → Q r s → Q' r s) : Triple D t j P' p Q' :=
  fun s hs => wp_mono (h s (hP s hs)) hQ

theorem weaken {p : Prog I ε α} (h : Triple D t j P p Q) (hQ : ∀ r s, D.Inv s → Q r s → Q' r s) :
    Triple D t j P p Q' :=
  h.conseq (fun _ hs => hs) hQ

theorem strengthen {p : Prog I ε α} (h : Triple D t j P p Q) (hP : ∀ s, P' s → P s) :
    Triple D t j P' p Q :=
  h.conseq hP fun _ _ _ hs => hs

theorem ret {a : α} (hst : Stable D t P) (h : ∀ s, D.Inv s → P s → Q (.ok a) s) :
    Triple D t j P (.ret a) Q :=
  fun _ hs s' hs' hi => h s' hi (hst.star hs hs')

theorem fail {e : ε} (hst : Stable D t P) (h : ∀ s, D.Inv s → P s → Q (.error e) s) :
    Triple D t j P (.fail e) Q :=
  fun _ hs s' hs' hi => h s' hi (hst.star hs hs')

/-- **One command**, given what is known about it: it meets its duty wherever the
precondition holds, and what it leaves is a precondition of the rest. -/
theorem call_known {c : I.Cmd} {k : I.Ans c → Prog I ε α} (hst : Stable D t P)
    {R : I.Ans c → M.State → Prop}
    (hduty : ∀ s, D.Inv s → D.Known t j c s → P s → D.Duty t j c s)
    (hex : ∀ s ch a s', D.Inv s → D.Known t j c s → P s → M.exec t s c ch = some (a, s') → R a s')
    (hk : ∀ a, Triple D t j (R a) (k a) Q) : Triple D t j P (.call c k) Q := by
  intro s hs s' hs' hi hkn
  have hP := hst.star hs hs'
  exact ⟨hduty s' hi hkn hP, fun ch a s'' he => hk a s'' (hex s' ch a s'' hi hkn hP he)⟩

/-- **One command**: it meets its duty wherever the precondition holds, and what it
leaves is a precondition of the rest. -/
theorem call {c : I.Cmd} {k : I.Ans c → Prog I ε α} (hst : Stable D t P)
    {R : I.Ans c → M.State → Prop} (hduty : ∀ s, D.Inv s → P s → D.Duty t j c s)
    (hex : ∀ s ch a s', D.Inv s → P s → M.exec t s c ch = some (a, s') → R a s')
    (hk : ∀ a, Triple D t j (R a) (k a) Q) : Triple D t j P (.call c k) Q :=
  call_known hst (fun s hi _ => hduty s hi) (fun s ch a s' hi _ => hex s ch a s' hi) hk

/-- **Sequencing**, where the first program has a specification of its own. -/
theorem seq {p : Prog I ε α} {f : α → Prog I ε β} {Q' : Except ε β → M.State → Prop}
    (hp : Triple D t j P p Q) (herr : ∀ e s, Q (.error e) s → Q' (.error e) s)
    (hf : ∀ a, Triple D t j (Q (.ok a)) (f a) Q') : Triple D t j P (p.bind f) Q' := by
  intro s hs
  refine wp_bind (wp_mono (hp s hs) fun r s' _ hr => ?_)
  cases r with
  | ok a => exact hf a s' hr
  | error e => exact herr e s' hr

/-- **Sequencing**: a failure of the first program is the failure of the whole. -/
theorem bind {p : Prog I ε α} {f : α → Prog I ε β} {R : α → M.State → Prop}
    {Q : Except ε β → M.State → Prop}
    (hp : Triple D t j P p fun r s => match r with
      | .ok a => R a s
      | .error e => Q (.error e) s)
    (hf : ∀ a, Triple D t j (R a) (f a) Q) : Triple D t j P (p.bind f) Q :=
  hp.seq (fun _ _ hr => hr) hf

theorem attempt {p : Prog I ε α} (hp : Triple D t j P p Q) :
    Triple D t j P (p.attempt : Prog I ε' (Except ε α)) fun r s =>
      match r with
      | .ok r => Q r s
      | .error _ => False :=
  fun s hs => wp_attempt (hp s hs)

/-- **Sequencing after an attempt**: the rest of the program sees the outcome. -/
theorem attempt_bind {p : Prog I ε α} {f : Except ε α → Prog I ε' β}
    {Q' : Except ε' β → M.State → Prop} (hp : Triple D t j P p Q)
    (hf : ∀ r, Triple D t j (Q r) (f r) Q') :
    Triple D t j P ((p.attempt : Prog I ε' (Except ε α)).bind f) Q' :=
  hp.attempt.seq (fun _ _ hr => hr.elim) hf

theorem ofExcept {r : Except ε α} (hst : Stable D t P) (h : ∀ s, D.Inv s → P s → Q r s) :
    Triple D t j P (Prog.ofExcept r) Q := by
  cases r <;> exact fun _ hs s' hs' hi => h s' hi (hst.star hs hs')

/-- **A program between two commands**, the second of which is issued however it ends. -/
theorem between {lock unlock : I.Cmd} {p : Prog I ε α} {A : M.State → Prop}
    {R : Except ε α → M.State → Prop} (hst : Stable D t P)
    (hlock : ∀ s, D.Inv s → P s → D.Duty t j lock s)
    (henter : ∀ s ch a s', D.Inv s → P s → M.exec t s lock ch = some (a, s') → A s')
    (hp : Triple D t j A p R) (hRst : ∀ r, Stable D t (R r))
    (hunlock : ∀ r s, D.Inv s → R r s → D.Duty t j unlock s)
    (hleave : ∀ r s ch a s', D.Inv s → R r s → M.exec t s unlock ch = some (a, s') → Q r s')
    (hQst : ∀ r, Stable D t (Q r)) :
    Triple D t j P (.call lock fun _ => (p.attempt : Prog I ε (Except ε α)).bind fun r =>
      .call unlock fun _ => Prog.ofExcept r) Q :=
  call hst hlock henter fun _ => attempt_bind hp fun r =>
    call (hRst r) (hunlock r) (hleave r) fun _ => ofExcept (hQst r) fun _ _ hs => hs

/-- **A program made of commands that keep an assertion keeps it**, and ends as it can
end at all. -/
theorem of_always {p : Prog I ε α} {C : I.Cmd → Prop} {R : Except ε α → Prop}
    (hst : Stable D t P) (hduty : ∀ c, C c → ∀ s, D.Inv s → P s → D.Duty t j c s)
    (hex : ∀ c, C c → ∀ s ch a s', P s → M.exec t s c ch = some (a, s') → P s')
    (hp : p.Always C R) : Triple D t j P p fun r s => R r ∧ P s := by
  induction p with
  | ret a => exact ret hst fun s _ hs => ⟨hp, hs⟩
  | fail e => exact fail hst fun s _ hs => ⟨hp, hs⟩
  | call c k ih =>
    exact call hst (hduty c hp.1) (fun s ch a s' _ hs he => hex c hp.1 s ch a s' hs he)
      fun a => ih a (hp.2 a)

/-- A triple under a discipline that assumes more and asks for less. -/
theorem transfer {Job' : Type}
    {exec : M.Tid → M.State → (c : I.Cmd) → M.Choice → Option (I.Ans c × M.State)}
    {D' : Discipline (M.withExec exec) Job'} {j' : Job'} {p : Prog I ε α} (h : Triple D t j P p Q)
    (hexec : ∀ t s c ch r, exec t s c ch = some r → M.exec t s c ch = some r)
    (hinv : ∀ s, D'.Inv s → D.Inv s)
    (hallowed : ∀ u i c s, D'.Inv s → D'.Allowed u i c s → ∃ i', D.Allowed u i' c s)
    (hknown : ∀ c s, D'.Inv s → D'.Known t j' c s → D.Known t j c s)
    (hduty : ∀ c s, D'.Inv s → D.Duty t j c s → D'.Duty t j' c s) : Triple D' t j' P p Q :=
  fun s hs => wp_transfer hexec hinv hallowed hknown hduty (h s hs)

/-- **The frame rule**: what the others keep and what the commands of the program keep, the
program keeps, whatever else is shown of it. -/
theorem frame_only {p : Prog I ε α} {C : I.Cmd → Prop} {F : M.State → Prop}
    (h : Triple D t j P p Q) (hp : p.Only C) (hst : Stable D t F)
    (hex : ∀ c, C c → ∀ s ch a s', D.Inv s → D.Duty t j c s → F s →
      M.exec t s c ch = some (a, s') → F s') :
    Triple D t j (fun s => P s ∧ F s) p fun r s => Q r s ∧ F s := by
  rintro s ⟨hs, hfs⟩
  have hwp := h s hs
  clear hs h
  induction p generalizing s with
  | ret | fail => exact fun s' hs' hi => ⟨hwp s' hs' hi, hst.star hfs hs'⟩
  | call c k ih =>
    intro s' hs' hi hkn
    obtain ⟨hd, hk⟩ := hwp s' hs' hi hkn
    exact ⟨hd, fun ch a s'' he => ih a (hp.2 a) s''
      (hex c hp.1 s' ch a s'' hi hd (hst.star hfs hs') he) (hk ch a s'' he)⟩

/-- A pure fact of the precondition is a hypothesis of the triple. -/
theorem pure_pre {p : Prog I ε α} {φ : Prop} (h : φ → Triple D t j P p Q) :
    Triple D t j (fun s => φ ∧ P s) p Q :=
  fun s hs => h hs.1 s hs.2

theorem exists_pre {ι : Type} {P : ι → M.State → Prop} {p : Prog I ε α}
    (h : ∀ i, Triple D t j (P i) p Q) : Triple D t j (fun s => ∃ i, P i s) p Q :=
  fun s ⟨i, hi⟩ => h i s hi

end Triple

variable (D t j) in
/-- **A program that keeps an assertion**, however it ends. -/
abbrev Keeps (P : M.State → Prop) (p : Prog I ε α) : Prop := Triple D t j P p fun _ s => P s

namespace Keeps

variable {P : M.State → Prop}

theorem ret {a : α} (hst : Stable D t P) : Keeps D t j P (.ret a : Prog I ε α) :=
  Triple.ret hst fun _ _ hs => hs

theorem fail {e : ε} (hst : Stable D t P) : Keeps D t j P (.fail e : Prog I ε α) :=
  Triple.fail hst fun _ _ hs => hs

theorem bind {p : Prog I ε α} {f : α → Prog I ε β} (hp : Keeps D t j P p)
    (hf : ∀ a, Keeps D t j P (f a)) : Keeps D t j P (p.bind f) :=
  hp.seq (fun _ _ hs => hs) hf

theorem attempt {p : Prog I ε α} (hp : Keeps D t j P p) :
    Keeps D t j P (p.attempt : Prog I ε' (Except ε α)) :=
  fun s hs => wp_attempt (hp s hs)

/-- What a program keeps is a matter of what it is made of. -/
theorem closed {C : I.Cmd → Prop}
    (h : ∀ {α : Type} {p : Prog I ε α}, p.Only C → Keeps D t j P p) :
    Prog.Closed C fun {α} (p : Prog I ε α) => Keeps D t j P p :=
  ⟨bind, attempt, h⟩

end Keeps

/-! ### Fences

A writer that cannot lock reads first and writes only if nothing has been written in between. It
tells by a *stamp* that every write raises: as long as the stamp is what it was, so is
everything else. -/

section Fence

variable {V : Type} (stamp : M.State → ℕ) (view : M.State → V)

/-- **What was read at stamp `r` is still there, if the stamp is still `r`.** -/
def Fenced (r : ℕ) (v : V) (s : M.State) : Prop := r ≤ stamp s ∧ (stamp s = r → view s = v)

variable {stamp view}

theorem Fenced.stable {r : ℕ} {v : V}
    (h : ∀ u s s', Moves D u s s' → stamp s' = stamp s ∧ view s' = view s ∨ stamp s < stamp s') :
    Stable D t (Fenced stamp view r v) := by
  rintro s s' ⟨hle, heq⟩ ⟨u, -, hmove⟩
  obtain ⟨hstamp, hview⟩ | hlt := h u s s' hmove
  · rw [Fenced, hstamp, hview]
    exact ⟨hle, heq⟩
  · exact ⟨by omega, fun hs => absurd hs (by omega)⟩

end Fence

/-! ### Putting the threads together -/

/-- **A proof outline for a workload**: what a thread between two jobs may rely on,
given the reports it has made so far, which jobs are on the menu, what each of them
promises, and that it keeps the promise. It is about the runs in which every command is
executed where it is known what the discipline takes as known. -/
structure GuardedOutline (M : Machine I) (W : Workload I M.Tid) extends Discipline M W.Job where
  Menu : W.Job → Prop
  /-- What is known of a thread between two jobs, by the reports it has made, the latest
  first. -/
  Idle : M.Tid → List (Report M W) → M.State → Prop
  /-- What a job promises about its outcome. -/
  Post : M.Tid → W.Job → Except W.Err W.Res → M.State → Prop
  allowed_of_duty : ∀ {t j c s}, toDiscipline.Duty t j c s → toDiscipline.Allowed t j c s := by
    intros; assumption
  idle_stable : ∀ t rs, Stable toDiscipline t (Idle t rs)
  job : ∀ t j rs, Menu j → Triple toDiscipline t j (Idle t rs) (W.body t j) fun r s =>
    Idle t (⟨t, j, r⟩ :: rs) s ∧ Post t j r s

namespace GuardedOutline

variable {W : Workload I M.Tid} (O : GuardedOutline M W)

/-- What is known of one thread, by what it is doing and what it has reported. -/
def ThreadOk (t : M.Tid) (rs : List (Report M W)) (s : M.State) : Thread M W → Prop
  | .idle => O.Idle t rs s
  | .running j rest => wp O.toDiscipline t j rest
      (fun r s => O.Idle t (⟨t, j, r⟩ :: rs) s ∧ O.Post t j r s) s

/-- The events of a run only start jobs on the menu. -/
def Within (ls : List (Label M W)) : Prop := ∀ t j, Label.start t j ∈ ls → O.Menu j

theorem Within.of_cons {l : Label M W} {ls : List (Label M W)} (h : O.Within (l :: ls)) :
    O.Within ls :=
  fun t j hm => h t j (List.mem_cons_of_mem _ hm)

variable [DecidableEq M.Tid]

/-- What a pool satisfies at every moment of a run: the invariant, and for each
thread the weakest precondition of what is left of its job. -/
def Sound (p : Pool M W) : Prop :=
  O.Inv p.shared ∧ ∀ t, O.ThreadOk t (p.reportsOf t) p.shared (p.thread t)

/-- **Every allowed step keeps the pool sound for the threads not taking it.** -/
theorem Sound.frame {p : Pool M W} (h : O.Sound p) {t u : M.Tid} (htu : u ≠ t) {s : M.State}
    (hm : Moves O.toDiscipline t p.shared s) :
    O.ThreadOk u (p.reportsOf u) s (p.thread u) := by
  have hu := h.2 u
  have hrely : Rely O.toDiscipline u p.shared s := ⟨t, htu.symm, hm⟩
  rcases hth : p.thread u with _ | ⟨j, rest⟩
  · rw [hth] at hu
    exact O.idle_stable u _ hu hrely
  · rw [hth] at hu
    exact wp_rely hu (.single hrely)

theorem sound_initial {s : M.State} (hinv : O.Inv s) (hidle : ∀ t, O.Idle t [] s) :
    O.Sound (Pool.initial s) :=
  ⟨hinv, fun t => hidle t⟩

/-- **A thread about to issue a command is allowed to**, if what has to be known is. -/
theorem Sound.allowed {p : Pool M W} (h : O.Sound p) {t : M.Tid} {j : W.Job} {c : I.Cmd}
    {k : I.Ans c → Prog I W.Err W.Res} (ht : p.thread t = .running j (.call c k))
    (hknown : O.Known t j c p.shared) : O.Allowed t j c p.shared := by
  have hth := h.2 t
  rw [ht] at hth
  exact O.allowed_of_duty (hth p.shared .refl h.1 hknown).1

/-- **A thread about to report keeps its promise.** -/
theorem Sound.post {p : Pool M W} (h : O.Sound p) {t : M.Tid} {j : W.Job}
    {r : Except W.Err W.Res} (ht : p.thread t = .running j (Prog.ofExcept r)) :
    O.Post t j r p.shared := by
  have hth := h.2 t
  rw [ht] at hth
  cases r with
  | ok | error => exact (hth p.shared .refl h.1).2

/-- **A thread about to report is as it is between two jobs**, with the report made. -/
theorem Sound.settled {p : Pool M W} (h : O.Sound p) {t : M.Tid} {j : W.Job}
    {r : Except W.Err W.Res} (ht : p.thread t = .running j (Prog.ofExcept r)) :
    O.Idle t (⟨t, j, r⟩ :: p.reportsOf t) p.shared := by
  have hth := h.2 t
  rw [ht] at hth
  cases r with
  | ok | error => exact (hth p.shared .refl h.1).1

/-- A thread may be given any program that satisfies its specification. -/
theorem Sound.setThread {p : Pool M W} (h : O.Sound p) {t : M.Tid} {j : W.Job}
    {rest : Prog I W.Err W.Res}
    (hwp : O.ThreadOk t (p.reportsOf t) p.shared (.running j rest)) :
    O.Sound (p.setThread t (.running j rest)) := by
  refine ⟨h.1, fun u => ?_⟩
  change O.ThreadOk u (p.reportsOf u) p.shared (Function.update p.thread t _ u)
  rcases eq_or_ne u t with rfl | hne
  · rw [Function.update_self]
    exact hwp
  · rw [Function.update_of_ne hne]
    exact h.2 u

/-- If the event executes a command, what has to be known of it is. -/
def Knowing (p : Pool M W) (l : Label M W) : Prop :=
  ∀ t ch j c k, l = .step t ch → p.thread t = .running j (.call c k) → O.Known t j c p.shared

/-- **One event keeps a pool sound**, and moves the shared state by an allowed step
or not at all. -/
theorem Sound.next {p q : Pool M W} {l : Label M W} (h : O.Sound p) (hl : O.Within [l])
    (hknown : O.Knowing p l) (hn : p.next l = some q) :
    O.Sound q ∧ (q.shared = p.shared ∨ AnyMoves O.toDiscipline p.shared q.shared) := by
  obtain ⟨t, j, rfl, hidle, rfl⟩ | ⟨t, ch, j, c, k, a, s, rfl, hrun, hex, rfl⟩ |
    ⟨t, j, r, rfl, hrun, rfl⟩ := Pool.next_cases hn
  · -- A job is started: its specification holds from the idle thread's state.
    have hmenu := hl t j (List.mem_singleton.mpr rfl)
    have ht := h.2 t
    rw [hidle] at ht
    exact ⟨h.setThread O (O.job t j _ hmenu p.shared ht), Or.inl rfl⟩
  · -- A command is executed: the others keep their preconditions by stability.
    have hkn := hknown t ch j c k rfl hrun
    have hall := h.allowed O hrun hkn
    have hmove : Moves O.toDiscipline t p.shared s := ⟨j, c, ch, a, h.1, hall, hex⟩
    refine ⟨⟨hmove.inv, fun u => ?_⟩, Or.inr ⟨t, hmove⟩⟩
    change O.ThreadOk u (p.reportsOf u) s (Function.update p.thread t _ u)
    rcases eq_or_ne u t with rfl | hne
    · have hu := h.2 u
      rw [hrun] at hu
      rw [Function.update_self]
      exact (hu p.shared .refl h.1 hkn).2 ch a s hex
    · rw [Function.update_of_ne hne]
      exact h.frame O hne hmove
  · -- A job reports: its postcondition makes the thread idle again.
    refine ⟨⟨h.1, fun u => ?_⟩, Or.inl rfl⟩
    change O.ThreadOk u ((⟨t, j, r⟩ :: p.reports).filter fun r => r.tid = u) p.shared
      (Function.update p.thread t _ u)
    rcases eq_or_ne u t with rfl | hne
    · rw [Function.update_self, List.filter_cons_of_pos (by simp)]
      exact h.settled O hrun
    · rw [Function.update_of_ne hne, List.filter_cons_of_neg (by simpa using hne.symm)]
      exact h.2 u

/-- **Every run keeps a pool sound**, and moves the shared state by allowed steps
only. -/
theorem Sound.run {p q : Pool M W} {ls : List (Label M W)} (h : O.Sound p) (hls : O.Within ls)
    (hknown : p.Throughout O.Knowing ls) (hr : p.run ls = some q) :
    O.Sound q ∧ Relation.ReflTransGen (AnyMoves O.toDiscipline) p.shared q.shared := by
  induction ls generalizing p with
  | nil =>
    obtain rfl := Option.some.inj hr
    exact ⟨h, .refl⟩
  | cons l ls ih =>
    obtain ⟨r, hr1, hr2⟩ := Pool.run_cons.mp hr
    have hl : O.Within [l] := fun t j hm => hls t j (by simp_all)
    obtain ⟨hsr, hmv⟩ := h.next O hl hknown.1 hr1
    obtain ⟨hsq, hstar⟩ := ih hsr (Within.of_cons O hls) (hknown.2 r hr1) hr2
    refine ⟨hsq, ?_⟩
    rcases hmv with heq | hmv
    · rw [← heq]
      exact hstar
    · exact .head hmv hstar

end GuardedOutline

/-- **A proof outline for all runs**: nothing is taken as known. -/
structure Outline (M : Machine I) (W : Workload I M.Tid) extends GuardedOutline M W where
  known : ∀ {t j c s}, toDiscipline.Known t j c s := by intros; trivial

namespace Outline

variable {W : Workload I M.Tid} (O : Outline M W) [DecidableEq M.Tid]

/-- What a pool satisfies at every moment of a run. -/
abbrev Sound (p : Pool M W) : Prop := O.toGuardedOutline.Sound p

theorem sound_initial {s : M.State} (hinv : O.Inv s) (hidle : ∀ t, O.Idle t [] s) :
    O.Sound (Pool.initial s) :=
  O.toGuardedOutline.sound_initial hinv hidle

/-- **A thread about to issue a command is allowed to.** -/
theorem Sound.allowed {p : Pool M W} (h : O.Sound p) {t : M.Tid} {j : W.Job} {c : I.Cmd}
    {k : I.Ans c → Prog I W.Err W.Res} (ht : p.thread t = .running j (.call c k)) :
    O.Allowed t j c p.shared :=
  GuardedOutline.Sound.allowed _ h ht O.known

/-- **A thread about to report keeps its promise.** -/
theorem Sound.post {p : Pool M W} (h : O.Sound p) {t : M.Tid} {j : W.Job}
    {r : Except W.Err W.Res} (ht : p.thread t = .running j (Prog.ofExcept r)) :
    O.Post t j r p.shared :=
  GuardedOutline.Sound.post _ h ht

/-- **One event keeps a pool sound**, and moves the shared state by an allowed step
or not at all. -/
theorem Sound.next {p q : Pool M W} {l : Label M W} (h : O.Sound p) (hl : O.Within [l])
    (hn : p.next l = some q) :
    O.Sound q ∧ (q.shared = p.shared ∨ AnyMoves O.toDiscipline p.shared q.shared) :=
  GuardedOutline.Sound.next _ h hl (fun _ _ _ _ _ _ _ => O.known) hn

/-- **Every run keeps a pool sound**, and moves the shared state by allowed steps
only. -/
theorem Sound.run {p q : Pool M W} {ls : List (Label M W)} (h : O.Sound p) (hls : O.Within ls)
    (hr : p.run ls = some q) :
    O.Sound q ∧ Relation.ReflTransGen (AnyMoves O.toDiscipline) p.shared q.shared :=
  GuardedOutline.Sound.run _ h hls
    (Pool.throughout_of_forall fun _ _ _ _ _ _ _ _ _ => O.known) hr

end Outline

end OpenvoxCa.Conc
