import OpenvoxCa.Conc.Pool

/-!
# Protocols

Much of what has to be known of a thread can be read off its own commands and the answers to them:
which locks it holds, what it has begun and not ended. A `Protocol` is such a reading: an automaton
whose states a thread goes through as it gets its answers, and which says, in each state, what the
thread may ask for next. A program *follows* a protocol (`Follows`) if it keeps to it under all
answers – all those, that is, which the protocol considers: an answer that leads nowhere ends the
account.

Nothing in this is about other threads, so the rules of this file are those of sequential programs
without any proviso. The others come in at the end. If every job follows the protocol from its
initial state back to it, then in every run each thread is in some state of the protocol, and what
is invariant about these states and the shared one together is preserved by one step if it is
preserved by one allowed command (`Pool.follows_run`).
-/

namespace OpenvoxCa.Conc

/-- **A protocol**: the states of a thread, what it may ask for in each, and where an answer leads,
if it is considered. -/
structure Protocol (I : Interface) (σ : Type) where
  Allows : σ → I.Cmd → Prop
  /-- Where an answer leads. -/
  next : σ → (c : I.Cmd) → I.Ans c → Option σ

variable {I : Interface} {σ : Type} (P : Protocol I σ) {ε ε' α β : Type}

/-- **A program follows the protocol** from state `q`: it asks for what is allowed, and its outcome
and the state it ends in satisfy `Q`. -/
def Follows : σ → Prog I ε α → (Except ε α → σ → Prop) → Prop
  | q, .ret a, Q => Q (.ok a) q
  | q, .fail e, Q => Q (.error e) q
  | q, .call c k, Q => P.Allows q c ∧ ∀ a q', P.next q c a = some q' → Follows q' (k a) Q

variable {P} {q : σ} {Q Q' : Except ε α → σ → Prop} {p : Prog I ε α}

namespace Follows

theorem mono (h : Follows P q p Q) (hQ : ∀ r q', Q r q' → Q' r q') :
    Follows P q p Q' := by
  induction p generalizing q with
  | ret | fail => exact hQ _ _ h
  | call c k ih => exact ⟨h.1, fun a q' hq' => ih a (h.2 a q' hq')⟩

theorem bind {f : α → Prog I ε β} {Q : Except ε β → σ → Prop}
    (h : Follows P q p fun r q' => match r with
      | .ok a => Follows P q' (f a) Q
      | .error e => Q (.error e) q') : Follows P q (p.bind f) Q := by
  induction p generalizing q with
  | ret | fail => exact h
  | call c k ih => exact ⟨h.1, fun a q' hq' => ih a (h.2 a q' hq')⟩

theorem attempt {Q : Except ε' (Except ε α) → σ → Prop}
    (h : Follows P q p fun r q' => Q (.ok r) q') :
    Follows P q (p.attempt : Prog I ε' (Except ε α)) Q := by
  induction p generalizing q with
  | ret | fail => exact h
  | call c k ih => exact ⟨h.1, fun a q' hq' => ih a (h.2 a q' hq')⟩

theorem ofExcept {r : Except ε α} (h : Q r q) : Follows P q (Prog.ofExcept r : Prog I ε α) Q := by
  cases r <;> exact h

/-- **What is done in any case**, after whatever outcome. -/
theorem ensure {fin : Prog I ε Unit}
    (h : Follows P q p fun r q' => Follows P q' fin fun r' q'' => match r' with
      | .ok _ => Q r q''
      | .error e => Q (.error e) q'') : Follows P q (p.ensure fin) Q := by
  refine bind (attempt (h.mono fun r q' hfin => bind (hfin.mono fun r' q'' hr' => ?_)))
  cases r' with
  | ok _ => exact ofExcept hr'
  | error e => exact hr'

end Follows

/-! ### Programs that leave the state as it is -/

variable (P) in
/-- **The program follows the protocol, and leaves the state as it is**, however it ends. -/
abbrev Stays (q : σ) (p : Prog I ε α) : Prop := Follows P q p fun _ q' => q' = q

namespace Stays

theorem bind {f : α → Prog I ε β} (hp : Stays P q p)
    (hf : ∀ a, Stays P q (f a)) : Stays P q (p.bind f) := by
  refine Follows.bind (hp.mono fun r q' hq' => ?_)
  subst hq'
  cases r with
  | ok a => exact hf a
  | error e => rfl

theorem attempt (hp : Stays P q p) :
    Stays P q (p.attempt : Prog I ε' (Except ε α)) :=
  Follows.attempt hp

/-- Commands that are allowed, and whose answers lead nowhere else. -/
theorem of_only {C : I.Cmd → Prop}
    (hC : ∀ c, C c → P.Allows q c ∧ ∀ a q', P.next q c a = some q' → q' = q) (hp : p.Only C) :
    Stays P q p := by
  induction p with
  | ret | fail => rfl
  | call c k ih =>
    refine ⟨(hC c hp.1).1, fun a q' hq' => ?_⟩
    obtain rfl := (hC c hp.1).2 a q' hq'
    exact ih a (hp.2 a)

/-- So do programs made of such ones. -/
theorem closed {C : I.Cmd → Prop} (h : ∀ {α : Type} {p : Prog I ε α}, p.Only C → Stays P q p) :
    Prog.Closed C fun {α} (p : Prog I ε α) => Stays P q p :=
  ⟨bind, attempt, h⟩

end Stays

/-! ### Protocols that consider every answer -/

/-- **A protocol that considers every answer.** -/
abbrev Protocol.total (Allows : σ → I.Cmd → Prop) (next : σ → (c : I.Cmd) → I.Ans c → σ) :
    Protocol I σ :=
  ⟨Allows, fun q c a => some (next q c a)⟩

variable {Allows : σ → I.Cmd → Prop} {next : σ → (c : I.Cmd) → I.Ans c → σ}

theorem Follows.call {c : I.Cmd} {k : I.Ans c → Prog I ε α} (hc : Allows q c)
    (hk : ∀ a, Follows (.total Allows next) (next q c a) (k a) Q) :
    Follows (.total Allows next) q (.call c k) Q :=
  ⟨hc, fun a _ hq => Option.some.inj hq ▸ hk a⟩

/-! ### Runs -/

section Runs

variable {M : Machine I} {W : Workload I M.Tid} {q₀ : σ}

variable (q₀) in
/-- **Where a thread is in the protocol**, which may be another one for each job: at its beginning
between two jobs, and in the middle of a job at a state from which the rest of the job leads to an
end that `Q` admits. -/
def Thread.Heading (P : W.Job → Protocol I σ) (Q : W.Job → Except W.Err W.Res → σ → Prop) (q : σ) :
    Thread M W → Prop
  | .idle => q = q₀
  | .running j rest => Follows (P j) q rest (Q j)

variable (P q₀) in
/-- **Where a thread is in the protocol**, if every job leads back to its beginning. -/
def Thread.At (q : σ) : Thread M W → Prop
  | .idle => q = q₀
  | .running _ rest => Follows P q rest fun _ q' => q' = q₀

theorem Thread.at_iff_heading {th : Thread M W} :
    th.At P q₀ q ↔ th.Heading q₀ (fun _ => P) (fun _ _ q' => q' = q₀) q := by
  cases th <;> exact Iff.rfl

variable [DecidableEq M.Tid] {C : Pool M W → Label M W → Prop} {Menu : W.Job → Prop}

section Reports

variable {P : W.Job → Protocol I σ} {Q : W.Job → Except W.Err W.Res → σ → Prop}
  {Inv : M.State → (M.Tid → σ) → List (Report M W) → Prop}

/-- One thread moves, and everybody is somewhere in the protocol again. -/
theorem Thread.heading_update {th : M.Tid → Thread M W} {q : M.Tid → σ}
    (h : ∀ t, (th t).Heading q₀ P Q (q t)) {t : M.Tid} {th' : Thread M W} {q' : σ}
    (ht : th'.Heading q₀ P Q q') (u : M.Tid) :
    (Function.update th t th' u).Heading q₀ P Q (Function.update q t q' u) := by
  rcases eq_or_ne u t with rfl | hne
  · rwa [Function.update_self, Function.update_self]
  · rw [Function.update_of_ne hne, Function.update_of_ne hne]
    exact h u

variable (hjob : ∀ t j, Menu j → Follows (P j) q₀ (W.body t j) (Q j))
  (hcmd : ∀ {p : Pool M W} {t ch j c k a s q}, p.thread t = .running j (.call c k) →
    C p (.step t ch) → M.exec t p.shared c ch = some (a, s) → Inv p.shared q p.reports →
    (P j).Allows (q t) c →
      ∃ q', (P j).next (q t) c a = some q' ∧ Inv s (Function.update q t q') p.reports)
  (hreport : ∀ {t j r s q rs}, Inv s q rs → Q j r (q t) →
    Inv s (Function.update q t q₀) (⟨t, j, r⟩ :: rs))
  {p p' : Pool M W} {q : M.Tid → σ} (hinv : Inv p.shared q p.reports)
  (hat : ∀ t, (p.thread t).Heading q₀ P Q (q t))

include hjob hcmd hreport hinv hat

/-- **One event**, if jobs follow the protocol, and allowed commands and reports keep the
invariant. -/
theorem Pool.heading_next {l : Label M W} (hl : C p l) (hmenu : ∀ t j, l = .start t j → Menu j)
    (hn : p.next l = some p') :
    ∃ q', Inv p'.shared q' p'.reports ∧ ∀ t, (p'.thread t).Heading q₀ P Q (q' t) := by
  obtain ⟨t, j, rfl, hidle, rfl⟩ | ⟨t, ch, j, c, k, a, s, rfl, hrun, hex, rfl⟩ |
    ⟨t, j, r, rfl, hrun, rfl⟩ := Pool.next_cases hn
  · have ht : q t = q₀ := by
      have ht := hat t
      rwa [hidle] at ht
    refine ⟨Function.update q t q₀, ?_, Thread.heading_update hat (hjob t j (hmenu t j rfl))⟩
    rwa [← ht, Function.update_eq_self]
  · have ht := hat t
    rw [hrun] at ht
    obtain ⟨q', hq', hinv'⟩ := hcmd hrun hl hex hinv ht.1
    exact ⟨_, hinv', Thread.heading_update hat (ht.2 a q' hq')⟩
  · have ht : Q j r (q t) := by
      have ht := hat t
      rw [hrun] at ht
      cases r with
      | ok | error => exact ht
    exact ⟨_, hreport hinv ht, Thread.heading_update hat rfl⟩

variable (Inv) in
/-- **A run, and what it reports**: each thread is somewhere in the protocol, and the invariant
holds of the states and the reports together. -/
theorem Pool.heading_run {ls : List (Label M W)} (hls : p.Throughout C ls)
    (hmenu : ∀ t j, .start t j ∈ ls → Menu j) (hrun : p.run ls = some p') :
    ∃ q', Inv p'.shared q' p'.reports ∧ ∀ t, (p'.thread t).Heading q₀ P Q (q' t) := by
  induction ls generalizing p q with
  | nil =>
    obtain rfl := Option.some.inj hrun
    exact ⟨q, hinv, hat⟩
  | cons l ls ih =>
    obtain ⟨r, hnext, hrest⟩ := Pool.run_cons.mp hrun
    obtain ⟨q', hinv', hat'⟩ := Pool.heading_next hjob hcmd hreport hinv hat hls.1
      (fun t j hl => hmenu t j (hl ▸ List.mem_cons_self)) hnext
    exact ih hinv' hat' (hls.2 r hnext)
      (fun t j hmem => hmenu t j (List.mem_cons_of_mem _ hmem)) hrest

end Reports

variable {Inv : M.State → (M.Tid → σ) → Prop}

/-- **A run**: each thread is somewhere in the protocol, and the invariant holds. -/
theorem Pool.follows_run (hjob : ∀ t j, Menu j → Follows P q₀ (W.body t j) fun _ q' => q' = q₀)
    (hcmd : ∀ {p : Pool M W} {t ch j c k a s q}, p.thread t = .running j (.call c k) →
      C p (.step t ch) → M.exec t p.shared c ch = some (a, s) → Inv p.shared q →
      P.Allows (q t) c → ∃ q', P.next (q t) c a = some q' ∧ Inv s (Function.update q t q'))
    {p p' : Pool M W} {ls : List (Label M W)} {q : M.Tid → σ} (hinv : Inv p.shared q)
    (hat : ∀ t, (p.thread t).At P q₀ (q t)) (hls : p.Throughout C ls)
    (hmenu : ∀ t j, .start t j ∈ ls → Menu j) (hrun : p.run ls = some p') :
    ∃ q', Inv p'.shared q' ∧ ∀ t, (p'.thread t).At P q₀ (q' t) := by
  simp only [Thread.at_iff_heading] at hat ⊢
  refine Pool.heading_run (fun s q _ => Inv s q) hjob hcmd ?_ hinv hat hls hmenu hrun
  -- The state at the end of a job is the one at the beginning of the next.
  intro t j r s q rs hinv hq
  rwa [← hq, Function.update_eq_self]

/-- **A run, by a protocol that considers every answer**: a thread that is about to issue a command
may do so. -/
theorem Pool.total_run
    (hjob : ∀ t j, Follows (.total Allows next) q₀ (W.body t j) fun _ q' => q' = q₀)
    (hcmd : ∀ {t ch c a s s' q}, M.exec t s c ch = some (a, s') → Inv s q → Allows (q t) c →
      Inv s' (Function.update q t (next (q t) c a)))
    {s : M.State} (hinv : Inv s fun _ => q₀) {p : Pool M W} {ls : List (Label M W)}
    (hrun : (Pool.initial s : Pool M W).run ls = some p) :
    ∃ q, Inv p.shared q ∧ (∀ t, p.thread t = .idle → q t = q₀) ∧
      ∀ {t j c k}, p.thread t = .running j (.call c k) → Allows (q t) c := by
  have hall : (Pool.initial s : Pool M W).Throughout (fun _ _ => True) ls :=
    Pool.throughout_of_forall fun _ _ => trivial
  have hidle : ∀ t, ((Pool.initial s : Pool M W).thread t).At (.total Allows next) q₀ q₀ :=
    fun _ => rfl
  have hmenu : ∀ t j, .start t j ∈ ls → True := fun _ _ _ => trivial
  obtain ⟨q, hq, hat⟩ := Pool.follows_run (fun t j _ => hjob t j)
    (fun _ _ hex hinv hallows => ⟨_, rfl, hcmd hex hinv hallows⟩) hinv hidle hall hmenu hrun
  refine ⟨q, hq, fun t ht => ?_, fun {t _ _ _} ht => ?_⟩
  · have hthread := hat t
    rwa [ht] at hthread
  · have hthread := hat t
    rw [ht] at hthread
    exact hthread.1

end Runs

end OpenvoxCa.Conc
