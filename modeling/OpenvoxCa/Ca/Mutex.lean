import OpenvoxCa.Ca.Locks

/-!
# The mutex of a replica

What the mutex `c.mu` gives the threads of a replica that respect it: it is released by its holder,
and the memory it guards is written by its holder only (`mutexAllowed`). Under a discipline that
implies this (`MutexRules`) the holder knows the memory of its replica (`Locked.stable_memory`), and
the mutex may be taken and given back around any body (`withMutex_triple`).
-/

namespace OpenvoxCa.Ca

open Conc

/-- The thread holds the mutex of its replica. -/
def Locked (t : Tid) (s : State) : Prop := s.mutex t.replica = some t

/-- The thread holds the mutex of its replica, and the locks `ns`. -/
def Busy (t : Tid) (ns : List LockName) (s : State) : Prop := Locked t s ∧ Held t ns s

/-- The locks held by a thread at a place of its program. -/
def Placed (t : Tid) (ns : List LockName) : Bool → State → Prop
  | true => Busy t ns
  | false => Held t ns

/-- When a thread may issue a command, as far as the mutex goes. -/
def mutexAllowed (t : Tid) : Cmd → State → Prop
  | .unlockMutex, s => Locked t s
  | .setMemory _, s => Locked t s
  | _, _ => True

variable {J α β : Type} {exec' : Tid → State → (c : Cmd) → Choice → Option (c.Ans × State)}
  {D : Discipline (machine.withExec exec') J} {t : Tid} {j : J} {A : State → Prop}

/-- **A discipline whose threads respect the mutex**, and which asks nothing for taking it, for
giving it back and for reading the memory. Its machine may be one that can do less. -/
class MutexRules (D : Discipline (machine.withExec exec') J) : Prop where
  exec_of : ∀ {t s c ch r}, exec' t s c ch = some r → exec t s c ch = some r
  allowed : ∀ {u i c s ch r}, D.Inv s → D.Allowed u i c s → exec' u s c ch = some r →
    mutexAllowed u c s
  lockMutex : ∀ {t j s}, D.Duty t j .lockMutex s
  unlockMutex : ∀ {t j s}, Locked t s → D.Duty t j .unlockMutex s
  getMemory : ∀ {t j s}, D.Duty t j .getMemory s

/-- **The holder of the mutex knows the memory of its replica.** -/
theorem Locked.stable_memory [MutexRules D] {m : Memory} : Stable D t fun s =>
    Locked t s ∧ s.memory t.replica = m := by
  rintro s s' ⟨hlocked, hm⟩ ⟨u, hne, i, c, ch, a, hinv, hall, hex⟩
  have hmutex : mutexAllowed u c s := MutexRules.allowed hinv hall hex
  have hother : s.mutex t.replica ≠ some u := by
    rw [hlocked]
    simpa using hne.symm
  cases exec_effect (MutexRules.exec_of (D := D) hex) with
  | lockMutex hfree =>
    refine ⟨(Function.update_of_ne ?_ _ _).trans hlocked, hm⟩
    rintro heq
    rw [← heq, hlocked] at hfree
    cases hfree
  | unlockMutex =>
    refine ⟨(Function.update_of_ne ?_ _ _).trans hlocked, hm⟩
    rintro heq
    rw [heq] at hother
    exact hother hmutex
  | setMemory =>
    refine ⟨hlocked, (Function.update_of_ne ?_ _ _).trans hm⟩
    rintro heq
    rw [heq] at hother
    exact hother hmutex
  | _ => exact ⟨hlocked, hm⟩

theorem Locked.stable [MutexRules D] : Stable D t (Locked t) :=
  fun _ _ hs hrely => (Locked.stable_memory ⟨hs, rfl⟩ hrely).1

/-- **Taking the mutex and giving it back.** -/
theorem withMutex_triple [MutexRules D] {Q : Except Failure α → State → Prop} {body : Prog α}
    (hst : Stable D t A) (hA : ∀ s x, A s → A { s with mutex := x })
    (hQst : ∀ r, Stable D t (Q r)) (hQ : ∀ r s x, Q r s → Q r { s with mutex := x })
    (hbody : Triple D t j (fun s => Locked t s ∧ A s) body fun r s => Locked t s ∧ Q r s) :
    Triple D t j A (withMutex body) Q := by
  refine Triple.between hst (fun _ _ _ => MutexRules.lockMutex) ?_ hbody
    (fun r => Locked.stable.and (hQst r)) (fun _ _ _ hs => MutexRules.unlockMutex hs.1) ?_ hQst
  · intro s ch a s' _ hs he
    have he := MutexRules.exec_of (D := D) he
    simp only [exec] at he
    split at he
    · cases he
      exact ⟨by simp [Locked], hA s _ hs⟩
    · cases he
  · intro r s ch a s' _ hs he
    obtain ⟨-, rfl⟩ := Prod.mk.inj (Option.some.inj (MutexRules.exec_of (D := D) he))
    exact hQ r s _ hs.2

/-- Reading the memory under the mutex. -/
theorem getMemory_bind [MutexRules D] {f : Memory → Prog β} {Q : Except Failure β → State → Prop}
    (hst : Stable D t A)
    (hf : ∀ m, Triple D t j (fun s => (Locked t s ∧ s.memory t.replica = m) ∧ A s) (f m) Q) :
    Triple D t j (fun s => Locked t s ∧ A s) ((cmd .getMemory).bind f) Q := by
  refine Triple.call (R := fun m s => (Locked t s ∧ s.memory t.replica = m) ∧ A s)
    (Locked.stable.and hst) (fun _ _ _ => MutexRules.getMemory) ?_ hf
  rintro s ch a s' - ⟨hlocked, hA⟩ he
  have he := MutexRules.exec_of (D := D) he
  simp only [exec] at he
  split at he
  · cases he
    exact ⟨⟨hlocked, rfl⟩, hA⟩
  · cases he

/-- Writing the memory under the mutex, from what is known of it. -/
theorem setMemory_triple [MutexRules D] {m new : Memory} {f : Unit → Prog β}
    {Q : Except Failure β → State → Prop} {B : State → Prop} (hst : Stable D t A)
    (hduty : ∀ s, D.Inv s → Locked t s → A s → s.memory t.replica = m →
      D.Duty t j (.setMemory new) s)
    (hB : ∀ s, D.Inv s → A s → s.memory t.replica = m →
      B { s with memory := Function.update s.memory t.replica new })
    (hf : Triple D t j (fun s => Locked t s ∧ B s) (f ()) Q) :
    Triple D t j (fun s => (Locked t s ∧ s.memory t.replica = m) ∧ A s)
      ((cmd (.setMemory new)).bind f) Q := by
  refine Triple.call (R := fun _ s => Locked t s ∧ B s) (Locked.stable_memory.and hst) ?_ ?_
    fun _ => hf
  · rintro s hinv ⟨⟨hlocked, hm⟩, hA⟩
    exact hduty s hinv hlocked hA hm
  · rintro s ch a s' hinv ⟨⟨hlocked, hm⟩, hA⟩ he
    obtain ⟨-, rfl⟩ := Prod.mk.inj (Option.some.inj (MutexRules.exec_of (D := D) he))
    exact ⟨hlocked, hB s hinv hA hm⟩

/-- Replacing the memory under the mutex by a function of what it is. -/
theorem modifyMemory_triple [MutexRules D] {f : Memory → Memory} {B : State → Prop}
    (hst : Stable D t A) (hBst : Stable D t B)
    (hduty : ∀ s, D.Inv s → Locked t s → A s →
      D.Duty t j (.setMemory (f (s.memory t.replica))) s)
    (hB : ∀ s, D.Inv s → A s →
      B { s with memory := Function.update s.memory t.replica (f (s.memory t.replica)) }) :
    Triple D t j (fun s => Locked t s ∧ A s) (modifyMemory f) fun _ s => Locked t s ∧ B s := by
  refine getMemory_bind hst fun m => setMemory_triple (f := Prog.ret) hst ?_ ?_
    (Keeps.ret (Locked.stable.and hBst))
  · rintro s hinv hlocked hA rfl
    exact hduty s hinv hlocked hA
  · rintro s hinv hA rfl
    exact hB s hinv hA

end OpenvoxCa.Ca
