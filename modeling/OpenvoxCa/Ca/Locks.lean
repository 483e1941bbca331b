import OpenvoxCa.Ca.Crl
import OpenvoxCa.Conc.Discipline

/-!
# Locks

What the cluster locks give the threads that respect them, whatever else those threads are up to.
`lockAllowed` is the respect: a lock is released by its holder, and the CRL chain, the list of
superseded certificates and the inventory's pruning are left to the holder of the CRL lock. A
discipline that implies it satisfies `LockRules`, and then

* a thread knows which locks it holds (`LockRules.held_stable`);
* a lock may be taken and given back around any body
  (`LockRules.withLock_spec`).

Where it asks for no more than that (`QuietRules`), programs of *quiet* commands, those that touch
neither the locks nor what the CRL lock protects, keep every assertion about these
(`QuietRules.quiet_spec`).
-/

namespace OpenvoxCa.Ca

open Conc

variable {t u : Tid} {c : Cmd} {s s' : State} {ns : List LockName}

/-! ### Respecting the locks -/

/-- When a thread may issue a command: what the CRL lock protects is changed by its
holder, and a lock is released by its holder. -/
def lockAllowed (t : Tid) : Cmd → State → Prop
  | .unlock n, s => s.owner n = some t
  | .updateCRL _, s => s.owner .crl = some t
  | .saveSuperseded _, s => s.owner .crl = some t
  | .pruneInventory _, s => s.owner .crl = some t
  | _, _ => True

/-- The cluster locks thread `t` holds are exactly those in `ns`. -/
def Held (t : Tid) (ns : List LockName) (s : State) : Prop := ∀ n, s.owner n = some t ↔ n ∈ ns

/-- A step of another thread takes no lock from `t` and gives it none. -/
theorem Held.of_effect (hs : Held t ns s) (hne : u ≠ t) (hall : lockAllowed u c s)
    (he : Effect u s c s') : Held t ns s' := by
  intro n
  rw [← hs n]
  have hset : ∀ m o, s.owner m ≠ some t → o ≠ some t →
      ((s.setOwner m o).owner n = some t ↔ s.owner n = some t) := by
    intro m o hm ho
    rcases eq_or_ne n m with rfl | hnm
    · simp [State.setOwner, hm, ho]
    · simp [State.setOwner, Function.update_of_ne hnm]
  cases he with
  | lock hfree => exact hset _ _ (by simp [hfree]) (by simpa using hne)
  | unlock =>
    have hown : s.owner _ = some u := hall
    exact hset _ _ (by simpa [hown] using hne) (by simp)
  | _ => exact Iff.rfl

variable {n : LockName}

theorem Held.lock (hs : Held t ns s) : Held t (n :: ns) (s.setOwner n (some t)) := by
  intro m
  rcases eq_or_ne m n with rfl | hne
  · simp [State.setOwner]
  · simpa [State.setOwner, Function.update_of_ne hne, hne] using hs m

theorem Held.unlock (hn : n ∉ ns) (hs : Held t (n :: ns) s) : Held t ns (s.setOwner n none) := by
  intro m
  rcases eq_or_ne m n with rfl | hne
  · simpa [State.setOwner] using hn
  · have := hs m
    simpa [State.setOwner, Function.update_of_ne hne, hne] using this

/-! ### The history -/

/-- The history never runs ahead of itself. -/
def HistoryOk (s : State) : Prop :=
  s.holdStart ≤ s.pruneLog.length ∧ ∀ t, s.savedAt t ≤ s.pruneLog.length

theorem HistoryOk.effect (h : HistoryOk s) (he : Effect t s c s') : HistoryOk s' := by
  obtain ⟨hhold, hsaved⟩ := h
  cases he with
  | lock | unlock =>
    refine ⟨?_, hsaved⟩
    simp only [State.setOwner]
    split <;> [exact le_rfl; exact hhold]
  | saveSuperseded =>
    refine ⟨hhold, fun u => ?_⟩
    rcases eq_or_ne u t with rfl | hne
    · simp [State.setSuperseded]
    · simpa [State.setSuperseded, Function.update_of_ne hne] using hsaved u
  | pruneInventory ch =>
    exact ⟨by simp; omega, fun u => by have := hsaved u; simp; omega⟩
  | _ => exact ⟨hhold, hsaved⟩

/-! ### Commands that leave all of it alone -/

/-- The commands that touch neither the cluster locks, nor the chain, nor the list, nor
the prune log. -/
def Cmd.Quiet : Cmd → Prop
  | .lock _ => False
  | .unlock _ => False
  | .updateCRL _ => False
  | .saveSuperseded _ => False
  | .pruneInventory _ => False
  | _ => True

/-- The quiet commands that append to the inventory only entries whose serial is a number. -/
def Cmd.Benign : Cmd → Prop
  | .appendInventory e => (setString16 e.serial).isSome
  | c => c.Quiet

/-- The states agree in all of that. -/
structure SameCRL (s s' : State) : Prop where
  owner : s'.owner = s.owner
  crl : s'.crl = s.crl
  superseded : s'.superseded = s.superseded
  pruneLog : s'.pruneLog = s.pruneLog
  holdStart : s'.holdStart = s.holdStart
  saved : s'.saved = s.saved
  crlWriters : s'.crlWriters = s.crlWriters

/-- **Quiet commands leave all of it alone.** -/
theorem Cmd.Quiet.sameCRL (hq : c.Quiet) (he : Effect t s c s') : SameCRL s s' := by
  cases he with
  | lock | unlock | updateCRL | saveSuperseded | pruneInventory => exact hq.elim
  | _ => exact ⟨rfl, rfl, rfl, rfl, rfl, rfl, rfl⟩

/-- An assertion about nothing else. -/
def AboutCRL (P : State → Prop) : Prop := ∀ s s', SameCRL s s' → P s → P s'

theorem aboutCRL_held (ns : List LockName) : AboutCRL (Held t ns) := by
  intro s s' h hs n
  rw [h.owner]
  exact hs n

theorem AboutCRL.exists {ι : Type} {P : ι → State → Prop} (h : ∀ i, AboutCRL (P i)) :
    AboutCRL fun s => ∃ i, P i s := by
  rintro s s' hss ⟨i, hi⟩
  exact ⟨i, h i s s' hss hi⟩

variable {P : State → Prop}

theorem AboutCRL.const_and {φ : Prop} (h : AboutCRL P) : AboutCRL fun s => φ ∧ P s :=
  fun s s' hss hs => ⟨hs.1, h s s' hss hs.2⟩

/-- An assertion that the quiet commands of `t` keep. -/
def KeptByQuiet (t : Tid) (P : State → Prop) : Prop :=
  ∀ ⦃c s s'⦄, c.Quiet → Effect t s c s' → P s → P s'

theorem AboutCRL.keptByQuiet (h : AboutCRL P) : KeptByQuiet t P :=
  fun _ s s' hq he => h s s' (hq.sameCRL he)

theorem KeptByQuiet.and {Q : State → Prop} (hP : KeptByQuiet t P) (hQ : KeptByQuiet t Q) :
    KeptByQuiet t fun s => P s ∧ Q s :=
  fun _ _ _ hq he hs => ⟨hP hq he hs.1, hQ hq he hs.2⟩

/-- The commands that leave the replica's memory and its mutex alone besides, and issue
nothing. -/
def Cmd.Calm : Cmd → Prop
  | .lock _ => False
  | .unlock _ => False
  | .lockMutex => False
  | .unlockMutex => False
  | .setMemory _ => False
  | .createCertificate _ => False
  | .updateCRL _ => False
  | .saveSuperseded _ => False
  | .saveCert _ _ => False
  | .appendInventory _ => False
  | .pruneInventory _ => False
  | _ => True

/-- The commands that only ask: storage, the clock, the signer of revocation lists, the
replica's memory. -/
def Cmd.Reads : Cmd → Prop
  | .getMemory => True
  | .now => True
  | .randomSerial => True
  | .readChainFile => True
  | .createRevocationList _ => True
  | .getCRL => True
  | .getSuperseded => True
  | .hasCACert => True
  | .getCACert => True
  | .certExists _ => True
  | .getCert _ => True
  | .csrExists _ => True
  | .getCSR _ => True
  | .serialExists _ => True
  | .subjectForSerial _ => True
  | .latestSerialForSubject _ => True
  | .hasSerial => True
  | _ => False

/-- The commands that leave the cluster's storage and its locks alone: they ask, or concern
the replica's own memory. -/
def Cmd.Local : Cmd → Prop
  | .lockMutex => True
  | .unlockMutex => True
  | .setMemory _ => True
  | .createCertificate _ => True
  | c => c.Reads

theorem Cmd.Reads.calm (h : c.Reads) : c.Calm := by
  cases c <;> first | exact h.elim | trivial

theorem Cmd.Reads.local (h : c.Reads) : c.Local := by
  cases c <;> first | exact h.elim | trivial

theorem Cmd.Local.quiet (h : c.Local) : c.Quiet := by
  cases c <;> first | exact h.elim | trivial

theorem Cmd.Local.benign (h : c.Local) : c.Benign := by
  cases c <;> first | exact h.elim | trivial

theorem Cmd.Benign.quiet (h : c.Benign) : c.Quiet := by
  cases c <;> first | exact h | trivial

section Always

variable {α ε : Type} {p : Conc.Prog interface ε α} {R : Except ε α → Prop}

theorem always_calm (h : p.Always Cmd.Reads R) : p.Always Cmd.Calm R :=
  Prog.always_imp h fun _ => Cmd.Reads.calm

theorem always_local (h : p.Always Cmd.Reads R) : p.Always Cmd.Local R :=
  Prog.always_imp h fun _ => Cmd.Reads.local

theorem always_quiet (h : p.Always Cmd.Local R) : p.Always Cmd.Quiet R :=
  Prog.always_imp h fun _ => Cmd.Local.quiet

theorem always_benign (h : p.Always Cmd.Local R) : p.Always Cmd.Benign R :=
  Prog.always_imp h fun _ => Cmd.Local.benign

end Always

section Only

variable {C : Cmd → Prop}

theorem only_cmd (h : C c) : (cmd c).Only C := ⟨h, fun _ => trivial⟩

theorem only_ask {α : Type} {p : Prog (Except Failure α)} (h : p.Only C) : (ask p).Only C :=
  Prog.only_bind h Prog.only_ofExcept

end Only

/-! ### Rules -/

section Rules

variable {J α β ε : Type}
  {exec' : Tid → State → (c : Cmd) → Choice → Option (c.Ans × State)}
  {D : Discipline (machine.withExec exec') J} {j : J}

/-- Where everybody respects the locks, a thread knows which ones it holds. -/
theorem Held.stable_of_allowed
    (hexec : ∀ {t s c ch r}, exec' t s c ch = some r → exec t s c ch = some r)
    (hD : ∀ {u i c s}, D.Inv s → D.Allowed u i c s → lockAllowed u c s) (ns : List LockName) :
    Stable D t (Held t ns) := by
  rintro s s' hs ⟨u, hne, i, c, ch, a, hinv, hall, hex⟩
  exact hs.of_effect hne (hD hinv hall) (exec_effect (hexec hex))

/-- **A discipline whose threads respect the locks**, and which asks nothing of job `j` of
thread `t` for taking and releasing them. Its machine may be one that can do less. -/
structure LockRules (D : Discipline (machine.withExec exec') J) (t : Tid) (j : J) : Prop where
  exec : ∀ {t s c ch r}, exec' t s c ch = some r → exec t s c ch = some r
  allowed : ∀ {u i c s}, D.Inv s → D.Allowed u i c s → lockAllowed u c s
  lock : ∀ {n s}, D.Duty t j (.lock n) s
  unlock : ∀ {n s}, s.owner n = some t → D.Duty t j (.unlock n) s

/-- The same, where nothing is asked for quiet commands either. -/
structure QuietRules (D : Discipline (machine.withExec exec') J) (t : Tid) (j : J) : Prop
    extends LockRules D t j where
  quiet : ∀ {c s}, c.Quiet → D.Duty t j c s

variable {Q : Except Failure α → State → Prop} {body : Prog α}

/-- Taking a lock and giving it back, where what has to be shown for giving it back is up to
the body: it leaves `P`, and what remains of it without the lock is `Q`. -/
theorem withLock_triple
    (hexec : ∀ {t s c ch r}, exec' t s c ch = some r → exec t s c ch = some r)
    (hheld : ∀ ns, Stable D t (Held t ns)) {B A : State → Prop}
    {P : Except Failure α → State → Prop} (hn : n ∉ ns) (hst : Stable D t B)
    (hlock : ∀ s, D.Duty t j (.lock n) s)
    (hA : ∀ s, D.Inv s → D.Known t j (.lock n) s → B s → Held t (n :: ns) (s.setOwner n (some t)) →
      A (s.setOwner n (some t)))
    (hbody : Triple D t j A body fun r s => Held t (n :: ns) s ∧ P r s)
    (hPst : ∀ r, Stable D t (P r))
    (hduty : ∀ r s, D.Inv s → Held t (n :: ns) s → P r s → D.Duty t j (.unlock n) s)
    (hunlock : ∀ r s, D.Inv s → P r s → Q r (s.setOwner n none))
    (hQst : ∀ r, Stable D t (Q r)) (hfail : ∀ s, B s → Q (.error .lock) s) :
    Triple D t j (fun s => Held t ns s ∧ B s) (withLock n body) fun r s => Held t ns s ∧ Q r s := by
  refine Triple.call_known (R := fun a s => match a with
    | .ok _ => A s
    | .error e => e = .lock ∧ Held t ns s ∧ B s) ((hheld ns).and hst)
    (fun s _ _ _ => hlock s) ?_ ?_
  · rintro s ch a s' hinv hkn ⟨hs, hb⟩ he
    have he := hexec he
    simp only [Ca.exec] at he
    split at he
    · cases he
      exact ⟨rfl, hs, hb⟩
    · split at he
      · cases he
        exact hA s hinv hkn hb hs.lock
      · cases he
  · rintro (e | _)
    · refine Triple.fail ((Stable.const _).and ((hheld ns).and hst)) ?_
      rintro s - ⟨rfl, hs, hb⟩
      exact ⟨hs, hfail s hb⟩
    · refine Triple.attempt_bind hbody fun r => ?_
      refine Triple.call (R := fun _ s => Held t ns s ∧ Q r s)
        ((hheld (n :: ns)).and (hPst r)) (fun s hinv hs => hduty r s hinv hs.1 hs.2) ?_ fun _ =>
        Triple.ofExcept ((hheld ns).and (hQst r)) fun s _ hs => hs
      rintro s ch a s' hinv ⟨hheld, hq⟩ he
      obtain ⟨-, rfl⟩ := Prod.mk.inj (Option.some.inj (hexec he))
      exact ⟨hheld.unlock hn, hunlock r s hinv hq⟩

namespace LockRules

theorem held_stable (h : LockRules D t j) (ns : List LockName) : Stable D t (Held t ns) :=
  Held.stable_of_allowed h.exec h.allowed ns

/-- `x509.CreateRevocationList`, followed by anything: what is signed is the template. -/
theorem createRevocationList_bind (h : LockRules D t j) (hst : Stable D t P)
    {template : RevocationList} (hduty : ∀ s, D.Duty t j (.createRevocationList template) s)
    {f : RevocationList → Prog β} {Q : Except Failure β → State → Prop}
    (herr : ∀ e s, P s → Q (.error e) s)
    (hf : ∀ crl : RevocationList, crl.number = template.number → crl.entries = template.entries →
      crl.signedBy = template.signedBy → Triple D t j P (f crl) Q) :
    Triple D t j P ((ask (cmd (.createRevocationList template))).bind f) Q := by
  refine Triple.call (R := fun a s => (∀ crl, a = .ok crl →
    ∃ sig, crl = { template with signature := sig }) ∧ P s) hst (fun s _ _ => hduty s) ?_ ?_
  · intro s ch a s' _ hs he
    obtain ⟨rfl, rfl⟩ := Prod.mk.inj (Option.some.inj (h.exec he))
    refine ⟨fun crl h => ?_, hs⟩
    split at h
    · cases h
    · exact ⟨ch.number, (Except.ok.inj h).symm⟩
  · refine fun a => Triple.pure_pre fun ha => ?_
    cases a with
    | error e => exact Triple.fail hst fun s _ hs => herr e s hs
    | ok crl =>
      obtain ⟨sig, rfl⟩ := ha crl rfl
      exact hf _ rfl rfl rfl

/-- **Taking a lock and giving it back.** What the body may assume is whatever follows
from the lock having been free. -/
theorem withLock_spec (h : LockRules D t j) {B A : State → Prop} (hn : n ∉ ns) (hst : Stable D t B)
    (hA : ∀ s, D.Inv s → B s → Held t (n :: ns) (s.setOwner n (some t)) → A (s.setOwner n (some t)))
    (hbody : Triple D t j A body fun r s => Held t (n :: ns) s ∧ Q r s)
    (hQst : ∀ r, Stable D t (Q r)) (hunlock : ∀ r s, D.Inv s → Q r s → Q r (s.setOwner n none))
    (hfail : ∀ s, B s → Q (.error .lock) s) :
    Triple D t j (fun s => Held t ns s ∧ B s) (withLock n body) fun r s => Held t ns s ∧ Q r s :=
  withLock_triple h.exec h.held_stable hn hst (fun _ => h.lock) (fun s hinv _ => hA s hinv) hbody
    hQst (fun _ _ _ hs _ => h.unlock ((hs n).mpr List.mem_cons_self)) hunlock hQst hfail

/-- A section under a lock that is about nothing else. -/
theorem withLock_keeps (h : LockRules D t j) (hn : n ∉ ns)
    (hbody : Keeps D t j (Held t (n :: ns)) body) : Keeps D t j (Held t ns) (withLock n body) :=
  (h.withLock_spec (A := Held t (n :: ns)) (B := fun _ => True) (Q := fun _ _ => True) hn
    (Stable.const _) (fun _ _ _ hs => hs)
    (hbody.weaken fun _ _ _ hs => ⟨hs, trivial⟩) (fun _ => Stable.const _)
    (fun _ _ _ _ => trivial) fun _ _ => trivial).conseq (fun _ hs => ⟨hs, trivial⟩)
    fun _ _ _ hs => hs.1

end LockRules

namespace QuietRules

/-- **A program of quiet commands** keeps every stable assertion about the CRL. -/
theorem quiet_spec (h : QuietRules D t j) (hst : Stable D t P) (hP : KeptByQuiet t P)
    {p : Conc.Prog interface ε α} {R : Except ε α → Prop} (hp : p.Always Cmd.Quiet R) :
    Triple D t j P p fun r s => R r ∧ P s :=
  Triple.of_always hst (fun _ hc _ _ _ => h.quiet hc)
    (fun _ hc _ _ _ _ hs he => hP hc (exec_effect (h.exec he)) hs) hp

/-- A quiet program, followed by anything. -/
theorem quiet_bind (h : QuietRules D t j) (hst : Stable D t P) (hP : KeptByQuiet t P) {p : Prog α}
    {R : Except Failure α → Prop} (hp : p.Always Cmd.Quiet R) {f : α → Prog β}
    {Q : Except Failure β → State → Prop} (herr : ∀ e s, R (.error e) → P s → Q (.error e) s)
    (hf : ∀ a, R (.ok a) → Triple D t j P (f a) Q) : Triple D t j P (p.bind f) Q :=
  (h.quiet_spec hst hP hp).seq (fun e s hr => herr e s hr.1 hr.2) fun a => Triple.pure_pre (hf a)

/-- A quiet command, followed by anything. -/
theorem quiet_cmd_bind (h : QuietRules D t j) (hst : Stable D t P) (hP : KeptByQuiet t P)
    (hc : c.Quiet) {f : c.Ans → Prog β} {Q : Except Failure β → State → Prop}
    (hf : ∀ a, Triple D t j P (f a) Q) : Triple D t j P ((cmd c).bind f) Q :=
  Triple.call hst (fun _ _ _ => h.quiet hc)
    (fun _ _ _ _ _ hs he => hP hc (exec_effect (h.exec he)) hs) hf

/-- **The mutex of a replica is of no concern to the CRL.** -/
theorem withMutex_spec (h : QuietRules D t j) (hst : Stable D t P) (hP : KeptByQuiet t P)
    (hQst : ∀ r, Stable D t (Q r)) (hQ : ∀ r, KeptByQuiet t (Q r)) (hbody : Triple D t j P body Q) :
    Triple D t j P (withMutex body) Q := by
  refine h.quiet_cmd_bind hst hP (c := .lockMutex) trivial fun _ =>
    Triple.attempt_bind hbody fun r => ?_
  refine h.quiet_cmd_bind (hQst r) (hQ r) (c := .unlockMutex) trivial fun _ => ?_
  exact Triple.ofExcept (hQst r) fun s _ hs => hs

end QuietRules

end Rules

end OpenvoxCa.Ca
