import OpenvoxCa.Conc.Protocol
import Mathlib.Data.List.Nodup

/-!
# The handshake between the frontend and the signer

The two processes that share the work of a CA hold one key, and `signer.go` has each of them prove
to the other that it does, before anything is signed. The signer draws a nonce and sends it, the
frontend draws another and sends it with a code over both, the signer answers with a code over both
under another label. What is proved here is what each end may conclude when it has finished.

The connection belongs to an attacker: whatever an end reads is what the attacker likes it to read
(`Choice`), so messages can be seen, dropped, replayed, reflected and made up at will, over any
number of connections at a time. There is one thing the attacker cannot do. A code that an end
accepts is the code of some input, and an honest end has handed out the code of that input before; a
run in which this fails ends there. This is what it means that the code is ideal, and no more is
asked of it: `mac` is any function. That nonces are fresh means that none is drawn twice.

An input is a label followed by two nonces, as one string of bytes. The nonces have a fixed length
and the labels have different ones, so the string says which label and which nonces it was made from
(`proofInput_injective`); this is where reflection and replay fail.
-/

namespace OpenvoxCa.Signer

open Conc (Follows Protocol Pool)

/-! ### Bytes -/

abbrev Bytes := List UInt8

/-- So many bytes. -/
abbrev Block (n : ℕ) := { bs : Bytes // bs.length = n }

/-- A block cut in two. -/
def Block.split {m n : ℕ} (b : Block (m + n)) : Block m × Block n :=
  (⟨b.1.take m, by rw [List.length_take, b.2]; omega⟩,
    ⟨b.1.drop m, by rw [List.length_drop, b.2]; omega⟩)

def nonceLen : ℕ := 32

/-- `sha256.Size`. -/
def macLen : ℕ := 32

abbrev Nonce := Block nonceLen

/-- The end of a handshake: the signer is the server, the frontend the client. -/
inductive Role
  | server | client
  deriving DecidableEq, Repr

/-- The other end. -/
def Role.opposite : Role → Role
  | .server => .client
  | .client => .server

def frontendProofLabel : Bytes :=
  ['o', 'p', 'e', 'n', 'v', 'o', 'x', '-', 'c', 'a', ' ', 'f', 'r', 'o', 'n', 't', 'e', 'n',
    'd'].map Char.toUInt8

def signerProofLabel : Bytes :=
  ['o', 'p', 'e', 'n', 'v', 'o', 'x', '-', 'c', 'a', ' ', 's', 'i', 'g', 'n', 'e',
    'r'].map Char.toUInt8

/-- The label of an end's own proof. -/
def Role.label : Role → Bytes
  | .server => signerProofLabel
  | .client => frontendProofLabel

/-- **A session that has both nonces**: which end it is, and the nonces. -/
structure Session where
  role : Role
  serverNonce : Nonce
  clientNonce : Nonce
  deriving DecidableEq

/-- The nonce that the session has drawn itself. -/
def Session.own (σ : Session) : Nonce :=
  match σ.role with
  | .server => σ.serverNonce
  | .client => σ.clientNonce

/-- What the session at the other end of the same handshake would look like. -/
def Session.opposite (σ : Session) : Session := { σ with role := σ.role.opposite }

/-- What `handshakeProof` computes the code of, for a session's own proof. -/
def Session.proofInput (σ : Session) : Bytes :=
  σ.role.label ++ σ.serverNonce.1 ++ σ.clientNonce.1

/-- **The input says which session it belongs to.** -/
theorem proofInput_injective : Function.Injective Session.proofInput := by
  rintro ⟨role, sn, cn⟩ ⟨role', sn', cn'⟩ heq
  simp only [Session.proofInput] at heq
  have hlen := congrArg List.length heq
  simp only [List.length_append, sn.2, sn'.2, cn.2, cn'.2] at hlen
  have hrole : role = role' := by
    have hserver : signerProofLabel.length = 17 := by decide
    have hclient : frontendProofLabel.length = 19 := by decide
    cases role <;> cases role' <;> simp_all [Role.label]
  subst hrole
  obtain ⟨hleft, hcn⟩ := List.append_inj' heq (cn.2.trans cn'.2.symm)
  have hsn := (List.append_inj' hleft (sn.2.trans sn'.2.symm)).2
  rw [Subtype.ext hsn, Subtype.ext hcn]

/-! ### What an end may ask for -/

/-- The ways in which a handshake fails. -/
inductive Failure
  /-- The source of randomness fails. -/
  | nonce
  /-- The connection fails, or is closed. -/
  | conn
  /-- `PSK authentication failed`. -/
  | mismatch
  deriving DecidableEq, Repr

/-- What an end asks of its surroundings. -/
inductive Cmd
  /-- `rand.Read`, for a nonce. -/
  | rand
  | write (bs : Bytes)
  | readFull (n : ℕ)
  /-- `handshakeProof`, to send the code. -/
  | prove (σ : Session)
  /-- `hmac.Equal` of what was read and the `handshakeProof` of the session `σ`, by its opposite. -/
  | verify (σ : Session) (proof : Bytes)

def Cmd.Ans : Cmd → Type
  | .rand => Except Failure Nonce
  | .write _ => Except Failure Unit
  | .readFull n => Except Failure (Block n)
  | .prove _ => Block macLen
  | .verify _ _ => Bool

def interface : Conc.Interface where
  Cmd := Cmd
  Ans := Cmd.Ans

abbrev Prog (α : Type) := Conc.Prog interface Failure α

def cmd (c : Cmd) : Prog c.Ans := Conc.Prog.cmd (I := interface) c

/-- One command that may fail. -/
def ask {α : Type} (p : Prog (Except Failure α)) : Prog α := p.orFail

/-- **`serverHandshake`.** It returns the session, which the source forgets. -/
def serverHandshake : Prog Session := do
  let serverNonce ← ask (cmd .rand)
  ask (cmd (.write serverNonce.1))
  let buf ← ask (cmd (.readFull (nonceLen + macLen)))
  let clientNonce := buf.split.1
  let clientProof := buf.split.2
  let equal : Bool ← cmd (.verify ⟨.client, serverNonce, clientNonce⟩ clientProof.1)
  if equal then do
    let proof ← cmd (.prove ⟨.server, serverNonce, clientNonce⟩)
    ask (cmd (.write proof.1))
    return ⟨.server, serverNonce, clientNonce⟩
  else .fail .mismatch

def clientHandshake : Prog Session := do
  let serverNonce ← ask (cmd (.readFull nonceLen))
  let clientNonce ← ask (cmd .rand)
  let proof ← cmd (.prove ⟨.client, serverNonce, clientNonce⟩)
  ask (cmd (.write (clientNonce.1 ++ proof.1)))
  let serverProof ← ask (cmd (.readFull macLen))
  let equal : Bool ← cmd (.verify ⟨.server, serverNonce, clientNonce⟩ serverProof.1)
  if equal then
    return ⟨.client, serverNonce, clientNonce⟩
  else .fail .mismatch

/-! ### What the surroundings do -/

/-- What is remembered of all handshakes. Nobody looks at it, except to find out what cannot
happen. -/
structure State where
  /-- The nonces that have been drawn. -/
  drawn : List Nonce := []
  /-- The sessions that have had both nonces. -/
  sessions : List Session := []
  /-- The inputs whose codes have been handed out. -/
  proved : List Bytes := []
  deriving DecidableEq

/-- **What the attacker decides**, or chance: whether an operation fails, what is read, and which
nonce is drawn. -/
structure Choice where
  fails : Bool := false
  bytes : Bytes := []
  deriving DecidableEq

variable (mac : Bytes → Block macLen)

/-- **What a command does.** The session of a server has both nonces when it comes to verify a
proof, that of a client when it comes to prove. -/
def exec (s : State) : (c : Cmd) → Choice → Option (c.Ans × State)
  | .rand, ch =>
    if ch.fails then some (.error .nonce, s)
    else if h : ch.bytes.length = nonceLen then
      if ⟨ch.bytes, h⟩ ∈ s.drawn then none
      else some (.ok ⟨ch.bytes, h⟩, { s with drawn := ⟨ch.bytes, h⟩ :: s.drawn })
    else none
  | .write _, ch => some (if ch.fails then .error .conn else .ok (), s)
  | .readFull n, ch =>
    if ch.fails then some (.error .conn, s)
    else if h : ch.bytes.length = n then some (.ok ⟨ch.bytes, h⟩, s)
    else none
  | .prove σ, _ =>
    some (mac σ.proofInput,
      { s with
        sessions := if σ.role = .client then σ :: s.sessions else s.sessions
        proved := σ.proofInput :: s.proved })
  | .verify σ proof, _ =>
    if proof = (mac σ.proofInput).1 ∧ σ.proofInput ∉ s.proved then none
    else some (decide (proof = (mac σ.proofInput).1),
      { s with
        sessions := if σ.role = .client then σ.opposite :: s.sessions else s.sessions })

/-- The machine: any number of threads, each at one end. -/
def machine : Conc.Machine interface where
  State := State
  Tid := ℕ
  Choice := Choice
  exec := fun _ s c ch => exec mac s c ch

instance : DecidableEq (machine mac).Tid := inferInstanceAs (DecidableEq ℕ)

/-- The handshakes, one after the other on each thread. -/
def workload : Conc.Workload interface ℕ where
  Job := Role
  Err := Failure
  Res := Session
  body := fun _ role => match role with
    | .server => serverHandshake
    | .client => clientHandshake

/-! ### The phases of an end -/

/-- How far an end has come: it has drawn its nonce, or it has both nonces, and then it has or has
not seen the proof of the other end. -/
inductive Phase
  | idle
  | drew (n : Nonce)
  | has (σ : Session) (matched : Bool)

/-- The nonce that an end has drawn. -/
def Phase.own : Phase → Option Nonce
  | .idle => none
  | .drew n => some n
  | .has σ _ => some σ.own

/-- The protocol that both ends follow. -/
def protocol : Protocol interface Phase where
  Allows := fun q (c : Cmd) => match c with
    | .rand => q = .idle
    | .write _ => True
    | .readFull _ => True
    | .prove σ => match σ.role with
      | .client => q = .drew σ.clientNonce
      | .server => q = .has σ true
    | .verify σ _ => match σ.role with
      | .client => q = .drew σ.serverNonce
      | .server => q = .has σ.opposite false
  next := fun q (c : Cmd) => match c with
    | .rand => fun (a : Except Failure Nonce) => match a with
      | .ok n => some (.drew n)
      | .error _ => some q
    | .write _ => fun _ => some q
    | .readFull _ => fun _ => some q
    | .prove σ => fun _ => match σ.role with
      | .client => some (.has σ false)
      | .server => some q
    | .verify σ _ => fun (a : Bool) => some (.has σ.opposite a)

/-- **A handshake that is completed has seen the proof of the other end.** -/
def Completes (role : Role) (r : Except Failure Session) (q : Phase) : Prop :=
  ∀ σ, r = .ok σ → σ.role = role ∧ q = .has σ true

variable {role : Role} {σ : Session}

theorem completes_error (e : Failure) (q : Phase) : Completes role (.error e) q :=
  fun _ h => nomatch h

/-- A command that may fail, and what comes after it if it does not. -/
theorem follows_ask {q : Phase} {α : Type} {p : Prog (Except Failure α)}
    {f : α → Prog Session}
    (h : Follows protocol q p fun r q' => ∀ a, r = .ok (.ok a) →
      Follows protocol q' (f a) (Completes role)) :
    Follows protocol q ((ask p).bind f) (Completes role) := by
  refine Follows.bind (Follows.bind (h.mono fun r q' hr => ?_))
  rcases r with e | (e | a)
  · exact completes_error e q'
  · exact completes_error e q'
  · exact hr a rfl

/-- Writing and reading take an end nowhere. -/
theorem follows_write {q : Phase} {bs : Bytes} {f : Unit → Prog Session}
    (h : Follows protocol q (f ()) (Completes role)) :
    Follows protocol q ((ask (cmd (.write bs))).bind f) (Completes role) := by
  refine follows_ask ⟨trivial, fun a q' hq' => ?_⟩
  obtain rfl := Option.some.inj hq'
  exact fun _ _ => h

theorem follows_readFull {q : Phase} {n : ℕ} {f : Block n → Prog Session}
    (h : ∀ b, Follows protocol q (f b) (Completes role)) :
    Follows protocol q ((ask (cmd (.readFull n))).bind f) (Completes role) := by
  refine follows_ask ⟨trivial, fun a q' hq' => ?_⟩
  obtain rfl := Option.some.inj hq'
  exact fun b _ => h b

theorem follows_rand {f : Nonce → Prog Session}
    (h : ∀ n, Follows protocol (.drew n) (f n) (Completes role)) :
    Follows protocol .idle ((ask (cmd .rand)).bind f) (Completes role) := by
  refine follows_ask ⟨rfl, fun a q' hq' n ha => ?_⟩
  obtain rfl : a = .ok n := Except.ok.inj ha
  obtain rfl := Option.some.inj hq'
  exact h n

theorem follows_serverHandshake :
    Follows protocol .idle serverHandshake (Completes .server) := by
  refine follows_rand fun serverNonce => follows_write (follows_readFull fun buf => ?_)
  refine ⟨rfl, fun equal q' hq' => ?_⟩
  obtain rfl := Option.some.inj hq'
  cases equal with
  | false => exact completes_error _ _
  | true =>
    refine ⟨rfl, fun proof q' hq' => ?_⟩
    obtain rfl := Option.some.inj hq'
    refine follows_write fun σ hσ => ?_
    obtain rfl := Except.ok.inj hσ
    exact ⟨rfl, rfl⟩

theorem follows_clientHandshake :
    Follows protocol .idle clientHandshake (Completes .client) := by
  refine follows_readFull fun serverNonce => follows_rand fun clientNonce => ?_
  refine ⟨rfl, fun proof q' hq' => ?_⟩
  obtain rfl := Option.some.inj hq'
  refine follows_write (follows_readFull fun serverProof => ?_)
  refine ⟨rfl, fun equal q' hq' => ?_⟩
  obtain rfl := Option.some.inj hq'
  cases equal with
  | false => exact completes_error _ _
  | true =>
    intro σ hσ
    obtain rfl := Except.ok.inj hσ
    exact ⟨rfl, rfl⟩

/-! ### What holds of all of them together -/

/-- The sessions that have been completed. -/
def completed (rs : List (Conc.Report (machine mac) workload)) : List Session :=
  rs.filterMap fun x => x.outcome.toOption

/-- **The invariant.** Every nonce belongs to one end, for good: it is in the hands of the thread
that has drawn it, and then of one session. Codes are handed out by sessions, and who has seen the
proof of the other end knows that there is a session there. -/
structure Inv (s : State) (q : ℕ → Phase) (done : List Session) : Prop where
  nodup : (s.sessions.map Session.own).Nodup
  drawn : ∀ σ ∈ s.sessions, σ.own ∈ s.drawn
  drew : ∀ {t n}, q t = .drew n → n ∈ s.drawn ∧ n ∉ s.sessions.map Session.own
  has : ∀ {t σ b}, q t = .has σ b → σ ∈ s.sessions ∧ σ ∉ done
  matched : ∀ {t σ}, q t = .has σ true → σ.opposite ∈ s.sessions
  apart : ∀ {t u n}, (q t).own = some n → (q u).own = some n → t = u
  proved : ∀ x ∈ s.proved, ∃ σ ∈ s.sessions, x = σ.proofInput
  done_nodup : done.Nodup
  done_mem : ∀ σ ∈ done, σ ∈ s.sessions ∧ σ.opposite ∈ s.sessions

namespace Inv

variable {s : State} {q : ℕ → Phase} {done : List Session} {t : ℕ}

/-- Whoever has drawn a nonce has drawn it. -/
theorem own_mem (h : Inv s q done) {n : Nonce} (hn : (q t).own = some n) : n ∈ s.drawn := by
  cases hq : q t with
  | idle => rw [hq] at hn; cases hn
  | drew m =>
    rw [hq] at hn
    obtain rfl := Option.some.inj hn
    exact (h.drew hq).1
  | has σ b =>
    rw [hq] at hn
    obtain rfl := Option.some.inj hn
    exact h.drawn σ (h.has hq).1

/-- What is so of a phase is so of the new one of the end that has moved, or of the old one of
another end. -/
theorem update_cases {C : Phase → Prop} {q' : Phase} {u : ℕ} (h : C (Function.update q t q' u)) :
    u = t ∧ C q' ∨ u ≠ t ∧ C (q u) := by
  rcases eq_or_ne u t with rfl | hne
  · rw [Function.update_self] at h
    exact Or.inl ⟨rfl, h⟩
  · rw [Function.update_of_ne hne] at h
    exact Or.inr ⟨hne, h⟩

/-- The new nonce of one end, or an old one of another. -/
theorem own_cases {q' : Phase} {u : ℕ} {n : Nonce}
    (h : (Function.update q t q' u).own = some n) :
    u = t ∧ q'.own = some n ∨ u ≠ t ∧ (q u).own = some n :=
  update_cases (C := fun p => p.own = some n) h

/-- The new phase of one end, or an old one of another. -/
theorem phase_cases {q' p : Phase} {u : ℕ} (h : Function.update q t q' u = p) :
    u = t ∧ q' = p ∨ u ≠ t ∧ q u = p :=
  update_cases (C := fun p' => p' = p) h

/-- **An end draws a nonce** that has not been drawn before. -/
theorem draw (h : Inv s q done) {n : Nonce} (hn : n ∉ s.drawn) :
    Inv { s with drawn := n :: s.drawn } (Function.update q t (.drew n)) done where
  nodup := h.nodup
  drawn := fun σ hσ => List.mem_cons_of_mem _ (h.drawn σ hσ)
  drew := by
    intro u m hu
    rcases phase_cases hu with ⟨-, ⟨⟩⟩ | ⟨-, hu⟩
    · refine ⟨List.mem_cons_self, fun hmem => ?_⟩
      obtain ⟨σ, hσ, rfl⟩ := List.mem_map.mp hmem
      exact hn (h.drawn σ hσ)
    · exact ⟨List.mem_cons_of_mem _ (h.drew hu).1, (h.drew hu).2⟩
  has := by
    intro u σ b hu
    rcases phase_cases hu with ⟨-, hp⟩ | ⟨-, hu⟩
    · cases hp
    · exact h.has hu
  matched := by
    intro u σ hu
    rcases phase_cases hu with ⟨-, hp⟩ | ⟨-, hu⟩
    · cases hp
    · exact h.matched hu
  apart := by
    intro u v m hu hv
    -- Nobody else can have drawn the new nonce, and the others have not moved.
    have hfresh : ∀ w, (q w).own = some n → False := fun w hw => hn (h.own_mem hw)
    rcases own_cases hu with ⟨rfl, ⟨⟩⟩ | ⟨-, hu'⟩ <;> rcases own_cases hv with ⟨rfl, hm⟩ | ⟨-, hv'⟩
    · rfl
    · exact (hfresh v hv').elim
    · obtain rfl := Option.some.inj hm
      exact (hfresh u hu').elim
    · exact h.apart hu' hv'
  proved := h.proved
  done_nodup := h.done_nodup
  done_mem := h.done_mem

/-- The phase of one end changes, and it keeps its nonce or gives it up. -/
theorem apart_update (h : Inv s q done) {q' : Phase}
    (hown : ∀ n, q'.own = some n → (q t).own = some n) {u v : ℕ} {n : Nonce}
    (hu : (Function.update q t q' u).own = some n) (hv : (Function.update q t q' v).own = some n) :
    u = v := by
  have hold : ∀ w, (Function.update q t q' w).own = some n → (q w).own = some n := by
    intro w hw
    rcases own_cases hw with ⟨rfl, hnew⟩ | ⟨-, hold⟩
    · exact hown n hnew
    · exact hold
  exact h.apart (hold u hu) (hold v hv)

/-- **An end that has drawn its nonce learns the other one.** If it has seen the proof of the other
end as well, there is a session there. -/
theorem enter (h : Inv s q done) (hq : q t = .drew σ.own) {b : Bool}
    (hb : b = true → σ.opposite ∈ s.sessions) :
    Inv { s with sessions := σ :: s.sessions } (Function.update q t (.has σ b)) done where
  nodup := List.nodup_cons.mpr ⟨(h.drew hq).2, h.nodup⟩
  drawn := by
    intro τ hτ
    rcases List.mem_cons.mp hτ with rfl | hτ
    · exact (h.drew hq).1
    · exact h.drawn τ hτ
  drew := by
    intro u n hu
    rcases phase_cases hu with ⟨-, hp⟩ | ⟨hne, hu⟩
    · cases hp
    · refine ⟨(h.drew hu).1, fun hmem => ?_⟩
      rcases List.mem_cons.mp hmem with rfl | hmem
      · exact hne (h.apart (by rw [hu]; rfl) (by rw [hq]; rfl))
      · exact (h.drew hu).2 hmem
  has := by
    intro u τ b' hu
    rcases phase_cases hu with ⟨-, ⟨⟩⟩ | ⟨-, hu⟩
    · exact ⟨List.mem_cons_self, fun hdone =>
        (h.drew hq).2 (List.mem_map_of_mem (h.done_mem σ hdone).1)⟩
    · exact ⟨List.mem_cons_of_mem _ (h.has hu).1, (h.has hu).2⟩
  matched := by
    intro u τ hu
    rcases phase_cases hu with ⟨-, ⟨⟩⟩ | ⟨-, hu⟩
    · exact List.mem_cons_of_mem _ (hb rfl)
    · exact List.mem_cons_of_mem _ (h.matched hu)
  apart := h.apart_update fun n hn => by rwa [hq]
  proved := by
    intro x hx
    obtain ⟨τ, hτ, rfl⟩ := h.proved x hx
    exact ⟨τ, List.mem_cons_of_mem _ hτ, rfl⟩
  done_nodup := h.done_nodup
  done_mem := fun τ hτ =>
    ⟨List.mem_cons_of_mem _ (h.done_mem τ hτ).1, List.mem_cons_of_mem _ (h.done_mem τ hτ).2⟩

/-- **An end that has both nonces sees the proof of the other end**, or does not. -/
theorem settle (h : Inv s q done) {b b' : Bool} (hq : q t = .has σ b)
    (hb : b' = true → σ.opposite ∈ s.sessions) :
    Inv s (Function.update q t (.has σ b')) done where
  nodup := h.nodup
  drawn := h.drawn
  drew := by
    intro u n hu
    rcases phase_cases hu with ⟨-, hp⟩ | ⟨-, hu⟩
    · cases hp
    · exact h.drew hu
  has := by
    intro u τ c hu
    rcases phase_cases hu with ⟨-, ⟨⟩⟩ | ⟨-, hu⟩
    · exact h.has hq
    · exact h.has hu
  matched := by
    intro u τ hu
    rcases phase_cases hu with ⟨-, ⟨⟩⟩ | ⟨-, hu⟩
    · exact hb rfl
    · exact h.matched hu
  apart := h.apart_update fun n hn => by rwa [hq]
  proved := h.proved
  done_nodup := h.done_nodup
  done_mem := h.done_mem

/-- **A session hands out its proof.** -/
theorem prove (h : Inv s q done) (hσ : σ ∈ s.sessions) :
    Inv { s with proved := σ.proofInput :: s.proved } q done where
  nodup := h.nodup
  drawn := h.drawn
  drew := h.drew
  has := h.has
  matched := h.matched
  apart := h.apart
  proved := by
    intro x hx
    rcases List.mem_cons.mp hx with rfl | hx
    · exact ⟨σ, hσ, rfl⟩
    · exact h.proved x hx
  done_nodup := h.done_nodup
  done_mem := h.done_mem

/-- An end gives up: nothing is known of it any more. -/
theorem leave (h : Inv s q done) : Inv s (Function.update q t .idle) done where
  nodup := h.nodup
  drawn := h.drawn
  drew := by
    intro u n hu
    rcases phase_cases hu with ⟨-, hp⟩ | ⟨-, hu⟩
    · cases hp
    · exact h.drew hu
  has := by
    intro u σ b hu
    rcases phase_cases hu with ⟨-, hp⟩ | ⟨-, hu⟩
    · cases hp
    · exact h.has hu
  matched := by
    intro u σ hu
    rcases phase_cases hu with ⟨-, hp⟩ | ⟨-, hu⟩
    · cases hp
    · exact h.matched hu
  apart := h.apart_update fun n hn => by cases hn
  proved := h.proved
  done_nodup := h.done_nodup
  done_mem := h.done_mem

theorem complete (h : Inv s q done) (hq : q t = .has σ true) :
    Inv s (Function.update q t .idle) (σ :: done) where
  nodup := h.nodup
  drawn := h.drawn
  drew := h.leave.drew
  has := by
    intro u τ b hu
    obtain ⟨hmem, hnot⟩ := h.leave.has hu
    refine ⟨hmem, fun hcons => ?_⟩
    rcases List.mem_cons.mp hcons with rfl | hold
    · rcases phase_cases hu with ⟨-, hp⟩ | ⟨hne, hu⟩
      · cases hp
      · exact hne (h.apart (by rw [hu]; rfl) (by rw [hq]; rfl))
    · exact hnot hold
  matched := h.leave.matched
  apart := h.leave.apart
  proved := h.proved
  done_nodup := List.nodup_cons.mpr ⟨(h.has hq).2, h.done_nodup⟩
  done_mem := by
    intro τ hτ
    rcases List.mem_cons.mp hτ with rfl | hτ
    · exact ⟨(h.has hq).1, h.matched hq⟩
    · exact h.done_mem τ hτ

end Inv

/-! ### Runs -/

/-- **One command keeps the invariant**, and takes the end where the protocol says. -/
theorem inv_exec {s s' : State} {q : ℕ → Phase} {done : List Session} {t : ℕ} {c : Cmd}
    {ch : Choice} {a : c.Ans} (h : Inv s q done) (hallows : protocol.Allows (q t) c)
    (hexec : exec mac s c ch = some (a, s')) :
    ∃ q', protocol.next (q t) c a = some q' ∧ Inv s' (Function.update q t q') done := by
  cases c with
  | rand =>
    simp only [exec] at hexec
    split at hexec
    · cases hexec
      exact ⟨q t, rfl, by rwa [Function.update_eq_self]⟩
    · split at hexec
      · split at hexec
        · cases hexec
        · next hfresh =>
          cases hexec
          exact ⟨_, rfl, h.draw hfresh⟩
      · cases hexec
  | write bs =>
    cases hexec
    exact ⟨q t, rfl, by rwa [Function.update_eq_self]⟩
  | readFull n =>
    have hs : s' = s := by
      simp only [exec] at hexec
      split at hexec
      · cases hexec; rfl
      · split at hexec
        · cases hexec; rfl
        · cases hexec
    subst hs
    exact ⟨q t, rfl, by rwa [Function.update_eq_self]⟩
  | prove σ =>
    cases hexec
    obtain ⟨role, sn, cn⟩ := σ
    cases role with
    | client =>
      have hentered := h.enter (σ := ⟨.client, sn, cn⟩) (b := false) hallows (fun hb => nomatch hb)
      exact ⟨_, rfl, hentered.prove List.mem_cons_self⟩
    | server =>
      have hq : q t = .has ⟨.server, sn, cn⟩ true := hallows
      exact ⟨q t, rfl, by rw [Function.update_eq_self]; exact h.prove (h.has hq).1⟩
  | verify σ proof =>
    simp only [exec] at hexec
    split at hexec
    · cases hexec
    · next hideal =>
      cases hexec
      -- The code is ideal: what is accepted has been handed out, by the session it names.
      have haccepted : decide (proof = (mac σ.proofInput).1) = true → σ ∈ s.sessions := by
        intro heq
        by_contra hnot
        refine hideal ⟨of_decide_eq_true heq, fun hproved => hnot ?_⟩
        obtain ⟨τ, hτ, heq⟩ := h.proved _ hproved
        rwa [proofInput_injective heq]
      obtain ⟨role, sn, cn⟩ := σ
      cases role with
      | client =>
        exact ⟨_, rfl, h.enter (σ := ⟨.server, sn, cn⟩) hallows haccepted⟩
      | server =>
        have hq : q t = .has ⟨.client, sn, cn⟩ false := hallows
        exact ⟨_, rfl, h.settle hq haccepted⟩

/-- A report keeps the invariant. -/
theorem inv_report {s : State} {q : ℕ → Phase} {t : ℕ} {r : Except Failure Session}
    {rs : List (Conc.Report (machine mac) workload)} (h : Inv s q (completed mac rs))
    (hr : Completes role r (q t)) :
    Inv s (Function.update q t .idle) (completed mac (⟨t, role, r⟩ :: rs)) := by
  cases r with
  | error e => exact h.leave
  | ok σ => exact h.complete (hr σ rfl).2

theorem inv_initial : Inv {} (fun _ => .idle) [] where
  nodup := List.nodup_nil
  drawn := by simp
  drew := fun h => nomatch h
  has := fun h => nomatch h
  matched := fun h => nomatch h
  apart := fun h => nomatch h
  proved := by simp
  done_nodup := List.nodup_nil
  done_mem := by simp

/-- **Every run keeps the invariant**, and completes sessions of the role it was to play. -/
theorem inv_run {ls : List (Conc.Label (machine mac) workload)} {p : Pool (machine mac) workload}
    (hrun : (Pool.initial ({} : State) : Pool (machine mac) workload).run ls = some p) :
    ∃ q, Inv p.shared q (completed mac p.reports) := by
  have hjob : ∀ (t : ℕ) (role : Role), True →
      Follows protocol .idle (workload.body t role) (Completes role) := by
    intro t role _
    cases role with
    | server => exact follows_serverHandshake
    | client => exact follows_clientHandshake
  obtain ⟨q, hinv, -⟩ := Pool.heading_run (P := fun _ => protocol) (M := machine mac)
    (W := workload)
    (Q := Completes) (C := fun _ _ => True)
    (fun (s : State) (q : ℕ → Phase) rs => Inv s q (completed mac rs)) hjob
    (fun _ _ hexec hinv hallows => inv_exec mac hinv hallows hexec)
    (fun hinv hr => inv_report mac hinv hr) (p := Pool.initial ({} : State))
    (q := fun _ => .idle) inv_initial (fun _ => rfl)
    (Pool.throughout_of_forall fun _ _ => trivial) (fun _ _ _ => trivial) hrun
  exact ⟨q, hinv⟩

/-- **The handshake authenticates both ends.** In every run – any number of handshakes at a time,
and an attacker who decides what is read – an end that completes its handshake has its counterpart:
there is exactly one session of the other role with the same two nonces, and of its own role no
other session with them is completed. What it has accepted is the proof of that counterpart, and of
no other session. -/
theorem handshake_authenticates {ls : List (Conc.Label (machine mac) workload)}
    {p : Pool (machine mac) workload}
    (hrun : (Pool.initial ({} : State) : Pool (machine mac) workload).run ls = some p)
    {σ : Session} (hσ : σ ∈ completed mac p.reports) :
    p.shared.sessions.count σ.opposite = 1 ∧ (completed mac p.reports).count σ = 1 ∧
      ∀ τ : Session, τ.proofInput = σ.opposite.proofInput → τ = σ.opposite := by
  obtain ⟨q, hinv⟩ := inv_run mac hrun
  refine ⟨?_, ?_, fun τ hτ => proofInput_injective hτ⟩
  · exact List.count_eq_one_of_mem (List.Nodup.of_map _ hinv.nodup) (hinv.done_mem σ hσ).2
  · exact List.count_eq_one_of_mem hinv.done_nodup hσ

/-! ### An exchange -/

/-- A code for the sample: what the text begins and ends with. -/
def sampleMac (bs : Bytes) : Block macLen :=
  ⟨(bs.take 24 ++ bs.reverse.take 8 ++ List.replicate 32 0).take 32, by simp [macLen]; omega⟩

def sampleNonce (b : UInt8) : Nonce := ⟨List.replicate 32 b, rfl⟩

def sampleSession : Session := ⟨.client, sampleNonce 1, sampleNonce 2⟩

/-- One server, one client, and nobody in between. -/
def sampleRun : List (Conc.Label (machine sampleMac) workload) :=
  [.start (0 : ℕ) Role.server, .start (1 : ℕ) Role.client,
    .step (0 : ℕ) ({ bytes := (sampleNonce 1).1 } : Choice), .step (0 : ℕ) ({} : Choice),
    .step (1 : ℕ) ({ bytes := (sampleNonce 1).1 } : Choice),
    .step (1 : ℕ) ({ bytes := (sampleNonce 2).1 } : Choice),
    .step (1 : ℕ) ({} : Choice), .step (1 : ℕ) ({} : Choice),
    .step (0 : ℕ)
      ({ bytes := (sampleNonce 2).1 ++ (sampleMac sampleSession.proofInput).1 } : Choice),
    .step (0 : ℕ) ({} : Choice), .step (0 : ℕ) ({} : Choice), .step (0 : ℕ) ({} : Choice),
    .finish (0 : ℕ),
    .step (1 : ℕ) ({ bytes := (sampleMac sampleSession.opposite.proofInput).1 } : Choice),
    .step (1 : ℕ) ({} : Choice), .finish (1 : ℕ)]

/-- Both ends complete. -/
theorem handshake_authenticates_sample :
    ∃ p, (Pool.initial ({} : State) : Pool (machine sampleMac) workload).run sampleRun = some p ∧
      completed sampleMac p.reports = [sampleSession, sampleSession.opposite] ∧
      p.shared.sessions.count sampleSession.opposite = 1 := by
  have hrun : (Pool.initial ({} : State) : Pool (machine sampleMac) workload).run sampleRun =
      some _ := rfl
  exact ⟨_, hrun, rfl, (handshake_authenticates sampleMac hrun List.mem_cons_self).1⟩

end OpenvoxCa.Signer
