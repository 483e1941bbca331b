import OpenvoxCa.Ca.Serial
import OpenvoxCa.Conc.Among
import OpenvoxCa.Data.Apply

/-!
# Managed certificates in a Secret

`SecretStore` keeps a managed certificate in a Kubernetes Secret, an object whose fields have owners
(`Data.Object`). A `Save` reads the Secret, looks whether this CA's field manager has an apply entry
in it, and applies the certificate, its key and the CA chain; it forces the apply if it has found an
entry (`save`).

What others do to the Secret is not restricted: it may be edited, deleted and recreated between any
two requests. So the Secret that is applied to need not be the one that was read. A Save takes
nothing from another owner exactly if this makes no difference: where it has read an entry, the
Secret at the apply has one too, or nothing of another owner is in the way (`save_takes_nothing`).
If the Secret is deleted and recreated by somebody else in between, the apply is forced all the same
(`save_takes_recreated`).
-/

namespace OpenvoxCa.Certstore

open Conc Data

/-! ### Secrets -/

/-- The fields of a Secret that have owners. -/
inductive Field
  | data (key : Text)
  | label (key : Text)
  | annotation (key : Text)
  | type
  deriving DecidableEq, Repr

/-- The verbs that make entries. -/
inductive Operation
  | apply | update
  deriving DecidableEq, Repr

/-- Who an entry of `managedFields` is for. -/
structure Manager where
  name : Text
  operation : Operation
  deriving DecidableEq, Repr

/-- A Secret; values are byte strings. -/
abbrev Secret := Object Field Text Manager

/-- `managedCertFieldManager`, applying. -/
def fieldManager : Manager where
  name := "openvox-ca-managed-certs".toList
  operation := .apply

def ownedByUs (sec : Option Secret) : Bool := sec.any fun sec => sec.hasEntry fieldManager

def secretKeyCert : Text := "tls.crt".toList

def secretKeyKey : Text := "tls.key".toList

def secretKeyCACert : Text := "ca.crt".toList

def secretType : Text := "kubernetes.io/tls".toList

/-- `SecretConfig`, without the names of the Secret. -/
structure SecretConfig where
  adoptExisting : Bool := false
  labels : List (Text × Text) := []
  annotations : List (Text × Text) := []
  deriving DecidableEq, Repr

/-- The label that every object of this CA has. -/
def managedByLabel : Text × Text :=
  ("app.kubernetes.io/managed-by".toList, "openvox-ca".toList)

/-- `WithManagedByLabel`: it wins over a configured one. -/
def withManagedByLabel (configured : List (Text × Text)) : List (Text × Text) :=
  managedByLabel :: configured.filter fun p => p.1 ≠ managedByLabel.1

/-- What a Save applies. -/
def secretApplyConfiguration (cfg : SecretConfig) (certPEM keyPEM caPEM : Text) :
    List (Field × Text) :=
  [(.data secretKeyCert, certPEM), (.data secretKeyKey, keyPEM), (.data secretKeyCACert, caPEM),
    (.type, secretType)] ++
    (withManagedByLabel cfg.labels).map (fun p => (.label p.1, p.2)) ++
    cfg.annotations.map fun p => ( Field.annotation p.1, p.2)

/-! ### Requests -/

/-- Why a request, or a Save, fails. -/
inductive Failure
  /-- The CA chain cannot be read. -/
  | caCert
  | emptyCACert
  /-- The API server cannot be reached, or refuses for another reason. -/
  | request
  /-- The apply is in conflict with another owner. -/
  | conflict
  /-- The apply has taken effect, and its answer is lost. -/
  | lost
  deriving DecidableEq, Repr

/-- **The requests**: those of a Save, and what others do to the Secret. -/
inductive Cmd
  | getCACert
  | getSecret
  | apply (config : List (Field × Text)) (force : Bool)
  | other (sec : Option Secret)

def Cmd.Ans : Cmd → Type
  | .getCACert => Except Failure Text
  | .getSecret => Except Failure (Option Secret)
  | .apply _ _ => Except Failure Unit
  | .other _ => Unit

abbrev interface : Interface := ⟨Cmd, Cmd.Ans⟩

abbrev Prog := Conc.Prog interface Failure

def cmd (c : Cmd) : Prog c.Ans := Conc.Prog.cmd (I := interface) c

/-- What the environment chooses. -/
structure Choice where
  fails : Bool := false
  /-- An apply takes effect, and its answer is lost. -/
  lost : Bool := false
  caPEM : Text := []

/-- **What a request does** to the Secret. -/
def exec (_ : Tid) (sec : Option Secret) : (c : Cmd) → Choice → Option (c.Ans × Option Secret)
  | .getCACert, ch => some (if ch.fails then .error .caCert else .ok ch.caPEM, sec)
  | .getSecret, ch => some (if ch.fails then .error .request else .ok sec, sec)
  | .apply config force, ch =>
    some (if ch.fails then (.error .request, sec)
      else match Object.apply fieldManager config force sec with
        | none => (.error .conflict, sec)
        | some sec' => (if ch.lost then .error .lost else .ok (), some sec'))
  | .other sec', _ => some ((), sec')

/-- **The machine**: any number of replicas and of other managers. -/
abbrev machine : Machine interface := ⟨Option Secret, Tid, Choice, exec⟩

def save (cfg : SecretConfig) (certPEM keyPEM : Text) : Prog Unit := do
  let caPEM ← (cmd .getCACert).orFail
  if caPEM = [] then .fail .emptyCACert
  else do
    let existing ← (cmd .getSecret).orFail
    let force := cfg.adoptExisting || ownedByUs existing
    (cmd (.apply (secretApplyConfiguration cfg certPEM keyPEM caPEM) force)).orFail

/-- `Load`: the certificate and the key. -/
def load : Prog (Option Text × Option Text) := do
  match ← (cmd .getSecret).orFail with
  | none => return (none, none)
  | some sec => return (sec.value (.data secretKeyCert), sec.value (.data secretKeyKey))

inductive Job
  | save (cfg : SecretConfig) (certPEM keyPEM : Text)
  | load
  /-- Another manager leaves the Secret so, or deletes it. -/
  | other (sec : Option Secret)

abbrev workload : Workload interface Tid where
  Job := Job
  Err := Failure
  Res := Option (Option Text × Option Text)
  body := fun _ j => match j with
    | .save cfg certPEM keyPEM => do save cfg certPEM keyPEM; return none
    | .load => do return some (← load)
    | .other sec => do cmd (.other sec); return none

/-! ### What a Save does to the Secret -/

/-- The Secret after a request, by its answer. -/
def leaves (sec : Option Secret) : (c : Cmd) → c.Ans → Option Secret
  | .apply config force, .ok _ => Object.apply fieldManager config force sec
  | .apply config force, .error .lost => Object.apply fieldManager config force sec
  | .other sec', _ => sec'
  | _, _ => sec

/-- The Secret after a moment of a run. -/
def after (m : Moment machine) : Option Secret := leaves m.state m.cmd m.ans

variable {sec sec' : Option Secret}

/-- It is what the request leaves. -/
theorem leaves_of_exec {t : Tid} {c : Cmd} {ch : Choice} {a : c.Ans}
    (h : exec t sec c ch = some (a, sec')) : leaves sec c a = sec' := by
  cases c with
  | getCACert | getSecret | other =>
    cases h
    rfl
  | apply config force =>
    simp only [exec] at h
    split at h
    · cases h
      rfl
    · split at h
      · cases h
        rfl
      · next sec'' happly =>
        cases h
        cases ch.lost <;> exact happly

/-- **A data value that another manager owned changes.** -/
def TakesFromOther (before after : Option Secret) : Prop :=
  ∃ sec key, before = some sec ∧ sec.ownedByOther fieldManager (.data key) = true ∧
    (after.bind fun sec' => sec'.value (.data key)) ≠ sec.value (.data key)

/-- **What is asked of a Save**: it takes a value from another owner only where the Secret already
has an entry of this CA, and if it fails, nothing has changed. -/
structure Harmless (tr : List (Moment machine)) (r : Except Failure Unit) : Prop where
  owned : ∀ m ∈ tr, TakesFromOther m.state (after m) → ownedByUs m.state = true
  failed : ∀ e, r = .error e → ∀ m ∈ tr, after m = m.state

/-- A data value of another owner is in the way of a configuration. -/
def InTheWay (sec : Option Secret) (config : List (Field × Text)) : Prop :=
  ∃ sec' key v, sec = some sec' ∧ (Field.data key, v) ∈ config ∧
    sec'.value (.data key) ≠ some v ∧ sec'.ownedByOther fieldManager (.data key) = true

/-- **Nothing comes between the read and the apply.** Where the Secret that is read has an entry of
this CA, the one that is applied to has one too, or no data value of another owner is in the way;
and no apply takes effect and has its answer lost, unless it changes nothing. -/
structure Undisturbed (tr : List (Moment machine)) : Prop where
  entry : ∀ sec a sec' config force a', ⟨sec, .getSecret, a⟩ ∈ tr →
    ⟨sec', .apply config force, a'⟩ ∈ tr → a' ≠ .error .request → ownedByUs sec = true →
    ownedByUs sec' = true ∨ ¬InTheWay sec' config
  answered : ∀ sec config force, ⟨sec, .apply config force, .error .lost⟩ ∈ tr →
    Object.apply fieldManager config force sec = sec

section Save

variable {t : Tid} {cfg : SecretConfig} {certPEM keyPEM caPEM : Text} {tr : List (Moment machine)}
  {r : Except Failure Unit}

/-- **How a Save runs**: either it never comes to an apply, or it reads the Secret, then applies to
what is there by then, and ends as the apply does. -/
theorem among_save (h : Among machine t (save cfg certPEM keyPEM) tr r) :
    (∀ m ∈ tr, m.cmd = .getCACert ∨ m.cmd = .getSecret) ∨
      ∃ m sec sec' sec'' caPEM ch a, m.cmd = .getCACert ∧ r = a ∧
        tr = [m, ⟨sec, .getSecret, .ok sec⟩, ⟨sec', .apply
          (secretApplyConfiguration cfg certPEM keyPEM caPEM) (cfg.adoptExisting || ownedByUs sec),
            a⟩] ∧
        exec t sec' (.apply (secretApplyConfiguration cfg certPEM keyPEM caPEM)
          (cfg.adoptExisting || ownedByUs sec)) ch = some (a, sec'') := by
  obtain ⟨s₀, s₀', ch₀, a₀, tr₀, hex₀, hrest₀, rfl⟩ := h.call_inv
  cases a₀ with
  | error e =>
    obtain ⟨rfl, -⟩ := Among.fail_inv hrest₀
    exact .inl (by simp)
  | ok caPEM =>
    have hrest₀ : Among machine t (if caPEM = [] then .fail .emptyCACert else _) tr₀ r := hrest₀
    split at hrest₀
    · obtain ⟨rfl, -⟩ := Among.fail_inv hrest₀
      exact .inl (by simp)
    · obtain ⟨s₁, s₁', ch₁, a₁, tr₁, hex₁, hrest₁, rfl⟩ := hrest₀.call_inv
      cases a₁ with
      | error e =>
        obtain ⟨rfl, -⟩ := Among.fail_inv hrest₁
        exact .inl (by simp)
      | ok existing =>
        obtain ⟨s₂, s₂', ch₂, a₂, tr₂, hex₂, hrest₂, rfl⟩ := Among.call_inv hrest₁
        -- What was read is what was there, since the read has not failed.
        have hread : existing = s₁ := by
          cases hfails : ch₁.fails with
          | true =>
            simp only [exec, hfails] at hex₁
            cases hex₁
          | false =>
            simp only [exec, hfails] at hex₁
            cases hex₁
            rfl
        have hend : tr₂ = [] ∧ r = a₂ := by
          cases a₂ with
          | ok u => exact Among.ret_inv hrest₂
          | error e => exact Among.fail_inv hrest₂
        obtain ⟨rfl, rfl⟩ := hend
        subst hread
        exact .inr ⟨_, _, _, _, _, _, _, rfl, rfl, rfl, hex₂⟩

variable {a : Except Failure Unit}

/-- **Any two Secrets may be the one that is read and the one that is applied to.** -/
theorem among_save_of_exec (hca : caPEM ≠ []) (sec : Option Secret) {sec'' : Option Secret}
    {ch : Choice}
    (hex : exec t sec' (.apply (secretApplyConfiguration cfg certPEM keyPEM caPEM)
      (cfg.adoptExisting || ownedByUs sec)) ch = some (a, sec'')) :
    Among machine t (save cfg certPEM keyPEM) [⟨sec, .getCACert, .ok caPEM⟩,
      ⟨sec, .getSecret, .ok sec⟩, ⟨sec', .apply (secretApplyConfiguration cfg certPEM keyPEM caPEM)
        (cfg.adoptExisting || ownedByUs sec), a⟩] a := by
  have hend : Among machine t (Prog.ofExcept a : Prog Unit) [] a := by
    cases a with
    | ok _ => exact .ret
    | error e => exact .fail
  have hgetCACert : machine.exec t sec .getCACert ({ caPEM } : Choice) = some (.ok caPEM, sec) :=
    rfl
  have hgetSecret : machine.exec t sec .getSecret ({} : Choice) = some (.ok sec, sec) := rfl
  refine .call hgetCACert ?_
  change Among machine t (if caPEM = [] then _ else _) _ _
  rw [if_neg hca]
  exact .call hgetSecret (.call hex hend)

theorem lookup_data {key v : Text}
    (h : (Field.data key, v) ∈ secretApplyConfiguration cfg certPEM keyPEM caPEM) :
    (secretApplyConfiguration cfg certPEM keyPEM caPEM).lookup (.data key) = some v := by
  simp only [secretApplyConfiguration, List.mem_append, List.mem_cons, Prod.mk.injEq,
    List.mem_map, reduceCtorEq, false_and, and_false, exists_false, or_false,
    List.not_mem_nil, Field.data.injEq] at h
  rcases h with ⟨rfl, rfl⟩ | ⟨rfl, rfl⟩ | ⟨rfl, rfl⟩ <;> rfl

variable {config : List (Field × Text)}

theorem mem_of_lookup_eq_some {f : Field} {v : Text} (h : config.lookup f = some v) :
    (f, v) ∈ config := by
  obtain ⟨before, after, rfl, -⟩ := List.lookup_eq_some_iff.mp h
  simp

/-- **A forced apply takes what is in the way**, and nothing else. -/
theorem takesFromOther_iff (hconfig : config = secretApplyConfiguration cfg certPEM keyPEM caPEM) :
    TakesFromOther sec (Object.apply fieldManager config true sec) ↔ InTheWay sec config := by
  subst hconfig
  cases sec with
  | none =>
    constructor
    · rintro ⟨sec, key, h, -⟩
      cases h
    · rintro ⟨sec, key, v, h, -⟩
      cases h
  | some sec =>
    have hforced : ∀ config, Object.apply fieldManager config true (some sec) =
        some (sec.applied fieldManager config) := by simp [Object.apply]
    rw [hforced]
    constructor
    · rintro ⟨sec', key, h, howned, hne⟩
      obtain rfl := Option.some.inj h
      obtain ⟨v, hlookup, hv⟩ := Object.lookup_of_applied_ne howned hne
      exact ⟨sec, key, v, rfl, mem_of_lookup_eq_some hlookup, hv, howned⟩
    · rintro ⟨sec', key, v, h, hmem, hv, howned⟩
      obtain rfl := Option.some.inj h
      refine ⟨sec, key, rfl, howned, ?_⟩
      rw [Option.bind_some, Object.value_applied (lookup_data hmem)]
      exact Ne.symm hv

theorem not_takesFromOther_self : ¬TakesFromOther sec sec := by
  rintro ⟨before, key, rfl, -, hne⟩
  exact hne rfl

/-- An apply that is not forced takes nothing. -/
theorem not_takesFromOther (h : Object.apply fieldManager config false sec = sec')
    (hsome : sec' ≠ none) : ¬TakesFromOther sec sec' := by
  rintro ⟨before, key, rfl, howned, hne⟩
  cases sec' with
  | none => exact hsome rfl
  | some sec' => exact hne (Object.value_of_apply_unforced h howned)

/-- How an apply is answered, and what it leaves. -/
theorem leaves_apply {force : Bool} {ch : Choice}
    (h : exec t sec (.apply config force) ch = some (a, sec')) :
    (a = .ok () ∨ a = .error .lost) ∧ Object.apply fieldManager config force sec = sec' ∧
        sec' ≠ none ∨
      (a = .error .request ∨ a = .error .conflict ∧ force = false) ∧ sec' = sec := by
  simp only [exec] at h
  split at h
  · cases h
    exact .inr ⟨.inl rfl, rfl⟩
  · split at h
    · next happly =>
      cases h
      refine .inr ⟨.inr ⟨rfl, ?_⟩, rfl⟩
      cases sec with
      | none => cases happly
      | some sec =>
        cases force with
        | false => rfl
        | true => simp [Object.apply] at happly
    · next sec'' happly =>
      cases h
      refine .inl ⟨?_, happly, Option.some_ne_none _⟩
      cases ch.lost
      · exact .inl rfl
      · exact .inr rfl

/-- A run that only reads. -/
theorem harmless_of_reads (hreads : ∀ m ∈ tr, m.cmd = .getCACert ∨ m.cmd = .getSecret) :
    Harmless tr r ∧ Undisturbed tr := by
  have hsame : ∀ m ∈ tr, after m = m.state := by
    rintro ⟨sec, c, a⟩ hm
    rcases hreads _ hm with hc | hc <;> (cases hc; rfl)
  refine ⟨⟨fun m hm htakes => ?_, fun _ _ => hsame⟩, ?_, ?_⟩
  · rw [hsame m hm] at htakes
    exact absurd htakes not_takesFromOther_self
  · intro _ _ sec' config force a' _ hm
    rcases hreads _ hm with hc | hc <;> cases hc
  · intro sec' config force hm
    rcases hreads _ hm with hc | hc <;> cases hc

/-- A run with an apply: the apply is all there is to look at. -/
theorem harmless_of_applies {m : Moment machine} (sec : Option Secret) {sec'' : Option Secret}
    {force : Bool} {ch : Choice} (hm : m.cmd = .getCACert)
    (hex : exec t sec' (.apply config force) ch = some (a, sec'')) :
    let tr : List (Moment machine) :=
    [m, ⟨sec, .getSecret, .ok sec⟩, ⟨sec', .apply config force, a⟩]
    (Harmless tr a ↔ (TakesFromOther sec' sec'' → ownedByUs sec' = true) ∧
      ∀ e, a = .error e → sec'' = sec') ∧
    (Undisturbed tr ↔ (a ≠ .error .request → ownedByUs sec = true →
        ownedByUs sec' = true ∨ ¬InTheWay sec' config) ∧
      (a = .error .lost → Object.apply fieldManager config force sec' = sec')) := by
  intro tr
  obtain ⟨state, c, ans⟩ := m
  obtain rfl : c = .getCACert := hm
  have hafter : after ⟨sec', .apply config force, a⟩ = sec'' := leaves_of_exec hex
  -- The two reads change nothing, so only the apply can take anything.
  have hread : after ⟨sec, .getSecret, .ok sec⟩ = sec := rfl
  have hca : after ⟨state, .getCACert, ans⟩ = state := rfl
  refine ⟨⟨fun h => ⟨fun htakes => ?_, fun e he => ?_⟩, fun h => ⟨?_, ?_⟩⟩,
    ⟨fun h => ⟨fun ha howned => ?_, fun ha => ?_⟩, fun h => ⟨?_, ?_⟩⟩⟩
  · exact h.owned ⟨sec', .apply config force, a⟩ (by simp [tr]) (by rw [hafter]; exact htakes)
  · exact hafter.symm.trans (h.failed e he ⟨sec', .apply config force, a⟩ (by simp [tr]))
  · intro m hm htakes
    simp only [tr, List.mem_cons, List.not_mem_nil, or_false] at hm
    rcases hm with rfl | rfl | rfl
    · exact absurd htakes not_takesFromOther_self
    · exact absurd htakes not_takesFromOther_self
    · exact h.1 (by rw [hafter] at htakes; exact htakes)
  · intro e he m hm
    simp only [tr, List.mem_cons, List.not_mem_nil, or_false] at hm
    rcases hm with rfl | rfl | rfl
    · exact hca
    · exact hread
    · exact hafter.trans (h.2 e he)
  · exact h.entry sec (.ok sec) sec' config force a (by simp [tr]) (by simp [tr]) ha howned
  · exact h.answered sec' config force (by simp [tr, ha])
  · intro sec₁ a₁ sec₂ config₂ force₂ a₂ h₁ h₂ ha howned
    simp only [tr, List.mem_cons, List.not_mem_nil, or_false] at h₁ h₂
    rcases h₁ with h₁ | h₁ | h₁ <;> cases h₁
    rcases h₂ with h₂ | h₂ | h₂ <;> cases h₂
    exact h.1 ha howned
  · intro sec₂ config₂ force₂ h₂
    simp only [tr, List.mem_cons, List.not_mem_nil, or_false] at h₂
    rcases h₂ with h₂ | h₂ | h₂ <;> cases h₂
    exact h.2 rfl

/-- **When a Save is harmless**, where adoption is not configured: exactly if nothing comes between
its read and its apply. -/
theorem save_takes_nothing (hadopt : cfg.adoptExisting = false)
    (h : Among machine t (save cfg certPEM keyPEM) tr r) : Harmless tr r ↔ Undisturbed tr := by
  rcases among_save h with hreads | ⟨m, sec, sec', sec'', caPEM, ch, a, hm, rfl, rfl, hex⟩
  · obtain ⟨hharmless, hundisturbed⟩ := harmless_of_reads (r := r) hreads
    exact iff_of_true hharmless hundisturbed
  rw [hadopt, Bool.false_or] at hex ⊢
  obtain ⟨hharmless, hundisturbed⟩ := harmless_of_applies sec hm hex
  rw [hharmless, hundisturbed]
  rcases leaves_apply hex with ⟨ha, happly, hsome⟩ | ⟨ha, rfl⟩
  · -- the apply is carried out: what it takes is what is in the way, if it is forced
    have hcarried : r ≠ .error .request := by rcases ha with rfl | rfl <;> simp
    have htakes : (TakesFromOther sec' sec'' → ownedByUs sec' = true) ↔
        (ownedByUs sec = true → ownedByUs sec' = true ∨
          ¬InTheWay sec' (secretApplyConfiguration cfg certPEM keyPEM caPEM)) := by
      cases howned : ownedByUs sec with
      | false =>
        rw [howned] at happly
        exact iff_of_true (fun htakes => absurd htakes (not_takesFromOther happly hsome)) nofun
      | true =>
        rw [howned] at happly
        rw [← happly, takesFromOther_iff rfl]
        exact ⟨fun h _ => or_iff_not_imp_right.mpr fun hway => h (not_not.mp hway),
          fun h hway => (h rfl).resolve_right (not_not.mpr hway)⟩
    have hfailed : (∀ e, r = .error e → sec'' = sec') ↔ (r = .error .lost →
        Object.apply fieldManager (secretApplyConfiguration cfg certPEM keyPEM caPEM)
          (ownedByUs sec) sec' = sec') := by
      rw [happly]
      rcases ha with rfl | rfl <;> simp
    exact and_congr (htakes.trans ⟨fun h _ => h, fun h => h hcarried⟩) hfailed
  · -- the apply is refused, and leaves the Secret alone
    refine iff_of_true ⟨fun htakes => absurd htakes not_takesFromOther_self, fun _ _ => rfl⟩
      ⟨?_, ?_⟩
    · intro hcarried howned
      rcases ha with rfl | ⟨-, hforce⟩
      · exact absurd rfl hcarried
      · rw [howned] at hforce
        cases hforce
    · rintro rfl
      rcases ha with ha | ⟨ha, -⟩ <;> cases ha

end Save

/-! ### Two histories -/

/-- A Secret of this CA. -/
def ourSecret : Secret :=
  Object.created fieldManager
    (secretApplyConfiguration {} ['c'] ['k'] ['a'])

/-- A Secret that somebody else has made, with other material. -/
def theirSecret : Secret :=
  Object.created ⟨['k', 'u', 'b', 'e', 'c', 't', 'l'], .apply⟩
    [(.data secretKeyCert, ['t']), (.data secretKeyKey, ['t'])]

/-- A Save reads the Secret of this CA; another manager deletes it and makes its own. -/
def recreated : List (Label machine workload) :=
  [.start ⟨0, 0⟩ (.save {} ['d'] ['l']), .step ⟨0, 0⟩ { caPEM := ['a'] }, .step ⟨0, 0⟩ {},
    .start ⟨1, 0⟩ (.other none), .step ⟨1, 0⟩ {}, .finish ⟨1, 0⟩,
    .start ⟨1, 0⟩ (.other (some theirSecret)), .step ⟨1, 0⟩ {}, .finish ⟨1, 0⟩]

/-- **A Save takes a Secret that is no longer its own**: the Secret that it has read was deleted and
made again by somebody else before the apply, which is forced; and an apply whose answer is lost has
changed the Secret, although the Save fails. -/
theorem save_takes_recreated :
    (∃ p q : Pool machine workload, (Pool.initial (some ourSecret)).run recreated = some p ∧
      p.next (.step ⟨0, 0⟩ {}) = some q ∧ ownedByUs p.shared = false ∧
      TakesFromOther p.shared q.shared) ∧
    ∃ tr e, Among machine ⟨0, 0⟩ (save {} ['d'] ['l']) tr (.error e) ∧
      ∃ m ∈ tr, after m ≠ m.state := by
  refine ⟨⟨_, _, rfl, rfl, rfl, theirSecret, secretKeyCert, rfl, rfl, by decide⟩, ?_⟩
  have hlost : exec ⟨0, 0⟩ none (.apply (secretApplyConfiguration {} ['d'] ['l'] ['a']) false)
      { lost := true } = some (.error .lost, some (Object.created fieldManager _)) := rfl
  refine ⟨_, .lost, among_save_of_exec (List.cons_ne_nil _ _) none hlost, _,
    List.mem_cons_of_mem _ (List.mem_cons_of_mem _ List.mem_cons_self), ?_⟩
  exact Option.some_ne_none _

/-- The Secret of this CA, after somebody has edited the certificate. -/
def editedSecret : Secret where
  value f := if f = .data secretKeyCert then some ['e'] else ourSecret.value f
  managed := [{ manager := fieldManager, fields := [.data secretKeyKey, .data secretKeyCACert] },
    { manager := ⟨['k', 'u', 'b', 'e', 'c', 't', 'l'], .update⟩, fields := [.data secretKeyCert] }]

/-- A Save on an edited Secret, with nobody in between: it takes the edited value back, and that is
harmless. -/
theorem save_takes_nothing_sample : ∃ tr r, Among machine ⟨0, 0⟩ (save {} ['d'] ['l']) tr r ∧
    Harmless tr r ∧ ∃ m ∈ tr, TakesFromOther m.state (after m) := by
  have hex : exec ⟨0, 0⟩ (some editedSecret)
      (.apply (secretApplyConfiguration {} ['d'] ['l'] ['a']) true) {} =
      some (.ok (), some (editedSecret.applied fieldManager _)) := rfl
  have hamong : Among machine ⟨0, 0⟩ (save {} ['d'] ['l']) _ _ :=
    among_save_of_exec (List.cons_ne_nil _ _) (some editedSecret) hex
  refine ⟨_, _, hamong, (save_takes_nothing rfl hamong).mpr ⟨?_, ?_⟩, _,
    List.mem_cons_of_mem _ (List.mem_cons_of_mem _ List.mem_cons_self),
    editedSecret, secretKeyCert, rfl, rfl, by decide⟩
  · intro sec a sec' config force a' hread hwrite _ _
    left
    simp only [List.mem_cons, List.not_mem_nil, or_false] at hread hwrite
    rcases hwrite with hwrite | hwrite | hwrite <;> cases hwrite
    rfl
  · intro sec config force hlost
    simp only [List.mem_cons, List.not_mem_nil, or_false] at hlost
    rcases hlost with hlost | hlost | hlost <;> cases hlost

end OpenvoxCa.Certstore
