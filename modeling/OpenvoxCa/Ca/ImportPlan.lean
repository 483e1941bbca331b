import OpenvoxCa.Ca.ImportAlone

/-!
# The chain that an import publishes

What `importCAMaterial` makes of a stored chain and of a supplied one, when nobody else writes and
nothing fails. Four functions look for lists of ours – `orderCRLChain` in what is supplied or
stored, `ownCRLIn` in what is stored, the comparison of the two, and the one that starts afresh –
and they add up to one rule (`planOver_eq`): the list in front is what `ownCRLIn` finds in the
supplied chain followed by the stored one, and behind it are the lists of others, from the supplied
chain if there is one and from the stored chain if there is not.

The rule gives the same chain again when it is applied to what it gave (`ownCRLIn_again`). An import
decides twice, once before it writes anything and once under the CRL lock, and it is the second
decision that counts; what can fall between the two is the signature of the empty list that a CA
without one starts from (`unsigned_import_leaves_no_chain`).
-/

namespace OpenvoxCa.Ca

open Conc

/-! ### Our newest list, in two chains -/

variable {cert : Certificate}

theorem ownCRLIn_append_none {a b : List RevocationList} (h : ownCRLIn a cert = none) :
    ownCRLIn (a ++ b) cert = ownCRLIn b cert := by
  have hfilter : a.filter (crlSignedBy cert) = [] := by
    rw [List.filter_eq_nil_iff]
    intro c hc
    simp [ownCRLIn_eq_none.mp h c hc]
  rw [ownCRLIn_eq_argmax, ownCRLIn_eq_argmax, List.filter_append, hfilter, List.nil_append]

/-- A list of the second chain is preferred only if it is strictly newer. -/
theorem ownCRLIn_append_some {a b : List RevocationList} {x : RevocationList}
    (h : ownCRLIn a cert = some x) :
    ownCRLIn (a ++ b) cert = match ownCRLIn b cert with
      | some y => some (if newerCRL y x then y else x)
      | none => some x := by
  rw [ownCRLIn_eq_argmax] at h ⊢
  rw [List.filter_append]
  -- From a list of ours on, the fold behaves as on a chain that begins with it.
  have hfold : ∀ l l' : List RevocationList, l.argmax rank = some x →
      (l ++ l').argmax rank = (x :: l').argmax rank := by
    intro l l' hl
    unfold List.argmax at hl ⊢
    rw [List.foldl_append, hl]
    rfl
  by_cases hx : crlSignedBy cert x = true
  · have hcons := @ownCRLIn_cons_own b cert x hx
    rw [ownCRLIn_eq_argmax, List.filter_cons_of_pos hx] at hcons
    rw [hfold _ _ h, hcons]
    cases ownCRLIn b cert <;> rfl
  · exact absurd (List.mem_filter.mp (List.argmax_mem h)).2 hx

/-- The lists that are not ours. -/
def others (cert : Certificate) (chain : List RevocationList) : List RevocationList :=
  chain.filter fun crl => !crlSignedBy cert crl

theorem orderCRLChain_none {chain : List RevocationList} (h : ownCRLIn chain cert = none) :
    orderCRLChain chain cert = (chain, 0, false) := by
  have hfold := (foldl_orderStep cert chain).1
  rw [h] at hfold
  unfold orderCRLChain
  split
  · rfl
  · next heq => simp [heq] at hfold

theorem orderCRLChain_some {chain : List RevocationList} {ours : RevocationList}
    (h : ownCRLIn chain cert = some ours) :
    ∃ n, orderCRLChain chain cert = (ours :: others cert chain, n, true) := by
  obtain ⟨hours, hothers⟩ := foldl_orderStep cert chain
  rw [h] at hours
  unfold orderCRLChain
  split
  · next heq => simp [heq] at hours
  · next o n others' heq =>
    rw [heq] at hours hothers
    obtain rfl := Option.some.inj hours
    exact ⟨n, by rw [others, ← hothers]⟩

/-! ### The plan -/

def suppliedCRLs (crlPEM : Option Blob) : List RevocationList :=
  (crlPEM.bind decodeCRLChain).getD []

/-- The lists whose others are published: the supplied ones, if any were supplied. -/
def statedCRLs (crlPEM : Option Blob) (stored : List RevocationList) : List RevocationList :=
  if crlPEM.isSome then suppliedCRLs crlPEM else stored

/-- Whether `planCRLImport` refuses: a supplied chain that does not decode or is empty, or nothing
supplied for a stored chain that has no list of ours. -/
def planRefuses (cert : Certificate) (crlPEM : Option Blob) (stored : List RevocationList) : Bool :=
  match crlPEM with
  | none => !stored.isEmpty && (ownCRLIn stored cert).isNone
  | some _ => (suppliedCRLs crlPEM).isEmpty

/-- **What `planCRLImport` decides**, once it has read the stored chain: it refuses, or puts the
newest list of ours in front of the others, or a fresh one if there is none. It writes unless
nothing was supplied and the stored chain is as it should be. -/
theorem planOver_eq (cert : Certificate) (crlPEM : Option Blob) (stored : List RevocationList) :
    planOver cert crlPEM stored =
      if planRefuses cert crlPEM stored then .fail .malformed
      else match ownCRLIn (suppliedCRLs crlPEM ++ stored) cert with
        | some lead => .ret (lead :: others cert (statedCRLs crlPEM stored),
            crlPEM.isSome || decide (stored ≠ lead :: others cert stored))
        | none => (newEmptyCRL cert crlValidity).bind fun generated =>
            .ret (generated :: others cert (statedCRLs crlPEM stored), true) := by
  cases crlPEM with
  | none =>
    -- Nothing was supplied: the stored chain is put in order, if it has a list of ours.
    simp only [planOver, planWithoutChain, planRefuses, suppliedCRLs, statedCRLs, Option.bind_none,
      Option.getD_none, List.nil_append, Option.isSome_none, Bool.false_or, Bool.false_eq_true,
      if_false]
    by_cases hstored : stored = []
    · subst hstored
      rfl
    · rw [if_neg hstored]
      cases hown : ownCRLIn stored cert with
      | none => simp [orderCRLChain_none hown, hstored]
      | some ours =>
        obtain ⟨n, hn⟩ := orderCRLChain_some hown
        simp [hn]
  | some pem =>
    simp only [planOver, planWithChain, planRefuses, statedCRLs, Option.isSome_some, Bool.true_or,
      if_true]
    cases hdec : decodeCRLChain pem with
    | none => simp [suppliedCRLs, hdec]
    | some incoming =>
      have hsupplied : suppliedCRLs (some pem) = incoming := by simp [suppliedCRLs, hdec]
      rw [hsupplied]
      cases incoming with
      | nil => rfl
      | cons crl incoming =>
        have hall : ∀ l : List RevocationList, ownCRLIn l cert = none → others cert l = l := by
          intro l hl
          refine List.filter_eq_self.mpr fun c hc => ?_
          simp [ownCRLIn_eq_none.mp hl c hc]
        cases hown : ownCRLIn (crl :: incoming) cert with
        | none =>
          simp only [orderCRLChain_none hown, ownCRLIn_append_none hown, hall _ hown]
          cases ownCRLIn stored cert <;> simp
        | some ours =>
          -- Of the list supplied and the stored one the newer leads.
          obtain ⟨n, hn⟩ := orderCRLChain_some hown
          simp only [hn, ownCRLIn_append_some hown]
          cases hstored : ownCRLIn stored cert with
          | none => simp [preferStored, hstored]
          | some stale =>
            simp only [preferStored, hstored]
            split <;> simp_all

variable {lead : RevocationList}

/-- **The rule gives what it gave.** -/
theorem ownCRLIn_again {supplied rest : List RevocationList} (stored : List RevocationList)
    (hlead : crlSignedBy cert lead = true) (hrest : ∀ c ∈ rest, crlSignedBy cert c = false)
    (h : ∀ x, ownCRLIn supplied cert = some x → ownCRLIn (supplied ++ stored) cert = some lead) :
    ownCRLIn (supplied ++ lead :: rest) cert = some lead := by
  have hnew : ownCRLIn (lead :: rest) cert = some lead := ownCRLIn_cons_foreign_tail hlead hrest
  cases hsup : ownCRLIn supplied cert with
  | none => rw [ownCRLIn_append_none hsup, hnew]
  | some x =>
    have hself : newerCRL x x = false := by
      rw [← Bool.not_eq_true, newerCRL_iff]
      exact lt_irrefl _
    have hfirst := h x hsup
    rw [ownCRLIn_append_some hsup] at hfirst
    rw [ownCRLIn_append_some hsup, hnew]
    -- The list in front is the supplied one, or was strictly newer than that.
    cases hstored : ownCRLIn stored cert with
    | none =>
      rw [hstored] at hfirst
      obtain rfl := Option.some.inj hfirst
      simp [hself]
    | some y =>
      rw [hstored] at hfirst
      obtain rfl := Option.some.inj hfirst
      by_cases hy : newerCRL y x = true
      · simp [hy]
      · simp [hy, hself]

/-! ### What is asked of the chain -/

/-- The lists of a stored chain, if it can be read: none where nothing is stored. -/
def storedLists : Option Blob → Option (List RevocationList)
  | none => some []
  | some blob => decodeCRLChain blob

/-- Different lists of ours have different numbers. -/
def DistinctNumbers (cert : Certificate) (given : List RevocationList) : Prop :=
  ∀ c ∈ given, ∀ d ∈ given, crlSignedBy cert c = true → crlSignedBy cert d = true →
    c.number = d.number → c = d

/-- **The list in front**: among the lists given, the one of ours whose number exceeds that of
every other; a fresh one that revokes nothing, if none of them is ours. -/
def Leads (cert : Certificate) (given : List RevocationList) (lead : RevocationList) : Prop :=
  crlSignedBy cert lead = true ∧
    ((lead ∈ given ∧ ∀ c ∈ given, crlSignedBy cert c = true →
        c = lead ∨ Exceeds lead.number c.number) ∨
      (∀ c ∈ given, crlSignedBy cert c = false) ∧ lead.entries = [])

/-- **The right chain**: the list in front, and behind it exactly the lists of others that were
supplied, or, if none were supplied, that are stored. -/
def RightChain (cert : Certificate) (crlPEM : Option Blob) (stored chain : List RevocationList) :
    Prop :=
  ∃ lead, Leads cert (suppliedCRLs crlPEM ++ stored) lead ∧
    chain = lead :: others cert (statedCRLs crlPEM stored)

theorem exceeds_of_rank_le {c d : RevocationList} (hrank : rank c ≤ rank d)
    (hne : c.number ≠ d.number) : Exceeds d.number c.number := by
  unfold rank at hrank
  rw [Prod.Lex.toLex_le_toLex] at hrank
  cases hc : c.number with
  | none =>
    cases hd : d.number with
    | none => exact absurd (hc.trans hd.symm) hne
    | some m => exact ⟨m, rfl, nofun⟩
  | some n =>
    cases hd : d.number with
    | none => exact absurd hrank (by simp [hc, hd])
    | some m =>
      refine ⟨m, rfl, fun n' hn => ?_⟩
      obtain rfl := Option.some.inj hn
      have hle : n ≤ m := by simpa [hc, hd] using hrank
      have hnm : n ≠ m := by simpa [hc, hd] using hne
      exact lt_of_le_of_ne hle hnm

variable {given : List RevocationList}

theorem leads_of_ownCRLIn (hdistinct : DistinctNumbers cert given)
    (h : ownCRLIn given cert = some lead) : Leads cert given lead := by
  obtain ⟨hmem, hown⟩ := ownCRLIn_mem h
  refine ⟨hown, Or.inl ⟨hmem, fun c hc hcown => ?_⟩⟩
  by_cases hnum : c.number = lead.number
  · exact Or.inl (hdistinct c hc lead hmem hcown hown hnum)
  · exact Or.inr (exceeds_of_rank_le (rank_le_ownCRLIn h hc hcown) hnum)

/-! ### A run in which nothing fails -/

/-- An answer that there is no such object is no failure. -/
def unreadable {α : Type} : Except Failure α → Bool
  | .ok _ => false
  | .error .notExist => false
  | .error _ => true

/-- **The answer reports a failure**, of the storage or of the signer. -/
def Cmd.failed : (c : Cmd) → c.Ans → Bool
  | .lock _, a => !a.isOk
  | .randomSerial, a => !a.isOk
  | .createRevocationList _, a => !a.isOk
  | .createCertificate _, a => !a.isOk
  | .getCRL, a => unreadable a
  | .updateCRL _, a => !a.isOk
  | .getSuperseded, a => unreadable a
  | .saveSuperseded _, a => !a.isOk
  | .hasCACert, a => !a.isOk
  | .getCACert, a => unreadable a
  | .saveCACert _, a => !a.isOk
  | .certExists _, a => !a.isOk
  | .getCert _, a => unreadable a
  | .saveCert _ _, a => !a.isOk
  | .deleteCert _, a => unreadable a
  | .csrExists _, a => !a.isOk
  | .getCSR _, a => unreadable a
  | .saveCSR _ _, a => !a.isOk
  | .deleteCSR _, a => unreadable a
  | .serialExists _, a => !a.isOk
  | .subjectForSerial _, a => unreadable a
  | .latestSerialForSubject _, a => unreadable a
  | .appendInventory _, a => !a.isOk
  | .pruneInventory _, a => a.2.isSome
  | .hasSerial, a => !a.isOk
  | .writeSerial, a => !a.isOk
  | .saveOther, a => !a.isOk
  | _, _ => false

/-- The command asks the storage to write. -/
def Cmd.writes : Cmd → Bool
  | .updateCRL _ => true
  | .saveSuperseded _ => true
  | .saveCACert _ => true
  | .saveCert _ _ => true
  | .deleteCert _ => true
  | .saveCSR _ _ => true
  | .deleteCSR _ => true
  | .appendInventory _ => true
  | .pruneInventory _ => true
  | .writeSerial => true
  | .saveOther => true
  | _ => false

/-- The command asks the signer for a signature. -/
def Cmd.signs : Cmd → Bool
  | .createRevocationList _ => true
  | .createCertificate _ => true
  | _ => false

/-- Nothing fails in the exchanges `es`. -/
def Smooth (es : List (Exchange interface)) : Prop := ∀ x ∈ es, x.1.failed x.2 = false

/-- The writes among the exchanges `es`. -/
def writesOf (es : List (Exchange interface)) : List Cmd :=
  (es.map Sigma.fst).filter Cmd.writes

variable {t : Tid} {s s' : State} {es : List (Exchange interface)} {crlPEM : Option Blob}
  {stored : List RevocationList}

theorem smooth_append {es₁ es₂ : List (Exchange interface)} :
    Smooth (es₁ ++ es₂) ↔ Smooth es₁ ∧ Smooth es₂ :=
  List.forall_mem_append

theorem smooth_cons {x : Exchange interface} :
    Smooth (x :: es) ↔ x.1.failed x.2 = false ∧ Smooth es :=
  List.forall_mem_cons

@[simp]
theorem writesOf_append (es₁ es₂ : List (Exchange interface)) :
    writesOf (es₁ ++ es₂) = writesOf es₁ ++ writesOf es₂ := by
  simp [writesOf]

/-- A program that only reads writes nothing. -/
theorem solo_writesOf {α : Type} {p : Prog α} {r : Except Failure α}
    (h : Solo machine t s p es r s') (hp : p.Only fun c : Cmd => c.writes = false) :
    writesOf es = [] := by
  rw [writesOf, List.filter_eq_nil_iff]
  intro c hc
  obtain ⟨x, hx, rfl⟩ := List.mem_map.mp hc
  simp [(h.always hp).2 x hx]

/-- Where nothing fails, the program returns. -/
abbrev Steady {α : Type} (p : Prog α) : Prop :=
  p.Given (fun (c : Cmd) a => c.failed a = false) fun r => r.isOk = true

theorem steady_bind {α β : Type} {p : Prog α} {f : α → Prog β} (hp : Steady p)
    (hf : ∀ a, Steady (f a)) : Steady (p.bind f) := by
  induction p with
  | ret a => exact hf a
  | fail e => cases hp
  | call c k ih => exact fun a ha => ih a (hp a ha)

theorem steady_doIf {b : Bool} {p : Prog Unit} (hp : Steady p) : Steady (doIf b p) := by
  unfold doIf
  split
  · exact hp
  · exact rfl

/-- A command that fails exactly when its answer is an error. -/
theorem steady_ask {α : Type} {c : Cmd} {f : c.Ans → Except Failure α}
    (hc : ∀ a, c.failed a = !(f a).isOk) :
    Steady (.call c fun a => Prog.ofExcept (f a) : Prog α) := by
  intro a ha
  rw [hc] at ha
  change Prog.Given _ _ (Prog.ofExcept (f a))
  cases hf : f a with
  | error e =>
    rw [hf] at ha
    cases ha
  | ok x => rfl

theorem solo_steady {α : Type} {p : Prog α} {r : Except Failure α}
    (h : Solo machine t s p es r s') (hes : Smooth es) (hp : Steady p) : r.isOk = true := by
  refine h.given ?_ hp
  exact hes

/-- A run of such a program in which nothing fails, and what comes after it. -/
theorem solo_steady_bind {α β : Type} {p : Prog α} {f : α → Prog β} {r : Except Failure β}
    (h : Solo machine t s (p.bind f) es r s') (hes : Smooth es) (hp : Steady p)
    (hquiet : p.Only Cmd.Quiet) :
    ∃ a s₁ es₁ es₂, Solo machine t s p es₁ (.ok a) s₁ ∧ s₁.crl = s.crl ∧
      Solo machine t s₁ (f a) es₂ r s' ∧ es = es₁ ++ es₂ ∧ Smooth es₂ := by
  rcases h.bind_inv with ⟨e, hrun, -⟩ | ⟨a, s₁, es₁, es₂, hrun, hrest, rfl⟩
  · cases solo_steady hrun hes hp
  · exact ⟨a, s₁, es₁, es₂, hrun, (solo_sameCRL hrun hquiet).crl, hrest, rfl,
      (smooth_append.mp hes).2⟩

/-! ### The plan, in such a run -/

/-- The list that is put in front: our newest, or a fresh one where there is none. -/
def LeadOf (cert : Certificate) (given : List RevocationList) (lead : RevocationList) : Prop :=
  ownCRLIn given cert = some lead ∨
    ownCRLIn given cert = none ∧ crlSignedBy cert lead = true ∧ lead.entries = []

theorem LeadOf.own (h : LeadOf cert given lead) : crlSignedBy cert lead = true := by
  rcases h with h | ⟨-, h, -⟩
  · exact (ownCRLIn_mem h).2
  · exact h

theorem LeadOf.leads (h : LeadOf cert given lead) (hdistinct : DistinctNumbers cert given) :
    Leads cert given lead := by
  rcases h with h | ⟨hnone, hown, hempty⟩
  · exact leads_of_ownCRLIn hdistinct h
  · exact ⟨hown, Or.inr ⟨ownCRLIn_eq_none.mp hnone, hempty⟩⟩

/-- The chain to publish, with `lead` in front. -/
def plannedChain (cert : Certificate) (crlPEM : Option Blob) (stored : List RevocationList)
    (lead : RevocationList) : List RevocationList :=
  lead :: others cert (statedCRLs crlPEM stored)

/-- Whether it has to be written. -/
def planChanges (cert : Certificate) (crlPEM : Option Blob) (stored : List RevocationList)
    (lead : RevocationList) : Bool :=
  crlPEM.isSome || decide (stored ≠ lead :: others cert stored)

theorem solo_storedCRLChain {r : Except Failure (List RevocationList)}
    (h : Solo machine t s storedCRLChain es r s') (hes : Smooth es) :
    match storedLists s.crl with
    | some stored => r = .ok stored
    | none => r = .error .malformed := by
  obtain ⟨ch, a, s₁, es₁, hex, h, rfl⟩ := solo_cmd_bind h
  cases hex
  have hok : unreadable (readOutcome ch s.crl) = false := (smooth_cons.mp hes).1
  cases hread : readOutcome ch s.crl with
  | error e =>
    rw [hread] at hok h
    cases e with
    | notExist =>
      rw [readOutcome_eq_notExist hread]
      exact (Solo.ret_inv h).2.1
    | _ => cases hok
  | ok blob =>
    rw [hread] at h
    rw [readOutcome_eq_ok hread]
    simp only [storedLists] at h ⊢
    cases hdec : decodeCRLChain blob with
    | some stored =>
      rw [hdec] at h
      exact (Solo.ret_inv h).2.1
    | none =>
      rw [hdec] at h
      exact (Solo.fail_inv h).2.1

theorem solo_newEmptyCRL {validity : Duration} {crl : RevocationList}
    (hmay : cert.maySignCRLs = true)
    (h : Solo machine t s (newEmptyCRL cert validity) es (.ok crl) s') :
    crlSignedBy cert crl = true ∧ crl.entries = [] := by
  obtain ⟨_, now, s₁, _, hnow, h, -⟩ := solo_cmd_bind h
  obtain ⟨-, hcrl⟩ := solo_createRevocationList h
  obtain ⟨-, hent, hsigned⟩ := hcrl crl rfl
  exact ⟨by simp [crlSignedBy, hmay, hsigned], hent⟩

/-- **The plan of a run in which nothing fails**: whether there is one depends on what is stored
and on what was supplied alone. -/
theorem solo_planCRLImport {r : Except Failure (List RevocationList × Bool)}
    (hmay : cert.maySignCRLs = true) (h : Solo machine t s (planCRLImport cert crlPEM) es r s')
    (hes : Smooth es) :
    ((∃ e, r = .error e) ∧
      ∀ stored, storedLists s.crl = some stored → planRefuses cert crlPEM stored = true) ∨
    ∃ stored, storedLists s.crl = some stored ∧
      planRefuses cert crlPEM stored = false ∧
      ∃ lead, LeadOf cert (suppliedCRLs crlPEM ++ stored) lead ∧
        r = .ok (plannedChain cert crlPEM stored lead, planChanges cert crlPEM stored lead) := by
  rcases h.bind_inv with ⟨e, hread, rfl⟩ | ⟨stored, s₁, es₁, es₂, hread, hover, rfl⟩
  · refine Or.inl ⟨⟨e, rfl⟩, fun stored hstored => ?_⟩
    have hspec := solo_storedCRLChain hread hes
    rw [hstored] at hspec
    cases hspec
  clear h
  obtain ⟨hes₁, hes₂⟩ := smooth_append.mp hes
  have hstored : storedLists s.crl = some stored := by
    have hspec := solo_storedCRLChain hread hes₁
    cases hlists : storedLists s.crl with
    | none =>
      rw [hlists] at hspec
      cases hspec
    | some lists =>
      rw [hlists] at hspec
      rw [Except.ok.inj hspec]
  rw [planOver_eq] at hover
  cases href : planRefuses cert crlPEM stored with
  | true =>
    rw [href] at hover
    refine Or.inl ⟨⟨_, (Solo.fail_inv hover).2.1⟩, fun stored' hstored' => ?_⟩
    rw [← Option.some.inj (hstored.symm.trans hstored')]
    exact href
  | false =>
    refine Or.inr ⟨stored, hstored, href, ?_⟩
    rw [href, if_neg Bool.false_ne_true] at hover
    cases hown : ownCRLIn (suppliedCRLs crlPEM ++ stored) cert with
    | some lead =>
      rw [hown] at hover
      exact ⟨lead, Or.inl hown, (Solo.ret_inv hover).2.1⟩
    | none =>
      rw [hown] at hover
      rcases hover.bind_inv with ⟨e, hnew, -⟩ | ⟨lead, s₂, es₃, es₄, hnew, hret, rfl⟩
      · cases solo_steady hnew hes₂ fun _ _ => steady_ask fun _ => rfl
      · obtain ⟨hlead, hempty⟩ := solo_newEmptyCRL hmay hnew
        refine ⟨lead, Or.inr ⟨hown, hlead, hempty⟩, ?_⟩
        -- Nothing that is stored begins with a list of ours, so there is something to write.
        have hchanges : planChanges cert crlPEM stored lead = true := by
          have hnotmem : lead ∉ stored := by
            intro hmem
            have hforeign := ownCRLIn_eq_none.mp hown lead (List.mem_append_right _ hmem)
            rw [hlead] at hforeign
            cases hforeign
          have hne : stored ≠ lead :: others cert stored := by
            intro heq
            rw [heq] at hnotmem
            exact hnotmem List.mem_cons_self
          simp [planChanges, hne]
        rw [hchanges]
        exact (Solo.ret_inv hret).2.1

/-- What is published in the place of `b`, with `lead` in front. -/
def published (cert : Certificate) (crlPEM : Option Blob) (stored : List RevocationList)
    (lead : RevocationList) (b : Option Blob) : Option Blob :=
  if planChanges cert crlPEM stored lead then
    some (encodeCRLChain (plannedChain cert crlPEM stored lead))
  else b

/-- Written or not, it is the chain that was planned. -/
theorem storedLists_published {b : Option Blob} (hstored : storedLists b = some stored) :
    storedLists (published cert crlPEM stored lead b) =
      some (plannedChain cert crlPEM stored lead) := by
  unfold published
  split
  · exact decodeCRLChain_encodeCRLChain _
  · next hsame =>
    obtain ⟨hnone, heq⟩ : crlPEM = none ∧ stored = lead :: others cert stored := by
      simpa [planChanges] using hsame
    rw [hstored, plannedChain, hnone]
    exact congrArg some heq

/-- **The same list is put in front again.** -/
theorem LeadOf.again {lead' : RevocationList} (h : LeadOf cert (suppliedCRLs crlPEM ++ stored) lead)
    (h' : LeadOf cert (suppliedCRLs crlPEM ++ plannedChain cert crlPEM stored lead) lead') :
    lead' = lead := by
  have hagain : ownCRLIn (suppliedCRLs crlPEM ++ plannedChain cert crlPEM stored lead) cert =
      some lead := by
    refine ownCRLIn_again stored h.own (fun c hc => by simpa using (List.mem_filter.mp hc).2)
      fun x hx => ?_
    rcases h with h | ⟨hnone, -, -⟩
    · exact h
    · rw [ownCRLIn_append_some hx] at hnone
      split at hnone <;> cases hnone
  rcases h' with h' | ⟨hnone, -, -⟩
  · exact Option.some.inj (h'.symm.trans hagain)
  · cases hnone.symm.trans hagain

/-- **Publishing again changes nothing.** -/
theorem published_again {b : Option Blob} (hlead : crlSignedBy cert lead = true) :
    published cert crlPEM (plannedChain cert crlPEM stored lead) lead
        (published cert crlPEM stored lead b) =
      published cert crlPEM stored lead b := by
  have hothers : others cert (plannedChain cert crlPEM stored lead) =
      others cert (statedCRLs crlPEM stored) := by
    rw [plannedChain, others, List.filter_cons_of_neg (by simp [hlead])]
    simp [others]
  cases crlPEM with
  | none =>
    have hsame : planChanges cert none (plannedChain cert none stored lead) lead = false := by
      simp only [planChanges, hothers]
      simp [plannedChain]
    rw [published, hsame]
    rfl
  | some pem => rfl

variable {r : Except Failure Unit}

/-- The section under the CRL lock publishes the plan. -/
theorem solo_writePlan_smooth (hmay : cert.maySignCRLs = true)
    (hstored : storedLists s.crl = some stored) (href : planRefuses cert crlPEM stored = false)
    (h : Solo machine t s (writePlan cert crlPEM) es r s') (hes : Smooth es) :
    r = .ok () ∧ ∃ lead, LeadOf cert (suppliedCRLs crlPEM ++ stored) lead ∧
      s'.crl = published cert crlPEM stored lead s.crl := by
  -- What was accepted before is accepted again.
  have hplans : ∀ {es' r' s₁}, Solo machine t s (planCRLImport cert crlPEM) es' r' s₁ →
      Smooth es' → ∃ lead, LeadOf cert (suppliedCRLs crlPEM ++ stored) lead ∧
        r' = .ok (plannedChain cert crlPEM stored lead, planChanges cert crlPEM stored lead) := by
    intro es' r' s₁ hplan hes'
    rcases solo_planCRLImport hmay hplan hes' with ⟨-, hno⟩ | ⟨stored', hstored', -, hyes⟩
    · cases href.symm.trans (hno stored hstored)
    · obtain rfl := Option.some.inj (hstored.symm.trans hstored')
      exact hyes
  rcases h.bind_inv with ⟨e, hplan, -⟩ | ⟨⟨plan, changed⟩, s₁, es₁, es₂, hplan, hwrite, rfl⟩
  · obtain ⟨lead, -, he⟩ := hplans hplan hes
    cases he
  obtain ⟨hes₁, hes₂⟩ := smooth_append.mp hes
  have hsame : s₁.crl = s.crl := (solo_sameCRL hplan (quiet_planCRLImport _ _)).crl
  obtain ⟨lead, hlead, heq⟩ := hplans hplan hes₁
  obtain ⟨rfl, rfl⟩ := Prod.mk.inj (Except.ok.inj heq)
  have hok := solo_steady hwrite hes₂ (steady_doIf (steady_ask fun _ => rfl))
  refine ⟨?_, lead, hlead, ?_⟩
  · cases r with
    | error e => cases hok
    | ok u => rfl
  · unfold published
    simp only [doIf] at hwrite
    split at hwrite
    · next hchanges =>
      rw [if_pos hchanges]
      obtain ⟨ch, a, s₂, es₃, hex, hret, -⟩ := solo_cmd_bind hwrite
      obtain ⟨-, rfl, rfl⟩ := Solo.ofExcept_inv hret
      simp only [exec, writeOutcome] at hex
      split at hex
      · obtain ⟨rfl, -⟩ := Prod.mk.inj (Option.some.inj hex)
        cases hok
      · cases hex
        rfl
    · next hchanges =>
      rw [if_neg hchanges, ← hsame, (Solo.ret_inv hwrite).2.2]

/-! ### The import, in such a run -/

abbrev ReadOnly {α : Type} (p : Prog α) : Prop := p.Only fun c : Cmd => c.writes = false

theorem readOnly_planCRLImport (crlPEM : Option Blob) : ReadOnly (planCRLImport cert crlPEM) := by
  have hnew : ReadOnly (newEmptyCRL cert crlValidity) :=
    always_cmd_bind rfl fun _ => only_ask (only_cmd (c := .createRevocationList _) rfl)
  have hread : ReadOnly storedCRLChain := by
    refine always_cmd_bind rfl fun r => ?_
    rcases r with e | blob
    · cases e <;> trivial
    · simp only
      split <;> trivial
  refine Prog.only_bind hread fun stored => ?_
  rw [planOver_eq]
  split
  · trivial
  · split
    · trivial
    · exact Prog.only_bind hnew fun _ => trivial

theorem readOnly_checkedBundle (bundle : Option (List Certificate)) (signer : PublicKey) :
    ReadOnly (checkedBundle bundle signer) :=
  Prog.always_mono (checkedBundle_always (C := fun c : Cmd => c.writes = false) rfl bundle signer)
    fun _ _ => trivial

theorem quiet_checkedBundle (bundle : Option (List Certificate)) (signer : PublicKey) :
    (checkedBundle bundle signer).Only Cmd.Quiet :=
  Prog.always_mono (checkedBundle_always trivial bundle signer) fun _ _ => trivial

/-- **`importCAMaterial` where nothing fails**: it refuses, having written nothing but what
`EnsureDirs` makes, or it publishes. -/
theorem solo_importCAMaterial_smooth {bundle : Option (List Certificate)} {withKey : Bool}
    {signer : PublicKey}
    (h : Solo machine t s (importCAMaterial bundle withKey crlPEM signer) es r s') (hes : Smooth es)
    :
    (∃ e, r = .error e ∧ writesOf es <+: [.saveOther] ∧ s'.crl = s.crl) ∨
    r = .ok () ∧ ∃ cert stored lead, bundle.bind List.head? = some cert ∧
      storedLists s.crl = some stored ∧ LeadOf cert (suppliedCRLs crlPEM ++ stored) lead ∧
      s'.crl = published cert crlPEM stored lead s.crl := by
  rcases h.bind_inv with ⟨e, hrun, rfl⟩ | ⟨⟨cert, certs⟩, s₁, es₁, es₂, hchecked, h₁, rfl⟩
  · refine Or.inl ⟨e, rfl, ?_, (solo_sameCRL hrun (quiet_checkedBundle _ _)).crl⟩
    rw [solo_writesOf hrun (readOnly_checkedBundle _ _)]
    exact List.nil_prefix
  obtain ⟨hhead, hmay⟩ := (hchecked.always
    (checkedBundle_always (C := fun _ => True) trivial bundle signer)).1 _ rfl
  have hcrl₁ : s₁.crl = s.crl := (solo_sameCRL hchecked (quiet_checkedBundle _ _)).crl
  have hother : Steady (ask (cmd .saveOther)) := steady_ask fun _ => rfl
  obtain ⟨_, s₂, es₃, es₄, hdirs, hcrl₂, h₂, rfl, hes₄⟩ := solo_steady_bind h₁
    (smooth_append.mp hes).2 hother (only_ask (only_cmd (c := .saveOther) trivial))
  have hwrites : writesOf es₃ = [.saveOther] := by
    obtain ⟨ch, a, s₃, es₅, -, hret, rfl⟩ := solo_cmd_bind hdirs
    obtain ⟨rfl, -, -⟩ := Solo.ofExcept_inv hret
    rfl
  rcases h₂.bind_inv with ⟨e, hplan, rfl⟩ | ⟨plan, s₃, es₅, es₆, hplan, h₃, rfl⟩
  -- The plan is refused.
  · refine Or.inl ⟨e, rfl, ?_, ?_⟩
    · rw [writesOf_append, writesOf_append, hwrites,
        solo_writesOf hchecked (readOnly_checkedBundle _ _),
        solo_writesOf hplan (readOnly_planCRLImport crlPEM)]
      exact List.prefix_rfl
    · rw [(solo_sameCRL hplan (quiet_planCRLImport _ _)).crl, hcrl₂, hcrl₁]
  -- There is a plan, and so there is one under the lock.
  obtain ⟨hes₅, hes₆⟩ := smooth_append.mp hes₄
  have hcrl₃ : s₃.crl = s.crl := by
    rw [(solo_sameCRL hplan (quiet_planCRLImport _ _)).crl, hcrl₂, hcrl₁]
  obtain ⟨stored, hstored, href⟩ : ∃ stored, storedLists s.crl = some stored ∧
      planRefuses cert crlPEM stored = false := by
    rcases solo_planCRLImport hmay hplan hes₅ with ⟨⟨e, he⟩, -⟩ | ⟨stored, hstored, href, -⟩
    · cases he
    · rw [hcrl₂, hcrl₁] at hstored
      exact ⟨stored, hstored, href⟩
  obtain ⟨_, s₄, _, es₇, -, hcrl₄, h₄, -, hes₇⟩ := solo_steady_bind h₃ hes₆ (steady_doIf hother)
    (only_doIf (only_ask (only_cmd (c := .saveOther) trivial)))
  obtain ⟨_, s₅, _, es₈, -, hcrl₅, h₅, -, hes₈⟩ := solo_steady_bind h₄ hes₇
    (steady_ask fun _ => rfl) (only_ask (only_cmd (c := .saveCACert certs) trivial))
  obtain ⟨_, s₆, _, es₉, -, hcrl₆, h₆, -, hes₉⟩ := solo_steady_bind h₅ hes₈ hother
    (only_ask (only_cmd (c := .saveOther) trivial))
  have hcrl₆ : s₆.crl = s.crl := by rw [hcrl₆, hcrl₅, hcrl₄, hcrl₃]
  rcases h₆.bind_inv with ⟨e, hlocked, rfl⟩ | ⟨_, s₇, es₁₀, es₁₁, hlocked, hend, rfl⟩
  · rcases solo_withLock hlocked with ⟨-, -, rfl⟩ | ⟨s₈, es₁₀, hbody, -, rfl⟩
    · cases (smooth_cons.mp hes₉).1
    · cases (solo_writePlan_smooth hmay (hcrl₆ ▸ hstored) href hbody
        (smooth_append.mp (smooth_cons.mp hes₉).2).1).1
  obtain ⟨hes₁₀, hes₁₁⟩ := smooth_append.mp hes₉
  refine Or.inr ⟨?_, cert, stored, ?_⟩
  · have hok := solo_steady hend hes₁₁ (steady_bind (steady_ask fun _ => rfl) fun _ =>
      steady_bind (steady_doIf (steady_ask fun _ => rfl)) fun _ => hother)
    cases r with
    | error e => cases hok
    | ok u => rfl
  · have hrest : s'.crl = s₇.crl := by
      refine (solo_sameCRL hend ?_).crl
      refine Prog.only_bind (only_ask (only_cmd (c := .hasSerial) trivial)) fun hasSerial => ?_
      refine Prog.only_bind (only_doIf (only_ask (only_cmd (c := .writeSerial) trivial)))
        fun _ => ?_
      exact only_ask (only_cmd (c := .saveOther) trivial)
    rcases solo_withLock hlocked with ⟨he, -⟩ | ⟨s₈, es₁₂, hbody, rfl, rfl⟩
    · cases he
    obtain ⟨-, lead, hlead, hpub⟩ := solo_writePlan_smooth hmay (hcrl₆ ▸ hstored) href hbody
      (smooth_append.mp (smooth_cons.mp hes₁₀).2).1
    refine ⟨lead, hhead, hstored, hlead, ?_⟩
    rw [hrest, ← hcrl₆]
    exact hpub

/-! ### The two entry points -/

/-- An import that does not replace by force: `ImportCAMaterial`, with or without a private key and
a CRL chain, or `ImportCACertificate`. -/
inductive UnforcedImport
  | material (withKey : Bool) (crlPEM : Option Blob)
  | certificate (crlValidity : Duration)

namespace UnforcedImport

def suppliedChain : UnforcedImport → Option Blob
  | .material _ crlPEM => crlPEM
  | .certificate _ => none

def program (bundle : Option (List Certificate)) (signer : PublicKey) : UnforcedImport → Prog Unit
  | .material withKey crlPEM => importCAMaterial bundle withKey crlPEM signer
  | .certificate crlValidity => do
    let _ ← importCACertificate
      { bundle := bundle, signer := signer, crlValidity := crlValidity, force := false }
    return ()

end UnforcedImport

/-- **`ImportCACertificate` without force, where nothing fails.** -/
theorem solo_importCACertificate_smooth {i : CertImport} {r : Except Failure Bool}
    (hforce : i.force = false) (h : Solo machine t s (importCACertificate i) es r s')
    (hes : Smooth es) :
    (∃ e, r = .error e ∧ writesOf es <+: [.saveOther] ∧ s'.crl = s.crl) ∨
    (∃ replaced, r = .ok replaced) ∧ ∃ cert stored lead, i.bundle.bind List.head? = some cert ∧
      storedLists s.crl = some stored ∧ LeadOf cert (suppliedCRLs none ++ stored) lead ∧
      s'.crl = published cert none stored lead s.crl := by
  rcases h.bind_inv with ⟨e, hrun, rfl⟩ | ⟨⟨cert, certs⟩, s₁, es₁, es₂, hchecked, hlocked, rfl⟩
  · refine Or.inl ⟨e, rfl, ?_, (solo_sameCRL hrun (quiet_checkedBundle _ _)).crl⟩
    rw [solo_writesOf hrun (readOnly_checkedBundle _ _)]
    exact List.nil_prefix
  have hcrl₁ : s₁.crl = s.crl := (solo_sameCRL hchecked (quiet_checkedBundle _ _)).crl
  have hwrites₁ : writesOf es₁ = [] := solo_writesOf hchecked (readOnly_checkedBundle _ _)
  have hes₂ := (smooth_append.mp hes).2
  rcases solo_withLock hlocked with ⟨-, -, rfl⟩ | ⟨s₂, es₃, hbody, rfl, rfl⟩
  · cases (smooth_cons.mp hes₂).1
  have hes₃ : Smooth es₃ := (smooth_append.mp (smooth_cons.mp hes₂).2).1
  have hwrites₂ : writesOf (⟨.lock .bootstrap, .ok ()⟩ :: (es₃ ++ [⟨.unlock .bootstrap, ()⟩])) =
      writesOf es₃ := by
    simp [writesOf, Cmd.writes]
  rw [writesOf_append, hwrites₁, hwrites₂, List.nil_append]
  obtain ⟨hasCert, s₃, es₄, es₅, hhas, hcrl₃, hbody, rfl, hes₅⟩ := solo_steady_bind hbody hes₃
    (steady_ask fun _ => rfl) (only_ask (only_cmd (c := .hasCACert) trivial))
  have hwrites₄ : writesOf es₄ = [] :=
    solo_writesOf hhas (only_ask (only_cmd (c := .hasCACert) rfl))
  have hcrl₃ : s₃.crl = s.crl := hcrl₃.trans hcrl₁
  rw [writesOf_append, hwrites₄, List.nil_append]
  cases hasCert with
  | true =>
    rw [if_pos ⟨rfl, by simp [hforce]⟩] at hbody
    obtain ⟨rfl, rfl, rfl⟩ := Solo.fail_inv hbody
    exact Or.inl ⟨_, rfl, List.nil_prefix, hcrl₃⟩
  | false =>
    rw [if_neg (by simp)] at hbody
    rcases Solo.bind_inv (p := importCAMaterial i.bundle false none i.signer) hbody with
      ⟨e, hmaterial, rfl⟩ | ⟨_, s₄, es₆, es₇, hmaterial, hret, rfl⟩
    · rcases solo_importCAMaterial_smooth hmaterial hes₅ with ⟨_, _, hw, hc⟩ | ⟨hr, -⟩
      · exact Or.inl ⟨e, rfl, hw, hc.trans hcrl₃⟩
      · cases hr
    · obtain ⟨rfl, rfl, rfl⟩ := Solo.ret_inv hret
      rcases solo_importCAMaterial_smooth hmaterial (smooth_append.mp hes₅).1 with
        ⟨_, hr, -⟩ | ⟨-, cert', stored, lead, hhead, hstored, hlead, hpub⟩
      · cases hr
      · rw [hcrl₃] at hstored hpub
        exact Or.inr ⟨⟨_, rfl⟩, cert', stored, lead, hhead, hstored, hlead, hpub⟩

/-- What an import does where nothing fails. -/
theorem solo_unforced {i : UnforcedImport} {bundle : Option (List Certificate)} {signer : PublicKey}
    (h : Solo machine t s (i.program bundle signer) es r s') (hes : Smooth es) :
    (∃ e, r = .error e ∧ writesOf es <+: [.saveOther] ∧ s'.crl = s.crl) ∨
    r = .ok () ∧ ∃ cert stored lead, bundle.bind List.head? = some cert ∧
      storedLists s.crl = some stored ∧
      LeadOf cert (suppliedCRLs i.suppliedChain ++ stored) lead ∧
      s'.crl = published cert i.suppliedChain stored lead s.crl := by
  cases i with
  | material withKey crlPEM => exact solo_importCAMaterial_smooth h hes
  | certificate validity =>
    rcases h.bind_inv with ⟨e, hrun, rfl⟩ | ⟨replaced, s₁, es₁, es₂, hrun, hret, rfl⟩
    · rcases solo_importCACertificate_smooth rfl hrun hes with ⟨_, _, hw, hc⟩ | ⟨⟨_, hr⟩, -⟩
      · exact Or.inl ⟨e, rfl, hw, hc⟩
      · cases hr
    · obtain ⟨rfl, rfl, rfl⟩ := Solo.ret_inv hret
      rcases solo_importCACertificate_smooth rfl hrun (smooth_append.mp hes).1 with
        ⟨_, hr, -⟩ | ⟨-, hpub⟩
      · cases hr
      · exact Or.inr ⟨rfl, hpub⟩

/-- **An unforced import publishes the right chain.** In a run with no other writer and no failure,
it refuses, having written nothing but what `EnsureDirs` makes, or it leaves the right chain, and
then every import of the same material leaves it as it is. -/
theorem unforced_import_publishes {i : UnforcedImport} {bundle : Option (List Certificate)}
    {signer : PublicKey} {r : Except Failure Unit}
    (h : Solo machine t s (i.program bundle signer) es r s') (hes : Smooth es)
    (hdistinct : ∀ cert stored, bundle.bind List.head? = some cert →
      storedLists s.crl = some stored →
      DistinctNumbers cert (suppliedCRLs i.suppliedChain ++ stored)) :
    (∃ e, r = .error e ∧ writesOf es <+: [.saveOther] ∧ s'.crl = s.crl) ∨
    r = .ok () ∧ ∃ cert stored chain, bundle.bind List.head? = some cert ∧
      storedLists s.crl = some stored ∧ storedLists s'.crl = some chain ∧
      RightChain cert i.suppliedChain stored chain ∧
      ∀ {t₂ s₂ es₂ r₂ s₂'}, s₂.crl = s'.crl →
        Solo machine t₂ s₂ (i.program bundle signer) es₂ r₂ s₂' → Smooth es₂ →
        s₂'.crl = s'.crl := by
  rcases solo_unforced h hes with hrefused | ⟨hr, cert, stored, lead, hhead, hstored, hlead, hpub⟩
  · exact Or.inl hrefused
  have hlists : storedLists s'.crl = some (plannedChain cert i.suppliedChain stored lead) := by
    rw [hpub]
    exact storedLists_published hstored
  refine Or.inr ⟨hr, cert, stored, _, hhead, hstored, hlists,
    ⟨lead, hlead.leads (hdistinct cert stored hhead hstored), rfl⟩, ?_⟩
  intro t₂ s₂ es₂ r₂ s₂' hs₂ h₂ hes₂
  rcases solo_unforced h₂ hes₂ with ⟨e, -, -, hsame⟩ | ⟨-, cert₂, stored₂, lead₂, hhead₂, hstored₂,
    hlead₂, hpub₂⟩
  · rw [hsame, hs₂]
  · obtain rfl := Option.some.inj (hhead.symm.trans hhead₂)
    rw [hs₂] at hstored₂ hpub₂
    obtain rfl := Option.some.inj (hlists.symm.trans hstored₂)
    obtain rfl := hlead.again hlead₂
    rw [hpub₂, hpub]
    exact published_again hlead.own

/-! ### Imports of a CA under a root -/

/-- The import of the CA's certificate on a storage, with the choices of the environment: of each
exchange that fails, whether it asks for a signature, then whether the import succeeds, whether the
certificate is stored, and the chain that is. -/
def materialSeen (crlPEM : Option Blob) (chs : List Choice) (s : State) :
    Option (List Bool × Bool × Bool × Option Blob) :=
  (((UnforcedImport.material false crlPEM).program (some [subCert, rootCert])
    subCert.publicKey).runAlone machine ⟨0, 0⟩ chs s).map fun x =>
      ((x.1.filter fun y => y.1.failed y.2).map fun y => y.1.signs, x.2.1.isOk,
        decide (x.2.2.caBundle = some (some [subCert, rootCert])), x.2.2.crl)

theorem solo_of_materialSeen {crlPEM : Option Blob} {chs : List Choice} {s : State}
    {fs : List Bool} {ok bundled : Bool} {chain : Option Blob}
    (h : materialSeen crlPEM chs s = some (fs, ok, bundled, chain)) :
    ∃ es r s', Solo machine ⟨0, 0⟩ s ((UnforcedImport.material false crlPEM).program
        (some [subCert, rootCert]) subCert.publicKey) es r s' ∧
      (es.filter fun x => x.1.failed x.2).map (fun x => x.1.signs) = fs ∧ r.isOk = ok ∧
      decide (s'.caBundle = some (some [subCert, rootCert])) = bundled ∧ s'.crl = chain := by
  obtain ⟨⟨es, r, s'⟩, hrun, hseen⟩ := Option.map_eq_some_iff.mp h
  simp only [Prod.mk.injEq] at hseen
  exact ⟨es, r, s', .of_runAlone hrun, hseen⟩

/-- **A signature can fail between the two plans.** On an empty storage the import has its empty
list signed once to see that it can, writes the certificate, and has it signed again; where no
storage operation fails but that second signature does, the certificate is stored and there is no
chain. -/
theorem unsigned_import_leaves_no_chain :
    ∃ es r s', Solo machine ⟨0, 0⟩ ({} : State) ((UnforcedImport.material false none).program
        (some [subCert, rootCert]) subCert.publicKey) es r s' ∧
      (∀ x ∈ es, x.1.failed x.2 = true → x.1.signs = true) ∧ r.isOk = false ∧
      s'.caBundle = some (some [subCert, rootCert]) ∧ s'.crl = none := by
  have hseen : materialSeen none (List.replicate 10 ({} : Choice) ++
    [{ fails := true }, ({} : Choice)])
      {} =
      some ([true], false, true, none) := by
    decide +kernel
  obtain ⟨es, r, s', hsolo, hfailed, hr, hbundle, hcrl⟩ := solo_of_materialSeen hseen
  refine ⟨es, r, s', hsolo, fun x hx hfail => ?_, hr, of_decide_eq_true hbundle, hcrl⟩
  have hmem : x.1.signs ∈ (es.filter fun x => x.1.failed x.2).map fun x => x.1.signs :=
    List.mem_map_of_mem (List.mem_filter.mpr ⟨hx, hfail⟩)
  rw [hfailed] at hmem
  exact List.mem_singleton.mp hmem

/-- A later list of the CA. -/
def newSubList : RevocationList := { subList with number := some 7 }

/-- A chain is supplied with an old list of the CA in it: the stored one stays in front, and the
root's list comes to be behind it. -/
theorem unforced_import_publishes_sample :
    ∃ es r s', Solo machine ⟨0, 0⟩ (chainState [newSubList])
        ((UnforcedImport.material false (some (encodeCRLChain [rootList, subList]))).program
          (some [subCert, rootCert]) subCert.publicKey) es r s' ∧ r = .ok () ∧
      ∃ chain, storedLists s'.crl = some chain ∧
        RightChain subCert (some (encodeCRLChain [rootList, subList]))
          [newSubList] chain := by
  have hseen : materialSeen (some (encodeCRLChain [rootList, subList])) (List.replicate 20 {})
      (chainState [newSubList]) =
      some ([], true, true, some (encodeCRLChain [newSubList, rootList])) := by
    decide +kernel
  obtain ⟨es, r, s', hsolo, hfailed, hr, -, -⟩ := solo_of_materialSeen hseen
  have hsmooth : Smooth es := by
    intro x hx
    have hnil := List.filter_eq_nil_iff.mp (List.map_eq_nil_iff.mp hfailed) x hx
    simpa using hnil
  have hdistinct : ∀ cert stored, (some [subCert, rootCert]).bind List.head? = some cert →
      storedLists (chainState [newSubList]).crl = some stored →
      DistinctNumbers cert
        (suppliedCRLs (some (encodeCRLChain [rootList, subList])) ++ stored) := by
    rintro _ _ ⟨⟩ ⟨⟩
    unfold DistinctNumbers
    decide
  rcases unforced_import_publishes hsolo hsmooth hdistinct with
    ⟨e, rfl, -⟩ | ⟨rfl, cert, stored, chain, hcert, hstored, hchain, hright, -⟩
  · cases hr
  · obtain rfl := Option.some.inj hcert
    obtain rfl := Option.some.inj hstored
    exact ⟨es, _, s', hsolo, rfl, chain, hchain, hright⟩

end OpenvoxCa.Ca
