import OpenvoxCa.Ca.Cleanup
import OpenvoxCa.Ca.ImportRace

/-!
# A forced import on its own

What `ImportCACertificate` makes of the published chain when nobody else writes it. Two steps choose
"our" list, by different rules. `ResignStoredCRL` takes block 0 of what is stored, whoever signed
it, and signs it again under the new certificate; `planCRLImport` is then handed that one list as
though an operator had supplied it, and treats a supplied chain as all there is to say about the
ancestors. So the chain that is written is a single list (`import_writes`): the copy of block 0, or
the newest stored list that the new certificate signed, if its number is beyond the copy's.

Two things follow. Every ancestor list that was published is dropped, and where block 0 was not the
newest list of the replaced certificate, what the newest one revokes is not carried across
(`import_drops_chain`). `import_conserves_chain` says exactly which stored chains survive.
-/

namespace OpenvoxCa.Ca

open Conc

variable {t : Tid} {s s' : State} {es : List (Exchange interface)} {new replaced : Certificate}
  {ancestors : List Certificate} {i : CertImport} {blob : Blob} {stored : List RevocationList}

/-! ### What is to be conserved -/

/-- The stored lists of the ancestors: as everywhere else, a list that the certificate of
this CA signed is its own. -/
def ancestorLists (new : Certificate) (ancestors : List Certificate)
    (stored : List RevocationList) : List RevocationList :=
  stored.filter fun crl => !crlSignedBy new crl && signedByAny ancestors crl

/-- The list has a number, and it is greater than that of `newest`. -/
def Exceeds (number newest : Option ℤ) : Prop :=
  ∃ m, number = some m ∧ ∀ n, newest = some n → n < m

/-- **The published chain is conserved**: block 0 of the chain `published` revokes what the
newest stored list of the replaced certificate revoked, with a greater number, and the lists
of the ancestors are still there. -/
def Conserves (replaced new : Certificate) (ancestors : List Certificate)
    (stored : List RevocationList) (published : Option Blob) : Prop :=
  ∃ lead rest, published = some (encodeCRLChain (lead :: rest)) ∧
    (∀ newest, ownCRLIn stored replaced = some newest →
      newest.serials ⊆ lead.serials ∧ Exceeds lead.number newest.number) ∧
    ∀ crl ∈ ancestorLists new ancestors stored, crl ∈ lead :: rest

/-- **The stored chain can be conserved**, with `first` as its block 0: there are no lists of
ancestors in it, and what its newest own list revokes is on the list that outruns the copy of
block 0 or, where there is none, on block 0 itself. -/
def Conservable (replaced new : Certificate) (ancestors : List Certificate)
    (first : RevocationList) (stored : List RevocationList) : Prop :=
  ancestorLists new ancestors stored = [] ∧
    ∀ newest, ownCRLIn stored replaced = some newest →
      match outrunner new first stored with
      | some newer => newest.serials ⊆ newer.serials ∧ Exceeds newer.number newest.number
      | none => newest.serials ⊆ first.serials ∧
          ∀ n, newest.number = some n → n < nextNumber first

variable {r : RevocationList}

/-- Which of the two leads, and with which number. -/
theorem leadOf_cases {first : RevocationList} (hnum : r.number = some (nextNumber first)) :
    (∃ newer, outrunner new first stored = some newer ∧ leadOf new stored r = newer) ∨
      outrunner new first stored = none ∧ leadOf new stored r = r := by
  unfold leadOf outrunner
  cases ownCRLIn stored new with
  | none => exact Or.inr ⟨rfl, rfl⟩
  | some newest =>
    have hnewer := newerCRL_of_number newest hnum
    cases hout : newest.number.any fun m => decide (nextNumber first < m) with
    | true => exact Or.inl ⟨newest, by simp [Option.filter, hout], by simp [hnewer, hout]⟩
    | false => exact Or.inr ⟨by simp [Option.filter, hout], by simp [hnewer, hout]⟩

theorem crlSignedBy_leadOf (hr : crlSignedBy new r = true) :
    crlSignedBy new (leadOf new stored r) = true := by
  unfold leadOf
  cases hown : ownCRLIn stored new with
  | none => exact hr
  | some newest =>
    simp only
    split
    · exact (ownCRLIn_mem hown).2
    · exact hr

/-- **A chain of one list conserves what can be conserved.** -/
theorem conserves_singleton_iff {first : RevocationList} (hr : crlSignedBy new r = true)
    (hnum : r.number = some (nextNumber first)) (hent : r.entries = first.entries) :
    Conserves replaced new ancestors stored (some (encodeCRLChain [leadOf new stored r])) ↔
      Conservable replaced new ancestors first stored := by
  have hserials : r.serials = first.serials := congrArg (List.map _) hent
  -- The list that leads is ours, and so it is none of the ancestors'.
  have hanc : (∀ crl ∈ ancestorLists new ancestors stored, crl ∈ [leadOf new stored r]) ↔
      ancestorLists new ancestors stored = [] := by
    refine ⟨fun h => List.eq_nil_iff_forall_not_mem.mpr fun crl hcrl => ?_, fun h crl hcrl => ?_⟩
    · have hforeign := (List.mem_filter.mp hcrl).2
      rw [List.mem_singleton.mp (h crl hcrl), crlSignedBy_leadOf hr] at hforeign
      cases hforeign
    · rw [h] at hcrl
      cases hcrl
  have hown : ∀ newest : RevocationList,
      newest.serials ⊆ (leadOf new stored r).serials ∧
        Exceeds (leadOf new stored r).number newest.number ↔
      match outrunner new first stored with
      | some newer => newest.serials ⊆ newer.serials ∧ Exceeds newer.number newest.number
      | none => newest.serials ⊆ first.serials ∧
          ∀ n, newest.number = some n → n < nextNumber first := by
    intro newest
    have hcases : (∃ newer, outrunner new first stored = some newer ∧
        leadOf new stored r = newer) ∨ outrunner new first stored = none ∧
          leadOf new stored r = r := leadOf_cases hnum
    rcases hcases with ⟨newer, hout, hlead⟩ | ⟨hout, hlead⟩
    · rw [hout, hlead]
    · rw [hout, hlead, hserials, hnum]
      simp [Exceeds]
  unfold Conserves Conservable
  constructor
  · rintro ⟨lead, rest, heq, hnewest, hkept⟩
    have hchain : [leadOf new stored r] = lead :: rest := by
      have := congrArg (Option.map decodeCRLChain) heq
      simpa using this
    obtain ⟨rfl, rfl⟩ := List.cons.inj hchain
    exact ⟨hanc.mp hkept, fun newest h => (hown newest).mp (hnewest newest h)⟩
  · rintro ⟨hnone, hnewest⟩
    exact ⟨_, [], rfl, fun newest h => (hown newest).mpr (hnewest newest h), hanc.mpr hnone⟩

/-! ### The import, from its beginning to its end -/

/-- A program that leaves the chain alone, and what comes after it. -/
theorem solo_quiet_bind {α β : Type} {p : Prog α} {f : α → Prog β} {b : β} (hp : p.Only Cmd.Quiet)
    (h : Solo machine t s (p.bind f) es (.ok b) s') :
    ∃ a s₁ es₁ es₂, Solo machine t s p es₁ (.ok a) s₁ ∧ s₁.crl = s.crl ∧
      Solo machine t s₁ (f a) es₂ (.ok b) s' := by
  obtain ⟨a, s₁, es₁, es₂, hrun, hrest, -⟩ := h.bind_inv_ok
  exact ⟨a, s₁, es₁, es₂, hrun, (solo_sameCRL hrun hp).crl, hrest⟩

/-- `ResignStoredCRL`: the copy is one of block 0. -/
theorem solo_resignStoredCRL {validity : Duration} {crlPEM : Option Blob}
    (h : Solo machine t s (resignStoredCRL new validity) es (.ok crlPEM) s') :
    CarriedFrom new crlPEM s.crl ∧ s'.crl = s.crl := by
  obtain ⟨ch, a, s₁, es₁, hex, h, -⟩ := solo_cmd_bind h
  cases hex
  cases hread : readOutcome ch s.crl with
  | error e =>
    rw [hread] at h
    cases e with
    | notExist =>
      obtain ⟨-, hr, rfl⟩ := Solo.ret_inv h
      exact ⟨Or.inl ⟨Except.ok.inj hr, readOutcome_eq_notExist hread⟩, rfl⟩
    | _ => exact absurd h Solo.not_ok_of_fail
  | ok blob =>
    rw [hread] at h
    cases blob with
    | nil => exact absurd h Solo.not_ok_of_fail
    | cons block rest =>
      cases hold : block.crl with
      | none =>
        simp only [hold] at h
        exact absurd h Solo.not_ok_of_fail
      | some old =>
        simp only [hold] at h
        obtain ⟨_, now, s₂, _, hnow, h, -⟩ := solo_cmd_bind h
        cases hnow
        obtain ⟨crl, s₃, _, _, hsign, h, -⟩ := h.bind_inv_ok
        obtain ⟨rfl, hcrl⟩ := solo_createRevocationList hsign
        obtain ⟨hnum, hent, hsigned⟩ := hcrl crl rfl
        obtain ⟨-, hr, rfl⟩ := Solo.ret_inv h
        refine ⟨Or.inr ⟨crl, old, Except.ok.inj hr, ?_, hsigned, hnum, hent⟩, rfl⟩
        rw [readOutcome_eq_ok hread]
        exact hold

/-- The section under the CRL lock writes the plan for the copy `r`. -/
theorem solo_writePlan (hr : crlSignedBy new r = true) (hcrl : s.crl = some blob)
    (hdec : decodeCRLChain blob = some stored)
    (h : Solo machine t s (writePlan new (some (encodeCRLChain [r]))) es (.ok ()) s') :
    s'.crl = some (encodeCRLChain [leadOf new stored r]) := by
  obtain ⟨⟨plan, changed⟩, s₁, _, _, hplan, h, -⟩ := h.bind_inv_ok
  obtain ⟨chain, s₂, _, _, hread, hplan, -⟩ := hplan.bind_inv_ok
  -- What is read is what is stored.
  have hchain : chain = stored := by
    obtain ⟨ch, a, s₃, _, hex, hread, -⟩ := solo_cmd_bind hread
    cases hex
    cases hout : readOutcome ch s.crl with
    | error e =>
      rw [hout] at hread
      cases e with
      | notExist =>
        rw [hcrl] at hout
        exact absurd (readOutcome_eq_notExist hout) nofun
      | _ => exact absurd hread Solo.not_ok_of_fail
    | ok b =>
      have hb := readOutcome_eq_ok hout
      rw [hout] at hread
      obtain rfl := Option.some.inj (hcrl.symm.trans hb)
      simp only [hdec] at hread
      exact Except.ok.inj (Solo.ret_inv hread).2.1
  subst hchain
  have hover : planOver new (some (encodeCRLChain [r])) chain =
      .ret ([leadOf new chain r], true) := by
    rw [← preferStored_singleton]
    simp [planOver, planWithChain, orderCRLChain, orderStep, hr]
  rw [hover] at hplan
  obtain ⟨-, hres, -⟩ := Solo.ret_inv hplan
  obtain ⟨rfl, rfl⟩ := Prod.mk.inj (Except.ok.inj hres)
  obtain ⟨ch, a, s₃, _, hex, hret, -⟩ := solo_cmd_bind h
  obtain ⟨-, hok, rfl⟩ := Solo.ofExcept_inv hret
  simp only [exec, writeOutcome] at hex
  split at hex
  · obtain ⟨rfl, -⟩ := Prod.mk.inj (Option.some.inj hex)
    cases hok
  · cases hex
    rfl

theorem solo_importCAMaterial (hlead : i.leading = some new)
    (hsigned : r.signedBy = new.publicKey) (hcrl : s.crl = some blob)
    (hdec : decodeCRLChain blob = some stored)
    (h : Solo machine t s (importCAMaterial i.bundle false (some (encodeCRLChain [r])) i.signer) es
      (.ok ()) s') :
    s'.crl = some (encodeCRLChain [leadOf new stored r]) ∧ crlSignedBy new r = true := by
  obtain ⟨⟨caCert, certs⟩, s₁, _, _, hchecked, h, -⟩ := h.bind_inv_ok
  have hsame : s₁.crl = s.crl := (solo_sameCRL hchecked
    (Prog.always_mono (checkedBundle_always trivial _ _) fun _ _ => trivial)).crl
  obtain ⟨hhead, hmay⟩ := (hchecked.always
    (checkedBundle_always (C := fun _ => True) trivial i.bundle i.signer)).1 _ rfl
  obtain rfl : new = caCert := Option.some.inj (hlead.symm.trans hhead)
  have hmay : new.maySignCRLs = true := hmay
  have hr : crlSignedBy new r = true := by simp [crlSignedBy, hmay, hsigned]
  refine ⟨?_, hr⟩
  obtain ⟨_, s₂, _, _, -, h₂, h⟩ :=
    solo_quiet_bind (only_ask (only_cmd (c := .saveOther) trivial)) h
  obtain ⟨_, s₃, _, _, -, h₃, h⟩ := solo_quiet_bind (quiet_planCRLImport new _) h
  obtain ⟨_, s₄, _, _, -, h₄, h⟩ :=
    solo_quiet_bind (only_doIf (only_ask (only_cmd (c := .saveOther) trivial))) h
  obtain ⟨_, s₅, _, _, -, h₅, h⟩ :=
    solo_quiet_bind (only_ask (only_cmd (c := .saveCACert certs) trivial)) h
  obtain ⟨_, s₆, _, _, -, h₆, h⟩ :=
    solo_quiet_bind (only_ask (only_cmd (c := .saveOther) trivial)) h
  obtain ⟨_, s₇, _, _, hlocked, h, -⟩ := h.bind_inv_ok
  have hwritten : s₇.crl = some (encodeCRLChain [leadOf new stored r]) := by
    rcases solo_withLock hlocked with ⟨he, -⟩ | ⟨s₈, _, hbody, rfl, -⟩
    · cases he
    · change s₈.crl = _
      refine solo_writePlan hr ?_ hdec hbody
      rw [← hcrl, ← hsame, ← h₂, ← h₃, ← h₄, ← h₅, ← h₆]
      rfl
  have hrest : s'.crl = s₇.crl := by
    refine (solo_sameCRL h ?_).crl
    refine Prog.only_bind (only_ask (only_cmd (c := .hasSerial) trivial)) fun hasSerial => ?_
    refine Prog.only_bind (only_doIf (only_ask (only_cmd (c := .writeSerial) trivial))) fun _ => ?_
    exact only_ask (only_cmd (c := .saveOther) trivial)
  rw [hrest, hwritten]

/-- **What a forced import writes**: one list, the copy of block 0 or the stored list that
outruns it. -/
theorem import_writes (hbundle : i.bundle = some (new :: ancestors)) (hcrl : s.crl = some blob)
    (hdec : decodeCRLChain blob = some stored)
    (h : Solo machine t s (importCACertificate i) es (.ok true) s') :
    ∃ first r, blockZero blob = some first ∧ crlSignedBy new r = true ∧
      r.number = some (nextNumber first) ∧ r.entries = first.entries ∧
      s'.crl = some (encodeCRLChain [leadOf new stored r]) := by
  have hlead : i.leading = some new := by rw [CertImport.leading, hbundle]; rfl
  obtain ⟨⟨cert, certs⟩, s₁, _, _, hchecked, h, -⟩ := h.bind_inv_ok
  have hsame : s₁.crl = s.crl := (solo_sameCRL hchecked
    (Prog.always_mono (checkedBundle_always trivial _ _) fun _ _ => trivial)).crl
  obtain ⟨hhead, -⟩ := (hchecked.always
    (checkedBundle_always (C := fun _ => True) trivial i.bundle i.signer)).1 _ rfl
  obtain rfl : new = cert := Option.some.inj (hlead.symm.trans hhead)
  rcases solo_withLock h with ⟨he, -⟩ | ⟨s₂, _, hbody, rfl, -⟩
  · cases he
  obtain ⟨hasCert, s₃, _, _, -, h₃, hbody⟩ :=
    solo_quiet_bind (only_ask (only_cmd (c := .hasCACert) trivial)) hbody
  split at hbody
  · exact absurd hbody Solo.not_ok_of_fail
  obtain ⟨crlPEM, s₄, _, _, hcarried, hbody, -⟩ := hbody.bind_inv_ok
  obtain ⟨_, s₅, _, _, hmaterial, hbody, -⟩ := hbody.bind_inv_ok
  obtain ⟨-, hres, rfl⟩ := Solo.ret_inv hbody
  -- The import reports that it has replaced a certificate, so that it carries a list across.
  obtain rfl := Except.ok.inj hres
  obtain ⟨hfrom, h₄⟩ := solo_resignStoredCRL hcarried
  have hstored : s₃.crl = some blob := by
    rw [h₃, ← hcrl, ← hsame]
    rfl
  rcases hfrom with ⟨-, hnone⟩ | ⟨r, first, rfl, hfirst, hsigned, hnum, hent⟩
  · cases hstored.symm.trans hnone
  obtain ⟨hwritten, hr⟩ := solo_importCAMaterial hlead hsigned (h₄.trans hstored) hdec hmaterial
  rw [hstored] at hfirst
  exact ⟨first, r, hfirst, hr, hnum, hent, hwritten⟩

/-- **When a forced import conserves the published chain.** It is run with no other writer, on
a stored chain that decodes, and returns: the chain is conserved if and only if there is no
ancestor's list in it and its block 0 speaks for its newest own list. -/
theorem import_conserves_chain (hbundle : i.bundle = some (new :: ancestors))
    (hcrl : s.crl = some blob) (hdec : decodeCRLChain blob = some stored)
    (h : Solo machine t s (importCACertificate i) es (.ok true) s') :
    Conserves replaced new ancestors stored s'.crl ↔
      ∃ first, blockZero blob = some first ∧
        Conservable replaced new ancestors first stored := by
  obtain ⟨first, r, hfirst, hr, hnum, hent, hwritten⟩ := import_writes hbundle hcrl hdec h
  rw [hwritten, conserves_singleton_iff hr hnum hent]
  refine ⟨fun hc => ⟨first, hfirst, hc⟩, ?_⟩
  rintro ⟨first', hfirst', hc⟩
  obtain rfl := Option.some.inj (hfirst.symm.trans hfirst')
  exact hc

/-! ### Under a root -/

def rootCert : Certificate :=
  { serialNumber := 1
    subject := { commonName := ['r'] }
    notAfter := 2000000000
    publicKey := { id := 9 }
    signedBy := { id := 9 }
    isCA := true
    maySignCertificates := true
    maySignCRLs := true }

/-- The certificate of the CA under it. -/
def subCert : Certificate := { sampleCert with signedBy := rootCert.publicKey }

def rootList : RevocationList :=
  { number := some 4
    entries := []
    thisUpdate := 0
    nextUpdate := 1000
    issuer := rootCert.subject
    signedBy := rootCert.publicKey }

/-- The list of the CA: the certificate `05` is revoked. -/
def subList : RevocationList :=
  { sampleCRL with entries := [{ serialNumber := 5, revocationTime := 0 }] }

/-- What the import installs: a new certificate for the same key, with the root. -/
def subImport : CertImport :=
  { bundle := some [{ subCert with serialNumber := 2 }, rootCert]
    signer := subCert.publicKey }

/-- A storage that has published `chain`. -/
def chainState (chain : List RevocationList) : State :=
  { crl := some (encodeCRLChain chain), caBundle := some (some [subCert, rootCert]) }

/-- The import on such a storage, with nothing failing: whether it has replaced a certificate,
and the chain that is published then. -/
def importSeen (chain : List RevocationList) : Option (Option Bool × Option Blob) :=
  ((importCACertificate subImport).runAlone machine ⟨0, 0⟩ (List.replicate 20 {})
    (chainState chain)).map fun x => (x.2.1.toOption, x.2.2.crl)

theorem solo_of_importSeen {chain : List RevocationList} {published : Option Blob}
    (h : importSeen chain = some (some true, published)) :
    ∃ es s', Solo machine ⟨0, 0⟩ (chainState chain) (importCACertificate subImport) es (.ok true)
      s' ∧ s'.crl = published := by
  obtain ⟨⟨es, r, s'⟩, hrun, hseen⟩ := Option.map_eq_some_iff.mp h
  obtain ⟨hr, hcrl⟩ := Prod.mk.inj hseen
  rcases r with e | b
  · cases hr
  · obtain rfl := Option.some.inj hr
    exact ⟨es, s', .of_runAlone hrun, hcrl⟩

/-- **A forced import drops the lists of the ancestors**: the root's list is published behind the
CA's own, and gone afterwards. **It can drop revocations, too**: where the root's list is in
front, it is what is signed again as the CA's own. -/
theorem import_drops_chain :
    (∃ es s' lead, Solo machine ⟨0, 0⟩ (chainState [subList, rootList])
        (importCACertificate subImport) es (.ok true) s' ∧
      s'.crl = some (encodeCRLChain [lead]) ∧ crlSignedBy rootCert rootList = true ∧
      rootList ≠ lead) ∧
    ∃ es s' lead, Solo machine ⟨0, 0⟩ (chainState [rootList, subList])
        (importCACertificate subImport) es (.ok true) s' ∧
      s'.crl = some (encodeCRLChain [lead]) ∧
      ownCRLIn [rootList, subList] subCert = some subList ∧ 5 ∈ subList.serials ∧
      5 ∉ lead.serials := by
  constructor
  · have hseen : importSeen [subList, rootList] =
        some (some true, some (encodeCRLChain [{ subList with
          number := some 2, nextUpdate := 30 * 24 * hour }])) := by
      decide +kernel
    obtain ⟨es, s', hsolo, hcrl⟩ := solo_of_importSeen hseen
    exact ⟨es, s', _, hsolo, hcrl, by decide, by decide⟩
  · have hseen : importSeen [rootList, subList] =
        some (some true, some (encodeCRLChain [{ subList with
          number := some 5, entries := [], nextUpdate := 30 * 24 * hour }])) := by
      decide +kernel
    obtain ⟨es, s', hsolo, hcrl⟩ := solo_of_importSeen hseen
    exact ⟨es, s', _, hsolo, hcrl, by decide, by decide, by decide⟩

/-- Where the own list is all that is published, it is conserved. -/
theorem import_conserves_chain_sample : ∃ es s',
    Solo machine ⟨0, 0⟩ (chainState [subList]) (importCACertificate subImport) es (.ok true) s' ∧
      Conserves subCert { subCert with serialNumber := 2 } [rootCert] [subList] s'.crl := by
  have hseen : importSeen [subList] = some (some true, some (encodeCRLChain [{ subList with
      number := some 2, nextUpdate := 30 * 24 * hour }])) := by
    decide +kernel
  obtain ⟨es, s', hsolo, -⟩ := solo_of_importSeen hseen
  refine ⟨es, s', hsolo, (import_conserves_chain rfl rfl (decodeCRLChain_encodeCRLChain _)
    hsolo).mpr ⟨subList, rfl, by decide, fun newest hnewest => ?_⟩⟩
  have hown : ownCRLIn [subList] subCert = some subList := by decide
  obtain rfl := Option.some.inj (hown.symm.trans hnewest)
  refine ⟨List.Subset.refl _, ?_⟩
  rintro n ⟨⟩
  decide

end OpenvoxCa.Ca
