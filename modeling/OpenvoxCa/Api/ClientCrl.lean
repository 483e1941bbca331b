import OpenvoxCa.Ca.Types
import OpenvoxCa.Data.Buckets

/-!
# Revocation of clients of another CA

A client whose certificate a foreign trust domain has verified is checked against the CRLs that the
operator supplied for that domain (`clientcrl.go`). `newClientCRLSet` files each CRL under the key
of the anchor that signed it, the full lists apart from those that say of themselves that they cover
only part; `checkChainRevocation` walks the verified chain and looks each certificate up under the
key of its issuer.

The file is organised by key and the walk by position, so what the walk decides is not visible in
either. It is this (`chain_verdict_exact`): a pair of neighbours passes `require` if some full list
of the issuer's key is issued and current and no list of that key, full or partial, of whatever
date, names the child; it passes `check` if the second half holds.

Whether a CRL verifies under a certificate is a parameter, `CheckSignatureFrom` of `crypto/x509`.
The one thing assumed of it is that none of the CRLs verifies under two of the anchors' keys, and a
key is what the code takes it to be, an encoded `SubjectPublicKeyInfo`.
-/

namespace OpenvoxCa.Api

open Ca (Time Duration)

/-! ### The objects -/

/-- A certificate, as far as the check looks at it. -/
structure ClientCert where
  serialNumber : ℤ
  commonName : Text
  /-- `RawSubjectPublicKeyInfo`. -/
  publicKey : ℕ
  deriving DecidableEq, Repr

/-- The zero value of `time.Time`, January 1 of the year 1, in seconds. -/
def zeroTime : Time := -62135596800

/-- A CRL, as far as the check looks at it. Lists of equal contents that two CAs have signed are two
lists: they differ in their signatures. -/
structure ClientCRL where
  /-- `RawTBSRevocationList`: what is signed. -/
  rawTBS : List ℕ := []
  signature : List ℕ := []
  /-- The issuer, as it is printed. -/
  issuer : Text := []
  thisUpdate : Time
  /-- The zero time, if the field is absent. -/
  nextUpdate : Time := zeroTime
  /-- The identifiers of its extensions. -/
  extensions : List (List ℕ) := []
  /-- The serial numbers of `RevokedCertificateEntries`. -/
  revoked : List ℤ := []
  deriving DecidableEq, Repr

def oidDeltaCRLIndicator : List ℕ := [2, 5, 29, 27]

def oidIssuingDistributionPnt : List ℕ := [2, 5, 29, 28]

/-- Why a CRL is not its issuer's full list. -/
inductive PartialReason
  | deltaCRL | issuingDistributionPoint
  deriving DecidableEq, Repr

/-- `coversPartially`: the first extension that narrows the scope. -/
def coversPartially (crl : ClientCRL) : Option PartialReason :=
  crl.extensions.findSome? fun ext =>
    if ext = oidDeltaCRLIndicator then some .deltaCRL
    else if ext = oidIssuingDistributionPnt then some .issuingDistributionPoint
    else none

def clockSkewTolerance : Duration := 5 * 60

def notYetIssued (crl : ClientCRL) (now : Time) : Bool :=
  decide (now + clockSkewTolerance < crl.thisUpdate)

def currentAt (crl : ClientCRL) (now : Time) : Bool :=
  decide (crl.nextUpdate ≠ zeroTime) && decide (now < crl.nextUpdate)

def revocationRequire : Text := "require".toList

def revocationCheck : Text := "check".toList

def revocationSkip : Text := "skip".toList

/-- Why a chain is refused. The first two wrap `ErrNoUsableCRL`. -/
inductive ChainRefusal
  /-- The presented certificate is itself a trust anchor. -/
  | noIssuer
  /-- No currently valid CRL for the issuer. -/
  | noUsableCRL (issuer : Text)
  /-- The certificate is revoked by the issuer. -/
  | revoked (subject issuer : Text)
  deriving DecidableEq, Repr

/-! ### The set of CRLs -/

/-- **`ClientCRLSet`**: the CRLs of a trust domain, under the keys of the anchors that signed
them. -/
structure ClientCRLSet where
  bySignerKey : ℕ → List ClientCRL
  anchors : List ClientCert
  partialBySignerKey : ℕ → List ClientCRL
  /-- The CRLs that do not cover all of what their issuer has revoked, by issuer. -/
  discarded : List (Text × PartialReason)

section Set

variable (checkSignatureFrom : ClientCRL → ClientCert → Bool)

def signerOfCRL (crl : ClientCRL) (anchors : List ClientCert) : Option ClientCert :=
  anchors.find? fun anchor => checkSignatureFrom crl anchor

/-- One round of the loop of `NewClientCRLSet`. -/
def fileCRL (set : ClientCRLSet) (crl : ClientCRL) : ClientCRLSet :=
  match signerOfCRL checkSignatureFrom crl set.anchors with
  | none => set
  | some signer =>
    match coversPartially crl with
    | some reason =>
      { set with
        discarded := set.discarded ++ [(crl.issuer, reason)]
        partialBySignerKey := Function.update set.partialBySignerKey signer.publicKey
          (set.partialBySignerKey signer.publicKey ++ [crl]) }
    | none =>
      { set with
        bySignerKey := Function.update set.bySignerKey signer.publicKey
          (set.bySignerKey signer.publicKey ++ [crl]) }

def newClientCRLSet (crls : List ClientCRL) (anchors : List ClientCert) : ClientCRLSet :=
  crls.foldl (fileCRL checkSignatureFrom)
    { bySignerKey := fun _ => []
      anchors := anchors
      partialBySignerKey := fun _ => []
      discarded := [] }

end Set

/-- `forIssuer`: every full CRL filed under the key of `cert`, and whether one of them is issued and
current. -/
def forIssuer (set : Option ClientCRLSet) (cert : ClientCert) (now : Time) :
    List ClientCRL × Bool :=
  match set with
  | none => ([], false)
  | some set =>
    (set.bySignerKey cert.publicKey).foldl (fun (crls, anyValid) crl =>
      (crls ++ [crl], if !notYetIssued crl now && currentAt crl now then true else anyValid))
      ([], false)

/-- `forRevocationLookup`: with the partial CRLs. -/
def forRevocationLookup (set : Option ClientCRLSet) (cert : ClientCert) (now : Time) :
    List ClientCRL × Bool :=
  match set with
  | none => forIssuer none cert now
  | some set =>
    let (crls, anyValid) := forIssuer (some set) cert now
    (crls ++ set.partialBySignerKey cert.publicKey, anyValid)

/-- The loop of `checkChainRevocation`, with `required` saying that the policy is `require`. -/
def checkIssuers (set : Option ClientCRLSet) (required : Bool) (now : Time) :
    List ClientCert → Except ChainRefusal Unit
  | subject :: issuer :: rest =>
    let (crls, anyValid) := forRevocationLookup set issuer now
    if required && !anyValid then .error (.noUsableCRL issuer.commonName)
    else if crls.any fun crl => crl.revoked.any fun serial => serial = subject.serialNumber then
      .error (.revoked subject.commonName issuer.commonName)
    else checkIssuers set required now (issuer :: rest)
  | _ => .ok ()

def checkChainRevocation (chain : List ClientCert) (set : Option ClientCRLSet) (policy : Text)
    (now : Time) : Except ChainRefusal Unit :=
  -- An unrecognised value is `require`.
  let policy := if policy ≠ revocationSkip ∧ policy ≠ revocationCheck then revocationRequire
    else policy
  if policy = revocationSkip then .ok ()
  else if chain.length < 2 then
    if policy = revocationRequire then .error .noIssuer else .ok ()
  else checkIssuers set (policy = revocationRequire) now chain

/-! ### What is filed where -/

section Verdict

variable {checkSignatureFrom : ClientCRL → ClientCert → Bool} {crls crls' : List ClientCRL}
  {anchors anchors' chain : List ClientCert} {set : ClientCRLSet} {now : Time}

/-- The key under which a CRL is filed. -/
def signerKey (checkSignatureFrom : ClientCRL → ClientCert → Bool) (anchors : List ClientCert)
    (crl : ClientCRL) : Option ℕ :=
  (signerOfCRL checkSignatureFrom crl anchors).map ClientCert.publicKey

def fullKey (checkSignatureFrom : ClientCRL → ClientCert → Bool) (anchors : List ClientCert)
    (crl : ClientCRL) : Option ℕ :=
  if (coversPartially crl).isSome then none else signerKey checkSignatureFrom anchors crl

def partialKey (checkSignatureFrom : ClientCRL → ClientCert → Bool) (anchors : List ClientCert)
    (crl : ClientCRL) : Option ℕ :=
  if (coversPartially crl).isSome then signerKey checkSignatureFrom anchors crl else none

/-- Each round files in one of the two maps, or in neither. -/
theorem fileCRL_eq (set : ClientCRLSet) (crl : ClientCRL) :
    (fileCRL checkSignatureFrom set crl).bySignerKey =
        Data.file (fullKey checkSignatureFrom set.anchors) set.bySignerKey crl ∧
      (fileCRL checkSignatureFrom set crl).partialBySignerKey =
        Data.file (partialKey checkSignatureFrom set.anchors) set.partialBySignerKey crl ∧
      (fileCRL checkSignatureFrom set crl).anchors = set.anchors := by
  unfold fileCRL Data.file fullKey partialKey signerKey
  cases hsigner : signerOfCRL checkSignatureFrom crl set.anchors with
  | none => simp
  | some signer =>
    cases hpart : coversPartially crl with
    | none | some => simp

theorem foldl_fileCRL (crls : List ClientCRL) (set : ClientCRLSet) :
    (crls.foldl (fileCRL checkSignatureFrom) set).bySignerKey =
        crls.foldl (Data.file (fullKey checkSignatureFrom set.anchors)) set.bySignerKey ∧
      (crls.foldl (fileCRL checkSignatureFrom) set).partialBySignerKey =
        crls.foldl (Data.file (partialKey checkSignatureFrom set.anchors))
          set.partialBySignerKey := by
  induction crls generalizing set with
  | nil => exact ⟨rfl, rfl⟩
  | cons crl crls ih =>
    obtain ⟨hfull, hpart, hanchors⟩ := @fileCRL_eq checkSignatureFrom set crl
    simp only [List.foldl_cons]
    rw [(ih _).1, (ih _).2, hanchors, hfull, hpart]
    exact ⟨rfl, rfl⟩

theorem bySignerKey_newClientCRLSet (k : ℕ) :
    (newClientCRLSet checkSignatureFrom crls anchors).bySignerKey k =
      crls.filter fun crl => fullKey checkSignatureFrom anchors crl = some k := by
  rw [newClientCRLSet, (foldl_fileCRL crls _).1]
  exact Data.buckets_apply _ crls k

theorem partialBySignerKey_newClientCRLSet (k : ℕ) :
    (newClientCRLSet checkSignatureFrom crls anchors).partialBySignerKey k =
      crls.filter fun crl => partialKey checkSignatureFrom anchors crl = some k := by
  rw [newClientCRLSet, (foldl_fileCRL crls _).2]
  exact Data.buckets_apply _ crls k

theorem forIssuer_some (set : ClientCRLSet) (cert : ClientCert) :
    forIssuer (some set) cert now =
      (set.bySignerKey cert.publicKey, (set.bySignerKey cert.publicKey).any fun crl =>
        !notYetIssued crl now && currentAt crl now) := by
  have hfold : ∀ (l acc : List ClientCRL) (b : Bool),
      l.foldl (fun (crls, anyValid) crl =>
        (crls ++ [crl], if !notYetIssued crl now && currentAt crl now then true else anyValid))
        (acc, b) =
      (acc ++ l, b || l.any fun crl => !notYetIssued crl now && currentAt crl now) := by
    intro l
    induction l with
    | nil => simp
    | cons crl l ih =>
      intro acc b
      rw [List.foldl_cons, ih]
      cases hvalid : !notYetIssued crl now && currentAt crl now <;> simp [hvalid]
  rw [forIssuer, hfold]
  simp

/-! ### The verdict on a pair of neighbours -/

/-- **A signature verifies under at most one key**, among those of the anchors. -/
def OneKey (checkSignatureFrom : ClientCRL → ClientCert → Bool) (crls : List ClientCRL)
    (anchors : List ClientCert) : Prop :=
  ∀ crl ∈ crls, ∀ a ∈ anchors, ∀ b ∈ anchors,
    checkSignatureFrom crl a = true → checkSignatureFrom crl b = true → a.publicKey = b.publicKey

/-- The CRL is verified by an anchor with the key of `issuer`. -/
def VerifiedFor (checkSignatureFrom : ClientCRL → ClientCert → Bool) (anchors : List ClientCert)
    (issuer : ClientCert) (crl : ClientCRL) : Prop :=
  ∃ anchor ∈ anchors, checkSignatureFrom crl anchor = true ∧ anchor.publicKey = issuer.publicKey

/-- **The issuer is covered**: some full CRL verified by an anchor with its key is issued and
current. -/
def Covered (checkSignatureFrom : ClientCRL → ClientCert → Bool) (crls : List ClientCRL)
    (anchors : List ClientCert) (now : Time) (issuer : ClientCert) : Prop :=
  ∃ crl ∈ crls, VerifiedFor checkSignatureFrom anchors issuer crl ∧
    (oidDeltaCRLIndicator ∉ crl.extensions ∧ oidIssuingDistributionPnt ∉ crl.extensions) ∧
    crl.thisUpdate ≤ now + 5 * 60 ∧ crl.nextUpdate ≠ zeroTime ∧ now < crl.nextUpdate

/-- **The child is revoked**: some CRL verified by an anchor with the issuer's key lists it. -/
def ListedBy (checkSignatureFrom : ClientCRL → ClientCert → Bool) (crls : List ClientCRL)
    (anchors : List ClientCert) (child issuer : ClientCert) : Prop :=
  ∃ crl ∈ crls, VerifiedFor checkSignatureFrom anchors issuer crl ∧
    child.serialNumber ∈ crl.revoked

theorem coversPartially_eq_none {crl : ClientCRL} : coversPartially crl = none ↔
    oidDeltaCRLIndicator ∉ crl.extensions ∧ oidIssuingDistributionPnt ∉ crl.extensions := by
  rw [coversPartially, List.findSome?_eq_none_iff]
  constructor
  · intro h
    exact ⟨fun hmem => by simpa using h _ hmem,
      fun hmem => by simpa [oidDeltaCRLIndicator, oidIssuingDistributionPnt] using h _ hmem⟩
  · rintro ⟨hdelta, hpoint⟩ ext hext
    have hne : ext ≠ oidDeltaCRLIndicator := fun h => hdelta (h ▸ hext)
    have hne' : ext ≠ oidIssuingDistributionPnt := fun h => hpoint (h ▸ hext)
    rw [if_neg hne, if_neg hne']

theorem notYetIssued_eq_false {crl : ClientCRL} :
    notYetIssued crl now = false ↔ crl.thisUpdate ≤ now + 5 * 60 := by
  rw [notYetIssued, decide_eq_false_iff_not, not_lt]
  rfl

theorem signerKey_eq_some (hone : OneKey checkSignatureFrom crls anchors) {crl : ClientCRL}
    (hcrl : crl ∈ crls) {issuer : ClientCert} :
    signerKey checkSignatureFrom anchors crl = some issuer.publicKey ↔
      VerifiedFor checkSignatureFrom anchors issuer crl := by
  unfold signerKey
  constructor
  · intro h
    obtain ⟨signer, hsigner, hkey⟩ := Option.map_eq_some_iff.mp h
    exact ⟨signer, List.mem_of_find?_eq_some hsigner, List.find?_some hsigner, hkey⟩
  · rintro ⟨anchor, hmem, hverifies, hkey⟩
    -- The first anchor that verifies may be another one, but it has the same key.
    cases hsigner : signerOfCRL checkSignatureFrom crl anchors with
    | none =>
      have hno := List.find?_eq_none.mp hsigner anchor hmem
      exact absurd hverifies hno
    | some signer =>
      have hsame := hone crl hcrl signer (List.mem_of_find?_eq_some hsigner) anchor hmem
        (List.find?_some hsigner) hverifies
      rw [Option.map_some, hsame, hkey]

theorem lookup_valid_iff (hone : OneKey checkSignatureFrom crls anchors) {issuer : ClientCert} :
    (forRevocationLookup (some (newClientCRLSet checkSignatureFrom crls anchors)) issuer now).2 =
        true ↔
      Covered checkSignatureFrom crls anchors now issuer := by
  simp only [forRevocationLookup, forIssuer_some, bySignerKey_newClientCRLSet, List.any_eq_true,
    List.mem_filter, decide_eq_true_eq, Bool.and_eq_true, Bool.not_eq_true', Covered, and_assoc]
  refine exists_congr fun crl => and_congr_right fun hcrl => ?_
  have hfull : fullKey checkSignatureFrom anchors crl = some issuer.publicKey ↔
      VerifiedFor checkSignatureFrom anchors issuer crl ∧ coversPartially crl = none := by
    rw [← signerKey_eq_some hone hcrl, fullKey]
    cases coversPartially crl <;> simp
  rw [hfull, and_assoc, coversPartially_eq_none, notYetIssued_eq_false]
  simp [currentAt, and_assoc]

theorem mem_lookup_iff (hone : OneKey checkSignatureFrom crls anchors) {issuer : ClientCert}
    {crl : ClientCRL} :
    crl ∈ (forRevocationLookup (some (newClientCRLSet checkSignatureFrom crls anchors)) issuer
        now).1 ↔
      crl ∈ crls ∧ VerifiedFor checkSignatureFrom anchors issuer crl := by
  simp only [forRevocationLookup, forIssuer_some, bySignerKey_newClientCRLSet,
    partialBySignerKey_newClientCRLSet, List.mem_append, List.mem_filter, decide_eq_true_eq,
    ← and_or_left]
  refine and_congr_right fun hcrl => ?_
  rw [← signerKey_eq_some hone hcrl, fullKey, partialKey]
  cases coversPartially crl <;> simp

/-! ### The verdict on a chain -/

/-- What a pair of neighbours has to meet. -/
def PairPasses (checkSignatureFrom : ClientCRL → ClientCert → Bool) (crls : List ClientCRL)
    (anchors : List ClientCert) (required : Bool) (now : Time) (child issuer : ClientCert) : Prop :=
  (required = true → Covered checkSignatureFrom crls anchors now issuer) ∧
    ¬ListedBy checkSignatureFrom crls anchors child issuer

/-- **The walk passes if every pair of neighbours does.** -/
theorem checkIssuers_ok_iff (hone : OneKey checkSignatureFrom crls anchors) (required : Bool)
    (chain : List ClientCert) :
    checkIssuers (some (newClientCRLSet checkSignatureFrom crls anchors)) required now chain =
        .ok () ↔
      ∀ pair ∈ chain.zip chain.tail,
        PairPasses checkSignatureFrom crls anchors required now pair.1 pair.2 := by
  -- By induction on the chain: each round looks at its first two certificates.
  induction chain with
  | nil => simp [checkIssuers]
  | cons subject rest ih =>
    cases rest with
    | nil => simp [checkIssuers]
    | cons issuer rest =>
      have hlist : ((forRevocationLookup (some (newClientCRLSet checkSignatureFrom crls anchors))
          issuer now).1.any fun crl =>
            crl.revoked.any fun serial => serial = subject.serialNumber) = true ↔
          ListedBy checkSignatureFrom crls anchors subject issuer := by
        simp only [List.any_eq_true, mem_lookup_iff hone, decide_eq_true_eq, exists_eq_right,
          and_assoc, ListedBy]
      have hcover := @lookup_valid_iff checkSignatureFrom crls anchors now hone issuer
      rw [List.tail_cons] at ih
      rw [List.tail_cons, List.zip_cons_cons, List.forall_mem_cons, ← ih, checkIssuers]
      simp only [PairPasses, ← hlist, ← hcover]
      cases required <;>
        cases (forRevocationLookup (some (newClientCRLSet checkSignatureFrom crls anchors)) issuer
          now).2 <;>
        cases (forRevocationLookup (some (newClientCRLSet checkSignatureFrom crls anchors)) issuer
          now).1.any fun crl => crl.revoked.any fun serial => serial = subject.serialNumber <;>
        simp

/-- A policy that is neither `skip` nor `check` is `require`. -/
theorem require_ok_iff (hone : OneKey checkSignatureFrom crls anchors) {policy : Text}
    (hskip : policy ≠ revocationSkip) (hcheck : policy ≠ revocationCheck) :
    checkChainRevocation chain (some (newClientCRLSet checkSignatureFrom crls anchors)) policy
        now = .ok () ↔
      chain.tail ≠ [] ∧ ∀ pair ∈ chain.zip chain.tail,
        Covered checkSignatureFrom crls anchors now pair.2 ∧
          ¬ListedBy checkSignatureFrom crls anchors pair.1 pair.2 := by
  have hname : revocationRequire ≠ revocationSkip := by decide
  rw [checkChainRevocation]
  simp only [hskip, hcheck, ne_eq, not_false_eq_true, and_self, if_true, if_neg hname]
  rcases chain with _ | ⟨subject, _ | ⟨issuer, rest⟩⟩
  · simp
  · simp
  · rw [if_neg (by simp), decide_true, checkIssuers_ok_iff hone]
    simp [PairPasses]

theorem check_ok_iff (hone : OneKey checkSignatureFrom crls anchors) :
    checkChainRevocation chain (some (newClientCRLSet checkSignatureFrom crls anchors))
        revocationCheck now = .ok () ↔
      ∀ pair ∈ chain.zip chain.tail,
        ¬ListedBy checkSignatureFrom crls anchors pair.1 pair.2 := by
  have hskip : revocationCheck ≠ revocationSkip := by decide
  have hrequire : revocationCheck ≠ revocationRequire := by decide
  rw [checkChainRevocation]
  simp only [ne_eq, not_true_eq_false, and_false, if_false, if_neg hskip, if_neg hrequire]
  rcases chain with _ | ⟨subject, _ | ⟨issuer, rest⟩⟩
  · simp
  · simp
  · rw [if_neg (by simp), decide_eq_false hrequire, checkIssuers_ok_iff hone]
    simp [PairPasses]

theorem skip_ok (set : Option ClientCRLSet) :
    checkChainRevocation chain set revocationSkip now = .ok () := by
  simp [checkChainRevocation]

/-! ### What the verdict does not depend on -/

/-- The key that signed the CRL issues nothing in the chain. -/
def IssuesNothing (checkSignatureFrom : ClientCRL → ClientCert → Bool) (anchors : List ClientCert)
    (chain : List ClientCert) (crl : ClientCRL) : Prop :=
  ∀ issuer ∈ chain.tail, ¬VerifiedFor checkSignatureFrom anchors issuer crl

/-- A statement about the CRLs of an issuer of the chain is about those CRLs alone. -/
theorem exists_verified_congr (hanchors : ∀ a, a ∈ anchors' ↔ a ∈ anchors)
    (hcrls : ∀ crl, (crl ∈ crls' ↔ crl ∈ crls) ∨
      IssuesNothing checkSignatureFrom anchors chain crl)
    {issuer : ClientCert} (hissuer : issuer ∈ chain.tail) (P : ClientCRL → Prop) :
    (∃ crl ∈ crls', VerifiedFor checkSignatureFrom anchors' issuer crl ∧ P crl) ↔
      ∃ crl ∈ crls, VerifiedFor checkSignatureFrom anchors issuer crl ∧ P crl := by
  refine exists_congr fun crl => ?_
  have hverified : VerifiedFor checkSignatureFrom anchors' issuer crl ↔
      VerifiedFor checkSignatureFrom anchors issuer crl := by
    simp only [VerifiedFor, hanchors]
  rw [hverified]
  rcases hcrls crl with hsame | hnothing
  · rw [hsame]
  · have hno := hnothing issuer hissuer
    tauto

/-- **The verdict on a chain is exact.** Under `require`, and under every value that is neither
`check` nor `skip`, a chain is accepted if and only if it has an issuer and every pair of
neighbours in it is covered and not revoked; under `check` it is refused if and only if some pair
is revoked. Neither the order of the CRLs or the anchors nor a CRL whose key issues nothing in the
chain makes a difference. -/
theorem chain_verdict_exact (hone : OneKey checkSignatureFrom crls anchors)
    (chain : List ClientCert) (now : Time) :
    (∀ policy, policy ≠ revocationSkip → policy ≠ revocationCheck →
      (checkChainRevocation chain (some (newClientCRLSet checkSignatureFrom crls anchors)) policy
          now = .ok () ↔
        chain.tail ≠ [] ∧ ∀ pair ∈ chain.zip chain.tail,
          Covered checkSignatureFrom crls anchors now pair.2 ∧
            ¬ListedBy checkSignatureFrom crls anchors pair.1 pair.2)) ∧
    (checkChainRevocation chain (some (newClientCRLSet checkSignatureFrom crls anchors))
        revocationCheck now ≠ .ok () ↔
      ∃ pair ∈ chain.zip chain.tail,
        ListedBy checkSignatureFrom crls anchors pair.1 pair.2) ∧
    ∀ crls' anchors' policy, OneKey checkSignatureFrom crls' anchors' →
      (∀ a, a ∈ anchors' ↔ a ∈ anchors) →
      (∀ crl, (crl ∈ crls' ↔ crl ∈ crls) ∨
        IssuesNothing checkSignatureFrom anchors chain crl) →
      (checkChainRevocation chain (some (newClientCRLSet checkSignatureFrom crls' anchors')) policy
          now = .ok () ↔
        checkChainRevocation chain (some (newClientCRLSet checkSignatureFrom crls anchors)) policy
          now = .ok ()) := by
  refine ⟨fun policy hskip hcheck => require_ok_iff hone hskip hcheck, ?_, ?_⟩
  · rw [ne_eq, check_ok_iff hone]
    push Not
    rfl
  · intro crls' anchors' policy hone' hanchors hcrls
    have hlisted : ∀ pair ∈ chain.zip chain.tail,
        (ListedBy checkSignatureFrom crls' anchors' pair.1 pair.2 ↔
          ListedBy checkSignatureFrom crls anchors pair.1 pair.2) :=
      fun pair hpair => exists_verified_congr hanchors hcrls (List.of_mem_zip hpair).2 _
    have hcovered : ∀ pair ∈ chain.zip chain.tail,
        (Covered checkSignatureFrom crls' anchors' now pair.2 ↔
          Covered checkSignatureFrom crls anchors now pair.2) :=
      fun pair hpair => exists_verified_congr hanchors hcrls (List.of_mem_zip hpair).2 _
    by_cases hskip : policy = revocationSkip
    · rw [hskip, skip_ok, skip_ok]
    by_cases hcheck : policy = revocationCheck
    · rw [hcheck, check_ok_iff hone', check_ok_iff hone]
      exact forall₂_congr fun pair hpair => not_congr (hlisted pair hpair)
    · rw [require_ok_iff hone' hskip hcheck, require_ok_iff hone hskip hcheck]
      refine and_congr_right fun _ => forall₂_congr fun pair hpair => ?_
      rw [hcovered pair hpair, hlisted pair hpair]

/-! ### A delta beside its base, and a sibling's list -/

/-- An idealised signature: it is the key. -/
def sampleCheck (crl : ClientCRL) (cert : ClientCert) : Bool :=
  decide (crl.signature = [cert.publicKey])

def foreignCA : ClientCert := { serialNumber := 1, commonName := ['c'], publicKey := 1 }

/-- Another anchor of the same name. -/
def siblingCA : ClientCert := { foreignCA with publicKey := 2 }

def foreignClient : ClientCert := { serialNumber := 5, commonName := ['a'], publicKey := 7 }

/-- The full list of an anchor, which is current and revokes nothing. -/
def emptyList (cert : ClientCert) : ClientCRL :=
  { signature := [cert.publicKey], issuer := cert.commonName, thisUpdate := 0, nextUpdate := 1000 }

/-- The delta that revokes the client. -/
def sampleDelta : ClientCRL :=
  { signature := [1], issuer := ['c'], thisUpdate := 0, extensions := [oidDeltaCRLIndicator],
    revoked := [5] }

/-- The two anchors have signed lists of equal contents. With both of them the client is accepted,
with the sibling's alone it is not, and the delta of its issuer has it refused. -/
theorem chain_verdict_exact_delta :
    { emptyList foreignCA with signature := [2] } = emptyList siblingCA ∧
    checkChainRevocation [foreignClient, foreignCA] (some (newClientCRLSet sampleCheck
      [emptyList siblingCA, emptyList foreignCA] [foreignCA, siblingCA])) revocationRequire 10 =
        .ok () ∧
    checkChainRevocation [foreignClient, foreignCA] (some (newClientCRLSet sampleCheck
      [emptyList siblingCA] [foreignCA, siblingCA])) revocationRequire 10 ≠ .ok () ∧
    checkChainRevocation [foreignClient, foreignCA] (some (newClientCRLSet sampleCheck
      [emptyList siblingCA, emptyList foreignCA, sampleDelta] [foreignCA, siblingCA]))
        revocationCheck 10 ≠ .ok () := by
  have hone : ∀ crls anchors, OneKey sampleCheck crls anchors := fun crls anchors crl _ a _ b _ ha
    hb => List.singleton_inj.mp ((of_decide_eq_true ha).symm.trans (of_decide_eq_true hb))
  refine ⟨rfl, ((chain_verdict_exact (hone _ _) _ _).1 _ (by decide) (by decide)).mpr ?_,
    fun hok => ?_, (chain_verdict_exact (hone _ _) _ _).2.1.mpr ?_⟩
  · simp [Covered, ListedBy, VerifiedFor, sampleCheck, emptyList, zeroTime, siblingCA, foreignCA]
  · have hpair := ((chain_verdict_exact (hone _ _) _ _).1 _ (by decide) (by decide)).mp hok
    simp [Covered, ListedBy, VerifiedFor, sampleCheck, emptyList, zeroTime, siblingCA, foreignCA]
      at hpair
  · simp [ListedBy, VerifiedFor, sampleCheck, emptyList, sampleDelta, siblingCA, foreignCA,
      foreignClient]

end Verdict

end OpenvoxCa.Api
