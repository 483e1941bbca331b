import OpenvoxCa.Ca.Types
import Mathlib.Data.Int.ConditionallyCompleteOrder
import Mathlib.Data.List.MinMax
import Mathlib.Data.Prod.Lex
import Mathlib.Order.BooleanAlgebra.Basic

/-!
# CRL chains

What storage keeps under the name of the CRL is a *chain*: this CA's own list first,
then the lists of its ancestors, as PEM blocks of one blob. Everything that reads the
blob has to answer the same two questions – which blocks are ours, and which of
those is the current one – and this file holds the functions that answer them,
together with the ones that decide which ancestor lists a rewritten chain carries.

* Ours is what this CA's key signed (`crlSignedBy`).
* Current is what `newerCRL` puts first: a number beats none, a larger
  number a smaller one, and without numbers a later issue date decides. That is a
  linear order on what it looks at (`rank`), so the scan of
  `ownCRLIn` finds the first maximum
  (`ownCRLIn_eq_argmax`).

`storedOwn` is the answer for a blob as a whole, whatever its blocks: the newest list of ours among
the leading block, which readers parse under any label, and the blocks of the chain.
`parseStored_eq_ok` says that a writer starts from exactly that list, and `storedOwn_encode` that a
chain whose only own block is its first has it as its answer.
-/

namespace OpenvoxCa.Ca

/-! ### Whose list it is, and which is newer -/

/-- `crlSignedBy`: whether the key of `cert` signed `crl`. -/
def crlSignedBy (cert : Certificate) (crl : RevocationList) : Bool :=
  cert.maySignCRLs && crl.signedBy == cert.publicKey

def newerCRL (a b : RevocationList) : Bool :=
  match a.number, b.number with
  | some m, some n => n < m
  | some _, none => true
  | none, some _ => false
  | none, none => b.thisUpdate < a.thisUpdate

/-- What `newerCRL` compares: whether there is a number, then the number, or else
the issue date. -/
def rank (crl : RevocationList) : Bool ×ₗ ℤ :=
  toLex (crl.number.isSome, crl.number.getD crl.thisUpdate)

theorem newerCRL_iff {a b : RevocationList} : newerCRL a b = true ↔ rank b < rank a := by
  unfold newerCRL rank
  rcases ha : a.number with _ | m <;> rcases hb : b.number with _ | n <;>
    simp [Prod.Lex.toLex_lt_toLex]

/-- `ownCRLIn`: the newest list in `chain` that `cert` signed. -/
def ownCRLIn (chain : List RevocationList) (cert : Certificate) : Option RevocationList :=
  chain.foldl (fun ours crl =>
    if crlSignedBy cert crl && (match ours with
      | none => true
      | some ours => newerCRL crl ours) then some crl else ours) none

/-- **`ownCRLIn` finds the first of the newest own lists.** -/
theorem ownCRLIn_eq_argmax (chain : List RevocationList) (cert : Certificate) :
    ownCRLIn chain cert = (chain.filter (crlSignedBy cert)).argmax rank := by
  unfold ownCRLIn List.argmax
  generalize (none : Option RevocationList) = ours
  induction chain generalizing ours with
  | nil => rfl
  | cons crl chain ih =>
    rw [List.foldl_cons, ih]
    by_cases hown : crlSignedBy cert crl = true
    · rw [List.filter_cons_of_pos hown, List.foldl_cons]
      congr 1
      cases ours with
      | none => simp [hown, List.argAux]
      | some o => simp [hown, List.argAux, newerCRL_iff]
    · rw [List.filter_cons_of_neg hown]
      simp [hown]

variable {chain : List RevocationList} {cert : Certificate} {crl : RevocationList}

theorem ownCRLIn_mem (h : ownCRLIn chain cert = some crl) :
    crl ∈ chain ∧ crlSignedBy cert crl = true := by
  rw [ownCRLIn_eq_argmax] at h
  exact List.mem_filter.mp (List.argmax_mem h)

/-- No own list of the chain is newer than the one found. -/
theorem rank_le_ownCRLIn {c : RevocationList} (h : ownCRLIn chain cert = some crl) (hc : c ∈ chain)
    (hown : crlSignedBy cert c = true) : rank c ≤ rank crl := by
  rw [ownCRLIn_eq_argmax] at h
  exact List.le_of_mem_argmax (List.mem_filter.mpr ⟨hc, hown⟩) h

theorem ownCRLIn_eq_none :
    ownCRLIn chain cert = none ↔ ∀ c ∈ chain, crlSignedBy cert c = false := by
  rw [ownCRLIn_eq_argmax, List.argmax_eq_none, List.filter_eq_nil_iff]
  simp

/-- Where the first list is ours, it is replaced by a strictly newer one only. -/
theorem ownCRLIn_cons_own (hown : crlSignedBy cert crl = true) :
    ownCRLIn (crl :: chain) cert = some (match ownCRLIn chain cert with
      | some newest => if newerCRL newest crl then newest else crl
      | none => crl) := by
  rw [ownCRLIn_eq_argmax, ownCRLIn_eq_argmax, List.filter_cons_of_pos hown, List.argmax_cons]
  cases (chain.filter (crlSignedBy cert)).argmax rank with
  | none => rfl
  | some newest =>
    change (if rank crl < rank newest then some newest else some crl) = some _
    simp only [← newerCRL_iff]
    split <;> rfl

/-- A chain whose own lists are all in front has the first as its newest when the
rest is foreign. -/
theorem ownCRLIn_cons_foreign_tail (hown : crlSignedBy cert crl = true)
    (hrest : ∀ c ∈ chain, crlSignedBy cert c = false) :
    ownCRLIn (crl :: chain) cert = some crl := by
  rw [ownCRLIn_cons_own hown, ownCRLIn_eq_none.mpr hrest]

/-! ### Decoding and encoding -/

/-- `decodeCRLChainRest`: the lists decoded so far, then those of the blocks
labelled as CRLs, until `limit` of them are found (zero for no limit). An
unparseable one fails the whole. -/
def decodeCRLChainRest (limit : ℕ) :
    List RevocationList → Blob → Option (List RevocationList × Blob)
  | out, [] => some (out, [])
  | out, block :: rest =>
    if 0 < limit ∧ limit ≤ out.length then some (out, block :: rest)
    else if block.isCRL then
      match block.crl with
      | some crl => decodeCRLChainRest limit (out ++ [crl]) rest
      | none => none
    else decodeCRLChainRest limit out rest

def decodeCRLChain (blob : Blob) : Option (List RevocationList) :=
  (decodeCRLChainRest 0 [] blob).map Prod.fst

def encodeCRLChain (crls : List RevocationList) : Blob := crls.map fun crl => ⟨true, some crl⟩

@[simp] theorem decodeCRLChain_encodeCRLChain (crls : List RevocationList) :
    decodeCRLChain (encodeCRLChain crls) = some crls := by
  have general : ∀ out,
      decodeCRLChainRest 0 out (encodeCRLChain crls) = some (out ++ crls, []) := by
    induction crls with
    | nil => simp [encodeCRLChain, decodeCRLChainRest]
    | cons crl crls ih =>
      intro out
      have := ih (out ++ [crl])
      simpa [encodeCRLChain, decodeCRLChainRest] using this
  simp [decodeCRLChain, general]

/-- The most entries a chain file may hold. -/
def maxCRLChainFileEntries : ℕ := 64

/-- `decodeCRLChainStrict`: no more than the allowed number of lists, nothing after
the last block, and no lists only where the file is empty. -/
def decodeCRLChainStrict (file : ChainFile) : Except Failure (List RevocationList) :=
  match decodeCRLChainRest (maxCRLChainFileEntries + 1) [] file.blocks with
  | none => .error .chainFileFault
  | some (out, _) =>
    if maxCRLChainFileEntries < out.length then .error .chainFileFault
    else if file.trailing then .error .chainFileFault
    else if out = [] ∧ file.blocks ≠ [] then .error .chainFileFault
    else .ok out

/-! ### The own list of a stored blob -/

/-- `selectOwnCRL`, without the position: nothing where the blob does not decode. -/
def selectOwnCRL (cert : Certificate) (blob : Blob) : Option (Option RevocationList) :=
  (decodeCRLChain blob).map fun chain => ownCRLIn chain cert

/-- The lists a reader of the blob may take as ours: the leading block under any
label, and the blocks of the chain where it decodes. -/
def candidates (blob : Blob) : List RevocationList :=
  (blob.head?.bind PemBlock.crl).toList ++ (decodeCRLChain blob).getD []

/-- **The stored own CRL**: the newest list of ours in the blob. -/
def storedOwn (cert : Certificate) (blob : Blob) : Option RevocationList :=
  ownCRLIn (candidates blob) cert

/-- `storedCRL`: one read of the stored blob, with the list of ours to start from. -/
structure StoredCRL where
  own : RevocationList
  blob : Blob
  deriving DecidableEq, Repr

/-- The parsing half of `parseStoredCRL`: block 0 must parse and be ours, and a newer
list of ours further down takes its place. -/
def parseStored (cert : Certificate) (blob : Blob) : Except Failure StoredCRL :=
  match blob with
  | [] => .error .malformed
  | block :: _ =>
    match block.crl with
    | none => .error .malformed
    | some crl =>
      if crlSignedBy cert crl then
        match selectOwnCRL cert blob with
        | some (some newest) => .ok ⟨if newerCRL newest crl then newest else crl, blob⟩
        | _ => .ok ⟨crl, blob⟩
      else .error .foreignStoredCRL

/-- **A writer starts from the stored own CRL.** -/
theorem parseStored_eq_ok {blob : Blob} {stored : StoredCRL}
    (h : parseStored cert blob = .ok stored) :
    stored.blob = blob ∧ storedOwn cert blob = some stored.own := by
  cases blob with
  | nil => cases h
  | cons block rest =>
    simp only [parseStored] at h
    cases hcrl : block.crl with
    | none => simp [hcrl] at h
    | some crl =>
      rw [hcrl] at h
      simp only at h
      split at h
      · next hown =>
        have hcand : candidates (block :: rest) =
            crl :: (decodeCRLChain (block :: rest)).getD [] := by
          simp [candidates, hcrl]
        rw [storedOwn, hcand, ownCRLIn_cons_own hown]
        cases hdec : decodeCRLChain (block :: rest) with
        | none =>
          obtain rfl : (⟨crl, block :: rest⟩ : StoredCRL) = stored := by
            simpa [selectOwnCRL, hdec] using h
          exact ⟨rfl, rfl⟩
        | some chain =>
          simp only [selectOwnCRL, hdec, Option.map_some] at h
          simp only [Option.getD_some]
          cases hnew : ownCRLIn chain cert with
          | none | some =>
            rw [hnew] at h
            obtain rfl := Except.ok.inj h
            exact ⟨rfl, rfl⟩
      · cases h

theorem candidates_encodeCRLChain (crl : RevocationList) (chain : List RevocationList) :
    candidates (encodeCRLChain (crl :: chain)) = crl :: crl :: chain := by
  rw [candidates, decodeCRLChain_encodeCRLChain]
  rfl

/-- A chain whose first block is ours and whose other blocks are not. -/
theorem storedOwn_encode (hown : crlSignedBy cert crl = true)
    (hrest : ∀ c ∈ chain, crlSignedBy cert c = false) :
    storedOwn cert (encodeCRLChain (crl :: chain)) = some crl := by
  rw [storedOwn, candidates_encodeCRLChain, ownCRLIn_cons_own hown,
    ownCRLIn_cons_foreign_tail hown hrest]
  simp

/-- What has been decoded stays in front. -/
theorem prefix_decodeCRLChainRest {limit : ℕ} {out : List RevocationList} {blob : Blob}
    {r : List RevocationList × Blob} (h : decodeCRLChainRest limit out blob = some r) :
    out <+: r.1 := by
  induction blob generalizing out with
  | nil =>
    obtain rfl := Option.some.inj h
    exact List.prefix_rfl
  | cons block rest ih =>
    unfold decodeCRLChainRest at h
    split at h
    · obtain rfl := Option.some.inj h
      exact List.prefix_rfl
    · split at h
      · split at h
        · exact (List.prefix_append _ _).trans (ih h)
        · cases h
      · exact ih h

/-- A CRL block in front is the first list of the chain. -/
theorem decodeCRLChain_cons {block : PemBlock} {rest : Blob}
    (hdec : decodeCRLChain (block :: rest) = some chain) (hblock : block.isCRL = true)
    (hcrl : block.crl = some crl) : ∃ tail, chain = crl :: tail := by
  obtain ⟨r, hr, rfl⟩ := Option.map_eq_some_iff.mp hdec
  have hfirst : decodeCRLChainRest 0 [crl] rest = some r := by
    simpa [decodeCRLChainRest, hblock, hcrl] using hr
  obtain ⟨tail, htail⟩ := prefix_decodeCRLChainRest hfirst
  exact ⟨tail, htail.symm⟩

/-- **The stored own CRL of a chain of CRL blocks is its newest own list**, which is
what the readers that decode the whole chain look at. -/
theorem storedOwn_eq_ownCRLIn {blob : Blob} (hdec : decodeCRLChain blob = some chain)
    (hhead : ∀ block ∈ blob.head?, block.isCRL = true) :
    storedOwn cert blob = ownCRLIn chain cert := by
  cases blob with
  | nil =>
    obtain rfl : [] = chain := by simpa [decodeCRLChain, decodeCRLChainRest] using hdec
    rfl
  | cons block rest =>
    have hcrl : block.isCRL = true := hhead block rfl
    cases hb : block.crl with
    | none => simp [decodeCRLChain, decodeCRLChainRest, hcrl, hb] at hdec
    | some crl =>
      obtain ⟨tail, rfl⟩ := decodeCRLChain_cons hdec hcrl hb
      have hcand : candidates (block :: rest) = crl :: crl :: tail := by
        simp [candidates, hb, hdec]
      rw [storedOwn, hcand]
      by_cases hown : crlSignedBy cert crl = true
      · rw [ownCRLIn_cons_own hown, ownCRLIn_cons_own hown]
        cases htl : ownCRLIn tail cert with
        | none => simp
        | some newest => by_cases hn : newerCRL newest crl = true <;> simp [hn]
      · rw [ownCRLIn_eq_argmax, ownCRLIn_eq_argmax, List.filter_cons_of_neg hown]

/-! ### The lists of the ancestors -/

/-- `publishedUpstream`: the blocks of the stored chain that are not ours. -/
def publishedUpstream (cert : Certificate) (blob : Blob) : Option (List RevocationList) :=
  (decodeCRLChain blob).map fun stored => stored.filter fun crl => !crlSignedBy cert crl

/-- `signerOf`: the first candidate that signed the list. -/
def signerOf (certs : List Certificate) (crl : RevocationList) : Option Certificate :=
  certs.find? fun cert => crlSignedBy cert crl

def signedByAny (certs : List Certificate) (crl : RevocationList) : Bool :=
  (signerOf certs crl).isSome

/-- One round of `dedupeCRLs`: a second list of a signer replaces the first in its
place if it is newer, and is dropped otherwise. -/
def dedupeStep (issuers : List Certificate)
    (acc : List RevocationList × (Certificate → Option ℕ)) (crl : RevocationList) :
    List RevocationList × (Certificate → Option ℕ) :=
  match signerOf issuers crl with
  | none => (acc.1 ++ [crl], acc.2)
  | some signer =>
    match acc.2 signer with
    | none => (acc.1 ++ [crl], Function.update acc.2 signer (some acc.1.length))
    | some i =>
      match acc.1[i]? with
      | some kept => if newerCRL crl kept then (acc.1.set i crl, acc.2) else acc
      | none => acc

/-- `dedupeCRLs`: one list a signer, the newest. -/
def dedupeCRLs (issuers : List Certificate) (crls : List RevocationList) : List RevocationList :=
  (crls.foldl (dedupeStep issuers) ([], fun _ => none)).1

variable {issuers : List Certificate}

theorem mem_of_mem_dedupeCRLs {crls : List RevocationList} (h : crl ∈ dedupeCRLs issuers crls) :
    crl ∈ crls := by
  have general : ∀ (l : List RevocationList) acc, crl ∈ (l.foldl (dedupeStep issuers) acc).1 →
      crl ∈ acc.1 ∨ crl ∈ l := by
    intro l
    induction l with
    | nil => exact fun acc h => Or.inl h
    | cons c l ih =>
      intro acc h
      rcases ih _ h with h | h
      · have : crl ∈ acc.1 ∨ crl = c := by
          unfold dedupeStep at h
          split at h
          · simpa using h
          · split at h
            · simpa using h
            · split at h
              · split at h
                · exact List.mem_or_eq_of_mem_set h
                · exact Or.inl h
              · exact Or.inl h
        rcases this with h | rfl
        · exact Or.inl h
        · exact Or.inr List.mem_cons_self
      · exact Or.inr (List.mem_cons_of_mem _ h)
  rcases general crls _ h with h | h
  · cases h
  · exact h

/-- One round of the first loop of `monotonicUpstream`: a published list newer than
those of its signer so far. -/
def currentStep (issuers : List Certificate) (current : Certificate → Option RevocationList)
    (crl : RevocationList) : Certificate → Option RevocationList :=
  match signerOf issuers crl with
  | none => current
  | some signer =>
    match current signer with
    | none => Function.update current signer (some crl)
    | some prev =>
      if newerCRL crl prev then Function.update current signer (some crl) else current

/-- The map `current` of `monotonicUpstream`: the newest published list of each
signer. -/
def currentBySigner (issuers : List Certificate) (published : List RevocationList) :
    Certificate → Option RevocationList :=
  published.foldl (currentStep issuers) fun _ => none

theorem currentStep_eq (issuers : List Certificate)
    (current : Certificate → Option RevocationList) (crl : RevocationList) :
    currentStep issuers current crl = current ∨
      ∃ signer, currentStep issuers current crl = Function.update current signer (some crl) := by
  unfold currentStep
  split
  · exact Or.inl rfl
  · split
    · exact Or.inr ⟨_, rfl⟩
    · split
      · exact Or.inr ⟨_, rfl⟩
      · exact Or.inl rfl

theorem mem_of_currentBySigner {published : List RevocationList} {signer : Certificate}
    (h : currentBySigner issuers published signer = some crl) : crl ∈ published := by
  refine List.foldlRecOn (motive := fun current : Certificate → Option RevocationList =>
    ∀ s c, current s = some c → c ∈ published) published _ (by simp) ?_ signer crl h
  intro current ih c hc s d hd
  rcases currentStep_eq issuers current c with heq | ⟨signer', heq⟩
  · rw [heq] at hd
    exact ih s d hd
  · rw [heq] at hd
    rcases eq_or_ne s signer' with rfl | hne
    · rw [Function.update_self] at hd
      exact Option.some.inj hd ▸ hc
    · rw [Function.update_of_ne hne] at hd
      exact ih s d hd

/-- `monotonicUpstream`: a list older than the published one of the same signer is
replaced by it; nothing published means nothing to hold on to. -/
def monotonicUpstream (cert : Certificate) (issuers : List Certificate) (storedBlob : Blob)
    (incoming : List RevocationList) : Option (List RevocationList) :=
  (publishedUpstream cert storedBlob).map fun published =>
    if published = [] then incoming
    else incoming.filterMap fun crl =>
      (signerOf issuers crl).map fun signer =>
        match currentBySigner issuers published signer with
        | some prev => if newerCRL prev crl then prev else crl
        | none => crl

/-- Everything `monotonicUpstream` lets through is incoming or was published. -/
theorem foreign_of_mem_monotonicUpstream {storedBlob : Blob} {incoming out : List RevocationList}
    (hin : ∀ crl ∈ incoming, crlSignedBy cert crl = false)
    (h : monotonicUpstream cert issuers storedBlob incoming = some out) :
    ∀ crl ∈ out, crlSignedBy cert crl = false := by
  obtain ⟨published, hpub, hout⟩ := Option.map_eq_some_iff.mp h
  have hforeign : ∀ crl ∈ published, crlSignedBy cert crl = false := by
    obtain ⟨stored, -, rfl⟩ := Option.map_eq_some_iff.mp hpub
    simp
  subst hout
  split
  · exact hin
  · intro crl hcrl
    obtain ⟨c, hc, hsome⟩ := List.mem_filterMap.mp hcrl
    obtain ⟨signer, -, rfl⟩ := Option.map_eq_some_iff.mp hsome
    split
    · next prev hprev =>
      split
      · exact hforeign _ (mem_of_currentBySigner hprev)
      · exact hin _ hc
    · exact hin _ hc

/-- The middle of `upstreamCRLs`: lists of our own and lists no bundle certificate
signed are left out, and one list a signer is kept. -/
def verifiedUpstream (cert : Certificate) (issuers : List Certificate)
    (parsed : List RevocationList) : List RevocationList :=
  dedupeCRLs issuers (parsed.filter fun crl => !crlSignedBy cert crl && signedByAny issuers crl)

theorem foreign_of_mem_verifiedUpstream {parsed : List RevocationList} :
    ∀ crl ∈ verifiedUpstream cert issuers parsed, crlSignedBy cert crl = false := by
  intro crl h
  have := List.mem_filter.mp (mem_of_mem_dedupeCRLs h)
  simpa using (Bool.and_eq_true_iff.mp this.2).1

/-! ### Ordering an imported chain -/

/-- One round of `orderCRLChain`: our newest list so far, the number of own lists
passed over, and the lists of others. -/
def orderStep (cert : Certificate) (acc : Option RevocationList × ℕ × List RevocationList)
    (crl : RevocationList) : Option RevocationList × ℕ × List RevocationList :=
  if crlSignedBy cert crl then
    match acc.1 with
    | none => (some crl, acc.2)
    | some ours => (some (if newerCRL crl ours then crl else ours), acc.2.1 + 1, acc.2.2)
  else (acc.1, acc.2.1, acc.2.2 ++ [crl])

/-- `orderCRLChain`: our newest list first, then the others in order; the number of
own lists dropped; and whether there was one. -/
def orderCRLChain (crls : List RevocationList) (cert : Certificate) :
    List RevocationList × ℕ × Bool :=
  match crls.foldl (orderStep cert) (none, 0, []) with
  | (none, _) => (crls, 0, false)
  | (some ours, superseded, others) => (ours :: others, superseded, true)

/-- The list `orderCRLChain` puts first is the one `ownCRLIn` finds, and those it puts
behind are the ones that are not ours. -/
theorem foldl_orderStep (cert : Certificate) (crls : List RevocationList) :
    (crls.foldl (orderStep cert) (none, 0, [])).1 = ownCRLIn crls cert ∧
      (crls.foldl (orderStep cert) (none, 0, [])).2.2 =
        crls.filter fun crl => !crlSignedBy cert crl := by
  have general : ∀ (l : List RevocationList) ours n others,
      (l.foldl (orderStep cert) (ours, n, others)).1 = l.foldl (fun ours crl =>
        if crlSignedBy cert crl && (match ours with
          | none => true
          | some ours => newerCRL crl ours) then some crl else ours) ours ∧
      (l.foldl (orderStep cert) (ours, n, others)).2.2 =
        others ++ l.filter fun crl => !crlSignedBy cert crl := by
    intro l
    induction l with
    | nil => simp
    | cons crl l ih =>
      intro ours n others
      rw [List.foldl_cons, List.foldl_cons]
      by_cases hown : crlSignedBy cert crl = true
      · cases ours with
        | none => simpa [orderStep, hown] using ih (some crl) n others
        | some o =>
          by_cases hn : newerCRL crl o = true
          · simpa [orderStep, hown, hn] using ih (some crl) (n + 1) others
          · simpa [orderStep, hown, hn] using ih (some o) (n + 1) others
      · simpa [orderStep, hown] using ih ours n (others ++ [crl])
  simpa [ownCRLIn] using general crls none 0 []

end OpenvoxCa.Ca
