import OpenvoxCa.Ca.Chain
import OpenvoxCa.Data.Newest

/-!
# What becomes of the lists of the ancestors

`monotonicUpstream` lets the operator's file decide which ancestors' lists are published, and
nothing else: it is the merge of `Data.merge`, with the signer of a list as its key
(`monotonicUpstream_eq_merge`). A list is attributed to the first certificate of the bundle whose
key signed it, so the lists of one key all have the same signer, and what is said here of signers
holds of every certificate, in the bundle or not.

* A signer's list is never replaced by an older one
  (`rank_le_of_monotonicUpstream`).
* What is published was published already or is signed by a certificate of the bundle
  (`mem_or_signed_of_monotonicUpstream`).
* Publishing what the same file says once more publishes the same lists
  (`monotonicUpstream_again`).
-/

namespace OpenvoxCa.Ca

variable {cert : Certificate} {issuers : List Certificate} {crl c d : RevocationList}

/-! ### Signers -/

/-- A list is attributed by the key that signed it. -/
theorem signerOf_congr (h : c.signedBy = d.signedBy) : signerOf issuers c = signerOf issuers d := by
  unfold signerOf crlSignedBy
  rw [h]

theorem signedBy_eq (h : crlSignedBy cert c = true) : c.signedBy = cert.publicKey := by
  simp only [crlSignedBy, Bool.and_eq_true, beq_iff_eq] at h
  exact h.2

theorem signedByAny_iff : signedByAny issuers c = true ↔
    ∃ signer, signerOf issuers c = some signer :=
  Option.isSome_iff_exists

/-! ### One list a signer -/

/-- What the loop of `dedupeCRLs` keeps true of the signers of the lists so far and of the map
`at`: each list has a signer, no signer has two, and the map says where each signer's is. -/
structure Indexed (signers : List (Option Certificate)) (at' : Certificate → Option ℕ) : Prop where
  keyed : none ∉ signers
  nodup : signers.Nodup
  found : ∀ signer i, at' signer = some i → signers[i]? = some (some signer)
  missing : ∀ signer, at' signer = none → some signer ∉ signers

/-- A list of a new signer. -/
theorem Indexed.append {signers : List (Option Certificate)} {at' : Certificate → Option ℕ}
    {signer : Certificate} (h : Indexed signers at') (hnew : at' signer = none) :
    Indexed (signers ++ [some signer]) (Function.update at' signer (some signers.length)) where
  keyed := by simpa using h.keyed
  nodup := h.nodup.append (by simp) (by simpa using h.missing signer hnew)
  found := by
    intro other i hi
    rcases eq_or_ne other signer with rfl | hne
    · rw [Function.update_self] at hi
      obtain rfl := Option.some.inj hi
      exact List.getElem?_concat_length
    · rw [Function.update_of_ne hne] at hi
      have hat := h.found other i hi
      have hlt : i < signers.length := (List.getElem?_eq_some_iff.mp hat).choose
      rwa [List.getElem?_append_left hlt]
  missing := by
    intro other hnone
    rcases eq_or_ne other signer with rfl | hne
    · rw [Function.update_self] at hnone
      cases hnone
    · rw [Function.update_of_ne hne] at hnone
      simpa [hne] using h.missing other hnone

/-- **One round keeps it.** -/
theorem Indexed.dedupeStep {acc : List RevocationList × (Certificate → Option ℕ)}
    (h : Indexed (acc.1.map (signerOf issuers)) acc.2) (hc : signedByAny issuers c = true) :
    Indexed ((dedupeStep issuers acc c).1.map (signerOf issuers)) (dedupeStep issuers acc c).2 := by
  obtain ⟨signer, hsigner⟩ := signedByAny_iff.mp hc
  unfold Ca.dedupeStep
  rw [hsigner]
  cases hat : acc.2 signer with
  | none => simpa [hat, hsigner] using h.append hat
  | some i =>
    cases hkept : acc.1[i]? with
    | none => simpa [hat, hkept] using h
    | some kept =>
      by_cases hnewer : newerCRL c kept = true
      · -- The newer list takes the place of one of the same signer.
        have hsame : (acc.1.map (signerOf issuers)).set i (some signer) =
            acc.1.map (signerOf issuers) := by
          obtain ⟨hlt, hget⟩ := List.getElem?_eq_some_iff.mp (h.found signer i hat)
          rw [← hget, List.set_getElem_self]
        simpa [hat, hkept, hnewer, List.map_set, hsigner, hsame] using h
      · simpa [hat, hkept, hnewer] using h

theorem Indexed.foldl {a : List RevocationList × (Certificate → Option ℕ)}
    {crls : List RevocationList} (h : Indexed (a.1.map (signerOf issuers)) a.2)
    (hcrls : ∀ c ∈ crls, signedByAny issuers c = true) :
    Indexed ((crls.foldl (Ca.dedupeStep issuers) a).1.map (signerOf issuers))
      (crls.foldl (Ca.dedupeStep issuers) a).2 := by
  induction crls generalizing a with
  | nil => exact h
  | cons crl crls ih =>
    refine ih (h.dedupeStep (hcrls crl List.mem_cons_self)) fun c hc => ?_
    exact hcrls c (List.mem_cons_of_mem _ hc)

/-- **`dedupeCRLs` leaves one list a signer.** -/
theorem oneEach_dedupeCRLs {crls : List RevocationList}
    (hcrls : ∀ c ∈ crls, signedByAny issuers c = true) :
    Data.OneEach (signerOf issuers) (dedupeCRLs issuers crls) := by
  have hstart : Indexed (([] : List RevocationList).map (signerOf issuers)) fun _ => none :=
    ⟨by simp, by simp, by simp, by simp⟩
  have hindexed := hstart.foldl (a := ([], fun _ => none)) hcrls
  refine ⟨fun c hc => ?_, hindexed.nodup⟩
  cases hsigner : signerOf issuers c with
  | some signer => exact ⟨signer, rfl⟩
  | none => exact absurd (List.mem_map.mpr ⟨c, hc, hsigner⟩) hindexed.keyed

theorem signed_of_mem_verifiedUpstream {parsed : List RevocationList}
    (h : c ∈ verifiedUpstream cert issuers parsed) : signedByAny issuers c = true := by
  have hmem := List.mem_filter.mp (mem_of_mem_dedupeCRLs h)
  exact (Bool.and_eq_true_iff.mp hmem.2).2

theorem oneEach_verifiedUpstream (cert : Certificate) (issuers : List Certificate)
    (parsed : List RevocationList) :
    Data.OneEach (signerOf issuers) (verifiedUpstream cert issuers parsed) := by
  refine oneEach_dedupeCRLs fun c hc => ?_
  exact (Bool.and_eq_true_iff.mp (List.mem_filter.mp hc).2).2

/-! ### The merge -/

theorem currentStep_eq_collect (issuers : List Certificate) :
    currentStep issuers = Data.collect (signerOf issuers) rank := by
  funext current crl
  cases hsigner : signerOf issuers crl with
  | none => simp [currentStep, Data.collect, hsigner]
  | some signer =>
    cases hprev : current signer with
    | none => simp [currentStep, Data.collect, hsigner, hprev]
    | some prev => simp [currentStep, Data.collect, hsigner, hprev, newerCRL_iff]

/-- **What is published is the merge of what was published and what the file states.** -/
theorem monotonicUpstream_eq_merge (cert : Certificate) (issuers : List Certificate) (blob : Blob)
    (parsed : List RevocationList) :
    monotonicUpstream cert issuers blob (verifiedUpstream cert issuers parsed) =
      (publishedUpstream cert blob).map fun published =>
        Data.merge (signerOf issuers) rank published (verifiedUpstream cert issuers parsed) := by
  unfold monotonicUpstream
  congr 1
  funext published
  split
  · next hnil => rw [hnil, (oneEach_verifiedUpstream cert issuers parsed).merge_nil]
  · refine List.filterMap_congr fun crl _ => congrArg (fun f => Option.map f _)
      (funext fun signer => ?_)
    rw [currentBySigner, currentStep_eq_collect, Data.foldl_collect]
    cases hprev : Data.newest (signerOf issuers) rank published signer with
    | none => simp [Data.supersede, hprev]
    | some prev => simp [Data.supersede, hprev, newerCRL_iff]

variable {blob : Blob} {parsed published out : List RevocationList}

theorem exists_merge_of_monotonicUpstream
    (h : monotonicUpstream cert issuers blob (verifiedUpstream cert issuers parsed) = some out) :
    ∃ published, publishedUpstream cert blob = some published ∧
      out = Data.merge (signerOf issuers) rank published
      (verifiedUpstream cert issuers parsed) := by
  rw [monotonicUpstream_eq_merge] at h
  obtain ⟨published, hpub, hout⟩ := Option.map_eq_some_iff.mp h
  exact ⟨published, hpub, hout.symm⟩

theorem foreign_of_mem_published (h : publishedUpstream cert blob = some published) :
    ∀ c ∈ published, crlSignedBy cert c = false := by
  obtain ⟨stored, -, rfl⟩ := Option.map_eq_some_iff.mp h
  simp

/-- **No ancestor's list goes back.** -/
theorem rank_le_of_monotonicUpstream {ancestor : Certificate}
    (h : monotonicUpstream cert issuers blob (verifiedUpstream cert issuers parsed) = some out)
    (hpub : publishedUpstream cert blob = some published) (hc : c ∈ published)
    (hcsigned : crlSignedBy ancestor c = true) (hd : d ∈ out)
    (hdsigned : crlSignedBy ancestor d = true) : rank c ≤ rank d := by
  obtain ⟨published', hpub', rfl⟩ := exists_merge_of_monotonicUpstream h
  obtain rfl := Option.some.inj (hpub.symm.trans hpub')
  obtain ⟨a, -, signer, hsigner, hd'⟩ := Data.mem_merge.mp hd
  have hdsigner : signerOf issuers d = some signer := hd' ▸ Data.key_supersede hsigner
  have hcsigner : signerOf issuers c = some signer :=
    (signerOf_congr ((signedBy_eq hcsigned).trans (signedBy_eq hdsigned).symm)).trans hdsigner
  exact Data.rank_le_of_mem_merge hd hdsigner hc hcsigner

/-- **What is published was published, or a certificate of the bundle signed it.** -/
theorem mem_or_signed_of_monotonicUpstream
    (h : monotonicUpstream cert issuers blob (verifiedUpstream cert issuers parsed) = some out)
    (hpub : publishedUpstream cert blob = some published) (hd : d ∈ out) :
    d ∈ published ∨ ∃ signer ∈ issuers, crlSignedBy signer d = true := by
  obtain ⟨published', hpub', rfl⟩ := exists_merge_of_monotonicUpstream h
  obtain rfl := Option.some.inj (hpub.symm.trans hpub')
  rcases Data.mem_or_mem_of_mem_merge hd with hd | hd
  · obtain ⟨signer, hsigner⟩ := signedByAny_iff.mp (signed_of_mem_verifiedUpstream hd)
    exact Or.inr ⟨signer, List.mem_of_find?_eq_some hsigner, by simpa using List.find?_some hsigner⟩
  · exact Or.inl hd

theorem publishedUpstream_encode {ours : RevocationList} {ancestors : List RevocationList}
    (hours : crlSignedBy cert ours = true)
    (hforeign : ∀ c ∈ ancestors, crlSignedBy cert c = false) :
    publishedUpstream cert (encodeCRLChain (ours :: ancestors)) = some ancestors := by
  have hfilter : (ancestors.filter fun crl => !crlSignedBy cert crl) = ancestors :=
    List.filter_eq_self.mpr fun c hc => by simp [hforeign c hc]
  simp [publishedUpstream, hours, hfilter]

/-- **The same file and the same bundle once more**: nothing changes. -/
theorem monotonicUpstream_again {ours : RevocationList} (hours : crlSignedBy cert ours = true)
    (h : monotonicUpstream cert issuers blob (verifiedUpstream cert issuers parsed) = some out) :
    monotonicUpstream cert issuers (encodeCRLChain (ours :: out))
      (verifiedUpstream cert issuers parsed) = some out := by
  have hforeign := foreign_of_mem_monotonicUpstream foreign_of_mem_verifiedUpstream h
  obtain ⟨published, -, rfl⟩ := exists_merge_of_monotonicUpstream h
  rw [monotonicUpstream_eq_merge, publishedUpstream_encode hours hforeign, Option.map_some,
    (oneEach_verifiedUpstream cert issuers parsed).merge_merge]

end OpenvoxCa.Ca
