import OpenvoxCa.Ca.Revoke
import OpenvoxCa.Data.Assoc

/-!
# The memory of the OCSP responder

What a replica answers OCSP requests from: the cached CRL, the index of the serials this CA has
issued, and the answers it has signed before. The three are tied together. An answer is computed
from the other two, so whoever changes those has to drop the answers they no longer justify: a CRL
being installed (`Responder.install`), a serial leaving the index (`Responder.dropSerial`). And an
answer is signed without any lock, so it is stored only if it would be given again at that moment
(`Responder.remember`).

`Coherent` says what the answers are good for, and each of the operations keeps it. The one thing an
installed CRL does *not* drop is an answer `revoked` for a serial that it no longer lists, so the
invariant is relative to the serials that have been dropped in this way.

The index is brought up to date with the stored inventory by `Responder.reconcile`, whose two halves
are guarded by two counters: one that counts what this replica issued or pruned, one that counts
what has left the index.
-/

namespace OpenvoxCa.Ocsp

open Ca (Time Duration RevocationList InventoryEntry serialInCRL newlyRevoked entrySerials)

open Data (Assoc)

/-! ### Answers -/

/-- The hash of a request's `CertID`. -/
inductive Hash
  | sha1 | sha256 | sha384 | sha512
  /-- Any other algorithm. -/
  | other (id : ℕ)
  deriving DecidableEq, Repr

def ocspCacheHashes : List Hash := [.sha1, .sha256, .sha384, .sha512]

def ocspCacheableHash (h : Hash) : Bool := ocspCacheHashes.contains h

/-- `OCSPValidity`: four hours. -/
def ocspValidity : Duration := 4 * Ca.hour

/-- The status of a certificate; a revoked one has the time of its revocation. -/
inductive Status
  | good
  | revoked (time : Time)
  | unknown
  deriving DecidableEq, Repr

/-- **A signed response**, as far as the responder fills it in. -/
structure Response where
  serialNumber : ℤ
  issuerHash : Hash
  status : Status
  thisUpdate : Time
  /-- Absent for `unknown`. -/
  nextUpdate : Option Time
  /-- The nonce echoed, if any. -/
  nonce : Option (List ℕ)
  /-- What tells two signatures over the same contents apart. -/
  signature : ℕ := 0
  deriving DecidableEq, Repr

/-- `ocspCacheKey`. -/
structure CacheKey where
  serial : Text
  hash : Hash
  deriving DecidableEq, Repr

/-- `ocspCacheEntry`. -/
structure CacheEntry where
  der : Response
  expiresAt : Time
  deriving DecidableEq, Repr

/-- Why a request or an operation of the replica fails. -/
inductive Failure
  /-- The request does not parse. -/
  | malformedRequest
  /-- The hash of the request is not available. -/
  | hashUnavailable
  /-- `ErrNotAuthoritative`. -/
  | notAuthoritative
  /-- `ErrInternal`: the CRL is not loaded. -/
  | crlNotLoaded
  /-- `ErrInternal`: the context is done. -/
  | cancelled
  /-- `ErrSigningBusy`. -/
  | signingBusy
  /-- `ErrInternal`, or a signature of a CRL that could not be made. -/
  | signing
  | notExist
  | storage
  | serialExists
  | malformedSerial
  deriving DecidableEq, Repr

def decideOCSPStatus (crl : Option RevocationList) (serial : ℤ) (known : Bool) :
    Except Failure Status :=
  if known then
    match crl with
    | none => .error .crlNotLoaded
    | some crl =>
      match crl.entries.find? fun e => e.serialNumber == serial with
      | some entry => .ok (.revoked entry.revocationTime)
      | none => .ok .good
  else .ok .unknown

theorem decideOCSPStatus_good {crl : Option RevocationList} {serial : ℤ} {known : Bool}
    (h : decideOCSPStatus crl serial known = .ok .good) :
    known = true ∧ ∃ list, crl = some list ∧ serial ∉ list.serials := by
  unfold decideOCSPStatus at h
  split at h
  · next hknown =>
    split at h
    · cases h
    · next list =>
      split at h
      · cases h
      · next hfind =>
        refine ⟨hknown, list, rfl, fun hmem => ?_⟩
        obtain ⟨e, he, rfl⟩ := List.mem_map.mp hmem
        simpa using List.find?_eq_none.mp hfind e he
  · cases h

theorem decideOCSPStatus_revoked {crl : Option RevocationList} {serial : ℤ} {known : Bool}
    {time : Time} (h : decideOCSPStatus crl serial known = .ok (.revoked time)) :
    known = true ∧ ∃ list, crl = some list ∧ serial ∈ list.serials := by
  unfold decideOCSPStatus at h
  split at h
  · next hknown =>
    split at h
    · cases h
    · next list =>
      split at h
      · next entry hfind =>
        have hserial : entry.serialNumber = serial := by simpa using List.find?_some hfind
        exact ⟨hknown, list, rfl,
          hserial ▸ List.mem_map_of_mem (List.mem_of_find?_eq_some hfind)⟩
      · cases h
  · cases h

/-! ### The memory -/

/-- The index of issued serials: a subject for each serial, in canonical form. -/
abbrev SerialIndex := Assoc Text Text

/-- **The memory** that the mutex of the replica guards. -/
structure Responder where
  cachedCRL : Option RevocationList := none
  serialIndex : SerialIndex := ∅
  /-- `serialIndexEpoch`: what this replica has issued or pruned, and what syncs have added. -/
  epoch : ℕ := 0
  /-- `serialIndexRemovalEpoch`: what has left the index. -/
  removalEpoch : ℕ := 0
  ocspCache : Assoc CacheKey CacheEntry := ∅

namespace Responder

/-- The cached CRL revokes the serial. -/
def Revokes (m : Responder) (serial : ℤ) : Prop :=
  ∃ crl, m.cachedCRL = some crl ∧ serial ∈ crl.serials

/-- The keys under which an answer about a serial may be cached. -/
def keysOf (serial : Text) : List CacheKey := ocspCacheHashes.map fun h => ⟨serial, h⟩

/-- `evictOCSPLocked`. -/
def evictOCSP (m : Responder) (serial : Text) : Responder :=
  { m with ocspCache := m.ocspCache.eraseAll (keysOf serial) }

/-- `invalidateOCSPForNewlyRevokedLocked`, after the CRL has been replaced. -/
def invalidate (m : Responder) (previous : Option RevocationList) (current : RevocationList) :
    Responder :=
  (newlyRevoked previous current).foldl evictOCSP m

/-- **`installCachedCRLLocked`.** -/
def install (m : Responder) (next : RevocationList) : Responder :=
  { m with cachedCRL := some next }.invalidate m.cachedCRL next

/-- `indexSerialLocked`. -/
def indexSerial (m : Responder) (serial subject : Text) : Responder :=
  { m with serialIndex := m.serialIndex.insert serial subject, epoch := m.epoch + 1 }

/-- **`dropSerialLocked`.** -/
def dropSerial (m : Responder) (serial : Text) : Responder :=
  let m := { m with serialIndex := m.serialIndex.erase serial }.evictOCSP serial
  { m with removalEpoch := m.removalEpoch + 1 }

/-- `unindexSerialLocked`. -/
def unindexSerial (m : Responder) (serial : Text) : Responder :=
  let m := m.dropSerial serial
  { m with epoch := m.epoch + 1 }

/-- **The cache write of `AnswerOCSP`**: the status is decided again, and the answer is stored only
if it is still the same. -/
def remember (m : Responder) (key : CacheKey) (der : Response) (now : Time) : Option Responder :=
  match decideOCSPStatus m.cachedCRL der.serialNumber (decide (key.serial ∈ m.serialIndex)) with
  | .error _ => none
  | .ok status =>
    if status = der.status then
      some { m with ocspCache := m.ocspCache.insert key ⟨der, now + ocspValidity⟩ }
    else none

/-! ### Reconciling the index with the inventory -/

structure SerialIndexDelta where
  added : ℕ := 0
  removed : ℕ := 0
  total : ℕ := 0
  deriving DecidableEq, Repr

/-- The serials that the index holds and the inventory does not. -/
def strays (m : Responder) (stored : SerialIndex) : List Text :=
  m.serialIndex.keys.filter fun serial => serial ∉ stored

/-- The additions of a pass, which stand down if something has left the index meanwhile. -/
def addStored (m : Responder) (stored : SerialIndex) (sawRemoval : Bool) : Responder × ℕ :=
  if sawRemoval then (m, 0)
  else
    let (index, added) := Assoc.copyOnto stored m.serialIndex
    ({ m with serialIndex := index, epoch := if 0 < added then m.epoch + 1 else m.epoch }, added)

/-- The removals of a pass, which stand down if this replica has issued or pruned meanwhile. -/
def dropStrays (m : Responder) (stored : SerialIndex) (raced : Bool) : Responder × ℕ :=
  if raced then (m, 0)
  else ((m.strays stored).foldl dropSerial m, (m.strays stored).length)

/-- **`reconcileSerialIndexLocked`.** -/
def reconcile (m : Responder) (stored : SerialIndex) (readEpoch readRemovalEpoch : ℕ) :
    Responder × SerialIndexDelta :=
  -- Both are decided before the counters move.
  let raced := m.epoch ≠ readEpoch
  let sawRemoval := m.removalEpoch ≠ readRemovalEpoch
  let (m, added) := m.addStored stored sawRemoval
  let (m, removed) := m.dropStrays stored raced
  (m, { added := added, removed := removed, total := m.serialIndex.keys.length })

end Responder

/-- The canonical text of the serial of an inventory entry, where it is a number. -/
def canonicalSerial (e : InventoryEntry) : Option Text := (setString16 e.serial).map serialHexStr

/-- **`readSerialIndex`**: entries whose serial is malformed are skipped. -/
def readSerialIndex (entries : List InventoryEntry) : SerialIndex :=
  Assoc.insertAll ∅ (entries.filterMap fun e => (canonicalSerial e).map fun k => (k, e.subject))

/-- An inventory bears a serial, given by its canonical text. -/
def Bears (inventory : List InventoryEntry) (serial : Text) : Prop :=
  ∃ e ∈ inventory, canonicalSerial e = some serial

instance (inventory : List InventoryEntry) (serial : Text) : Decidable (Bears inventory serial) :=
  inferInstanceAs (Decidable (∃ e ∈ inventory, _))

theorem mem_readSerialIndex {entries : List InventoryEntry} {serial : Text} :
    serial ∈ readSerialIndex entries ↔ Bears entries serial := by
  unfold readSerialIndex
  rw [Assoc.mem_insertAll, Bears]
  constructor
  · rintro (hempty | ⟨b, hb, rfl⟩)
    · exact absurd hempty (AList.notMem_empty _)
    · obtain ⟨e, he, hk⟩ := List.mem_filterMap.mp hb
      obtain ⟨k, hcanon, rfl⟩ := Option.map_eq_some_iff.mp hk
      exact ⟨e, he, hcanon⟩
  · rintro ⟨e, he, hk⟩
    exact Or.inr ⟨(serial, e.subject), List.mem_filterMap.mpr ⟨e, he, by simp [hk]⟩, rfl⟩

/-! ### What the operations do to the maps -/

namespace Responder

variable {m m' : Responder} {key : CacheKey} {serial : Text}

theorem mem_keysOf {key : CacheKey} {serial : Text} :
    key ∈ keysOf serial ↔ key.serial = serial ∧ key.hash ∈ ocspCacheHashes := by
  obtain ⟨s, h⟩ := key
  simp [keysOf, and_comm, eq_comm]

theorem lookup_evictOCSP (m : Responder) (serial : Text) (key : CacheKey) :
    (m.evictOCSP serial).ocspCache.lookup key =
      if key.serial = serial ∧ key.hash ∈ ocspCacheHashes then none
      else m.ocspCache.lookup key := by
  simp only [evictOCSP, Assoc.lookup_eraseAll, mem_keysOf]

/-- A loop of evictions touches the cache only, and drops exactly the serials it goes over. -/
theorem foldl_evictOCSP (serials : List Text) (m : Responder) :
    (serials.foldl evictOCSP m).cachedCRL = m.cachedCRL ∧
      (serials.foldl evictOCSP m).serialIndex = m.serialIndex ∧
      (serials.foldl evictOCSP m).epoch = m.epoch ∧
      (serials.foldl evictOCSP m).removalEpoch = m.removalEpoch ∧
      ∀ key, (serials.foldl evictOCSP m).ocspCache.lookup key =
        if key.serial ∈ serials ∧ key.hash ∈ ocspCacheHashes then none
        else m.ocspCache.lookup key := by
  induction serials generalizing m with
  | nil => simp
  | cons serial serials ih =>
    obtain ⟨hcrl, hindex, hepoch, hremoval, hlookup⟩ := ih (m.evictOCSP serial)
    refine ⟨hcrl, hindex, hepoch, hremoval, fun key => ?_⟩
    rw [List.foldl_cons, hlookup, lookup_evictOCSP]
    by_cases hhash : key.hash ∈ ocspCacheHashes <;> by_cases hk : key.serial = serial <;>
      simp [hhash, hk]

/-- A loop of drops: the index and the cache lose the serials together. -/
theorem foldl_dropSerial (serials : List Text) (m : Responder) :
    (serials.foldl dropSerial m).cachedCRL = m.cachedCRL ∧
      (serials.foldl dropSerial m).epoch = m.epoch ∧
      (serials.foldl dropSerial m).removalEpoch = m.removalEpoch + serials.length ∧
      (∀ serial, (serials.foldl dropSerial m).serialIndex.lookup serial =
        if serial ∈ serials then none else m.serialIndex.lookup serial) ∧
      ∀ key, (serials.foldl dropSerial m).ocspCache.lookup key =
        if key.serial ∈ serials ∧ key.hash ∈ ocspCacheHashes then none
        else m.ocspCache.lookup key := by
  induction serials generalizing m with
  | nil => simp
  | cons serial serials ih =>
    obtain ⟨hcrl, hepoch, hremoval, hindex, hlookup⟩ := ih (m.dropSerial serial)
    refine ⟨hcrl, hepoch, ?_, fun s => ?_, fun key => ?_⟩
    · rw [List.foldl_cons, hremoval, List.length_cons]
      change m.removalEpoch + 1 + serials.length = _
      omega
    · rw [List.foldl_cons, hindex]
      change (if s ∈ serials then none else (m.serialIndex.erase serial).lookup s) = _
      rcases eq_or_ne s serial with rfl | hne
      · simp
      · simp [hne, AList.lookup_erase_ne hne]
    · rw [List.foldl_cons, hlookup]
      change (if _ then none else
        (m.evictOCSP serial).ocspCache.lookup key) = _
      rw [lookup_evictOCSP]
      by_cases hhash : key.hash ∈ ocspCacheHashes <;> by_cases hk : key.serial = serial <;>
        simp [hhash, hk]

theorem install_serialIndex (m : Responder) (next : RevocationList) :
    (m.install next).serialIndex = m.serialIndex :=
  (foldl_evictOCSP _ _).2.1

/-- A serial that an installed CRL lists and the one before did not is newly revoked. -/
theorem mem_newlyRevoked {next : RevocationList} {serial : ℤ} (hnext : serial ∈ next.serials)
    (hold : ¬m.Revokes serial) : serialHexStr serial ∈ newlyRevoked m.cachedCRL next := by
  unfold newlyRevoked
  refine List.mem_filter.mpr ⟨List.mem_map_of_mem hnext, ?_⟩
  rw [Bool.not_eq_true', List.contains_eq_mem, decide_eq_false_iff_not]
  intro hwas
  obtain ⟨old, hmem, heq⟩ := List.mem_map.mp hwas
  rw [serialHexStr_inj.mp heq] at hmem
  cases hcrl : m.cachedCRL with
  | none => simp [hcrl] at hmem
  | some crl => exact hold ⟨crl, hcrl, by simpa [hcrl] using hmem⟩

/-- An answer is stored under the conditions under which it is given. -/
theorem remember_eq_some {der : Response} {now : Time} (h : m.remember key der now = some m') :
    decideOCSPStatus m.cachedCRL der.serialNumber (decide (key.serial ∈ m.serialIndex)) =
        .ok der.status ∧
      m' = { m with ocspCache := m.ocspCache.insert key ⟨der, now + ocspValidity⟩ } := by
  unfold remember at h
  split at h
  · cases h
  · next status hstatus =>
    split at h
    · next heq => exact ⟨heq ▸ hstatus, (Option.some.inj h).symm⟩
    · cases h

end Responder

/-! ### Coherence -/

/-- **What a cached answer is worth**: it is about a serial in the index, and it says what the
cached CRL says, except that a serial it calls revoked may have been dropped from the CRL since. -/
structure Justified (m : Responder) (overtaken : List CacheKey) (key : CacheKey) (der : Response) :
    Prop where
  serial : key.serial = serialHexStr der.serialNumber
  hash : key.hash ∈ ocspCacheHashes
  known : key.serial ∈ m.serialIndex
  good : der.status = .good → ¬m.Revokes der.serialNumber
  revoked : ∀ time, der.status = .revoked time → m.Revokes der.serialNumber ∨ key ∈ overtaken
  definite : der.status ≠ .unknown

/-- Every cached answer is justified. -/
def Coherent (m : Responder) (overtaken : List CacheKey) : Prop :=
  ∀ key entry, m.ocspCache.lookup key = some entry → Justified m overtaken key entry.der

/-- The keys of the serials that the cached CRL revokes and the next one does not. -/
def overtakenBy (m : Responder) (next : RevocationList) : List CacheKey :=
  (((m.cachedCRL.map RevocationList.serials).getD []).filter fun n => n ∉ next.serials).flatMap
    fun n => Responder.keysOf (serialHexStr n)

section Coherent

variable {m m' : Responder} {overtaken : List CacheKey}

/-- Evicting answers and adding to the index never hurts. -/
theorem Coherent.of_le (h : Coherent m overtaken) (hcrl : m'.cachedCRL = m.cachedCRL)
    (hcache : ∀ key entry, m'.ocspCache.lookup key = some entry →
      m.ocspCache.lookup key = some entry ∧ key.serial ∈ m'.serialIndex) :
    Coherent m' overtaken := by
  intro key entry hentry
  obtain ⟨hold, hknown⟩ := hcache key entry hentry
  have hj := h key entry hold
  have hrev : ∀ n, m'.Revokes n ↔ m.Revokes n := fun n => by
    rw [Responder.Revokes, hcrl, Responder.Revokes]
  exact ⟨hj.serial, hj.hash, hknown, fun hg => (hrev _).not.mpr (hj.good hg),
    fun time ht => (hj.revoked time ht).imp_left (hrev _).mpr, hj.definite⟩

theorem Coherent.evictOCSP (h : Coherent m overtaken) (serial : Text) :
    Coherent (m.evictOCSP serial) overtaken := by
  refine h.of_le rfl fun key entry hentry => ?_
  rw [Responder.lookup_evictOCSP] at hentry
  split at hentry
  · cases hentry
  · exact ⟨hentry, (h key entry hentry).known⟩

theorem Coherent.indexSerial (h : Coherent m overtaken) (serial subject : Text) :
    Coherent (m.indexSerial serial subject) overtaken :=
  h.of_le rfl fun key entry hentry =>
    ⟨hentry, (AList.mem_insert _).mpr (Or.inr (h key entry hentry).known)⟩

/-- **An answer does not outlive the index entry it was derived from.** -/
theorem Coherent.dropAll (h : Coherent m overtaken) (serials : List Text) :
    Coherent (serials.foldl Responder.dropSerial m) overtaken := by
  obtain ⟨hcrl, -, -, hindex, hcache⟩ := Responder.foldl_dropSerial serials m
  refine h.of_le hcrl fun key entry hentry => ?_
  rw [hcache] at hentry
  split at hentry
  · cases hentry
  · next hkept =>
    have hj := h key entry hentry
    have hnot : key.serial ∉ serials := fun hmem => hkept ⟨hmem, hj.hash⟩
    refine ⟨hentry, AList.lookup_isSome.mp ?_⟩
    rw [hindex, if_neg hnot]
    exact AList.lookup_isSome.mpr hj.known

theorem Coherent.unindexSerial (h : Coherent m overtaken) (serial : Text) :
    Coherent (m.unindexSerial serial) overtaken := by
  have hdrop := h.dropAll [serial]
  exact hdrop.of_le rfl fun key entry hentry => ⟨hentry, (hdrop key entry hentry).known⟩

/-- **Installing a CRL**: the answers `good` that it contradicts are dropped, the answers `revoked`
are not. -/
theorem Coherent.install (h : Coherent m overtaken) (next : RevocationList) :
    Coherent (m.install next) (overtaken ++ overtakenBy m next) := by
  intro key entry hentry
  rw [Responder.install, Responder.invalidate,
    (Responder.foldl_evictOCSP _ _).2.2.2.2 key] at hentry
  split at hentry
  · cases hentry
  · next hkept =>
    have hj := h key entry hentry
    have hrev : ∀ n, (m.install next).Revokes n ↔ n ∈ next.serials := fun n => by
      simp [Responder.Revokes, Responder.install, Responder.invalidate,
        (Responder.foldl_evictOCSP _ _).1]
    refine ⟨hj.serial, hj.hash, ?_, fun hg hn => ?_, fun time ht => ?_, hj.definite⟩
    · rw [Responder.install_serialIndex]
      exact hj.known
    · refine hkept ⟨?_, hj.hash⟩
      rw [hj.serial]
      exact Responder.mem_newlyRevoked ((hrev _).mp hn) (hj.good hg)
    · rw [hrev, List.mem_append]
      by_cases hn : entry.der.serialNumber ∈ next.serials
      · exact Or.inl hn
      · refine Or.inr ((hj.revoked time ht).symm.imp_right fun ⟨crl, hcrl, hm⟩ => ?_)
        refine List.mem_flatMap.mpr ⟨_, ?_, Responder.mem_keysOf.mpr ⟨hj.serial, hj.hash⟩⟩
        simp [hcrl, hm, hn]

/-- **Storing an answer**, which is only done if it would be given again. -/
theorem Coherent.remember (h : Coherent m overtaken) {key : CacheKey} {der : Response} {now : Time}
    (hserial : key.serial = serialHexStr der.serialNumber) (hhash : ocspCacheableHash key.hash)
    (hdefinite : der.status ≠ .unknown) (hm : m.remember key der now = some m') :
    Coherent m' (overtaken.filter fun k => k ≠ key) := by
  obtain ⟨hstatus, rfl⟩ := Responder.remember_eq_some hm
  intro key' entry hentry
  rcases eq_or_ne key' key with rfl | hne
  · obtain rfl : _ = entry := by simpa using hentry
    refine ⟨hserial, by simpa [ocspCacheableHash] using hhash, ?_, fun hg => ?_,
      fun time ht => Or.inl ?_, hdefinite⟩
    · cases hst : der.status with
      | good => exact of_decide_eq_true (decideOCSPStatus_good (hst ▸ hstatus)).1
      | revoked time => exact of_decide_eq_true (decideOCSPStatus_revoked (hst ▸ hstatus)).1
      | unknown => exact absurd hst hdefinite
    · obtain ⟨-, list, hlist, hnot⟩ := decideOCSPStatus_good (hg ▸ hstatus)
      rintro ⟨crl, hcrl, hmem⟩
      obtain rfl : list = crl := Option.some.inj (hlist.symm.trans hcrl)
      exact hnot hmem
    · exact (decideOCSPStatus_revoked (ht ▸ hstatus)).2
  · have hj := h key' entry (by rwa [AList.lookup_insert_ne hne] at hentry)
    exact ⟨hj.serial, hj.hash, hj.known, hj.good,
      fun time ht => (hj.revoked time ht).imp_right fun ho => by simp [ho, hne], hj.definite⟩

/-- **Reconciling the index**: additions need no eviction, since an `unknown` is never cached. -/
theorem Coherent.reconcile (h : Coherent m overtaken) (stored : SerialIndex)
    (readEpoch readRemovalEpoch : ℕ) :
    Coherent (m.reconcile stored readEpoch readRemovalEpoch).1 overtaken := by
  have hadd : ∀ sawRemoval, Coherent (m.addStored stored sawRemoval).1 overtaken := by
    intro sawRemoval
    unfold Responder.addStored
    split
    · exact h
    · exact h.of_le rfl fun key entry hentry =>
        ⟨hentry, Assoc.mem_copyOnto.mpr (Or.inr (h key entry hentry).known)⟩
  have hdrop : ∀ (m : Responder) raced, Coherent m overtaken →
      Coherent (m.dropStrays stored raced).1 overtaken := by
    intro m raced hm
    unfold Responder.dropStrays
    split
    · exact hm
    · exact hm.dropAll _
  exact hdrop _ _ (hadd _)

end Coherent

/-! ### The counters -/

namespace Responder

variable {m : Responder} {stored : SerialIndex} {e r : ℕ}

/-- What the additions leave in the index. -/
theorem lookup_addStored (sawRemoval : Bool) (serial : Text) :
    (m.addStored stored sawRemoval).1.serialIndex.lookup serial =
      if sawRemoval then m.serialIndex.lookup serial
      else (stored.lookup serial).or (m.serialIndex.lookup serial) := by
  unfold addStored
  split
  · rfl
  · exact Assoc.lookup_copyOnto _ _ _

/-- What the removals leave in the index: nothing that the inventory does not hold. -/
theorem lookup_dropStrays (raced : Bool) (serial : Text) :
    (m.dropStrays stored raced).1.serialIndex.lookup serial =
      if raced then m.serialIndex.lookup serial
      else if serial ∈ stored then m.serialIndex.lookup serial else none := by
  unfold dropStrays
  split
  · rfl
  · change ((m.strays stored).foldl dropSerial m).serialIndex.lookup serial = _
    rw [(foldl_dropSerial _ _).2.2.2.1]
    have hmem : serial ∈ m.strays stored ↔ serial ∈ m.serialIndex ∧ serial ∉ stored := by
      simp [strays, AList.mem_keys]
    by_cases hs : serial ∈ stored
    · simp [hmem, hs]
    · by_cases hi : serial ∈ m.serialIndex
      · simp [hmem, hs, hi]
      · simp [hmem, hs, AList.lookup_eq_none.mpr hi]

/-- **What a pass leaves in the index.** -/
theorem lookup_reconcile (serial : Text) :
    (m.reconcile stored e r).1.serialIndex.lookup serial =
      let added :=
        if m.removalEpoch = r then (stored.lookup serial).or (m.serialIndex.lookup serial)
        else m.serialIndex.lookup serial
      if m.epoch = e then if serial ∈ stored then added else none else added := by
  change ((m.addStored stored _).1.dropStrays stored _).1.serialIndex.lookup serial = _
  rw [lookup_dropStrays, lookup_addStored]
  by_cases he : m.epoch = e <;> by_cases hr : m.removalEpoch = r <;> simp [he, hr]

/-- **A pass during which neither counter moved** leaves the index equal to what it read. -/
theorem reconcile_undisturbed (he : m.epoch = e) (hr : m.removalEpoch = r) (serial : Text) :
    (m.reconcile stored e r).1.serialIndex.lookup serial = stored.lookup serial := by
  rw [lookup_reconcile]
  by_cases hs : serial ∈ stored
  · obtain ⟨subject, hsubject⟩ := Option.isSome_iff_exists.mp (AList.lookup_isSome.mpr hs)
    simp [he, hr, hs, hsubject]
  · simp [he, hs, AList.lookup_eq_none.mpr hs]

/-- A pass that saw a removal adds nothing. -/
theorem mem_of_mem_reconcile (hr : m.removalEpoch ≠ r) {serial : Text}
    (h : serial ∈ (m.reconcile stored e r).1.serialIndex) : serial ∈ m.serialIndex := by
  rw [← AList.lookup_isSome, lookup_reconcile] at h
  simp only [hr, if_false] at h
  split at h
  · split at h
    · exact AList.lookup_isSome.mp h
    · cases h
  · exact AList.lookup_isSome.mp h

/-- **A pass removes only what it did not read**, and nothing if it was raced. -/
theorem mem_reconcile {serial : Text} (hs : serial ∈ m.serialIndex)
    (hread : m.epoch = e → serial ∈ stored) : serial ∈ (m.reconcile stored e r).1.serialIndex := by
  rw [← AList.lookup_isSome, lookup_reconcile]
  have hadded : (if m.removalEpoch = r then (stored.lookup serial).or (m.serialIndex.lookup serial)
      else m.serialIndex.lookup serial).isSome := by
    split <;> simp [AList.lookup_isSome, hs]
  by_cases he : m.epoch = e
  · simpa [he, hread he] using hadded
  · simpa [he] using hadded

/-- The counters of a pass only grow. -/
theorem reconcile_epochs : m.epoch ≤ (m.reconcile stored e r).1.epoch ∧
    m.removalEpoch ≤ (m.reconcile stored e r).1.removalEpoch := by
  have hadd : ∀ b, m.epoch ≤ (m.addStored stored b).1.epoch ∧
      (m.addStored stored b).1.removalEpoch = m.removalEpoch := by
    intro b
    unfold addStored
    split
    · exact ⟨le_rfl, rfl⟩
    · refine ⟨?_, rfl⟩
      change m.epoch ≤ if _ then m.epoch + 1 else m.epoch
      split
      · exact Nat.le_succ _
      · exact le_rfl
  have hdrop : ∀ (m : Responder) b, m.epoch ≤ (m.dropStrays stored b).1.epoch ∧
      m.removalEpoch ≤ (m.dropStrays stored b).1.removalEpoch := by
    intro m b
    unfold dropStrays
    split
    · exact ⟨le_rfl, le_rfl⟩
    · obtain ⟨-, hepoch, hremoval, -⟩ := foldl_dropSerial (m.strays stored) m
      change m.epoch ≤ (List.foldl dropSerial m _).epoch ∧
        m.removalEpoch ≤ (List.foldl dropSerial m _).removalEpoch
      omega
  have h₁ := hadd (decide (m.removalEpoch ≠ r))
  have h₂ := hdrop (m.addStored stored (decide (m.removalEpoch ≠ r))).1 (decide (m.epoch ≠ e))
  exact ⟨h₁.1.trans h₂.1, h₁.2.symm.le.trans h₂.2⟩

end Responder

end OpenvoxCa.Ocsp
