import Mathlib.Data.Char
import Mathlib.Data.List.Dedup
import Mathlib.Data.List.Lex
import OpenvoxCa.Ca.Conservation
import OpenvoxCa.Ca.IndexRuns

/-!
# Certificate statuses

The status of a subject is shown in three ways. `handleGetStatus` reads what is stored for one
subject. `handleGetStatuses` lists all subjects, and has two ways of its own: a backend without a
certificate index has every stored certificate read and parsed, and one with an index answers from
the newest row of each subject (`latestPerSubject`), and from the stored certificate only where
there is no row, or one whose fields have never been filled in.

What they answer from, at a moment at which nobody writes, is a `Snapshot`. The three agree
(`Snapshot.Agree`) exactly if every newest row says what the stored certificate says
(`Snapshot.agree_iff`): nothing else tells them apart. Whether it does is a matter of the writes. A
cluster that is at rest after careful steps is in order (`statuses_agree`); a renewal that stops
between its two writes leaves a row of the certificate before, and so does, the other way round, a
store that refuses a managed certificate (`statuses_differ`).
-/

namespace OpenvoxCa.Api.Statuses

open Ca Conc

/-! ### Responses -/

/-- The states of a response. -/
inductive CertState
  | signed | revoked | requested
  deriving DecidableEq, Repr

def CertState.text : CertState → Text
  | .signed => ['s', 'i', 'g', 'n', 'e', 'd']
  | .revoked => ['r', 'e', 'v', 'o', 'k', 'e', 'd']
  | .requested => ['r', 'e', 'q', 'u', 'e', 's', 't', 'e', 'd']

/-- `CertStatusResponse`. Serials and times are rendered when it is encoded. -/
structure CertStatusResponse where
  name : Text
  state : CertState
  fingerprint : Text
  fingerprints : List (Text × Text)
  dnsAltNames : List Text := []
  subjectAltNames : List Text := []
  authorizationExtensions : List (Text × Text) := []
  serialNumber : Option ℤ := none
  notBefore : Option Time := none
  notAfter : Option Time := none
  deriving DecidableEq, Repr

/-- **What is computed from encodings**: the fingerprints, in the case of a response, and
`AuthExtensionMap`. -/
structure Digests where
  /-- The fingerprint of a certificate. -/
  certificate : Certificate → Text
  /-- The fingerprint of what is stored in the place of one and does not parse. -/
  unparsed : CertBlob → Text
  request : RequestBlob → Text
  authExtensionMap : List Extension → List (Text × Text)

def dnsAltNames (names : List Text) : List Text := names.map fun n => ['D', 'N', 'S', ':'] ++ n

def subjectAltNames (ipAddrs dnsNames : List Text) : List Text :=
  (ipAddrs.map fun ip => ['I', 'P', ':'] ++ ip) ++ dnsAltNames dnsNames

/-- The map of fingerprints: there is one, under two names. -/
def fingerprintMap (fp : Text) : List (Text × Text) :=
  [(['S', 'H', 'A', '2', '5', '6'], fp), (['d', 'e', 'f', 'a', 'u', 'l', 't'], fp)]

/-- `fingerprint`, of a stored certificate. -/
def fingerprint (d : Digests) (blob : CertBlob) : Text :=
  match blob.parsed with
  | some cert => d.certificate cert
  | none => d.unparsed blob

def certStatusFromCert (d : Digests) (subject : Text) (certPEM : CertBlob) (state : CertState) :
    CertStatusResponse :=
  let fp := fingerprint d certPEM
  match certPEM.parsed with
  | none =>
    { name := subject, state, fingerprint := fp, fingerprints := fingerprintMap fp }
  | some cert =>
    { name := subject
      state
      fingerprint := fp
      fingerprints := fingerprintMap fp
      dnsAltNames := dnsAltNames cert.sans.dnsNames
      subjectAltNames := subjectAltNames cert.sans.ipAddresses cert.sans.dnsNames
      authorizationExtensions := d.authExtensionMap cert.extensions
      serialNumber := some cert.serialNumber
      notBefore := some cert.notBefore
      notAfter := some cert.notAfter }

/-- `certStatusFromRecord`: nothing where the fields have never been filled in, or do not parse. -/
def certStatusFromRecord (d : Digests) (rec : IndexRow) (state : CertState) :
    Option CertStatusResponse :=
  match rec.projected, setString16 rec.entry.serial, rec.entry.notBefore, rec.entry.notAfter with
  | some cert, some serial, some notBefore, some notAfter =>
    let fp := d.certificate cert
    some
      { name := rec.entry.subject
        state
        fingerprint := fp
        fingerprints := fingerprintMap fp
        dnsAltNames := dnsAltNames cert.sans.dnsNames
        subjectAltNames := subjectAltNames cert.sans.ipAddresses cert.sans.dnsNames
        authorizationExtensions := d.authExtensionMap cert.extensions
        serialNumber := some serial
        notBefore := some notBefore
        notAfter := some notAfter }
  | _, _, _, _ => none

def certStatusFromCSR (d : Digests) (subject : Text) (csrPEM : RequestBlob) : CertStatusResponse :=
  let fp := d.request csrPEM
  match csrPEM.parsed with
  | none =>
    { name := subject, state := .requested, fingerprint := fp, fingerprints := fingerprintMap fp }
  | some csr =>
    { name := subject
      state := .requested
      fingerprint := fp
      fingerprints := fingerprintMap fp
      dnsAltNames := dnsAltNames csr.sans.dnsNames
      subjectAltNames := subjectAltNames csr.sans.ipAddresses csr.sans.dnsNames
      authorizationExtensions := d.authExtensionMap csr.extensions }

/-! ### What the handlers answer from -/

/-- **A snapshot**: the objects of a store with the names that a listing of them gives, in some
order, the rows of the index, and the memory of the replica that answers. -/
structure Snapshot where
  certs : Text → Option CertBlob
  requests : Text → Option RequestBlob
  rows : List IndexRow
  memory : Memory
  listCerts : List Text
  listCSRs : List Text
  nodup_listCerts : listCerts.Nodup
  mem_listCerts : ∀ n, n ∈ listCerts ↔ (certs n).isSome = true
  nodup_listCSRs : listCSRs.Nodup
  mem_listCSRs : ∀ n, n ∈ listCSRs ↔ (requests n).isSome = true

/-- The snapshot is one of the cluster's state, as replica `r` sees it. -/
def Snapshot.Shows (x : Snapshot) (s : IndexState) (r : Replica) : Prop :=
  x.certs = s.store.certs ∧ x.requests = s.store.requests ∧ x.rows = s.rows ∧
    x.memory = s.store.memory r

/-- `normaliseSerial`, of the handlers. -/
def normaliseSerial (serial : Text) : Option Text := (setString16 serial).map serialHexStr

def certSerialIs (cert : Certificate) (serial : Text) : Bool :=
  setString16 serial = some cert.serialNumber

def revokedSerials (m : Memory) : List Text :=
  match m.cachedCRL with
  | none => []
  | some crl => crl.entries.map fun e => serialHexStr e.serialNumber

/-- The state of a certificate with the serial, by the map of revoked ones. -/
def serialState (m : Memory) (serial : Text) : CertState :=
  if serial ∈ revokedSerials m then .revoked else .signed

/-- The state that a row's serial has. -/
def recordState (m : Memory) (serial : Text) : CertState :=
  match normaliseSerial serial with
  | some normalised => serialState m normalised
  | none => .signed

/-- `latestPerSubject`: the newest row of each subject with a stored certificate, in the order of
the subjects. -/
def latestPerSubject (rows : List IndexRow) (stored : Text → Bool) : List IndexRow :=
  (((rows.map fun r => r.entry.subject).dedup.filter stored).mergeSort
    fun a b => decide (a ≤ b)).filterMap (latestRow rows)

variable {s : IndexState}

namespace Snapshot

variable (x : Snapshot) (d : Digests)

def isRevoked (subject : Text) : Bool :=
  match x.certs subject with
  | none => false
  | some blob => revokedIn x.memory blob.parsed

/-- The state that a stored certificate is shown in. -/
def storedState (subject : Text) : CertState := if x.isRevoked subject then .revoked else .signed

def fromStored (subject : Text) : Option CertStatusResponse :=
  (x.certs subject).map fun certPEM => certStatusFromCert d subject certPEM (x.storedState subject)

/-- The status of a subject from a row, and from the stored certificate where the row cannot stand
alone: the state is then that of the certificate, whatever serial the row has. -/
def fromRecord (rec : IndexRow) : Option CertStatusResponse :=
  let state := recordState x.memory rec.entry.serial
  match certStatusFromRecord d rec state with
  | some resp => some resp
  | none =>
    match x.certs rec.entry.subject with
    | none => none
    | some certPEM =>
      match certPEM.parsed with
      | some cert =>
        some (certStatusFromCert d rec.entry.subject certPEM
          (if certSerialIs cert rec.entry.serial then state
           else serialState x.memory (serialHexStr cert.serialNumber)))
      | none => some (certStatusFromCert d rec.entry.subject certPEM state)

/-- The filter lets a state through: the empty one lets every state through. -/
def admits (stateFilter : Text) (state : CertState) : Bool :=
  stateFilter = [] ∨ stateFilter = state.text

/-- The loop over the requests that no certificate has been listed for. -/
def listedCSRs (stateFilter : Text) (seen : List Text) : List CertStatusResponse :=
  if admits stateFilter .requested then
    (x.listCSRs.filter fun n => n ∉ seen).filterMap fun n =>
      (x.requests n).map (certStatusFromCSR d n)
  else []

/-- The rows that the index answers with. -/
def records : List IndexRow := latestPerSubject x.rows fun n => (x.certs n).isSome

/-- **`handleGetStatuses`, from the index.** -/
def indexedStatuses (stateFilter : Text) : List CertStatusResponse :=
  let seen := x.records.map fun rec => rec.entry.subject
  (x.records.filterMap (x.fromRecord d)).filter (fun r => admits stateFilter r.state) ++
    ((x.listCerts.filter fun n => n ∉ seen).filterMap (x.fromStored d)).filter
      (fun r => admits stateFilter r.state) ++
    x.listedCSRs d stateFilter (seen ++ x.listCerts)

/-- **`handleGetStatuses`, by scanning the stored certificates.** -/
def scannedStatuses (stateFilter : Text) : List CertStatusResponse :=
  (x.listCerts.filterMap (x.fromStored d)).filter (fun r => admits stateFilter r.state) ++
    x.listedCSRs d stateFilter x.listCerts

/-- **`handleGetStatus`**: nothing where the answer is an error. -/
def status (subject : Text) : Option CertStatusResponse :=
  if validateSubject subject then
    match x.fromStored d subject with
    | some resp => some resp
    | none => (x.requests subject).map (certStatusFromCSR d subject)
  else none

/-- **The views agree**: under every filter the two listings have the same responses, one for each
subject, and these are the ones that the subjects' own statuses show. -/
structure Agree : Prop where
  listings : ∀ stateFilter,
    (x.indexedStatuses d stateFilter).Perm (x.scannedStatuses d stateFilter)
  once : ∀ stateFilter, ((x.scannedStatuses d stateFilter).map CertStatusResponse.name).Nodup
  single : ∀ stateFilter resp, resp ∈ x.scannedStatuses d stateFilter ↔
    x.status d resp.name = some resp ∧ admits stateFilter resp.state = true

/-! ### When they agree -/

/-- **Every newest row says what the stored certificate says.** -/
def RowsFit : Prop := ∀ n row, x.certs n ≠ none → latestRow x.rows n = some row →
  x.fromRecord d row = x.fromStored d n

/-- What is stored is stored for valid subjects. -/
def Valid : Prop := ∀ n, x.certs n ≠ none ∨ x.requests n ≠ none → validateSubject n = true

variable {x d}

theorem name_certStatusFromCert {subject : Text} {blob : CertBlob} {state : CertState} :
    (certStatusFromCert d subject blob state).name = subject ∧
      (certStatusFromCert d subject blob state).state = state := by
  unfold certStatusFromCert
  cases blob.parsed <;> exact ⟨rfl, rfl⟩

theorem name_certStatusFromCSR {subject : Text} {blob : RequestBlob} :
    (certStatusFromCSR d subject blob).name = subject ∧
      (certStatusFromCSR d subject blob).state = .requested := by
  unfold certStatusFromCSR
  cases blob.parsed <;> exact ⟨rfl, rfl⟩

variable {resp : CertStatusResponse}

theorem name_fromStored {n : Text} (h : x.fromStored d n = some resp) : resp.name = n := by
  obtain ⟨blob, -, rfl⟩ := Option.map_eq_some_iff.mp h
  exact name_certStatusFromCert.1

theorem isSome_fromStored {n : Text} : (x.fromStored d n).isSome = (x.certs n).isSome := by
  simp [fromStored]

/-- A row of a subject with a stored certificate gives a response, and one about the subject. -/
theorem exists_fromRecord {row : IndexRow} (h : x.certs row.entry.subject ≠ none) :
    ∃ resp, x.fromRecord d row = some resp ∧ resp.name = row.entry.subject := by
  obtain ⟨blob, hblob⟩ := Option.ne_none_iff_exists'.mp h
  unfold fromRecord
  simp only
  split
  · next resp hresp =>
    refine ⟨resp, rfl, ?_⟩
    unfold certStatusFromRecord at hresp
    split at hresp
    · obtain rfl := Option.some.inj hresp
      rfl
    · cases hresp
  · rw [hblob]
    simp only
    split
    · exact ⟨_, rfl, name_certStatusFromCert.1⟩
    · exact ⟨_, rfl, name_certStatusFromCert.1⟩

/-! #### The rows of the index -/

/-- The subjects that the index answers for. -/
def indexedSubjects (x : Snapshot) : List Text :=
  ((x.rows.map fun r => r.entry.subject).dedup.filter fun n => (x.certs n).isSome).mergeSort
    fun a b => decide (a ≤ b)

theorem mem_indexedSubjects {n : Text} : n ∈ x.indexedSubjects ↔
    (∃ row, latestRow x.rows n = some row) ∧ n ∈ x.listCerts := by
  have hrow : (∃ r ∈ x.rows, r.entry.subject = n) ↔ ∃ row, latestRow x.rows n = some row := by
    constructor
    · rintro ⟨r, hr, hn⟩
      exact Option.isSome_iff_exists.mp (latestRow_isSome hr hn)
    · rintro ⟨row, hrow⟩
      exact ⟨row, subject_of_latestRow hrow⟩
  simp [indexedSubjects, x.mem_listCerts, ← hrow]

theorem nodup_indexedSubjects : x.indexedSubjects.Nodup := by
  refine (List.mergeSort_perm _ _).nodup_iff.mpr ?_
  exact (List.nodup_dedup _).filter _

/-- One row for each of them. -/
theorem map_subject_records : (x.records.map fun rec => rec.entry.subject) = x.indexedSubjects := by
  have hmap : ∀ l : List Text, (∀ n ∈ l, n ∈ x.indexedSubjects) →
      (l.filterMap (latestRow x.rows)).map (fun rec => rec.entry.subject) = l := by
    intro l hl
    induction l with
    | nil => rfl
    | cons n l ih =>
      obtain ⟨row, hrow⟩ := (mem_indexedSubjects.mp (hl n List.mem_cons_self)).1
      rw [List.filterMap_cons_some hrow, List.map_cons, (subject_of_latestRow hrow).2,
        ih fun m hm => hl m (List.mem_cons_of_mem _ hm)]
  exact hmap _ fun _ hn => hn

theorem mem_records {row : IndexRow} : row ∈ x.records ↔
    latestRow x.rows row.entry.subject = some row ∧ row.entry.subject ∈ x.listCerts := by
  have hmem : row ∈ x.records ↔ ∃ n ∈ x.indexedSubjects, latestRow x.rows n = some row :=
    List.mem_filterMap
  rw [hmem]
  constructor
  · rintro ⟨n, hn, hrow⟩
    obtain rfl := (subject_of_latestRow hrow).2
    exact ⟨hrow, (mem_indexedSubjects.mp hn).2⟩
  · rintro ⟨hrow, hn⟩
    exact ⟨_, mem_indexedSubjects.mpr ⟨⟨row, hrow⟩, hn⟩, hrow⟩

/-! #### The listings -/

theorem mem_listedCSRs {stateFilter : Text} {seen : List Text} :
    resp ∈ x.listedCSRs d stateFilter seen ↔ resp.name ∉ seen ∧
      (x.requests resp.name).map (certStatusFromCSR d resp.name) = some resp ∧
      admits stateFilter resp.state = true := by
  have hresp : ∀ {n}, (x.requests n).map (certStatusFromCSR d n) = some resp →
      resp.name = n ∧ resp.state = .requested := by
    intro n h
    obtain ⟨blob, -, rfl⟩ := Option.map_eq_some_iff.mp h
    exact name_certStatusFromCSR
  unfold listedCSRs
  split
  · next hadmits =>
    rw [List.mem_filterMap]
    constructor
    · rintro ⟨n, hn, h⟩
      obtain ⟨rfl, hstate⟩ := hresp h
      exact ⟨of_decide_eq_true (List.mem_filter.mp hn).2, h, by rw [hstate]; exact hadmits⟩
    · rintro ⟨hseen, h, -⟩
      refine ⟨resp.name, List.mem_filter.mpr ⟨(x.mem_listCSRs _).mpr ?_, decide_eq_true hseen⟩, h⟩
      obtain ⟨blob, hblob, -⟩ := Option.map_eq_some_iff.mp h
      rw [hblob]
      rfl
  · next hadmits =>
    refine iff_of_false List.not_mem_nil ?_
    rintro ⟨-, h, hstate⟩
    rw [(hresp h).2] at hstate
    exact hadmits hstate

theorem mem_scannedStatuses {stateFilter : Text} :
    resp ∈ x.scannedStatuses d stateFilter ↔ admits stateFilter resp.state = true ∧
      (x.fromStored d resp.name = some resp ∨ x.certs resp.name = none ∧
        (x.requests resp.name).map (certStatusFromCSR d resp.name) = some resp) := by
  have hstored : resp ∈ x.listCerts.filterMap (x.fromStored d) ↔
      x.fromStored d resp.name = some resp := by
    rw [List.mem_filterMap]
    constructor
    · rintro ⟨n, -, h⟩
      rw [name_fromStored h]
      exact h
    · intro h
      refine ⟨resp.name, (x.mem_listCerts _).mpr ?_, h⟩
      rw [← isSome_fromStored (d := d), h]
      rfl
  have hseen : resp.name ∉ x.listCerts ↔ x.certs resp.name = none := by
    rw [x.mem_listCerts, Bool.not_eq_true, Option.isSome_eq_false_iff, Option.isNone_iff_eq_none]
  rw [scannedStatuses, List.mem_append, List.mem_filter, hstored, mem_listedCSRs, hseen]
  tauto

/-- The names in a list of responses come from the subjects they are made for. -/
theorem map_name_sublist {f : Text → Option CertStatusResponse}
    (hf : ∀ n resp, f n = some resp → resp.name = n) (l : List Text) :
    ((l.filterMap f).map CertStatusResponse.name).Sublist l := by
  induction l with
  | nil => exact List.Sublist.slnil
  | cons n l ih =>
    cases h : f n with
    | none =>
      rw [List.filterMap_cons_none h]
      exact ih.cons n
    | some resp =>
      rw [List.filterMap_cons_some h, List.map_cons, hf n resp h]
      exact ih.cons_cons n

/-- **A scan lists every subject once.** -/
theorem nodup_scannedStatuses (stateFilter : Text) :
    ((x.scannedStatuses d stateFilter).map CertStatusResponse.name).Nodup := by
  have hcerts : (((x.listCerts.filterMap (x.fromStored d)).filter
      fun r => admits stateFilter r.state).map CertStatusResponse.name).Sublist x.listCerts :=
    (List.filter_sublist.map _).trans (map_name_sublist (fun _ _ => name_fromStored) _)
  have hcsrs : ((x.listedCSRs d stateFilter x.listCerts).map CertStatusResponse.name).Sublist
      (x.listCSRs.filter fun n => n ∉ x.listCerts) := by
    unfold listedCSRs
    split
    · refine map_name_sublist (fun n resp h => ?_) _
      obtain ⟨blob, -, rfl⟩ := Option.map_eq_some_iff.mp h
      exact name_certStatusFromCSR.1
    · exact List.nil_sublist _
  rw [scannedStatuses, List.map_append]
  refine (hcerts.append hcsrs).nodup (List.nodup_append'.mpr
    ⟨x.nodup_listCerts, x.nodup_listCSRs.filter _, fun n hn hcsr => ?_⟩)
  exact of_decide_eq_true (List.mem_filter.mp hcsr).2 hn

/-- **The index lists what a scan lists**, if the rows fit. -/
theorem perm_of_rowsFit (h : x.RowsFit d) (stateFilter : Text) :
    (x.indexedStatuses d stateFilter).Perm (x.scannedStatuses d stateFilter) := by
  have hrecords : x.records.filterMap (x.fromRecord d) =
      x.indexedSubjects.filterMap (x.fromStored d) := by
    rw [← map_subject_records, List.filterMap_map]
    refine List.filterMap_congr fun row hrow => ?_
    obtain ⟨hlatest, hn⟩ := mem_records.mp hrow
    have hstored := (x.mem_listCerts _).mp hn
    exact h _ row (Option.isSome_iff_ne_none.mp hstored) hlatest
  -- the subjects of rows, and the stored ones without a row, are the stored ones
  have hsubjects : (x.indexedSubjects ++ x.listCerts.filter fun n => n ∉ x.indexedSubjects).Perm
      x.listCerts := by
    have hnodup : (x.indexedSubjects ++
        x.listCerts.filter fun n => n ∉ x.indexedSubjects).Nodup :=
      List.nodup_append'.mpr ⟨nodup_indexedSubjects, x.nodup_listCerts.filter _,
        fun n hn hcert => of_decide_eq_true (List.mem_filter.mp hcert).2 hn⟩
    refine (List.perm_ext_iff_of_nodup hnodup x.nodup_listCerts).mpr fun n => ?_
    simp only [List.mem_append, List.mem_filter, decide_eq_true_eq]
    constructor
    · exact fun hn => hn.elim (fun hn => (mem_indexedSubjects.mp hn).2) And.left
    · intro hn
      by_cases hrow : n ∈ x.indexedSubjects
      · exact .inl hrow
      · exact .inr ⟨hn, hrow⟩
  have hcsrs : x.listedCSRs d stateFilter (x.indexedSubjects ++ x.listCerts) =
      x.listedCSRs d stateFilter x.listCerts := by
    unfold listedCSRs
    congr 2
    refine List.filter_congr fun n _ => ?_
    have hsub : n ∈ x.indexedSubjects → n ∈ x.listCerts := fun hn => (mem_indexedSubjects.mp hn).2
    simp only [List.mem_append, not_or]
    by_cases hn : n ∈ x.listCerts <;> simp_all
  unfold indexedStatuses scannedStatuses
  simp only [hrecords, map_subject_records, hcsrs, ← List.filter_append, ← List.filterMap_append]
  exact ((hsubjects.filterMap _).filter _).append_right _

/-- What the status of a valid subject shows: its certificate, or else its request. -/
theorem status_eq_some {n : Text} :
    x.status d n = some resp ↔ validateSubject n = true ∧ (x.fromStored d n = some resp ∨
      x.certs n = none ∧ (x.requests n).map (certStatusFromCSR d n) = some resp) := by
  unfold status
  split
  · next hvalid =>
    cases hcert : x.certs n with
    | none | some => simp [fromStored, hcert, hvalid]
  · next hinvalid => simp [hinvalid]

/-- **When the views agree**: exactly if every newest row says what the stored certificate says, and
what is stored is stored for valid subjects. -/
theorem agree_iff : x.Agree d ↔ x.RowsFit d ∧ x.Valid := by
  constructor
  · intro h
    have hstatus : ∀ {resp}, resp ∈ x.scannedStatuses d [] → x.status d resp.name = some resp :=
      fun hresp => ((h.single [] _).mp hresp).1
    refine ⟨fun n row hcert hrow => ?_, fun n hn => ?_⟩
    · obtain ⟨-, rfl⟩ := subject_of_latestRow hrow
      obtain ⟨resp, hresp, hname⟩ := exists_fromRecord (d := d) hcert
      have hmem : resp ∈ x.indexedStatuses d [] := by
        refine List.mem_append_left _ (List.mem_append_left _ (List.mem_filter.mpr ⟨?_, rfl⟩))
        have hstored := (x.mem_listCerts _).mpr (Option.isSome_iff_ne_none.mpr hcert)
        exact List.mem_filterMap.mpr ⟨row, mem_records.mpr ⟨hrow, hstored⟩, hresp⟩
      have hshown := hstatus ((h.listings []).mem_iff.mp hmem)
      rw [hname] at hshown
      rw [hresp]
      exact ((status_eq_some.mp hshown).2.resolve_right fun hnone => hcert hnone.1).symm
    · -- whatever is stored for a subject is listed, so the subject has a status
      obtain ⟨resp, hname, hresp⟩ : ∃ resp : CertStatusResponse, resp.name = n ∧
          (x.fromStored d n = some resp ∨
            x.certs n = none ∧ (x.requests n).map (certStatusFromCSR d n) = some resp) := by
        cases hcert : x.certs n with
        | some blob =>
          exact ⟨_, name_certStatusFromCert.1, .inl (by rw [fromStored, hcert]; rfl)⟩
        | none =>
          obtain ⟨blob, hblob⟩ := Option.ne_none_iff_exists'.mp (hn.resolve_left (· hcert))
          exact ⟨_, name_certStatusFromCSR.1, .inr ⟨rfl, by rw [hblob]; rfl⟩⟩
      subst hname
      exact (status_eq_some.mp (hstatus (mem_scannedStatuses.mpr ⟨rfl, hresp⟩))).1
  · rintro ⟨hrows, hvalid⟩
    refine ⟨perm_of_rowsFit hrows, nodup_scannedStatuses, fun stateFilter resp => ?_⟩
    rw [mem_scannedStatuses, status_eq_some]
    refine ⟨fun ⟨hadmits, hresp⟩ => ⟨⟨hvalid _ ?_, hresp⟩, hadmits⟩,
      fun ⟨⟨_, hresp⟩, hadmits⟩ => ⟨hadmits, hresp⟩⟩
    rcases hresp with hresp | ⟨-, hresp⟩
    · obtain ⟨blob, hblob, -⟩ := Option.map_eq_some_iff.mp hresp
      exact .inl (by rw [hblob]; exact Option.some_ne_none _)
    · obtain ⟨blob, hblob, -⟩ := Option.map_eq_some_iff.mp hresp
      exact .inr (by rw [hblob]; exact Option.some_ne_none _)

/-! ### An index that is in order -/

theorem serialState_serialHexStr (m : Memory) (cert : Certificate) :
    serialState m (serialHexStr cert.serialNumber) =
      if revokedIn m (some cert) then .revoked else .signed := by
  unfold serialState revokedSerials revokedIn
  cases m.cachedCRL with
  | none => simp
  | some crl =>
    have hmem : serialHexStr cert.serialNumber ∈
        crl.entries.map (fun e => serialHexStr e.serialNumber) ↔
        serialInCRL crl cert.serialNumber = true := by
      simp only [List.mem_map, serialHexStr_inj, serialInCRL, List.any_eq_true, beq_iff_eq]
    exact if_congr hmem rfl rfl

theorem recordState_of_certSerialIs {m : Memory} {cert : Certificate} {serial : Text}
    (h : setString16 serial = some cert.serialNumber) :
    recordState m serial = serialState m (serialHexStr cert.serialNumber) := by
  simp [recordState, normaliseSerial, h]

/-- **A row that describes the stored certificate says what the certificate says.** -/
theorem rowsFit_of_orderly {r : Replica} (hx : x.Shows s r) (hs : s.Orderly) : x.RowsFit d := by
  obtain ⟨hcerts, -, hrows, -⟩ := hx
  intro n row hcert hrow
  obtain ⟨blob, hblob⟩ := Option.ne_none_iff_exists'.mp hcert
  obtain ⟨cert, hparsed, hmatch⟩ := hs.described n blob (by rw [← hcerts]; exact hblob)
  obtain ⟨-, rfl⟩ := subject_of_latestRow hrow
  have hstate : x.storedState row.entry.subject =
      serialState x.memory (serialHexStr cert.serialNumber) := by
    rw [serialState_serialHexStr]
    simp [storedState, isRevoked, hblob, hparsed]
  rw [hrows] at hrow
  rcases hmatch row hrow with hnone | ⟨hprojected, hentry⟩
  · have hrecord : ∀ state, certStatusFromRecord d row state = none := by
      intro state
      simp [certStatusFromRecord, hnone]
    simp only [fromRecord, hrecord, hblob, hparsed, fromStored, Option.map_some, hstate]
    split
    · next hserial => rw [recordState_of_certSerialIs (of_decide_eq_true hserial)]
    · rfl
  · have hserial : row.entry.serial = serialHexStr cert.serialNumber := by rw [hentry]; rfl
    have hread : setString16 row.entry.serial = some cert.serialNumber := by
      rw [hserial, setString16_serialHexStr]
    have hnotBefore : row.entry.notBefore = some cert.notBefore := by rw [hentry]; rfl
    have hnotAfter : row.entry.notAfter = some cert.notAfter := by rw [hentry]; rfl
    simp [fromRecord, certStatusFromRecord, hprojected, hread, hnotBefore, hnotAfter,
      recordState_of_certSerialIs hread, fromStored, hblob, certStatusFromCert, hparsed, hstate,
      fingerprint]

theorem valid_of_orderly {r : Replica} (hx : x.Shows s r) (hs : s.Orderly) : x.Valid := by
  obtain ⟨hcerts, hrequests, -⟩ := hx
  rintro n (hn | hn)
  · exact hs.certs_valid n (by rw [← hcerts]; exact hn)
  · exact hs.requests_valid n (by rw [← hrequests]; exact hn)

end Snapshot

/-- **The status views agree.** In every run of careful steps, whose passes over managed
certificates put no certificate back, from an index in order: whenever the cluster is at rest, the
listing from the index, the listing by a scan and the statuses of single subjects agree, on every
replica and under every filter. -/
theorem statuses_agree {caCert : Certificate} {s : IndexState} {ls : List (IndexEvent caCert)}
    {p : IndexCluster caCert} {x : Snapshot} {r : Replica} (d : Digests) (hs : s.Orderly)
    (hcareful : (Pool.initial s).Throughout CarefulStep ls)
    (hjobs : ∀ t j, .start t j ∈ ls → IndexJob.Keeps caCert j)
    (hrun : (Pool.initial s).run ls = some p) (hrest : AtRest p) (hx : x.Shows p.shared r) :
    x.Agree d := by
  have horderly := orderly_of_run hs hcareful hjobs hrun hrest
  exact Snapshot.agree_iff.mpr
    ⟨Snapshot.rowsFit_of_orderly hx horderly, Snapshot.valid_of_orderly hx horderly⟩

/-! ### Runs -/

/-- **There is a snapshot of every state** with finitely many objects. -/
theorem exists_snapshot (h : s.FinitelyMany) (r : Replica) : ∃ x : Snapshot, x.Shows s r := by
  obtain ⟨certs, hcerts⟩ := h.1.exists_finset
  obtain ⟨requests, hrequests⟩ := h.2.exists_finset
  refine ⟨{ certs := s.store.certs, requests := s.store.requests, rows := s.rows
            memory := s.store.memory r, listCerts := certs.toList, listCSRs := requests.toList
            nodup_listCerts := certs.nodup_toList, nodup_listCSRs := requests.nodup_toList
            mem_listCerts := fun n => ?_, mem_listCSRs := fun n => ?_ }, rfl, rfl, rfl, rfl⟩
  · rw [Finset.mem_toList, hcerts, Option.isSome_iff_ne_none]
    rfl
  · rw [Finset.mem_toList, hrequests, Option.isSome_iff_ne_none]
    rfl

/-- A CA with nothing issued. -/
def freshIndex : IndexState where
  store :=
    { crl := some (encodeCRLChain [sampleCRL])
      memory := fun _ => { cachedCRL := some sampleCRL } }

theorem freshIndex_orderly : freshIndex.Orderly :=
  ⟨fun _ => rfl, fun _ => IndexState.matches_of_absent rfl, fun _ hn => absurd rfl hn,
    fun _ hn => absurd rfl hn⟩

/-- The cluster at the beginning. -/
abbrev freshCluster : IndexCluster sampleCert := Pool.initial freshIndex

theorem freshIndex_finitelyMany : freshIndex.FinitelyMany := by
  refine ⟨?_, ?_⟩ <;> exact Set.finite_empty.subset fun n hn => hn rfl

/-- The thread takes a number of steps at time `50`, where `number` is the next random serial. -/
def statusSteps (number steps : ℕ) : List (IndexEvent sampleCert) :=
  List.replicate steps (.step ⟨0, 0⟩ { time := 50, number })

/-- The certificate that the node `n` is issued. -/
def nodeLeaf (serial : ℕ) : Certificate :=
  { CA.leafTemplate { caCert := sampleCert } { commonName := ['n'] }
      { id := 7 } {} [] [] 0 serial 50
    with signature := serial }

/-- The node is generated a certificate, with the serial `5`. -/
def nodeEnrolled : List (IndexEvent sampleCert) :=
  .start ⟨0, 0⟩ { task := .task (.generate ['n'] {} (some { id := 7 })) } :: statusSteps 5 16 ++
    [.finish ⟨0, 0⟩]

/-- It renews it, under the serial `9`, for a number of steps. -/
def nodeRenews (steps : ℕ) : List (IndexEvent sampleCert) :=
  .start ⟨0, 0⟩ { task := .task (.serve (.autoRenew (some (nodeLeaf 5)))) } :: statusSteps 9 steps

/-- The renewal stops when the certificate is stored and its line is not. -/
def renewalStops : List (IndexEvent sampleCert) :=
  nodeEnrolled ++ nodeRenews 20 ++ [.step ⟨0, 0⟩ { crash := true }]

/-- The renewal comes to its end. -/
def renewalEnds : List (IndexEvent sampleCert) :=
  nodeEnrolled ++ nodeRenews 25 ++ [.finish ⟨0, 0⟩]

/-- A pass finds that a name is missing and issues another certificate, with the serial `9`, which
the store refuses. -/
def storeRefuses : List (IndexEvent sampleCert) :=
  nodeEnrolled ++ .start ⟨0, 0⟩
    { task := .managed
        { spec := { subject := ['n'], sans := { dnsNames := [['m']] }, renewBefore := 10 }
          load := .ok
            { certificate := some { parsed := some (nodeLeaf 5) }, key := .key { id := 7 } }
          save := .error .storage
          generated := some { id := 8 } } } :: statusSteps 9 28 ++ [.finish ⟨0, 0⟩]

/-- What is seen at the end of a run of one thread: the serials of the stored certificate of the
node and of its newest row, and whether the thread is at rest. -/
def nodeSeen (p : IndexCluster sampleCert) : Option ℤ × Option (Option ℤ × InventoryEntry) × Bool :=
  (storedSerial p.shared.store ['n'],
    (latestRow p.shared.rows ['n']).map fun row =>
      (row.projected.map Certificate.serialNumber, row.entry),
    p.shared.crashed ⟨0, 0⟩ || (match p.thread ⟨0, 0⟩ with | .idle => true | _ => false))

variable {ls : List (IndexEvent sampleCert)} {p : IndexCluster sampleCert}

theorem finitelyMany_of_run (hrun : freshCluster.run ls = some p) : p.shared.FinitelyMany :=
  Pool.shared_of_run IndexState.FinitelyMany (fun _ _ _ _ _ _ hex h => h.exec hex) hrun
    freshIndex_finitelyMany

theorem atRest_of_nodeSeen (hrun : freshCluster.run ls = some p) (hls : ∀ l ∈ ls, l.tid = ⟨0, 0⟩)
    (h : (nodeSeen p).2.2 = true) : AtRest p := by
  intro t
  by_cases ht : t = ⟨0, 0⟩
  · subst ht
    rcases Bool.or_eq_true_iff.mp h with h | h
    · exact .inr h
    · refine .inl ?_
      split at h
      · assumption
      · cases h
  · exact .inl (Pool.thread_of_run hrun fun l hl => (hls l hl).trans_ne (Ne.symm ht))

/-- A row of another certificate makes the views differ. -/
theorem not_agree_of_serials {x : Snapshot} {r : Replica} (d : Digests)
    (hx : x.Shows s r) {n : Text} {stored rowSerial : ℤ} {entry : InventoryEntry}
    (hstored : storedSerial s.store n = some stored)
    (hrow : (latestRow s.rows n).map (fun row =>
      (row.projected.map Certificate.serialNumber, row.entry)) = some (some rowSerial, entry))
    (hserial : setString16 entry.serial = some rowSerial) (hdates : entry.notBefore.isSome = true ∧
      entry.notAfter.isSome = true) (hne : rowSerial ≠ stored) : ¬x.Agree d := by
  intro hagree
  obtain ⟨hcerts, -, hrows, -⟩ := hx
  obtain ⟨row, hlatest, hseen⟩ := Option.map_eq_some_iff.mp hrow
  obtain ⟨hprojected, rfl⟩ := Prod.mk.inj hseen
  obtain ⟨cert', hcert', -⟩ := Option.map_eq_some_iff.mp hprojected
  obtain ⟨cert, hcert, rfl⟩ := Option.map_eq_some_iff.mp hstored
  obtain ⟨blob, hblob, hparsed⟩ := Option.bind_eq_some_iff.mp hcert
  obtain ⟨notBefore, hnotBefore⟩ := Option.isSome_iff_exists.mp hdates.1
  obtain ⟨notAfter, hnotAfter⟩ := Option.isSome_iff_exists.mp hdates.2
  rw [← hcerts] at hblob
  rw [← hrows] at hlatest
  have hfit := (Snapshot.agree_iff.mp hagree).1 n row (by rw [hblob]; exact Option.some_ne_none _)
    hlatest
  have hserials := congrArg (Option.map CertStatusResponse.serialNumber) hfit
  simp [Snapshot.fromRecord, certStatusFromRecord, hcert', hserial, hnotBefore, hnotAfter,
    Snapshot.fromStored, hblob, certStatusFromCert, hparsed] at hserials
  exact hne hserials

theorem exists_differing {stored rowSerial : ℤ}
    {entry : InventoryEntry} (hls : ∀ l ∈ ls, l.tid = ⟨0, 0⟩)
    (hseen : (freshCluster.run ls).map nodeSeen =
      some (some stored, some (some rowSerial, entry), true))
    (hserial : setString16 entry.serial = some rowSerial) (hdates : entry.notBefore.isSome = true ∧
      entry.notAfter.isSome = true) (hne : rowSerial ≠ stored) :
    ∃ p : IndexCluster sampleCert, ∃ x : Snapshot, freshCluster.run ls = some p ∧
      AtRest p ∧ x.Shows p.shared 0 ∧ ∀ d, ¬x.Agree d := by
  obtain ⟨p, hrun, hp⟩ := Option.map_eq_some_iff.mp hseen
  obtain ⟨hstored, hp⟩ := Prod.mk.inj hp
  obtain ⟨hrow, hrest⟩ := Prod.mk.inj hp
  obtain ⟨x, hx⟩ := exists_snapshot (finitelyMany_of_run hrun) 0
  exact ⟨p, x, hrun, atRest_of_nodeSeen hrun hls hrest, hx,
    fun d => not_agree_of_serials d hx hstored hrow hserial hdates hne⟩

/-- **The views differ.** A renewal stops between its two writes, and the index goes on to show the
certificate before; and a store refuses a managed certificate, the one before is put back, and the
index goes on to show the refused one. -/
theorem statuses_differ :
    (∃ p : IndexCluster sampleCert, ∃ x : Snapshot, freshCluster.run renewalStops = some p ∧
      AtRest p ∧ x.Shows p.shared 0 ∧ ∀ d, ¬x.Agree d) ∧
    ∃ p : IndexCluster sampleCert, ∃ x : Snapshot, freshCluster.run storeRefuses = some p ∧
      AtRest p ∧ x.Shows p.shared 0 ∧ ∀ d, ¬x.Agree d := by
  have hstopped : (freshCluster.run renewalStops).map nodeSeen =
      some (some 9, some (some 5, inventoryEntryFor ['n'] (nodeLeaf 5)), true) := by decide +kernel
  have hrefused : (freshCluster.run storeRefuses).map nodeSeen =
      some (some 5, some (some 9, inventoryEntryFor ['n'] (nodeLeaf 9)), true) := by decide +kernel
  exact ⟨exists_differing (by decide) hstopped (setString16_serialHexStr 5) ⟨rfl, rfl⟩ (by decide),
    exists_differing (by decide) hrefused (setString16_serialHexStr 9) ⟨rfl, rfl⟩ (by decide)⟩

/-- A check of what is asked of a step. -/
def carefulCheck (p : IndexCluster sampleCert) : IndexEvent sampleCert → Bool
  | .step t ch => !ch.crash && !ch.fails && match p.thread t with
    | .running _ (.call (.pruneInventory _) _) => false
    | _ => true
  | _ => true

theorem carefulStep_of_check {l : IndexEvent sampleCert} (h : carefulCheck p l = true) :
    CarefulStep p l := by
  cases l with
  | step t ch =>
    intro j c k ht
    simp only [carefulCheck, ht, Bool.and_eq_true, Bool.not_eq_true'] at h
    obtain ⟨⟨hcrash, hfails⟩, hprune⟩ := h
    refine ⟨fun _ _ _ _ => ⟨hcrash, fun _ _ => hfails⟩, ?_⟩
    rintro keep rfl
    cases hprune
  | start | finish => trivial

/-- The event starts a pass over a managed certificate. -/
def startsPass : IndexEvent sampleCert → Bool
  | .start _ j => match j.task with
    | .managed _ => true
    | .task _ => false
  | _ => false

/-- The node enrols and renews, and the views agree. -/
theorem statuses_agree_sample : ∃ p : IndexCluster sampleCert, ∃ x : Snapshot,
    freshCluster.run renewalEnds = some p ∧ AtRest p ∧ x.Shows p.shared 0 ∧
    storedSerial p.shared.store ['n'] = some 9 ∧
      ∀ d, x.Agree d := by
  have hseen : (freshCluster.run renewalEnds).map nodeSeen =
      some (some 9, some (some 9, inventoryEntryFor ['n'] (nodeLeaf 9)), true) := by decide +kernel
  have hcareful : freshCluster.Throughout CarefulStep renewalEnds :=
    Pool.throughout_of_check carefulStep_of_check (by decide +kernel)
  obtain ⟨p, hrun, hp⟩ := Option.map_eq_some_iff.mp hseen
  obtain ⟨hstored, hp⟩ := Prod.mk.inj hp
  obtain ⟨-, hrest⟩ := Prod.mk.inj hp
  obtain ⟨x, hx⟩ := exists_snapshot (finitelyMany_of_run hrun) 0
  have hatRest := atRest_of_nodeSeen hrun (by decide) hrest
  have hjobs : ∀ t j, .start t j ∈ renewalEnds → IndexJob.Keeps sampleCert j := by
    intro t j hj m hm
    have hpass : ∀ l ∈ renewalEnds, startsPass l = false := by decide
    have := hpass _ hj
    simp [startsPass, hm] at this
  exact ⟨p, x, hrun, hatRest, hx, hstored, fun d =>
    statuses_agree d freshIndex_orderly hcareful hjobs hrun hatRest hx⟩

end OpenvoxCa.Api.Statuses
