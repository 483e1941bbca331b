import OpenvoxCa.Storage.Record

/-!
# Serials and how they are spelt

A serial is a number, and the inventory holds text. This CA writes a number in one way only,
upper-case and without leading zeros, but it also takes over what others have written: the file of
OpenVox Server, with its `0x0005`, or the blob of an old version, with whatever that was migrated
from. A file is read through `parseBlobInventoryEntry`, which spells every serial the one way, and a
migration of a file into a structured backend rewrites it. The conversion of an old blob does not.

Of the lookups, `SubjectForSerial` compares numbers. The check for duplicates, `SerialExists` and
the writes to the certificate index compare texts, in the rows as they are stored. So they are right
where every stored serial, and the one they are asked for, is spelt the one way (`serial_identity`):
that is so of everything issued, imported or migrated, and it is an assumption about blobs that are
converted.

Inventories are modelled by what their lines parse to; a line that is no entry is `none`.
-/

namespace OpenvoxCa.Storage.Spelling

/-! ### Reading and writing lines -/

/-- `inventorySerial`: the one spelling, if it is a number. -/
def inventorySerial (raw : Text) : Text := (normaliseSerial raw).getD raw

/-- `inventorySubject`: a name that is nothing but one common name. -/
def inventorySubject (subject : Text) : Text :=
  match subject with
  | 'C' :: 'N' :: '=' :: cn =>
    if cn ≠ [] ∧ cn.all (fun c => c ∉ [',', '+', '=', '/', '\\', ' ']) then cn else subject
  | _ => subject

/-- What `NormaliseSerial` returns is its own normal form, and not empty. -/
theorem normaliseSerial_idem {s c : Text} (h : normaliseSerial s = some c) :
    normaliseSerial c = some c ∧ c ≠ [] := by
  obtain ⟨n, hn, rfl⟩ := exists_of_normaliseSerial h
  refine ⟨normaliseSerial_serialHexStr hn, fun hnil => ?_⟩
  have := setString16_serialHexStr n
  rw [hnil] at this
  simp [setString16, scanDigits] at this

theorem inventorySerial_ne {raw : Text} (h : raw ≠ []) : inventorySerial raw ≠ [] := by
  unfold inventorySerial
  cases hn : normaliseSerial raw with
  | none => exact h
  | some c => exact (normaliseSerial_idem hn).2

/-- `parseBlobInventoryEntry`, of what `parseInventoryEntry` has made of the line. -/
def readEntry (e : InventoryEntry) : InventoryEntry :=
  { e with
    serial := inventorySerial e.serial
    subject := inventorySubject e.subject
    serial_ne := inventorySerial_ne e.serial_ne }

/-- `%04X`. -/
def hex4 : ℤ → Text
  | .ofNat n => List.replicate (4 - (natHex n).length) '0' ++ natHex n
  | .negSucc n => '-' :: (List.replicate (3 - (natHex (n + 1)).length) '0' ++ natHex (n + 1))

/-- `openVoxInventoryLine`: the line OpenVox Server would write, or the line as it was. -/
def openVoxEntry (e : InventoryEntry) : InventoryEntry :=
  match setString16 (inventorySerial e.serial) with
  | some n =>
    { e with
      serial := '0' :: 'x' :: hex4 n
      subject := if '=' ∈ e.subject then e.subject else 'C' :: 'N' :: '=' :: e.subject
      serial_ne := nofun }
  | none => e

/-! ### Inventories -/

/-- Rows with numbers, and an index by serial. -/
structure Keyed where
  rows : List Row := []
  /-- The last number given. -/
  last : ℕ := 0
  bySerial : Text → Option SerialValue := fun _ => none

/-- **An inventory**, as each backend keeps it. -/
inductive Inventory
  /-- The file: what each line parses to. -/
  | file (lines : List (Option InventoryEntry))
  /-- The table of an SQL database, with a unique index on the serial. -/
  | sql (rows : List CertRecord)
  /-- etcd and Redis. -/
  | keyed (k : Keyed)

/-- The kinds of backend. -/
inductive Layout
  | file | sql | keyed
  deriving DecidableEq

/-- A record without a projection. -/
def recordOf (e : InventoryEntry) : CertRecord := { e with }

/-- Records under numbers, with the index that an import writes: a serial borne twice is marked. -/
def importRecords (es : List InventoryEntry) : Keyed :=
  let rows := es.mapIdx fun i e => (i + 1, recordOf e)
  { rows
    last := es.length
    bySerial := fun x => match rows.filter fun r => r.2.serial = x with
      | [] => none
      | [r] => some (.number r.1)
      | _ => some .ambiguous }

namespace Keyed

/-- The row of an append, under the next number, and its index key. -/
def append (k : Keyed) (rec : CertRecord) : Keyed where
  rows := k.rows ++ [(k.last + 1, rec)]
  last := k.last + 1
  bySerial := Function.update k.bySerial rec.serial (some (.number (k.last + 1)))

/-- `mutateRecordBySerial`: a serial that is borne twice is refused. -/
def mutate (k : Keyed) (serial : Text) (f : CertRecord → CertRecord) : Keyed :=
  match k.bySerial serial with
  | some (.number n) =>
    { k with rows := k.rows.map fun r => if r.1 = n then (r.1, f r.2) else r }
  | _ => k

/-- The rows that are kept. The key of a serial goes with its last bearer. -/
def prune (k : Keyed) (keep : Row → Bool) : Keyed :=
  let kept := k.rows.filter keep
  { k with
    rows := kept
    bySerial := fun x =>
      if (k.rows.any fun r => r.2.serial = x) && !(kept.any fun r => r.2.serial = x) then none
      else k.bySerial x }

end Keyed

namespace Inventory

/-- The lines of the inventory, as `Get` renders them. -/
def lines : Inventory → List (Option InventoryEntry)
  | file ls => ls
  | sql rows => rows.map fun r => some r.toInventoryEntry
  | keyed k => k.rows.map fun r => some (entryOf r)

/-- The records of the certificate index. A file has none. -/
def records : Inventory → List CertRecord
  | file _ => []
  | sql rows => rows
  | keyed k => k.rows.map Prod.snd

/-- `inventoryEntriesLocked`. -/
def entries : Inventory → List InventoryEntry
  | file ls => (ls.filterMap id).map readEntry
  | sql rows => rows.map CertRecord.toInventoryEntry
  | keyed k => entriesOf k.rows

/-- Whether an append refuses the serial as a duplicate. -/
def duplicate (inv : Inventory) (serial : Text) : Bool :=
  match inv with
  | file _ => inv.entries.any fun e => e.serial = inventorySerial serial
  | sql rows => rows.any fun r => r.serial = serial
  | keyed k => (k.bySerial serial).isSome

/-- **`AppendInventoryRecord`**: nothing, where it returns `ErrDuplicateSerial`. -/
def appendRecord (inv : Inventory) (rec : CertRecord) : Option Inventory :=
  if inv.duplicate rec.serial then none
  else some (match inv with
    | file ls => file (ls ++ [some (openVoxEntry rec.toInventoryEntry)])
    | sql rows => sql (rows ++ [rec])
    | keyed k => keyed (k.append rec))

def serialExists (inv : Inventory) (serial : Text) : Bool :=
  inv.entries.any fun e => e.serial = serial

def subjectForSerial (inv : Inventory) (serial : Text) : Option Text :=
  (normaliseSerial serial).bind fun want =>
    (inv.entries.find? fun e => normaliseSerial e.serial = some want).map InventoryEntry.subject

def latestSerialForSubject (inv : Inventory) (subject : Text) : Option Text :=
  ((inv.entries.filter fun e => e.subject = subject).getLast?).map InventoryEntry.serial

end Inventory

/-- A record is marked as revoked, unless it is. -/
def mark (at' : ℤ) (rec : CertRecord) : CertRecord :=
  if rec.state = .revoked then rec else { rec with state := .revoked, revokedAt := some at' }

/-- A record is no longer marked. -/
def unmark (rec : CertRecord) : CertRecord := { rec with state := .signed, revokedAt := none }

namespace Inventory

/-- A change of the index record of a serial. -/
def mutate (inv : Inventory) (serial : Text) (f : CertRecord → CertRecord) : Inventory :=
  match inv with
  | file ls => file ls
  | sql rows => sql (rows.map fun r => if r.serial = serial then f r else r)
  | keyed k => keyed (k.mutate serial f)

def markCertRevoked (inv : Inventory) (serial : Text) (at' : ℤ) : Inventory :=
  inv.mutate serial (mark at')

/-- What `RevokeSerial` does to the index. -/
def revokeSerial (inv : Inventory) (serial : Text) (at' : ℤ) : Inventory :=
  match normaliseSerial serial with
  | some c => inv.markCertRevoked c at'
  | none => inv

/-- What `Revoke` does to the index. -/
def revokeSubject (inv : Inventory) (subject : Text) (at' : ℤ) : Inventory :=
  match inv.latestSerialForSubject subject with
  | some serial => inv.markCertRevoked serial at'
  | none => inv

/-- `PruneInventory`; etcd and Redis may put off some of the removals. -/
def prune (inv : Inventory) (keep : InventoryEntry → Bool) (deferred : ℕ → Bool) : Inventory :=
  match inv with
  | file ls => file (ls.filter fun line => match line with
      | some e => keep (readEntry e)
      | none => true)
  | sql rows => sql (rows.filter fun r => keep r.toInventoryEntry)
  | keyed k => keyed (k.prune fun r => keep (entryOf r) || deferred r.1)

/-- `Put` of the inventory: a structured backend refuses lines that are no entries, and serials
that are borne twice. -/
def put (lines : List (Option InventoryEntry)) : Layout → Option Inventory
  | .file => some (file lines)
  | .sql => (lines.mapM id).bind fun es =>
      if (es.map InventoryEntry.serial).Nodup then some (sql (es.map recordOf)) else none
  | .keyed => (lines.mapM id).bind fun es =>
      if (es.map InventoryEntry.serial).Nodup then some (keyed (importRecords es)) else none

/-- Whether the backend keeps the inventory as rows. -/
def structured : Inventory → Bool
  | file _ => false
  | _ => true

/-- The inventory as it is read for a migration: rewritten by `canonicaliseBlobInventory` where it
goes from a file to rows, and by `openVoxBlobInventory` where it goes the other way. -/
def exported (inv : Inventory) (dst : Layout) : List (Option InventoryEntry) :=
  match inv.structured, dst with
  | false, .file => inv.lines
  | true, .file => inv.lines.map (Option.map openVoxEntry)
  | false, _ => inv.lines.map (Option.map readEntry)
  | true, _ => inv.lines

def migrate (inv : Inventory) (dst : Layout) : Option Inventory := put (inv.exported dst) dst

end Inventory

/-! ### Runs -/

/-- Where an inventory begins. -/
inductive Origin
  | empty (layout : Layout)
  /-- A file that is there already. -/
  | file (lines : List (Option InventoryEntry))
  /-- `decomposeLegacyInventory`: the blob of an old version on etcd or Redis, all of whose lines
  are entries. -/
  | legacy (es : List InventoryEntry)

/-- The inventory it begins with. -/
def Origin.inventory : Origin → Inventory
  | empty .file => .file []
  | empty .sql => .sql []
  | empty .keyed => .keyed {}
  | file ls => .file ls
  | legacy es => .keyed (importRecords es)

/-- What happens to an inventory. -/
inductive Op
  /-- A certificate is issued or imported; `serialHexStr` writes its serial. -/
  | append (serial : ℕ) (notBefore notAfter subject : Text) (projection : CertProjection)
  | prune (keep : InventoryEntry → Bool) (deferred : ℕ → Bool)
  | revokeSerial (serial : Text) (at' : ℤ)
  | revokeSubject (subject : Text) (at' : ℤ)
  /-- The index is repaired, under the serial of a record. -/
  | markCertRevoked (serial : Text) (at' : ℤ)
  | clearCertRevoked (serial : Text)
  | migrate (dst : Layout)

/-- The record of an issuance. -/
def issued (serial : ℕ) (notBefore notAfter subject : Text) (projection : CertProjection) :
    CertRecord where
  serial := serialHexStr serial
  notBefore := notBefore
  notAfter := notAfter
  subject := subject
  serial_ne := natHex_ne_nil serial
  projection := projection

/-- One operation; what is refused changes nothing. -/
def Op.apply (inv : Inventory) : Op → Inventory
  | append serial notBefore notAfter subject projection =>
      (inv.appendRecord (issued serial notBefore notAfter subject projection)).getD inv
  | prune keep deferred => inv.prune keep deferred
  | revokeSerial serial at' => inv.revokeSerial serial at'
  | revokeSubject subject at' => inv.revokeSubject subject at'
  | markCertRevoked serial at' => inv.markCertRevoked serial at'
  | clearCertRevoked serial => inv.mutate serial unmark
  | migrate dst => (inv.migrate dst).getD inv

/-- **The inventory after a run.** -/
def reached (origin : Origin) (ops : List Op) : Inventory := ops.foldl Op.apply origin.inventory

/-! ### One spelling -/

/-- The text is the one spelling of a number, or no number at all. -/
def Canonical (x : Text) : Prop := normaliseSerial x = none ∨ normaliseSerial x = some x

instance : DecidablePred Canonical :=
  fun x => inferInstanceAs (Decidable (normaliseSerial x = none ∨ normaliseSerial x = some x))

theorem canonical_inventorySerial (raw : Text) : Canonical (inventorySerial raw) := by
  unfold inventorySerial
  cases h : normaliseSerial raw with
  | none => exact Or.inl h
  | some c => exact Or.inr (normaliseSerial_idem h).1

theorem canonical_serialHexStr (n : ℕ) : Canonical (serialHexStr n) :=
  Or.inr (normaliseSerial_serialHexStr (Int.natCast_nonneg n))

theorem Canonical.eq {x c : Text} (h : Canonical x) (hc : normaliseSerial x = some c) : x = c := by
  rcases h with h | h
  · cases h.symm.trans hc
  · exact Option.some.inj (h.symm.trans hc)

/-- The serials are spelt the one way, each once. -/
structure Spelt (xs : List Text) : Prop where
  canonical : ∀ x ∈ xs, Canonical x
  distinct : xs.Nodup

theorem Spelt.sublist {xs ys : List Text} (h : Spelt ys) (hs : xs.Sublist ys) : Spelt xs :=
  ⟨fun x hx => h.canonical x (hs.subset hx), h.distinct.sublist hs⟩

theorem Spelt.append {xs : List Text} {x : Text} (h : Spelt xs) (hx : Canonical x)
    (hnew : x ∉ xs) : Spelt (xs ++ [x]) := by
  refine ⟨fun y hy => ?_, ?_⟩
  · rcases List.mem_append.1 hy with hy | hy
    · exact h.canonical y hy
    · rw [List.mem_singleton.1 hy]
      exact hx
  · rw [List.nodup_append]
    refine ⟨h.distinct, List.nodup_singleton x, fun y hy z hz hyz => ?_⟩
    rw [List.mem_singleton.1 hz] at hyz
    exact hnew (hyz ▸ hy)

/-- The index points at the rows. -/
structure Pointed (k : Keyed) : Prop where
  le_last : ∀ r ∈ k.rows, r.1 ≤ k.last
  number : ∀ {x n}, k.bySerial x = some (.number n) ↔ ∃ rec, (n, rec) ∈ k.rows ∧ rec.serial = x
  unambiguous : ∀ x, k.bySerial x ≠ some .ambiguous

/-- **What holds in every run**: of a file, nothing need. -/
def Tidy : Inventory → Prop
  | .file _ => True
  | .sql rows => Spelt (rows.map fun r => r.serial)
  | .keyed k => Spelt (k.rows.map fun r => r.2.serial) ∧ Pointed k

variable {inv : Inventory}

/-- Every serial that is read is spelt the one way. -/
theorem Tidy.canonical (h : Tidy inv) : ∀ e ∈ inv.entries, Canonical e.serial := by
  cases inv with
  | file ls =>
    intro e he
    obtain ⟨raw, -, rfl⟩ := List.mem_map.1 he
    exact canonical_inventorySerial raw.serial
  | sql rows =>
    intro e he
    obtain ⟨r, hr, rfl⟩ := List.mem_map.1 he
    exact Spelt.canonical h _ (List.mem_map_of_mem hr)
  | keyed k =>
    intro e he
    obtain ⟨r, hr, rfl⟩ := List.mem_map.1 he
    exact h.1.canonical _ (List.mem_map_of_mem hr)

/-- A serial has an index key exactly if a row bears it. -/
theorem Pointed.isSome_iff {k : Keyed} (h : Pointed k) (x : Text) :
    (k.bySerial x).isSome ↔ x ∈ k.rows.map fun r => r.2.serial := by
  constructor
  · intro hx
    obtain ⟨v, hv⟩ := Option.isSome_iff_exists.1 hx
    cases v with
    | number n =>
      obtain ⟨rec, hrec, rfl⟩ := h.number.1 hv
      exact List.mem_map_of_mem hrec
    | ambiguous => exact absurd hv (h.unambiguous x)
  · intro hx
    obtain ⟨⟨n, rec⟩, hr, rfl⟩ := List.mem_map.1 hx
    rw [h.number.2 ⟨rec, hr, rfl⟩]
    rfl

/-! ### Every operation keeps to the one spelling -/

theorem Pointed.append {k : Keyed} (h : Pointed k) {rec : CertRecord}
    (hnew : rec.serial ∉ k.rows.map fun r => r.2.serial) : Pointed (k.append rec) := by
  refine ⟨fun r hr => ?_, fun {x n} => ?_, fun x => ?_⟩
  · rcases List.mem_append.1 hr with hr | hr
    · exact Nat.le_succ_of_le (h.le_last r hr)
    · rw [List.mem_singleton.1 hr]
      exact le_rfl
  · simp only [Keyed.append, List.mem_append, List.mem_singleton, Prod.mk.injEq]
    by_cases hx : x = rec.serial
    · subst hx
      rw [Function.update_self]
      constructor
      · intro hn
        cases hn
        exact ⟨rec, Or.inr ⟨rfl, rfl⟩, rfl⟩
      · rintro ⟨rec', hrec' | hrec', hser⟩
        · exact absurd (List.mem_map.2 ⟨_, hrec', hser⟩) hnew
        · rw [hrec'.1]
    · rw [Function.update_of_ne hx, h.number]
      constructor
      · rintro ⟨rec', hrec', hser⟩
        exact ⟨rec', Or.inl hrec', hser⟩
      · rintro ⟨rec', hrec' | ⟨-, rfl⟩, hser⟩
        · exact ⟨rec', hrec', hser⟩
        · exact absurd hser.symm hx
  · simp only [Keyed.append]
    by_cases hx : x = rec.serial
    · rw [hx, Function.update_self]
      exact nofun
    · rw [Function.update_of_ne hx]
      exact h.unambiguous x

theorem tidy_appendRecord {inv' : Inventory} {rec : CertRecord} (h : Tidy inv)
    (hrec : Canonical rec.serial) (ha : inv.appendRecord rec = some inv') : Tidy inv' := by
  unfold Inventory.appendRecord at ha
  split at ha
  · cases ha
  · next hdup =>
    cases inv with
    | file ls =>
      cases ha
      trivial
    | sql rows =>
      cases ha
      show Spelt _
      rw [List.map_append]
      refine Spelt.append h hrec fun hmem => hdup ?_
      obtain ⟨r, hr, hser⟩ := List.mem_map.1 hmem
      exact List.any_eq_true.2 ⟨r, hr, decide_eq_true hser⟩
    | keyed k =>
      cases ha
      have hnew : rec.serial ∉ k.rows.map fun r => r.2.serial :=
        fun hmem => hdup ((h.2.isSome_iff _).2 hmem)
      refine ⟨?_, h.2.append hnew⟩
      show Spelt ((k.rows ++ [(k.last + 1, rec)]).map fun r => r.2.serial)
      rw [List.map_append]
      exact h.1.append hrec hnew

/-- A change of records that leaves their serials alone. -/
theorem map_serials {α : Type} {xs : List α} {g : α → α} {serial : α → Text}
    (hg : ∀ x, serial (g x) = serial x) : (xs.map g).map serial = xs.map serial := by
  rw [List.map_map]
  exact List.map_congr_left fun x _ => hg x

theorem Pointed.map {k : Keyed} (h : Pointed k) {g : Row → Row} (hg : ∀ r, (g r).1 = r.1)
    (hser : ∀ r, (g r).2.serial = r.2.serial) : Pointed { k with rows := k.rows.map g } := by
  refine ⟨fun r hr => ?_, fun {x n} => ?_, h.unambiguous⟩
  · obtain ⟨r', hr', rfl⟩ := List.mem_map.1 hr
    rw [hg]
    exact h.le_last r' hr'
  · refine h.number.trans ⟨?_, ?_⟩
    · rintro ⟨rec, hrec, rfl⟩
      have heq : g (n, rec) = (n, (g (n, rec)).2) := Prod.ext (hg _) rfl
      exact ⟨(g (n, rec)).2, List.mem_map.2 ⟨_, hrec, heq⟩, hser _⟩
    · rintro ⟨rec, hrec, rfl⟩
      obtain ⟨r, hr, heq⟩ := List.mem_map.1 hrec
      have hn : r.1 = n := by rw [← hg r, heq]
      have hs : r.2.serial = rec.serial := by rw [← hser r, heq]
      exact ⟨r.2, hn ▸ hr, hs⟩

theorem tidy_mutate (h : Tidy inv) (serial : Text) {f : CertRecord → CertRecord}
    (hf : ∀ rec, (f rec).serial = rec.serial) : Tidy (inv.mutate serial f) := by
  cases inv with
  | file ls => trivial
  | sql rows =>
    show Spelt _
    rw [map_serials fun r => by split <;> simp only [hf]]
    exact h
  | keyed k =>
    show Tidy (.keyed (k.mutate serial f))
    unfold Keyed.mutate
    split
    · refine ⟨?_, h.2.map (fun r => by split <;> rfl) (fun r => by split <;> simp only [hf])⟩
      show Spelt _
      rw [map_serials fun r => by split <;> simp only [hf]]
      exact h.1
    · exact h

@[simp]
theorem mark_serial (at' : ℤ) (rec : CertRecord) : (mark at' rec).serial = rec.serial := by
  unfold mark
  split <;> rfl

@[simp]
theorem mark_state (at' : ℤ) (rec : CertRecord) : (mark at' rec).state = .revoked := by
  unfold mark
  split
  · assumption
  · rfl

/-- The key of a serial is there after a prune if a row still bears it. -/
theorem Pointed.prune {k : Keyed} (h : Pointed k) (hk : (k.rows.map fun r => r.2.serial).Nodup)
    (keep : Row → Bool) : Pointed (k.prune keep) := by
  refine ⟨fun r hr => h.le_last r (List.mem_of_mem_filter hr), fun {x n} => ?_, fun x => ?_⟩
  · simp only [Keyed.prune, List.mem_filter]
    constructor
    · intro hx
      split at hx
      · cases hx
      · next hgone =>
        obtain ⟨rec, hrec, rfl⟩ := h.number.1 hx
        refine ⟨rec, ⟨hrec, ?_⟩, rfl⟩
        -- some kept row bears the serial, and there is only one that does
        have hkept : ((k.rows.filter keep).any fun r => r.2.serial = rec.serial) = true := by
          by_contra hnot
          refine hgone (Bool.and_eq_true_iff.2 ⟨?_, by simpa using hnot⟩)
          exact List.any_eq_true.2 ⟨_, hrec, decide_eq_true rfl⟩
        obtain ⟨r, hr, hser⟩ := List.any_eq_true.1 hkept
        obtain ⟨hmem, hkeep⟩ := List.mem_filter.1 hr
        rw [← List.inj_on_of_nodup_map hk hmem hrec (of_decide_eq_true hser)]
        exact hkeep
    · rintro ⟨rec, ⟨hrec, hkeep⟩, rfl⟩
      have hkept : ((k.rows.filter keep).any fun r => r.2.serial = rec.serial) = true :=
        List.any_eq_true.2 ⟨_, List.mem_filter.2 ⟨hrec, hkeep⟩, decide_eq_true rfl⟩
      rw [hkept, Bool.not_true, Bool.and_false, if_neg Bool.false_ne_true]
      exact h.number.2 ⟨rec, hrec, rfl⟩
  · simp only [Keyed.prune]
    split
    · exact nofun
    · exact h.unambiguous x

theorem tidy_prune (h : Tidy inv) (keep : InventoryEntry → Bool) (deferred : ℕ → Bool) :
    Tidy (inv.prune keep deferred) := by
  cases inv with
  | file ls => trivial
  | sql rows => exact Spelt.sublist h ((List.filter_sublist).map _)
  | keyed k => exact ⟨h.1.sublist ((List.filter_sublist).map _), h.2.prune h.1.distinct _⟩

theorem serials_importRecords (es : List InventoryEntry) :
    ((importRecords es).rows.map fun r => r.2.serial) = es.map InventoryEntry.serial := by
  refine List.ext_getElem (by simp [importRecords]) fun i _ _ => ?_
  simp [importRecords, recordOf]

/-- Where no serial is borne twice, a bearer is the only one. -/
theorem filter_bearer {rows : List Row} (h : (rows.map fun r => r.2.serial).Nodup) {r : Row}
    (hr : r ∈ rows) : (rows.filter fun r' => r'.2.serial = r.2.serial) = [r] := by
  induction rows with
  | nil => cases hr
  | cons r₀ rows ih =>
    obtain ⟨hhead, htail⟩ := List.nodup_cons.1 h
    rcases List.mem_cons.1 hr with rfl | hr
    · have hnone : (rows.filter fun r' => r'.2.serial = r.2.serial) = [] := by
        refine List.filter_eq_nil_iff.2 fun r' hr' hser => hhead ?_
        exact List.mem_map.2 ⟨r', hr', of_decide_eq_true hser⟩
      simp [hnone]
    · have hne : r₀.2.serial ≠ r.2.serial := fun hser =>
        hhead (List.mem_map.2 ⟨r, hr, hser.symm⟩)
      rw [List.filter_cons, if_neg (by simpa using hne)]
      exact ih htail hr

variable {es : List InventoryEntry}

/-- An import points at every row, if no serial is borne twice. -/
theorem pointed_importRecords (hes : (es.map InventoryEntry.serial).Nodup) :
    Pointed (importRecords es) := by
  have hrows : ((importRecords es).rows.map fun r => r.2.serial).Nodup := by
    rw [serials_importRecords]
    exact hes
  have hfound : ∀ r ∈ (importRecords es).rows,
      (importRecords es).bySerial r.2.serial = some (.number r.1) := by
    intro r hr
    have h := filter_bearer hrows hr
    simp only [importRecords] at h ⊢
    rw [h]
  -- a key that is there belongs to a row
  have hrow : ∀ {x v}, (importRecords es).bySerial x = some v →
      ∃ r ∈ (importRecords es).rows, r.2.serial = x := by
    intro x v hv
    simp only [importRecords] at hv ⊢
    split at hv
    · cases hv
    · next r h =>
      have hr : r ∈ [r] := List.mem_singleton_self r
      rw [← h, List.mem_filter] at hr
      exact ⟨r, hr.1, of_decide_eq_true hr.2⟩
    · next hne _ =>
      obtain ⟨r, hr⟩ := List.exists_mem_of_ne_nil _ hne
      rw [List.mem_filter] at hr
      exact ⟨r, hr.1, of_decide_eq_true hr.2⟩
  refine ⟨fun r hr => ?_, fun {x n} => ⟨fun hx => ?_, ?_⟩, fun x hx => ?_⟩
  · obtain ⟨i, hi, rfl⟩ := List.mem_mapIdx.1 hr
    exact hi
  · obtain ⟨r, hr, rfl⟩ := hrow hx
    rw [hfound r hr] at hx
    cases hx
    exact ⟨r.2, hr, rfl⟩
  · rintro ⟨rec, hrec, rfl⟩
    exact hfound _ hrec
  · obtain ⟨r, hr, rfl⟩ := hrow hx
    rw [hfound r hr] at hx
    cases hx

/-- An import of entries that are spelt the one way. -/
theorem tidy_importRecords (hes : Spelt (es.map InventoryEntry.serial)) :
    Tidy (.keyed (importRecords es)) := by
  refine ⟨?_, pointed_importRecords hes.distinct⟩
  rw [serials_importRecords]
  exact hes

/-- Lines that are all entries. -/
theorem eq_map_some_of_mapM {ls : List (Option InventoryEntry)} (h : ls.mapM id = some es) :
    ls = es.map some := by
  induction ls generalizing es with
  | nil =>
    cases h
    rfl
  | cons l ls ih =>
    rw [List.mapM_cons] at h
    cases l with
    | none => cases h
    | some e =>
      cases hls : ls.mapM id with
      | none => simp [hls] at h
      | some es' =>
        simp only [id_eq, hls, Option.pure_def, Option.bind_eq_bind, Option.bind_some,
          Option.some.injEq] at h
        rw [← h, List.map_cons, ih hls]

theorem tidy_put {ls : List (Option InventoryEntry)} {dst : Layout}
    (hls : dst ≠ .file → ∀ e, some e ∈ ls → Canonical e.serial)
    (h : Inventory.put ls dst = some inv) : Tidy inv := by
  have hspelt : dst ≠ .file → ∀ {es : List InventoryEntry}, ls.mapM id = some es →
      (es.map InventoryEntry.serial).Nodup → Spelt (es.map InventoryEntry.serial) := by
    intro hdst es hes hnodup
    refine ⟨fun x hx => ?_, hnodup⟩
    obtain ⟨e, he, rfl⟩ := List.mem_map.1 hx
    refine hls hdst e ?_
    rw [eq_map_some_of_mapM hes]
    exact List.mem_map_of_mem he
  cases dst with
  | file =>
    cases h
    trivial
  | sql =>
    obtain ⟨es, hes, h⟩ := Option.bind_eq_some_iff.1 h
    split at h
    · next hnodup =>
      cases h
      show Spelt ((es.map recordOf).map fun r => r.serial)
      rw [List.map_map]
      exact hspelt nofun hes hnodup
    · cases h
  | keyed =>
    obtain ⟨es, hes, h⟩ := Option.bind_eq_some_iff.1 h
    split at h
    · next hnodup =>
      cases h
      exact tidy_importRecords (hspelt nofun hes hnodup)
    · cases h

/-- What goes to a backend with rows is spelt the one way. -/
theorem canonical_exported (h : Tidy inv) {dst : Layout} (hdst : dst ≠ .file) :
    ∀ e, some e ∈ inv.exported dst → Canonical e.serial := by
  intro e he
  cases inv with
  | file ls =>
    have he : some e ∈ ls.map (Option.map readEntry) := by
      cases dst with
      | file => exact absurd rfl hdst
      | sql | keyed => exact he
    obtain ⟨l, -, hl⟩ := List.mem_map.1 he
    obtain ⟨raw, -, rfl⟩ := Option.map_eq_some_iff.1 hl
    exact canonical_inventorySerial raw.serial
  | sql rows =>
    have he : some e ∈ rows.map fun r => some r.toInventoryEntry := by
      cases dst with
      | file => exact absurd rfl hdst
      | sql | keyed => exact he
    obtain ⟨r, hr, hre⟩ := List.mem_map.1 he
    cases hre
    exact h.canonical _ (List.mem_map_of_mem hr)
  | keyed k =>
    have he : some e ∈ k.rows.map fun r => some (entryOf r) := by
      cases dst with
      | file => exact absurd rfl hdst
      | sql | keyed => exact he
    obtain ⟨r, hr, hre⟩ := List.mem_map.1 he
    cases hre
    exact h.canonical _ (List.mem_map_of_mem hr)

/-- **One operation keeps to the one spelling**; a migration out of a file brings it about. -/
theorem tidy_apply (h : Tidy inv) (op : Op) : Tidy (op.apply inv) := by
  cases op with
  | append serial notBefore notAfter subject projection =>
    simp only [Op.apply]
    cases ha : inv.appendRecord (issued serial notBefore notAfter subject projection) with
    | none => exact h
    | some inv' => exact tidy_appendRecord h (canonical_serialHexStr serial) ha
  | prune keep deferred => exact tidy_prune h keep deferred
  | revokeSerial serial at' =>
    simp only [Op.apply, Inventory.revokeSerial]
    split
    · exact tidy_mutate h _ (mark_serial at')
    · exact h
  | revokeSubject subject at' =>
    simp only [Op.apply, Inventory.revokeSubject]
    split
    · exact tidy_mutate h _ (mark_serial at')
    · exact h
  | markCertRevoked serial at' => exact tidy_mutate h serial (mark_serial at')
  | clearCertRevoked serial => exact tidy_mutate h serial fun _ => rfl
  | migrate dst =>
    simp only [Op.apply]
    cases hm : inv.migrate dst with
    | none => exact h
    | some inv' => exact tidy_put (canonical_exported h) hm

/-- **The blob of an old version is spelt the one way**, each serial once. -/
def Origin.Clean : Origin → Prop
  | legacy es => Spelt (es.map InventoryEntry.serial)
  | _ => True

theorem tidy_origin {origin : Origin} (h : origin.Clean) : Tidy origin.inventory := by
  cases origin with
  | empty layout =>
    cases layout with
    | file => trivial
    | sql => exact ⟨nofun, List.nodup_nil⟩
    | keyed => exact ⟨⟨nofun, List.nodup_nil⟩, nofun, by simp, nofun⟩
  | file ls => trivial
  | legacy es => exact tidy_importRecords h

theorem tidy_reached {origin : Origin} (h : origin.Clean) (ops : List Op) :
    Tidy (reached origin ops) := by
  suffices hrun : ∀ inv, Tidy inv → Tidy (ops.foldl Op.apply inv) from hrun _ (tidy_origin h)
  induction ops with
  | nil => exact fun _ hinv => hinv
  | cons op ops ih => exact fun inv hinv => ih _ (tidy_apply hinv op)

/-! ### A serial is a number -/

/-- An entry bears the number that `c` is the spelling of. -/
def Inventory.Bears (inv : Inventory) (c : Text) : Prop :=
  ∃ e ∈ inv.entries, normaliseSerial e.serial = some c

/-- **The identity of a serial** is its number, whatever asks for it. -/
structure Identifies (inv : Inventory) (c : Text) : Prop where
  /-- No append of the number succeeds where it is borne. -/
  append : inv.Bears c → ∀ rec : CertRecord, rec.serial = c → inv.appendRecord rec = none
  duplicate : inv.duplicate c = true ↔ inv.Bears c
  serialExists : inv.serialExists c = true ↔ inv.Bears c
  subjectForSerial : ∀ s, normaliseSerial s = some c →
    ((inv.subjectForSerial s).isSome = true ↔ inv.Bears c)
  /-- A revocation by serial marks every record that bears the number. -/
  revokeSerial : ∀ s at', normaliseSerial s = some c →
    ∀ rec ∈ (inv.revokeSerial s at').records, normaliseSerial rec.serial = some c →
      rec.state = .revoked
  /-- So does a revocation of a subject whose latest certificate has it. -/
  revokeSubject : ∀ subject x at', inv.latestSerialForSubject subject = some x →
    normaliseSerial x = some c → ∀ rec ∈ (inv.revokeSubject subject at').records,
      normaliseSerial rec.serial = some c → rec.state = .revoked

section Lookups

variable {inv : Inventory} {c : Text}

theorem serialExists_iff (h : Tidy inv) (hc : normaliseSerial c = some c) :
    inv.serialExists c = true ↔ inv.Bears c := by
  unfold Inventory.serialExists Inventory.Bears
  rw [List.any_eq_true]
  refine exists_congr fun e => and_congr_right fun he => ?_
  rw [decide_eq_true_iff]
  exact ⟨fun heq => heq ▸ hc, (h.canonical e he).eq⟩

/-- **The check for duplicates is `SerialExists`**, on every backend. -/
theorem duplicate_eq (h : Tidy inv) (hc : normaliseSerial c = some c) :
    inv.duplicate c = inv.serialExists c := by
  cases inv with
  | file ls => simp only [Inventory.duplicate, Inventory.serialExists, inventorySerial, hc,
      Option.getD_some]
  | sql rows =>
    simp only [Inventory.duplicate, Inventory.serialExists, Inventory.entries, List.any_map]
    rfl
  | keyed k =>
    rw [Bool.eq_iff_iff]
    refine (h.2.isSome_iff c).trans ?_
    simp only [Inventory.serialExists, Inventory.entries, entriesOf, List.any_map, List.any_eq_true,
      List.mem_map]
    exact exists_congr fun r => and_congr_right fun _ => decide_eq_true_iff.symm

theorem subjectForSerial_isSome_iff {s : Text} (hs : normaliseSerial s = some c) :
    (inv.subjectForSerial s).isSome = true ↔ inv.Bears c := by
  unfold Inventory.subjectForSerial Inventory.Bears
  rw [hs, Option.bind_some, Option.isSome_map, List.find?_isSome]
  simp only [decide_eq_true_eq]

/-- **Marking a number marks every record that bears it.** -/
theorem revoked_of_markCertRevoked (h : Tidy inv) (at' : ℤ) {rec : CertRecord}
    (hrec : rec ∈ (inv.markCertRevoked c at').records)
    (hb : normaliseSerial rec.serial = some c) : rec.state = .revoked := by
  cases inv with
  | file ls => cases hrec
  | sql rows =>
    obtain ⟨r, hr, rfl⟩ := List.mem_map.1 hrec
    split
    · exact mark_state at' r
    · next hne =>
      rw [if_neg hne] at hb
      exact absurd ((Spelt.canonical h _ (List.mem_map_of_mem hr)).eq hb) hne
  | keyed k =>
    obtain ⟨row, hrow, rfl⟩ := List.mem_map.1 hrec
    -- before the change too there was a row of that serial, and the index points at it
    have hpoint : ∀ r ∈ k.rows, normaliseSerial r.2.serial = some c →
        k.bySerial c = some (.number r.1) := by
      intro r hr hser
      have heq := (h.1.canonical _ (List.mem_map_of_mem hr)).eq hser
      exact h.2.number.2 ⟨r.2, hr, heq⟩
    have hrow' : row ∈ (k.mutate c (mark at')).rows := hrow
    unfold Keyed.mutate at hrow'
    split at hrow'
    · next n hn =>
      obtain ⟨r, hr, rfl⟩ := List.mem_map.1 hrow'
      split
      · exact mark_state at' r.2
      · next hne =>
        rw [if_neg hne] at hb
        have hn' := hpoint r hr hb
        rw [hn] at hn'
        cases hn'
        exact absurd rfl hne
    · next hnone => exact absurd (hpoint row hrow' hb) (hnone row.1)

theorem Tidy.identifies (h : Tidy inv) (hc : normaliseSerial c = some c) : Identifies inv c := by
  have hdup : inv.duplicate c = true ↔ inv.Bears c := by
    rw [duplicate_eq h hc]
    exact serialExists_iff h hc
  refine ⟨?_, hdup, serialExists_iff h hc, fun s => subjectForSerial_isSome_iff, ?_, ?_⟩
  · rintro hb rec rfl
    exact if_pos (hdup.2 hb)
  · intro s at' hs rec hrec hb
    simp only [Inventory.revokeSerial, hs] at hrec
    exact revoked_of_markCertRevoked h at' hrec hb
  · intro subject x at' hx hxc rec hrec hb
    simp only [Inventory.revokeSubject, hx] at hrec
    -- what is found for the subject is an entry's serial, so it is the one spelling
    obtain ⟨e, he, rfl⟩ := Option.map_eq_some_iff.1 hx
    have hmem : e ∈ inv.entries := List.mem_of_mem_filter (List.mem_of_getLast? he)
    rw [(h.canonical e hmem).eq hxc] at hrec
    exact revoked_of_markCertRevoked h at' hrec hb

end Lookups

/-- **A serial is identified by its number in every inventory that is reached**, on every backend:
in runs that begin with no converted blob, or with one that is spelt the one way, for a serial that
is asked for in that spelling. -/
theorem serial_identity (origin : Origin) (ops : List Op) (horigin : origin.Clean) (c : Text)
    (hc : normaliseSerial c = some c) : Identifies (reached origin ops) c :=
  (tidy_reached horigin ops).identifies hc

/-- A blob with the serials `A` and `1F`, converted, and a certificate `1C` issued after it. -/
theorem serial_identity_converted :
    Identifies
      (reached
        (.legacy [(sampleRecord ['A'] nofun).toInventoryEntry,
          (sampleRecord ['1', 'F'] nofun).toInventoryEntry])
        [.append 28 [] [] ['w'] {}]) ['1', 'F'] :=
  serial_identity (.legacy _) _ (show Spelt _ from ⟨by decide, by decide⟩) _ (by decide)

/-- **A blob with the serial `05`, converted**: `SubjectForSerial` finds the certificate with the
number 5, `SerialExists` and the check for duplicates do not, a second certificate with that number
can be issued, and a revocation by serial does not reach the record. And where `5` is stored,
`SerialExists` does not find it under the spelling `05`, which `SubjectForSerial` does. -/
theorem converted_spelling_is_kept :
    let inv := reached (.legacy [(sampleRecord ['0', '5'] nofun).toInventoryEntry]) []
    let inv' := reached (.empty .sql) [.append 5 [] [] ['n'] {}]
    inv.subjectForSerial ['5'] = some ['n'] ∧
      inv.serialExists ['5'] = false ∧ inv.duplicate ['5'] = false ∧
      (inv.appendRecord (issued 5 [] [] ['n'] {})).isSome = true ∧
      ((inv.revokeSerial ['5'] 0).records.map fun rec => rec.state) = [.signed] ∧
      inv'.serialExists ['0', '5'] = false ∧
      inv'.subjectForSerial ['0', '5'] = some ['n'] := by
  decide

end OpenvoxCa.Storage.Spelling
