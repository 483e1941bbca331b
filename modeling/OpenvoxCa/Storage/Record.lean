import OpenvoxCa.Ca.Serial
import OpenvoxCa.Data.Table

/-!
# Inventory records and their integrity chain

What a structured backend stores: one record an issuance, under the number it was issued as. This
file has the records, the canonical line an entry is written as, the parser of such lines, and the
chain of authentication codes that is folded over them (`foldInventoryHead`).

An entry comes from a line, and the serial is the first field of the line. It is therefore never
empty, and that is part of what an entry is (`InventoryEntry.serial_ne`): a backend that writes the
empty text for “no serial” relies on it.

The second half is the abstract inventory the backends implement: the rows, and what an index
over them has to say – which serials are borne, and which serial is the newest of a subject.
-/

namespace OpenvoxCa.Storage

open Data (Table Ascending)

/-! ### Entries and records -/

/-- `InventoryEntry`: the fields of an inventory line. The dates are text. -/
structure InventoryEntry where
  serial : Text
  notBefore : Text
  notAfter : Text
  subject : Text
  /-- A field of a line is not empty. -/
  serial_ne : serial ≠ []
  deriving DecidableEq, Repr

def canonicalInventoryLine (e : InventoryEntry) : Text :=
  e.serial ++ ' ' :: e.notBefore ++ ' ' :: e.notAfter ++ ' ' :: '/' :: e.subject

/-- `strings.Fields`: the maximal runs of characters that are not white space. -/
def fields (line : Text) : List Text := (line.splitOnP isSpace).filter fun f => f ≠ []

theorem ne_nil_of_mem_fields {line f : Text} (h : f ∈ fields line) : f ≠ [] := by
  simpa using (List.mem_filter.mp h).2

/-- `strings.TrimPrefix` of a slash. -/
def trimSlash : Text → Text
  | '/' :: s => s
  | s => s

/-- `parseInventoryEntry`: four fields or more; the subject is the rest of the line. -/
def parseInventoryEntry (line : Text) : Option InventoryEntry :=
  match h : fields line with
  | serial :: notBefore :: notAfter :: name :: more =>
    some { serial, notBefore, notAfter
           subject := trimSlash (List.intercalate [' '] (name :: more))
           serial_ne := ne_nil_of_mem_fields (h ▸ List.mem_cons_self) }
  | _ => none

/-- The states of a certificate in the index. -/
inductive CertState
  | signed | revoked | unknown
  deriving DecidableEq, Repr

/-- `CertProjection`: what the index shows of a certificate. -/
structure CertProjection where
  fingerprint : Text := []
  dnsAltNames : List Text := []
  ipAltNames : List Text := []
  authExtensions : List (Text × Text) := []
  deriving DecidableEq, Repr

/-- `CertRecord`: an entry with its projection and its state. -/
structure CertRecord extends InventoryEntry where
  projection : CertProjection := {}
  state : CertState := .signed
  revokedAt : Option ℤ := none
  deriving DecidableEq, Repr

/-- What an index by serial says of a serial: the number of the entry that bears it, or
`serialAmbiguous`. -/
inductive SerialValue
  | number (seq : ℕ)
  | ambiguous
  deriving DecidableEq, Repr

/-- The errors of a structured backend. -/
inductive Failure
  /-- A request that failed, or was cancelled. -/
  | unavailable
  /-- A deadlock, or a lock that took too long: errors 1213 and 1205 of MySQL. -/
  | lockConflict
  /-- `ErrDuplicateSerial`. -/
  | duplicateSerial (serial : Text)
  /-- `inventory append failed: too many concurrent writers`. -/
  | appendContention
  /-- `inventory prune failed: too many concurrent writers`. -/
  | pruneContention
  /-- `inventory replace failed: too many concurrent writers`. -/
  | replaceContention
  /-- Lines that exceed the budget of one script. -/
  | tooManyLines (n : ℕ)
  deriving DecidableEq, Repr

/-! ### The integrity chain -/

abbrev Bytes := List UInt8

section Chain

variable (hmac : Bytes → Bytes → Bytes) (key : Bytes)

/-- `chainInventoryMAC`: the chain goes on by one line. `hmac` is HMAC-SHA256. -/
def chainInventoryMAC (prev : Bytes) (line : Text) : Bytes :=
  hmac key (prev ++ line.flatMap String.utf8EncodeChar)

/-- The chain goes on by one entry: what `AppendInventoryRecord` and `PruneInventory` hand to a
backend. -/
def advanceHead (prev : Bytes) (e : InventoryEntry) : Bytes :=
  chainInventoryMAC hmac key prev (canonicalInventoryLine e)

/-- `foldInventoryHead`, of a backend that chains. -/
def foldInventoryHead (entries : List InventoryEntry) : Bytes :=
  entries.foldl (advanceHead hmac key) []

end Chain

/-! ### The inventory -/

/-- `indexedRecord`: a record under the number it was issued as. -/
abbrev Row := ℕ × CertRecord

instance : LawfulBEq Row := inferInstance

def entryOf (r : Row) : InventoryEntry := r.2.toInventoryEntry

def entriesOf (rows : List Row) : List InventoryEntry := rows.map entryOf

/-- A record with no projection. -/
def sampleRecord (serial : Text) (h : serial ≠ []) : CertRecord :=
  { serial, notBefore := ['1'], notAfter := ['2'], subject := ['n'], serial_ne := h }

theorem serialA_ne_nil : ['A'] ≠ [] := nofun

theorem serialB_ne_nil : ['B'] ≠ [] := nofun

/-- A row bears the serial. -/
def Borne (rows : List Row) (serial : Text) : Prop := ∃ r ∈ rows, r.2.serial = serial

/-- **The newest serial of a subject**: that of its last row. -/
def newestSerial (rows : List Row) (subject : Text) : Option Text :=
  ((rows.filter fun r => r.2.subject = subject).getLast?).map fun r => r.2.serial

/-- The chain over the rows. -/
def headOf (hmac : Bytes → Bytes → Bytes) (key : Bytes) (rows : List Row) : Bytes :=
  foldInventoryHead hmac key (entriesOf rows)

section Rows

variable {hmac : Bytes → Bytes → Bytes} {key : Bytes} {rows rows' : List Row} {r : Row}
  {subject serial : Text}

theorem headOf_append : headOf hmac key (rows ++ rows') =
    (entriesOf rows').foldl (advanceHead hmac key) (headOf hmac key rows) := by
  simp only [headOf, foldInventoryHead, entriesOf, List.map_append, List.foldl_append]

theorem borne_append : Borne (rows ++ rows') serial ↔ Borne rows serial ∨ Borne rows' serial := by
  simp only [Borne, List.mem_append, or_and_right, exists_or]

theorem borne_singleton : Borne [r] serial ↔ r.2.serial = serial := by simp [Borne]

theorem newestSerial_append : newestSerial (rows ++ rows') subject =
    (newestSerial rows' subject).or (newestSerial rows subject) := by
  simp only [newestSerial, List.filter_append, List.getLast?_append, Option.map_or]

theorem newestSerial_singleton : newestSerial [r] subject =
    if r.2.subject = subject then some r.2.serial else none := by
  by_cases h : r.2.subject = subject <;> simp [newestSerial, h]

/-- Only the rows of the subject count. -/
theorem newestSerial_congr
    (h : (rows.filter fun r => r.2.subject = subject) =
      rows'.filter fun r => r.2.subject = subject) :
    newestSerial rows subject = newestSerial rows' subject := by
  rw [newestSerial, newestSerial, h]

end Rows

end OpenvoxCa.Storage
