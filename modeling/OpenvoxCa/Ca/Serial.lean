import Mathlib.Data.Nat.Digits.Defs
import Mathlib.Tactic.Linarith

/-!
# Serial numbers and their text

A serial number is a big integer everywhere a signature covers it – in a
certificate, in an entry of a CRL – and a hexadecimal string everywhere it is
looked up: in the inventory, in the list of superseded certificates, in the keys
of the in-memory indexes. Whether two of those agree is therefore always a
question about three functions:

* `serialHexStr`, Go's `%X` verb, the one way this program ever writes a
  serial;
* `setString16`, `big.Int.SetString` with base 16, which reads a sign and
  hexadecimal digits of either case and nothing else;
* `normaliseSerial`, `storage.NormaliseSerial`, which also tolerates
  surrounding space and one `0x`, and refuses negative numbers.

The two facts the rest of the development uses are that writing and reading back is the identity
(`setString16_serialHexStr`), so that two serials are equal exactly when their texts are, and that
the strict and the lenient reader never disagree about a text both accept
(`normaliseSerial_of_setString16`).
-/

namespace OpenvoxCa

/-- Text is a list of characters, which the kernel can compute with. -/
abbrev Text := List Char

instance : LawfulBEq Text := inferInstance

/-! ### Hexadecimal digits -/

/-- The upper-case hexadecimal digit of a number below sixteen. -/
def hexDigit (d : ℕ) : Char := Char.ofNat (if d < 10 then 48 + d else 55 + d)

/-- The value of a hexadecimal digit of either case. -/
def hexValue (c : Char) : Option ℕ :=
  if '0' ≤ c ∧ c ≤ '9' then some (c.toNat - 48)
  else if 'A' ≤ c ∧ c ≤ 'F' then some (c.toNat - 55)
  else if 'a' ≤ c ∧ c ≤ 'f' then some (c.toNat - 87)
  else none

theorem hexValue_hexDigit : ∀ d < 16, hexValue (hexDigit d) = some d := by decide

/-- Reading digits, most significant first, onto an accumulator. -/
def scanHex : ℕ → Text → Option ℕ
  | acc, [] => some acc
  | acc, c :: cs => (hexValue c).bind fun d => scanHex (16 * acc + d) cs

theorem scanHex_append (cs ds : Text) (acc : ℕ) :
    scanHex acc (cs ++ ds) = (scanHex acc cs).bind fun n => scanHex n ds := by
  induction cs generalizing acc with
  | nil => rfl
  | cons c cs ih =>
    simp only [List.cons_append, scanHex]
    cases hexValue c with
    | none => rfl
    | some d => exact ih _

/-- Every character the scanner accepts is a hexadecimal digit. -/
theorem hexValue_isSome_of_scanHex {cs : Text} {acc n : ℕ} (h : scanHex acc cs = some n) :
    ∀ c ∈ cs, (hexValue c).isSome := by
  induction cs generalizing acc with
  | nil => simp
  | cons c cs ih =>
    simp only [scanHex, Option.bind_eq_some_iff] at h
    obtain ⟨d, hd, hrest⟩ := h
    simp only [List.mem_cons, forall_eq_or_imp]
    exact ⟨by simp [hd], ih hrest⟩

/-- The scanner accepts every string of hexadecimal digits. -/
theorem scanHex_isSome {cs : Text} (h : ∀ c ∈ cs, (hexValue c).isSome) (acc : ℕ) :
    (scanHex acc cs).isSome := by
  induction cs generalizing acc with
  | nil => rfl
  | cons c cs ih =>
    obtain ⟨d, hd⟩ := Option.isSome_iff_exists.mp (h c List.mem_cons_self)
    simp only [scanHex, hd, Option.bind_some]
    exact ih (fun c' hc' => h c' (List.mem_cons_of_mem _ hc')) _

/-! ### Writing a serial -/

/-- The upper-case hexadecimal numeral of a natural number, without leading zeros. -/
def natHex (n : ℕ) : Text :=
  if n = 0 then ['0'] else ((Nat.digits 16 n).map hexDigit).reverse

/-- **`fmt.Sprintf("%X", n)`**, which is also `strings.ToUpper(n.Text(16))`. -/
def serialHexStr : ℤ → Text
  | .ofNat n => natHex n
  | .negSucc n => '-' :: natHex (n + 1)

theorem scanHex_digits (n : ℕ) : scanHex 0 ((Nat.digits 16 n).map hexDigit).reverse = some n := by
  induction n using Nat.strong_induction_on with
  | _ n ih =>
    rcases Nat.eq_zero_or_pos n with rfl | hpos
    · simp [scanHex]
    · rw [Nat.digits_def' (by norm_num) hpos, List.map_cons, List.reverse_cons, scanHex_append,
        ih (n / 16) (Nat.div_lt_self hpos (by norm_num))]
      simp only [Option.bind_some, scanHex, hexValue_hexDigit _ (Nat.mod_lt n (by norm_num)),
        Option.some.injEq]
      omega

theorem scanHex_natHex (n : ℕ) : scanHex 0 (natHex n) = some n := by
  unfold natHex
  split
  · next h => subst h; decide
  · exact scanHex_digits n

theorem natHex_ne_nil (n : ℕ) : natHex n ≠ [] := by
  unfold natHex
  split
  · simp
  · next h => simpa [Nat.digits_eq_nil_iff_eq_zero] using h

/-! ### Reading a serial -/

/-- The digits of `SetString`: there must be one. -/
def scanDigits (ds : Text) : Option ℕ := if ds = [] then none else scanHex 0 ds

/-- **`new(big.Int).SetString(s, 16)`**: an optional sign and at least one
hexadecimal digit, nothing else. -/
def setString16 : Text → Option ℤ
  | '-' :: ds => (scanDigits ds).map fun n : ℕ => -(n : ℤ)
  | '+' :: ds => (scanDigits ds).map fun n : ℕ => (n : ℤ)
  | ds => (scanDigits ds).map fun n : ℕ => (n : ℤ)

/-- Digits have no sign in front of them. -/
theorem setString16_of_scanDigits {ds : Text} {n : ℕ} (h : scanDigits ds = some n) :
    setString16 ds = some (n : ℤ) := by
  have hdigit : ∀ c ∈ ds, (hexValue c).isSome := by
    unfold scanDigits at h
    split at h
    · cases h
    · exact hexValue_isSome_of_scanHex h
  unfold setString16
  split
  · exact absurd (hdigit '-' List.mem_cons_self) (by decide)
  · exact absurd (hdigit '+' List.mem_cons_self) (by decide)
  · rw [h, Option.map_some]

/-- Zeros in front of a number do not matter. -/
theorem scanDigits_zeros (k n : ℕ) : scanDigits (List.replicate k '0' ++ natHex n) = some n := by
  rw [scanDigits, if_neg (by simp [natHex_ne_nil])]
  induction k with
  | zero => exact scanHex_natHex n
  | succ k ih => simpa [List.replicate_succ, scanHex, show hexValue '0' = some 0 by decide] using ih

/-- **A serial reads back as itself.** -/
@[simp] theorem setString16_serialHexStr (n : ℤ) : setString16 (serialHexStr n) = some n := by
  cases n with
  | ofNat n => exact setString16_of_scanDigits (scanDigits_zeros 0 n)
  | negSucc n =>
    change (scanDigits (natHex (n + 1))).map (fun n : ℕ => -(n : ℤ)) = _
    have hdigits : scanDigits (natHex (n + 1)) = some (n + 1) := scanDigits_zeros 0 (n + 1)
    rw [hdigits, Option.map_some, Int.negSucc_eq, Nat.cast_succ]

/-- Two serials are equal exactly when their texts are. -/
@[simp] theorem serialHexStr_inj {m n : ℤ} : serialHexStr m = serialHexStr n ↔ m = n := by
  constructor
  · intro h
    have := congrArg setString16 h
    simpa using this
  · rintro rfl
    rfl

/-! ### The canonical form of a serial -/

def isSpace (c : Char) : Bool :=
  let u := c.toNat
  (9 ≤ u && u ≤ 13) || u == 0x20 || u == 0x85 || u == 0xA0 || u == 0x1680 ||
    (0x2000 ≤ u && u ≤ 0x200A) || u == 0x2028 || u == 0x2029 || u == 0x202F || u == 0x205F ||
    u == 0x3000

def trimSpace (s : Text) : Text := ((s.dropWhile isSpace).reverse.dropWhile isSpace).reverse

/-- The two `strings.CutPrefix` of `NormaliseSerial`: one `0x` or `0X` is dropped. -/
def cutHexMark : Text → Text
  | '0' :: 'x' :: rest => rest
  | '0' :: 'X' :: rest => rest
  | s => s

/-- **`storage.NormaliseSerial`**: the canonical text of a serial, or nothing where
the source returns `ErrMalformedSerial`. -/
def normaliseSerial (serial : Text) : Option Text :=
  let trimmed := cutHexMark (trimSpace serial)
  match setString16 trimmed with
  | some n => if trimmed = [] ∨ n < 0 then none else some (serialHexStr n)
  | none => none

theorem isSpace_of_hexValue {c : Char} (h : (hexValue c).isSome) : isSpace c = false := by
  have hrange : c.toNat < 103 ∧ 48 ≤ c.toNat := by
    unfold hexValue at h
    have toNat_le : ∀ a b : Char, a ≤ b → a.toNat ≤ b.toNat := fun a b hab => hab
    split at h
    · next hc => exact ⟨by have := toNat_le _ _ hc.2; simp at this; omega,
        by have := toNat_le _ _ hc.1; simpa using this⟩
    · split at h
      · next hc => exact ⟨by have := toNat_le _ _ hc.2; simp at this; omega,
          by have := toNat_le _ _ hc.1; simp at this; omega⟩
      · split at h
        · next hc => exact ⟨by have := toNat_le _ _ hc.2; simp at this; omega,
            by have := toNat_le _ _ hc.1; simp at this; omega⟩
        · simp at h
  obtain ⟨hlt, hge⟩ := hrange
  simp only [isSpace, Bool.or_eq_false_iff, Bool.and_eq_false_iff, decide_eq_false_iff_not,
    beq_eq_false_iff_ne]
  omega

variable {s : Text}

/-- A text without space is not trimmed. -/
theorem trimSpace_eq_self (h : ∀ c ∈ s, isSpace c = false) : trimSpace s = s := by
  have hdrop : ∀ l : Text, (∀ c ∈ l, isSpace c = false) → l.dropWhile isSpace = l := by
    intro l hl
    cases l with
    | nil => rfl
    | cons c cs => simp [List.dropWhile, hl c List.mem_cons_self]
  rw [trimSpace, hdrop s h, hdrop s.reverse (by simpa using h), List.reverse_reverse]

/-- The characters `SetString` accepts: hexadecimal digits after an optional sign. -/
theorem mem_of_setString16 {n : ℤ} (h : setString16 s = some n) :
    ∀ c ∈ s, c = '-' ∨ c = '+' ∨ (hexValue c).isSome := by
  have hdigits : ∀ {ds : Text} {m : ℕ}, scanDigits ds = some m → ∀ c ∈ ds, (hexValue c).isSome := by
    intro ds m hm
    unfold scanDigits at hm
    split at hm
    · cases hm
    · exact hexValue_isSome_of_scanHex hm
  unfold setString16 at h
  split at h <;> obtain ⟨m, hm, -⟩ := Option.map_eq_some_iff.mp h
  · rintro c (_ | ⟨_, hc⟩)
    · exact Or.inl rfl
    · exact Or.inr (Or.inr (hdigits hm c hc))
  · rintro c (_ | ⟨_, hc⟩)
    · exact Or.inr (Or.inl rfl)
    · exact Or.inr (Or.inr (hdigits hm c hc))
  · exact fun c hc => Or.inr (Or.inr (hdigits hm c hc))

theorem cutHexMark_eq_self (h : ∀ c ∈ s, c ≠ 'x' ∧ c ≠ 'X') : cutHexMark s = s := by
  unfold cutHexMark
  split
  · exact absurd rfl (h 'x' (by simp)).1
  · exact absurd rfl (h 'X' (by simp)).2
  · rfl

/-- **The strict and the lenient reader agree**: a text `SetString` reads as a number
that is not negative has that number's canonical text. -/
theorem normaliseSerial_of_setString16 {n : ℤ} (h : setString16 s = some n) :
    normaliseSerial s = if n < 0 then none else some (serialHexStr n) := by
  have hchars := mem_of_setString16 h
  have hspace : ∀ c ∈ s, isSpace c = false := by
    intro c hc
    rcases hchars c hc with rfl | rfl | hx
    · decide
    · decide
    · exact isSpace_of_hexValue hx
  have hmark : ∀ c ∈ s, c ≠ 'x' ∧ c ≠ 'X' := by
    intro c hc
    rcases hchars c hc with rfl | rfl | hx
    · decide
    · decide
    · constructor <;> rintro rfl <;> revert hx <;> decide
  have hne : s ≠ [] := by
    rintro rfl
    simp [setString16, scanDigits] at h
  simp only [normaliseSerial, trimSpace_eq_self hspace, cutHexMark_eq_self hmark, h, hne, false_or]

/-- The canonical text of a serial that is not negative is its own canonical form. -/
@[simp] theorem normaliseSerial_serialHexStr {n : ℤ} (h : 0 ≤ n) :
    normaliseSerial (serialHexStr n) = some (serialHexStr n) := by
  rw [normaliseSerial_of_setString16 (setString16_serialHexStr n), if_neg (not_lt.mpr h)]

/-- What `NormaliseSerial` returns is the text of a number that is not negative. -/
theorem exists_of_normaliseSerial {c : Text} (h : normaliseSerial s = some c) :
    ∃ n : ℤ, 0 ≤ n ∧ c = serialHexStr n := by
  unfold normaliseSerial at h
  simp only at h
  split at h
  · next n _ =>
    split at h
    · cases h
    · next hn => exact ⟨n, not_lt.mp fun hlt => hn (Or.inr hlt), (Option.some.inj h).symm⟩
  · cases h

/-- A text reads as at most one number: where both readers succeed they agree. -/
theorem serial_unique {m n : ℤ} (hm : setString16 s = some m)
    (hn : normaliseSerial s = some (serialHexStr n)) : m = n := by
  rw [normaliseSerial_of_setString16 hm] at hn
  split at hn
  · cases hn
  · exact serialHexStr_inj.mp (Option.some.inj hn)

/-- A **hexadecimal number**: at least one digit, and nothing but digits. -/
def IsHexNumber (s : Text) : Prop := s ≠ [] ∧ ∀ c ∈ s, (hexValue c).isSome

/-- `NormaliseSerial` accepts every hexadecimal number. -/
theorem normaliseSerial_ne_none (h : IsHexNumber s) : normaliseSerial s ≠ none := by
  obtain ⟨n, hn⟩ := Option.isSome_iff_exists.mp (scanHex_isSome h.2 0)
  have hset : setString16 s = some (n : ℤ) := by
    refine setString16_of_scanDigits ?_
    rw [scanDigits, if_neg h.1, hn]
  rw [normaliseSerial_of_setString16 hset, if_neg (by omega)]
  simp

end OpenvoxCa
