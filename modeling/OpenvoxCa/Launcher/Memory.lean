import OpenvoxCa.Ca.Serial
import Mathlib.Data.Int.Order.Basic
import Mathlib.Tactic.Linarith

/-!
# The memory budget of the process tree

The launcher divides one memory budget between itself, the signer and the frontend. The ceiling is
what the operator names in `GOMEMLIMIT`, or a percentage of what a cgroup allows; two shares are
reservations, and the frontend has the rest. All of it is 64-bit arithmetic on values that may lie
anywhere in the range, so the point is that nothing wraps around: a percentage is taken on the side
where the product fits (`toInt_scalePercent`), and the reservations are compared before they are
subtracted (`toInt_frontendShare`).

Byte counts come as text. `parseGoByteCount` goes by suffixes, and what it accepts is a grammar
(`Denotes`): digits and a unit, with a value that fits (`parseGoByteCount_eq_some_iff`).
-/

namespace OpenvoxCa.Launcher

/-! ### Byte counts -/

/-- The number that digits stand for. -/
def decimal (ds : Text) : ℕ := ds.foldl (fun n c => 10 * n + (c.toNat - '0'.toNat)) 0

/-- `strconv.ParseUint`, below a bound. -/
def parseUint (bound : ℕ) (ds : Text) : Option ℕ :=
  if ds ≠ [] ∧ ds.all Char.isDigit = true ∧ decimal ds < bound then some (decimal ds) else none

/-- `strconv.ParseInt`, to the base ten and of 64 bits. -/
def parseInt : Text → Option Int64
  | '-' :: ds => (parseUint (2 ^ 63 + 1) ds).map fun n => Int64.ofInt (-n)
  | '+' :: ds => (parseUint (2 ^ 63) ds).map Int64.ofNat
  | ds => (parseUint (2 ^ 63) ds).map Int64.ofNat

/-- `strings.CutSuffix`. -/
def cutEnd (e s : Text) : Option Text :=
  if e.isSuffixOf s then some (s.take (s.length - e.length)) else none

/-- The loop over the units: what is left of the text, and the shift. -/
def cutUnit (digits : Text) : List (Char × ℕ) → Text × ℕ
  | [] => (digits, 0)
  | (c, shift) :: units =>
    match cutEnd [c, 'i'] digits with
    | some ds => (ds, shift)
    | none => cutUnit digits units

def units : List (Char × ℕ) := [('K', 10), ('M', 20), ('G', 30), ('T', 40)]

/-- The second half of `parseGoByteCount`: the digits, and the shift that must not overflow. -/
def scaled (digits : Text) (shift : ℕ) : Option Int64 :=
  if digits = [] ∨ digits.all Char.isDigit = false then none
  else (parseInt digits).bind fun n =>
    if n < 0 ∨ 0 < shift ∧ (2 ^ 63 - 1) >>> shift < n.toInt.toNat then none
    else some (Int64.ofInt (n.toInt * 2 ^ shift))

def parseGoByteCount (s : Text) : Option Int64 :=
  match cutEnd ['B'] s with
  | some digits =>
    let (digits, shift) := cutUnit digits units
    if (cutEnd ['i'] digits).isSome then none else scaled digits shift
  | none => if s.getLast?.any Char.isDigit then scaled s 0 else none

/-- `parseConfiguredByteCount`: the last letter may be left out. -/
def parseConfiguredByteCount (s : Text) : Option Int64 :=
  match parseGoByteCount s with
  | some n => some n
  | none =>
    if units.any fun u => (cutEnd [u.1, 'i'] s).isSome then parseGoByteCount (s ++ ['B']) else none

/-- **The grammar of byte counts**: the text is digits with one of the suffixes, and stands for
`v` bytes. -/
def Denotes (s : Text) (v : ℕ) : Prop :=
  ∃ ds, ds ≠ [] ∧ ds.all Char.isDigit = true ∧
    ((s = ds ∨ s = ds ++ ['B']) ∧ v = decimal ds ∨
      ∃ u ∈ units, s = ds ++ [u.1, 'i', 'B'] ∧ v = decimal ds * 2 ^ u.2)

theorem cutEnd_eq_some {e s r : Text} : cutEnd e s = some r ↔ s = r ++ e := by
  unfold cutEnd
  split_ifs with h
  · obtain ⟨r', rfl⟩ := List.isSuffixOf_iff_suffix.mp h
    simp [eq_comm]
  · refine iff_of_false nofun ?_
    rintro rfl
    exact h (List.isSuffixOf_iff_suffix.mpr (List.suffix_append r e))

/-- Digits do not end in a letter. -/
theorem cutEnd_digits {ds e : Text} {c : Char} (hds : ds.all Char.isDigit = true)
    (hc : c.isDigit = false) : cutEnd (e ++ [c]) ds = none := by
  rw [Option.eq_none_iff_forall_ne_some]
  intro r hr
  obtain rfl := cutEnd_eq_some.mp hr
  simp [hc] at hds

theorem parseInt_digits {ds : Text} (hne : ds ≠ []) (hds : ds.all Char.isDigit = true) :
    parseInt ds = if decimal ds < 2 ^ 63 then some (Int64.ofNat (decimal ds)) else none := by
  unfold parseInt
  split
  · simp at hds
  · simp at hds
  · simp [parseUint, hne, hds, apply_ite]

/-- **Digits and a shift are accepted exactly if the value fits.** -/
theorem scaled_eq_some_iff {ds : Text} {shift : ℕ} {n : Int64} :
    scaled ds shift = some n ↔ (ds ≠ [] ∧ ds.all Char.isDigit = true) ∧
      decimal ds * 2 ^ shift < 2 ^ 63 ∧ n.toInt = (decimal ds * 2 ^ shift : ℕ) := by
  by_cases hds : ds ≠ [] ∧ ds.all Char.isDigit = true
  · have hpow := Nat.two_pow_pos shift
    have hle : decimal ds ≤ decimal ds * 2 ^ shift := Nat.le_mul_of_pos_right _ hpow
    have hshift : (2 ^ 63 - 1) >>> shift < decimal ds ↔ 2 ^ 63 ≤ decimal ds * 2 ^ shift := by
      rw [Nat.shiftRight_eq_div_pow, Nat.div_lt_iff_lt_mul hpow]
      omega
    rw [scaled, if_neg (by simpa using hds), parseInt_digits hds.1 hds.2]
    by_cases hfits : decimal ds * 2 ^ shift < 2 ^ 63
    · have hint : (Int64.ofNat (decimal ds)).toInt = decimal ds :=
        Int64.toInt_ofNat_of_lt (hle.trans_lt hfits)
      have hok : ¬(Int64.ofNat (decimal ds) < 0 ∨ 0 < shift ∧
          (2 ^ 63 - 1) >>> shift < (Int64.ofNat (decimal ds)).toInt.toNat) := by
        rw [Int64.lt_iff_toInt_lt, hint, Int.toNat_natCast, hshift]
        simp only [Int64.toInt_zero]
        omega
      have hcast : (decimal ds : ℤ) * 2 ^ shift = (decimal ds * 2 ^ shift : ℕ) := by push_cast; rfl
      rw [if_pos (hle.trans_lt hfits), Option.bind_some, if_neg hok, hint, Option.some.injEq,
        ← Int64.toInt_inj, hcast, Int64.toInt_ofInt_of_le (by omega) (by exact_mod_cast hfits)]
      exact ⟨fun h => ⟨hds, hfits, h.symm⟩, fun h => h.2.2.symm⟩
    · simp only [hfits, false_and, and_false, iff_false]
      split_ifs with hd
      · have hint : (Int64.ofNat (decimal ds)).toInt = decimal ds := Int64.toInt_ofNat_of_lt hd
        have hpos : 0 < shift := by
          by_contra hzero
          rw [Nat.eq_zero_of_not_pos hzero, pow_zero, mul_one] at hfits
          exact hfits hd
        have hbig : (2 ^ 63 - 1) >>> shift < (Int64.ofNat (decimal ds)).toInt.toNat := by
          rw [hint, Int.toNat_natCast, hshift]
          exact not_lt.mp hfits
        rw [Option.bind_some, if_pos (Or.inr ⟨hpos, hbig⟩)]
        exact nofun
      · exact nofun
  · have hbad : ds = [] ∨ ds.all Char.isDigit = false := by
      rw [not_and_or, not_not, Bool.not_eq_true] at hds
      exact hds
    rw [scaled, if_pos hbad]
    exact iff_of_false nofun fun h => hds h.1

/-- The loop takes the unit that is there. -/
theorem cutUnit_unit {ds : Text} {u : Char × ℕ} (hu : u ∈ units) :
    cutUnit (ds ++ [u.1, 'i']) units = (ds, u.2) := by
  have hcut : ∀ c, cutEnd [c, 'i'] (ds ++ [u.1, 'i']) = if c = u.1 then some ds else none := by
    intro c
    split_ifs with hc
    · rw [cutEnd_eq_some, hc]
    · refine Option.eq_none_iff_forall_ne_some.mpr fun r hr => hc ?_
      have := congrArg List.reverse (cutEnd_eq_some.mp hr)
      simp at this
      exact this.1.symm
  simp only [units, List.mem_cons, List.not_mem_nil, or_false] at hu
  obtain rfl | rfl | rfl | rfl := hu
  all_goals simp [cutUnit, units, hcut]

/-- And none that is not. -/
theorem cutUnit_digits {ds : Text} (hds : ds.all Char.isDigit = true) :
    cutUnit ds units = (ds, 0) := by
  have hcut : ∀ c, cutEnd [c, 'i'] ds = none :=
    fun c => cutEnd_digits (e := [c]) hds (by decide)
  simp [cutUnit, units, hcut]

theorem cutUnit_cases (digits : Text) (us : List (Char × ℕ)) :
    cutUnit digits us = (digits, 0) ∨
      ∃ ds, ∃ u ∈ us, digits = ds ++ [u.1, 'i'] ∧ cutUnit digits us = (ds, u.2) := by
  induction us with
  | nil => exact Or.inl rfl
  | cons u us ih =>
    unfold cutUnit
    cases hcut : cutEnd [u.1, 'i'] digits with
    | some ds => exact Or.inr ⟨ds, u, List.mem_cons_self, cutEnd_eq_some.mp hcut, rfl⟩
    | none =>
      refine ih.imp_right ?_
      rintro ⟨ds, v, hv, hrest⟩
      exact ⟨ds, v, List.mem_cons_of_mem _ hv, hrest⟩

/-- **What `parseGoByteCount` accepts is a byte count whose value fits**, and it has that value. -/
theorem parseGoByteCount_eq_some_iff {s : Text} {n : Int64} :
    parseGoByteCount s = some n ↔ ∃ v : ℕ, Denotes s v ∧ v < 2 ^ 63 ∧ n.toInt = v := by
  constructor
  · intro h
    unfold parseGoByteCount at h
    split at h
    · next digits hcut =>
      obtain rfl := cutEnd_eq_some.mp hcut
      obtain hcu | ⟨ds, u, hu, rfl, hcu⟩ := cutUnit_cases digits units
      · simp only [hcu, Option.ite_none_left_eq_some, scaled_eq_some_iff] at h
        obtain ⟨-, ⟨hne, hds⟩, hfits⟩ := h
        exact ⟨_, ⟨digits, hne, hds, Or.inl ⟨Or.inr rfl, by simp⟩⟩, hfits⟩
      · simp only [hcu, Option.ite_none_left_eq_some, scaled_eq_some_iff] at h
        obtain ⟨-, ⟨hne, hds⟩, hfits⟩ := h
        exact ⟨_, ⟨ds, hne, hds, Or.inr ⟨u, hu, by simp, rfl⟩⟩, hfits⟩
    · simp only [Option.ite_none_right_eq_some, scaled_eq_some_iff] at h
      obtain ⟨-, ⟨hne, hds⟩, hfits⟩ := h
      exact ⟨_, ⟨s, hne, hds, Or.inl ⟨Or.inl rfl, by simp⟩⟩, hfits⟩
  · rintro ⟨v, ⟨ds, hne, hds, hform⟩, hfits, hn⟩
    have hi : cutEnd ['i'] ds = none := cutEnd_digits (e := []) hds (by decide)
    have hB : ∀ r, cutEnd ['B'] (r ++ ['B']) = some r := fun r => cutEnd_eq_some.mpr rfl
    obtain ⟨rfl | rfl, rfl⟩ | ⟨u, hu, rfl, rfl⟩ := hform
    · have hlast : s.getLast?.any Char.isDigit = true := by
        rw [List.getLast?_eq_some_getLast hne]
        exact List.all_eq_true.mp hds _ (List.getLast_mem hne)
      have hcut : cutEnd ['B'] s = none := cutEnd_digits (e := []) hds (by decide)
      simp only [parseGoByteCount, hcut, hlast, if_true]
      exact scaled_eq_some_iff.mpr ⟨⟨hne, hds⟩, by simpa using hfits, by simpa using hn⟩
    · simp only [parseGoByteCount, hB, cutUnit_digits hds, hi, Option.isSome_none]
      exact scaled_eq_some_iff.mpr ⟨⟨hne, hds⟩, by simpa using hfits, by simpa using hn⟩
    · have hsplit : ds ++ [u.1, 'i', 'B'] = ds ++ [u.1, 'i'] ++ ['B'] := by simp
      simp only [hsplit, parseGoByteCount, hB, cutUnit_unit hu, hi, Option.isSome_none]
      exact scaled_eq_some_iff.mpr ⟨⟨hne, hds⟩, hfits, hn⟩

/-! ### The budget -/

/-- Where the ceiling comes from. -/
inductive Source
  | goMemLimit
  | cgroup (path : Text)
  deriving DecidableEq

/-- What the operator is told about a value that could not be used. -/
inductive Note
  | percentOutOfRange (percent : Int64)
  | notByteCount (key raw : Text)
  | belowMinimum (key : Text) (n : Int64)
  deriving DecidableEq

/-- The keys of `serverConfig` that tune the budget. -/
structure ServerConfig where
  memoryBudgetPercent : Int64 := 0
  memoryReserveLauncher : Text := []
  memoryReserveSigner : Text := []

def defaultLauncherReservation : Int64 := 8 * 2 ^ 20

def defaultSignerReservation : Int64 := 24 * 2 ^ 20

def minProcessReservation : Int64 := 8 * 2 ^ 20

def minFrontendMemoryShare : Int64 := 24 * 2 ^ 20

def defaultMemoryBudgetPercent : Int64 := 90

def byteCountOrDefault (key raw : Text) (fallback : Int64) : Int64 × Option Note :=
  if trimSpace raw = [] then (fallback, none)
  else match parseConfiguredByteCount (trimSpace raw) with
    | none => (fallback, some (.notByteCount key (trimSpace raw)))
    | some n =>
      if n < minProcessReservation then (fallback, some (.belowMinimum key n)) else (n, none)

def ServerConfig.reserveLauncher (cfg : ServerConfig) : Int64 × Option Note :=
  byteCountOrDefault "memory_reserve_launcher".toList cfg.memoryReserveLauncher
    defaultLauncherReservation

def ServerConfig.reserveSigner (cfg : ServerConfig) : Int64 × Option Note :=
  byteCountOrDefault "memory_reserve_signer".toList cfg.memoryReserveSigner
    defaultSignerReservation

def ServerConfig.budgetPercent (cfg : ServerConfig) : Int64 × Option Note :=
  if cfg.memoryBudgetPercent = 0 then (defaultMemoryBudgetPercent, none)
  else if 1 ≤ cfg.memoryBudgetPercent ∧ cfg.memoryBudgetPercent ≤ 100 then
    (cfg.memoryBudgetPercent, none)
  else (defaultMemoryBudgetPercent, some (.percentOutOfRange cfg.memoryBudgetPercent))

/-- `parseCgroupMemoryMax`, of the content of a file that can be read. -/
def parseCgroupMemoryMax (content : Option Text) : Option Int64 :=
  content.bind fun data =>
    if trimSpace data = [] ∨ trimSpace data = ['m', 'a', 'x'] then none
    else (parseInt (trimSpace data)).filter fun n => 0 < n

/-- What `treeMemoryCeiling` finds. -/
inductive Ceiling
  | found (n : Int64) (source : Source)
  | noCeiling
  | invalid (raw : Text)
  deriving DecidableEq

/-- `treeMemoryCeiling`: `GOMEMLIMIT`, or the first of the cgroup's files that states a limit. -/
def treeMemoryCeiling (goMemLimit : Text) (files : List (Text × Option Text)) : Ceiling :=
  if trimSpace goMemLimit = [] then
    match files.findSome? fun f => (parseCgroupMemoryMax f.2).map fun n => (n, f.1) with
    | some (n, path) => .found n (.cgroup path)
    | none => .noCeiling
  else if trimSpace goMemLimit = ['o', 'f', 'f'] then .noCeiling
  else match parseGoByteCount (trimSpace goMemLimit) with
    | some n => .found n .goMemLimit
    | none => .invalid (trimSpace goMemLimit)

/-- `scalePercent`: the product is taken first where it fits. -/
def scalePercent (n percent : Int64) : Int64 :=
  if Int64.maxValue / 100 < n then n / 100 * percent else n * percent / 100

/-- The frontend's share: what is left, if anything is. -/
def frontendShare (total launcher signer : Int64) : Int64 :=
  if launcher < total ∧ signer < total - launcher then total - launcher - signer else 0

structure MemoryBudget where
  total : Int64
  launcher : Int64
  signer : Int64
  frontend : Int64
  ceiling : Int64
  source : Source
  deriving DecidableEq

/-- `budgetKind`, with what goes with it. -/
inductive Resolution
  | applied (b : MemoryBudget)
  | noCeiling
  | tooSmall (b : MemoryBudget)
  | invalid (raw : Text)
  deriving DecidableEq

/-- The division of a ceiling; headroom is withheld only from one that was derived. -/
def ServerConfig.divide (cfg : ServerConfig) (ceiling : Int64) (source : Source) : MemoryBudget :=
  let total := if source = .goMemLimit then ceiling else scalePercent ceiling cfg.budgetPercent.1
  let launcher := cfg.reserveLauncher.1
  let signer := cfg.reserveSigner.1
  { total, launcher, signer, frontend := frontendShare total launcher signer, ceiling, source }

/-- `resolveMemoryBudget`; a budget that is too small is only spoken of. -/
def resolveMemoryBudget (cfg : ServerConfig) (goMemLimit : Text)
    (files : List (Text × Option Text)) : Resolution × List Note :=
  let notes := [cfg.budgetPercent.2, cfg.reserveLauncher.2, cfg.reserveSigner.2].filterMap id
  match treeMemoryCeiling goMemLimit files with
  | .noCeiling => (.noCeiling, notes)
  | .invalid raw => (.invalid raw, notes)
  | .found ceiling source =>
    let b := cfg.divide ceiling source
    (if b.frontend < minFrontendMemoryShare then .tooSmall b else .applied b, notes)

variable {n percent total launcher signer : Int64}

/-- **A percentage does not wrap around**, and is no more than the whole. -/
theorem toInt_scalePercent (hn : 0 ≤ n.toInt) (hp : 1 ≤ percent.toInt ∧ percent.toInt ≤ 100) :
    (scalePercent n percent).toInt =
      (if (2 ^ 63 - 1) / 100 < n.toInt then n.toInt / 100 * percent.toInt
        else n.toInt * percent.toInt / 100) ∧ (scalePercent n percent).toInt ≤ n.toInt := by
  have hlt := n.toInt_lt
  have hdiv : ∀ m : Int64, 0 ≤ m.toInt → (m / 100).toInt = m.toInt / 100 := fun m hm =>
    (Int64.toInt_div_of_ne_right m 100 (by decide)).trans (Int.tdiv_eq_ediv_of_nonneg hm)
  have hmul : ∀ m : Int64, 0 ≤ m.toInt * percent.toInt → m.toInt * percent.toInt < 2 ^ 63 →
      (m * percent).toInt = m.toInt * percent.toInt := by
    intro m hle hlt
    rw [Int64.toInt_mul]
    exact Int.bmod_eq_of_le (by omega) (by omega)
  have hmax : (Int64.maxValue / 100).toInt = (2 ^ 63 - 1) / 100 := by decide
  unfold scalePercent
  simp only [Int64.lt_iff_toInt_lt, hmax]
  split_ifs with h
  · have hle : n.toInt / 100 * percent.toInt ≤ n.toInt / 100 * 100 :=
      Int.mul_le_mul_of_nonneg_left hp.2 (by omega)
    have hprod : (n / 100 * percent).toInt = n.toInt / 100 * percent.toInt := by
      rw [hmul _ _ (by rw [hdiv n hn]; omega), hdiv n hn]
      rw [hdiv n hn]
      exact Int.mul_nonneg (by omega) (by omega)
    exact ⟨hprod, by omega⟩
  · have hle : n.toInt * percent.toInt ≤ n.toInt * 100 := Int.mul_le_mul_of_nonneg_left hp.2 hn
    have hpos : 0 ≤ n.toInt * percent.toInt := Int.mul_nonneg hn (by omega)
    have hprod := hmul n hpos (by omega)
    have hscaled : (n * percent / 100).toInt = n.toInt * percent.toInt / 100 := by
      rw [hdiv _ (by omega), hprod]
    exact ⟨hscaled, by omega⟩

/-- **The rest does not wrap around**: it is nothing where the reservations exceed the total. -/
theorem toInt_frontendShare (hl : 0 ≤ launcher.toInt) (hs : 0 ≤ signer.toInt) :
    (frontendShare total launcher signer).toInt =
      max 0 (total.toInt - launcher.toInt - signer.toInt) := by
  have hsub : ∀ {a b : Int64}, 0 ≤ b.toInt → b < a → (a - b).toInt = a.toInt - b.toInt :=
    fun hb hlt => Int64.toInt_sub_of_le _ _ (Int64.le_iff_toInt_le.mpr hb) (Int64.le_of_lt hlt)
  unfold frontendShare
  split_ifs with h
  · have hrest := Int64.lt_iff_toInt_lt.mp h.2
    rw [hsub hl h.1] at hrest
    rw [hsub hs h.2, hsub hl h.1]
    omega
  · rw [Int64.toInt_zero]
    by_cases hlt : launcher < total
    · have hrest : ¬signer < total - launcher := fun h' => h ⟨hlt, h'⟩
      rw [Int64.lt_iff_toInt_lt, hsub hl hlt] at hrest
      omega
    · rw [Int64.lt_iff_toInt_lt] at hlt
      omega

theorem byteCountOrDefault_nonneg {key raw : Text} {fallback : Int64} (h : 0 ≤ fallback.toInt) :
    0 ≤ (byteCountOrDefault key raw fallback).1.toInt := by
  have hmin : minProcessReservation.toInt = 8 * 2 ^ 20 := by decide
  unfold byteCountOrDefault
  split_ifs
  · exact h
  · split
    · exact h
    · next n _ =>
      split_ifs with hn
      · exact h
      · rw [Int64.lt_iff_toInt_lt, hmin] at hn
        change 0 ≤ n.toInt
        omega

theorem budgetPercent_range (cfg : ServerConfig) :
    1 ≤ cfg.budgetPercent.1.toInt ∧ cfg.budgetPercent.1.toInt ≤ 100 := by
  have hdefault : 1 ≤ defaultMemoryBudgetPercent.toInt ∧
      defaultMemoryBudgetPercent.toInt ≤ 100 := by decide
  unfold ServerConfig.budgetPercent
  split_ifs with _ h
  · exact hdefault
  · exact h.imp Int64.le_iff_toInt_le.mp Int64.le_iff_toInt_le.mp
  · exact hdefault

theorem ceiling_nonneg {goMemLimit : Text} {files : List (Text × Option Text)} {source : Source}
    (h : treeMemoryCeiling goMemLimit files = .found n source) : 0 ≤ n.toInt := by
  unfold treeMemoryCeiling at h
  split_ifs at h
  · split at h
    · next m path hfind =>
      cases h
      obtain ⟨f, -, hmap⟩ := List.exists_of_findSome?_eq_some hfind
      obtain ⟨_, hf, ⟨⟩⟩ := Option.map_eq_some_iff.mp hmap
      obtain ⟨data, -, hdata⟩ := Option.bind_eq_some_iff.mp hf
      split_ifs at hdata
      have hpos := (Option.filter_eq_some_iff.mp hdata).2
      exact (Int64.lt_iff_toInt_lt.mp (of_decide_eq_true hpos)).le
    · cases h
  · split at h
    · next m hparse =>
      cases h
      obtain ⟨v, -, -, hv⟩ := parseGoByteCount_eq_some_iff.mp hparse
      omega
    · cases h

/-- **A budget that is divided exactly**, over the integers: the ceiling is the one that was found,
and a percentage is taken of it only if a cgroup states it. -/
structure Divided (cfg : ServerConfig) (goMemLimit : Text) (files : List (Text × Option Text))
    (b : MemoryBudget) : Prop where
  found : treeMemoryCeiling goMemLimit files = .found b.ceiling b.source
  launcher : b.launcher = cfg.reserveLauncher.1
  signer : b.signer = cfg.reserveSigner.1
  reserved : 0 ≤ b.launcher.toInt ∧ 0 ≤ b.signer.toInt
  rest : b.frontend.toInt = max 0 (b.total.toInt - b.launcher.toInt - b.signer.toInt)
  total : b.total.toInt = if b.source = .goMemLimit then b.ceiling.toInt
    else if (2 ^ 63 - 1) / 100 < b.ceiling.toInt then
      b.ceiling.toInt / 100 * cfg.budgetPercent.1.toInt
    else b.ceiling.toInt * cfg.budgetPercent.1.toInt / 100
  total_le : b.total.toInt ≤ b.ceiling.toInt

theorem divided (cfg : ServerConfig) {goMemLimit : Text} {files : List (Text × Option Text)}
    {source : Source} (h : treeMemoryCeiling goMemLimit files = .found n source) :
    Divided cfg goMemLimit files (cfg.divide n source) where
  found := h
  launcher := rfl
  signer := rfl
  reserved := ⟨byteCountOrDefault_nonneg (by decide), byteCountOrDefault_nonneg (by decide)⟩
  rest := toInt_frontendShare (byteCountOrDefault_nonneg (by decide))
    (byteCountOrDefault_nonneg (by decide))
  total := by
    by_cases hsource : source = .goMemLimit
    · simp only [ServerConfig.divide, hsource, if_true]
    · simp only [ServerConfig.divide, if_neg hsource]
      exact (toInt_scalePercent (ceiling_nonneg h) (budgetPercent_range cfg)).1
  total_le := by
    by_cases hsource : source = .goMemLimit
    · simp only [ServerConfig.divide, hsource, if_true, le_refl]
    · simp only [ServerConfig.divide, if_neg hsource]
      exact (toInt_scalePercent (ceiling_nonneg h) (budgetPercent_range cfg)).2

/-- **The memory budget is divided exactly**, or it is too small for the reservations and the
frontend's minimum; and byte counts are what the grammar says. -/
theorem memory_budget_exact (cfg : ServerConfig) (goMemLimit : Text)
    (files : List (Text × Option Text)) :
    (∀ b, (resolveMemoryBudget cfg goMemLimit files).1 = .applied b →
      Divided cfg goMemLimit files b ∧
      b.launcher.toInt + b.signer.toInt + b.frontend.toInt = b.total.toInt ∧
      24 * 2 ^ 20 ≤ b.frontend.toInt) ∧
    (∀ b, (resolveMemoryBudget cfg goMemLimit files).1 = .tooSmall b →
      Divided cfg goMemLimit files b ∧
      b.total.toInt < b.launcher.toInt + b.signer.toInt + 24 * 2 ^ 20) ∧
    ∀ s n, parseGoByteCount s = some n ↔ ∃ v : ℕ, Denotes s v ∧ v < 2 ^ 63 ∧ n.toInt = v := by
  have hmin : minFrontendMemoryShare.toInt = 24 * 2 ^ 20 := by decide
  refine ⟨fun b hb => ?_, fun b hb => ?_, fun s n => parseGoByteCount_eq_some_iff⟩
  all_goals
    unfold resolveMemoryBudget at hb
    split at hb
    · cases hb
    · cases hb
    · next ceiling source hfound =>
      have hdiv := divided cfg hfound
      have hrest := hdiv.rest
      simp only [Int64.lt_iff_toInt_lt, hmin] at hb
      split_ifs at hb with hshare
      cases hb
      refine ⟨hdiv, ?_⟩
      omega

def sampleMount : Text := "/sys/fs/cgroup/memory.max".toList

/-- The cgroup of a unit that states no limit, and the mount point, which allows 256 MiB. -/
def sampleFiles : List (Text × Option Text) :=
  [("/sys/fs/cgroup/ca/memory.max".toList, some "max\n".toList),
    (sampleMount, some "268435456\n".toList)]

/-- Half of what the cgroup allows is divided, with 16 MiB for the launcher. -/
theorem memory_budget_exact_sample : ∃ b : MemoryBudget,
    b.source = .cgroup sampleMount ∧ b.total.toInt = 128 * 2 ^ 20 ∧
      b.launcher.toInt = 16 * 2 ^ 20 ∧
      b.launcher.toInt + b.signer.toInt + b.frontend.toInt = b.total.toInt := by
  let cfg : ServerConfig := { memoryBudgetPercent := 50, memoryReserveLauncher := "16Mi".toList }
  have h : (resolveMemoryBudget cfg [] sampleFiles).1 =
      .applied (cfg.divide (256 * 2 ^ 20) (.cgroup sampleMount)) := by
    decide +kernel
  obtain ⟨hdiv, hsum, -⟩ := (memory_budget_exact cfg [] sampleFiles).1 _ h
  exact ⟨_, rfl, hdiv.total.trans (by decide +kernel), by decide +kernel, hsum⟩

end OpenvoxCa.Launcher
