import OpenvoxCa.Ca.Lifetime
import OpenvoxCa.Ca.Managed
import OpenvoxCa.Data.Assoc

/-!
# A store that refuses what it is given

When the store of a managed certificate refuses a write, the certificate that was signed for it is
revoked, and the next pass signs another one. Each of them stays on the CRL for as long as it would
have been valid, so a store that can be read and not written would fill the CRL at the rate of the
passes. `managedcert.go` therefore counts the refusals in a row, entry by entry, and withholds the
passes of an entry for a time that doubles with each of them, up to a day (`skipForSaveBackoff`).
The time is computed by a shift in 64 bits.

What the counters are for is said without them: `refusals` is the list of the refusals that an entry
has met since its store last took something, and `pause` is how long the next certificate has to
wait, a number like any other. A run keeps the counter of every entry equal to the length of its
list (`Tracks`). That length never comes near the 64 bits of the counter, because past the ninth
refusal each one takes a day and a `time.Time` has only so many days (`Paced`); and the shift,
though it wraps around for larger counts, never lands between zero and a day when it does
(`toInt_shiftWait`).
-/

namespace OpenvoxCa.Ca.Backoff

/-! ### The counters -/

/-- An instant that a `time.Time` can hold, in nanoseconds. -/
structure Instant where
  ns : ℤ
  earliest : -2 ^ 63 * nanos ≤ ns
  latest : ns < 2 ^ 63 * nanos

/-- `d << k`: the bits that are shifted out are lost, and for large `k` these are all of them. -/
def shiftLeft64 (d : Int64) (k : ℕ) : Int64 := Int64.ofInt (d.toInt * 2 ^ k)

/-- `managedSaveBackoffBase`: a quarter of an hour. -/
def managedSaveBackoffBase : Int64 := 15 * 60 * second64

/-- `managedSaveBackoffCap`: a day. -/
def managedSaveBackoffCap : Int64 := 24 * hour64

structure ManagedSaveFailure where
  count : Int64
  last : Instant

/-- `managedSaveBackoff`: the failures of a replica's stores, by subject. -/
abbrev ManagedSaveBackoff := Data.Assoc Text ManagedSaveFailure

/-- The time to wait that a shift by `k` comes to. -/
def shiftWait (k : ℕ) : Int64 :=
  let wait := shiftLeft64 managedSaveBackoffBase k
  if managedSaveBackoffCap < wait ∨ wait ≤ 0 then managedSaveBackoffCap else wait

/-- **`skipForSaveBackoff`**: for how much longer the pass is withheld, if it is. -/
def skipForSaveBackoff (b : ManagedSaveBackoff) (subject : Text) (now : Instant) : Option Int64 :=
  match b.lookup subject with
  | none => none
  | some f =>
    if f.count ≤ 1 then none
    else
      let remaining := shiftWait (f.count - 2).toInt.toNat - timeSub now.ns f.last.ns
      if 0 < remaining then some remaining else none

def recordSaveOutcome (b : ManagedSaveBackoff) (subject : Text) (now : Instant) (failed : Bool) :
    ManagedSaveBackoff :=
  if ¬failed then b.erase subject
  else
    let count := match b.lookup subject with
      | none => 0
      | some f => f.count
    b.insert subject { count := count + 1, last := now }

/-! ### Passes -/

/-- The entries of a CA. `ValidateIn` and `checkManagedCertOverlap` refuse a configuration in which
two of them, the serving certificate included, have one certname. -/
structure ManagedCerts where
  entries : List CertSpec
  distinct : (entries.map CertSpec.subject).Nodup

/-- **One pass over one entry**, with what it meets on its way. -/
structure Pass (c : ManagedCerts) where
  entry : Fin c.entries.length
  /-- When it begins. -/
  now : Instant
  /-- Whether the CA is initialised, and the lock of the subject can be taken. -/
  entered : Except Failure Unit := .ok ()
  load : Except Failure Material := .ok {}
  /-- Whether the certificate in the store is found to be revoked. -/
  revoked : Bool := false
  /-- Whether a key can be generated, and a certificate be signed and put on record. -/
  issuance : Except Failure Unit := .ok ()
  save : Except Failure Unit := .ok ()
  /-- When `Save` has answered. -/
  answered : Instant

/-- What comes of a pass. -/
inductive Outcome
  /-- It ends before the store is asked to take anything. -/
  | failed (e : Failure)
  /-- There is nothing to do. -/
  | current
  | withheld (remaining : Int64)
  /-- A certificate was issued, and the store has refused it. -/
  | refused (e : Failure)
  /-- A certificate was issued, and the store has taken it. -/
  | issued
  deriving DecidableEq

/-- A certificate was issued. -/
def Outcome.issues : Outcome → Bool
  | .refused _ => true
  | .issued => true
  | _ => false

section Passes

variable {c : ManagedCerts}

def ManagedCerts.spec (c : ManagedCerts) (i : Fin c.entries.length) : CertSpec := c.entries.get i

/-- Whether a certificate is due: the part of `reconcileManagedCert` up to the decision. -/
def Pass.due (ca : CA) (p : Pass c) : Except Failure Bool := do
  (c.spec p.entry).validate
  p.entered
  let material ← p.load
  return (issueDecision material (c.spec p.entry) ca.caCert ca.backdate (encodeTime p.now.ns)
    p.revoked).1

/-- What a pass comes to if it is not withheld. -/
def Pass.attempt (p : Pass c) : Outcome :=
  match p.issuance with
  | .error e => .failed e
  | .ok _ =>
    match p.save with
    | .error e => .refused e
    | .ok _ => .issued

/-- What a pass that comes to something leaves in the counters. -/
def Pass.record (b : ManagedSaveBackoff) (p : Pass c) : Outcome → ManagedSaveBackoff
  | .refused _ => recordSaveOutcome b (c.spec p.entry).subject p.answered true
  | .issued => recordSaveOutcome b (c.spec p.entry).subject p.answered false
  | _ => b

/-- **`reconcileManagedCert`**, as far as the counters are concerned: what comes of a pass. -/
def Pass.outcome (ca : CA) (b : ManagedSaveBackoff) (p : Pass c) : Outcome :=
  match p.due ca with
  | .error e => .failed e
  | .ok false => .current
  | .ok true =>
    match skipForSaveBackoff b (c.spec p.entry).subject p.now with
    | some remaining => .withheld remaining
    | none => p.attempt

/-- The counters after a pass. -/
def Pass.after (ca : CA) (b : ManagedSaveBackoff) (p : Pass c) : ManagedSaveBackoff :=
  p.record b (p.outcome ca b)

/-- The counters after a sequence of passes. -/
def afterPasses (ca : CA) (b : ManagedSaveBackoff) (ps : List (Pass c)) : ManagedSaveBackoff :=
  ps.foldl (Pass.after ca) b

/-- What comes of each pass of a sequence. -/
def trace (ca : CA) (b : ManagedSaveBackoff) : List (Pass c) → List (Pass c × Outcome)
  | [] => []
  | p :: ps => (p, p.outcome ca b) :: trace ca (p.after ca b) ps

/-- The passes follow each other, from the instant `t` on. -/
def Chronological (t : ℤ) : List (Pass c) → Prop
  | [] => True
  | p :: ps => t ≤ p.now.ns ∧ p.now.ns ≤ p.answered.ns ∧ Chronological p.answered.ns ps

/-! ### What the counters are for -/

/-- The refusals in a row, with what comes of one more pass. The latest one comes first. -/
def moreRefusals (i : Fin c.entries.length) (ts : List Instant) (r : Pass c × Outcome) :
    List Instant :=
  if r.1.entry = i then
    match r.2 with
    | .refused _ => r.1.answered :: ts
    | .issued => []
    | _ => ts
  else ts

/-- **The refusals in a row**: those that entry `i` has met since its store last took something. -/
def refusals (i : Fin c.entries.length) (tr : List (Pass c × Outcome)) : List Instant :=
  tr.foldl (moreRefusals i) []

/-- The certificates that were issued for entry `i`. -/
def certificates (i : Fin c.entries.length) (tr : List (Pass c × Outcome)) : ℕ :=
  tr.countP fun r => r.1.entry = i ∧ r.2.issues

def day : ℤ := 24 * 3600 * nanos

/-- **How long the certificate after the `n`-th refusal has to wait**: not at all after the first,
then a quarter of an hour, and twice that each time, but no more than a day. -/
def pause (n : ℕ) : ℤ := if n < 2 then 0 else min (15 * 60 * nanos * 2 ^ (n - 2)) day

/-! ### The shift -/

/-- **Where the shift wraps around, it is out of bounds.** -/
theorem toInt_shiftWait (k : ℕ) : (shiftWait k).toInt = min (15 * 60 * nanos * 2 ^ k) day := by
  -- Up to 53 places there is nothing for it but to look at them all; from there on, all the bits
  -- of the base are shifted out, since it is a multiple of `2 ^ 11`.
  have hsmall : ∀ k < 53, (shiftWait k).toInt = min (15 * 60 * nanos * 2 ^ k) day := by
    decide +kernel
  rcases lt_or_ge k 53 with hk | hk
  · exact hsmall k hk
  · obtain ⟨j, rfl⟩ := Nat.exists_eq_add_of_le hk
    have hzero : shiftLeft64 managedSaveBackoffBase (53 + j) = 0 := by
      have hbase : managedSaveBackoffBase.toInt = 2 ^ 11 * 439453125 := by decide
      have hsplit : managedSaveBackoffBase.toInt * 2 ^ (53 + j) =
          2 ^ 64 * (439453125 * 2 ^ j) := by
        rw [hbase, pow_add]
        ring
      rw [← Int64.toInt_inj, shiftLeft64, Int64.toInt_ofInt, hsplit]
      exact Int.mul_bmod_right (2 ^ 64) _
    have hpow : (1 : ℤ) ≤ 2 ^ j := one_le_pow₀ (by decide)
    rw [shiftWait, hzero, if_pos (Or.inr (by decide)), min_eq_right]
    · decide
    · rw [pow_add]
      unfold day nanos
      omega

theorem pause_of_nine_le {n : ℕ} (h : 9 ≤ n) : pause n = day := by
  have hpow : (2 : ℤ) ^ 7 ≤ 2 ^ (n - 2) := pow_le_pow_right₀ (by decide) (by omega)
  rw [pause, if_neg (by omega), min_eq_right]
  unfold day nanos
  omega

theorem pause_nonneg (n : ℕ) : 0 ≤ pause n := by
  unfold pause day nanos
  split
  · exact le_rfl
  · positivity

/-! ### The counters count -/

/-- What the counters say of an entry that has met these refusals in a row. -/
def summary : List Instant → Option ManagedSaveFailure
  | [] => none
  | t :: ts => some { count := Int64.ofNat (ts.length + 1), last := t }

/-- The latest refusal is not in the future, and all but nine of them have taken a day each. -/
def Paced (now : ℤ) : List Instant → Prop
  | [] => True
  | t :: ts => t.ns ≤ now ∧ (ts.length + 1) * day ≤ 9 * day + (t.ns + 2 ^ 63 * nanos)

/-- At the instant `now`, the counters say of entry `i` that it has met these refusals in a row. -/
structure Tracks (b : ManagedSaveBackoff) (i : Fin c.entries.length) (ts : List Instant)
    (now : ℤ) : Prop where
  counted : b.lookup (c.spec i).subject = summary ts
  paced : Paced now ts

variable {ca : CA} {b : ManagedSaveBackoff} {i : Fin c.entries.length} {p : Pass c} {now : ℤ}
  {t : Instant} {ts : List Instant} {ps : List (Pass c)}

/-- There are not enough days for more refusals than this. -/
theorem Paced.length_lt (h : Paced now (t :: ts)) : ts.length + 1 < 2 ^ 62 := by
  have hlatest := t.latest
  have hdays := h.2
  unfold day nanos at *
  omega

/-- **While the pause lasts, the pass is withheld.** -/
theorem pause_le_of_skip_eq_none (hpaced : Paced now (t :: ts))
    (hcounted : b.lookup (c.spec i).subject = summary (t :: ts)) {u : Instant}
    (hnow : now ≤ u.ns)
    (hskip : skipForSaveBackoff b (c.spec i).subject u = none) :
    t.ns + pause (ts.length + 1) ≤ u.ns := by
  have hlt := hpaced.length_lt
  have hle : t.ns ≤ u.ns := hpaced.1.trans hnow
  have hcount : (Int64.ofNat (ts.length + 1)).toInt = (ts.length + 1 : ℕ) :=
    Int64.toInt_ofNat_of_lt (by omega)
  simp only [skipForSaveBackoff, hcounted, summary, Int64.le_iff_toInt_le, hcount] at hskip
  split at hskip
  · next hone =>
    have hone' : ts.length + 1 < 2 := by
      simp only [Int64.toInt_one] at hone
      omega
    rw [pause, if_pos hone', add_zero]
    exact hle
  · next hmany =>
    simp only [Int64.toInt_one] at hmany
    have hshift : (Int64.ofNat (ts.length + 1) - 2).toInt.toNat = ts.length + 1 - 2 := by
      rw [Int64.toInt_sub, hcount]
      have htwo : (2 : Int64).toInt = 2 := rfl
      rw [htwo, Int.bmod_eq_of_le (by omega) (by omega)]
      omega
    have hsub := toInt_timeSub u.ns t.ns
    have hwait := toInt_shiftWait (ts.length + 1 - 2)
    have hpause : pause (ts.length + 1) = min (15 * 60 * nanos * 2 ^ (ts.length + 1 - 2)) day :=
      if_neg (by omega)
    have hday : day = 86400000000000 := by decide
    have hpos := pause_nonneg (ts.length + 1)
    rw [← hpause] at hwait
    have hcap : pause (ts.length + 1) ≤ day := hpause ▸ min_le_right _ _
    rw [hshift] at hskip
    by_contra hlt'
    have hremaining : 0 < shiftWait (ts.length + 1 - 2) - timeSub u.ns t.ns := by
      rw [Int64.lt_iff_toInt_lt, Int64.toInt_sub, hwait, hsub, Int64.toInt_zero,
        Int.bmod_eq_of_le (by omega) (by omega)]
      omega
    rw [if_pos hremaining] at hskip
    cases hskip

/-- What has just been counted is what is there to count. -/
theorem lookup_recordSaveOutcome_refused (subject : Text)
    (h : b.lookup subject = summary ts) :
    (recordSaveOutcome b subject t true).lookup subject = summary (t :: ts) := by
  rw [recordSaveOutcome, if_neg (by decide), AList.lookup_insert, h]
  cases ts with
  | nil => rfl
  | cons v vs => simp [summary, Int64.ofNat_add]

theorem lookup_recordSaveOutcome_ne {subject other : Text} (hne : other ≠ subject) (failed : Bool) :
    (recordSaveOutcome b subject t failed).lookup other = b.lookup other := by
  cases failed with
  | false => exact AList.lookup_erase_ne hne
  | true => exact AList.lookup_insert_ne hne

/-- No two entries share a counter. -/
theorem ManagedCerts.subject_injective (c : ManagedCerts) :
    Function.Injective fun i => (c.spec i).subject := by
  intro i j heq
  have hlen : (c.entries.map CertSpec.subject).length = c.entries.length := List.length_map _
  have hget : (c.entries.map CertSpec.subject).get (i.cast hlen.symm) =
      (c.entries.map CertSpec.subject).get (j.cast hlen.symm) := by
    simpa [ManagedCerts.spec] using heq
  have := List.nodup_iff_injective_get.mp c.distinct hget
  simpa [Fin.ext_iff] using this

/-! ### One pass -/

/-- A certificate is issued only if the pass is not withheld. -/
theorem outcome_of_issues (h : (p.outcome ca b).issues) :
    skipForSaveBackoff b (c.spec p.entry).subject p.now = none ∧ p.outcome ca b = p.attempt := by
  unfold Pass.outcome at h ⊢
  split at h
  · cases h
  · cases h
  · split at h
    · cases h
    · next hskip => exact ⟨hskip, rfl⟩

/-- **After its last refusal, an entry gets nothing until the pause is over.** -/
theorem Tracks.pause_le (h : Tracks b p.entry (t :: ts) now) (hnow : now ≤ p.now.ns)
    (hissues : (p.outcome ca b).issues) : t.ns + pause (ts.length + 1) ≤ p.now.ns :=
  pause_le_of_skip_eq_none h.paced h.counted hnow (outcome_of_issues hissues).1

/-- Another refusal is in step with those before it. -/
theorem Paced.refused (h : Paced now ts) (hle : p.now.ns ≤ p.answered.ns)
    (hpause : ∀ t us, ts = t :: us → t.ns + pause (us.length + 1) ≤ p.now.ns) :
    Paced p.answered.ns (p.answered :: ts) := by
  refine ⟨le_rfl, ?_⟩
  have hearliest := p.answered.earliest
  have hday : day = 86400000000000 := by decide
  rw [hday]
  unfold nanos at *
  cases ts with
  | nil =>
    simp only [List.length_nil]
    omega
  | cons t us =>
    have hdays : (us.length + 1) * day ≤ 9 * day + (t.ns + 2 ^ 63 * nanos) := h.2
    have hwaited := hpause t us rfl
    rw [hday] at hdays
    unfold nanos at hdays
    simp only [List.length_cons]
    push_cast
    -- Below nine refusals there is nothing to show, from there on the pause is a day.
    rcases lt_or_ge us.length 8 with hfew | hmany
    · omega
    · rw [pause_of_nine_le (by omega), hday] at hwaited
      omega

theorem Paced.mono {now' : ℤ} (h : Paced now ts) (hle : now ≤ now') : Paced now' ts := by
  cases ts with
  | nil => trivial
  | cons t us => exact ⟨h.1.trans hle, h.2⟩

/-- A pass over another entry leaves the counter alone. -/
theorem lookup_after_of_ne (hne : p.entry ≠ i) :
    (p.after ca b).lookup (c.spec i).subject = b.lookup (c.spec i).subject := by
  have hsubject : (c.spec i).subject ≠ (c.spec p.entry).subject :=
    fun heq => hne (c.subject_injective heq).symm
  unfold Pass.after Pass.record
  split
  · exact lookup_recordSaveOutcome_ne hsubject true
  · exact lookup_recordSaveOutcome_ne hsubject false
  · rfl

/-- **A pass keeps the counters in step with the refusals.** -/
theorem Tracks.after (h : Tracks b i ts now) (hnow : now ≤ p.now.ns)
    (hle : p.now.ns ≤ p.answered.ns) :
    Tracks (p.after ca b) i (moreRefusals i ts (p, p.outcome ca b)) p.answered.ns := by
  have hpaced : Paced p.answered.ns ts := h.paced.mono (hnow.trans hle)
  by_cases hentry : p.entry = i
  · subst hentry
    rw [moreRefusals, if_pos rfl, Pass.after]
    cases houtcome : p.outcome ca b with
    | failed | current | withheld => exact ⟨h.counted, hpaced⟩
    | refused e =>
      refine ⟨lookup_recordSaveOutcome_refused _ h.counted, h.paced.refused hle ?_⟩
      rintro t us rfl
      exact h.pause_le hnow (by rw [houtcome]; rfl)
    | issued => exact ⟨AList.lookup_erase _ _, trivial⟩
  · rw [moreRefusals, if_neg hentry]
    exact ⟨(lookup_after_of_ne hentry).trans h.counted, hpaced⟩

/-! ### Runs -/

/-- **A run keeps the counters in step with the refusals**, whatever comes after it. -/
theorem Tracks.run {qs : List (Pass c)} (h : Tracks b i ts now)
    (hchron : Chronological now (ps ++ qs)) :
    ∃ later, Tracks (afterPasses ca b ps) i ((trace ca b ps).foldl (moreRefusals i) ts) later ∧
      Chronological later qs := by
  induction ps generalizing b ts now with
  | nil => exact ⟨now, h, hchron⟩
  | cons p ps ih =>
    obtain ⟨hnow, hle, hrest⟩ := hchron
    exact ih (h.after hnow hle) hrest

/-- A replica begins with empty counters, and they stay in step. -/
theorem tracks_run (ca : CA) (i : Fin c.entries.length) {qs : List (Pass c)}
    (hchron : Chronological now (ps ++ qs)) :
    ∃ later, Tracks (afterPasses ca ∅ ps) i (refusals i (trace ca ∅ ps)) later ∧
      Chronological later qs :=
  have hempty : Tracks ∅ i [] now := ⟨AList.lookup_empty _, trivial⟩
  hempty.run hchron

/-- A pass that issues nothing for an entry leaves its refusals as they are. -/
theorem moreRefusals_of_not_issues {o : Outcome} (h : ¬(p.entry = i ∧ o.issues)) :
    moreRefusals i ts (p, o) = ts := by
  rw [moreRefusals]
  split
  · next hentry =>
    cases o with
    | failed | current | withheld => rfl
    | refused | issued => exact absurd ⟨hentry, rfl⟩ h
  · rfl

/-- Where the store refuses, whatever is issued is refused. -/
theorem moreRefusals_of_issues (hsave : p.save ≠ .ok ()) (hissues : (p.outcome ca b).issues) :
    moreRefusals p.entry ts (p, p.outcome ca b) = p.answered :: ts := by
  have hattempt := (outcome_of_issues hissues).2
  rw [hattempt] at hissues
  rw [moreRefusals, if_pos rfl, hattempt]
  unfold Pass.attempt at hissues ⊢
  cases hissuance : p.issuance with
  | error e =>
    rw [hissuance] at hissues
    cases hissues
  | ok u =>
    cases hanswer : p.save with
    | error e => rfl
    | ok u => exact absurd hanswer hsave

theorem certificates_cons (r : Pass c × Outcome) (tr : List (Pass c × Outcome)) :
    certificates i (r :: tr) =
      certificates i tr + if r.1.entry = i ∧ r.2.issues then 1 else 0 := by
  simp [certificates, List.countP_cons]

/-- **What is issued up to some instant**, by a store that refuses it all: from its last refusal
on, past the ninth in a row every certificate takes a day, and those before are counted as taking
no time at all; from any other instant `u` on, the first one may come at once. -/
theorem Tracks.certificates_add_le {u stop : ℤ} {k : ℕ} (h : Tracks b i ts now)
    (hk : (k = 0 ∧ ∀ p ∈ ps, u ≤ p.now.ns) ∨
      ∃ t rest, ts = t :: rest ∧ u = t.ns ∧ k = min (rest.length + 1) 9)
    (hchron : Chronological now ps) (hrefuses : ∀ p ∈ ps, p.entry = i → p.save ≠ .ok ())
    (hstop : ∀ p ∈ ps, p.answered.ns ≤ stop) (hle : u ≤ stop) :
    (certificates i (trace ca b ps) : ℤ) + k ≤ 9 + (stop - u) / day := by
  have hday : day = 86400000000000 := by decide
  induction ps generalizing b ts now u k with
  | nil =>
    have hfew : k ≤ 9 := by
      obtain ⟨rfl, -⟩ | ⟨t, rest, -, -, rfl⟩ := hk
      · omega
      · exact min_le_right _ _
    simp only [trace, certificates, List.countP_nil, hday]
    omega
  | cons p ps ih =>
    obtain ⟨hnow, hanswered, hrest⟩ := hchron
    have hnext : Tracks (p.after ca b) i _ p.answered.ns := h.after hnow hanswered
    have hrefuses' : ∀ q ∈ ps, q.entry = i → q.save ≠ .ok () :=
      fun q hq => hrefuses q (List.mem_cons_of_mem _ hq)
    have hstop' : ∀ q ∈ ps, q.answered.ns ≤ stop := fun q hq => hstop q (List.mem_cons_of_mem _ hq)
    rw [trace, certificates_cons]
    by_cases hissues : p.entry = i ∧ (p.outcome ca b).issues
    · obtain ⟨rfl, hissues⟩ := hissues
      have hstopped := hstop p List.mem_cons_self
      rw [moreRefusals_of_issues (hrefuses p List.mem_cons_self rfl) hissues] at hnext
      have hmore := ih hnext (Or.inr ⟨_, _, rfl, rfl, rfl⟩) hrest hrefuses' hstop' hstopped
      rw [if_pos ⟨rfl, hissues⟩]
      simp only [hday] at hmore ⊢
      push_cast at hmore ⊢
      obtain ⟨rfl, hu⟩ | ⟨t, rest, rfl, rfl, rfl⟩ := hk
      · have := hu p List.mem_cons_self
        omega
      · have hwaited := h.pause_le hnow hissues
        rw [List.length_cons] at hmore
        -- Up to the ninth refusal the certificate counts as free, after it the pause was a day.
        rcases lt_or_ge rest.length 8 with hfew | hmany
        · have := pause_nonneg (rest.length + 1)
          omega
        · rw [pause_of_nine_le (by omega), hday] at hwaited
          omega
    · rw [moreRefusals_of_not_issues hissues] at hnext
      rw [if_neg hissues]
      refine ih hnext (hk.imp_left fun hu => ⟨hu.1, ?_⟩) hrest hrefuses' hstop' hle
      exact fun q hq => hu.2 q (List.mem_cons_of_mem _ hq)

/-- **A broken store costs a bounded number of certificates.** On a replica that begins with no
counters and goes through passes in any order, over any entries, at times that do not decrease:

* after the `n`-th refusal in a row, for `n` from two on, the next certificate for the entry is not
  issued before `min (15 minutes * 2 ^ (n - 2)) (24 hours)` have gone by;
* while its store refuses everything, an entry is issued at most nine certificates and one more for
  each day;
* once its store has taken one, the next certificate that is due is issued in the pass that finds
  it so. -/
theorem broken_store_bounded (ca : CA) (c : ManagedCerts) (i : Fin c.entries.length) (begun : ℤ)
    (earlier : List (Pass c)) :
    (∀ p t ts, Chronological begun (earlier ++ [p]) → p.entry = i →
        refusals i (trace ca ∅ earlier) = t :: ts → 2 ≤ (t :: ts).length →
        (p.outcome ca (afterPasses ca ∅ earlier)).issues →
        t.ns + min (15 * 60 * nanos * 2 ^ ((t :: ts).length - 2)) day ≤ p.now.ns) ∧
      (∀ ps start length, Chronological begun (earlier ++ ps) →
        (∀ p ∈ ps, p.entry = i → p.save ≠ .ok ()) → 0 ≤ length →
        (∀ p ∈ ps, start ≤ p.now.ns ∧ p.answered.ns ≤ start + length) →
        (certificates i (trace ca (afterPasses ca ∅ earlier) ps) : ℤ) ≤ 9 + length / day) ∧
      (∀ p, Chronological begun (earlier ++ [p]) → p.entry = i →
        refusals i (trace ca ∅ earlier) = [] → p.due ca = .ok true →
        p.outcome ca (afterPasses ca ∅ earlier) = p.attempt) := by
  refine ⟨?_, ?_, ?_⟩
  · rintro p t ts hchron rfl hrefusals htwo hissues
    obtain ⟨later, htracks, hlater⟩ := tracks_run ca p.entry hchron
    rw [hrefusals] at htracks
    have hpause := htracks.pause_le hlater.1 hissues
    have hlong : ¬ts.length + 1 < 2 := Nat.not_lt.mpr htwo
    rwa [pause, if_neg hlong] at hpause
  · intro ps start length hchron hrefuses hlength hwithin
    obtain ⟨later, htracks, hlater⟩ := tracks_run ca i hchron
    have hle : (certificates i (trace ca (afterPasses ca ∅ earlier) ps) : ℤ) + (0 : ℕ) ≤ _ :=
      htracks.certificates_add_le (Or.inl ⟨rfl, fun p hp => (hwithin p hp).1⟩) hlater hrefuses
        (fun p hp => (hwithin p hp).2) (by omega)
    rwa [Nat.cast_zero, add_zero, add_sub_cancel_left] at hle
  · rintro p hchron rfl hrefusals hdue
    obtain ⟨later, htracks, -⟩ := tracks_run ca p.entry hchron
    rw [hrefusals] at htracks
    rw [Pass.outcome, hdue, skipForSaveBackoff, htracks.counted]
    rfl

/-- What a pass comes to, and what it leaves of its entry, depends on its entry alone. -/
theorem after_congr {b' : ManagedSaveBackoff}
    (h : b.lookup (c.spec p.entry).subject = b'.lookup (c.spec p.entry).subject) :
    p.outcome ca b = p.outcome ca b' ∧ (p.after ca b).lookup (c.spec p.entry).subject =
      (p.after ca b').lookup (c.spec p.entry).subject := by
  have houtcome : p.outcome ca b = p.outcome ca b' := by
    simp only [Pass.outcome, skipForSaveBackoff, h]
  refine ⟨houtcome, ?_⟩
  rw [Pass.after, Pass.after, houtcome]
  cases p.outcome ca b' <;> simp [Pass.record, recordSaveOutcome, h]

/-- **A broken store holds up no other entry.** However the passes over the entries follow on each
other, those over one entry come to what they would come to if there were no others. -/
theorem trace_alone (ca : CA) (b : ManagedSaveBackoff) (i : Fin c.entries.length)
    (ps : List (Pass c)) : (trace ca b ps).filter (fun r => r.1.entry = i) =
      trace ca b (ps.filter fun p => p.entry = i) := by
  suffices h : ∀ b', b.lookup (c.spec i).subject = b'.lookup (c.spec i).subject →
      (trace ca b ps).filter (fun r => r.1.entry = i) =
        trace ca b' (ps.filter fun p => p.entry = i) from h b rfl
  induction ps generalizing b with
  | nil => exact fun _ _ => rfl
  | cons p ps ih =>
    intro b' h
    rcases eq_or_ne p.entry i with rfl | hne
    · have hcongr : p.outcome ca b = p.outcome ca b' ∧ _ := after_congr h
      simp [trace, hcongr.1, ih _ _ hcongr.2]
    · simp [trace, hne, ih _ b' ((lookup_after_of_ne hne).trans h)]

end Passes

/-! ### Two refusals and a third -/

/-- A certificate for `n`, with the name `n`. -/
def sampleCerts : ManagedCerts where
  entries := [{ subject := ['n'], sans := { dnsNames := [['n']] }, renewBefore := 1 }]
  distinct := by decide

abbrev sampleEntry : Fin sampleCerts.entries.length := ⟨0, by decide⟩

/-- A CA of which nothing matters here. -/
def sampleCA : CA where
  caCert :=
    { serialNumber := 1
      subject := { commonName := ['c', 'a'] }
      notAfter := 100
      publicKey := { id := 0 }
      signedBy := { id := 0 } }

/-- So many minutes after the epoch. -/
def sampleInstant (minutes : Fin 1000) : Instant where
  ns := minutes * (60 * nanos)
  earliest := by unfold nanos; omega
  latest := by unfold nanos; omega

/-- A pass that finds the store empty, and has its certificate refused. -/
def samplePass (minutes : Fin 1000) : Pass sampleCerts where
  entry := sampleEntry
  now := sampleInstant minutes
  save := .error .storage
  answered := sampleInstant minutes

/-- The store refuses at once and again at once, and then has to be left alone for a quarter of an
hour. -/
theorem broken_store_bounded_sample :
    (sampleInstant 0).ns + min (15 * 60 * nanos * 2 ^ 0) day ≤ (sampleInstant 15).ns ∧
      (certificates sampleEntry (trace sampleCA ∅
        [samplePass 0, samplePass 0, samplePass 1, samplePass 15]) : ℤ) ≤
          9 + 15 * 60 * nanos / day ∧
      (samplePass 0).outcome sampleCA ∅ = .refused .storage := by
  have hrefusals : refusals sampleEntry (trace sampleCA ∅ [samplePass 0, samplePass 0]) =
      [sampleInstant 0, sampleInstant 0] := rfl
  have hafter := broken_store_bounded sampleCA sampleCerts sampleEntry 0
    [samplePass 0, samplePass 0]
  have hfresh := broken_store_bounded sampleCA sampleCerts sampleEntry 0 []
  have hpause := hafter.1 (samplePass 15) _ _
    ⟨by decide, by decide, by decide, by decide, by decide, by decide, trivial⟩ rfl hrefusals
    (by decide) (by decide +kernel)
  refine ⟨hpause,
    hfresh.2.1 _ 0 (15 * 60 * nanos) ?_ ?_ (by decide) ?_,
    hfresh.2.2 (samplePass 0) ⟨le_rfl, le_rfl, trivial⟩ rfl rfl rfl⟩
  · exact ⟨by decide, by decide, by decide, by decide, by decide, by decide, by decide, by decide,
      trivial⟩
  · simp [samplePass]
  · simp only [List.mem_cons, List.not_mem_nil, or_false, forall_eq_or_imp, forall_eq]
    decide

/-- **What is signed for an entry is left alone for half of its life**: it bears what the entry asks
for, and it is not to be renewed before. -/
theorem issueDecision_fresh {ca : CA} (hca : ca.caCert.maySignCertificates = true) {spec : CertSpec}
    {key : PublicKey} {now : Time} {leaf : Certificate} (serial signature : ℕ) (issued : Time)
    (hleaf : leaf = { ca.leafTemplate { commonName := spec.subject } key spec.sans []
      spec.extKeyUsage spec.ttl serial issued with signature := signature })
    (hnow : issued ≤ now) (hhalf : 2 * (now - issued) < leaf.notAfter - issued) :
    issueDecision { certificate := some { parsed := some leaf }, key := .key key } spec ca.caCert
      ca.backdate now false = (false, .current, some leaf) := by
  have hlife : leaf.notAfter - leaf.notBefore - ca.backdate = leaf.notAfter - issued := by
    rw [hleaf, CA.leafTemplate]
    ring
  have harith : ∀ a i n r : ℤ, i ≤ n → 2 * (n - i) < a - i →
      ¬a - i ≤ 0 ∧ n < a - min r ((a - i) / 2) := by omega
  obtain ⟨hlives, hbefore⟩ := harith _ _ _ spec.renewBefore hnow hhalf
  have hwindow : now < leaf.notAfter - renewWindowFor leaf spec ca.backdate := by
    rwa [renewWindowFor, hlife, if_neg hlives]
  have hbears : certSignedBy ca.caCert leaf = true ∧ leafCarriesNames leaf spec = true ∧
      leafCarriesUsages leaf spec = true ∧ leaf.publicKey = key := by
    simp [hleaf, certSignedBy, leafCarriesNames, leafCarriesUsages, hca, CA.leafTemplate]
  simp [issueDecision, hbears, hwindow]

def signingCA : CA where
  caCert := { sampleCA.caCert with maySignCertificates := true }

theorem issueDecision_fresh_sample : ∃ leaf, issueDecision
    { certificate := some { parsed := some leaf }, key := .key { id := 3 } }
    (sampleCerts.spec sampleEntry) signingCA.caCert 300 40 false = (false, .current, some leaf) :=
  ⟨_, issueDecision_fresh (show signingCA.caCert.maySignCertificates = true from rfl) 5 0 0 rfl
    (by decide) (by decide)⟩

end OpenvoxCa.Ca.Backoff
