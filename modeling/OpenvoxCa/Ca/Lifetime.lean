import OpenvoxCa.Ca.Signing

/-!
# The lifetime of a leaf, in 64 bits

`CA.leafTemplate` computes with unbounded numbers of seconds. The source counts nanoseconds in the
64 bits of a `time.Duration`, and reaches them by two multiplications that wrap around: the
`cert_ttl` of a request is multiplied by `time.Second`, the configured number of days by `24 *
time.Hour`. This file is the same computation in the source's own arithmetic, from the body of the
request to the `NotAfter` of the certificate (`grantedNotAfter`).

As long as neither product leaves the 64 bits, the two computations agree
(`leafNotAfter_eq_leafTemplate`). The products leave them beyond `9223372036` seconds and beyond
`106751` days, some 292 years either way, and nothing refuses such a number (`lifetime_exact_iff`):
what is left of the product may be negative, and then counts as no request at all or as a lifetime
that is over before it begins, or it may be positive and as short as one likes.
-/

namespace OpenvoxCa.Ca

/-! ### Instants and durations -/

/-- Nanoseconds in a second. -/
def nanos : ℤ := 1000000000

/-- `time.Second`. -/
def second64 : Int64 := 1000000000

/-- `time.Hour`. -/
def hour64 : Int64 := 3600000000000

/-- `Time.Sub`, for instants in nanoseconds: it saturates. -/
def timeSub (t u : ℤ) : Int64 :=
  if t - u < -2 ^ 63 then Int64.minValue
  else if 2 ^ 63 ≤ t - u then Int64.maxValue
  else Int64.ofInt (t - u)

/-- The instant as a certificate has it, in whole seconds. -/
def encodeTime (t : ℤ) : ℤ := t / nanos

theorem toInt_timeSub (t u : ℤ) :
    (timeSub t u).toInt = max (-2 ^ 63) (min (2 ^ 63 - 1) (t - u)) := by
  unfold timeSub
  split
  · rw [Int64.toInt_minValue]
    omega
  · split
    · rw [Int64.toInt_maxValue]
      omega
    · rw [Int64.toInt_ofInt_of_le (by omega) (by omega)]
      omega

/-- A product that fits is the product. -/
theorem toInt_mul_of_fits {a b : Int64} (hle : -2 ^ 63 ≤ a.toInt * b.toInt)
    (hlt : a.toInt * b.toInt < 2 ^ 63) : (a * b).toInt = a.toInt * b.toInt := by
  rw [Int64.toInt_mul]
  exact Int.bmod_eq_of_le (by omega) (by omega)

/-! ### From the request to the certificate -/

/-- The lifetime `handlePutStatus` asks `SignWithTTL` for; nothing, for `Sign`, is zero. -/
def putStatusTTL (certTTL : Option Int64) : Int64 :=
  match certTTL with
  | some n => if 0 < n then n * second64 else 0
  | none => 0

/-- `certValidity`. -/
def certValidity64 : Int64 := 5 * 365 * 24 * hour64

/-- The validity that `issueLeafLocked` starts from. -/
def leafValidity64 (ttl leafValidityDays : Int64) : Int64 :=
  if 0 < ttl then ttl
  else if 0 < leafValidityDays then leafValidityDays * 24 * hour64
  else certValidity64

/-- The `NotAfter` that `issueLeafLocked` gives a certificate signed at `now`, by a CA that expires
at `caNotAfter`. -/
def leafNotAfter (ttl leafValidityDays : Int64) (now caNotAfter : ℤ) :
    Except Failure ℤ :=
  let caRemaining := timeSub (caNotAfter * nanos) now
  if caRemaining ≤ 0 then .error .caExpired
  else
    let validity := leafValidity64 ttl leafValidityDays
    .ok (encodeTime (now + (if validity ≤ caRemaining then validity else caRemaining).toInt))

/-- **The `NotAfter` a signing request gets**: `handlePutStatus`, `SignWithTTL` and
`issueLeafLocked`, as far as the lifetime is concerned. -/
def grantedNotAfter (certTTL : Option Int64) (leafValidityDays : Int64) (now caNotAfter : ℤ) :
    Except Failure ℤ :=
  leafNotAfter (putStatusTTL certTTL) leafValidityDays now caNotAfter

/-- Before the CA expires, the certificate gets what the validity says, to the nanosecond, or what
is left to the CA. -/
theorem leafNotAfter_eq {ttl days : Int64} {now caNotAfter : ℤ}
    (hnow : now < caNotAfter * nanos) :
    leafNotAfter ttl days now caNotAfter =
      .ok (min ((now + (leafValidity64 ttl days).toInt) / nanos) caNotAfter) := by
  have hsub := toInt_timeSub (caNotAfter * nanos) now
  have hlt := (leafValidity64 ttl days).toInt_lt
  simp only [leafNotAfter, encodeTime, Int64.le_iff_toInt_le, Int64.toInt_zero]
  rw [if_neg (by omega)]
  congr 1
  unfold nanos at *
  -- Saturation does not matter: no validity is longer than what `Sub` can answer.
  split <;> omega

/-- A lifetime of that many seconds, to the certificate's resolution. -/
theorem encode_seconds (now n : ℤ) : (now + n * nanos) / nanos = now / nanos + n := by
  unfold nanos
  omega

/-- A requested lifetime that fits is the one granted. -/
theorem leafValidity64_of_ttl {n : Int64} (days : Int64) (hpos : 0 < n)
    (hfits : n.toInt ≤ 9223372036) :
    (leafValidity64 (putStatusTTL (some n)) days).toInt = n.toInt * nanos := by
  have hn : 0 < n.toInt := Int64.lt_iff_toInt_lt.mp hpos
  have hsecond : second64.toInt = nanos := by decide
  have hmul : (n * second64).toInt = n.toInt * nanos := by
    rw [← hsecond]
    unfold nanos at hsecond
    exact toInt_mul_of_fits (by rw [hsecond]; omega) (by rw [hsecond]; omega)
  have hmulpos : 0 < n * second64 := by
    rw [Int64.lt_iff_toInt_lt, hmul, Int64.toInt_zero]
    unfold nanos
    omega
  rw [putStatusTTL, if_pos hpos, leafValidity64, if_pos hmulpos, hmul]

/-- A number of days that fits is the one granted. -/
theorem leafValidity64_of_days {days : Int64} (hpos : 0 < days) (hfits : days.toInt ≤ 106751) :
    (leafValidity64 0 days).toInt = days.toInt * 86400 * nanos := by
  have hd : 0 < days.toInt := Int64.lt_iff_toInt_lt.mp hpos
  have hhour : hour64.toInt = 3600 * nanos := by decide
  have hday : (24 : Int64).toInt = 24 := by decide
  have hhours : (days * 24).toInt = days.toInt * 24 := by
    rw [← hday]
    exact toInt_mul_of_fits (by rw [hday]; omega) (by rw [hday]; omega)
  rw [leafValidity64, if_neg (by decide), if_pos hpos]
  unfold nanos at *
  rw [toInt_mul_of_fits (by rw [hhours, hhour]; omega) (by rw [hhours, hhour]; omega), hhours,
    hhour]
  ring

/-- **No lifetime is longer than 64 bits of nanoseconds.** A certificate signed at the epoch by a
CA that lives longer shows it. -/
theorem leafNotAfter_ne (ttl days : Int64) :
    leafNotAfter ttl days 0 9223372037 ≠ .ok 9223372037 := by
  have hlt := (leafValidity64 ttl days).toInt_lt
  rw [leafNotAfter_eq (by decide)]
  intro h
  have h := Except.ok.inj h
  unfold nanos at h
  omega

/-- **The lifetime granted is exactly the one requested, for as many seconds and days as fit into
64 bits of nanoseconds, and for no more.** A `cert_ttl` is granted exactly at every signing time,
under every CA expiry and every setting, if and only if it is at most `9223372036`; a configured
number of days, if and only if it is at most `106751`. -/
theorem lifetime_exact_iff (certTTL days : Int64) :
    (0 < certTTL →
      ((∀ days' now caNotAfter, now < caNotAfter * nanos →
        grantedNotAfter (some certTTL) days' now caNotAfter =
          .ok (min (encodeTime now + certTTL.toInt) caNotAfter)) ↔ certTTL.toInt ≤ 9223372036)) ∧
    (0 < days →
      ((∀ now caNotAfter, now < caNotAfter * nanos →
        grantedNotAfter none days now caNotAfter =
          .ok (min (encodeTime now + days.toInt * 86400) caNotAfter)) ↔ days.toInt ≤ 106751)) := by
  refine ⟨fun hn => ⟨fun h => ?_, fun h days' now caNotAfter hnow => ?_⟩,
    fun hd => ⟨fun h => ?_, fun h now caNotAfter hnow => ?_⟩⟩
  · by_contra hlong
    have hmin : min (encodeTime 0 + certTTL.toInt) 9223372037 = 9223372037 := by
      have hzero : encodeTime 0 = 0 := by decide
      omega
    exact leafNotAfter_ne _ 0 ((h 0 0 9223372037 (by decide)).trans (congrArg _ hmin))
  · rw [grantedNotAfter, leafNotAfter_eq hnow, leafValidity64_of_ttl days' hn h, encode_seconds,
      encodeTime]
  · by_contra hlong
    have hmin : min (encodeTime 0 + days.toInt * 86400) 9223372037 = 9223372037 := by
      have hzero : encodeTime 0 = 0 := by decide
      omega
    exact leafNotAfter_ne _ days ((h 0 9223372037 (by decide)).trans (congrArg _ hmin))
  · rw [grantedNotAfter, leafNotAfter_eq hnow, putStatusTTL, leafValidity64_of_days hd h,
      encode_seconds, encodeTime]

/-- **Three certificates with another lifetime.** All are signed a billion and a half seconds into
the epoch by a CA with ten years to live, and all were to live until the CA expires. The first was
asked for with a lifetime of `9223372037` seconds, and gets the default of five years; the second
with twice that, and expires in the second it is signed; the third gets the configured `106752`
days, and expired before the epoch. -/
theorem lifetime_wraps :
    (grantedNotAfter (some 9223372037) 0 1500000000000000000 1815360000 = .ok 1657680000 ∧
      min (encodeTime 1500000000000000000 + 9223372037) 1815360000 = 1815360000) ∧
    (grantedNotAfter (some 18446744074) 0 1500000000000000000 1815360000 = .ok 1500000000 ∧
      min (encodeTime 1500000000000000000 + 18446744074) 1815360000 = 1815360000) ∧
    (grantedNotAfter none 106752 1500000000000000000 1815360000 = .ok (-7723371274) ∧
      min (encodeTime 1500000000000000000 + 106752 * 86400) 1815360000 = 1815360000) := by
  refine ⟨⟨?_, ?_⟩, ⟨?_, ?_⟩, ?_, ?_⟩ <;> decide

/-- **Where nothing wraps, this is the certificate that `issueLeafLocked` has signed**, in the
second of its signing. -/
theorem leafNotAfter_eq_leafTemplate {ca : CA} {n days : Int64} {now : ℤ} {subjectName : Name}
    {pubKey : PublicKey} {sans : SubjectAltNames} {exts : List Extension} {eku : List ExtKeyUsage}
    {serial : ℕ} (hdays : days.toInt = ca.leafValidityDays) (hdaysfit : days.toInt ≤ 106751)
    (hfits : n.toInt ≤ 9223372036) (hnow : now < ca.caCert.notAfter * nanos) :
    grantedNotAfter (some n) days now ca.caCert.notAfter =
      .ok (ca.leafTemplate subjectName pubKey sans exts eku n.toInt serial
        (encodeTime now)).notAfter := by
  have hvalidity : (leafValidity64 (putStatusTTL (some n)) days).toInt =
      ca.leafValidity n.toInt * nanos := by
    by_cases hn : 0 < n
    · rw [leafValidity64_of_ttl days hn hfits, CA.leafValidity,
        if_pos (by simpa [Int64.lt_iff_toInt_lt] using hn)]
    · have hn' : ¬0 < n.toInt := by simpa [Int64.lt_iff_toInt_lt] using hn
      rw [putStatusTTL, if_neg hn, CA.leafValidity, if_neg hn']
      by_cases hd : 0 < days
      · have hd' : 0 < ca.leafValidityDays := by
          rw [Int64.lt_iff_toInt_lt, hdays] at hd
          simpa using hd
        rw [leafValidity64_of_days hd hdaysfit, if_pos hd', hdays, hour]
        ring
      · have hd' : ¬0 < ca.leafValidityDays := by
          rw [Int64.lt_iff_toInt_lt, hdays] at hd
          simpa using hd
        rw [leafValidity64, if_neg (by decide), if_neg hd, if_neg hd']
        decide
  rw [grantedNotAfter, leafNotAfter_eq hnow, hvalidity, encode_seconds, CA.leafTemplate, encodeTime,
    ← min_add_add_left, add_sub_cancel]

/-- A minute is asked for, where thirty days are the rule, within a second. -/
theorem leafNotAfter_eq_leafTemplate_sample :
    grantedNotAfter (some 60) 30 100999999999 1000 = .ok 160 := by
  let name : Name := { commonName := ['c', 'a'] }
  let ca : CA :=
    { leafValidityDays := 30
      caCert := { serialNumber := 1, subject := name, notAfter := 1000, publicKey := { id := 0 },
                  signedBy := { id := 0 } } }
  have hgranted : grantedNotAfter (some 60) 30 100999999999 ca.caCert.notAfter =
      .ok (ca.leafTemplate name { id := 1 } {} [] [] (60 : Int64).toInt 1
        (encodeTime 100999999999)).notAfter :=
    leafNotAfter_eq_leafTemplate (by decide) (by decide) (by decide) (by decide)
  rw [hgranted]
  decide

end OpenvoxCa.Ca
