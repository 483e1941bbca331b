import OpenvoxCa.Ca.Serial
import OpenvoxCa.Data.Assoc
import Mathlib.Data.List.Induction

/-!
# The request limiter

`PUT /certificate_request` needs no authentication, and a limiter stands in front of it: each
address has a window that begins with a request, lasts for a fixed time and lets a fixed number of
requests through. The next request after it has run out begins the next one. Windows that have run
out are not looked for, except where the map of them is full; then all of them are dropped.

What an address is allowed depends on its own requests only. A window that was dropped had run out
anyway, so the limiter decides as one would that never drops any (`map_time_served`),
and the bound on the rate is a matter of one sequence of times (`count_admitted_le`):
of the windows of one address no three meet an interval that is as long as a window.

The map is another matter. Dropping what has run out makes room only where something has, and the
new window is entered either way. So the number of addresses stays within its bound exactly as long
as there is always one less whose window is running (`limits_iff`).
-/

namespace OpenvoxCa.Api.RateLimit

open Data

/-! ### The limiter -/

/-- `rlEntry`: a window. -/
structure Entry where
  start : ℤ
  count : ℕ
  deriving DecidableEq

/-- `ipRateLimiter`, without the map. Times and durations are in nanoseconds. -/
structure Limits where
  window : ℤ
  maxReqs : ℕ

def maxRateLimitEntries : ℕ := 100000

/-- The map of the limiter. -/
abbrev Entries := Assoc Text Entry

variable (l : Limits)

/-- The window has run out. -/
def expired (now : ℤ) (e : Entry) : Bool := l.window ≤ now - e.start

def evictExpired (now : ℤ) (m : Entries) : Entries := m.retain fun e => !expired l now e

def restart (ip : Text) (now : ℤ) (m : Entries) : Entries :=
  (if maxRateLimitEntries ≤ m.size then evictExpired l now m else m).insert ip ⟨now, 1⟩

def allow (ip : Text) (now : ℤ) (m : Entries) : Bool × Entries :=
  match m.lookup ip with
  | none => (true, restart l ip now m)
  | some e =>
    if expired l now e then (true, restart l ip now m)
    else if l.maxReqs ≤ e.count then (false, m)
    else (true, m.insert ip { e with count := e.count + 1 })

/-- A request: who sends it, and when. -/
structure Request where
  ip : Text
  time : ℤ

/-- The map after some requests. -/
def after (m : Entries) (reqs : List Request) : Entries :=
  reqs.foldl (fun m r => (allow l r.ip r.time m).2) m

/-- The requests that are allowed. -/
def served : Entries → List Request → List Request
  | _, [] => []
  | m, r :: reqs =>
    let (ok, m') := allow l r.ip r.time m
    if ok then r :: served m' reqs else served m' reqs

/-! ### One address -/

/-- What becomes of the window of one address, and whether its request is allowed. -/
def serve (now : ℤ) : Option Entry → Bool × Entry
  | none => (true, ⟨now, 1⟩)
  | some e =>
    if expired l now e then (true, ⟨now, 1⟩)
    else if l.maxReqs ≤ e.count then (false, e)
    else (true, { e with count := e.count + 1 })

/-- The times of the requests of one address that are allowed. -/
def admitted : Option Entry → List ℤ → List ℤ
  | _, [] => []
  | e, t :: ts =>
    let (ok, e') := serve l t e
    if ok then t :: admitted (some e') ts else admitted (some e') ts

variable {l}

/-- How much more is let through from `a` to the end of one window's length: nothing of a window
that begins after that, what is left of a window that begins in between, and one window more where
another one may follow. -/
def quota (l : Limits) (a : ℤ) : Option Entry → ℕ
  | none => 2 * l.maxReqs
  | some e =>
    if a + l.window < e.start then 0
    else if a < e.start then l.maxReqs - e.count
    else if a - l.window < e.start then l.maxReqs - e.count + l.maxReqs
    else 2 * l.maxReqs

/-- **One request uses up what is left.** -/
theorem quota_serve (hw : 0 < l.window) (hl : 1 ≤ l.maxReqs) (a : ℤ) {t : ℤ} {e : Option Entry}
    (ht : ∀ e' ∈ e, e'.start ≤ t) :
    (if (serve l t e).1 = true ∧ a ≤ t ∧ t ≤ a + l.window then 1 else 0) +
      quota l a (some (serve l t e).2) ≤ quota l a e := by
  cases e with
  | none =>
    simp only [serve, true_and]
    simp only [quota]
    split_ifs <;> omega
  | some e =>
    have hstart := ht e rfl
    by_cases hexp : expired l t e = true
    · have hover : l.window ≤ t - e.start := by simpa [expired] using hexp
      simp only [serve, hexp, if_true, quota, true_and]
      split_ifs <;> omega
    · have hrunning : t - e.start < l.window := by simpa [expired] using hexp
      by_cases hfull : l.maxReqs ≤ e.count
      · simp [serve, hexp, hfull]
      · simp only [serve, hexp, hfull, if_false, quota, true_and, Bool.false_eq_true]
        split_ifs <;> omega

theorem serve_start_le {t : ℤ} {e : Option Entry} (ht : ∀ e' ∈ e, e'.start ≤ t) :
    (serve l t e).2.start ≤ t := by
  unfold serve
  split
  · exact le_rfl
  · next e => split_ifs <;> first | exact le_rfl | exact ht e rfl

/-- **The bound on the rate**, of one sequence of times. -/
theorem count_admitted_le (hw : 0 < l.window) (hl : 1 ≤ l.maxReqs) (a : ℤ) {ts : List ℤ}
    (hts : ts.Pairwise (· ≤ ·)) {e : Option Entry} (he : ∀ e' ∈ e, ∀ t ∈ ts, e'.start ≤ t) :
    (admitted l e ts).countP (fun t => a ≤ t ∧ t ≤ a + l.window) ≤ quota l a e := by
  induction ts generalizing e with
  | nil => simp [admitted]
  | cons t ts ih =>
    obtain ⟨hhead, hts⟩ := List.pairwise_cons.mp hts
    have ht : ∀ e' ∈ e, e'.start ≤ t := fun e' he' => he e' he' t List.mem_cons_self
    have hstep := quota_serve hw hl a ht
    have hrest := ih hts (e := some (serve l t e).2) fun e' he' u hu => by
      cases he'
      exact (serve_start_le ht).trans (hhead u hu)
    simp only [admitted]
    cases hok : (serve l t e).1 with
    | false =>
      simp only [hok, Bool.false_eq_true, false_and, if_false, zero_add] at hstep ⊢
      exact hrest.trans hstep
    | true =>
      simp only [hok, true_and, if_true] at hstep ⊢
      simp only [List.countP_cons, decide_eq_true_eq]
      omega

/-! ### Every address for itself -/

theorem allow_eq (ip : Text) (now : ℤ) (m : Entries) :
    (allow l ip now m).1 = (serve l now (m.lookup ip)).1 ∧
      (allow l ip now m).2.lookup ip = some (serve l now (m.lookup ip)).2 := by
  unfold allow serve
  cases h : m.lookup ip with
  | none => exact ⟨rfl, AList.lookup_insert _⟩
  | some e =>
    dsimp only
    split_ifs
    · exact ⟨rfl, AList.lookup_insert _⟩
    · exact ⟨rfl, h⟩
    · exact ⟨rfl, AList.lookup_insert _⟩

/-- The window of an address, unless it has run out. -/
def live (l : Limits) (now : ℤ) (e : Option Entry) : Option Entry :=
  e.filter fun e => !expired l now e

/-- A window that has run out is as good as none. -/
theorem serve_live (now : ℤ) (e : Option Entry) : serve l now (live l now e) = serve l now e := by
  cases e with
  | none => rfl
  | some e => cases he : expired l now e <;> simp [live, Option.filter_some, serve, he]

theorem live_live {now t : ℤ} (h : now ≤ t) (e : Option Entry) :
    live l t (live l now e) = live l t e := by
  cases e with
  | none => rfl
  | some e =>
    cases he : expired l now e with
    | false => simp [live, Option.filter_some, he]
    | true =>
      have hlater : expired l t e = true := by
        simp only [expired, decide_eq_true_eq] at he ⊢
        omega
      simp [live, Option.filter_some, he, hlater]

/-- What happens to the window of another address: nothing, unless it has run out. -/
theorem lookup_allow_ne {ip ip' : Text} (hne : ip' ≠ ip) (now : ℤ) (m : Entries) :
    (allow l ip now m).2.lookup ip' = m.lookup ip' ∨
      (allow l ip now m).2.lookup ip' = live l now (m.lookup ip') := by
  have hbegin : (restart l ip now m).lookup ip' = m.lookup ip' ∨
      (restart l ip now m).lookup ip' = live l now (m.lookup ip') := by
    rw [restart, AList.lookup_insert_ne hne]
    split
    · exact Or.inr (Assoc.lookup_retain ..)
    · exact Or.inl rfl
  unfold allow
  cases m.lookup ip with
  | none => exact hbegin
  | some e =>
    dsimp only
    split_ifs
    · exact hbegin
    · exact Or.inl rfl
    · exact Or.inl (AList.lookup_insert_ne hne)

variable {reqs : List Request}

/-- **An address is allowed what its own requests are.** -/
theorem map_time_served (ip : Text) {m : Entries} {now : ℤ} {actual : Option Entry}
    (hsorted : reqs.Pairwise fun r r' => r.time ≤ r'.time) (hnow : ∀ r ∈ reqs, now ≤ r.time)
    (h : live l now (m.lookup ip) = live l now actual) :
    ((served l m reqs).filter fun r => r.ip = ip).map Request.time =
      admitted l actual ((reqs.filter fun r => r.ip = ip).map Request.time) := by
  induction reqs generalizing m now actual with
  | nil => rfl
  | cons r reqs ih =>
    obtain ⟨hhead, hsorted⟩ := List.pairwise_cons.mp hsorted
    have h : live l r.time (m.lookup ip) = live l r.time actual := by
      have hr := hnow r List.mem_cons_self
      rw [← live_live hr, h, live_live hr]
    obtain ⟨hok, hlookup⟩ := allow_eq (l := l) r.ip r.time m
    simp only [served]
    by_cases hip : r.ip = ip
    · subst hip
      rw [← serve_live, h, serve_live] at hok hlookup
      have := ih hsorted hhead (congrArg (live l r.time) hlookup)
      simp only [hok, List.filter_cons, decide_true, if_true, List.map_cons, admitted]
      split
      · simpa using this
      · exact this
    · have hlive : live l r.time ((allow l r.ip r.time m).2.lookup ip) = live l r.time actual := by
        obtain heq | heq := lookup_allow_ne (l := l) (Ne.symm hip) r.time m
        · rw [heq, h]
        · rw [heq, live_live le_rfl, h]
      have := ih hsorted hhead hlive
      simp only [List.filter_cons, hip, decide_false, Bool.false_eq_true, if_false]
      split
      · simpa [List.filter_cons, hip] using this
      · exact this

/-! ### The number of addresses -/

/-- How many windows are still running. -/
def running (l : Limits) (now : ℤ) (m : Entries) : ℕ := m.entries.countP fun b => !expired l now b.2

/-- **The request fits in**: its address has a window already, or there is room for one more beside
those that are running. -/
def Fits (l : Limits) (m : Entries) (r : Request) : Prop :=
  (m.lookup r.ip).isSome = true ∨ running l r.time m < maxRateLimitEntries

variable {m : Entries} {r : Request} {ip : Text} {now : ℤ}

theorem size_evictExpired : (evictExpired l now m).size = running l now m :=
  (List.countP_eq_length_filter ..).symm

theorem running_le_size : running l now m ≤ m.size := List.countP_le_length

theorem size_insert_known {m : Entries} {e : Entry} (h : (m.lookup ip).isSome = true) :
    Assoc.size (m.insert ip e) = m.size := by
  rw [Assoc.size_insert, if_pos h]

/-- A new window for an address that has none. -/
theorem size_begin_of_none (h : m.lookup ip = none) : (restart l ip now m).size =
    (if maxRateLimitEntries ≤ m.size then running l now m else m.size) + 1 := by
  unfold restart
  split
  · rw [Assoc.size_insert, size_evictExpired, evictExpired, Assoc.lookup_retain, h]
    rfl
  · rw [Assoc.size_insert, h]
    rfl

/-- A new window in place of one that has run out. -/
theorem size_begin_of_expired {e : Entry} (h : m.lookup ip = some e)
    (he : expired l now e = true) : (restart l ip now m).size ≤ m.size := by
  unfold restart
  split
  · have hlt : running l now m < m.size := by
      refine lt_of_le_of_ne running_le_size fun heq => ?_
      have := List.countP_eq_length.mp heq ⟨ip, e⟩ (AList.mem_lookup_iff.mp h)
      simp [he] at this
    rw [Assoc.size_insert, size_evictExpired]
    split <;> omega
  · exact (size_insert_known (by rw [h]; rfl)).le

/-- **One request keeps the bound exactly if it fits in.** -/
theorem size_allow_le_iff (hm : m.size ≤ maxRateLimitEntries) :
    (allow l r.ip r.time m).2.size ≤ maxRateLimitEntries ↔ Fits l m r := by
  unfold allow Fits
  cases h : m.lookup r.ip with
  | none =>
    have : running l r.time m ≤ m.size := running_le_size
    rw [size_begin_of_none h]
    simp only [Option.isSome_none, Bool.false_eq_true, false_or]
    split <;> omega
  | some e =>
    have hknown : (m.lookup r.ip).isSome = true := by rw [h]; rfl
    simp only [Option.isSome_some, true_or, iff_true]
    split_ifs with hexp
    · exact (size_begin_of_expired h hexp).trans hm
    · exact hm
    · exact (size_insert_known hknown).le.trans hm

/-! ### What the limiter promises -/

theorem after_concat (reqs : List Request) (r : Request) :
    after l ∅ (reqs ++ [r]) = (allow l r.ip r.time (after l ∅ reqs)).2 := by
  simp [after]

/-- A window begins with a request of its address. -/
theorem start_of_lookup {e : Entry} (h : (after l ∅ reqs).lookup ip = some e) :
    ∃ q ∈ reqs, q.ip = ip ∧ q.time = e.start := by
  induction reqs using List.reverseRecOn generalizing e with
  | nil => simp [after] at h
  | append_singleton reqs r ih =>
    rw [after_concat] at h
    have hold : ∀ {e}, (after l ∅ reqs).lookup ip = some e →
        ∃ q ∈ reqs ++ [r], q.ip = ip ∧ q.time = e.start := fun he =>
      (ih he).imp fun q hq => ⟨List.mem_append_left _ hq.1, hq.2⟩
    rcases eq_or_ne r.ip ip with rfl | hne
    · rw [(allow_eq r.ip r.time _).2, Option.some.injEq] at h
      subst h
      unfold serve
      split
      · exact ⟨r, by simp, rfl, rfl⟩
      · next e he =>
        split_ifs
        · exact ⟨r, by simp, rfl, rfl⟩
        · exact hold he
        · exact hold (e := e) he
    · obtain heq | heq := lookup_allow_ne (l := l) hne.symm r.time (after l ∅ reqs)
      · exact hold (heq ▸ h)
      · exact hold (Option.filter_eq_some_iff.mp (heq ▸ h)).1

theorem size_allow_le : (allow l ip now m).2.size ≤ m.size + 1 := by
  unfold allow
  cases h : m.lookup ip with
  | none =>
    have : running l now m ≤ m.size := running_le_size
    rw [size_begin_of_none h]
    split <;> omega
  | some e =>
    have hknown : (m.lookup ip).isSome = true := by rw [h]; rfl
    dsimp only
    split_ifs with hexp
    · exact (size_begin_of_expired h hexp).trans (Nat.le_succ _)
    · exact Nat.le_succ _
    · exact (size_insert_known hknown).le.trans (Nat.le_succ _)

theorem size_after_le (reqs : List Request) : (after l ∅ reqs).size ≤ reqs.length := by
  induction reqs using List.reverseRecOn with
  | nil => exact Nat.zero_le _
  | append_singleton reqs r ih =>
    rw [after_concat, List.length_append]
    exact size_allow_le.trans (Nat.succ_le_succ ih)

/-- **What the limiter promises.** -/
structure Limited (l : Limits) (reqs : List Request) : Prop where
  /-- No address is allowed more than twice the limit within one window's length. -/
  rate : ∀ ip a, ((served l ∅ reqs).filter fun r => r.ip = ip).countP
    (fun r => a ≤ r.time ∧ r.time ≤ a + l.window) ≤ 2 * l.maxReqs
  /-- An address that sent nothing for a full window is allowed. -/
  silent : ∀ p r, p ++ [r] <+: reqs → (∀ q ∈ p, q.ip = r.ip → q.time + l.window ≤ r.time) →
    (allow l r.ip r.time (after l ∅ p)).1 = true
  /-- The number of addresses is bounded. -/
  tracked : ∀ p, p <+: reqs → (after l ∅ p).size ≤ maxRateLimitEntries

/-- From an empty table, an address is served as if the times of its requests were all there is. -/
theorem served_eq_admitted (hsorted : reqs.Pairwise fun r r' => r.time ≤ r'.time) (ip : Text) :
    ((served l ∅ reqs).filter fun r => r.ip = ip).map Request.time =
      admitted l none ((reqs.filter fun r => r.ip = ip).map Request.time) := by
  obtain ⟨now, hnow⟩ : ∃ now, ∀ r ∈ reqs, now ≤ r.time := by
    cases reqs with
    | nil => exact ⟨0, by simp⟩
    | cons r reqs => exact ⟨r.time, by simpa using (List.pairwise_cons.mp hsorted).1⟩
  exact map_time_served ip hsorted hnow (congrArg (live l now) (AList.lookup_empty ip))

theorem rate_le (hw : 0 < l.window) (hl : 1 ≤ l.maxReqs)
    (hsorted : reqs.Pairwise fun r r' => r.time ≤ r'.time) (ip : Text) (a : ℤ) :
    ((served l ∅ reqs).filter fun r => r.ip = ip).countP
      (fun r => a ≤ r.time ∧ r.time ≤ a + l.window) ≤ 2 * l.maxReqs := by
  have hts : ((reqs.filter fun r => r.ip = ip).map Request.time).Pairwise (· ≤ ·) :=
    List.pairwise_map.mpr (hsorted.filter _)
  have hbound := count_admitted_le hw hl a hts (e := none) (by simp)
  rw [← served_eq_admitted hsorted, List.countP_map] at hbound
  exact hbound

theorem silent_allowed (h : ∀ q ∈ reqs, q.ip = r.ip → q.time + l.window ≤ r.time) :
    (allow l r.ip r.time (after l ∅ reqs)).1 = true := by
  rw [(allow_eq r.ip r.time _).1]
  cases hlookup : (after l ∅ reqs).lookup r.ip with
  | none => rfl
  | some e =>
    obtain ⟨q, hq, hip, htime⟩ := start_of_lookup hlookup
    have := h q hq hip
    have hexp : expired l r.time e = true := by
      simp only [expired, decide_eq_true_eq]
      omega
    simp [serve, hexp]

/-- **The limiter keeps its promises exactly if every request fits in.** Of the three it is only the
last that it can break. -/
theorem limits_iff (l : Limits) (hw : 0 < l.window) (hl : 1 ≤ l.maxReqs) (reqs : List Request)
    (hsorted : reqs.Pairwise fun r r' => r.time ≤ r'.time) :
    Limited l reqs ↔ ∀ p r, p ++ [r] <+: reqs → Fits l (after l ∅ p) r := by
  constructor
  · intro h p r hp
    refine (size_allow_le_iff (h.tracked p ((List.prefix_append p [r]).trans hp))).mp ?_
    rw [← after_concat]
    exact h.tracked _ hp
  · intro h
    refine ⟨rate_le hw hl hsorted, fun p r _ => silent_allowed, fun p hp => ?_⟩
    induction p using List.reverseRecOn with
    | nil => exact Nat.zero_le _
    | append_singleton p r ih =>
      rw [after_concat]
      exact (size_allow_le_iff (ih ((List.prefix_append p [r]).trans hp))).mpr (h p r hp)

/-- Two addresses: the second request of the first one comes too early, the others after that begin
new windows. -/
def sampleRequests : List Request :=
  [⟨['a'], 0⟩, ⟨['b'], 10⟩, ⟨['a'], 20⟩, ⟨['a'], 70⟩, ⟨['b'], 75⟩]

theorem limits_iff_sample : (served ⟨60, 1⟩ ∅ sampleRequests).map Request.time = [0, 10, 70, 75] ∧
    Limited ⟨60, 1⟩ sampleRequests := by
  refine ⟨by decide, (limits_iff ⟨60, 1⟩ (by decide) (by decide) _ (by simp [sampleRequests])).mpr
    fun p r hp => Or.inr ?_⟩
  have hlen : p.length + 1 ≤ 5 := by simpa [sampleRequests] using hp.length_le
  calc running ⟨60, 1⟩ r.time (after ⟨60, 1⟩ ∅ p)
    _ ≤ (after ⟨60, 1⟩ ∅ p).size := running_le_size
    _ ≤ p.length := size_after_le p
    _ < maxRateLimitEntries := by rw [maxRateLimitEntries]; omega

/-- Addresses that all come at once are all entered. -/
theorem size_after_flood (hw : 0 < l.window) {ips : List Text} (hips : ips.Nodup) (t : ℤ) :
    (after l ∅ (ips.map (Request.mk · t))).size = ips.length := by
  induction ips using List.reverseRecOn with
  | nil => rfl
  | append_singleton ips ip ih =>
    obtain ⟨hips, -, hnew⟩ := List.nodup_append.mp hips
    rw [List.map_append, List.map_singleton, after_concat]
    generalize hm : after l ∅ (ips.map (Request.mk · t)) = m at ih ⊢
    have hnone : m.lookup ip = none := by
      refine Option.eq_none_iff_forall_ne_some.mpr fun e he => ?_
      obtain ⟨q, hq, hip, -⟩ := start_of_lookup (hm ▸ he)
      obtain ⟨ip', hip', rfl⟩ := List.mem_map.mp hq
      exact hnew ip' hip' ip (by simp) hip
    have hrunning : running l t m = m.size := by
      refine List.countP_eq_length.mpr fun b hb => ?_
      obtain ⟨q, hq, -, htime⟩ := start_of_lookup (hm ▸ AList.mem_lookup_iff.mpr hb)
      obtain ⟨ip', -, rfl⟩ := List.mem_map.mp hq
      simpa [expired, ← htime] using hw
    have hallow : (allow l ip t m).2 = restart l ip t m := by
      rw [allow, hnone]
    rw [hallow, size_begin_of_none hnone, hrunning, ite_self, ih hips, List.length_append]
    rfl

/-- **One address too many**: 100001 of them send a request each at the same time. -/
theorem flood_exceeds_bound : ¬Limited ⟨60000000000, 1⟩
    (((List.range 100001).map fun n : ℕ => serialHexStr n).map (Request.mk · 0)) := by
  intro h
  have hinj : Function.Injective fun n : ℕ => serialHexStr n := fun m n hmn => by
    simpa using hmn
  have hsize := h.tracked _ List.prefix_rfl
  rw [size_after_flood (by decide) (List.nodup_range.map hinj), List.length_map,
    List.length_range] at hsize
  exact absurd hsize (by decide)

/-! ### One address among others -/

theorem served_sublist (m : Entries) (reqs : List Request) : (served l m reqs).Sublist reqs := by
  induction reqs generalizing m with
  | nil => exact .slnil
  | cons r reqs ih =>
    simp only [served]
    split
    · exact (ih _).cons_cons r
    · exact (ih _).cons r

/-- **Addresses do not get in each other's way.** Whatever others send in between, and whenever the
table is full and swept, the requests of an address that are allowed are those that would be if it
were the only one. -/
theorem served_alone (l : Limits) {reqs : List Request}
    (hsorted : reqs.Pairwise fun r r' => r.time ≤ r'.time) (ip : Text) :
    ((served l ∅ reqs).filter fun r => r.ip = ip).map Request.time =
      (served l ∅ (reqs.filter fun r => r.ip = ip)).map Request.time := by
  have hown : ((served l ∅ (reqs.filter fun r => r.ip = ip)).filter fun r => r.ip = ip) =
      served l ∅ (reqs.filter fun r => r.ip = ip) :=
    List.filter_eq_self.mpr fun r hr => (List.mem_filter.mp ((served_sublist ∅ _).subset hr)).2
  have halone := served_eq_admitted (l := l) (hsorted.filter fun r => r.ip = ip) ip
  rw [hown, List.filter_filter] at halone
  rw [halone, served_eq_admitted hsorted]
  simp

theorem served_alone_sample :
    ((served ⟨60, 1⟩ ∅ sampleRequests).filter fun r => r.ip = ['a']).map Request.time = [0, 70] ∧
      (served ⟨60, 1⟩ ∅ (sampleRequests.filter fun r => r.ip = ['a'])).map Request.time =
        [0, 70] := by
  have hfirst : ((served ⟨60, 1⟩ ∅ sampleRequests).filter fun r => r.ip = ['a']).map Request.time =
      [0, 70] := by decide
  exact ⟨hfirst, (served_alone ⟨60, 1⟩ (by simp [sampleRequests]) ['a']).symm.trans hfirst⟩

end OpenvoxCa.Api.RateLimit
