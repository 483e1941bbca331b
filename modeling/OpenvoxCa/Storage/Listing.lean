import OpenvoxCa.Ca.Serial
import Mathlib.Data.List.Count
import Mathlib.Data.List.Infix

/-!
# Listing the subjects stored in Redis

`List` walks the keys of a kind with `SCAN`, page by page. What the server promises of such a walk
is little (`Scanned`): a key that is there all the time is returned at least once, and none that is
never there. The pattern it is asked for is a glob, made of the operator's key prefix with every
special character escaped, and it matches exactly the keys that begin with that prefix
(`glob_redisGlobEscape`).

Nothing between the server and the callers drops a key that comes twice. A subject is therefore
listed as often as its key is returned (`count_listSubjects`), shown as often among the requests,
and tried as often by a request to sign all (`attempts_signInBatches`): once, exactly if the walk
returns its key once and the name has no colon in it (`once_iff`).
-/

namespace OpenvoxCa.Storage.Listing

/-! ### Globs -/

def redisGlobEscape (s : Text) : Text :=
  s.flatMap fun c => if c ∈ ['*', '?', '[', ']', '\\'] then ['\\', c] else [c]

/-- One character, and then the rest. -/
def eat (p : Char → Bool) (rest : Text → Bool) : Text → Bool
  | [] => false
  | c :: s => p c && rest s

/-- **The globs of Redis.** What a character class matches, with the pattern after it, is a
parameter: no pattern here has one. -/
def glob (cls : Text → Text → Bool) : Text → Text → Bool
  | [] => fun s => s.isEmpty
  | '*' :: p => fun s => s.tails.any (glob cls p)
  | '?' :: p => eat (fun _ => true) (glob cls p)
  | '[' :: p => cls p
  | '\\' :: q :: p => eat (· == q) (glob cls p)
  | q :: p => eat (· == q) (glob cls p)

variable {cls : Text → Text → Bool}

theorem glob_star (k : Text) : glob cls ['*'] k = true := by
  simp only [glob, List.any_eq_true, List.mem_tails]
  exact ⟨[], List.nil_suffix, rfl⟩

/-- **What is escaped is matched literally.** -/
theorem glob_redisGlobEscape {p : Text} (s k : Text) :
    glob cls (redisGlobEscape s ++ p) k = true ↔ ∃ r, k = s ++ r ∧ glob cls p r = true := by
  induction s generalizing k with
  | nil => simp [redisGlobEscape]
  | cons c s ih =>
    -- Escaped or not, the character stands for itself.
    have hc : glob cls (redisGlobEscape (c :: s) ++ p) =
        eat (· == c) (glob cls (redisGlobEscape s ++ p)) := by
      rw [redisGlobEscape, List.flatMap_cons, List.append_assoc]
      split_ifs with hmem
      · rfl
      · simp only [List.mem_cons, not_or] at hmem
        simp [glob, hmem, redisGlobEscape]
    rw [hc]
    cases k with
    | nil => simp [eat]
    | cons d k =>
      simp only [eat, Bool.and_eq_true, beq_iff_eq, ih, List.cons_append, List.cons.injEq]
      constructor
      · rintro ⟨rfl, r, rfl, hr⟩
        exact ⟨r, ⟨rfl, rfl⟩, hr⟩
      · rintro ⟨r, ⟨rfl, rfl⟩, hr⟩
        exact ⟨rfl, r, rfl, hr⟩

/-! ### The walk -/

/-- What is listed: pending requests, or signed certificates. -/
inductive Kind
  | csr
  | cert
  deriving DecidableEq, Repr

/-- The part of a physical key after the operator's. -/
def Kind.subDir : Kind → Text
  | .csr => "requests:".toList
  | .cert => "signed:".toList

/-- The beginning of a logical key: `csrPrefix`, `certPrefix`. -/
def Kind.logical : Kind → Text
  | .csr => "csr/".toList
  | .cert => "cert/".toList

/-- `physPrefix`. -/
def phys (keyPrefix : Text) (kind : Kind) : Text := keyPrefix ++ ':' :: kind.subDir

/-- `strings.TrimPrefix`. -/
def trim (start s : Text) : Text := if start.isPrefixOf s then s.drop start.length else s

@[simp]
theorem trim_append (start s : Text) : trim start (start ++ s) = s := by simp [trim]

/-- The names on one page, without those of nested keys. -/
def names (keyPrefix : Text) (kind : Kind) (keys : List Text) : List Text :=
  ((keys.map (trim (phys keyPrefix kind))).filter fun name => ':' ∉ name).map (kind.logical ++ ·)

variable {ε : Type}

/-- `List`: page by page, until the cursor is zero. -/
def list (keyPrefix : Text) (kind : Kind) :
    List (Except ε (List Text × UInt64)) → List Text → Option (Except ε (List Text))
  | [], _ => none
  | .error e :: _, _ => some (.error e)
  | .ok (keys, next) :: replies, out =>
    if next = 0 then some (.ok (out ++ names keyPrefix kind keys))
    else list keyPrefix kind replies (out ++ names keyPrefix kind keys)

/-- The keys that a walk returns, in order. -/
def returned : List (Except ε (List Text × UInt64)) → List Text
  | .ok (keys, next) :: replies => keys ++ if next = 0 then [] else returned replies
  | _ => []

/-- The walk comes to its end: the cursor is zero again before any reply is an error. -/
def Completed : List (Except ε (List Text × UInt64)) → Prop
  | .ok (_, next) :: replies => next = 0 ∨ Completed replies
  | _ => False

/-- `ListCSRs`, `ListCerts`: the subjects of the listed keys. -/
def listSubjects (kind : Kind) (out : List Text) : List Text := out.map (trim kind.logical)

/-- **What a walk promises**, of the keys there all the time and of those there at some time. -/
structure Scanned (cls : Text → Text → Bool) (pattern : Text) (throughout ever : Text → Prop)
    (keys : List Text) : Prop where
  complete : ∀ k, throughout k → glob cls pattern k = true → k ∈ keys
  sound : ∀ k ∈ keys, ever k ∧ glob cls pattern k = true

variable {keyPrefix : Text} {kind : Kind} {replies : List (Except ε (List Text × UInt64))}
  {acc : List Text} {throughout ever : Text → Prop}

/-- **A listing is made of the keys that the walk returns.** -/
theorem list_eq_names (h : Completed replies) : list keyPrefix kind replies acc =
    some (.ok (acc ++ names keyPrefix kind (returned replies))) := by
  fun_induction list keyPrefix kind replies acc with
  | case1 | case2 => exact h.elim
  | case3 acc keys replies => simp [returned]
  | case4 acc keys next replies hnext ih =>
    rw [ih (h.resolve_left hnext), returned, if_neg hnext]
    simp [names]

theorem listSubjects_names (keys : List Text) : listSubjects kind (names keyPrefix kind keys) =
    (keys.map (trim (phys keyPrefix kind))).filter fun name => ':' ∉ name := by
  simp [listSubjects, names, Function.comp_def]

/-- **A subject is listed as often as its key is returned**, or never. -/
theorem count_listSubjects {keys : List Text} (h : ∀ k ∈ keys, phys keyPrefix kind <+: k)
    (n : Text) : (listSubjects kind (names keyPrefix kind keys)).count n =
      if ':' ∈ n then 0 else keys.count (phys keyPrefix kind ++ n) := by
  rw [listSubjects_names]
  split_ifs with hn
  · exact List.count_eq_zero.mpr fun hmem => by simpa [hn] using (List.mem_filter.mp hmem).2
  · rw [List.count_filter (by simpa using hn)]
    induction keys with
    | nil => rfl
    | cons k keys ih =>
      obtain ⟨m, rfl⟩ := h k List.mem_cons_self
      have ih := ih fun k' hk' => h k' (List.mem_cons_of_mem _ hk')
      simp only [List.map_cons, trim_append, List.count_cons, ih, beq_iff_eq,
        List.append_cancel_left_eq]

/-! ### What is done with a listing -/

/-- What comes of one attempt to sign. -/
inductive Attempt
  | signed
  | noCSR
  | signingError
  deriving DecidableEq, Repr

structure SignResult where
  signed : List Text := []
  noCSR : List Text := []
  signingErrors : List Text := []
  deriving DecidableEq, Repr

def SignResult.note (r : SignResult) (subject : Text) : Attempt → SignResult
  | .signed => { r with signed := r.signed ++ [subject] }
  | .noCSR => { r with noCSR := r.noCSR ++ [subject] }
  | .signingError => { r with signingErrors := r.signingErrors ++ [subject] }

def SignResult.merge (r r' : SignResult) : SignResult :=
  ⟨r.signed ++ r'.signed, r.noCSR ++ r'.noCSR, r.signingErrors ++ r'.signingErrors⟩

/-- How often a subject has been tried. -/
def SignResult.attempts (r : SignResult) (n : Text) : ℕ :=
  r.signed.count n + r.noCSR.count n + r.signingErrors.count n

variable {σ : Type} (sign : σ → Text → Attempt × σ)

/-- `SignMultiple`: what an attempt does, and how it ends, is up to the state of the CA. -/
def signMultiple : σ → List Text → SignResult → SignResult × σ
  | s, [], r => (r, s)
  | s, n :: ns, r => signMultiple (sign s n).2 ns (r.note n (sign s n).1)

/-- The loop of `signInBatches` over the batches left; it is not entered without a limit. -/
def batches (limit : ℕ) (s : σ) (subjects : List Text) (merged : SignResult) : SignResult × σ :=
  if subjects = [] ∨ limit = 0 then (merged, s)
  else
    let (batch, s') := signMultiple sign s (subjects.take limit) {}
    batches limit s' (subjects.drop limit) (merged.merge batch)
termination_by subjects.length
decreasing_by
  rename_i h
  have := List.length_pos_iff.mpr fun hnil => h (Or.inl hnil)
  rw [List.length_drop]
  omega

def signInBatches (signBatchLimit : ℤ) (s : σ) (subjects : List Text) : SignResult × σ :=
  if signBatchLimit ≤ 0 ∨ subjects.length ≤ signBatchLimit then signMultiple sign s subjects {}
  else batches sign signBatchLimit.toNat s subjects {}

/-- The requests in `handleGetStatuses`: subjects not seen among the certificates, whose request
can be read. -/
def listedRequests (getCSR : Text → Bool) (seen subjects : List Text) : List Text :=
  (subjects.filter fun n => n ∉ seen).filter getCSR

variable {sign} {n : Text}

theorem attempts_note (r : SignResult) (m : Text) (o : Attempt) :
    (r.note m o).attempts n = r.attempts n + [m].count n := by
  cases o with
  | signed | noCSR | signingError => grind [SignResult.note, SignResult.attempts]

/-- **Every subject is tried as often as it stands in the list.** -/
theorem attempts_signMultiple (s : σ) (ns : List Text) (r : SignResult) :
    (signMultiple sign s ns r).1.attempts n = r.attempts n + ns.count n := by
  induction ns generalizing s r with
  | nil => rfl
  | cons m ns ih => rw [signMultiple, ih, attempts_note, add_assoc, ← List.count_append]; rfl

theorem signMultiple_append (s : σ) (ns ms : List Text) (r : SignResult) :
    signMultiple sign s (ns ++ ms) r =
      signMultiple sign (signMultiple sign s ns r).2 ms (signMultiple sign s ns r).1 := by
  induction ns generalizing s r with
  | nil => rfl
  | cons n ns ih => exact ih _ _

theorem signMultiple_merge (s : σ) (ns : List Text) (r r' : SignResult) :
    signMultiple sign s ns (r.merge r') =
      (r.merge (signMultiple sign s ns r').1, (signMultiple sign s ns r').2) := by
  induction ns generalizing s r' with
  | nil => rfl
  | cons n ns ih =>
    have hnote : (r.merge r').note n (sign s n).1 = r.merge (r'.note n (sign s n).1) := by
      cases (sign s n).1 <;> simp [SignResult.note, SignResult.merge]
    simp only [signMultiple, hnote, ih]

theorem batches_eq {limit : ℕ} (hlimit : limit ≠ 0) (s : σ) (subjects : List Text)
    (merged : SignResult) :
    batches sign limit s subjects merged = signMultiple sign s subjects merged := by
  fun_induction batches sign limit s subjects merged with
  | case1 s subjects merged h => rw [h.resolve_right hlimit, signMultiple]
  | case2 s subjects merged h batch s' hbatch ih =>
    have hfirst : signMultiple sign s (subjects.take limit) (merged.merge {}) = _ :=
      signMultiple_merge s _ merged {}
    rw [hbatch, show merged.merge {} = merged by simp [SignResult.merge]] at hfirst
    rw [ih, ← congrArg (signMultiple sign s · merged) (List.take_append_drop limit subjects),
      signMultiple_append, hfirst]

/-- What comes of signing at once comes of signing in batches. -/
theorem signInBatches_of_signMultiple {s : σ} {subjects : List Text} (C : SignResult × σ → Prop)
    (h : C (signMultiple sign s subjects {})) (signBatchLimit : ℤ) :
    C (signInBatches sign signBatchLimit s subjects) := by
  unfold signInBatches
  split_ifs with hlimit
  · exact h
  · rwa [batches_eq (by omega)]

/-- **Signing in batches is signing at once**: whatever the limit, the merged result and the state
that is left are those of one `signMultiple` over all subjects. -/
theorem signInBatches_eq (signBatchLimit : ℤ) (s : σ) (subjects : List Text) :
    signInBatches sign signBatchLimit s subjects = signMultiple sign s subjects {} :=
  signInBatches_of_signMultiple (· = signMultiple sign s subjects {}) rfl signBatchLimit

theorem attempts_signInBatches (limit : ℤ) (s : σ) (subjects : List Text) :
    (signInBatches sign limit s subjects).1.attempts n = subjects.count n := by
  refine signInBatches_of_signMultiple (fun r => r.1.attempts n = subjects.count n) ?_ limit
  rw [attempts_signMultiple]
  exact Nat.zero_add _

/-! ### Each subject once -/

/-- The pattern that `List` asks for. -/
def pattern (keyPrefix : Text) (kind : Kind) : Text :=
  redisGlobEscape (phys keyPrefix kind) ++ ['*']

theorem glob_pattern {k : Text} :
    glob cls (pattern keyPrefix kind) k = true ↔ phys keyPrefix kind <+: k := by
  rw [pattern, glob_redisGlobEscape]
  constructor
  · rintro ⟨r, rfl, -⟩
    exact List.prefix_append _ _
  · rintro ⟨r, rfl⟩
    exact ⟨r, rfl, glob_star r⟩

/-- **Each stored subject is listed, shown and tried once**, and none is listed that is not
stored; `start` is what the keys of the kind begin with. -/
structure Once (throughout ever : Text → Prop) (start : Text) (subjects : List Text) : Prop where
  listed : ∀ n, throughout (start ++ n) → subjects.count n = 1
  stored : ∀ n ∈ subjects, ever (start ++ n)
  shown : ∀ n, throughout (start ++ n) → ∀ getCSR seen, n ∉ seen → getCSR n = true →
    (listedRequests getCSR seen subjects).count n = 1
  attempted : ∀ n, throughout (start ++ n) → ∀ (σ : Type) (sign : σ → Text → Attempt × σ) limit s,
    (signInBatches sign limit s subjects).1.attempts n = 1

/-- **A walk that comes to its end is listed, and each stored subject is listed once exactly if the
walk returns its key no more than once** and there is no colon in it. -/
theorem once_iff (hdone : Completed replies)
    (hscan : Scanned cls (pattern keyPrefix kind) throughout ever (returned replies)) :
    ∃ out, list keyPrefix kind replies [] = some (.ok out) ∧
      (Once throughout ever (phys keyPrefix kind) (listSubjects kind out) ↔
        ∀ n, throughout (phys keyPrefix kind ++ n) →
          ':' ∉ n ∧ (returned replies).count (phys keyPrefix kind ++ n) ≤ 1) := by
  have hkeys : ∀ k ∈ returned replies, phys keyPrefix kind <+: k :=
    fun k hk => glob_pattern.mp (hscan.sound k hk).2
  refine ⟨_, list_eq_names hdone, ?_⟩
  rw [List.nil_append]
  constructor
  · intro h n hn
    have hcount := h.listed n hn
    rw [count_listSubjects hkeys] at hcount
    split_ifs at hcount with hcolon
    exact ⟨hcolon, hcount.le⟩
  · intro h
    have hlisted : ∀ n, throughout (phys keyPrefix kind ++ n) →
        (listSubjects kind (names keyPrefix kind (returned replies))).count n = 1 := by
      intro n hn
      have hmem := hscan.complete _ hn (glob_pattern.mpr (List.prefix_append _ _))
      rw [count_listSubjects hkeys, if_neg (h n hn).1]
      exact le_antisymm (h n hn).2 (List.count_pos_iff.mpr hmem)
    refine ⟨hlisted, fun n hn => ?_, fun n hn getCSR seen hseen hget => ?_,
      fun n hn σ sign limit s => (attempts_signInBatches limit s _).trans (hlisted n hn)⟩
    · rw [listSubjects_names] at hn
      obtain ⟨k, hk, rfl⟩ := List.mem_map.mp (List.mem_filter.mp hn).1
      obtain ⟨m, rfl⟩ := hkeys k hk
      rw [trim_append]
      exact (hscan.sound _ hk).1
    · rw [listedRequests, List.count_filter (by simpa using hget),
        List.count_filter (by simpa using hseen), hlisted n hn]

/-- The keys of the requests of some nodes. -/
def requestKeys (keyPrefix : Text) (subjects : List Text) : List Text :=
  subjects.map (phys keyPrefix .csr ++ ·)

theorem scanned_requestKeys {subjects : List Text}
    {replies : List (Except Unit (List Text × UInt64))}
    (h : ∀ k, k ∈ returned replies ↔ k ∈ requestKeys keyPrefix subjects) :
    Scanned (fun _ _ => false) (pattern keyPrefix .csr) (· ∈ requestKeys keyPrefix subjects)
      (· ∈ requestKeys keyPrefix subjects) (returned replies) where
  complete k hk _ := (h k).mpr hk
  sound k hk := by
    obtain ⟨n, -, rfl⟩ := List.mem_map.mp ((h k).mp hk)
    exact ⟨(h _).mp hk, glob_pattern.mpr (List.prefix_append _ _)⟩

/-- Three requests, under a prefix with a star in it. -/
def starKeys : List Text := requestKeys "p*".toList [['a'], ['b'], ['c']]

/-- A walk that returns them on two pages. -/
def starReplies : List (Except Unit (List Text × UInt64)) :=
  [.ok (starKeys.take 2, 7), .ok (starKeys.drop 2, 0)]

theorem once_iff_sample : ∃ out, list "p*".toList .csr starReplies [] = some (.ok out) ∧
    Once (· ∈ starKeys) (· ∈ starKeys) (phys "p*".toList .csr) (listSubjects .csr out) := by
  have hdone : Completed starReplies := Or.inr (Or.inl rfl)
  have hscan : Scanned _ _ (· ∈ starKeys) (· ∈ starKeys) (returned starReplies) :=
    scanned_requestKeys fun k => by simp [starReplies, starKeys, returned, requestKeys]
  obtain ⟨out, hlist, honce⟩ := once_iff hdone hscan
  refine ⟨out, hlist, honce.mpr fun n hn => ?_⟩
  obtain ⟨m, hm, heq⟩ := List.mem_map.mp hn
  obtain rfl := List.append_cancel_left heq
  revert m
  decide

/-- Signing the only pending request, which is gone then. -/
def signPending (pending : Bool) (_ : Text) : Attempt × Bool :=
  (if pending then .signed else .noCSR, false)

/-- **The key of a request is returned on two pages.** It is listed twice, and a request to sign
all signs it and then misses it. -/
theorem listed_twice : ∃ replies : List (Except Unit (List Text × UInt64)), ∃ out,
    Completed replies ∧ Scanned (fun _ _ => false) (pattern ['p'] .csr)
      (· ∈ requestKeys ['p'] [['a']]) (· ∈ requestKeys ['p'] [['a']]) (returned replies) ∧
    list ['p'] .csr replies [] = some (.ok out) ∧ listSubjects .csr out = [['a'], ['a']] ∧
    (signInBatches signPending 0 true (listSubjects .csr out)).1 =
      { signed := [['a']], noCSR := [['a']] } := by
  have hlist : listSubjects .csr (names ['p'] .csr (requestKeys ['p'] [['a'], ['a']])) =
      [['a'], ['a']] := by
    simp [listSubjects_names, requestKeys]
  refine ⟨[.ok (requestKeys ['p'] [['a']], 7), .ok (requestKeys ['p'] [['a']], 0)], _,
    Or.inr (Or.inl rfl), scanned_requestKeys (by simp [returned, requestKeys]), rfl, hlist, ?_⟩
  change (signInBatches signPending 0 true
    (listSubjects .csr (names ['p'] .csr (requestKeys ['p'] [['a'], ['a']])))).1 = _
  rw [hlist]
  decide

end OpenvoxCa.Storage.Listing
