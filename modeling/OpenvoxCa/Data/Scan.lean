import Mathlib.Data.List.ReduceOption
import Mathlib.Data.List.Infix

/-!
# Scanning for records

A reader of records that recovers from bad input: at each position of a list of tokens it either
reads a record or does not, and where it does not it goes on to the next position. It reports the
records it has found and what is left after the last of them, and nothing about what it passed over
on the way.

Some of the tokens *open* a record. What the reader would have to report to be complete is what
stands at each of them (`openings`), a record or the lack of one. It reports all the records
(`reduceOption_openings`), and it leaves behind the openings that no record follows; so, if nothing
is left behind, it is complete unless an opening that is none is followed by a record
(`none_mem_openings_iff`).
-/

namespace OpenvoxCa.Scan

variable {τ β : Type} (read : List τ → Option (β × ℕ))

/-! ### The scanner

`read` tells whether there is a record at the head of a list, and how many tokens it takes besides
the first. -/

/-- The first record, and what follows it. -/
def first : List τ → Option (β × List τ)
  | [] => none
  | x :: rest =>
    match read (x :: rest) with
    | some (b, n) => some (b, rest.drop n)
    | none => first rest

/-- At most `fuel` records, and what follows the last. -/
def upTo : ℕ → List τ → List β × List τ
  | 0, l => ([], l)
  | fuel + 1, l =>
    match first read l with
    | none => ([], l)
    | some (b, rest) => (b :: (upTo fuel rest).1, (upTo fuel rest).2)

/-- **All records, and what follows the last.** -/
def records (l : List τ) : List β × List τ := upTo read l.length l

variable (opens : τ → Bool)

/-- What stands at each token that opens a record. -/
def openings : List τ → List (Option β)
  | [] => []
  | x :: rest =>
    if opens x then (read (x :: rest)).map Prod.fst :: openings rest else openings rest

/-- Some opening without a record is followed by a record. -/
def Hides (l : List τ) : Prop :=
  ∃ x rest, x :: rest <:+ l ∧ opens x = true ∧ read (x :: rest) = none ∧ first read rest ≠ none

/-- **How openings and records go together**: a record that its opening marks is a marked one, and
no token within a record opens another. -/
structure Marking (marked : β → Bool) : Prop where
  opening : ∀ {x rest b n}, read (x :: rest) = some (b, n) → marked b = opens x
  inside : ∀ {x rest b n}, read (x :: rest) = some (b, n) → ∀ y ∈ rest.take n, opens y = false

variable {read opens} {l rest : List τ}

theorem length_lt_of_first {b : β} (h : first read l = some (b, rest)) :
    rest.length < l.length := by
  induction l with
  | nil => cases h
  | cons x l ih =>
    simp only [first] at h
    split at h
    · cases h
      simp only [List.length_drop, List.length_cons]
      omega
    · have := ih h
      simp only [List.length_cons]
      omega

/-- Where the first record stands, and that no list without a record begins before it. -/
theorem exists_of_first {b : β} (h : first read l = some (b, rest)) :
    ∃ x body n, read (x :: body) = some (b, n) ∧ rest = body.drop n ∧
      ∀ s, s <:+ l → first read s = none → s <:+ body := by
  induction l with
  | nil => cases h
  | cons x l ih =>
    simp only [first] at h
    split at h
    · next b' n hread =>
      cases h
      refine ⟨x, l, n, hread, rfl, fun s hs hnone => ?_⟩
      rcases List.suffix_cons_iff.mp hs with rfl | hs
      · simp [first, hread] at hnone
      · exact hs
    · next hread =>
      obtain ⟨y, body, n, hy, hrest, hsuffix⟩ := ih h
      refine ⟨y, body, n, hy, hrest, fun s hs hnone => ?_⟩
      rcases List.suffix_cons_iff.mp hs with rfl | hs
      · simp [first, hread, h] at hnone
      · exact hsuffix s hs hnone

/-- Tokens that open nothing make no difference. -/
theorem openings_append {a : List τ} (ha : ∀ y ∈ a, opens y = false) :
    openings read opens (a ++ l) = openings read opens l := by
  induction a with
  | nil => rfl
  | cons x a ih =>
    have hx := ha x List.mem_cons_self
    simpa [openings, hx] using ih fun y hy => ha y (List.mem_cons_of_mem x hy)

theorem map_some_reduceOption {α : Type} {l : List (Option α)} (h : none ∉ l) :
    l.reduceOption.map some = l := by
  induction l with
  | nil => rfl
  | cons a l ih =>
    cases a with
    | none => simp at h
    | some a => simpa using ih fun hl => h (List.mem_cons_of_mem _ hl)

/-! ### What is reported -/

variable {marked : β → Bool}

theorem reduceOption_openings_of_none (h : first read l = none) :
    (openings read opens l).reduceOption = [] := by
  induction l with
  | nil => rfl
  | cons x l ih =>
    cases hread : read (x :: l) with
    | some r => simp [first, hread] at h
    | none =>
      have hl : first read l = none := by simpa [first, hread] using h
      unfold openings
      split
      · simpa [hread] using ih hl
      · exact ih hl

theorem reduceOption_openings_of_some (hm : Marking read opens marked) {b : β}
    (h : first read l = some (b, rest)) :
    (openings read opens l).reduceOption =
      [b].filter marked ++ (openings read opens rest).reduceOption := by
  induction l with
  | nil => cases h
  | cons x l ih =>
    simp only [first] at h
    split at h
    · next b' n hread =>
      cases h
      have hinside : openings read opens l = openings read opens (l.drop n) := by
        have happend : openings read opens (l.take n ++ l.drop n) =
            openings read opens (l.drop n) :=
          openings_append (hm.inside hread)
        rwa [List.take_append_drop] at happend
      have hmarked := hm.opening hread
      cases hx : opens x with
      | true =>
        rw [hx] at hmarked
        simp [openings, hx, hread, hinside, hmarked]
      | false =>
        rw [hx] at hmarked
        simp [openings, hx, hinside, hmarked]
    · next hread =>
      cases hx : opens x with
      | true => simpa [openings, hx, hread] using ih h
      | false => simpa [openings, hx] using ih h

theorem reduceOption_openings_upTo (hm : Marking read opens marked) {fuel : ℕ}
    (hfuel : l.length ≤ fuel) :
    (openings read opens l).reduceOption = (upTo read fuel l).1.filter marked := by
  induction fuel generalizing l with
  | zero =>
    obtain rfl : l = [] := List.eq_nil_of_length_eq_zero (Nat.le_zero.mp hfuel)
    rfl
  | succ fuel ih =>
    cases hfirst : first read l with
    | none => simpa [upTo, hfirst] using reduceOption_openings_of_none hfirst
    | some r =>
      obtain ⟨b, rest⟩ := r
      have hlen := length_lt_of_first hfirst
      rw [reduceOption_openings_of_some hm hfirst, ih (by omega), ← List.filter_append]
      simp [upTo, hfirst]

/-- **Every record that an opening marks is reported**, and in order. -/
theorem reduceOption_openings (hm : Marking read opens marked) (l : List τ) :
    (openings read opens l).reduceOption = (records read l).1.filter marked :=
  reduceOption_openings_upTo hm le_rfl

/-! ### What is not -/

/-- An opening that no record follows, and that is none itself, is left behind: it stands neither
before a record nor within one. -/
theorem mem_upTo_of_last (hm : Marking read opens marked) {fuel : ℕ} {x : τ}
    (hfuel : l.length ≤ fuel) (hs : x :: rest <:+ l) (hx : opens x = true)
    (hnone : first read (x :: rest) = none) : x ∈ (upTo read fuel l).2 := by
  induction fuel generalizing l with
  | zero => exact hs.subset List.mem_cons_self
  | succ fuel ih =>
    cases hfirst : first read l with
    | none => simpa [upTo, hfirst] using hs.subset List.mem_cons_self
    | some r =>
      obtain ⟨b, after⟩ := r
      have hlen := length_lt_of_first hfirst
      obtain ⟨y, body, n, hread, rfl, hsuffix⟩ := exists_of_first hfirst
      have hbody := hsuffix _ hs hnone
      have hafter : x :: rest <:+ body.drop n := by
        by_contra hnot
        -- The opening would stand within the record.
        refine absurd (hm.inside hread x ?_) (by simp [hx])
        obtain ⟨pre, hpre⟩ := hbody
        rw [← List.take_append_drop n body] at hpre
        rcases List.append_eq_append_iff.mp hpre with ⟨t, htake, ht⟩ | ⟨t, -, hdrop⟩
        · cases t with
          | nil => exact absurd (ht ▸ List.suffix_rfl) hnot
          | cons z t =>
            obtain ⟨rfl, -⟩ := List.cons.inj ht
            rw [htake]
            simp
        · exact absurd ⟨t, hdrop.symm⟩ hnot
      simpa [upTo, hfirst] using ih (by omega) hafter

theorem none_mem_openings : none ∈ openings read opens l ↔
    ∃ x rest, x :: rest <:+ l ∧ opens x = true ∧ read (x :: rest) = none := by
  induction l with
  | nil => simp [openings]
  | cons y l ih =>
    have hcons : (∃ x rest, x :: rest <:+ y :: l ∧ opens x = true ∧ read (x :: rest) = none) ↔
        (opens y = true ∧ read (y :: l) = none) ∨
          ∃ x rest, x :: rest <:+ l ∧ opens x = true ∧ read (x :: rest) = none := by
      constructor
      · rintro ⟨x, rest, hs, hx, hread⟩
        rcases List.suffix_cons_iff.mp hs with heq | hs
        · obtain ⟨rfl, rfl⟩ := List.cons.inj heq
          exact Or.inl ⟨hx, hread⟩
        · exact Or.inr ⟨x, rest, hs, hx, hread⟩
      · rintro (⟨hy, hread⟩ | ⟨x, rest, hs, hx, hread⟩)
        · exact ⟨y, l, List.suffix_rfl, hy, hread⟩
        · exact ⟨x, rest, hs.trans (List.suffix_cons y l), hx, hread⟩
    rw [hcons, ← ih]
    cases hy : opens y <;> cases hread : read (y :: l) <;> simp [openings, hy, hread]

/-- **If nothing is left behind that opens a record, what is not reported stands before a
record.** -/
theorem none_mem_openings_iff (hm : Marking read opens marked)
    (hleft : ∀ x ∈ (records read l).2, opens x = false) :
    none ∈ openings read opens l ↔ Hides read opens l := by
  rw [none_mem_openings]
  constructor
  · rintro ⟨x, rest, hs, hx, hread⟩
    refine ⟨x, rest, hs, hx, hread, fun hnone => ?_⟩
    have hlast : x ∈ (records read l).2 :=
      mem_upTo_of_last hm le_rfl hs hx (by simpa [first, hread] using hnone)
    rw [hleft x hlast] at hx
    cases hx
  · rintro ⟨x, rest, hs, hx, hread, -⟩
    exact ⟨x, rest, hs, hx, hread⟩

end OpenvoxCa.Scan
