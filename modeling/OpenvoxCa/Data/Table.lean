import Mathlib.Data.List.Sort
import Mathlib.Order.Basic

/-!
# Tables

A table is what an ordered store makes of a range of its keys: a list of rows, strictly
increasing in the key. The order is part of the type, so a scan of a table is its rows and
nothing has to be sorted, or proved sorted, by those who read one.

What is proved here is what a store does to such a list. A row put above all others goes to the end
(`Table.rows_put_of_lt`), rows are determined by their keys (`Table.eq_of_key_eq`), and a list in
key order falls into what is below a cut and what is not (`filter_lt_append_filter_ge`).
-/

namespace OpenvoxCa.Data

variable {K V : Type} [LinearOrder K]

/-- The rows come in the order of their keys, no key twice. -/
abbrev Ascending (rows : List (K × V)) : Prop := rows.Pairwise fun a b => a.1 < b.1

section Cut

variable {α : Type} {p : α → Bool} {l : List α}

/-- **A list with a cut**: what passes a test comes before what fails it. -/
theorem takeWhile_eq_filter (h : l.Pairwise fun a b => p b → p a) : l.takeWhile p = l.filter p := by
  induction l with
  | nil => rfl
  | cons a l ih =>
    obtain ⟨ha, hl⟩ := List.pairwise_cons.mp h
    by_cases hp : p a
    · rw [List.takeWhile_cons_of_pos hp, List.filter_cons_of_pos hp, ih hl]
    · rw [List.takeWhile_cons_of_neg hp, List.filter_cons_of_neg hp,
        List.filter_eq_nil_iff.mpr fun b hb hpb => hp (ha b hb hpb)]

theorem dropWhile_eq_filter (h : l.Pairwise fun a b => p b → p a) :
    l.dropWhile p = l.filter fun a => !p a := by
  induction l with
  | nil => rfl
  | cons a l ih =>
    obtain ⟨ha, hl⟩ := List.pairwise_cons.mp h
    by_cases hp : p a
    · rw [List.dropWhile_cons_of_pos hp, List.filter_cons_of_neg (by simp [hp]), ih hl]
    · rw [List.dropWhile_cons_of_neg hp, List.filter_eq_self.mpr]
      intro b hb
      rcases List.mem_cons.mp hb with rfl | hb
      · simpa using hp
      · simpa using mt (ha b hb) hp

end Cut

section Scan

variable {rows : List (K × V)}

/-- Scanning up to a cut finds everything below it. -/
theorem Ascending.takeWhile_lt (h : Ascending rows) (k : K) :
    (rows.takeWhile fun r => r.1 < k) = rows.filter fun r => r.1 < k :=
  takeWhile_eq_filter (h.imp fun hab hb => by simpa using hab.trans (by simpa using hb))

/-- Skipping up to a cut leaves everything above it. -/
theorem Ascending.dropWhile_le (h : Ascending rows) (k : K) :
    (rows.dropWhile fun r => r.1 ≤ k) = rows.filter fun r => k < r.1 := by
  rw [dropWhile_eq_filter (h.imp fun hab hb => by simpa using hab.le.trans (by simpa using hb))]
  simp only [← decide_not, not_le]

/-- **A list in key order, cut at a key**: the rows below it, and then the others. -/
theorem filter_lt_append_filter_ge (h : Ascending rows) (k : K) :
    (rows.filter fun r => r.1 < k) ++ (rows.filter fun r => k ≤ r.1) = rows := by
  have hcut := List.takeWhile_append_dropWhile (p := fun r : K × V => r.1 < k) (l := rows)
  rw [h.takeWhile_lt, dropWhile_eq_filter
    (h.imp fun hab hb => by simpa using hab.trans (by simpa using hb))] at hcut
  simpa only [← decide_not, not_lt] using hcut

/-- What comes from a position on is what is not below the row there. -/
theorem Ascending.mem_drop_iff (h : Ascending rows) {i : ℕ} (hi : i < rows.length) {r : K × V} :
    r ∈ rows.drop i ↔ r ∈ rows ∧ rows[i].1 ≤ r.1 := by
  have hlt := List.pairwise_iff_getElem.mp h
  constructor
  · intro hr
    refine ⟨List.mem_of_mem_drop hr, ?_⟩
    obtain ⟨j, hj, rfl⟩ := List.getElem_of_mem hr
    rw [List.getElem_drop]
    rcases Nat.eq_zero_or_pos j with rfl | hpos
    · exact le_rfl
    · rw [List.length_drop] at hj
      exact (hlt i (i + j) hi (by omega) (by omega)).le
  · rintro ⟨hr, hle⟩
    obtain ⟨j, hj, rfl⟩ := List.getElem_of_mem hr
    rcases lt_or_ge j i with hji | hij
    · exact absurd hle (not_le.mpr (hlt j i hj hi hji))
    · exact List.mem_drop_iff_getElem.mpr ⟨j - i, by omega, by simp [Nat.add_sub_cancel' hij]⟩

/-- The last row above a cut is the last row of all, if that is above it. -/
theorem Ascending.getLast?_filter_gt (h : Ascending rows) (k : K) :
    (rows.filter fun r => k < r.1).getLast? = rows.getLast?.filter fun r => k < r.1 := by
  rcases List.eq_nil_or_concat rows with rfl | ⟨init, last, rfl⟩
  · rfl
  · rw [List.concat_eq_append] at h ⊢
    have hlast : ∀ r ∈ init, r.1 < last.1 := fun r hr =>
      (List.pairwise_append.mp h).2.2 r hr last (List.mem_singleton.mpr rfl)
    rw [List.filter_append, List.getLast?_append, List.getLast?_append]
    by_cases hk : k < last.1
    · simp [hk, Option.filter]
    · have hnone : (init.filter fun r => k < r.1) = [] :=
        List.filter_eq_nil_iff.mpr fun r hr => by
          simpa using (hlast r hr).le.trans (not_lt.mp hk)
      simp [hk, hnone, Option.filter]

end Scan

/-- Rows of a list in key order are determined by their keys. -/
theorem Ascending.eq_of_key_eq {rows : List (K × V)} (h : Ascending rows) {a b : K × V}
    (ha : a ∈ rows) (hb : b ∈ rows) (hab : a.1 = b.1) : a = b := by
  by_contra hne
  rcases List.pairwise_iff_getElem.mp h with hlt
  obtain ⟨i, hi, rfl⟩ := List.getElem_of_mem ha
  obtain ⟨j, hj, rfl⟩ := List.getElem_of_mem hb
  rcases lt_trichotomy i j with hij | rfl | hij
  · exact absurd hab (hlt i j hi hj hij).ne
  · exact hne rfl
  · exact absurd hab (hlt j i hj hi hij).ne'

theorem Ascending.nodup {rows : List (K × V)} (h : Ascending rows) : rows.Nodup := by
  refine List.Pairwise.imp ?_ h
  rintro a _ hlt rfl
  exact lt_irrefl _ hlt

/-- **A table**: rows in the order of their keys. -/
@[ext] structure Table (K V : Type) [LinearOrder K] where
  /-- The rows, in the order of their keys. -/
  rows : List (K × V)
  /-- No key comes twice, and none too early. -/
  sorted : Ascending rows

namespace Table

instance [DecidableEq V] : DecidableEq (Table K V) :=
  fun a b => decidable_of_iff (a.rows = b.rows) Table.ext_iff.symm

/-- The table without rows. -/
def empty : Table K V := ⟨[], List.Pairwise.nil⟩

/-- Put a row at a key, in place of the one there, if any. -/
def put (T : Table K V) (k : K) (v : V) : Table K V where
  rows := (T.rows.filter fun r => r.1 < k) ++ (k, v) :: T.rows.filter fun r => k < r.1
  sorted := by
    refine List.pairwise_append.mpr ⟨T.sorted.filter _, ?_, ?_⟩
    · exact List.pairwise_cons.mpr
        ⟨fun r hr => by simpa using (List.mem_filter.mp hr).2, T.sorted.filter _⟩
    · intro a ha b hb
      have hak : a.1 < k := by simpa using (List.mem_filter.mp ha).2
      rcases List.mem_cons.mp hb with rfl | hb
      · exact hak
      · exact hak.trans (by simpa using (List.mem_filter.mp hb).2)

/-- Keep the rows that satisfy a predicate. -/
def retain (T : Table K V) (p : K × V → Bool) : Table K V := ⟨T.rows.filter p, T.sorted.filter p⟩

/-- Remove the row at a key, if there is one. -/
def erase (T : Table K V) (k : K) : Table K V := T.retain fun r => r.1 ≠ k

@[simp] theorem rows_empty : (empty : Table K V).rows = [] := rfl

@[simp] theorem rows_retain (T : Table K V) (p : K × V → Bool) :
    (T.retain p).rows = T.rows.filter p := rfl

@[simp] theorem rows_erase (T : Table K V) (k : K) :
    (T.erase k).rows = T.rows.filter fun r => r.1 ≠ k := rfl

/-- **A row above all others goes to the end.** -/
theorem rows_put_of_lt {T : Table K V} {k : K} (h : ∀ r ∈ T.rows, r.1 < k) (v : V) :
    (T.put k v).rows = T.rows ++ [(k, v)] := by
  have hbelow : (T.rows.filter fun r => r.1 < k) = T.rows :=
    List.filter_eq_self.mpr fun r hr => by simpa using h r hr
  have habove : (T.rows.filter fun r => k < r.1) = [] :=
    List.filter_eq_nil_iff.mpr fun r hr => by simpa using (h r hr).le
  change (T.rows.filter fun r => r.1 < k) ++ (k, v) :: (T.rows.filter fun r => k < r.1) = _
  rw [hbelow, habove]

/-- Rows are determined by their keys. -/
theorem eq_of_key_eq (T : Table K V) {a b : K × V} (ha : a ∈ T.rows) (hb : b ∈ T.rows)
    (hab : a.1 = b.1) : a = b :=
  T.sorted.eq_of_key_eq ha hb hab

end Table

end OpenvoxCa.Data
