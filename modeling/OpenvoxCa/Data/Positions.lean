import Mathlib.Data.List.Basic
import Mathlib.Data.List.Perm.Basic

/-!
# Selecting by position

A list may hold the same item several times, and what becomes of one of its copies need not become
of the others. `retainAt` selects by a test of the item and its position. What it leaves behind is
selected by the opposite test, and the two together are the list (`perm_retainAt`).
-/

namespace OpenvoxCa.Data

variable {α : Type} {p : α → ℕ → Bool} {l : List α} {a : α}

/-- The items that pass the test. -/
def retainAt (p : α → ℕ → Bool) (l : List α) : List α :=
  (l.zipIdx.filter fun x => p x.1 x.2).map Prod.fst

theorem retainAt_sublist (p : α → ℕ → Bool) (l : List α) : (retainAt p l).Sublist l := by
  have hsub : (retainAt p l).Sublist (l.zipIdx.map Prod.fst) := List.filter_sublist.map Prod.fst
  rwa [List.zipIdx_map_fst] at hsub

theorem mem_retainAt : a ∈ retainAt p l ↔ ∃ i, l[i]? = some a ∧ p a i = true := by
  simp [retainAt, List.mem_zipIdx_iff_getElem?]

theorem perm_retainAt (p : α → ℕ → Bool) (l : List α) :
    (retainAt p l ++ retainAt (fun a i => !p a i) l).Perm l := by
  have hperm := (List.filter_append_perm (fun x => p x.1 x.2) l.zipIdx).map Prod.fst
  rwa [List.map_append, List.zipIdx_map_fst] at hperm

/-- An item that is selected and one that is not stand at different positions. -/
theorem apart_of_mem_retainAt {b : α} (ha : a ∈ retainAt p l)
    (hb : b ∈ retainAt (fun a i => !p a i) l) :
    ∃ i j : ℕ, i ≠ j ∧ l[i]? = some a ∧ l[j]? = some b := by
  obtain ⟨i, hi, hpa⟩ := mem_retainAt.mp ha
  obtain ⟨j, hj, hpb⟩ := mem_retainAt.mp hb
  refine ⟨i, j, ?_, hi, hj⟩
  rintro rfl
  obtain rfl := Option.some.inj (hi.symm.trans hj)
  rw [hpa] at hpb
  cases hpb

end OpenvoxCa.Data
