import Mathlib.Data.List.Basic
import Mathlib.Logic.Function.Basic

/-!
# Filing items under a key

A loop that goes through a list and appends each item to the list filed under its key, if it has
one. What is filed under a key in the end are the items of that key, in the order in which they came
(`buckets_apply`).
-/

namespace OpenvoxCa.Data

variable {α κ : Type} [DecidableEq κ] (key : α → Option κ)

/-- One round of the loop. -/
def file (m : κ → List α) (a : α) : κ → List α :=
  match key a with
  | some k => Function.update m k (m k ++ [a])
  | none => m

def buckets (items : List α) : κ → List α := items.foldl (file key) fun _ => []

theorem foldl_file (items : List α) (m : κ → List α) (k : κ) :
    items.foldl (file key) m k = m k ++ items.filter fun a => key a = some k := by
  induction items generalizing m with
  | nil => simp
  | cons a items ih =>
    rw [List.foldl_cons, ih, file]
    cases hkey : key a with
    | none => simp [hkey]
    | some k' =>
      by_cases hk : k' = k
      · subst hk
        simp [hkey]
      · simp [hkey, hk, Function.update_of_ne (Ne.symm hk)]

/-- **What is filed under a key** are the items of that key. -/
theorem buckets_apply (items : List α) (k : κ) :
    buckets key items k = items.filter fun a => key a = some k := by
  rw [buckets, foldl_file, List.nil_append]

end OpenvoxCa.Data
