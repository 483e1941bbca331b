import Mathlib.Data.List.AList

/-!
# Maps, and loops over them

A map of the program is an association list without repeated keys, `AList` at a constant family.
What Mathlib does not have is how large it is (`Assoc.size_insert`), and what a loop leaves behind:
deleting the bindings that fail a test (`Assoc.lookup_retain`), erasing every key of a list
(`Assoc.lookup_eraseAll`), inserting every binding of a list (`Assoc.mem_insertAll`), and copying a
map over another one (`Assoc.lookup_copyOnto`).
-/

namespace OpenvoxCa.Data

/-- A map from `K` to `V`. -/
abbrev Assoc (K V : Type) := AList fun _ : K => V

namespace Assoc

variable {K V : Type} [DecidableEq K]

/-- Erase each key of a list. -/
def eraseAll (m : Assoc K V) (ks : List K) : Assoc K V := ks.foldl (fun m k => m.erase k) m

/-- Insert each binding of a list, the later ones over the earlier ones. -/
def insertAll (m : Assoc K V) (bs : List (K × V)) : Assoc K V :=
  bs.foldl (fun m b => m.insert b.1 b.2) m

/-- **What is erased is gone, everything else is as it was.** -/
theorem lookup_eraseAll (m : Assoc K V) (ks : List K) (k : K) :
    (eraseAll m ks).lookup k = if k ∈ ks then none else m.lookup k := by
  induction ks generalizing m with
  | nil => simp [eraseAll]
  | cons k' ks ih =>
    change (eraseAll (m.erase k') ks).lookup k = _
    rw [ih]
    rcases eq_or_ne k k' with rfl | hne
    · simp
    · simp [hne, AList.lookup_erase_ne hne]

theorem mem_insertAll {m : Assoc K V} {bs : List (K × V)} {k : K} :
    k ∈ insertAll m bs ↔ k ∈ m ∨ ∃ b ∈ bs, b.1 = k := by
  induction bs generalizing m with
  | nil => simp [insertAll]
  | cons b bs ih =>
    change k ∈ insertAll (m.insert b.1 b.2) bs ↔ _
    rw [ih, AList.mem_insert]
    simp only [List.mem_cons, exists_eq_or_imp, eq_comm (a := k)]
    tauto

/-- Delete the bindings that do not meet `p`. -/
def retain (m : Assoc K V) (p : V → Bool) : Assoc K V :=
  ⟨m.entries.filter fun b => p b.2, m.nodupKeys.sublist List.filter_sublist⟩

theorem lookup_retain (m : Assoc K V) (p : V → Bool) (k : K) :
    (retain m p).lookup k = (m.lookup k).filter p := by
  ext v
  rw [← Option.mem_def, AList.mem_lookup_iff, Option.filter_eq_some_iff, ← Option.mem_def,
    AList.mem_lookup_iff]
  exact List.mem_filter

def size (m : Assoc K V) : ℕ := m.entries.length

theorem size_insert (m : Assoc K V) (k : K) (v : V) :
    size (m.insert k v) = if (m.lookup k).isSome then size m else size m + 1 := by
  have hkeys : ∀ m : Assoc K V, size m = m.keys.length := fun m => by
    simp [size, AList.keys, List.keys]
  rw [hkeys, hkeys, AList.keys_insert, List.length_cons]
  split
  · next h =>
    have hmem : k ∈ m.keys := AList.lookup_isSome.mp h
    rw [List.length_erase_of_mem hmem]
    have := List.length_pos_of_mem hmem
    omega
  · next h => rw [List.erase_of_not_mem fun hmem => h (AList.lookup_isSome.mpr hmem)]

/-! ### Copying a map over another -/

/-- Write a binding if it says something new, and count it if its key is new. -/
def copyStep [DecidableEq V] (acc : Assoc K V × ℕ) (b : Σ _ : K, V) : Assoc K V × ℕ :=
  match acc.1.lookup b.1 with
  | none => (acc.1.insert b.1 b.2, acc.2 + 1)
  | some v => if v ≠ b.2 then (acc.1.insert b.1 b.2, acc.2) else acc

/-- Copy every binding of `src` over `m`, and count the keys that were not there. -/
def copyOnto [DecidableEq V] (src m : Assoc K V) : Assoc K V × ℕ :=
  src.entries.foldl copyStep (m, 0)

variable [DecidableEq V]

theorem lookup_copyStep (acc : Assoc K V × ℕ) (b : Σ _ : K, V) (k : K) :
    (copyStep acc b).1.lookup k = if k = b.1 then some b.2 else acc.1.lookup k := by
  unfold copyStep
  rcases eq_or_ne k b.1 with rfl | hne
  · rw [if_pos rfl]
    split
    · exact AList.lookup_insert _
    · next v hv =>
      split
      · exact AList.lookup_insert _
      · next heq => rw [hv, not_not.mp heq]
  · rw [if_neg hne]
    split
    · exact AList.lookup_insert_ne hne
    · split
      · exact AList.lookup_insert_ne hne
      · rfl

/-- **The copied map wins wherever it says something.** -/
theorem lookup_copyOnto (src m : Assoc K V) (k : K) :
    (copyOnto src m).1.lookup k = (src.lookup k).or (m.lookup k) := by
  -- The loop goes over the bindings; no key comes twice, so the first one decides.
  have hloop : ∀ (bs : List (Σ _ : K, V)), bs.NodupKeys → ∀ acc : Assoc K V × ℕ,
      (bs.foldl copyStep acc).1.lookup k = (bs.dlookup k).or (acc.1.lookup k) := by
    intro bs
    induction bs with
    | nil => intro _ acc; simp
    | cons b bs ih =>
      intro hbs acc
      rw [List.nodupKeys_cons] at hbs
      rw [List.foldl_cons, ih hbs.2, lookup_copyStep]
      rcases eq_or_ne k b.1 with rfl | hne
      · rw [if_pos rfl, List.dlookup_eq_none.mpr hbs.1]
        obtain ⟨k, v⟩ := b
        simp
      · rw [if_neg hne, List.dlookup_cons_ne _ _ hne]
  exact hloop src.entries src.nodupKeys (m, 0)

theorem mem_copyOnto {src m : Assoc K V} {k : K} : k ∈ (copyOnto src m).1 ↔ k ∈ src ∨ k ∈ m := by
  rw [← AList.lookup_isSome, ← AList.lookup_isSome, ← AList.lookup_isSome, lookup_copyOnto]
  simp

end Assoc

end OpenvoxCa.Data
