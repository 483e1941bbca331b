import Mathlib.Data.List.MinMax
import Mathlib.Data.List.Nodup

/-!
# The newest item of each key

Items come with a key and a rank, and of the items of one key the one that counts is the newest.
This file is about replacing a published list of items by an incoming one without letting any key go
back (`merge`): an incoming item that is older than what is published under its key gives way to
that.

* What was published under a key is not newer than what the merge publishes under it, however many
  items of the key either list holds (`rank_le_of_mem_merge`).
* Merging the same items again changes nothing, if there is one of each key
  (`merge_merge`).

The rank decides which item is newer, and the first of several newest items is taken; a loop that
remembers the newest item of each key so far finds the same one (`foldl_collect`).
-/

namespace OpenvoxCa.Data

variable {α κ ρ : Type} [DecidableEq κ] [LinearOrder ρ] (key : α → Option κ) (rank : α → ρ)

/-- The first of the newest items with the key `k`. -/
def newest (items : List α) (k : κ) : Option α :=
  (items.filter fun a => key a = some k).argmax rank

/-- One round of a loop over the items: an item newer than those of its key so far takes their
place. -/
def collect (current : κ → Option α) (a : α) : κ → Option α :=
  match key a with
  | none => current
  | some k =>
    match current k with
    | none => Function.update current k (some a)
    | some b => if rank b < rank a then Function.update current k (some a) else current

/-- What stands in for the incoming item `a` with the key `k`. -/
def supersede (published : List α) (a : α) (k : κ) : α :=
  match newest key rank published k with
  | some b => if rank a < rank b then b else a
  | none => a

/-- **The merge**: every incoming item that has a key, or what is published of that key if it is
newer. -/
def merge (published incoming : List α) : List α :=
  incoming.filterMap fun a => (key a).map (supersede key rank published a)

variable {key rank} {items published incoming : List α} {a b c : α} {k : κ}

theorem newest_eq_some (h : newest key rank items k = some a) :
    a ∈ items ∧ key a = some k ∧ ∀ b ∈ items, key b = some k → rank b ≤ rank a := by
  have hmem := List.mem_filter.mp (List.argmax_mem h)
  refine ⟨hmem.1, by simpa using hmem.2, fun b hb hkey => ?_⟩
  exact List.le_of_mem_argmax (List.mem_filter.mpr ⟨hb, by simpa using hkey⟩) h

theorem newest_eq_none (h : newest key rank items k = none) (hb : b ∈ items) : key b ≠ some k := by
  have hnil : (items.filter fun a => key a = some k) = [] := List.argmax_eq_none.mp h
  simpa using List.filter_eq_nil_iff.mp hnil b hb

/-- **The loop finds the newest item of each key.** -/
theorem foldl_collect (items : List α) :
    items.foldl (collect key rank) (fun _ => none) = newest key rank items := by
  have general : ∀ (current : κ → Option α) (k : κ), items.foldl (collect key rank) current k =
      (items.filter fun a => key a = some k).foldl (List.argAux fun b c => rank c < rank b)
        (current k) := by
    induction items with
    | nil => exact fun _ _ => rfl
    | cons a items ih =>
      intro current k
      rw [List.foldl_cons, ih]
      by_cases hkey : key a = some k
      · -- The item has the key in question: the round is one step of the scan for the maximum.
        rw [List.filter_cons_of_pos (by simpa using hkey), List.foldl_cons]
        congr 1
        cases hk : current k with
        | none => simp [collect, hkey, hk, List.argAux]
        | some b => by_cases hlt : rank b < rank a <;> simp [collect, hkey, hk, hlt, List.argAux]
      · rw [List.filter_cons_of_neg (by simpa using hkey)]
        congr 1
        cases hk' : key a with
        | none => simp [collect, hk']
        | some k' =>
          have hne : k ≠ k' := fun h => hkey (by rw [h, hk'])
          cases hcur : current k' with
          | none => simp [collect, hk', hcur, Function.update_of_ne hne]
          | some b =>
            by_cases hlt : rank b < rank a <;>
              simp [collect, hk', hcur, hlt, Function.update_of_ne hne]
  exact funext fun k => general _ k

/-! ### What stands in for an item -/

variable (key rank published a k) in
theorem supersede_eq_or_mem : supersede key rank published a k = a ∨
    supersede key rank published a k ∈ published ∧
      rank a < rank (supersede key rank published a k) ∧
      key (supersede key rank published a k) = some k := by
  unfold supersede
  split
  · next b hb =>
    obtain ⟨hmem, hkey, -⟩ := newest_eq_some hb
    split
    · next hlt => exact Or.inr ⟨hmem, hlt, hkey⟩
    · exact Or.inl rfl
  · exact Or.inl rfl

theorem key_supersede (ha : key a = some k) : key (supersede key rank published a k) = some k := by
  rcases supersede_eq_or_mem key rank published a k with heq | ⟨-, -, hkey⟩
  · rwa [heq]
  · exact hkey

theorem rank_le_supersede (hb : b ∈ published) (hkey : key b = some k) :
    rank b ≤ rank (supersede key rank published a k) := by
  unfold supersede
  split
  · next newest hnewest =>
    have hle := (newest_eq_some hnewest).2.2 b hb hkey
    split
    · exact hle
    · next hnot => exact hle.trans (not_lt.mp hnot)
  · next hnone => exact absurd hkey (newest_eq_none hnone hb)

/-! ### The merge -/

theorem mem_merge : c ∈ merge key rank published incoming ↔
    ∃ a ∈ incoming, ∃ k, key a = some k ∧ c = supersede key rank published a k := by
  simp [merge, eq_comm]

/-- What the merge publishes came in or was published. -/
theorem mem_or_mem_of_mem_merge (h : c ∈ merge key rank published incoming) :
    c ∈ incoming ∨ c ∈ published := by
  obtain ⟨a, ha, k, -, rfl⟩ := mem_merge.mp h
  rcases supersede_eq_or_mem key rank published a k with heq | ⟨hmem, -⟩
  · exact Or.inl (heq.symm ▸ ha)
  · exact Or.inr hmem

/-- **No key goes back.** -/
theorem rank_le_of_mem_merge (hc : c ∈ merge key rank published incoming) (hkey : key c = some k)
    (hb : b ∈ published) (hbkey : key b = some k) : rank b ≤ rank c := by
  obtain ⟨a, -, k', hk', rfl⟩ := mem_merge.mp hc
  obtain rfl : k' = k := Option.some.inj ((key_supersede hk').symm.trans hkey)
  exact rank_le_supersede hb hbkey

/-- Where every item has a key, the merge replaces items one by one. -/
theorem merge_eq_map {f : α → α}
    (hf : ∀ a ∈ incoming, ∃ k, key a = some k ∧ supersede key rank published a k = f a) :
    merge key rank published incoming = incoming.map f := by
  have hround : ∀ a ∈ incoming,
      ((key a).map (supersede key rank published a)) = some (f a) := by
    intro a ha
    obtain ⟨k, hk, heq⟩ := hf a ha
    rw [hk, Option.map_some, heq]
  rw [merge, List.filterMap_congr hround, ← List.filterMap_eq_map]
  rfl

/-- One item of each key, and none without. -/
structure OneEach (key : α → Option κ) (items : List α) : Prop where
  keyed : ∀ a ∈ items, ∃ k, key a = some k
  nodup : (items.map key).Nodup

theorem OneEach.filter_eq (h : OneEach key items) (ha : a ∈ items) (hk : key a = some k) :
    (items.filter fun b => key b = some k) = [a] := by
  obtain ⟨-, hnodup⟩ := h
  induction items with
  | nil => cases ha
  | cons b items ih =>
    obtain ⟨hb, hrest⟩ := List.nodup_cons.mp hnodup
    rcases List.mem_cons.mp ha with rfl | ha
    · have hnone : (items.filter fun b => key b = some k) = [] := by
        refine List.filter_eq_nil_iff.mpr fun c hc => ?_
        have hne : key c ≠ key a := fun heq => hb (heq ▸ List.mem_map_of_mem hc)
        simpa [hk] using hne
      rw [List.filter_cons_of_pos (by simpa using hk), hnone]
    · have hne : key b ≠ some k := fun heq => hb (by rw [heq, ← hk]; exact List.mem_map_of_mem ha)
      rw [List.filter_cons_of_neg (by simpa using hne)]
      exact ih ha hrest

/-- Items that are published already, or something newer in their place, stay as they are. -/
theorem OneEach.merge_map (h : OneEach key incoming) {f : α → α}
    (hkey : ∀ a ∈ incoming, key (f a) = key a)
    (hf : ∀ a ∈ incoming, f a = a ∨ rank a < rank (f a)) :
    merge key rank (incoming.map f) incoming = incoming.map f := by
  refine merge_eq_map fun a ha => ?_
  obtain ⟨k, hk⟩ := h.keyed a ha
  have hfilter : ((incoming.map f).filter fun b => key b = some k) = [f a] := by
    have hcongr : (incoming.filter ((fun b => decide (key b = some k)) ∘ f)) =
        incoming.filter fun b => key b = some k :=
      List.filter_congr fun b hb => by simp [hkey b hb]
    rw [List.filter_map, hcongr, h.filter_eq ha hk, List.map_singleton]
  have hnewest : newest key rank (incoming.map f) k = some (f a) := by
    rw [newest, hfilter, List.argmax_singleton]
  refine ⟨k, hk, ?_⟩
  simp only [supersede, hnewest]
  rcases hf a ha with heq | hlt
  · simp [heq]
  · simp [hlt]

/-- **Merging the same items again changes nothing.** -/
theorem OneEach.merge_merge (h : OneEach key incoming) (published : List α) :
    merge key rank (merge key rank published incoming) incoming =
      merge key rank published incoming := by
  let f : α → α := fun a => match key a with
    | some k => supersede key rank published a k
    | none => a
  have hmap : merge key rank published incoming = incoming.map f :=
    merge_eq_map fun a ha => by
      obtain ⟨k, hk⟩ := h.keyed a ha
      exact ⟨k, hk, by simp [f, hk]⟩
  rw [hmap]
  refine h.merge_map (fun a ha => ?_) fun a ha => ?_
  · obtain ⟨k, hk⟩ := h.keyed a ha
    simpa [f, hk] using key_supersede hk
  · obtain ⟨k, hk⟩ := h.keyed a ha
    simp only [f, hk]
    exact (supersede_eq_or_mem key rank published a k).imp_right fun hmem => hmem.2.1

/-- Nothing is published that could stand in for an item. -/
theorem OneEach.merge_nil (h : OneEach key incoming) : merge key rank [] incoming = incoming := by
  have hmap : merge key rank [] incoming = incoming.map id := merge_eq_map fun a ha => by
    obtain ⟨k, hk⟩ := h.keyed a ha
    exact ⟨k, hk, rfl⟩
  rwa [List.map_id] at hmap

end OpenvoxCa.Data
