import Mathlib.Data.List.Basic

/-!
# Server-side apply

Several managers write one object, each its own fields. The object keeps, beside the values, who
owns which field: one entry for each manager (`Entry`). A manager *applies* a configuration, the
values it wants some fields to have. If one of these fields has another value, and another manager
owns it, the two are in conflict; then the apply fails, unless it is forced, in which case the field
changes hands. A field that the manager owned and does not mention any more is removed, unless
somebody else owns it too.

Two facts about the values are all there is to know about taking: an apply without a conflict leaves
every field of others as it is (`Object.applied_of_not_conflicts`), and an applied field has the
value asked for (`Object.value_applied`).
-/

namespace OpenvoxCa.Data

/-- The fields that a manager owns. -/
structure Entry (F M : Type) where
  manager : M
  fields : List F
  deriving DecidableEq, Repr

/-- **An object with owned fields.** -/
structure Object (F V M : Type) where
  value : F → Option V
  managed : List (Entry F M)

namespace Object

variable {F V M : Type} [DecidableEq F] [DecidableEq V] [DecidableEq M]

/-- Another manager owns the field. -/
def ownedByOther (o : Object F V M) (m : M) (f : F) : Bool :=
  o.managed.any fun e => e.manager ≠ m && f ∈ e.fields

def hasEntry (o : Object F V M) (m : M) : Bool := o.managed.any fun e => e.manager = m

/-- **The conflict**: a field of another manager would change. -/
def conflicts (o : Object F V M) (m : M) (config : List (F × V)) : Bool :=
  config.any fun p => o.value p.1 ≠ some p.2 && o.ownedByOther m p.1

/-- The fields that another manager keeps: a value that changes is no longer its own. -/
def keptFields (o : Object F V M) (config : List (F × V)) (fields : List F) : List F :=
  fields.filter fun f => (config.lookup f).all fun v => o.value f = some v

/-- **The object after an apply.** -/
def applied (o : Object F V M) (m : M) (config : List (F × V)) : Object F V M where
  value f :=
    match config.lookup f with
    | some v => some v
    | none =>
      if (o.managed.any fun e => e.manager = m && f ∈ e.fields) && !o.ownedByOther m f then none
      else o.value f
  managed :=
    ((o.managed.filter fun e => e.manager ≠ m).map fun e =>
      { e with fields := o.keptFields config e.fields }).filter (fun e => e.fields ≠ []) ++
      [{ manager := m, fields := config.map Prod.fst }]

/-- The object that an apply creates. -/
def created (m : M) (config : List (F × V)) : Object F V M where
  value f := config.lookup f
  managed := [{ manager := m, fields := config.map Prod.fst }]

/-- **Server-side apply**: nothing where it fails with a conflict. -/
def apply (m : M) (config : List (F × V)) (force : Bool) :
    Option (Object F V M) → Option (Object F V M)
  | none => some (created m config)
  | some o => if o.conflicts m config && !force then none else some (o.applied m config)

variable {o : Object F V M} {m : M} {config : List (F × V)} {f : F}

theorem value_applied {v : V} (h : config.lookup f = some v) :
    (o.applied m config).value f = some v := by
  simp [applied, h]

/-- **Without a conflict the fields of others stay as they are.** -/
theorem applied_of_not_conflicts (h : o.conflicts m config = false)
    (hf : o.ownedByOther m f = true) : (o.applied m config).value f = o.value f := by
  cases hlookup : config.lookup f with
  | none => simp [applied, hlookup, hf]
  | some v =>
    rw [value_applied hlookup]
    have hmem : (f, v) ∈ config := by
      obtain ⟨before, after, rfl, -⟩ := List.lookup_eq_some_iff.mp hlookup
      simp
    by_contra hne
    have hconflict : o.conflicts m config = true :=
      List.any_eq_true.mpr ⟨(f, v), hmem, by simp [hf, Ne.symm hne]⟩
    rw [h] at hconflict
    cases hconflict

/-- A field that an apply changes although another manager owns it is one that it sets. -/
theorem lookup_of_applied_ne (hf : o.ownedByOther m f = true)
    (hne : (o.applied m config).value f ≠ o.value f) :
    ∃ v, config.lookup f = some v ∧ o.value f ≠ some v := by
  cases hlookup : config.lookup f with
  | none => simp [applied, hlookup, hf] at hne
  | some v =>
    rw [value_applied hlookup] at hne
    exact ⟨v, rfl, Ne.symm hne⟩

/-- **An apply that is not forced leaves the fields of others as they are.** -/
theorem value_of_apply_unforced {o' : Object F V M} (h : apply m config false (some o) = some o')
    (hf : o.ownedByOther m f = true) : o'.value f = o.value f := by
  simp only [apply, Bool.not_false, Bool.and_true] at h
  split at h
  · cases h
  · next hconflict =>
    obtain rfl := Option.some.inj h
    exact applied_of_not_conflicts (Bool.not_eq_true _ ▸ hconflict) hf

end Object

end OpenvoxCa.Data
