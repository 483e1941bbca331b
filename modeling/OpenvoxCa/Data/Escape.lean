import Mathlib.Data.List.Basic

/-!
# Percent-encoded paths

A path is a string of bytes, each written as the character with its number, and comes with any of
them percent-encoded. One reader decodes the whole path and looks at what it begins with; another
one splits the path at its slashes first and decodes the segments. They agree on this much
(`unescape_eq_join`): the decoded path is the decoded segments, with a slash in front of each. A
slash that was encoded is inside a segment for the second reader and looks like any other to the
first.

What a string begins with is decided by a part of it that is as long as what is looked for
(`isPrefixOf_append_eq`).
-/

namespace OpenvoxCa.Data

/-! ### Decoding -/

/-- The value of a hexadecimal digit. -/
def hexValue (c : Char) : Option ℕ :=
  if '0' ≤ c ∧ c ≤ '9' then some (c.toNat - '0'.toNat)
  else if 'a' ≤ c ∧ c ≤ 'f' then some (c.toNat - 'a'.toNat + 10)
  else if 'A' ≤ c ∧ c ≤ 'F' then some (c.toNat - 'A'.toNat + 10)
  else none

/-- Decode a percent-encoded string. -/
def unescape : List Char → Option (List Char)
  | [] => some []
  | '%' :: a :: b :: rest =>
    (hexValue a).bind fun x => (hexValue b).bind fun y =>
      (unescape rest).map (Char.ofNat (16 * x + y) :: ·)
  | '%' :: _ => none
  | c :: rest => (unescape rest).map (c :: ·)

/-- The segments, with a slash in front of each. -/
def join (segments : List (List Char)) : List Char := segments.flatMap ('/' :: ·)

/-- The segments of a path that begins with a slash. -/
def segments (path : List Char) : List (List Char) := (path.drop 1).splitOn '/'

theorem unescape_slash (t : List Char) : unescape ('/' :: t) = (unescape t).map ('/' :: ·) := by
  rw [unescape]
  all_goals simp

/-- No encoded character reaches across a slash. -/
theorem unescape_append_slash (s t : List Char) :
    unescape (s ++ '/' :: t) =
      (unescape s).bind fun a => (unescape ('/' :: t)).map (a ++ ·) := by
  have hslash : hexValue '/' = none := by decide
  induction s using unescape.induct with
  | case1 => simp [unescape, Function.comp_def]
  | case2 a b rest ih =>
    simp only [List.cons_append, unescape, ih]
    cases hexValue a with
    | none => rfl
    | some x =>
      cases hexValue b with
      | none => rfl
      | some y => cases unescape rest <;> simp [Function.comp_def]
  | case3 rest hrest =>
    -- One digit or none is left before the slash, which is no digit.
    rcases rest with _ | ⟨a, _ | ⟨b, rest⟩⟩
    · cases t <;> simp [unescape, hslash]
    · simp [unescape, hslash]
    · exact absurd rfl (hrest a b rest)
  | case4 c rest h₁ h₂ ih =>
    have hc : c ≠ '%' := h₂
    have hcons : ∀ l, unescape (c :: l) = (unescape l).map (c :: ·) := by
      intro l
      rw [unescape]
      all_goals simp [hc]
    rw [List.cons_append, hcons, hcons, ih]
    cases unescape rest <;> simp [Function.comp_def]

theorem unescape_join (segs : List (List Char)) :
    unescape (join segs) = (segs.mapM unescape).map join := by
  induction segs with
  | nil => rfl
  | cons s segs ih =>
    -- What follows the first segment begins with a slash, or there is nothing.
    have hsplit : unescape (s ++ join segs) =
        (unescape s).bind fun a => (unescape (join segs)).map (a ++ ·) := by
      cases segs with
      | nil => cases hs : unescape s <;> simp [join, hs, unescape]
      | cons s' segs => exact unescape_append_slash s _
    have hjoin : join (s :: segs) = '/' :: (s ++ join segs) := by simp [join]
    rw [hjoin, unescape_slash, hsplit, ih, List.mapM_cons]
    cases unescape s with
    | none => rfl
    | some a =>
      cases segs.mapM unescape with
      | none => rfl
      | some as => simp [join]

theorem cons_intercalate (segs : List (List Char)) (h : segs ≠ []) :
    '/' :: ['/'].intercalate segs = join segs := by
  induction segs with
  | nil => exact absurd rfl h
  | cons s segs ih =>
    cases segs with
    | nil => simp [join]
    | cons s' segs =>
      have hrest := ih (List.cons_ne_nil _ _)
      rw [List.intercalate_cons_cons, List.append_assoc, List.singleton_append, hrest]
      simp [join]

/-- **The decoded path is the decoded segments**, with a slash in front of each. -/
theorem unescape_eq_join {path decoded : List Char} (hslash : path.head? = some '/')
    (h : unescape path = some decoded) :
    ∃ segs, (segments path).mapM unescape = some segs ∧ decoded = join segs := by
  obtain ⟨rest, rfl⟩ : ∃ rest, path = '/' :: rest := by
    cases path with
    | nil => cases hslash
    | cons c rest => exact ⟨rest, by rw [Option.some.inj hslash]⟩
  have hpath : '/' :: rest = join (segments ('/' :: rest)) := by
    rw [segments, List.drop_one, List.tail_cons, ← cons_intercalate _ (List.splitOn_ne_nil _ _),
      List.intercalate_splitOn]
  rw [hpath, unescape_join] at h
  obtain ⟨segs, hsegs, rfl⟩ := Option.map_eq_some_iff.mp h
  exact ⟨segs, hsegs, rfl⟩

/-! ### What a string begins with -/

/-- A string that is at least as long as what is looked for, or differs from it, decides. -/
theorem isPrefixOf_append_eq {t lit : List Char}
    (h : lit.isPrefixOf t = true → t.isPrefixOf lit = true) (s : List Char) :
    t.isPrefixOf (lit ++ s) = t.isPrefixOf lit := by
  rw [Bool.eq_iff_iff, List.isPrefixOf_iff_prefix, List.isPrefixOf_iff_prefix]
  refine ⟨fun hpre => ?_, fun hpre => hpre.trans (List.prefix_append lit s)⟩
  rcases List.prefix_or_prefix_of_prefix hpre (List.prefix_append lit s) with h' | h'
  · exact h'
  · exact List.isPrefixOf_iff_prefix.mp (h (List.isPrefixOf_iff_prefix.mpr h'))

end OpenvoxCa.Data
