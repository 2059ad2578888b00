import Mathlib.Algebra.GroupWithZero.Nat
import Mathlib.Data.List.Basic

/-!
# Tilings of an interval

A list of pieces, each with a start and a length, *tiles* the interval from `a`
to `b` when the pieces are not empty, the first starts at `a`, each starts where
the one before it ends, and the last ends at `b`. A tiling visits every point of
its interval once and in order (`Tiles.flatMap_range'`), and each piece lies
inside the interval (`Tiles.le_of_mem`). From any of its pieces on a tiling is a tiling
(`Tiles.drop`), so that what is left of it covers what is left of the interval.
-/

/-- Pieces, given as pairs of a start and a length, that tile the interval from the
first number to the second. -/
def Tiles : ℕ → ℕ → List (ℕ × ℕ) → Prop
  | a, b, [] => a = b
  | a, b, p :: ps => p.1 = a ∧ 0 < p.2 ∧ Tiles (a + p.2) b ps

namespace Tiles

variable {a b : ℕ} {ps : List (ℕ × ℕ)}

theorem le (h : Tiles a b ps) : a ≤ b := by
  induction ps generalizing a with
  | nil => exact Nat.le_of_eq h
  | cons p ps ih =>
    have htl := ih h.2.2
    omega

/-- Every piece lies inside the interval. -/
theorem le_of_mem (h : Tiles a b ps) {p : ℕ × ℕ} (hp : p ∈ ps) : a ≤ p.1 ∧ p.1 + p.2 ≤ b := by
  induction ps generalizing a with
  | nil => exact absurd hp List.not_mem_nil
  | cons q ps ih =>
    obtain ⟨hq, -, htl⟩ := h
    rcases List.mem_cons.mp hp with rfl | hmem
    · have := htl.le
      omega
    · have := ih htl hmem
      omega

/-- **A tiling visits every point once, in order.** -/
theorem flatMap_range' (h : Tiles a b ps) :
    ps.flatMap (fun p => List.range' p.1 p.2) = List.range' a (b - a) := by
  induction ps generalizing a with
  | nil =>
    obtain rfl : a = b := h
    rw [Nat.sub_self]
    rfl
  | cons p ps ih =>
    obtain ⟨rfl, -, htl⟩ := h
    have hle := htl.le
    rw [List.flatMap_cons, ih htl, List.range'_append_1]
    congr 1
    omega

/-- From any of its pieces on, a tiling tiles the rest of the interval. -/
theorem drop (h : Tiles a b ps) {i : ℕ} {p : ℕ × ℕ} (hp : ps[i]? = some p) :
    Tiles p.1 b (ps.drop i) := by
  induction ps generalizing a i with
  | nil => simp at hp
  | cons q ps ih =>
    obtain ⟨hq, hpos, htl⟩ := h
    cases i with
    | zero =>
      obtain rfl : q = p := by simpa using hp
      exact ⟨rfl, hpos, hq ▸ htl⟩
    | succ i => exact ih htl (by simpa using hp)

/-- Every point of the interval lies in a piece. -/
theorem exists_mem (h : Tiles a b ps) {x : ℕ} (hax : a ≤ x) (hxb : x < b) :
    ∃ p ∈ ps, p.1 ≤ x ∧ x < p.1 + p.2 := by
  induction ps generalizing a with
  | nil =>
    have : a = b := h
    omega
  | cons q ps ih =>
    obtain ⟨rfl, -, htl⟩ := h
    rcases Nat.lt_or_ge x (q.1 + q.2) with hlt | hge
    · exact ⟨q, List.mem_cons_self, hax, hlt⟩
    · obtain ⟨p, hp, hx⟩ := ih htl hge
      exact ⟨p, List.mem_cons_of_mem q hp, hx⟩

/-- No piece is empty. -/
theorem pos_of_mem (h : Tiles a b ps) {p : ℕ × ℕ} (hp : p ∈ ps) : 0 < p.2 := by
  induction ps generalizing a with
  | nil => exact absurd hp List.not_mem_nil
  | cons q ps ih =>
    obtain ⟨-, hpos, htl⟩ := h
    rcases List.mem_cons.mp hp with rfl | hmem
    · exact hpos
    · exact ih htl hmem

/-- The lengths of the pieces add up to the length of the interval. -/
theorem add_sum (h : Tiles a b ps) : a + (ps.map (·.2)).sum = b := by
  induction ps generalizing a with
  | nil => exact h
  | cons p ps ih =>
    have htl := ih h.2.2
    rw [List.map_cons, List.sum_cons]
    omega

/-- A tiling of an interval that is not empty has a piece. -/
theorem ne_nil (h : Tiles a b ps) (hab : a < b) : ps ≠ [] := by
  rintro rfl
  exact absurd h (Nat.ne_of_lt hab)

end Tiles
