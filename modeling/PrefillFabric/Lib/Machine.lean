import Mathlib.Data.List.Basic
import Mathlib.Order.Basic

/-!
# Machines driven by a list of inputs

A machine has an initial state and a step that takes an input, changes the state
and gives an output. A run is a list of inputs; what the machine looks like along
it is `Machine.stateAt`, the state before the input of a given index.

Four rules are all the developments below need; a fifth, `foldl_frame`, is for
the loops inside a step.

* `Machine.invariant_of_step`: what holds at the start and is kept by the steps
  taken holds throughout. The steps may be constrained: a step is only asked to
  keep the invariant where it is *allowed*.
* `Machine.forall_iff_forall_allowed`: when allowed steps keep an invariant that
  implies a property, and any other step breaks the property at once, the property
  holds throughout a run exactly when every step of the run is allowed.
* `Machine.exists_origin`: a property that is false at the start and that a step
  never makes true except at a *grant* has an origin: a last grant, since when it
  has held without a break.
* `Machine.exists_end`: a property that a step never makes false except by *ending* it
  holds on from where it holds, or has a first end.
-/

/-- **The frame rule for loops**: what no step changes, a loop does not change. -/
theorem foldl_frame {σ ι γ : Type} {q : σ → γ} {f : σ → ι → σ} (hf : ∀ s i, q (f s i) = q s)
    (l : List ι) (s : σ) : q (l.foldl f s) = q s := by
  induction l generalizing s with
  | nil => rfl
  | cons i l ih => rw [List.foldl_cons, ih, hf]

/-- A deterministic machine with inputs `ι` and outputs `ο`. -/
structure Machine (σ ι ο : Type) where
  /-- The state a run starts from. -/
  init : σ
  /-- One step. -/
  step : σ → ι → σ × ο

namespace Machine

variable {σ ι ο : Type} (M : Machine σ ι ο)

/-- The state one input later. -/
def next (s : σ) (i : ι) : σ := (M.step s i).1

/-- The output of one step. -/
def out (s : σ) (i : ι) : ο := (M.step s i).2

/-- The state a run is in before its input of index `n`, and its last state once
the inputs have run out. -/
def stateAt (is : List ι) (n : ℕ) : σ := (is.take n).foldl M.next M.init

variable {M} {is : List ι}

@[simp] theorem stateAt_zero : M.stateAt is 0 = M.init := rfl

theorem stateAt_succ {n : ℕ} {i : ι} (h : is[n]? = some i) :
    M.stateAt is (n + 1) = M.next (M.stateAt is n) i := by
  rw [stateAt, stateAt, List.take_add_one, h, Option.toList_some, List.foldl_append]
  rfl

theorem stateAt_succ_of_none {n : ℕ} (h : is[n]? = none) :
    M.stateAt is (n + 1) = M.stateAt is n := by
  rw [stateAt, stateAt, List.take_add_one, h, Option.toList_none, List.append_nil]

/-! ### Invariants -/

/-- **The invariant rule**, relative to the steps a run takes: what holds at the
start and is kept by every allowed step holds at every index of a run whose steps
are all allowed. -/
theorem invariant_of_step {P : σ → Prop} {A : σ → ι → Prop} (h0 : P M.init)
    (hstep : ∀ s i, P s → A s i → P (M.next s i))
    (hall : ∀ n i, is[n]? = some i → A (M.stateAt is n) i) (n : ℕ) :
    P (M.stateAt is n) := by
  induction n with
  | zero => exact h0
  | succ n ih =>
    cases hi : is[n]? with
    | none => rwa [stateAt_succ_of_none hi]
    | some i =>
      rw [stateAt_succ hi]
      exact hstep _ i ih (hall n i hi)

/-- The invariant rule for steps that are never constrained. -/
theorem invariant {P : σ → Prop} (h0 : P M.init)
    (hstep : ∀ s i, P s → P (M.next s i)) (n : ℕ) : P (M.stateAt is n) :=
  invariant_of_step (A := fun _ _ => True) h0 (fun s i h _ => hstep s i h)
    (fun _ _ _ => trivial) n

/-- **The exactness rule**: a property of the states along a run that rests on an
invariant kept by allowed steps, and that every other step breaks, holds throughout
exactly when every step is allowed. -/
theorem forall_iff_forall_allowed {P Q : ℕ → Prop} {A : ℕ → ι → Prop} (hQP : ∀ n, Q n → P n)
    (h0 : Q 0) (hkeep : ∀ n i, is[n]? = some i → Q n → A n i → Q (n + 1))
    (hbreak : ∀ n i, is[n]? = some i → Q n → ¬A n i → ¬P (n + 1)) :
    (∀ n, n ≤ is.length → P n) ↔ ∀ n i, is[n]? = some i → A n i := by
  -- the invariant reaches as far as the steps are allowed
  have hinv : ∀ n, n ≤ is.length → (∀ k i, k < n → is[k]? = some i → A k i) → Q n := by
    intro n
    induction n with
    | zero => exact fun _ _ => h0
    | succ n ih =>
      intro hn hall
      have hi : is[n]? = some is[n] := List.getElem?_eq_getElem hn
      exact hkeep n _ hi (ih (by omega) fun k i hk => hall k i (by omega))
        (hall n _ (Nat.lt_succ_self n) hi)
  constructor
  · intro h n
    induction n using Nat.strongRecOn with
    | _ n ih =>
      intro i hi
      have hlt : n < is.length := (List.getElem?_eq_some_iff.mp hi).1
      by_contra hc
      exact hbreak n i hi (hinv n (by omega) fun k i hk => ih k hk i) hc (h (n + 1) hlt)
  · exact fun h n hn => hQP n (hinv n hn fun k i _ => h k i)

/-! ### Origins -/

/-- **The origin rule**: a property that is false at the start, and that holds
after a step only if it held before or the step granted it, goes back to a grant
since when it has held without a break. -/
theorem exists_origin {P : σ → Prop} {G : σ → ι → Prop} (h0 : ¬P M.init)
    (hstep : ∀ n i, is[n]? = some i → P (M.stateAt is (n + 1)) →
      P (M.stateAt is n) ∨ G (M.stateAt is n) i) (n : ℕ) (h : P (M.stateAt is n)) :
    ∃ k i, k < n ∧ is[k]? = some i ∧ G (M.stateAt is k) i ∧
      ∀ j, k < j → j ≤ n → P (M.stateAt is j) := by
  induction n with
  | zero => exact absurd h h0
  | succ n ih =>
    -- either the property is older than this step, or this step granted it
    have hcases : P (M.stateAt is n) ∨ ∃ i, is[n]? = some i ∧ G (M.stateAt is n) i := by
      cases hi : is[n]? with
      | none =>
        rw [stateAt_succ_of_none hi] at h
        exact Or.inl h
      | some i => exact (hstep n i hi h).imp id fun hg => ⟨i, rfl, hg⟩
    rcases hcases with hold | ⟨i, hi, hg⟩
    · obtain ⟨k, i, hk, hi, hg, hsince⟩ := ih hold
      refine ⟨k, i, by omega, hi, hg, fun j hj hjn => ?_⟩
      rcases Nat.eq_or_lt_of_le hjn with rfl | hlt
      · exact h
      · exact hsince j hj (by omega)
    · refine ⟨n, i, Nat.lt_succ_self n, hi, hg, fun j hj hjn => ?_⟩
      obtain rfl : j = n + 1 := by omega
      exact h

/-- **The end rule**: a property that holds, and that a step leaves true unless it ends it, holds
on or is ended by a step, up to which it has held without a break. -/
theorem exists_end {P : σ → Prop} {E : σ → ι → Prop}
    (hstep : ∀ n i, is[n]? = some i → P (M.stateAt is n) →
      P (M.stateAt is (n + 1)) ∨ E (M.stateAt is n) i) {k n : ℕ} (hkn : k ≤ n)
    (hk : P (M.stateAt is k)) :
    (∀ j, k ≤ j → j ≤ n → P (M.stateAt is j)) ∨
      ∃ j i, k ≤ j ∧ j < n ∧ is[j]? = some i ∧ E (M.stateAt is j) i ∧
        (∀ j', k ≤ j' → j' ≤ j → P (M.stateAt is j')) ∧ ¬P (M.stateAt is (j + 1)) := by
  induction n with
  | zero =>
    refine Or.inl fun j hj hjn => ?_
    obtain rfl : j = k := by omega
    exact hk
  | succ n ih =>
    rcases Nat.eq_or_lt_of_le hkn with rfl | hlt
    · refine Or.inl fun j hj hjn => ?_
      obtain rfl := Nat.le_antisymm hjn hj
      exact hk
    have hkn : k ≤ n := Nat.le_of_lt_succ hlt
    rcases ih hkn with hheld | ⟨j, i, hkj, hjn, hi, hE, hbefore, hafter⟩
    · by_cases hn : P (M.stateAt is (n + 1))
      · refine Or.inl fun j hj hjn => ?_
        rcases Nat.eq_or_lt_of_le hjn with rfl | hlt
        · exact hn
        · exact hheld j hj (Nat.le_of_lt_succ hlt)
      · refine Or.inr ?_
        have hlast := hheld n hkn (Nat.le_refl n)
        cases hi : is[n]? with
        | none =>
          rw [stateAt_succ_of_none hi] at hn
          exact absurd hlast hn
        | some i =>
          have hE := (hstep n i hi hlast).resolve_left hn
          exact ⟨n, i, hkn, Nat.lt_succ_self n, hi, hE, hheld, hn⟩
    · exact Or.inr ⟨j, i, hkj, Nat.lt_succ_of_lt hjn, hi, hE, hbefore, hafter⟩

end Machine
