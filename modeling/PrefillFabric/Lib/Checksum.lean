import Mathlib.Data.List.Basic
import Mathlib.Logic.Function.Basic

/-!
# Checksums that notice one change

A checksum that is computed letter by letter is a fold. If no letter can bring two
different states of the fold together, a difference that has once arisen stays; and if no
state can be brought to the same state by two different letters, a different letter makes
one. So a fold whose step is injective in both arguments tells a word from every word that
differs from it in one place (`Checksum.foldl_set_ne`), however long the words are.
-/

namespace Checksum

variable {σ α : Type} {step : σ → α → σ}

/-- Two states that differ are still different at the end of a word. -/
theorem foldl_injective (hstate : ∀ a, Function.Injective fun s => step s a) (w : List α) :
    Function.Injective fun s => w.foldl step s := by
  induction w with
  | nil => exact fun _ _ h => h
  | cons a w ih => exact ih.comp (hstate a)

/-- **One different letter is noticed.** -/
theorem foldl_set_ne (hstate : ∀ a, Function.Injective fun s => step s a)
    (hletter : ∀ s, Function.Injective (step s)) {w : List α} {i : ℕ} {a b : α}
    (hi : w[i]? = some a) (hne : b ≠ a) (s : σ) :
    (w.set i b).foldl step s ≠ w.foldl step s := by
  induction w generalizing i s with
  | nil => simp at hi
  | cons c w ih =>
    cases i with
    | zero =>
      obtain rfl : c = a := by simpa using hi
      intro heq
      exact hne (hletter s (foldl_injective hstate w heq))
    | succ i => exact ih (by simpa using hi) (step s c)

end Checksum
