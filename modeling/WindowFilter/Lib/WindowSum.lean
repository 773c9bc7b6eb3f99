import Mathlib.Algebra.BigOperators.Intervals
import Mathlib.Tactic.Ring

/- Sums over a sliding window: `windowSum s k w` adds the last `w` terms of the
   sequence `s` up to its term `k`. -/
namespace WindowSum

section Monoid

variable {M : Type} [AddCommMonoid M]

/-- `s k + s (k - 1) + ... + s (k - w + 1)`. -/
def windowSum (s : Int → M) (k : Int) (w : Nat) : M := ∑ i ∈ Finset.range w, s (k - i)

@[simp] theorem windowSum_zero (s : Int → M) (k : Int) : windowSum s k 0 = 0 := rfl

theorem windowSum_succ (s : Int → M) (k : Int) (w : Nat) :
    windowSum s k (w + 1) = windowSum s k w + s (k - w) :=
  Finset.sum_range_succ _ w

/-- Sliding the window on by one takes in the next term and lets go of the last. -/
theorem windowSum_slide (s : Int → M) (k : Int) (w : Nat) :
    windowSum s (k + 1) w + s (k + 1 - w) = s (k + 1) + windowSum s k w := by
  induction w with
  | zero => simp
  | succ w ih =>
    have hlast : k + 1 - ((w + 1 : Nat) : Int) = k - w := by
      push_cast
      ring
    calc windowSum s (k + 1) (w + 1) + s (k + 1 - ((w + 1 : Nat) : Int))
        = windowSum s (k + 1) w + s (k + 1 - w) + s (k - w) := by rw [windowSum_succ, hlast]
      _ = s (k + 1) + (windowSum s k w + s (k - w)) := by rw [ih, add_assoc]
      _ = s (k + 1) + windowSum s k (w + 1) := by rw [windowSum_succ]

end Monoid

/-- A window of `w` terms between `lo` and `hi` sums to between `w * lo` and `w * hi`. -/
theorem windowSum_bounds {s : Int → Int} {lo hi : Int} (h : ∀ j, lo ≤ s j ∧ s j ≤ hi) (k : Int) (w : Nat) :
    (w : Int) * lo ≤ windowSum s k w ∧ windowSum s k w ≤ (w : Int) * hi := by
  induction w with
  | zero => simp
  | succ w ih =>
    have hterm := h (k - w)
    rw [windowSum_succ]
    push_cast
    refine ⟨?_, ?_⟩
    · calc ((w : Int) + 1) * lo = w * lo + lo := by ring
        _ ≤ windowSum s k w + s (k - w) := Int.add_le_add ih.1 hterm.1
    · calc windowSum s k w + s (k - w) ≤ w * hi + hi := Int.add_le_add ih.2 hterm.2
        _ = ((w : Int) + 1) * hi := by ring

end WindowSum
