import Mathlib.Data.Int.Basic
import Mathlib.Tactic.Ring

/-!
# Clock readings

A reading of `std::chrono::steady_clock` is a natural number of nanoseconds. `elapsedMs` is the
`duration_cast<milliseconds>` of the code, which truncates towards zero.
-/

namespace LlmGateway

/-- The milliseconds from the reading `since` to the reading `now`. -/
def elapsedMs (since now : ℕ) : ℤ := ((now : ℤ) - since).tdiv 1000000

/-- A timeout of `ms` milliseconds has passed exactly when the clock is that far on. -/
theorem le_elapsedMs_iff {since now : ℕ} (ms : ℤ) (h : since ≤ now) :
    ms ≤ elapsedMs since now ↔ since + ms * 1000000 ≤ now := by
  unfold elapsedMs
  rw [Int.tdiv_eq_ediv_of_nonneg (by omega), Int.le_ediv_iff_mul_le (by decide)]
  omega

end LlmGateway
