import Mathlib

/-! # Cutting a length evenly

A length is cut into parts of length `q`, of which the first `r` are one longer.  `evenCut q r i` is
where part `i` starts: the parts before it have been passed, and as many of the longer ones as there
are among them.  With the quotient and the remainder of a length by the number of parts the last part
ends at the length itself (`evenCut_div_mod`). -/

namespace LogosDelivery.Lib

variable {q r : ℤ} {i : ℕ}

def evenCut (q r : ℤ) (i : ℕ) : ℤ := i * q + min (i : ℤ) r

theorem evenCut_zero (hr : 0 ≤ r) : evenCut q r 0 = 0 := by
  simp [evenCut, hr]

theorem evenCut_nonneg (hq : 0 ≤ q) (hr : 0 ≤ r) : 0 ≤ evenCut q r i := by
  have hmul : 0 ≤ (i : ℤ) * q := mul_nonneg (by omega) hq
  unfold evenCut
  omega

/-- A part has length `q`, one more when it is among the first `r`. -/
theorem evenCut_succ : evenCut q r (i + 1) = evenCut q r i + (if (i : ℤ) < r then q + 1 else q) := by
  unfold evenCut
  push_cast
  rw [add_mul, one_mul]
  split_ifs <;> omega

/-- Behind the first part the rest is cut the same way, with one longer part less. -/
theorem evenCut_succ_pred : evenCut q r (i + 1) = q + 1 + evenCut q (r - 1) i := by
  unfold evenCut
  push_cast
  rw [add_mul, one_mul]
  omega

theorem evenCut_succ_zero : evenCut q 0 (i + 1) = q + evenCut q 0 i := by
  unfold evenCut
  push_cast
  rw [add_mul, one_mul]
  omega

/-- The last part ends where the length ends. -/
theorem evenCut_div_mod {n : ℕ} (hn : 0 < n) (t : ℤ) : evenCut (t / n) (t % n) n = t := by
  have hlt : t % n < n := Int.emod_lt_of_pos t (by omega)
  have hsum := Int.mul_ediv_add_emod t n
  rw [evenCut, min_eq_right hlt.le]
  exact hsum

end LogosDelivery.Lib
