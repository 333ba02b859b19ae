import Mathlib.Data.BitVec
import Mathlib.Tactic.NormNum

/-!
# Serial-number order

A counter that wraps around is compared by the sign of the wrapping difference. That is the order
of the numbers behind the counters as long as they are less than half the range apart, and
`toInt_ofNat_sub_ofNat` is the fact that every use of it rests on.
-/

namespace SerialOrder

open BitVec

/-- Inside the window the wrapping difference of two counters of `w + 1` bits is exact. -/
theorem toInt_ofNat_sub_ofNat (w : ℕ) {x y : ℕ} (hlow : y ≤ x + 2 ^ w) (hhigh : x < y + 2 ^ w) :
    (BitVec.ofNat (w + 1) x - BitVec.ofNat (w + 1) y).toInt = (x : ℤ) - y := by
  rw [← ofInt_natCast, ← ofInt_natCast, toInt_sub, toInt_ofInt,
    toInt_ofInt, Int.bmod_sub_bmod, Int.sub_bmod_bmod]
  exact Int.bmod_eq_of_le (by omega) (by omega)

end SerialOrder
