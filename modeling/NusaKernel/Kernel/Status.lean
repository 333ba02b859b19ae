import NusaKernel.Lib.SerialOrder

/-!
# Status codes and kernel time

The values of `status_t` (`nusa/err.h`) that the modelled kernel functions return, and
`nusa_time_t` (`sys/types.h`), a 32-bit millisecond counter whose order is the sign of the
wrapping difference.
-/

namespace NusaKernel

/-- `status_t`: zero or positive is success, negative is an error. -/
abbrev Status := Int

def noError : Status := 0
def errNotFound : Status := -2
def errNotReady : Status := -3
def errNoMsg : Status := -4
def errNoMemory : Status := -5
def errInvalidArgs : Status := -8
def errNotEnoughBuffer : Status := -9
def errObjectDestroyed : Status := -11
def errNotBlocked : Status := -12
def errTimedOut : Status := -13
def errAlreadyExists : Status := -14
def errNotAllowed : Status := -17
def errBadPath : Status := -18
def errAlreadyMounted : Status := -19
def errIo : Status := -20
def errNotSupported : Status := -24
def errTooBig : Status := -25
def errCancelled : Status := -26
def errCrcFail : Status := -29
def errBadState : Status := -31
def errBusy : Status := -33
def errThreadDetached : Status := -34
def errOutOfRange : Status := -37
def errNotMounted : Status := -39
def errNoResources : Status := -41
def errBadHandle : Status := -42
def errPartialWrite : Status := -44

/-- A timeout is an error. -/
theorem err_timed_out_neg : errTimedOut < noError := by decide

/-- The result of arithmetic on a C `int`, wrapped to 32 bits. -/
def wrapInt (value : Int) : Int := value.bmod (2 ^ 32)

/-- `INT_MIN`. -/
def intMin : Int := -2 ^ 31

/-- `INT_MAX`. -/
def intMax : Int := 2 ^ 31 - 1

/-- Arithmetic that stays in the range of an `int` is exact. -/
theorem wrap_int_eq {value : Int} (hmin : intMin ≤ value) (hmax : value ≤ intMax) :
    wrapInt value = value := by
  unfold intMin at hmin
  unfold intMax at hmax
  exact Int.bmod_eq_of_le (by omega) (by omega)

/-- `nusa_time_t`. -/
abbrev Time := BitVec 32

/-- `INFINITE_TIME`, the timeout of a wait that arms no timer. -/
def infiniteTime : Time := 0xFFFFFFFF#32

/-- `TIME_GT(a, b)`: the 32-bit difference, read as signed, is positive. -/
def timeGt (a b : Time) : Bool := 0 < (a - b).toInt

/-- `TIME_LT(a, b)`: the 32-bit difference, read as signed, is negative. -/
def timeLt (a b : Time) : Bool := (a - b).toInt < 0

/-- `timeAt clock` is what `current_time` returns `clock` milliseconds after the counter last
stood at zero before the run. -/
def timeAt (clock : ℕ) : Time := BitVec.ofNat 32 clock

theorem time_at_add (clock : ℕ) (delay : Time) :
    timeAt clock + delay = timeAt (clock + delay.toNat) := by
  unfold timeAt
  rw [BitVec.ofNat_add, BitVec.ofNat_toNat, BitVec.setWidth_eq]

/-- `TIME_GT` is exact for times less than half the range of the counter apart. -/
theorem time_gt_time_at {x y : ℕ} (hlow : y ≤ x + 2 ^ 31) (hhigh : x < y + 2 ^ 31) :
    timeGt (timeAt x) (timeAt y) = decide (y < x) := by
  have hsub := SerialOrder.toInt_ofNat_sub_ofNat 31 hlow hhigh
  unfold timeGt timeAt
  rw [hsub]
  exact decide_eq_decide.mpr (by omega)

/-- `TIME_LT` is exact for times less than half the range of the counter apart. -/
theorem time_lt_time_at {x y : ℕ} (hlow : y ≤ x + 2 ^ 31) (hhigh : x < y + 2 ^ 31) :
    timeLt (timeAt x) (timeAt y) = decide (x < y) := by
  have hsub := SerialOrder.toInt_ofNat_sub_ofNat 31 hlow hhigh
  unfold timeLt timeAt
  rw [hsub]
  exact decide_eq_decide.mpr (by omega)

end NusaKernel
