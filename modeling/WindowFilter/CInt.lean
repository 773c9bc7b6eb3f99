import Mathlib.Data.Int.Basic
import Mathlib.Algebra.Order.Ring.Int

/- The C `int` of the target: 32 bits, two's complement. Arithmetic on it is
   integer arithmetic followed by `int32`, the value the -O0 build leaves in the
   register; `int32_eq` removes it wherever the result fits. Division is C's,
   truncated towards zero (`Int.tdiv`). -/
namespace WindowFilter

def INT_MAX : Int := 2147483647
def INT_MIN : Int := -2147483648

/-- The 32-bit value of an integer result. -/
def int32 (x : Int) : Int := (x + 2147483648) % 4294967296 - 2147483648

/-- The integers a C `int` can hold. -/
def InInt (x : Int) : Prop := INT_MIN ≤ x ∧ x ≤ INT_MAX

instance (x : Int) : Decidable (InInt x) := inferInstanceAs (Decidable (_ ∧ _))

theorem inInt_iff {x : Int} : InInt x ↔ -2147483648 ≤ x ∧ x ≤ 2147483647 := Iff.rfl

theorem int32_inInt (x : Int) : InInt (int32 x) := by
  rw [inInt_iff, int32]
  omega

theorem int32_eq {x : Int} (h : InInt x) : int32 x = x := by
  rw [inInt_iff] at h
  rw [int32]
  omega

theorem int32_small {x : Int} (h0 : 0 ≤ x) (h1 : x ≤ 1000) : int32 x = x := by
  apply int32_eq
  rw [inInt_iff]
  omega

end WindowFilter
