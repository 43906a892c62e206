import Mathlib.Algebra.Field.ZMod
import Mathlib.Data.ZMod.Basic

/-!
Bits as the field of two elements, and as turns of a phase of which four make a full one.
-/

namespace Vantablack.Lib

/-- A truth value as an element of the field. -/
def bit (b : Bool) : ZMod 2 := if b then 1 else 0

theorem bit_xor (a b : Bool) : bit (a ^^ b) = bit a + bit b := by
  revert a b
  decide

theorem bit_and (a b : Bool) : bit (a && b) = bit a * bit b := by
  revert a b
  decide

theorem bit_eq_zero {a : Bool} : bit a = 0 ↔ a = false := by
  revert a
  decide

/-- A bit as a half turn of the phase. -/
def half : ZMod 2 →+ ZMod 4 where
  toFun a := 2 * (a.val : ZMod 4)
  map_zero' := rfl
  map_add' := by decide

/-- A bit as a quarter turn of the phase. -/
def quarter (a : ZMod 2) : ZMod 4 := (a.val : ZMod 4)

theorem half_add_self (a : ZMod 2) : half a + half a = 0 := by
  revert a
  decide

theorem half_injective : Function.Injective half := by
  decide

theorem half_eq_zero {a : ZMod 2} : half a = 0 ↔ a = 0 := by
  revert a
  decide

theorem quarter_add (a b : ZMod 2) : quarter (a + b) = quarter a + quarter b + half (a * b) := by
  revert a b
  decide

theorem bit_add_self (a : ZMod 2) : a + a = 0 := by
  revert a
  decide

end Vantablack.Lib
