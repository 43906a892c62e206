import Mathlib.Algebra.Field.Basic
import Mathlib.Algebra.Module.Torsion.Field
import Mathlib.Tactic.Abel

/-!
Schnorr's proof of knowledge of a scalar, over a group whose scalars are a field. The statement is
`x • base`, the commitment `r • base` and the response `r + c * x` for the challenge `c`.
-/

namespace Vantablack.Lib.Schnorr

variable {F G : Type*} [Field F] [AddCommGroup G] [Module F G]

/-- The verifier's equation, for a commitment and a statement. -/
def Accepts (base commitment statement : G) (c z : F) : Prop :=
  z • base = commitment + c • statement

variable {base commitment statement : G} {c c' x z z' : F}

theorem accepts_response (base : G) (r c x : F) :
    Accepts base (r • base) (x • base) c (r + c * x) := by
  rw [Accepts, add_smul, mul_smul]

namespace Accepts

theorem response_unique (hbase : base ≠ 0) (h : Accepts base commitment statement c z)
    (h' : Accepts base commitment statement c z') : z = z' := by
  apply smul_left_injective F hbase
  show z • base = z' • base
  rw [h, h']

theorem scalar_eq (hbase : base ≠ 0) (hne : c ≠ c')
    (h : Accepts base commitment (x • base) c z) (h' : Accepts base commitment (x • base) c' z') :
    x = (z - z') / (c - c') := by
  have hsub : (z - z') • base = ((c - c') * x) • base := by
    rw [sub_smul, h, h', mul_smul, sub_smul]
    abel
  have hscalar : z - z' = (c - c') * x := smul_left_injective F hbase hsub
  rw [hscalar, mul_div_cancel_left₀ x (sub_ne_zero.mpr hne)]

end Accepts

end Vantablack.Lib.Schnorr
