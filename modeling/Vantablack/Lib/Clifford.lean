import Mathlib.Tactic.LinearCombination
import Vantablack.Lib.Pauli

/-!
The automorphisms of the Pauli group that are the conjugations by the gates H, S, CNOT, CZ and SWAP,
with what each does to the generators.
-/

namespace Vantablack.Lib

namespace Pauli

open Matrix

variable {ι : Type*} [Fintype ι] [DecidableEq ι]

omit [Fintype ι] in
theorem update_eq_add_single (v : ι → ZMod 2) (q : ι) (b : ZMod 2) :
    Function.update v q b = v + Pi.single q (v q + b) := by
  funext j
  by_cases hj : j = q
  · subst hj
    rw [Function.update_self, Pi.add_apply, Pi.single_eq_same, ← add_assoc, bit_add_self, zero_add]
  · rw [Function.update_of_ne hj, Pi.add_apply, Pi.single_eq_of_ne hj, add_zero]

theorem update_dotProduct_update (u v : ι → ZMod 2) (q : ι) (a b : ZMod 2) :
    Function.update u q a ⬝ᵥ Function.update v q b = u ⬝ᵥ v + u q * v q + a * b := by
  rw [update_eq_add_single, update_eq_add_single, add_dotProduct, dotProduct_add, dotProduct_add,
    dotProduct_single, single_dotProduct, single_dotProduct, Pi.single_eq_same]
  generalize u q = c, v q = d
  generalize u ⬝ᵥ v = s
  revert a b c d s
  decide

/-! ### H -/

/-- What H makes of an element: a flip becomes a mark, a mark a flip. -/
def exchange (q : ι) (a : Pauli ι) : Pauli ι :=
  ⟨a.phase + half (a.x q * a.z q), Function.update a.x q (a.z q), Function.update a.z q (a.x q)⟩

variable (q : ι)

theorem exchange_mul (a b : Pauli ι) : exchange q (a * b) = exchange q a * exchange q b := by
  have hbits : ∀ c d e f : ZMod 2,
      half ((c + e) * (d + f)) = half (c * d) + half (e * f) + half (d * e) + half (c * f) := by
    decide
  refine Pauli.ext ?_ ?_ ?_
  · simp only [exchange, phase_mul, x_mul, z_mul, Pi.add_apply, update_dotProduct_update, map_add]
    rw [hbits]
    abel
  · simp only [exchange, x_mul, z_mul, Pi.add_apply, Function.update_add]
  · simp only [exchange, x_mul, z_mul, Pi.add_apply, Function.update_add]

omit [Fintype ι] in
theorem exchange_involutive : Function.Involutive (exchange q) := by
  intro a
  refine Pauli.ext ?_ ?_ ?_
  · simp only [exchange, Function.update_self]
    rw [mul_comm (a.z q), add_assoc, half_add_self, add_zero]
  · simp [exchange]
  · simp [exchange]

/-- The conjugation by H. -/
def had (q : ι) : MulAut (Pauli ι) :=
  MulEquiv.mk' (exchange_involutive q).toPerm (exchange_mul q)

/-! ### S -/

/-- What S makes of an element: a flip is marked as well, with a quarter turn. -/
def turn (q : ι) (a : Pauli ι) : Pauli ι :=
  ⟨a.phase + quarter (a.x q), a.x, a.z + Pi.single q (a.x q)⟩

/-- The same for the inverse of S. -/
def turnBack (q : ι) (a : Pauli ι) : Pauli ι :=
  ⟨a.phase - quarter (a.x q), a.x, a.z + Pi.single q (a.x q)⟩

omit [Fintype ι] in
theorem add_single_add_single (v : ι → ZMod 2) (q : ι) (b : ZMod 2) :
    v + Pi.single q b + Pi.single q b = v := by
  rw [add_assoc, bits_add_self, add_zero]

theorem turn_mul (a b : Pauli ι) : turn q (a * b) = turn q a * turn q b := by
  refine Pauli.ext ?_ rfl ?_
  · simp only [turn, phase_mul, x_mul, Pi.add_apply, add_dotProduct, single_dotProduct, map_add,
      quarter_add]
    abel
  · simp only [turn, x_mul, z_mul, Pi.add_apply, Pi.single_add]
    abel

/-- The conjugation by S. -/
def phaseGate (q : ι) : MulAut (Pauli ι) :=
  MulEquiv.mk'
    { toFun := turn q
      invFun := turnBack q
      left_inv := fun a =>
        Pauli.ext (add_sub_cancel_right _ _) rfl (add_single_add_single a.z q (a.x q))
      right_inv := fun a =>
        Pauli.ext (sub_add_cancel _ _) rfl (add_single_add_single a.z q (a.x q)) }
    (turn_mul q)

/-! ### CNOT -/

/-- What CNOT makes of an element: a flip of the control flips the target as well, a mark of the
target marks the control as well. -/
def spread (c t : ι) (a : Pauli ι) : Pauli ι :=
  ⟨a.phase, a.x + Pi.single t (a.x c), a.z + Pi.single c (a.z t)⟩

theorem spread_mul {c t : ι} (hct : c ≠ t) (a b : Pauli ι) :
    spread c t (a * b) = spread c t a * spread c t b := by
  refine Pauli.ext ?_ ?_ ?_
  · simp only [spread, phase_mul, add_dotProduct, dotProduct_add, single_dotProduct,
      dotProduct_single, Pi.add_apply, Pi.single_eq_of_ne hct.symm, add_zero, map_add]
    rw [add_assoc (half (a.z ⬝ᵥ b.x)), half_add_self, add_zero]
  · simp only [spread, x_mul, Pi.add_apply, Pi.single_add]
    abel
  · simp only [spread, z_mul, Pi.add_apply, Pi.single_add]
    abel

omit [Fintype ι] in
theorem spread_involutive {c t : ι} (hct : c ≠ t) : Function.Involutive (spread c t) := by
  intro a
  refine Pauli.ext rfl ?_ ?_
  · simp only [spread, Pi.add_apply, Pi.single_eq_of_ne hct, add_zero]
    exact add_single_add_single a.x t (a.x c)
  · simp only [spread, Pi.add_apply, Pi.single_eq_of_ne hct.symm, add_zero]
    exact add_single_add_single a.z c (a.z t)

/-- The conjugation by CNOT. -/
def cnot {c t : ι} (hct : c ≠ t) : MulAut (Pauli ι) :=
  MulEquiv.mk' (spread_involutive hct).toPerm (spread_mul hct)

example : cnot (by decide : (0 : Fin 2) ≠ 1) (flip 0) = flip 0 * flip 1 := by
  ext1 <;> decide

section Fields

variable {c t : ι} (hct : c ≠ t) (a : Pauli ι)

theorem cnot_x_control : (cnot hct a).x c = a.x c := by
  show a.x c + (Pi.single t (a.x c) : ι → ZMod 2) c = a.x c
  rw [Pi.single_eq_of_ne hct, add_zero]

theorem cnot_x_target : (cnot hct a).x t = a.x t + a.x c := by
  show a.x t + (Pi.single t (a.x c) : ι → ZMod 2) t = a.x t + a.x c
  rw [Pi.single_eq_same]

theorem cnot_z_control : (cnot hct a).z c = a.z c + a.z t := by
  show a.z c + (Pi.single c (a.z t) : ι → ZMod 2) c = a.z c + a.z t
  rw [Pi.single_eq_same]

theorem cnot_z_target : (cnot hct a).z t = a.z t := by
  show a.z t + (Pi.single c (a.z t) : ι → ZMod 2) t = a.z t
  rw [Pi.single_eq_of_ne hct.symm, add_zero]

end Fields

/-! ### CZ -/

/-- What CZ makes of an element: a flip of either qubit marks the other one. -/
def crossMark (c t : ι) (a : Pauli ι) : Pauli ι :=
  ⟨a.phase + half (a.x c * a.x t), a.x, a.z + Pi.single c (a.x t) + Pi.single t (a.x c)⟩

theorem crossMark_mul (c t : ι) (a b : Pauli ι) :
    crossMark c t (a * b) = crossMark c t a * crossMark c t b := by
  refine Pauli.ext ?_ rfl ?_
  · simp only [crossMark, phase_mul, x_mul, Pi.add_apply, add_dotProduct, single_dotProduct,
      map_add, add_mul, mul_add]
    rw [mul_comm (b.x c) (a.x t)]
    abel
  · simp only [crossMark, x_mul, z_mul, Pi.add_apply, Pi.single_add]
    abel

omit [Fintype ι] in
theorem crossMark_involutive (c t : ι) : Function.Involutive (crossMark c t) := by
  intro a
  refine Pauli.ext ?_ rfl ?_
  · simp only [crossMark]
    rw [add_assoc, half_add_self, add_zero]
  · simp only [crossMark]
    rw [add_right_comm _ (Pi.single t _), add_single_add_single, add_single_add_single]

/-- The conjugation by CZ. -/
def cz (c t : ι) : MulAut (Pauli ι) :=
  MulEquiv.mk' (crossMark_involutive c t).toPerm (crossMark_mul c t)

/-! ### SWAP -/

/-- What SWAP makes of an element: the two qubits trade their bits. -/
def trade (c t : ι) (a : Pauli ι) : Pauli ι :=
  ⟨a.phase, a.x ∘ Equiv.swap c t, a.z ∘ Equiv.swap c t⟩

theorem trade_mul (c t : ι) (a b : Pauli ι) : trade c t (a * b) = trade c t a * trade c t b := by
  refine Pauli.ext ?_ rfl rfl
  show a.phase + b.phase + half (a.z ⬝ᵥ b.x) =
    a.phase + b.phase + half ((a.z ∘ Equiv.swap c t) ⬝ᵥ (b.x ∘ Equiv.swap c t))
  rw [comp_equiv_dotProduct_comp_equiv]

omit [Fintype ι] in
theorem trade_involutive (c t : ι) : Function.Involutive (trade c t) := by
  intro a
  refine Pauli.ext rfl ?_ ?_
  · funext j
    exact congrArg a.x (Equiv.swap_apply_self c t j)
  · funext j
    exact congrArg a.z (Equiv.swap_apply_self c t j)

/-- The conjugation by SWAP. -/
def swap (c t : ι) : MulAut (Pauli ι) :=
  MulEquiv.mk' (trade_involutive c t).toPerm (trade_mul c t)

/-! ### X, Y and Z -/

omit [DecidableEq ι] in
theorem conj_eq_sign_mul (g a : Pauli ι) :
    MulAut.conj g a = sign (g.z ⬝ᵥ a.x + a.z ⬝ᵥ g.x) * a := by
  have hswap : g * a = sign (g.z ⬝ᵥ a.x + a.z ⬝ᵥ g.x) * (a * g) := by
    rw [sign_mul]
    refine Pauli.ext ?_ (add_comm _ _) (add_comm _ _)
    rw [phase_mul, phase_mul, map_add]
    have hself := half_add_self (a.z ⬝ᵥ g.x)
    show _ = half (g.z ⬝ᵥ a.x) + half (a.z ⬝ᵥ g.x) + (a.phase + g.phase + half (a.z ⬝ᵥ g.x))
    linear_combination -hself
  rw [MulAut.conj_apply, hswap, mul_assoc, mul_assoc, mul_inv_cancel, mul_one]

/-- The change of the sign where the flip of a qubit is met, and the flip: Y. -/
def both (q : ι) : Pauli ι := ⟨1, Pi.single q 1, Pi.single q 1⟩

theorem had_mark : had q (mark q) = flip q := by
  refine Pauli.ext ?_ ?_ ?_
  · show (0 : ZMod 4) + half (0 * _) = 0
    rw [zero_mul, map_zero, add_zero]
  · show Function.update (0 : ι → ZMod 2) q (Pi.single (M := fun _ => ZMod 2) q 1 q) = Pi.single q 1
    rw [Pi.single_eq_same]
    rfl
  · show Function.update (Pi.single q 1) q 0 = (0 : ι → ZMod 2)
    simp [Pi.single]

theorem phaseGate_flip : phaseGate q (flip q) = both q := by
  refine Pauli.ext ?_ rfl ?_
  · show (0 : ZMod 4) + quarter (Pi.single (M := fun _ => ZMod 2) q 1 q) = 1
    rw [Pi.single_eq_same]
    rfl
  · show (0 : ι → ZMod 2) + Pi.single q (Pi.single (M := fun _ => ZMod 2) q 1 q) = Pi.single q 1
    rw [Pi.single_eq_same, zero_add]

theorem phaseGate_mul_self : phaseGate q * phaseGate q = MulAut.conj (mark q : Pauli ι) := by
  refine MulEquiv.ext fun a => ?_
  rw [conj_eq_sign_mul, sign_mul]
  refine Pauli.ext ?_ rfl (add_single_add_single a.z q (a.x q))
  show a.phase + quarter (a.x q) + quarter (a.x q) =
    half (Pi.single q 1 ⬝ᵥ a.x + a.z ⬝ᵥ (0 : ι → ZMod 2)) + a.phase
  rw [single_dotProduct, one_mul, dotProduct_zero, add_zero, add_assoc, add_comm]
  have hquarters : ∀ b : ZMod 2, quarter b + quarter b = half b := by decide
  rw [hquarters]

omit [DecidableEq ι] in
theorem mul_conj_mul_inv (f : MulAut (Pauli ι)) (g : Pauli ι) :
    f * MulAut.conj g * f⁻¹ = MulAut.conj (f g) := by
  refine MulEquiv.ext fun a => ?_
  simp

theorem had_inv : (had q : MulAut (Pauli ι))⁻¹ = had q := rfl

theorem had_phaseGate_had :
    had q * (phaseGate q * phaseGate q) * had q = MulAut.conj (flip q : Pauli ι) := by
  rw [phaseGate_mul_self, ← had_mark, ← mul_conj_mul_inv, had_inv]

theorem phaseGate_conj_flip :
    phaseGate q * MulAut.conj (flip q) * (phaseGate q)⁻¹ = MulAut.conj (both q : Pauli ι) := by
  rw [mul_conj_mul_inv, phaseGate_flip]

theorem had_cnot_had {c t : ι} (hct : c ≠ t) : had t * cnot hct * had t = cz c t := by
  refine MulEquiv.ext fun a => ?_
  show exchange t (spread c t (exchange t a)) = crossMark c t a
  have hbits : ∀ b d e : ZMod 2, half (b * d) + half ((d + e) * b) = half (e * b) := by decide
  refine Pauli.ext ?_ ?_ ?_
  · simp only [exchange, spread, crossMark, Pi.add_apply, Function.update_self,
      Function.update_of_ne hct, Pi.single_eq_same, Pi.single_eq_of_ne hct.symm, add_zero]
    rw [add_assoc, hbits]
  · funext j
    by_cases hj : j = t
    · subst hj
      simp [exchange, spread, crossMark, hct.symm]
    · simp [exchange, spread, crossMark, hj]
  · funext j
    by_cases hj : j = t
    · subst hj
      simp [exchange, spread, crossMark, hct, hct.symm]
    · simp [exchange, spread, crossMark, hj]

theorem cnot_cnot_cnot {c t : ι} (hct : c ≠ t) :
    cnot hct * cnot hct.symm * cnot hct = swap c t := by
  refine MulEquiv.ext fun a => ?_
  show spread c t (spread t c (spread c t a)) = trade c t a
  have hbits : ∀ b d : ZMod 2, b + (d + b) = d ∧ b + d + b = d := by decide
  refine Pauli.ext rfl ?_ ?_
  · funext j
    by_cases hc : j = c
    · subst hc
      simp [spread, trade, hct, hct.symm, hbits]
    · by_cases ht : j = t
      · subst ht
        simp [spread, trade, hct, hct.symm, hbits]
      · simp [spread, trade, hc, ht, Equiv.swap_apply_of_ne_of_ne]
  · funext j
    by_cases hc : j = c
    · subst hc
      simp [spread, trade, hct, hct.symm, hbits]
    · by_cases ht : j = t
      · subst ht
        simp [spread, trade, hct, hct.symm, hbits]
      · simp [spread, trade, hc, ht, Equiv.swap_apply_of_ne_of_ne]

/-! ### The signs are kept -/

theorem had_sign (e : ZMod 2) : had q (sign e : Pauli ι) = sign e := by
  refine Pauli.ext ?_ (Function.update_eq_self q (0 : ι → ZMod 2))
    (Function.update_eq_self q (0 : ι → ZMod 2))
  show half e + half (0 * 0) = half e
  rw [mul_zero, map_zero, add_zero]

theorem phaseGate_sign (e : ZMod 2) : phaseGate q (sign e : Pauli ι) = sign e := by
  refine Pauli.ext (add_zero _) rfl ?_
  show (0 : ι → ZMod 2) + Pi.single q 0 = 0
  rw [Pi.single_zero, add_zero]

theorem cnot_sign {c t : ι} (hct : c ≠ t) (e : ZMod 2) : cnot hct (sign e : Pauli ι) = sign e := by
  refine Pauli.ext rfl ?_ ?_
  · show (0 : ι → ZMod 2) + Pi.single t 0 = 0
    rw [Pi.single_zero, add_zero]
  · show (0 : ι → ZMod 2) + Pi.single c 0 = 0
    rw [Pi.single_zero, add_zero]

theorem cz_sign (c t : ι) (e : ZMod 2) : cz c t (sign e : Pauli ι) = sign e := by
  refine Pauli.ext ?_ rfl ?_
  · show half e + half (0 * 0) = half e
    rw [mul_zero, map_zero, add_zero]
  · show (0 : ι → ZMod 2) + Pi.single c 0 + Pi.single t 0 = 0
    rw [Pi.single_zero, Pi.single_zero, add_zero, add_zero]

end Pauli

end Vantablack.Lib
