import Mathlib.Algebra.Group.MinimalAxioms
import Mathlib.Algebra.Group.Subgroup.Lattice
import Mathlib.Data.Matrix.Mul
import Mathlib.Tactic.Abel
import Vantablack.Lib.Bits

/-!
The Pauli group. An element `i ^ phase * X ^ x * Z ^ z` has a power of the imaginary unit in front
and two bits for every qubit: one to flip it, one to mark it with a sign. It acts on the basis
states.
-/

namespace Vantablack.Lib

open Matrix

@[ext]
structure Pauli (ι : Type*) where
  phase : ZMod 4
  x : ι → ZMod 2
  z : ι → ZMod 2

namespace Pauli

variable {ι : Type*} [Fintype ι]

instance : Mul (Pauli ι) :=
  ⟨fun a b => ⟨a.phase + b.phase + half (a.z ⬝ᵥ b.x), a.x + b.x, a.z + b.z⟩⟩

instance : One (Pauli ι) := ⟨⟨0, 0, 0⟩⟩

instance : Inv (Pauli ι) := ⟨fun a => ⟨-a.phase + half (a.z ⬝ᵥ a.x), a.x, a.z⟩⟩

variable {a b : Pauli ι}

@[simp] theorem phase_mul : (a * b).phase = a.phase + b.phase + half (a.z ⬝ᵥ b.x) := rfl

@[simp] theorem x_mul : (a * b).x = a.x + b.x := rfl

@[simp] theorem z_mul : (a * b).z = a.z + b.z := rfl

omit [Fintype ι] in
@[simp] theorem phase_one : (1 : Pauli ι).phase = 0 := rfl

omit [Fintype ι] in
@[simp] theorem x_one : (1 : Pauli ι).x = 0 := rfl

omit [Fintype ι] in
@[simp] theorem z_one : (1 : Pauli ι).z = 0 := rfl

@[simp] theorem phase_inv : (a⁻¹).phase = -a.phase + half (a.z ⬝ᵥ a.x) := rfl

@[simp] theorem x_inv : (a⁻¹).x = a.x := rfl

@[simp] theorem z_inv : (a⁻¹).z = a.z := rfl

omit [Fintype ι] in
theorem bits_add_self (v : ι → ZMod 2) : v + v = 0 := funext fun j => bit_add_self (v j)

instance : Group (Pauli ι) :=
  Group.ofLeftAxioms
    (fun a b c => by
      ext1
      · simp only [phase_mul, z_mul, x_mul, add_dotProduct, dotProduct_add, map_add]
        abel
      · exact add_assoc _ _ _
      · exact add_assoc _ _ _)
    (fun a => by
      ext1
      · simp
      · exact zero_add _
      · exact zero_add _)
    fun a => by
      ext1
      · simp only [phase_mul, phase_inv, z_inv, phase_one]
        rw [show -a.phase + half (a.z ⬝ᵥ a.x) + a.phase + half (a.z ⬝ᵥ a.x) =
          half (a.z ⬝ᵥ a.x) + half (a.z ⬝ᵥ a.x) by abel, half_add_self]
      · exact bits_add_self _
      · exact bits_add_self _

/-- A basis state with a power of the imaginary unit in front. -/
abbrev PhasedState (ι : Type*) := ZMod 4 × (ι → ZMod 2)

instance : MulAction (Pauli ι) (PhasedState ι) where
  smul a v := (v.1 + a.phase + half (a.z ⬝ᵥ v.2), v.2 + a.x)
  one_smul v := by
    show (v.1 + 0 + half ((0 : ι → ZMod 2) ⬝ᵥ v.2), v.2 + 0) = v
    simp
  mul_smul a b v := by
    show (_, _) = ((_, _) : PhasedState ι)
    refine Prod.ext ?_ ?_
    · show v.1 + (a.phase + b.phase + half (a.z ⬝ᵥ b.x)) + half ((a.z + b.z) ⬝ᵥ v.2) =
        v.1 + b.phase + half (b.z ⬝ᵥ v.2) + a.phase + half (a.z ⬝ᵥ (v.2 + b.x))
      rw [add_dotProduct, dotProduct_add, map_add, map_add]
      abel
    · show v.2 + (a.x + b.x) = v.2 + b.x + a.x
      abel

theorem smul_eq (a : Pauli ι) (v : PhasedState ι) :
    a • v = (v.1 + a.phase + half (a.z ⬝ᵥ v.2), v.2 + a.x) := rfl

/-! ### The generators and the signs -/

section Generators

variable [DecidableEq ι]

/-- The flip of a qubit. -/
def flip (j : ι) : Pauli ι := ⟨0, Pi.single j 1, 0⟩

/-- The change of the sign where a qubit is set. -/
def mark (j : ι) : Pauli ι := ⟨0, 0, Pi.single j 1⟩

end Generators

/-- The element that changes no state but its sign. -/
def sign (s : ZMod 2) : Pauli ι := ⟨half s, 0, 0⟩

theorem sign_mul (s : ZMod 2) (a : Pauli ι) : sign s * a = ⟨half s + a.phase, a.x, a.z⟩ := by
  ext1
  · show half s + a.phase + half ((0 : ι → ZMod 2) ⬝ᵥ a.x) = half s + a.phase
    rw [zero_dotProduct, map_zero, add_zero]
  · exact zero_add a.x
  · exact zero_add a.z

theorem mul_sign (s : ZMod 2) (a : Pauli ι) : a * sign s = sign s * a := by
  rw [sign_mul]
  ext1
  · show a.phase + half s + half (a.z ⬝ᵥ (0 : ι → ZMod 2)) = half s + a.phase
    rw [dotProduct_zero, map_zero, add_zero, add_comm]
  · exact add_zero a.x
  · exact add_zero a.z

theorem sign_add (s t : ZMod 2) : (sign (s + t) : Pauli ι) = sign s * sign t := by
  rw [sign_mul]
  exact Pauli.ext (map_add half s t) rfl rfl

omit [Fintype ι] in
@[simp] theorem sign_zero : (sign 0 : Pauli ι) = 1 := rfl

theorem sign_mul_eq_self_iff (s : ZMod 2) (a : Pauli ι) : sign s * a = a ↔ s = 0 := by
  constructor
  · intro h
    have hphase : half s + a.phase = a.phase := by
      rw [sign_mul] at h
      exact congrArg Pauli.phase h
    exact half_eq_zero.mp (add_eq_right.mp hphase)
  · rintro rfl
    rw [sign_zero, one_mul]

/-- Two elements commute unless an odd number of flips meets the marks of the other. -/
theorem commute_iff : Commute a b ↔ a.z ⬝ᵥ b.x = b.z ⬝ᵥ a.x := by
  have hphases : (a * b).phase = (b * a).phase ↔ a.z ⬝ᵥ b.x = b.z ⬝ᵥ a.x := by
    rw [phase_mul, phase_mul, add_comm b.phase, add_right_inj]
    exact half_injective.eq_iff
  rw [← hphases]
  constructor
  · intro h
    exact congrArg Pauli.phase h
  · intro h
    exact Pauli.ext h (add_comm _ _) (add_comm _ _)

end Pauli

end Vantablack.Lib
