import Mathlib.LinearAlgebra.BilinearMap
import Mathlib.LinearAlgebra.Dimension.Constructions
import Mathlib.LinearAlgebra.FiniteDimensional.Lemmas
import Mathlib.Tactic.LinearCombination
import Vantablack.Lib.Pauli

/-!
The bits of the Pauli elements as a vector space with the form that says which of them commute. Two
families of which each member meets exactly its partner span the space, so that a vector that meets
no member of the one family is a sum of them.
-/

namespace Vantablack.Lib

open Matrix

variable {ι : Type*} [Fintype ι]

abbrev Symplectic (ι : Type*) := (ι → ZMod 2) × (ι → ZMod 2)

/-- Zero where the elements commute, one where they do not. -/
def omega : Symplectic ι →ₗ[ZMod 2] Symplectic ι →ₗ[ZMod 2] ZMod 2 :=
  LinearMap.mk₂ (ZMod 2) (fun u v => u.2 ⬝ᵥ v.1 + v.2 ⬝ᵥ u.1)
    (fun u u' v => by
      simp only [Prod.fst_add, Prod.snd_add, add_dotProduct, dotProduct_add]
      abel)
    (fun c u v => by simp [mul_add])
    (fun u v v' => by
      simp only [Prod.fst_add, Prod.snd_add, add_dotProduct, dotProduct_add]
      abel)
    (fun c u v => by simp [mul_add])

theorem omega_apply (u v : Symplectic ι) : omega u v = u.2 ⬝ᵥ v.1 + v.2 ⬝ᵥ u.1 := rfl

theorem omega_comm (u v : Symplectic ι) : omega u v = omega v u := add_comm _ _

theorem eq_zero_of_omega [DecidableEq ι] {u : Symplectic ι} (h : ∀ v, omega u v = 0) : u = 0 := by
  refine Prod.ext (funext fun j => ?_) (funext fun j => ?_)
  · have hj := h (0, Pi.single j 1)
    rw [omega_apply, dotProduct_zero, zero_add, single_dotProduct, one_mul] at hj
    exact hj
  · have hj := h (Pi.single j 1, 0)
    rw [omega_apply, zero_dotProduct, add_zero, dotProduct_single, mul_one] at hj
    exact hj

/-- The members of `s` do not meet each other, and `d i` meets `s i` and no other. -/
structure Paired [DecidableEq ι] (d s : ι → Symplectic ι) : Prop where
  isotropic : ∀ i j, omega (s i) (s j) = 0
  pair : ∀ i j, omega (d i) (s j) = if i = j then 1 else 0

namespace Paired

variable [DecidableEq ι] {d s : ι → Symplectic ι} (h : Paired d s)

include h

theorem omega_sum_smul (c : ι → ZMod 2) (i : ι) : omega (∑ j, c j • s j) (d i) = c i := by
  rw [map_sum, LinearMap.sum_apply, Finset.sum_eq_single i]
  · rw [map_smul, LinearMap.smul_apply, omega_comm, h.pair, if_pos rfl, smul_eq_mul, mul_one]
  · intro j _ hj
    rw [map_smul, LinearMap.smul_apply, omega_comm, h.pair, if_neg hj.symm, smul_zero]
  · exact fun hi => absurd (Finset.mem_univ i) hi

theorem linearIndependent : LinearIndependent (ZMod 2) s := by
  rw [Fintype.linearIndependent_iff]
  intro c hc i
  rw [← h.omega_sum_smul c i, hc, map_zero, LinearMap.zero_apply]

theorem linearIndependent_elim : LinearIndependent (ZMod 2) (Sum.elim d s) := by
  rw [Fintype.linearIndependent_iff]
  intro c hc
  rw [Fintype.sum_sum_type] at hc
  simp only [Sum.elim_inl, Sum.elim_inr] at hc
  have hinl : ∀ j, c (.inl j) = 0 := by
    intro j
    have hj := congrArg (omega · (s j)) hc
    simpa [h.isotropic, h.pair] using hj
  have hzero : ∑ j, c (.inr j) • s j = 0 := by
    simpa [hinl] using hc
  rintro (j | j)
  · exact hinl j
  · rw [← h.omega_sum_smul (fun j => c (.inr j)) j, hzero, map_zero, LinearMap.zero_apply]

theorem span_eq_top : Submodule.span (ZMod 2) (Set.range (Sum.elim d s)) = ⊤ := by
  refine h.linearIndependent_elim.span_eq_top_of_card_eq_finrank' ?_
  simp

theorem eq_sum_of_omega {u : Symplectic ι} (hu : ∀ j, omega u (s j) = 0) :
    u = ∑ j, omega u (d j) • s j := by
  rw [← sub_eq_zero]
  set w := u - ∑ j, omega u (d j) • s j with hw
  refine eq_zero_of_omega fun v => ?_
  have hv : v ∈ Submodule.span (ZMod 2) (Set.range (Sum.elim d s)) := by
    rw [h.span_eq_top]
    exact Submodule.mem_top
  induction hv using Submodule.span_induction with
  | mem v hv =>
    obtain ⟨i | i, rfl⟩ := hv
    · show omega w (d i) = 0
      rw [hw, map_sub, LinearMap.sub_apply, h.omega_sum_smul, sub_self]
    · show omega w (s i) = 0
      rw [hw, map_sub, LinearMap.sub_apply, hu, map_sum, LinearMap.sum_apply, zero_sub, neg_eq_zero]
      refine Finset.sum_eq_zero fun j _ => ?_
      rw [map_smul, LinearMap.smul_apply, h.isotropic, smul_zero]
  | zero => rw [map_zero]
  | add v v' _ _ hv hv' => rw [map_add, hv, hv', add_zero]
  | smul c v _ hv => rw [map_smul, hv, smul_zero]

end Paired

/-! ### The bits of an element -/

namespace Pauli

def bits (a : Pauli ι) : Symplectic ι := (a.x, a.z)

theorem bits_mul (a b : Pauli ι) : (a * b).bits = a.bits + b.bits := rfl

theorem bits_sign_mul (e : ZMod 2) (a : Pauli ι) : (sign e * a).bits = a.bits := by
  rw [sign_mul]
  rfl

theorem commute_iff_omega {a b : Pauli ι} : Commute a b ↔ omega a.bits b.bits = 0 := by
  rw [commute_iff, omega_apply, add_eq_zero_iff_eq_neg]
  have hneg : ∀ c : ZMod 2, -c = c := by decide
  rw [hneg]
  rfl

/-- The product changes its sign with the order. -/
def Anticommute (a b : Pauli ι) : Prop := a * b = sign 1 * (b * a)

theorem anticommute_iff_omega {a b : Pauli ι} : Anticommute a b ↔ omega a.bits b.bits = 1 := by
  have hphases : ∀ c d : ZMod 2, half c = half 1 + half d ↔ c + d = 1 := by decide
  show a * b = sign 1 * (b * a) ↔ a.z ⬝ᵥ b.x + b.z ⬝ᵥ a.x = 1
  rw [← hphases, sign_mul]
  constructor
  · intro h
    have hphase : a.phase + b.phase + half (a.z ⬝ᵥ b.x) =
        half 1 + (b.phase + a.phase + half (b.z ⬝ᵥ a.x)) := congrArg Pauli.phase h
    linear_combination hphase
  · intro h
    refine Pauli.ext ?_ (add_comm _ _) (add_comm _ _)
    show a.phase + b.phase + half (a.z ⬝ᵥ b.x) =
      half 1 + (b.phase + a.phase + half (b.z ⬝ᵥ a.x))
    linear_combination h

end Pauli

end Vantablack.Lib
