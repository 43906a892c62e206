import Mathlib.Algebra.BigOperators.Fin
import Vantablack.Lib.Clifford

/-!
The tableau of a stabilizer state and its gates. A row stands for a Pauli element with a sign. H, S
and the inverse of S conjugate the rows, but CNOT flips the sign of a row wherever the control is
flipped and the target marked, and leaves out the two other bits that decide the sign. A circuit
conjugates every row exactly when each initial row meets an even number of these slips.
-/

namespace Vantablack.Quantum

open Lib Matrix Pauli Function

variable {n : ℕ}

/-- A row of the tableau: the X part, the Z part and the phase bit. -/
@[ext]
structure Row (n : ℕ) where
  x : Fin n → Bool
  z : Fin n → Bool
  r : Bool

namespace Row

def h (q : Fin n) (row : Row n) : Row n where
  x := update row.x q (row.z q)
  z := update row.z q (row.x q)
  r := if row.x q && row.z q then row.r ^^ true else row.r

def s (q : Fin n) (row : Row n) : Row n :=
  if row.x q then
    { row with
      r := row.r ^^ row.z q
      z := update row.z q (row.z q ^^ row.x q) }
  else row

def sdag (q : Fin n) (row : Row n) : Row n :=
  if row.x q then
    -- the phase bit sees the new Z bit
    let z := update row.z q (row.z q ^^ row.x q)
    { row with
      z := z
      r := row.r ^^ z q }
  else row

def cnot (c t : Fin n) (row : Row n) : Row n where
  r := if row.x c && row.z t then row.r ^^ true else row.r
  x := update row.x t (row.x t ^^ row.x c)
  z := update row.z c (row.z c ^^ row.z t)

end Row

/-- The destabilizers are the rows `inl i`, the stabilizer generators the rows `inr i`. -/
structure StabilizerState (n : ℕ) where
  tab : Fin n ⊕ Fin n → Row n

namespace StabilizerState

def init (n : ℕ) : StabilizerState n where
  tab
    | .inl i => ⟨fun j => decide (j = i), fun _ => false, false⟩
    | .inr i => ⟨fun _ => false, fun j => decide (j = i), false⟩

def mapRows (f : Row n → Row n) (st : StabilizerState n) : StabilizerState n :=
  ⟨fun i => f (st.tab i)⟩

def h (q : Fin n) (st : StabilizerState n) : StabilizerState n := st.mapRows (Row.h q)

def s (q : Fin n) (st : StabilizerState n) : StabilizerState n := st.mapRows (Row.s q)

def sdag (q : Fin n) (st : StabilizerState n) : StabilizerState n := st.mapRows (Row.sdag q)

def x (q : Fin n) (st : StabilizerState n) : StabilizerState n := (((st.h q).s q).s q).h q

def y (q : Fin n) (st : StabilizerState n) : StabilizerState n := ((st.sdag q).x q).s q

def z (q : Fin n) (st : StabilizerState n) : StabilizerState n := (st.s q).s q

def cnot (c t : Fin n) (st : StabilizerState n) : StabilizerState n := st.mapRows (Row.cnot c t)

def cz (a b : Fin n) (st : StabilizerState n) : StabilizerState n := ((st.h b).cnot a b).h b

def swap (a b : Fin n) (st : StabilizerState n) : StabilizerState n :=
  ((st.cnot a b).cnot b a).cnot a b

end StabilizerState

inductive Gate (n : ℕ) where
  | h (q : Fin n)
  | s (q : Fin n)
  | sdag (q : Fin n)
  | x (q : Fin n)
  | y (q : Fin n)
  | z (q : Fin n)
  | cnot (c t : Fin n) (hct : c ≠ t)
  | cz (a b : Fin n) (hab : a ≠ b)
  | swap (a b : Fin n) (hab : a ≠ b)

def Gate.apply (st : StabilizerState n) : Gate n → StabilizerState n
  | .h q => st.h q
  | .s q => st.s q
  | .sdag q => st.sdag q
  | .x q => st.x q
  | .y q => st.y q
  | .z q => st.z q
  | .cnot c t _ => st.cnot c t
  | .cz a b _ => st.cz a b
  | .swap a b _ => st.swap a b

def StabilizerState.run (st : StabilizerState n) (gates : List (Gate n)) : StabilizerState n :=
  gates.foldl Gate.apply st

/-- The element `i ^ (x * z) * (-1) ^ r * X ^ x * Z ^ z`. -/
def Row.read (row : Row n) : Pauli (Fin n) where
  phase := (∑ j, quarter (bit (row.x j && row.z j))) + half (bit row.r)
  x j := bit (row.x j)
  z j := bit (row.z j)

/-- What `_apply_pauli` makes of a basis state: the power of the imaginary unit in front, and the
state. -/
def Row.applyPauli (row : Row n) (b : Fin n → Bool) : ℕ × (Fin n → Bool) :=
  let yFactor := ∑ j, (row.x j && row.z j).toNat
  let zb := ∑ j, (row.z j && b j).toNat
  (yFactor + if (zb + row.r.toNat) % 2 = 0 then 0 else 2, fun j => if row.x j then !b j else b j)

theorem Row.applyPauli_eq_smul (row : Row n) (b : Fin n → Bool) :
    row.read • ((0, fun j => bit (b j)) : PhasedState (Fin n)) =
      (((row.applyPauli b).1 : ZMod 4), fun j => bit ((row.applyPauli b).2 j)) := by
  have hunits : ∀ b : Bool, (b.toNat : ZMod 4) = quarter (bit b) := by decide
  have hbits : ∀ b : Bool, (b.toNat : ZMod 2) = bit b := by decide
  have hparity : ∀ k : ℕ, ((if k % 2 = 0 then 0 else 2 : ℕ) : ZMod 4) = half (k : ZMod 2) := by
    intro k
    have hmod : ((k : ℕ) : ZMod 2) = ((k % 2 : ℕ) : ZMod 2) := (ZMod.natCast_mod k 2).symm
    rw [hmod]
    obtain hk | hk := Nat.mod_two_eq_zero_or_one k
    · rw [hk]
      rfl
    · rw [hk]
      rfl
  have hmarks : ((∑ j, (row.z j && b j).toNat : ℕ) : ZMod 2) =
      (fun j => bit (row.z j)) ⬝ᵥ fun j => bit (b j) := by
    rw [Nat.cast_sum]
    exact Finset.sum_congr rfl fun j _ => (hbits _).trans (bit_and _ _)
  refine Prod.ext ?_ ?_
  · show 0 + ((∑ j, quarter (bit (row.x j && row.z j))) + half (bit row.r)) +
        half ((fun j => bit (row.z j)) ⬝ᵥ fun j => bit (b j)) =
      (((∑ j, (row.x j && row.z j).toNat) +
        if ((∑ j, (row.z j && b j).toNat) + row.r.toNat) % 2 = 0 then 0 else 2 : ℕ) : ZMod 4)
    rw [Nat.cast_add, hparity, Nat.cast_add, hmarks, hbits, map_add, Nat.cast_sum]
    simp only [hunits]
    abel
  · funext j
    show bit (b j) + bit (row.x j) = bit (if row.x j then !b j else b j)
    generalize b j = c, row.x j = d
    revert c d
    decide

/-! ### The conjugation by a circuit -/

def Gate.conj : Gate n → MulAut (Pauli (Fin n))
  | .h q => had q
  | .s q => phaseGate q
  | .sdag q => (phaseGate q)⁻¹
  | .x q => MulAut.conj (flip q)
  | .y q => MulAut.conj (both q)
  | .z q => MulAut.conj (mark q)
  | .cnot _ _ hct => Pauli.cnot hct
  | .cz a b _ => Pauli.cz a b
  | .swap a b _ => Pauli.swap a b

def conj : List (Gate n) → MulAut (Pauli (Fin n))
  | [] => 1
  | gate :: gates => conj gates * gate.conj

/-- The sign that the code gets wrong when a gate meets an element. -/
def Gate.slip : Gate n → Pauli (Fin n) → ZMod 2
  | .cnot c t _, a => a.x c * a.z t * (a.x t + a.z c)
  | .cz c t _, a => a.x c * a.x t * (a.z c + a.z t)
  | .swap c t _, a => a.x c * a.z c + a.x t * a.z t
  | _, _ => 0

/-- The parity of the slips along the conjugates of an element. -/
def slips : List (Gate n) → Pauli (Fin n) → ZMod 2
  | [], _ => 0
  | gate :: gates, a => gate.slip a + slips gates (gate.conj a)

/-! ### The gates on one row -/

variable (q : Fin n)

theorem sum_eq_add_of_eq_off {f g : Fin n → ZMod 4} (h : ∀ j, j ≠ q → f j = g j) :
    ∑ j, f j = ∑ j, g j + (f q - g q) := by
  have hdiff : ∑ j, (f j - g j) = f q - g q :=
    Finset.sum_eq_single q (fun j _ hj => sub_eq_zero.mpr (h j hj))
      fun hq => absurd (Finset.mem_univ q) hq
  rw [← hdiff, Finset.sum_sub_distrib]
  abel

theorem sum_eq_add_add_of_eq_off {f g : Fin n → ZMod 4} {c t : Fin n} (hct : c ≠ t)
    (h : ∀ j, j ≠ c → j ≠ t → f j = g j) :
    ∑ j, f j = ∑ j, g j + ((f c - g c) + (f t - g t)) := by
  have hdiff : ∑ j, (f j - g j) = (f c - g c) + (f t - g t) :=
    Finset.sum_eq_add c t hct (fun j _ hj => sub_eq_zero.mpr (h j hj.1 hj.2))
      (fun hc => absurd (Finset.mem_univ c) hc) fun ht => absurd (Finset.mem_univ t) ht
  rw [← hdiff, Finset.sum_sub_distrib]
  abel

theorem bit_update (v : Fin n → Bool) (q : Fin n) (b : Bool) :
    (fun j => bit (update v q b j)) = update (fun j => bit (v j)) q (bit b) := by
  funext j
  exact apply_update (fun _ => bit) v q b j

theorem bit_update_xor (v : Fin n → Bool) (q : Fin n) (b : Bool) :
    (fun j => bit (update v q (v q ^^ b) j)) =
      (fun j => bit (v j)) + Pi.single q (bit b) := by
  rw [bit_update, update_eq_add_single, bit_xor, ← add_assoc, bit_add_self, zero_add]

variable (row : Row n)

theorem Row.read_h : (row.h q).read = had q row.read := by
  refine Pauli.ext ?_ (bit_update row.x q (row.z q)) (bit_update row.z q (row.x q))
  have hsame : ∀ j, (update row.x q (row.z q) j && update row.z q (row.x q) j) =
      (row.x j && row.z j) := by
    intro j
    by_cases hj : j = q
    · subst hj
      rw [update_self, update_self, Bool.and_comm]
    · rw [update_of_ne hj, update_of_ne hj]
  show (∑ j, quarter (bit (update row.x q (row.z q) j &&
      update row.z q (row.x q) j))) + half (bit (row.h q).r) =
    (∑ j, quarter (bit (row.x j && row.z j))) + half (bit row.r) +
      half (bit (row.x q) * bit (row.z q))
  have hsign :
      half (bit (row.h q).r) = half (bit row.r) + half (bit (row.x q) * bit (row.z q)) := by
    simp only [Row.h]
    generalize row.x q = b, row.z q = d, row.r = r
    revert b d r
    decide
  simp only [hsame, hsign]
  rw [add_assoc]

theorem Row.s_eq :
    row.s q = ⟨row.x, update row.z q (row.z q ^^ row.x q),
      row.r ^^ (row.x q && row.z q)⟩ := by
  cases hx : row.x q with
  | false => simp [Row.s, hx]
  | true => simp [Row.s, hx]

theorem Row.sdag_eq :
    row.sdag q = ⟨row.x, update row.z q (row.z q ^^ row.x q),
      row.r ^^ (row.x q && (row.z q ^^ row.x q))⟩ := by
  cases hx : row.x q with
  | false => simp [Row.sdag, hx]
  | true => simp [Row.sdag, hx]

theorem sum_quarter_update (x z : Fin n → Bool) (q : Fin n) (b : Bool) :
    ∑ j, quarter (bit (x j && update z q b j)) =
      ∑ j, quarter (bit (x j && z j)) +
        (quarter (bit (x q && b)) - quarter (bit (x q && z q))) := by
  have hoff : ∀ j, j ≠ q →
      quarter (bit (x j && update z q b j)) = quarter (bit (x j && z j)) := by
    intro j hj
    rw [update_of_ne hj]
  rw [sum_eq_add_of_eq_off q hoff, update_self]

theorem Row.read_s : (row.s q).read = phaseGate q row.read := by
  rw [Row.s_eq]
  refine Pauli.ext ?_ rfl (bit_update_xor row.z q (row.x q))
  show (∑ j, quarter (bit (row.x j && update row.z q (row.z q ^^ row.x q) j))) +
      half (bit (row.r ^^ (row.x q && row.z q))) =
    (∑ j, quarter (bit (row.x j && row.z j))) + half (bit row.r) + quarter (bit (row.x q))
  rw [sum_quarter_update, add_assoc, add_assoc, add_right_inj]
  generalize row.x q = b, row.z q = d, row.r = r
  revert b d r
  decide

theorem Row.read_sdag : (row.sdag q).read = (phaseGate q)⁻¹ row.read := by
  rw [Row.sdag_eq]
  refine Pauli.ext ?_ rfl (bit_update_xor row.z q (row.x q))
  show (∑ j, quarter (bit (row.x j && update row.z q (row.z q ^^ row.x q) j))) +
      half (bit (row.r ^^ (row.x q && (row.z q ^^ row.x q)))) =
    (∑ j, quarter (bit (row.x j && row.z j))) + half (bit row.r) - quarter (bit (row.x q))
  rw [sum_quarter_update, add_assoc, add_sub_assoc, add_right_inj]
  generalize row.x q = b, row.z q = d, row.r = r
  revert b d r
  decide

theorem Row.read_cnot {c t : Fin n} (hct : c ≠ t) (row : Row n) :
    (row.cnot c t).read =
      sign ((Gate.cnot c t hct).slip row.read) * Pauli.cnot hct row.read := by
  rw [Pauli.sign_mul]
  refine Pauli.ext ?_ (bit_update_xor row.x t (row.x c)) (bit_update_xor row.z c (row.z t))
  have hoff : ∀ j, j ≠ c → j ≠ t →
      quarter (bit (update row.x t (row.x t ^^ row.x c) j &&
        update row.z c (row.z c ^^ row.z t) j)) = quarter (bit (row.x j && row.z j)) := by
    intro j hc ht
    rw [update_of_ne ht, update_of_ne hc]
  show (∑ j, quarter (bit (update row.x t (row.x t ^^ row.x c) j &&
      update row.z c (row.z c ^^ row.z t) j))) + half (bit (row.cnot c t).r) =
    half (bit (row.x c) * bit (row.z t) * (bit (row.x t) + bit (row.z c))) +
      ((∑ j, quarter (bit (row.x j && row.z j))) + half (bit row.r))
  rw [sum_eq_add_add_of_eq_off hct hoff, add_left_comm (half _), add_assoc, add_right_inj]
  simp only [Row.cnot, update_self, update_of_ne hct,
    update_of_ne hct.symm]
  generalize row.x c = xc, row.z c = zc, row.x t = xt, row.z t = zt, row.r = r
  revert xc zc xt zt r
  decide

/-! ### A gate on one row -/

def Gate.onRow : Gate n → Row n → Row n
  | .h q, row => row.h q
  | .s q, row => row.s q
  | .sdag q, row => row.sdag q
  | .x q, row => (((row.h q).s q).s q).h q
  | .y q, row => (((((row.sdag q).h q).s q).s q).h q).s q
  | .z q, row => (row.s q).s q
  | .cnot c t _, row => row.cnot c t
  | .cz a b _, row => ((row.h b).cnot a b).h b
  | .swap a b _, row => ((row.cnot a b).cnot b a).cnot a b

variable (gate : Gate n)

theorem Gate.apply_tab (st : StabilizerState n) (i : Fin n ⊕ Fin n) :
    (Gate.apply st gate).tab i = gate.onRow (st.tab i) := by
  cases gate <;> rfl

theorem Gate.slip_sign_mul (e : ZMod 2) (a : Pauli (Fin n)) :
    gate.slip (sign e * a) = gate.slip a := by
  rw [Pauli.sign_mul]
  cases gate <;> rfl

theorem Gate.conj_sign (e : ZMod 2) : gate.conj (sign e) = sign e := by
  have hinner (g : Pauli (Fin n)) : MulAut.conj g (sign e) = sign e := by
    rw [MulAut.conj_apply, mul_sign, mul_assoc, mul_inv_cancel, mul_one]
  cases gate with
  | h q => exact had_sign q e
  | s q => exact phaseGate_sign q e
  | sdag q => exact (MulEquiv.symm_apply_eq _).mpr (phaseGate_sign q e).symm
  | x q => exact hinner _
  | y q => exact hinner _
  | z q => exact hinner _
  | cnot c t hct => exact cnot_sign hct e
  | cz a b hab => exact cz_sign a b e
  | swap a b hab => rfl

theorem Gate.read_onRow (row : Row n) :
    (gate.onRow row).read = sign (gate.slip row.read) * gate.conj row.read := by
  cases gate with
  | h q => exact (Row.read_h q row).trans (one_mul _).symm
  | s q => exact (Row.read_s q row).trans (one_mul _).symm
  | sdag q => exact (Row.read_sdag q row).trans (one_mul _).symm
  | x q =>
    show ((((row.h q).s q).s q).h q).read = 1 * MulAut.conj (flip q) row.read
    rw [one_mul, ← had_phaseGate_had, Row.read_h, Row.read_s, Row.read_s, Row.read_h]
    rfl
  | y q =>
    show ((((((row.sdag q).h q).s q).s q).h q).s q).read =
      1 * MulAut.conj (both q) row.read
    rw [one_mul, ← phaseGate_conj_flip, ← had_phaseGate_had, Row.read_s, Row.read_h,
      Row.read_s, Row.read_s, Row.read_h, Row.read_sdag]
    rfl
  | z q =>
    show ((row.s q).s q).read = 1 * MulAut.conj (mark q) row.read
    rw [one_mul, ← phaseGate_mul_self, Row.read_s, Row.read_s]
    rfl
  | cnot c t hct => exact Row.read_cnot hct row
  | cz a b hab =>
    show (((row.h b).cnot a b).h b).read =
      sign ((Gate.cz a b hab).slip row.read) * Pauli.cz a b row.read
    rw [← had_cnot_had hab, Row.read_h, Row.read_cnot hab, Row.read_h, map_mul,
      had_sign]
    refine congrArg (sign · * _) ?_
    show update row.read.x b (row.read.z b) a *
      update row.read.z b (row.read.x b) b *
      (update row.read.x b (row.read.z b) b +
        update row.read.z b (row.read.x b) a) =
      row.read.x a * row.read.x b * (row.read.z a + row.read.z b)
    rw [update_self, update_self, update_of_ne hab,
      update_of_ne hab, add_comm (row.read.z b)]
  | swap a b hab =>
    show (((row.cnot a b).cnot b a).cnot a b).read =
      sign ((Gate.swap a b hab).slip row.read) * Pauli.swap a b row.read
    rw [← cnot_cnot_cnot hab, Row.read_cnot hab, Row.read_cnot hab.symm, Row.read_cnot hab,
      map_mul, cnot_sign, Gate.slip_sign_mul, map_mul, map_mul, cnot_sign,
      cnot_sign, ← mul_assoc, ← mul_assoc, Gate.slip_sign_mul, Gate.slip_sign_mul,
      ← sign_add, ← sign_add]
    refine congrArg (sign · * _) ?_
    simp only [Gate.slip, cnot_x_control, cnot_x_target, cnot_z_control,
      cnot_z_target]
    generalize row.read.x a = xa, row.read.z a = za, row.read.x b = xb, row.read.z b = zb
    revert xa za xb zb
    decide

/-! ### Circuits -/

theorem slips_sign_mul (gates : List (Gate n)) (e : ZMod 2) (a : Pauli (Fin n)) :
    slips gates (sign e * a) = slips gates a := by
  induction gates generalizing a with
  | nil => rfl
  | cons gate gates ih =>
    rw [slips, slips, Gate.slip_sign_mul, map_mul, Gate.conj_sign, ih]

theorem read_run (gates : List (Gate n)) (st : StabilizerState n) (i : Fin n ⊕ Fin n) :
    ((st.run gates).tab i).read =
      sign (slips gates (st.tab i).read) * conj gates (st.tab i).read := by
  induction gates generalizing st with
  | nil => exact (one_mul _).symm
  | cons gate gates ih =>
    have hrow : ((Gate.apply st gate).tab i).read =
        sign (gate.slip (st.tab i).read) * gate.conj (st.tab i).read := by
      rw [Gate.apply_tab, Gate.read_onRow]
    have hkeep : conj gates (sign (gate.slip (st.tab i).read)) =
        sign (gate.slip (st.tab i).read) := by
      clear ih
      induction gates with
      | nil => rfl
      | cons _ _ ih => rw [conj, MulAut.mul_apply, Gate.conj_sign, ih]
    show (((Gate.apply st gate).run gates).tab i).read = _
    rw [ih, hrow, slips_sign_mul, map_mul, hkeep, ← mul_assoc, ← sign_add, slips,
      add_comm (gate.slip _)]
    rfl

/-- Every row of the tableau is the initial row conjugated by the circuit exactly when each initial
row meets an even number of slips. -/
theorem rows_conjugated_iff (n : ℕ) (gates : List (Gate n)) :
    (∀ i, (((StabilizerState.init n).run gates).tab i).read =
      conj gates ((StabilizerState.init n).tab i).read) ↔
    ∀ i, slips gates ((StabilizerState.init n).tab i).read = 0 := by
  refine forall_congr' fun i => ?_
  rw [read_run]
  exact sign_mul_eq_self_iff _ _

/-- S makes a Y of the first destabilizer. SWAP moves it to the other qubit, where the code has it
with the wrong sign. -/
theorem not_rows_conjugated_swap :
    ¬ ∀ (n : ℕ) (gates : List (Gate n)) (i : Fin n ⊕ Fin n),
      (((StabilizerState.init n).run gates).tab i).read =
        conj gates ((StabilizerState.init n).tab i).read := by
  intro h
  have hphase := congrArg Pauli.phase (h 2 [.s 0, .swap 0 1 (by decide)] (.inl 0))
  revert hphase
  decide

end Vantablack.Quantum
