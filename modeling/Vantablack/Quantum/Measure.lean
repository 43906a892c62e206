import Vantablack.Lib.Bytes
import Vantablack.Lib.Elimination
import Vantablack.Lib.Involutions
import Vantablack.Lib.Symplectic
import Vantablack.Quantum.Stabilizer

/-!
The measurement of a qubit of a stabilizer state. When no stabilizer row has the X bit of the qubit
the outcome is the sum of the sign bits of the rows that make up its Z, which is right exactly when
those rows without their signs multiply to Z and not to its negative. When some row has the X bit
the outcome is random, as it should be. Then that row becomes the signed Z, but its destabilizer is
not replaced and commutes with it from then on.
-/

namespace Vantablack.Quantum

open Lib Matrix List Pauli

variable {n : ℕ}

namespace Row

/-- `_rowsum`: the sign bits of a product of two rows, without the powers of the imaginary unit. -/
def rowsum (dst src : Row n) : Row n :=
  let r := (finRange n).foldl (fun r j =>
    let r := if dst.x j && src.z j then r ^^ true else r
    if dst.z j && src.x j then r ^^ true else r) dst.r
  ⟨fun j => dst.x j ^^ src.x j, fun j => dst.z j ^^ src.z j, r ^^ src.r⟩

def columns (row : Row n) : Fin (n + n) → Bool := Fin.append row.x row.z

/-- The row without its sign. -/
def unsigned (row : Row n) : Row n := { row with r := false }

end Row

namespace StabilizerState

def rowsum (dst src : Fin n ⊕ Fin n) (st : StabilizerState n) : StabilizerState n :=
  ⟨Function.update st.tab dst ((st.tab dst).rowsum (st.tab src))⟩

/-- `_solve_gf2`: the stabilizer rows whose columns sum to the right hand side. -/
def solveGf2 (st : StabilizerState n) (rhs : Fin (n + n) → Bool) : Fin n → Bool :=
  solve fun i c =>
    match c with
    | some col => (st.tab (.inr col)).columns i
    | none => rhs i

/-- `_pauli_sign`: the sign of `Z q`, from the sign bits of the rows that sum to it. -/
def pauliSign (st : StabilizerState n) (q : Fin n) : ℤ :=
  let c := st.solveGf2 fun i => decide (i = Fin.natAdd n q)
  let phase := (finRange n).foldl (fun phase i =>
    if c i then phase ^^ (st.tab (.inr i)).r else phase) false
  if phase then -1 else 1

/-- The first stabilizer row with the X bit of the qubit. -/
def pivotRow (st : StabilizerState n) (q : Fin n) : Option (Fin n) :=
  (finRange n).find? fun i => (st.tab (.inr i)).x q

/-- The loop over the other stabilizer rows. -/
def clearStab (q pivot : Fin n) (st : StabilizerState n) (i : Fin n) : StabilizerState n :=
  if i ≠ pivot ∧ (st.tab (.inr i)).x q = true then st.rowsum (.inr i) (.inr pivot) else st

/-- The loop over the destabilizer rows, that of the pivot included. -/
def clearDestab (q pivot : Fin n) (st : StabilizerState n) (i : Fin n) : StabilizerState n :=
  if (st.tab (.inl i)).x q then st.rowsum (.inl i) (.inr pivot) else st

/-- The outcome, with 1 as `true`, and the state afterwards. `rng` is the random bit. -/
def measure (st : StabilizerState n) (q : Fin n) (rng : Bool) : Bool × StabilizerState n :=
  match st.pivotRow q with
  | some pivot =>
    let outcome := rng
    let st := (finRange n).foldl (clearStab q pivot) st
    let st := (finRange n).foldl (clearDestab q pivot) st
    (outcome, ⟨Function.update st.tab (.inr pivot)
      ⟨fun _ => false, fun j => decide (j = q), outcome⟩⟩)
  | none => (if st.pauliSign q = 1 then false else true, st)

/-! ### What a measurement should do -/

/-- The destabilizer and the stabilizer generators as elements. -/
def destab (st : StabilizerState n) (i : Fin n) : Pauli (Fin n) := (st.tab (.inl i)).read

def stab (st : StabilizerState n) (i : Fin n) : Pauli (Fin n) := (st.tab (.inr i)).read

def group (st : StabilizerState n) : Subgroup (Pauli (Fin n)) :=
  Subgroup.closure (Set.range st.stab)

structure RowConditions (st : StabilizerState n) : Prop where
  independent : LinearIndependent (ZMod 2) fun j => (st.stab j).bits
  commute : ∀ i j, Commute (st.stab i) (st.stab j)
  pair : ∀ i j, Anticommute (st.destab i) (st.stab j) ↔ i = j

def signedZ (q : Fin n) (outcome : Bool) : Pauli (Fin n) := sign (bit outcome) * mark q

structure Measured (st : StabilizerState n) (q : Fin n) : Prop where
  random : (∀ rng, (st.measure q rng).1 = rng) ↔
    signedZ q false ∉ st.group ∧ signedZ q true ∉ st.group
  zero : signedZ q false ∈ st.group → ∀ rng, (st.measure q rng).1 = false
  one : signedZ q true ∈ st.group → ∀ rng, (st.measure q rng).1 = true
  post : ∀ rng, (st.measure q rng).2.group =
    Subgroup.closure ({a | a ∈ st.group ∧ Commute a (mark q)} ∪
      {signedZ q (st.measure q rng).1})
  rows : ∀ rng, (st.measure q rng).2.RowConditions
  again : ∀ rng rng', ((st.measure q rng).2.measure q rng').1 = (st.measure q rng).1

/-- The product of the stabilizer rows without their signs, of those whose destabilizer has the X
bit of the qubit. -/
def unsignedProduct (st : StabilizerState n) (q : Fin n) : Pauli (Fin n) :=
  pick (fun j => (st.tab (.inr j)).unsigned.read) fun j => (st.tab (.inl j)).x q

/-! ### Rows as elements -/

end StabilizerState

theorem Row.read_mul_self (row : Row n) : row.read * row.read = 1 := by
  have hquarters : ∀ b d : Bool, quarter (bit (b && d)) + quarter (bit (b && d)) =
      half (bit d * bit b) := by decide
  have hsum : (∑ j, quarter (bit (row.x j && row.z j))) +
      (∑ j, quarter (bit (row.x j && row.z j))) = half (row.read.z ⬝ᵥ row.read.x) := by
    rw [← Finset.sum_add_distrib, dotProduct, map_sum]
    exact Finset.sum_congr rfl fun j _ => hquarters _ _
  refine Pauli.ext ?_ (bits_add_self _) (bits_add_self _)
  show (∑ j, quarter (bit (row.x j && row.z j))) + half (bit row.r) +
      ((∑ j, quarter (bit (row.x j && row.z j))) + half (bit row.r)) +
      half (row.read.z ⬝ᵥ row.read.x) = 0
  have hsign := half_add_self (bit row.r)
  have hself := half_add_self (row.read.z ⬝ᵥ row.read.x)
  linear_combination hsum + hsign + hself

theorem Row.read_eq_sign_mul (row : Row n) :
    row.read = sign (bit row.r) * row.unsigned.read := by
  rw [Pauli.sign_mul]
  refine Pauli.ext ?_ rfl rfl
  show _ = half (bit row.r) + ((∑ j, quarter (bit (row.x j && row.z j))) + half (bit false))
  rw [show half (bit false) = 0 from rfl, add_zero, add_comm]
  rfl

theorem omega_mark (a : Pauli (Fin n)) (q : Fin n) : omega a.bits (mark q).bits = a.x q := by
  show a.z ⬝ᵥ (0 : Fin n → ZMod 2) + Pi.single q 1 ⬝ᵥ a.x = a.x q
  rw [dotProduct_zero, zero_add, single_dotProduct, one_mul]

theorem bits_prod (s : Fin n → Pauli (Fin n)) (c : Fin n → Bool) (l : List (Fin n)) :
    ((l.filter c).map s).prod.bits = (l.map fun j => bit (c j) • (s j).bits).sum := by
  induction l with
  | nil => rfl
  | cons j l ih =>
    rw [map_cons, sum_cons, ← ih]
    cases hc : c j with
    | false =>
      rw [filter_cons_of_neg (by simp [hc])]
      exact (zero_add _).symm.trans (congrArg (· + _) (zero_smul (ZMod 2) _).symm)
    | true =>
      rw [filter_cons_of_pos hc, map_cons, prod_cons, bits_mul]
      exact congrArg (· + _) (one_smul (ZMod 2) _).symm

theorem bits_pick (s : Fin n → Pauli (Fin n)) (c : Fin n → Bool) :
    (pick s c).bits = ∑ j, bit (c j) • (s j).bits := by
  rw [pick, bits_prod, Fin.sum_univ_def]

theorem sign_mul_prod (rows : Fin n → Row n) (c : Fin n → Bool) (l : List (Fin n)) :
    ∀ phase : Bool,
      sign (bit phase) * ((l.filter c).map fun j => (rows j).read).prod =
        sign (bit (l.foldl (fun phase i =>
          if c i then phase ^^ (rows i).r else phase) phase)) *
          ((l.filter c).map fun j => (rows j).unsigned.read).prod := by
  induction l with
  | nil =>
    intro phase
    rfl
  | cons j l ih =>
    intro phase
    cases hc : c j with
    | false =>
      have hskip : (j :: l).filter c = l.filter c := filter_cons_of_neg (by simp [hc])
      rw [hskip, foldl_cons, hc]
      exact ih phase
    | true =>
      rw [filter_cons_of_pos hc, map_cons, map_cons, prod_cons, prod_cons,
        foldl_cons, hc, if_pos rfl, Row.read_eq_sign_mul]
      have hstep := ih (phase ^^ (rows j).r)
      rw [bit_xor, sign_add] at hstep
      calc sign (bit phase) * (sign (bit (rows j).r) * (rows j).unsigned.read *
            ((l.filter c).map fun j => (rows j).read).prod)
          = (rows j).unsigned.read * (sign (bit phase) * sign (bit (rows j).r) *
            ((l.filter c).map fun j => (rows j).read).prod) := by
            rw [← mul_assoc, ← mul_assoc, ← sign_add, ← mul_sign, mul_assoc]
        _ = _ := by
            rw [hstep, ← mul_assoc, mul_sign, mul_assoc]

theorem pick_read (rows : Fin n → Row n) (c : Fin n → Bool) :
    pick (fun j => (rows j).read) c =
      sign (bit ((finRange n).foldl (fun phase i =>
        if c i then phase ^^ (rows i).r else phase) false)) *
        pick (fun j => (rows j).unsigned.read) c :=
  (one_mul _).symm.trans (sign_mul_prod rows c (finRange n) false)

namespace StabilizerState

theorem sum_columns (st : StabilizerState n) (e : Fin n → ZMod 2) (i : Fin (n + n)) :
    ∑ c, e c * bit ((st.tab (.inr c)).columns i) =
      Fin.append (∑ c, e c • (st.stab c).bits).1 (∑ c, e c • (st.stab c).bits).2 i := by
  refine Fin.addCases (fun i => ?_) (fun i => ?_) i
  · rw [Fin.append_left, Prod.fst_sum, Finset.sum_apply]
    refine Finset.sum_congr rfl fun c _ => ?_
    rw [Row.columns, Fin.append_left]
    rfl
  · rw [Fin.append_right, Prod.snd_sum, Finset.sum_apply]
    refine Finset.sum_congr rfl fun c _ => ?_
    rw [Row.columns, Fin.append_right]
    rfl

/-- The sum of the sign bits of the rows whose destabilizer has the X bit of the qubit. -/
def signSum (st : StabilizerState n) (q : Fin n) : Bool :=
  (finRange n).foldl (fun phase i =>
    if (st.tab (.inl i)).x q then phase ^^ (st.tab (.inr i)).r else phase) false

theorem eq_signedZ_of_mul_self {a : Pauli (Fin n)} {q : Fin n}
    (hbits : a.bits = (mark q).bits) (hself : a * a = 1) : ∃ e, a = signedZ q e := by
  have hphases : ∀ c : ZMod 4, c + c = 0 → ∃ e, c = half (bit e) := by decide
  have hx : a.x = 0 := congrArg Prod.fst hbits
  have hz : a.z = Pi.single q 1 := congrArg Prod.snd hbits
  have hphase : a.phase + a.phase = 0 := by
    have hzero := congrArg Pauli.phase hself
    rw [phase_mul, hx, dotProduct_zero, map_zero, add_zero] at hzero
    exact hzero
  obtain ⟨e, he⟩ := hphases _ hphase
  refine ⟨e, ?_⟩
  rw [signedZ, Pauli.sign_mul]
  exact Pauli.ext (he.trans (add_zero _).symm) hx hz

theorem x_eq_false_of_pivotRow {st : StabilizerState n} {q : Fin n} (h : st.pivotRow q = none)
    (j : Fin n) : (st.tab (.inr j)).x q = false :=
  Bool.eq_false_iff.mpr (find?_eq_none.mp h j (mem_finRange j))

/-! ### Tableaux that meet the conditions -/

namespace RowConditions

variable {st : StabilizerState n} (hst : st.RowConditions)

include hst

theorem paired : Paired (fun i => (st.destab i).bits) fun j => (st.stab j).bits where
  isotropic i j := commute_iff_omega.mp (hst.commute i j)
  pair i j := by
    have hbit : ∀ b : ZMod 2, b ≠ 1 → b = 0 := by decide
    split
    next hij => exact anticommute_iff_omega.mp ((hst.pair i j).mpr hij)
    next hij =>
      refine hbit _ fun hone => hij ?_
      exact (hst.pair i j).mp (anticommute_iff_omega.mpr hone)

theorem mem_group_iff {a : Pauli (Fin n)} : a ∈ st.group ↔ ∃ c, a = pick st.stab c :=
  mem_closure_iff hst.commute fun _ => Row.read_mul_self _

theorem sign_not_mem_group : sign 1 ∉ st.group := by
  intro h
  obtain ⟨c, hc⟩ := hst.mem_group_iff.mp h
  have hbits : ∑ j, bit (c j) • (st.stab j).bits = 0 := by
    rw [← bits_pick, ← hc]
    rfl
  have hzero := Fintype.linearIndependent_iff.mp hst.independent _ hbits
  have hnone : c = fun _ => false := funext fun j => bit_eq_zero.mp (hzero j)
  rw [hnone, pick_none] at hc
  have hphase := congrArg Pauli.phase hc
  revert hphase
  show half 1 ≠ 0
  decide

theorem signedZ_unique {q : Fin n} {a b : Bool} (ha : signedZ q a ∈ st.group)
    (hb : signedZ q b ∈ st.group) : a = b := by
  by_contra hab
  refine hst.sign_not_mem_group ?_
  have hquot := st.group.mul_mem ha (st.group.inv_mem hb)
  have hsum : ∀ a b : Bool, a ≠ b → bit a + bit b = 1 := by decide
  have hinv : (sign (bit b) : Pauli (Fin n))⁻¹ = sign (bit b) := by
    refine inv_eq_of_mul_eq_one_left ?_
    rw [← sign_add, bit_add_self, Pauli.sign_zero]
  rw [signedZ, signedZ, DivisionMonoid.mul_inv_rev, mul_assoc, mul_inv_cancel_left, hinv,
    ← sign_add, hsum a b hab] at hquot
  exact hquot

/-! ### The outcome is determined -/

section Determined

variable {q : Fin n} (hq : ∀ j, (st.tab (.inr j)).x q = false)

include hq

theorem mark_bits : (mark q).bits = ∑ j, bit ((st.tab (.inl j)).x q) • (st.stab j).bits := by
  have hmeets : ∀ j, omega (mark q).bits (st.stab j).bits = 0 := by
    intro j
    rw [omega_comm, omega_mark]
    exact congrArg bit (hq j)
  rw [hst.paired.eq_sum_of_omega hmeets]
  refine Finset.sum_congr rfl fun j _ => ?_
  rw [omega_comm, omega_mark]
  rfl

theorem solveGf2_eq :
    st.solveGf2 (fun i => decide (i = Fin.natAdd n q)) = fun j => (st.tab (.inl j)).x q := by
  have hinj : ∀ a b : Bool, bit a = bit b → a = b := by decide
  funext j
  refine hinj _ _ (solve_eq (Nat.le_add_right n n) ?_ (x := fun j => bit ((st.tab (.inl j)).x q))
    (fun i => ?_) j)
  · intro d hd hvanish
    have hzero : ∑ c, d (some c) • (st.stab c).bits = 0 := by
      have hcolumns : ∀ i, Fin.append (∑ c, d (some c) • (st.stab c).bits).1
          (∑ c, d (some c) • (st.stab c).bits).2 i = 0 := by
        intro i
        rw [← sum_columns, ← hvanish i, against, Fintype.sum_option, hd, zero_mul, zero_add]
      refine Prod.ext (funext fun i => ?_) (funext fun i => ?_)
      · exact (Fin.append_left _ _ i).symm.trans (hcolumns (Fin.castAdd n i))
      · exact (Fin.append_right _ _ i).symm.trans (hcolumns (Fin.natAdd n i))
    funext c
    cases c with
    | none => exact hd
    | some c => exact Fintype.linearIndependent_iff.mp hst.independent _ hzero c
  · show ∑ c, bit ((st.tab (.inl c)).x q) * bit ((st.tab (.inr c)).columns i) =
      bit (decide (i = Fin.natAdd n q))
    rw [sum_columns, ← hst.mark_bits hq]
    refine Fin.addCases (fun i => ?_) (fun i => ?_) i
    · have hne : Fin.castAdd n i ≠ Fin.natAdd n q := by
        intro h
        have hval := congrArg Fin.val h
        rw [Fin.val_castAdd, Fin.val_natAdd] at hval
        omega
      rw [Fin.append_left, decide_eq_false hne]
      rfl
    · rw [Fin.append_right]
      show (Pi.single q 1 : Fin n → ZMod 2) i = _
      by_cases hi : i = q
      · rw [hi, Pi.single_eq_same, decide_eq_true rfl]
        rfl
      · have hne : Fin.natAdd n i ≠ Fin.natAdd n q :=
          fun h => hi (Fin.natAdd_injective n n h)
        rw [Pi.single_eq_of_ne hi, decide_eq_false hne]
        rfl

omit hst in
theorem pivotRow_eq_none : st.pivotRow q = none := by
  refine find?_eq_none.mpr fun i _ => ?_
  rw [hq i]
  exact Bool.false_ne_true

theorem measure_eq (rng : Bool) : st.measure q rng = (st.signSum q, st) := by
  have hsign : st.pauliSign q = if st.signSum q then -1 else 1 := by
    rw [pauliSign, hst.solveGf2_eq hq]
    rfl
  rw [measure, pivotRow_eq_none hq]
  show ((if st.pauliSign q = 1 then false else true), st) = _
  rw [hsign]
  cases st.signSum q <;> rfl

theorem exists_signedZ_mem :
    ∃ e, signedZ q e ∈ st.group ∧
      signedZ q e = sign (bit (st.signSum q)) * st.unsignedProduct q := by
  have hbits : (pick st.stab fun j => (st.tab (.inl j)).x q).bits = (mark q).bits := by
    rw [bits_pick, hst.mark_bits hq]
  obtain ⟨e, he⟩ := eq_signedZ_of_mul_self hbits
    (pick_mul_self hst.commute (fun _ => Row.read_mul_self _) _)
  refine ⟨e, ?_, ?_⟩
  · rw [← he]
    exact pick_mem_closure _ _
  · rw [← he]
    exact pick_read (fun j => st.tab (.inr j)) fun j => (st.tab (.inl j)).x q

theorem signedZ_signSum_mem_iff :
    signedZ q (st.signSum q) ∈ st.group ↔ st.unsignedProduct q = mark q := by
  obtain ⟨e, hmem, he⟩ := hst.exists_signedZ_mem hq
  constructor
  · intro h
    rw [hst.signedZ_unique hmem h] at he
    exact (mul_left_cancel he).symm
  · intro h
    rw [h] at he
    exact (he ▸ hmem : sign (bit (st.signSum q)) * mark q ∈ st.group)

end Determined

theorem signedZ_not_mem_group {q j : Fin n} (hj : (st.tab (.inr j)).x q = true) (e : Bool) :
    signedZ q e ∉ st.group := by
  intro hmem
  obtain ⟨c, hc⟩ := hst.mem_group_iff.mp hmem
  have hcomm : Commute (st.stab j) (signedZ q e) := by
    rw [hc]
    exact commute_prod hst.commute j _
  rw [commute_iff_omega, signedZ, bits_sign_mul, omega_mark] at hcomm
  exact one_ne_zero ((congrArg bit hj).symm.trans hcomm)

theorem random_iff (q : Fin n) : (∀ rng, (st.measure q rng).1 = rng) ↔
    signedZ q false ∉ st.group ∧ signedZ q true ∉ st.group := by
  cases hpivot : st.pivotRow q with
  | some pivot =>
    have hset : (st.tab (.inr pivot)).x q = true :=
      find?_some (p := fun i => (st.tab (.inr i)).x q) hpivot
    refine iff_of_true (fun rng => ?_) ⟨hst.signedZ_not_mem_group hset _,
      hst.signedZ_not_mem_group hset _⟩
    rw [measure, hpivot]
  | none =>
    have hq := x_eq_false_of_pivotRow hpivot
    obtain ⟨e, hmem, _⟩ := hst.exists_signedZ_mem hq
    refine iff_of_false (fun h => ?_) fun h => ?_
    · have hfalse := h (!st.signSum q)
      rw [hst.measure_eq hq] at hfalse
      exact Bool.not_ne_self _ hfalse.symm
    · cases e with
      | false => exact h.1 hmem
      | true => exact h.2 hmem

section Determined

variable {q : Fin n} (hq : ∀ j, (st.tab (.inr j)).x q = false)

include hq

theorem measured_of_signedZ_mem (hmem : signedZ q (st.signSum q) ∈ st.group) :
    st.Measured q where
  random := hst.random_iff q
  zero h rng := by
    rw [hst.measure_eq hq]
    exact hst.signedZ_unique hmem h
  one h rng := by
    rw [hst.measure_eq hq]
    exact hst.signedZ_unique hmem h
  post rng := by
    rw [hst.measure_eq hq]
    refine le_antisymm ?_ ?_
    · refine (Subgroup.closure_le _).mpr ?_
      rintro _ ⟨j, rfl⟩
      refine Subgroup.subset_closure (.inl ⟨Subgroup.subset_closure (Set.mem_range_self j), ?_⟩)
      rw [commute_iff_omega, omega_mark]
      exact congrArg bit (hq j)
    · refine (Subgroup.closure_le _).mpr ?_
      rintro a (ha | rfl)
      · exact ha.1
      · exact hmem
  rows rng := by
    rw [hst.measure_eq hq]
    exact hst
  again rng rng' := by
    rw [hst.measure_eq hq, hst.measure_eq hq]

end Determined

end RowConditions

/-! ### The outcome is random -/

section Random

variable {q pivot : Fin n}

theorem rowsum_self (st : StabilizerState n) (dst src : Fin n ⊕ Fin n) :
    (st.rowsum dst src).tab dst = (st.tab dst).rowsum (st.tab src) :=
  Function.update_self _ _ _

theorem rowsum_of_ne (st : StabilizerState n) {dst i : Fin n ⊕ Fin n} (src : Fin n ⊕ Fin n)
    (hi : i ≠ dst) : (st.rowsum dst src).tab i = st.tab i :=
  Function.update_of_ne hi _ _

theorem clearStab_pivot (st : StabilizerState n) (i : Fin n) :
    (clearStab q pivot st i).tab (.inr pivot) = st.tab (.inr pivot) := by
  unfold clearStab
  split
  next h =>
    have hne : (.inr pivot : Fin n ⊕ Fin n) ≠ .inr i :=
      fun heq => h.1 (Sum.inr_injective heq).symm
    exact rowsum_of_ne st _ hne
  next => rfl

theorem clearDestab_pivot (st : StabilizerState n) (i : Fin n) :
    (clearDestab q pivot st i).tab (.inr pivot) = st.tab (.inr pivot) := by
  unfold clearDestab
  split
  next => exact rowsum_of_ne st _ Sum.inr_ne_inl
  next => rfl

theorem clearDestab_self {st : StabilizerState n} (hpivot : (st.tab (.inr pivot)).x q = true)
    (i : Fin n) : ((clearDestab q pivot st i).tab (.inl i)).x q = false := by
  unfold clearDestab
  split
  next h =>
    rw [rowsum_self]
    show ((st.tab (.inl i)).x q ^^ (st.tab (.inr pivot)).x q) = false
    rw [h, hpivot, Bool.xor_self]
  next h => exact Bool.eq_false_iff.mpr h

theorem clearDestab_of_false {st : StabilizerState n} {i : Fin n}
    (hi : (st.tab (.inl i)).x q = false) (hpivot : (st.tab (.inr pivot)).x q = true) (i' : Fin n) :
    ((clearDestab q pivot st i').tab (.inl i)).x q = false := by
  by_cases heq : i = i'
  · rw [heq]
    exact clearDestab_self hpivot i'
  · unfold clearDestab
    split
    next => rw [rowsum_of_ne st _ fun h => heq (Sum.inl_injective h), hi]
    next => exact hi

theorem foldl_clearStab_pivot (l : List (Fin n)) (st : StabilizerState n) :
    (l.foldl (clearStab q pivot) st).tab (.inr pivot) = st.tab (.inr pivot) := by
  induction l generalizing st with
  | nil => rfl
  | cons i l ih => exact (ih _).trans (clearStab_pivot st i)

theorem foldl_clearDestab (l : List (Fin n)) {st : StabilizerState n}
    (hpivot : (st.tab (.inr pivot)).x q = true) (i : Fin n)
    (hi : i ∈ l ∨ (st.tab (.inl i)).x q = false) :
    ((l.foldl (clearDestab q pivot) st).tab (.inl i)).x q = false := by
  induction l generalizing st with
  | nil =>
    obtain hi | hi := hi
    · exact absurd hi not_mem_nil
    · exact hi
  | cons i' l ih =>
    have hpivot' : ((clearDestab q pivot st i').tab (.inr pivot)).x q = true := by
      rw [clearDestab_pivot, hpivot]
    refine ih hpivot' ?_
    obtain hi | hi := hi
    · obtain rfl | hi := mem_cons.mp hi
      · exact .inr (clearDestab_self hpivot i)
      · exact .inl hi
    · exact .inr (clearDestab_of_false hi hpivot i')

theorem not_rowConditions_measure {st : StabilizerState n} (hpivot : st.pivotRow q = some pivot)
    (rng : Bool) : ¬ (st.measure q rng).2.RowConditions := by
  intro h
  have hset : (st.tab (.inr pivot)).x q = true :=
    find?_some (p := fun i => (st.tab (.inr i)).x q) hpivot
  set st₁ := (finRange n).foldl (clearStab q pivot) st with hst₁
  set st₂ := (finRange n).foldl (clearDestab q pivot) st₁ with hst₂
  have hmeasure : (st.measure q rng).2 = ⟨Function.update st₂.tab (.inr pivot)
      ⟨fun _ => false, fun j => decide (j = q), rng⟩⟩ := by
    rw [measure, hpivot]
  have hset₁ : (st₁.tab (.inr pivot)).x q = true := by
    rw [hst₁, foldl_clearStab_pivot, hset]
  have hclear : (st₂.tab (.inl pivot)).x q = false :=
    foldl_clearDestab _ hset₁ pivot (.inl (mem_finRange pivot))
  have hmeets : omega ((measure st q rng).2.destab pivot).bits (mark q).bits = 0 := by
    rw [omega_mark, hmeasure]
    exact congrArg bit hclear
  have hstab : ((measure st q rng).2.stab pivot).bits = (mark q).bits := by
    have hrow : (measure st q rng).2.tab (.inr pivot) =
        ⟨fun _ => false, fun j => decide (j = q), rng⟩ := by
      rw [hmeasure]
      exact Function.update_self _ _ _
    rw [stab, hrow]
    refine Prod.ext rfl (funext fun j => ?_)
    show (if decide (j = q) = true then 1 else 0) = (Pi.single q 1 : Fin n → ZMod 2) j
    rw [Pi.single_apply]
    simp
  have hpair := anticommute_iff_omega.mp ((h.pair pivot pivot).mpr rfl)
  rw [hstab, hmeets] at hpair
  exact zero_ne_one hpair

end Random

/-! ### The measurement is right -/

/-- A measurement follows the law exactly when no stabilizer row has the X bit of the qubit and the
rows that make up its Z multiply to it without their signs. -/
theorem measured_iff {st : StabilizerState n} (hst : st.RowConditions) (q : Fin n) :
    st.Measured q ↔
      (∀ j, (st.tab (.inr j)).x q = false) ∧ st.unsignedProduct q = mark q := by
  constructor
  · intro h
    have hq : ∀ j, (st.tab (.inr j)).x q = false := by
      cases hpivot : st.pivotRow q with
      | some pivot => exact absurd (h.rows false) (not_rowConditions_measure hpivot false)
      | none => exact x_eq_false_of_pivotRow hpivot
    refine ⟨hq, (hst.signedZ_signSum_mem_iff hq).mp ?_⟩
    obtain ⟨e, hmem, _⟩ := hst.exists_signedZ_mem hq
    have hout : st.signSum q = e := by
      cases e with
      | false => simpa [hst.measure_eq hq] using h.zero hmem
      | true => simpa [hst.measure_eq hq] using h.one hmem
    rw [hout]
    exact hmem
  · rintro ⟨hq, hprod⟩
    exact hst.measured_of_signedZ_mem hq ((hst.signedZ_signSum_mem_iff hq).mpr hprod)

theorem RowConditions.of_paired {st : StabilizerState n}
    (h : Paired (fun i => (st.destab i).bits) fun j => (st.stab j).bits) : st.RowConditions where
  independent := h.linearIndependent
  commute i j := commute_iff_omega.mpr (h.isotropic i j)
  pair i j := by
    rw [anticommute_iff_omega, h.pair]
    split
    next hij => exact iff_of_true rfl hij
    next hij => exact iff_of_false zero_ne_one hij

/-- The stabilizers are Z₀X₁X₂, X₁X₂ and Z₁Z₂: qubits 1 and 2 are entangled, and Z₀ is the product of
the first two. -/
def pairBeside : StabilizerState 3 := (((init 3).cnot 1 0).h 1).cnot 1 2

theorem measured_pairBeside :
    (∀ j, (pairBeside.stab j).bits ≠ (mark 0).bits) ∧ pairBeside.Measured 0 :=
  ⟨by decide, (measured_iff (RowConditions.of_paired ⟨by decide, by decide⟩) 0).mpr
    ⟨by decide, by ext1 <;> decide⟩⟩

/-- H makes an X of the stabilizer. When the qubit is measured, the stabilizer becomes Z and leaves
the destabilizer Z as it is. -/
theorem not_measured_h :
    ¬ ∀ (n : ℕ) (st : StabilizerState n), st.RowConditions → ∀ q, st.Measured q := by
  intro h
  have hconditions : ((init 1).h 0).RowConditions := .of_paired ⟨by decide, by decide⟩
  have hrows := (h 1 _ hconditions 0).rows false
  have hpivot : ((init 1).h 0).pivotRow 0 = some 0 := by decide
  exact not_rowConditions_measure hpivot false hrows

end StabilizerState

end Vantablack.Quantum
