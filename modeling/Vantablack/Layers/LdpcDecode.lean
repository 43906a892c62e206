import Vantablack.Layers.Ldpc

/-!
The link decoder as bit flipping on the graph of the code's checks. An encoded block meets every
check, so that the data plays no part in what the decoder does to an error.
-/

namespace Vantablack.Layers

open Lib List

/-! ### Bits and bytes -/

theorem bitAt_eq (data : Bytes) (i : ℕ) :
    bitAt data i = (data.getD (i / 8) 0).toNat.testBit (7 - i % 8) := by
  have hk : (7 - i % 8) % 8 = 7 - i % 8 := by omega
  have hvalue : ∀ x : UInt8, ((x >>> UInt8.ofNat (7 - i % 8)) &&& 1).toNat =
      x.toNat / 2 ^ (7 - i % 8) % 2 := by
    intro x
    rw [UInt8.toNat_and, UInt8.toNat_shiftRight, UInt8.toNat_ofNat', Nat.shiftRight_eq_div_pow,
      Nat.mod_mod_of_dvd _ (by decide : 8 ∣ 2 ^ 8), hk]
    exact Nat.and_one_is_mod _
  rw [bitAt, Nat.testBit_eq_decide_div_mod_eq, ← hvalue, Bool.eq_iff_iff, beq_iff_eq,
    ← UInt8.toNat_inj, decide_eq_true_iff]
  rfl

theorem bitAt_of_length_le {data : Bytes} {i : ℕ} (h : 8 * data.length ≤ i) :
    bitAt data i = false := by
  rw [bitAt_eq, getD_eq_default _ _ (by omega)]
  exact Nat.zero_testBit _

theorem bytes_ext {a b : Bytes} (hlength : a.length = b.length)
    (h : ∀ i < 8 * a.length, bitAt a i = bitAt b i) : a = b := by
  refine ext_getElem hlength fun n ha hb => ?_
  refine UInt8.toNat_inj.mp (Nat.eq_of_testBit_eq fun k => ?_)
  by_cases hk : k < 8
  · have hbit := h (8 * n + (7 - k)) (by omega)
    have hdiv : (8 * n + (7 - k)) / 8 = n := by omega
    have hmod : 7 - (8 * n + (7 - k)) % 8 = k := by omega
    rwa [bitAt_eq, bitAt_eq, hdiv, hmod, getD_eq_getElem _ _ ha,
      getD_eq_getElem _ _ hb] at hbit
  · have hsmall : ∀ x : UInt8, x.toNat.testBit k = false := fun x =>
      Nat.testBit_lt_two_pow (x.toNat_lt.trans_le (Nat.pow_le_pow_right (by decide) (by omega)))
    rw [hsmall, hsmall]

theorem one_shiftLeft_toNat {m : ℕ} (hm : m < 8) :
    ((1 : UInt8) <<< UInt8.ofNat m).toNat = 2 ^ m := by
  have h : ∀ m < 8, ((1 : UInt8) <<< UInt8.ofNat m).toNat = 2 ^ m := by decide
  exact h m hm

theorem bitAt_modify (op : UInt8 → UInt8 → UInt8) (bitOp : Bool → Bool → Bool)
    (hop : ∀ x y k, (op x y).toNat.testBit k = bitOp (x.toNat.testBit k) (y.toNat.testBit k))
    (hfalse : ∀ b, bitOp b false = b) {data : Bytes} {n : ℕ} (hn : n < 8 * data.length) (i : ℕ) :
    bitAt (data.modify (n / 8) (op · (1 <<< UInt8.ofNat (7 - n % 8)))) i =
      bitOp (bitAt data i) (decide (i = n)) := by
  rw [bitAt_eq, bitAt_eq, getD_eq_getElem?_getD, getElem?_modify,
    getD_eq_getElem?_getD]
  by_cases hbyte : n / 8 = i / 8
  · have hi : i / 8 < data.length := by omega
    rw [getElem?_eq_getElem hi]
    simp only [hbyte, if_true, Option.map_eq_map, Option.map_some, Option.getD_some]
    rw [hop, one_shiftLeft_toNat (by omega), Nat.testBit_two_pow]
    congr 1
    rw [decide_eq_decide]
    omega
  · have hne : ¬ i = n := fun h => hbyte (congrArg (· / 8) h.symm)
    simp [hbyte, hne, hfalse]

def flipBit (data : Bytes) (n : ℕ) : Bytes :=
  data.modify (n / 8) (· ^^^ 1 <<< UInt8.ofNat (7 - n % 8))

@[simp] theorem length_flipBit (data : Bytes) (n : ℕ) : (flipBit data n).length = data.length :=
  length_modify ..

theorem bitAt_flipBit {data : Bytes} {n : ℕ} (hn : n < 8 * data.length) (i : ℕ) :
    bitAt (flipBit data n) i = (bitAt data i ^^ decide (i = n)) := by
  refine bitAt_modify (· ^^^ ·) xor (fun x y k => ?_) Bool.xor_false hn i
  rw [UInt8.toNat_xor, Nat.testBit_xor]

theorem bitAt_setBit {bits : List Bool} {bytes : Bytes} {n : ℕ} (hn : n < 8 * bytes.length)
    (i : ℕ) : bitAt (setBit bits bytes n) i =
      (bitAt bytes i || (decide (i = n) && bits.getD n false)) := by
  unfold setBit
  split
  · next hbit =>
      rw [bitAt_modify (· ||| ·) or
        (fun x y k => by rw [UInt8.toNat_or, Nat.testBit_or]) Bool.or_false hn, hbit, Bool.and_true]
  · next hbit =>
      rw [Bool.eq_false_of_not_eq_true hbit, Bool.and_false, Bool.or_false]

theorem foldl_setBit (bits : List Bool) {zeros : Bytes} (hzeros : ∀ i, bitAt zeros i = false)
    {n : ℕ} (hn : n ≤ 8 * zeros.length) :
    ((range n).foldl (setBit bits) zeros).length = zeros.length ∧
      ∀ i, bitAt ((range n).foldl (setBit bits) zeros) i =
        (decide (i < n) && bits.getD i false) := by
  induction n with
  | zero => exact ⟨rfl, fun i => hzeros i⟩
  | succ n ih =>
      obtain ⟨hlength, hbits⟩ := ih (by omega)
      rw [range_succ, foldl_append, foldl_cons, foldl_nil]
      constructor
      · rw [← hlength, setBit]
        split
        · exact length_modify ..
        · rfl
      · intro i
        rw [bitAt_setBit (by omega), hbits]
        rcases Nat.lt_trichotomy i n with hlt | heq | hgt
        · simp [hlt, Nat.lt_succ_of_lt hlt, Nat.ne_of_lt hlt]
        · subst heq
          simp
        · simp [Nat.not_lt_of_gt hgt, Nat.not_lt.mpr (Nat.succ_le_of_lt hgt), Nat.ne_of_gt hgt]

theorem bitAt_replicate_zero (n i : ℕ) : bitAt (replicate n 0) i = false := by
  rw [bitAt_eq, getD_eq_getElem?_getD, getElem?_replicate]
  split
  all_goals exact Nat.zero_testBit _

theorem length_bitsToBytes (bits : List Bool) :
    (bitsToBytes bits).length = (bits.length + 7) / 8 := by
  have hlength := length_replicate (n := (bits.length + 7) / 8) (a := (0 : UInt8))
  rw [bitsToBytes, (foldl_setBit bits (bitAt_replicate_zero _) (by omega)).1, hlength]

theorem bitAt_bitsToBytes (bits : List Bool) (i : ℕ) :
    bitAt (bitsToBytes bits) i = bits.getD i false := by
  have hlength := length_replicate (n := (bits.length + 7) / 8) (a := (0 : UInt8))
  rw [bitsToBytes, (foldl_setBit bits (bitAt_replicate_zero _) (by omega)).2]
  by_cases hi : i < bits.length
  · rw [decide_eq_true hi, Bool.true_and]
  · rw [getD_eq_default _ _ (by omega), Bool.and_false]

/-! ### The graph of the checks -/

namespace LdpcCodec

variable {i j : ℕ}

theorem mem_newCols : j ∈ newCols i ↔ j = i ∨ (i < 511 ∧ j = i + 1) ∨ j = (i * 7 + 13) % 512 := by
  unfold newCols
  dsimp only
  split_ifs
  all_goals
    simp only [mem_append, mem_singleton]
    omega

theorem nodup_newCols (i : ℕ) : (newCols i).Nodup := by
  unfold newCols
  dsimp only
  split_ifs
  all_goals grind

theorem length_newCols (i : ℕ) : (newCols i).length < 4 := by
  unfold newCols
  dsimp only
  split_ifs
  all_goals simp

/-- The variables of a check, computed: its parity bit and the data bits `j`, `j - 1` and the one
whose third column is `j` (439 inverts 7 modulo 512). -/
def checkRow (j : ℕ) : List ℕ :=
  let third := (j * 439 + 437) % 512
  (512 + j) :: j :: ((if 0 < j then [j - 1] else []) ++
    if third ≠ j ∧ third + 1 ≠ j then [third] else [])

variable {v : ℕ}

theorem mem_checkRow :
    v ∈ checkRow j ↔ v = 512 + j ∨ v = j ∨ v + 1 = j ∨ v = (j * 439 + 437) % 512 := by
  unfold checkRow
  dsimp only
  split_ifs
  all_goals
    simp only [mem_cons, mem_append, not_mem_nil, or_false,
      nil_append]
    omega

theorem nodup_checkRow (j : ℕ) : (checkRow j).Nodup := by
  unfold checkRow
  dsimp only
  split_ifs
  all_goals grind

def incidentChecks (v : ℕ) : List ℕ :=
  if v < 512 then newCols v else if v < 1024 then [v - 512] else []

theorem mem_incidentChecks (v j : ℕ) : j ∈ incidentChecks v ↔ j < 512 ∧ v ∈ checkRow j := by
  rw [mem_checkRow]
  unfold incidentChecks
  split_ifs
  · rw [mem_newCols]
    omega
  · rw [mem_singleton]
    omega
  · simp only [not_mem_nil, false_iff]
    omega

def graph : CheckGraph where
  checks := 512
  base := 4
  vars := checkRow
  incident := incidentChecks
  vars_nodup j _ := nodup_checkRow j
  incident_nodup v := by
    unfold incidentChecks
    split_ifs
    · exact nodup_newCols v
    · exact nodup_singleton _
    · exact nodup_nil
  mem_incident := mem_incidentChecks
  length_incident v := by
    unfold incidentChecks
    split_ifs
    · exact length_newCols v
    · exact Nat.lt_of_sub_eq_succ rfl
    · decide

/-! ### The codec's own tables -/

theorem length_parityCols : new.parityCols.length = 512 := by
  rw [new, length_map, length_range]

theorem getD_parityCols (h : i < 512) : new.parityCols.getD i [] = newCols i := by
  rw [new, getD_eq_getElem _ _ (by simpa using h)]
  simp

/-- The data bits that are added to a parity bit. -/
def addedTo (j n : ℕ) : List ℕ := (range n).filter fun i => decide (j ∈ newCols i)

theorem addedTo_succ (j n : ℕ) :
    addedTo j (n + 1) = addedTo j n ++ if j ∈ newCols n then [n] else [] := by
  rw [addedTo, range_succ, filter_append, filter_singleton]
  by_cases h : j ∈ newCols n
  all_goals simp [h, addedTo]

theorem getElem?_foldl_push {cols : List ℕ} (hcols : cols.Nodup) (hj : j < 512)
    {checks : List (List ℕ)} {row : List ℕ} (h : checks[j]? = some row) :
    (cols.foldl (fun checks j => if j < 512 then checks.modify j (· ++ [i]) else checks)
      checks)[j]? = some (row ++ if j ∈ cols then [i] else []) := by
  induction cols generalizing checks row with
  | nil => simpa using h
  | cons col cols ih =>
      obtain ⟨hnot, hcols⟩ := nodup_cons.mp hcols
      rw [foldl_cons]
      by_cases hcol : col = j
      · subst hcol
        have hnext : (checks.modify col (· ++ [i]))[col]? = some (row ++ [i]) := by
          simp [h]
        rw [if_pos hj, ih hcols hnext]
        simp [hnot]
      · have hnext : (if col < 512 then checks.modify col (· ++ [i]) else checks)[j]? =
            some row := by
          split
          · simp [hcol, h]
          · exact h
        rw [ih hcols hnext]
        have hjc : ¬ j = col := fun h => hcol h.symm
        simp [hjc]

theorem getElem?_foldl_enterChecks {n : ℕ} (hj : j < 512) (hn : n ≤ 512) {checks : List (List ℕ)}
    {row : List ℕ} (h : checks[j]? = some row) :
    ((range n).foldl new.enterChecks checks)[j]? = some (row ++ addedTo j n) := by
  induction n with
  | zero => simpa [addedTo] using h
  | succ n ih =>
      rw [range_succ, foldl_append, foldl_cons, foldl_nil, enterChecks,
        getD_parityCols (by omega), getElem?_foldl_push (nodup_newCols n) hj (ih (by omega)),
        addedTo_succ, append_assoc]

theorem checkVars_eq (hj : j < 512) : new.checkVars.getD j [] = (512 + j) :: addedTo j 512 := by
  have hstart : ((range 512).map fun j => [512 + j])[j]? = some [512 + j] := by
    rw [getElem?_map, getElem?_range hj]
    rfl
  rw [checkVars, length_parityCols, getD_eq_getElem?_getD,
    getElem?_foldl_enterChecks hj le_rfl hstart, Option.getD_some, singleton_append]

theorem addedTo_perm (hj : j < 512) : ((512 + j) :: addedTo j 512).Perm (checkRow j) := by
  have hmem : ∀ v, v ∈ addedTo j 512 ↔ v < 512 ∧ j ∈ newCols v := by
    intro v
    rw [addedTo, mem_filter, mem_range, decide_eq_true_iff]
  refine (perm_ext_iff_of_nodup ?_ (nodup_checkRow j)).mpr fun v => ?_
  · refine nodup_cons.mpr ⟨?_, nodup_range.filter _⟩
    rw [hmem]
    omega
  · rw [mem_cons, hmem, mem_newCols, mem_checkRow]
    omega

theorem checkVars_perm (hj : j < 512) : (new.checkVars.getD j []).Perm (checkRow j) := by
  rw [checkVars_eq hj]
  exact addedTo_perm hj

/-! ### The decoder on words -/

def bitsOf (word : ℕ → Bool) : List Bool := (range 1024).map word

def llrOf (word : ℕ → Bool) : List ℤ :=
  (range 1024).map fun i => if word i = false then (5 : ℤ) else -5

variable (word : ℕ → Bool)

theorem getD_bitsOf (h : v < 1024) : (bitsOf word).getD v false = word v := by
  rw [bitsOf, getD_eq_getElem _ _ (by simpa using h)]
  simp

theorem getD_llrOf (h : v < 1024) :
    (llrOf word).getD v 0 = if word v = false then (5 : ℤ) else -5 := by
  rw [llrOf, getD_eq_getElem _ _ (by simpa using h)]
  simp

theorem foldl_xor (vars : List ℕ) (parity : Bool) :
    vars.foldl (fun parity v => parity ^^ word v) parity = (parity ^^ paritySum word vars) := by
  induction vars generalizing parity with
  | nil => exact (Bool.xor_false parity).symm
  | cons v vars ih => rw [foldl_cons, ih, paritySum, Bool.xor_assoc]

theorem paritySum_congr {word word' : ℕ → Bool} {vars : List ℕ}
    (h : ∀ v ∈ vars, word v = word' v) : paritySum word vars = paritySum word' vars := by
  induction vars with
  | nil => rfl
  | cons v vars ih =>
      obtain ⟨hv, hvars⟩ := forall_mem_cons.mp h
      rw [paritySum, paritySum, hv, ih hvars]

theorem lt_of_mem_checkRow (hj : j < 512) (h : v ∈ checkRow j) : v < 1024 := by
  rw [mem_checkRow] at h
  omega

theorem unsatisfiedChecks_bitsOf (hj : j < 512) :
    (new.unsatisfiedChecks (bitsOf word)).getD j false = paritySum word (checkRow j) := by
  rw [unsatisfiedChecks, getD_eq_getElem _ _ (by simpa using hj), getElem_map,
    getElem_range, foldl_xor (fun v => (bitsOf word).getD v false), Bool.false_xor,
    paritySum_perm (checkVars_perm hj)]
  exact paritySum_congr fun v hv => getD_bitsOf word (lt_of_mem_checkRow hj hv)

theorem filter_unsatisfiedChecks :
    (range 512).filter (fun j => (new.unsatisfiedChecks (bitsOf word)).getD j false) =
      graph.failing word :=
  filter_congr fun _ hj => unsatisfiedChecks_bitsOf word (mem_range.mp hj)

theorem any_unsatisfiedChecks :
    (new.unsatisfiedChecks (bitsOf word)).any id = false ↔ graph.failing word = [] := by
  rw [← filter_unsatisfiedChecks, filter_eq_nil_iff, any_eq_false]
  constructor
  · intro h j hj
    have hlength : j < (new.unsatisfiedChecks (bitsOf word)).length := by
      simpa [unsatisfiedChecks] using hj
    rw [getD_eq_getElem _ _ hlength]
    exact h _ (getElem_mem hlength)
  · intro h bit hbit
    obtain ⟨j, hj, rfl⟩ := getElem_of_mem hbit
    have hrange : j < 512 := by simpa [unsatisfiedChecks] using hj
    have hfail := h j (mem_range.mpr hrange)
    rwa [getD_eq_getElem _ _ hj] at hfail

theorem foldl_countFailed {touched : List ℕ} (h : ∀ v ∈ touched, v < 1024) :
    (∀ v < 1024, (touched.foldl countFailed (replicate 1024 0, 0)).1[v]? =
        some (touched.count v)) ∧
      (∀ v, touched.count v ≤ (touched.foldl countFailed (replicate 1024 0, 0)).2) ∧
      ((touched.foldl countFailed (replicate 1024 0, 0)).2 = 0 ∨ ∃ v ∈ touched,
        touched.count v = (touched.foldl countFailed (replicate 1024 0, 0)).2) := by
  induction touched using reverseRecOn with
  | nil =>
      refine ⟨fun v hv => ?_, fun v => Nat.zero_le _, Or.inl rfl⟩
      exact getElem?_replicate_of_lt hv
  | append_singleton touched u ih =>
      have htouched : ∀ v ∈ touched, v < 1024 := fun v hv => h v (mem_append_left _ hv)
      have hu : u < 1024 := h u (mem_append_right _ (mem_singleton_self u))
      obtain ⟨hcounts, hbound, hmost⟩ := ih htouched
      rw [foldl_append, foldl_cons, foldl_nil]
      generalize touched.foldl countFailed (replicate 1024 0, 0) = counts at *
      have hnext : ∀ v < 1024, (counts.1.modify u (· + 1))[v]? =
          some ((touched ++ [u]).count v) := by
        intro v hv
        rw [getElem?_modify, hcounts v hv, count_append, count_singleton]
        by_cases huv : u = v
        all_goals simp [huv]
      have hcount : (counts.1.modify u (· + 1)).getD u 0 = (touched ++ [u]).count u := by
        rw [getD_eq_getElem?_getD, hnext u hu, Option.getD_some]
      have hself : (touched ++ [u]).count u = touched.count u + 1 := by
        rw [count_append, count_singleton_self]
      have hother : ∀ v, v ≠ u → (touched ++ [u]).count v = touched.count v := by
        intro v hv
        rw [count_append, count_singleton]
        simp [hv.symm]
      refine ⟨hnext, ?_, ?_⟩
      · intro v
        rw [countFailed]
        simp only [hcount]
        have hv := hbound v
        by_cases hvu : v = u
        · subst hvu
          split <;> omega
        · have hsame := hother v hvu
          split <;> omega
      · refine Or.inr ?_
        rw [countFailed]
        simp only [hcount]
        split
        · exact ⟨u, mem_append_right _ (mem_singleton_self u), rfl⟩
        · rcases hmost with hzero | ⟨v, hv, heq⟩
          · omega
          · refine ⟨v, mem_append_left _ hv, ?_⟩
            have hvu : v ≠ u := by
              rintro rfl
              omega
            rw [hother v hvu, heq]

theorem failedCounts_bitsOf :
    (∀ v < 1024, (new.failedCounts (new.unsatisfiedChecks (bitsOf word))).1.getD v 0 =
        graph.failedCount (graph.failing word) v) ∧
      (new.failedCounts (new.unsatisfiedChecks (bitsOf word))).2 =
        graph.mostFailed (graph.failing word) := by
  have hperm : ((graph.failing word).flatMap fun j => new.checkVars.getD j []).Perm
      ((graph.failing word).flatMap graph.vars) := by
    refine Perm.flatMap_left _ fun j hj => checkVars_perm ?_
    exact mem_range.mp (mem_filter.mp hj).1
  have hfold : new.failedCounts (new.unsatisfiedChecks (bitsOf word)) =
      ((graph.failing word).flatMap fun j => new.checkVars.getD j []).foldl countFailed
        (replicate 1024 0, 0) := by
    rw [← filter_unsatisfiedChecks, foldl_flatMap, foldl_filter]
    rfl
  have hlt : ∀ v ∈ (graph.failing word).flatMap fun j => new.checkVars.getD j [], v < 1024 := by
    intro v hv
    obtain ⟨j, hj, hv⟩ := mem_flatMap.mp (hperm.mem_iff.mp hv)
    exact lt_of_mem_checkRow (mem_range.mp (mem_filter.mp hj).1) hv
  obtain ⟨hcounts, hbound, hmost⟩ := foldl_countFailed hlt
  rw [← hfold] at hcounts hbound hmost
  constructor
  · intro v hv
    rw [getD_eq_getElem?_getD, hcounts v hv, Option.getD_some]
    exact hperm.count_eq v
  · refine (CheckGraph.mostFailed_eq ?_ ?_).symm
    · intro v
      rw [CheckGraph.failedCount, ← hperm.count_eq]
      exact hbound v
    · refine hmost.imp id ?_
      rintro ⟨v, hv, heq⟩
      refine ⟨v, hperm.mem_iff.mp hv, ?_⟩
      rw [CheckGraph.failedCount, ← hperm.count_eq, heq]

theorem mostFailed_pos {failed : List ℕ} (h : failed ≠ []) : 0 < graph.mostFailed failed := by
  obtain ⟨j, hj⟩ := exists_mem_of_ne_nil failed h
  have htouched : j ∈ failed.flatMap graph.vars :=
    mem_flatMap.mpr ⟨j, hj, mem_checkRow.mpr (Or.inr (Or.inl rfl))⟩
  have hcount : 0 < graph.failedCount failed j := count_pos_iff.mpr htouched
  exact hcount.trans_le (CheckGraph.failedCount_le_mostFailed htouched)

theorem flips_eq (h : graph.failing word ≠ []) (hv : v < 1024) :
    decide ((new.failedCounts (new.unsatisfiedChecks (bitsOf word))).1.getD v 0 =
      (new.failedCounts (new.unsatisfiedChecks (bitsOf word))).2) =
      graph.flipped (graph.failing word) v := by
  obtain ⟨hcounts, hmost⟩ := failedCounts_bitsOf word
  have hpos := mostFailed_pos h
  rw [hcounts v hv, hmost, CheckGraph.flipped]
  by_cases heq : graph.failedCount (graph.failing word) v = graph.mostFailed (graph.failing word)
  · have htouched : v ∈ (graph.failing word).flatMap graph.vars :=
      count_pos_iff.mp (hpos.trans_eq heq.symm)
    rw [decide_eq_true heq, decide_eq_true htouched]
    rfl
  · rw [decide_eq_false heq, Bool.and_false]

theorem decodeRounds_bitsOf (k : ℕ) (word : ℕ → Bool) :
    new.decodeRounds k (bitsOf word) (llrOf word) = bitsOf (graph.rounds k word) := by
  induction k generalizing word with
  | zero => rfl
  | succ k ih =>
      have hhard : ((range 1024).map fun i => decide ((llrOf word).getD i 0 < 0)) =
          bitsOf word := by
        refine map_congr_left fun i hi => ?_
        rw [getD_llrOf word (mem_range.mp hi)]
        cases word i <;> rfl
      -- The step is unfolded for any codec, so that the tables of `new` are not computed with.
      obtain ⟨codec, hcodec⟩ : ∃ codec, codec = new := ⟨new, rfl⟩
      rw [← hcodec, decodeRounds, CheckGraph.rounds]
      simp only [hhard]
      rw [hcodec]
      by_cases hfail : graph.failing word = []
      · rw [if_pos hfail, (any_unsatisfiedChecks word).mpr hfail, Bool.not_false, if_pos rfl]
      · have hany : (new.unsatisfiedChecks (bitsOf word)).any id = true := by
          rw [← Bool.not_eq_false]
          exact fun h => hfail ((any_unsatisfiedChecks word).mp h)
        have hpos := mostFailed_pos hfail
        rw [← (failedCounts_bitsOf word).2] at hpos
        rw [if_neg hfail, hany, Bool.not_true, if_neg Bool.false_ne_true, if_neg hpos.ne', ← ih]
        refine congrArg₂ (new.decodeRounds k) ?_ ?_
        · refine map_congr_left fun i hi => ?_
          rw [flips_eq word hfail (mem_range.mp hi), getD_bitsOf word (mem_range.mp hi),
            addWords]
          cases graph.flipped (graph.failing word) i <;> cases word i <;> rfl
        · refine map_congr_left fun i hi => ?_
          rw [flips_eq word hfail (mem_range.mp hi), getD_llrOf word (mem_range.mp hi),
            addWords]
          cases graph.flipped (graph.failing word) i <;> cases word i <;> rfl

theorem decodeRounds_succ (k : ℕ) (hard hard' : List Bool) (llr : List ℤ) :
    new.decodeRounds (k + 1) hard llr = new.decodeRounds (k + 1) hard' llr := rfl

theorem beliefPropagation_llrOf :
    new.beliefPropagation (llrOf word) = bitsOf (graph.rounds maxIterations word) := by
  rw [beliefPropagation, maxIterations, decodeRounds_succ 9 _ (bitsOf word), decodeRounds_bitsOf]

/-! ### Codewords -/

theorem getElem?_foldl_not {cols : List ℕ} (hcols : cols.Nodup) {parity : List Bool} {bit : Bool}
    (h : parity[j]? = some bit) :
    (cols.foldl (fun parity col => parity.modify col (!·)) parity)[j]? =
      some (bit ^^ decide (j ∈ cols)) := by
  induction cols generalizing parity bit with
  | nil => simpa using h
  | cons col cols ih =>
      obtain ⟨hnot, hcols⟩ := nodup_cons.mp hcols
      rw [foldl_cons]
      by_cases hcol : col = j
      · subst hcol
        have hnext : (parity.modify col (!·))[col]? = some (!bit) := by simp [h]
        rw [ih hcols hnext]
        simp [hnot]
      · have hnext : (parity.modify col (!·))[j]? = some bit := by simp [hcol, h]
        have hjc : ¬ j = col := fun h => hcol h.symm
        rw [ih hcols hnext]
        simp [hjc]

theorem paritySum_append (vars vars' : List ℕ) :
    paritySum word (vars ++ vars') = (paritySum word vars ^^ paritySum word vars') := by
  induction vars with
  | nil => exact (Bool.false_xor _).symm
  | cons v vars ih => rw [cons_append, paritySum, paritySum, ih, Bool.xor_assoc]

theorem getElem?_foldl_addToParity {dataBits parity : List Bool} {n : ℕ} (hn : n ≤ 512)
    (h : parity[j]? = some false) :
    ((range n).foldl (new.addToParity dataBits) parity)[j]? =
      some (paritySum (fun i => dataBits.getD i false) (addedTo j n)) := by
  induction n with
  | zero => exact h
  | succ n ih =>
      rw [range_succ, foldl_append, foldl_cons, foldl_nil, addToParity,
        getD_parityCols (by omega), addedTo_succ, paritySum_append]
      have hold := ih (by omega)
      split
      · next hbit =>
          rw [getElem?_foldl_not (nodup_newCols n) hold]
          by_cases hj : j ∈ newCols n
          all_goals simp [hj, paritySum, -getD_eq_getElem?_getD, hbit]
      · next hbit =>
          rw [hold]
          by_cases hj : j ∈ newCols n
          all_goals simp [hj, paritySum, -getD_eq_getElem?_getD, hbit]

theorem length_parityBits (dataBits : List Bool) : (new.parityBits dataBits).length = 512 := by
  have hnot : ∀ (cols : List ℕ) (parity : List Bool),
      (cols.foldl (fun parity col => parity.modify col (!·)) parity).length = parity.length := by
    intro cols
    induction cols with
    | nil => exact fun _ => rfl
    | cons col cols ih => exact fun parity => (ih _).trans (length_modify ..)
  have hfold : ∀ (rows : List ℕ) (parity : List Bool),
      (rows.foldl (new.addToParity dataBits) parity).length = parity.length := by
    intro rows
    induction rows with
    | nil => exact fun _ => rfl
    | cons row rows ih =>
        intro parity
        rw [foldl_cons, ih, addToParity]
        split
        · exact hnot _ _
        · rfl
  rw [parityBits, hfold, length_replicate]

/-- The block that `encode` makes of 64 bytes. -/
def codeword (data : Bytes) : Bytes := data ++ bitsToBytes (new.parityBits (bytesToBits data 512))

variable {data : Bytes}

theorem encode_eq_codeword (h : data.length = 64) : new.encode data = .ok (codeword data) := by
  rw [encode, if_neg (not_not.mpr h), codeword]

theorem length_codeword (h : data.length = 64) : (codeword data).length = 128 := by
  rw [codeword, length_append, h, length_bitsToBytes, length_parityBits]

theorem bitAt_append_left {a b : Bytes} (h : i < 8 * a.length) : bitAt (a ++ b) i = bitAt a i := by
  rw [bitAt, bitAt, getD_append _ _ _ _ (by omega)]

theorem bitAt_append_right (a b : Bytes) (i : ℕ) :
    bitAt (a ++ b) (8 * a.length + i) = bitAt b i := by
  have hdiv : (8 * a.length + i) / 8 = a.length + i / 8 := by omega
  have hmod : (8 * a.length + i) % 8 = i % 8 := by omega
  rw [bitAt, bitAt, hdiv, hmod, getD_append_right _ _ _ _ (by omega),
    Nat.add_sub_cancel_left]

theorem bitAt_codeword_data (h : data.length = 64) (hi : i < 512) :
    bitAt (codeword data) i = bitAt data i :=
  bitAt_append_left (by omega)

theorem bitAt_codeword_parity (h : data.length = 64) (hj : j < 512) :
    bitAt (codeword data) (512 + j) = paritySum (bitAt data) (addedTo j 512) := by
  have hstart : (replicate 512 false)[j]? = some false := getElem?_replicate_of_lt hj
  have hplace : 512 + j = 8 * data.length + j := by omega
  rw [codeword, hplace, bitAt_append_right, bitAt_bitsToBytes, getD_eq_getElem?_getD,
    parityBits, length_parityCols, getElem?_foldl_addToParity le_rfl hstart, Option.getD_some]
  refine paritySum_congr fun i hi => ?_
  have hi : i < 512 := mem_range.mp (mem_filter.mp hi).1
  rw [bytesToBits, getD_eq_getElem _ _ (by simpa using hi)]
  simp

theorem codeword_meets (h : data.length = 64) : graph.Codeword (bitAt (codeword data)) := by
  intro j hj
  have hperm : paritySum (bitAt (codeword data)) (checkRow j) =
      paritySum (bitAt (codeword data)) ((512 + j) :: addedTo j 512) :=
    (paritySum_perm (addedTo_perm hj)).symm
  have hdata : paritySum (bitAt (codeword data)) (addedTo j 512) =
      paritySum (bitAt data) (addedTo j 512) :=
    paritySum_congr fun i hi =>
      bitAt_codeword_data h (mem_range.mp (mem_filter.mp hi).1)
  exact hperm.trans (by rw [paritySum, hdata, bitAt_codeword_parity h hj, Bool.xor_self])

end LdpcCodec

end Vantablack.Layers
