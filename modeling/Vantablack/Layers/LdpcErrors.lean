import Vantablack.Layers.LdpcDecode

/-!
What the link decoder makes of a single wrong bit. Of the 1024 places of a wrong bit, 1005 are put
right, and for 19 parity bits some data bits come out wrong.
-/

namespace Vantablack.Layers

open Lib List

namespace LdpcCodec

/-! ### A single wrong bit -/

/-- The data bits that are wrong after a single wrong bit `p` has been decoded. -/
def leftOver (p : ℕ) : List ℕ :=
  if p < 512 then []
  else
    let j := p - 512
    if j = 511 then [5, 6, 71, 509]
    else if j % 32 = 31 ∧ j ≠ 255 then [j - 1, (j * 439 + 437) % 512]
    else if j % 256 = 82 then [j, j + 1]
    else if j % 256 = 83 then [j - 1, j]
    else []

/-- The rounds on the graph leave what `leftOver` says, as far as the data goes. -/
def settles (p : ℕ) : Bool :=
  ((graph.roundsAt maxIterations [p]).filter fun v => decide (v < 512)).isPerm (leftOver p)

set_option maxRecDepth 20000

theorem settles_data : (range' 0 512).all settles = true := by decide +kernel

theorem settles_parity : (range' 512 256).all settles = true := by decide +kernel

theorem settles_parity_upper : (range' 768 256).all settles = true := by decide +kernel

theorem leftOver_places :
    ∀ p < 1024, (leftOver p).Nodup ∧ ∀ q ∈ leftOver p, q < 512 := by decide +kernel

theorem onesAt_rounds {p : ℕ} (hp : p < 1024) {v : ℕ} (hv : v < 512) :
    graph.rounds maxIterations (onesAt [p]) v = onesAt (leftOver p) v := by
  have hsettles : settles p = true := by
    by_cases hdata : p < 512
    · exact all_eq_true.mp settles_data p (mem_range'_1.mpr (by omega))
    · by_cases hlower : p < 768
      · exact all_eq_true.mp settles_parity p (mem_range'_1.mpr (by omega))
      · exact all_eq_true.mp settles_parity_upper p (mem_range'_1.mpr (by omega))
  have hperm := isPerm_iff.mp hsettles
  rw [CheckGraph.rounds_onesAt _ (nodup_singleton p), onesAt, onesAt, decide_eq_decide,
    ← hperm.mem_iff, mem_filter, decide_eq_true_iff, and_iff_left hv]

def flipBits (data : Bytes) (places : List ℕ) : Bytes := places.foldl flipBit data

theorem length_flipBits (data : Bytes) (places : List ℕ) :
    (flipBits data places).length = data.length := by
  induction places generalizing data with
  | nil => rfl
  | cons place places ih => exact (ih _).trans (length_flipBit data place)

variable {data : Bytes}

theorem bitAt_flipBits {places : List ℕ} (hnodup : places.Nodup)
    (h : ∀ q ∈ places, q < 8 * data.length) (i : ℕ) :
    bitAt (flipBits data places) i = (bitAt data i ^^ onesAt places i) := by
  induction places generalizing data with
  | nil => exact (Bool.xor_false _).symm
  | cons place places ih =>
      obtain ⟨hnot, hnodup⟩ := nodup_cons.mp hnodup
      obtain ⟨hplace, hplaces⟩ := forall_mem_cons.mp h
      have hnext : ∀ q ∈ places, q < 8 * (flipBit data place).length := by
        rwa [length_flipBit]
      have hstep : flipBits data (place :: places) = flipBits (flipBit data place) places := rfl
      rw [hstep, ih hnodup hnext, bitAt_flipBit hplace, Bool.xor_assoc]
      congr 1
      by_cases hi : i = place
      · subst hi
        simp [onesAt, hnot]
      · simp [onesAt, hi]

theorem decode_eq {block : Bytes} (h : block.length = 128) :
    new.decode block =
      .ok (bitsToBytes ((bitsOf (graph.rounds maxIterations (bitAt block))).take 512)) := by
  have hllr : ((range 1024).map fun i => if bitAt block i = false then (5 : ℤ) else -5) =
      llrOf (bitAt block) := rfl
  rw [decode, if_neg (not_not.mpr h)]
  dsimp only
  rw [hllr, beliefPropagation_llrOf]

theorem decode_of_errors {block : Bytes} (hdata : data.length = 64) (hblock : block.length = 128)
    (error : ℕ → Bool) (places : List ℕ)
    (hword : ∀ i, bitAt block i = (bitAt (codeword data) i ^^ error i))
    (hrounds : ∀ v < 512, graph.rounds maxIterations error v = onesAt places v)
    (hnodup : places.Nodup) (hplaces : ∀ q ∈ places, q < 512) :
    new.decode block = .ok (flipBits data places) := by
  have hadd : bitAt block = addWords (bitAt (codeword data)) error := funext hword
  have hlength : (bitsOf (graph.rounds maxIterations (bitAt block))).take 512 =
      (range 512).map (graph.rounds maxIterations (bitAt block)) := by
    rw [bitsOf, ← map_take, take_range]
    rfl
  have hbound : ∀ q ∈ places, q < 8 * data.length := fun q hq => by
    have hq := hplaces q hq
    omega
  rw [decode_eq hblock]
  congr 1
  refine bytes_ext ?_ fun i hi => ?_
  · rw [length_bitsToBytes, hlength, length_map, length_range, length_flipBits, hdata]
  · have hi : i < 512 := by
      rw [length_bitsToBytes, hlength, length_map, length_range] at hi
      omega
    rw [bitAt_bitsToBytes, hlength, getD_eq_getElem _ _ (by simpa using hi),
      getElem_map, getElem_range, hadd, CheckGraph.rounds_addWords (codeword_meets hdata),
      addWords, hrounds i hi, bitAt_codeword_data hdata hi,
      bitAt_flipBits hnodup hbound]

theorem decode_codeword (h : data.length = 64) : new.decode (codeword data) = .ok data := by
  refine decode_of_errors h (length_codeword h) (onesAt []) []
    (fun i => (Bool.xor_false _).symm) (fun v _ => ?_) nodup_nil ?_
  · rw [CheckGraph.rounds_onesAt _ nodup_nil]
    rfl
  · exact fun q hq => absurd hq not_mem_nil

theorem decode_flipBit (h : data.length = 64) {p : ℕ} (hp : p < 1024) :
    new.decode (flipBit (codeword data) p) = .ok (flipBits data (leftOver p)) := by
  have hlength := length_codeword h
  obtain ⟨hnodup, hplaces⟩ := leftOver_places p hp
  refine decode_of_errors h (by rw [length_flipBit, hlength]) (onesAt [p])
    (leftOver p) (fun i => ?_) (fun v hv => onesAt_rounds hp hv) hnodup hplaces
  rw [bitAt_flipBit (by omega)]
  simp [onesAt]

end LdpcCodec

end Vantablack.Layers
