import Vantablack.Crypto

/-!
The erasure code of `layers/l4_rs.rs`: a payload is cut into two halves and a parity shard,
and any two of the three give it back. The arithmetic comes from a third-party crate, whose
code for two data shards and one parity shard is a parameter here.
-/

namespace Vantablack.Layers

/-- The (2,1) Reed-Solomon code: the parity of two data shards, and a missing data shard
from the other one and the parity. -/
structure ReedSolomon where
  parity : Bytes → Bytes → Bytes
  recoverLow : Bytes → Bytes → Bytes
  recoverHigh : Bytes → Bytes → Bytes

/-- What the crate documents: parity has the length of a data shard, and any two shards
reconstruct the third. -/
structure ReedSolomon.Lawful (rs : ReedSolomon) : Prop where
  length_parity : ∀ a b : Bytes, a.length = b.length → (rs.parity a b).length = a.length
  recoverLow_parity : ∀ a b : Bytes, a.length = b.length → rs.recoverLow b (rs.parity a b) = a
  recoverHigh_parity : ∀ a b : Bytes, a.length = b.length → rs.recoverHigh a (rs.parity a b) = b

/-- The data with the zero byte that `encode` appends to an odd length. -/
def padded (data : Bytes) : Bytes :=
  if data.length % 2 ≠ 0 then data ++ [0] else data

/-- The three shards of a payload. -/
def encode (rs : ReedSolomon) (data : Bytes) : List Bytes :=
  if data.isEmpty then [[], [], []]
  else
    let data := padded data
    let mid := data.length / 2
    [data.take mid, data.drop mid, rs.parity (data.take mid) (data.drop mid)]

/-- Fill in the missing shard; `none` is an error. The crate has no empty shards, so two
empty data shards are an error too. -/
def reconstruct (rs : ReedSolomon) : List (Option Bytes) → Option (List (Option Bytes))
  | [some d0, some d1, some p] => some [some d0, some d1, some p]
  | [some d0, some d1, none] =>
      if d0.isEmpty then none else some [some d0, some d1, some (rs.parity d0 d1)]
  | [none, some d1, some p] =>
      if d1.isEmpty then none else some [some (rs.recoverLow d1 p), some d1, some p]
  | [some d0, none, some p] =>
      if d0.isEmpty then none else some [some d0, some (rs.recoverHigh d0 p), some p]
  | _ => none

theorem length_padded (data : Bytes) : (padded data).length % 2 = 0 := by
  unfold padded
  split
  · rw [List.length_append, List.length_singleton]
    omega
  · omega

theorem length_halves (data : Bytes) :
    ((padded data).take ((padded data).length / 2)).length =
      ((padded data).drop ((padded data).length / 2)).length := by
  have h := length_padded data
  rw [List.length_take, List.length_drop]
  omega

theorem encode_eq (rs : ReedSolomon) {data : Bytes} (hne : data ≠ []) :
    ∃ low high : Bytes, encode rs data = [low, high, rs.parity low high] ∧
      low ++ high = padded data ∧ low.length = high.length ∧ low ≠ [] ∧ high ≠ [] := by
  have hhalves := length_halves data
  have hpos : 0 < (padded data).length := by
    have hdata := List.length_pos_iff.mpr hne
    unfold padded
    split
    · rw [List.length_append]
      omega
    · exact hdata
  have heven := length_padded data
  have hempty : data.isEmpty = false := by simpa using hne
  refine ⟨(padded data).take ((padded data).length / 2),
    (padded data).drop ((padded data).length / 2), ?_, List.take_append_drop _ _, hhalves, ?_, ?_⟩
  · rw [encode, hempty]
    rfl
  · rw [← List.length_pos_iff, List.length_take]
    omega
  · rw [← List.length_pos_iff, List.length_drop]
    omega

/-! ### The field of the crate

`galois_8` is GF(2^8) with the polynomial 0x11D. The parity row of its (2,1) code is
`3 * low + 2 * high`. -/

/-- Multiplication by the generator. -/
def galTimesTwo (a : UInt8) : UInt8 :=
  if a &&& 0x80 = 0 then a <<< 1 else (a <<< 1) ^^^ 0x1D

/-- Multiplication, one bit of `b` at a time. -/
def galMul (a b : UInt8) : ℕ → UInt8
  | 0 => 0
  | k + 1 => (if b &&& 1 = 0 then 0 else a) ^^^ galMul (galTimesTwo a) (b >>> 1) k

def galois8 : ReedSolomon where
  parity low high := List.zipWith (fun a b => galMul a 3 8 ^^^ galMul b 2 8) low high
  recoverLow high p := List.zipWith (fun b c => galMul (c ^^^ galMul b 2 8) 0xF4 8) high p
  recoverHigh low p := List.zipWith (fun a c => galMul (c ^^^ galMul a 3 8) 0x8E 8) low p

theorem galMul_three_inverse (a : UInt8) : galMul (galMul a 3 8) 0xF4 8 = a := by
  have h : ∀ i : Fin 256, galMul (galMul (UInt8.ofFin i) 3 8) 0xF4 8 = UInt8.ofFin i := by
    decide +kernel
  exact h a.toFin

theorem galMul_two_inverse (a : UInt8) : galMul (galMul a 2 8) 0x8E 8 = a := by
  have h : ∀ i : Fin 256, galMul (galMul (UInt8.ofFin i) 2 8) 0x8E 8 = UInt8.ofFin i := by
    decide +kernel
  exact h a.toFin

theorem zipWith_cancel {f : UInt8 → UInt8 → UInt8} {g : UInt8 → UInt8 → UInt8}
    (hcancel : ∀ x y, g y (f x y) = x) {a b : Bytes} (h : a.length = b.length) :
    List.zipWith g b (List.zipWith f a b) = a := by
  induction a generalizing b with
  | nil =>
      cases b with
      | nil => rfl
      | cons => cases h
  | cons x a ih =>
      cases b with
      | nil => cases h
      | cons y b =>
          rw [List.zipWith_cons_cons, List.zipWith_cons_cons, hcancel, ih (Nat.succ.inj h)]

theorem galois8_lawful : galois8.Lawful where
  length_parity a b h := by simp [galois8, h]
  recoverLow_parity a b h := by
    refine zipWith_cancel ?_ h
    intro x y
    rw [UInt8.xor_assoc, UInt8.xor_self, UInt8.xor_zero, galMul_three_inverse]
  recoverHigh_parity a b h := by
    have hswap : galois8.parity a b =
        List.zipWith (fun y x => galMul x 3 8 ^^^ galMul y 2 8) b a := List.zipWith_comm
    rw [hswap]
    refine zipWith_cancel ?_ h.symm
    intro y x
    rw [UInt8.xor_comm (galMul x 3 8), UInt8.xor_assoc, UInt8.xor_self, UInt8.xor_zero,
      galMul_two_inverse]

end Vantablack.Layers
