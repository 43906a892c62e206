import Mathlib.Data.Vector.Basic
import Mathlib.Data.UInt
import Mathlib.Tactic.NormNum

/-!
Wire formats over lists: fields of a fixed length, reading and writing at a position, and
big-endian numbers. A reader's position is tracked by what is left of the data there, so
that a layout is read field by field.
-/

namespace Vantablack.Lib

open List

variable {α : Type*} {n : ℕ}

/-! ### Fields of a fixed length -/

/-- The model of a fixed-size array `[α; n]`. -/
abbrev Block (α : Type*) (n : ℕ) := List.Vector α n

variable {v : Block α n}

@[simp] theorem Block.append_inj {w : Block α n} {a b : List α} :
    v.toList ++ a = w.toList ++ b ↔ v = w ∧ a = b := by
  constructor
  · intro h
    have hlen : v.toList.length = w.toList.length := by
      rw [v.toList_length, w.toList_length]
    obtain ⟨hv, hab⟩ := List.append_inj h hlen
    exact ⟨List.Vector.eq v w hv, hab⟩
  · rintro ⟨rfl, rfl⟩
    rfl

@[simp] theorem Block.toList_inj {w : Block α n} : v.toList = w.toList ↔ v = w :=
  List.Vector.toList_injective.eq_iff

theorem Block.flatMap_toList_inj (hn : 0 < n) {l l' : List (Block α n)}
    (h : l.flatMap List.Vector.toList = l'.flatMap List.Vector.toList) : l = l' := by
  have hne : ∀ (v : Block α n) (rest : List α), v.toList ++ rest ≠ [] := by
    intro v rest hnil
    have hlength := congrArg length (append_eq_nil_iff.mp hnil).1
    rw [v.toList_length, length_nil] at hlength
    omega
  induction l generalizing l' with
  | nil =>
      cases l' with
      | nil => rfl
      | cons w l' => exact absurd h.symm (hne w _)
  | cons v l ih =>
      cases l' with
      | nil => exact absurd h (hne v _)
      | cons w l' =>
          rw [flatMap_cons, flatMap_cons, Block.append_inj] at h
          rw [h.1, ih h.2]

/-- The block with the given elements, if there are exactly `n` of them. -/
def Block.ofList? (n : ℕ) (l : List α) : Option (Block α n) :=
  if h : l.length = n then some ⟨l, h⟩ else none

@[simp] theorem Block.ofList?_toList (v : Block α n) : Block.ofList? n v.toList = some v := by
  rw [Block.ofList?, dif_pos v.toList_length]
  rfl

theorem Block.toList_of_ofList? {l : List α} (h : Block.ofList? n l = some v) : v.toList = l := by
  unfold Block.ofList? at h
  split at h
  · cases h
    rfl
  · cases h

/-- A zeroed array with a list copied to its front. -/
def Block.zeroPadded (n : ℕ) (l : List UInt8) : Block UInt8 n :=
  ⟨(l ++ replicate n 0).take n, by simp⟩

theorem Block.toList_zeroPadded (n : ℕ) (l : List UInt8) :
    (Block.zeroPadded n l).toList = (l ++ replicate n 0).take n := rfl

theorem Block.toList_zeroPadded_of_length {l : List UInt8} (h : l.length = n) :
    (Block.zeroPadded n l).toList = l := by
  rw [Block.toList_zeroPadded, take_left' h]

theorem Block.take_zeroPadded {l : List UInt8} {k : ℕ} (hk : k ≤ l.length) (hl : l.length ≤ n) :
    (Block.zeroPadded n l).toList.take k = l.take k := by
  rw [Block.toList_zeroPadded, take_take, min_eq_left (hk.trans hl),
    take_append_of_le_length hk]

/-! ### Reading at a position -/

/-- The model of `data.get(i..i + n)`. -/
def sliceAt (data : List α) (i n : ℕ) : Option (List α) :=
  if i + n ≤ data.length then some ((data.drop i).take n) else none

/-- The same slice as a fixed-size array. -/
def blockAt (data : List α) (i n : ℕ) : Option (Block α n) :=
  (sliceAt data i n).bind (Block.ofList? n)

theorem blockAt_of_le {data : List α} {i : ℕ} (h : i + n ≤ data.length) :
    ∃ v, blockAt data i n = some v := by
  have hlen : ((data.drop i).take n).length = n := by
    rw [length_take, length_drop]
    omega
  exact ⟨⟨_, hlen⟩, by rw [blockAt, sliceAt, if_pos h, Option.bind_some, Block.ofList?, dif_pos hlen]⟩

theorem toList_of_blockAt {data : List α} {i : ℕ} (h : blockAt data i n = some v) :
    v.toList = (data.drop i).take n := by
  obtain ⟨slice, hslice, hv⟩ := Option.bind_eq_some_iff.mp h
  rw [sliceAt] at hslice
  split at hslice
  · cases hslice
    exact Block.toList_of_ofList? hv
  · cases hslice

/-- The position `i` lies in the data, and `rest` is what follows it. -/
def RestAt (data : List α) (i : ℕ) (rest : List α) : Prop :=
  i ≤ data.length ∧ data.drop i = rest

namespace RestAt

variable {data l rest : List α} {i : ℕ}

theorem start (data : List α) : RestAt data 0 data :=
  ⟨Nat.zero_le _, rfl⟩

theorem length_eq (h : RestAt data i rest) : i + rest.length = data.length := by
  have hi := h.1
  rw [← h.2, length_drop]
  omega

theorem skip (h : RestAt data i (l ++ rest)) (hn : l.length = n) : RestAt data (i + n) rest := by
  obtain ⟨hi, hdrop⟩ := h
  have hlen := congrArg length hdrop
  rw [length_drop, length_append, hn] at hlen
  refine ⟨by omega, ?_⟩
  rw [← drop_drop, hdrop, drop_left' hn]

theorem getElem? {a : α} (h : RestAt data i (a :: rest)) : data[i]? = some a := by
  rw [← head?_drop, h.2]
  rfl

theorem next {a : α} (h : RestAt data i (a :: rest)) : RestAt data (i + 1) rest :=
  skip (l := [a]) h rfl

theorem sliceAt (h : RestAt data i (l ++ rest)) (hn : l.length = n) :
    sliceAt data i n = some l := by
  have hbound := (h.skip hn).1
  rw [Lib.sliceAt, if_pos hbound, h.2, take_left' hn]

theorem blockAt {v : Block α n} (h : RestAt data i (v.toList ++ rest)) :
    blockAt data i n = some v := by
  rw [Lib.blockAt, h.sliceAt v.toList_length, Option.bind_some, Block.ofList?_toList]

theorem block {v : Block α n} (h : RestAt data i (v.toList ++ rest)) : RestAt data (i + n) rest :=
  h.skip v.toList_length

theorem of_getElem? {a : α} (h : RestAt data i rest) (ha : data[i]? = some a) :
    ∃ rest', rest = a :: rest' ∧ RestAt data (i + 1) rest' := by
  rw [← head?_drop, h.2] at ha
  obtain ⟨rest', rfl⟩ := head?_eq_some_iff.mp ha
  exact ⟨rest', rfl, h.next⟩

theorem of_sliceAt (h : RestAt data i rest) (hl : Lib.sliceAt data i n = some l) :
    l.length = n ∧ ∃ rest', rest = l ++ rest' ∧ RestAt data (i + n) rest' := by
  rw [Lib.sliceAt] at hl
  split at hl
  · rename_i hbound
    cases hl
    have hlen : ((data.drop i).take n).length = n := by
      rw [length_take, length_drop]
      omega
    have hrest : rest = (data.drop i).take n ++ rest.drop n := by
      rw [h.2, take_append_drop]
    refine ⟨hlen, rest.drop n, hrest, ?_⟩
    rw [hrest] at h
    exact h.skip hlen
  · cases hl

theorem of_blockAt {v : Block α n} (h : RestAt data i rest) (hv : Lib.blockAt data i n = some v) :
    ∃ rest', rest = v.toList ++ rest' ∧ RestAt data (i + n) rest' := by
  obtain ⟨slice, hslice, hv⟩ := Option.bind_eq_some_iff.mp hv
  rw [Block.toList_of_ofList? hv]
  exact (h.of_sliceAt hslice).2

end RestAt

/-! ### Writing at a position -/

/-- The list with `as` written over what stands at `i`; what would go over the end is left out. -/
def overwrite (l : List α) : ℕ → List α → List α
  | _, [] => l
  | i, a :: as => overwrite (l.set i a) (i + 1) as

@[simp] theorem length_overwrite (l : List α) (i : ℕ) (as : List α) :
    (overwrite l i as).length = l.length := by
  induction as generalizing l i with
  | nil => rfl
  | cons a as ih => rw [overwrite, ih, length_set]

variable {as : List α}

theorem getElem?_overwrite_of_outside {l : List α} {i k : ℕ} (h : k < i ∨ i + as.length ≤ k) :
    (overwrite l i as)[k]? = l[k]? := by
  induction as generalizing l i with
  | nil => rfl
  | cons a as ih =>
      rw [length_cons] at h
      rw [overwrite, ih (by omega), getElem?_set_ne (by omega)]

theorem getElem?_overwrite {l : List α} {i k : ℕ} (hk : k < as.length)
    (h : i + as.length ≤ l.length) : (overwrite l i as)[i + k]? = as[k]? := by
  induction as generalizing l i k with
  | nil => cases hk
  | cons a as ih =>
      rw [length_cons] at h hk
      rw [overwrite]
      cases k with
      | zero =>
          rw [getElem?_overwrite_of_outside (by omega), Nat.add_zero,
            getElem?_set_self (by omega), getElem?_cons_zero]
      | succ k =>
          have hlen : i + 1 + as.length ≤ (l.set i a).length := by
            rw [length_set]
            omega
          rw [show i + (k + 1) = i + 1 + k by omega, ih (by omega) hlen, getElem?_cons_succ]

theorem slice_congr {l l' : List α} {j : ℕ} (h : ∀ k, j ≤ k → k < j + n → l[k]? = l'[k]?) :
    (l.drop j).take n = (l'.drop j).take n := by
  apply ext_getElem?
  intro k
  rw [getElem?_take, getElem?_take, getElem?_drop, getElem?_drop]
  split
  · exact h _ (by omega) (by omega)
  · rfl

theorem slice_overwrite_of_disjoint {l : List α} {i j : ℕ} (h : j + n ≤ i ∨ i + as.length ≤ j) :
    ((overwrite l i as).drop j).take n = (l.drop j).take n :=
  slice_congr fun k hk hkn => getElem?_overwrite_of_outside (by omega)

theorem drop_overwrite {l : List α} {i j : ℕ} (h : i + as.length ≤ j) :
    (overwrite l i as).drop j = l.drop j := by
  apply ext_getElem?
  intro k
  rw [getElem?_drop, getElem?_drop]
  exact getElem?_overwrite_of_outside (Or.inr (by omega))

theorem slice_overwrite {l : List α} {i : ℕ} (h : i + as.length ≤ l.length) :
    ((overwrite l i as).drop i).take as.length = as := by
  apply ext_getElem?
  intro k
  rw [getElem?_take, getElem?_drop]
  split
  · rename_i hk
    exact getElem?_overwrite hk h
  · rename_i hk
    rw [getElem?_eq_none (by omega)]

theorem take_overwrite (l as : List α) (i n : ℕ) :
    (overwrite l i as).take n = overwrite (l.take n) i as := by
  induction as generalizing l i with
  | nil => rfl
  | cons a as ih => rw [overwrite, ih, take_set, overwrite]

theorem drop_overwrite_add (l as : List α) (n i : ℕ) :
    (overwrite l (n + i) as).drop n = overwrite (l.drop n) i as := by
  induction as generalizing l i with
  | nil => rfl
  | cons a as ih =>
      rw [overwrite, Nat.add_assoc, ih, drop_set, if_neg (by omega), Nat.add_sub_cancel_left,
        overwrite]

theorem overwrite_append {l : List α} (hl : l.length = n) (rest as : List α) (i : ℕ) :
    overwrite (l ++ rest) (n + i) as = l ++ overwrite rest i as := by
  subst hl
  induction as generalizing rest i with
  | nil => rfl
  | cons a as ih =>
      rw [overwrite, set_append_right _ _ (Nat.le_add_right _ _), Nat.add_sub_cancel_left,
        Nat.add_assoc, ih, overwrite]

theorem overwrite_eq {l : List α} {i : ℕ} (h : i + as.length ≤ l.length) :
    overwrite l i as = l.take i ++ (as ++ l.drop (i + as.length)) := by
  induction as generalizing l i with
  | nil => simp [overwrite]
  | cons a as ih =>
      rw [length_cons] at h ⊢
      have hset : (l.set i a).take (i + 1) = l.take i ++ [a] := by
        rw [take_set, take_succ_eq_append_getElem (by omega),
          set_append_right _ _ (by simp)]
        simp [show i ≤ l.length by omega]
      rw [overwrite, ih (by rw [length_set]; omega), hset, drop_set_of_lt (by omega)]
      simp [show i + 1 + as.length = i + (as.length + 1) by omega]

/-- `buf[i..i + src.len()].copy_from_slice(src)`; `none` is the panic of a range out of bounds. -/
def copyFromSlice (buf : List α) (i : ℕ) (src : List α) : Option (List α) :=
  if i + src.length ≤ buf.length then some (overwrite buf i src) else none

theorem copyFromSlice_replace {done old src : List α} (hdone : done.length = n)
    (hold : old.length = src.length) (rest : List α) :
    copyFromSlice (done ++ (old ++ rest)) n src = some (done ++ (src ++ rest)) := by
  have hfits : n + src.length ≤ (done ++ (old ++ rest)).length := by
    rw [length_append, length_append]
    omega
  have hdrop : (old ++ rest).drop (0 + src.length) = rest := by
    rw [Nat.zero_add, drop_left' hold]
  have hover : overwrite (done ++ (old ++ rest)) (n + 0) src = done ++ overwrite (old ++ rest) 0 src :=
    overwrite_append hdone (old ++ rest) src 0
  have hfront : 0 + src.length ≤ (old ++ rest).length := by
    rw [length_append]
    omega
  rw [copyFromSlice, if_pos hfits, ← Nat.add_zero n, hover, overwrite_eq hfront, hdrop]
  rfl

theorem copyFromSlice_next {done src : List α} {m : ℕ} (a : α) (hdone : done.length = n)
    (hm : src.length ≤ m) :
    copyFromSlice (done ++ replicate m a) n src =
      some (done ++ src ++ replicate (m - src.length) a) := by
  have hsplit : replicate m a =
      replicate src.length a ++ replicate (m - src.length) a := by
    rw [replicate_append_replicate, Nat.add_sub_cancel' hm]
  rw [hsplit, copyFromSlice_replace hdone (length_replicate ..), append_assoc]

/-- The first `n` elements of the buffer are written, and the other `m` are still `a`. -/
def FilledTo (a : α) (buf : List α) (n : ℕ) (done : List α) (m : ℕ) : Prop :=
  done.length = n ∧ buf = done ++ replicate m a

namespace FilledTo

variable {a : α} {buf done src : List α} {k m : ℕ}

theorem start (a : α) (m : ℕ) : FilledTo a (replicate m a) 0 [] m :=
  ⟨rfl, rfl⟩

/-- A copy to the front of what is left fits, and what follows it goes on with the longer buffer. -/
theorem copy {β : Type*} {f : List α → Option β} {result : β} (h : FilledTo a buf n done (k + m))
    (hsrc : src.length = k)
    (hrest : ∀ buf', FilledTo a buf' (n + k) (done ++ src) m → f buf' = some result) :
    (copyFromSlice buf n src).bind f = some result := by
  obtain ⟨hdone, rfl⟩ := h
  have hleft : k + m - src.length = m := by omega
  rw [copyFromSlice_next a hdone (by omega), hleft, Option.bind_some]
  apply hrest
  refine ⟨?_, rfl⟩
  rw [length_append, hdone, hsrc]

theorem gap (h : FilledTo a buf n done (k + m)) :
    FilledTo a buf (n + k) (done ++ replicate k a) m := by
  obtain ⟨hdone, rfl⟩ := h
  refine ⟨?_, ?_⟩
  · rw [length_append, hdone, length_replicate]
  · rw [append_assoc, replicate_append_replicate]

theorem eq_done (h : FilledTo a buf n done 0) : buf = done :=
  h.2.trans (append_nil done)

end FilledTo

/-! ### Big-endian numbers -/

/-- The `w` low bytes of `n`, the most significant first. -/
def toBeBytes : ℕ → ℕ → List UInt8
  | 0, _ => []
  | w + 1, n => toBeBytes w (n / 256) ++ [UInt8.ofNat n]

def fromBeBytes (l : List UInt8) : ℕ :=
  l.foldl (fun acc b => acc * 256 + b.toNat) 0

@[simp] theorem length_toBeBytes (w n : ℕ) : (toBeBytes w n).length = w := by
  induction w generalizing n with
  | zero => rfl
  | succ w ih => simp only [toBeBytes, length_append, ih, length_cons, length_nil]

theorem fromBeBytes_toBeBytes_mod (w n : ℕ) : fromBeBytes (toBeBytes w n) = n % 256 ^ w := by
  induction w generalizing n with
  | zero =>
      rw [pow_zero, Nat.mod_one]
      rfl
  | succ w ih =>
      have hbyte : (UInt8.ofNat n).toNat = n % 256 := by simp
      have hhigh := ih (n / 256)
      unfold fromBeBytes at hhigh ⊢
      rw [toBeBytes, foldl_append, hhigh, foldl_cons, foldl_nil, hbyte, pow_succ,
        mul_comm (256 ^ w), Nat.mod_mul]
      omega

theorem fromBeBytes_toBeBytes {w n : ℕ} (h : n < 256 ^ w) :
    fromBeBytes (toBeBytes w n) = n := by
  rw [fromBeBytes_toBeBytes_mod, Nat.mod_eq_of_lt h]

theorem fromBeBytes_append_singleton (l : List UInt8) (b : UInt8) :
    fromBeBytes (l ++ [b]) = fromBeBytes l * 256 + b.toNat := by
  rw [fromBeBytes, foldl_append]
  rfl

theorem fromBeBytes_lt (l : List UInt8) : fromBeBytes l < 256 ^ l.length := by
  induction l using reverseRecOn with
  | nil => exact Nat.one_pos
  | append_singleton l b ih =>
      have hb := b.toNat_lt
      rw [fromBeBytes_append_singleton, length_append, length_singleton, pow_succ]
      omega

theorem toBeBytes_fromBeBytes (l : List UInt8) : toBeBytes l.length (fromBeBytes l) = l := by
  induction l using reverseRecOn with
  | nil => rfl
  | append_singleton l b ih =>
      have hb := b.toNat_lt
      have hhigh : (fromBeBytes l * 256 + b.toNat) / 256 = fromBeBytes l := by omega
      have hlow : UInt8.ofNat (fromBeBytes l * 256 + b.toNat) = b := by
        apply UInt8.toNat.inj
        rw [UInt8.toNat_ofNat']
        omega
      rw [length_append, length_singleton, fromBeBytes_append_singleton, toBeBytes, hhigh,
        ih, hlow]

theorem toBeBytes_inj {w m n : ℕ} (hm : m < 256 ^ w) (hn : n < 256 ^ w)
    (h : toBeBytes w m = toBeBytes w n) : m = n := by
  rw [← fromBeBytes_toBeBytes hm, h, fromBeBytes_toBeBytes hn]

/-- What a literal of `Fin 3` finds. -/
instance neZero_three : NeZero 3 := ⟨by decide⟩

instance linearOrderUInt64 : LinearOrder UInt64 where
  le_refl := UInt64.le_refl
  le_trans _ _ _ := UInt64.le_trans
  le_antisymm _ _ := UInt64.le_antisymm
  lt_iff_le_not_ge a b := by
    rw [UInt64.lt_iff_toNat_lt, UInt64.le_iff_toNat_le, UInt64.le_iff_toNat_le]
    omega
  le_total := UInt64.le_total
  toDecidableLE := inferInstance
  toDecidableEq := inferInstance

end Vantablack.Lib
