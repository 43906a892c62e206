import Mathlib.Data.Nat.Digits.Lemmas
import Vantablack.Lib.Bytes

/-!
Numbers in ASCII text: writing a number in a radix, and reading one off the front of a text. The
reader takes all digits there are and then looks at their number and value, so that a number is
read back whenever no digit follows it.
-/

namespace Vantablack.Lib

open List

/-- The digit `d`, in lower case. -/
def digitChar (d : ℕ) : UInt8 :=
  UInt8.ofNat (if d < 10 then 48 + d else 87 + d)

/-- The value of a digit, in lower or upper case. -/
def digitValue (radix : ℕ) (b : UInt8) : Option ℕ :=
  let n := b.toNat
  let d :=
    if 48 ≤ n ∧ n ≤ 57 then n - 48
    else if 97 ≤ n ∧ n ≤ 122 then n - 87
    else if 65 ≤ n ∧ n ≤ 90 then n - 55
    else radix
  if d < radix then some d else none

/-- The digits of a number, from the highest to the lowest. Zero has one. -/
def numeralDigits (radix n : ℕ) : List ℕ :=
  if n = 0 then [0] else (Nat.digits radix n).reverse

def numeral (radix n : ℕ) : List UInt8 :=
  (numeralDigits radix n).map digitChar

/-- The digits at the front of a text, and what follows them. -/
def readDigits (radix : ℕ) : List UInt8 → List ℕ × List UInt8
  | [] => ([], [])
  | b :: rest =>
      match digitValue radix b with
      | some d => (d :: (readDigits radix rest).1, (readDigits radix rest).2)
      | none => ([], b :: rest)

/-- Read a number of at most `maxDigits` digits, if that is given, and at most `limit`. -/
def readNumber (radix : ℕ) (maxDigits : Option ℕ) (allowZeroPrefix : Bool) (limit : ℕ)
    (s : List UInt8) : Option (ℕ × List UInt8) :=
  let (digits, rest) := readDigits radix s
  let value := Nat.ofDigits radix digits.reverse
  if digits = [] then none
  else if maxDigits.any (· < digits.length) then none
  else if !allowZeroPrefix && digits.head? = some 0 && 1 < digits.length then none
  else if limit < value then none
  else some (value, rest)

/-- A text that does not go on with a digit. -/
def NoDigit (radix : ℕ) (s : List UInt8) : Prop :=
  ∀ b ∈ s.head?, digitValue radix b = none

variable {radix n : ℕ} {s rest : List UInt8}

@[simp] theorem noDigit_nil : NoDigit radix [] := by
  intro b hb
  cases hb

@[simp] theorem noDigit_cons {b : UInt8} : NoDigit radix (b :: s) ↔ digitValue radix b = none := by
  simp [NoDigit]

/-! ### Digits -/

theorem toNat_digitChar {d : ℕ} (h : d < 36) :
    (digitChar d).toNat = if d < 10 then 48 + d else 87 + d := by
  rw [digitChar, UInt8.toNat_ofNat']
  split <;> omega

theorem digitValue_digitChar {d : ℕ} (hradix : radix ≤ 36) (hd : d < radix) :
    digitValue radix (digitChar d) = some d := by
  rw [digitValue, toNat_digitChar (hd.trans_le hradix)]
  by_cases hsmall : d < 10
  · have hdecimal : 48 + d ≤ 57 := by omega
    simp [hsmall, hdecimal, hd]
  · have hdecimal : ¬ 87 + d ≤ 57 := by omega
    have hletter : 97 ≤ 87 + d ∧ 87 + d ≤ 122 := by omega
    simp [hsmall, hdecimal, hletter, hd]

theorem digitValue_eq_none {radix' : ℕ} (h : radix ≤ radix') {b : UInt8}
    (hb : digitValue radix' b = none) : digitValue radix b = none := by
  unfold digitValue at hb ⊢
  dsimp only at hb ⊢
  split_ifs at hb ⊢ <;> first | rfl | omega

theorem NoDigit.mono {radix' : ℕ} (h : radix ≤ radix') (hs : NoDigit radix' s) : NoDigit radix s :=
  fun b hb => digitValue_eq_none h (hs b hb)

theorem readDigits_of_noDigit (h : NoDigit radix s) : readDigits radix s = ([], s) := by
  cases s with
  | nil => rfl
  | cons b rest => rw [readDigits, noDigit_cons.mp h]

theorem readDigits_map {digits : List ℕ} (hradix : radix ≤ 36) (hdigits : ∀ d ∈ digits, d < radix)
    (hrest : NoDigit radix rest) :
    readDigits radix (digits.map digitChar ++ rest) = (digits, rest) := by
  induction digits with
  | nil => exact readDigits_of_noDigit hrest
  | cons d digits ih =>
      have hd := digitValue_digitChar hradix (hdigits d mem_cons_self)
      have htail := ih fun d' hd' => hdigits d' (mem_cons_of_mem _ hd')
      rw [map_cons, cons_append, readDigits, hd, htail]

/-! ### Numbers -/

theorem numeralDigits_ne_nil (radix n : ℕ) : numeralDigits radix n ≠ [] := by
  unfold numeralDigits
  split
  · exact cons_ne_nil 0 []
  · rename_i hn
    rw [ne_eq, reverse_eq_nil_iff]
    exact Nat.digits_ne_nil_iff_ne_zero.mpr hn

theorem lt_of_mem_numeralDigits (hradix : 1 < radix) {d : ℕ} (h : d ∈ numeralDigits radix n) :
    d < radix := by
  unfold numeralDigits at h
  split at h
  · rw [mem_singleton.mp h]
    omega
  · exact Nat.digits_lt_base hradix (mem_reverse.mp h)

theorem ofDigits_numeralDigits (radix n : ℕ) :
    Nat.ofDigits radix (numeralDigits radix n).reverse = n := by
  unfold numeralDigits
  split
  · rename_i hn
    rw [hn]
    rfl
  · rw [reverse_reverse, Nat.ofDigits_digits]

theorem length_numeralDigits_le {k : ℕ} (hradix : 1 < radix) (hk : 0 < k) (hn : n < radix ^ k) :
    (numeralDigits radix n).length ≤ k := by
  unfold numeralDigits
  split
  · exact hk
  · rw [length_reverse, Nat.digits_length_le_iff hradix]
    exact hn

theorem length_numeralDigits_of_head (radix : ℕ) (h : (numeralDigits radix n).head? = some 0) :
    (numeralDigits radix n).length = 1 := by
  unfold numeralDigits at h ⊢
  split
  · rfl
  · rename_i hn
    rw [if_neg hn, head?_reverse] at h
    have hlast := Nat.getLast_digit_ne_zero radix hn
    rw [getLast?_eq_some_getLast (Nat.digits_ne_nil_iff_ne_zero.mpr hn)] at h
    exact absurd (Option.some.inj h) hlast

variable {maxDigits : Option ℕ}

theorem readNumber_numeral {limit : ℕ} (hradix : 1 < radix) (hradix' : radix ≤ 36)
    (hdigits : ∀ k ∈ maxDigits, 0 < k ∧ n < radix ^ k) (hlimit : n ≤ limit) (allowZeroPrefix : Bool)
    (hrest : NoDigit radix rest) :
    readNumber radix maxDigits allowZeroPrefix limit (numeral radix n ++ rest) =
      some (n, rest) := by
  have hread := readDigits_map hradix' (fun d hd => lt_of_mem_numeralDigits (n := n) hradix hd) hrest
  have hmax : maxDigits.any (· < (numeralDigits radix n).length) = false := by
    cases maxDigits with
    | none => rfl
    | some k =>
        obtain ⟨hk, hn⟩ := hdigits k rfl
        exact decide_eq_false (not_lt.mpr (length_numeralDigits_le hradix hk hn))
  have hzero : (!allowZeroPrefix && (numeralDigits radix n).head? = some 0 &&
      1 < (numeralDigits radix n).length) = false := by
    by_cases hhead : (numeralDigits radix n).head? = some 0
    · rw [length_numeralDigits_of_head radix hhead]
      simp
    · simp [hhead]
  rw [readNumber, numeral, hread]
  dsimp only
  rw [ofDigits_numeralDigits, if_neg (numeralDigits_ne_nil radix n), hmax, hzero,
    if_neg Bool.false_ne_true, if_neg Bool.false_ne_true, if_neg (not_lt.mpr hlimit)]

theorem readNumber_of_noDigit (maxDigits : Option ℕ) (allowZeroPrefix : Bool) (limit : ℕ)
    (h : NoDigit radix s) : readNumber radix maxDigits allowZeroPrefix limit s = none := by
  rw [readNumber, readDigits_of_noDigit h]
  rfl

theorem rest_of_readNumber {allowZeroPrefix : Bool} {limit value : ℕ}
    (h : readNumber radix maxDigits allowZeroPrefix limit s = some (value, rest)) :
    rest = (readDigits radix s).2 := by
  unfold readNumber at h
  dsimp only at h
  repeat' split at h
  all_goals first
    | cases h
      done
    | cases h
      rfl

theorem eq_digitChar_of_digitValue {b : UInt8} {d : ℕ} (hradix : radix ≤ 10)
    (h : digitValue radix b = some d) : b = digitChar d ∧ d < radix := by
  rw [digitValue] at h
  have hdigit : 48 ≤ b.toNat ∧ b.toNat ≤ 57 := by
    by_contra hnot
    rw [if_neg hnot] at h
    split_ifs at h <;> omega
  rw [if_pos hdigit] at h
  split_ifs at h with hlt
  cases h
  refine ⟨?_, by omega⟩
  apply UInt8.toNat_inj.mp
  rw [toNat_digitChar (by omega), if_pos (by omega)]
  omega

theorem eq_of_readDigits (hradix : radix ≤ 10) (s : List UInt8) :
    s = (readDigits radix s).1.map digitChar ++ (readDigits radix s).2 ∧
      ∀ d ∈ (readDigits radix s).1, d < radix := by
  induction s with
  | nil => exact ⟨rfl, fun d hd => by cases hd⟩
  | cons b s ih =>
      rw [readDigits]
      cases hd : digitValue radix b with
      | none => exact ⟨rfl, fun d hd => by cases hd⟩
      | some d =>
          obtain ⟨rfl, hlt⟩ := eq_digitChar_of_digitValue hradix hd
          refine ⟨?_, forall_mem_cons.mpr ⟨hlt, ih.2⟩⟩
          dsimp only
          rw [map_cons, cons_append, ← ih.1]

theorem numeralDigits_ofDigits {digits : List ℕ} (hradix : 1 < radix) (hne : digits ≠ [])
    (hdigits : ∀ d ∈ digits, d < radix) (hzero : digits.head? = some 0 → digits.length = 1) :
    numeralDigits radix (Nat.ofDigits radix digits.reverse) = digits := by
  by_cases hhead : digits.head? = some 0
  · obtain ⟨d, rfl⟩ := length_eq_one_iff.mp (hzero hhead)
    cases hhead
    rfl
  · have hlast : ∀ h : digits.reverse ≠ [], digits.reverse.getLast h ≠ 0 := by
      intro h heq
      rw [getLast_reverse] at heq
      exact hhead (by rw [head?_eq_some_head hne, heq])
    have hback : Nat.digits radix (Nat.ofDigits radix digits.reverse) = digits.reverse :=
      Nat.digits_ofDigits radix hradix _ (fun d hd => hdigits d (mem_reverse.mp hd)) hlast
    have hpos : Nat.ofDigits radix digits.reverse ≠ 0 := by
      intro hz
      rw [hz, Nat.digits_zero] at hback
      exact hne (reverse_eq_nil_iff.mp hback.symm)
    rw [numeralDigits, if_neg hpos, hback, reverse_reverse]

/-- A number that is read without leading zeros stands in the text as it is written. -/
theorem eq_numeral_of_readNumber {limit value : ℕ} (hradix : 1 < radix) (hradix' : radix ≤ 10)
    (h : readNumber radix maxDigits false limit s = some (value, rest)) :
    s = numeral radix value ++ rest ∧ value ≤ limit := by
  obtain ⟨hs, hdigits⟩ := eq_of_readDigits hradix' s
  rw [readNumber] at h
  dsimp only at h
  split_ifs at h with hne _ hzero hlimit
  cases h
  have hzero' : (readDigits radix s).1.head? = some 0 → (readDigits radix s).1.length = 1 := by
    intro hhead
    have hlen : ¬ 1 < (readDigits radix s).1.length := by simpa [hhead] using hzero
    have hpos := length_pos_of_ne_nil hne
    omega
  refine ⟨?_, not_lt.mp hlimit⟩
  rw [numeral, numeralDigits_ofDigits hradix hne hdigits hzero']
  exact hs
/-- What follows the digits of a text without the character `c` does not start with it. -/
theorem head_readDigits_ne {c : UInt8} {w : List UInt8} (hw : c ∉ w) (hrest : NoDigit radix rest)
    (hc : c ∉ rest.head?) : c ∉ (readDigits radix (w ++ rest)).2.head? := by
  induction w with
  | nil =>
      rw [nil_append, readDigits_of_noDigit hrest]
      exact hc
  | cons b w ih =>
      rw [cons_append, readDigits]
      split
      · exact ih fun hmem => hw (mem_cons_of_mem b hmem)
      · intro hmem
        obtain rfl : b = c := Option.some.inj hmem
        exact hw mem_cons_self

theorem mem_numeral (hradix : 1 < radix) (hradix' : radix ≤ 36) {b : UInt8}
    (h : b ∈ numeral radix n) : 48 ≤ b.toNat ∧ b.toNat < 128 := by
  obtain ⟨d, hd, rfl⟩ := mem_map.mp h
  have hlt := lt_of_mem_numeralDigits hradix hd
  rw [toNat_digitChar (hlt.trans_le hradix')]
  split <;> omega

end Vantablack.Lib
