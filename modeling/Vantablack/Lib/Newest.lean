import Mathlib.Data.Finset.Max

/-!
The largest elements of a finite set: those with fewer than `k` elements above them. A store that
drops its smallest element as long as it has more than `k` keeps exactly these. Whether an element
is kept is told by what stands above it, so that a store that is cut again and again has kept an
element exactly if there were never `k` larger ones.
-/

namespace Vantablack.Lib

variable {α : Type*} [LinearOrder α] {k : ℕ} {S T : Finset α} {a b : α}

/-- The elements with fewer than `k` larger ones. -/
def newest (k : ℕ) (S : Finset α) : Finset α :=
  S.filter fun a => (S.filter (a < ·)).card < k

theorem mem_newest : a ∈ newest k S ↔ a ∈ S ∧ (S.filter (a < ·)).card < k :=
  Finset.mem_filter

theorem newest_subset (k : ℕ) (S : Finset α) : newest k S ⊆ S :=
  Finset.filter_subset _ _

theorem card_larger_lt (ha : a ∈ S) : (S.filter (a < ·)).card < S.card := by
  apply Finset.card_lt_card
  refine ⟨Finset.filter_subset _ _, ?_⟩
  intro hsub
  exact lt_irrefl a (Finset.mem_filter.mp (hsub ha)).2

theorem newest_eq_self (h : S.card ≤ k) : newest k S = S := by
  apply Finset.filter_true_of_mem
  intro a ha
  exact (card_larger_lt ha).trans_le h

/-- The smallest of more than `k` elements is not kept, and the others do not depend on it. -/
theorem newest_erase (ha : a ∈ S) (hmin : ∀ b ∈ S, a ≤ b) (hcard : k < S.card) :
    newest k (S.erase a) = newest k S := by
  have hlarger : S.filter (a < ·) = S.erase a := by
    ext b
    rw [Finset.mem_filter, Finset.mem_erase]
    constructor
    · rintro ⟨hb, hlt⟩
      exact ⟨hlt.ne', hb⟩
    · rintro ⟨hne, hb⟩
      exact ⟨hb, lt_of_le_of_ne (hmin b hb) hne.symm⟩
  ext b
  rw [mem_newest, mem_newest, Finset.mem_erase]
  by_cases hb : b = a
  · subst hb
    rw [hlarger, Finset.card_erase_of_mem ha]
    constructor
    · rintro ⟨⟨hne, -⟩, -⟩
      exact absurd rfl hne
    · rintro ⟨-, hlt⟩
      omega
  · have hsame : (b ∈ S) → (S.erase a).filter (b < ·) = S.filter (b < ·) := by
      intro hbS
      rw [Finset.filter_erase, Finset.erase_eq_of_notMem]
      intro hmem
      exact absurd (Finset.mem_filter.mp hmem).2 (not_lt.mpr (hmin b hbS))
    constructor
    · rintro ⟨⟨-, hbS⟩, hlt⟩
      rw [hsame hbS] at hlt
      exact ⟨hbS, hlt⟩
    · rintro ⟨hbS, hlt⟩
      rw [← hsame hbS] at hlt
      exact ⟨⟨hb, hbS⟩, hlt⟩

theorem card_newest_le (k : ℕ) (S : Finset α) : (newest k S).card ≤ k := by
  induction hn : S.card generalizing S with
  | zero =>
      rw [Finset.card_eq_zero.mp hn]
      exact Nat.zero_le k
  | succ n ih =>
      by_cases hcard : k < S.card
      · have hne : S.Nonempty := Finset.card_pos.mp (by omega)
        have hmem := S.min'_mem hne
        rw [← newest_erase hmem (fun b hb => S.min'_le b hb) hcard]
        exact ih (S.erase (S.min' hne)) (by rw [Finset.card_erase_of_mem hmem, hn]; rfl)
      · rw [newest_eq_self (not_lt.mp hcard)]
        exact not_lt.mp hcard

/-! ### Upper parts -/

/-- `S` has all elements of `T` that are above one of `S`. -/
def UpperIn (S T : Finset α) : Prop :=
  ∀ a ∈ S, ∀ b ∈ T, a < b → b ∈ S

theorem UpperIn.newest (h : UpperIn S T) (k : ℕ) : UpperIn (newest k S) T := by
  intro a ha b hb hlt
  rw [mem_newest] at ha ⊢
  have hbS := h a ha.1 b hb hlt
  refine ⟨hbS, lt_of_le_of_lt (Finset.card_le_card ?_) ha.2⟩
  intro c hc
  rw [Finset.mem_filter] at hc ⊢
  exact ⟨hc.1, hlt.trans hc.2⟩

theorem UpperIn.erase (h : UpperIn S T) (a : α) : UpperIn (S.erase a) (T.erase a) := by
  intro b hb c hc hlt
  rw [Finset.mem_erase] at hb hc ⊢
  exact ⟨hc.1, h b hb.2 c hc.2 hlt⟩

theorem UpperIn.union (h : UpperIn S T) {U : Finset α} (hU : ∀ a ∈ T, ∀ b ∈ U, a < b) :
    UpperIn (S ∪ U) (T ∪ U) := by
  intro a ha b hb hlt
  rw [Finset.mem_union] at ha hb ⊢
  rcases hb with hb | hb
  · rcases ha with ha | ha
    · exact .inl (h a ha b hb hlt)
    · exact absurd (hU b hb a ha) (lt_asymm hlt)
  · exact .inr hb

theorem UpperIn.larger (h : UpperIn S T) (hST : S ⊆ T) (ha : a ∈ S) :
    S.filter (a < ·) = T.filter (a < ·) := by
  ext b
  rw [Finset.mem_filter, Finset.mem_filter]
  constructor
  · rintro ⟨hb, hlt⟩
    exact ⟨hST hb, hlt⟩
  · rintro ⟨hb, hlt⟩
    exact ⟨h a ha b hb hlt, hlt⟩

theorem UpperIn.mem_newest_iff (h : UpperIn S T) (hST : S ⊆ T) :
    a ∈ Lib.newest k S ↔ a ∈ S ∧ (T.filter (a < ·)).card < k := by
  rw [mem_newest]
  refine and_congr_right fun ha => ?_
  rw [h.larger hST ha]

end Vantablack.Lib
