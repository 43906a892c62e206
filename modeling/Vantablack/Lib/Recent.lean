import Mathlib.Data.List.Induction
import Mathlib.Order.Lattice

/-!
The newest entries of a list that grows at its end. The maximum of all entries is that of the `n`
newest ones, after every step, exactly if no entry is above each of the `n` entries that follow it.
In a list that is ordered by time, what is dropped from the front until the first entry that is
young enough is all that is too old.
-/

namespace Vantablack.Lib

open List

variable {α : Type*}

/-- The `n` last entries, or all of them if there are fewer. -/
def recent (n : ℕ) (l : List α) : List α := l.drop (l.length - n)

theorem recent_subset (n : ℕ) (l : List α) : recent n l ⊆ l := drop_subset _ _

theorem length_recent (n : ℕ) (l : List α) : (recent n l).length = min n l.length := by
  rw [recent, length_drop]
  omega

variable {n : ℕ} {l : List α}

theorem recent_of_length_le (h : l.length ≤ n) : recent n l = l := by
  rw [recent, Nat.sub_eq_zero_of_le h, drop_zero]

theorem recent_concat (n : ℕ) (l : List α) (a : α) :
    recent n (recent n l ++ [a]) = recent n (l ++ [a]) := by
  rw [recent, recent, recent, length_append, length_append, length_singleton,
    length_drop]
  have hsplit : (l.drop (l.length - n) ++ [a]) = (l ++ [a]).drop (l.length - n) := by
    rw [drop_append_of_le_length (Nat.sub_le _ _)]
  rw [hsplit, drop_drop]
  congr 1
  omega

theorem recent_append_of_length {window : List α} (h : window.length = n) :
    recent n (l ++ window) = window := by
  rw [recent, length_append, h, Nat.add_sub_cancel, drop_left]

/-- No entry is above each of the `n` entries that follow it. -/
def NoPeak [LE α] (n : ℕ) (l : List α) : Prop :=
  ∀ before a window later, l = before ++ a :: window ++ later → window.length = n →
    ∃ b ∈ window, a ≤ b

theorem NoPeak.of_append [LE α] {l' : List α} (h : NoPeak n (l ++ l')) : NoPeak n l := by
  rintro before a window later rfl hlength
  exact h before a window (later ++ l') (by rw [append_assoc]) hlength

/-- One entry more: an entry that was covered still is, as the one that is dropped is no peak. -/
theorem NoPeak.covered_concat [Preorder α] (hn : 0 < n) {x : α} (h : NoPeak n (l ++ [x])) {a b : α}
    (hb : b ∈ recent n l) (hab : a ≤ b) : ∃ c ∈ recent n (l ++ [x]), a ≤ c := by
  have hlength := length_recent n l
  rw [← recent_concat]
  rcases Nat.lt_or_ge (recent n l).length n with hfew | hfull
  · have hall : (recent n l ++ [x]).length ≤ n := by
      rw [length_append, length_singleton]
      omega
    rw [recent_of_length_le hall]
    exact ⟨b, mem_append_left _ hb, hab⟩
  · obtain ⟨c, window, hwindow⟩ := exists_cons_of_length_pos (hn.trans_le hfull)
    have hsize : (window ++ [x]).length = n := by
      rw [hwindow, length_cons] at hfull hlength
      rw [length_append, length_singleton]
      omega
    have hsplit : l ++ [x] = l.take (l.length - n) ++ c :: (window ++ [x]) ++ [] := by
      have hl : l.take (l.length - n) ++ recent n l = l := take_append_drop _ _
      conv_lhs => rw [← hl, hwindow]
      simp
    rw [hwindow, cons_append, ← singleton_append, recent_append_of_length hsize]
    rw [hwindow] at hb
    rcases mem_cons.mp hb with rfl | hb
    · obtain ⟨d, hd, hle⟩ := h _ _ _ _ hsplit hsize
      exact ⟨d, hd, hab.trans hle⟩
    · exact ⟨b, mem_append_left _ hb, hab⟩

theorem mem_recent_concat (hn : 0 < n) (l : List α) (x : α) : x ∈ recent n (l ++ [x]) := by
  rw [recent, length_append, length_singleton,
    drop_append_of_le_length (by omega)]
  exact mem_append_right _ (mem_singleton_self x)

theorem NoPeak.covered [Preorder α] (hn : 0 < n) (h : NoPeak n l) :
    ∀ a ∈ l, ∃ b ∈ recent n l, a ≤ b := by
  induction l using reverseRecOn with
  | nil => simp
  | append_singleton l x ih =>
      intro a ha
      rcases mem_append.mp ha with ha | ha
      · obtain ⟨b, hb, hab⟩ := ih h.of_append a ha
        exact h.covered_concat hn hb hab
      · rw [mem_singleton.mp ha]
        exact ⟨x, mem_recent_concat hn l x, le_rfl⟩

/-- Every entry is covered by one of the newest, after every step, exactly if there is no peak. -/
theorem covered_iff_noPeak [Preorder α] (hn : 0 < n) :
    (∀ earlier later, l = earlier ++ later → ∀ a ∈ earlier, ∃ b ∈ recent n earlier, a ≤ b) ↔
      NoPeak n l := by
  constructor
  · rintro h before a window later rfl hlength
    have hcover := h (before ++ a :: window) later rfl a
      (mem_append_right _ mem_cons_self)
    have hwindow : recent n (before ++ a :: window) = window := by
      rw [← singleton_append, ← append_assoc, recent_append_of_length hlength]
    rwa [hwindow] at hcover
  · rintro h earlier later rfl
    exact h.of_append.covered hn

/-- In a list ordered by time, what is left after the old entries at the front are the young ones. -/
theorem dropWhile_eq_filter (f : α → ℕ) (old : ℕ → Bool) (hold : ∀ s t, s ≤ t → old t → old s)
    (h : l.Pairwise fun a b => f a ≤ f b) :
    l.dropWhile (fun a => old (f a)) = l.filter fun a => !old (f a) := by
  induction l with
  | nil => rfl
  | cons a l ih =>
      obtain ⟨hfirst, hrest⟩ := pairwise_cons.mp h
      cases hage : old (f a) with
      | true =>
          rw [dropWhile_cons_of_pos (by rw [hage]), filter_cons_of_neg (by simp [hage])]
          exact ih hrest
      | false =>
          -- what comes after a young entry is young
          have hyoung : ∀ b ∈ l, (!old (f b)) = true := by
            intro b hb
            rw [Bool.not_eq_true', Bool.eq_false_iff]
            intro hb'
            rw [hold _ _ (hfirst b hb) hb'] at hage
            cases hage
          rw [dropWhile_cons_of_neg (by simp [hage]), filter_cons_of_pos (by simp [hage]),
            filter_eq_self.mpr hyoung]

end Vantablack.Lib
