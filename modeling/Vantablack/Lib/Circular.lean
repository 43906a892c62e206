import Mathlib.Data.Nat.ModEq
import Mathlib.Data.List.Basic

/-!
A queue in an array of slots that is used as a circle: the positions grow without end, and a
position is in the slot that it leaves when it is divided by the number of slots.
-/

namespace Vantablack.Lib

variable {α : Type*} {slots : List (Option α)} {first : ℕ} {items : List α}

theorem place_ne {n i j : ℕ} (hij : i < j) (hj : j < i + n) : i % n ≠ j % n := by
  intro h
  have hdvd : n ∣ j - i := (Nat.modEq_iff_dvd' (Nat.le_of_lt hij)).mp h
  have hle : n ≤ j - i := Nat.le_of_dvd (by omega) hdvd
  omega

/-- The items lie one after the other in the slots from position `first` on. -/
def Lies (slots : List (Option α)) (first : ℕ) (items : List α) : Prop :=
  ∀ i (h : i < items.length), slots[(first + i) % slots.length]? = some (some (items.get ⟨i, h⟩))

theorem lies_nil (slots : List (Option α)) (first : ℕ) : Lies slots first [] := by
  intro i h
  cases h

theorem Lies.head {a : α} (h : Lies slots first (a :: items)) :
    slots[first % slots.length]? = some (some a) := h 0 (Nat.succ_pos _)

theorem Lies.congr_mod (h : Lies slots first items) {start : ℕ}
    (heq : first % slots.length = start % slots.length) : Lies slots start items := by
  intro i hi
  rw [← Nat.ModEq.add_right i heq]
  exact h i hi

theorem Lies.of_append {later : List α} (h : Lies slots first (items ++ later)) :
    Lies slots first items := by
  intro i hi
  rw [h i (by rw [List.length_append]; omega), List.get_eq_getElem, List.get_eq_getElem,
    List.getElem_append_left hi]

theorem Lies.set_of_ne (h : Lies slots first items) {n : ℕ} (slot : Option α)
    (hne : ∀ i < items.length, n ≠ (first + i) % slots.length) :
    Lies (slots.set n slot) first items := by
  intro i hi
  rw [List.length_set, List.getElem?_set_ne (hne i hi)]
  exact h i hi

theorem Lies.push (h : Lies slots first items) (a : α) (hroom : items.length < slots.length) :
    Lies (slots.set ((first + items.length) % slots.length) (some a)) first (items ++ [a]) := by
  have hrest := h.set_of_ne (some a) fun i hi =>
    (place_ne (Nat.add_lt_add_left hi first) (by omega)).symm
  intro i hi
  rw [List.length_append, List.length_singleton] at hi
  rcases Nat.lt_or_eq_of_le (Nat.le_of_lt_succ hi) with hlt | rfl
  · rw [hrest i hlt, List.get_eq_getElem, List.get_eq_getElem, List.getElem_append_left hlt]
  · have hslot : (first + items.length) % slots.length < slots.length := Nat.mod_lt _ (by omega)
    rw [List.length_set, List.getElem?_set_self hslot, List.get_eq_getElem,
      List.getElem_concat_length rfl]

theorem Lies.pop {a : α} (h : Lies slots first (a :: items))
    (hroom : (a :: items).length ≤ slots.length) :
    Lies (slots.set (first % slots.length) none) (first + 1) items := by
  rw [List.length_cons] at hroom
  have hrest : Lies slots (first + 1) items := by
    intro i hi
    have hnext := h (i + 1) (Nat.succ_lt_succ hi)
    rw [show first + 1 + i = first + (i + 1) by omega]
    exact hnext
  exact hrest.set_of_ne none fun i hi => place_ne (by omega) (by omega)

end Vantablack.Lib
