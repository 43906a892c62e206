import Mathlib.Data.List.Infix
import Mathlib.Data.Nat.Find

/-!
A stream that comes in pieces. A reader puts piece after piece behind its buffer until the buffer
has what it needs; where the pieces end does not matter to a reader that looks for a short word.
-/

namespace Vantablack.Lib

open List

variable {α : Type*}

/-! ### Looking for a word -/

/-- The first place of a word in a text. -/
def findSubslice [DecidableEq α] (haystack needle : List α) : Option ℕ :=
  (range (haystack.length + 1 - needle.length)).find? fun i =>
    (haystack.drop i).take needle.length = needle

section Search

variable {text later needle : List α} {i : ℕ}

theorem prefix_drop_append_iff {j : ℕ} (h : j + needle.length ≤ text.length) :
    needle <+: (text ++ later).drop j ↔ needle <+: text.drop j := by
  rw [drop_append_of_le_length (by omega)]
  constructor
  · intro hfront
    refine prefix_of_prefix_length_le hfront (prefix_append _ _) ?_
    rw [length_drop]
    omega
  · exact fun hfront => hfront.trans (prefix_append _ _)

variable [DecidableEq α]

theorem findSubslice_eq_some_iff (hneedle : needle ≠ []) :
    findSubslice text needle = some i ↔
      needle <+: text.drop i ∧ ∀ j < i, ¬ needle <+: text.drop j := by
  have hfront : ∀ j, decide ((text.drop j).take needle.length = needle) = true ↔
      needle <+: text.drop j := by
    intro j
    rw [decide_eq_true_iff, prefix_iff_eq_take, eq_comm]
  have hpos := length_pos_of_ne_nil hneedle
  rw [findSubslice, find?_range_eq_some, hfront, mem_range]
  constructor
  · rintro ⟨hfound, -, hfirst⟩
    exact ⟨hfound, fun j hj hother => by simpa [(hfront j).mpr hother] using hfirst j hj⟩
  · rintro ⟨hfound, hfirst⟩
    have hlength := hfound.length_le
    rw [length_drop] at hlength
    refine ⟨hfound, by omega, fun j hj => ?_⟩
    by_contra hother
    refine hfirst j hj ((hfront j).mp ?_)
    simpa using hother

theorem findSubslice_eq_none_iff (hneedle : needle ≠ []) :
    findSubslice text needle = none ↔ ∀ i, ¬ needle <+: text.drop i := by
  constructor
  · intro hnone i hfound
    obtain ⟨j, hj⟩ : ∃ j, findSubslice text needle = some j := by
      classical
      have hsome : ∃ j, needle <+: text.drop j := ⟨i, hfound⟩
      exact ⟨Nat.find hsome, (findSubslice_eq_some_iff hneedle).mpr
        ⟨Nat.find_spec hsome, fun j hj => Nat.find_min hsome hj⟩⟩
    rw [hnone] at hj
    cases hj
  · intro hnone
    rw [Option.eq_none_iff_forall_not_mem]
    exact fun i hi => hnone i ((findSubslice_eq_some_iff hneedle).mp hi).1

theorem length_le_of_findSubslice (hneedle : needle ≠ []) (h : findSubslice text needle = some i) :
    i + needle.length ≤ text.length := by
  have hlength := ((findSubslice_eq_some_iff hneedle).mp h).1.length_le
  have hpos := length_pos_of_ne_nil hneedle
  rw [length_drop] at hlength
  omega

theorem findSubslice_append (hneedle : needle ≠ []) (h : findSubslice text needle = some i)
    (later : List α) : findSubslice (text ++ later) needle = some i := by
  have hlength := length_le_of_findSubslice hneedle h
  obtain ⟨hfound, hfirst⟩ := (findSubslice_eq_some_iff hneedle).mp h
  refine (findSubslice_eq_some_iff hneedle).mpr ⟨(prefix_drop_append_iff hlength).mpr hfound, ?_⟩
  intro j hj hother
  exact hfirst j hj ((prefix_drop_append_iff (by omega)).mp hother)

theorem findSubslice_of_append (hneedle : needle ≠ []) (text later : List α)
    (h : findSubslice (text ++ later) needle = some i) :
    findSubslice text needle = if i + needle.length ≤ text.length then some i else none := by
  obtain ⟨hfound, hfirst⟩ := (findSubslice_eq_some_iff hneedle).mp h
  split
  · next hlength =>
      refine (findSubslice_eq_some_iff hneedle).mpr
        ⟨(prefix_drop_append_iff hlength).mp hfound, fun j hj hother => ?_⟩
      exact hfirst j hj ((prefix_drop_append_iff (by omega)).mpr hother)
  · next hlength =>
      refine (findSubslice_eq_none_iff hneedle).mpr fun j hother => ?_
      have hend := hother.length_le
      have hpos := length_pos_of_ne_nil hneedle
      rw [length_drop] at hend
      exact hfirst j (by omega) ((prefix_drop_append_iff (by omega)).mpr hother)

theorem findSubslice_append_self {head : List α} {a b : α}
    (h : findSubslice head [a, b] = none) (hab : a ≠ b) (hlast : later = [a, b] ++ text) :
    findSubslice (head ++ later) [a, b] = some head.length := by
  have hneedle : [a, b] ≠ [] := cons_ne_nil _ _
  subst hlast
  refine (findSubslice_eq_some_iff hneedle).mpr ⟨?_, fun j hj hother => ?_⟩
  · rw [drop_left]
    exact prefix_append _ _
  · by_cases hinside : j + 2 ≤ head.length
    · exact (findSubslice_eq_none_iff hneedle).mp h j ((prefix_drop_append_iff hinside).mp hother)
    · -- the word would begin with the last letter of the head and go on with its own first letter
      obtain ⟨tail, htail⟩ := hother
      have hsecond := congrArg (fun l : List α => l[1]?) htail
      have hplace : (((head ++ ([a, b] ++ text)).drop j))[1]? = some a := by
        rw [getElem?_drop, getElem?_append_right (by omega)]
        have hzero : j + 1 - head.length = 0 := by omega
        rw [hzero]
        rfl
      rw [hplace] at hsecond
      exact hab (Option.some.inj hsecond).symm

end Search

/-! ### Reading -/

variable {β : Type*}

/-- Put piece after piece behind the buffer until it is done: the result, the buffer and the pieces
that have not been read. `none` if it is not done with all of them. -/
def readUntil (done : List α → Option β) :
    List α → List (List α) → Option (β × List α × List (List α))
  | buf, [] => (done buf).map fun b => (b, buf, [])
  | buf, piece :: pieces =>
      match done buf with
      | some b => some (b, buf, piece :: pieces)
      | none => readUntil done (buf ++ piece) pieces

section Reading

variable {done : List α → Option β} {buf buf' : List α} {pieces pieces' : List (List α)} {b : β}

theorem readUntil_of_done (h : done buf = some b) :
    readUntil done buf pieces = some (b, buf, pieces) := by
  cases pieces with
  | nil => rw [readUntil, h, Option.map_some]
  | cons piece pieces => rw [readUntil, h]

/-- When reading ends, the buffer is done and holds what has been read; it was done from the start,
or was not before the last piece. -/
theorem readUntil_some (h : readUntil done buf pieces = some (b, buf', pieces')) :
    done buf' = some b ∧ buf' ++ pieces'.flatten = buf ++ pieces.flatten ∧
      (∃ taken, pieces = taken ++ pieces') ∧
      (buf' = buf ∨ ∃ before last, buf' = before ++ last ∧ last ∈ pieces ∧ done before = none) := by
  induction pieces generalizing buf with
  | nil =>
      obtain ⟨b', hdone, heq⟩ := Option.map_eq_some_iff.mp h
      cases heq
      exact ⟨hdone, rfl, ⟨[], rfl⟩, Or.inl rfl⟩
  | cons piece pieces ih =>
      rw [readUntil] at h
      split at h
      · next hdone =>
          cases h
          exact ⟨hdone, rfl, ⟨[], rfl⟩, Or.inl rfl⟩
      · next hnone =>
          obtain ⟨hdone, hall, ⟨taken, htaken⟩, hlast⟩ := ih h
          refine ⟨hdone, ?_, ⟨piece :: taken, by rw [htaken, cons_append]⟩, Or.inr ?_⟩
          · rw [hall, flatten_cons, append_assoc]
          · rcases hlast with rfl | ⟨before, last, rfl, hmem, hbefore⟩
            · exact ⟨buf, piece, rfl, mem_cons_self, hnone⟩
            · exact ⟨before, last, rfl, mem_cons_of_mem _ hmem, hbefore⟩

theorem readUntil_none (h : readUntil done buf pieces = none) :
    done (buf ++ pieces.flatten) = none := by
  induction pieces generalizing buf with
  | nil =>
      rw [readUntil, Option.map_eq_none_iff] at h
      rwa [flatten_nil, append_nil]
  | cons piece pieces ih =>
      rw [readUntil] at h
      split at h
      · cases h
      · rw [flatten_cons, ← append_assoc]
        exact ih h

theorem readUntil_append (front : List (List α)) (h : done (buf ++ front.flatten) = some b)
    (hbefore : ∀ n < front.length, done (buf ++ (front.take n).flatten) = none)
    (pieces : List (List α)) :
    readUntil done buf (front ++ pieces) = some (b, buf ++ front.flatten, pieces) := by
  induction front generalizing buf with
  | nil =>
      rw [flatten_nil, append_nil] at h ⊢
      exact readUntil_of_done h
  | cons piece front ih =>
      have hnow : done buf = none := by simpa using hbefore 0 (Nat.succ_pos _)
      rw [flatten_cons, ← append_assoc] at h ⊢
      rw [cons_append, readUntil, hnow]
      refine ih h fun n hn => ?_
      have hnext := hbefore (n + 1) (Nat.succ_lt_succ hn)
      rwa [take_succ_cons, flatten_cons, ← append_assoc] at hnext

end Reading

/-- A list in pieces of one element. -/
def singles (l : List α) : List (List α) := l.map fun a => [a]

@[simp] theorem flatten_singles (l : List α) : (singles l).flatten = l := by
  induction l with
  | nil => rfl
  | cons a l ih => exact congrArg (a :: ·) ih

theorem take_singles (l : List α) (n : ℕ) : (singles l).take n = singles (l.take n) :=
  (map_take ..).symm

theorem singles_append (l l' : List α) : singles (l ++ l') = singles l ++ singles l' :=
  map_append ..

end Vantablack.Lib
