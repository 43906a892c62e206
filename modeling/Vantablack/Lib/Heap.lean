import Mathlib.Data.Vector.Basic
import Mathlib.Order.Defs.LinearOrder
import Mathlib.Tactic.Common

/-!
A binary heap in an array, with the pushing and popping of Python's `heapq`: items are compared by a
key alone. The item that is moved is swapped along, where the original leaves a hole.

A heap has its smallest key at the front. Items of one key come out in an order that depends on
the shape of the heap.
-/

namespace Vantablack.Lib.Heap

variable {α τ : Type*} [LinearOrder τ] (key : α → τ) {n : ℕ}

/-- `_siftdown` from the front on: the item at `pos` moves up while its parent is larger, at most
`fuel` times. -/
def siftdown : ℕ → Vector α n → (pos : ℕ) → pos < n → Vector α n
  | 0, heap, _, _ => heap
  | fuel + 1, heap, pos, hpos =>
      let parentpos := (pos - 1) / 2
      have hparent : parentpos < n := by omega
      if 0 < pos ∧ key heap[pos] < key heap[parentpos] then
        siftdown fuel (heap.swap pos parentpos hpos hparent) parentpos hparent
      else heap

/-- The child with the smaller key, the right one if they are equal. -/
def smallerChild (heap : Vector α n) (pos : ℕ) (h : 2 * pos + 1 < n) : ℕ :=
  if hright : 2 * pos + 2 < n then
    if key heap[2 * pos + 1] < key heap[2 * pos + 2] then 2 * pos + 1 else 2 * pos + 2
  else 2 * pos + 1

variable {key} in
theorem smallerChild_lt {heap : Vector α n} {pos : ℕ} {h : 2 * pos + 1 < n} :
    smallerChild key heap pos h < n := by
  unfold smallerChild
  split
  · split <;> omega
  · exact h

/-- `_siftup`: the item at `pos` moves down to a leaf, and from there up to its place. -/
def siftup : ℕ → Vector α n → (pos : ℕ) → pos < n → Vector α n
  | 0, heap, pos, hpos => siftdown key n heap pos hpos
  | fuel + 1, heap, pos, hpos =>
      if h : 2 * pos + 1 < n then
        siftup fuel (heap.swap pos (smallerChild key heap pos h) hpos smallerChild_lt)
          (smallerChild key heap pos h) smallerChild_lt
      else siftdown key n heap pos hpos

def heappush (heap : Array α) (item : α) : Array α :=
  (siftdown key heap.size ⟨heap.push item, rfl⟩ heap.size (by simp)).toArray

/-- `heappop` with the last item taken off: it goes to the front, and from there to its place. -/
def replaceFront (rest : Array α) (lastelt : α) : α × Array α :=
  if h : 0 < rest.size then
    let heap : Vector α rest.size := ⟨rest.set 0 lastelt, by simp⟩
    (rest[0], (siftup key rest.size heap 0 h).toArray)
  else (lastelt, rest)

/-- The first item and the heap without it. -/
def heappop (heap : Array α) : Option (α × Array α) :=
  heap.back?.map (replaceFront key heap.pop)

/-! ### The order of a heap -/

/-- No key is smaller than that of its parent. -/
def Ordered (heap : Vector α n) : Prop :=
  ∀ i (hi : i < n), 0 < i → key heap[(i - 1) / 2] ≤ key heap[i]

/-- The heap is in order but for the item at `pos`, which may be smaller than its parent. -/
structure UpOrder (heap : Vector α n) (pos : ℕ) : Prop where
  off_pos : ∀ i (hi : i < n), 0 < i → i ≠ pos → key heap[(i - 1) / 2] ≤ key heap[i]
  around : ∀ i (hi : i < n), 0 < i → (i - 1) / 2 = pos → 0 < pos →
    key heap[((i - 1) / 2 - 1) / 2] ≤ key heap[i]

/-- The heap is in order but for the item at `pos`, which may be larger than its children, too. -/
structure DownOrder (heap : Vector α n) (pos : ℕ) : Prop where
  off_pos : ∀ i (hi : i < n), 0 < i → i ≠ pos → (i - 1) / 2 ≠ pos →
    key heap[(i - 1) / 2] ≤ key heap[i]
  around : ∀ i (hi : i < n), 0 < i → (i - 1) / 2 = pos → 0 < pos →
    key heap[((i - 1) / 2 - 1) / 2] ≤ key heap[i]

section Sift

variable {key} {heap : Vector α n} {pos : ℕ}

theorem UpOrder.ordered (h : UpOrder key heap pos) (hpos : pos < n)
    (hstop : ¬ (0 < pos ∧ key heap[pos] < key heap[(pos - 1) / 2])) : Ordered key heap := by
  intro i hi hi0
  by_cases heq : i = pos
  · subst heq
    exact not_lt.mp fun hlt => hstop ⟨hi0, hlt⟩
  · exact h.off_pos i hi hi0 heq

theorem UpOrder.swap (h : UpOrder key heap pos) (hpos : pos < n) (hparent : (pos - 1) / 2 < n)
    (hpos0 : 0 < pos) (hlt : key heap[pos] < key heap[(pos - 1) / 2]) :
    UpOrder key (heap.swap pos ((pos - 1) / 2) hpos hparent) ((pos - 1) / 2) := by
  constructor
  · intro i hi hi0 hne
    have hold := h.off_pos i hi hi0
    have haround := h.around i hi hi0
    simp only [Vector.getElem_swap]
    by_cases hself : i = pos
    · subst hself
      simp only [if_true, if_neg (show ¬ (i - 1) / 2 = i by omega)]
      exact hlt.le
    · rw [if_neg hself, if_neg hne]
      split
      · rename_i hchild
        have hgrand := haround hchild hpos0
        simp only [hchild] at hgrand
        exact hgrand
      · split
        · rename_i hsibling
          have hle := hold hself
          simp only [hsibling] at hle
          exact hlt.le.trans hle
        · exact hold hself
  · intro i hi hi0 hchild hq0
    have hup := h.off_pos ((pos - 1) / 2) hparent hq0 (by omega)
    have hold := h.off_pos i hi hi0
    simp only [Vector.getElem_swap, hchild]
    rw [if_neg (by omega), if_neg (by omega)]
    by_cases hself : i = pos
    · rw [if_pos hself]
      exact hup
    · rw [if_neg hself, if_neg (by omega)]
      have hle := hold hself
      simp only [hchild] at hle
      exact hup.trans hle

theorem siftdown_ordered {fuel : ℕ} (hfuel : pos ≤ fuel) (hpos : pos < n)
    (h : UpOrder key heap pos) : Ordered key (siftdown key fuel heap pos hpos) := by
  induction fuel generalizing heap pos with
  | zero => exact h.ordered hpos fun hstop => by omega
  | succ fuel ih =>
      rw [siftdown]
      split
      · rename_i hmove
        exact ih (by omega) _ (h.swap hpos _ hmove.1 hmove.2)
      · rename_i hstop
        exact h.ordered hpos hstop

theorem siftdown_perm (fuel : ℕ) (heap : Vector α n) (pos : ℕ) (hpos : pos < n) :
    (siftdown key fuel heap pos hpos).toList.Perm heap.toList := by
  induction fuel generalizing heap pos with
  | zero => exact .refl _
  | succ fuel ih =>
      rw [siftdown]
      split
      · exact (ih _ _ _).trans (Vector.swap_perm _ _).toList
      · exact .refl _

theorem smallerChild_eq (h : 2 * pos + 1 < n) :
    (smallerChild key heap pos h - 1) / 2 = pos ∧ 0 < smallerChild key heap pos h := by
  unfold smallerChild
  split
  · split <;> omega
  · omega

theorem smallerChild_le (h : 2 * pos + 1 < n) (hc : smallerChild key heap pos h < n) {i : ℕ}
    (hi : i < n) (hi0 : 0 < i) (hchild : (i - 1) / 2 = pos) :
    key heap[smallerChild key heap pos h] ≤ key heap[i] := by
  have hi' : i = 2 * pos + 1 ∨ i = 2 * pos + 2 := by omega
  by_cases hright : 2 * pos + 2 < n
  · by_cases hlt : key heap[2 * pos + 1] < key heap[2 * pos + 2]
    · have hleft : smallerChild key heap pos h = 2 * pos + 1 := by
        rw [smallerChild, dif_pos hright, if_pos hlt]
      simp only [hleft]
      rcases hi' with rfl | rfl
      · exact le_rfl
      · exact hlt.le
    · have hsmall : smallerChild key heap pos h = 2 * pos + 2 := by
        rw [smallerChild, dif_pos hright, if_neg hlt]
      simp only [hsmall]
      rcases hi' with rfl | rfl
      · exact not_lt.mp hlt
      · exact le_rfl
  · have honly : smallerChild key heap pos h = 2 * pos + 1 := by rw [smallerChild, dif_neg hright]
    obtain rfl : i = 2 * pos + 1 := by omega
    simp only [honly, le_refl]

theorem DownOrder.swap (h : DownOrder key heap pos) (hpos : pos < n) {c : ℕ} (hc : c < n)
    (hc0 : 0 < c) (hparent : (c - 1) / 2 = pos)
    (hle : ∀ i (hi : i < n), 0 < i → (i - 1) / 2 = pos → key heap[c] ≤ key heap[i]) :
    DownOrder key (heap.swap pos c hpos hc) c := by
  have hself := h.around c hc hc0 hparent
  simp only [hparent] at hself
  constructor
  · intro i hi hi0 hne hchild
    have hold := h.off_pos i hi hi0
    have hsmall := hle i hi hi0
    simp only [Vector.getElem_swap]
    rw [if_neg hchild, if_neg hne]
    by_cases hipos : i = pos
    · subst hipos
      rw [if_neg (by omega), if_pos rfl]
      exact hself (by omega)
    · rw [if_neg hipos]
      split
      · rename_i hsibling
        exact hsmall hsibling
      · rename_i hother
        exact hold hipos hother
  · intro i hi hi0 hchild _
    have hold := h.off_pos i hi hi0 (by omega) (by omega)
    simp only [hchild] at hold
    simp only [Vector.getElem_swap, hchild, hparent]
    rw [if_pos trivial, if_neg (by omega), if_neg (by omega)]
    exact hold

theorem DownOrder.upOrder (h : DownOrder key heap pos) (hleaf : ¬ 2 * pos + 1 < n) :
    UpOrder key heap pos where
  off_pos i hi hi0 hne := h.off_pos i hi hi0 hne (by omega)
  around := h.around

theorem siftup_ordered {fuel : ℕ} (hfuel : n ≤ pos + fuel) (hpos : pos < n)
    (h : DownOrder key heap pos) : Ordered key (siftup key fuel heap pos hpos) := by
  induction fuel generalizing heap pos with
  | zero => omega
  | succ fuel ih =>
      rw [siftup]
      split
      · rename_i hleft
        obtain ⟨hparent, hc0⟩ : (smallerChild key heap pos hleft - 1) / 2 = pos ∧
          0 < smallerChild key heap pos hleft := smallerChild_eq hleft
        exact ih (by omega) _ (h.swap hpos _ hc0 hparent fun i hi =>
          smallerChild_le hleft smallerChild_lt hi)
      · rename_i hleaf
        exact siftdown_ordered hpos.le hpos (h.upOrder hleaf)

theorem siftup_perm (fuel : ℕ) (heap : Vector α n) (pos : ℕ) (hpos : pos < n) :
    (siftup key fuel heap pos hpos).toList.Perm heap.toList := by
  induction fuel generalizing heap pos with
  | zero => exact siftdown_perm _ _ _ _
  | succ fuel ih =>
      rw [siftup]
      split
      · exact (ih _ _ _).trans (Vector.swap_perm _ _).toList
      · exact siftdown_perm _ _ _ _

end Sift

/-! ### Pushing and popping -/

/-- An array whose items are in the order of a heap. -/
def IsHeap (heap : Array α) : Prop := Ordered key ⟨heap, rfl⟩

variable {key} {heap : Array α} {item : α}

theorem isHeap_toArray {heap : Vector α n} (h : Ordered key heap) : IsHeap key heap.toArray := by
  obtain ⟨heap, rfl⟩ := heap
  exact h

theorem isHeap_empty : IsHeap key #[] := fun _ hi => absurd hi (Nat.not_lt_zero _)

theorem IsHeap.front_le (h : IsHeap key heap) (hpos : 0 < heap.size) {i : ℕ} (hi : i < heap.size) :
    key heap[0] ≤ key heap[i] := by
  induction i using Nat.strongRecOn with
  | ind i ih =>
      by_cases hi0 : i = 0
      · subst hi0
        exact le_rfl
      · have hparent := ih ((i - 1) / 2) (by omega) (by omega)
        exact hparent.trans (h i hi (by omega))

theorem heappush_perm : (heappush key heap item).toList.Perm (item :: heap.toList) := by
  have hsift : (heappush key heap item).toList.Perm _ :=
    siftdown_perm heap.size ⟨heap.push item, rfl⟩ heap.size (by simp)
  refine hsift.trans ?_
  rw [Vector.toList_mk, Array.toList_push]
  exact List.perm_append_singleton item heap.toList

theorem IsHeap.heappush (h : IsHeap key heap) : IsHeap key (heappush key heap item) := by
  refine isHeap_toArray (siftdown_ordered le_rfl _ ⟨?_, ?_⟩)
  · intro i hi hi0 hne
    have hsize : i < heap.size := by
      rw [Array.size_push] at hi
      omega
    have hold := h i hsize hi0
    simp only [Vector.getElem_mk] at hold ⊢
    rw [Array.getElem_push_lt hsize, Array.getElem_push_lt (by omega)]
    exact hold
  · intro i hi hi0 hchild
    rw [Array.size_push] at hi
    omega

theorem heappop_eq_some {rest : Array α} (h : heappop key heap = some (item, rest)) :
    heap[0]? = some item ∧ heap.toList.Perm (item :: rest.toList) ∧
      (IsHeap key heap → IsHeap key rest) := by
  obtain ⟨last, hlast, hrest⟩ := Option.map_eq_some_iff.mp h
  obtain ⟨init, rfl⟩ := Array.back?_eq_some_iff.mp hlast
  rw [Array.pop_push, replaceFront] at hrest
  split at hrest
  · rename_i hpos
    cases hrest
    refine ⟨?_, ?_, fun hheap => isHeap_toArray (siftup_ordered (by simp) hpos ⟨?_, ?_⟩)⟩
    · rw [Array.getElem?_push_lt hpos]
    · have hsift : (siftup key init.size ⟨init.set 0 last, by simp⟩ 0 hpos).toList.Perm _ :=
        siftup_perm init.size ⟨init.set 0 last, by simp⟩ 0 hpos
      obtain ⟨first, tail, hinit⟩ := List.exists_cons_of_length_pos
        (l := init.toList) (by simpa using hpos)
      have hset : (init.set 0 last).toList = last :: tail := by
        rw [Array.toList_set, hinit, List.set_cons_zero]
      have hfirst : init[0] = first := by
        rw [← Array.getElem_toList hpos]
        simp only [hinit, List.getElem_cons_zero]
      rw [Vector.toList_mk, Vector.toList_mk, hset] at hsift
      rw [Array.toList_push, hinit, hfirst]
      refine (List.perm_append_singleton last (first :: tail)).trans ?_
      exact (List.Perm.swap first last tail).trans (hsift.symm.cons first)
    · intro i hi hi0 hne hparent
      have hold := hheap i (by simp; omega) hi0
      simp only [Vector.getElem_mk] at hold ⊢
      rw [Array.getElem_push_lt hi, Array.getElem_push_lt (by omega)] at hold
      rw [Array.getElem_set_ne _ _ (Ne.symm hne), Array.getElem_set_ne _ _ (Ne.symm hparent)]
      exact hold
    · intro i hi hi0 hchild hpos0
      omega
  · rename_i hempty
    cases hrest
    obtain rfl : rest = #[] := Array.eq_empty_of_size_eq_zero (by omega)
    exact ⟨rfl, .refl _, fun _ => isHeap_empty⟩

/-- The items of a heap of four equal keys do not come out in the order they went in. -/
example : (heappop (fun _ => 0) #['a', 'b', 'c', 'd']).map (fun x => x.2.toList) =
    some ['c', 'b', 'd'] := rfl

end Vantablack.Lib.Heap
