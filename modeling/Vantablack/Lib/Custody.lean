import Mathlib.Data.List.Nodup

/-!
Items that are sent from one of several places, may wait in a slot of another, and are handed on
there. The lists keep who sent what and what was handed on where; an item waits in at most one slot.
-/

namespace Vantablack.Lib

open List

variable {σ ι β : Type*}

/-- No item was handed on twice or where it was sent, and none that waits will be. -/
structure Custody (sent done : List (σ × β)) (waiting : σ → ι → Option β) : Prop where
  once : (done.map Prod.snd).Nodup
  known : ∀ p ∈ done, p.2 ∈ sent.map Prod.snd
  foreign : ∀ p ∈ done, p ∉ sent
  waitingKnown : ∀ s i b, waiting s i = some b → b ∈ sent.map Prod.snd
  waitingForeign : ∀ s i b, waiting s i = some b → (s, b) ∉ sent
  apart : ∀ s i b, waiting s i = some b → b ∉ done.map Prod.snd
  single : ∀ s i s' i' b, waiting s i = some b → waiting s' i' = some b → s = s' ∧ i = i'

/-- The item may be handed on at `s`: another place sent it, it was not handed on before, and it
waits nowhere but perhaps in the slot `slot` of `s`. -/
structure Arrives (sent done : List (σ × β)) (waiting : σ → ι → Option β) (s : σ) (b : β)
    (slot : Option ι) : Prop where
  known : b ∈ sent.map Prod.snd
  foreign : (s, b) ∉ sent
  fresh : b ∉ done.map Prod.snd
  elsewhere : ∀ s' i, waiting s' i = some b → s' = s ∧ slot = some i

namespace Custody

variable {sent done : List (σ × β)} {waiting waiting' : σ → ι → Option β}

theorem start (waiting : σ → ι → Option β) (h : ∀ s i, waiting s i = none) :
    Custody [] [] waiting where
  once := nodup_nil
  known p hp := absurd hp not_mem_nil
  foreign p hp := absurd hp not_mem_nil
  waitingKnown s i b hb := by
    rw [h] at hb
    cases hb
  waitingForeign s i b hb := by
    rw [h] at hb
    cases hb
  apart s i b hb := by
    rw [h] at hb
    cases hb
  single s i s' i' b hb _ := by
    rw [h] at hb
    cases hb

theorem send (h : Custody sent done waiting) {s : σ} {b : β} (hb : b ∉ sent.map Prod.snd) :
    Custody (sent ++ [(s, b)]) done waiting where
  once := h.once
  known p hp := by
    rw [map_append]
    exact mem_append_left _ (h.known p hp)
  foreign p hp hmem := by
    rcases mem_append.mp hmem with hold | hnew
    · exact h.foreign p hp hold
    · rw [mem_singleton.mp hnew] at hp
      exact hb (h.known (s, b) hp)
  waitingKnown s' i b' hb' := by
    rw [map_append]
    exact mem_append_left _ (h.waitingKnown s' i b' hb')
  waitingForeign s' i b' hb' hmem := by
    rcases mem_append.mp hmem with hold | hnew
    · exact h.waitingForeign s' i b' hb' hold
    · cases mem_singleton.mp hnew
      exact hb (h.waitingKnown s i b hb')
  apart := h.apart
  single := h.single

/-- Only what is in the list counts, not its order or how often it is there. -/
theorem of_mem_iff {sent' : List (σ × β)} (h : Custody sent done waiting)
    (hmem : ∀ p, p ∈ sent ↔ p ∈ sent') : Custody sent' done waiting := by
  have hsnd : ∀ b, b ∈ sent.map Prod.snd ↔ b ∈ sent'.map Prod.snd := by
    simp only [mem_map, hmem, implies_true]
  constructor
  case once => exact h.once
  case known => exact fun p hp => (hsnd p.2).mp (h.known p hp)
  case foreign => exact fun p hp hsent => h.foreign p hp ((hmem p).mpr hsent)
  case waitingKnown => exact fun s i b hb => (hsnd b).mp (h.waitingKnown s i b hb)
  case waitingForeign => exact fun s i b hb hsent => h.waitingForeign s i b hb ((hmem _).mpr hsent)
  case apart => exact h.apart
  case single => exact h.single

theorem drop (h : Custody sent done waiting)
    (hsub : ∀ s i b, waiting' s i = some b → waiting s i = some b) :
    Custody sent done waiting' where
  once := h.once
  known := h.known
  foreign := h.foreign
  waitingKnown s i b hb := h.waitingKnown s i b (hsub s i b hb)
  waitingForeign s i b hb := h.waitingForeign s i b (hsub s i b hb)
  apart s i b hb := h.apart s i b (hsub s i b hb)
  single s i s' i' b hb hb' := h.single s i s' i' b (hsub s i b hb) (hsub s' i' b hb')

theorem put (h : Custody sent done waiting) {s : σ} {i : ι} {b : β}
    (hb : Arrives sent done waiting s b (some i))
    (hput : ∀ s' i' b', waiting' s' i' = some b' →
      waiting s' i' = some b' ∨ (s' = s ∧ i' = i ∧ b' = b)) : Custody sent done waiting' where
  once := h.once
  known := h.known
  foreign := h.foreign
  waitingKnown s' i' b' hb' := by
    rcases hput s' i' b' hb' with hold | ⟨-, -, rfl⟩
    · exact h.waitingKnown s' i' b' hold
    · exact hb.known
  waitingForeign s' i' b' hb' := by
    rcases hput s' i' b' hb' with hold | ⟨rfl, -, rfl⟩
    · exact h.waitingForeign s' i' b' hold
    · exact hb.foreign
  apart s' i' b' hb' := by
    rcases hput s' i' b' hb' with hold | ⟨-, -, rfl⟩
    · exact h.apart s' i' b' hold
    · exact hb.fresh
  single s' i' s'' i'' b' hb' hb'' := by
    -- the item waited nowhere else
    have hslot : ∀ s' i', waiting s' i' = some b → s' = s ∧ i' = i := by
      intro s' i' hold
      obtain ⟨hs, hi⟩ := hb.elsewhere s' i' hold
      exact ⟨hs, (Option.some.inj hi).symm⟩
    rcases hput s' i' b' hb' with hold | ⟨rfl, rfl, rfl⟩
    · rcases hput s'' i'' b' hb'' with hold' | ⟨rfl, rfl, rfl⟩
      · exact h.single s' i' s'' i'' b' hold hold'
      · exact hslot s' i' hold
    · rcases hput s'' i'' b' hb'' with hold' | ⟨rfl, rfl, -⟩
      · obtain ⟨hs, hi⟩ := hslot s'' i'' hold'
        exact ⟨hs.symm, hi.symm⟩
      · exact ⟨rfl, rfl⟩

theorem pass (h : Custody sent done waiting) {s : σ} {b : β}
    (hb : Arrives sent done waiting s b none) : Custody sent (done ++ [(s, b)]) waiting where
  once := by
    rw [map_append]
    exact h.once.append (nodup_singleton b) fun b' hb' hmem => by
      rw [mem_singleton.mp hmem] at hb'
      exact hb.fresh hb'
  known p hp := by
    rcases mem_append.mp hp with hold | hnew
    · exact h.known p hold
    · rw [mem_singleton.mp hnew]
      exact hb.known
  foreign p hp := by
    rcases mem_append.mp hp with hold | hnew
    · exact h.foreign p hold
    · rw [mem_singleton.mp hnew]
      exact hb.foreign
  waitingKnown := h.waitingKnown
  waitingForeign := h.waitingForeign
  apart s' i b' hb' hmem := by
    rw [map_append] at hmem
    rcases mem_append.mp hmem with hold | hnew
    · exact h.apart s' i b' hb' hold
    · rw [mem_singleton.mp hnew] at hb'
      cases (hb.elsewhere s' i hb').2
  single := h.single

theorem take (h : Custody sent done waiting) {s : σ} {i : ι} {b : β} (hb : waiting s i = some b)
    (hsub : ∀ s' i' b', waiting' s' i' = some b' → waiting s' i' = some b')
    (hgone : waiting' s i = none) : Custody sent (done ++ [(s, b)]) waiting' := by
  refine (h.drop hsub).pass ⟨h.waitingKnown s i b hb, h.waitingForeign s i b hb, h.apart s i b hb, ?_⟩
  intro s' i' hb'
  obtain ⟨rfl, rfl⟩ := h.single s i s' i' b hb (hsub s' i' b hb')
  rw [hgone] at hb'
  cases hb'

end Custody

end Vantablack.Lib
