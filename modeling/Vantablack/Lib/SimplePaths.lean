import Mathlib.Data.List.Chain
import Mathlib.Data.List.Nodup

/-!
The simple paths of a graph from one node to another, enumerated by extending a trail that has no
node twice. The graph is given by the list of next nodes of each node.
-/

namespace Vantablack.Lib

open List

variable {ν : Type*} (next : ν → List ν)

/-- A path from `src` to `dst` with no node twice. -/
structure SimplePath (src dst : ν) (p : List ν) : Prop where
  chain : p.IsChain fun a b => b ∈ next a
  nodup : p.Nodup
  head : p.head? = some src
  last : p.getLast? = some dst

/-- A way on from the trail, which ends at `node`, to `dst` with at most `hops` steps. -/
structure WayOn (dst : ν) (hops : ℕ) (node : ν) (trail way : List ν) : Prop where
  chain : (node :: way).IsChain fun a b => b ∈ next a
  nodup : way.Nodup
  fresh : ∀ n ∈ way, n ∉ trail
  last : way.getLast? = some dst
  length_le : way.length ≤ hops

variable {next} {dst node : ν} {hops : ℕ} {trail way p : List ν}

theorem WayOn.ne_nil (h : WayOn next dst hops node trail way) : way ≠ [] := by
  rintro rfl
  cases h.last

theorem wayOn_cons_iff {nb : ν} : WayOn next dst (hops + 1) node trail (nb :: way) ↔
    nb ∈ next node ∧ nb ∉ trail ∧
      (nb = dst ∧ way = [] ∨ nb ≠ dst ∧ WayOn next dst hops nb (trail ++ [nb]) way) := by
  constructor
  · intro h
    obtain ⟨hnext, hchain⟩ := isChain_cons_cons.mp h.chain
    obtain ⟨hnotin, hnodup⟩ := nodup_cons.mp h.nodup
    refine ⟨hnext, h.fresh nb mem_cons_self, ?_⟩
    have hlast := h.last
    by_cases hnil : way = []
    · subst hnil
      exact Or.inl ⟨Option.some.inj hlast, rfl⟩
    · rw [getLast?_cons_of_ne_nil hnil] at hlast
      refine Or.inr ⟨fun heq => hnotin (heq ▸ mem_of_getLast? hlast), hchain, hnodup,
        fun n hn => ?_, hlast, Nat.le_of_succ_le_succ h.length_le⟩
      rw [mem_append, mem_singleton, not_or]
      exact ⟨h.fresh n (mem_cons_of_mem _ hn), fun heq => hnotin (heq ▸ hn)⟩
  · rintro ⟨hnext, hnotin, ⟨rfl, rfl⟩ | ⟨-, h⟩⟩
    · exact ⟨isChain_pair.mpr hnext, nodup_singleton _, fun n hn =>
        mem_singleton.mp hn ▸ hnotin, rfl, Nat.succ_le_succ (Nat.zero_le _)⟩
    · have hfresh : ∀ n ∈ way, n ∉ trail ∧ n ≠ nb := fun n hn => by
        have hn' := h.fresh n hn
        rwa [mem_append, mem_singleton, not_or] at hn'
      refine ⟨isChain_cons_cons.mpr ⟨hnext, h.chain⟩,
        nodup_cons.mpr ⟨fun hmem => (hfresh nb hmem).2 rfl, h.nodup⟩, fun n hn => ?_, ?_,
        Nat.succ_le_succ h.length_le⟩
      · rcases mem_cons.mp hn with rfl | hn
        · exact hnotin
        · exact (hfresh n hn).1
      · rw [getLast?_cons_of_ne_nil h.ne_nil]
        exact h.last

variable [DecidableEq ν]

variable (next) in
/-- The paths that go on from the trail, which ends at `node`, to `dst` with at most `hops` steps. -/
def extensions (dst : ν) : ℕ → ν → List ν → List (List ν)
  | 0, _, _ => []
  | hops + 1, node, trail =>
      (next node).flatMap fun nb =>
        if nb ∈ trail then []
        else if nb = dst then [trail ++ [nb]]
        else extensions dst hops nb (trail ++ [nb])

theorem mem_extensions_iff :
    p ∈ extensions next dst hops node trail ↔
      ∃ way, p = trail ++ way ∧ WayOn next dst hops node trail way := by
  induction hops generalizing node trail with
  | zero =>
      refine iff_of_false not_mem_nil ?_
      rintro ⟨way, -, hway⟩
      exact hway.ne_nil (eq_nil_of_length_eq_zero (Nat.le_zero.mp hway.length_le))
  | succ hops ih =>
      rw [extensions, mem_flatMap]
      constructor
      · rintro ⟨nb, hnext, hp⟩
        split at hp
        · cases hp
        · rename_i hnotin
          split at hp
          · rename_i hdst
            refine ⟨[nb], mem_singleton.mp hp, ?_⟩
            exact wayOn_cons_iff.mpr ⟨hnext, hnotin, Or.inl ⟨hdst, rfl⟩⟩
          · rename_i hdst
            obtain ⟨way, rfl, hway⟩ := ih.mp hp
            refine ⟨nb :: way, by rw [append_assoc, singleton_append], ?_⟩
            exact wayOn_cons_iff.mpr ⟨hnext, hnotin, Or.inr ⟨hdst, hway⟩⟩
      · rintro ⟨way, rfl, hway⟩
        cases way with
        | nil => exact absurd rfl hway.ne_nil
        | cons nb way =>
            obtain ⟨hnext, hnotin, hrest⟩ := wayOn_cons_iff.mp hway
            refine ⟨nb, hnext, ?_⟩
            rw [if_neg hnotin]
            rcases hrest with ⟨hdst, rfl⟩ | ⟨hdst, hrest⟩
            · rw [if_pos hdst]
              exact mem_singleton_self _
            · rw [if_neg hdst]
              refine ih.mpr ⟨way, ?_, hrest⟩
              rw [append_assoc, singleton_append]

theorem nodup_extensions (hnext : ∀ n, (next n).Nodup) (dst : ν) (hops : ℕ) (node : ν)
    (trail : List ν) : (extensions next dst hops node trail).Nodup := by
  induction hops generalizing node trail with
  | zero => exact nodup_nil
  | succ hops ih =>
      rw [extensions, nodup_flatMap]
      have hat : ∀ nb p, p ∈ (if nb ∈ trail then [] else if nb = dst then [trail ++ [nb]]
          else extensions next dst hops nb (trail ++ [nb])) → p[trail.length]? = some nb := by
        intro nb p hp
        split at hp
        · cases hp
        · split at hp
          · rw [mem_singleton.mp hp]
            exact getElem?_concat_length
          · obtain ⟨way, rfl, -⟩ := mem_extensions_iff.mp hp
            rw [append_assoc, getElem?_append_right le_rfl, Nat.sub_self]
            rfl
      refine ⟨fun nb _ => ?_, (hnext node).imp fun {nb nb'} hne p hp hp' => hne ?_⟩
      · split
        · exact nodup_nil
        · split
          · exact nodup_singleton _
          · exact ih nb (trail ++ [nb])
      · exact Option.some.inj ((hat nb p hp).symm.trans (hat nb' p hp'))

theorem mem_extensions_singleton_iff {src : ν} (hne : src ≠ dst) :
    p ∈ extensions next dst hops src [src] ↔
      SimplePath next src dst p ∧ p.length ≤ hops + 1 := by
  rw [mem_extensions_iff]
  constructor
  · rintro ⟨way, rfl, hway⟩
    refine ⟨⟨hway.chain, ?_, rfl, ?_⟩, Nat.succ_le_succ hway.length_le⟩
    · exact nodup_cons.mpr ⟨fun hmem => hway.fresh src hmem (mem_singleton_self _),
        hway.nodup⟩
    · rw [singleton_append, getLast?_cons_of_ne_nil hway.ne_nil]
      exact hway.last
  · rintro ⟨hp, hlen⟩
    obtain ⟨way, rfl⟩ := head?_eq_some_iff.mp hp.head
    obtain ⟨hnotin, hnodup⟩ := nodup_cons.mp hp.nodup
    refine ⟨way, rfl, hp.chain, hnodup, fun n hn hmem => ?_, ?_, Nat.le_of_succ_le_succ hlen⟩
    · exact hnotin (mem_singleton.mp hmem ▸ hn)
    · have hlast := hp.last
      have hnil : way ≠ [] := by
        rintro rfl
        exact hne (Option.some.inj hlast)
      rwa [getLast?_cons_of_ne_nil hnil] at hlast

end Vantablack.Lib
