import Mathlib

/-!
The links of a quantum network, of `topology/graph.py`. A link is kept under the pair of its two
nodes in their order, so that there is one between two nodes at most. The fidelity of a link is
given here, where the original computes it from the hardware of the link.
-/

namespace Vantablack.Quantum

variable {ν : Type*} [LinearOrder ν]

structure QuantumLink (ν : Type*) where
  a : ν
  b : ν
  lengthKm : ℚ
  fidelity : ℚ

/-- The exceptions of `add_link`. -/
inductive LinkError (ν : Type*) where
  /-- "link a-b must have positive length" -/
  | notPositive (a b : ν)

def linkKey (a b : ν) : ν × ν := if a ≤ b then (a, b) else (b, a)

theorem linkKey_fst_le (a b : ν) : (linkKey a b).1 ≤ (linkKey a b).2 := by
  rw [linkKey]
  split
  · assumption
  · exact (not_le.mp ‹_›).le

theorem linkKey_comm (a b : ν) : linkKey a b = linkKey b a := by
  rw [linkKey, linkKey]
  rcases lt_trichotomy a b with h | rfl | h
  · rw [if_pos h.le, if_neg (not_le.mpr h)]
  · rfl
  · rw [if_neg (not_le.mpr h), if_pos h.le]

theorem linkKey_of_le {a b : ν} (h : a ≤ b) : linkKey a b = (a, b) := if_pos h

/-- `links[key] = link` on a `dict`: a key that is there keeps its place. -/
def setLink (links : List ((ν × ν) × QuantumLink ν)) (key : ν × ν) (link : QuantumLink ν) :
    List ((ν × ν) × QuantumLink ν) :=
  if key ∈ links.map Prod.fst then links.map fun e => if e.1 = key then (key, link) else e
  else links ++ [(key, link)]

/-- The keys of the links are different and have their nodes in order. -/
structure QuantumTopology (ν : Type*) [LinearOrder ν] where
  links : List ((ν × ν) × QuantumLink ν)
  nodup : (links.map Prod.fst).Nodup
  fst_le : ∀ key ∈ links.map Prod.fst, key.1 ≤ key.2

theorem map_fst_setLink (links : List ((ν × ν) × QuantumLink ν)) (key : ν × ν)
    (link : QuantumLink ν) : (setLink links key link).map Prod.fst =
      if key ∈ links.map Prod.fst then links.map Prod.fst else links.map Prod.fst ++ [key] := by
  rw [setLink]
  split
  · rw [List.map_map]
    refine List.map_congr_left fun e _ => ?_
    rw [Function.comp_apply]
    split
    · rename_i heq
      exact heq.symm
    · rfl
  · rw [List.map_append, List.map_singleton]

namespace QuantumTopology

def empty : QuantumTopology ν := ⟨[], List.nodup_nil, fun _ h => absurd h List.not_mem_nil⟩

def addLink (topo : QuantumTopology ν) (link : QuantumLink ν) :
    Except (LinkError ν) (QuantumTopology ν) :=
  if link.lengthKm ≤ 0 then .error (.notPositive link.a link.b)
  else .ok
    { links := setLink topo.links (linkKey link.a link.b) link
      nodup := by
        rw [map_fst_setLink]
        split
        · exact topo.nodup
        · rename_i hnew
          exact List.nodup_append.mpr ⟨topo.nodup, List.nodup_singleton _, fun k hk k' hk' heq =>
            hnew (List.mem_singleton.mp hk' ▸ heq ▸ hk)⟩
      fst_le := by
        rw [map_fst_setLink]
        split
        · exact topo.fst_le
        · intro key hkey
          rcases List.mem_append.mp hkey with hold | hnew
          · exact topo.fst_le key hold
          · rw [List.mem_singleton.mp hnew]
            exact linkKey_fst_le _ _ }

def otherEnd (node : ν) (key : ν × ν) : Option ν :=
  if key.1 = node then some key.2 else if key.2 = node then some key.1 else none

def neighbors (topo : QuantumTopology ν) (node : ν) : List ν :=
  (topo.links.map Prod.fst).filterMap (otherEnd node)

def link (topo : QuantumTopology ν) (a b : ν) : Option (QuantumLink ν) :=
  topo.links.lookup (linkKey a b)

variable {topo : QuantumTopology ν} {a b node nb : ν} {key : ν × ν}

theorem otherEnd_eq_some (hkey : key.1 ≤ key.2) :
    otherEnd node key = some nb ↔ key = linkKey node nb := by
  obtain ⟨k₁, k₂⟩ := key
  rw [otherEnd]
  dsimp only at hkey ⊢
  constructor
  · intro h
    split at h
    · rename_i heq
      cases h
      rw [← heq, linkKey_of_le hkey]
    · split at h
      · rename_i heq
        cases h
        rw [← heq, linkKey_comm, linkKey_of_le hkey]
      · cases h
  · intro h
    rw [linkKey] at h
    split at h
    · cases h
      rw [if_pos rfl]
    · rename_i hlt
      cases h
      rw [if_neg (not_le.mp hlt).ne, if_pos rfl]

theorem mem_neighbors_iff :
    nb ∈ topo.neighbors node ↔ linkKey node nb ∈ topo.links.map Prod.fst := by
  rw [neighbors, List.mem_filterMap]
  constructor
  · rintro ⟨key, hkey, hother⟩
    rwa [← (otherEnd_eq_some (topo.fst_le key hkey)).mp hother]
  · intro hkey
    exact ⟨_, hkey, (otherEnd_eq_some (linkKey_fst_le node nb)).mpr rfl⟩

theorem nodup_neighbors (topo : QuantumTopology ν) (node : ν) : (topo.neighbors node).Nodup := by
  rw [neighbors, List.Nodup, List.pairwise_filterMap]
  refine topo.nodup.imp_of_mem fun {key key'} hkey hkey' hne nb hnb nb' hnb' heq => hne ?_
  subst heq
  rw [(otherEnd_eq_some (topo.fst_le key hkey)).mp hnb,
    (otherEnd_eq_some (topo.fst_le key' hkey')).mp hnb']

theorem link_isSome_iff : (topo.link a b).isSome ↔ b ∈ topo.neighbors a := by
  rw [mem_neighbors_iff, link, List.lookup_isSome_iff, List.mem_map]
  constructor
  · rintro ⟨e, he, heq⟩
    exact ⟨e, he, (eq_of_beq heq).symm⟩
  · rintro ⟨e, he, heq⟩
    exact ⟨e, he, beq_iff_eq.mpr heq.symm⟩

end QuantumTopology

end Vantablack.Quantum
