import Vantablack.Lib.SortedTable
import Vantablack.Net.ShardRouter

/-!
The order of the targets that `select_shard_targets_routed` of `net/mesh.rs` returns. It depends on
the peers, not on the order in which they are listed, and a peer that shares a transit node with one
before it comes after every peer that shares none.
-/

namespace Vantablack.Net

open Lib Receive List

variable {F T : Type*}

instance [LinearOrder F] : Std.Total (Target.before (F := F)) where
  total a b := by
    unfold Target.before
    rcases lt_trichotomy a.fitness b.fitness with hlt | heq | hlt
    · exact Or.inr (Or.inl hlt)
    · rcases String.le_total a.fp b.fp with hle | hle
      · exact Or.inl (Or.inr ⟨heq.symm, hle⟩)
      · exact Or.inr (Or.inr ⟨heq, hle⟩)
    · exact Or.inl (Or.inl hlt)

instance [LinearOrder F] : IsTrans (Target F) Target.before where
  trans a b c := by
    rintro (hab | ⟨hab, hfp⟩) (hbc | ⟨hbc, hfp'⟩)
    · exact Or.inl (hbc.trans hab)
    · exact Or.inl (hbc.symm ▸ hab)
    · exact Or.inl (hab ▸ hbc)
    · exact Or.inr ⟨hbc.trans hab, String.le_trans hfp hfp'⟩

def Candidate.Overlaps (a b : Candidate F T) : Prop :=
  ∃ node ∈ a.journey.transitNodes, node ∈ b.journey.transitNodes

theorem acceptDisjoint_spec (used : List String) (candidates : List (Candidate F T)) :
    (∀ a ∈ (acceptDisjoint used candidates).1, ∀ node ∈ a.journey.transitNodes, node ∉ used) ∧
      (acceptDisjoint used candidates).1.Pairwise (fun a b => ¬ b.Overlaps a) ∧
      ∀ a ∈ (acceptDisjoint used candidates).2, (∃ node ∈ a.journey.transitNodes, node ∈ used) ∨
        ∃ b ∈ (acceptDisjoint used candidates).1, a.Overlaps b := by
  induction candidates generalizing used with
  | nil => simp [acceptDisjoint]
  | cons c rest ih =>
      rw [acceptDisjoint]
      split
      · rename_i hoverlap
        obtain ⟨hfresh, hpairwise, hdeferred⟩ := ih used
        refine ⟨hfresh, hpairwise, ?_⟩
        intro a ha
        rcases mem_cons.mp ha with rfl | ha
        · simpa using Or.inl hoverlap
        · exact hdeferred a ha
      · rename_i hdisjoint
        obtain ⟨hfresh, hpairwise, hdeferred⟩ := ih (used ++ c.journey.transitNodes)
        refine ⟨?_, ?_, ?_⟩
        · intro a ha node hnode
          rcases mem_cons.mp ha with rfl | ha
          · intro hused
            exact hdisjoint (any_eq_true.mpr ⟨node, hnode, decide_eq_true hused⟩)
          · intro hused
            exact hfresh a ha node hnode (mem_append_left _ hused)
        · refine pairwise_cons.mpr ⟨?_, hpairwise⟩
          rintro a ha ⟨node, hnode, hmem⟩
          exact hfresh a ha node hnode (mem_append_right _ hmem)
        · intro a ha
          rcases hdeferred a ha with ⟨node, hnode, hmem⟩ | ⟨b, hb, hoverlap⟩
          · rcases mem_append.mp hmem with hmem | hmem
            · exact Or.inl ⟨node, hnode, hmem⟩
            · exact Or.inr ⟨c, mem_cons_self, node, hnode, hmem⟩
          · exact Or.inr ⟨b, mem_cons_of_mem _ hb, hoverlap⟩

/-! ### The peers with a route -/

variable [LinearOrder F] [LinearOrder T] (router : AdaptiveShardRouter F) (plan : PlanView T)

omit [LinearOrder F] in
/-- The peers with a route, each with it. -/
def candidates (peers : List (String × SocketAddr)) : List (Candidate F T) :=
  peers.filterMap fun peer =>
    (plan.findEarliestArrival peer.1).map fun journey =>
      { target := router.target peer, journey := journey }

/-- The routed peers in the order they are taken: those that overlap with none before them, then the
others. -/
def routedCandidates (peers : List (String × SocketAddr)) : List (Candidate F T) :=
  let (routed, deferred) := acceptDisjoint [] (byArrival (candidates router plan peers))
  routed ++ byArrival deferred

/-- The peers without a route, in the order they are taken. -/
def unroutedTargets (peers : List (String × SocketAddr)) : List (Target F) :=
  ((peers.filter fun peer => !(plan.findEarliestArrival peer.1).isSome).map
    router.target).insertionSort Target.before

theorem selectShardTargetsRouted_eq_take (me : String) (available : List (String × SocketAddr))
    (want : ℕ) :
    router.selectShardTargetsRouted me available plan want =
      ((routedCandidates router plan (available.filter fun peer => peer.1 ≠ me)).map
          Candidate.target ++
        unroutedTargets router plan (available.filter fun peer => peer.1 ≠ me)).take
          (max want 1) := by
  unfold AdaptiveShardRouter.selectShardTargetsRouted
  dsimp only
  rw [unrouted_eq]
  rfl

section

variable {plan} {peers peers' : List (String × SocketAddr)}

variable {c : Candidate F T}

omit [LinearOrder F] [LinearOrder T] in
theorem mem_candidates : c ∈ candidates router plan peers ↔ ∃ peer ∈ peers,
    ∃ journey, plan.findEarliestArrival peer.1 = some journey ∧
      c = { target := router.target peer, journey := journey } := by
  unfold candidates
  rw [mem_filterMap]
  constructor
  · rintro ⟨peer, hpeer, hc⟩
    obtain ⟨journey, hroute, rfl⟩ := Option.map_eq_some_iff.mp hc
    exact ⟨peer, hpeer, journey, hroute, rfl⟩
  · rintro ⟨peer, hpeer, journey, hroute, rfl⟩
    exact ⟨peer, hpeer, by rw [hroute]; rfl⟩

omit [LinearOrder F] in
theorem mem_routedCandidates :
    c ∈ routedCandidates router plan peers ↔ c ∈ candidates router plan peers := by
  have hperm : (routedCandidates router plan peers).Perm (candidates router plan peers) := by
    unfold routedCandidates
    dsimp only
    exact ((Perm.append_left _ (perm_insertionSort _ _)).trans
      (perm_acceptDisjoint [] _)).trans (perm_insertionSort _ _)
  exact hperm.mem_iff

omit [LinearOrder F] in
theorem overlap_routedCandidates {i j k : ℕ} {a b : Candidate F T} (hki : k < i) (hij : i < j)
    (hc : (routedCandidates router plan peers)[k]? = some c)
    (ha : (routedCandidates router plan peers)[i]? = some a)
    (hb : (routedCandidates router plan peers)[j]? = some b) (hoverlap : a.Overlaps c) :
    ∃ k' < i, ∃ c', (routedCandidates router plan peers)[k']? = some c' ∧ b.Overlaps c' := by
  obtain ⟨-, hpairwise, hdeferred⟩ :=
    acceptDisjoint_spec [] (byArrival (candidates router plan peers))
  unfold routedCandidates at hc ha hb ⊢
  dsimp only at hc ha hb ⊢
  generalize (acceptDisjoint [] (byArrival (candidates router plan peers))).1 = routed at *
  generalize (acceptDisjoint [] (byArrival (candidates router plan peers))).2 = deferred at *
  have hi : routed.length ≤ i := by
    by_contra hlt
    have hlt := Nat.lt_of_not_le hlt
    rw [getElem?_append_left (hki.trans hlt)] at hc
    rw [getElem?_append_left hlt] at ha
    obtain ⟨hk, rfl⟩ := List.getElem?_eq_some_iff.mp hc
    obtain ⟨hi, rfl⟩ := List.getElem?_eq_some_iff.mp ha
    exact pairwise_iff_getElem.mp hpairwise k i hk hi hki hoverlap
  rw [getElem?_append_right (hi.trans hij.le)] at hb
  have hmem := (mem_insertionSort _).mp (mem_of_getElem? hb)
  rcases hdeferred b hmem with ⟨node, -, hnode⟩ | ⟨c', hc', hshared⟩
  · cases hnode
  · obtain ⟨k', hk', rfl⟩ := mem_iff_getElem.mp hc'
    refine ⟨k', hk'.trans_le hi, _, ?_, hshared⟩
    rw [getElem?_append_left hk', getElem?_eq_getElem hk']

/-! ### Lists of the same peers -/

/-- Peers with a route that arrives at the same time are one. -/
def ArrivalsDiffer (plan : PlanView T) (peers : List (String × SocketAddr)) : Prop :=
  ∀ p ∈ peers, ∀ p' ∈ peers, ∀ j ∈ plan.findEarliestArrival p.1,
    ∀ j' ∈ plan.findEarliestArrival p'.1, j.arrivalTime = j'.arrivalTime → p.1 = p'.1

instance (peers : List (String × SocketAddr)) : Decidable (ArrivalsDiffer plan peers) :=
  inferInstanceAs (Decidable (∀ p ∈ peers, ∀ p' ∈ peers, _))

omit [LinearOrder F] [LinearOrder T] in
theorem eq_of_fst_eq (hnodup : (peers.map Prod.fst).Nodup) {p p' : String × SocketAddr}
    (hp : p ∈ peers) (hp' : p' ∈ peers) (hfp : p.1 = p'.1) : p = p' :=
  inj_on_of_nodup_map hnodup hp hp' hfp

omit [LinearOrder F] in
theorem routedCandidates_perm (hperm : peers.Perm peers') (hnodup : (peers.map Prod.fst).Nodup)
    (harrivals : ArrivalsDiffer plan peers) :
    routedCandidates router plan peers = routedCandidates router plan peers' := by
  have hsorted : byArrival (candidates router plan peers) =
      byArrival (candidates router plan peers') := by
    refine insertionSort_eq_of_perm (hperm.filterMap _) ?_
    intro a ha b hb hab hba
    obtain ⟨p, hp, j, hj, rfl⟩ := (mem_candidates router).mp ha
    obtain ⟨p', hp', j', hj', rfl⟩ := (mem_candidates router).mp hb
    obtain rfl := eq_of_fst_eq hnodup hp hp' (harrivals p hp p' hp' j hj j' hj' (le_antisymm hab hba))
    rw [hj] at hj'
    cases hj'
    rfl
  unfold routedCandidates
  rw [hsorted]

omit [LinearOrder T] in
theorem unroutedTargets_perm (hperm : peers.Perm peers') (hnodup : (peers.map Prod.fst).Nodup) :
    unroutedTargets router plan peers = unroutedTargets router plan peers' := by
  refine insertionSort_eq_of_perm ((hperm.filter _).map _) ?_
  intro a ha b hb hab hba
  obtain ⟨p, hp, rfl⟩ := mem_map.mp ha
  obtain ⟨p', hp', rfl⟩ := mem_map.mp hb
  have hfp : p.1 = p'.1 := by
    rcases hab with hlt | ⟨heq, hle⟩
    · rcases hba with hlt' | ⟨heq', -⟩
      · exact absurd hlt' (lt_asymm hlt)
      · exact absurd heq' (ne_of_lt hlt).symm
    · rcases hba with hlt' | ⟨-, hle'⟩
      · exact absurd heq (ne_of_gt hlt')
      · exact String.le_antisymm hle hle'
  rw [eq_of_fst_eq hnodup (mem_of_mem_filter hp) (mem_of_mem_filter hp') hfp]

end

/-! ### The selection -/

/-- The routes of two peers share a transit node. -/
def SharesTransit (plan : PlanView T) (fp fp' : String) : Prop :=
  ∃ j j', plan.findEarliestArrival fp = some j ∧ plan.findEarliestArrival fp' = some j' ∧
    ∃ node ∈ j.transitNodes, node ∈ j'.transitNodes

section

variable {router} {plan} {peers : List (String × SocketAddr)} {t : Target F}

omit [LinearOrder F] in
theorem route_of_mem_routedCandidates {c : Candidate F T}
    (hc : c ∈ routedCandidates router plan peers) :
    plan.findEarliestArrival c.target.fp = some c.journey := by
  obtain ⟨peer, -, journey, hroute, rfl⟩ := (mem_candidates router).mp
    ((mem_routedCandidates router).mp hc)
  exact hroute

omit [LinearOrder F] in
theorem sharesTransit_iff {a b : Candidate F T} (ha : a ∈ routedCandidates router plan peers)
    (hb : b ∈ routedCandidates router plan peers) :
    SharesTransit plan a.target.fp b.target.fp ↔ a.Overlaps b := by
  unfold SharesTransit
  rw [route_of_mem_routedCandidates ha, route_of_mem_routedCandidates hb]
  simp [Candidate.Overlaps]

omit [LinearOrder T] in
theorem route_of_mem_unroutedTargets (ht : t ∈ unroutedTargets router plan peers) :
    plan.findEarliestArrival t.fp = none := by
  obtain ⟨peer, hpeer, rfl⟩ := mem_map.mp ((mem_insertionSort _).mp ht)
  have hnone := (mem_filter.mp hpeer).2
  rw [Bool.not_eq_true', Option.isSome_eq_false_iff, Option.isNone_iff_eq_none] at hnone
  exact hnone

theorem routedCandidates_of_getElem? {i : ℕ}
    (ht : ((routedCandidates router plan peers).map Candidate.target ++
      unroutedTargets router plan peers)[i]? = some t)
    (hroute : (plan.findEarliestArrival t.fp).isSome = true) :
    i < (routedCandidates router plan peers).length := by
  by_contra hge
  rw [getElem?_append_right (by simpa using hge)] at ht
  rw [route_of_mem_unroutedTargets (mem_of_getElem? ht)] at hroute
  cases hroute

end

omit [LinearOrder F] [LinearOrder T] in
theorem getElem?_of_take {α : Type*} {l : List α} {n i : ℕ} {a : α} (h : (l.take n)[i]? = some a) :
    i < n ∧ l[i]? = some a := by
  rw [getElem?_take] at h
  split at h
  · rename_i hlt
    exact ⟨hlt, h⟩
  · cases h

theorem sharesTransit_order (me : String) (available : List (String × SocketAddr)) (want : ℕ)
    {i j k : ℕ} {a b c : Target F} (hki : k < i) (hij : i < j)
    (hc : (router.selectShardTargetsRouted me available plan want)[k]? = some c)
    (ha : (router.selectShardTargetsRouted me available plan want)[i]? = some a)
    (hb : (router.selectShardTargetsRouted me available plan want)[j]? = some b)
    (hshared : SharesTransit plan a.fp c.fp)
    (hroute : (plan.findEarliestArrival b.fp).isSome = true) :
    ∃ k' < i, ∃ c', (router.selectShardTargetsRouted me available plan want)[k']? = some c' ∧
      SharesTransit plan b.fp c'.fp := by
  rw [selectShardTargetsRouted_eq_take] at hc ha hb ⊢
  generalize (available.filter fun peer => peer.1 ≠ me) = peers at *
  obtain ⟨-, hc⟩ := getElem?_of_take hc
  obtain ⟨hi, ha⟩ := getElem?_of_take ha
  obtain ⟨-, hb⟩ := getElem?_of_take hb
  have hj := routedCandidates_of_getElem? hb hroute
  have hplace : ∀ n < (routedCandidates router plan peers).length,
      ((routedCandidates router plan peers).map Candidate.target ++
        unroutedTargets router plan peers)[n]? =
        (routedCandidates router plan peers)[n]?.map Candidate.target := by
    intro n hn
    rw [getElem?_append_left (by simpa using hn), getElem?_map]
  rw [hplace _ (hki.trans (hij.trans hj))] at hc
  rw [hplace _ (hij.trans hj)] at ha
  rw [hplace _ hj] at hb
  obtain ⟨cc, hcc, rfl⟩ := Option.map_eq_some_iff.mp hc
  obtain ⟨ca, hca, rfl⟩ := Option.map_eq_some_iff.mp ha
  obtain ⟨cb, hcb, rfl⟩ := Option.map_eq_some_iff.mp hb
  have hoverlap : ca.Overlaps cc :=
    (sharesTransit_iff (mem_of_getElem? hca) (mem_of_getElem? hcc)).mp hshared
  obtain ⟨k', hk', c', hc', hshared'⟩ :=
    overlap_routedCandidates router hki hij hcc hca hcb hoverlap
  refine ⟨k', hk', c'.target, ?_, ?_⟩
  · rw [getElem?_take_of_lt (hk'.trans hi), hplace _ (hk'.trans (hij.trans hj)), hc']
    rfl
  · exact (sharesTransit_iff (mem_of_getElem? hcb) (mem_of_getElem? hc')).mpr hshared'

theorem nodup_selectShardTargetsRouted (me : String) {available : List (String × SocketAddr)}
    (hnodup : (available.map Prod.fst).Nodup) (want : ℕ) :
    ((router.selectShardTargetsRouted me available plan want).map Target.fp).Nodup ∧
      ∀ t ∈ router.selectShardTargetsRouted me available plan want, t.fp ≠ me := by
  rw [selectShardTargetsRouted_eq_take]
  have hselects := selects_plannedTargets router plan (available.filter fun peer => peer.1 ≠ me)
  constructor
  · exact (hselects.nodup (hnodup.sublist (filter_sublist.map Prod.fst))).sublist
      ((take_sublist _ _).map Target.fp)
  · intro t ht
    have hmem := hselects.perm.mem_iff.mp (mem_of_mem_take ht)
    obtain ⟨peer, hpeer, rfl⟩ := mem_map.mp hmem
    exact of_decide_eq_true (mem_filter.mp hpeer).2

/-- The selection is the same for every order of the peers, has each of them once at most and this
node never, and puts off the peers whose routes share a transit node with one before them. -/
theorem selectShardTargetsRouted_deterministic (me : String)
    {available : List (String × SocketAddr)} (hnodup : (available.map Prod.fst).Nodup)
    (harrivals : ArrivalsDiffer plan (available.filter fun peer => peer.1 ≠ me)) (want : ℕ) :
    let out := router.selectShardTargetsRouted me available plan want
    (∀ available', available.Perm available' →
        router.selectShardTargetsRouted me available' plan want = out) ∧
      (out.map Target.fp).Nodup ∧ (∀ t ∈ out, t.fp ≠ me) ∧
      ∀ (i j k : ℕ) (a b c : Target F), k < i → i < j → out[k]? = some c → out[i]? = some a →
        out[j]? = some b → SharesTransit plan a.fp c.fp →
        (plan.findEarliestArrival b.fp).isSome = true →
        ∃ k' < i, ∃ c', out[k']? = some c' ∧ SharesTransit plan b.fp c'.fp := by
  intro out
  obtain ⟨hdistinct, hme⟩ := nodup_selectShardTargetsRouted router plan me hnodup want
  refine ⟨?_, hdistinct, hme, ?_⟩
  · intro available' hperm
    have hothers := hperm.filter fun peer => peer.1 ≠ me
    have hothersNodup := hnodup.sublist ((filter_sublist (p := fun peer : String × SocketAddr =>
      peer.1 ≠ me)).map Prod.fst)
    show _ = router.selectShardTargetsRouted me available plan want
    rw [selectShardTargetsRouted_eq_take, selectShardTargetsRouted_eq_take,
      routedCandidates_perm router hothers hothersNodup harrivals,
      unroutedTargets_perm router hothers hothersNodup]
  · intro i j k a b c hki hij hc ha hb hshared hroute
    exact sharesTransit_order router plan me available want hki hij hc ha hb hshared hroute

section Example

/-- "bb" is reached over the relay that "aa" is reached over, "cc" over another one. -/
def relayedPlan : PlanView ℚ where
  isEmpty := false
  findEarliestArrival fp :=
    if fp = "aa" then some { arrivalTime := 1, transitNodes := ["relay"] }
    else if fp = "bb" then some { arrivalTime := 2, transitNodes := ["relay"] }
    else if fp = "cc" then some { arrivalTime := 3, transitNodes := ["other"] }
    else none

def threeAvailable : List (String × SocketAddr) :=
  let addr (n : UInt8) : SocketAddr := { ip := .v4 (List.Vector.replicate 4 n), port := 4000 }
  [("bb", addr 2), ("cc", addr 3), ("aa", addr 1)]

/-- The peer that shares the relay of the first one comes last, also when the peers are listed the
other way round. -/
theorem relayed_last :
    (unmeasured.selectShardTargetsRouted "me" threeAvailable relayedPlan 3).map Target.fp =
        ["aa", "cc", "bb"] ∧
      unmeasured.selectShardTargetsRouted "me" threeAvailable.reverse relayedPlan 3 =
        unmeasured.selectShardTargetsRouted "me" threeAvailable relayedPlan 3 := by
  obtain ⟨hperm, -⟩ := selectShardTargetsRouted_deterministic unmeasured relayedPlan "me"
    (by decide : (threeAvailable.map Prod.fst).Nodup) (by decide +kernel) 3
  exact ⟨by decide +kernel, hperm _ (reverse_perm _).symm⟩

end Example

end Vantablack.Net
