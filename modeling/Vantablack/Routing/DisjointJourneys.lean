import Vantablack.Routing.EarliestArrival

/-!
Several journeys to one destination, `find_disjoint_journeys` of `net/routing.rs`: each search is kept
from the nodes that the journeys before it pass through.
-/

namespace Vantablack.Routing

open Lib LabelSetting List

/-- The options of a search after journeys through the nodes `used`. -/
def RouteOptions.trial (opts : RouteOptions) (used : Finset NodeId) : RouteOptions :=
  { opts with excludedNodes := opts.excludedNodes ∪ used }

namespace ContactPlan

/-- The turns that remain of the loop, with the nodes used so far. -/
def disjointJourneys (plan : ContactPlan) (source destination : NodeId) (tNow : Timestamp)
    (opts : RouteOptions) : ℕ → Finset NodeId → List Journey
  | 0, _ => []
  | k + 1, used =>
      match plan.findEarliestArrivalWith source destination tNow (opts.trial used) with
      | some journey =>
          journey :: plan.disjointJourneys source destination tNow opts k
            (used ∪ journey.transitNodes.toFinset)
      | none => []

def findDisjointJourneys (plan : ContactPlan) (source destination : NodeId) (tNow : Timestamp)
    (k : ℕ) (opts : RouteOptions) : List Journey :=
  plan.disjointJourneys source destination tNow opts k ∅

end ContactPlan

/-- Two journeys have no transit node and no contact in common. -/
structure Separate (j j' : Journey) : Prop where
  nodes : j.transitNodes.Disjoint j'.transitNodes
  contacts : (j.contacts.map Prod.fst).Disjoint (j'.contacts.map Prod.fst)

/-- Routes from the source to the destination, any two of them separate. -/
structure DisjointRoutes (plan : ContactPlan) (source destination : NodeId) (tNow : Timestamp)
    (opts : RouteOptions) (journeys : List Journey) : Prop where
  valid : ∀ j ∈ journeys, IsRoute plan source destination tNow opts j.contacts
  separate : journeys.Pairwise Separate

section

variable {plan : ContactPlan} {opts : RouteOptions} {source destination node : NodeId}
  {tNow t : Timestamp} {hops : List Hop} {used : Finset NodeId} {j j' : Journey}

/-! ### The nodes of a journey -/

/-- The nodes that the hops come to before the last one. -/
def transit (hops : List Hop) : List NodeId :=
  (hops.map fun hop => hop.1.destination).dropLast

theorem transit_cons_cons (hop hop' : Hop) (rest : List Hop) :
    transit (hop :: hop' :: rest) = hop.1.destination :: transit (hop' :: rest) := rfl

theorem Journey.transitNodes_eq (j : Journey) : j.transitNodes = transit j.contacts := by
  unfold transitNodes nodes transit
  cases j.contacts with
  | nil => rfl
  | cons hop rest =>
      cases rest with
      | nil => simp
      | cons hop' rest => simp [dropLast_eq_take]

theorem map_destination_eq (hne : hops ≠ []) (node : NodeId) :
    (hops.map fun hop => hop.1.destination) = transit hops ++ [endNode node hops] := by
  induction hops generalizing node with
  | nil => exact absurd rfl hne
  | cons hop rest ih =>
      cases rest with
      | nil => rfl
      | cons hop' rest =>
          rw [map_cons, ih (cons_ne_nil _ _) hop.1.destination, transit_cons_cons]
          rfl

theorem TimeRespecting.source_mem_transit
    (h : TimeRespecting plan opts source destination node t hops) {hop : Hop} (hmem : hop ∈ hops) :
    hop.1.source = node ∨ hop.1.source ∈ transit hops := by
  induction hops generalizing node t with
  | nil => cases hmem
  | cons head rest ih =>
      obtain ⟨c, send⟩ := head
      obtain ⟨⟨-, hsource, -⟩, -, hrest⟩ := h
      rcases mem_cons.mp hmem with rfl | hmem
      · exact Or.inl hsource
      · right
        cases rest with
        | nil => cases hmem
        | cons hop' rest =>
            rw [transit_cons_cons]
            rcases ih hrest hmem with heq | htransit
            · exact heq ▸ mem_cons_self
            · exact mem_cons_of_mem _ htransit

theorem TimeRespecting.mem_transit
    (h : TimeRespecting plan opts source destination node t hops) (hmany : 1 < hops.length)
    {hop : Hop} (hmem : hop ∈ hops) :
    hop.1.destination ∈ transit hops ∨ hop.1.source ∈ transit hops := by
  rcases hops with _ | ⟨⟨c, send⟩, _ | ⟨hop', rest⟩⟩
  · cases hmem
  · exact absurd hmany (Nat.lt_irrefl 1)
  · obtain ⟨-, -, hrest⟩ := h
    rw [transit_cons_cons]
    rcases mem_cons.mp hmem with rfl | hmem
    · exact Or.inl mem_cons_self
    · right
      rcases hrest.source_mem_transit hmem with heq | htransit
      · exact heq ▸ mem_cons_self
      · exact mem_cons_of_mem _ htransit

theorem TimeRespecting.passable
    (h : TimeRespecting plan opts source destination node t hops) {hop : Hop} (hmem : hop ∈ hops) :
    Passable opts source destination hop.1 := by
  induction hops generalizing node t with
  | nil => cases hmem
  | cons head rest ih =>
      obtain ⟨c, send⟩ := head
      obtain ⟨⟨-, -, hpass⟩, -, hrest⟩ := h
      rcases mem_cons.mp hmem with rfl | hmem
      · exact hpass
      · exact ih hrest hmem

theorem exists_hop_of_mem_transit (h : node ∈ transit hops) :
    ∃ hop ∈ hops, hop.1.destination = node :=
  mem_map.mp (mem_of_mem_dropLast h)

theorem Kept.endNode_notMem_transit {ℓ : NodeId → Option Label} {h : ℕ} (hkept : Kept ℓ h hops)
    (node : NodeId) : endNode node hops ∉ transit hops := by
  intro hmem
  have hne : hops ≠ [] := by
    rintro rfl
    cases hmem
  have hnodup := hkept.nodup.1
  rw [map_destination_eq hne node, nodup_append] at hnodup
  exact hnodup.2.2 _ hmem _ mem_cons_self rfl

/-! ### One search after the others -/

theorem TimeRespecting.imp {opts' : RouteOptions}
    (hpass : ∀ c, Passable opts source destination c → Passable opts' source destination c)
    (h : TimeRespecting plan opts source destination node t hops) :
    TimeRespecting plan opts' source destination node t hops := by
  induction hops generalizing node t with
  | nil => trivial
  | cons hop rest ih =>
      obtain ⟨c, send⟩ := hop
      obtain ⟨⟨hc, hsource, hc'⟩, htimes, hrest⟩ := h
      exact ⟨⟨hc, hsource, hpass c hc'⟩, htimes, ih hrest⟩

theorem IsRoute.trial_of_subset {used' : Finset NodeId} (hused : used ⊆ used')
    (h : IsRoute plan source destination tNow (opts.trial used') hops) :
    IsRoute plan source destination tNow (opts.trial used) hops := by
  have hpass : ∀ c, Passable (opts.trial used') source destination c →
      Passable (opts.trial used) source destination c := by
    intro c hc
    refine ⟨hc.reentry, hc.edge, fun hne hmem => hc.transit hne ?_, hc.owlt⟩
    exact Finset.union_subset_union_right hused hmem
  exact ⟨h.timeRespecting.imp hpass, h.length_le, h.endNode_eq, h.deadline⟩

theorem trial_empty (opts : RouteOptions) : opts.trial ∅ = opts := by
  unfold RouteOptions.trial
  rw [Finset.union_empty]

theorem findEarliestArrivalWith_eq_some
    (h : plan.findEarliestArrivalWith source destination tNow opts = some j) :
    source ≠ destination ∧ IsRoute plan source destination tNow opts j.contacts ∧
      ∀ ℓ, KeepsLeast plan source destination tNow opts ℓ → Kept ℓ 0 j.contacts := by
  have hne : source ≠ destination := by
    rintro rfl
    rw [ContactPlan.findEarliestArrivalWith, if_pos rfl] at h
    cases h
  rcases findEarliestArrivalWith_spec plan hne tNow opts with ⟨j', hj', hroute, -, hkept⟩ | ⟨hnone, -⟩
  · rw [h] at hj'
    cases hj'
    exact ⟨hne, hroute, hkept⟩
  · rw [h] at hnone
    cases hnone

theorem mem_disjointJourneys {k : ℕ}
    (h : j ∈ plan.disjointJourneys source destination tNow opts k used) :
    IsRoute plan source destination tNow (opts.trial used) j.contacts := by
  induction k generalizing used with
  | zero => cases h
  | succ k ih =>
      unfold ContactPlan.disjointJourneys at h
      cases hfound : plan.findEarliestArrivalWith source destination tNow (opts.trial used) with
      | none =>
          rw [hfound] at h
          cases h
      | some first =>
          rw [hfound] at h
          rcases mem_cons.mp h with rfl | h
          · exact (findEarliestArrivalWith_eq_some hfound).2.1
          · exact (ih h).trial_of_subset Finset.subset_union_left

theorem separate_of_trial
    (hroute : IsRoute plan source destination tNow (opts.trial used) j.contacts)
    (hmany : 1 < j.hops) (hend : destination ∉ transit j.contacts)
    (hroute' : IsRoute plan source destination tNow
      (opts.trial (used ∪ j.transitNodes.toFinset)) j'.contacts) : Separate j j' := by
  -- no hop of the other one comes to a transit node of the first
  have havoid : ∀ hop ∈ j'.contacts, hop.1.destination ∉ transit j.contacts := by
    intro hop hmem htransit
    have hpass := hroute'.timeRespecting.passable hmem
    refine hpass.transit (fun heq => hend (heq ▸ htransit)) ?_
    rw [Journey.transitNodes_eq]
    exact Finset.mem_union_right _ (Finset.mem_union_right _ (mem_toFinset.mpr htransit))
  refine ⟨?_, ?_⟩
  · rw [Journey.transitNodes_eq, Journey.transitNodes_eq]
    intro v hv hv'
    obtain ⟨hop, hmem, rfl⟩ := exists_hop_of_mem_transit hv'
    exact havoid hop hmem hv
  · intro c hc hc'
    obtain ⟨hop, hmem, rfl⟩ := mem_map.mp hc
    obtain ⟨hop', hmem', heq⟩ := mem_map.mp hc'
    rcases hroute.timeRespecting.mem_transit hmany hmem with htransit | htransit
    · exact havoid hop' hmem' (heq ▸ htransit)
    · rw [← heq] at htransit
      rcases hroute'.timeRespecting.source_mem_transit hmem' with hsource | hmem''
      · -- the first one does not come back to the source
        obtain ⟨back, hback, hdest⟩ := exists_hop_of_mem_transit htransit
        exact (hroute.timeRespecting.passable hback).reentry (hdest.trans hsource)
      · obtain ⟨back, hback, hdest⟩ := exists_hop_of_mem_transit hmem''
        exact havoid back hback (hdest ▸ htransit)

/-! ### When a contact is used twice -/

/-- Of the labels of the destination, the least is that of a contact from the source. -/
def DirectFirst (plan : ContactPlan) (source destination : NodeId) (tNow : Timestamp)
    (opts : RouteOptions) : Prop :=
  ∃ ℓ, KeepsLeast plan source destination tNow opts ℓ ∧
    ∃ t, ℓ destination = some (toLex (t, 1))

/-- Each time that another search follows, the destination is reached over other nodes first. -/
def RelayedFor (plan : ContactPlan) (source destination : NodeId) (tNow : Timestamp)
    (opts : RouteOptions) : ℕ → Finset NodeId → Prop
  | 0, _ => True
  | 1, _ => True
  | k + 2, used =>
      ¬ DirectFirst plan source destination tNow (opts.trial used) ∧
        ∀ j, plan.findEarliestArrivalWith source destination tNow (opts.trial used) = some j →
          RelayedFor plan source destination tNow opts (k + 1) (used ∪ j.transitNodes.toFinset)

theorem directFirst_iff (h : plan.findEarliestArrivalWith source destination tNow opts = some j) :
    DirectFirst plan source destination tNow opts ↔ j.hops = 1 := by
  obtain ⟨hne, hroute, hkept⟩ := findEarliestArrivalWith_eq_some h
  have hlabel : ∀ ℓ, KeepsLeast plan source destination tNow opts ℓ →
      ℓ destination = some (toLex (endTime tNow j.contacts, j.hops)) := by
    intro ℓ hℓ
    have hlast := (hkept ℓ hℓ).label (hroute.ne_nil hne) source tNow
    rw [hroute.endNode_eq, Nat.zero_add] at hlast
    exact hlast
  constructor
  · rintro ⟨ℓ, hℓ, t, ht⟩
    rw [hlabel ℓ hℓ] at ht
    exact congrArg Label.hops (Option.some.inj ht)
  · intro hone
    obtain ⟨ℓ, hℓ⟩ := exists_keepsLeast plan source destination tNow opts
    exact ⟨ℓ, hℓ, _, hone ▸ hlabel ℓ hℓ⟩

theorem DirectFirst.exists_found (h : DirectFirst plan source destination tNow opts) :
    ∃ j, plan.findEarliestArrivalWith source destination tNow opts = some j := by
  obtain ⟨ℓ, hℓ, t, ht⟩ := h
  have hne : source ≠ destination := by
    rintro rfl
    rw [hℓ.start] at ht
    cases ht
  rcases findEarliestArrivalWith_spec plan hne tNow opts with ⟨j, hj, -⟩ | ⟨-, hnone⟩
  · exact ⟨j, hj⟩
  · rw [hnone ℓ hℓ] at ht
    cases ht

theorem hops_pos (h : plan.findEarliestArrivalWith source destination tNow opts = some j) :
    0 < j.hops := by
  obtain ⟨hne, hroute, -⟩ := findEarliestArrivalWith_eq_some h
  exact length_pos_of_ne_nil (hroute.ne_nil hne)

theorem disjointJourneys_succ
    (h : plan.findEarliestArrivalWith source destination tNow (opts.trial used) = some j) (k : ℕ) :
    plan.disjointJourneys source destination tNow opts (k + 1) used =
      j :: plan.disjointJourneys source destination tNow opts k
        (used ∪ j.transitNodes.toFinset) := by
  rw [ContactPlan.disjointJourneys, h]

theorem not_pairwise_of_directFirst
    (h : DirectFirst plan source destination tNow (opts.trial used)) (k : ℕ) :
    ¬ (plan.disjointJourneys source destination tNow opts (k + 2) used).Pairwise Separate := by
  obtain ⟨j, hj⟩ := h.exists_found
  have hone := (directFirst_iff hj).mp h
  have hnodes : used ∪ j.transitNodes.toFinset = used := by
    have hnil : j.transitNodes = [] := by
      rw [Journey.transitNodes_eq, transit, ← length_eq_zero_iff, length_dropLast,
        length_map]
      exact Nat.sub_eq_zero_of_le hone.le
    rw [hnil, toFinset_nil, Finset.union_empty]
  rw [disjointJourneys_succ hj, hnodes, disjointJourneys_succ hj]
  intro hpairwise
  have hself := ((pairwise_cons.mp hpairwise).1 j mem_cons_self).contacts
  obtain ⟨hop, hmem⟩ := exists_mem_of_length_pos (hops_pos hj)
  exact hself (mem_map_of_mem hmem) (mem_map_of_mem hmem)

theorem separate_of_not_directFirst
    (hfound : plan.findEarliestArrivalWith source destination tNow (opts.trial used) = some j)
    (hdirect : ¬ DirectFirst plan source destination tNow (opts.trial used)) {k : ℕ}
    (hj' : j' ∈ plan.disjointJourneys source destination tNow opts k
      (used ∪ j.transitNodes.toFinset)) : Separate j j' := by
  obtain ⟨-, hroute, hkept⟩ := findEarliestArrivalWith_eq_some hfound
  have hmany : 1 < j.hops :=
    Nat.lt_of_le_of_ne (hops_pos hfound) fun hone => hdirect ((directFirst_iff hfound).mpr hone.symm)
  obtain ⟨ℓ, hℓ⟩ := exists_keepsLeast plan source destination tNow (opts.trial used)
  have hend := (hkept ℓ hℓ).endNode_notMem_transit source
  rw [hroute.endNode_eq] at hend
  exact separate_of_trial hroute hmany hend (mem_disjointJourneys hj')

theorem pairwise_separate_iff (plan : ContactPlan) (source destination : NodeId)
    (tNow : Timestamp) (opts : RouteOptions) (k : ℕ) (used : Finset NodeId) :
    (plan.disjointJourneys source destination tNow opts k used).Pairwise Separate ↔
      RelayedFor plan source destination tNow opts k used := by
  induction k generalizing used with
  | zero => exact iff_of_true Pairwise.nil trivial
  | succ k ih =>
      cases hfound : plan.findEarliestArrivalWith source destination tNow (opts.trial used) with
      | none =>
          have hnil : plan.disjointJourneys source destination tNow opts (k + 1) used = [] := by
            rw [ContactPlan.disjointJourneys, hfound]
          rw [hnil]
          refine iff_of_true Pairwise.nil ?_
          cases k with
          | zero => trivial
          | succ k =>
              refine ⟨fun hdirect => ?_, fun j hj => ?_⟩
              · obtain ⟨j, hj⟩ := hdirect.exists_found
                rw [hfound] at hj
                cases hj
              · rw [hfound] at hj
                cases hj
      | some j =>
          cases k with
          | zero =>
              rw [disjointJourneys_succ hfound]
              exact iff_of_true (pairwise_singleton _ _) trivial
          | succ k =>
              constructor
              · intro hpairwise
                refine ⟨fun hdirect => not_pairwise_of_directFirst hdirect k hpairwise, ?_⟩
                intro j' hj'
                rw [hfound] at hj'
                cases hj'
                rw [disjointJourneys_succ hfound] at hpairwise
                exact (ih _).mp (pairwise_cons.mp hpairwise).2
              · rintro ⟨hdirect, hrest⟩
                rw [disjointJourneys_succ hfound]
                exact pairwise_cons.mpr ⟨fun j' hj' =>
                  separate_of_not_directFirst hfound hdirect hj', (ih _).mpr (hrest j hfound)⟩

/-- The journeys are always routes; they are separate exactly if each search that another one follows
comes to the destination over other nodes. -/
theorem disjointRoutes_iff (plan : ContactPlan) (source destination : NodeId) (tNow : Timestamp)
    (k : ℕ) (opts : RouteOptions) :
    DisjointRoutes plan source destination tNow opts
        (plan.findDisjointJourneys source destination tNow k opts) ↔
      RelayedFor plan source destination tNow opts k ∅ := by
  constructor
  · intro h
    exact (pairwise_separate_iff ..).mp h.separate
  · intro h
    refine ⟨fun j hj => ?_, (pairwise_separate_iff ..).mpr h⟩
    have hroute := mem_disjointJourneys hj
    rwa [trial_empty] at hroute

/-! ### Where there is no direct contact -/

theorem DirectFirst.exists_contact (h : DirectFirst plan source destination tNow opts) :
    ∃ c ∈ plan.contacts, c.source = source ∧ c.destination = destination ∧
      Passable opts source destination c ∧ edgePresence c (max tNow c.tStart) := by
  obtain ⟨ℓ, hℓ, t, ht⟩ := h
  have hne : destination ≠ source := by
    rintro rfl
    rw [hℓ.start] at ht
    cases ht
  obtain ⟨m, k, e, hk, hx⟩ := (keepsLeast_iff.mp hℓ).realized destination _ ht hne
  have hzero : k.hops = 0 := Nat.succ.inj (lt_of_mem_relax hx).2.symm
  have hm : m = source := by
    by_contra hm
    obtain ⟨m', k', e', -, hx'⟩ := (keepsLeast_iff.mp hℓ).realized m k hk hm
    rw [(lt_of_mem_relax hx').2] at hzero
    cases hzero
  obtain ⟨-, c, hc, hsource, hrelaxed⟩ := mem_relax.mp hx
  obtain ⟨hpass, hpresence, -, heq⟩ := relaxContact_eq_some.mp hrelaxed
  rw [hm, hℓ.start] at hk
  cases hk
  exact ⟨c, hc, hsource.trans hm, (congrArg Prod.fst heq).symm, hpass, hpresence⟩

/-- The nodes that are used up do not matter to a contact that leads to the destination. -/
theorem relayedFor_of_no_direct
    (hnone : ∀ c ∈ plan.contacts, c.source = source → c.destination = destination →
      (source, destination) ∉ opts.excludedEdges → ¬ edgePresence c (max tNow c.tStart))
    (k : ℕ) (used : Finset NodeId) :
    RelayedFor plan source destination tNow opts k used := by
  induction k generalizing used with
  | zero => trivial
  | succ k ih =>
      cases k with
      | zero => trivial
      | succ k =>
          refine ⟨fun hdirect => ?_, fun j _ => ih _⟩
          obtain ⟨c, hc, hsource, hdest, hpass, hpresence⟩ := hdirect.exists_contact
          refine hnone c hc hsource hdest ?_ hpresence
          rw [← hsource, ← hdest]
          exact hpass.edge

end

/-- One contact, and no other node. -/
def directPlan : ContactPlan := ContactPlan.empty.addContact (steadyContact "s" "d" 1)

/-- Two journeys are asked for: both are over the one contact. -/
theorem directPlan_shared :
    ¬ DisjointRoutes directPlan "s" "d" 0 .default
      (directPlan.findDisjointJourneys "s" "d" 0 2 .default) := by
  intro h
  have hcontacts : (directPlan.findDisjointJourneys "s" "d" 0 2 .default).map Journey.contacts =
      [[(steadyContact "s" "d" 1, 0)], [(steadyContact "s" "d" 1, 0)]] := by
    decide +kernel
  have hseparate := Pairwise.map Journey.contacts (S := fun l l' : List Hop =>
    (l.map Prod.fst).Disjoint (l'.map Prod.fst)) (fun _ _ hs => hs.contacts) h.separate
  rw [hcontacts] at hseparate
  exact (pairwise_cons.mp hseparate).1 _ mem_cons_self mem_cons_self
    mem_cons_self

end Vantablack.Routing
