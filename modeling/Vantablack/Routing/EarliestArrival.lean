import Mathlib.Data.String.Basic
import Mathlib.Tactic.Linarith
import Vantablack.Lib.LabelSetting
import Vantablack.Routing.ContactPlan

/-!
The earliest-arrival search of `net/routing.rs`, `find_earliest_arrival_with`. The heap gives out the
earlier arrival first, then the fewer hops, then the smaller node; each node keeps the least label
found for it, an arrival with its number of hops.
-/

namespace Vantablack.Routing

open Lib LabelSetting List

/-- An entry of a journey: a contact and when the data is put on it. -/
abbrev Hop := Contact × Timestamp

def latency (contact : Contact) : ℚ :=
  if 0 < contact.owltSecs then contact.owltSecs else 0

structure Journey where
  contacts : List Hop
  totalLatency : ℚ
  arrivalTime : Timestamp

namespace Journey

def new : Journey := { contacts := [], totalLatency := 0, arrivalTime := 0 }

/-- The journey with one more hop, or none if the hop cannot be taken. -/
def append (j : Journey) (contact : Contact) (sendTime : Timestamp) : Option Journey :=
  if j.contacts.getLast?.any fun last => sendTime < last.2 + last.1.owltSecs then none
  else if ¬ edgePresence contact sendTime then none
  else
    some
      { contacts := j.contacts ++ [(contact, sendTime)]
        totalLatency := j.totalLatency + latency contact
        arrivalTime := sendTime + contact.owltSecs }

def hops (j : Journey) : ℕ := j.contacts.length

/-- The nodes from the source to the destination. -/
def nodes (j : Journey) : List NodeId :=
  match j.contacts with
  | [] => []
  | (c, _) :: _ => c.source :: j.contacts.map fun hop => hop.1.destination

/-- The nodes other than the two at the ends. -/
def transitNodes (j : Journey) : List NodeId :=
  if j.nodes.length ≤ 2 then [] else (j.nodes.drop 1).take (j.nodes.length - 2)

end Journey

structure RouteOptions where
  maxHops : ℕ
  maxArrival : Option Timestamp
  excludedNodes : Finset NodeId
  excludedEdges : Finset (NodeId × NodeId)

def defaultMaxHops : ℕ := 8

def RouteOptions.default : RouteOptions where
  maxHops := defaultMaxHops
  maxArrival := none
  excludedNodes := ∅
  excludedEdges := ∅

/-- An arrival and its number of hops; the earlier arrival is less, then the fewer hops. -/
abbrev Label := Lex (ℚ × ℕ)

def Label.arrival (l : Label) : ℚ := (ofLex l).1

def Label.hops (l : Label) : ℕ := (ofLex l).2

/-! ### The search -/

/-- The body of the inner loop: what a contact of a node gives that is reached at `arrival`. -/
def relaxContact (opts : RouteOptions) (source destination : NodeId) (arrival : ℚ) (hops : ℕ)
    (contact : Contact) : Option (NodeId × Label × Hop) :=
  if contact.tEnd < arrival then none
  else if contact.destination = source then none
  else if (contact.source, contact.destination) ∈ opts.excludedEdges then none
  else if contact.destination ≠ destination ∧ contact.destination ∈ opts.excludedNodes then none
  else
    let send := if contact.tStart < arrival then arrival else contact.tStart
    if ¬ edgePresence contact send then none
    else if contact.owltSecs < 0 then none
    else
      let nextArrival := send + contact.owltSecs
      if opts.maxArrival.any (· < nextArrival) then none
      else some (contact.destination, toLex (nextArrival, hops + 1), (contact, send))

namespace ContactPlan

def relax (plan : ContactPlan) (opts : RouteOptions) (source destination : NodeId) (node : NodeId)
    (label : Label) : List (NodeId × Label × Hop) :=
  if opts.maxHops ≤ label.hops then []
  else
    (plan.contactsFrom node).filterMap
      (relaxContact opts source destination label.arrival label.hops)

/-- The predecessors from a node back, with the node they end at; none if there are more than
`maxHops`. -/
def walkBack (prev : Table NodeId Hop) : ℕ → List Hop → NodeId → Option (List Hop × NodeId)
  | maxHops, chain, cursor =>
      match prev.lookup cursor with
      | none => some (chain, cursor)
      | some hop =>
          match maxHops with
          | 0 => none
          | maxHops + 1 => walkBack prev maxHops (hop :: chain) hop.1.source

/-- The loop is over after as many turns as there are entries for the heap. -/
def findEarliestArrivalWith (plan : ContactPlan) (source destination : NodeId) (tNow : Timestamp)
    (opts : RouteOptions) : Option Journey :=
  if source = destination then none
  else
    let (reached, s) := (Search.start source (toLex (tNow, 0))).run id
      (plan.relax opts source destination) (fun node => decide (node = destination))
      (plan.contacts.length * plan.contacts.length + 2)
    if reached = false ∧ s.best.lookup destination = none then none
    else
      match walkBack s.prev opts.maxHops [] destination with
      | none => none
      | some (chain, cursor) =>
          if chain = [] ∨ cursor ≠ source then none
          else chain.foldlM (fun journey hop => journey.append hop.1 hop.2) Journey.new

def findEarliestArrival (plan : ContactPlan) (source destination : NodeId) (tNow : Timestamp) :
    Option Journey :=
  plan.findEarliestArrivalWith source destination tNow .default

end ContactPlan

/-! ### Routes -/

/-- The options let a contact be used. -/
structure Passable (opts : RouteOptions) (source destination : NodeId) (contact : Contact) : Prop where
  reentry : contact.destination ≠ source
  edge : (contact.source, contact.destination) ∉ opts.excludedEdges
  transit : contact.destination ≠ destination → contact.destination ∉ opts.excludedNodes
  owlt : 0 ≤ contact.owltSecs

/-- Hops that can be taken one after the other by data that is at `node` from the instant `t` on. -/
def TimeRespecting (plan : ContactPlan) (opts : RouteOptions) (source destination : NodeId) :
    NodeId → Timestamp → List Hop → Prop
  | _, _, [] => True
  | node, t, (c, send) :: rest =>
      (c ∈ plan.contacts ∧ c.source = node ∧ Passable opts source destination c) ∧
        (t ≤ send ∧ edgePresence c send) ∧
        TimeRespecting plan opts source destination c.destination (send + c.owltSecs) rest

def endNode (node : NodeId) : List Hop → NodeId
  | [] => node
  | (c, _) :: rest => endNode c.destination rest

def endTime (t : Timestamp) : List Hop → Timestamp
  | [] => t
  | (c, send) :: rest => endTime (send + c.owltSecs) rest

/-- A path in time from the source to the destination that obeys the options. -/
structure IsRoute (plan : ContactPlan) (source destination : NodeId) (tNow : Timestamp)
    (opts : RouteOptions) (hops : List Hop) : Prop where
  timeRespecting : TimeRespecting plan opts source destination source tNow hops
  length_le : hops.length ≤ opts.maxHops
  endNode_eq : endNode source hops = destination
  deadline : ∀ t ∈ opts.maxArrival, endTime tNow hops ≤ t

/-- The search finds a route exactly if there is one, and then one of the earliest arrival. -/
def FindsEarliest (plan : ContactPlan) (source destination : NodeId) (tNow : Timestamp)
    (opts : RouteOptions) : Prop :=
  ((plan.findEarliestArrivalWith source destination tNow opts).isSome = true ↔
      ∃ hops, IsRoute plan source destination tNow opts hops) ∧
    ∀ j, plan.findEarliestArrivalWith source destination tNow opts = some j →
      IsRoute plan source destination tNow opts j.contacts ∧
        j.arrivalTime = endTime tNow j.contacts ∧
        ∀ hops, IsRoute plan source destination tNow opts hops →
          j.arrivalTime ≤ endTime tNow hops

section

variable {plan : ContactPlan} {opts : RouteOptions} {source destination node : NodeId}
  {t : Timestamp} {hops : List Hop}

variable (rest : List Hop)

theorem timeRespecting_append :
    TimeRespecting plan opts source destination node t (hops ++ rest) ↔
      TimeRespecting plan opts source destination node t hops ∧
        TimeRespecting plan opts source destination (endNode node hops) (endTime t hops) rest := by
  induction hops generalizing node t with
  | nil => exact (and_iff_right trivial).symm
  | cons hop hops ih =>
      obtain ⟨c, send⟩ := hop
      simp only [cons_append, TimeRespecting, endNode, endTime, ih, and_assoc]

theorem endNode_append : endNode node (hops ++ rest) = endNode (endNode node hops) rest := by
  induction hops generalizing node with
  | nil => rfl
  | cons hop hops ih => exact ih

theorem endTime_append : endTime t (hops ++ rest) = endTime (endTime t hops) rest := by
  induction hops generalizing t with
  | nil => rfl
  | cons hop hops ih => exact ih

theorem TimeRespecting.le_endTime
    (h : TimeRespecting plan opts source destination node t hops) : t ≤ endTime t hops := by
  induction hops generalizing node t with
  | nil => exact le_refl t
  | cons hop hops ih =>
      obtain ⟨c, send⟩ := hop
      obtain ⟨⟨-, -, hpass⟩, ⟨hsend, -⟩, hrest⟩ := h
      calc
        t ≤ send + c.owltSecs := by linarith [hpass.owlt]
        _ ≤ endTime (send + c.owltSecs) hops := ih hrest

/-! ### What follows from a label -/

variable {x : NodeId × Label × Hop}

theorem relaxContact_eq_some {arrival : ℚ} {h : ℕ} {c : Contact} :
    relaxContact opts source destination arrival h c = some x ↔
      Passable opts source destination c ∧ edgePresence c (max arrival c.tStart) ∧
        (∀ t ∈ opts.maxArrival, max arrival c.tStart + c.owltSecs ≤ t) ∧
        x = (c.destination, toLex (max arrival c.tStart + c.owltSecs, h + 1),
          (c, max arrival c.tStart)) := by
  have hsend : (if c.tStart < arrival then arrival else c.tStart) = max arrival c.tStart := by
    split
    · rename_i hlt
      exact (max_eq_left hlt.le).symm
    · rename_i hge
      exact (max_eq_right (not_lt.mp hge)).symm
  unfold relaxContact
  dsimp only
  rw [hsend]
  constructor
  · intro h
    split at h
    · cases h
    split at h
    · cases h
    rename_i hreentry
    split at h
    · cases h
    rename_i hedge
    split at h
    · cases h
    rename_i htransit
    split at h
    · cases h
    rename_i hpresence
    split at h
    · cases h
    rename_i howlt
    split at h
    · cases h
    rename_i hdeadline
    refine ⟨⟨hreentry, hedge, fun hne hmem => htransit ⟨hne, hmem⟩, not_lt.mp howlt⟩,
      not_not.mp hpresence, fun t ht => ?_, (Option.some.inj h).symm⟩
    by_contra hlate
    exact hdeadline ((Option.any_eq_true _ _).mpr ⟨t, ht, decide_eq_true (not_le.mp hlate)⟩)
  · rintro ⟨hpass, hpresence, hdeadline, rfl⟩
    have hopen : ¬ c.tEnd < arrival := not_lt.mpr ((le_max_left _ _).trans hpresence.2)
    have htransit : ¬ (c.destination ≠ destination ∧ c.destination ∈ opts.excludedNodes) :=
      fun h => hpass.transit h.1 h.2
    have hlate : ¬ opts.maxArrival.any (· < max arrival c.tStart + c.owltSecs) = true := by
      intro hany
      obtain ⟨t, ht, hlt⟩ := (Option.any_eq_true _ _).mp hany
      exact absurd (of_decide_eq_true hlt) (not_lt.mpr (hdeadline t ht))
    rw [if_neg hopen, if_neg hpass.reentry, if_neg hpass.edge, if_neg htransit,
      if_neg (not_not.mpr hpresence), if_neg (not_lt.mpr hpass.owlt), if_neg hlate]

theorem mem_relax {label : Label} :
    x ∈ plan.relax opts source destination node label ↔ label.hops < opts.maxHops ∧
      ∃ c ∈ plan.contacts, c.source = node ∧
        relaxContact opts source destination label.arrival label.hops c = some x := by
  unfold ContactPlan.relax
  by_cases hmax : opts.maxHops ≤ label.hops
  · rw [if_pos hmax]
    simp [not_lt.mpr hmax]
  · rw [if_neg hmax, mem_filterMap]
    simp only [ContactPlan.mem_contactsFrom, and_assoc, not_le.mp hmax, true_and]

theorem lt_of_mem_relax {label : Label} (hx : x ∈ plan.relax opts source destination node label) :
    label < x.2.1 ∧ x.2.1.hops = label.hops + 1 := by
  obtain ⟨-, c, -, -, hc⟩ := mem_relax.mp hx
  obtain ⟨hpass, -, -, rfl⟩ := relaxContact_eq_some.mp hc
  refine ⟨?_, rfl⟩
  have hle : label.arrival ≤ max label.arrival c.tStart + c.owltSecs :=
    (le_max_left _ _).trans (le_add_of_nonneg_right hpass.owlt)
  refine Prod.Lex.lt_iff.mpr ?_
  rcases lt_or_eq_of_le hle with hlt | heq
  · exact Or.inl hlt
  · exact Or.inr ⟨heq, Nat.lt_succ_self _⟩

theorem hop_of_mem_relax {m : NodeId} {k label : Label} {hop : Hop}
    (hx : (node, label, hop) ∈ plan.relax opts source destination m k) :
    (hop.1 ∈ plan.contacts ∧ hop.1.source = m ∧ Passable opts source destination hop.1) ∧
      (k.arrival ≤ hop.2 ∧ edgePresence hop.1 hop.2) ∧ node = hop.1.destination ∧
      label = toLex (hop.2 + hop.1.owltSecs, k.hops + 1) := by
  obtain ⟨-, c, hc, hsource, hrelaxed⟩ := mem_relax.mp hx
  obtain ⟨hpass, hpresence, -, heq⟩ := relaxContact_eq_some.mp hrelaxed
  cases heq
  exact ⟨⟨hc, hsource, hpass⟩, ⟨le_max_left _ _, hpresence⟩, rfl, rfl⟩

theorem bounds_of_mem_relax {label : Label}
    (hx : x ∈ plan.relax opts source destination node label) :
    x.2.1.hops ≤ opts.maxHops ∧ ∀ t ∈ opts.maxArrival, x.2.1.arrival ≤ t := by
  obtain ⟨hmax, c, -, -, hrelaxed⟩ := mem_relax.mp hx
  obtain ⟨-, -, hdeadline, rfl⟩ := relaxContact_eq_some.mp hrelaxed
  exact ⟨hmax, hdeadline⟩

theorem increasing_relax (plan : ContactPlan) (opts : RouteOptions) (source destination : NodeId) :
    Increasing (plan.relax opts source destination) source Label.hops where
  ne_start := by
    intro n l x hx
    obtain ⟨-, c, -, -, hc⟩ := mem_relax.mp hx
    obtain ⟨hpass, -, -, rfl⟩ := relaxContact_eq_some.mp hc
    exact hpass.reentry
  lt := fun n l x hx => (lt_of_mem_relax hx).1
  rank_lt := by
    intro n l x hx
    rw [(lt_of_mem_relax hx).2]
    exact Nat.lt_succ_self _

theorem length_contactsFrom_le (plan : ContactPlan) (node : NodeId) :
    (plan.contactsFrom node).length ≤ plan.contacts.length := by
  have hindices : (indicesOf plan.bySource node).length ≤ (range plan.contacts.length).length :=
    Subperm.length_le (subperm_of_subset (plan.sorted.nodup node) fun i hi =>
      mem_range.mpr (plan.sorted.lt_length hi))
  rw [length_range] at hindices
  exact (length_filterMap_le _ _).trans hindices

theorem bounded_relax (plan : ContactPlan) (opts : RouteOptions) (source destination : NodeId) :
    LabelSetting.Bounded (plan.relax opts source destination)
      (plan.contacts.map Contact.source).toFinset plan.contacts.length where
  nodes := by
    intro n hn l
    refine eq_nil_iff_forall_not_mem.mpr fun x hx => hn ?_
    obtain ⟨-, c, hc, rfl, -⟩ := mem_relax.mp hx
    exact mem_toFinset.mpr (mem_map_of_mem hc)
  degree := by
    intro n l
    unfold ContactPlan.relax
    split
    · exact Nat.zero_le _
    · exact (length_filterMap_le _ _).trans (length_contactsFrom_le plan n)

/-! ### The way back -/

/-- Each node that the hops come to keeps the label they give it. -/
def Kept (ℓ : NodeId → Option Label) : ℕ → List Hop → Prop
  | _, [] => True
  | h, (c, send) :: rest =>
      ℓ c.destination = some (toLex (send + c.owltSecs, h + 1)) ∧ Kept ℓ (h + 1) rest

variable {ℓ : NodeId → Option Label}

theorem kept_append {h : ℕ} :
    Kept ℓ h (hops ++ rest) ↔ Kept ℓ h hops ∧ Kept ℓ (h + hops.length) rest := by
  induction hops generalizing h with
  | nil => exact (and_iff_right trivial).symm
  | cons hop hops ih =>
      obtain ⟨c, send⟩ := hop
      rw [cons_append, Kept, Kept, ih, and_assoc, length_cons, Nat.add_assoc,
        Nat.add_comm 1]

theorem Kept.label {h : ℕ} (hkept : Kept ℓ h hops) (hne : hops ≠ []) (node : NodeId)
    (t : Timestamp) : ℓ (endNode node hops) = some (toLex (endTime t hops, h + hops.length)) := by
  induction hops generalizing node t h with
  | nil => exact absurd rfl hne
  | cons hop hops ih =>
      obtain ⟨c, send⟩ := hop
      obtain ⟨hlabel, hrest⟩ := hkept
      cases hops with
      | nil => exact hlabel
      | cons hop' hops =>
          have hlength : h + 1 + (hop' :: hops).length = h + ((c, send) :: hop' :: hops).length := by
            rw [length_cons (a := (c, send))]
            omega
          rw [endNode, endTime, ih hrest (cons_ne_nil _ _) c.destination, hlength]

/-- Hops from the source that give the node this label. -/
structure LeadsTo (plan : ContactPlan) (opts : RouteOptions) (source destination : NodeId)
    (tNow : Timestamp) (hops : List Hop) (node : NodeId) (label : Label) : Prop where
  timeRespecting : TimeRespecting plan opts source destination source tNow hops
  endNode_eq : endNode source hops = node
  endTime_eq : endTime tNow hops = label.arrival
  length_eq : hops.length = label.hops

theorem leadsTo_source (tNow : Timestamp) :
    LeadsTo plan opts source destination tNow [] source (toLex (tNow, 0)) :=
  ⟨trivial, rfl, rfl, rfl⟩

variable {tNow : Timestamp}

theorem LeadsTo.snoc {m : NodeId} {k label : Label} {hop : Hop}
    (h : LeadsTo plan opts source destination tNow hops m k)
    (hx : (node, label, hop) ∈ plan.relax opts source destination m k) :
    LeadsTo plan opts source destination tNow (hops ++ [hop]) node label := by
  obtain ⟨c, send⟩ := hop
  obtain ⟨hcontact, htimes, rfl, rfl⟩ := hop_of_mem_relax hx
  refine ⟨?_, ?_, ?_, ?_⟩
  · rw [timeRespecting_append, h.endNode_eq, h.endTime_eq]
    exact ⟨h.timeRespecting, hcontact, htimes, trivial⟩
  · rw [endNode_append]
    rfl
  · rw [endTime_append]
    rfl
  · rw [length_append, h.length_eq]
    rfl

theorem LeadsTo.kept_snoc {m : NodeId} {k label : Label} {hop : Hop}
    (h : LeadsTo plan opts source destination tNow hops m k)
    (hx : (node, label, hop) ∈ plan.relax opts source destination m k) (hkept : Kept ℓ 0 hops)
    (hlabel : ℓ node = some label) : Kept ℓ 0 (hops ++ [hop]) := by
  obtain ⟨c, send⟩ := hop
  obtain ⟨-, -, rfl, rfl⟩ := hop_of_mem_relax hx
  refine (kept_append _).mpr ⟨hkept, ?_, trivial⟩
  rw [hlabel, h.length_eq, Nat.zero_add]

theorem LeadsTo.isRoute {label : Label}
    (h : LeadsTo plan opts source destination tNow hops destination label)
    (hmax : label.hops ≤ opts.maxHops) (hdeadline : ∀ t ∈ opts.maxArrival, label.arrival ≤ t) :
    IsRoute plan source destination tNow opts hops where
  timeRespecting := h.timeRespecting
  length_le := h.length_eq ▸ hmax
  endNode_eq := h.endNode_eq
  deadline := h.endTime_eq ▸ hdeadline

theorem walkBack_eq_some {settled : Finset NodeId} {s : Search NodeId Label Hop}
    (hs : Settled (plan.relax opts source destination) source (toLex (tNow, 0)) settled [] s)
    {node : NodeId} {label : Label} (hlabel : s.best.lookup node = some label) {budget : ℕ}
    (hbudget : label.hops ≤ budget) (chain : List Hop) :
    ∃ hops, ContactPlan.walkBack s.prev budget chain node = some (hops ++ chain, source) ∧
      LeadsTo plan opts source destination tNow hops node label ∧
      ∀ ℓ : NodeId → Option Label, (∀ n ∈ settled, s.best.lookup n = ℓ n) → ℓ node = some label →
        Kept ℓ 0 hops := by
  induction budget generalizing node label chain with
  | zero =>
      have hnode : node = source := by
        by_contra hnode
        obtain ⟨m, -, k, e, -, -, hx⟩ := hs.traced node label hlabel hnode
        rw [(lt_of_mem_relax hx).2] at hbudget
        exact Nat.not_succ_le_zero _ hbudget
      subst hnode
      rw [hs.start] at hlabel
      cases hlabel
      refine ⟨[], ?_, leadsTo_source tNow, fun _ _ _ => trivial⟩
      unfold ContactPlan.walkBack
      rw [hs.root]
      rfl
  | succ budget ih =>
      by_cases hnode : node = source
      · subst hnode
        rw [hs.start] at hlabel
        cases hlabel
        refine ⟨[], ?_, leadsTo_source tNow, fun _ _ _ => trivial⟩
        unfold ContactPlan.walkBack
        rw [hs.root]
        rfl
      · obtain ⟨m, hm, k, hop, hk, hprev, hx⟩ := hs.traced node label hlabel hnode
        obtain ⟨⟨-, rfl, -⟩, -⟩ := hop_of_mem_relax hx
        rw [(lt_of_mem_relax hx).2] at hbudget
        obtain ⟨hops, hwalk, hleads, hkept⟩ := ih hk (Nat.le_of_succ_le_succ hbudget) (hop :: chain)
        refine ⟨hops ++ [hop], ?_, hleads.snoc hx, fun ℓ hagree hℓ => ?_⟩
        · unfold ContactPlan.walkBack
          rw [hprev, append_assoc]
          exact hwalk
        · exact hleads.kept_snoc hx (hkept ℓ hagree ((hagree _ hm).symm.trans hk)) hℓ

theorem foldlM_append {j : Journey}
    (htime : TimeRespecting plan opts source destination node t hops)
    (hlast : ∀ last ∈ j.contacts.getLast?, last.2 + last.1.owltSecs ≤ t) :
    ∃ j', hops.foldlM (fun journey hop => journey.append hop.1 hop.2) j = some j' ∧
      j'.contacts = j.contacts ++ hops ∧ (hops ≠ [] → j'.arrivalTime = endTime t hops) := by
  induction hops generalizing node t j with
  | nil => exact ⟨j, rfl, (append_nil _).symm, fun hne => absurd rfl hne⟩
  | cons hop hops ih =>
      obtain ⟨c, send⟩ := hop
      obtain ⟨-, ⟨hsend, hpresence⟩, hrest⟩ := htime
      have hcausal : ¬ (j.contacts.getLast?.any fun last => send < last.2 + last.1.owltSecs) =
          true := by
        intro hany
        obtain ⟨last, hlast', hlt⟩ := (Option.any_eq_true _ _).mp hany
        exact absurd ((hlast last hlast').trans hsend) (not_le.mpr (of_decide_eq_true hlt))
      have happend : j.append c send = some
          { contacts := j.contacts ++ [(c, send)], totalLatency := j.totalLatency + latency c
            arrivalTime := send + c.owltSecs } := by
        rw [Journey.append, if_neg hcausal, if_neg (not_not.mpr hpresence)]
      obtain ⟨next, hnext, hnextLast⟩ : ∃ next, j.append c send = some next ∧
          ∀ last ∈ next.contacts.getLast?, last.2 + last.1.owltSecs ≤ send + c.owltSecs :=
        ⟨_, happend, by simp⟩
      rw [happend] at hnext
      cases hnext
      obtain ⟨j', hj', hcontacts, harrival⟩ := ih hrest hnextLast
      refine ⟨j', ?_, ?_, fun _ => ?_⟩
      · rw [foldlM_cons, happend]
        exact hj'
      · rw [hcontacts, append_assoc]
        rfl
      · cases hops with
        | nil =>
            cases hj'
            rfl
        | cons hop' hops => exact harrival (cons_ne_nil _ _)

/-! ### What the search returns -/

/-- The label that goes over a contact at the first instant at which it can. -/
def passedOn (c : Contact) (label : Label) : Label :=
  toLex (max label.arrival c.tStart + c.owltSecs, label.hops + 1)

/-- The contact takes the label on. -/
structure PassesOn (plan : ContactPlan) (opts : RouteOptions) (source destination : NodeId)
    (c : Contact) (label : Label) : Prop where
  contact : c ∈ plan.contacts
  passable : Passable opts source destination c
  presence : edgePresence c (max label.arrival c.tStart)
  hops : label.hops < opts.maxHops
  deadline : ∀ t ∈ opts.maxArrival, (passedOn c label).arrival ≤ t

/-- The labelling in which each node but the source keeps the least of the labels that contacts
pass on to it. -/
structure KeepsLeast (plan : ContactPlan) (source destination : NodeId) (tNow : Timestamp)
    (opts : RouteOptions) (ℓ : NodeId → Option Label) : Prop where
  start : ℓ source = some (toLex (tNow, 0))
  passed : ∀ node label, ℓ node = some label → node ≠ source →
    ∃ c before, ℓ c.source = some before ∧ PassesOn plan opts source destination c before ∧
      node = c.destination ∧ label = passedOn c before
  least : ∀ c before, ℓ c.source = some before → PassesOn plan opts source destination c before →
    ∃ label, ℓ c.destination = some label ∧ label ≤ passedOn c before

theorem mem_relax_iff_passesOn {label : Label} :
    x ∈ plan.relax opts source destination node label ↔
      ∃ c, c.source = node ∧ PassesOn plan opts source destination c label ∧
        x = (c.destination, passedOn c label, (c, max label.arrival c.tStart)) := by
  rw [mem_relax]
  constructor
  · rintro ⟨hhops, c, hc, hsource, hrelaxed⟩
    obtain ⟨hpass, hpresence, hdeadline, rfl⟩ := relaxContact_eq_some.mp hrelaxed
    exact ⟨c, hsource, ⟨hc, hpass, hpresence, hhops, hdeadline⟩, rfl⟩
  · rintro ⟨c, hsource, hc, rfl⟩
    exact ⟨hc.hops, c, hc.contact, hsource,
      relaxContact_eq_some.mpr ⟨hc.passable, hc.presence, hc.deadline, rfl⟩⟩

/-- It is the labelling of the search. -/
theorem keepsLeast_iff :
    KeepsLeast plan source destination tNow opts ℓ ↔
      IsLabelling (plan.relax opts source destination) source (toLex (tNow, 0)) ℓ := by
  constructor
  · intro h
    refine ⟨h.start, fun n l hl hn => ?_, fun m k hk x hx => ?_⟩
    · obtain ⟨c, before, hbefore, hc, rfl, rfl⟩ := h.passed n l hl hn
      exact ⟨c.source, before, _, hbefore, mem_relax_iff_passesOn.mpr ⟨c, rfl, hc, rfl⟩⟩
    · obtain ⟨c, rfl, hc, rfl⟩ := mem_relax_iff_passesOn.mp hx
      exact h.least c k hk hc
  · intro h
    refine ⟨h.start, fun n l hl hn => ?_, fun c before hbefore hc => ?_⟩
    · obtain ⟨m, k, e, hk, hx⟩ := h.realized n l hl hn
      obtain ⟨c, rfl, hc, heq⟩ := mem_relax_iff_passesOn.mp hx
      obtain ⟨rfl, hlabel⟩ := Prod.mk.inj heq
      exact ⟨c, k, hk, hc, rfl, (Prod.mk.inj hlabel).1⟩
    · exact h.least c.source before hbefore _ (mem_relax_iff_passesOn.mpr ⟨c, rfl, hc, rfl⟩)

theorem exists_keepsLeast (plan : ContactPlan) (source destination : NodeId) (tNow : Timestamp)
    (opts : RouteOptions) : ∃ ℓ, KeepsLeast plan source destination tNow opts ℓ := by
  obtain ⟨ℓ, hℓ⟩ := exists_isLabelling (increasing_relax plan opts source destination)
    (bounded_relax plan opts source destination) (id : NodeId → NodeId) (toLex (tNow, 0))
  exact ⟨ℓ, keepsLeast_iff.mpr hℓ⟩

theorem turns_lt (plan : ContactPlan) :
    1 + ((plan.contacts.map Contact.source).toFinset \ ∅).card * plan.contacts.length <
      plan.contacts.length * plan.contacts.length + 2 := by
  have hcard : (plan.contacts.map Contact.source).toFinset.card ≤ plan.contacts.length := by
    simpa using toFinset_card_le (plan.contacts.map Contact.source)
  have hmul := Nat.mul_le_mul_right plan.contacts.length hcard
  rw [Finset.sdiff_empty]
  omega

theorem findEarliestArrivalWith_spec (plan : ContactPlan) {source destination : NodeId}
    (hne : source ≠ destination) (tNow : Timestamp) (opts : RouteOptions) :
    (∃ j, plan.findEarliestArrivalWith source destination tNow opts = some j ∧
        IsRoute plan source destination tNow opts j.contacts ∧
        j.arrivalTime = endTime tNow j.contacts ∧
        ∀ ℓ, KeepsLeast plan source destination tNow opts ℓ → Kept ℓ 0 j.contacts) ∨
      (plan.findEarliestArrivalWith source destination tNow opts = none ∧
        ∀ ℓ, KeepsLeast plan source destination tNow opts ℓ → ℓ destination = none) := by
  have hinc := increasing_relax plan opts source destination
  have hbounded := bounded_relax plan opts source destination
  have hrun := run_spec (id : NodeId → NodeId) (fun node => decide (node = destination)) hinc hbounded
    (settled_start _ source (toLex (tNow, 0))) (by simp) (turns_lt plan)
  unfold ContactPlan.findEarliestArrivalWith
  rw [if_neg hne]
  generalize Search.run (id : NodeId → NodeId) (plan.relax opts source destination)
    (fun node => decide (node = destination)) _ (Search.start source (toLex (tNow, 0))) = r at hrun
  obtain ⟨reached, s⟩ := r
  dsimp only at hrun ⊢
  rcases hrun with ⟨rfl, settled, heap, e, hreached⟩ | ⟨rfl, settled, hexhausted⟩
  · left
    obtain rfl : e.2 = destination := of_decide_eq_true hreached.stop
    obtain ⟨m, -, k, edge, -, -, hx⟩ :=
      hreached.invariant.traced e.2 e.1 hreached.label hne.symm
    obtain ⟨hmax, hdeadline⟩ := bounds_of_mem_relax hx
    obtain ⟨hops, hwalk, hleads, hkept⟩ :=
      walkBack_eq_some hreached.invariant hreached.label hmax []
    have hnonempty : hops ≠ [] := by
      rintro rfl
      exact hne hleads.endNode_eq
    obtain ⟨j, hj, hcontacts, harrival⟩ : ∃ j,
        hops.foldlM (fun journey hop => journey.append hop.1 hop.2) Journey.new = some j ∧
          j.contacts = Journey.new.contacts ++ hops ∧
          (hops ≠ [] → j.arrivalTime = endTime tNow hops) :=
      foldlM_append hleads.timeRespecting (by simp [Journey.new])
    rw [Journey.new, nil_append] at hcontacts
    refine ⟨j, ?_, ?_, ?_, ?_⟩
    · rw [if_neg (by simp), hwalk, append_nil]
      dsimp only
      rw [if_neg (by simp [hnonempty]), hj]
    · rw [hcontacts]
      exact hleads.isRoute hmax hdeadline
    · rw [hcontacts, harrival hnonempty]
    · intro ℓ hℓ
      rw [keepsLeast_iff] at hℓ
      rw [hcontacts]
      exact hkept ℓ (hreached.invariant.agrees ℓ hℓ) (hreached.label_eq hinc hℓ)
  · right
    have hstop : (fun node => decide (node = destination)) destination = true := decide_eq_true rfl
    rw [if_pos ⟨rfl, hexhausted.best_eq_none hstop⟩]
    exact ⟨rfl, fun ℓ hℓ => hexhausted.label_eq_none hinc hstop (keepsLeast_iff.mp hℓ)⟩

/-- For each route there is one that arrives no later and is overtaken at none of its nodes: each
keeps the label that it gets along that route. -/
def NotOvertaken (plan : ContactPlan) (source destination : NodeId) (tNow : Timestamp)
    (opts : RouteOptions) : Prop :=
  ∀ ℓ, KeepsLeast plan source destination tNow opts ℓ →
    ∀ hops, IsRoute plan source destination tNow opts hops →
      ∃ kept, IsRoute plan source destination tNow opts kept ∧ Kept ℓ 0 kept ∧
        endTime tNow kept ≤ endTime tNow hops

theorem IsRoute.ne_nil (hne : source ≠ destination)
    (h : IsRoute plan source destination tNow opts hops) : hops ≠ [] := by
  rintro rfl
  exact hne h.endNode_eq

/-- The search finds a route if there is one, and one of the earliest arrival, exactly if such a
route is not lost to another one that overtakes it on the way. -/
theorem findsEarliest_iff (plan : ContactPlan) {source destination : NodeId}
    (hne : source ≠ destination) (tNow : Timestamp) (opts : RouteOptions) :
    FindsEarliest plan source destination tNow opts ↔
      NotOvertaken plan source destination tNow opts := by
  rcases findEarliestArrivalWith_spec plan hne tNow opts with
    ⟨j, hj, hroute, harrival, hkept⟩ | ⟨hnone, hunlabelled⟩
  · constructor
    · rintro ⟨-, hfound⟩ ℓ hℓ hops hhops
      obtain ⟨-, -, hleast⟩ := hfound j hj
      exact ⟨j.contacts, hroute, hkept ℓ hℓ, harrival ▸ hleast hops hhops⟩
    · intro h
      refine ⟨⟨fun _ => ⟨j.contacts, hroute⟩, fun _ => by rw [hj]; rfl⟩, ?_⟩
      intro j' hj'
      rw [hj] at hj'
      cases hj'
      refine ⟨hroute, harrival, fun hops hhops => ?_⟩
      obtain ⟨ℓ, hℓ⟩ := exists_keepsLeast plan source destination tNow opts
      obtain ⟨kept, hkeptRoute, hkeptLabels, hle⟩ := h ℓ hℓ hops hhops
      -- both end with the label of the destination
      have hlabel := (hkept ℓ hℓ).label (hroute.ne_nil hne) source tNow
      have hlabel' := hkeptLabels.label (hkeptRoute.ne_nil hne) source tNow
      rw [hroute.endNode_eq] at hlabel
      rw [hkeptRoute.endNode_eq, hlabel] at hlabel'
      have hsame : endTime tNow j.contacts = endTime tNow kept :=
        congrArg Label.arrival (Option.some.inj hlabel')
      rw [harrival, hsame]
      exact hle
  · constructor
    · rintro ⟨hfound, -⟩ ℓ _ hops hhops
      have hsome := hfound.mpr ⟨hops, hhops⟩
      rw [hnone] at hsome
      cases hsome
    · intro h
      have hno : ∀ hops, ¬ IsRoute plan source destination tNow opts hops := by
        intro hops hhops
        obtain ⟨ℓ, hℓ⟩ := exists_keepsLeast plan source destination tNow opts
        obtain ⟨kept, hroute, hkept, -⟩ := h ℓ hℓ hops hhops
        have hlabel := hkept.label (hroute.ne_nil hne) source tNow
        rw [hroute.endNode_eq, hunlabelled ℓ hℓ] at hlabel
        cases hlabel
      refine ⟨⟨fun hsome => ?_, fun ⟨hops, hhops⟩ => absurd hhops (hno hops)⟩, fun j hj => ?_⟩
      · rw [hnone] at hsome
        cases hsome
      · rw [hnone] at hj
        cases hj

/-! ### Where the bound does not matter -/

theorem KeepsLeast.exists_kept (hℓ : KeepsLeast plan source destination tNow opts ℓ) {node : NodeId}
    {label : Label} (hlabel : ℓ node = some label) :
    ∃ hops, LeadsTo plan opts source destination tNow hops node label ∧ Kept ℓ 0 hops ∧
      label.hops ≤ opts.maxHops ∧ (node ≠ source → ∀ t ∈ opts.maxArrival, label.arrival ≤ t) := by
  induction hhops : label.hops using Nat.strong_induction_on generalizing node label with
  | _ n ih =>
      by_cases hnode : node = source
      · subst hnode
        rw [hℓ.start] at hlabel
        cases hlabel
        subst hhops
        exact ⟨[], leadsTo_source tNow, trivial, Nat.zero_le _, fun hne => absurd rfl hne⟩
      · obtain ⟨m, k, hop, hk, hx⟩ := (keepsLeast_iff.mp hℓ).realized node label hlabel hnode
        have hlt : k.hops < n := by
          rw [← hhops, (lt_of_mem_relax hx).2]
          exact Nat.lt_succ_self _
        obtain ⟨hmax, hdeadline⟩ := bounds_of_mem_relax hx
        obtain ⟨hops, hleads, hkept, -⟩ := ih k.hops hlt hk rfl
        exact ⟨hops ++ [hop], hleads.snoc hx, hleads.kept_snoc hx hkept hlabel, hhops ▸ hmax,
          fun _ => hdeadline⟩

theorem KeepsLeast.exists_route (hℓ : KeepsLeast plan source destination tNow opts ℓ)
    (hne : source ≠ destination) {label : Label} (hlabel : ℓ destination = some label) :
    ∃ hops, IsRoute plan source destination tNow opts hops ∧ Kept ℓ 0 hops ∧
      endTime tNow hops = label.arrival := by
  obtain ⟨hops, hleads, hkept, hmax, hdeadline⟩ := hℓ.exists_kept hlabel
  exact ⟨hops, hleads.isRoute hmax (hdeadline hne.symm), hkept, hleads.endTime_eq⟩

theorem KeepsLeast.le_of_hop (hℓ : KeepsLeast plan source destination tNow opts ℓ) {c : Contact}
    {send : Timestamp} {label : Label} (hlabel : ℓ c.source = some label)
    (hmax : label.hops < opts.maxHops) (harrival : label.arrival ≤ send) (hc : c ∈ plan.contacts)
    (hpass : Passable opts source destination c) (hpresence : edgePresence c send)
    (hdeadline : ∀ t ∈ opts.maxArrival, send + c.owltSecs ≤ t) :
    ∃ next, ℓ c.destination = some next ∧ next ≤ toLex (send + c.owltSecs, label.hops + 1) := by
  have hsend : max label.arrival c.tStart ≤ send := max_le harrival hpresence.1
  have hc' : PassesOn plan opts source destination c label := by
    refine ⟨hc, hpass, ⟨le_max_right _ _, hsend.trans hpresence.2⟩, hmax, fun t ht => ?_⟩
    exact (add_le_add_left hsend _).trans (hdeadline t ht)
  obtain ⟨next, hnext, hle⟩ := hℓ.least c label hlabel hc'
  refine ⟨next, hnext, hle.trans (Prod.Lex.toLex_le_toLex'.mpr ⟨?_, fun _ => Nat.le_refl _⟩)⟩
  exact add_le_add_left hsend _

theorem Kept.nodup {h : ℕ} (hkept : Kept ℓ h hops) :
    (hops.map fun hop => hop.1.destination).Nodup ∧ ∀ node ∈ hops.map fun hop => hop.1.destination,
      ∃ label, ℓ node = some label ∧ h < label.hops := by
  induction hops generalizing h with
  | nil => exact ⟨nodup_nil, by simp⟩
  | cons hop hops ih =>
      obtain ⟨c, send⟩ := hop
      obtain ⟨hlabel, hrest⟩ := hkept
      obtain ⟨hnodup, hlater⟩ := ih hrest
      refine ⟨nodup_cons.mpr ⟨fun hmem => ?_, hnodup⟩, fun node hnode => ?_⟩
      · obtain ⟨label, hlabel', hlt⟩ := hlater _ hmem
        rw [hlabel] at hlabel'
        cases hlabel'
        exact Nat.lt_irrefl _ hlt
      · rcases mem_cons.mp hnode with rfl | hnode
        · exact ⟨_, hlabel, Nat.lt_succ_self h⟩
        · obtain ⟨label, hlabel', hlt⟩ := hlater node hnode
          exact ⟨label, hlabel', Nat.lt_of_succ_lt hlt⟩

theorem TimeRespecting.mem_contacts
    (h : TimeRespecting plan opts source destination node t hops) :
    ∀ hop ∈ hops, hop.1 ∈ plan.contacts := by
  induction hops generalizing node t with
  | nil => simp
  | cons hop hops ih =>
      obtain ⟨c, send⟩ := hop
      obtain ⟨⟨hc, -, -⟩, -, hrest⟩ := h
      intro hop' hmem
      rcases mem_cons.mp hmem with rfl | hmem
      · exact hc
      · exact ih hrest hop' hmem

theorem KeepsLeast.hops_lt (hℓ : KeepsLeast plan source destination tNow opts ℓ)
    (hfew : (plan.contacts.map Contact.destination).toFinset.card < opts.maxHops) {node : NodeId}
    {label : Label} (hlabel : ℓ node = some label) : label.hops < opts.maxHops := by
  obtain ⟨hops, hleads, hkept, -⟩ := hℓ.exists_kept hlabel
  have hsubset : (hops.map fun hop => hop.1.destination).toFinset ⊆
      (plan.contacts.map Contact.destination).toFinset := by
    intro n hn
    obtain ⟨hop, hhop, rfl⟩ := mem_map.mp (mem_toFinset.mp hn)
    exact mem_toFinset.mpr
      (mem_map_of_mem (hleads.timeRespecting.mem_contacts hop hhop))
  have hcard := Finset.card_le_card hsubset
  rw [toFinset_card_of_nodup hkept.nodup.1, length_map, hleads.length_eq] at hcard
  exact hcard.trans_lt hfew

theorem KeepsLeast.arrival_le (hℓ : KeepsLeast plan source destination tNow opts ℓ)
    (hfew : (plan.contacts.map Contact.destination).toFinset.card < opts.maxHops) {label : Label}
    (htime : TimeRespecting plan opts source destination node t hops) (hlabel : ℓ node = some label)
    (hle : label.arrival ≤ t) (hdeadline : ∀ t' ∈ opts.maxArrival, endTime t hops ≤ t') :
    ∃ last, ℓ (endNode node hops) = some last ∧ last.arrival ≤ endTime t hops := by
  induction hops generalizing node t label with
  | nil => exact ⟨label, hlabel, hle⟩
  | cons hop hops ih =>
      obtain ⟨c, send⟩ := hop
      obtain ⟨⟨hc, rfl, hpass⟩, ⟨hsend, hpresence⟩, hrest⟩ := htime
      obtain ⟨next, hnext, hnextLe⟩ := hℓ.le_of_hop hlabel (hℓ.hops_lt hfew hlabel)
        (hle.trans hsend) hc hpass hpresence
        fun t' ht' => hrest.le_endTime.trans (hdeadline t' ht')
      exact ih hrest hnext (Prod.Lex.toLex_le_toLex'.mp hnextLe).1 hdeadline

theorem notOvertaken_of_few_nodes (tNow : Timestamp)
    (hfew : (plan.contacts.map Contact.destination).toFinset.card < opts.maxHops)
    (hne : source ≠ destination) : NotOvertaken plan source destination tNow opts := by
  intro ℓ hℓ hops hroute
  obtain ⟨last, hlast, hle⟩ := hℓ.arrival_le hfew hroute.timeRespecting hℓ.start (le_refl _)
    hroute.deadline
  rw [hroute.endNode_eq] at hlast
  obtain ⟨kept, hkeptRoute, hkept, harrival⟩ := hℓ.exists_route hne hlast
  exact ⟨kept, hkeptRoute, hkept, harrival ▸ hle⟩

/-- At each node on the way the hops arrive as early as any others within the bound. -/
def Foremost (plan : ContactPlan) (source destination : NodeId) (tNow : Timestamp)
    (opts : RouteOptions) (hops : List Hop) : Prop :=
  ∀ before after, hops = before ++ after → ∀ others,
    TimeRespecting plan opts source destination source tNow others →
    others.length ≤ opts.maxHops → endNode source others = endNode source before →
    endTime tNow before ≤ endTime tNow others

theorem IsRoute.hop {before after : List Hop} {c : Contact} {send : Timestamp}
    (h : IsRoute plan source destination tNow opts (before ++ (c, send) :: after)) :
    before.length < opts.maxHops ∧
      (c ∈ plan.contacts ∧ c.source = endNode source before ∧ Passable opts source destination c) ∧
      (endTime tNow before ≤ send ∧ edgePresence c send) ∧
      ∀ t ∈ opts.maxArrival, send + c.owltSecs ≤ t := by
  have hlength := h.length_le
  rw [length_append, length_cons] at hlength
  obtain ⟨-, hcontact, htimes, hrest⟩ := (timeRespecting_append _).mp h.timeRespecting
  refine ⟨by omega, hcontact, htimes, fun t ht => ?_⟩
  have hdeadline := h.deadline t ht
  rw [endTime_append] at hdeadline
  exact hrest.le_endTime.trans hdeadline

theorem KeepsLeast.label_le (hℓ : KeepsLeast plan source destination tNow opts ℓ)
    (hroute : IsRoute plan source destination tNow opts hops)
    (hfirst : Foremost plan source destination tNow opts hops) (before after : List Hop)
    (heq : hops = before ++ after) :
    ∃ label, ℓ (endNode source before) = some label ∧
      label ≤ toLex (endTime tNow before, before.length) := by
  induction before using reverseRecOn generalizing after with
  | nil => exact ⟨_, hℓ.start, le_refl _⟩
  | append_singleton before hop ih =>
      obtain ⟨c, send⟩ := hop
      rw [append_assoc, singleton_append] at heq
      obtain ⟨label, hlabel, hlabelLe⟩ := ih _ heq
      obtain ⟨harrival, htie⟩ := Prod.Lex.toLex_le_toLex'.mp hlabelLe
      -- the label is that of a path to the node, so it is as late as the route
      obtain ⟨others, hleads, -, hmax, -⟩ := hℓ.exists_kept hlabel
      have hothers := hfirst before _ heq others hleads.timeRespecting
        (hleads.length_eq.trans_le hmax) hleads.endNode_eq
      rw [hleads.endTime_eq] at hothers
      have hhops : label.hops ≤ before.length := htie (le_antisymm harrival hothers)
      rw [heq] at hroute
      obtain ⟨hlength, ⟨hc, hsource, hpass⟩, ⟨hsend, hpresence⟩, hdeadline⟩ := hroute.hop
      rw [← hsource] at hlabel
      obtain ⟨next, hnext, hnextLe⟩ := hℓ.le_of_hop hlabel (hhops.trans_lt hlength)
        (harrival.trans hsend) hc hpass hpresence hdeadline
      rw [endNode_append, endTime_append, length_append]
      refine ⟨next, hnext, hnextLe.trans (Prod.Lex.toLex_le_toLex'.mpr ⟨le_refl _, fun _ => ?_⟩)⟩
      exact Nat.succ_le_succ hhops

/-- Where each route has one that is foremost at its nodes and arrives no later, no route is lost. -/
theorem notOvertaken_of_foremost (hne : source ≠ destination)
    (hforemost : ∀ hops, IsRoute plan source destination tNow opts hops →
      ∃ hops', IsRoute plan source destination tNow opts hops' ∧
        Foremost plan source destination tNow opts hops' ∧ endTime tNow hops' ≤ endTime tNow hops) :
    NotOvertaken plan source destination tNow opts := by
  intro ℓ hℓ hops hroute
  obtain ⟨route, hroute', hfirst, hle⟩ := hforemost hops hroute
  obtain ⟨label, hlabel, hlabelLe⟩ := hℓ.label_le hroute' hfirst route [] (append_nil route).symm
  rw [hroute'.endNode_eq] at hlabel
  obtain ⟨kept, hkeptRoute, hkept, harrival⟩ := hℓ.exists_route hne hlabel
  refine ⟨kept, hkeptRoute, hkept, ?_⟩
  rw [harrival]
  exact (Prod.Lex.toLex_le_toLex'.mp hlabelLe).1.trans hle

end

/-! ### Two plans -/

section Example

/-- A contact that is open from 0 to 10, with a light time of `owlt`. -/
def steadyContact (source destination : NodeId) (owlt : ℚ) : Contact :=
  (Contact.new source destination 0 10 0).withMeasuredOwlt owlt

/-- From "s" to "v" there is a slow contact, and a faster way over "u". -/
def shortcutPlan : ContactPlan :=
  (((ContactPlan.empty.addContact (steadyContact "s" "u" 1)).addContact
    (steadyContact "u" "v" 1)).addContact (steadyContact "s" "v" 3)).addContact
      (steadyContact "v" "d" 1)

/-- Within two hops, "d" is reached over the slow contact only; but "v" keeps the faster label, which
has no hop left. -/
theorem shortcutPlan_not_found :
    ¬ FindsEarliest shortcutPlan "s" "d" 0 { RouteOptions.default with maxHops := 2 } := by
  rintro ⟨hfound, -⟩
  have hnone : shortcutPlan.findEarliestArrivalWith "s" "d" 0
      { RouteOptions.default with maxHops := 2 } = none := by
    decide +kernel
  have hroute : IsRoute shortcutPlan "s" "d" 0 { RouteOptions.default with maxHops := 2 }
      [(steadyContact "s" "v" 3, 0), (steadyContact "v" "d" 1, 3)] :=
    { timeRespecting :=
        ⟨⟨by decide +kernel, rfl, by decide, by decide, by decide, by decide +kernel⟩,
          by decide +kernel,
          ⟨by decide +kernel, rfl, by decide, by decide, by decide, by decide +kernel⟩,
          by decide +kernel, trivial⟩
      length_le := by decide
      endNode_eq := rfl
      deadline := by
        intro t ht
        cases ht }
  rw [hnone] at hfound
  exact absurd (hfound.mpr ⟨_, hroute⟩) Bool.false_ne_true

/-- With the default bound the search finds the earliest way to every node of that plan. -/
theorem shortcutPlan_found : FindsEarliest shortcutPlan "s" "d" 0 .default :=
  (findsEarliest_iff shortcutPlan (by decide) 0 .default).mpr
    (notOvertaken_of_few_nodes 0 (by decide +kernel) (by decide))

end Example

end Vantablack.Routing
