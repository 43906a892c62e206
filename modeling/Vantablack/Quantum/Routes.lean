import Mathlib.Data.List.Flatten
import Vantablack.Lib.SimplePaths
import Vantablack.Quantum.SwapOrder
import Vantablack.Quantum.Topology

/-!
The search for routes of `topology/routing.py`: a depth-first enumeration of simple paths with a
stack, within a number of hops, of paths and of visits, and the ranking of the paths by their
end-to-end fidelity.
-/

namespace Vantablack.Quantum

open Lib QuantumTopology List

variable {ν : Type} [LinearOrder ν]

/-- The state of the search, with the top of the stack first. `expansions` counts the neighbours
that were looked at, where `visits` counts the one, too, at which the search gives up. -/
structure Search (ν : Type) where
  stack : List (ν × List ν)
  paths : List (List ν)
  visits : ℕ
  expansions : ℕ

structure SearchLimits where
  maxHops : ℕ
  maxPaths : ℕ
  maxVisits : ℕ

namespace Search

def start (src : ν) : Search ν := ⟨[(src, [src])], [], 0, 0⟩

/-- A turn of the inner loop: a neighbour of the end of the trail. -/
def look (dst : ν) (limits : SearchLimits) (trail : List ν) (nb : ν) (s : Search ν) : Search ν :=
  let s := { s with visits := s.visits + 1, expansions := s.expansions + 1 }
  if nb ∈ trail then s
  else
    let newTrail := trail ++ [nb]
    if nb = dst then { s with paths := s.paths ++ [newTrail] }
    else if newTrail.length - 1 < limits.maxHops then
      { s with stack := (nb, newTrail) :: s.stack }
    else s

/-- The inner loop, over the neighbours that are left, with whether the function returns from it. -/
def visit (dst : ν) (limits : SearchLimits) (trail : List ν) :
    List ν → Search ν → Search ν × Bool
  | [], s => (s, false)
  | nb :: nbs, s =>
      if limits.maxVisits < s.visits + 1 then ({ s with visits := s.visits + 1 }, true)
      else visit dst limits trail nbs (look dst limits trail nb s)

/-- The outer loop, up to `fuel` times. -/
def loop (topo : QuantumTopology ν) (dst : ν) (limits : SearchLimits) : ℕ → Search ν → Search ν
  | 0, s => s
  | fuel + 1, s =>
      match s.stack with
      | [] => s
      | (node, trail) :: stack =>
          if s.paths.length < limits.maxPaths ∧ s.visits < limits.maxVisits then
            let (s, returned) :=
              visit dst limits trail (topo.neighbors node) { s with stack := stack }
            if returned then s else loop topo dst limits fuel s
          else s

end Search

/-- The search of `all_simple_paths`, at its end. Every turn of the loop takes an item off the
stack, and every item but the first was put there at a visit. -/
def simplePathSearch (topo : QuantumTopology ν) (src dst : ν) (limits : SearchLimits) : Search ν :=
  Search.loop topo dst limits (limits.maxVisits + 1) (.start src)

def allSimplePaths (topo : QuantumTopology ν) (src dst : ν) (limits : SearchLimits) :
    List (List ν) :=
  (simplePathSearch topo src dst limits).paths

structure Route (ν : Type) where
  path : List ν
  linkFidelities : List ℚ
  e2eFidelity : ℚ
  swapOrder : List (ℤ × ℤ)

def linkFidelities (topo : QuantumTopology ν) (path : List ν) : Option (List ℚ) :=
  (path.zip path.tail).mapM fun hop => (topo.link hop.1 hop.2).map QuantumLink.fidelity

/-- The tolerance of `rank_routes`. -/
def tolerance : ℚ := 1 / 10 ^ 12

/-- The loop of `rank_routes`. -/
def routesOf (topo : QuantumTopology ν) (minFidelity : ℚ) :
    List (List ν) → Except SwapError (List (Route ν))
  | [] => .ok []
  | path :: paths =>
      match linkFidelities topo path with
      | none => routesOf topo minFidelity paths
      | some fids => do
          let (order, final) ← optimalSwapOrder fids bruteForceLimit
          let routes ← routesOf topo minFidelity paths
          if minFidelity - tolerance ≤ final then
            .ok ({ path := path, linkFidelities := fids, e2eFidelity := final
                   swapOrder := order } :: routes)
          else .ok routes

def defaultMaxVisits : ℕ := 200000

def rankRoutes (topo : QuantumTopology ν) (src dst : ν) (maxHops maxPaths : ℕ) (minFidelity : ℚ) :
    Except SwapError (List (Route ν)) := do
  let paths := allSimplePaths topo src dst ⟨maxHops, maxPaths, defaultMaxVisits⟩
  let routes ← routesOf topo minFidelity paths
  .ok (routes.mergeSort fun r r' => r'.e2eFidelity ≤ r.e2eFidelity)

def bestRoute (topo : QuantumTopology ν) (src dst : ν) (maxHops maxPaths : ℕ) (minFidelity : ℚ) :
    Except SwapError (Option (Route ν)) := do
  let routes ← rankRoutes topo src dst maxHops maxPaths minFidelity
  .ok routes.head?

/-! ### What the search has left to do -/

namespace Search

variable {topo : QuantumTopology ν} {src dst : ν} {limits : SearchLimits} {s s' : Search ν}

/-- The hops of a search. Without any, it goes on as with one. -/
def hops (limits : SearchLimits) : ℕ := max limits.maxHops 1

/-- The paths that are found from an item of the stack. -/
def pathsFrom (topo : QuantumTopology ν) (dst : ν) (limits : SearchLimits)
    (item : ν × List ν) : List (List ν) :=
  extensions topo.neighbors dst (hops limits - (item.2.length - 1)) item.1 item.2

/-- All paths that were found or will be found from the stack. -/
def total (topo : QuantumTopology ν) (dst : ν) (limits : SearchLimits) (s : Search ν) :
    List (List ν) :=
  s.paths ++ s.stack.flatMap (pathsFrom topo dst limits)

/-- The items on the stack are short enough to be extended. -/
def Short (limits : SearchLimits) (s : Search ν) : Prop :=
  ∀ item ∈ s.stack, 0 < item.2.length ∧ item.2.length - 1 < hops limits

/-- The paths that a neighbour leads to. -/
def pathsThrough (topo : QuantumTopology ν) (dst : ν) (hops : ℕ) (trail : List ν) (nb : ν) :
    List (List ν) :=
  if nb ∈ trail then [] else if nb = dst then [trail ++ [nb]]
  else extensions topo.neighbors dst hops nb (trail ++ [nb])

/-- What looking at neighbours of the end of a trail does. -/
structure Looked (topo : QuantumTopology ν) (dst : ν) (limits : SearchLimits) (trail nbs : List ν)
    (s s' : Search ν) : Prop where
  total : (total topo dst limits s').Perm (total topo dst limits s ++
    nbs.flatMap (pathsThrough topo dst (hops limits - trail.length) trail))
  short : Short limits s → Short limits s'
  visits : s'.visits = s.visits + nbs.length
  expansions : s'.expansions = s.expansions + nbs.length
  stack : s'.stack.length ≤ s.stack.length + nbs.length

theorem Looked.nil (trail : List ν) (s : Search ν) : Looked topo dst limits trail [] s s :=
  ⟨by rw [flatMap_nil, append_nil], id, rfl, rfl, le_rfl⟩

theorem Looked.cons {trail nbs : List ν} {nb : ν} {t : Search ν}
    (h : Looked topo dst limits trail [nb] s t) (h' : Looked topo dst limits trail nbs t s') :
    Looked topo dst limits trail (nb :: nbs) s s' where
  total := by
    refine h'.total.trans ((h.total.append_right _).trans ?_)
    rw [append_assoc, ← flatMap_append, singleton_append]
  short hs := h'.short (h.short hs)
  visits := by
    rw [h'.visits, h.visits, length_singleton, length_cons]
    omega
  expansions := by
    rw [h'.expansions, h.expansions, length_singleton, length_cons]
    omega
  stack := by
    have hstack := h.stack
    have hstack' := h'.stack
    rw [length_singleton] at hstack
    rw [length_cons]
    omega

theorem looked_look {trail : List ν} (htrail : 0 < trail.length) (nb : ν) (s : Search ν) :
    Looked topo dst limits trail [nb] s (look dst limits trail nb s) := by
  have hlen : (trail ++ [nb]).length - 1 = trail.length := by
    rw [length_append, length_singleton, Nat.add_sub_cancel]
  rw [look]
  dsimp only
  split
  · rename_i hold
    refine ⟨?_, id, rfl, rfl, Nat.le_succ _⟩
    rw [flatMap_singleton, pathsThrough, if_pos hold, append_nil]
    exact .refl _
  · rename_i hnew
    split
    · rename_i hdst
      refine ⟨?_, id, rfl, rfl, Nat.le_succ _⟩
      rw [flatMap_singleton, pathsThrough, if_neg hnew, if_pos hdst]
      show (s.paths ++ [trail ++ [nb]] ++ _).Perm _
      rw [total, append_assoc, append_assoc]
      exact perm_append_comm.append_left s.paths
    · rename_i hdst
      split
      · rename_i hroom
        refine ⟨?_, fun hs item hitem => ?_, rfl, rfl, le_rfl⟩
        · rw [flatMap_singleton, pathsThrough, if_neg hnew, if_neg hdst]
          show (s.paths ++ (pathsFrom topo dst limits (nb, trail ++ [nb]) ++ _)).Perm _
          rw [total, pathsFrom, append_assoc, hlen]
          exact perm_append_comm.append_left s.paths
        · rcases mem_cons.mp hitem with rfl | hold
          · refine ⟨?_, hroom.trans_le (le_max_left _ _)⟩
            rw [length_append, length_singleton]
            omega
          · exact hs item hold
      · rename_i hroom
        refine ⟨?_, id, rfl, rfl, Nat.le_succ _⟩
        have hzero : hops limits - trail.length = 0 := by
          rw [hops]
          omega
        rw [flatMap_singleton, pathsThrough, if_neg hnew, if_neg hdst, hzero, extensions,
          append_nil]
        exact .refl _

theorem looked_of_visit {trail : List ν} (htrail : 0 < trail.length) (nbs : List ν)
    (hs : s.visits ≤ limits.maxVisits) :
    ∃ front t, front <+: nbs ∧ Looked topo dst limits trail front s t ∧
      t.visits ≤ limits.maxVisits ∧
      (front = nbs ∧ visit dst limits trail nbs s = (t, false) ∨
        t.visits = limits.maxVisits ∧
          visit dst limits trail nbs s = ({ t with visits := t.visits + 1 }, true)) := by
  induction nbs generalizing s with
  | nil => exact ⟨[], s, prefix_rfl, .nil trail s, hs, Or.inl ⟨rfl, rfl⟩⟩
  | cons nb nbs ih =>
      rw [visit]
      split
      · rename_i hbudget
        exact ⟨[], s, nil_prefix, .nil trail s, hs, Or.inr ⟨by omega, rfl⟩⟩
      · have hfirst : Looked topo dst limits trail [nb] s (look dst limits trail nb s) :=
          looked_look htrail nb s
        have hvisits := hfirst.visits
        rw [length_singleton] at hvisits
        obtain ⟨front, t, hfront, hlooked, ht, hend⟩ :=
          ih (s := look dst limits trail nb s) (by omega)
        refine ⟨nb :: front, t, cons_prefix_cons.mpr ⟨rfl, hfront⟩, hfirst.cons hlooked, ht,
          ?_⟩
        exact hend.imp_left fun ⟨heq, hvisit⟩ => ⟨congrArg (nb :: ·) heq, hvisit⟩

/-! ### The whole search -/

/-- What holds whenever the outer loop begins a turn. -/
structure Progress (topo : QuantumTopology ν) (src dst : ν) (limits : SearchLimits)
    (s : Search ν) : Prop where
  total : (total topo dst limits s).Perm (extensions topo.neighbors dst (hops limits) src [src])
  short : Short limits s
  visits : s.visits ≤ limits.maxVisits
  expansions : s.expansions = s.visits

/-- What holds at the end. -/
structure Ended (topo : QuantumTopology ν) (src dst : ν) (limits : SearchLimits)
    (s : Search ν) : Prop where
  stopped : s.stack = [] ∨ limits.maxPaths ≤ s.paths.length ∨ limits.maxVisits ≤ s.visits
  sound : s.paths.Subperm (extensions topo.neighbors dst (hops limits) src [src])
  complete : s.paths.length < limits.maxPaths → s.visits < limits.maxVisits →
    s.paths.Perm (extensions topo.neighbors dst (hops limits) src [src])
  expansions : s.expansions ≤ limits.maxVisits

theorem progress_start (topo : QuantumTopology ν) (src dst : ν) (limits : SearchLimits) :
    Progress topo src dst limits (.start src) where
  total := by
    rw [total, start, nil_append, flatMap_singleton, pathsFrom]
    exact .refl _
  short item hitem := by
    rw [mem_singleton.mp hitem, hops]
    exact ⟨Nat.zero_lt_one, by dsimp only [length_singleton]; omega⟩
  visits := Nat.zero_le _
  expansions := rfl

theorem Progress.paths_subperm (h : Progress topo src dst limits s) :
    s.paths.Subperm (extensions topo.neighbors dst (hops limits) src [src]) :=
  (sublist_append_left _ _).subperm.trans h.total.subperm

theorem Progress.ended (h : Progress topo src dst limits s)
    (hstop : s.stack = [] ∨ limits.maxPaths ≤ s.paths.length ∨ limits.maxVisits ≤ s.visits) :
    Ended topo src dst limits s where
  stopped := hstop
  sound := h.paths_subperm
  complete hpaths hvisits := by
    have hempty : s.stack = [] := hstop.resolve_right fun h => by omega
    have htotal := h.total
    rwa [Search.total, hempty, flatMap_nil, append_nil] at htotal
  expansions := h.expansions.le.trans h.visits

/-- The turns that are left are no more than the items on the stack and the visits that are left. -/
def turnsLeft (limits : SearchLimits) (s : Search ν) : ℕ :=
  s.stack.length + (limits.maxVisits - s.visits)

theorem Progress.turn (h : Progress topo src dst limits s) :
    (∃ t, Ended topo src dst limits t ∧ ∀ fuel, loop topo dst limits (fuel + 1) s = t) ∨
      ∃ t, Progress topo src dst limits t ∧ turnsLeft limits t < turnsLeft limits s ∧
        ∀ fuel, loop topo dst limits (fuel + 1) s = loop topo dst limits fuel t := by
  cases hstack : s.stack with
  | nil => exact Or.inl ⟨s, h.ended (Or.inl hstack), fun fuel => by rw [loop, hstack]⟩
  | cons item stack =>
      obtain ⟨node, trail⟩ := item
      by_cases hguard : s.paths.length < limits.maxPaths ∧ s.visits < limits.maxVisits
      · obtain ⟨htrail, hshort⟩ := h.short (node, trail) (hstack ▸ mem_cons_self)
        dsimp only at htrail hshort
        obtain ⟨front, t, hfront, hlooked, ht, hend⟩ :=
          @looked_of_visit ν _ topo dst limits { s with stack := stack } trail htrail
            (topo.neighbors node) h.visits
        -- what was to be found from the item is found from its neighbours
        have hitem : pathsFrom topo dst limits (node, trail) = (topo.neighbors node).flatMap
            (pathsThrough topo dst (hops limits - trail.length) trail) := by
          rw [pathsFrom, show hops limits - ((node, trail).2.length - 1) =
            (hops limits - trail.length) + 1 by dsimp only; omega]
          rfl
        have hpopped : (Search.total topo dst limits s).Perm
            (Search.total topo dst limits { s with stack := stack } ++
              pathsFrom topo dst limits (node, trail)) := by
          rw [Search.total, Search.total, hstack, flatMap_cons, append_assoc]
          exact perm_append_comm.append_left s.paths
        have hrest : Short limits { s with stack := stack } := fun item hitem =>
          h.short item (hstack ▸ mem_cons_of_mem _ hitem)
        rcases hend with ⟨rfl, hvisit⟩ | ⟨hfull, hvisit⟩
        · refine Or.inr ⟨t, ⟨?_, hlooked.short hrest, ht, ?_⟩, ?_, fun fuel => ?_⟩
          · exact hlooked.total.trans (hitem ▸ (hpopped.symm.trans h.total))
          · rw [hlooked.expansions, hlooked.visits, h.expansions]
          · have hvisits := hlooked.visits
            have hlen := hlooked.stack
            dsimp only at hvisits hlen
            rw [turnsLeft, turnsLeft, hstack, length_cons]
            omega
          · rw [loop, hstack]
            dsimp only
            rw [if_pos hguard, hvisit]
            rfl
        · refine Or.inl ⟨{ t with visits := t.visits + 1 }, ⟨?_, ?_, ?_, ?_⟩, fun fuel => ?_⟩
          · exact Or.inr (Or.inr (by dsimp only; omega))
          · have hfound := (sublist_append_left t.paths
              (t.stack.flatMap (pathsFrom topo dst limits))).subperm
            refine (hfound.trans hlooked.total.subperm).trans ?_
            refine Subperm.trans ?_ (hpopped.symm.trans h.total).subperm
            rw [hitem]
            exact (Sublist.append_left (hfront.sublist.flatMap _) _).subperm
          · exact fun _ hvisits => absurd hvisits (by dsimp only; omega)
          · rw [hlooked.expansions, ← hfull, hlooked.visits, h.expansions]
          · rw [loop, hstack]
            dsimp only
            rw [if_pos hguard, hvisit]
            rfl
      · refine Or.inl ⟨s, h.ended (Or.inr ?_), fun fuel => ?_⟩
        · rw [not_and_or, not_lt, not_lt] at hguard
          exact hguard
        · rw [loop, hstack]
          dsimp only
          rw [if_neg hguard]

theorem Progress.loop (h : Progress topo src dst limits s) {fuel : ℕ}
    (hfuel : turnsLeft limits s ≤ fuel) :
    Ended topo src dst limits (loop topo dst limits fuel s) ∧
      ∀ fuel', fuel ≤ fuel' → loop topo dst limits fuel' s = loop topo dst limits fuel s := by
  induction fuel generalizing s with
  | zero =>
      have hempty : s.stack = [] := by
        apply eq_nil_of_length_eq_zero
        rw [turnsLeft] at hfuel
        omega
      refine ⟨h.ended (Or.inl hempty), fun fuel' _ => ?_⟩
      cases fuel' with
      | zero => rfl
      | succ fuel' => rw [Search.loop, Search.loop, hempty]
  | succ fuel ih =>
      rcases h.turn with ⟨t, hended, hloop⟩ | ⟨t, ht, hless, hloop⟩
      · rw [hloop]
        refine ⟨hended, fun fuel' hle => ?_⟩
        obtain ⟨k, rfl⟩ := Nat.exists_eq_add_of_le' hle
        rw [← Nat.add_assoc, hloop]
      · obtain ⟨hended, hsame⟩ := ih ht (by omega)
        rw [hloop]
        refine ⟨hended, fun fuel' hle => ?_⟩
        obtain ⟨k, rfl⟩ := Nat.exists_eq_add_of_le' hle
        rw [← Nat.add_assoc, hloop]
        exact hsame _ (by omega)

end Search

section Routes

open Search

variable {topo : QuantumTopology ν} {src dst : ν}

/-- A path from `src` to `dst` with no node twice, each hop of which is a link of the network. -/
structure IsRoute (topo : QuantumTopology ν) (src dst : ν) (path : List ν) : Prop where
  chain : path.IsChain fun a b => linkKey a b ∈ topo.links.map Prod.fst
  nodup : path.Nodup
  head : path.head? = some src
  last : path.getLast? = some dst

variable {path : List ν}

theorem simplePath_iff_isRoute :
    SimplePath topo.neighbors src dst path ↔ IsRoute topo src dst path := by
  constructor
  · rintro ⟨hchain, hnodup, hhead, hlast⟩
    exact ⟨hchain.imp fun a b h => mem_neighbors_iff.mp h, hnodup, hhead, hlast⟩
  · rintro ⟨hchain, hnodup, hhead, hlast⟩
    exact ⟨hchain.imp fun a b h => mem_neighbors_iff.mpr h, hnodup, hhead, hlast⟩

theorem simplePathSearch_ended (topo : QuantumTopology ν) (src dst : ν) (limits : SearchLimits) :
    Ended topo src dst limits (simplePathSearch topo src dst limits) ∧
      ∀ fuel, limits.maxVisits + 1 ≤ fuel →
        Search.loop topo dst limits fuel (.start src) = simplePathSearch topo src dst limits := by
  refine (progress_start topo src dst limits).loop ?_
  rw [turnsLeft, start, length_singleton]
  omega

theorem mem_extensions_iff_isRoute (hne : src ≠ dst) {hops : ℕ} :
    path ∈ extensions topo.neighbors dst hops src [src] ↔
      IsRoute topo src dst path ∧ path.length ≤ hops + 1 := by
  rw [mem_extensions_singleton_iff hne, simplePath_iff_isRoute]

theorem allSimplePaths_sound (hne : src ≠ dst) (limits : SearchLimits) :
    (allSimplePaths topo src dst limits).Nodup ∧
      ∀ path ∈ allSimplePaths topo src dst limits,
        IsRoute topo src dst path ∧ path.length ≤ max limits.maxHops 1 + 1 := by
  have hsound := (simplePathSearch_ended topo src dst limits).1.sound
  refine ⟨?_, fun path hpath => (mem_extensions_iff_isRoute hne).mp (hsound.subset hpath)⟩
  obtain ⟨l, hperm, hsub⟩ := hsound
  exact hperm.nodup_iff.mp (hsub.nodup (nodup_extensions topo.nodup_neighbors dst _ src [src]))

theorem mem_allSimplePaths_iff (hne : src ≠ dst) {limits : SearchLimits}
    (hhops : 1 ≤ limits.maxHops)
    (hpaths : (simplePathSearch topo src dst limits).paths.length < limits.maxPaths)
    (hvisits : (simplePathSearch topo src dst limits).visits < limits.maxVisits) :
    path ∈ allSimplePaths topo src dst limits ↔
      IsRoute topo src dst path ∧ path.length ≤ limits.maxHops + 1 := by
  have hall := (simplePathSearch_ended topo src dst limits).1.complete hpaths hvisits
  rw [allSimplePaths, hall.mem_iff, mem_extensions_iff_isRoute hne, hops, max_eq_left hhops]

/-! ### Ranking -/

theorem linkFidelities_of_isChain (hne : path ≠ [])
    (h : path.IsChain fun a b => linkKey a b ∈ topo.links.map Prod.fst) :
    ∃ fids, linkFidelities topo path = some fids ∧ fids.length + 1 = path.length := by
  induction path with
  | nil => exact absurd rfl hne
  | cons a path ih =>
      cases path with
      | nil => exact ⟨[], rfl, rfl⟩
      | cons b path =>
          obtain ⟨hnext, hchain⟩ := isChain_cons_cons.mp h
          obtain ⟨fids, hfids, hlen⟩ := ih (cons_ne_nil b path) hchain
          obtain ⟨link, hlink⟩ := Option.isSome_iff_exists.mp
            (link_isSome_iff.mpr (mem_neighbors_iff.mpr hnext))
          refine ⟨link.fidelity :: fids, ?_, congrArg (· + 1) hlen⟩
          rw [linkFidelities, tail_cons] at hfids ⊢
          rw [zip_cons_cons, mapM_cons, hlink, hfids]
          rfl

theorem linkFidelities_of_isRoute (h : IsRoute topo src dst path) :
    ∃ fids, linkFidelities topo path = some fids ∧ fids.length + 1 = path.length := by
  refine linkFidelities_of_isChain ?_ h.chain
  rintro rfl
  cases h.head

/-- The end-to-end fidelity of a path. It does not depend on the order of the swaps. -/
def pathFidelity (topo : QuantumTopology ν) (path : List ν) : ℚ :=
  chainFidelity ((linkFidelities topo path).getD [])

/-- What a route says about its path. -/
structure Route.Valid (topo : QuantumTopology ν) (r : Route ν) : Prop where
  linkFidelities : Quantum.linkFidelities topo r.path = some r.linkFidelities
  e2eFidelity : r.e2eFidelity = pathFidelity topo r.path
  swapOrder : Quantum.e2eFidelity r.linkFidelities (some r.swapOrder) = .ok r.e2eFidelity

theorem routesOf_eq (minFidelity : ℚ) {paths : List (List ν)}
    (h : ∀ path ∈ paths, IsRoute topo src dst path ∧ path.length ≤ 9) :
    ∃ routes, routesOf topo minFidelity paths = .ok routes ∧
      routes.map Route.path =
        paths.filter (fun path => minFidelity - tolerance ≤ pathFidelity topo path) ∧
      ∀ r ∈ routes, r.Valid topo := by
  induction paths with
  | nil => exact ⟨[], rfl, rfl, fun r hr => absurd hr not_mem_nil⟩
  | cons path paths ih =>
      obtain ⟨hroute, hlen⟩ := h path mem_cons_self
      obtain ⟨routes, hroutes, hfilter, hvalid⟩ := ih fun q hq => h q (mem_cons_of_mem _ hq)
      obtain ⟨fids, hfids, hcount⟩ := linkFidelities_of_isRoute hroute
      have hshort : (fids.length : ℤ) ≤ bruteForceLimit := by
        rw [bruteForceLimit]
        omega
      obtain ⟨order, horder, hswap⟩ := swapsOptimally_of_length_le hshort
      have hfidelity : pathFidelity topo path = chainFidelity fids := by
        rw [pathFidelity, hfids, Option.getD_some]
      rw [routesOf, hfids]
      dsimp only
      rw [horder, hroutes]
      by_cases hreaches : minFidelity - tolerance ≤ chainFidelity fids
      · refine ⟨{ path := path, linkFidelities := fids, e2eFidelity := chainFidelity fids
                  swapOrder := order } :: routes, if_pos hreaches, ?_, fun r hr => ?_⟩
        · rw [map_cons, hfilter, filter_cons_of_pos]
          rw [hfidelity]
          exact decide_eq_true hreaches
        · rcases mem_cons.mp hr with rfl | hr
          · exact ⟨hfids, hfidelity.symm, hswap⟩
          · exact hvalid r hr
      · refine ⟨routes, if_neg hreaches, ?_, hvalid⟩
        rw [hfilter, filter_cons_of_neg]
        rw [hfidelity, decide_eq_true_eq]
        exact hreaches

/-- The paths that are asked for. -/
structure Wanted (topo : QuantumTopology ν) (src dst : ν) (maxHops : ℕ) (minFidelity : ℚ)
    (path : List ν) : Prop where
  isRoute : IsRoute topo src dst path
  length_le : path.length ≤ maxHops + 1
  fidelity : minFidelity - tolerance ≤ pathFidelity topo path

theorem rankRoutes_eq (hne : src ≠ dst) {maxHops maxPaths : ℕ} (minFidelity : ℚ)
    (hhops : 1 ≤ maxHops) (hmax : maxHops ≤ 8)
    (hpaths : (simplePathSearch topo src dst ⟨maxHops, maxPaths, defaultMaxVisits⟩).paths.length <
      maxPaths)
    (hvisits : (simplePathSearch topo src dst ⟨maxHops, maxPaths, defaultMaxVisits⟩).visits <
      defaultMaxVisits) :
    ∃ routes, rankRoutes topo src dst maxHops maxPaths minFidelity = .ok routes ∧
      (∀ path, path ∈ routes.map Route.path ↔ Wanted topo src dst maxHops minFidelity path) ∧
      (routes.map Route.path).Nodup ∧ (∀ r ∈ routes, r.Valid topo) ∧
      routes.Pairwise fun r r' => r'.e2eFidelity ≤ r.e2eFidelity := by
  have hmem : ∀ path, path ∈ allSimplePaths topo src dst ⟨maxHops, maxPaths, defaultMaxVisits⟩ ↔
      IsRoute topo src dst path ∧ path.length ≤ maxHops + 1 := fun path =>
    mem_allSimplePaths_iff hne hhops hpaths hvisits
  have hnodup : (allSimplePaths topo src dst ⟨maxHops, maxPaths, defaultMaxVisits⟩).Nodup :=
    (allSimplePaths_sound hne _).1
  obtain ⟨found, hfound, hfilter, hvalid⟩ := @routesOf_eq ν _ topo src dst minFidelity
    (allSimplePaths topo src dst ⟨maxHops, maxPaths, defaultMaxVisits⟩) fun path hpath => by
      obtain ⟨hroute, hlen⟩ := (hmem path).mp hpath
      exact ⟨hroute, hlen.trans (Nat.succ_le_succ hmax)⟩
  have hperm := mergeSort_perm found fun r r' => decide (r'.e2eFidelity ≤ r.e2eFidelity)
  have hpath := hperm.map Route.path
  rw [hfilter] at hpath
  refine ⟨_, by rw [rankRoutes, hfound]; rfl, fun path => ?_, ?_, fun r hr => ?_, ?_⟩
  · rw [hpath.mem_iff, mem_filter, hmem, decide_eq_true_eq]
    exact ⟨fun h => ⟨h.1.1, h.1.2, h.2⟩, fun h => ⟨⟨h.isRoute, h.length_le⟩, h.fidelity⟩⟩
  · exact hpath.nodup_iff.mpr (hnodup.filter _)
  · exact hvalid r (hperm.subset hr)
  · refine (pairwise_mergeSort ?_ ?_ found).imp fun h => of_decide_eq_true h
    · intro r₁ r₂ r₃ h₁ h₂
      exact decide_eq_true ((of_decide_eq_true h₂).trans (of_decide_eq_true h₁))
    · intro r₁ r₂
      rw [Bool.or_eq_true, decide_eq_true_eq, decide_eq_true_eq]
      exact le_total _ _

/-- A square with one bad side, and a tail. -/
def square : QuantumTopology ℕ where
  links := [((0, 1), ⟨0, 1, 10, 9 / 10⟩), ((1, 3), ⟨3, 1, 10, 9 / 10⟩), ((0, 2), ⟨0, 2, 40, 3 / 5⟩),
    ((2, 3), ⟨2, 3, 10, 19 / 20⟩), ((3, 4), ⟨3, 4, 5, 49 / 50⟩)]
  nodup := by decide
  fst_le := by decide

end Routes

end Vantablack.Quantum
