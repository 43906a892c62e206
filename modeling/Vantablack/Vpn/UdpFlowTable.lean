import Mathlib.Data.Prod.Lex
import Vantablack.Lib.Runs
import Vantablack.Vpn.UdpFlows

/-!
The flow table of a VPN hub with its index by local ports, `UdpFlowTable` of `net/vpn/mod.rs`, over
any order of its calls. Which of several flows heard from at the same time is evicted is up to the
order of the hash map; here that order is an argument.
-/

namespace Vantablack.Vpn

open Lib Layers Receive

structure UdpFlowTable where
  flows : Table FlowKey UdpFlow
  byPort : Table ℕ FlowKey
  dnsTtl : ℕ
  generalTtl : ℕ

namespace UdpFlowTable

def withTiming (dnsTtl generalTtl : ℕ) : UdpFlowTable :=
  { flows := ∅, byPort := ∅, dnsTtl := dnsTtl, generalTtl := generalTtl }

def countFor (t : UdpFlowTable) (fp : String) : ℕ :=
  (t.flows.entries.filter fun e => e.1.fp = fp).length

def flowForLocalPort (t : UdpFlowTable) (port : ℕ) : Option FlowKey :=
  t.byPort.lookup port

/-- The flow heard from least recently, of one client or of all. -/
def lru (t : UdpFlowTable) (order : FlowKey → ℕ) (fp : Option String) :
    Option (Sigma fun _ : FlowKey => UdpFlow) :=
  (t.flows.entries.filter fun e => fp.all (e.1.fp = ·)).argmin fun e =>
    toLex (e.2.lastSeen, order e.1)

/-! The local port of a socket is 0 if it has none. -/

variable (localPort : ℕ → ℕ)

def evictLruFor (t : UdpFlowTable) (order : FlowKey → ℕ) (fp : Option String) : UdpFlowTable :=
  match t.lru order fp with
  | some victim =>
      { t with
        flows := t.flows.erase victim.1
        byPort := t.byPort.erase (localPort victim.2.socket) }
  | none => t

/-- The first half of `get_or_create` for a new flow. -/
def makeRoom (t : UdpFlowTable) (order : FlowKey → ℕ) (key : FlowKey) : UdpFlowTable :=
  let t := if udpFlowsPerFp ≤ t.countFor key.fp then t.evictLruFor localPort order (some key.fp) else t
  if udpFlowsGlobal ≤ t.flows.size then t.evictLruFor localPort order none else t

/-- `bound` is the socket that the binder makes, if it makes one. -/
def getOrCreate (t : UdpFlowTable) (order : FlowKey → ℕ) (now : ℕ) (key : FlowKey)
    (bound : Option ℕ) : Option UdpFlow × UdpFlowTable :=
  match t.flows.lookup key with
  | some f =>
      let refreshed := { f with lastSeen := now }
      (some refreshed, { t with flows := t.flows.insert key refreshed })
  | none =>
      let t := t.makeRoom localPort order key
      if udpFlowsGlobal ≤ t.flows.size then (none, t)
      else
        match bound with
        | none => (none, t)
        | some socket =>
            let flow := { socket := socket, lastSeen := now, isDns := decide (key.dst.port = 53) }
            (some flow,
              { t with
                flows := t.flows.insert key flow
                byPort :=
                  if localPort socket ≠ 0 then t.byPort.insert (localPort socket) key
                  else t.byPort })

/-- Keep the flows that satisfy `p`, with the ports of the others out of the index. -/
def retain (t : UdpFlowTable) (p : FlowKey → UdpFlow → Bool) : UdpFlowTable :=
  { t with
    flows := t.flows.retain p
    byPort := (t.flows.entries.filter fun e => !p e.1 e.2).foldl
      (fun byPort e => byPort.erase (localPort e.2.socket)) t.byPort }

def sweep (t : UdpFlowTable) (now : ℕ) : UdpFlowTable :=
  t.retain localPort fun _ f =>
    decide (now - f.lastSeen < if f.isDns then t.dnsTtl else t.generalTtl)

def evictFor (t : UdpFlowTable) (fp : String) : UdpFlowTable :=
  t.retain localPort fun key _ => key.fp ≠ fp

def clear (t : UdpFlowTable) : UdpFlowTable :=
  { t with flows := ∅, byPort := ∅ }

/-! ### How many flows there are -/

section

variable {t : UdpFlowTable} {order : FlowKey → ℕ} {key : FlowKey} {f : UdpFlow}

/-- A flow goes, with its port. -/
def remove (t : UdpFlowTable) (key : FlowKey) (f : UdpFlow) : UdpFlowTable :=
  { t with flows := t.flows.erase key, byPort := t.byPort.erase (localPort f.socket) }

theorem countFor_of_lookup (hf : t.flows.lookup key = some f) (fp : String) :
    t.countFor fp = (t.remove localPort key f).countFor fp + if key.fp = fp then 1 else 0 := by
  have hperm := ((Table.entries_perm hf).filter fun e => e.1.fp = fp).length_eq
  rw [countFor, countFor, hperm, List.filter_cons]
  by_cases hfp : key.fp = fp <;> simp [hfp, remove]

theorem countFor_insert (hf : t.flows.lookup key = none) (byPort : Table ℕ FlowKey) (fp : String) :
    ({ t with flows := t.flows.insert key f, byPort := byPort } : UdpFlowTable).countFor fp =
      t.countFor fp + if key.fp = fp then 1 else 0 := by
  rw [countFor, countFor, AList.entries_insert_of_notMem (AList.lookup_eq_none.mp hf),
    List.filter_cons]
  by_cases hfp : key.fp = fp <;> simp [hfp]

theorem countFor_refresh {f' : UdpFlow} (hf : t.flows.lookup key = some f) (fp : String) :
    ({ t with flows := t.flows.insert key f' } : UdpFlowTable).countFor fp = t.countFor fp := by
  rw [countFor_of_lookup id hf, countFor, Table.entries_insert, List.filter_cons]
  by_cases hfp : key.fp = fp <;> simp [hfp, remove, countFor]

theorem countFor_retain_le (p : FlowKey → UdpFlow → Bool) (fp : String) :
    (t.retain localPort p).countFor fp ≤ t.countFor fp :=
  (List.filter_sublist.filter _).length_le

theorem size_of_lookup (hf : t.flows.lookup key = some f) :
    t.flows.size = (t.remove localPort key f).flows.size + 1 :=
  (Table.entries_perm hf).length_eq

/-! ### The flow that is evicted -/

theorem lru_spec {fp : Option String} {victim : Sigma fun _ : FlowKey => UdpFlow}
    (h : t.lru order fp = some victim) :
    t.flows.lookup victim.1 = some victim.2 ∧ fp.all (victim.1.fp = ·) = true ∧
      ∀ key f, t.flows.lookup key = some f → fp.all (key.fp = ·) = true →
        victim.2.lastSeen ≤ f.lastSeen := by
  obtain ⟨hmem, hfp⟩ := List.mem_filter.mp (List.argmin_mem h)
  refine ⟨AList.mem_lookup_iff.mpr hmem, hfp, fun key f hf hkey => ?_⟩
  have hcandidate : (⟨key, f⟩ : Sigma fun _ : FlowKey => UdpFlow) ∈
      t.flows.entries.filter fun e => fp.all (e.1.fp = ·) :=
    List.mem_filter.mpr ⟨AList.mem_lookup_iff.mp hf, hkey⟩
  exact (Prod.Lex.toLex_le_toLex'.mp (List.le_of_mem_argmin hcandidate h)).1

/-- The flow is among those heard from least recently. -/
def Oldest (t : UdpFlowTable) (p : FlowKey → Prop) (f : UdpFlow) : Prop :=
  ∀ key f', t.flows.lookup key = some f' → p key → f.lastSeen ≤ f'.lastSeen

theorem evictLruFor_fp (order : FlowKey → ℕ) (hcount : 0 < t.countFor key.fp) :
    ∃ victim f, t.flows.lookup victim = some f ∧ victim.fp = key.fp ∧
      t.Oldest (·.fp = key.fp) f ∧
      t.evictLruFor localPort order (some key.fp) = t.remove localPort victim f := by
  cases hlru : t.lru order (some key.fp) with
  | none =>
      have hnone : (t.flows.entries.filter fun e => e.1.fp = key.fp) = [] :=
        List.argmin_eq_none.mp hlru
      rw [countFor, hnone] at hcount
      cases hcount
  | some victim =>
      obtain ⟨hf, hfp, hold⟩ := lru_spec hlru
      refine ⟨victim.1, victim.2, hf, by simpa using hfp, ?_, by rw [evictLruFor, hlru]; rfl⟩
      intro key' f' hf' hkey'
      exact hold key' f' hf' (by simpa using hkey')

theorem evictLruFor_all (order : FlowKey → ℕ) (hsize : 0 < t.flows.size) :
    ∃ victim f, t.flows.lookup victim = some f ∧ t.Oldest (fun _ => True) f ∧
      t.evictLruFor localPort order none = t.remove localPort victim f := by
  cases hlru : t.lru order none with
  | none =>
      have hnone : t.flows.entries.filter (fun _ => true) = [] := List.argmin_eq_none.mp hlru
      rw [List.filter_true] at hnone
      rw [Table.size, hnone] at hsize
      cases hsize
  | some victim =>
      obtain ⟨hf, -, hold⟩ := lru_spec hlru
      refine ⟨victim.1, victim.2, hf, ?_, by rw [evictLruFor, hlru]; rfl⟩
      intro key' f' hf' _
      exact hold key' f' hf' rfl

/-! ### The invariant -/

/-- The caps hold, and the index finds the flow of a local port. -/
structure Bounded (t : UdpFlowTable) : Prop where
  global : t.flows.size ≤ udpFlowsGlobal
  perFp : ∀ fp, t.countFor fp ≤ udpFlowsPerFp
  index : IsIndex t.flows (fun f => localPort f.socket) t.byPort

theorem bounded_withTiming (dnsTtl generalTtl : ℕ) :
    (withTiming dnsTtl generalTtl).Bounded localPort where
  global := Nat.zero_le _
  perFp := fun _ => Nat.zero_le _
  index := .empty _

variable {localPort}

theorem Bounded.remove (h : t.Bounded localPort) (hf : t.flows.lookup key = some f) :
    (t.remove localPort key f).Bounded localPort where
  global := (Table.size_erase_le _ _).trans h.global
  perFp := by
    intro fp
    have hle := h.perFp fp
    rw [countFor_of_lookup localPort hf] at hle
    omega
  index := h.index.erase hf

theorem makeRoom_cases (h : t.Bounded localPort) (order : FlowKey → ℕ) (key : FlowKey) :
    (t.countFor key.fp < udpFlowsPerFp ∧ t.flows.size < udpFlowsGlobal ∧
        t.makeRoom localPort order key = t) ∨
      ∃ victim f, t.flows.lookup victim = some f ∧
        t.makeRoom localPort order key = t.remove localPort victim f ∧
        ((udpFlowsPerFp ≤ t.countFor key.fp ∧ victim.fp = key.fp ∧ t.Oldest (·.fp = key.fp) f) ∨
          (t.countFor key.fp < udpFlowsPerFp ∧ udpFlowsGlobal ≤ t.flows.size ∧
            t.Oldest (fun _ => True) f)) := by
  unfold makeRoom
  by_cases hcap : udpFlowsPerFp ≤ t.countFor key.fp
  · have hpos : 0 < t.countFor key.fp := lt_of_lt_of_le (by decide) hcap
    obtain ⟨victim, f, hf, hfp, hold, heq⟩ := evictLruFor_fp localPort order hpos
    have hsize := size_of_lookup localPort hf
    have hglobal := h.global
    rw [if_pos hcap, heq]
    dsimp only
    rw [if_neg (by omega)]
    exact Or.inr ⟨victim, f, hf, rfl, Or.inl ⟨hcap, hfp, hold⟩⟩
  · rw [if_neg hcap]
    dsimp only
    by_cases hfull : udpFlowsGlobal ≤ t.flows.size
    · have hpos : 0 < t.flows.size := lt_of_lt_of_le (by decide) hfull
      obtain ⟨victim, f, hf, hold, heq⟩ := evictLruFor_all localPort order hpos
      rw [if_pos hfull, heq]
      exact Or.inr ⟨victim, f, hf, rfl, Or.inr ⟨Nat.lt_of_not_le hcap, hfull, hold⟩⟩
    · rw [if_neg hfull]
      exact Or.inl ⟨Nat.lt_of_not_le hcap, Nat.lt_of_not_le hfull, rfl⟩

theorem Bounded.makeRoom (h : t.Bounded localPort) (order : FlowKey → ℕ) (key : FlowKey) :
    (t.makeRoom localPort order key).Bounded localPort ∧
      (t.makeRoom localPort order key).flows.size < udpFlowsGlobal ∧
      (t.makeRoom localPort order key).countFor key.fp < udpFlowsPerFp ∧
      ∀ key' f, (t.makeRoom localPort order key).flows.lookup key' = some f →
        t.flows.lookup key' = some f := by
  have hglobal := h.global
  have hperFp := h.perFp key.fp
  rcases makeRoom_cases h order key with ⟨hcount, hsize, heq⟩ | ⟨victim, f, hf, heq, hcase⟩
  · rw [heq]
    exact ⟨h, hsize, hcount, fun _ _ hf => hf⟩
  · have hsize := size_of_lookup localPort hf
    have hcount := countFor_of_lookup localPort hf key.fp
    rw [heq]
    refine ⟨h.remove hf, by omega, ?_, fun _ _ hf' => (Table.lookup_erase_eq_some.mp hf').2⟩
    rcases hcase with ⟨-, hfp, -⟩ | ⟨hlt, -, -⟩
    · rw [if_pos hfp] at hcount
      omega
    · omega

/-- The socket that is bound for a new flow has a local port, and none of a flow in the table. -/
def BinderOk (localPort : ℕ → ℕ) (t : UdpFlowTable) (order : FlowKey → ℕ) (key : FlowKey)
    (socket : ℕ) : Prop :=
  localPort socket ≠ 0 ∧
    ∀ e ∈ (t.makeRoom localPort order key).flows.entries, localPort e.2.socket ≠ localPort socket
  deriving Decidable

theorem Bounded.getOrCreate (h : t.Bounded localPort) (order : FlowKey → ℕ) (now : ℕ)
    (key : FlowKey) {bound : Option ℕ} (hbound : ∀ socket, bound = some socket →
      t.flows.lookup key = none → BinderOk localPort t order key socket) :
    (t.getOrCreate localPort order now key bound).2.Bounded localPort := by
  unfold UdpFlowTable.getOrCreate
  cases hf : t.flows.lookup key with
  | some f =>
      refine ⟨?_, ?_, h.index.insert_same hf rfl⟩
      · dsimp only
        rw [Table.size, Table.entries_insert, List.length_cons, ← Table.size]
        exact (size_of_lookup localPort hf).symm.trans_le h.global
      · intro fp
        rw [countFor_refresh hf]
        exact h.perFp fp
  | none =>
      obtain ⟨hroom, hsize, hcount, hkept⟩ := h.makeRoom order key
      dsimp only
      rw [if_neg (by omega)]
      cases bound with
      | none => exact hroom
      | some socket =>
          obtain ⟨hport, hfresh⟩ := hbound socket rfl hf
          have hnew : (t.makeRoom localPort order key).flows.lookup key = none := by
            cases hfound : (t.makeRoom localPort order key).flows.lookup key with
            | none => rfl
            | some f =>
                rw [hkept key f hfound] at hf
                cases hf
          dsimp only
          rw [if_pos hport]
          refine ⟨?_, ?_, hroom.index.insert_new hnew (hroom.index.lookup_eq_none_iff.mpr ?_)⟩
          · dsimp only
            rw [Table.size_insert_of_notMem (AList.lookup_eq_none.mp hnew)]
            omega
          · intro fp
            rw [countFor_insert hnew]
            by_cases hfp : key.fp = fp
            · rw [if_pos hfp, ← hfp]
              omega
            · rw [if_neg hfp]
              exact hroom.perFp fp
          · intro key' f' hf'
            exact hfresh ⟨key', f'⟩ (AList.mem_lookup_iff.mp hf')

theorem Bounded.retain (h : t.Bounded localPort) (p : FlowKey → UdpFlow → Bool) :
    (t.retain localPort p).Bounded localPort where
  global := (List.length_filter_le _ _).trans h.global
  perFp := fun fp => (countFor_retain_le localPort p fp).trans (h.perFp fp)
  index := h.index.retain p

theorem Bounded.clear (_ : t.Bounded localPort) : t.clear.Bounded localPort where
  global := Nat.zero_le _
  perFp := fun _ => Nat.zero_le _
  index := .empty _

end

/-! ### Calls in any order -/

inductive Call where
  | getOrCreate (order : FlowKey → ℕ) (now : ℕ) (key : FlowKey) (bound : Option ℕ)
  | sweep (now : ℕ)
  | evictFor (fp : String)
  | clear

def step (t : UdpFlowTable) : Call → UdpFlowTable
  | .getOrCreate order now key bound => (t.getOrCreate localPort order now key bound).2
  | .sweep now => t.sweep localPort now
  | .evictFor fp => t.evictFor localPort fp
  | .clear => t.clear

/-- Sockets that are open at one time have different local ports, none of them 0. -/
def Binds (t : UdpFlowTable) : Call → Prop
  | .getOrCreate order _ key (some socket) =>
      t.flows.lookup key = none → BinderOk localPort t order key socket
  | _ => True

instance (t : UdpFlowTable) : (call : Call) → Decidable (t.Binds localPort call)
  | .getOrCreate _ _ key (some _) => inferInstanceAs (Decidable (t.flows.lookup key = none → _))
  | .getOrCreate _ _ _ none => isTrue trivial
  | .sweep _ => isTrue trivial
  | .evictFor _ => isTrue trivial
  | .clear => isTrue trivial

theorem Bounded.step {t : UdpFlowTable} (h : t.Bounded localPort) {call : Call}
    (hbinds : t.Binds localPort call) : (t.step localPort call).Bounded localPort := by
  cases call with
  | getOrCreate order now key bound =>
      refine h.getOrCreate order now key ?_
      rintro socket rfl
      exact hbinds
  | sweep now => exact h.retain _
  | evictFor fp => exact h.retain _
  | clear => exact h.clear

theorem evicted_by_getOrCreate {t : UdpFlowTable} (h : t.Bounded localPort)
    (order : FlowKey → ℕ) (now : ℕ) {key : FlowKey} (bound : Option ℕ)
    (hnew : t.flows.lookup key = none) :
    (∀ key' f, t.flows.lookup key' = some f →
        (t.getOrCreate localPort order now key bound).2.flows.lookup key' = some f) ∨
      ∃ victim f, t.flows.lookup victim = some f ∧
        (t.getOrCreate localPort order now key bound).2.flows.lookup victim = none ∧
        (∀ key' f', key' ≠ victim → t.flows.lookup key' = some f' →
          (t.getOrCreate localPort order now key bound).2.flows.lookup key' = some f') ∧
        ((udpFlowsPerFp ≤ t.countFor key.fp ∧ victim.fp = key.fp ∧ t.Oldest (·.fp = key.fp) f) ∨
          (t.countFor key.fp < udpFlowsPerFp ∧ udpFlowsGlobal ≤ t.flows.size ∧
            t.Oldest (fun _ => True) f)) := by
  -- beside the new flow, what is left is what `makeRoom` leaves
  have hrest : ∀ key', key' ≠ key →
      (t.getOrCreate localPort order now key bound).2.flows.lookup key' =
        (t.makeRoom localPort order key).flows.lookup key' := by
    intro key' hne
    rw [getOrCreate, hnew]
    dsimp only
    split
    · rfl
    · split
      · rfl
      · exact AList.lookup_insert_ne hne
  have hother : ∀ key' f, t.flows.lookup key' = some f → key' ≠ key := by
    rintro key' f hf rfl
    rw [hnew] at hf
    cases hf
  rcases makeRoom_cases h order key with ⟨-, -, heq⟩ | ⟨victim, f, hf, heq, hcase⟩
  · left
    intro key' f hf
    rw [hrest key' (hother key' f hf), heq]
    exact hf
  · right
    refine ⟨victim, f, hf, ?_, ?_, hcase⟩
    · rw [hrest victim (hother victim f hf), heq]
      exact AList.lookup_erase _ _
    · intro key' f' hne hf'
      rw [hrest key' (hother key' f' hf'), heq]
      exact Table.lookup_erase_eq_some.mpr ⟨hne, hf'⟩

/-- After any calls: the caps hold, a local port finds the flow that has it, and a new flow evicts
at most one, heard from least recently. -/
theorem flows_after_calls (dnsTtl generalTtl : ℕ) (calls : List Call)
    (hbinds : Always (step localPort) (Binds localPort) (withTiming dnsTtl generalTtl) calls) :
    let t := calls.foldl (step localPort) (withTiming dnsTtl generalTtl)
    t.flows.size ≤ udpFlowsGlobal ∧ (∀ fp, t.countFor fp ≤ udpFlowsPerFp) ∧
      (∀ port key, t.flowForLocalPort port = some key ↔
        ∃ f, t.flows.lookup key = some f ∧ localPort f.socket = port) ∧
      ∀ order now key bound, t.flows.lookup key = none →
        (∀ key' f, t.flows.lookup key' = some f →
            (t.getOrCreate localPort order now key bound).2.flows.lookup key' = some f) ∨
          ∃ victim f, t.flows.lookup victim = some f ∧
            (t.getOrCreate localPort order now key bound).2.flows.lookup victim = none ∧
            (∀ key' f', key' ≠ victim → t.flows.lookup key' = some f' →
              (t.getOrCreate localPort order now key bound).2.flows.lookup key' = some f') ∧
            ((udpFlowsPerFp ≤ t.countFor key.fp ∧ victim.fp = key.fp ∧
                t.Oldest (·.fp = key.fp) f) ∨
              (t.countFor key.fp < udpFlowsPerFp ∧ udpFlowsGlobal ≤ t.flows.size ∧
                t.Oldest (fun _ => True) f)) := by
  intro t
  have h : t.Bounded localPort := Always.invariant (Bounded localPort)
    (fun _ _ ht hcall => ht.step localPort hcall) (bounded_withTiming localPort _ _) hbinds
  exact ⟨h.global, h.perFp, fun port key => h.index port key,
    fun order now key bound hnew => evicted_by_getOrCreate localPort h order now bound hnew⟩

def exampleKey (overlayPort : ℕ) : FlowKey where
  fp := "alice"
  overlaySrc := ⟨[10, 66, 0, 10], rfl⟩
  overlayPort := overlayPort
  dst := { ip := .v4 hubAddr, port := 53 }

/-- Two flows of a client, of which one expires. -/
def exampleCalls : List Call :=
  [.getOrCreate (fun _ => 0) 0 (exampleKey 5000) (some 0),
    .getOrCreate (fun _ => 0) 5 (exampleKey 5001) (some 1), .sweep 12]

theorem exampleCalls_bounded :
    let t := exampleCalls.foldl (step (· + 40000)) (withTiming udpDnsTtl udpGeneralTtl)
    t.flowForLocalPort 40000 = none ∧ t.flowForLocalPort 40001 = some (exampleKey 5001) ∧
      t.flows.size ≤ udpFlowsGlobal ∧ ∀ fp, t.countFor fp ≤ udpFlowsPerFp := by
  intro t
  have h := flows_after_calls (· + 40000) udpDnsTtl udpGeneralTtl exampleCalls (by decide)
  exact ⟨by decide, by decide, h.1, h.2.1⟩

/-! ### The table without its index -/

theorem flows_evictLruFor (t : UdpFlowTable) (fp : Option String) :
    (t.evictLruFor localPort (fun _ => 0) fp).flows = Vpn.evictLruFor t.flows fp := by
  have hlru : t.lru (fun _ => 0) fp =
      (t.flows.entries.filter fun e => fp.all (e.1.fp = ·)).argmin fun e => e.2.lastSeen := by
    unfold lru List.argmin
    congr 1
    funext o e
    cases o with
    | none => rfl
    | some e' => simp [List.argAux, Prod.Lex.toLex_lt_toLex]
  rw [evictLruFor, Vpn.evictLruFor, hlru]
  cases (t.flows.entries.filter fun e => fp.all (e.1.fp = ·)).argmin fun e => e.2.lastSeen with
  | none => rfl
  | some victim => rfl

theorem flows_getOrCreate {t : UdpFlowTable} {u : UdpFlows} (h : t.flows = u.flows) (now : ℕ)
    (key : FlowKey) (binds : Bool) :
    (t.getOrCreate localPort (fun _ => 0) now key
        (if binds then some u.nextSocket else none)).2.flows =
      (u.getOrCreate now key binds).2.flows := by
  have hcount : t.countFor key.fp = (u.flows.entries.filter fun e => e.1.fp = key.fp).length := by
    rw [countFor, h]
  have hroom : (t.makeRoom localPort (fun _ => 0) key).flows =
      (let flows :=
        if udpFlowsPerFp ≤ (u.flows.entries.filter fun e => e.1.fp = key.fp).length then
          Vpn.evictLruFor u.flows (some key.fp)
        else u.flows
      if udpFlowsGlobal ≤ flows.size then Vpn.evictLruFor flows none else flows) := by
    rw [← hcount, ← h]
    unfold makeRoom
    dsimp only
    by_cases hcap : udpFlowsPerFp ≤ t.countFor key.fp
    · rw [if_pos hcap, if_pos hcap, ← flows_evictLruFor localPort]
      split
      · exact flows_evictLruFor localPort _ none
      · rfl
    · rw [if_neg hcap, if_neg hcap]
      split
      · exact flows_evictLruFor localPort _ none
      · rfl
  rw [getOrCreate, UdpFlows.getOrCreate, h]
  cases u.flows.lookup key with
  | some f => rfl
  | none =>
      dsimp only at hroom ⊢
      rw [← hroom]
      by_cases hfull : udpFlowsGlobal ≤ (t.makeRoom localPort (fun _ => 0) key).flows.size
      · rw [if_pos hfull, if_pos (Or.inl hfull)]
      · rw [if_neg hfull]
        cases binds with
        | false =>
            rw [if_pos (Or.inr rfl)]
            rfl
        | true =>
            have hgo : ¬ (udpFlowsGlobal ≤ (t.makeRoom localPort (fun _ => 0) key).flows.size ∨
                true = false) := by
              simpa using hfull
            rw [if_neg hgo]
            rfl

theorem ttls_getOrCreate (t : UdpFlowTable) (now : ℕ) (key : FlowKey) (bound : Option ℕ) :
    (t.getOrCreate localPort (fun _ => 0) now key bound).2.dnsTtl = t.dnsTtl ∧
      (t.getOrCreate localPort (fun _ => 0) now key bound).2.generalTtl = t.generalTtl := by
  have hevict : ∀ (t : UdpFlowTable) fp,
      (t.evictLruFor localPort (fun _ => 0) fp).dnsTtl = t.dnsTtl ∧
        (t.evictLruFor localPort (fun _ => 0) fp).generalTtl = t.generalTtl := by
    intro t fp
    unfold evictLruFor
    split <;> exact ⟨rfl, rfl⟩
  have hroom : (t.makeRoom localPort (fun _ => 0) key).dnsTtl = t.dnsTtl ∧
      (t.makeRoom localPort (fun _ => 0) key).generalTtl = t.generalTtl := by
    unfold makeRoom
    dsimp only
    split <;> split <;> simp [hevict]
  unfold getOrCreate
  cases t.flows.lookup key with
  | some f => exact ⟨rfl, rfl⟩
  | none =>
      dsimp only
      split
      · exact hroom
      · cases bound <;> exact hroom

/-- What the hub does with the flows. -/
inductive Use where
  | getOrCreate (now : ℕ) (key : FlowKey) (binds : Bool)
  | sweep (now : ℕ)
  | evictFor (fp : String)
  | clear

/-- The table with its index, and the flows of the model of the whole hub. -/
def useBoth (s : UdpFlowTable × UdpFlows) : Use → UdpFlowTable × UdpFlows
  | .getOrCreate now key binds =>
      let bound := if binds then some s.2.nextSocket else none
      ((s.1.getOrCreate localPort (fun _ => 0) now key bound).2, (s.2.getOrCreate now key binds).2)
  | .sweep now => (s.1.sweep localPort now, s.2.sweep now)
  | .evictFor fp => (s.1.evictFor localPort fp, s.2.evictFor fp)
  | .clear => (s.1.clear, s.2.clear)

/-- Over any run the table refines the flows of the hub: whatever is looked up, bound, evicted or
swept, both hold the same flows with the same sockets. -/
theorem flows_useBoth (uses : List Use) :
    (uses.foldl (useBoth localPort) (withTiming udpDnsTtl udpGeneralTtl, .start)).1.flows =
      (uses.foldl (useBoth localPort) (withTiming udpDnsTtl udpGeneralTtl, .start)).2.flows := by
  refine (foldl_invariant (fun s : UdpFlowTable × UdpFlows => s.1.flows = s.2.flows ∧
    s.1.dnsTtl = udpDnsTtl ∧ s.1.generalTtl = udpGeneralTtl) ?_ ⟨rfl, rfl, rfl⟩ uses).1
  rintro ⟨t, u⟩ use ⟨hflows, hdns, hgeneral⟩
  dsimp only at hflows hdns hgeneral
  cases use with
  | getOrCreate now key binds =>
      obtain ⟨hdns', hgeneral'⟩ := ttls_getOrCreate localPort t now key
        (if binds then some u.nextSocket else none)
      exact ⟨flows_getOrCreate localPort hflows now key binds, hdns'.trans hdns,
        hgeneral'.trans hgeneral⟩
  | sweep now =>
      refine ⟨?_, hdns, hgeneral⟩
      simp only [useBoth, UdpFlowTable.sweep, retain, UdpFlows.sweep, hflows, hdns, hgeneral]
  | evictFor fp =>
      refine ⟨?_, hdns, hgeneral⟩
      simp only [useBoth, UdpFlowTable.evictFor, retain, UdpFlows.evictFor, hflows]
  | clear => exact ⟨rfl, hdns, hgeneral⟩

end UdpFlowTable

end Vantablack.Vpn
