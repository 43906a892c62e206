import Vantablack.Vpn.Driver
import Vantablack.Vpn.Netstack

/-!
The tables of `driver_loop` of `net/vpn/netstack.rs`: the translation from tuples to local ports, the
flows, and the table that the device reads the way back from. A packet that opens a flow gets its
port from `nat_ingress` before the driver decides whether there is a socket for it, and the ports are
given out in order.

The pumps and the proxies only touch a flow's flag and its last activity, at any time.
-/

namespace Vantablack.Vpn

open Lib Layers

/-! ### The driver -/

/-- What the driver keeps of a flow for its tables and for the collector, times in milliseconds. -/
structure FlowEntry where
  tuple : Tuple
  isDone : Bool
  lastActivity : ℕ

/-- Every socket of the set is that of a flow. -/
structure FlowTables where
  nat : Table Tuple ℕ
  flows : Table ℕ FlowEntry
  reverse : Table ℕ Tuple
  nextPort : ℕ
  sockets : ℕ

namespace FlowTables

def start : FlowTables where
  nat := ∅
  flows := ∅
  reverse := ∅
  nextPort := firstLocalPort
  sockets := 0

def openFlow (d : FlowTables) (localPort : ℕ) (tuple : Tuple) (now : ℕ) : FlowTables :=
  { d with
    sockets := d.sockets + 1
    flows := d.flows.insert localPort { tuple := tuple, isDone := false, lastActivity := now }
    reverse := d.reverse.insert localPort tuple }

/-- One turn of the ingest loop; `listens` says whether the new socket takes the port to listen on. -/
def ingest (d : FlowTables) (pkt : Bytes) (listens : Bool) (now : ℕ) : FlowTables :=
  match natIngress pkt d.nextPort d.nat with
  | none => d
  | some (i, nextPort, nat) =>
      let d := { d with nat := nat, nextPort := nextPort }
      match d.flows.lookup i.localPort with
      | some _ => d
      | none =>
          if !i.isSyn then d
          else if maxTcpSockets ≤ d.sockets then d
          else if !listens then d
          else d.openFlow i.localPort i.tuple now

/-- Something happens in a flow: bytes go either way, or one of its ends is done. -/
def touch (d : FlowTables) (localPort : ℕ) (change : FlowEntry → FlowEntry) : FlowTables :=
  match d.flows.lookup localPort with
  | none => d
  | some f => { d with flows := d.flows.insert localPort { change f with tuple := f.tuple } }

/-- What both passes of the collector do with a flow. -/
def removeFlow (d : FlowTables) (localPort : ℕ) : FlowTables :=
  match d.flows.lookup localPort with
  | none => d
  | some f =>
      { d with
        flows := d.flows.erase localPort
        sockets := d.sockets - 1
        nat := d.nat.erase f.tuple
        reverse := d.reverse.erase localPort }

def removeIf (d : FlowTables) (p : ℕ → FlowEntry → Bool) : FlowTables :=
  ((d.flows.entries.filter fun e => p e.1 e.2).map Sigma.fst).foldl removeFlow d

/-- The pass over dead flows and the one over idle flows; each looks at a flow at some time. -/
def collect (d : FlowTables) (clock clock' : ℕ → ℕ) : FlowTables :=
  let d := d.removeIf fun port f => f.isDone && doneQuiet < clock port - f.lastActivity
  d.removeIf fun port f => flowIdle < clock' port - f.lastActivity

end FlowTables

inductive DriverAct
  | ingest (pkt : Bytes) (listens : Bool) (now : ℕ)
  | touch (localPort : ℕ) (change : FlowEntry → FlowEntry)
  | collect (clock clock' : ℕ → ℕ)

namespace FlowTables

def step (d : FlowTables) : DriverAct → FlowTables
  | .ingest pkt listens now => d.ingest pkt listens now
  | .touch localPort change => d.touch localPort change
  | .collect clock clock' => d.collect clock clock'

/-! ### The three tables -/

/-- The tuple of a flow has its port, the way back has the tuple, and no two tuples share a port. -/
structure Consistent (d : FlowTables) : Prop where
  nat : ∀ t p, d.nat.lookup t = some p ↔ ∃ f, d.flows.lookup p = some f ∧ f.tuple = t
  reverse : ∀ t p, (∃ f, d.flows.lookup p = some f ∧ f.tuple = t) ↔ d.reverse.lookup p = some t
  distinct : ∀ t t' p, d.nat.lookup t = some p → d.nat.lookup t' = some p → t = t'

/-- What holds in every run: the way back has the tuples of the flows, and the ports in the tables have
all been given out. -/
structure Inv (d : FlowTables) : Prop where
  reverse : ∀ p, d.reverse.lookup p = (d.flows.lookup p).map FlowEntry.tuple
  sockets : d.sockets = d.flows.size
  given : ∀ p f, d.flows.lookup p = some f → p < d.nextPort
  nat : ∀ t p, d.nat.lookup t = some p → p < d.nextPort

end FlowTables

/-- What `nat_ingress` looks at before it looks for the tuple. -/
structure IsFlowPacket (pkt : Bytes) : Prop where
  header : 20 ≤ pkt.length
  version : ipVersion pkt = 4
  ports : ihl pkt + 4 ≤ pkt.length
  proto : ipProto pkt = 6 ∨ ipProto pkt = 17

/-- What it makes of a packet. -/
def ingressOf (pkt : Bytes) (localPort : ℕ) : Ingress where
  packet := rewriteIngress pkt localPort
  tuple := tupleOf pkt
  isSyn := isSyn pkt
  localPort := localPort

/-- A packet that opens a flow, of a tuple that has no port. -/
structure NewSyn (nat : Table Tuple ℕ) (pkt : Bytes) : Prop where
  packet : IsFlowPacket pkt
  syn : isSyn pkt = true
  new : nat.lookup (tupleOf pkt) = none

theorem natIngress_new {nat : Table Tuple ℕ} {pkt : Bytes} {nextPort : ℕ} (h : NewSyn nat pkt) :
    natIngress pkt nextPort nat =
      if localPortEnd ≤ nextPort then none
      else some (ingressOf pkt nextPort, nextPort + 1, nat.insert (tupleOf pkt) nextPort) := by
  obtain ⟨⟨hheader, hversion, hports, hproto⟩, hsyn, hnew⟩ := h
  rw [natIngress, if_neg (by omega), if_neg (by omega), if_neg (by omega)]
  dsimp only
  rw [hnew, if_pos hsyn]
  rfl

theorem natIngress_old {nat : Table Tuple ℕ} {pkt : Bytes} (h : ¬ NewSyn nat pkt) (nextPort : ℕ) :
    natIngress pkt nextPort nat = none ∨ ∃ p, nat.lookup (tupleOf pkt) = some p ∧
      natIngress pkt nextPort nat = some (ingressOf pkt p, nextPort, nat) := by
  unfold natIngress
  dsimp only
  split
  · exact Or.inl rfl
  · split
    · exact Or.inl rfl
    · split
      · exact Or.inl rfl
      · rename_i hheader hports hproto
        cases hnew : nat.lookup (tupleOf pkt) with
        | some p => exact Or.inr ⟨p, rfl, rfl⟩
        | none =>
            refine Or.inl (if_neg fun hsyn => h ⟨⟨?_, ?_, ?_, ?_⟩, hsyn, hnew⟩)
            all_goals omega

namespace FlowTables

variable {d : FlowTables} {pkt : Bytes} {listens : Bool} {now : ℕ}

/-! ### A packet -/

/-- A flow is not admitted: there is no room for a socket, or it cannot listen. -/
def Full (d : FlowTables) (listens : Bool) : Prop :=
  maxTcpSockets ≤ d.sockets ∨ listens = false
  deriving Decidable

/-- The next port goes to a tuple. -/
def allot (d : FlowTables) (tuple : Tuple) : FlowTables :=
  { d with nat := d.nat.insert tuple d.nextPort, nextPort := d.nextPort + 1 }

theorem ingest_exhausted (h : NewSyn d.nat pkt) (hport : localPortEnd ≤ d.nextPort) :
    d.ingest pkt listens now = d := by
  rw [ingest, natIngress_new h, if_pos hport]

theorem ingest_new (h : NewSyn d.nat pkt) (hport : d.nextPort < localPortEnd)
    (hfree : d.flows.lookup d.nextPort = none) :
    d.ingest pkt listens now =
      if d.Full listens then d.allot (tupleOf pkt)
      else (d.allot (tupleOf pkt)).openFlow d.nextPort (tupleOf pkt) now := by
  have hsyn : (ingressOf pkt d.nextPort).isSyn = true := h.syn
  have hlocal : (ingressOf pkt d.nextPort).localPort = d.nextPort := rfl
  rw [ingest, natIngress_new h, if_neg (not_le.mpr hport)]
  dsimp only
  rw [hlocal, hfree]
  dsimp only
  rw [hsyn, Bool.not_true, if_neg Bool.false_ne_true]
  by_cases hroom : maxTcpSockets ≤ d.sockets
  · have hfull : d.Full listens := Or.inl hroom
    rw [if_pos hroom, if_pos hfull]
    rfl
  · rw [if_neg hroom]
    cases listens with
    | false =>
        have hfull : d.Full false := Or.inr rfl
        rw [if_pos hfull]
        rfl
    | true =>
        have hfull : ¬ d.Full true := by
          rintro (hfull | ⟨⟨⟩⟩)
          exact hroom hfull
        rw [if_neg hfull]
        rfl

theorem ingest_old (h : ¬ NewSyn d.nat pkt) : d.ingest pkt listens now = d ∨
    ∃ p, d.nat.lookup (tupleOf pkt) = some p ∧ d.flows.lookup p = none ∧
      d.ingest pkt listens now = d.openFlow p (tupleOf pkt) now := by
  unfold ingest
  rcases natIngress_old h d.nextPort with hnone | ⟨p, hp, hsome⟩
  · rw [hnone]
    exact Or.inl rfl
  · rw [hsome]
    dsimp only
    have hlocal : (ingressOf pkt p).localPort = p := rfl
    rw [hlocal]
    cases hflow : d.flows.lookup p with
    | some f => exact Or.inl rfl
    | none =>
        dsimp only
        split
        · exact Or.inl rfl
        · split
          · exact Or.inl rfl
          · split
            · exact Or.inl rfl
            · exact Or.inr ⟨p, hp, hflow, rfl⟩

/-! ### What every run keeps -/

theorem inv_start : start.Inv := by
  refine ⟨fun p => rfl, rfl, fun p f hf => ?_, fun t p hp => ?_⟩
  · cases hf
  · cases hp

theorem Inv.allot (h : d.Inv) (tuple : Tuple) : (d.allot tuple).Inv where
  reverse := h.reverse
  sockets := h.sockets
  given p f hf := Nat.lt_succ_of_lt (h.given p f hf)
  nat t p hp := by
    rcases Table.lookup_insert_eq_some.mp hp with ⟨-, rfl⟩ | ⟨-, hp⟩
    · exact Nat.lt_succ_self _
    · exact Nat.lt_succ_of_lt (h.nat t p hp)

theorem Inv.openFlow (h : d.Inv) {p : ℕ} (hfree : d.flows.lookup p = none) (hp : p < d.nextPort)
    (tuple : Tuple) (now : ℕ) : (d.openFlow p tuple now).Inv where
  reverse p' := by
    by_cases heq : p' = p
    · subst heq
      simp [FlowTables.openFlow]
    · rw [FlowTables.openFlow, AList.lookup_insert_ne heq, AList.lookup_insert_ne heq, h.reverse]
  sockets := by
    rw [FlowTables.openFlow, Table.size_insert_of_notMem (AList.lookup_eq_none.mp hfree), h.sockets]
  given p' f hf := by
    rcases Table.lookup_insert_eq_some.mp hf with ⟨rfl, -⟩ | ⟨-, hf⟩
    · exact hp
    · exact h.given p' f hf
  nat := h.nat

theorem Inv.free (h : d.Inv) : d.flows.lookup d.nextPort = none := by
  cases hf : d.flows.lookup d.nextPort with
  | none => rfl
  | some f => exact absurd (h.given _ f hf) (lt_irrefl _)

theorem Inv.ingest (h : d.Inv) (pkt : Bytes) (listens : Bool) (now : ℕ) :
    (d.ingest pkt listens now).Inv := by
  by_cases hnew : NewSyn d.nat pkt
  · rcases Nat.lt_or_ge d.nextPort localPortEnd with hport | hport
    · rw [ingest_new hnew hport h.free]
      split
      · exact h.allot _
      · exact (h.allot _).openFlow h.free (Nat.lt_succ_self _) _ _
    · rw [ingest_exhausted hnew hport]
      exact h
  · rcases ingest_old hnew with hsame | ⟨p, hp, hfree, hopen⟩
    · rw [hsame]
      exact h
    · rw [hopen]
      exact h.openFlow hfree (h.nat _ p hp) _ _

theorem Inv.touch (h : d.Inv) (p : ℕ) (change : FlowEntry → FlowEntry) : (d.touch p change).Inv := by
  unfold FlowTables.touch
  cases hf : d.flows.lookup p with
  | none => exact h
  | some f =>
      refine ⟨fun p' => ?_, ?_, fun p' f' hf' => ?_, h.nat⟩
      · by_cases heq : p' = p
        · subst heq
          rw [AList.lookup_insert, h.reverse, hf]
          rfl
        · rw [AList.lookup_insert_ne heq, h.reverse]
      · have hperm := (Table.entries_perm hf).length_eq
        rw [h.sockets, Table.size, Table.size, hperm, Table.entries_insert]
        rfl
      · rcases Table.lookup_insert_eq_some.mp hf' with ⟨rfl, -⟩ | ⟨-, hf'⟩
        · exact h.given _ f hf
        · exact h.given p' f' hf'

theorem Inv.removeFlow (h : d.Inv) (p : ℕ) : (d.removeFlow p).Inv := by
  unfold FlowTables.removeFlow
  cases hf : d.flows.lookup p with
  | none => exact h
  | some f =>
      refine ⟨fun p' => ?_, ?_, fun p' f' hf' => ?_, fun t p' hp' => ?_⟩
      · by_cases heq : p' = p
        · subst heq
          rw [AList.lookup_erase, AList.lookup_erase]
          rfl
        · rw [AList.lookup_erase_ne heq, AList.lookup_erase_ne heq, h.reverse]
      · have hmem : p ∈ d.flows := by
          rw [← AList.lookup_isSome, hf]
          rfl
        rw [h.sockets, ← Table.size_erase_of_mem hmem, Nat.add_sub_cancel]
      · exact h.given p' f' (Table.lookup_erase_eq_some.mp hf').2
      · exact h.nat t p' (Table.lookup_erase_eq_some.mp hp').2

theorem Inv.removeIf (h : d.Inv) (p : ℕ → FlowEntry → Bool) : (d.removeIf p).Inv :=
  foldl_invariant Inv (fun _ port hi => hi.removeFlow port) h _

theorem Inv.collect (h : d.Inv) (clock clock' : ℕ → ℕ) : (d.collect clock clock').Inv := by
  unfold FlowTables.collect
  exact (h.removeIf _).removeIf _

theorem Inv.step (h : d.Inv) (a : DriverAct) : (d.step a).Inv := by
  cases a with
  | ingest pkt listens now => exact h.ingest pkt listens now
  | touch localPort change => exact h.touch localPort change
  | collect clock clock' => exact h.collect clock clock'

/-! ### When the tables are consistent -/

theorem Inv.consistent_iff (h : d.Inv) : d.Consistent ↔ IsIndex d.flows FlowEntry.tuple d.nat := by
  refine ⟨fun hc => hc.nat, fun hindex => ⟨hindex, fun t p => ?_, fun t t' p ht ht' => ?_⟩⟩
  · rw [h.reverse, Option.map_eq_some_iff]
  · obtain ⟨f, hf, rfl⟩ := (hindex t p).mp ht
    obtain ⟨f', hf', rfl⟩ := (hindex t' p).mp ht'
    rw [Option.some.inj (hf.symm.trans hf')]

theorem index_touch (h : IsIndex d.flows FlowEntry.tuple d.nat) (p : ℕ) (change : FlowEntry → FlowEntry) :
    IsIndex (d.touch p change).flows FlowEntry.tuple (d.touch p change).nat := by
  unfold FlowTables.touch
  cases hf : d.flows.lookup p with
  | none => exact h
  | some f => exact h.insert_same hf rfl

theorem index_removeFlow (h : IsIndex d.flows FlowEntry.tuple d.nat) (p : ℕ) :
    IsIndex (d.removeFlow p).flows FlowEntry.tuple (d.removeFlow p).nat := by
  unfold FlowTables.removeFlow
  cases hf : d.flows.lookup p with
  | none => exact h
  | some f => exact h.erase hf

theorem index_removeIf (h : IsIndex d.flows FlowEntry.tuple d.nat) (p : ℕ → FlowEntry → Bool) :
    IsIndex (d.removeIf p).flows FlowEntry.tuple (d.removeIf p).nat :=
  foldl_invariant (fun d : FlowTables => IsIndex d.flows FlowEntry.tuple d.nat)
    (fun _ port hi => index_removeFlow hi port) h _

theorem index_collect (h : IsIndex d.flows FlowEntry.tuple d.nat) (clock clock' : ℕ → ℕ) :
    IsIndex (d.collect clock clock').flows FlowEntry.tuple (d.collect clock clock').nat := by
  unfold FlowTables.collect
  exact index_removeIf (index_removeIf h _) _

theorem not_index_allot (hfree : d.flows.lookup d.nextPort = none) (tuple : Tuple) :
    ¬ IsIndex (d.allot tuple).flows FlowEntry.tuple (d.allot tuple).nat := by
  intro hindex
  obtain ⟨f, hf, -⟩ := (hindex tuple d.nextPort).mp (AList.lookup_insert _)
  have hnone : (d.allot tuple).flows.lookup d.nextPort = none := hfree
  rw [hnone] at hf
  cases hf

/-- A packet that opens a flow is refused after its tuple has been given a port. -/
def Refuses (d : FlowTables) : DriverAct → Prop
  | .ingest pkt listens _ => NewSyn d.nat pkt ∧ d.nextPort < localPortEnd ∧ d.Full listens
  | _ => False

theorem index_ingest_iff (h : d.Inv) (hindex : IsIndex d.flows FlowEntry.tuple d.nat) :
    IsIndex (d.ingest pkt listens now).flows FlowEntry.tuple (d.ingest pkt listens now).nat ↔
      ¬ d.Refuses (.ingest pkt listens now) := by
  by_cases hnew : NewSyn d.nat pkt
  · rcases Nat.lt_or_ge d.nextPort localPortEnd with hport | hport
    · rw [ingest_new hnew hport h.free]
      split
      · rename_i hfull
        exact iff_of_false (not_index_allot h.free _) (not_not.mpr ⟨hnew, hport, hfull⟩)
      · rename_i hroom
        exact iff_of_true (hindex.insert_new h.free hnew.new) fun hrefuses => hroom hrefuses.2.2
    · rw [ingest_exhausted hnew hport]
      exact iff_of_true hindex fun hrefuses => absurd hrefuses.2.1 (not_lt.mpr hport)
  · refine iff_of_true ?_ fun hrefuses => hnew hrefuses.1
    rcases ingest_old hnew with hsame | ⟨p, hp, hfree, -⟩
    · rwa [hsame]
    · -- a tuple that has a port has a flow
      obtain ⟨f, hf, -⟩ := (hindex _ p).mp hp
      rw [hfree] at hf
      cases hf

theorem Consistent.step_iff (h : d.Inv) (hc : d.Consistent) (a : DriverAct) :
    (d.step a).Consistent ↔ ¬ d.Refuses a := by
  have hindex := h.consistent_iff.mp hc
  rw [(h.step a).consistent_iff]
  cases a with
  | ingest pkt listens now => exact index_ingest_iff h hindex
  | touch localPort change => exact iff_of_true (index_touch hindex _ _) id
  | collect clock clock' => exact iff_of_true (index_collect hindex _ _) id

theorem consistent_start : start.Consistent :=
  inv_start.consistent_iff.mpr (IsIndex.empty _)

/-- The three tables correspond after every step of a run exactly if no step of it refuses a packet
that opens a flow: its tuple keeps the port that it was given. -/
theorem always_consistent_iff (as : List DriverAct) :
    Always step (fun d a => (d.step a).Consistent) start as ↔
      Always step (fun d a => ¬ d.Refuses a) start as :=
  Always.congr_of_kept (fun d : FlowTables => d.Inv ∧ d.Consistent) (fun _ a hd hc => ⟨hd.1.step a, hc⟩)
    (fun _ a hd => Consistent.step_iff hd.1 hd.2 a) ⟨inv_start, consistent_start⟩ as

/-! ### More flows than sockets -/

end FlowTables

/-- A packet from a port of `10.66.0.10` to `192.168.1.50:445` that opens a flow. -/
def synFrom (port : ℕ) : Bytes :=
  [0x45, 0, 0, 40, 0, 0, 0, 0, 64, 6, 0, 0, 10, 66, 0, 10, 192, 168, 1, 50] ++ toBeBytes 2 port ++
    [1, 189, 0, 0, 0, 0, 0, 0, 0, 0, 0x50, 0x02, 255, 255, 0, 0, 0, 0]

variable (port : ℕ)

theorem headD_synFrom : (synFrom port).headD 0 = 0x45 := rfl

theorem ihl_synFrom : ihl (synFrom port) = 20 := by
  rw [ihl, headD_synFrom]
  rfl

theorem length_synFrom : (synFrom port).length = 40 := by
  simp [synFrom]

theorem isFlowPacket_synFrom : IsFlowPacket (synFrom port) where
  header := by rw [length_synFrom]; norm_num
  version := by
    rw [ipVersion, headD_synFrom]
    rfl
  ports := by rw [length_synFrom, ihl_synFrom]; norm_num
  proto := Or.inl rfl

theorem isSyn_synFrom : isSyn (synFrom port) = true := by
  have hflags : (synFrom port).getD 33 0 = 0x02 := rfl
  rw [isSyn, ihl_synFrom, hflags, length_synFrom]
  rfl

theorem clientPort_synFrom {port : ℕ} (h : port < 2 ^ 16) :
    (tupleOf (synFrom port)).clientPort = port := by
  have hslice : ((synFrom port).drop 20).take 2 = toBeBytes 2 port := rfl
  rw [tupleOf, ihl_synFrom, u16At, hslice]
  exact fromBeBytes_toBeBytes h

namespace FlowTables

variable {d : FlowTables} {pkt : Bytes}

/-- The flows of the ports below `n`. -/
def opened (n : ℕ) : List DriverAct :=
  (List.range n).map fun port => .ingest (synFrom port) true 0

theorem opened_succ (n : ℕ) : opened (n + 1) = opened n ++ [.ingest (synFrom n) true 0] := by
  rw [opened, List.range_succ, List.map_append]
  rfl

theorem foldl_opened {n : ℕ} (hn : n ≤ maxTcpSockets) :
    ((opened n).foldl step start).sockets = n ∧
      ((opened n).foldl step start).nextPort = firstLocalPort + n ∧
      ∀ port, n ≤ port → port < 2 ^ 16 →
        NewSyn ((opened n).foldl step start).nat (synFrom port) := by
  induction n with
  | zero =>
      refine ⟨rfl, rfl, fun port _ _ => ⟨isFlowPacket_synFrom port, isSyn_synFrom port, rfl⟩⟩
  | succ n ih =>
      obtain ⟨hsockets, hnext, hnew⟩ := ih (by omega)
      have hinv : ((opened n).foldl step start).Inv :=
        foldl_invariant Inv (fun _ a h => h.step a) inv_start _
      have hmax : maxTcpSockets = 512 := rfl
      have hend : localPortEnd = firstLocalPort + 20000 := rfl
      have hroom : ¬ ((opened n).foldl step start).Full true := by
        rintro (hfull | ⟨⟨⟩⟩)
        omega
      have hstep : (opened (n + 1)).foldl step start =
          ((((opened n).foldl step start).allot (tupleOf (synFrom n))).openFlow
            ((opened n).foldl step start).nextPort (tupleOf (synFrom n)) 0) := by
        rw [opened_succ, List.foldl_append]
        exact (ingest_new (hnew n le_rfl (by omega)) (by omega) hinv.free).trans (if_neg hroom)
      rw [hstep]
      refine ⟨congrArg (· + 1) hsockets, congrArg (· + 1) hnext, fun port hport hlt => ?_⟩
      refine ⟨isFlowPacket_synFrom port, isSyn_synFrom port, ?_⟩
      have hne : tupleOf (synFrom port) ≠ tupleOf (synFrom n) := by
        intro heq
        have hports := congrArg Tuple.clientPort heq
        rw [clientPort_synFrom hlt, clientPort_synFrom (by omega)] at hports
        omega
      exact (AList.lookup_insert_ne hne).trans (hnew port (by omega) hlt).new

/-- The 513th flow leaves its tuple in the translation. -/
theorem opened_513_inconsistent :
    ¬ Always step (fun d a => (d.step a).Consistent) start (opened 513) := by
  obtain ⟨hsockets, hnext, hnew⟩ := foldl_opened (n := 512) le_rfl
  have hinv : ((opened 512).foldl step start).Inv :=
    foldl_invariant Inv (fun _ a h => h.step a) inv_start _
  rw [opened_succ 512, always_append, always_cons]
  generalize (opened 512).foldl step start = d at *
  rintro ⟨-, hlast, -⟩
  have hfull : d.Full true := Or.inl hsockets.ge
  have hport : d.nextPort < localPortEnd := by
    rw [hnext]
    decide
  have hindex := hlast.nat
  rw [step, ingest_new (hnew 512 le_rfl (by norm_num)) hport hinv.free, if_pos hfull] at hindex
  exact not_index_allot hinv.free _ hindex

end FlowTables

/-! ### The driver of the whole hub -/

namespace Netstack

variable {n : Netstack} {d : FlowTables}

/-- The tables of the driver, as the model of the whole hub has them. -/
structure Shows (n : Netstack) (d : FlowTables) : Prop where
  nat : n.nat = d.nat
  nextPort : n.nextPort = d.nextPort
  reverse : n.reverse = d.reverse

theorem mem_reverse_iff (h : d.Inv) (p : ℕ) : p ∈ d.reverse ↔ (d.flows.lookup p).isSome = true := by
  rw [← AList.lookup_isSome, h.reverse, Option.isSome_map]

theorem size_reverse (h : d.Inv) : d.reverse.size = d.sockets := by
  rw [h.sockets]
  refine Table.size_congr fun p => ?_
  rw [mem_reverse_iff h, AList.lookup_isSome]

theorem Shows.ingest (h : n.Shows d) (hd : d.Inv) {client : String} {pkt : Bytes}
    {rest : List (String × Bytes)} (hrx : n.rx = (client, pkt) :: rest) (now : ℕ) :
    n.ingest.Shows (d.ingest pkt true now) := by
  unfold Netstack.ingest FlowTables.ingest
  rw [hrx, h.nextPort, h.nat]
  dsimp only
  cases hi : natIngress pkt d.nextPort d.nat with
  | none => exact ⟨rfl, rfl, h.reverse⟩
  | some result =>
      obtain ⟨i, nextPort, nat⟩ := result
      have hmem := mem_reverse_iff hd i.localPort
      simp only [h.reverse, size_reverse hd]
      cases hf : d.flows.lookup i.localPort with
      | some f =>
          rw [hf] at hmem
          rw [if_pos (hmem.mpr rfl)]
          exact ⟨rfl, rfl, rfl⟩
      | none =>
          rw [hf] at hmem
          rw [if_neg (mt hmem.mp Bool.false_ne_true)]
          dsimp only
          split
          · exact ⟨rfl, rfl, rfl⟩
          · split
            · exact ⟨rfl, rfl, rfl⟩
            · exact ⟨rfl, rfl, rfl⟩

theorem Shows.removeFlow (h : n.Shows d) (hd : d.Inv) (localPort : ℕ) :
    (n.collect localPort).Shows (d.removeFlow localPort) := by
  have hreverse := hd.reverse localPort
  unfold Netstack.collect FlowTables.removeFlow
  rw [h.reverse, hreverse]
  cases d.flows.lookup localPort with
  | none => exact h
  | some f => exact ⟨by rw [h.nat]; rfl, h.nextPort, rfl⟩

theorem Shows.touch (h : n.Shows d) (localPort : ℕ) (change : FlowEntry → FlowEntry) :
    n.Shows (d.touch localPort change) := by
  unfold FlowTables.touch
  cases d.flows.lookup localPort with
  | none => exact h
  | some f => exact ⟨h.nat, h.nextPort, h.reverse⟩

theorem Shows.emit (h : n.Shows d) (client : String) (request pkt : Bytes) :
    (n.emit client request pkt).Shows d := by
  unfold Netstack.emit
  cases natEgress pkt n.reverse with
  | none => exact h
  | some packet =>
      dsimp only
      split
      · exact ⟨h.nat, h.nextPort, h.reverse⟩
      · exact h

/-- What happens to the driver of the whole hub. -/
inductive Use
  | tryFeed (client : String) (packet : Bytes)
  | ingest (now : ℕ)
  | touch (localPort : ℕ) (change : FlowEntry → FlowEntry)
  | collect (localPort : ℕ)
  | emit (client : String) (request pkt : Bytes)

/-- The same happens to the tables with their flows. -/
def useBoth (s : Netstack × FlowTables) : Use → Netstack × FlowTables
  | .tryFeed client packet => (s.1.tryFeed client packet, s.2)
  | .ingest now =>
      (s.1.ingest,
        match s.1.rx with
        | [] => s.2
        | (_, pkt) :: _ => s.2.ingest pkt true now)
  | .touch localPort change => (s.1, s.2.touch localPort change)
  | .collect localPort => (s.1.collect localPort, s.2.removeFlow localPort)
  | .emit client request pkt => (s.1.emit client request pkt, s.2)

/-- In every run the driver of the whole hub translates, answers and refuses by the tables that have
the flows. -/
theorem shows_useBoth (uses : List Use) :
    (uses.foldl useBoth (.start, .start)).1.Shows (uses.foldl useBoth (.start, .start)).2 := by
  refine (foldl_invariant (fun s : Netstack × FlowTables => s.1.Shows s.2 ∧ s.2.Inv) ?_
    ⟨⟨rfl, rfl, rfl⟩, FlowTables.inv_start⟩ uses).1
  rintro ⟨n, d⟩ use ⟨h, hd⟩
  dsimp only at h hd
  cases use with
  | tryFeed client packet =>
      refine ⟨?_, hd⟩
      unfold useBoth Netstack.tryFeed
      dsimp only
      split
      · exact ⟨h.nat, h.nextPort, h.reverse⟩
      · exact h
  | ingest now =>
      unfold useBoth
      cases hrx : n.rx with
      | nil =>
          have hidle : n.ingest = n := by rw [Netstack.ingest, hrx]
          simp only [hidle]
          exact ⟨h, hd⟩
      | cons head rest =>
          obtain ⟨client, pkt⟩ := head
          dsimp only
          exact ⟨h.ingest hd hrx now, hd.ingest pkt true now⟩
  | touch localPort change => exact ⟨h.touch localPort change, hd.touch localPort change⟩
  | collect localPort => exact ⟨h.removeFlow hd localPort, hd.removeFlow localPort⟩
  | emit client request pkt => exact ⟨h.emit client request pkt, hd⟩

end Netstack

end Vantablack.Vpn
