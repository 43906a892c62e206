import Vantablack.Lib.Index
import Vantablack.Vpn.NatTable

/-!
The driver of the TCP stack of a VPN hub, `driver_loop` of `net/vpn/netstack.rs`, without the stack
and without the pumps of the flows: its queues, its tables, and when a flow begins and ends.

The history says which client is behind a packet. A local port is never given out again, so that
whatever leaves by a port carries the address that was written into the packets that came to it.
-/

namespace Vantablack.Vpn

open Lib Layers

/-- A packet of a client that was handed to the stack. -/
structure Feed where
  client : String
  request : Bytes
  packet : Bytes
  localPort : ℕ
  deriving DecidableEq

/-- A packet on its way to a client, with the one it answers. -/
structure Answer where
  client : String
  request : Bytes
  packet : Bytes

/-- `reverse` has the ports of the flows that are there. -/
structure Netstack where
  rx : List (String × Bytes)
  nat : Table Tuple ℕ
  nextPort : ℕ
  reverse : Table ℕ Tuple
  out : List Answer
  fed : List Feed

namespace Netstack

def start : Netstack where
  rx := []
  nat := ∅
  nextPort := firstLocalPort
  reverse := ∅
  out := []
  fed := []

/-- A packet that finds the queue full is dropped. -/
def tryFeed (n : Netstack) (client : String) (packet : Bytes) : Netstack :=
  if n.rx.length < netstackQueue then { n with rx := n.rx ++ [(client, packet)] } else n

/-- `device.rx_push`. -/
def push (n : Netstack) (client : String) (request : Bytes) (i : Ingress) : Netstack :=
  { n with
    fed := n.fed ++
      [{ client := client, request := request, packet := i.packet, localPort := i.localPort }] }

def ingest (n : Netstack) : Netstack :=
  match n.rx with
  | [] => n
  | (client, pkt) :: rest =>
      match natIngress pkt n.nextPort n.nat with
      | none => { n with rx := rest }
      | some (i, nextPort, nat) =>
          let n := { n with rx := rest, nextPort := nextPort, nat := nat }
          if i.localPort ∈ n.reverse then n.push client pkt i
          else if !i.isSyn then n
          else if maxTcpSockets ≤ n.reverse.size then n
          else { n with reverse := n.reverse.insert i.localPort i.tuple }.push client pkt i

def collect (n : Netstack) (localPort : ℕ) : Netstack :=
  match n.reverse.lookup localPort with
  | none => n
  | some tuple => { n with nat := n.nat.erase tuple, reverse := n.reverse.erase localPort }

/-- The stack emits `pkt`, which answers `request`. -/
def emit (n : Netstack) (client : String) (request pkt : Bytes) : Netstack :=
  match natEgress pkt n.reverse with
  | none => n
  | some packet =>
      if n.out.length < netstackQueue then
        { n with out := n.out ++ [{ client := client, request := request, packet := packet }] }
      else n

/-- What the stack emits has a header without options, which it builds itself, and comes from the
port that the packet it answers was handed to it with. -/
def Answers (n : Netstack) (client : String) (request pkt : Bytes) : Prop :=
  20 ≤ ihl pkt ∧
    ∃ f ∈ n.fed, f.client = client ∧ f.request = request ∧ f.localPort = u16At pkt (ihl pkt)
  deriving Decidable

/-! ### The ports -/

/-- Each local port was given to one tuple, and the tables and the history go by it. -/
structure Ports (given : ℕ → Tuple) (n : Netstack) : Prop where
  nat : ∀ t p, n.nat.lookup t = some p → Given given n.nextPort p t
  reverse : ∀ p t, n.reverse.lookup p = some t → Given given n.nextPort p t
  fed : ∀ f ∈ n.fed, Given given n.nextPort f.localPort (tupleOf f.request)

section

variable {given : ℕ → Tuple} {n : Netstack}

theorem Ports.push (h : n.Ports given) {client : String} {request : Bytes} {i : Ingress}
    (hport : Given given n.nextPort i.localPort (tupleOf request)) :
    (n.push client request i).Ports given where
  nat := h.nat
  reverse := h.reverse
  fed := by
    intro f hf
    rcases List.mem_append.mp hf with hf | hf
    · exact h.fed f hf
    · obtain rfl := List.mem_singleton.mp hf
      exact hport

theorem Ports.allot (h : n.Ports given) (tuple : Tuple) :
    ({ n with nextPort := n.nextPort + 1, nat := n.nat.insert tuple n.nextPort } : Netstack).Ports
      (Function.update given n.nextPort tuple) where
  nat := by
    intro t p hp
    rcases Table.lookup_insert_eq_some.mp hp with ⟨rfl, rfl⟩ | ⟨-, hp⟩
    · exact .new given _ _
    · exact (h.nat t p hp).later tuple
  reverse := fun p t hp => (h.reverse p t hp).later tuple
  fed := fun f hf => (h.fed f hf).later tuple

theorem Ports.insert_reverse (h : n.Ports given) {p : ℕ} {t : Tuple}
    (hport : Given given n.nextPort p t) :
    ({ n with reverse := n.reverse.insert p t } : Netstack).Ports given where
  nat := h.nat
  reverse := by
    intro p' t' hp
    rcases Table.lookup_insert_eq_some.mp hp with ⟨rfl, rfl⟩ | ⟨-, hp⟩
    · exact hport
    · exact h.reverse p' t' hp
  fed := h.fed

theorem Ports.natIngress (h : n.Ports given) {pkt : Bytes} {i : Ingress} {nextPort : ℕ}
    {nat : Table Tuple ℕ} (hi : natIngress pkt n.nextPort n.nat = some (i, nextPort, nat)) :
    ∃ given', ({ n with nextPort := nextPort, nat := nat } : Netstack).Ports given' ∧
      i.tuple = tupleOf pkt ∧ Given given' nextPort i.localPort (tupleOf pkt) := by
  obtain ⟨htuple, ⟨hl, rfl, rfl⟩ | ⟨-, hport, rfl, rfl⟩⟩ := natIngress_spec hi
  · refine ⟨given, h, htuple, ?_⟩
    rw [← htuple]
    exact h.nat _ _ hl
  · refine ⟨_, h.allot i.tuple, htuple, ?_⟩
    rw [hport, ← htuple]
    exact .new given _ _

theorem Ports.ingest (h : n.Ports given) : ∃ given', n.ingest.Ports given' := by
  unfold Netstack.ingest
  cases hrx : n.rx with
  | nil => exact ⟨given, h⟩
  | cons item rest =>
      obtain ⟨client, pkt⟩ := item
      dsimp only
      cases hi : Vpn.natIngress pkt n.nextPort n.nat with
      | none => exact ⟨given, h.nat, h.reverse, h.fed⟩
      | some result =>
          obtain ⟨i, nextPort, nat⟩ := result
          obtain ⟨given', hports, htuple, hport⟩ := h.natIngress hi
          have hrest : ({ n with rx := rest, nextPort := nextPort, nat := nat } : Netstack).Ports
              given' := ⟨hports.nat, hports.reverse, hports.fed⟩
          dsimp only
          refine ⟨given', ?_⟩
          split
          · exact hrest.push hport
          · split
            · exact hrest
            · split
              · exact hrest
              · rw [htuple]
                exact (hrest.insert_reverse hport).push hport

theorem Ports.collect (h : n.Ports given) (localPort : ℕ) : (n.collect localPort).Ports given := by
  unfold Netstack.collect
  split
  · exact h
  · exact ⟨fun t p hp => h.nat t p (Table.lookup_erase_eq_some.mp hp).2,
      fun p t hp => h.reverse p t (Table.lookup_erase_eq_some.mp hp).2, h.fed⟩

end

/-! ### What is on its way to the clients -/

/-- Every packet on its way out is addressed as the one it answers was signed. -/
structure Inv (n : Netstack) : Prop where
  ports : ∃ given, n.Ports given
  addressed : ∀ a ∈ n.out, dstIp a.packet = srcIp a.request ∧ 20 ≤ a.packet.length

section

variable {n : Netstack}

theorem inv_start : start.Inv where
  ports := by
    refine ⟨fun _ => tupleOf [], ?_, ?_, ?_⟩
    · intro t p hp
      cases hp
    · intro p t hp
      cases hp
    · intro f hf
      cases hf
  addressed := by
    intro a ha
    cases ha

theorem Inv.tryFeed (h : n.Inv) (client : String) (packet : Bytes) :
    (n.tryFeed client packet).Inv := by
  unfold Netstack.tryFeed
  split
  · obtain ⟨given, hports⟩ := h.ports
    exact ⟨⟨given, hports.nat, hports.reverse, hports.fed⟩, h.addressed⟩
  · exact h

theorem out_ingest (n : Netstack) : n.ingest.out = n.out := by
  unfold Netstack.ingest
  split
  · rfl
  · split
    · rfl
    · dsimp only
      repeat' split
      all_goals rfl

theorem Inv.ingest (h : n.Inv) : n.ingest.Inv where
  ports := by
    obtain ⟨given, hports⟩ := h.ports
    exact hports.ingest
  addressed := by
    rw [out_ingest]
    exact h.addressed

theorem Inv.collect (h : n.Inv) (localPort : ℕ) : (n.collect localPort).Inv where
  ports := by
    obtain ⟨given, hports⟩ := h.ports
    exact ⟨given, hports.collect localPort⟩
  addressed := by
    unfold Netstack.collect
    split <;> exact h.addressed

theorem Inv.emit (h : n.Inv) {client : String} {request pkt : Bytes}
    (hanswers : n.Answers client request pkt) : (n.emit client request pkt).Inv := by
  obtain ⟨hihl, f, hf, -, rfl, hport⟩ := hanswers
  unfold Netstack.emit
  cases hout : natEgress pkt n.reverse with
  | none => exact h
  | some packet =>
      dsimp only
      split
      · obtain ⟨given, hports⟩ := h.ports
        obtain ⟨hlen, tuple, htuple, rfl⟩ := natEgress_spec hout
        -- the port has been given to the tuple of the request, and to no other
        have hfed := hports.fed f hf
        rw [hport] at hfed
        obtain rfl := (hports.reverse _ _ htuple).unique hfed
        refine ⟨⟨given, hports.nat, hports.reverse, hports.fed⟩, fun a ha => ?_⟩
        rcases List.mem_append.mp ha with ha | ha
        · exact h.addressed a ha
        · obtain rfl := List.mem_singleton.mp ha
          dsimp only
          rw [dstIp_rewriteEgress hlen hihl, length_rewriteEgress]
          exact ⟨rfl, hlen⟩
      · exact h

theorem Inv.tail (h : n.Inv) : ({ n with out := n.out.tail } : Netstack).Inv where
  ports := by
    obtain ⟨given, hports⟩ := h.ports
    exact ⟨given, hports.nat, hports.reverse, hports.fed⟩
  addressed := fun a ha => h.addressed a (List.mem_of_mem_tail ha)

end

end Netstack

end Vantablack.Vpn
