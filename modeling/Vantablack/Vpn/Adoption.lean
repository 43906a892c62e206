import Vantablack.Handshake.Admission
import Vantablack.Vpn.Client

/-!
A node that is a VPN client: the tables of its handshakes beside the tunnel key and epoch of its
`ClientState`. Of the branches of `handle_pkt` that register a session, only the one of the legacy
response rotates the epoch and adopts the new key, and it does so for any peer. The task that sends
the tunnel's datagrams sets the key as well, when it does not know the address of the hub.
-/

namespace Vantablack.Vpn

open Lib Layers Receive Session Handshake

variable {C : Crypto} {P : Primitives C}

/-- `hubKey` is the master key of the newest session registered with the hub, whose fingerprint the
client state has. -/
structure ClientNode (P : Primitives C) where
  node : NodeState P
  client : ClientState C.Key
  hubKey : Option C.Key

/-- What happens to the tables of any node, the handshakes its watchdog begins among it; and a
datagram of the tunnel that is to be sent, with the peer the address table gives first. -/
inductive ClientAct (P : Primitives C) where
  | event (e : Event P)
  | sendTunnel (alt : String)

/-- Whether a message is one of the branch that adopts the key, `GHOST_RESPONSE__`. -/
def adopts : Message → Bool
  | .response _ => true
  | _ => false

namespace ClientNode

def start (node : NodeState P) (client : ClientState C.Key) : ClientNode P where
  node := node
  client := client
  hubKey := none

def registered (cfg : NodeConfig) (w : ClientNode P) : ClientAct P → Option (Registration P)
  | .event (.datagram d) => (handlePkt cfg w.node d).registered
  | .event _ | .sendTunnel _ => none

def adopt (cfg : NodeConfig) (w : ClientNode P) : Event P → ClientState C.Key
  | .datagram d =>
      match receive cfg.uniform d.ctr d.data, (handlePkt cfg w.node d).registered with
      | some (m, _), some r =>
          if adopts m then w.client.rotateEpoch.setKey r.session.masterKey else w.client
      | _, _ => w.client
  | _ => w.client

/-- The tunnel state after the sender task has taken a datagram. -/
def keyForSending (w : ClientNode P) (alt : String) : ClientState C.Key :=
  if w.client.fingerprint ∈ w.node.peers then w.client
  else if alt ∈ w.node.peers then
    match w.node.sessions.lookup alt with
    | some sess => w.client.setKey sess.masterKey
    | none => w.client
  else w.client

def newestKey (cfg : NodeConfig) (w : ClientNode P) (act : ClientAct P) : Option C.Key :=
  match w.registered cfg act with
  | some r => if r.fp = w.client.fingerprint then some r.session.masterKey else w.hubKey
  | none => w.hubKey

def step (cfg : NodeConfig) (w : ClientNode P) (act : ClientAct P) : ClientNode P :=
  match act with
  | .event e =>
      { node := e.step cfg w.node
        client := w.adopt cfg e
        hubKey := w.newestKey cfg act }
  | .sendTunnel alt => { w with client := w.keyForSending alt }

/-- The tunnel key is that of the newest session with the hub, if there was one. -/
def KeyCurrent (w : ClientNode P) : Prop :=
  ∀ k, w.hubKey = some k → w.client.key = k

/-- What holds after a step: the tunnel key is current, a session with the hub has advanced the
epoch, and one with another peer has changed neither. -/
structure Follows (cfg : NodeConfig) (w : ClientNode P) (act : ClientAct P) : Prop where
  current : (w.step cfg act).KeyCurrent
  advanced : ∀ r, w.registered cfg act = some r → r.fp = w.client.fingerprint →
    (w.step cfg act).client.epoch = (w.client.epoch + 1) % 2 ^ 32
  others : ∀ r, w.registered cfg act = some r → r.fp ≠ w.client.fingerprint →
    (w.step cfg act).client.key = w.client.key ∧ (w.step cfg act).client.epoch = w.client.epoch

/-- A payload that passes the checks of its branch is a legacy response exactly if it is of the hub,
and when the sender task turns to another peer, the session with that peer has the key of the newest
session with the hub. -/
def HubByResponse (cfg : NodeConfig) (w : ClientNode P) : ClientAct P → Prop
  | .event (.datagram d) =>
      ∀ m material, receive cfg.uniform d.ctr d.data = some (m, material) →
        OwnChecks cfg w.node d material m →
          (fingerprint m.identityPk = w.client.fingerprint ↔ adopts m = true)
  | .sendTunnel alt =>
      ∀ k sess, w.hubKey = some k → w.client.fingerprint ∉ w.node.peers → alt ∈ w.node.peers →
        w.node.sessions.lookup alt = some sess → sess.masterKey = k
  | .event _ => True

/-! ### One step -/

variable {r : Registration P}

theorem registered_fp {cfg : NodeConfig} {st : NodeState P} {d : Datagram C} {m : Message}
    {material : Bytes} (h : (handleMessage cfg st d material m).registered = some r) :
    r.fp = fingerprint m.identityPk := by
  cases m with
  | negotiatedOffer hs => exact (registered_negotiatedOffer h).2.1
  | suiteOffer hs => exact (registered_suiteOffer h).2.1
  | uniformOffer hs => exact (registered_uniformOffer h).2.1
  | offer hs => exact (registered_offer h).2.1
  | negotiatedResponse resp => exact (registered_negotiatedResponse h).2.1
  | suiteResponse resp => exact (registered_suiteResponse h).2.1
  | uniformResponse resp => exact (registered_uniformResponse h).2.1
  | response resp => exact (registered_response h).2.1

theorem succ_mod_ne (n : ℕ) : (n + 1) % 2 ^ 32 ≠ n := by omega

variable {cfg : NodeConfig} {w : ClientNode P}

theorem follows_of_quiet (hcurrent : w.KeyCurrent) {act : ClientAct P}
    (hnone : w.registered cfg act = none) (hclient : (w.step cfg act).client = w.client)
    (hkey : (w.step cfg act).hubKey = w.hubKey) : w.Follows cfg act where
  current k hk := by
    rw [hclient]
    exact hcurrent k (hkey ▸ hk)
  advanced r hr := by
    rw [hnone] at hr
    cases hr
  others r hr := by
    rw [hnone] at hr
    cases hr

theorem step_datagram_of_registered {d : Datagram C} {m : Message} {material : Bytes}
    (hreceive : receive cfg.uniform d.ctr d.data = some (m, material))
    (h : w.registered cfg (.event (.datagram d)) = some r) :
    (w.step cfg (.event (.datagram d))).client =
        (if adopts m then w.client.rotateEpoch.setKey r.session.masterKey else w.client) ∧
      (w.step cfg (.event (.datagram d))).hubKey =
        (if r.fp = w.client.fingerprint then some r.session.masterKey else w.hubKey) := by
  have hsome : (handlePkt cfg w.node d).registered = some r := h
  simp [step, adopt, newestKey, registered, hsome, hreceive]

theorem follows_registered_iff (hcurrent : w.KeyCurrent) {d : Datagram C} {m : Message}
    {material : Bytes} (hreceive : receive cfg.uniform d.ctr d.data = some (m, material))
    (hr : w.registered cfg (.event (.datagram d)) = some r) :
    w.Follows cfg (.event (.datagram d)) ↔ (r.fp = w.client.fingerprint ↔ adopts m = true) := by
  obtain ⟨hclient, hkey⟩ := step_datagram_of_registered hreceive hr
  have honly : ∀ r', w.registered cfg (.event (.datagram d)) = some r' → r' = r := fun r' hr' =>
    Option.some.inj (hr'.symm.trans hr)
  by_cases hadopts : adopts m = true
  · rw [if_pos hadopts] at hclient
    by_cases hhub : r.fp = w.client.fingerprint
    · rw [if_pos hhub] at hkey
      refine ⟨fun _ => ⟨fun _ => hadopts, fun _ => hhub⟩, fun _ => ⟨?_, ?_, ?_⟩⟩
      · intro k hk
        rw [hkey] at hk
        rw [hclient, ← Option.some.inj hk]
        rfl
      · intro r' _ _
        rw [hclient]
        rfl
      · intro r' hr' hother
        rw [honly r' hr'] at hother
        exact absurd hhub hother
    · constructor
      · intro hfollows
        have hepoch := (hfollows.others r hr hhub).2
        rw [hclient] at hepoch
        exact absurd hepoch (succ_mod_ne _)
      · intro hiff
        exact absurd (hiff.mpr hadopts) hhub
  · rw [if_neg hadopts] at hclient
    by_cases hhub : r.fp = w.client.fingerprint
    · constructor
      · intro hfollows
        have hepoch := hfollows.advanced r hr hhub
        rw [hclient] at hepoch
        exact absurd hepoch.symm (succ_mod_ne _)
      · intro hiff
        exact absurd (hiff.mp hhub) hadopts
    · rw [if_neg hhub] at hkey
      refine ⟨fun _ => ⟨fun h => absurd h hhub, fun h => absurd h hadopts⟩,
        fun _ => ⟨?_, ?_, ?_⟩⟩
      · intro k hk
        rw [hclient]
        exact hcurrent k (hkey ▸ hk)
      · intro r' hr' hsame
        rw [honly r' hr'] at hsame
        exact absurd hsame hhub
      · intro r' _ _
        rw [hclient]
        exact ⟨rfl, rfl⟩

theorem follows_datagram_iff (hcurrent : w.KeyCurrent) (d : Datagram C) :
    w.Follows cfg (.event (.datagram d)) ↔ w.HubByResponse cfg (.event (.datagram d)) := by
  cases hreg : w.registered cfg (.event (.datagram d)) with
  | none =>
      have hnone : (handlePkt cfg w.node d).registered = none := hreg
      constructor
      · intro _ m material hreceive hown
        obtain ⟨r, hr⟩ := exists_registered hown
        rw [handlePkt, hreceive] at hnone
        exact absurd (hr.symm.trans hnone) (Option.some_ne_none r)
      · intro _
        refine follows_of_quiet hcurrent hreg ?_ ?_
        · simp [step, adopt, hnone]
        · simp [step, newestKey, registered, hnone]
  | some r =>
      cases hreceive : receive cfg.uniform d.ctr d.data with
      | none =>
          rw [registered, handlePkt, hreceive] at hreg
          cases hreg
      | some received =>
          obtain ⟨m, material⟩ := received
          have hr : (handleMessage cfg w.node d material m).registered = some r := by
            rw [registered, handlePkt, hreceive] at hreg
            exact hreg
          have hown := (handleMessage_registered hr).1
          rw [follows_registered_iff hcurrent hreceive hreg, registered_fp hr]
          constructor
          · intro hiff m' material' hreceive' _
            cases hreceive.symm.trans hreceive'
            exact hiff
          · intro hguard
            exact hguard m material hreceive hown

theorem follows_sendTunnel_iff (hcurrent : w.KeyCurrent) (alt : String) :
    w.Follows cfg (.sendTunnel alt) ↔ w.HubByResponse cfg (.sendTunnel alt) := by
  constructor
  · intro hfollows k sess hk hunknown halt hsess
    have hkey := hfollows.current k hk
    simpa [step, keyForSending, hunknown, halt, hsess, ClientState.setKey] using hkey
  · intro hguard
    refine ⟨fun k hk => ?_, fun r hr => ?_, fun r hr => ?_⟩
    · show (w.keyForSending alt).key = k
      unfold keyForSending
      split
      · exact hcurrent k hk
      · rename_i hunknown
        split
        · rename_i halt
          split
          · rename_i sess hsess
            exact hguard k sess hk hunknown halt hsess
          · exact hcurrent k hk
        · exact hcurrent k hk
    · cases hr
    · cases hr

theorem follows_iff (hcurrent : w.KeyCurrent) (act : ClientAct P) :
    w.Follows cfg act ↔ w.HubByResponse cfg act := by
  cases act with
  | sendTunnel alt => exact follows_sendTunnel_iff hcurrent alt
  | event e =>
      cases e with
      | datagram d => exact follows_datagram_iff hcurrent d
      | _ => exact ⟨fun _ => trivial, fun _ => follows_of_quiet hcurrent rfl rfl rfl⟩

/-- In every run of a client, the tunnel follows the sessions with its hub at each step exactly as
long as these are made by the legacy response, that response comes from no one else, and the sender
task sets no other key. -/
theorem tunnel_follows_iff (cfg : NodeConfig) (node : NodeState P) (client : ClientState C.Key)
    (acts : List (ClientAct P)) :
    Always (step cfg) (Follows cfg) (start node client) acts ↔
      Always (step cfg) (HubByResponse cfg) (start node client) acts :=
  Always.congr_of_kept KeyCurrent (fun _ _ _ h => h.current) (fun _ act h => follows_iff h act)
    (fun _ h => by cases h) acts

/-! ### A handshake of the watchdog -/

section Rehandshake

open HybridCipherSuite

def filled (n : ℕ) (b : UInt8) : Octets n := List.Vector.replicate n b

/-- A client with an identity of ones, whose hub has one of twos. -/
def clientConfig : NodeConfig where
  identityPk := filled 32 1
  pqCommitment := filled 32 11
  sign _ := filled 64 1
  psk := none
  uniform := false
  hub := none

def hubAddr : SocketAddr := { ip := .v4 (filled 4 9), port := 4000 }

def emptyNode : NodeState .symbolic where
  sessions := ∅
  peers := ∅
  pendingHs := ∅
  revocationList := none
  reputation := none

def freshClient : ClientNode .symbolic :=
  start emptyNode (.new (fingerprint (filled 32 2)) (.master 0))

def hubResponse : Datagram .symbolicShares where
  ctr := 1
  data := (buildNegotiatedResponsePdu x25519MlKem768V3 (filled 32 2) (filled 32 12)
    (fun _ => filled 64 2) (filled 32 50) (List.replicate 1088 51)).getD []
  src := hubAddr
  fresh := { now := 0, unixNow := 0, xSecret := filled 32 60, coins := [] }
  start := filled 16 0

/-- The client begins a handshake with its hub and gets the response. -/
def rehandshake : List (ClientAct .symbolic) :=
  [.event (.initiate hubAddr (filled 32 40) (List.replicate 800 41) (List.replicate 1184 42)),
    .event (.datagram hubResponse)]

/-- The session with the hub is registered, and the tunnel stays in its epoch. -/
theorem rehandshake_not_adopted :
    ¬ Always (step clientConfig) (Follows clientConfig) freshClient rehandshake := by
  intro h
  set w := freshClient.step clientConfig
    (.event (.initiate hubAddr (filled 32 40) (List.replicate 800 41) (List.replicate 1184 42)))
  have hregistered : (w.registered clientConfig (.event (.datagram hubResponse))).any
      (fun r => r.fp = w.client.fingerprint) = true := by decide +kernel
  obtain ⟨r, hr, hhub⟩ := (Option.any_eq_true _ _).mp hregistered
  have hepoch := h.2.1.advanced r hr (of_decide_eq_true hhub)
  revert hepoch
  decide +kernel

end Rehandshake

end ClientNode

end Vantablack.Vpn
