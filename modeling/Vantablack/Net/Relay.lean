import Vantablack.Net.Utf8

/-!
Onion routes of `net/relay.rs` and the relay rule of `handle_pkt`. A relay packet is a header of
40 bytes (magic, remaining hops, the fingerprint of the next hop) and an inner payload; an onion
nests one header for each hop after the first. Whether a relay may forward (reputation, known
address, session with the next hop) is not part of the rule here: it decides if a packet is sent
on, not where or with which bytes.
-/

namespace Vantablack.Net

open Lib Layers List

def relayMagic : Bytes := utf8 "RLY!"

def maxHops : ℕ := 5

structure RelayHeader where
  remainingHops : UInt32
  nextHopFingerprint : String
  innerPayload : Bytes
  deriving DecidableEq

def parseRelayHeader (data : Bytes) : Option RelayHeader :=
  if data.length < 44 ∨ data.take 4 ≠ relayMagic then none
  else
    some { remainingHops := UInt32.ofNat (fromBeBytes ((data.drop 4).take 4))
           nextHopFingerprint := fromUtf8Lossy (((data.drop 8).take 32).takeWhile (· ≠ 0))
           innerPayload := data.drop 40 }

def buildEnvelope (magic : Bytes) (fingerprint : String) (hops : UInt32) (payload : Bytes) :
    Bytes :=
  magic ++ (toBeBytes 4 hops.toNat ++
    ((Block.zeroPadded 32 ((utf8 fingerprint).take 32)).toList ++ payload))

def buildRelayPacket (nextHopFingerprint : String) (remainingHops : UInt32)
    (innerPayload : Bytes) : Bytes :=
  buildEnvelope relayMagic nextHopFingerprint remainingHops innerPayload

/-- The loop of `build_onion_route` over the hops after the first, from the last one inwards. -/
def wrapHops (payload : Bytes) : List String → Bytes
  | [] => payload
  | fp :: hops =>
      buildRelayPacket fp (UInt32.ofNat (hops.length + 1)) (wrapHops payload hops)

def buildOnionRoute (route : List String) (payload : Bytes) : Option Bytes :=
  if route.length < 2 ∨ maxHops + 1 < route.length ∨ (∃ fp ∈ route, fp = "") ∨ ¬ route.Nodup then
    none
  else some (wrapHops payload route.tail)

/-- The relay rule: the next hop and what it is sent, unless the payload is no relay packet or
this node is its last hop. -/
def relayForward (payload : Bytes) : Option (String × Bytes) :=
  (parseRelayHeader payload).bind fun relay =>
    let next := relay.nextHopFingerprint
    if 0 < relay.remainingHops then
      if 1 < relay.remainingHops then
        match parseRelayHeader relay.innerPayload with
        | some _ => some (next, relay.innerPayload)
        | none => some (next, buildRelayPacket next (relay.remainingHops - 1) relay.innerPayload)
      else some (next, buildRelayPacket next 0 relay.innerPayload)
    else none

/-- The nodes a packet visits after the one it starts at, and what the last of them receives. -/
def forwardRoute : ℕ → Bytes → Option (List String × Bytes)
  | 0, _ => none
  | fuel + 1, payload =>
      match relayForward payload with
      | none => some ([], payload)
      | some (next, sent) =>
          (forwardRoute fuel sent).map fun (visited, last) => (next :: visited, last)

/-! ### Headers -/

/-- What a header can carry: at most 32 bytes, none of them 0. -/
def FitsHeader (fp : String) : Prop :=
  (utf8 fp).length ≤ 32 ∧ 0 ∉ utf8 fp

theorem takeWhile_zeroPadded {l : Bytes} {n : ℕ} (hlen : l.length ≤ n) (hzero : 0 ∉ l) :
    (Block.zeroPadded n l).toList.takeWhile (· ≠ 0) = l := by
  have hall : ∀ b ∈ l, decide (b ≠ 0) = true := by
    intro b hb
    apply decide_eq_true
    rintro rfl
    exact hzero hb
  have hpad : (replicate (n - l.length) (0 : UInt8)).takeWhile (· ≠ 0) = [] := by
    rw [takeWhile_replicate]
    rfl
  rw [Block.toList_zeroPadded, take_append, take_of_length_le hlen, take_replicate,
    min_eq_left (Nat.sub_le _ _), takeWhile_append_of_pos hall, hpad, append_nil]

theorem length_buildEnvelope {magic : Bytes} (hmagic : magic.length = 4) (fp : String) (hops : UInt32)
    (payload : Bytes) : (buildEnvelope magic fp hops payload).length = 40 + payload.length := by
  rw [buildEnvelope, length_append, length_append, length_append, hmagic,
    length_toBeBytes, List.Vector.toList_length]
  omega

theorem length_relayMagic : relayMagic.length = 4 := by
  decide +kernel

theorem length_buildRelayPacket (fp : String) (hops : UInt32) (payload : Bytes) :
    (buildRelayPacket fp hops payload).length = 40 + payload.length :=
  length_buildEnvelope length_relayMagic fp hops payload

variable {fp : String} {payload : Bytes}

theorem parseRelayHeader_build (hfp : FitsHeader fp) (hops : UInt32) (hlen : 4 ≤ payload.length) :
    parseRelayHeader (buildRelayPacket fp hops payload) =
      some { remainingHops := hops, nextHopFingerprint := fp, innerPayload := payload } := by
  have hmagic := length_relayMagic
  have hfixed : (utf8 fp).take 32 = utf8 fp := take_of_length_le hfp.1
  have hstart := RestAt.start (buildRelayPacket fp hops payload)
  have hhops := RestAt.skip (l := relayMagic) hstart hmagic
  have hname := hhops.skip (length_toBeBytes 4 _)
  have hinner := hname.block
  have hlong : ¬ (buildRelayPacket fp hops payload).length < 44 := by
    rw [length_buildRelayPacket]
    omega
  have htake : (buildRelayPacket fp hops payload).take 4 = relayMagic := take_left' hmagic
  have hcount : fromBeBytes (toBeBytes 4 hops.toNat) = hops.toNat :=
    fromBeBytes_toBeBytes hops.toNat_lt
  rw [parseRelayHeader, if_neg (not_or.mpr ⟨hlong, not_not.mpr htake⟩)]
  rw [show (buildRelayPacket fp hops payload).drop 4 = _ from hhops.2,
    show (buildRelayPacket fp hops payload).drop 8 = _ from hname.2,
    show (buildRelayPacket fp hops payload).drop 40 = _ from hinner.2,
    take_left' (length_toBeBytes 4 _), take_left' (List.Vector.toList_length _), hfixed,
    takeWhile_zeroPadded hfp.1 hfp.2, fromUtf8Lossy_utf8, hcount, UInt32.ofNat_toNat]

theorem length_innerPayload {data : Bytes} {header : RelayHeader}
    (h : parseRelayHeader data = some header) : 4 ≤ header.innerPayload.length := by
  unfold parseRelayHeader at h
  split at h
  · cases h
  · rename_i hdata
    obtain rfl := Option.some.inj h
    have hlong : ¬ data.length < 44 := fun hlt => hdata (.inl hlt)
    rw [length_drop]
    omega

/-! ### The way of an onion -/

theorem relayForward_last (hfp : FitsHeader fp) (hlen : 4 ≤ payload.length) :
    relayForward (buildRelayPacket fp 1 payload) = some (fp, buildRelayPacket fp 0 payload) := by
  rw [relayForward, parseRelayHeader_build hfp 1 hlen]
  rfl

theorem relayForward_onion {fp' : String} (hfp : FitsHeader fp) (hfp' : FitsHeader fp')
    {hops : UInt32} (hhops : 1 < hops) (hops' : UInt32) (hlen : 4 ≤ payload.length) :
    relayForward (buildRelayPacket fp hops (buildRelayPacket fp' hops' payload)) =
      some (fp, buildRelayPacket fp' hops' payload) := by
  have hinner : 4 ≤ (buildRelayPacket fp' hops' payload).length := by
    rw [length_buildRelayPacket]
    omega
  have hpos : (0 : UInt32) < hops := by
    rw [UInt32.lt_iff_toNat_lt] at hhops ⊢
    exact Nat.lt_of_succ_lt hhops
  rw [relayForward, parseRelayHeader_build hfp hops hinner, Option.bind_some]
  dsimp only
  rw [if_pos hpos, if_pos hhops, parseRelayHeader_build hfp' hops' hlen]

theorem relayForward_zero (hfp : FitsHeader fp) (hlen : 4 ≤ payload.length) :
    relayForward (buildRelayPacket fp 0 payload) = none := by
  rw [relayForward, parseRelayHeader_build hfp 0 hlen]
  rfl

theorem length_wrapHops (payload : Bytes) (hops : List String) :
    (wrapHops payload hops).length = 40 * hops.length + payload.length := by
  induction hops with
  | nil => simp [wrapHops]
  | cons fp hops ih =>
      rw [wrapHops, length_buildRelayPacket, ih, length_cons]
      omega

theorem forwardRoute_wrapHops (hlen : 4 ≤ payload.length) {hops : List String}
    (hfits : ∀ fp' ∈ fp :: hops, FitsHeader fp') (hcount : hops.length < maxHops) :
    ∃ last, FitsHeader last ∧ forwardRoute (hops.length + 2) (wrapHops payload (fp :: hops)) =
      some (fp :: hops, buildRelayPacket last 0 payload) := by
  induction hops generalizing fp with
  | nil =>
      have hfp := hfits fp mem_cons_self
      have hlast : wrapHops payload [fp] = buildRelayPacket fp 1 payload := rfl
      refine ⟨fp, hfp, ?_⟩
      rw [hlast, forwardRoute, relayForward_last hfp hlen]
      dsimp only
      rw [forwardRoute, relayForward_zero hfp hlen]
      rfl
  | cons fp' hops ih =>
      obtain ⟨hfp, hrest⟩ := forall_mem_cons.mp hfits
      rw [length_cons] at hcount
      obtain ⟨last, hlast, hroute⟩ := ih hrest (Nat.lt_of_succ_lt hcount)
      have hmore : 1 < UInt32.ofNat ((fp' :: hops).length + 1) := by
        have hsmall : hops.length + 1 < 5 := hcount
        rw [UInt32.lt_iff_toNat_lt, UInt32.toNat_ofNat', length_cons]
        show 1 < (hops.length + 1 + 1) % 2 ^ 32
        omega
      have hinner : 4 ≤ (wrapHops payload hops).length := by
        rw [length_wrapHops]
        omega
      have hstep := relayForward_onion hfp (hrest fp' mem_cons_self) hmore
        (UInt32.ofNat (hops.length + 1)) hinner
      refine ⟨last, hlast, ?_⟩
      rw [length_cons, forwardRoute, wrapHops, wrapHops, hstep]
      dsimp only
      rw [← wrapHops, hroute]
      rfl

/-- Over any accepted route: the onion visits the hops after the first in order, once each, and
the last of them gets a zero-hop packet with the payload exactly when the payload has at least
four bytes. -/
theorem onion_delivered_iff (route : List String) (payload onion : Bytes)
    (hbuild : buildOnionRoute route payload = some onion)
    (hfits : ∀ fp ∈ route, FitsHeader fp) :
    (∃ fuel last header, forwardRoute fuel onion = some (route.tail, last) ∧
        parseRelayHeader last = some header ∧ header.remainingHops = 0 ∧
        header.innerPayload = payload) ↔
      4 ≤ payload.length := by
  constructor
  · rintro ⟨fuel, last, header, -, hparse, -, rfl⟩
    exact length_innerPayload hparse
  · intro hlen
    unfold buildOnionRoute at hbuild
    split at hbuild
    · cases hbuild
    · rename_i hroute
      obtain rfl := Option.some.inj hbuild
      match route with
      | [] => exact absurd (.inl (by decide)) hroute
      | [_] => exact absurd (.inl (by simp)) hroute
      | guard :: fp :: hops =>
          have hcount : hops.length < maxHops := by
            by_contra hge
            refine hroute (.inr (.inl ?_))
            rw [length_cons, length_cons]
            omega
          obtain ⟨last, hlast, hforward⟩ := forwardRoute_wrapHops hlen
            (forall_mem_cons.mp hfits).2 hcount
          exact ⟨_, _, _, hforward, parseRelayHeader_build hlast 0 hlen, rfl, rfl⟩

theorem onion_delivered_of_three_hops :
    ∃ fuel last header,
      forwardRoute fuel (wrapHops (utf8 "payload") ["middle", "exit"]) =
          some (["middle", "exit"], last) ∧
        parseRelayHeader last = some header ∧ header.remainingHops = 0 ∧
        header.innerPayload = utf8 "payload" :=
  (onion_delivered_iff ["guard", "middle", "exit"] (utf8 "payload") _ (by decide +kernel)
    (by unfold FitsHeader; decide +kernel)).mpr (by decide +kernel)

theorem short_payload_loops :
    buildOnionRoute ["guard", "middle", "exit"] [1] =
        some (wrapHops [1] ["middle", "exit"]) ∧
      (∀ fp ∈ ["guard", "middle", "exit"], FitsHeader fp) ∧
      (forwardRoute 4 (wrapHops [1] ["middle", "exit"])).map Prod.fst =
        some ["middle", "middle"] ∧
      ¬ ∃ fuel last header,
        forwardRoute fuel (wrapHops [1] ["middle", "exit"]) = some (["middle", "exit"], last) ∧
          parseRelayHeader last = some header ∧ header.remainingHops = 0 ∧
          header.innerPayload = [1] := by
  refine ⟨by decide +kernel, by unfold FitsHeader; decide +kernel, by decide +kernel, ?_⟩
  rintro ⟨fuel, last, header, -, hparse, -, hinner⟩
  have hlen := length_innerPayload hparse
  rw [hinner] at hlen
  revert hlen
  decide

end Vantablack.Net
