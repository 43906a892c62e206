import Mathlib.Data.List.DropRight
import Mathlib.Data.List.FinRange
import Vantablack.Lib.Inet
import Vantablack.Net.Utf8
import Vantablack.Send.RoundTrip

/-!
Peer exchange: `send_pex` and the branch of `handle_pkt` that reads what it sends. The list of peers
goes in one message, whose three shards have to fit in privacy frames; `send3_mixed` leaves out a
shard that does not.
-/

namespace Vantablack.Net

open Lib Layers Receive Send Session List

variable {C : Crypto}

/-! ### Sending -/

def ghostPexMagic : Bytes := utf8 "GHOST_PEX_____"

def maxPexPeers : ℕ := 32

/-- The peers that are told, in the order in which the table is iterated. -/
def peerList (destFp : String) (peers : Table String Inet.SocketAddr) :
    List (String × Inet.SocketAddr) :=
  ((peers.entries.filter fun e => e.1 ≠ destFp).take maxPexPeers).map fun e => (e.1, e.2)

/-- The entry of one peer: sixteen bytes for the fingerprint, and the text of the address. -/
def pexEntry (peer : String × Inet.SocketAddr) : Bytes :=
  (Block.zeroPadded 16 ((utf8 peer.1).take 16)).toList ++ (peer.2.text ++ [0])

def pexPayload (peers : List (String × Inet.SocketAddr)) : Bytes :=
  ghostPexMagic ++ UInt8.ofNat peers.length :: peers.flatMap pexEntry

/-- The frames that `send3_mixed` queues. -/
def send3Mixed (A : Aead C) (shardsec : Bool) (ctx : SealCtx C) (f : List Bytes)
    (tag : Octets 16) : List Bytes :=
  (f.take 3).zipIdx.filterMap fun (shard, i) =>
    (tryBuildGtfV2Frame (ctx.dataHeader A shardsec (UInt8.ofNat i) false 0) shard tag).toOption

/-- The frames and where they go. The context is that of the session with the receiver. -/
def sendPex (rs : ReedSolomon) (A : Aead C) (shardsec : Bool) (session : Option (SealCtx C))
    (destFp : String) (peers : Table String Inet.SocketAddr) :
    Option (Inet.SocketAddr × List Bytes) :=
  match session, peers.lookup destFp with
  | some ctx, some destAddr =>
      let (f, tag) := encSplit rs A shardsec ctx (pexPayload (peerList destFp peers))
      some (destAddr, send3Mixed A shardsec ctx f tag)
  | _, _ => none

/-! ### Receiving -/

/-- What `handle_pkt` looks for before: `REKEY_MAGIC`, `REKEY_RESPONSE_MAGIC`, `QEL_MIX_MAGIC`,
`QEL_MIX_RESPONSE_MAGIC`, `PQ_AUTH_CHUNK_MAGIC`, `PQ_AUTH_ACK_MAGIC`, `GHOST_BYE_MAGIC` and
`VPN_PAYLOAD_MAGIC`. -/
def earlierMagics : List Bytes :=
  [utf8 "GHOST_REKEY____!", utf8 "GHOST_REKEY_RSP!", utf8 "GHOST_QEL_MIX___",
    utf8 "GHOST_QEL_MIX_OK", utf8 "PQ_AUTH_CHUNK:", utf8 "PQ_AUTH_ACK__:", utf8 "GHOST_BYE_____",
    utf8 "GVPN1"]

/-- `trim_end_matches` of the zero character. -/
def trimEndNul (s : String) : String :=
  String.ofList (s.toList.rdropWhile (· = '\x00'))

/-- The entries of a list, as many as the count says or as there are. -/
def pexEntries : ℕ → Bytes → List (String × String)
  | 0, _ => []
  | count + 1, body =>
      if body.length < 16 then []
      else
        let fp := trimEndNul (fromUtf8Lossy (body.take 16))
        let addr := (body.drop 16).takeWhile (· ≠ 0)
        (fp, fromUtf8Lossy addr) :: pexEntries count ((body.drop 16).drop (addr.length + 1))

/-- The branch for a list of peers: its fingerprints with the texts of their addresses. -/
def parsePex (payload : Bytes) : Option (List (String × String)) :=
  if earlierMagics.any (·.isPrefixOf payload) then none
  else if ghostPexMagic.isPrefixOf payload then
    match payload.drop ghostPexMagic.length with
    | [] => some []
    | count :: body => some (pexEntries count.toNat body)
  else none

def pexPairs (payload : Bytes) : Option (List (String × Option Inet.SocketAddr)) :=
  (parsePex payload).map fun entries =>
    entries.map fun (fp, addrStr) => (fp, Inet.SocketAddr.parse (utf8 addrStr))

/-- The addresses a handshake is started with: those of peers that are new. -/
def pexTargets (ownFp : String) (known : String → Bool) (payload : Bytes) :
    Option (List Inet.SocketAddr) :=
  (pexPairs payload).map fun pairs =>
    pairs.filterMap fun (fp, addr) => if fp = ownFp ∨ known fp then none else addr

/-! ### The list is read back -/

/-- A fingerprint that the field of an entry holds. -/
def FitsField (fp : String) : Prop :=
  (utf8 fp).length ≤ 16 ∧ fp.toList.getLast? ≠ some '\x00'
  deriving Decidable

/-- The text that is parsed for an address. -/
def addrString (addr : Inet.SocketAddr) : String :=
  String.ofList (addr.text.map fun b => Char.ofNat b.toNat)

theorem utf8_addrString (addr : Inet.SocketAddr) : utf8 (addrString addr) = addr.text :=
  utf8_ascii fun b hb => (addr.ascii_text b hb).2

theorem trimEndNul_append {fp : String} (h : fp.toList.getLast? ≠ some '\x00') (k : ℕ) :
    trimEndNul (String.ofList (fp.toList ++ replicate k '\x00')) = fp := by
  have htrim : (fp.toList ++ replicate k '\x00').rdropWhile (· = '\x00') = fp.toList := by
    induction k with
    | zero =>
        rw [replicate_zero, append_nil, rdropWhile_eq_self_iff]
        intro hne hlast
        apply h
        rw [getLast?_eq_some_getLast hne, of_decide_eq_true hlast]
    | succ k ih =>
        rw [replicate_succ', ← append_assoc, rdropWhile_concat_pos _ _ _ (by simp), ih]
  rw [trimEndNul, String.toList_ofList, htrim, String.ofList_toList]

theorem zeroPadded_fingerprint {fp : String} (h : (utf8 fp).length ≤ 16) :
    (Block.zeroPadded 16 ((utf8 fp).take 16)).toList =
      utf8 (String.ofList (fp.toList ++ replicate (16 - (utf8 fp).length) '\x00')) := by
  have hself : utf8 fp = fp.toList.flatMap String.utf8EncodeChar := by
    rw [← utf8_ofList, String.ofList_toList]
  have hnuls : ∀ k, (replicate k '\x00').flatMap String.utf8EncodeChar =
      replicate k (0 : UInt8) := by
    intro k
    induction k with
    | zero => rfl
    | succ k ih =>
        rw [replicate_succ, flatMap_cons, ih]
        rfl
  rw [utf8_ofList, flatMap_append, ← hself, hnuls, Block.toList_zeroPadded,
    take_of_length_le h, take_append, take_of_length_le h, take_replicate,
    min_eq_left (Nat.sub_le _ _)]

theorem pexEntries_cons {peer : String × Inet.SocketAddr} (hfp : FitsField peer.1) (count : ℕ)
    (rest : Bytes) :
    pexEntries (count + 1) (pexEntry peer ++ rest) =
      (peer.1, addrString peer.2) :: pexEntries count rest := by
  have hfield : (pexEntry peer ++ rest).take 16 =
      (Block.zeroPadded 16 ((utf8 peer.1).take 16)).toList := by
    rw [pexEntry, append_assoc, take_left' (List.Vector.toList_length _)]
  have hafter : (pexEntry peer ++ rest).drop 16 = peer.2.text ++ 0 :: rest := by
    rw [pexEntry, append_assoc, drop_left' (List.Vector.toList_length _),
      append_assoc, singleton_append]
  have haddr : (peer.2.text ++ 0 :: rest).takeWhile (· ≠ 0) = peer.2.text := by
    have hnonzero : ∀ b ∈ peer.2.text, decide (b ≠ 0) = true := by
      intro b hb
      apply decide_eq_true
      rintro rfl
      exact absurd (peer.2.ascii_text 0 hb).1 (by decide)
    rw [takeWhile_append_of_pos hnonzero, takeWhile_cons_of_neg (by simp),
      append_nil]
  have hnext : (peer.2.text ++ 0 :: rest).drop (peer.2.text.length + 1) = rest := by
    rw [← drop_drop, drop_left]
    rfl
  have hlong : ¬ (pexEntry peer ++ rest).length < 16 := by
    rw [pexEntry, append_assoc, length_append, List.Vector.toList_length]
    omega
  rw [pexEntries, if_neg hlong, hfield, hafter]
  dsimp only
  rw [haddr, hnext, zeroPadded_fingerprint hfp.1, fromUtf8Lossy_utf8, trimEndNul_append hfp.2,
    ← utf8_addrString, fromUtf8Lossy_utf8]

variable {peers : List (String × Inet.SocketAddr)}

theorem pexEntries_flatMap (hfps : ∀ peer ∈ peers, FitsField peer.1) :
    pexEntries peers.length (peers.flatMap pexEntry) =
      peers.map fun peer => (peer.1, addrString peer.2) := by
  induction peers with
  | nil => rfl
  | cons peer peers ih =>
      rw [length_cons, flatMap_cons, pexEntries_cons (hfps peer mem_cons_self),
        ih fun p hp => hfps p (mem_cons_of_mem peer hp), map_cons]

theorem length_ghostPexMagic : ghostPexMagic.length = 14 := by
  decide +kernel

theorem not_earlier (rest : Bytes) :
    earlierMagics.any (·.isPrefixOf (ghostPexMagic ++ rest)) = false := by
  rw [any_eq_false]
  intro magic hmagic hprefix
  -- ten bytes tell them apart
  have hfront := (List.isPrefixOf_iff_prefix.mp hprefix).take 10
  rw [take_append_of_le_length (by rw [length_ghostPexMagic]; decide)] at hfront
  have hdiffer : ∀ m ∈ earlierMagics, ¬ m.take 10 <+: ghostPexMagic.take 10 := by decide +kernel
  exact hdiffer magic hmagic hfront

theorem length_peerList_le (destFp : String) (peers : Table String Inet.SocketAddr) :
    (peerList destFp peers).length ≤ maxPexPeers := by
  rw [peerList, length_map]
  exact length_take_le _ _

theorem parsePex_pexPayload (hlen : peers.length ≤ maxPexPeers)
    (hfps : ∀ peer ∈ peers, FitsField peer.1) :
    parsePex (pexPayload peers) = some (peers.map fun peer => (peer.1, addrString peer.2)) := by
  have hcount : (UInt8.ofNat peers.length).toNat = peers.length := by
    rw [UInt8.toNat_ofNat', Nat.mod_eq_of_lt]
    rw [maxPexPeers] at hlen
    omega
  have hprefix : ghostPexMagic.isPrefixOf (pexPayload peers) = true :=
    isPrefixOf_iff_prefix.mpr (prefix_append _ _)
  rw [parsePex, if_neg (by rw [pexPayload, not_earlier]; decide), if_pos hprefix, pexPayload,
    drop_left]
  dsimp only
  rw [hcount, pexEntries_flatMap hfps]

theorem pexPairs_pexPayload (hlen : peers.length ≤ maxPexPeers)
    (hfps : ∀ peer ∈ peers, FitsField peer.1) :
    pexPairs (pexPayload peers) = some (peers.map fun peer => (peer.1, some peer.2.plain)) := by
  rw [pexPairs, parsePex_pexPayload hlen hfps, Option.map_some, map_map]
  simp only [Function.comp_def, utf8_addrString, Inet.SocketAddr.parse_text]

theorem pexTargets_pexPayload {peers : List (String × Inet.SocketAddr)}
    (hlen : peers.length ≤ maxPexPeers) (hfps : ∀ peer ∈ peers, FitsField peer.1) (ownFp : String)
    (known : String → Bool) :
    pexTargets ownFp known (pexPayload peers) =
      some ((peers.filter fun peer => ¬ (peer.1 = ownFp ∨ known peer.1)).map
        fun peer => peer.2.plain) := by
  rw [pexTargets, pexPairs_pexPayload hlen hfps, Option.map_some]
  congr 1
  clear hlen hfps
  induction peers with
  | nil => rfl
  | cons peer peers ih =>
      rw [map_cons, filterMap_cons, ih]
      dsimp only
      by_cases hold : peer.1 = ownFp ∨ known peer.1 = true
      · rw [if_pos hold, filter_cons_of_neg (by simp [hold])]
      · rw [if_neg hold, filter_cons_of_pos (by simp [hold]), map_cons]

/-! ### Frames -/

theorem length_pexPayload (peers : List (String × Inet.SocketAddr)) :
    (pexPayload peers).length = 15 + (peers.map fun peer => 17 + peer.2.text.length).sum := by
  have hentry : ∀ peer, (pexEntry peer).length = 17 + peer.2.text.length := by
    intro peer
    rw [pexEntry, length_append, List.Vector.toList_length, length_append,
      length_singleton]
    omega
  rw [pexPayload, length_append, length_cons, length_ghostPexMagic, length_flatMap]
  simp only [hentry]
  omega

/-- The entries are short enough for the shards to fit in privacy frames. -/
def FitsFrames (shardsec : Bool) (peers : List (String × Inet.SocketAddr)) : Prop :=
  (peers.map fun peer => 17 + peer.2.text.length).sum ≤ if shardsec then 863 else 879
  deriving Decidable

theorem length_shard_le_iff (shardsec : Bool) (peers : List (String × Inet.SocketAddr)) :
    ((pexPayload peers).length + 3) / 2 + (if shardsec then 18 else 10) ≤ capacity false ↔
      FitsFrames shardsec peers := by
  rw [length_pexPayload, FitsFrames, show capacity false = 458 from rfl]
  split <;> omega

section

variable {rs : ReedSolomon} {A : Aead C} {shardsec : Bool} {ctx : SealCtx C} {pay : Bytes}

theorem send3Mixed_encSplit (rs : ReedSolomon) (A : Aead C) (shardsec : Bool) (ctx : SealCtx C)
    (pay : Bytes) :
    send3Mixed A shardsec ctx (encSplit rs A shardsec ctx pay).1 (encSplit rs A shardsec ctx pay).2 =
      [0, 1, 2].filterMap fun i => (dataFrame rs A shardsec false ctx pay i).toOption := by
  obtain ⟨a, b, c, hshards⟩ := length_eq_three.mp (length_encSplit rs A shardsec ctx pay)
  simp only [send3Mixed, dataFrame, hshards]
  rfl

theorem send3Mixed_of_fits {frame : Fin 3 → Bytes}
    (hframe : ∀ i, dataFrame rs A shardsec false ctx pay i = .ok (frame i)) :
    send3Mixed A shardsec ctx (encSplit rs A shardsec ctx pay).1 (encSplit rs A shardsec ctx pay).2 =
      [frame 0, frame 1, frame 2] := by
  rw [send3Mixed_encSplit]
  simp [hframe, Except.toOption]

theorem send3Mixed_of_long (hrs : rs.Lawful) (hA : A.Lawful)
    (hlong : ¬ (pay.length + 3) / 2 + (if shardsec then 18 else 10) ≤ capacity false) :
    send3Mixed A shardsec ctx (encSplit rs A shardsec ctx pay).1 (encSplit rs A shardsec ctx pay).2 =
      [] := by
  rw [send3Mixed_encSplit, filterMap_eq_nil_iff]
  intro i _
  rw [← Option.not_isSome_iff_eq_none, dataFrame_isSome_iff hrs hA]
  exact hlong

end

/-- The frames of `frames` that arrive, in the order of arrival. -/
def arrivals (frames : List Bytes) (src : Fin 3 → SocketAddr) (now : Fin 3 → ℕ)
    (order : List (Fin 3)) : List (Bytes × SocketAddr × ℕ) :=
  order.filterMap fun i => frames[i.1]?.map fun frame => (frame, src i, now i)

theorem arrivals_frames (frame : Fin 3 → Bytes) (src : Fin 3 → SocketAddr) (now : Fin 3 → ℕ)
    (order : List (Fin 3)) :
    arrivals [frame 0, frame 1, frame 2] src now order =
      order.map fun i => (frame i, src i, now i) := by
  have hat : ∀ i : Fin 3, [frame 0, frame 1, frame 2][i.1]? = some (frame i) := by
    intro i
    fin_cases i <;> rfl
  simp only [arrivals, hat, Option.map_some, filterMap_eq_map']

theorem sendPex_eq_some {rs : ReedSolomon} {A : Aead C} {shardsec : Bool} {ctx : SealCtx C}
    {destFp : String} {peers : Table String Inet.SocketAddr} {destAddr : Inet.SocketAddr}
    {frames : List Bytes}
    (h : sendPex rs A shardsec (some ctx) destFp peers = some (destAddr, frames)) :
    peers.lookup destFp = some destAddr ∧
      frames = send3Mixed A shardsec ctx
        (encSplit rs A shardsec ctx (pexPayload (peerList destFp peers))).1
        (encSplit rs A shardsec ctx (pexPayload (peerList destFp peers))).2 := by
  unfold sendPex at h
  split at h
  · rename_i ctx' destAddr' hctx hdest
    cases hctx
    cases h
    exact ⟨hdest, rfl⟩
  · cases h

theorem sendPex_of_lookup {destFp : String} {peers : Table String Inet.SocketAddr}
    {destAddr : Inet.SocketAddr} (h : peers.lookup destFp = some destAddr) (rs : ReedSolomon)
    (A : Aead C) (shardsec : Bool) (ctx : SealCtx C) :
    sendPex rs A shardsec (some ctx) destFp peers =
      some (destAddr, send3Mixed A shardsec ctx
        (encSplit rs A shardsec ctx (pexPayload (peerList destFp peers))).1
        (encSplit rs A shardsec ctx (pexPayload (peerList destFp peers))).2) := by
  simp only [sendPex, h]

theorem mem_peerList {destFp : String} {peers : Table String Inet.SocketAddr}
    {peer : String × Inet.SocketAddr} (h : peer ∈ peerList destFp peers) : peer.1 ∈ peers := by
  obtain ⟨entry, hentry, rfl⟩ := mem_map.mp h
  have hmem := mem_of_mem_filter (mem_of_mem_take hentry)
  exact mem_keys_of_mem hmem

/-- All three frames of a list of peers are sent, and any two of them bring exactly that list to the
receiver, if and only if the entries are short enough and no address has flow information. -/
theorem pex_delivered_iff (rs : ReedSolomon) (hrs : rs.Lawful) (A : Aead C) (hA : A.Lawful)
    (shardsec : Bool) (ctx : SealCtx C) (destFp : String) (peers : Table String Inet.SocketAddr)
    (hfps : ∀ fp ∈ peers, FitsField fp) (destAddr : Inet.SocketAddr) (frames : List Bytes)
    (hsend : sendPex rs A shardsec (some ctx) destFp peers = some (destAddr, frames))
    (hauth : A.Authentic rs shardsec ctx (pexPayload (peerList destFp peers))) (rx : RxContext C)
    (hrx : Awaits rx ctx) (src : Fin 3 → SocketAddr)
    (hsrc : ctx.sessionHash = List.Vector.replicate 4 0 → ∀ i j, src i = src j)
    (hroom : rx.spool.size < maxSpoolEntries)
    (hfresh : rx.spool.lookup (messageKey ctx (src 0)) = none) (now : Fin 3 → ℕ)
    (order : List (Fin 3)) (hnodup : order.Nodup) (htwo : 2 ≤ order.length) :
    frames.length = 3 ∧
        (receiveAll rs A rx (arrivals frames src now order)).map pexPairs =
          [some ((peerList destFp peers).map fun peer => (peer.1, some peer.2))] ↔
      FitsFrames shardsec (peerList destFp peers) ∧
        ∀ peer ∈ peerList destFp peers, peer.2.flowinfo = 0 := by
  obtain ⟨-, rfl⟩ := sendPex_eq_some hsend
  rw [← length_shard_le_iff]
  by_cases hfits : ((pexPayload (peerList destFp peers)).length + 3) / 2 +
      (if shardsec then 18 else 10) ≤ capacity false
  · obtain ⟨frame, hok⟩ : ∃ frame : Fin 3 → Bytes, ∀ i, dataFrame rs A shardsec false ctx
        (pexPayload (peerList destFp peers)) i = .ok (frame i) := exists_dataFrames hrs hA hfits
    have hreceived := receiveAll_frames hrs hA hauth hok hrx (messageKey_eq hsrc) hroom hfresh now
      hnodup htwo
    rw [if_pos (Or.inr rfl)] at hreceived
    have hcount : [frame 0, frame 1, frame 2].length = 3 := rfl
    rw [send3Mixed_of_fits hok, arrivals_frames, hreceived, map_singleton,
      pexPairs_pexPayload (length_peerList_le destFp peers)
        (fun peer hpeer => hfps peer.1 (mem_peerList hpeer)),
      and_iff_right hfits, and_iff_right hcount, singleton_inj, Option.some_inj,
      map_inj_left]
    refine forall₂_congr fun peer _ => ?_
    rw [Prod.mk.injEq, and_iff_right rfl, Option.some_inj, Inet.SocketAddr.plain_eq_iff]
  · rw [send3Mixed_of_long hrs hA hfits]
    exact iff_of_false (fun h => absurd h.1 (by decide)) fun h => hfits h.1

/-! ### Two tables -/

def addressOf (host : UInt8) : Inet.SocketAddr :=
  .v4 { ip := ⟨[203, 0, 113, host], rfl⟩, port := 40000 }

def twoPeers : Table String Inet.SocketAddr :=
  ⟨[⟨"peer", addressOf 7⟩,
    ⟨"relay", .v6 { segments := ⟨[0x2001, 0xdb8, 0, 0, 0, 0, 0, 1], rfl⟩, port := 9000
                    flowinfo := 0, scopeId := 3 }⟩],
    by unfold NodupKeys; decide +kernel⟩

def twoPeersFrames : List Bytes :=
  send3Mixed firstAead false firstCtx
    (encSplit galois8 firstAead false firstCtx (pexPayload (peerList "peer" twoPeers))).1
    (encSplit galois8 firstAead false firstCtx (pexPayload (peerList "peer" twoPeers))).2

theorem twoPeers_delivered :
    twoPeersFrames.length = 3 ∧
      (receiveAll galois8 firstAead firstRx
        (arrivals twoPeersFrames (fun _ => localhost) (fun _ => 0) [2, 0])).map pexPairs =
          [some ((peerList "peer" twoPeers).map fun peer => (peer.1, some peer.2))] :=
  (pex_delivered_iff galois8 galois8_lawful firstAead firstAead_lawful false firstCtx "peer" twoPeers
    (by decide +kernel) (addressOf 7) twoPeersFrames
    (sendPex_of_lookup (by decide +kernel) galois8 firstAead false firstCtx) (firstAead_authentic _)
    firstRx awaits_firstRx (fun _ => localhost) (fun _ _ _ => rfl) (by decide)
    (AList.lookup_empty _) (fun _ => 0) [2, 0] (by decide) (by decide)).mpr
    ⟨by decide +kernel, by decide +kernel⟩

/-- A receiver and twenty-five other peers, all of IPv4. -/
def crowd : Table String Inet.SocketAddr :=
  ⟨(range 26).map fun i =>
      ⟨String.singleton (Char.ofNat (97 + i)), addressOf (UInt8.ofNat (100 + i))⟩,
    by unfold NodupKeys; decide +kernel⟩

/-- Their entries do not fit in three frames, and nothing is sent. -/
theorem crowd_not_sent :
    (∀ fp ∈ crowd, FitsField fp) ∧ (peerList "a" crowd).length = 25 ∧
      sendPex galois8 firstAead false (some firstCtx) "a" crowd = some (addressOf 100, []) := by
  refine ⟨by decide +kernel, by decide +kernel, ?_⟩
  have hlong : ¬ FitsFrames false (peerList "a" crowd) := by decide +kernel
  have hdest : crowd.lookup "a" = some (addressOf 100) := by decide +kernel
  rw [sendPex_of_lookup hdest, send3Mixed_of_long galois8_lawful firstAead_lawful]
  rw [length_shard_le_iff]
  exact hlong

theorem pexTargets_own_left_out :
    pexTargets "peer" (fun _ => false)
      (pexPayload [("peer", addressOf 7), ("relay", addressOf 8)]) = some [addressOf 8] :=
  (pexTargets_pexPayload (by decide) (by decide +kernel) "peer" fun _ => false).trans
    (by decide +kernel)

end Vantablack.Net
