import Vantablack.Receive.Open
import Vantablack.Symbolic

/-!
A message on its way through `enc_split`, three frames, the spool and the open of the peer's
session. What meets in the middle is the coded message, cut into three shards: with ShardSec the
framed payload, else the one ciphertext of it.
-/

namespace Vantablack.Send

open Lib Layers Session Receive List

variable {C : Crypto}

theorem unframe_frameShard {d : Bytes} (hne : d ≠ []) (hlen : d.length < 65536) (rest : Bytes) :
    unframe (frameShard d ++ rest) = some d := by
  obtain ⟨hi, lo, hprefix⟩ := length_eq_two.mp (length_toBeBytes 2 d.length)
  have hread : fromBeBytes [hi, lo] = d.length := by
    rw [← hprefix, fromBeBytes_toBeBytes hlen]
  have hpos : d.length ≠ 0 := length_pos_iff.mpr hne |>.ne'
  rw [frameShard, hprefix]
  show unframe (hi :: lo :: (d ++ rest)) = some d
  simp only [unframe, hread, length_append, take_left]
  rw [if_neg]
  simp [hpos]

theorem exists_framedPayload (pay : Bytes) :
    ∃ pad, framedPayload pay = toBeBytes 2 pay.length ++ (pay ++ pad) := by
  rw [framedPayload, padded]
  split
  · exact ⟨[0], append_assoc ..⟩
  · exact ⟨[], by rw [append_nil]⟩

theorem framePayload_framedPayload {pay : Bytes} (hlen : pay.length < 65536) :
    framePayload (framedPayload pay) = some pay := by
  have hlength := length_framedPayload pay
  obtain ⟨pad, hpad⟩ := exists_framedPayload pay
  have hn : fromBeBytes ((framedPayload pay).take 2) = pay.length := by
    rw [hpad, take_left' (length_toBeBytes 2 _), fromBeBytes_toBeBytes hlen]
  have hbody : ((framedPayload pay).drop 2).take pay.length = pay := by
    rw [hpad, drop_left' (length_toBeBytes 2 _), take_left]
  rw [framePayload, if_neg (by omega)]
  dsimp only
  rw [hn, hbody, if_pos (by omega)]

/-! ### The coded message -/

/-- What is cut into shards. -/
def coded (A : Aead C) (shardsec : Bool) (ctx : SealCtx C) (pay : Bytes) : Bytes :=
  if shardsec then framedPayload pay else sealMessage A ctx pay

theorem coded_ne_nil {A : Aead C} (hA : A.Lawful) (shardsec : Bool) (ctx : SealCtx C)
    (pay : Bytes) : coded A shardsec ctx pay ≠ [] := by
  unfold coded
  split
  · exact framedPayload_ne_nil pay
  · rw [← length_pos_iff, sealMessage, hA.length_seal]
    omega

theorem padded_coded {A : Aead C} (hA : A.Lawful) (shardsec : Bool) (ctx : SealCtx C)
    (pay : Bytes) : padded (coded A shardsec ctx pay) = coded A shardsec ctx pay := by
  have hlength := length_framedPayload pay
  rw [padded, if_neg]
  unfold coded
  split
  · omega
  · rw [sealMessage, hA.length_seal]
    omega

def wireOf (A : Aead C) (shardsec : Bool) (ctx : SealCtx C) (i : ℕ) (shard : Bytes) : Bytes :=
  if shardsec then wireShard A ctx i shard else shard

theorem getElem?_encSplit (rs : ReedSolomon) (A : Aead C) (shardsec : Bool) (ctx : SealCtx C)
    (pay : Bytes) (i : ℕ) :
    (encSplit rs A shardsec ctx pay).1[i]? =
      (encode rs (coded A shardsec ctx pay))[i]?.map fun shard =>
        frameShard (wireOf A shardsec ctx i shard) := by
  cases shardsec with
  | true =>
      simp only [encSplit, coded, wireOf, if_true, getElem?_mapIdx]
  | false =>
      simp only [encSplit, coded, wireOf, Bool.false_eq_true, if_false, getElem?_map]

/-! ### Frames -/

def dataFrame (rs : ReedSolomon) (A : Aead C) (shardsec bulk : Bool) (ctx : SealCtx C)
    (pay : Bytes) (i : Fin 3) : Except String Bytes :=
  tryBuildGtfV2Frame (ctx.dataHeader A shardsec (UInt8.ofNat i) bulk 0)
    ((encSplit rs A shardsec ctx pay).1[i.1]?.getD []) (encSplit rs A shardsec ctx pay).2

/-- What the receiver keeps of the header of such a frame. -/
def metaOf (A : Aead C) (shardsec bulk : Bool) (ctx : SealCtx C) : V2FrameMeta where
  epoch := ctx.epoch
  nonce := ctx.nonce
  bulk := bulk
  tail := if bulk then List.Vector.replicate 64 0 else ctx.tail A
  shardsec := shardsec

structure Carries (A : Aead C) (shardsec bulk : Bool) (ctx : SealCtx C) (i : Fin 3)
    (shard frame : Bytes) : Prop where
  reads : ReadsAs frame (ctx.dataHeader A shardsec (UInt8.ofNat i) bulk 0) shardsec
    (frameShard (wireOf A shardsec ctx i shard))
  v2 : V2FrameMeta.of frame = some (metaOf A shardsec bulk ctx)
  unframed : unframe (extractPayload frame) = some (wireOf A shardsec ctx i shard)

theorem capacity_le (bulk : Bool) : capacity bulk ≤ 1418 := by
  cases bulk <;> decide

theorem wireOf_ne_nil {A : Aead C} (hA : A.Lawful) (shardsec : Bool) (ctx : SealCtx C) (i : ℕ)
    {shard : Bytes} (hne : shard ≠ []) : wireOf A shardsec ctx i shard ≠ [] := by
  unfold wireOf
  split
  · rw [← length_pos_iff, wireShard_eq hA, hA.length_seal]
    omega
  · exact hne

theorem ne_nil_of_mem_encode {rs : ReedSolomon} (hrs : rs.Lawful) {data shard : Bytes}
    (hne : data ≠ []) (h : shard ∈ encode rs data) : shard ≠ [] := by
  have hpos := length_pos_iff.mpr hne
  rw [← length_pos_iff, length_of_mem_encode hrs hne h]
  omega

theorem carries_dataFrame {rs : ReedSolomon} (hrs : rs.Lawful) {A : Aead C} (hA : A.Lawful)
    {shardsec bulk : Bool} {ctx : SealCtx C} {pay frame : Bytes} {i : Fin 3}
    (hbuild : dataFrame rs A shardsec bulk ctx pay i = .ok frame) :
    ∃ shard, (encode rs (coded A shardsec ctx pay))[i.1]? = some shard ∧
      Carries A shardsec bulk ctx i shard frame := by
  have hi : i.1 < (encode rs (coded A shardsec ctx pay)).length := by
    rw [length_encode]
    exact i.2
  obtain ⟨shard, hshard⟩ : ∃ shard, (encode rs (coded A shardsec ctx pay))[i.1]? = some shard :=
    ⟨_, getElem?_eq_getElem hi⟩
  rw [dataFrame, getElem?_encSplit, hshard, Option.map_some, Option.getD_some] at hbuild
  have hflags : DataFlags (ctx.dataHeader A shardsec (UInt8.ofNat i) bulk 0) shardsec := by
    cases shardsec <;> rfl
  have hreads := readsAs_of_build hflags ctx.counter_lt ctx.epoch_lt hbuild
  have hne : shard ≠ [] :=
    ne_nil_of_mem_encode hrs (coded_ne_nil hA shardsec ctx pay) (mem_of_getElem? hshard)
  have hfits : (frameShard (wireOf A shardsec ctx i shard)).length ≤ capacity bulk :=
    (layout_of_build hbuild).fits
  have hcap := capacity_le bulk
  have hlen : (wireOf A shardsec ctx i shard).length < 65536 := by
    rw [length_frameShard] at hfits
    omega
  refine ⟨shard, hshard, hreads, hreads.v2, ?_⟩
  obtain ⟨rest, hrest⟩ := hreads.payload
  rw [hrest, unframe_frameShard (wireOf_ne_nil hA shardsec ctx i hne) hlen]

theorem length_lt_of_build {rs : ReedSolomon} (hrs : rs.Lawful) {A : Aead C} (hA : A.Lawful)
    {shardsec bulk : Bool} {ctx : SealCtx C} {pay frame : Bytes} {i : Fin 3}
    (hbuild : dataFrame rs A shardsec bulk ctx pay i = .ok frame) : pay.length < 65536 := by
  have hi : i.1 < (encSplit rs A shardsec ctx pay).1.length := by
    rw [length_encSplit]
    exact i.2
  rw [dataFrame, getElem?_eq_getElem hi, Option.getD_some] at hbuild
  have hlen := length_of_mem_encSplit hrs hA shardsec ctx pay (getElem_mem hi)
  have hfits : (encSplit rs A shardsec ctx pay).1[i.1].length ≤ capacity bulk :=
    (layout_of_build hbuild).fits
  have hcap := capacity_le bulk
  omega

theorem dataFrame_isSome_iff {rs : ReedSolomon} (hrs : rs.Lawful) {A : Aead C} (hA : A.Lawful)
    {shardsec bulk : Bool} {ctx : SealCtx C} {pay : Bytes} (i : Fin 3) :
    (dataFrame rs A shardsec bulk ctx pay i).toOption.isSome = true ↔
      (pay.length + 3) / 2 + (if shardsec then 18 else 10) ≤ capacity bulk := by
  have hi : i.1 < (encSplit rs A shardsec ctx pay).1.length := by
    rw [length_encSplit]
    exact i.2
  have hlen := length_of_mem_encSplit hrs hA shardsec ctx pay (getElem_mem hi)
  rw [dataFrame, getElem?_eq_getElem hi, Option.getD_some]
  constructor
  · intro hframe
    by_contra hlong
    rw [tryBuildGtfV2Frame, if_pos] at hframe
    · cases hframe
    · rw [hlen]
      exact not_le.mp hlong
  · intro hfits
    exact tryBuildGtfV2Frame_isSome (h := ctx.dataHeader A shardsec (UInt8.ofNat i) bulk 0)
      (hlen.trans_le hfits) _

theorem exists_dataFrames {rs : ReedSolomon} (hrs : rs.Lawful) {A : Aead C} (hA : A.Lawful)
    {shardsec bulk : Bool} {ctx : SealCtx C} {pay : Bytes}
    (hfits : (pay.length + 3) / 2 + (if shardsec then 18 else 10) ≤ capacity bulk) :
    ∃ frame : Fin 3 → Bytes, ∀ i, dataFrame rs A shardsec bulk ctx pay i = .ok (frame i) := by
  have hsome : ∀ i, ∃ frame, dataFrame rs A shardsec bulk ctx pay i = .ok frame := by
    intro i
    have hframed : (dataFrame rs A shardsec bulk ctx pay i).toOption.isSome = true :=
      (dataFrame_isSome_iff hrs hA i).mpr hfits
    cases hresult : dataFrame rs A shardsec bulk ctx pay i with
    | error e =>
        rw [hresult] at hframed
        cases hframed
    | ok frame => exact ⟨frame, rfl⟩
  exact ⟨fun i => (hsome i).choose, fun i => (hsome i).choose_spec⟩

/-- Only what it was sealed with opens this ciphertext. -/
def Aead.OpensOnly (A : Aead C) (key : C.Key) (nonce : Octets 12) (epoch : ℕ)
    (direction : NonceDirection) (aad data : Bytes) : Prop :=
  ∀ key' nonce' epoch' direction' aad',
    A.xchachaOpen key' nonce' epoch' direction' aad'
        (A.xchachaSeal key nonce epoch direction aad data) ≠ none →
      (key', nonce', epoch', direction', aad') = (key, nonce, epoch, direction, aad)

/-- The same for each ciphertext of a message. -/
def Aead.Authentic (rs : ReedSolomon) (A : Aead C) (shardsec : Bool) (ctx : SealCtx C)
    (pay : Bytes) : Prop :=
  if shardsec then
    ∀ (i : ℕ) (shard : Bytes), (encode rs (framedPayload pay))[i]? = some shard →
      A.OpensOnly (A.shardKey ctx.key ctx.epoch ctx.nonce (UInt8.ofNat i))
        (shardNonce ctx.nonce (UInt8.ofNat i)) ctx.epoch ctx.direction [] shard
  else
    A.OpensOnly ctx.key ctx.nonce ctx.epoch ctx.direction (ctx.tail A).toList (framedPayload pay)

theorem Aead.OpensOnly.eq_of_open {A : Aead C} (hA : A.Lawful) {key key' : C.Key}
    {nonce nonce' : Octets 12} {epoch epoch' : ℕ} {direction direction' : NonceDirection}
    {aad aad' data plain : Bytes} (h : A.OpensOnly key nonce epoch direction aad data)
    (hopen : A.xchachaOpen key' nonce' epoch' direction' aad'
      (A.xchachaSeal key nonce epoch direction aad data) = some plain) :
    plain = data ∧ aad' = aad := by
  have hsome : A.xchachaOpen key' nonce' epoch' direction' aad'
      (A.xchachaSeal key nonce epoch direction aad data) ≠ none := by
    rw [hopen]
    exact Option.some_ne_none plain
  obtain ⟨rfl, rfl, rfl, rfl, rfl⟩ : key' = key ∧ nonce' = nonce ∧ epoch' = epoch ∧
      direction' = direction ∧ aad' = aad := by
    simpa only [Prod.mk.injEq] using h key' nonce' epoch' direction' aad' hsome
  rw [hA.open_seal] at hopen
  exact ⟨(Option.some.inj hopen).symm, rfl⟩

/-! ### The receiver -/

/-- Among the sessions is the peer's, and it has the key for the message. -/
def HasPeer (t : SessionTable C) (ctx : SealCtx C) : Prop :=
  ∃ fp s, t.table.lookup fp = some s ∧ s.sessionHash = ctx.sessionHash.toList ∧
    s.role.sealDirection.peerDirection = ctx.direction ∧
    (s.planOpen ctx.epoch ctx.direction ctx.counter).key? = some ctx.key

variable {t : SessionTable C}

theorem HasPeer.of_keepsPeers {t' : SessionTable C} {ctx : SealCtx C} (h : HasPeer t ctx)
    (hkeeps : KeepsPeers t t') : HasPeer t' ctx := by
  obtain ⟨fp, s, hs, hhash, hrole, hkey⟩ := h
  obtain ⟨s', hs', hsame⟩ := hkeeps fp s hs
  refine ⟨fp, s', hs', ?_, ?_, ?_⟩
  · rw [hsame.sessionHash, hhash]
  · rw [hsame.role, hrole]
  · rw [Session.planOpen, hsame.ratchet]
    exact hkey

structure Awaits (rx : RxContext C) (ctx : SealCtx C) : Prop where
  connected : rx.connected = true
  peer : HasPeer rx.sessions ctx

theorem sealedShardOf_eq (index : UInt8) {sd : Bytes} (h : 16 ≤ sd.length) :
    ∃ sealedShard, sealedShardOf index sd = some sealedShard ∧ sealedShard.index = index ∧
      sealedShard.ciphertext ++ sealedShard.tag.toList = sd := by
  refine ⟨_, if_neg (not_lt.mpr h), rfl, ?_⟩
  exact take_append_tagOf h

theorem openWith_carried {A : Aead C} (hA : A.Lawful) {bulk : Bool} {ctx : SealCtx C} {i : Fin 3}
    {shard frame : Bytes} (hframe : Carries A true bulk ctx i shard frame)
    (honly : A.OpensOnly (A.shardKey ctx.key ctx.epoch ctx.nonce (UInt8.ofNat i))
      (shardNonce ctx.nonce (UInt8.ofNat i)) ctx.epoch ctx.direction [] shard) (ht : HasPeer t ctx)
    (now : ℕ) {sealedShard : SealedShard} (hindex : sealedShard.index = UInt8.ofNat i)
    (hdata : sealedShard.ciphertext ++ sealedShard.tag.toList = wireShard A ctx i shard) :
    (openWith A.shardAead t now frame (metaOf A true bulk ctx) sealedShard).1 =
        some shard ∧
      KeepsPeers t
        (openWith A.shardAead t now frame (metaOf A true bulk ctx) sealedShard).2 := by
  obtain ⟨fp, s, hs, hhash, hrole, hkey⟩ := ht
  have hsmall : ¬ 3 ≤ (UInt8.ofNat i).toNat := by
    fin_cases i <;> decide
  have hopens : ∀ direction key,
      openShard A.shardAead key ctx.epoch ctx.nonce direction sealedShard =
        A.xchachaOpen (A.shardKey key ctx.epoch ctx.nonce (UInt8.ofNat i))
          (shardNonce ctx.nonce (UInt8.ofNat i)) ctx.epoch direction []
          (A.xchachaSeal (A.shardKey ctx.key ctx.epoch ctx.nonce (UInt8.ofNat i))
            (shardNonce ctx.nonce (UInt8.ofNat i)) ctx.epoch ctx.direction [] shard) := by
    intro direction key
    rw [openShard, hindex, if_neg hsmall, hdata, wireShard_eq hA]
    rfl
  rw [openWith, hframe.reads.sessionHash, hframe.reads.counter, tryCandidates_eq_firstOpened]
  refine ⟨?_, keepsPeers_firstOpened (samePeer_trySession now _ _ _) _ _⟩
  refine firstOpened_eq_some (readsChains_trySession now _ _ _) hs ?_ ?_ ?_
  · exact decide_eq_true hhash
  · rw [trySession_fst]
    refine attemptOpen_of_peer ctx.key ?_ ?_
    · rw [hrole]
      exact hkey
    · exact (hopens _ _).trans (by rw [hrole, hA.open_seal])
  · intro s ours other hother
    rw [trySession_fst] at hother
    obtain ⟨direction, key, hopen⟩ := attemptOpen_eq_some hother
    exact (honly.eq_of_open hA ((hopens direction key).symm.trans hopen)).1

theorem route_carried {rs : ReedSolomon} {A : Aead C} (hA : A.Lawful) {shardsec bulk : Bool}
    {ctx : SealCtx C} {pay : Bytes} (hauth : A.Authentic rs shardsec ctx pay) {i : Fin 3}
    {shard frame : Bytes} (hshard : (encode rs (coded A shardsec ctx pay))[i.1]? = some shard)
    (hframe : Carries A shardsec bulk ctx i shard frame) {rx : RxContext C} (hrx : Awaits rx ctx)
    (now : ℕ) :
    (route A.shardAead rx now frame).1 = .shard i shard ∧
      KeepsPeers rx.sessions (route A.shardAead rx now frame).2 := by
  have hlong : ¬ frame.length < minFrameSize := not_lt.mpr hframe.reads.length
  have hindex : (UInt8.ofNat i).toNat = i := by
    fin_cases i <;> rfl
  have hsmall : ¬ 2 < (UInt8.ofNat i).toNat := by
    rw [hindex]
    omega
  have hbyte : frame[8]?.getD 0 = UInt8.ofNat i := by
    rw [hframe.reads.shardIndex]
    rfl
  rw [route]
  simp only [hrx.connected, hlong, Bool.not_true, decide_false, Bool.or_self, Bool.false_eq_true,
    if_false, hframe.unframed, hframe.reads.notTunnel, ne_eq, not_true_eq_false, hbyte, hsmall,
    hframe.v2]
  cases shardsec with
  | false => exact ⟨congrArg (Routed.shard · shard) hindex, .refl _⟩
  | true =>
      have hlen : 16 ≤ (wireShard A ctx i shard).length := by
        rw [wireShard_eq hA, hA.length_seal]
        omega
      obtain ⟨sealedShard, hsealed, hidx, hdata⟩ := sealedShardOf_eq (UInt8.ofNat i) hlen
      have hopened := openWith_carried hA hframe (hauth i shard hshard) hrx.peer now hidx hdata
      have hmode : (metaOf A true bulk ctx).shardsec = true := rfl
      simp only [Option.filter_some, hmode, wireOf, if_true, hsealed]
      generalize openWith A.shardAead rx.sessions now frame (metaOf A true bulk ctx) sealedShard =
        result at hopened
      obtain ⟨opened, sessions⟩ := result
      obtain ⟨rfl, hkeeps⟩ := hopened
      exact ⟨congrArg (Routed.shard · shard) hindex, hkeeps⟩

theorem openDelivery_coded {rs : ReedSolomon} {A : Aead C} (hA : A.Lawful) {shardsec bulk : Bool}
    {ctx : SealCtx C} {pay : Bytes} (hauth : A.Authentic rs shardsec ctx pay) (ht : HasPeer t ctx)
    (now : ℕ) {d : Delivery} (hctr : d.ctr = ctx.counter)
    (hpayload : d.payload = coded A shardsec ctx pay)
    (hhash : d.wireSessionHash = some ctx.sessionHash) :
    (openDelivery A t now d (metaOf A shardsec bulk ctx)).1 =
      if shardsec = true ∨ bulk = false then some (framedPayload pay) else none := by
  obtain ⟨fp, s, hs, hwire, hrole, hkey⟩ := ht
  have hmode : (metaOf A shardsec bulk ctx).shardsec = shardsec := rfl
  rw [openDelivery, hmode]
  cases shardsec with
  | true =>
      rw [if_pos rfl, if_pos (Or.inl rfl)]
      refine firstOpened_eq_some ⟨fun _ _ _ _ => rfl, fun _ _ h => ?_⟩ hs ?_ ?_ ?_
      · cases h
      · rw [hhash, hwire]
        exact decide_eq_true rfl
      · rw [hpayload]
        rfl
      · intro _ _ other hother
        rw [← Option.some.inj hother, hpayload]
        rfl
  | false =>
      have hopens : ∀ direction key,
          opensFrame A (metaOf A false bulk ctx) d.payload direction key =
            A.xchachaOpen key ctx.nonce ctx.epoch direction
              (if bulk then [] else (if bulk then List.Vector.replicate 64 0 else ctx.tail A).toList)
              (A.xchachaSeal ctx.key ctx.nonce ctx.epoch ctx.direction (ctx.tail A).toList
                (framedPayload pay)) := by
        intro direction key
        rw [hpayload]
        rfl
      have hchains := readsChains_openFrame A now d.ctr (metaOf A false bulk ctx) d.payload
      rw [if_neg Bool.false_ne_true]
      cases bulk with
      | false =>
          rw [if_pos (Or.inr rfl)]
          refine firstOpened_eq_some hchains hs rfl ?_ ?_
          · rw [openFrame_fst]
            refine attemptOpen_of_peer ctx.key ?_ ?_
            · rw [hrole, hctr]
              exact hkey
            · rw [hopens, hrole]
              exact hA.open_seal ..
          · intro s ours other hother
            rw [openFrame_fst] at hother
            obtain ⟨direction, key, hopen⟩ := attemptOpen_eq_some hother
            rw [hopens] at hopen
            exact (Aead.OpensOnly.eq_of_open hA hauth hopen).1
      | true =>
          rw [if_neg (by simp)]
          refine firstOpened_eq_none hchains ?_
          intro s ours
          rw [openFrame_fst, Option.eq_none_iff_forall_ne_some]
          intro other hother
          obtain ⟨direction, key, hopen⟩ := attemptOpen_eq_some hother
          rw [hopens] at hopen
          have haad := (Aead.OpensOnly.eq_of_open hA hauth hopen).2
          have hlen := congrArg length haad
          rw [List.Vector.toList_length] at hlen
          cases hlen

/-! ### From frame to frame -/

/-- The bucket of the message. -/
def messageKey (ctx : SealCtx C) (src : SocketAddr) : SpoolKey where
  sessionHash := ctx.sessionHash
  epoch := ctx.epoch
  counter := ctx.counter
  preSessionSrc := if ctx.sessionHash = List.Vector.replicate 4 0 then some src else none

theorem messageKey_eq {ctx : SealCtx C} {src : Fin 3 → SocketAddr}
    (hsrc : ctx.sessionHash = List.Vector.replicate 4 0 → ∀ i j, src i = src j) (i j : Fin 3) :
    messageKey ctx (src i) = messageKey ctx (src j) := by
  unfold messageKey
  split
  · rename_i hzero
    rw [hsrc hzero i j]
  · rfl

theorem Carries.spoolKey {A : Aead C} {shardsec bulk : Bool} {ctx : SealCtx C} {i : Fin 3}
    {shard frame : Bytes} (h : Carries A shardsec bulk ctx i shard frame) (src : SocketAddr) :
    SpoolKey.of src frame (V2FrameMeta.of frame) = messageKey ctx src := by
  rw [SpoolKey.of, h.v2, h.reads.sessionHash, h.reads.counter]
  rfl

theorem ingest_of_route {rs : ReedSolomon} {A : ShardAead C} {rx : RxContext C} {now : ℕ}
    {datagram : Bytes} {idx : ℕ} {data : Bytes} (h : (route A rx now datagram).1 = .shard idx data)
    (src : SocketAddr) {key : SpoolKey}
    (hkey : SpoolKey.of src datagram (V2FrameMeta.of datagram) = key) :
    ingest rs A rx now datagram src =
      ({ rx with
         sessions := (route A rx now datagram).2
         spool := (assemble rs rx.spool key idx data).2 },
       (assemble rs rx.spool key idx data).1.map fun payload =>
         { ctr := parsePacketCounterU64 datagram, v2 := V2FrameMeta.of datagram
           payload := payload, src := src, wireSessionHash := some (parseSessionHash datagram)
           shards := filled rx.spool key idx data }) := by
  rw [ingest, ← hkey]
  generalize route A rx now datagram = routed at h
  obtain ⟨result, sessions⟩ := routed
  cases h
  rfl

theorem ingest_of_dropped {rs : ReedSolomon} {A : ShardAead C} {rx : RxContext C} {now : ℕ}
    {datagram : Bytes} (h : (route A rx now datagram).1 = .dropped) (src : SocketAddr) :
    (ingest rs A rx now datagram src).2 = none := by
  rw [ingest]
  generalize route A rx now datagram = routed at h
  obtain ⟨result, sessions⟩ := routed
  cases h
  rfl

theorem route_ne_whole {A : ShardAead C} {rx : RxContext C} {now : ℕ} {datagram : Bytes}
    (h : parseFlags datagram &&& flagTunnel = 0) (sd : Bytes) :
    (route A rx now datagram).1 ≠ .whole sd := by
  rw [route]
  simp only [h, ne_eq, not_true_eq_false, if_false]
  repeat' split
  all_goals simp

section Steps

variable {rs : ReedSolomon} {A : Aead C} {shardsec bulk : Bool} {ctx : SealCtx C} {pay : Bytes}
  {i j : Fin 3} {shard other frame : Bytes} {rx : RxContext C}

theorem receive_first (hA : A.Lawful) (hauth : A.Authentic rs shardsec ctx pay)
    (hshard : (encode rs (coded A shardsec ctx pay))[i.1]? = some shard)
    (hframe : Carries A shardsec bulk ctx i shard frame) (hrx : Awaits rx ctx) (now : ℕ)
    (src : SocketAddr) (hroom : rx.spool.size ≤ maxSpoolEntries)
    (hfresh : rx.spool.lookup (messageKey ctx src) = none) :
    (receive rs A rx now frame src).2 = none ∧ Awaits (receive rs A rx now frame src).1 ctx ∧
      (receive rs A rx now frame src).1.spool =
        rx.spool.insert (messageKey ctx src) (([none, none, none] : Bucket).set i (some shard)) := by
  obtain ⟨hroute, hkeeps⟩ := route_carried hA hauth hshard hframe hrx now
  rw [receive, ingest_of_route hroute src (hframe.spoolKey src), assemble_first rs hroom hfresh]
  exact ⟨rfl, ⟨hrx.connected, hrx.peer.of_keepsPeers hkeeps⟩, rfl⟩

theorem receive_second (hrs : rs.Lawful) (hA : A.Lawful)
    (hauth : A.Authentic rs shardsec ctx pay) (hpay : pay.length < 65536)
    (hshard : (encode rs (coded A shardsec ctx pay))[i.1]? = some shard) (hij : i ≠ j)
    (hother : (encode rs (coded A shardsec ctx pay))[j.1]? = some other)
    (hframe : Carries A shardsec bulk ctx j other frame) (hrx : Awaits rx ctx) (now : ℕ)
    (src : SocketAddr) (hroom : rx.spool.size ≤ maxSpoolEntries)
    (hwaits : rx.spool.lookup (messageKey ctx src) =
      some (([none, none, none] : Bucket).set i (some shard))) :
    (receive rs A rx now frame src).2 =
        (if shardsec = true ∨ bulk = false then some pay else none) ∧
      (receive rs A rx now frame src).1.spool = rx.spool.erase (messageKey ctx src) := by
  obtain ⟨hroute, hkeeps⟩ := route_carried hA hauth hother hframe hrx now
  have hjoined : rejoin rs (bucketOf i j shard other) = some (coded A shardsec ctx pay) := by
    rw [rejoin_shards hrs (coded_ne_nil hA shardsec ctx pay) hij hshard hother,
      padded_coded hA shardsec ctx pay]
  rw [receive, ingest_of_route hroute src (hframe.spoolKey src), assemble_second rs hij hroom hwaits,
    hjoined, Option.map_some]
  simp only [hframe.v2, and_true]
  rw [openDelivery_coded hA hauth (hrx.peer.of_keepsPeers hkeeps) now hframe.reads.counter rfl
    (congrArg some hframe.reads.sessionHash)]
  split
  · exact framePayload_framedPayload hpay
  · rfl

theorem receive_late (hframe : Carries A shardsec bulk ctx i shard frame) (now : ℕ)
    (src : SocketAddr) (hroom : rx.spool.size ≤ maxSpoolEntries)
    (hfresh : rx.spool.lookup (messageKey ctx src) = none) :
    (receive rs A rx now frame src).2 = none := by
  have hnone : (ingest rs A.shardAead rx now frame src).2 = none := by
    cases hroute : (route A.shardAead rx now frame).1 with
    | shard idx data =>
        rw [ingest_of_route hroute src (hframe.spoolKey src), assemble_first rs hroom hfresh]
        rfl
    | dropped => exact ingest_of_dropped hroute src
    | whole sd => exact absurd hroute (route_ne_whole hframe.reads.notTunnel sd)
  rw [receive]
  generalize ingest rs A.shardAead rx now frame src = result at hnone
  obtain ⟨rx', delivery⟩ := result
  cases hnone
  rfl

end Steps

theorem receiveAll_frames {rs : ReedSolomon} (hrs : rs.Lawful) {A : Aead C} (hA : A.Lawful)
    {shardsec bulk : Bool} {ctx : SealCtx C} {pay : Bytes}
    (hauth : A.Authentic rs shardsec ctx pay) {frame : Fin 3 → Bytes}
    (hframe : ∀ i, dataFrame rs A shardsec bulk ctx pay i = .ok (frame i)) {rx : RxContext C}
    (hrx : Awaits rx ctx) {src : Fin 3 → SocketAddr}
    (hkey : ∀ i j, messageKey ctx (src i) = messageKey ctx (src j))
    (hroom : rx.spool.size < maxSpoolEntries)
    (hfresh : rx.spool.lookup (messageKey ctx (src 0)) = none) (now : Fin 3 → ℕ)
    {order : List (Fin 3)} (hnodup : order.Nodup) (htwo : 2 ≤ order.length) :
    receiveAll rs A rx (order.map fun i => (frame i, src i, now i)) =
      if shardsec = true ∨ bulk = false then [pay] else [] := by
  have hcarries := fun i => carries_dataFrame hrs hA (hframe i)
  match order with
  | [] | [_] => exact absurd htwo (by simp)
  | i :: j :: rest =>
      have hij : i ≠ j := fun h => (nodup_cons.mp hnodup).1 (h ▸ mem_cons_self)
      obtain ⟨a, ha, hfirst⟩ := hcarries i
      obtain ⟨b, hb, hsecond⟩ := hcarries j
      rw [hkey 0 i] at hfresh
      obtain ⟨hnone, hrx₁, hspool₁⟩ :=
        receive_first hA hauth ha hfirst hrx (now i) (src i) hroom.le hfresh
      have hroom₁ : (receive rs A rx (now i) (frame i) (src i)).1.spool.size ≤ maxSpoolEntries := by
        rw [hspool₁, Table.size_insert_of_notMem (AList.lookup_eq_none.mp hfresh)]
        exact hroom
      have hwaits : (receive rs A rx (now i) (frame i) (src i)).1.spool.lookup
          (messageKey ctx (src j)) = some (([none, none, none] : Bucket).set i (some a)) := by
        rw [hspool₁, hkey j i, AList.lookup_insert]
      obtain ⟨hpay, hspool₂⟩ := receive_second hrs hA hauth (length_lt_of_build hrs hA (hframe i))
        ha hij hb hsecond hrx₁ (now j) (src j) hroom₁ hwaits
      -- the third frame finds its bucket gone
      have hrest : ∀ rx' : RxContext C, rx'.spool.size ≤ maxSpoolEntries →
          rx'.spool.lookup (messageKey ctx (src j)) = none →
          receiveAll rs A rx' (rest.map fun i => (frame i, src i, now i)) = [] := by
        intro rx' hroom' hfresh'
        match rest with
        | [] => rfl
        | [k] =>
            obtain ⟨c, -, hthird⟩ := hcarries k
            rw [hkey j k] at hfresh'
            rw [map_singleton, receiveAll,
              receive_late hthird (now k) (src k) hroom' hfresh']
            rfl
        | k :: l :: more =>
            have hlen := hnodup.length_le_card
            simp only [length_cons, Fintype.card_fin] at hlen
            omega
      have hroom₂ : (receive rs A (receive rs A rx (now i) (frame i) (src i)).1 (now j) (frame j)
          (src j)).1.spool.size ≤ maxSpoolEntries := by
        rw [hspool₂]
        exact (Table.size_erase_le _ _).trans hroom₁
      have hfresh₂ : (receive rs A (receive rs A rx (now i) (frame i) (src i)).1 (now j) (frame j)
          (src j)).1.spool.lookup (messageKey ctx (src j)) = none := by
        rw [hspool₂, AList.lookup_erase]
      rw [map_cons, map_cons, receiveAll, receiveAll, hnone, hpay,
        hrest _ hroom₂ hfresh₂]
      split <;> rfl

/-- The frames of a message, any two or all three of them in any order, bring its payload to the
peer exactly when ShardSec is on or the frames are not bulk frames. -/
theorem message_received_iff (rs : ReedSolomon) (hrs : rs.Lawful) (A : Aead C) (hA : A.Lawful)
    (shardsec bulk : Bool) (ctx : SealCtx C) (pay : Bytes)
    (hauth : A.Authentic rs shardsec ctx pay) (frame : Fin 3 → Bytes)
    (hframe : ∀ i, dataFrame rs A shardsec bulk ctx pay i = .ok (frame i)) (rx : RxContext C)
    (hrx : Awaits rx ctx) (src : Fin 3 → SocketAddr)
    (hsrc : ctx.sessionHash = List.Vector.replicate 4 0 → ∀ i j, src i = src j)
    (hroom : rx.spool.size < maxSpoolEntries)
    (hfresh : rx.spool.lookup (messageKey ctx (src 0)) = none) (now : Fin 3 → ℕ)
    (order : List (Fin 3)) (hnodup : order.Nodup) (htwo : 2 ≤ order.length) :
    receiveAll rs A rx (order.map fun i => (frame i, src i, now i)) = [pay] ↔
      shardsec = true ∨ bulk = false := by
  rw [receiveAll_frames hrs hA hauth hframe hrx (messageKey_eq hsrc) hroom hfresh now hnodup htwo]
  split
  · rename_i hmode
    exact iff_of_true rfl hmode
  · rename_i hmode
    exact iff_of_false (cons_ne_nil pay []).symm hmode

/-! ### One message of two fresh sessions -/

theorem Aead.tagging_opensOnly
    {tag : C.Key → Octets 12 → ℕ → NonceDirection → Bytes → Octets 16}
    {shardKey : C.Key → ℕ → Octets 12 → UInt8 → C.Key} {key : C.Key} {nonce : Octets 12} {epoch : ℕ}
    {direction : NonceDirection} {aad : Bytes}
    (htag : ∀ key' nonce' epoch' direction' aad',
      tag key' nonce' epoch' direction' aad' = tag key nonce epoch direction aad →
        (key', nonce', epoch', direction', aad') = (key, nonce, epoch, direction, aad))
    (data : Bytes) : (Aead.tagging tag shardKey).OpensOnly key nonce epoch direction aad data := by
  intro key' nonce' epoch' direction' aad' hopen
  apply htag
  by_contra hne
  apply hopen
  refine if_neg ?_
  intro heq
  apply hne
  have hlen : (data ++ (tag key nonce epoch direction aad).toList).length - 16 = data.length := by
    rw [length_append, List.Vector.toList_length]
    rfl
  rw [show (Aead.tagging tag shardKey).xchachaSeal key nonce epoch direction aad data =
    data ++ (tag key nonce epoch direction aad).toList from rfl, hlen, drop_left] at heq
  exact (Block.toList_inj.mp heq).symm

/-- The first message of an initiator. -/
def firstCtx : SealCtx .symbolic where
  key := Term.ckKey (.epochKey (.ckNext (.initChain 0 (.master 7))) 0)
  epoch := 0
  counter := 0
  nonce := List.Vector.replicate 12 0
  direction := .initiatorToResponder
  sessionHash := ⟨[7, 0, 0, 0], rfl⟩
  ratchetDue := false
  epoch_lt := by decide
  counter_lt := by decide

/-- A cipher that tells this message from every other. -/
def firstAead : Aead .symbolic :=
  .tagging
    (fun key nonce epoch direction aad =>
      if (key, nonce, epoch, direction, aad) =
          (firstCtx.key, firstCtx.nonce, firstCtx.epoch, firstCtx.direction, replicate 64 0) then
        List.Vector.replicate 16 0
      else List.Vector.replicate 16 1)
    fun key _ _ _ => key

def firstRx : RxContext .symbolic where
  connected := true
  sessions := SessionTable.update ⟨∅, fun _ _ h => by cases h⟩
    (newWithRole (C := .symbolic) (Term.master 7) "peer" .responder 0)
  spool := ∅

def localhost : SocketAddr := ⟨.v4 ⟨[127, 0, 0, 1], rfl⟩, 9000⟩

def firstFrame (bulk : Bool) (i : Fin 3) : Bytes :=
  (dataFrame galois8 firstAead false bulk firstCtx [72, 105] i).toOption.getD []

theorem firstAead_lawful : firstAead.Lawful :=
  Aead.tagging_lawful _ _

theorem firstAead_authentic (pay : Bytes) : firstAead.Authentic galois8 false firstCtx pay := by
  have htail : (firstCtx.tail firstAead).toList = replicate 64 0 := rfl
  rw [Aead.Authentic, if_neg Bool.false_ne_true, htail]
  apply Aead.tagging_opensOnly
  intro key' nonce' epoch' direction' aad' heq
  by_contra hne
  rw [if_neg hne, if_pos rfl] at heq
  exact absurd heq (by decide)

theorem awaits_firstRx : Awaits firstRx firstCtx :=
  ⟨rfl, "peer", newWithRole (C := .symbolic) (Term.master 7) "peer" .responder 0,
    AList.lookup_insert _, by decide +kernel, rfl, by decide +kernel⟩

theorem dataFrame_first (bulk : Bool) (i : Fin 3) :
    dataFrame galois8 firstAead false bulk firstCtx [72, 105] i = .ok (firstFrame bulk i) := by
  have hi : i.1 < (encSplit galois8 firstAead false firstCtx [72, 105]).1.length := by
    rw [length_encSplit]
    exact i.2
  have hlen := length_of_mem_encSplit galois8_lawful firstAead_lawful false firstCtx [72, 105]
    (getElem_mem hi)
  have hfits : ((encSplit galois8 firstAead false firstCtx [72, 105]).1[i.1]?.getD []).length ≤
      capacity bulk := by
    rw [getElem?_eq_getElem hi, Option.getD_some, hlen]
    cases bulk <;> decide
  have hbuilt := tryBuildGtfV2Frame_isSome
    (h := firstCtx.dataHeader firstAead false (UInt8.ofNat i) bulk 0) hfits
    (encSplit galois8 firstAead false firstCtx [72, 105]).2
  rw [firstFrame, dataFrame]
  generalize tryBuildGtfV2Frame _ _ _ = result at hbuilt
  cases result with
  | error e => cases hbuilt
  | ok frame => rfl

theorem first_message_received :
    receiveAll galois8 firstAead firstRx ([2, 0].map fun i => (firstFrame false i, localhost, 0)) =
      [[72, 105]] :=
  (message_received_iff galois8 galois8_lawful firstAead firstAead_lawful false false firstCtx
    [72, 105] (firstAead_authentic _) (firstFrame false) (dataFrame_first false) firstRx awaits_firstRx
    (fun _ => localhost) (fun _ _ _ => rfl) (by decide) (AList.lookup_empty _) (fun _ => 0) [2, 0]
    (by decide) (by decide)).mpr (Or.inr rfl)

/-- The same message in bulk frames: all three arrive and nothing is received. -/
theorem first_bulk_message_lost :
    galois8.Lawful ∧ firstAead.Lawful ∧ firstAead.Authentic galois8 false firstCtx [72, 105] ∧
      (∀ i, dataFrame galois8 firstAead false true firstCtx [72, 105] i =
        .ok (firstFrame true i)) ∧ Awaits firstRx firstCtx ∧
      receiveAll galois8 firstAead firstRx
        ([0, 1, 2].map fun i => (firstFrame true i, localhost, 0)) = [] := by
  refine ⟨galois8_lawful, firstAead_lawful, firstAead_authentic _, dataFrame_first true,
    awaits_firstRx, ?_⟩
  exact receiveAll_frames galois8_lawful firstAead_lawful (firstAead_authentic _)
    (dataFrame_first true) awaits_firstRx (messageKey_eq fun _ _ _ => rfl) (by decide)
    (AList.lookup_empty _) (fun _ => 0) (by decide) (by decide)

end Vantablack.Send
