import Vantablack.Receive.Spool

/-!
Reading a received datagram, as `ghost/net/mod.rs` does: the two frame layouts, the
header of a v2 frame and the shard in the payload region. Nothing read here is
authenticated.
-/

namespace Vantablack.Receive

open Lib Layers

def minFrameSize : ℕ := 32

def gtfBaseSize : ℕ := 512

def jitterMax : ℕ := 64

/-! ### The flags byte -/

def flagBulk : UInt8 := 0x01
def flagTunnel : UInt8 := 0x02
def flagShardsec : UInt8 := 0x08
def flagV2 : UInt8 := 0x80

def parseFlags (buf : Bytes) : UInt8 := buf[9]?.getD 0

def isV2Frame (buf : Bytes) : Bool := parseFlags buf &&& flagV2 ≠ 0

def isBulkFrame (buf : Bytes) : Bool := parseFlags buf &&& flagBulk ≠ 0

/-! ### The header -/

structure GtfV2Header where
  sessionHash : Octets 4
  counter : ℕ
  epoch : ℕ
  nonce : Octets 12
  shardIndex : UInt8
  flags : UInt8
  bulk : Bool
  tail : Octets 64

def parseGtfV2Header (buf : Bytes) : Option GtfV2Header := do
  if !isV2Frame buf || buf.length < 38 then none
  let bulk := isBulkFrame buf
  some
    { sessionHash := ← blockAt buf 0 4
      counter := fromBeBytes (← sliceAt buf 10 8)
      epoch := fromBeBytes (← sliceAt buf 18 8)
      nonce := ← blockAt buf 26 12
      shardIndex := ← buf[8]?
      flags := parseFlags buf &&& ~~~flagV2
      bulk := bulk
      tail :=
        if bulk then List.Vector.replicate 64 0
        else (blockAt buf gtfBaseSize jitterMax).getD (List.Vector.replicate 64 0) }

def parseSessionHash (buf : Bytes) : Octets 4 :=
  (blockAt buf 0 4).getD (List.Vector.replicate 4 0)

/-- The counter of a v1 frame, a `u32`. -/
def parsePacketCounter (buf : Bytes) : ℕ := fromBeBytes ((sliceAt buf 4 4).getD [])

def parsePacketCounterU64 (buf : Bytes) : ℕ :=
  match parseGtfV2Header buf with
  | some h => h.counter
  | none => parsePacketCounter buf

/-- What the receive path keeps of a v2 header. -/
structure V2FrameMeta where
  epoch : ℕ
  nonce : Octets 12
  bulk : Bool
  tail : Octets 64
  shardsec : Bool

def V2FrameMeta.of (frame : Bytes) : Option V2FrameMeta :=
  (parseGtfV2Header frame).map fun h =>
    { epoch := h.epoch, nonce := h.nonce, bulk := h.bulk, tail := h.tail
      shardsec := h.flags &&& flagShardsec ≠ 0 }

def extractPayload (buf : Bytes) : Bytes :=
  let start := if isV2Frame buf then 38 else 10
  let tagStart := if isBulkFrame buf then 1456 else 496
  (buf.take tagStart).drop start

def unframe : Bytes → Option Bytes
  | hi :: lo :: rest =>
      let l := fromBeBytes [hi, lo]
      if l = 0 || rest.length < l then none else some (rest.take l)
  | _ => none

theorem unframe_ne_nil {b sd : Bytes} (h : unframe b = some sd) : sd ≠ [] := by
  unfold unframe at h
  split at h
  · rename_i hi lo rest
    dsimp only at h
    split at h
    · cases h
    · rename_i hl
      cases h
      simp only [Bool.or_eq_true, decide_eq_true_eq, not_or, not_lt] at hl
      rw [← List.length_pos_iff, List.length_take]
      omega
  · cases h

/-- `SpoolKey::of`. A v1 frame counts as one of epoch 0. -/
def SpoolKey.of (src : SocketAddr) (datagram : Bytes) (v2 : Option V2FrameMeta) : SpoolKey :=
  let sessionHash := parseSessionHash datagram
  { sessionHash := sessionHash
    epoch := v2.elim 0 V2FrameMeta.epoch
    counter := parsePacketCounterU64 datagram
    preSessionSrc := if sessionHash = List.Vector.replicate 4 0 then some src else none }

end Vantablack.Receive
