import Vantablack.Abos.Mesh
import Vantablack.Abos.Shard

/-!
The digital part of `ABOSSystem::transmit` and `ABOSSystem::receive`: shards, bundles, scrambler,
interleaver and code, with the modulation between the two as the identity on bits. A shard has many
more bits than a block of the interleaver, which ends the transmission of every payload.
-/

namespace Vantablack.Abos

open Lib Layers

/-! ### The scrambler -/

/-- The next bit of the register, and its next state. -/
def nextBit (lfsrState : UInt16) : UInt8 × UInt16 :=
  let bit (i : UInt16) : UInt16 := (lfsrState >>> i) &&& 0x0001
  let feedback := bit 0 ^^^ bit 2 ^^^ bit 3 ^^^ bit 5
  ((bit 0).toUInt8, (lfsrState >>> 1) ||| (feedback <<< 15))

def scrambleByte (lfsrState : UInt16) (byte : UInt8) : UInt8 × UInt16 :=
  (List.range 8).foldl
    (fun (scrambled, lfsrState) bit =>
      let dataBit := (byte >>> UInt8.ofNat bit) &&& 1
      let (scramblerBit, lfsrState) := nextBit lfsrState
      (scrambled ||| ((dataBit ^^^ scramblerBit) <<< UInt8.ofNat bit), lfsrState))
    (0, lfsrState)

/-- `scramble`, and `descramble`, which is the same. -/
def scramble (lfsrState : UInt16) : Bytes → Bytes
  | [] => []
  | byte :: data =>
      let (scrambled, lfsrState) := scrambleByte lfsrState byte
      scrambled :: scramble lfsrState data

/-- `Scrambler::default`. -/
def defaultLfsr : UInt16 := 0xFFFF

/-- The bits of bytes, each in a byte of its own, the lowest first. -/
def toBits (data : Bytes) : Bytes :=
  data.flatMap fun b => (List.range 8).map fun i => (b >>> UInt8.ofNat i) &&& 1

/-- Up to eight bits in one byte, the lowest first. -/
def packByte (bits : Bytes) : UInt8 :=
  bits.zipIdx.foldl (fun acc (b, i) => acc ||| (b <<< UInt8.ofNat i)) 0

/-! ### The interleaver -/

/-- `Interleaver`; the permutation is the one that `shuffle` gives. -/
structure Interleaver where
  blockSize : ℕ
  permutation : List ℕ
  perm : permutation.Perm (List.range blockSize)

namespace Interleaver

def inversePermutation (il : Interleaver) : List ℕ :=
  il.permutation.zipIdx.foldl (fun inverse (pos, i) => inverse.set pos i)
    (List.replicate il.blockSize 0)

/-- The bits go to their places in a block of zeros. -/
def scatter (blockSize : ℕ) (places : List ℕ) (bits : Bytes) : Except Stop Bytes :=
  if blockSize < bits.length then .error (.panicked "Bit vector exceeds block size")
  else
    .ok ((places.zip bits).foldl (fun output (place, bit) => output.set place bit)
      (List.replicate blockSize 0))

def interleave (il : Interleaver) (bits : Bytes) : Except Stop Bytes :=
  scatter il.blockSize il.permutation bits

def deinterleave (il : Interleaver) (bits : Bytes) : Except Stop Bytes :=
  scatter il.blockSize il.inversePermutation bits

end Interleaver

/-! ### The code -/

/-- `LDPCCode`; the rows of the ones of each column are those that were drawn. -/
structure LDPCCode where
  k : ℕ
  n : ℕ
  rowsOf : ℕ → List ℕ

namespace LDPCCode

/-- `parity_check`, in the form `[A | I]`. -/
def parityCheck (code : LDPCCode) (row col : ℕ) : UInt8 :=
  if col < code.k then if row ∈ code.rowsOf col then 1 else 0
  else if col = code.k + row then 1 else 0

/-- The systematic bits: those of the data, with zeros where there are none. -/
def systematic (code : LDPCCode) (data : Bytes) : Bytes :=
  (List.range code.k).map fun i =>
    if i < data.length * 8 then (data.getD (i / 8) 0 >>> UInt8.ofNat (i % 8)) &&& 1 else 0

def parity (code : LDPCCode) (bits : Bytes) (row : ℕ) : UInt8 :=
  (List.range code.k).foldl
    (fun parity col => if code.parityCheck row col = 1 then parity ^^^ bits.getD col 0 else parity) 0

/-- The codeword, packed into bytes. -/
def encode (code : LDPCCode) (data : Bytes) : Bytes :=
  let bits := code.systematic data
  let codeword := bits ++ (List.range (code.n - code.k)).map (code.parity bits)
  (List.range ((code.n + 7) / 8)).map fun i => packByte ((codeword.drop (8 * i)).take 8)

end LDPCCode

/-! ### The chain -/

def createBundle (hmacSha256 : Bytes → Bytes → Octets 32) (payload : Bytes) (source : Octets 32)
    (lifetime now : ℕ) : Bundle (Octets 32) where
  bundleId := hmacSha256 (utf8 "bundle") payload
  sourceNode := source
  creationTimestamp := now
  lifetimeSeconds := lifetime
  payload := payload
  hopCount := 0
  ttl := lifetime % 2 ^ 32

/-- A system as `with_config` makes it, with what it uses of other crates: `bincode`, HMAC-SHA-256,
the permutation and the matrix that are drawn from the seeds, and the decoder, which works on
floating-point numbers. `bincode` writes every byte of the data of a shard. -/
structure ABOSSystem where
  nodeId : Octets 32
  hmacSha256 : Bytes → Bytes → Octets 32
  serializeShard : Shard → Except String Bytes
  deserializeShard : Bytes → Except String Shard
  deserializeBundle : Bytes → Except String (Bundle (Octets 32))
  interleaver : Interleaver
  ldpc : LDPCCode
  decode : Bytes → Except String Bytes
  blockSize_eq : interleaver.blockSize = 512
  k_eq : ldpc.k = 256
  n_eq : ldpc.n = 512
  length_le : ∀ shard bytes, serializeShard shard = .ok bytes → shard.data.length ≤ bytes.length

namespace ABOSSystem

def ofResult {α : Type*} : Except String α → Except Stop α
  | .ok a => .ok a
  | .error e => .error (.protocolError e)

def bundleOf (sys : ABOSSystem) (now : ℕ) (shard : Shard) : Except Stop (Bundle (Octets 32)) := do
  let payload ← ofResult (sys.serializeShard shard)
  return createBundle sys.hmacSha256 payload sys.nodeId 3600 now

/-- What is modulated for a bundle. -/
def encodeBundle (sys : ABOSSystem) (bundle : Bundle (Octets 32)) : Except Stop Bytes := do
  let scrambled := scramble defaultLfsr bundle.payload
  let bits := toBits scrambled
  let interleaved ← sys.interleaver.interleave bits
  let encoded := sys.ldpc.encode interleaved
  let _ ← ofResult (sys.deserializeShard bundle.payload)
  return encoded

/-- The loop of `transmit` over the shards: what is sent, and the bundles it was made of. -/
def transmit (sys : ABOSSystem) (now : ℕ) (data : Bytes) :
    Except Stop (List (Bundle (Octets 32) × Bytes)) :=
  (splitFile sys.hmacSha256 data 1024 (3 / 2)).mapM fun shard => do
    let bundle ← sys.bundleOf now shard
    let encoded ← sys.encodeBundle bundle
    return (bundle, encoded)

/-- What `receive` makes of the bits of a codeword. -/
def receive (sys : ABOSSystem) (encoded : Bytes) : Except Stop (Bundle (Octets 32)) := do
  let decoded ← ofResult (sys.decode (toBits encoded))
  let deinterleaved ← sys.interleaver.deinterleave decoded
  let bytes := (deinterleaved.toChunks 8).map packByte
  let descrambled := scramble defaultLfsr bytes
  ofResult (sys.deserializeBundle descrambled)

/-- All shards are sent; each is received as a bundle with the same id and payload, and the shards in
them make the payload again. -/
def Recovers (sys : ABOSSystem) (now : ℕ) (data : Bytes) : Prop :=
  ∃ sent received shards, sys.transmit now data = .ok sent ∧
    sent.mapM (fun frame => sys.receive frame.2) = .ok received ∧
    received.map (fun bundle => (bundle.bundleId, bundle.payload)) =
      sent.map (fun frame => (frame.1.bundleId, frame.1.payload)) ∧
    received.mapM (fun bundle => sys.deserializeShard bundle.payload) = .ok shards ∧
    reconstructFile sys.hmacSha256 shards = .ok data

end ABOSSystem

/-! ### Why nothing is sent -/

theorem length_scramble (lfsrState : UInt16) (data : Bytes) :
    (scramble lfsrState data).length = data.length := by
  induction data generalizing lfsrState with
  | nil => rfl
  | cons byte data ih => exact congrArg Nat.succ (ih _)

theorem length_toBits (data : Bytes) : (toBits data).length = 8 * data.length := by
  induction data with
  | nil => rfl
  | cons b data ih =>
      rw [toBits, List.flatMap_cons, List.length_append, List.length_map, List.length_range,
        List.length_cons]
      rw [toBits] at ih
      omega

theorem interleave_eq_panic (il : Interleaver) {bits : Bytes} (h : il.blockSize < bits.length) :
    il.interleave bits = .error (.panicked "Bit vector exceeds block size") := by
  rw [Interleaver.interleave, Interleaver.scatter, if_pos h]

namespace ABOSSystem

theorem encodeBundle_eq_panic (sys : ABOSSystem) {bundle : Bundle (Octets 32)}
    (h : 64 < bundle.payload.length) :
    sys.encodeBundle bundle = .error (.panicked "Bit vector exceeds block size") := by
  have hbits : sys.interleaver.blockSize <
      (toBits (scramble defaultLfsr bundle.payload)).length := by
    rw [sys.blockSize_eq, length_toBits, length_scramble]
    omega
  rw [encodeBundle, interleave_eq_panic _ hbits]
  rfl

theorem transmit_stops (sys : ABOSSystem) (now : ℕ) {data : Bytes} (hdata : data ≠ []) :
    (∃ shard e, sys.serializeShard shard = .error e ∧
        sys.transmit now data = .error (.protocolError e)) ∨
      sys.transmit now data = .error (.panicked "Bit vector exceeds block size") := by
  have hnil : splitFile sys.hmacSha256 data 1024 (3 / 2) ≠ [] :=
    splitFile_ne_nil hdata (by decide) (by norm_num)
  unfold transmit
  cases hshards : splitFile sys.hmacSha256 data 1024 (3 / 2) with
  | nil => exact absurd hshards hnil
  | cons shard shards =>
      have hlength : shard.data.length = 1024 :=
        length_of_mem_splitFile (hshards ▸ List.mem_cons_self)
      rw [List.mapM_cons]
      cases hbytes : sys.serializeShard shard with
      | error e =>
          have hbundle : sys.bundleOf now shard = .error (.protocolError e) := by
            rw [bundleOf, hbytes]
            rfl
          rw [hbundle]
          exact Or.inl ⟨shard, e, hbytes, rfl⟩
      | ok bytes =>
          have hbundle : sys.bundleOf now shard =
              .ok (createBundle sys.hmacSha256 bytes sys.nodeId 3600 now) := by
            rw [bundleOf, hbytes]
            rfl
          have hle := sys.length_le shard bytes hbytes
          have hpanic : sys.encodeBundle (createBundle sys.hmacSha256 bytes sys.nodeId 3600 now) =
              .error (.panicked "Bit vector exceeds block size") :=
            sys.encodeBundle_eq_panic (show 64 < bytes.length by omega)
          right
          rw [hbundle]
          show ((sys.encodeBundle _).bind _).bind _ = _
          rw [hpanic]
          rfl

theorem transmit_ne_ok (sys : ABOSSystem) (now : ℕ) {data : Bytes} (hdata : data ≠ [])
    (sent : List (Bundle (Octets 32) × Bytes)) : sys.transmit now data ≠ .ok sent := by
  intro hok
  rcases sys.transmit_stops now hdata with ⟨_, _, _, herror⟩ | hpanic
  · rw [hok] at herror
    cases herror
  · rw [hok] at hpanic
    cases hpanic

/-- No payload is recovered, as none is sent. -/
theorem not_recovers (sys : ABOSSystem) (now : ℕ) {data : Bytes} (hdata : data ≠ []) :
    ¬ sys.Recovers now data := by
  rintro ⟨sent, -, -, hsent, -⟩
  exact sys.transmit_ne_ok now hdata sent hsent

end ABOSSystem

/-! ### A system -/

/-- A number in `n` bytes, the lowest first. -/
def leBytes (n x : ℕ) : Bytes := (List.range n).map fun i => UInt8.ofNat (x / 256 ^ i)

/-- The number in the `n` bytes from `i` on, the lowest first. -/
def leAt (bytes : Bytes) (i n : ℕ) : ℕ :=
  ((bytes.drop i).take n).foldr (fun b acc => b.toNat + 256 * acc) 0

def shardBytes (shard : Shard) : Bytes :=
  shard.fileId.toList ++ leBytes 4 shard.shardIndex ++ leBytes 4 shard.totalShards ++
    leBytes 8 shard.data.length ++ shard.data ++ leBytes 4 shard.checksum.toNat

def readShard (bytes : Bytes) : Except String Shard :=
  let length := leAt bytes 40 8
  match Block.ofList? 32 (bytes.take 32) with
  | some fileId =>
      if bytes.length < 48 + length + 4 then .error "unexpected end of file"
      else
        .ok
          { fileId := fileId
            shardIndex := leAt bytes 32 4
            totalShards := leAt bytes 36 4
            data := (bytes.drop 48).take length
            checksum := UInt32.ofNat (leAt bytes (48 + length) 4) }
  | none => .error "unexpected end of file"

def readBundle (bytes : Bytes) : Except String (Bundle (Octets 32)) :=
  let length := leAt bytes 80 8
  match Block.ofList? 32 (bytes.take 32), Block.ofList? 32 ((bytes.drop 32).take 32) with
  | some bundleId, some sourceNode =>
      if bytes.length < 88 + length + 8 then .error "unexpected end of file"
      else
        .ok
          { bundleId := bundleId
            sourceNode := sourceNode
            creationTimestamp := leAt bytes 64 8
            lifetimeSeconds := leAt bytes 72 8
            payload := (bytes.drop 88).take length
            hopCount := leAt bytes (88 + length) 4
            ttl := leAt bytes (92 + length) 4 }
  | _, _ => .error "unexpected end of file"

/-- A system with the layout of `bincode`, a permutation that moves nothing, three ones in each column
of the matrix, a decoder that takes the systematic bits, and one key for all data. -/
def plainSystem : ABOSSystem where
  nodeId := List.Vector.replicate 32 0
  hmacSha256 := fun _ _ => List.Vector.replicate 32 0
  serializeShard := fun shard => .ok (shardBytes shard)
  deserializeShard := readShard
  deserializeBundle := readBundle
  interleaver := { blockSize := 512, permutation := List.range 512, perm := List.Perm.refl _ }
  ldpc := { k := 256, n := 512, rowsOf := fun col => [col % 256, (col + 1) % 256, (col + 2) % 256] }
  decode := fun bits => .ok (((bits.take 256).toChunks 8).map packByte)
  blockSize_eq := rfl
  k_eq := rfl
  n_eq := rfl
  length_le := by
    intro shard bytes h
    cases h
    simp only [shardBytes, List.length_append]
    omega

theorem plainSystem_not_recovers : ¬ plainSystem.Recovers 0 [1] :=
  plainSystem.not_recovers 0 (by decide)

/-- A payload of one byte is recovered by no system. -/
theorem oneByte_not_recovered : ¬ ∃ (sys : ABOSSystem) (now : ℕ), sys.Recovers now [1] := by
  rintro ⟨sys, now, sent, -, -, hsent, -⟩
  exact sys.transmit_ne_ok now (by decide) sent hsent

end Vantablack.Abos
