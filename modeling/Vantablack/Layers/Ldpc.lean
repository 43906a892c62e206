import Vantablack.Layers.Rs
import Vantablack.Lib.BitFlip
import Mathlib.Data.List.GetD

/-!
The link code of `layers/l7_ldpc.rs`. A block of 64 bytes gets 64 bytes of parity, and a received
block of 128 bytes is decoded by bit flipping, for at most ten rounds. Over it lies the
concatenated code: the shards of the erasure code, each of them cut into link blocks.

The decoder works on likelihood ratios, but these are only 5 and -5 and only ever negated, so they
are integers here.
-/

namespace Vantablack.Layers

open Lib

/-! ### Bits and bytes -/

/-- A bit of some bytes, the highest bit of each byte first; zero beyond the end. -/
def bitAt (data : Bytes) (i : ℕ) : Bool :=
  (data.getD (i / 8) 0 >>> UInt8.ofNat (7 - i % 8)) &&& 1 == 1

def bytesToBits (data : Bytes) (numBits : ℕ) : List Bool :=
  (List.range numBits).map (bitAt data)

def setBit (bits : List Bool) (bytes : Bytes) (i : ℕ) : Bytes :=
  if bits.getD i false then bytes.modify (i / 8) (· ||| 1 <<< UInt8.ofNat (7 - i % 8)) else bytes

def bitsToBytes (bits : List Bool) : Bytes :=
  (List.range bits.length).foldl (setBit bits) (List.replicate ((bits.length + 7) / 8) 0)

/-! ### The code -/

inductive LdpcError where
  | invalidLength (expected got : ℕ)
  | decodingFailed
  deriving DecidableEq, Repr

/-- The codec: for each data bit, the parity bits that it is added to. -/
structure LdpcCodec where
  parityCols : List (List ℕ)
  deriving DecidableEq, Repr

namespace LdpcCodec

/-- The parity bits of one data bit in `new`. -/
def newCols (i : ℕ) : List ℕ :=
  let cols := [i]
  let cols := if i < 511 then cols ++ [i + 1] else cols
  let extraCol := (i * 7 + 13) % 512
  if extraCol ≠ i ∧ extraCol ≠ i + 1 then cols ++ [extraCol] else cols

def new : LdpcCodec where
  parityCols := (List.range 512).map newCols

variable (codec : LdpcCodec)

def addToParity (dataBits parity : List Bool) (i : ℕ) : List Bool :=
  if dataBits.getD i false then
    (codec.parityCols.getD i []).foldl (fun parity col => parity.modify col (!·)) parity
  else parity

def parityBits (dataBits : List Bool) : List Bool :=
  (List.range codec.parityCols.length).foldl (codec.addToParity dataBits)
    (List.replicate 512 false)

def encode (data : Bytes) : Except LdpcError Bytes :=
  if data.length ≠ 64 then .error (.invalidLength 64 data.length)
  else .ok (data ++ bitsToBytes (codec.parityBits (bytesToBits data 512)))

def enterChecks (checks : List (List ℕ)) (i : ℕ) : List (List ℕ) :=
  (codec.parityCols.getD i []).foldl
    (fun checks j => if j < 512 then checks.modify j (· ++ [i]) else checks) checks

/-- The variables of each check: its parity bit, and the data bits that are added to it. -/
def checkVars : List (List ℕ) :=
  (List.range codec.parityCols.length).foldl codec.enterChecks
    ((List.range 512).map fun j => [512 + j])

def unsatisfiedChecks (hardDecision : List Bool) : List Bool :=
  (List.range 512).map fun ci =>
    (codec.checkVars.getD ci []).foldl (fun parity vj => parity ^^ hardDecision.getD vj false) false

/-- One more failing check of a variable, with the largest count so far. -/
def countFailed (counts : List ℕ × ℕ) (vj : ℕ) : List ℕ × ℕ :=
  let failedCounts := counts.1.modify vj (· + 1)
  (failedCounts,
    if counts.2 < failedCounts.getD vj 0 then failedCounts.getD vj 0 else counts.2)

/-- Count a check, if it fails, for all its variables. -/
def countCheck (unsatisfied : List Bool) (counts : List ℕ × ℕ) (ci : ℕ) : List ℕ × ℕ :=
  if unsatisfied.getD ci false then (codec.checkVars.getD ci []).foldl countFailed counts
  else counts

/-- How many failing checks each variable is in, and the largest such number. -/
def failedCounts (unsatisfied : List Bool) : List ℕ × ℕ :=
  (List.range 512).foldl (codec.countCheck unsatisfied) (List.replicate 1024 0, 0)

/-- The rounds of the decoder; the result is the last hard decision. -/
def decodeRounds : ℕ → List Bool → List ℤ → List Bool
  | 0, hardDecision, _ => hardDecision
  | rounds + 1, _, llr =>
      let hardDecision := (List.range 1024).map fun i => decide (llr.getD i 0 < 0)
      let unsatisfied := codec.unsatisfiedChecks hardDecision
      if !unsatisfied.any id then hardDecision
      else
        let (failedCounts, maxFailed) := codec.failedCounts unsatisfied
        if maxFailed = 0 then hardDecision
        else
          let flips := fun i => decide (failedCounts.getD i 0 = maxFailed)
          decodeRounds rounds
            ((List.range 1024).map fun i => if flips i then !hardDecision.getD i false
              else hardDecision.getD i false)
            ((List.range 1024).map fun i => if flips i then -llr.getD i 0 else llr.getD i 0)

def maxIterations : ℕ := 10

def beliefPropagation (llr : List ℤ) : List Bool :=
  codec.decodeRounds maxIterations (List.replicate 1024 false) llr

def decode (block : Bytes) : Except LdpcError Bytes :=
  if block.length ≠ 128 then .error (.invalidLength 128 block.length)
  else
    let llr := (List.range 1024).map fun i => if bitAt block i = false then (5 : ℤ) else -5
    .ok (bitsToBytes ((codec.beliefPropagation llr).take 512))

/-! ### Packets -/

/-- A piece of the data, `n` bytes long except for the last one. -/
def chunk (n : ℕ) (data : Bytes) (b : ℕ) : Bytes := (data.drop (n * b)).take n

def chunks (n : ℕ) (data : Bytes) : List Bytes :=
  (List.range ((data.length + (n - 1)) / n)).map (chunk n data)

/-- `resize` with zeros. -/
def resized (n : ℕ) (data : Bytes) : Bytes := data.take n ++ List.replicate (n - data.length) 0

def encodePacket (data : Bytes) : Bytes :=
  (chunks 64 data).flatMap fun chunk =>
    match codec.encode (resized 64 chunk) with
    | .ok codeword => codeword
    | .error _ => []

/-- The blocks of a packet, one after the other; a short one is filled up and is the last. -/
def decodeChunks : List Bytes → Bytes
  | [] => []
  | chunk :: rest =>
      if chunk.length < 128 then
        match codec.decode (resized 128 chunk) with
        | .ok decoded => decoded
        | .error _ => []
      else
        match codec.decode chunk with
        | .ok decoded => decoded ++ decodeChunks rest
        | .error _ => decodeChunks rest

def decodePacket (data : Bytes) : Bytes := codec.decodeChunks (chunks 128 data)

end LdpcCodec

/-! ### The concatenated code -/

inductive CodingScheme where
  | directBulk
  | reedSolomonOnly
  | concatenatedLdpcRs
  deriving DecidableEq, Repr

/-- The adaptive code, with its thresholds for the bit error rate. -/
structure SelfTuningConcatenatedCode (Rate : Type*) where
  codec : LdpcCodec
  highBerThreshold : Rate
  lowBerThreshold : Rate

namespace SelfTuningConcatenatedCode

variable {Rate : Type*} [LE Rate] [DecidableLE Rate] (tuner : SelfTuningConcatenatedCode Rate)

def selectStrategy (estimatedBer : Rate) : CodingScheme :=
  if tuner.highBerThreshold ≤ estimatedBer then .concatenatedLdpcRs
  else if tuner.lowBerThreshold ≤ estimatedBer then .reedSolomonOnly
  else .directBulk

def encodeAdaptive (rs : ReedSolomon) (data : Bytes) (estimatedBer : Rate) :
    CodingScheme × List Bytes :=
  match tuner.selectStrategy estimatedBer with
  | .directBulk => (.directBulk, [data])
  | .reedSolomonOnly => (.reedSolomonOnly, encode rs data)
  | .concatenatedLdpcRs =>
      (.concatenatedLdpcRs, (encode rs data).map tuner.codec.encodePacket)

/-- The data of reconstructed shards, without the padding. -/
def joined (shards : List (Option Bytes)) (originalLen : ℕ) : Option Bytes := do
  let s0 ← shards.getD 0 none
  let s1 ← shards.getD 1 none
  some ((s0 ++ s1).take originalLen)

omit [LE Rate] [DecidableLE Rate] in
def decodeAdaptive (rs : ReedSolomon) (scheme : CodingScheme)
    (receivedShards : List (Option Bytes)) (originalLen : ℕ) : Option Bytes :=
  match scheme with
  | .directBulk => receivedShards.head?.join
  | .reedSolomonOnly => do
      let shards ← reconstruct rs receivedShards
      joined shards originalLen
  | .concatenatedLdpcRs => do
      let shardLen := (originalLen + 1) / 2
      let rsShards := receivedShards.map fun shard =>
        shard.map fun s => (tuner.codec.decodePacket s).take shardLen
      let rsShards ← reconstruct rs rsShards
      joined rsShards originalLen

end SelfTuningConcatenatedCode

end Vantablack.Layers
