import Vantablack.Layers.Concatenated
import Vantablack.Lib.Bytes
import Vantablack.Net.Reorder

/-!
The shard tunnel of `net/universal_tunnel.rs`. A stream is cut into frames of 576 bytes that carry a
sequence number, and put together again from the frames in any order.

A sequence number is a natural number here and cut to four bytes in a header, so nothing depends on
the width of the counters while there are fewer than 2^32 - 1 frames.
-/

namespace Vantablack.Net

open Lib Layers LdpcCodec List

def flagAck : UInt8 := 0x02

def flagFin : UInt8 := 0x04

def flagData : UInt8 := 0x08

def maxTunnelPayloadChunk : ℕ := 512

structure TunnelFrameHeader where
  streamId : UInt32
  seqNum : ℕ
  flags : UInt8
  payloadLen : ℕ
  deriving DecidableEq

namespace TunnelFrameHeader

def headerLen : ℕ := 11

def toBytes (h : TunnelFrameHeader) : Bytes :=
  toBeBytes 4 h.streamId.toNat ++ (toBeBytes 4 h.seqNum ++ (h.flags :: toBeBytes 2 h.payloadLen))

def fromBytes (slice : Bytes) : Option TunnelFrameHeader :=
  if slice.length < headerLen then none
  else do
    let streamId ← sliceAt slice 0 4
    let seqNum ← sliceAt slice 4 4
    let flags ← slice[8]?
    let payloadLen ← sliceAt slice 9 2
    some { streamId := UInt32.ofNat (fromBeBytes streamId)
           seqNum := fromBeBytes seqNum
           flags := flags
           payloadLen := fromBeBytes payloadLen }

/-- The last frame of a stream. -/
def isFin (h : TunnelFrameHeader) : Bool := h.flags &&& flagFin != 0

end TunnelFrameHeader

/-- What a frame carries. -/
abbrev TunnelPiece := TunnelFrameHeader × Bytes

structure UniversalTunnelChunker where
  streamId : UInt32
  nextSeqNum : ℕ

namespace UniversalTunnelChunker

def new (streamId : UInt32) : UniversalTunnelChunker := ⟨streamId, 0⟩

/-- A header and its payload, padded to the size of a frame. -/
def frame (piece : TunnelPiece) : Bytes := resized 576 (piece.1.toBytes ++ piece.2)

/-- The pieces of the chunks of a payload that is not empty, numbered from `seq` on. -/
def dataPieces (streamId : UInt32) (isFinal : Bool) : ℕ → List Bytes → List TunnelPiece
  | _, [] => []
  | seq, chunk :: rest =>
      let flags := if rest.isEmpty && isFinal then flagData ||| flagFin else flagData
      let hdr : TunnelFrameHeader :=
        { streamId := streamId, seqNum := seq, flags := flags, payloadLen := chunk.length }
      (hdr, chunk) :: dataPieces streamId isFinal (seq + 1) rest

/-- What the frames of a payload carry. An empty payload has a frame, too. -/
def pieces (c : UniversalTunnelChunker) (payload : Bytes) (isFinal : Bool) : List TunnelPiece :=
  match chunks maxTunnelPayloadChunk payload with
  | [] =>
      [({ streamId := c.streamId, seqNum := c.nextSeqNum
          flags := if isFinal then flagFin else flagAck, payloadLen := 0 }, [])]
  | chunk :: rest => dataPieces c.streamId isFinal c.nextSeqNum (chunk :: rest)

/-- `next_seq_num` grows by one with every frame. -/
def chunkPayload (c : UniversalTunnelChunker) (payload : Bytes) (isFinal : Bool) :
    List Bytes × UniversalTunnelChunker :=
  let frames := (c.pieces payload isFinal).map frame
  (frames, { c with nextSeqNum := c.nextSeqNum + frames.length })

def parseFrame (frame : Bytes) : Option TunnelPiece := do
  let hdr ← TunnelFrameHeader.fromBytes frame
  let stop := TunnelFrameHeader.headerLen + hdr.payloadLen
  if frame.length < stop then none
  else some (hdr, (frame.take stop).drop TunnelFrameHeader.headerLen)

end UniversalTunnelChunker

structure UniversalTunnelReassembler where
  buffered : Table ℕ TunnelPiece
  expectedSeq : ℕ
  isFinished : Bool

namespace UniversalTunnelReassembler

def new : UniversalTunnelReassembler := ⟨∅, 0, false⟩

def ingestFrame (r : UniversalTunnelReassembler) (frame : Bytes) :
    Except String Bytes × UniversalTunnelReassembler :=
  match UniversalTunnelChunker.parseFrame frame with
  | none => (.error "malformed universal tunnel frame", r)
  | some (hdr, payload) =>
      if hdr.seqNum < r.expectedSeq then (.ok [], r)
      else
        let buffered : Table ℕ TunnelPiece := r.buffered.insert hdr.seqNum (hdr, payload)
        let (taken, expectedSeq, buffered) := flush buffered.size r.expectedSeq buffered
        (.ok (taken.flatMap Prod.snd),
          { buffered := buffered
            expectedSeq := expectedSeq
            isFinished := r.isFinished || taken.any fun piece => piece.1.isFin })

end UniversalTunnelReassembler

/-- The frames of a sequence of `chunk_payload` calls, each with its payload and `is_final`. -/
def chunkAll (c : UniversalTunnelChunker) : List (Bytes × Bool) → List Bytes
  | [] => []
  | (payload, isFinal) :: calls =>
      let (frames, c) := c.chunkPayload payload isFinal
      frames ++ chunkAll c calls

/-- Frames that come in one after the other, with the answer to each. -/
def ingestAll (r : UniversalTunnelReassembler) :
    List Bytes → List (Except String Bytes) × UniversalTunnelReassembler
  | [] => ([], r)
  | frame :: frames =>
      let (answer, r) := r.ingestFrame frame
      let (answers, r) := ingestAll r frames
      (answer :: answers, r)

/-! ### One frame -/

/-- A piece that fits in a frame, with a number that fits in its header. -/
structure TunnelPiece.Fits (piece : TunnelPiece) : Prop where
  seqNum : piece.1.seqNum < 2 ^ 32
  payloadLen : piece.1.payloadLen = piece.2.length
  length : piece.2.length ≤ maxTunnelPayloadChunk

open UniversalTunnelChunker

theorem length_toBytes (h : TunnelFrameHeader) :
    h.toBytes.length = TunnelFrameHeader.headerLen := by
  simp [TunnelFrameHeader.toBytes, TunnelFrameHeader.headerLen]

theorem length_frame (piece : TunnelPiece) : (frame piece).length = 576 := length_resized 576 _

variable {piece : TunnelPiece}

theorem frame_eq (h : piece.Fits) :
    frame piece = piece.1.toBytes ++ (piece.2 ++ replicate (565 - piece.2.length) 0) := by
  have hmax : piece.2.length ≤ 512 := h.length
  have hlen : (piece.1.toBytes ++ piece.2).length = 11 + piece.2.length := by
    rw [length_append, length_toBytes]
    rfl
  rw [frame, resized, take_of_length_le (by omega), hlen, append_assoc,
    show 576 - (11 + piece.2.length) = 565 - piece.2.length by omega]

theorem parseFrame_frame (h : piece.Fits) : parseFrame (frame piece) = some piece := by
  have hmax : piece.2.length ≤ 512 := h.length
  have hlen := length_frame piece
  have hstream : RestAt (frame piece) 0 (piece.1.toBytes ++
      (piece.2 ++ replicate (565 - piece.2.length) 0)) := by
    rw [← frame_eq h]
    exact RestAt.start _
  have hpayload := hstream.skip (length_toBytes piece.1)
  rw [TunnelFrameHeader.toBytes, append_assoc, append_assoc] at hstream
  have hseq := hstream.skip (length_toBeBytes 4 _)
  have hflags := hseq.skip (length_toBeBytes 4 _)
  have hlength := hflags.next
  have hread : TunnelFrameHeader.fromBytes (frame piece) = some piece.1 := by
    have hlong : ¬ (frame piece).length < TunnelFrameHeader.headerLen := by
      rw [hlen]
      decide
    rw [TunnelFrameHeader.fromBytes, if_neg hlong, hstream.sliceAt (length_toBeBytes 4 _),
      hseq.sliceAt (length_toBeBytes 4 _), hflags.getElem?, hlength.sliceAt (length_toBeBytes 2 _)]
    simp only [Option.bind_eq_bind, Option.bind_some]
    rw [fromBeBytes_toBeBytes piece.1.streamId.toNat_lt, fromBeBytes_toBeBytes h.seqNum,
      fromBeBytes_toBeBytes (by rw [h.payloadLen]; omega), UInt32.ofNat_toNat]
  have hslice : ((frame piece).take (TunnelFrameHeader.headerLen + piece.1.payloadLen)).drop
      TunnelFrameHeader.headerLen = piece.2 := by
    rw [drop_take, Nat.add_sub_cancel_left, h.payloadLen,
      ← Nat.zero_add TunnelFrameHeader.headerLen, hpayload.2, take_left]
  have hlong : ¬ (frame piece).length < TunnelFrameHeader.headerLen + piece.1.payloadLen := by
    rw [hlen, h.payloadLen, TunnelFrameHeader.headerLen]
    omega
  rw [parseFrame, hread]
  dsimp only [Option.bind_eq_bind, Option.bind_some]
  rw [if_neg hlong, hslice]

/-! ### The pieces of a stream -/

/-- Pieces that carry `data`, numbered from `s` on. The last one says so if the data is final. -/
structure Cut (s : ℕ) (data : Bytes) (final : Bool) (l : List TunnelPiece) : Prop where
  seqNum : ∀ i piece, l[i]? = some piece → piece.1.seqNum = s + i
  payloadLen : ∀ piece ∈ l, piece.1.payloadLen = piece.2.length
  length_le : ∀ piece ∈ l, piece.2.length ≤ maxTunnelPayloadChunk
  data_eq : l.flatMap Prod.snd = data
  isFin : ∀ i piece, l[i]? = some piece →
    (piece.1.isFin = true ↔ final = true ∧ i + 1 = l.length)

theorem getElem?_singleton_eq_some {α : Type*} {a b : α} {i : ℕ} (h : [a][i]? = some b) :
    i = 0 ∧ a = b := by
  cases i with
  | zero => exact ⟨rfl, Option.some.inj h⟩
  | succ i => cases h

namespace Cut

variable {s : ℕ} {data data' : Bytes} {final : Bool} {l l' : List TunnelPiece}
  {hdr : TunnelFrameHeader} {payload : Bytes}

theorem nil (s : ℕ) : Cut s [] false [] where
  seqNum _ _ h := by cases h
  payloadLen _ h := by cases h
  length_le _ h := by cases h
  data_eq := rfl
  isFin _ _ h := by cases h

theorem singleton (hseq : hdr.seqNum = s) (hlen : hdr.payloadLen = payload.length)
    (hmax : payload.length ≤ maxTunnelPayloadChunk) (hfin : hdr.isFin = final) :
    Cut s payload final [(hdr, payload)] where
  seqNum i p h := by
    obtain ⟨rfl, rfl⟩ := getElem?_singleton_eq_some h
    exact hseq
  payloadLen p h := by
    rw [mem_singleton.mp h]
    exact hlen
  length_le p h := by
    rw [mem_singleton.mp h]
    exact hmax
  data_eq := append_nil payload
  isFin i p h := by
    obtain ⟨rfl, rfl⟩ := getElem?_singleton_eq_some h
    rw [hfin, length_singleton]
    exact (and_iff_left rfl).symm

theorem append (h : Cut s data false l) (h' : Cut (s + l.length) data' final l') (hne : l' ≠ []) :
    Cut s (data ++ data') final (l ++ l') where
  seqNum i p hp := by
    by_cases hi : i < l.length
    · exact h.seqNum i p ((getElem?_append_left hi).symm.trans hp)
    · rw [getElem?_append_right (not_lt.mp hi)] at hp
      rw [h'.seqNum _ p hp]
      omega
  payloadLen p hp := (mem_append.mp hp).elim (h.payloadLen p) (h'.payloadLen p)
  length_le p hp := (mem_append.mp hp).elim (h.length_le p) (h'.length_le p)
  data_eq := by rw [flatMap_append, h.data_eq, h'.data_eq]
  isFin i p hp := by
    have hpos := length_pos_of_ne_nil hne
    rw [length_append]
    by_cases hi : i < l.length
    · rw [h.isFin i p ((getElem?_append_left hi).symm.trans hp)]
      constructor
      · exact fun hfin => absurd hfin.1 Bool.false_ne_true
      · intro hfin
        omega
    · rw [getElem?_append_right (not_lt.mp hi)] at hp
      rw [h'.isFin _ p hp]
      refine and_congr_right fun _ => ?_
      omega

theorem cons (hseq : hdr.seqNum = s) (hlen : hdr.payloadLen = payload.length)
    (hmax : payload.length ≤ maxTunnelPayloadChunk) (hfin : hdr.isFin = false)
    (h : Cut (s + 1) data final l) (hne : l ≠ []) :
    Cut s (payload ++ data) final ((hdr, payload) :: l) :=
  append (singleton hseq hlen hmax hfin) h hne

end Cut

theorem isFin_data : (flagData &&& flagFin != 0) = false := by decide

theorem isFin_lastData : ((flagData ||| flagFin) &&& flagFin != 0) = true := by decide

theorem isFin_ack : (flagAck &&& flagFin != 0) = false := by decide

theorem isFin_fin : (flagFin &&& flagFin != 0) = true := by decide

theorem dataPieces_ne_nil {streamId : UInt32} {isFinal : Bool} {seq : ℕ} {cs : List Bytes}
    (h : cs ≠ []) : dataPieces streamId isFinal seq cs ≠ [] := by
  cases cs with
  | nil => exact absurd rfl h
  | cons chunk rest => exact cons_ne_nil _ _

theorem cut_dataPieces (streamId : UInt32) (isFinal : Bool) (seq : ℕ) {cs : List Bytes}
    (hmax : ∀ chunk ∈ cs, chunk.length ≤ maxTunnelPayloadChunk) (hne : cs ≠ []) :
    Cut seq cs.flatten isFinal (dataPieces streamId isFinal seq cs) := by
  induction cs generalizing seq with
  | nil => exact absurd rfl hne
  | cons chunk rest ih =>
      have hchunk := hmax chunk mem_cons_self
      by_cases hlast : rest = []
      · subst hlast
        rw [flatten_cons, flatten_nil, append_nil]
        refine Cut.singleton rfl rfl hchunk ?_
        cases isFinal
        · exact isFin_data
        · exact isFin_lastData
      · have hrest := ih (seq + 1) (fun c hc => hmax c (mem_cons_of_mem _ hc)) hlast
        have hflags : (rest.isEmpty && isFinal) = false := by
          rw [isEmpty_eq_false_iff.mpr hlast, Bool.false_and]
        rw [flatten_cons, dataPieces]
        refine Cut.cons rfl rfl hchunk ?_ hrest (dataPieces_ne_nil hlast)
        rw [hflags]
        exact isFin_data

theorem flatten_chunks {n : ℕ} (hn : 0 < n) (data : Bytes) : (chunks n data).flatten = data := by
  have hfront : ∀ k, ((range k).map (chunk n data)).flatten = data.take (n * k) := by
    intro k
    induction k with
    | zero => rw [Nat.mul_zero, take_zero, range_zero, map_nil, flatten_nil]
    | succ k ih =>
        rw [range_succ, map_append, flatten_append, ih, map_singleton,
          flatten_singleton, chunk, Nat.mul_succ, take_add]
  rw [chunks, hfront, take_of_length_le]
  have hdiv := Nat.div_add_mod (data.length + (n - 1)) n
  have hmod := Nat.mod_lt (data.length + (n - 1)) hn
  omega

variable (c : UniversalTunnelChunker)

theorem pieces_ne_nil (payload : Bytes) (isFinal : Bool) : c.pieces payload isFinal ≠ [] := by
  rw [pieces]
  split
  · exact cons_ne_nil _ _
  · exact dataPieces_ne_nil (cons_ne_nil _ _)

theorem cut_pieces (payload : Bytes) (isFinal : Bool) :
    Cut c.nextSeqNum payload isFinal (c.pieces payload isFinal) := by
  have hflat := flatten_chunks (n := maxTunnelPayloadChunk) (by decide) payload
  have hmax : ∀ chunk ∈ chunks maxTunnelPayloadChunk payload,
      chunk.length ≤ maxTunnelPayloadChunk := by
    intro chunk hchunk
    obtain ⟨b, -, rfl⟩ := mem_map.mp hchunk
    exact length_chunk_le _ payload b
  rw [pieces]
  split
  · rename_i hnil
    rw [hnil, flatten_nil] at hflat
    subst hflat
    refine Cut.singleton rfl rfl (Nat.zero_le _) ?_
    cases isFinal
    · exact isFin_ack
    · exact isFin_fin
  · rename_i chunk rest hcons
    rw [hcons] at hflat hmax
    have hcut := cut_dataPieces c.streamId isFinal c.nextSeqNum hmax (cons_ne_nil _ _)
    rwa [hflat] at hcut

/-- What the frames of a sequence of calls carry. -/
def piecesAll (c : UniversalTunnelChunker) : List (Bytes × Bool) → List TunnelPiece
  | [] => []
  | (payload, isFinal) :: calls =>
      c.pieces payload isFinal ++ piecesAll (c.chunkPayload payload isFinal).2 calls

theorem chunkAll_eq (calls : List (Bytes × Bool)) :
    chunkAll c calls = (piecesAll c calls).map frame := by
  induction calls generalizing c with
  | nil => rfl
  | cons call calls ih =>
      rw [chunkAll, piecesAll, map_append, ← ih]
      rfl

def lastIsFinal (calls : List (Bytes × Bool)) : Bool := calls.getLast?.any Prod.snd

theorem cut_piecesAll {calls : List (Bytes × Bool)}
    (hlast : ∀ call ∈ calls.dropLast, call.2 = false) :
    Cut c.nextSeqNum (calls.flatMap Prod.fst) (lastIsFinal calls) (piecesAll c calls) := by
  induction calls generalizing c with
  | nil => exact Cut.nil _
  | cons call calls ih =>
      obtain ⟨payload, isFinal⟩ := call
      cases calls with
      | nil =>
          have hcut := cut_pieces c payload isFinal
          rwa [piecesAll, piecesAll, append_nil, flatMap_singleton]
      | cons next rest =>
          obtain rfl : isFinal = false := hlast _ mem_cons_self
          have hnext : (c.chunkPayload payload false).2.nextSeqNum =
              c.nextSeqNum + (c.pieces payload false).length :=
            congrArg (c.nextSeqNum + ·) (length_map _)
          have hrest := ih (c.chunkPayload payload false).2 fun call hcall =>
            hlast call (mem_cons_of_mem _ hcall)
          rw [hnext] at hrest
          have hne : piecesAll (c.chunkPayload payload false).2 (next :: rest) ≠ [] := fun hnil =>
            pieces_ne_nil _ _ _ (append_eq_nil_iff.mp hnil).1
          rw [piecesAll, flatMap_cons]
          exact (cut_pieces c payload false).append hrest hne

theorem piecesAll_ne_nil {calls : List (Bytes × Bool)} (h : lastIsFinal calls = true) :
    piecesAll c calls ≠ [] := by
  cases calls with
  | nil => cases h
  | cons call calls => exact fun hnil => pieces_ne_nil _ _ _ (append_eq_nil_iff.mp hnil).1

/-! ### Reassembly -/

/-- The longest part of the frames that has come in without a gap. -/
structure GapFree (delivered : List ℕ) (k : ℕ) : Prop where
  below : ∀ i < k, i ∈ delivered
  next : k ∉ delivered

/-- A reassembler after the frames with the numbers in `delivered`, the first `k` of which it has
given out. -/
structure Reassembled (l : List TunnelPiece) (delivered : List ℕ) (r : UniversalTunnelReassembler)
    (k : ℕ) : Prop where
  expectedSeq : r.expectedSeq = k
  waits : Waits 0 l k r.buffered
  seen : ∀ i, Seen k r.buffered i ↔ i ∈ delivered
  isFinished : r.isFinished = (l.take k).any fun piece => piece.1.isFin

namespace Reassembled

variable {l : List TunnelPiece} {delivered : List ℕ} {r : UniversalTunnelReassembler} {k : ℕ}

theorem start (l : List TunnelPiece) : Reassembled l [] .new 0 where
  expectedSeq := rfl
  waits := ⟨Nat.zero_le _, fun c x hx => by cases hx⟩
  seen i := by simp [Seen, UniversalTunnelReassembler.new]
  isFinished := rfl

theorem gapFree (h : Reassembled l delivered r k) : GapFree delivered k where
  below i hi := (h.seen i).mp (Or.inl hi)
  next hk := by
    rcases (h.seen k).mpr hk with hlt | hmem
    · exact Nat.lt_irrefl k hlt
    · obtain ⟨x, hx⟩ := Option.isSome_iff_exists.mp (AList.lookup_isSome.mpr hmem)
      have hlater := (h.waits.later k x hx).1
      omega

theorem ingestFrame (h : Reassembled l delivered r k) {i : ℕ} {piece : TunnelPiece}
    (hpiece : l[i]? = some piece) (hseq : piece.1.seqNum = i) (hfits : piece.Fits) :
    ∃ k' out, (r.ingestFrame (frame piece)).1 = .ok out ∧
      Reassembled l (delivered ++ [i]) (r.ingestFrame (frame piece)).2 k' ∧
      (l.take k).flatMap Prod.snd ++ out = (l.take k').flatMap Prod.snd := by
  obtain ⟨hdr, payload⟩ := piece
  subst hseq
  rw [UniversalTunnelReassembler.ingestFrame, parseFrame_frame hfits]
  dsimp only
  rw [h.expectedSeq]
  split
  · rename_i hold
    refine ⟨k, [], rfl, { h with seen := fun i => ?_ }, append_nil _⟩
    rw [h.seen, mem_append, mem_singleton]
    refine (or_iff_left_of_imp ?_).symm
    rintro rfl
    exact (h.seen _).mp (Or.inl hold)
  · rename_i hnew
    have hready : Ready 0 l k (r.buffered.insert hdr.seqNum (hdr, payload)) := by
      refine ⟨h.waits.le, fun c x hx => ?_⟩
      rcases Table.lookup_insert_eq_some.mp hx with ⟨rfl, rfl⟩ | ⟨-, hold⟩
      · exact ⟨by omega, hpiece⟩
      · obtain ⟨hlt, hitem⟩ := h.waits.later c x hold
        exact ⟨hlt.le, hitem⟩
    obtain ⟨k', hend, hwaits, htake, hseen⟩ := waits_flush _ hready le_rfl
    simp only [Nat.zero_add] at hend hwaits htake hseen
    refine ⟨k', _, rfl, ⟨hend, hwaits, fun i => ?_, ?_⟩, ?_⟩
    · rw [hseen, mem_append, mem_singleton, ← h.seen, Seen, Seen, AList.mem_insert]
      tauto
    · show (r.isFinished || _) = _
      rw [h.isFinished, ← htake, any_append]
    · rw [← htake, flatMap_append]

theorem ingestAll
    (hl : ∀ i (piece : TunnelPiece), l[i]? = some piece → piece.1.seqNum = i ∧ piece.Fits)
    (h : Reassembled l delivered r k) {places : List ℕ} {frames : List Bytes}
    (hframes : Forall₂ (fun i f => ((l.map frame)[i]? = some f)) places frames) :
    ∃ (k' : ℕ) (outs : List Bytes), (Net.ingestAll r frames).1 = outs.map Except.ok ∧
      Reassembled l (delivered ++ places) (Net.ingestAll r frames).2 k' ∧
      (l.take k).flatMap Prod.snd ++ outs.flatten = (l.take k').flatMap Prod.snd := by
  induction hframes generalizing r k delivered with
  | nil => exact ⟨k, [], rfl, by rwa [append_nil], append_nil _⟩
  | @cons i f places frames hf hrest ih =>
      rw [getElem?_map] at hf
      obtain ⟨piece, hpiece, rfl⟩ := Option.map_eq_some_iff.mp hf
      obtain ⟨hseq, hfits⟩ := hl i piece hpiece
      obtain ⟨k₁, out, hanswer, hnext, htake⟩ := h.ingestFrame hpiece hseq hfits
      obtain ⟨k', outs, hanswers, hlast, htakes⟩ := ih hnext
      refine ⟨k', out :: outs, ?_, ?_, ?_⟩
      · rw [Net.ingestAll, map_cons, ← hanswer, ← hanswers]
      · rwa [append_assoc] at hlast
      · rw [flatten_cons, ← append_assoc, htake, htakes]

end Reassembled

def framePayload (frame : Bytes) : Bytes := ((parseFrame frame).map Prod.snd).getD []

theorem framePayload_frame (h : piece.Fits) : framePayload (frame piece) = piece.2 := by
  rw [framePayload, parseFrame_frame h]
  rfl

theorem flatMap_framePayload {l : List TunnelPiece} (h : ∀ piece ∈ l, piece.Fits) :
    (l.map frame).flatMap framePayload = l.flatMap Prod.snd := by
  rw [flatMap_map]
  exact flatMap_congr fun piece hpiece => framePayload_frame (h piece hpiece)

/-- Every frame has 576 bytes, and the payloads in the frames are those of the calls, one after the
other. When frames have come in, in any order and any number of times, what has been given out are
the payloads of the longest part that has come in without a gap, and the stream is finished exactly
if that part ends with a final frame. -/
theorem tunnel_delivers (streamId : UInt32) {calls : List (Bytes × Bool)}
    (hlast : ∀ call ∈ calls.dropLast, call.2 = false)
    (hcount : (chunkAll (.new streamId) calls).length < 2 ^ 32 - 1) :
    let frames := chunkAll (.new streamId) calls
    (∀ f ∈ frames, f.length = 576) ∧ frames.flatMap framePayload = calls.flatMap Prod.fst ∧
      ∀ delivered : List (Fin frames.length),
        let run := ingestAll .new (delivered.map frames.get)
        ∃ (k : ℕ) (outs : List Bytes), GapFree (delivered.map Fin.val) k ∧
          run.1 = outs.map Except.ok ∧ outs.flatten = (frames.take k).flatMap framePayload ∧
          (run.2.isFinished = true ↔ lastIsFinal calls = true ∧ k = frames.length) := by
  intro frames
  have hcut := cut_piecesAll (.new streamId) hlast
  have hframes : frames = (piecesAll (.new streamId) calls).map frame := chunkAll_eq _ calls
  set l := piecesAll (.new streamId) calls
  have hlen : frames.length = l.length := by rw [hframes, length_map]
  have hl : ∀ i (piece : TunnelPiece), l[i]? = some piece →
      piece.1.seqNum = i ∧ piece.Fits := by
    intro i piece hpiece
    obtain ⟨hi, -⟩ := List.getElem?_eq_some_iff.mp hpiece
    have hmem := mem_of_getElem? hpiece
    have hseq : piece.1.seqNum = i := (hcut.seqNum i piece hpiece).trans (Nat.zero_add i)
    have hcount' : frames.length < 2 ^ 32 - 1 := hcount
    exact ⟨hseq, by omega, hcut.payloadLen piece hmem, hcut.length_le piece hmem⟩
  have hfits : ∀ piece ∈ l, piece.Fits := by
    intro piece hpiece
    obtain ⟨i, hi⟩ := mem_iff_getElem?.mp hpiece
    exact (hl i piece hi).2
  refine ⟨fun f hf => ?_, ?_, fun delivered => ?_⟩
  · rw [hframes] at hf
    obtain ⟨piece, -, rfl⟩ := mem_map.mp hf
    exact length_frame piece
  · rw [hframes, flatMap_framePayload hfits, hcut.data_eq]
  · have hplaces : Forall₂ (fun i f => (l.map frame)[i]? = some f)
        (delivered.map Fin.val) (delivered.map frames.get) := by
      rw [forall₂_map_left_iff, forall₂_map_right_iff, forall₂_same]
      intro i _
      rw [← hframes]
      exact getElem?_eq_getElem i.isLt
    obtain ⟨k, outs, houts, hrun, htake⟩ := (Reassembled.start l).ingestAll hl hplaces
    rw [nil_append] at hrun
    refine ⟨k, outs, hrun.gapFree, houts, ?_, ?_⟩
    · rw [take_zero, flatMap_nil, nil_append] at htake
      rw [htake, hframes, ← map_take, flatMap_framePayload fun piece hpiece =>
        hfits piece (mem_of_mem_take hpiece)]
    · rw [hrun.isFinished, any_eq_true, hlen]
      have hle := hrun.waits.le
      constructor
      · rintro ⟨piece, hpiece, hfin⟩
        obtain ⟨i, hi⟩ := mem_iff_getElem?.mp hpiece
        have hik : i < k := by
          obtain ⟨hi, -⟩ := List.getElem?_eq_some_iff.mp hi
          rw [length_take] at hi
          omega
        rw [getElem?_take_of_lt hik] at hi
        obtain ⟨hlastFinal, hend⟩ := (hcut.isFin i piece hi).mp hfin
        exact ⟨hlastFinal, by omega⟩
      · rintro ⟨hlastFinal, rfl⟩
        have hne : l ≠ [] := piecesAll_ne_nil _ hlastFinal
        have hpos := length_pos_of_ne_nil hne
        have hend : l[l.length - 1]? = some (l.getLast hne) := by
          rw [← getLast?_eq_getElem?, getLast?_eq_some_getLast hne]
        refine ⟨l.getLast hne, ?_, (hcut.isFin _ _ hend).mpr ⟨hlastFinal, by omega⟩⟩
        rw [take_length]
        exact getLast_mem hne

/-- The three payloads of a stream, one of them empty, and any delivery of their frames. -/
theorem tunnel_delivers_three :
    let calls : List (Bytes × Bool) := [([1, 2, 3], false), ([], false), ([4], true)]
    let frames := chunkAll (.new 7) calls
    frames.length = 3 ∧ (∀ f ∈ frames, f.length = 576) ∧
      frames.flatMap framePayload = calls.flatMap Prod.fst ∧
      ∀ delivered : List (Fin frames.length),
        let run := ingestAll .new (delivered.map frames.get)
        ∃ (k : ℕ) (outs : List Bytes), GapFree (delivered.map Fin.val) k ∧
          run.1 = outs.map Except.ok ∧ outs.flatten = (frames.take k).flatMap framePayload ∧
          (run.2.isFinished = true ↔ lastIsFinal calls = true ∧ k = frames.length) := by
  intro calls frames
  have hlength : frames.length = 3 := rfl
  exact ⟨hlength, tunnel_delivers 7 (by decide) (by rw [hlength]; decide)⟩

end Vantablack.Net
