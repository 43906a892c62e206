import Vantablack.Handshake.PqAuth

/-!
The transport of the post-quantum identity proof: `send_pq_auth_proof` of `main.rs` cuts the
binding into chunk PDUs, which arrive in any order, more than once or not at all, and
`store_pq_chunk` joins them.
-/

namespace Vantablack.Handshake

open Lib Layers Session List

variable {C : Crypto} {binding : Bytes}

def pqAuthChunkPayloadSize : ℕ := 500

def pqChunk (idx total : ℕ) (chunk : Bytes) : Bytes :=
  pqAuthChunkMagic ++
    (UInt8.ofNat idx :: UInt8.ofNat total :: (toBeBytes 2 chunk.length ++ chunk))

/-- The number of chunks of a binding, and the chunks. -/
def chunkCount (binding : Bytes) : ℕ :=
  (binding.length + (pqAuthChunkPayloadSize - 1)) / pqAuthChunkPayloadSize

def chunk (binding : Bytes) (i : ℕ) : Bytes :=
  (binding.drop (pqAuthChunkPayloadSize * i)).take pqAuthChunkPayloadSize

/-- The chunk PDU `i` of a binding. -/
def pqPdu (binding : Bytes) (i : ℕ) : Bytes :=
  pqChunk i (chunkCount binding) (chunk binding i)

/-- The payloads that are sealed for a binding. -/
def sendPqAuthProof (binding : Bytes) : List Bytes :=
  (range (chunkCount binding)).map (pqPdu binding)

/-- `handle_pq_auth_pdu` up to the check, in a session that is not authenticated yet. -/
def receivePqChunk (s : Session C) (payload : Bytes) : Option Bytes × Session C :=
  match parsePqChunk payload with
  | some (chunkIdx, totalChunks, data) => s.storePqChunk chunkIdx totalChunks data
  | none => (none, s)

/-- The session after the payloads `before`. -/
def receivedBy (s : Session C) (before : List Bytes) : Session C :=
  before.foldl (fun s payload => (receivePqChunk s payload).2) s

theorem parsePqChunk_pqChunk (idx total : ℕ) {data : Bytes} (hdata : data.length < 65536) :
    parsePqChunk (pqChunk idx total data) =
      some (UInt8.ofNat idx, UInt8.ofNat total, data) := by
  have hmagic : pqAuthChunkMagic.length = 14 := by decide +kernel
  have hpre : pqAuthChunkMagic.isPrefixOf (pqChunk idx total data) = true :=
    isPrefixOf_iff_prefix.mpr (prefix_append _ _)
  have h14 := (RestAt.start (pqChunk idx total data)).skip hmagic
  have h16 := h14.next.next
  have h18 : RestAt (pqChunk idx total data) 18 (data ++ []) := by
    simpa using h16.skip (length_toBeBytes 2 _)
  rw [parsePqChunk, hpre, h14.getElem?, h14.next.getElem?, h16.sliceAt (length_toBeBytes 2 _)]
  simp only [Bool.not_true, Bool.false_eq_true, if_false, Option.bind_eq_bind, Option.bind_some]
  rw [fromBeBytes_toBeBytes hdata, h18.sliceAt rfl]
  rfl

theorem parsePqChunk_pqPdu (binding : Bytes) (i : ℕ) :
    parsePqChunk (pqPdu binding i) =
      some (UInt8.ofNat i, UInt8.ofNat (chunkCount binding), chunk binding i) := by
  refine parsePqChunk_pqChunk i _ ?_
  rw [chunk, length_take, pqAuthChunkPayloadSize]
  omega

theorem receivePqChunk_pqPdu (s : Session C) (i : ℕ) :
    receivePqChunk s (pqPdu binding i) =
      s.storePqChunk (UInt8.ofNat i) (UInt8.ofNat (chunkCount binding)) (chunk binding i) := by
  rw [receivePqChunk, parsePqChunk_pqPdu]

/-- The table has the chunks whose PDUs have arrived. -/
def Holds (binding : Bytes) (arrived : List Bytes) (t : Table UInt8 Bytes) : Prop :=
  ∀ key v, t.lookup key = some v ↔
    ∃ i < chunkCount binding, pqPdu binding i ∈ arrived ∧ UInt8.ofNat i = key ∧
      chunk binding i = v

section

variable (hcount : chunkCount binding ≤ 255)

include hcount

theorem ofNat_inj {i j : ℕ} (hi : i < chunkCount binding) (hj : j < chunkCount binding)
    (h : UInt8.ofNat i = UInt8.ofNat j) : i = j := by
  have hnat := congrArg UInt8.toNat h
  rw [UInt8.toNat_ofNat', UInt8.toNat_ofNat'] at hnat
  omega

theorem Holds.insert {arrived : List Bytes} {t : Table UInt8 Bytes} (h : Holds binding arrived t)
    {i : ℕ} (hi : i < chunkCount binding) :
    Holds binding (arrived ++ [pqPdu binding i]) (t.insert (UInt8.ofNat i) (chunk binding i)) := by
  intro key v
  rw [Table.lookup_insert_eq_some]
  constructor
  · rintro (⟨rfl, rfl⟩ | ⟨hne, hv⟩)
    · exact ⟨i, hi, mem_append_right _ mem_cons_self, rfl, rfl⟩
    · obtain ⟨j, hj, harr, hkey, hval⟩ := (h key v).mp hv
      exact ⟨j, hj, mem_append_left _ harr, hkey, hval⟩
  · rintro ⟨j, hj, harr, rfl, rfl⟩
    by_cases hkey : UInt8.ofNat j = UInt8.ofNat i
    · obtain rfl := ofNat_inj hcount hj hi hkey
      exact .inl ⟨rfl, rfl⟩
    · refine .inr ⟨hkey, (h _ _).mpr ⟨j, hj, ?_, rfl, rfl⟩⟩
      refine (mem_append.mp harr).resolve_right fun hlast => hkey ?_
      have hparse := congrArg parsePqChunk (mem_singleton.mp hlast)
      rw [parsePqChunk_pqPdu, parsePqChunk_pqPdu] at hparse
      exact congrArg Prod.fst (Option.some.inj hparse)

theorem Holds.size_eq_iff {arrived : List Bytes} {t : Table UInt8 Bytes}
    (h : Holds binding arrived t) :
    t.size = chunkCount binding ↔ ∀ p ∈ sendPqAuthProof binding, p ∈ arrived := by
  -- The keys are the indices of the chunks that have arrived, each once.
  have hkeys : t.keys.Perm
      (((range (chunkCount binding)).filter (pqPdu binding · ∈ arrived)).map UInt8.ofNat) := by
    refine (perm_ext_iff_of_nodup t.keys_nodup ?_).mpr fun key => ?_
    · refine Nodup.map_on ?_ (nodup_range.filter _)
      intro i hi j hj heq
      exact ofNat_inj hcount (mem_range.mp (mem_of_mem_filter hi))
        (mem_range.mp (mem_of_mem_filter hj)) heq
    · rw [← AList.mem_keys, ← AList.lookup_isSome, Option.isSome_iff_exists]
      simp [h key, and_assoc]
  have hsize : t.size =
      ((range (chunkCount binding)).filter (pqPdu binding · ∈ arrived)).length := by
    rw [← length_map UInt8.ofNat, ← hkeys.length_eq]
    exact (length_map _).symm
  have hall := length_filter_eq_length_iff (l := range (chunkCount binding))
    (p := fun i => decide (pqPdu binding i ∈ arrived))
  rw [length_range] at hall
  rw [hsize, hall]
  simp [sendPqAuthProof]

end

theorem joinChunks_eq {t : Table UInt8 Bytes} {count idx : ℕ}
    (h : ∀ i, idx ≤ i → i < idx + count → t.lookup (UInt8.ofNat i) = some (chunk binding i)) :
    joinChunks t count idx = some ((binding.drop (500 * idx)).take (500 * count)) := by
  induction count generalizing idx with
  | zero => simp [joinChunks]
  | succ count ih =>
      have hrest := @ih (idx + 1) fun i hle hlt => h i (by omega) (by omega)
      have hcut : 500 * (count + 1) = 500 + 500 * count := by omega
      rw [joinChunks, h idx le_rfl (by omega), hrest, hcut, take_add, drop_drop]
      rfl

theorem storePqChunk_eq {arrived : List Bytes} {s : Session C}
    (h : Holds binding arrived s.pqIncomingChunks) (hlen : binding.length ≤ 500 * 255) {i : ℕ}
    (hi : i < chunkCount binding) :
    Holds binding (arrived ++ [pqPdu binding i])
        (receivePqChunk s (pqPdu binding i)).2.pqIncomingChunks ∧
      (receivePqChunk s (pqPdu binding i)).1 =
        if ∀ p ∈ sendPqAuthProof binding, p ∈ arrived ++ [pqPdu binding i] then some binding
        else none := by
  have hceil : chunkCount binding = (binding.length + 499) / 500 := rfl
  have hcount : chunkCount binding ≤ 255 := by omega
  have htotal : (UInt8.ofNat (chunkCount binding)).toNat = chunkCount binding := by
    rw [UInt8.toNat_ofNat']
    omega
  have hinsert := h.insert hcount hi
  rw [receivePqChunk_pqPdu, storePqChunk, htotal]
  by_cases hall : ∀ p ∈ sendPqAuthProof binding, p ∈ arrived ++ [pqPdu binding i]
  · rw [if_pos ((hinsert.size_eq_iff hcount).mpr hall), if_pos hall]
    refine ⟨hinsert, ?_⟩
    have hjoin : joinChunks (s.pqIncomingChunks.insert (UInt8.ofNat i) (chunk binding i))
        (chunkCount binding) 0 = some ((binding.drop (500 * 0)).take (500 * chunkCount binding)) :=
      joinChunks_eq fun j _ hj => (hinsert _ _).mpr ⟨j, by omega,
        hall _ (mem_map_of_mem (mem_range.mpr (by omega))), rfl, rfl⟩
    rw [hjoin, Nat.mul_zero, drop_zero, take_of_length_le (by omega)]
  · rw [if_neg (mt (hinsert.size_eq_iff hcount).mp hall), if_neg hall]
    exact ⟨hinsert, rfl⟩

theorem holds_receivedBy (hlen : binding.length ≤ 500 * 255) {arrived before : List Bytes}
    (hbefore : ∀ p ∈ before, p ∈ sendPqAuthProof binding) {s : Session C}
    (h : Holds binding arrived s.pqIncomingChunks) :
    Holds binding (arrived ++ before) (receivedBy s before).pqIncomingChunks := by
  induction before generalizing arrived s with
  | nil => simpa [receivedBy] using h
  | cons p before ih =>
      obtain ⟨i, hi, rfl⟩ := mem_map.mp (hbefore p mem_cons_self)
      have hnext := ih (fun p hp => hbefore p (mem_cons_of_mem _ hp))
        (storePqChunk_eq h hlen (mem_range.mp hi)).1
      rwa [append_assoc] at hnext

/-- The chunk PDUs of a binding may arrive in any order, and each any number of times: the session
joins the binding when the last of them is there, and nothing before. -/
theorem receive_proof_eq (key : C.Key) (fp : String) (role : SessionRole) (now : ℕ)
    (hlen : binding.length ≤ 500 * 255) {before : List Bytes} {pdu : Bytes}
    (hsent : ∀ p ∈ before ++ [pdu], p ∈ sendPqAuthProof binding) :
    (receivePqChunk (receivedBy (newWithRole key fp role now : Session C) before) pdu).1 =
      if ∀ p ∈ sendPqAuthProof binding, p ∈ before ++ [pdu] then some binding else none := by
  have hstart : Holds binding []
      (newWithRole key fp role now : Session C).pqIncomingChunks := by
    intro k v
    simp [newWithRole]
  have hbefore := holds_receivedBy hlen
    (fun p hp => hsent p (mem_append_left _ hp)) hstart
  obtain ⟨i, hi, rfl⟩ := mem_map.mp
    (hsent pdu (mem_append_right _ mem_cons_self))
  exact (storePqChunk_eq hbefore hlen (mem_range.mp hi)).2

/-- A binding of two chunks, the second of which arrives first and twice. -/
theorem receive_proof_twice :
    let binding : Bytes := replicate 501 7
    (receivePqChunk (receivedBy (newWithRole (Term.master 1) "alice" .initiator 0 :
        Session Crypto.symbolic) [pqPdu binding 1, pqPdu binding 1]) (pqPdu binding 0)).1 =
      some binding := by
  intro binding
  have hlen : binding.length = 501 := length_replicate
  have hproof : sendPqAuthProof binding = [pqPdu binding 0, pqPdu binding 1] := by
    have hcount : chunkCount binding = 2 := by rw [chunkCount, hlen]; rfl
    rw [sendPqAuthProof, hcount]
    rfl
  refine (receive_proof_eq _ "alice" .initiator 0 (by omega) ?_).trans (if_pos ?_)
  · simp [hproof]
  · simp [hproof]

end Vantablack.Handshake
