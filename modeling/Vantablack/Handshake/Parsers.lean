import Vantablack.Layers.Kem

/-!
What the parsers of `layers/l1_kem.rs` read back from the layouts the builders write. Each
lemma follows the reader through the layout, field by field.
-/

namespace Vantablack.Layers

open Lib HybridCipherSuite List

variable {rest : Bytes}

theorem readBlob_eq {n : ℕ} {start : Bytes} (hstart : start.length = 16) (xPub : Octets 32)
    (kem : Octets n) (identityPk : Octets 32) (signature : Octets 64) :
    readBlob n (start ++ (xPub.toList ++ (kem.toList ++ (identityPk.toList ++
      (signature.toList ++ rest))))) =
      some { x25519Pub := xPub, kem := kem, identityPk := identityPk, signature := signature } := by
  have h16 := (RestAt.start (start ++ (xPub.toList ++ (kem.toList ++ (identityPk.toList ++
    (signature.toList ++ rest)))))).skip hstart
  rw [Nat.zero_add] at h16
  have hkem := h16.block
  have hid := hkem.block
  have hsig := hid.block
  rw [Nat.add_right_comm] at hsig
  simp only [readBlob, h16.blockAt, hkem.blockAt, hid.blockAt, hsig.blockAt, Option.bind_eq_bind,
    Option.bind_some]

variable {suite : HybridCipherSuite}

theorem parseSuite_pad {magic : Bytes} {lenOf : HybridCipherSuite → ℕ} (hmagic : magic.length = 16)
    (xPub : Octets 32) {kem : Bytes} (hkem : kem.length = lenOf suite) (identityPk : Octets 32)
    (signature : Octets 64) :
    parseSuite magic lenOf ((magic ++ (suiteMaterial suite xPub kem identityPk ++
      signature.toList)) ++ [0]) = none := by
  have hlen : ((magic ++ (suiteMaterial suite xPub kem identityPk ++
      signature.toList)) ++ [0]).length = 16 + 1 + 32 + lenOf suite + 32 + 64 + 1 := by
    simp only [suiteMaterial, length_append, length_cons, length_nil, hmagic, hkem,
      List.Vector.toList_length]
    omega
  have hbyte : ((magic ++ (suiteMaterial suite xPub kem identityPk ++
      signature.toList)) ++ [0])[16]? = some suite.wireId := by
    rw [append_assoc, append_assoc, getElem?_append_right (by omega), hmagic]
    rfl
  simp only [parseSuite, hlen, hbyte, Option.bind_eq_bind, Option.bind_some, fromWireId_wireId]
  split
  · rfl
  · simp

theorem length_responseFields {xPub : Octets 32} {kyberCt : Bytes}
    (hct : kyberCt.length = suiteCtLen suite) {identityPk pqCommitment : Octets 32} :
    (responseFields suite xPub kyberCt identityPk pqCommitment).length =
      negotiatedResponseLen suite - 64 := by
  have hmagic : responseNegotiationMagic.length = 16 := by decide
  simp only [responseFields, negotiatedResponseLen, length_append, length_cons, hmagic,
    hct, List.Vector.toList_length]
  omega

theorem parseNegotiatedResponsePdu_eq (xPub : Octets 32) {kyberCt : Bytes}
    (hct : kyberCt.length = suiteCtLen suite) (identityPk pqCommitment : Octets 32)
    (signature : Octets 64) (hrest : rest.length ≤ 1) :
    parseNegotiatedResponsePdu (responseFields suite xPub kyberCt identityPk pqCommitment ++
      (signature.toList ++ rest)) =
      some { suite := suite, x25519Pub := xPub, kyberCt := kyberCt, identityPk := identityPk,
             pqCommitment := pqCommitment, signature := signature } := by
  have hmagic : responseNegotiationMagic.length = 16 := by decide
  have hfields : (responseFields suite xPub kyberCt identityPk pqCommitment).length =
      negotiatedResponseLen suite - 64 := length_responseFields hct
  generalize hdata : responseFields suite xPub kyberCt identityPk pqCommitment ++
    (signature.toList ++ rest) = data
  have htotal : 49 + suiteCtLen suite + 128 = negotiatedResponseLen suite := by
    unfold negotiatedResponseLen
    omega
  have hlen : data.length = negotiatedResponseLen suite + rest.length := by
    rw [← hdata, length_append, length_append, hfields, signature.toList_length]
    omega
  have hstart : data = responseNegotiationMagic ++ (suite.wireId :: (xPub.toList ++ (kyberCt ++
      (identityPk.toList ++ (pqCommitment.toList ++ (signature.toList ++ rest)))))) := by
    rw [← hdata]
    simp only [responseFields, append_assoc, cons_append]
  have hprefix : responseNegotiationMagic.isPrefixOf data = true := by
    rw [hstart]
    exact isPrefixOf_iff_prefix.mpr (prefix_append _ _)
  have h0 := RestAt.start data
  nth_rewrite 2 [hstart] at h0
  have h16 := h0.skip hmagic
  have h17 := h16.next
  have h49 := h17.block
  have hid := h49.skip hct
  have hpq := hid.block
  have hsig := hpq.block
  have hbounds : ¬ (data.length < 16 + 1 + 32 + 32 + 32 + 64) := by omega
  have hbounds' : ¬ (data.length < negotiatedResponseLen suite) ∧
      ¬ (negotiatedResponseLen suite + 1 < data.length) := by omega
  simp only [parseNegotiatedResponsePdu, hbounds, hprefix, h16.getElem?, hbounds'.1, hbounds'.2,
    h17.blockAt, h49.sliceAt hct, hid.blockAt, hpq.blockAt, hsig.blockAt, fromWireId_wireId,
    Option.bind_eq_bind, Option.bind_some, decide_false, Bool.not_true, Bool.or_self,
    Bool.false_eq_true, if_false]

/-! ### The negotiated offer -/

theorem keyEntries_eq_some {kyberKeys : List (HybridCipherSuite × Bytes)}
    {supported : List HybridCipherSuite} {entries : Bytes}
    (h : keyEntries kyberKeys supported = some entries) :
    ∃ found : List (HybridCipherSuite × Bytes), found.map Prod.fst = supported ∧
      entries = entriesOf found ∧ (∀ e ∈ found, e.2.length = suiteKeyLen e.1) ∧
      found ⊆ kyberKeys := by
  induction supported generalizing entries with
  | nil =>
      cases h
      exact ⟨[], rfl, rfl, by simp, by simp⟩
  | cons suite supported ih =>
      rw [keyEntries] at h
      cases hfind : kyberKeys.find? (fun e => e.1 == suite) with
      | none =>
          rw [hfind] at h
          cases h
      | some e =>
          have hmem := mem_of_find?_eq_some hfind
          have hsuite : e.1 = suite := by simpa using find?_some hfind
          rw [hfind] at h
          by_cases hlen : e.2.length ≠ suiteKeyLen suite
          · simp [hlen] at h
          · rw [not_ne_iff] at hlen
            cases hrest : keyEntries kyberKeys supported with
            | none => simp [hrest] at h
            | some entries' =>
                obtain ⟨found, hmap, hentries, hlens, hsub⟩ := ih hrest
                refine ⟨e :: found, ?_, ?_, ?_, ?_⟩
                · rw [map_cons, hmap, hsuite]
                · simp only [hlen, hrest, Option.bind_eq_bind, Option.bind_some, ne_eq,
                    not_true_eq_false, if_false, Option.some.injEq] at h
                  rw [← h, hentries, entriesOf, entriesOf, flatMap_cons, hsuite]
                · intro e' he'
                  rcases mem_cons.mp he' with rfl | he'
                  · rw [hlen, hsuite]
                  · exact hlens e' he'
                · intro e' he'
                  rcases mem_cons.mp he' with rfl | he'
                  · exact hmem
                  · exact hsub he'

theorem parseSupported_eq {data : Bytes} (supported : List HybridCipherSuite) {pos : ℕ}
    {acc : List HybridCipherSuite} (hacc : acc.Nodup)
    (h : RestAt data pos (supported.map wireId ++ rest)) :
    parseSupported data supported.length pos acc =
      if (acc ++ supported).Nodup then some (acc ++ supported, pos + supported.length)
      else none := by
  induction supported generalizing pos acc with
  | nil =>
      rw [append_nil, if_pos hacc]
      rfl
  | cons suite supported ih =>
      rw [map_cons, cons_append] at h
      rw [length_cons, parseSupported, h.getElem?]
      simp only [Option.bind_eq_bind, Option.bind_some, fromWireId_wireId, contains_iff_mem]
      by_cases hmem : suite ∈ acc
      · have hdup : ¬ (acc ++ suite :: supported).Nodup := by
          intro hnodup
          exact (nodup_append.mp hnodup).2.2 suite hmem suite mem_cons_self rfl
        simp [hmem, hdup]
      · have hacc' : (acc ++ [suite]).Nodup := by
          rw [nodup_append]
          refine ⟨hacc, nodup_singleton suite, ?_⟩
          rintro a ha b hb rfl
          rw [mem_singleton] at hb
          exact hmem (hb ▸ ha)
        simp only [hmem, if_false]
        rw [ih hacc' h.next, append_assoc, singleton_append, Nat.add_right_comm,
          Nat.add_assoc]

theorem parseKyberKeys_eq {data : Bytes} (keys : List (HybridCipherSuite × Bytes)) {pos : ℕ}
    (acc : List (HybridCipherSuite × Bytes)) (hnodup : ((acc ++ keys).map Prod.fst).Nodup)
    (hlen : ∀ e ∈ keys, e.2.length = suiteKeyLen e.1)
    (h : RestAt data pos (entriesOf keys ++ rest)) :
    parseKyberKeys data keys.length pos acc =
      some (acc ++ keys, pos + (entriesOf keys).length) := by
  induction keys generalizing pos acc with
  | nil =>
      rw [append_nil]
      rfl
  | cons e keys ih =>
      obtain ⟨suite, key⟩ := e
      have hkey : key.length = suiteKeyLen suite := hlen _ mem_cons_self
      have hfit : key.length < 256 ^ 2 := by
        rw [hkey]
        cases suite <;> decide
      have hnew : acc.any (fun e => e.1 == suite) = false := by
        rw [map_append, nodup_append] at hnodup
        rw [any_eq_false]
        intro e he heq
        exact hnodup.2.2 e.1 (mem_map_of_mem he) suite (by simp) (by simpa using heq)
      have hrest : RestAt data pos (suite.wireId :: (toBeBytes 2 key.length ++ (key ++
          (entriesOf keys ++ rest)))) := by
        simpa only [entriesOf, flatMap_cons, keyEntry, cons_append,
          append_assoc] using h
      have hlen2 := hrest.next
      have hkeyAt := hlen2.skip (length_toBeBytes 2 key.length)
      have hnext := hkeyAt.skip rfl
      rw [length_cons, parseKyberKeys, hrest.getElem?]
      simp only [Option.bind_eq_bind, Option.bind_some, fromWireId_wireId,
        hlen2.sliceAt (length_toBeBytes 2 key.length), fromBeBytes_toBeBytes hfit, hkey.symm, hnew,
        ne_eq, not_true_eq_false, decide_false, Bool.or_self, Bool.false_eq_true, if_false]
      rw [show pos + 3 = pos + 1 + 2 from rfl, hkeyAt.sliceAt rfl, Option.bind_some,
        ih _ (by simpa using hnodup) (fun e he => hlen e (mem_cons_of_mem _ he)) hnext]
      simp only [append_assoc, singleton_append, entriesOf, flatMap_cons, keyEntry,
        length_append, length_cons, length_toBeBytes, Option.some.injEq, Prod.mk.injEq,
        true_and]
      omega

section Offer

variable {supported : List HybridCipherSuite} {keys : List (HybridCipherSuite × Bytes)}
  (xPub identityPk pqCommitment : Octets 32)

theorem length_negotiationFields (hkeys : keys.map Prod.fst = supported)
    (hlen : ∀ e ∈ keys, e.2.length = suiteKeyLen e.1) :
    (negotiationFields supported xPub (entriesOf keys) identityPk pqCommitment).length =
      113 + supported.length + (supported.map fun s => 3 + suiteKeyLen s).sum := by
  have hmagic : handshakeNegotiationMagic.length = 16 := by decide
  have hentries := length_entriesOf hlen
  rw [hkeys] at hentries
  simp only [negotiationFields, length_append, length_cons, length_map, hmagic,
    hentries, List.Vector.toList_length]
  omega

theorem length_negotiationFields_odd (hkeys : keys.map Prod.fst = supported)
    (hlen : ∀ e ∈ keys, e.2.length = suiteKeyLen e.1) :
    (negotiationFields supported xPub (entriesOf keys) identityPk pqCommitment).length % 2 = 1 := by
  have hsum : ∀ l : List HybridCipherSuite,
      ((l.map fun s => 3 + suiteKeyLen s).sum + l.length) % 2 = 0 := by
    intro l
    induction l with
    | nil => rfl
    | cons s l ih =>
        have hs : suiteKeyLen s % 2 = 0 := by cases s <;> rfl
        rw [map_cons, sum_cons, length_cons]
        omega
  have hodd := hsum supported
  rw [length_negotiationFields xPub identityPk pqCommitment hkeys hlen]
  omega

theorem tryParse_eq {data tail : Bytes} (hne : supported ≠ []) (htwo : supported.length ≤ 2)
    (hkeys : keys.map Prod.fst = supported) (hlen : ∀ e ∈ keys, e.2.length = suiteKeyLen e.1)
    (hdata : data = negotiationFields supported xPub (entriesOf keys) identityPk pqCommitment ++
      tail) {len : ℕ} (hbound : 178 ≤ len) (allowReserved : Bool) :
    tryParse data len allowReserved =
      if supported.Nodup then do
        let pos ← signatureAt data len allowReserved
          (negotiationFields supported xPub (entriesOf keys) identityPk pqCommitment).length
        let signature ← blockAt data pos 64
        if pos + 64 ≠ len then none
        else some { supported := supported, x25519Pub := xPub, kyberKeys := keys,
                    identityPk := identityPk, pqCommitment := pqCommitment,
                    signature := signature }
      else none := by
  have hmagic : handshakeNegotiationMagic.length = 16 := by decide
  have hcount : keys.length = supported.length := by rw [← hkeys, length_map]
  have hpos := length_pos_iff.mpr hne
  have hstart : data = handshakeNegotiationMagic ++ (UInt8.ofNat supported.length ::
      (supported.map wireId ++ (xPub.toList ++ (entriesOf keys ++ (identityPk.toList ++
        (pqCommitment.toList ++ tail)))))) := by
    rw [hdata]
    simp only [negotiationFields, append_assoc, cons_append]
  have hprefix : handshakeNegotiationMagic.isPrefixOf data = true := by
    rw [hstart]
    exact isPrefixOf_iff_prefix.mpr (prefix_append _ _)
  have h0 := RestAt.start data
  nth_rewrite 2 [hstart] at h0
  have h16 := h0.skip hmagic
  have h17 := h16.next
  have hx := h17.skip (length_map _)
  have hk := hx.block
  have hid := hk.skip rfl
  have hpq := hid.block
  have hend : 0 + 16 + 1 + supported.length + 32 + (entriesOf keys).length + 64 =
      (negotiationFields supported xPub (entriesOf keys) identityPk pqCommitment).length := by
    simp only [negotiationFields, length_append, length_cons, length_map, hmagic,
      List.Vector.toList_length]
    omega
  have hbyte : (UInt8.ofNat supported.length).toNat = supported.length := by
    rw [UInt8.toNat_ofNat']
    omega
  have hreserved : (if allowReserved then 1 else 0) ≤ 1 := by cases allowReserved <;> decide
  have hguard : ¬ (len < 16 + 1 + 32 + 32 + 32 + 64 + if allowReserved then 1 else 0) := by
    omega
  have hguard' : ¬ (supported.length = 0) ∧ ¬ (2 < supported.length) ∧
      ¬ (len ≤ 17 + 32 + 32 + 64 + if allowReserved then 1 else 0) := by
    omega
  have hsuites := parseSupported_eq supported nodup_nil h17
  rw [nil_append] at hsuites
  simp only [tryParse, hguard, hprefix, h16.getElem?, hbyte, hguard'.1, hguard'.2.1, hguard'.2.2,
    Option.map_some, Option.bind_eq_bind, Option.bind_some, decide_false, Bool.not_true,
    Bool.or_self, Bool.false_eq_true, if_false]
  rw [show 17 = 0 + 16 + 1 from rfl, hsuites]
  by_cases hnodup : supported.Nodup
  · have hread := parseKyberKeys_eq keys [] (by rwa [nil_append, hkeys]) hlen hk
    rw [nil_append, hcount] at hread
    simp only [hnodup, if_true, Option.bind_some, hx.blockAt, hread, hid.blockAt, hpq.blockAt,
      hend, hkeys, ne_eq, not_true_eq_false, decide_false, Bool.or_false, decide_eq_true_eq,
      Option.bind_none]
  · simp only [hnodup, if_false, Option.bind_none]

theorem parseNegotiatedHandshakePdu_eq (hne : supported ≠ []) (htwo : supported.length ≤ 2)
    (hkeys : keys.map Prod.fst = supported) (hlen : ∀ e ∈ keys, e.2.length = suiteKeyLen e.1)
    (signature : Octets 64) :
    parseNegotiatedHandshakePdu
      (negotiationFields supported xPub (entriesOf keys) identityPk pqCommitment ++ [0] ++
        signature.toList) =
      if supported.Nodup then
        some { supported := supported, x25519Pub := xPub, kyberKeys := keys,
               identityPk := identityPk, pqCommitment := pqCommitment, signature := signature }
      else none := by
  generalize hdata : negotiationFields supported xPub (entriesOf keys) identityPk pqCommitment ++
    [0] ++ signature.toList = data
  rw [append_assoc] at hdata
  have hfields := length_negotiationFields xPub identityPk pqCommitment hkeys hlen
  have hdlen : data.length =
      (negotiationFields supported xPub (entriesOf keys) identityPk pqCommitment).length + 65 := by
    rw [← hdata, length_append, length_append, signature.toList_length]
    rfl
  have hbound : 179 ≤ data.length := by
    have hpos : 800 ≤ (supported.map fun s => 3 + suiteKeyLen s).sum := by
      cases supported with
      | nil => exact absurd rfl hne
      | cons s rest =>
          rw [map_cons, sum_cons]
          cases s <;> simp only [suiteKeyLen] <;> omega
    omega
  have htry := fun {len : ℕ} (hb : 178 ≤ len) (allowReserved : Bool) =>
    tryParse_eq xPub identityPk pqCommitment hne htwo hkeys hlen hdata.symm hb allowReserved
  have hend : RestAt data
      (negotiationFields supported xPub (entriesOf keys) identityPk pqCommitment).length
      (0 :: (signature.toList ++ [])) := by
    have h0 := RestAt.start data
    nth_rewrite 2 [← hdata] at h0
    have hskip := h0.skip rfl
    rwa [Nat.zero_add, singleton_append, ← append_nil signature.toList] at hskip
  by_cases hnodup : supported.Nodup
  · have hsig : signatureAt data data.length true
        (negotiationFields supported xPub (entriesOf keys) identityPk pqCommitment).length =
          some ((negotiationFields supported xPub (entriesOf keys) identityPk
            pqCommitment).length + 1) := by
      simp only [signatureAt, hend.getElem?, hdlen]
      simp
    have hfirst := htry (show 178 ≤ data.length by omega) true
    rw [if_pos hnodup, hsig, Option.bind_eq_bind, Option.bind_some, hend.next.blockAt,
      Option.bind_eq_bind, Option.bind_some, if_neg (by omega)] at hfirst
    rw [parseNegotiatedHandshakePdu, hfirst, if_pos hnodup]
  · have hnone : ∀ {len : ℕ}, 178 ≤ len → ∀ allowReserved,
        tryParse data len allowReserved = none := by
      intro len hb allowReserved
      rw [htry hb allowReserved, if_neg hnodup]
    rw [if_neg hnodup, parseNegotiatedHandshakePdu, hnone (by omega), hnone (by omega),
      hnone (by omega)]
    simp

end Offer

end Vantablack.Layers
