import Vantablack.Send.RoundTrip

/-!
ShardSec as `net/shardsec.rs` has it: a message is cut into three shards, each is sealed with a key
of its own, and two that authenticate give the message back. What the receiver has are three slots,
and it is not said which of the shards is in which slot, how often, or what became of it.
-/

namespace Vantablack.Net.ShardSec

open Lib Layers Session Receive Send List

variable {C : Crypto}

def sealMessage (rs : ReedSolomon) (A : Aead C) (master : C.Key) (epoch : ℕ) (nonce : Octets 12)
    (direction : NonceDirection) (plaintext : Bytes) : List SealedShard :=
  let framed := padded (toBeBytes 2 plaintext.length ++ plaintext)
  (encode rs framed).mapIdx fun index shard =>
    sealShard A master epoch nonce direction (UInt8.ofNat index) shard

/-- One turn of the loop over the shards that are there. The first that authenticates under an index
takes its place. -/
def placeShard (A : Aead C) (master : C.Key) (epoch : ℕ) (nonce : Octets 12)
    (direction : NonceDirection) (shards : List (Option Bytes)) (candidate : SealedShard) :
    List (Option Bytes) :=
  if 3 ≤ candidate.index.toNat ∨ shards[candidate.index.toNat]?.join.isSome then shards
  else
    match openShard A.shardAead master epoch nonce direction candidate with
    | some plaintext => shards.set candidate.index.toNat (some plaintext)
    | none => shards

def openMessage (rs : ReedSolomon) (A : Aead C) (master : C.Key) (epoch : ℕ) (nonce : Octets 12)
    (direction : NonceDirection) (slots : List (Option SealedShard)) : Except String Bytes :=
  if slots.length ≠ 3 then .error "ShardSec requires exactly three shard slots"
  else
    let shards := (slots.filterMap id).foldl (placeShard A master epoch nonce direction)
      [none, none, none]
    if (shards.filter Option.isSome).length < 2 then .error "fewer than two authenticated shards"
    else
      match reconstruct rs shards with
      | none => .error "Reed-Solomon reconstruction failed"
      | some shards =>
          match shards[0]?.join, shards[1]?.join with
          | some first, some second =>
              let framed := first ++ second
              if framed.length < 2 then .error "reconstructed payload is truncated"
              else
                let length := fromBeBytes (framed.take 2)
                if framed.length < length + 2 then
                  .error "reconstructed payload length is invalid"
                else .ok ((framed.take (length + 2)).drop 2)
          | _, _ => .error "missing reconstructed shard"

/-! ### The shards of a message -/

/-- The same shard to the receiver. The mark of a honey shard is not sealed and is not looked at. -/
structure SameSealed (c s : SealedShard) : Prop where
  index : c.index = s.index
  ciphertext : c.ciphertext = s.ciphertext
  tag : c.tag = s.tag

/-- Some slot has the shard `i` of what was sent, untampered. -/
def Present (sent : List SealedShard) (slots : List (Option SealedShard)) (i : Fin 3) : Prop :=
  ∃ s, sent[i.1]? = some s ∧ ∃ c, some c ∈ slots ∧ SameSealed c s

section

variable (rs : ReedSolomon) (A : Aead C) (master : C.Key) (epoch : ℕ) (nonce : Octets 12)
  (direction : NonceDirection) (pay : Bytes)

/-- What is in the slots opens only if it is a shard that was sent. -/
def NoForgery (sent : List SealedShard) (slots : List (Option SealedShard)) : Prop :=
  ∀ c, some c ∈ slots → openShard A.shardAead master epoch nonce direction c ≠ none →
    ∃ s ∈ sent, SameSealed c s

def plainShard (i : Fin 3) : Bytes :=
  (encode rs (framedPayload pay))[i.1]?.getD []

/-- What the receiver has of them. -/
def mask (P : Fin 3 → Bool) : List (Option Bytes) :=
  ofFn fun i => if P i then some (plainShard rs pay i) else none

theorem getElem?_sealMessage (i : Fin 3) :
    (sealMessage rs A master epoch nonce direction pay)[i.1]? =
      some (sealShard A master epoch nonce direction (UInt8.ofNat i) (plainShard rs pay i)) := by
  have hi : i.1 < (encode rs (framedPayload pay)).length := by
    rw [length_encode]
    exact i.2
  rw [sealMessage, plainShard]
  show ((encode rs (framedPayload pay)).mapIdx _)[i.1]? = _
  rw [getElem?_mapIdx, getElem?_eq_getElem hi]
  rfl

theorem mem_sealMessage_iff (s : SealedShard) :
    s ∈ sealMessage rs A master epoch nonce direction pay ↔
      ∃ i : Fin 3, s =
        sealShard A master epoch nonce direction (UInt8.ofNat i) (plainShard rs pay i) := by
  have hlen : (sealMessage rs A master epoch nonce direction pay).length = 3 := by
    rw [sealMessage, length_mapIdx, length_encode]
  constructor
  · intro hs
    obtain ⟨i, hi, hget⟩ := mem_iff_getElem.mp hs
    rw [hlen] at hi
    refine ⟨⟨i, hi⟩, ?_⟩
    have hsome := getElem?_sealMessage rs A master epoch nonce direction pay ⟨i, hi⟩
    rw [getElem?_eq_getElem (by rw [hlen]; exact hi)] at hsome
    rw [← hget]
    exact Option.some.inj hsome
  · rintro ⟨i, rfl⟩
    exact mem_of_getElem? (getElem?_sealMessage rs A master epoch nonce direction pay i)

variable {rs A master epoch nonce direction pay}

theorem openShard_of_sameSealed (hA : A.Lawful) {c : SealedShard} {i : Fin 3}
    (h : SameSealed c
      (sealShard A master epoch nonce direction (UInt8.ofNat i) (plainShard rs pay i))) :
    c.index.toNat = i ∧
      openShard A.shardAead master epoch nonce direction c = some (plainShard rs pay i) := by
  have hindex : c.index = UInt8.ofNat i := h.index
  have hnat : c.index.toNat = i := by
    rw [hindex]
    fin_cases i <;> rfl
  have hdata : c.ciphertext ++ c.tag.toList =
      A.xchachaSeal (A.shardKey master epoch nonce (UInt8.ofNat i)) (shardNonce nonce (UInt8.ofNat i))
        epoch direction [] (plainShard rs pay i) := by
    rw [h.ciphertext, h.tag]
    apply take_append_tagOf
    rw [hA.length_seal]
    omega
  refine ⟨hnat, ?_⟩
  rw [openShard, if_neg (by omega), hdata, hindex]
  exact hA.open_seal _ _ _ _ _ _

/-! ### The loop -/

variable (P : Fin 3 → Bool)

theorem getElem?_mask (i : Fin 3) :
    (mask rs pay P)[i.1]?.join = if P i then some (plainShard rs pay i) else none := by
  rw [mask, List.getElem?_ofFn, dif_pos i.2]
  rfl

theorem set_mask (i : Fin 3) :
    (mask rs pay P).set i (some (plainShard rs pay i)) =
      mask rs pay (Function.update P i true) := by
  apply ext_getElem
  · simp [mask]
  · intro k hk _
    have hk : k < 3 := by simpa [mask] using hk
    simp only [mask, getElem_set, List.getElem_ofFn, Function.update_apply, Fin.ext_iff]
    by_cases hik : i.1 = k
    · subst hik
      simp
    · simp [hik, Ne.symm hik]

theorem placeShard_mask (hA : A.Lawful) {c : SealedShard} {i : Fin 3}
    (h : SameSealed c
      (sealShard A master epoch nonce direction (UInt8.ofNat i) (plainShard rs pay i)))
    (P : Fin 3 → Bool) :
    placeShard A master epoch nonce direction (mask rs pay P) c =
      mask rs pay (Function.update P i true) := by
  obtain ⟨hnat, hopen⟩ := openShard_of_sameSealed hA h
  rw [placeShard, hnat, getElem?_mask, hopen]
  by_cases hP : P i = true
  · have hsame : Function.update P i true = P := by
      rw [← hP, Function.update_eq_self]
    rw [if_pos (Or.inr (by rw [if_pos hP]; rfl)), hsame]
  · have hroom : ¬ (3 ≤ i.1 ∨ (if P i then some (plainShard rs pay i) else none).isSome = true) := by
      rw [if_neg hP]
      simp
    rw [if_neg hroom]
    exact set_mask P i

theorem foldl_placeShard (hA : A.Lawful) {candidates : List SealedShard}
    (hforge : ∀ c ∈ candidates, openShard A.shardAead master epoch nonce direction c ≠ none →
      ∃ i : Fin 3, SameSealed c
        (sealShard A master epoch nonce direction (UInt8.ofNat i) (plainShard rs pay i)))
    (P : Fin 3 → Bool) :
    ∃ P' : Fin 3 → Bool,
      candidates.foldl (placeShard A master epoch nonce direction) (mask rs pay P) =
        mask rs pay P' ∧
      ∀ i, P' i = true ↔ P i = true ∨ ∃ c ∈ candidates, SameSealed c
        (sealShard A master epoch nonce direction (UInt8.ofNat i) (plainShard rs pay i)) := by
  induction candidates generalizing P with
  | nil => exact ⟨P, rfl, fun i => by simp⟩
  | cons c candidates ih =>
      have hrest := fun d hd => hforge d (mem_cons_of_mem c hd)
      by_cases hopen : openShard A.shardAead master epoch nonce direction c = none
      · -- a shard that does not authenticate changes nothing
        have hstay : placeShard A master epoch nonce direction (mask rs pay P) c =
            mask rs pay P := by
          rw [placeShard, hopen]
          exact ite_self _
        obtain ⟨P', hfold, hP'⟩ := ih hrest P
        refine ⟨P', by rw [foldl_cons, hstay, hfold], fun i => ?_⟩
        rw [hP', exists_mem_cons_iff]
        refine or_congr_right ⟨Or.inr, ?_⟩
        rintro (hsame | hlater)
        · rw [(openShard_of_sameSealed hA hsame).2] at hopen
          cases hopen
        · exact hlater
      · obtain ⟨i, hsame⟩ := hforge c mem_cons_self hopen
        obtain ⟨P', hfold, hP'⟩ := ih hrest (Function.update P i true)
        refine ⟨P', by rw [foldl_cons, placeShard_mask hA hsame, hfold], fun j => ?_⟩
        have honly : SameSealed c
            (sealShard A master epoch nonce direction (UInt8.ofNat j) (plainShard rs pay j)) ↔
              j = i := by
          constructor
          · intro hj
            have hi := (openShard_of_sameSealed hA hsame).1
            rw [(openShard_of_sameSealed hA hj).1] at hi
            exact Fin.ext hi
          · rintro rfl
            exact hsame
        rw [hP', exists_mem_cons_iff, honly, Function.update_apply]
        by_cases hj : j = i
        · simp [hj]
        · simp [hj]

/-! ### Putting a message together -/

theorem append_plainShard (rs : ReedSolomon) (pay : Bytes) :
    plainShard rs pay 0 ++ plainShard rs pay 1 = framedPayload pay ∧
      (plainShard rs pay 0).length = (plainShard rs pay 1).length ∧
      plainShard rs pay 2 = rs.parity (plainShard rs pay 0) (plainShard rs pay 1) ∧
      plainShard rs pay 0 ≠ [] ∧ plainShard rs pay 1 ≠ [] := by
  obtain ⟨low, high, hencode, hjoin, hlen, hlow, hhigh⟩ := encode_eq rs (framedPayload_ne_nil pay)
  have hpadded : padded (framedPayload pay) = framedPayload pay :=
    if_neg (by rw [framedPayload, length_padded]; decide)
  simp only [plainShard, hencode]
  exact ⟨hjoin.trans hpadded, hlen, rfl, hlow, hhigh⟩

theorem mask_eq :
    mask rs pay P =
      [if P 0 then some (plainShard rs pay 0) else none,
        if P 1 then some (plainShard rs pay 1) else none,
        if P 2 then some (plainShard rs pay 2) else none] := by
  simp [mask]

theorem exists_two_iff :
    (∃ i j : Fin 3, i ≠ j ∧ P i = true ∧ P j = true) ↔
      P 0 = true ∧ P 1 = true ∨ P 0 = true ∧ P 2 = true ∨ P 1 = true ∧ P 2 = true := by
  constructor
  · rintro ⟨i, j, hij, hi, hj⟩
    fin_cases i <;> fin_cases j <;> simp_all
  · rintro (⟨h, h'⟩ | ⟨h, h'⟩ | ⟨h, h'⟩)
    · exact ⟨0, 1, by decide, h, h'⟩
    · exact ⟨0, 2, by decide, h, h'⟩
    · exact ⟨1, 2, by decide, h, h'⟩

theorem length_filter_mask :
    ((mask rs pay P).filter Option.isSome).length < 2 ↔
      ¬ ∃ i j : Fin 3, i ≠ j ∧ P i = true ∧ P j = true := by
  rw [exists_two_iff, mask_eq]
  cases P 0 <;> cases P 1 <;> cases P 2 <;> simp

theorem reconstruct_mask (hrs : rs.Lawful) {P : Fin 3 → Bool}
    (htwo : ∃ i j : Fin 3, i ≠ j ∧ P i = true ∧ P j = true) :
    reconstruct rs (mask rs pay P) = some (mask rs pay fun _ => true) := by
  obtain ⟨-, hlen, hparity, hlow, hhigh⟩ := append_plainShard rs pay
  have hlow : (plainShard rs pay 0).isEmpty = false := by simpa using hlow
  have hhigh : (plainShard rs pay 1).isEmpty = false := by simpa using hhigh
  have hback := hrs.recoverLow_parity _ _ hlen
  have hforth := hrs.recoverHigh_parity _ _ hlen
  rw [exists_two_iff] at htwo
  rw [mask_eq, mask_eq]
  cases h0 : P 0 <;> cases h1 : P 1 <;> cases h2 : P 2 <;> simp_all [reconstruct]

variable {slots : List (Option SealedShard)}

theorem openMessage_of_two (hrs : rs.Lawful) (hlen : pay.length < 65536) (hslots : slots.length = 3)
    {P : Fin 3 → Bool}
    (hloop : (slots.filterMap id).foldl (placeShard A master epoch nonce direction)
      [none, none, none] = mask rs pay P) (htwo : ∃ i j : Fin 3, i ≠ j ∧ P i = true ∧ P j = true) :
    openMessage rs A master epoch nonce direction slots = .ok pay := by
  obtain ⟨hjoin, -⟩ := append_plainShard rs pay
  obtain ⟨pad, hframed⟩ := exists_framedPayload pay
  have hfirst : (mask rs pay fun _ => true)[0]?.join = some (plainShard rs pay 0) :=
    getElem?_mask _ 0
  have hsecond : (mask rs pay fun _ => true)[1]?.join = some (plainShard rs pay 1) :=
    getElem?_mask _ 1
  have hlength : fromBeBytes ((framedPayload pay).take 2) = pay.length := by
    rw [hframed, take_left' (length_toBeBytes 2 _), fromBeBytes_toBeBytes hlen]
  have hbody : ((framedPayload pay).take (pay.length + 2)).drop 2 = pay := by
    rw [drop_take, Nat.add_sub_cancel, hframed, drop_left' (length_toBeBytes 2 _),
      take_left]
  have hlong := length_framedPayload pay
  rw [openMessage, if_neg (not_not.mpr hslots)]
  dsimp only
  rw [hloop, if_neg (by rw [length_filter_mask]; exact not_not.mpr htwo), reconstruct_mask hrs htwo]
  dsimp only
  rw [hfirst, hsecond]
  dsimp only
  rw [hjoin, if_neg (by omega), hlength, if_neg (by omega), hbody]

theorem openMessage_of_fewer (hslots : slots.length = 3) {P : Fin 3 → Bool}
    (hloop : (slots.filterMap id).foldl (placeShard A master epoch nonce direction)
      [none, none, none] = mask rs pay P)
    (hfewer : ¬ ∃ i j : Fin 3, i ≠ j ∧ P i = true ∧ P j = true) :
    openMessage rs A master epoch nonce direction slots =
      .error "fewer than two authenticated shards" := by
  rw [openMessage, if_neg (not_not.mpr hslots)]
  dsimp only
  rw [hloop, if_pos ((length_filter_mask P).mpr hfewer)]

theorem present_iff {i : Fin 3} :
    Present (sealMessage rs A master epoch nonce direction pay) slots i ↔
      ∃ c ∈ slots.filterMap id, SameSealed c
        (sealShard A master epoch nonce direction (UInt8.ofNat i) (plainShard rs pay i)) := by
  rw [Present, getElem?_sealMessage]
  constructor
  · rintro ⟨s, hs, c, hc, hsame⟩
    cases hs
    exact ⟨c, by simpa using hc, hsame⟩
  · rintro ⟨c, hc, hsame⟩
    exact ⟨_, rfl, c, by simpa using hc, hsame⟩

end

/-- Whatever is in the three slots, the receiver gets the message if two shards of it are there
untampered, and an error otherwise. -/
theorem opened_iff_two_present (rs : ReedSolomon) (hrs : rs.Lawful) (A : Aead C) (hA : A.Lawful)
    (master : C.Key) (epoch : ℕ) (nonce : Octets 12) (direction : NonceDirection) (pay : Bytes)
    (hlen : pay.length < 65536) (slots : List (Option SealedShard)) (hslots : slots.length = 3)
    (hforge : NoForgery A master epoch nonce direction
      (sealMessage rs A master epoch nonce direction pay) slots) :
    ((∃ i j : Fin 3, i ≠ j ∧ Present (sealMessage rs A master epoch nonce direction pay) slots i ∧
        Present (sealMessage rs A master epoch nonce direction pay) slots j) →
      openMessage rs A master epoch nonce direction slots = .ok pay) ∧
    ((¬ ∃ i j : Fin 3, i ≠ j ∧ Present (sealMessage rs A master epoch nonce direction pay) slots i ∧
        Present (sealMessage rs A master epoch nonce direction pay) slots j) →
      openMessage rs A master epoch nonce direction slots =
        .error "fewer than two authenticated shards") := by
  have hsent : ∀ c ∈ slots.filterMap id,
      openShard A.shardAead master epoch nonce direction c ≠ none →
        ∃ i : Fin 3, SameSealed c
          (sealShard A master epoch nonce direction (UInt8.ofNat i) (plainShard rs pay i)) := by
    intro c hc hopen
    obtain ⟨s, hs, hsame⟩ := hforge c (by simpa using hc) hopen
    obtain ⟨i, rfl⟩ := (mem_sealMessage_iff rs A master epoch nonce direction pay s).mp hs
    exact ⟨i, hsame⟩
  obtain ⟨P, hloop, hP⟩ := foldl_placeShard hA hsent fun _ => false
  have hstart : mask rs pay (fun _ => false) = [none, none, none] := by
    rw [mask_eq]
    rfl
  have htwo : (∃ i j : Fin 3, i ≠ j ∧ Present (sealMessage rs A master epoch nonce direction pay)
      slots i ∧ Present (sealMessage rs A master epoch nonce direction pay) slots j) ↔
        ∃ i j : Fin 3, i ≠ j ∧ P i = true ∧ P j = true := by
    simp only [present_iff, hP, Bool.false_eq_true, false_or]
  rw [hstart] at hloop
  rw [htwo]
  exact ⟨openMessage_of_two hrs hlen hslots hloop, openMessage_of_fewer hslots hloop⟩

def sentShards : List SealedShard :=
  sealMessage galois8 firstAead (Term.master 7) 3 (List.Vector.replicate 12 0) .initiatorToResponder
    [72, 105]

def forgedShard : SealedShard where
  index := 0
  ciphertext := [0, 2]
  tag := List.Vector.replicate 16 9
  isHoney := false

theorem opened_beside_forged :
    openMessage galois8 firstAead (Term.master 7) 3 (List.Vector.replicate 12 0)
      .initiatorToResponder [some forgedShard, sentShards[2]?, sentShards[1]?] = .ok [72, 105] := by
  have hforge : NoForgery firstAead (Term.master 7) 3 (List.Vector.replicate 12 0)
      .initiatorToResponder sentShards [some forgedShard, sentShards[2]?, sentShards[1]?] := by
    intro c hc hopen
    simp only [mem_cons, Option.some.injEq, not_mem_nil, or_false] at hc
    rcases hc with rfl | hc | hc
    · exact absurd (by decide +kernel) hopen
    · exact ⟨c, mem_of_getElem? hc.symm, rfl, rfl, rfl⟩
    · exact ⟨c, mem_of_getElem? hc.symm, rfl, rfl, rfl⟩
  have hpresent : ∀ i : Fin 3, i ≠ 0 →
      Present sentShards [some forgedShard, sentShards[2]?, sentShards[1]?] i := by
    intro i hi
    have hget := getElem?_sealMessage galois8 firstAead (Term.master 7) 3
      (List.Vector.replicate 12 0) .initiatorToResponder [72, 105] i
    refine ⟨_, hget, _, ?_, rfl, rfl, rfl⟩
    rw [← hget]
    fin_cases i
    · exact absurd rfl hi
    · exact mem_cons_of_mem _ (mem_cons_of_mem _ mem_cons_self)
    · exact mem_cons_of_mem _ mem_cons_self
  exact (opened_iff_two_present galois8 galois8_lawful firstAead firstAead_lawful (Term.master 7) 3
    (List.Vector.replicate 12 0) .initiatorToResponder [72, 105] (by decide)
    [some forgedShard, sentShards[2]?, sentShards[1]?] rfl hforge).1
    ⟨1, 2, by decide, hpresent 1 (by decide), hpresent 2 (by decide)⟩

end Vantablack.Net.ShardSec
