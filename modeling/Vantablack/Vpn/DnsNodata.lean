import Vantablack.Vpn.Packet

/-!
The answer of a VPN hub to an AAAA query, `build_dns_nodata_response` of `net/vpn/hub.rs`, read by
the grammar of DNS messages: a name is a sequence of labels of at most 63 bytes that ends with an
empty one or with a pointer, and a question is a name with two numbers after it.
-/

namespace Vantablack.Vpn

open Lib Layers List

/-- A name as it stands in a message. The two other kinds of length bytes are reserved. -/
inductive IsName : Bytes → Prop
  | root : IsName [0]
  | pointer (hi lo : UInt8) : hi &&& 0xC0 = 0xC0 → IsName [hi, lo]
  | label (len : UInt8) (text rest : Bytes) : len ≠ 0 → len.toNat < 64 → text.length = len.toNat →
      IsName rest → IsName (len :: (text ++ rest))

/-- A name, a type and a class. -/
def IsQuestion (entry : Bytes) : Prop :=
  ∃ name fields, IsName name ∧ fields.length = 4 ∧ entry = name ++ fields

/-- What a complete response to `query` without any answer is: its ID, the QR bit, RCODE 0, as many
questions as it says, the first one that of the query, and nothing after them. -/
structure AnswersEmpty (query resp : Bytes) : Prop where
  id : resp.take 2 = query.take 2
  qr : resp.getD 2 0 &&& 0x80 = 0x80
  rcode : resp.getD 3 0 &&& 0x0F = 0
  questions : ∃ (first : Bytes) (others : List Bytes), IsQuestion first ∧ first <+: query.drop 12 ∧
    (∀ entry ∈ others, IsQuestion entry) ∧ resp.drop 12 = first ++ others.flatten ∧
    u16At resp 4 = others.length + 1
  ancount : u16At resp 6 = 0
  nscount : u16At resp 8 = 0
  arcount : u16At resp 10 = 0

/-! ### The walker -/

theorem IsName.length_pos {name : Bytes} (h : IsName name) : 0 < name.length := by
  cases h <;> simp

theorem skipName_step {payload rest : Bytes} {b : UInt8} {fuel idx : ℕ}
    (hrest : RestAt payload idx (b :: rest)) :
    skipName payload (fuel + 1) idx =
      if b = 0 then idx + 1
      else if b &&& 0xC0 = 0xC0 then idx + 2
      else skipName payload fuel (idx + 1 + b.toNat) := by
  have hbyte : payload[idx]? = some b := hrest.getElem?
  have hin : ¬ payload.length ≤ idx := by
    intro hle
    rw [getElem?_eq_none hle] at hbyte
    cases hbyte
  simp only [skipName, if_neg hin, getD_eq_getElem?_getD, hbyte, Option.getD_some]

theorem skipName_of_isName {payload name rest : Bytes} (h : IsName name) {fuel idx : ℕ}
    (hfuel : name.length ≤ fuel) (hrest : RestAt payload idx (name ++ rest)) :
    skipName payload fuel idx = idx + name.length := by
  induction h generalizing fuel idx with
  | root =>
      obtain ⟨fuel, rfl⟩ := Nat.exists_eq_succ_of_ne_zero (Nat.pos_iff_ne_zero.mp hfuel)
      rw [skipName_step hrest, if_pos rfl]
      rfl
  | pointer hi lo hbits =>
      obtain ⟨fuel, rfl⟩ := Nat.exists_eq_succ_of_ne_zero
        (Nat.pos_iff_ne_zero.mp (lt_of_lt_of_le (by simp) hfuel))
      have hne : hi ≠ 0 := by
        rintro rfl
        exact absurd hbits (by decide)
      rw [skipName_step hrest, if_neg hne, if_pos hbits]
      rfl
  | label len text name hne hsmall htext hname ih =>
      obtain ⟨fuel, rfl⟩ := Nat.exists_eq_succ_of_ne_zero
        (Nat.pos_iff_ne_zero.mp (lt_of_lt_of_le (by simp) hfuel))
      have hlabel : len &&& 0xC0 ≠ 0xC0 := by
        intro hbits
        have hnat := congrArg UInt8.toNat hbits
        rw [UInt8.toNat_and] at hnat
        have hle : len.toNat &&& (0xC0 : UInt8).toNat ≤ len.toNat := Nat.and_le_left
        rw [hnat] at hle
        exact absurd (lt_of_le_of_lt hle hsmall) (by decide)
      have hnext : RestAt payload (idx + 1 + len.toNat) (name ++ rest) := by
        have htail : RestAt payload (idx + 1) (text ++ (name ++ rest)) := by
          have htail : RestAt payload (idx + 1) ((text ++ name) ++ rest) := hrest.next
          rwa [append_assoc] at htail
        exact htail.skip htext
      have hfuel' : name.length ≤ fuel := by
        simp only [length_cons, length_append] at hfuel
        omega
      rw [skipName_step hrest, if_neg hne, if_neg hlabel, ih hfuel' hnext, length_cons,
        length_append, htext]
      omega

theorem skipName_congr {payload payload' : Bytes} {fuel idx : ℕ}
    (hdrop : payload'.drop idx = payload.drop idx) (hlen : payload'.length = payload.length) :
    skipName payload' fuel idx = skipName payload fuel idx := by
  induction fuel generalizing idx with
  | zero => rfl
  | succ fuel ih =>
      have hbyte : payload'.getD idx 0 = payload.getD idx 0 := by
        have hhead := congrArg (·[0]?) hdrop
        simp only [getElem?_drop, Nat.add_zero] at hhead
        rw [getD_eq_getElem?_getD, getD_eq_getElem?_getD, hhead]
      have hnext : payload'.drop (idx + 1 + (payload.getD idx 0).toNat) =
          payload.drop (idx + 1 + (payload.getD idx 0).toNat) := by
        rw [Nat.add_assoc, ← drop_drop, hdrop, drop_drop]
      rw [skipName, skipName, hbyte, hlen]
      dsimp only
      rw [ih hnext]

theorem le_skipName (payload : Bytes) (fuel idx : ℕ) : idx ≤ skipName payload fuel idx := by
  induction fuel generalizing idx with
  | zero => exact le_rfl
  | succ fuel ih =>
      rw [skipName]
      dsimp only
      split
      · exact le_rfl
      · split
        · exact Nat.le_succ _
        · split
          · omega
          · exact le_trans (by omega) (ih _)

/-! ### The response -/

variable {query : Bytes}

theorem skipName_le_of_isDnsAaaaQuery (h : isDnsAaaaQuery query = true) :
    12 ≤ query.length ∧ skipName query query.length 12 + 4 ≤ query.length := by
  unfold isDnsAaaaQuery at h
  dsimp only at h
  repeat' split at h
  all_goals first
    | exact ⟨by omega, by assumption⟩
    | cases h

/-- The header with the flags of an answer, and all its counts but the first cleared. -/
def answerHeader (query : Bytes) : Bytes :=
  query.take 2 ++ ([0x81, 0x80] ++ ((query.drop 4).take 2 ++ [0, 0, 0, 0, 0, 0]))

theorem length_answerHeader (h : 12 ≤ query.length) : (answerHeader query).length = 12 := by
  simp only [answerHeader, length_append, length_take, length_drop,
    length_cons, length_nil]
  omega

theorem take_answerHeader (h : 12 ≤ query.length) (rest : Bytes) :
    (answerHeader query ++ rest).take 2 = query.take 2 := by
  have hid : (query.take 2).length = 2 := by
    rw [length_take]
    omega
  rw [answerHeader, append_assoc, take_left' hid]

theorem restAt_answerHeader (h : 12 ≤ query.length) (rest : Bytes) :
    RestAt (answerHeader query ++ rest) 2
      (0x81 :: 0x80 :: ((query.drop 4).take 2 ++ ([0, 0, 0, 0, 0, 0] ++ rest))) := by
  have hid : (query.take 2).length = 2 := by
    rw [length_take]
    omega
  have hrest : RestAt (answerHeader query ++ rest) 0 (query.take 2 ++
      (0x81 :: 0x80 :: ((query.drop 4).take 2 ++ ([0, 0, 0, 0, 0, 0] ++ rest)))) :=
    ⟨Nat.zero_le _, by simp [answerHeader]⟩
  exact hrest.skip hid

theorem u16At_answerHeader_four (h : 12 ≤ query.length) (rest : Bytes) :
    u16At (answerHeader query ++ rest) 4 = u16At query 4 := by
  have hcount : ((query.drop 4).take 2).length = 2 := by
    rw [length_take, length_drop]
    omega
  rw [u16At, (restAt_answerHeader h rest).next.next.2, take_left' hcount, u16At]

theorem u16At_answerHeader (h : 12 ≤ query.length) (rest : Bytes) {i : ℕ} (hi : i ≤ 4) :
    u16At (answerHeader query ++ rest) (6 + i) = 0 := by
  have hcount : ((query.drop 4).take 2).length = 2 := by
    rw [length_take, length_drop]
    omega
  rw [u16At, ← drop_drop, ((restAt_answerHeader h rest).next.next.skip hcount).2]
  match i, hi with
  | 0, _ | 1, _ | 2, _ | 3, _ | 4, _ => rfl

theorem overwrite_header (h : 12 ≤ query.length) :
    overwrite (overwrite query 2 [0x81, 0x80]) 6 [0, 0, 0, 0, 0, 0] =
      answerHeader query ++ query.drop 12 := by
  have hmin : min 2 query.length = 2 := by omega
  rw [overwrite_eq (by simp; omega), overwrite_eq (by simp; omega), answerHeader]
  simp [take_append, drop_append, drop_take, hmin]

theorem buildDnsNodataResponse_spec (h : isDnsAaaaQuery query = true) :
    buildDnsNodataResponse query =
      some (answerHeader query ++
        (query.drop 12).take (skipName query query.length 12 + 4 - 12)) := by
  obtain ⟨hlong, hquestion⟩ := skipName_le_of_isDnsAaaaQuery h
  have hidx : 12 ≤ skipName query query.length 12 := le_skipName query query.length 12
  have hheader := overwrite_header hlong
  have hlen : (answerHeader query ++ query.drop 12).length = query.length := by
    rw [length_append, length_answerHeader hlong, length_drop]
    omega
  have hdrop : (answerHeader query ++ query.drop 12).drop 12 = query.drop 12 :=
    drop_left' (length_answerHeader hlong)
  rw [buildDnsNodataResponse, if_neg (not_lt.mpr hlong)]
  dsimp only
  rw [hheader, hlen, skipName_congr hdrop hlen, if_pos hquestion, take_append,
    length_answerHeader hlong, take_of_length_le (by rw [length_answerHeader hlong]; omega)]

/-! ### When the response is complete -/

theorem IsQuestion.five_le_length {entry : Bytes} (h : IsQuestion entry) : 5 ≤ entry.length := by
  obtain ⟨name, fields, hname, hfields, rfl⟩ := h
  have hpos := hname.length_pos
  rw [length_append]
  omega

theorem take_question {name rest : Bytes} (h : isDnsAaaaQuery query = true) (hname : IsName name)
    (hrest : query.drop 12 = name ++ rest) :
    (query.drop 12).take (skipName query query.length 12 + 4 - 12) = name ++ rest.take 4 ∧
      4 ≤ rest.length := by
  obtain ⟨hlong, hquestion⟩ := skipName_le_of_isDnsAaaaQuery h
  have hlen : query.length - 12 = name.length + rest.length := by
    rw [← length_drop, hrest, length_append]
  have hstop : skipName query query.length 12 = 12 + name.length :=
    skipName_of_isName hname (by omega) ⟨hlong, hrest⟩
  have hcount : skipName query query.length 12 + 4 - 12 = name.length + 4 := by omega
  refine ⟨?_, by omega⟩
  rw [hcount, hrest, take_append, take_of_length_le (by omega), Nat.add_sub_cancel_left]

/-- A query for AAAA is answered with a complete message exactly if its own question is the only one
and has a well-formed name: the number of questions is copied and only the first of them is, and the
walker takes the reserved kinds of length bytes for lengths. -/
theorem buildDnsNodataResponse_complete_iff {query : Bytes} (h : isDnsAaaaQuery query = true) :
    (∃ resp, buildDnsNodataResponse query = some resp ∧ AnswersEmpty query resp) ↔
      u16At query 4 = 1 ∧ ∃ name rest, IsName name ∧ query.drop 12 = name ++ rest := by
  have hlong := (skipName_le_of_isDnsAaaaQuery h).1
  have hbuild := buildDnsNodataResponse_spec h
  constructor
  · rintro ⟨resp, hresp, hcomplete⟩
    obtain rfl := Option.some.inj (hbuild.symm.trans hresp)
    obtain ⟨first, others, ⟨name, fields, hname, hfields, rfl⟩, ⟨rest, hrest⟩, hothers, hbody,
      hcount⟩ := hcomplete.questions
    rw [append_assoc] at hrest
    obtain ⟨htake, -⟩ := take_question h hname hrest.symm
    rw [drop_left' (length_answerHeader hlong), htake, take_left' hfields] at hbody
    -- nothing is left for the other questions, and none of them is empty
    have hflat : others.flatten = [] := by
      have hlen := congrArg length hbody
      simp only [length_append] at hlen
      exact eq_nil_of_length_eq_zero (by omega)
    have hnone : others = [] := by
      refine eq_nil_iff_forall_not_mem.mpr fun entry hentry => ?_
      have hfive := (hothers entry hentry).five_le_length
      rw [flatten_eq_nil_iff.mp hflat entry hentry, length_nil] at hfive
      omega
    rw [u16At_answerHeader_four hlong, hnone] at hcount
    exact ⟨hcount, name, fields ++ rest, hname, hrest.symm⟩
  · rintro ⟨hone, name, rest, hname, hrest⟩
    obtain ⟨htake, hfour⟩ := take_question h hname hrest
    have hflags := restAt_answerHeader hlong (name ++ rest.take 4)
    rw [htake] at hbuild
    refine ⟨_, hbuild, take_answerHeader hlong _, ?_, ?_, ⟨name ++ rest.take 4, [],
      ⟨name, rest.take 4, hname, length_take_of_le hfour, rfl⟩, ?_, by simp, ?_, ?_⟩,
      u16At_answerHeader hlong _ (Nat.zero_le 4),
      u16At_answerHeader hlong _ (show 2 ≤ 4 by norm_num), u16At_answerHeader hlong _ le_rfl⟩
    · rw [getD_eq_getElem?_getD, hflags.getElem?]
      rfl
    · rw [getD_eq_getElem?_getD, hflags.next.getElem?]
      rfl
    · rw [hrest]
      exact prefix_append_right_inj name |>.mpr (List.take_prefix 4 rest)
    · rw [drop_left' (length_answerHeader hlong), flatten_nil, append_nil]
    · rw [u16At_answerHeader_four hlong, hone]
      rfl

/-- A query for the addresses of `example.com`. -/
def exampleQuery : Bytes :=
  [0x42, 0x42, 0x01, 0x00, 0, 1, 0, 0, 0, 0, 0, 0, 7, 101, 120, 97, 109, 112, 108, 101, 3, 99, 111,
    109, 0, 0, 0x1C, 0, 1]

theorem exampleQuery_answered : isDnsAaaaQuery exampleQuery = true ∧
    ∃ resp, buildDnsNodataResponse exampleQuery = some resp ∧ AnswersEmpty exampleQuery resp :=
  have haaaa : isDnsAaaaQuery exampleQuery = true := by decide +kernel
  ⟨haaaa, (buildDnsNodataResponse_complete_iff haaaa).mpr ⟨by decide,
    [7, 101, 120, 97, 109, 112, 108, 101, 3, 99, 111, 109, 0], [0, 0x1C, 0, 1],
    .label 7 [101, 120, 97, 109, 112, 108, 101] _ (by decide) (by decide) rfl
      (.label 3 [99, 111, 109] _ (by decide) (by decide) rfl .root), rfl⟩⟩

/-- A query for the addresses of `a` and of `b`. -/
def twoQuestions : Bytes :=
  [0x42, 0x42, 0x01, 0x00, 0, 2, 0, 0, 0, 0, 0, 0, 1, 97, 0, 0, 0x1C, 0, 1, 1, 98, 0, 0, 0x1C, 0, 1]

/-- The response to it says that it has two questions and has one. -/
theorem twoQuestions_cut : isDnsAaaaQuery twoQuestions = true ∧
    ¬ ∃ resp, buildDnsNodataResponse twoQuestions = some resp ∧ AnswersEmpty twoQuestions resp := by
  have hbuild : buildDnsNodataResponse twoQuestions = some [0x42, 0x42, 0x81, 0x80, 0, 2, 0, 0, 0, 0,
      0, 0, 1, 97, 0, 0, 0x1C, 0, 1] := by decide +kernel
  refine ⟨by decide +kernel, ?_⟩
  rintro ⟨resp, hresp, hcomplete⟩
  obtain rfl := Option.some.inj (hbuild.symm.trans hresp)
  obtain ⟨first, others, hfirst, -, hothers, hbody, hcount⟩ := hcomplete.questions
  obtain ⟨second, rfl⟩ : ∃ second, others = [second] :=
    length_eq_one_iff.mp (Nat.succ.inj hcount.symm)
  -- two questions have ten bytes, and there are seven
  have hlen := congrArg length hbody
  have hfive := hfirst.five_le_length
  have hfive' := (hothers second (mem_singleton_self second)).five_le_length
  rw [flatten_singleton, length_append] at hlen
  simp only [drop_succ_cons, drop_zero, length_cons, length_nil] at hlen
  omega

end Vantablack.Vpn
