import Vantablack.Layers.EtsiChunks

/-!
The chunked reader on a stream that comes in reads of 1 to 4096 bytes. Whatever the reads are, it
goes the way through the stream or gives up in the middle of a long size line; and there are reads
with which it goes the whole way, and reads with which it gives up.
-/

namespace Vantablack.Layers

open Net Lib List

/-! ### Kinds of answers -/

/-- What an exchange comes to, with an error known by its kind only. -/
inductive Answer (α : Type) where
  | ok (value : α)
  | transport
  | http
  | protocol
  | panicked
  | unfinished
  deriving DecidableEq, Repr

variable {α : Type}

def answer : Except Failure α → Answer α
  | .ok value => .ok value
  | .error (.error (.transport _)) => .transport
  | .error (.error (.http _ _)) => .http
  | .error (.error (.protocol _)) => .protocol
  | .error .panicked => .panicked
  | .error .unfinished => .unfinished

/-- The answer when a stream ends too early for a chunked body. -/
def cutAnswer (broken : Option String) : Answer α :=
  if broken.isSome then .transport else .protocol

theorem answer_readMoreError (broken : Option String) :
    answer (.error (.error (readMoreError broken)) : Except Failure α) = cutAnswer broken := by
  cases broken <;> rfl

/-- The answer at the end of a way, where overflows are checked. -/
def Walk.answer (broken : Option String) (w : Walk) : Answer Bytes :=
  match w.finish with
  | .last => .ok w.body
  | .malformed => .protocol
  | .cut => cutAnswer broken
  | .overflow => .panicked

/-! ### A size line and its data -/

/-- Bytes that are left over, and reads to come, that make up a stream. A read is never more than
4096 bytes long, and less than that is left over between two chunks. -/
structure Pending (rest : Bytes) (reads : List Bytes) (stream : Bytes) : Prop where
  all : rest ++ reads.flatten = stream
  short : rest.length < 4096
  bounded : ∀ read ∈ reads, read.length ≤ 4096

section Pending

variable {rest rest' stream : Bytes} {reads reads' : List Bytes}

theorem Pending.after {β : Type*} {done : Bytes → Option β} {b : β} (h : Pending rest reads stream)
    (hread : readUntil done rest reads = some (b, rest', reads')) {n : ℕ}
    (hwanted : ∀ before last, rest' = before ++ last → done before = none → before.length < n) :
    Pending (rest'.drop n) reads' ((rest' ++ reads'.flatten).drop n) ∨ rest'.length < n := by
  obtain ⟨-, -, ⟨taken, htaken⟩, hlast⟩ := readUntil_some hread
  by_cases hn : rest'.length < n
  · exact Or.inr hn
  · refine Or.inl ⟨?_, ?_, fun read hmem => h.bounded read ?_⟩
    · rw [drop_append_of_le_length (by omega)]
    · rw [length_drop]
      rcases hlast with rfl | ⟨before, last, heq, hmem, hnone⟩
      · have hshort := h.short
        omega
      · have hbefore := hwanted before last heq hnone
        have hlast := h.bounded last hmem
        have hlength := congrArg length heq
        rw [length_append] at hlength
        omega
    · rw [htaken]
      exact mem_append_right _ hmem

section Search

variable {needle : Bytes} {tooLong : String}

theorem searchDone_eq_none {buf : Bytes} (h : searchDone needle tooLong buf = none) :
    findSubslice buf needle = none ∧ buf.length ≤ maxHeaderBytes := by
  unfold searchDone at h
  split at h
  · cases h
  · next hnone =>
      split_ifs at h with hlong
      exact ⟨hnone, by omega⟩

theorem searchDone_eq_ok {buf : Bytes} {i : ℕ} (h : searchDone needle tooLong buf = some (.ok i)) :
    findSubslice buf needle = some i := by
  unfold searchDone at h
  split at h
  · next j hj =>
      cases h
      exact hj
  · split_ifs at h
    all_goals cases h

theorem searchDone_eq_error {buf : Bytes} {e : Etsi014Error}
    (h : searchDone needle tooLong buf = some (.error e)) :
    findSubslice buf needle = none ∧ maxHeaderBytes < buf.length ∧ e = .protocol tooLong := by
  unfold searchDone at h
  split at h
  · cases h
  · next hnone =>
      split_ifs at h with hlong
      cases h
      exact ⟨hnone, hlong, rfl⟩

theorem search_none (h : Pending rest reads stream)
    (hread : readUntil (searchDone needle tooLong) rest reads = none) :
    findSubslice stream needle = none ∧ stream.length ≤ maxHeaderBytes := by
  have hnone := readUntil_none hread
  rw [h.all] at hnone
  exact searchDone_eq_none hnone

theorem search_error (hneedle : needle ≠ []) (h : Pending rest reads stream) {e : Etsi014Error}
    (hread : readUntil (searchDone needle tooLong) rest reads = some (.error e, rest', reads')) :
    e = .protocol tooLong ∧ maxHeaderBytes < stream.length ∧
      ∀ i, findSubslice stream needle = some i → maxHeaderBytes < i + needle.length - 1 := by
  obtain ⟨hdone, hall, -⟩ := readUntil_some hread
  obtain ⟨hnone, hlong, htext⟩ := searchDone_eq_error hdone
  rw [h.all] at hall
  subst hall
  refine ⟨htext, by rw [length_append]; omega, fun i hi => ?_⟩
  have hfront := findSubslice_of_append hneedle _ _ hi
  rw [hnone] at hfront
  split_ifs at hfront with hlength
  omega

theorem search_ok (hneedle : needle ≠ []) (h : Pending rest reads stream) {i : ℕ}
    (hread : readUntil (searchDone needle tooLong) rest reads = some (.ok i, rest', reads')) :
    findSubslice stream needle = some i ∧ i + needle.length ≤ maxHeaderBytes + 4096 ∧
      rest'.take i = stream.take i ∧
      Pending (rest'.drop (i + needle.length)) reads' (stream.drop (i + needle.length)) := by
  obtain ⟨hdone, hall, -, hlast⟩ := readUntil_some hread
  have hfind := searchDone_eq_ok hdone
  have hlength := length_le_of_findSubslice hneedle hfind
  have hwanted : ∀ before last, rest' = before ++ last →
      searchDone needle tooLong before = none → before.length < i + needle.length := by
    rintro before last heq hnone
    rw [heq] at hfind
    have hfront := findSubslice_of_append hneedle _ _ hfind
    rw [(searchDone_eq_none hnone).1] at hfront
    split_ifs at hfront with hinside
    omega
  rw [h.all] at hall
  refine ⟨?_, ?_, ?_, ?_⟩
  · rw [← hall]
    exact findSubslice_append hneedle hfind _
  · rcases hlast with rfl | ⟨before, last, heq, hmem, hnone⟩
    · have hshort := h.short
      rw [maxHeaderBytes]
      omega
    · have hbefore := (searchDone_eq_none hnone).2
      have hlast := h.bounded last hmem
      have htotal := congrArg length heq
      rw [length_append] at htotal
      omega
  · rw [← hall, take_append_of_le_length (by omega)]
  · have hnext := h.after hread hwanted
    rw [hall] at hnext
    exact hnext.resolve_right (by omega)

theorem searchDone_take (hneedle : needle ≠ []) {n : ℕ} (hn : n ≤ maxHeaderBytes)
    (h : ∀ i, findSubslice stream needle = some i → n < i + needle.length) :
    searchDone needle tooLong (stream.take n) = none := by
  have hnone : findSubslice (stream.take n) needle = none := by
    cases hfind : findSubslice (stream.take n) needle with
    | none => rfl
    | some i =>
        have hall := findSubslice_append hneedle hfind (stream.drop n)
        rw [take_append_drop] at hall
        have hlength := length_le_of_findSubslice hneedle hfind
        have hlate := h i hall
        rw [length_take] at hlength
        omega
  have hlength := length_take_le n stream
  rw [searchDone, hnone]
  exact if_neg (by omega)

theorem searchDone_take_eq_ok (hneedle : needle ≠ []) {i : ℕ}
    (hfind : findSubslice stream needle = some i) :
    searchDone needle tooLong (stream.take (i + needle.length)) = some (.ok i) := by
  have hlength := length_le_of_findSubslice hneedle hfind
  have hfront := findSubslice_of_append hneedle (stream.take (i + needle.length))
    (stream.drop (i + needle.length)) (by rwa [take_append_drop])
  rw [length_take, if_pos (by omega)] at hfront
  rw [searchDone, hfront]

end Search

theorem sizeLine_none (h : Pending rest reads stream)
    (hread : readUntil sizeLineDone rest reads = none) :
    findSubslice stream crlf = none ∧ stream.length ≤ maxHeaderBytes :=
  search_none h hread

theorem sizeLine_error (h : Pending rest reads stream) {e : Etsi014Error}
    (hread : readUntil sizeLineDone rest reads = some (.error e, rest', reads')) :
    (∃ text, e = .protocol text) ∧ maxHeaderBytes < stream.length ∧
      ∀ i, findSubslice stream crlf = some i → maxHeaderBytes ≤ i := by
  obtain ⟨htext, hlong, hfar⟩ := search_error crlf_ne_nil h hread
  refine ⟨⟨_, htext⟩, hlong, fun i hi => ?_⟩
  have hi : maxHeaderBytes < i + 2 - 1 := hfar i hi
  omega

theorem sizeLine_ok (h : Pending rest reads stream) {i : ℕ}
    (hread : readUntil sizeLineDone rest reads = some (.ok i, rest', reads')) :
    findSubslice stream crlf = some i ∧ i ≤ maxHeaderBytes + 4094 ∧
      rest'.take i = stream.take i ∧ Pending (rest'.drop (i + 2)) reads' (stream.drop (i + 2)) := by
  obtain ⟨hfind, hnear, hline, hpending⟩ := search_ok crlf_ne_nil h hread
  have hnear : i + 2 ≤ maxHeaderBytes + 4096 := hnear
  exact ⟨hfind, by omega, hline, hpending⟩

variable {wanted : ℕ}

theorem filled_eq_none {buf : Bytes} (h : filled wanted buf = none) : buf.length < wanted := by
  unfold filled at h
  split_ifs at h with hlt
  exact hlt

theorem filled_eq_some {buf : Bytes} (h : filled wanted buf = some ()) : wanted ≤ buf.length := by
  unfold filled at h
  split_ifs at h with hlt
  omega

theorem filled_some (h : Pending rest reads stream)
    (hread : readUntil (filled wanted) rest reads = some ((), rest', reads')) :
    wanted ≤ rest'.length ∧ rest' ++ reads'.flatten = stream ∧
      Pending (rest'.drop wanted) reads' (stream.drop wanted) := by
  obtain ⟨hdone, hall, -⟩ := readUntil_some hread
  have hlength := filled_eq_some hdone
  rw [h.all] at hall
  have hnext := h.after hread fun before last _ hnone => filled_eq_none hnone
  rw [hall] at hnext
  exact ⟨hlength, hall, hnext.resolve_right (by omega)⟩

theorem filled_none (h : Pending rest reads stream)
    (hread : readUntil (filled wanted) rest reads = none) : stream.length < wanted := by
  have hnone := readUntil_none hread
  rw [h.all] at hnone
  exact filled_eq_none hnone

end Pending

/-! ### Every way of reading -/

theorem addUsize_of_lt (checks : Bool) {a b : ℕ} (h : a + b < 2 ^ 64) :
    addUsize checks a b = some (a + b) := if_pos h

variable {rounds i : ℕ} {out : Bytes}

theorem stop_round {texts : HttpTexts} {checks : Bool} {broken : Option String}
    {rest rest' stream : Bytes} {reads reads' : List Bytes} {finish : Finish}
    (hread : readUntil sizeLineDone rest reads = some (.ok i, rest', reads'))
    (hline : rest'.take i = stream.take i)
    (hpending : Pending (rest'.drop (i + 2)) reads' (stream.drop (i + 2)))
    (hafter : afterLine out.length (stream.take i) (stream.drop (i + 2)) = .stop finish)
    (hoverflow : finish = .overflow → checks = true) :
    answer (readChunked texts checks broken (rounds + 1) out rest reads) =
      Walk.answer broken ⟨finish, true, true, out⟩ := by
  rw [readChunked, hread]
  dsimp only
  rw [hline]
  unfold afterLine lineText at hafter
  cases hsize : chunkSize (fromUtf8Lossy (stream.take i)).toList with
  | error e =>
      rw [hsize] at hafter
      cases hafter
      rfl
  | ok size =>
      rw [hsize] at hafter
      dsimp only at hafter ⊢
      split_ifs at hafter ⊢ with hzero hover hcap hcut
      · cases hafter
        rfl
      · cases hafter
        have hsum : addUsize checks out.length size = none := by
          rw [addUsize, if_neg (by omega), if_pos (hoverflow rfl)]
        rw [hsum]
        rfl
      · cases hafter
        rw [addUsize_of_lt checks (by omega)]
        dsimp only
        rw [if_pos hcap]
        rfl
      · cases hafter
        have hmax : maxBodyBytes = 65536 := rfl
        rw [addUsize_of_lt checks (by omega), addUsize_of_lt checks (by omega)]
        dsimp only
        rw [if_neg hcap]
        cases hdata : readUntil (filled (size + 2)) (rest'.drop (i + 2)) reads' with
        | none => exact answer_readMoreError broken
        | some result =>
            obtain ⟨⟨⟩, buf, more⟩ := result
            obtain ⟨hlength, hall, -⟩ := filled_some hpending hdata
            rw [← hall, length_append] at hcut
            omega

variable (texts : HttpTexts)

theorem data_round (checks : Bool) (broken : Option String) (rounds : ℕ) {rest rest' stream : Bytes}
    {reads reads' : List Bytes} {size : ℕ}
    (hread : readUntil sizeLineDone rest reads = some (.ok i, rest', reads'))
    (hline : rest'.take i = stream.take i)
    (hpending : Pending (rest'.drop (i + 2)) reads' (stream.drop (i + 2)))
    (hafter : afterLine out.length (stream.take i) (stream.drop (i + 2)) = .data size) :
    ∃ buf more, readUntil (filled (size + 2)) (rest'.drop (i + 2)) reads' = some ((), buf, more) ∧
      Pending (buf.drop (size + 2)) more ((stream.drop (i + 2)).drop (size + 2)) ∧
      readChunked texts checks broken (rounds + 1) out rest reads =
        readChunked texts checks broken rounds (out ++ (stream.drop (i + 2)).take size)
          (buf.drop (size + 2)) more := by
  obtain ⟨hsize, hpos, hcap, hlength⟩ := data_of_afterLine hafter
  have hmax : maxBodyBytes = 65536 := rfl
  cases hdata : readUntil (filled (size + 2)) (rest'.drop (i + 2)) reads' with
  | none =>
      have hcut := filled_none hpending hdata
      omega
  | some result =>
      obtain ⟨⟨⟩, buf, more⟩ := result
      obtain ⟨hbuf, hall, hnext⟩ := filled_some hpending hdata
      refine ⟨buf, more, rfl, hnext, ?_⟩
      have htake : buf.take size = (stream.drop (i + 2)).take size := by
        rw [← hall, take_append_of_le_length (by omega)]
      unfold lineText at hsize
      rw [readChunked, hread]
      dsimp only
      rw [hline, hsize]
      dsimp only
      rw [if_neg hpos, addUsize_of_lt checks (by omega), addUsize_of_lt checks (by omega)]
      dsimp only
      rw [if_neg (by omega), hdata]
      dsimp only
      rw [if_neg (by omega), htake]

theorem Walk.answer_congr {broken : Option String} {w w' : Walk} (hfinish : w.finish = w'.finish)
    (hbody : w.body = w'.body) : w.answer broken = w'.answer broken := by
  rw [Walk.answer, Walk.answer, hfinish, hbody]

theorem answer_readChunked {texts : HttpTexts} (checks : Bool) (broken : Option String)
    {rest stream : Bytes} {reads : List Bytes} (h : Pending rest reads stream)
    (hrounds : stream.length < rounds) (hoverflow : (walk rounds out stream).finish ≠ .overflow) :
    answer (readChunked texts checks broken rounds out rest reads) =
        (walk rounds out stream).answer broken ∨
      (walk rounds out stream).long = true ∧
        answer (readChunked texts checks broken rounds out rest reads) = .protocol := by
  induction rounds generalizing out rest stream reads with
  | zero => omega
  | succ rounds ih =>
      rw [walk] at hoverflow ⊢
      cases hread : readUntil sizeLineDone rest reads with
      | none =>
          -- the stream ends before a size line does
          obtain ⟨hfind, hlength⟩ := sizeLine_none h hread
          rw [hfind]
          dsimp only
          rw [if_neg (by omega), readChunked, hread]
          exact Or.inl (answer_readMoreError broken)
      | some result =>
          obtain ⟨line, rest', reads'⟩ := result
          cases line with
          | error e =>
              -- the reader gives up
              obtain ⟨⟨text, rfl⟩, hlong, hfar⟩ := sizeLine_error h hread
              have hanswer : answer (readChunked texts checks broken (rounds + 1) out rest reads) =
                  .protocol := by
                rw [readChunked, hread]
                rfl
              rw [hanswer]
              cases hfind : findSubslice stream crlf with
              | none =>
                  dsimp only
                  rw [if_pos hlong]
                  exact Or.inl rfl
              | some i =>
                  dsimp only
                  split
                  · exact Or.inl rfl
                  · refine Or.inr ⟨?_, rfl⟩
                    have hi := decide_eq_true (hfar i hfind)
                    split
                    · exact hi
                    · rw [hi]
                      rfl
          | ok i =>
              obtain ⟨hfind, hnear, hline, hpending⟩ := sizeLine_ok h hread
              rw [hfind] at hoverflow ⊢
              dsimp only at hoverflow ⊢
              rw [if_neg (by omega)] at hoverflow ⊢
              cases hafter : afterLine out.length (stream.take i) (stream.drop (i + 2)) with
              | stop finish =>
                  rw [hafter] at hoverflow
                  exact Or.inl (stop_round hread hline hpending hafter
                    fun hfinish => absurd hfinish hoverflow)
              | data size =>
                  rw [hafter] at hoverflow
                  obtain ⟨buf, more, -, hnext, hround⟩ := data_round texts checks broken
                    rounds hread hline hpending hafter
                  obtain ⟨-, -, hend⟩ := split_of_findSubslice hfind
                  have hlength : ((stream.drop (i + 2)).drop (size + 2)).length < rounds := by
                    rw [length_drop, length_drop]
                    omega
                  rw [hround]
                  rcases ih hnext hlength hoverflow with hsame | ⟨hlong, hgave⟩
                  · exact Or.inl hsame
                  · refine Or.inr ⟨?_, hgave⟩
                    dsimp only
                    rw [hlong, Bool.or_true]

/-! ### Reads that go the whole way -/

/-- A size line byte by byte; the end of a long one comes in one read. -/
def wholeLine (i : ℕ) (stream : Bytes) : List Bytes :=
  if i < maxHeaderBytes then singles (stream.take (i + 2))
  else singles (stream.take maxHeaderBytes) ++
    [(stream.drop maxHeaderBytes).take (i + 2 - maxHeaderBytes)]

theorem flatten_wholeLine (i : ℕ) (stream : Bytes) :
    (wholeLine i stream).flatten = stream.take (i + 2) := by
  unfold wholeLine
  split
  · exact flatten_singles _
  · have hsplit : i + 2 = maxHeaderBytes + (i + 2 - maxHeaderBytes) := by omega
    rw [flatten_append, flatten_singles, flatten_singleton, ← take_add, ← hsplit]

theorem readUntil_search_singles {needle stream : Bytes} {tooLong : String} (hneedle : needle ≠ [])
    (hfind : findSubslice stream needle = some i) (hi : i + needle.length ≤ maxHeaderBytes + 1)
    (more : List Bytes) :
    readUntil (searchDone needle tooLong) []
        (singles (stream.take (i + needle.length)) ++ more) =
      some (.ok i, stream.take (i + needle.length), more) := by
  have hbefore : ∀ n < (singles (stream.take (i + needle.length))).length,
      searchDone needle tooLong
        ([] ++ ((singles (stream.take (i + needle.length))).take n).flatten) = none := by
    intro n hn
    rw [singles, length_map, length_take] at hn
    rw [nil_append, take_singles, flatten_singles, take_take, Nat.min_eq_left (by omega)]
    refine searchDone_take hneedle (by omega) fun j hj => ?_
    rw [hfind] at hj
    cases hj
    omega
  have hall : searchDone needle tooLong
      ([] ++ (singles (stream.take (i + needle.length))).flatten) = some (.ok i) := by
    rw [nil_append, flatten_singles]
    exact searchDone_take_eq_ok hneedle hfind
  have hread := readUntil_append _ hall hbefore more
  rwa [nil_append, flatten_singles] at hread

theorem readUntil_wholeLine {stream : Bytes} (hfind : findSubslice stream crlf = some i)
    (more : List Bytes) :
    readUntil sizeLineDone [] (wholeLine i stream ++ more) =
      some (.ok i, stream.take (i + 2), more) := by
  by_cases hshort : i < maxHeaderBytes
  · have hi : i + crlf.length ≤ maxHeaderBytes + 1 := Nat.succ_le_succ hshort
    rw [wholeLine, if_pos hshort]
    exact readUntil_search_singles crlf_ne_nil hfind hi more
  · obtain ⟨-, -, hlength⟩ := split_of_findSubslice hfind
    have hbefore : ∀ n < (wholeLine i stream).length,
        sizeLineDone ([] ++ ((wholeLine i stream).take n).flatten) = none := by
      intro n hn
      rw [wholeLine, if_neg hshort] at hn ⊢
      rw [length_append, singles, length_map, length_take,
        length_singleton] at hn
      have hn' : n < i + 2 := by omega
      rw [nil_append, take_append_of_le_length (by
        rw [singles, length_map, length_take]
        omega), take_singles, flatten_singles, take_take, Nat.min_eq_left (by omega)]
      refine searchDone_take crlf_ne_nil (by omega) fun j hj => ?_
      rw [hfind] at hj
      cases hj
      exact hn'
    have hall : sizeLineDone ([] ++ (wholeLine i stream).flatten) = some (.ok i) := by
      rw [nil_append, flatten_wholeLine]
      exact searchDone_take_eq_ok crlf_ne_nil hfind
    have hread := readUntil_append (wholeLine i stream) hall hbefore more
    rwa [nil_append, flatten_wholeLine] at hread

theorem readUntil_filled_singles {stream : Bytes} {wanted : ℕ} (h : wanted ≤ stream.length)
    (more : List Bytes) :
    readUntil (filled wanted) [] (singles (stream.take wanted) ++ more) =
      some ((), stream.take wanted, more) := by
  have hlength : (stream.take wanted).length = wanted := by
    rw [length_take, Nat.min_eq_left h]
  have hdone : filled wanted (stream.take wanted) = some () := by
    rw [filled, if_neg (by omega)]
  have hbefore : ∀ n < (singles (stream.take wanted)).length,
      filled wanted ([] ++ ((singles (stream.take wanted)).take n).flatten) = none := by
    intro n hn
    rw [singles, length_map, hlength] at hn
    rw [nil_append, take_singles, flatten_singles, filled, if_pos]
    rw [length_take, hlength]
    omega
  have hall : filled wanted ([] ++ (singles (stream.take wanted)).flatten) = some () := by
    rw [nil_append, flatten_singles]
    exact hdone
  have hread := readUntil_append (singles (stream.take wanted)) hall hbefore more
  rwa [nil_append, flatten_singles] at hread

/-- Reads with which the reader goes the whole way through a stream. -/
def follow : ℕ → ℕ → Bytes → List Bytes
  | 0, _, stream => singles stream
  | rounds + 1, done, stream =>
      match findSubslice stream crlf with
      | none => singles stream
      | some i =>
          if maxHeaderBytes + 4094 < i then singles stream
          else
            let rest := stream.drop (i + 2)
            wholeLine i stream ++
              match afterLine done (stream.take i) rest with
              | .stop _ => singles rest
              | .data size =>
                  singles (rest.take (size + 2)) ++
                    follow rounds (done + size) (rest.drop (size + 2))

theorem flatten_follow (rounds done : ℕ) (stream : Bytes) :
    (follow rounds done stream).flatten = stream := by
  induction rounds generalizing done stream with
  | zero => exact flatten_singles stream
  | succ rounds ih =>
      rw [follow]
      split
      · exact flatten_singles stream
      · next i _ =>
          split
          · exact flatten_singles stream
          · dsimp only
            rw [flatten_append, flatten_wholeLine]
            split
            · rw [flatten_singles, take_append_drop]
            · rw [flatten_append, flatten_singles, ih, take_append_drop,
                take_append_drop]

/-- What the transport may hand out in one read. -/
def ReadSizes (reads : List Bytes) : Prop := ∀ read ∈ reads, 1 ≤ read.length ∧ read.length ≤ 4096

theorem readSizes_singles (stream : Bytes) : ReadSizes (singles stream) := by
  intro read hread
  obtain ⟨b, -, rfl⟩ := mem_map.mp hread
  exact ⟨le_rfl, (by decide : 1 ≤ 4096)⟩

theorem ReadSizes.append {reads reads' : List Bytes} (h : ReadSizes reads)
    (h' : ReadSizes reads') : ReadSizes (reads ++ reads') := fun read hread =>
  (mem_append.mp hread).elim (h read) (h' read)

theorem readSizes_wholeLine {stream : Bytes} (hlength : i + 2 ≤ stream.length)
    (hnear : i ≤ maxHeaderBytes + 4094) : ReadSizes (wholeLine i stream) := by
  unfold wholeLine
  split
  · exact readSizes_singles _
  · refine (readSizes_singles _).append fun read hread => ?_
    rw [mem_singleton] at hread
    rw [hread, length_take, length_drop]
    omega

theorem readSizes_follow (rounds done : ℕ) (stream : Bytes) :
    ReadSizes (follow rounds done stream) := by
  induction rounds generalizing done stream with
  | zero => exact readSizes_singles stream
  | succ rounds ih =>
      rw [follow]
      split
      · exact readSizes_singles stream
      · next i hfind =>
          obtain ⟨-, -, hlength⟩ := split_of_findSubslice hfind
          split
          · exact readSizes_singles stream
          · dsimp only
            refine (readSizes_wholeLine hlength (by omega)).append ?_
            split
            · exact readSizes_singles _
            · exact (readSizes_singles _).append (ih _ _)

theorem pending_nil {reads : List Bytes} (h : ReadSizes reads) : Pending [] reads reads.flatten where
  all := nil_append _
  short := by decide
  bounded read hread := (h read hread).2

theorem answer_follow (broken : Option String) {stream : Bytes} (hrounds : stream.length < rounds) :
    answer (readChunked texts true broken rounds out [] (follow rounds out.length stream)) =
      (walk rounds out stream).answer broken := by
  induction rounds generalizing out stream with
  | zero => omega
  | succ rounds ih =>
      have hsingles : walk (rounds + 1) out stream = ⟨(walk (rounds + 1) out stream).finish, false,
            true, out⟩ →
          (walk (rounds + 1) out stream).finish ≠ .overflow →
          answer (readChunked texts true broken (rounds + 1) out [] (singles stream)) =
            (walk (rounds + 1) out stream).answer broken := by
        intro hwalk hoverflow
        have hpending := pending_nil (readSizes_singles stream)
        rw [flatten_singles] at hpending
        refine (answer_readChunked true broken hpending hrounds hoverflow).resolve_right ?_
        rintro ⟨hlong, -⟩
        rw [hwalk] at hlong
        cases hlong
      rw [follow]
      cases hfind : findSubslice stream crlf with
      | none =>
          have hwalk : walk (rounds + 1) out stream =
              ⟨if maxHeaderBytes < stream.length then .malformed else .cut, false, true, out⟩ := by
            rw [walk, hfind]
          refine hsingles ?_ ?_
          · rw [hwalk]
          · rw [hwalk]
            dsimp only
            split
            all_goals exact Finish.noConfusion
      | some i =>
          dsimp only
          split
          · next hfar =>
              have hwalk : walk (rounds + 1) out stream = ⟨.malformed, false, true, out⟩ := by
                rw [walk, hfind]
                dsimp only
                rw [if_pos hfar]
              refine hsingles ?_ ?_
              · rw [hwalk]
              · rw [hwalk]
                exact Finish.noConfusion
          · next hnear =>
              obtain ⟨-, -, hend⟩ := split_of_findSubslice hfind
              have hline : (stream.take (i + 2)).take i = stream.take i := by
                rw [take_take, Nat.min_eq_left (by omega)]
              have hdrop : (stream.take (i + 2)).drop (i + 2) = [] :=
                drop_eq_nil_of_le (length_take_le _ _)
              rw [walk, hfind]
              dsimp only
              rw [if_neg hnear]
              cases hafter : afterLine out.length (stream.take i) (stream.drop (i + 2)) with
              | stop finish =>
                  have hpending := pending_nil (readSizes_singles (stream.drop (i + 2)))
                  rw [flatten_singles] at hpending
                  refine stop_round (readUntil_wholeLine hfind _) hline ?_ hafter fun _ => rfl
                  rwa [hdrop]
              | data size =>
                  obtain ⟨-, -, -, hlength⟩ := data_of_afterLine hafter
                  have hsizes : ReadSizes (singles ((stream.drop (i + 2)).take (size + 2)) ++
                      follow rounds (out.length + size) ((stream.drop (i + 2)).drop (size + 2))) :=
                    (readSizes_singles _).append (readSizes_follow _ _ _)
                  have hpending := pending_nil hsizes
                  rw [flatten_append, flatten_singles, flatten_follow,
                    take_append_drop] at hpending
                  rw [← hdrop] at hpending
                  obtain ⟨buf, more, hread, -, hround⟩ := data_round texts true broken rounds
                    (readUntil_wholeLine hfind _) hline hpending hafter
                  rw [hdrop, readUntil_filled_singles hlength] at hread
                  cases hread
                  have hnext : (out ++ (stream.drop (i + 2)).take size).length =
                      out.length + size := by
                    rw [length_append, length_take]
                    omega
                  have hshort : ((stream.drop (i + 2)).drop (size + 2)).length < rounds := by
                    rw [length_drop, length_drop]
                    omega
                  have hgo := @ih (out ++ (stream.drop (i + 2)).take size) _ hshort
                  rw [hnext] at hgo
                  dsimp only
                  rw [hround, drop_eq_nil_of_le (length_take_le _ _), hgo]
                  exact Walk.answer_congr rfl rfl

theorem answer_singles (checks : Bool) (broken : Option String) {stream : Bytes}
    (hlong : (walk rounds out stream).long = true) :
    answer (readChunked texts checks broken rounds out [] (singles stream)) = .protocol := by
  induction rounds generalizing out stream with
  | zero => cases hlong
  | succ rounds ih =>
      rw [walk] at hlong
      cases hfind : findSubslice stream crlf with
      | none =>
          rw [hfind] at hlong
          cases hlong
      | some i =>
          rw [hfind] at hlong
          dsimp only at hlong
          split at hlong
          · cases hlong
          · obtain ⟨-, -, hend⟩ := split_of_findSubslice hfind
            have hsplit : ∀ n, singles stream = singles (stream.take n) ++ singles (stream.drop n) :=
              fun n => by rw [← singles_append, take_append_drop]
            by_cases hi : maxHeaderBytes ≤ i
            · -- the buffer grows beyond the limit before the line ends
              have hfront : findSubslice (stream.take (maxHeaderBytes + 1)) crlf = none := by
                have h := findSubslice_of_append crlf_ne_nil (stream.take (maxHeaderBytes + 1))
                  (stream.drop (maxHeaderBytes + 1)) (by rwa [take_append_drop])
                have hcrlf : crlf.length = 2 := rfl
                rwa [length_take, hcrlf, if_neg (by omega)] at h
              have hlength : (stream.take (maxHeaderBytes + 1)).length = maxHeaderBytes + 1 := by
                rw [length_take]
                omega
              have hgaveUp : sizeLineDone ([] ++ (singles (stream.take (maxHeaderBytes + 1))).flatten) =
                  some (.error (.protocol "malformed chunked response (no size line)")) := by
                rw [nil_append, flatten_singles, sizeLineDone, searchDone, hfront]
                exact if_pos (by omega)
              have hread := readUntil_append _ hgaveUp (fun n hn => by
                rw [singles, length_map, hlength] at hn
                rw [nil_append, take_singles, flatten_singles, take_take,
                  Nat.min_eq_left (by omega)]
                have hn' : n < i + 2 := by omega
                refine searchDone_take crlf_ne_nil (by omega) fun j hj => ?_
                rw [hfind] at hj
                cases hj
                exact hn') (singles (stream.drop (maxHeaderBytes + 1)))
              rw [readChunked, hsplit (maxHeaderBytes + 1), hread]
              rfl
            · have hwhole : wholeLine i stream = singles (stream.take (i + 2)) := if_pos (by omega)
              have hline : (stream.take (i + 2)).take i = stream.take i := by
                rw [take_take, Nat.min_eq_left (by omega)]
              have hdrop : (stream.take (i + 2)).drop (i + 2) = [] :=
                drop_eq_nil_of_le (length_take_le _ _)
              cases hafter : afterLine out.length (stream.take i) (stream.drop (i + 2)) with
              | stop finish =>
                  rw [hafter] at hlong
                  exact absurd (of_decide_eq_true hlong) hi
              | data size =>
                  rw [hafter] at hlong
                  dsimp only at hlong
                  rw [decide_eq_false hi, Bool.false_or] at hlong
                  obtain ⟨-, -, -, hlength⟩ := data_of_afterLine hafter
                  have hpending := pending_nil (readSizes_singles (stream.drop (i + 2)))
                  rw [flatten_singles, ← hdrop] at hpending
                  have hwholeRead := readUntil_wholeLine hfind (singles (stream.drop (i + 2)))
                  rw [hwhole, ← hsplit] at hwholeRead
                  obtain ⟨buf, more, hread, -, hround⟩ := data_round texts checks broken rounds
                    hwholeRead hline hpending hafter
                  have hrest : singles (stream.drop (i + 2)) =
                      singles ((stream.drop (i + 2)).take (size + 2)) ++
                        singles ((stream.drop (i + 2)).drop (size + 2)) := by
                    rw [← singles_append, take_append_drop]
                  rw [hdrop, hrest, readUntil_filled_singles hlength] at hread
                  cases hread
                  rw [hround, drop_eq_nil_of_le (length_take_le _ _)]
                  exact ih hlong

end Vantablack.Layers
