import Vantablack.Layers.EtsiAnswers

/-!
The streams that are answered as they should be are the orderly ones: for each other stream there
are reads with which the exchange panics, returns a body that is not right, or comes to another kind
of answer than with other reads.
-/

namespace Vantablack.Layers

open Net Lib

section Reads

variable {texts : HttpTexts} {broken : Option String} {stream : Bytes} {more : List Bytes}
  {headEnd status : ℕ} {framing' : Framing} {length : Option ℕ}

/-- Reads that bring the header block byte by byte, and the rest in any way. -/
def headFirst (stream : Bytes) (headEnd : ℕ) (more : List Bytes) : List Bytes :=
  singles (stream.take (headEnd + 4)) ++ more

theorem delivers_headFirst (hmore : more.flatten = stream.drop (headEnd + 4))
    (hsizes : ReadSizes more) : Delivers (headFirst stream headEnd more) stream where
  all := by rw [headFirst, List.flatten_append, flatten_singles, hmore, List.take_append_drop]
  sizes := (readSizes_singles _).append hsizes

theorem answer_headFirst (checks : Bool) (broken : Option String) (more : List Bytes)
    (hfits : HeaderFits stream) (hhead : HeadOf texts stream headEnd status framing' length) :
    answer (httpExchange texts checks ⟨headFirst stream headEnd more, broken⟩) =
      finishAnswer status (answer (readBody texts checks broken framing' [] more)) := by
  obtain ⟨hfind, headers, hparse, rfl, -⟩ := hhead
  rw [HeaderFits, hfind] at hfits
  have hnear : headEnd + headerEnd.length ≤ maxHeaderBytes + 1 := Nat.le_succ_of_le hfits
  have hread : readUntil headersDone [] (headFirst stream headEnd more) =
      some (.ok headEnd, stream.take (headEnd + 4), more) :=
    readUntil_search_singles headerEnd_ne_nil hfind hnear more
  have htake : (stream.take (headEnd + 4)).take headEnd = stream.take headEnd := by
    rw [List.take_take, Nat.min_eq_left (by omega)]
  have hdrop : (stream.take (headEnd + 4)).drop (headEnd + 4) = [] :=
    List.drop_eq_nil_of_le (List.length_take_le _ _)
  rw [answer_httpExchange hread, htake, hdrop, headAnswer, hparse]

theorem pending_singles (rest : Bytes) : Pending [] (singles rest) rest := by
  have hpending := pending_nil (readSizes_singles rest)
  rwa [flatten_singles] at hpending

theorem delivers_singles (stream : Bytes) (headEnd : ℕ) :
    Delivers (headFirst stream headEnd (singles (stream.drop (headEnd + 4)))) stream :=
  delivers_headFirst (flatten_singles _) (readSizes_singles _)

/-- The rest of a stream in reads with which the reader goes the whole way. -/
def followRest (stream : Bytes) (headEnd : ℕ) : List Bytes :=
  headFirst stream headEnd
    (follow ((stream.drop (headEnd + 4)).length + 1) 0 (stream.drop (headEnd + 4)))

theorem delivers_followRest (stream : Bytes) (headEnd : ℕ) :
    Delivers (followRest stream headEnd) stream :=
  delivers_headFirst (flatten_follow _ _ _) (readSizes_follow _ _ _)

theorem answer_followRest (broken : Option String) (hfits : HeaderFits stream)
    (hhead : HeadOf texts stream headEnd status .chunked length) :
    answer (httpExchange texts true ⟨followRest stream headEnd, broken⟩) =
      finishAnswer status ((walk ((stream.drop (headEnd + 4)).length + 1) []
        (stream.drop (headEnd + 4))).answer broken) := by
  have hfollow := @answer_follow _ [] texts broken _
    (Nat.lt_succ_self (stream.drop (headEnd + 4)).length)
  rw [followRest, answer_headFirst true broken _ hfits hhead, readBody, flatten_follow, List.length_nil,
    Nat.zero_add]
  exact congrArg (finishAnswer status) hfollow

theorem answer_singlesRest (checks : Bool) (hfits : HeaderFits stream)
    (hhead : HeadOf texts stream headEnd status .chunked length)
    (hlong : (walk ((stream.drop (headEnd + 4)).length + 1) []
      (stream.drop (headEnd + 4))).long = true) :
    answer (httpExchange texts checks
      ⟨headFirst stream headEnd (singles (stream.drop (headEnd + 4))), broken⟩) = .protocol := by
  rw [answer_headFirst checks broken _ hfits hhead, readBody, flatten_singles, List.length_nil,
    Nat.zero_add, answer_singles texts checks broken hlong]
  rfl

end Reads

section Backward

variable {texts : HttpTexts} {broken : Option String} {stream : Bytes} {headEnd status : ℕ}
  {length : Option ℕ}

theorem long_eq_false (hfits : HeaderFits stream) (h : Answers texts stream broken)
    (hhead : HeadOf texts stream headEnd status .chunked length)
    (hother : finishAnswer status ((walk ((stream.drop (headEnd + 4)).length + 1) []
      (stream.drop (headEnd + 4))).answer broken) ≠ .protocol) :
    (walk ((stream.drop (headEnd + 4)).length + 1) [] (stream.drop (headEnd + 4))).long = false := by
  by_contra hlong
  rw [Bool.not_eq_false] at hlong
  have hsame := h.1 true true _ _ (delivers_followRest stream headEnd)
    (delivers_singles stream headEnd)
  rw [answer_followRest broken hfits hhead, answer_singlesRest true hfits hhead hlong] at hsame
  exact hother hsame

theorem chunksOrderly_of_answers (hfits : HeaderFits stream) (h : Answers texts stream broken)
    (hhead : HeadOf texts stream headEnd status .chunked length) :
    ChunksOrderly broken status (stream.drop (headEnd + 4)) := by
  have hfollow := answer_followRest broken hfits hhead
  obtain ⟨hpanicked, -, hright⟩ := h.2 true _ (delivers_followRest stream headEnd)
  have hlong := long_eq_false hfits h hhead
  refine ⟨fun hoverflow => ?_, fun hlast => ⟨?_, fun hsuccess => ?_⟩, fun hcut hbroken => ?_⟩
  · rw [Walk.answer, hoverflow] at hfollow
    exact hpanicked hfollow
  · refine hlong ?_
    rw [Walk.answer, hlast]
    dsimp only
    unfold finishAnswer
    dsimp only
    split_ifs
    all_goals rintro ⟨⟩
  · rw [Walk.answer, hlast, finishAnswer, if_pos hsuccess, answer_eq_ok_iff] at hfollow
    have hbody := hright _ hfollow headEnd status .chunked length hhead
    exact regular_of_chunkedBody hbody.1 hlast
  · refine hlong ?_
    rw [Walk.answer, hcut]
    dsimp only
    rw [cutAnswer, if_pos hbroken]
    rintro ⟨⟩

theorem sized_of_answers (hfits : HeaderFits stream) (h : Answers texts stream none) {n : ℕ}
    (hhead : HeadOf texts stream headEnd status (.sized n) length) (hn : n ≤ maxBodyBytes)
    (hsuccess : Success status) : n ≤ (stream.drop (headEnd + 4)).length := by
  have hanswer := answer_headFirst true none (singles (stream.drop (headEnd + 4)))
    hfits hhead
  rw [answer_sized (pending_singles _), restAnswer] at hanswer
  rw [if_neg (by omega), if_pos (Or.inr rfl), finishAnswer, if_pos hsuccess,
    answer_eq_ok_iff] at hanswer
  obtain ⟨-, -, hright⟩ := h.2 true _ (delivers_singles stream headEnd)
  have hbody := hright _ hanswer headEnd status (.sized n) length hhead n (by
    obtain ⟨-, headers, -, hframing, hlength⟩ := hhead
    rw [← hlength, announced_of_framing_sized hframing])
  dsimp only at hbody
  rw [List.length_take] at hbody
  omega

theorem untilClose_of_answers (hfits : HeaderFits stream) (h : Answers texts stream none)
    (hhead : HeadOf texts stream headEnd status .untilClose length) (hsuccess : Success status)
    (hcap : (stream.drop (headEnd + 4)).length ≤ maxBodyBytes) : length = none := by
  have hanswer := answer_headFirst true none (singles (stream.drop (headEnd + 4)))
    hfits hhead
  rw [answer_untilClose (pending_singles _), restAnswer] at hanswer
  rw [if_neg (by omega), if_pos rfl, finishAnswer, if_pos hsuccess, answer_eq_ok_iff] at hanswer
  obtain ⟨-, -, hright⟩ := h.2 true _ (delivers_singles stream headEnd)
  have hbody := hright _ hanswer headEnd status .untilClose length hhead
  obtain ⟨-, headers, -, hframing, hlength⟩ := hhead
  rw [Option.eq_none_iff_forall_not_mem]
  intro n hn
  have hhuge := announced_of_framing_untilClose hframing (hlength.trans hn)
  have hshort := hbody n hn
  have hmax : maxBodyBytes = 65536 := rfl
  dsimp only at hshort
  omega

theorem orderly_of_answers (hfits : HeaderFits stream) (h : Answers texts stream broken) :
    Orderly texts stream broken := by
  intro headEnd status framing' length hhead
  cases framing' with
  | chunked => exact chunksOrderly_of_answers hfits h hhead
  | sized n =>
      rintro hn rfl hsuccess
      exact sized_of_answers hfits h hhead hn hsuccess
  | untilClose =>
      rintro rfl hsuccess hcap
      exact untilClose_of_answers hfits h hhead hsuccess hcap

/-- A stream with a header block within the cap is answered as it should be exactly if it is
orderly. -/
theorem answers_iff_orderly (h : HeaderFits stream) :
    Answers texts stream broken ↔ Orderly texts stream broken :=
  ⟨orderly_of_answers h, answers_of_orderly h⟩

end Backward

/-! ### Two replies -/

theorem HeadOf.unique {texts : HttpTexts} {stream : Bytes} {headEnd headEnd' status status' : ℕ}
    {framing' : Framing} {length : Option ℕ} {headers : List (List Char × List Char)}
    (h : HeadOf texts stream headEnd' status' framing' length)
    (hfind : findSubslice stream headerEnd = some headEnd)
    (hparse : parseHead texts (lineText (stream.take headEnd)) = .ok (status, headers)) :
    headEnd' = headEnd ∧ status' = status ∧ framing' = framing headers ∧
      length = announced headers := by
  obtain ⟨hfind', headers', hparse', rfl, rfl⟩ := h
  rw [hfind] at hfind'
  cases hfind'
  rw [hparse] at hparse'
  cases hparse'
  exact ⟨rfl, rfl, rfl, rfl⟩

def plainTexts : HttpTexts := ⟨fun s => String.ofList s, fun _ => ""⟩

def chunkedReply : Bytes :=
  utf8 "HTTP/1.1 200 OK\r\nTransfer-Encoding: chunked\r\n\r\n3\r\nabc\r\n0\r\n\r\n"

theorem answers_chunkedReply : HeaderFits chunkedReply ∧ Answers plainTexts chunkedReply none := by
  have hfind : findSubslice chunkedReply headerEnd = some 43 := by decide +kernel
  have hparse : parseHead plainTexts (lineText (chunkedReply.take 43)) =
      .ok (200, [("transfer-encoding".toList, "chunked".toList)]) := by
    decide +kernel
  have hfits : HeaderFits chunkedReply := by
    rw [HeaderFits, hfind]
    decide
  refine ⟨hfits, (answers_iff_orderly hfits).mpr fun headEnd status framing' length hhead => ?_⟩
  obtain ⟨rfl, rfl, rfl, rfl⟩ := hhead.unique hfind hparse
  have hframing : framing [("transfer-encoding".toList, "chunked".toList)] = .chunked := by
    decide +kernel
  rw [hframing]
  exact ⟨by decide +kernel, fun _ => ⟨by decide +kernel, fun _ => by decide +kernel⟩,
    fun _ hbroken => absurd hbroken (by decide)⟩

/-- A reply that is closed three bytes into a body of five. -/
def shortReply : Bytes :=
  utf8 "HTTP/1.1 200 OK\r\nContent-Length: 5\r\n\r\nabc"

theorem not_answers_shortReply :
    HeaderFits shortReply ∧ ¬ Answers plainTexts shortReply none := by
  have hfind : findSubslice shortReply headerEnd = some 34 := by decide +kernel
  have hparse : parseHead plainTexts (lineText (shortReply.take 34)) =
      .ok (200, [("content-length".toList, "5".toList)]) := by
    decide +kernel
  refine ⟨by rw [HeaderFits, hfind]; decide, fun h => ?_⟩
  obtain ⟨-, -, hright⟩ := h.2 true (singles shortReply)
    ⟨flatten_singles _, readSizes_singles _⟩
  have hreturned : httpExchange plainTexts true ⟨singles shortReply, none⟩ =
      .ok ⟨200, utf8 "abc"⟩ := by
    decide +kernel
  have hbody := hright _ hreturned 34 200 (.sized 5) (some 5)
    ⟨hfind, _, hparse, by decide +kernel, by decide +kernel⟩ 5 rfl
  exact absurd hbody (by decide +kernel)

end Vantablack.Layers
