import Vantablack.Layers.EtsiReads

/-!
The HTTP client as a whole: what a response stream comes to, however it is cut into reads, and the
streams for which that is what it should be.
-/

namespace Vantablack.Layers

open Net Lib

/-! ### What a stream should come to -/

/-- The number that decimal digits, perhaps behind a plus sign, stand for, however large it is. -/
def decimal (s : List Char) : Option ℕ :=
  let digits := match s with
    | '+' :: rest => rest
    | _ => s
  if digits.isEmpty || !digits.all Char.isDigit then none
  else some (digits.foldl (fun n c => 10 * n + (c.toNat - '0'.toNat)) 0)

theorem parseUnsigned_eq (bound : ℕ) (s : List Char) :
    parseUnsigned bound s = (decimal s).filter fun n => n < bound := by
  have hdigits : ∀ digits : List Char, ∀ n : ℕ,
      (if digits.isEmpty || !digits.all Char.isDigit then none
        else if n < bound then some n else none) =
      (if digits.isEmpty || !digits.all Char.isDigit then none else some n).filter
        fun n => n < bound := by
    intro digits n
    split
    · rfl
    · rw [Option.filter_some]
      simp only [decide_eq_true_eq]
  exact hdigits _ _

def announced (headers : List (List Char × List Char)) : Option ℕ :=
  (header headers "content-length").bind decimal

/-- The reads bring a stream, in reads of 1 to 4096 bytes. -/
structure Delivers (reads : List Bytes) (stream : Bytes) : Prop where
  all : reads.flatten = stream
  sizes : ReadSizes reads

/-- The header block, with its empty line, is within the cap. -/
def HeaderFits (stream : Bytes) : Prop :=
  match findSubslice stream headerEnd with
  | some i => i + 4 ≤ maxHeaderBytes
  | none => stream.length ≤ maxHeaderBytes

/-- The framing of the body after a header block that ends at `headEnd`. -/
def HeadOf (texts : HttpTexts) (stream : Bytes) (headEnd status : ℕ) (framing' : Framing)
    (length : Option ℕ) : Prop :=
  findSubslice stream headerEnd = some headEnd ∧
    ∃ headers, parseHead texts (lineText (stream.take headEnd)) = .ok (status, headers) ∧
      framing headers = framing' ∧ announced headers = length

/-- A body is what its framing says: the data of a chunk sequence within the cap, or as long as the
headers announce. -/
def BodyRight (texts : HttpTexts) (stream body : Bytes) : Prop :=
  ∀ headEnd status framing length, HeadOf texts stream headEnd status framing length →
    match framing with
    | .chunked => ChunkedBody (stream.drop (headEnd + 4)) body ∧ body.length ≤ maxBodyBytes
    | _ => ∀ n, length = some n → body.length = n

/-- However a stream is cut into reads, with and without overflow checks, it comes to one kind of
answer, without a panic, and a body that is returned is right. -/
def Answers (texts : HttpTexts) (stream : Bytes) (broken : Option String) : Prop :=
  (∀ checks checks' reads reads', Delivers reads stream → Delivers reads' stream →
    answer (httpExchange texts checks ⟨reads, broken⟩) =
      answer (httpExchange texts checks' ⟨reads', broken⟩)) ∧
  ∀ checks reads, Delivers reads stream →
    answer (httpExchange texts checks ⟨reads, broken⟩) ≠ .panicked ∧
    answer (httpExchange texts checks ⟨reads, broken⟩) ≠ .unfinished ∧
    ∀ response, httpExchange texts checks ⟨reads, broken⟩ = .ok response →
      BodyRight texts stream response.body

def Success (status : ℕ) : Prop := 200 ≤ status ∧ status < 300
  deriving Decidable

/-- The chunks of a stream are such that nothing goes wrong: no size on the way makes an overflow;
when the last chunk comes there was no long size line, and for a response that is returned all was
regular; and there was none when the connection breaks. -/
def ChunksOrderly (broken : Option String) (status : ℕ) (rest : Bytes) : Prop :=
  let way := walk (rest.length + 1) [] rest
  way.finish ≠ .overflow ∧
    (way.finish = .last → way.long = false ∧ (Success status → way.regular = true)) ∧
    (way.finish = .cut → broken.isSome → way.long = false)

/-- The streams with which all goes well. -/
def Orderly (texts : HttpTexts) (stream : Bytes) (broken : Option String) : Prop :=
  ∀ headEnd status framing length, HeadOf texts stream headEnd status framing length →
    match framing with
    | .chunked => ChunksOrderly broken status (stream.drop (headEnd + 4))
    | .sized n => n ≤ maxBodyBytes → broken = none → Success status →
        n ≤ (stream.drop (headEnd + 4)).length
    | .untilClose => broken = none → Success status →
        (stream.drop (headEnd + 4)).length ≤ maxBodyBytes → length = none

/-! ### What it does come to -/

/-- The answer when the body has come. -/
def finishAnswer (status : ℕ) : Answer Bytes → Answer HttpResponse
  | .ok body => if Success status then .ok ⟨status, body⟩ else .http
  | .transport => .transport
  | .http => .http
  | .protocol => .protocol
  | .panicked => .panicked
  | .unfinished => .unfinished

/-- The answer to the stream behind the header block. -/
def restAnswer (broken : Option String) (framing : Framing) (rest : Bytes) : Answer Bytes :=
  match framing with
  | .chunked => (walk (rest.length + 1) [] rest).answer broken
  | .sized n =>
      if maxBodyBytes < n then .protocol
      else if n ≤ rest.length ∨ broken = none then .ok (rest.take n)
      else .transport
  | .untilClose =>
      if maxBodyBytes < rest.length then .protocol
      else if broken = none then .ok rest
      else .transport

section Body

variable {texts : HttpTexts} {checks : Bool} {broken : Option String} {rest stream : Bytes}
  {reads : List Bytes}

theorem answer_sized (h : Pending rest reads stream) (n : ℕ) :
    answer (readBody texts checks broken (.sized n) rest reads) =
      restAnswer broken (.sized n) stream := by
  unfold readBody restAnswer
  dsimp only
  split
  · rfl
  · cases hread : readUntil (filled n) rest reads with
    | none =>
        have hlength := filled_none h hread
        dsimp only
        cases broken with
        | none =>
            rw [if_pos (Or.inr rfl), h.all]
            rfl
        | some e =>
            rw [if_neg (by simp; omega)]
            rfl
    | some result =>
        obtain ⟨⟨⟩, buf, more⟩ := result
        obtain ⟨hlength, hall, -⟩ := filled_some h hread
        rw [if_pos (Or.inl (by rw [← hall, List.length_append]; omega)), ← hall,
          List.take_append_of_le_length hlength]
        rfl

theorem answer_untilClose (h : Pending rest reads stream) :
    answer (readBody texts checks broken .untilClose rest reads) =
      restAnswer broken .untilClose stream := by
  unfold readBody restAnswer
  dsimp only
  cases hread : readUntil (filled (maxBodyBytes + 1)) rest reads with
  | none =>
      have hlength := filled_none h hread
      rw [if_neg (by omega)]
      dsimp only
      cases broken with
      | none =>
          rw [if_pos rfl, h.all]
          rfl
      | some e =>
          rw [if_neg (Option.some_ne_none e)]
          rfl
  | some result =>
      obtain ⟨⟨⟩, buf, more⟩ := result
      obtain ⟨hlength, hall, -⟩ := filled_some h hread
      rw [if_pos (by rw [← hall, List.length_append]; omega)]
      rfl

theorem rounds_eq (h : Pending rest reads stream) :
    rest.length + reads.flatten.length + 1 = stream.length + 1 := by
  rw [← h.all, List.length_append]

theorem answer_chunked (h : Pending rest reads stream) {status : ℕ}
    (horderly : ChunksOrderly broken status stream) :
    answer (readBody texts checks broken .chunked rest reads) =
      restAnswer broken .chunked stream := by
  obtain ⟨hoverflow, hlast, hcut⟩ := horderly
  rw [readBody, restAnswer, rounds_eq h]
  rcases @answer_readChunked _ _ texts checks broken _ _ _ h (Nat.lt_succ_self _) hoverflow with
    hsame | ⟨hlong, hgave⟩
  · exact hsame
  · -- with a long size line the way ends in an error of the same kind
    rw [hgave, Walk.answer]
    split
    · next hfinish =>
        rw [(hlast hfinish).1] at hlong
        cases hlong
    · rfl
    · next hfinish =>
        cases hbroken : broken with
        | none => rfl
        | some e =>
            rw [hcut hfinish (by rw [hbroken]; rfl)] at hlong
            cases hlong
    · next hfinish => exact absurd hfinish hoverflow

end Body

/-! ### The header block -/

theorem answer_eq_ok_iff {α : Type} {result : Except Failure α} {value : α} :
    answer result = .ok value ↔ result = .ok value := by
  constructor
  · intro h
    unfold answer at h
    split at h
    · cases h
      rfl
    all_goals cases h
  · rintro rfl
    rfl

theorem headerEnd_ne_nil : headerEnd ≠ [] := List.cons_ne_nil _ _

theorem parseHead_error {texts : HttpTexts} {head : List Char} {e : Etsi014Error}
    (h : parseHead texts head = .error e) : ∃ text, e = .protocol text := by
  unfold parseHead at h
  dsimp only at h
  split at h
  · cases h
    exact ⟨_, rfl⟩
  · cases h

/-- The answer to a stream with this header block, from that of the body in its framing. -/
def headAnswer (texts : HttpTexts) (head : Bytes) (body : Framing → Answer Bytes) :
    Answer HttpResponse :=
  match parseHead texts (lineText head) with
  | .error _ => .protocol
  | .ok (status, headers) => finishAnswer status (body (framing headers))

/-- The answer to a stream, when nothing goes wrong. -/
def streamAnswer (texts : HttpTexts) (broken : Option String) (stream : Bytes) :
    Answer HttpResponse :=
  match findSubslice stream headerEnd with
  | none => cutAnswer broken
  | some headEnd => headAnswer texts (stream.take headEnd) fun framing =>
      restAnswer broken framing (stream.drop (headEnd + 4))

section Head

variable {texts : HttpTexts} {checks : Bool} {broken : Option String} {stream buf : Bytes}
  {reads more : List Bytes} {headEnd : ℕ}

theorem Delivers.pending (h : Delivers reads stream) : Pending [] reads stream := by
  have hpending := pending_nil h.sizes
  rwa [h.all] at hpending

theorem answer_httpExchange
    (hread : readUntil headersDone [] reads = some (.ok headEnd, buf, more)) :
    answer (httpExchange texts checks ⟨reads, broken⟩) =
      headAnswer texts (buf.take headEnd) fun framing =>
        answer (readBody texts checks broken framing (buf.drop (headEnd + 4)) more) := by
  rw [httpExchange, headAnswer, lineText]
  dsimp only
  rw [hread]
  dsimp only
  cases hparse : parseHead texts (fromUtf8Lossy (buf.take headEnd)).toList with
  | error e =>
      obtain ⟨text, rfl⟩ := parseHead_error hparse
      rfl
  | ok parsed =>
      obtain ⟨status, headers⟩ := parsed
      dsimp only
      cases readBody texts checks broken (framing headers) (buf.drop (headEnd + 4)) more with
      | error failure =>
          cases failure with
          | error e => cases e <;> rfl
          | panicked => rfl
          | unfinished => rfl
      | ok body =>
          have hstep : ∀ k : Bytes → Except Failure HttpResponse,
              (Except.ok body >>= k) = k body := fun _ => rfl
          rw [hstep]
          by_cases hsuccess : Success status
          · have hrange : 200 ≤ status ∧ status < 300 := hsuccess
            rw [if_pos hrange]
            exact (if_pos hsuccess).symm
          · have hrange : ¬ (200 ≤ status ∧ status < 300) := hsuccess
            rw [if_neg hrange]
            exact (if_neg hsuccess).symm

theorem readUntil_headersDone (h : Delivers reads stream) (hfits : HeaderFits stream)
    (hfind : findSubslice stream headerEnd = some headEnd) :
    ∃ buf more, readUntil headersDone [] reads = some (.ok headEnd, buf, more) ∧
      buf.take headEnd = stream.take headEnd ∧
      Pending (buf.drop (headEnd + 4)) more (stream.drop (headEnd + 4)) := by
  rw [HeaderFits, hfind] at hfits
  cases hread : readUntil headersDone [] reads with
  | none =>
      have hnone := (search_none h.pending hread).1
      rw [hfind] at hnone
      cases hnone
  | some result =>
      obtain ⟨found, buf, more⟩ := result
      cases found with
      | error e =>
          obtain ⟨-, -, hfar⟩ := search_error headerEnd_ne_nil h.pending hread
          have hfar : maxHeaderBytes < headEnd + 4 - 1 := hfar headEnd hfind
          dsimp only at hfits
          omega
      | ok i =>
          obtain ⟨hi, -, htake, hpending⟩ := search_ok headerEnd_ne_nil h.pending hread
          rw [hfind] at hi
          cases hi
          exact ⟨buf, more, rfl, htake, hpending⟩

theorem answer_headless (h : Delivers reads stream) (hfits : HeaderFits stream)
    (hfind : findSubslice stream headerEnd = none) :
    answer (httpExchange texts checks ⟨reads, broken⟩) = cutAnswer broken := by
  rw [HeaderFits, hfind] at hfits
  cases hread : readUntil headersDone [] reads with
  | none =>
      rw [httpExchange]
      dsimp only
      rw [hread]
      cases broken <;> rfl
  | some result =>
      obtain ⟨found, buf, more⟩ := result
      cases found with
      | error e =>
          obtain ⟨-, hlong, -⟩ := search_error headerEnd_ne_nil h.pending hread
          dsimp only at hfits
          omega
      | ok i =>
          have hi := (search_ok headerEnd_ne_nil h.pending hread).1
          rw [hfind] at hi
          cases hi

end Head

/-! ### Orderly streams -/

variable {body : Answer Bytes}

theorem finishAnswer_eq_ok {status : ℕ} {response : HttpResponse}
    (h : finishAnswer status body = .ok response) : body = .ok response.body ∧ Success status := by
  unfold finishAnswer at h
  split at h
  · split_ifs at h with hsuccess
    cases h
    exact ⟨rfl, hsuccess⟩
  all_goals cases h

theorem finishAnswer_eq_panicked {status : ℕ} (h : finishAnswer status body = .panicked) :
    body = .panicked := by
  unfold finishAnswer at h
  split at h
  · split_ifs at h
  · cases h
  · cases h
  · cases h
  · rfl
  · cases h

theorem finishAnswer_eq_unfinished {status : ℕ} (h : finishAnswer status body = .unfinished) :
    body = .unfinished := by
  unfold finishAnswer at h
  split at h
  · split_ifs at h
  · cases h
  · cases h
  · cases h
  · cases h
  · rfl

theorem cutAnswer_eq {α : Type} (broken : Option String) :
    (cutAnswer broken : Answer α) = .transport ∨ (cutAnswer broken : Answer α) = .protocol := by
  cases broken with
  | none => exact Or.inr rfl
  | some e => exact Or.inl rfl

theorem Walk.answer_eq_ok {broken : Option String} {w : Walk} {body : Bytes}
    (h : w.answer broken = .ok body) : w.finish = .last ∧ w.body = body := by
  unfold Walk.answer at h
  split at h
  · next hfinish =>
      cases h
      exact ⟨hfinish, rfl⟩
  · cases h
  · rcases cutAnswer_eq broken with hcut | hcut
    all_goals rw [hcut] at h; cases h
  · cases h

theorem Walk.finish_of_panicked {broken : Option String} {w : Walk}
    (h : w.answer broken = .panicked) : w.finish = .overflow := by
  unfold Walk.answer at h
  split at h
  · cases h
  · cases h
  · rcases cutAnswer_eq broken with hcut | hcut
    all_goals rw [hcut] at h; cases h
  · assumption

theorem Walk.answer_ne_unfinished (broken : Option String) (w : Walk) :
    w.answer broken ≠ .unfinished := by
  intro h
  unfold Walk.answer at h
  split at h
  · cases h
  · cases h
  · rcases cutAnswer_eq broken with hcut | hcut
    all_goals rw [hcut] at h; cases h
  · cases h

theorem restAnswer_ne_unfinished (broken : Option String) (framing : Framing) (rest : Bytes) :
    restAnswer broken framing rest ≠ .unfinished := by
  intro h
  unfold restAnswer at h
  split at h
  · exact Walk.answer_ne_unfinished broken _ h
  · split_ifs at h
  · split_ifs at h

theorem restAnswer_eq_panicked {broken : Option String} {framing : Framing} {rest : Bytes}
    (h : restAnswer broken framing rest = .panicked) :
    framing = .chunked ∧ (walk (rest.length + 1) [] rest).finish = .overflow := by
  unfold restAnswer at h
  split at h
  · exact ⟨rfl, Walk.finish_of_panicked h⟩
  · split_ifs at h
  · split_ifs at h

section Announced

variable {headers : List (List Char × List Char)} {n : ℕ}

theorem bind_parseUnsigned (bound : ℕ) (value : Option (List Char)) :
    value.bind (parseUnsigned bound) = (value.bind decimal).filter fun n => n < bound := by
  cases value with
  | none => rfl
  | some s => exact parseUnsigned_eq bound s

theorem announced_of_framing_sized (h : framing headers = .sized n) :
    announced headers = some n := by
  unfold framing at h
  rw [bind_parseUnsigned] at h
  split at h
  · cases h
  · split at h
    · next len hlen =>
        cases h
        exact (Option.filter_eq_some_iff.mp hlen).1
    · cases h

theorem announced_of_framing_untilClose (h : framing headers = .untilClose)
    (hn : announced headers = some n) : 2 ^ 64 ≤ n := by
  unfold framing at h
  rw [bind_parseUnsigned] at h
  split at h
  · cases h
  · split at h
    · cases h
    · next hnone =>
        unfold announced at hn
        rw [hn, Option.filter_some] at hnone
        split_ifs at hnone with hlt
        simpa using hlt

end Announced

section Forward

variable {texts : HttpTexts} {checks : Bool} {broken : Option String} {stream : Bytes}
  {reads : List Bytes} {response : HttpResponse}

theorem answer_of_orderly (h : Delivers reads stream) (hfits : HeaderFits stream)
    (horderly : Orderly texts stream broken) :
    answer (httpExchange texts checks ⟨reads, broken⟩) = streamAnswer texts broken stream := by
  rw [streamAnswer]
  cases hfind : findSubslice stream headerEnd with
  | none => exact answer_headless h hfits hfind
  | some headEnd =>
      obtain ⟨buf, more, hread, htake, hpending⟩ := readUntil_headersDone h hfits hfind
      rw [answer_httpExchange hread, htake]
      dsimp only
      unfold headAnswer
      cases hparse : parseHead texts (lineText (stream.take headEnd)) with
      | error e => rfl
      | ok parsed =>
          obtain ⟨status, headers⟩ := parsed
          have hway := horderly headEnd status (framing headers) (announced headers)
            ⟨hfind, headers, hparse, rfl, rfl⟩
          dsimp only
          congr 1
          cases hframing : framing headers with
          | chunked =>
              rw [hframing] at hway
              exact answer_chunked hpending hway
          | sized n => exact answer_sized hpending n
          | untilClose => exact answer_untilClose hpending

theorem streamAnswer_eq_ok (h : streamAnswer texts broken stream = .ok response) {headEnd status : ℕ}
    {framing : Framing} {length : Option ℕ}
    (hhead : HeadOf texts stream headEnd status framing length) :
    restAnswer broken framing (stream.drop (headEnd + 4)) = .ok response.body ∧
      Success status := by
  obtain ⟨hfind, headers, hparse, rfl, -⟩ := hhead
  rw [streamAnswer, hfind] at h
  dsimp only at h
  rw [headAnswer, hparse] at h
  exact finishAnswer_eq_ok h

theorem streamAnswer_ne (horderly : Orderly texts stream broken) :
    streamAnswer texts broken stream ≠ .panicked ∧
      streamAnswer texts broken stream ≠ .unfinished := by
  rw [streamAnswer]
  cases hfind : findSubslice stream headerEnd with
  | none =>
      dsimp only
      rcases cutAnswer_eq broken with hcut | hcut
      all_goals
        rw [hcut]
        exact ⟨nofun, nofun⟩
  | some headEnd =>
      dsimp only
      unfold headAnswer
      cases hparse : parseHead texts (lineText (stream.take headEnd)) with
      | error e => exact ⟨nofun, nofun⟩
      | ok parsed =>
          obtain ⟨status, headers⟩ := parsed
          have hway := horderly headEnd status (framing headers) (announced headers)
            ⟨hfind, headers, hparse, rfl, rfl⟩
          constructor
          · intro hpanicked
            obtain ⟨hframing, hoverflow⟩ :=
              restAnswer_eq_panicked (finishAnswer_eq_panicked hpanicked)
            rw [hframing] at hway
            exact hway.1 hoverflow
          · intro hunfinished
            exact restAnswer_ne_unfinished _ _ _ (finishAnswer_eq_unfinished hunfinished)

theorem bodyRight_of_orderly (horderly : Orderly texts stream broken)
    (h : streamAnswer texts broken stream = .ok response) :
    BodyRight texts stream response.body := by
  intro headEnd status framing' length hhead
  obtain ⟨hrest, hsuccess⟩ := streamAnswer_eq_ok h hhead
  have hway := horderly headEnd status framing' length hhead
  obtain ⟨-, headers, -, hframing, hlength⟩ := hhead
  cases framing' with
  | chunked =>
      obtain ⟨hlast, hbody⟩ := Walk.answer_eq_ok hrest
      obtain ⟨-, hway, -⟩ := hway
      obtain ⟨body, hchunked, heq⟩ := chunkedBody_of_walk hlast ((hway hlast).2 hsuccess)
      rw [List.nil_append, hbody] at heq
      have hcap : (walk ((stream.drop (headEnd + 4)).length + 1) []
          (stream.drop (headEnd + 4))).body.length ≤ maxBodyBytes :=
        length_walk_body (Nat.zero_le _)
      rw [hbody] at hcap
      exact ⟨heq ▸ hchunked, hcap⟩
  | sized n =>
      intro m hm
      rw [← hlength, announced_of_framing_sized hframing] at hm
      cases hm
      unfold restAnswer at hrest
      dsimp only at hrest
      split_ifs at hrest with hover hwhole
      have hbody := Answer.ok.inj hrest
      have hn : n ≤ (stream.drop (headEnd + 4)).length :=
        hwhole.elim id fun hbroken => hway (by omega) hbroken hsuccess
      rw [← hbody, List.length_take, Nat.min_eq_left hn]
  | untilClose =>
      intro m hm
      unfold restAnswer at hrest
      dsimp only at hrest
      split_ifs at hrest with hover hbroken
      have hnone := hway hbroken hsuccess (by omega)
      rw [hm] at hnone
      cases hnone

theorem answers_of_orderly (hfits : HeaderFits stream) (horderly : Orderly texts stream broken) :
    Answers texts stream broken := by
  obtain ⟨hpanicked, hunfinished⟩ := streamAnswer_ne horderly
  refine ⟨fun checks checks' reads reads' h h' => ?_, fun checks reads h => ⟨?_, ?_, ?_⟩⟩
  · rw [answer_of_orderly h hfits horderly, answer_of_orderly h' hfits horderly]
  · rwa [answer_of_orderly h hfits horderly]
  · rwa [answer_of_orderly h hfits horderly]
  · intro response hresponse
    have hanswer := answer_eq_ok_iff.mpr hresponse
    rw [answer_of_orderly h hfits horderly] at hanswer
    exact bodyRight_of_orderly horderly hanswer

end Forward

end Vantablack.Layers
