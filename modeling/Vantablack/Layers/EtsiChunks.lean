import Vantablack.Layers.EtsiHttp

/-!
What is in a chunked body, as a whole and without regard to the reads that bring it: the chunk
sequences of RFC 9112, and the way through a stream that the reader takes. A reader that gets the
stream in pieces goes the same way, unless a size line is so long that it may give up in the middle
of it.
-/

namespace Vantablack.Layers

open Net Lib List

/-! ### Size lines -/

def isHex (c : Char) : Bool := (hexDigit c).isSome

def isBlank (c : Char) : Bool := c = ' ' || c = '\t'

def hexValue (digits : List Char) : ℕ :=
  digits.foldl (fun value c => value * 16 + (hexDigit c).getD 0) 0

/-- A size line: digits, and perhaps an extension behind a semicolon. -/
def RegularLine (line : List Char) : Prop :=
  line.takeWhile isHex ≠ [] ∧ (line.dropWhile isHex = [] ∨
    ((line.dropWhile isHex).dropWhile isBlank).head? = some ';')
  deriving Decidable

def lineSize (line : List Char) : ℕ := hexValue (line.takeWhile isHex)

def lineText (line : Bytes) : List Char := (fromUtf8Lossy line).toList

theorem foldl_hex_ge (digits : List Char) (value : ℕ) :
    value ≤ digits.foldl (fun value c => value * 16 + (hexDigit c).getD 0) value := by
  induction digits generalizing value with
  | nil => exact le_rfl
  | cons c digits ih =>
      rw [foldl_cons]
      exact le_trans (by omega) (ih _)

variable {digits : List Char}

theorem readHex_eq (h : ∀ c ∈ digits, isHex c = true) {value : ℕ} (hvalue : value < 2 ^ 64) :
    readHex value digits =
      if digits.foldl (fun value c => value * 16 + (hexDigit c).getD 0) value < 2 ^ 64 then
        .ok (digits.foldl (fun value c => value * 16 + (hexDigit c).getD 0) value)
      else .error .posOverflow := by
  induction digits generalizing value with
  | nil => rw [readHex, foldl_nil, if_pos hvalue]
  | cons c digits ih =>
      obtain ⟨hc, hdigits⟩ := forall_mem_cons.mp h
      obtain ⟨d, hd⟩ := Option.isSome_iff_exists.mp hc
      rw [readHex, hd, foldl_cons, hd, Option.getD_some]
      dsimp only
      split
      · next hlt => exact ih hdigits hlt
      · next hge =>
          have hle := foldl_hex_ge digits (value * 16 + d)
          rw [if_neg (by omega)]

theorem isWhitespace_of_isHex {c : Char} (h : isHex c = true) : Text.isWhitespace c = false := by
  have hrange : (48 ≤ c.toNat ∧ c.toNat ≤ 57) ∨ (97 ≤ c.toNat ∧ c.toNat ≤ 102) ∨
      (65 ≤ c.toNat ∧ c.toNat ≤ 70) := by
    unfold isHex hexDigit at h
    dsimp only at h
    split_ifs at h
    · exact Or.inl ‹_›
    · exact Or.inr (Or.inl ‹_›)
    · exact Or.inr (Or.inr ‹_›)
    · cases h
  unfold Text.isWhitespace
  simp only [Bool.or_eq_false_iff, Bool.and_eq_false_iff, decide_eq_false_iff_not,
    contains_eq_mem, mem_cons, not_mem_nil, or_false]
  omega

theorem trimStart0x_of_hex (h : ∀ c ∈ digits, isHex c = true) : trimStart0x digits = digits := by
  unfold trimStart0x
  split
  · next rest =>
      have hx := h 'x' (mem_cons_of_mem _ mem_cons_self)
      exact absurd hx (by decide)
  · rfl

theorem fromStrRadix16_of_hex (hne : digits ≠ []) (h : ∀ c ∈ digits, isHex c = true) :
    fromStrRadix16 digits =
      if hexValue digits < 2 ^ 64 then .ok (hexValue digits) else .error .posOverflow := by
  have hread : readHex 0 digits = if hexValue digits < 2 ^ 64 then .ok (hexValue digits)
      else .error .posOverflow := readHex_eq h (by decide)
  unfold fromStrRadix16
  split
  · exact absurd rfl hne
  · exact absurd (h '+' mem_cons_self) (by decide)
  · exact absurd (h '-' mem_cons_self) (by decide)
  · exact absurd (h '+' mem_cons_self) (by decide)
  · exact hread

theorem exists_blanks_of_regularLine {line : List Char} (h : RegularLine line) :
    ∃ blanks rest : List Char, line = line.takeWhile isHex ++ (blanks ++ rest) ∧
      (∀ c ∈ blanks, isBlank c = true) ∧ (rest = [] ∨ rest.head? = some ';') := by
  have hsplit := takeWhile_append_dropWhile (p := isHex) (l := line)
  rcases h.2 with hnil | hsome
  · refine ⟨[], [], ?_, fun c hc => absurd hc not_mem_nil, Or.inl rfl⟩
    rw [hnil] at hsplit
    exact hsplit.symm
  · refine ⟨(line.dropWhile isHex).takeWhile isBlank, (line.dropWhile isHex).dropWhile isBlank, ?_,
      fun c hc => mem_takeWhile_imp hc, Or.inr hsome⟩
    rw [takeWhile_append_dropWhile, hsplit]

theorem takeWhile_ne_append {front rest : List Char} (hfront : ∀ c ∈ front, c ≠ ';')
    (hrest : rest = [] ∨ rest.head? = some ';') :
    (front ++ rest).takeWhile (· ≠ ';') = front := by
  rw [takeWhile_append_of_pos fun c hc => decide_eq_true (hfront c hc)]
  cases rest with
  | nil => exact append_nil _
  | cons c rest =>
      have hc : c = ';' := by simpa using hrest
      rw [hc, takeWhile_cons_of_neg (by simp), append_nil]

theorem chunkSize_of_regularLine {line : List Char} (h : RegularLine line) :
    chunkSize line =
      if lineSize line < 2 ^ 64 then .ok (lineSize line) else .error .posOverflow := by
  obtain ⟨blanks, rest, hline, hblanks, hrest⟩ := exists_blanks_of_regularLine h
  have hhex : ∀ c ∈ line.takeWhile isHex, isHex c = true := fun c hc => mem_takeWhile_imp hc
  have hsemicolon : ∀ c ∈ line.takeWhile isHex ++ blanks, c ≠ ';' := by
    rintro c hc rfl
    rcases mem_append.mp hc with hc | hc
    · exact absurd (hhex _ hc) (by decide)
    · exact absurd (hblanks _ hc) (by decide)
  have hspace : ∀ c ∈ blanks, Text.isWhitespace c = true := by
    intro c hc
    have hblank := hblanks c hc
    rw [isBlank, Bool.or_eq_true, decide_eq_true_iff, decide_eq_true_iff] at hblank
    rcases hblank with rfl | rfl
    all_goals decide
  have hfront : line.takeWhile (· ≠ ';') = line.takeWhile isHex ++ blanks := by
    rw [← takeWhile_ne_append hsemicolon hrest, append_assoc, ← hline]
  rw [chunkSize, hfront, Text.trim_append_space hspace,
    Text.trim_of_trimmed (Text.trimmed_of_forall fun c hc => isWhitespace_of_isHex (hhex c hc)),
    trimStart0x_of_hex hhex, fromStrRadix16_of_hex h.1 hhex, lineSize]

/-- A stream that begins with a chunk sequence of RFC 9112, up to its last chunk, and the data of
the chunks. -/
inductive ChunkedBody : Bytes → Bytes → Prop
  | last {line trailer : Bytes} (hline : findSubslice line crlf = none)
      (hregular : RegularLine (lineText line)) (hsize : lineSize (lineText line) = 0) :
      ChunkedBody (line ++ (crlf ++ trailer)) []
  | chunk {line data rest body : Bytes} (hline : findSubslice line crlf = none)
      (hregular : RegularLine (lineText line)) (hsize : lineSize (lineText line) = data.length)
      (hne : data ≠ []) (hrest : ChunkedBody rest body) :
      ChunkedBody (line ++ (crlf ++ (data ++ (crlf ++ rest)))) (data ++ body)

/-! ### The way through a stream -/

/-- How the chunks of a stream come to an end. -/
inductive Finish where
  | last
  | malformed
  | cut
  | overflow
  deriving DecidableEq, Repr

/-- What comes after a size line: an end, or that many bytes of data. -/
inductive AfterLine where
  | stop (finish : Finish)
  | data (size : ℕ)
  deriving DecidableEq, Repr

def afterLine (done : ℕ) (line rest : Bytes) : AfterLine :=
  match chunkSize (lineText line) with
  | .error _ => .stop .malformed
  | .ok size =>
      if size = 0 then .stop .last
      else if 2 ^ 64 ≤ done + size then .stop .overflow
      else if maxBodyBytes < done + size then .stop .malformed
      else if rest.length < size + 2 then .stop .cut
      else .data size

/-- A way through a stream: its end, whether some size line on it is so long that a reader may have
given up, whether all of it is regular, and the data. -/
structure Walk where
  finish : Finish
  long : Bool
  regular : Bool
  body : Bytes
  deriving DecidableEq, Repr

/-- A read adds at most 4096 bytes to the 16384 with which a reader still goes on, so that no
reader gets to the end of a size line beyond these. -/
def walk : ℕ → Bytes → Bytes → Walk
  | 0, out, _ => ⟨.malformed, false, true, out⟩
  | rounds + 1, out, stream =>
      match findSubslice stream crlf with
      | none => ⟨if maxHeaderBytes < stream.length then .malformed else .cut, false, true, out⟩
      | some i =>
          if maxHeaderBytes + 4094 < i then ⟨.malformed, false, true, out⟩
          else
            let line := stream.take i
            let rest := stream.drop (i + 2)
            let long := decide (maxHeaderBytes ≤ i)
            let regular := decide (RegularLine (lineText line))
            match afterLine out.length line rest with
            | .stop finish => ⟨finish, long, regular, out⟩
            | .data size =>
                let next := walk rounds (out ++ rest.take size) (rest.drop (size + 2))
                { next with
                  long := long || next.long,
                  regular := regular && decide ((rest.drop size).take 2 = crlf) && next.regular }

theorem crlf_ne_nil : crlf ≠ [] := cons_ne_nil _ _

variable {stream : Bytes}

theorem split_of_findSubslice {i : ℕ} (h : findSubslice stream crlf = some i) :
    stream = stream.take i ++ (crlf ++ stream.drop (i + 2)) ∧
      findSubslice (stream.take i) crlf = none ∧ i + 2 ≤ stream.length := by
  have hlength : i + 2 ≤ stream.length := length_le_of_findSubslice crlf_ne_nil h
  obtain ⟨hfound, -⟩ := (findSubslice_eq_some_iff crlf_ne_nil).mp h
  have hdrop : stream.drop i = crlf ++ stream.drop (i + 2) := by
    obtain ⟨rest, hrest⟩ := hfound
    rw [← drop_drop, ← hrest]
    rfl
  refine ⟨by rw [← hdrop, take_append_drop], ?_, hlength⟩
  have hfront := findSubslice_of_append crlf_ne_nil (stream.take i) (stream.drop i)
    (by rwa [take_append_drop])
  have hcrlf : crlf.length = 2 := rfl
  rwa [length_take, hcrlf, if_neg (by omega)] at hfront

theorem findSubslice_line {line : Bytes} (h : findSubslice line crlf = none) (rest : Bytes) :
    findSubslice (line ++ (crlf ++ rest)) crlf = some line.length :=
  findSubslice_append_self h (by decide) rfl

theorem take_append_take_drop (l : Bytes) (a b : ℕ) :
    l.take a ++ ((l.drop a).take b ++ l.drop (a + b)) = l := by
  rw [← drop_drop, take_append_drop, take_append_drop]

theorem data_of_afterLine {done size : ℕ} {line rest : Bytes}
    (h : afterLine done line rest = .data size) :
    chunkSize (lineText line) = .ok size ∧ size ≠ 0 ∧ done + size ≤ maxBodyBytes ∧
      size + 2 ≤ rest.length := by
  unfold afterLine at h
  split at h
  · cases h
  · next size' hsize =>
      split_ifs at h with hzero hover hcap hcut
      cases h
      exact ⟨hsize, hzero, by omega, by omega⟩

theorem last_of_afterLine {done : ℕ} {line rest : Bytes}
    (h : afterLine done line rest = .stop .last) : chunkSize (lineText line) = .ok 0 := by
  unfold afterLine at h
  split at h
  · cases h
  · next size hsize =>
      split_ifs at h with hzero
      · rw [hsize, hzero]
      all_goals cases h

theorem lineSize_of_chunkSize {line : List Char} {size : ℕ} (h : RegularLine line)
    (hsize : chunkSize line = .ok size) : lineSize line = size := by
  rw [chunkSize_of_regularLine h] at hsize
  split at hsize
  · exact Except.ok.inj hsize
  · cases hsize

theorem chunkedBody_of_walk {rounds : ℕ} {out : Bytes}
    (hlast : (walk rounds out stream).finish = .last)
    (hregular : (walk rounds out stream).regular = true) :
    ∃ body, ChunkedBody stream body ∧ (walk rounds out stream).body = out ++ body := by
  induction rounds generalizing out stream with
  | zero => cases hlast
  | succ rounds ih =>
      rw [walk] at hlast hregular ⊢
      cases hfind : findSubslice stream crlf with
      | none =>
          rw [hfind] at hlast
          dsimp only at hlast
          split at hlast
          all_goals cases hlast
      | some i =>
          rw [hfind] at hlast hregular
          dsimp only at hlast hregular ⊢
          obtain ⟨hsplit, hline, -⟩ := split_of_findSubslice hfind
          split_ifs at hlast hregular ⊢ with hfar
          cases hafter : afterLine out.length (stream.take i) (stream.drop (i + 2)) with
          | stop finish =>
              rw [hafter] at hlast hregular
              dsimp only at hlast hregular ⊢
              rw [hlast] at hafter
              have hreg := of_decide_eq_true hregular
              refine ⟨[], ?_, (append_nil out).symm⟩
              rw [hsplit]
              exact .last hline hreg (lineSize_of_chunkSize hreg (last_of_afterLine hafter))
          | data size =>
              rw [hafter] at hlast hregular
              dsimp only at hlast hregular ⊢
              obtain ⟨hsize, hpos, -, hlength⟩ := data_of_afterLine hafter
              rw [Bool.and_eq_true, Bool.and_eq_true, decide_eq_true_iff,
                decide_eq_true_iff] at hregular
              obtain ⟨⟨hreg, htail⟩, hnext⟩ := hregular
              obtain ⟨body, hbody, heq⟩ := ih hlast hnext
              have hdata : ((stream.drop (i + 2)).take size).length = size := by
                rw [length_take]
                omega
              refine ⟨(stream.drop (i + 2)).take size ++ body, ?_, by
                rw [heq, append_assoc]⟩
              have hrest : (stream.drop (i + 2)).take size ++
                  (crlf ++ (stream.drop (i + 2)).drop (size + 2)) = stream.drop (i + 2) := by
                rw [← htail]
                exact take_append_take_drop _ _ _
              have hsize' : lineSize (lineText (stream.take i)) =
                  ((stream.drop (i + 2)).take size).length := by
                rw [hdata]
                exact lineSize_of_chunkSize hreg hsize
              have hchunk := ChunkedBody.chunk hline hreg hsize'
                (ne_nil_of_length_pos (by omega)) hbody
              rwa [hrest, ← hsplit] at hchunk

theorem regular_of_chunkedBody {body : Bytes} (h : ChunkedBody stream body) {rounds : ℕ}
    {out : Bytes} (hlast : (walk rounds out stream).finish = .last) :
    (walk rounds out stream).regular = true := by
  induction h generalizing rounds out with
  | @last line trailer hline hregular hsize =>
      cases rounds with
      | zero => cases hlast
      | succ rounds =>
          rw [walk, findSubslice_line hline] at hlast ⊢
          dsimp only at hlast ⊢
          split_ifs at hlast ⊢ with hfar
          rw [take_left] at hlast ⊢
          cases hafter : afterLine out.length line ((line ++ (crlf ++ trailer)).drop
              (line.length + 2)) with
          | stop finish => exact decide_eq_true hregular
          | data size =>
              obtain ⟨hsize', hpos, -⟩ := data_of_afterLine hafter
              exact absurd ((lineSize_of_chunkSize hregular hsize').symm.trans hsize) hpos
  | @chunk line data rest body hline hregular hsize hne hrest ih =>
      cases rounds with
      | zero => cases hlast
      | succ rounds =>
          have hdrop : (line ++ (crlf ++ (data ++ (crlf ++ rest)))).drop (line.length + 2) =
              data ++ (crlf ++ rest) := by
            rw [drop_append, drop_eq_nil_of_le (by omega), Nat.add_sub_cancel_left]
            rfl
          rw [walk, findSubslice_line hline] at hlast ⊢
          dsimp only at hlast ⊢
          split_ifs at hlast ⊢ with hfar
          rw [take_left, hdrop] at hlast ⊢
          cases hafter : afterLine out.length line (data ++ (crlf ++ rest)) with
          | stop finish => exact decide_eq_true hregular
          | data size =>
              obtain ⟨hsize', -⟩ := data_of_afterLine hafter
              have heq : data.length = size :=
                hsize.symm.trans (lineSize_of_chunkSize hregular hsize')
              rw [hafter] at hlast
              dsimp only at hlast ⊢
              have htail : ((data ++ (crlf ++ rest)).drop size).take 2 = crlf := by
                rw [← heq, drop_left]
                rfl
              have hnext : (data ++ (crlf ++ rest)).drop (size + 2) = rest := by
                rw [← drop_drop, ← heq, drop_left]
                rfl
              rw [hnext] at hlast
              rw [decide_eq_true hregular, decide_eq_true htail, hnext, ih hlast]
              rfl

theorem length_walk_body {rounds : ℕ} {out : Bytes} (h : out.length ≤ maxBodyBytes) :
    (walk rounds out stream).body.length ≤ maxBodyBytes := by
  induction rounds generalizing out stream with
  | zero => exact h
  | succ rounds ih =>
      rw [walk]
      split
      · exact h
      · split
        · exact h
        · dsimp only
          split
          · exact h
          · next size hafter =>
              obtain ⟨-, -, hcap, hlength⟩ := data_of_afterLine hafter
              refine ih ?_
              rw [length_append, length_take]
              omega

end Vantablack.Layers
