import Mathlib.Data.List.DropRight

/-!
Texts as lists of characters, with the operations of `str` that look at white space: trimming, lines
and words.
-/

namespace Vantablack.Lib.Text

open List

/-- Unicode's `White_Space`. -/
def isWhitespace (c : Char) : Bool :=
  (9 ≤ c.toNat && c.toNat ≤ 13) || (0x2000 ≤ c.toNat && c.toNat ≤ 0x200A) ||
    [0x20, 0x85, 0xA0, 0x1680, 0x2028, 0x2029, 0x202F, 0x205F, 0x3000].contains c.toNat

/-- `trim_matches`, first at the front and then at the end. -/
def trimMatches (p : Char → Bool) (s : List Char) : List Char := (s.dropWhile p).rdropWhile p

def trim (s : List Char) : List Char := trimMatches isWhitespace s

def stripPrefix (front : String) (s : List Char) : Option (List Char) :=
  front.toList.isPrefixOf? s

def eqIgnoreAsciiCase (s : List Char) (t : String) : Bool :=
  s.map Char.toLower = t.toList.map Char.toLower

/-- The words between white space. -/
def splitWhitespace (s : List Char) : List (List Char) :=
  (s.splitOnP isWhitespace).filter fun word => !word.isEmpty

/-- A line that ended with a line feed, without a carriage return in front of it. -/
def stripReturn (line : List Char) : List Char :=
  if line.getLast? = some '\r' then line.dropLast else line

/-- `str::lines`: what follows the last line feed is a line if there is anything. -/
def lines (s : List Char) : List (List Char) :=
  let pieces := s.splitOn '\n'
  pieces.dropLast.map stripReturn ++ (pieces.getLast?.filter fun piece => !piece.isEmpty).toList

/-! ### Prefixes and trimming -/

/-- A text with no white space at either end. -/
structure Trimmed (s : List Char) : Prop where
  head : ∀ c ∈ s.head?, isWhitespace c = false
  last : ∀ c ∈ s.getLast?, isWhitespace c = false

section Prefix

variable {s rest : List Char}

theorem stripPrefix_append (front : String) (s : List Char) :
    stripPrefix front (front.toList ++ s) = some s := by
  rw [stripPrefix]
  generalize front.toList = l
  induction l with
  | nil => rfl
  | cons c l ih =>
      rw [cons_append, isPrefixOf?, if_pos (beq_self_eq_true c), ih]

theorem eq_of_stripPrefix {front : String} (h : stripPrefix front s = some rest) :
    s = front.toList ++ rest := by
  rw [stripPrefix] at h
  generalize front.toList = l at h ⊢
  induction l generalizing s with
  | nil =>
      cases h
      rfl
  | cons c l ih =>
      cases s with
      | nil => cases h
      | cons c' s =>
          rw [isPrefixOf?] at h
          split at h
          · rename_i heq
            rw [ih h, eq_of_beq heq, cons_append]
          · cases h

end Prefix

section Trim

variable {s : List Char}

theorem trimmed_of_forall (h : ∀ c ∈ s, isWhitespace c = false) : Trimmed s where
  head c hc := h c (mem_of_mem_head? hc)
  last c hc := h c (mem_of_mem_getLast? hc)

theorem dropWhile_of_trimmed (h : Trimmed s) : s.dropWhile isWhitespace = s := by
  apply dropWhile_eq_self_iff.mpr
  intro hpos
  have hhead := h.head s[0] (by rw [head?_eq_getElem?, getElem?_eq_getElem hpos]; rfl)
  rw [hhead]
  exact Bool.false_ne_true

theorem rdropWhile_of_trimmed (h : Trimmed s) : s.rdropWhile isWhitespace = s := by
  apply rdropWhile_eq_self_iff.mpr
  intro hne
  rw [h.last (s.getLast hne) (getLast?_eq_some_getLast hne)]
  exact Bool.false_ne_true

theorem trim_of_trimmed (h : Trimmed s) : trim s = s := by
  rw [trim, trimMatches, dropWhile_of_trimmed h, rdropWhile_of_trimmed h]

theorem trimmed_trim (s : List Char) : Trimmed (trim s) := by
  obtain ⟨rest, hrest⟩ : trim s <+: s.dropWhile isWhitespace := rdropWhile_prefix _ _
  constructor
  · intro c hc
    have hfront : (s.dropWhile isWhitespace).head? = some c := by
      rw [← hrest, head?_append, Option.mem_def.mp hc]
      rfl
    have hnot := head?_dropWhile_not isWhitespace s
    rwa [hfront] at hnot
  · intro c hc
    have hne : trim s ≠ [] := by
      intro hnil
      rw [hnil] at hc
      cases hc
    have hlast : (trim s).getLast hne = c :=
      Option.some.inj ((getLast?_eq_some_getLast hne).symm.trans hc)
    rw [← hlast]
    exact Bool.eq_false_iff.mpr (rdropWhile_last_not _ _ hne)

theorem mem_of_mem_trim {c : Char} (h : c ∈ trim s) : c ∈ s :=
  (dropWhile_suffix isWhitespace).subset ((List.rdropWhile_prefix _ _).subset h)

theorem trim_space_append {w : List Char} (hw : ∀ c ∈ w, isWhitespace c = true) (s : List Char) :
    trim (w ++ s) = trim s := by
  rw [trim, trimMatches, dropWhile_append_of_pos hw]
  rfl

theorem rdropWhile_append_space {w : List Char} (hw : ∀ c ∈ w, isWhitespace c = true)
    (s : List Char) : (s ++ w).rdropWhile isWhitespace = s.rdropWhile isWhitespace := by
  rw [rdropWhile, reverse_append,
    dropWhile_append_of_pos fun c hc => hw c (mem_reverse.mp hc)]
  rfl

theorem trim_append_space {w : List Char} (hw : ∀ c ∈ w, isWhitespace c = true) (s : List Char) :
    trim (s ++ w) = trim s := by
  rw [trim, trimMatches, trim, trimMatches, dropWhile_append]
  split
  · rename_i hempty
    rw [dropWhile_eq_nil_iff.mpr hw, List.isEmpty_iff.mp hempty]
  · exact rdropWhile_append_space hw _

theorem exists_trim (s : List Char) :
    ∃ front back, s = front ++ (trim s ++ back) ∧ (∀ c ∈ front, isWhitespace c = true) ∧
      ∀ c ∈ back, isWhitespace c = true := by
  refine ⟨s.takeWhile isWhitespace, (s.dropWhile isWhitespace).rtakeWhile isWhitespace, ?_,
    fun c hc => mem_takeWhile_imp hc, fun c hc => mem_rtakeWhile_imp hc⟩
  have hback : trim s ++ (s.dropWhile isWhitespace).rtakeWhile isWhitespace =
      s.dropWhile isWhitespace := by
    rw [trim, trimMatches]
    exact rdropWhile_append_rtakeWhile
  rw [hback, takeWhile_append_dropWhile]

/-- A character that is not white space keeps its place when the text around it is trimmed. -/
theorem trim_append_cons {c : Char} (hc : isWhitespace c = false) (s t : List Char) :
    trim (s ++ c :: t) = s.dropWhile isWhitespace ++ c :: t.rdropWhile isWhitespace := by
  have hfront : (s ++ c :: t).dropWhile isWhitespace = s.dropWhile isWhitespace ++ c :: t := by
    have hcons : (c :: t).dropWhile isWhitespace = c :: t := by
      rw [dropWhile_cons, hc, if_neg Bool.false_ne_true]
    rw [dropWhile_append, hcons]
    split
    · rename_i hempty
      rw [List.isEmpty_iff.mp hempty, nil_append]
    · rfl
  have hself : (s.dropWhile isWhitespace ++ c :: t.rdropWhile isWhitespace).rdropWhile
      isWhitespace = s.dropWhile isWhitespace ++ c :: t.rdropWhile isWhitespace := by
    apply rdropWhile_eq_self_iff.mpr
    intro hne
    rw [getLast_append_of_ne_nil hne (cons_ne_nil _ _)]
    by_cases ht : t.rdropWhile isWhitespace = []
    · simp only [ht, getLast_singleton, hc]
      exact Bool.false_ne_true
    · rw [getLast_cons ht]
      exact rdropWhile_last_not _ _ ht
  have hback : t.rdropWhile isWhitespace ++ t.rtakeWhile isWhitespace = t :=
    rdropWhile_append_rtakeWhile
  have hrdrop := rdropWhile_append_space (w := t.rtakeWhile isWhitespace)
    (fun c hc => mem_rtakeWhile_imp hc)
    (s.dropWhile isWhitespace ++ c :: t.rdropWhile isWhitespace)
  rw [append_assoc, cons_append, hback, hself] at hrdrop
  rw [trim, trimMatches, hfront, hrdrop]
theorem trimmed_append {t u : List Char} (hs : s ≠ []) (hu : u ≠ []) (hfront : Trimmed s)
    (hback : Trimmed u) : Trimmed (s ++ (t ++ u)) where
  head c hc := by
    rw [head?_append_of_ne_nil s hs] at hc
    exact hfront.head c hc
  last c hc := by
    rw [getLast?_append_of_ne_nil s (append_ne_nil_of_right_ne_nil t hu),
      getLast?_append_of_ne_nil t hu] at hc
    exact hback.last c hc

end Trim

/-! ### Words -/

/-- A word: it is not empty and has no white space. -/
structure Word (w : List Char) : Prop where
  ne_nil : w ≠ []
  solid : ∀ c ∈ w, isWhitespace c = false

section Words

variable {p : Char → Bool} {s w : List Char}

theorem forall_of_mem_splitOnP (h : w ∈ s.splitOnP p) : ∀ c ∈ w, c ∈ s ∧ p c = false := by
  induction s generalizing w with
  | nil =>
      rw [splitOnP_nil, mem_singleton] at h
      subst h
      intro c hc
      cases hc
  | cons a s ih =>
      obtain ⟨piece, pieces, hpieces⟩ := exists_cons_of_ne_nil (splitOnP_ne_nil p s)
      have htail : ∀ {v : List Char}, v ∈ s.splitOnP p → ∀ c ∈ v, c ∈ a :: s ∧ p c = false :=
        fun hv c hc => ⟨mem_cons_of_mem a (ih hv c hc).1, (ih hv c hc).2⟩
      rw [splitOnP_cons_eq_if_modifyHead] at h
      split at h
      · rcases mem_cons.mp h with rfl | hmem
        · intro c hc
          cases hc
        · exact htail hmem
      · rename_i ha
        rw [hpieces, modifyHead_cons] at h
        rw [hpieces] at htail
        rcases mem_cons.mp h with rfl | hmem
        · intro c hc
          rcases mem_cons.mp hc with rfl | hc
          · exact ⟨mem_cons_self, Bool.eq_false_iff.mpr ha⟩
          · exact htail mem_cons_self c hc
        · exact htail (mem_cons_of_mem piece hmem)

theorem word_of_mem_splitWhitespace (h : w ∈ splitWhitespace s) : Word w := by
  obtain ⟨hmem, hne⟩ := mem_filter.mp h
  exact ⟨by simpa using hne, fun c hc => (forall_of_mem_splitOnP hmem c hc).2⟩

theorem splitWhitespace_word (h : Word w) : splitWhitespace w = [w] := by
  rw [splitWhitespace, splitOnP_eq_singleton h.solid,
    filter_cons_of_pos (by simpa using h.ne_nil), filter_nil]

theorem splitWhitespace_cons (h : Word w) (s : List Char) :
    splitWhitespace (w ++ ' ' :: s) = w :: splitWhitespace s := by
  rw [splitWhitespace, splitOnP_append_cons_of_forall_mem h.solid ' ' (by decide),
    filter_cons_of_pos (by simpa using h.ne_nil), splitWhitespace]

theorem splitWhitespace_intercalate {words : List (List Char)} (h : ∀ w ∈ words, Word w)
    (hne : words ≠ []) : splitWhitespace ([' '].intercalate words) = words := by
  induction words with
  | nil => exact absurd rfl hne
  | cons w words ih =>
      have hw := h w mem_cons_self
      cases words with
      | nil => rw [intercalate_singleton, splitWhitespace_word hw]
      | cons v words =>
          rw [intercalate_cons_cons, append_assoc, singleton_append,
            splitWhitespace_cons hw, ih (fun u hu => h u (mem_cons_of_mem w hu))
              (cons_ne_nil v words)]

theorem word_of_all (h : w.isEmpty = false ∧ w.all fun c => !isWhitespace c) : Word w where
  ne_nil := by simpa using h.1
  solid c hc := by simpa using all_eq_true.mp h.2 c hc

theorem Word.trimmed (h : Word w) : Trimmed w := trimmed_of_forall h.solid

theorem Word.noFeed (h : Word w) : '\n' ∉ w := fun hfeed => absurd (h.solid _ hfeed) (by decide)

theorem intercalate_words {words : List (List Char)} (h : ∀ w ∈ words, Word w) (hne : words ≠ []) :
    [' '].intercalate words ≠ [] ∧ Trimmed ([' '].intercalate words) ∧
      '\n' ∉ [' '].intercalate words := by
  induction words with
  | nil => exact absurd rfl hne
  | cons w words ih =>
      have hw := h w mem_cons_self
      cases words with
      | nil =>
          rw [intercalate_singleton]
          exact ⟨hw.ne_nil, hw.trimmed, hw.noFeed⟩
      | cons v words =>
          obtain ⟨hrest, htrimmed, hfeed⟩ :=
            ih (fun u hu => h u (mem_cons_of_mem w hu)) (cons_ne_nil v words)
          rw [intercalate_cons_cons, append_assoc]
          refine ⟨?_, trimmed_append hw.ne_nil hrest (hw.trimmed) htrimmed, ?_⟩
          · exact append_ne_nil_of_left_ne_nil hw.ne_nil _
          · simp only [mem_append, mem_singleton, not_or]
            exact ⟨hw.noFeed, by decide, hfeed⟩

end Words

/-! ### Lines -/

section Lines

variable {l s : List Char}

theorem stripReturn_of_trimmed (h : Trimmed l) : stripReturn l = l := by
  apply if_neg
  intro hlast
  exact absurd (h.last _ hlast) (by decide)

theorem mem_of_mem_stripReturn {c : Char} (h : c ∈ stripReturn l) : c ∈ l := by
  unfold stripReturn at h
  split at h
  · exact dropLast_subset l h
  · exact h

theorem notMem_of_mem_lines (h : l ∈ lines s) : '\n' ∉ l := by
  have hpiece : ∀ piece ∈ s.splitOn '\n', '\n' ∉ piece := by
    intro piece hmem hfeed
    have hnot := (forall_of_mem_splitOnP hmem _ hfeed).2
    simp at hnot
  rcases mem_append.mp h with hmem | hmem
  · obtain ⟨piece, hpiecemem, rfl⟩ := mem_map.mp hmem
    exact fun hfeed =>
      hpiece piece (dropLast_subset _ hpiecemem) (mem_of_mem_stripReturn hfeed)
  · rw [Option.mem_toList, Option.filter_eq_some_iff] at hmem
    exact hpiece l (mem_of_mem_getLast? hmem.1)

theorem lines_flatMap {ls : List (List Char)} (h : ∀ l ∈ ls, '\n' ∉ l ∧ Trimmed l) :
    lines (ls.flatMap (· ++ ['\n'])) = ls := by
  have hsplit : (ls.flatMap (· ++ ['\n'])).splitOn '\n' = ls ++ [[]] := by
    induction ls with
    | nil => rfl
    | cons l ls ih =>
        rw [flatMap_cons, append_assoc, singleton_append,
          splitOn_append_cons_self_of_not_mem (h l mem_cons_self).1,
          ih fun l' hl' => h l' (mem_cons_of_mem l hl'), cons_append]
  have hstrip : ls.map stripReturn = ls := by
    have hid : ∀ l ∈ ls, stripReturn l = id l := fun l hl => stripReturn_of_trimmed (h l hl).2
    rw [map_congr_left hid, map_id]
  rw [lines, hsplit]
  simp only [dropLast_concat, getLast?_concat, hstrip]
  exact append_nil ls

end Lines

end Vantablack.Lib.Text
