import Vantablack.Layers.Kem

/-!
`String::from_utf8_lossy`. A valid byte string is taken as it is. In any other, every maximal
ill-formed part, which is at most three bytes long, gives one replacement character.
-/

namespace Vantablack.Net

open Layers

/-- The length of a character by its first byte; 0 if no character starts with it. -/
def utf8CharWidth (b : UInt8) : ℕ :=
  if b < 0x80 then 1
  else if 0xC2 ≤ b ∧ b ≤ 0xDF then 2
  else if 0xE0 ≤ b ∧ b ≤ 0xEF then 3
  else if 0xF0 ≤ b ∧ b ≤ 0xF4 then 4
  else 0

def isContinuation (b : UInt8) : Bool :=
  0x80 ≤ b ∧ b ≤ 0xBF

/-- The second bytes that may follow the first byte of a character of three or four bytes: no
overlong forms, no surrogates, nothing above U+10FFFF. -/
def secondByteFits (b0 b1 : UInt8) : Bool :=
  if b0 = 0xE0 then 0xA0 ≤ b1 ∧ b1 ≤ 0xBF
  else if b0 = 0xED then 0x80 ≤ b1 ∧ b1 ≤ 0x9F
  else if b0 = 0xF0 then 0x90 ≤ b1 ∧ b1 ≤ 0xBF
  else if b0 = 0xF4 then 0x80 ≤ b1 ∧ b1 ≤ 0x8F
  else isContinuation b1

/-- The character at the front of `b0 :: rest`, `none` if it is ill-formed, and how many bytes of
`rest` belong to it. A byte past the end reads as 0. -/
def frontChar (b0 : UInt8) (rest : Bytes) : Option Char × ℕ :=
  let byte (i : ℕ) : UInt8 := rest.getD i 0
  let low (i : ℕ) : ℕ := (byte i).toNat % 64
  match utf8CharWidth b0 with
  | 1 => (some (Char.ofNat b0.toNat), 0)
  | 2 =>
      if isContinuation (byte 0) then (some (Char.ofNat (b0.toNat % 32 * 64 + low 0)), 1)
      else (none, 0)
  | 3 =>
      if !secondByteFits b0 (byte 0) then (none, 0)
      else if !isContinuation (byte 1) then (none, 1)
      else (some (Char.ofNat ((b0.toNat % 16 * 64 + low 0) * 64 + low 1)), 2)
  | 4 =>
      if !secondByteFits b0 (byte 0) then (none, 0)
      else if !isContinuation (byte 1) then (none, 1)
      else if !isContinuation (byte 2) then (none, 2)
      else (some (Char.ofNat (((b0.toNat % 8 * 64 + low 0) * 64 + low 1) * 64 + low 2)), 3)
  | _ => (none, 0)

/-- The text of a byte string, with at most `fuel` characters. -/
def lossyChars : ℕ → Bytes → List Char
  | 0, _ => []
  | _, [] => []
  | fuel + 1, b :: rest =>
      (frontChar b rest).1.getD (Char.ofNat 0xFFFD) ::
        lossyChars fuel (rest.drop (frontChar b rest).2)

def fromUtf8Lossy (bytes : Bytes) : String :=
  match String.fromUTF8? ⟨bytes.toArray⟩ with
  | some s => s
  | none => String.ofList (lossyChars bytes.length bytes)

def fromUtf8 (bytes : Bytes) : Option String :=
  String.fromUTF8? ⟨bytes.toArray⟩

theorem utf8_of_fromUtf8 {bytes : Bytes} {s : String} (h : fromUtf8 bytes = some s) :
    utf8 s = bytes := by
  rw [fromUtf8, String.fromUTF8?] at h
  split at h
  · rename_i hvalid
    cases h
    rw [utf8, String.toUTF8_eq_toByteArray, String.fromUTF8]
  · cases h

@[simp] theorem fromUtf8_utf8 (s : String) : fromUtf8 (utf8 s) = some s := by
  have hbytes : (⟨(utf8 s).toArray⟩ : ByteArray) = s.toUTF8 := by
    rw [utf8, Array.toArray_toList]
  rw [fromUtf8, hbytes, String.fromUTF8?, String.toUTF8_eq_toByteArray, dif_pos s.isValidUTF8]
  rfl

theorem utf8_inj {s t : String} (h : utf8 s = utf8 t) : s = t := by
  have hs := fromUtf8_utf8 s
  rw [h, fromUtf8_utf8] at hs
  exact (Option.some.inj hs).symm

@[simp] theorem fromUtf8Lossy_utf8 (s : String) : fromUtf8Lossy (utf8 s) = s := by
  have hread : String.fromUTF8? ⟨(utf8 s).toArray⟩ = some s := fromUtf8_utf8 s
  rw [fromUtf8Lossy, hread]

theorem utf8_ofList (l : List Char) : utf8 (String.ofList l) = l.flatMap String.utf8EncodeChar := by
  rw [utf8, String.toUTF8_eq_toByteArray, String.toByteArray_ofList, List.utf8Encode,
    List.toList_data_toByteArray]

theorem utf8_ascii {bytes : Bytes} (h : ∀ b ∈ bytes, b.toNat < 128) :
    utf8 (String.ofList (bytes.map fun b => Char.ofNat b.toNat)) = bytes := by
  rw [utf8_ofList, List.flatMap_map]
  induction bytes with
  | nil => rfl
  | cons b bytes ih =>
      have hb := h b List.mem_cons_self
      have hvalid : b.toNat.isValidChar := Or.inl (by omega)
      have hval : (Char.ofNat b.toNat).val.toNat = b.toNat := by
        show (Char.ofNat b.toNat).toNat = b.toNat
        rw [Char.ofNat, dif_pos hvalid]
        rfl
      have hchar : String.utf8EncodeChar (Char.ofNat b.toNat) = [b] := by
        rw [String.utf8EncodeChar_eq_singleton (Char.utf8Size_eq_one_iff.mpr ?_)]
        · rw [List.singleton_inj, ← UInt8.toNat_inj, UInt32.toNat_toUInt8, hval]
          omega
        · rw [UInt32.le_iff_toNat_le, hval]
          exact Nat.le_of_lt_succ hb
      rw [List.flatMap_cons, hchar, ih fun b' hb' => h b' (List.mem_cons_of_mem b hb')]
      rfl

end Vantablack.Net
