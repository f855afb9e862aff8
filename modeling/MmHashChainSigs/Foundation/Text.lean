import Mathlib

/-!
# Byte text: literals, decimal and hexadecimal numerals

Texts are lists of bytes.  Decimal numerals reuse `Nat.toDigits`; hexadecimal
text writes every byte as two lower-case digits, high digit first.
-/

namespace MmHashChainSigs.Foundation

abbrev Bytes := List UInt8

def ascii (text : String) : Bytes := text.toList.map fun c => UInt8.ofNat c.toNat

def isSpace (c : UInt8) : Bool := c = 32 || (9 ≤ c && c ≤ 13)

def isDigit (c : UInt8) : Bool := 48 ≤ c && c ≤ 57

theorem not_isSpace_of_isDigit {c : UInt8} (h : isDigit c) :
    isSpace c = false := by
  simp only [isDigit, Bool.and_eq_true, decide_eq_true_eq,
    UInt8.le_iff_toNat_le] at h
  simp only [isSpace, Bool.or_eq_false_iff, decide_eq_false_iff_not,
    Bool.and_eq_false_iff, UInt8.le_iff_toNat_le, ← UInt8.toNat_inj]
  obtain ⟨hlow, -⟩ := h
  change 48 ≤ c.toNat at hlow
  change ¬ c.toNat = 32 ∧ (¬ 9 ≤ c.toNat ∨ ¬ c.toNat ≤ 13)
  omega

/-! ## Decimal numerals -/

def decimal (n : Nat) : Bytes :=
  (Nat.toDigits 10 n).map fun c => UInt8.ofNat c.toNat

def decimalValue (text : Bytes) : Nat :=
  text.foldl (fun value c => 10 * value + (c.toNat - 48)) 0

private theorem charByte_toNat {c : Char} (h : c.isDigit) :
    (UInt8.ofNat c.toNat).toNat = c.toNat := by
  simp only [Char.isDigit, Bool.and_eq_true, decide_eq_true_eq] at h
  have hlt : c.toNat ≤ 57 := h.2
  simp only [UInt8.toNat_ofNat']
  omega

theorem decimal_isDigit {n : Nat} {c : UInt8} (h : c ∈ decimal n) :
    isDigit c := by
  obtain ⟨d, hd, rfl⟩ := List.mem_map.mp h
  have hdigit := Nat.isDigit_of_mem_toDigits (by decide) (by decide) hd
  have hnat := charByte_toNat hdigit
  simp only [Char.isDigit, Bool.and_eq_true, decide_eq_true_eq] at hdigit
  obtain ⟨hlow, hhigh⟩ := hdigit
  have hlow' : 48 ≤ d.toNat := hlow
  have hhigh' : d.toNat ≤ 57 := hhigh
  simp only [isDigit, Bool.and_eq_true, decide_eq_true_eq,
    UInt8.le_iff_toNat_le, hnat]
  exact ⟨hlow', hhigh'⟩

theorem decimal_ne_nil (n : Nat) : decimal n ≠ [] := by
  simp [decimal]

theorem decimal_length_le {n k : Nat} (hk : 0 < k) (hn : n < 10 ^ k) :
    (decimal n).length ≤ k := by
  rw [decimal, List.length_map]
  exact (Nat.length_toDigits_le_iff (by decide) hk).mpr hn

theorem decimal_length_pos (n : Nat) : 0 < (decimal n).length :=
  List.length_pos_iff.mpr (decimal_ne_nil n)

private theorem foldl_charByte (text : List Char)
    (hdigits : ∀ c ∈ text, c.isDigit) (value : Nat) :
    (text.map fun c => UInt8.ofNat c.toNat).foldl
        (fun value c => 10 * value + (c.toNat - 48)) value =
      Nat.ofDigitChars 10 text value := by
  induction text generalizing value with
  | nil => simp
  | cons c text ih =>
      rw [List.map_cons, List.foldl_cons, Nat.ofDigitChars_cons,
        charByte_toNat (hdigits c (by simp))]
      exact ih (fun d hd => hdigits d (by simp [hd])) _

@[simp] theorem decimalValue_decimal (n : Nat) :
    decimalValue (decimal n) = n := by
  rw [decimalValue, decimal, foldl_charByte]
  · exact Nat.ofDigitChars_ten_toDigits
  · exact fun c hc => Nat.isDigit_of_mem_toDigits (by decide) (by decide) hc

/-! ## Hexadecimal text -/

def hexDigit (n : Nat) : UInt8 :=
  if n < 10 then UInt8.ofNat (48 + n) else UInt8.ofNat (87 + n)

def hexValue (c : UInt8) : Option Nat :=
  if 48 ≤ c ∧ c ≤ 57 then some (c.toNat - 48)
  else if 97 ≤ c ∧ c ≤ 102 then some (c.toNat - 87)
  else if 65 ≤ c ∧ c ≤ 70 then some (c.toNat - 55)
  else none

def hexByte (b : UInt8) : Bytes :=
  [hexDigit (b.toNat / 16), hexDigit (b.toNat % 16)]

def hexText (bytes : Bytes) : Bytes := bytes.flatMap hexByte

theorem hexValue_hexDigit {n : Nat} (h : n < 16) :
    hexValue (hexDigit n) = some n := by
  interval_cases n <;> rfl

theorem not_isSpace_hexDigit {n : Nat} (h : n < 16) :
    isSpace (hexDigit n) = false := by
  interval_cases n <;> rfl

@[simp] theorem hexText_length (bytes : Bytes) :
    (hexText bytes).length = 2 * bytes.length := by
  induction bytes with
  | nil => rfl
  | cons b bytes ih =>
      rw [hexText, List.flatMap_cons, List.length_append]
      change 2 + (hexText bytes).length = _
      rw [ih, List.length_cons]
      omega

theorem mem_hexText {bytes : Bytes} {c : UInt8} (h : c ∈ hexText bytes) :
    ∃ n < 16, c = hexDigit n := by
  obtain ⟨b, -, hc⟩ := List.mem_flatMap.mp h
  have hb := b.toNat_lt
  simp only [hexByte, List.mem_cons, List.not_mem_nil, or_false] at hc
  rcases hc with rfl | rfl
  · exact ⟨b.toNat / 16, by omega, rfl⟩
  · exact ⟨b.toNat % 16, by omega, rfl⟩

theorem byte_eq_of_nibbles (b : UInt8) :
    UInt8.ofNat (16 * (b.toNat / 16) + b.toNat % 16) = b := by
  rw [Nat.div_add_mod]
  simp

end MmHashChainSigs.Foundation
