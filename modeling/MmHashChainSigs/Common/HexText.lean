import MmHashChainSigs.Common.Format

/-!
# Reading hexadecimal text

`hcs_hex_decode` leaves every pair of characters to `%2x`, which has rules of
its own about blanks, signs and partial numbers, and is given the rest of the
text instead of the pair.
-/

namespace MmHashChainSigs.Common

open MmHashChainSigs.Foundation

def isHex (c : UInt8) : Bool := (hexValue c).isSome

def isSign (c : UInt8) : Bool := c = 45 || c = 43

/-! ## One directive -/

/-- What `%2x` takes for a number: a digit, or a sign in front of one. -/
def NumberStarts : Bytes → Prop
  | [] => False
  | c :: rest => isHex c ∨ (isSign c ∧ ∃ d ∈ rest.head?, isHex d)

theorem not_isSign_of_isHex {c : UInt8} (h : isHex c) : c ≠ 45 ∧ c ≠ 43 := by
  constructor <;>
    · rintro rfl
      exact absurd h (by decide)

theorem scanHexByte_signed {c : UInt8} (hsign : c = 45 ∨ c = 43)
    {text rest : Bytes} (htext : text.dropWhile isSpace = c :: rest) :
    scanHexByte text ≠ none ↔ ∃ d ∈ rest.head?, isHex d := by
  unfold scanHexByte
  rw [htext]
  simp only [isHex, Option.isSome_iff_ne_none]
  rcases hsign with rfl | rfl
  · cases rest with
    | nil => simp
    | cons d rest => cases hd : hexValue d <;> simp [hd]
  · cases rest with
    | nil => simp
    | cons d rest => cases hd : hexValue d <;> simp [hd]

theorem scanHexByte_unsigned {c : UInt8} (hsign : c ≠ 45 ∧ c ≠ 43)
    {text rest : Bytes} (htext : text.dropWhile isSpace = c :: rest) :
    scanHexByte text ≠ none ↔ isHex c := by
  unfold scanHexByte
  rw [htext]
  simp only [hsign.1, hsign.2, if_false]
  cases hc : hexValue c with
  | none => simp [isHex, hc]
  | some high =>
      have hhex : isHex c = true := by simp [isHex, hc]
      simp only [Option.bind_eq_bind, Option.bind_some, hhex, iff_true]
      cases rest.head?.bind hexValue <;> exact nofun

/-- Whether one directive succeeds depends on what stands behind the blanks. -/
theorem scanHexByte_ne_none_iff (text : Bytes) :
    scanHexByte text ≠ none ↔ NumberStarts (text.dropWhile isSpace) := by
  cases htext : text.dropWhile isSpace with
  | nil =>
      unfold scanHexByte
      rw [htext]
      simp [NumberStarts]
  | cons c rest =>
      unfold NumberStarts
      by_cases hsign : c = 45 ∨ c = 43
      · have hhex : isHex c = false := by
          rcases hsign with rfl | rfl <;> rfl
        have his : isSign c = true := by simpa [isSign] using hsign
        rw [scanHexByte_signed hsign htext]
        simp [hhex, his]
      · have his : isSign c = false := by simpa [isSign] using hsign
        rw [scanHexByte_unsigned (not_or.mp hsign) htext]
        simp [his]

/-! ## Pairs of digits -/

theorem hexDigit_of_hexValue {c : UInt8} {n : Nat}
    (h : hexValue c = some n) : n < 16 ∧ hexDigit n = toLower c := by
  have hc : c = UInt8.ofNat c.toNat := by simp
  have hlt := c.toNat_lt
  generalize c.toNat = k at hc hlt
  subst hc
  revert h
  revert n
  have hall : ∀ k < 256, ∀ n ∈ hexValue (UInt8.ofNat k),
      n < 16 ∧ hexDigit n = toLower (UInt8.ofNat k) := by decide +kernel
  exact fun {n} h => hall k hlt n h

theorem hexByte_of_pair {c d : UInt8} {high low : Nat}
    (hc : hexValue c = some high) (hd : hexValue d = some low) :
    hexByte (UInt8.ofNat (16 * high + low)) = [toLower c, toLower d] := by
  obtain ⟨hhigh, hcdigit⟩ := hexDigit_of_hexValue hc
  obtain ⟨hlow, hddigit⟩ := hexDigit_of_hexValue hd
  have hnat : (UInt8.ofNat (16 * high + low)).toNat = 16 * high + low := by
    rw [UInt8.toNat_ofNat']
    omega
  unfold hexByte
  rw [hnat, show (16 * high + low) / 16 = high by omega,
    show (16 * high + low) % 16 = low by omega, hcdigit, hddigit]

theorem not_isSpace_of_isHex {c : UInt8} (h : isHex c) :
    isSpace c = false := by
  obtain ⟨n, hn⟩ := Option.isSome_iff_exists.mp h
  simp only [hexValue] at hn
  simp only [isSpace, Bool.or_eq_false_iff, decide_eq_false_iff_not,
    Bool.and_eq_false_iff, UInt8.le_iff_toNat_le, ← UInt8.toNat_inj] at hn ⊢
  change ¬ c.toNat = 32 ∧ (¬ 9 ≤ c.toNat ∨ ¬ c.toNat ≤ 13)
  change (if 48 ≤ c.toNat ∧ c.toNat ≤ 57 then _
    else if 97 ≤ c.toNat ∧ c.toNat ≤ 102 then _
    else if 65 ≤ c.toNat ∧ c.toNat ≤ 70 then _ else none) = some n at hn
  split_ifs at hn <;> omega

theorem scanHexByte_pair {c d : UInt8} {high low : Nat}
    (hc : hexValue c = some high) (hd : hexValue d = some low)
    (rest : Bytes) :
    scanHexByte (c :: d :: rest) = some (UInt8.ofNat (16 * high + low)) := by
  have hhex : isHex c := by simp [isHex, hc]
  obtain ⟨h45, h43⟩ := not_isSign_of_isHex hhex
  unfold scanHexByte
  rw [List.dropWhile_cons_of_neg (by simp [not_isSpace_of_isHex hhex])]
  simp only [h45, h43, if_false, hc, List.head?_cons, hd,
    Option.bind_eq_bind, Option.bind_some]

theorem cString_cons {c : UInt8} (h : c ≠ 0) (text : Bytes) :
    cString (c :: text) = c :: cString text :=
  List.takeWhile_cons_of_pos (by simpa using h)

theorem isHex_ne_zero {c : UInt8} (h : isHex c) : c ≠ 0 := by
  rintro rfl
  exact absurd h (by decide)

theorem hexPairs_of_hex {n : Nat} {text : Bytes} (hlen : text.length = 2 * n)
    (hhex : ∀ c ∈ text, isHex c) :
    ∃ out, hexPairs n text = some out ∧ hexText out = text.map toLower := by
  induction n generalizing text with
  | zero =>
      rw [List.length_eq_zero_iff.mp hlen]
      exact ⟨[], rfl, rfl⟩
  | succ n ih =>
      match text, hlen with
      | c :: d :: text, hlen =>
          simp only [List.forall_mem_cons] at hhex
          obtain ⟨hc, hd, htext⟩ := hhex
          simp only [List.length_cons] at hlen
          obtain ⟨high, hhigh⟩ := Option.isSome_iff_exists.mp hc
          obtain ⟨low, hlow⟩ := Option.isSome_iff_exists.mp hd
          obtain ⟨out, hout, hlower⟩ := ih (by omega) htext
          refine ⟨UInt8.ofNat (16 * high + low) :: out, ?_, ?_⟩
          · rw [hexPairs, cString_cons (isHex_ne_zero hc),
              cString_cons (isHex_ne_zero hd), scanHexByte_pair hhigh hlow]
            simp [hout]
          · change hexByte _ ++ hexText out = _
            rw [hexByte_of_pair hhigh hlow, hlower]
            rfl

/-! ## The whole text -/

def NumberAt (text : Bytes) (offset : Nat) : Prop :=
  NumberStarts ((cString (text.drop offset)).dropWhile isSpace)

theorem hexPairs_ne_none_iff (n : Nat) (text : Bytes) :
    hexPairs n text ≠ none ↔ ∀ i < n, NumberAt text (2 * i) := by
  induction n generalizing text with
  | zero => simp [hexPairs]
  | succ n ih =>
      have hsplit : hexPairs (n + 1) text ≠ none ↔
          scanHexByte (cString text) ≠ none ∧
            hexPairs n (text.drop 2) ≠ none := by
        rw [hexPairs]
        cases scanHexByte (cString text) with
        | none => simp
        | some b => cases hexPairs n (text.drop 2) <;> simp
      rw [hsplit, scanHexByte_ne_none_iff, ih]
      constructor
      · rintro ⟨hfirst, hrest⟩ i hi
        cases i with
        | zero => exact hfirst
        | succ i =>
            have hnumber := hrest i (by omega)
            unfold NumberAt at hnumber
            rwa [List.drop_drop, Nat.add_comm, ← Nat.mul_succ] at hnumber
      · intro h
        refine ⟨h 0 (by omega), ?_⟩
        intro i hi
        have hnumber := h (i + 1) (by omega)
        unfold NumberAt at hnumber ⊢
        rwa [List.drop_drop, Nat.add_comm, ← Nat.mul_succ]

/--
The decoder accepts the text exactly if it is hexadecimal and fits, and what
it gives is spelled by the text, up to the case of the digits.
-/
structure ReadsOnlyHex (text : Bytes) (outLen : Nat) : Prop where
  accepts : hcsHexDecode text outLen ≠ none ↔
    text.length % 2 = 0 ∧ text.length / 2 ≤ outLen ∧ ∀ c ∈ text, isHex c
  lower : ∀ out, hcsHexDecode text outLen = some out →
    hcsHexEncode out = text.map toLower

/--
A text of even length that fits is hexadecimal, or one of its pairs starts
where the directive finds no number.
-/
def HexOrRefused (text : Bytes) (outLen : Nat) : Prop :=
  text.length % 2 = 0 → text.length / 2 ≤ outLen →
    (∀ c ∈ text, isHex c) ∨ ∃ i, 2 * i < text.length ∧ ¬ NumberAt text (2 * i)

theorem readsOnlyHex_iff (text : Bytes) (outLen : Nat) :
    ReadsOnlyHex text outLen ↔ HexOrRefused text outLen := by
  by_cases hfits : text.length % 2 ≠ 0 ∨ outLen < text.length / 2
  · -- Odd or too long: refused before the first pair is read.
    have hnone : hcsHexDecode text outLen = none := if_pos hfits
    constructor
    · intro _ heven hlen
      omega
    · intro _
      constructor
      · rw [hnone]
        simp only [ne_eq, not_true_eq_false, false_iff]
        rintro ⟨heven, hlen, -⟩
        omega
      · simp [hnone]
  · have hpairs : hcsHexDecode text outLen = hexPairs (text.length / 2) text :=
      if_neg hfits
    rw [not_or, not_not, Nat.not_lt] at hfits
    have hhalf : text.length = 2 * (text.length / 2) := by omega
    constructor
    · intro h _ _
      by_contra hnot
      rw [not_or] at hnot
      apply hnot.1
      refine (h.accepts.mp ?_).2.2
      rw [hpairs, hexPairs_ne_none_iff]
      intro i hi
      by_contra hnumber
      exact hnot.2 ⟨i, by omega, hnumber⟩
    · intro h
      rcases h hfits.1 hfits.2 with hhex | ⟨i, hi, hnumber⟩
      · obtain ⟨out, hout, hlower⟩ := hexPairs_of_hex hhalf hhex
        rw [← hpairs] at hout
        constructor
        · rw [hout]
          exact iff_of_true nofun ⟨hfits.1, hfits.2, hhex⟩
        · intro out' hout'
          rw [hout] at hout'
          cases hout'
          exact hlower
      · have hnone : hcsHexDecode text outLen = none := by
          by_contra hsome
          rw [hpairs, ← ne_eq, hexPairs_ne_none_iff] at hsome
          exact hnumber (hsome i (by omega))
        constructor
        · rw [hnone]
          simp only [ne_eq, not_true_eq_false, false_iff]
          rintro ⟨-, -, hhex⟩
          -- Hexadecimal text has a number at every pair.
          obtain ⟨out, hout, -⟩ := hexPairs_of_hex hhalf hhex
          rw [hpairs, hout] at hnone
          cases hnone
        · simp [hnone]

/-- A blank and three digits are read as two bytes. -/
theorem blank_reads_as_hex :
    hcsHexDecode (ascii " f12") 2 = some [241, 18] ∧
      ¬ ReadsOnlyHex (ascii " f12") 2 := by
  have hdecode : hcsHexDecode (ascii " f12") 2 = some [241, 18] := by
    decide +kernel
  refine ⟨hdecode, ?_⟩
  intro h
  have hhex := (h.accepts.mp (by rw [hdecode]; exact nofun)).2.2
  exact absurd (hhex 32 (by decide)) (by decide)

-- The prefix `0x` is read as the byte zero.
example : hcsHexDecode (ascii "0x1f") 2 = some [0, 31] := by decide +kernel

end MmHashChainSigs.Common
