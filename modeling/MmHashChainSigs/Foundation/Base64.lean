import MmHashChainSigs.Foundation.Text

/-!
# Padded base64

Three bytes become four symbols of the standard alphabet; a last group of one
or two bytes is completed with `=`.  The block decoder reads `=` as the value
zero and returns three bytes for every four symbols, so removing the padding
bytes is left to its caller.
-/

namespace MmHashChainSigs.Foundation.Base64

open MmHashChainSigs.Foundation

def padByte : UInt8 := 61

def digit (n : Nat) : UInt8 :=
  if n < 26 then UInt8.ofNat (65 + n)
  else if n < 52 then UInt8.ofNat (71 + n)
  else if n < 62 then UInt8.ofNat (n - 4)
  else if n = 62 then 43
  else 47

def value (c : UInt8) : Option Nat :=
  if 65 ≤ c ∧ c ≤ 90 then some (c.toNat - 65)
  else if 97 ≤ c ∧ c ≤ 122 then some (c.toNat - 71)
  else if 48 ≤ c ∧ c ≤ 57 then some (c.toNat + 4)
  else if c = 43 then some 62
  else if c = 47 then some 63
  else if c = padByte then some 0
  else none

theorem value_digit {n : Nat} (h : n < 64) : value (digit n) = some n := by
  interval_cases n <;> rfl

@[simp] theorem value_padByte : value padByte = some 0 := rfl

theorem digit_ne_padByte {n : Nat} (h : n < 64) : digit n ≠ padByte := by
  interval_cases n <;> decide

def encode : Bytes → Bytes
  | a :: b :: c :: rest =>
      digit (a.toNat / 4) ::
      digit (a.toNat % 4 * 16 + b.toNat / 16) ::
      digit (b.toNat % 16 * 4 + c.toNat / 64) ::
      digit (c.toNat % 64) :: encode rest
  | [a, b] =>
      [digit (a.toNat / 4), digit (a.toNat % 4 * 16 + b.toNat / 16),
       digit (b.toNat % 16 * 4), padByte]
  | [a] =>
      [digit (a.toNat / 4), digit (a.toNat % 4 * 16), padByte, padByte]
  | [] => []

def decodeBlock : Bytes → Option Bytes
  | [] => some []
  | a :: b :: c :: d :: rest => do
      let a ← value a
      let b ← value b
      let c ← value c
      let d ← value d
      let tail ← decodeBlock rest
      some (UInt8.ofNat (a * 4 + b / 16) ::
        UInt8.ofNat (b % 16 * 16 + c / 4) ::
        UInt8.ofNat (c % 4 * 64 + d) :: tail)
  | _ => none

def padLength (n : Nat) : Nat := (3 - n % 3) % 3

theorem padLength_add_three (n : Nat) : padLength (n + 3) = padLength n := by
  rw [padLength, padLength, Nat.add_mod_right]

private theorem eq_ofNat {b : UInt8} {n : Nat} (h : n = b.toNat) :
    UInt8.ofNat n = b := by
  rw [h]
  simp

theorem decodeBlock_encode (bytes : Bytes) :
    decodeBlock (encode bytes) =
      some (bytes ++ List.replicate (padLength bytes.length) 0) := by
  induction bytes using encode.induct with
  | case1 a b c rest ih =>
      have ha := a.toNat_lt
      have hb := b.toNat_lt
      have hc := c.toNat_lt
      have hpad : padLength (a :: b :: c :: rest).length =
          padLength rest.length := padLength_add_three _
      simp only [encode, decodeBlock, ih, hpad,
        value_digit (show a.toNat / 4 < 64 by omega),
        value_digit (show a.toNat % 4 * 16 + b.toNat / 16 < 64 by omega),
        value_digit (show b.toNat % 16 * 4 + c.toNat / 64 < 64 by omega),
        value_digit (show c.toNat % 64 < 64 by omega),
        Option.bind_eq_bind, Option.bind_some, List.cons_append]
      rw [eq_ofNat (b := a) (by omega), eq_ofNat (b := b) (by omega),
        eq_ofNat (b := c) (by omega)]
  | case2 a b =>
      have ha := a.toNat_lt
      have hb := b.toNat_lt
      simp only [encode, decodeBlock, value_padByte,
        value_digit (show a.toNat / 4 < 64 by omega),
        value_digit (show a.toNat % 4 * 16 + b.toNat / 16 < 64 by omega),
        value_digit (show b.toNat % 16 * 4 < 64 by omega),
        Option.bind_eq_bind, Option.bind_some]
      rw [eq_ofNat (b := a) (by omega), eq_ofNat (b := b) (by omega),
        eq_ofNat (b := 0) (by simp)]
      rfl
  | case3 a =>
      have ha := a.toNat_lt
      simp only [encode, decodeBlock, value_padByte,
        value_digit (show a.toNat / 4 < 64 by omega),
        value_digit (show a.toNat % 4 * 16 < 64 by omega),
        Option.bind_eq_bind, Option.bind_some]
      rw [eq_ofNat (b := a) (by omega), eq_ofNat (b := 0) (by simp)]
      rfl
  | case4 => rfl

theorem decodeBlock_length {text out : Bytes}
    (h : decodeBlock text = some out) :
    text.length % 4 = 0 ∧ out.length = 3 * (text.length / 4) := by
  induction text using decodeBlock.induct generalizing out with
  | case1 =>
      cases h
      simp
  | case2 a b c d rest ih =>
      simp only [decodeBlock, Option.bind_eq_bind, Option.bind_eq_some_iff,
        Option.some.injEq] at h
      obtain ⟨-, -, -, -, -, -, -, -, tail, htail, rfl⟩ := h
      obtain ⟨hmod, hlen⟩ := ih htail
      simp only [List.length_cons, hlen]
      omega
  | case3 text hnil hcons =>
      rw [decodeBlock] at h
      · cases h
      · exact hnil
      · exact hcons

@[simp] theorem encode_length (bytes : Bytes) :
    (encode bytes).length = 4 * ((bytes.length + 2) / 3) := by
  induction bytes using encode.induct with
  | case1 a b c rest ih =>
      simp only [encode, List.length_cons, ih]
      omega
  | case2 a b => simp [encode]
  | case3 a => simp [encode]
  | case4 => simp [encode]

theorem mem_encode {bytes : Bytes} {c : UInt8} (h : c ∈ encode bytes) :
    c = padByte ∨ ∃ n < 64, c = digit n := by
  induction bytes using encode.induct with
  | case1 x y z rest ih =>
      have hx := x.toNat_lt
      have hy := y.toNat_lt
      have hz := z.toNat_lt
      simp only [encode, List.mem_cons] at h
      rcases h with rfl | rfl | rfl | rfl | h
      · exact .inr ⟨_, by omega, rfl⟩
      · exact .inr ⟨_, by omega, rfl⟩
      · exact .inr ⟨_, by omega, rfl⟩
      · exact .inr ⟨_, by omega, rfl⟩
      · exact ih h
  | case2 x y =>
      have hx := x.toNat_lt
      have hy := y.toNat_lt
      simp only [encode, List.mem_cons, List.not_mem_nil, or_false] at h
      rcases h with rfl | rfl | rfl | rfl
      · exact .inr ⟨_, by omega, rfl⟩
      · exact .inr ⟨_, by omega, rfl⟩
      · exact .inr ⟨_, by omega, rfl⟩
      · exact .inl rfl
  | case3 x =>
      have hx := x.toNat_lt
      simp only [encode, List.mem_cons, List.not_mem_nil, or_false] at h
      rcases h with rfl | rfl | rfl | rfl
      · exact .inr ⟨_, by omega, rfl⟩
      · exact .inr ⟨_, by omega, rfl⟩
      · exact .inl rfl
      · exact .inl rfl
  | case4 => simp [encode] at h

/-! ## Counting the padding symbols -/

def trailingPad (text : Bytes) : Nat :=
  (if text.getLast? = some padByte then 1 else 0) +
    (if text.dropLast.getLast? = some padByte then 1 else 0)

private theorem trailingPad_append (first second : Bytes)
    (h : 2 ≤ second.length) :
    trailingPad (first ++ second) = trailingPad second := by
  have hne : second ≠ [] := by
    rintro rfl
    simp at h
  have hne' : second.dropLast ≠ [] := by
    rw [← List.length_pos_iff, List.length_dropLast]
    omega
  simp only [trailingPad, List.getLast?_append_of_ne_nil _ hne,
    List.dropLast_append_of_ne_nil hne,
    List.getLast?_append_of_ne_nil _ hne']

theorem trailingPad_encode (bytes : Bytes) :
    trailingPad (encode bytes) = padLength bytes.length := by
  induction bytes using encode.induct with
  | case1 a b c rest ih =>
      have hb := b.toNat_lt
      have hc := c.toNat_lt
      have hpad : padLength (a :: b :: c :: rest).length =
          padLength rest.length := padLength_add_three _
      rw [hpad]
      cases rest with
      | nil =>
          have hthird : digit (b.toNat % 16 * 4 + c.toNat / 64) ≠ padByte :=
            digit_ne_padByte (by omega)
          have hfourth : digit (c.toNat % 64) ≠ padByte :=
            digit_ne_padByte (by omega)
          simp [encode, trailingPad, hthird, hfourth, padLength]
      | cons d rest =>
          rw [← ih]
          have hlen : 2 ≤ (encode (d :: rest)).length := by
            rw [encode_length, List.length_cons]
            omega
          exact trailingPad_append [_, _, _, _] _ hlen
  | case2 a b =>
      have hb := b.toNat_lt
      have hthird : digit (b.toNat % 16 * 4) ≠ padByte :=
        digit_ne_padByte (by omega)
      simp [encode, trailingPad, hthird, padLength]
  | case3 a => simp [encode, trailingPad, padLength]
  | case4 => rfl

end MmHashChainSigs.Foundation.Base64
