import MmHashChainSigs.Foundation.Text

/-!
# The C library calls on text

`strtoull`, the `scanf` directives and `fgets`, on lists of bytes.  A C string
is the part of a buffer in front of its first NUL byte.
-/

namespace MmHashChainSigs.Common

open MmHashChainSigs.Foundation

def cString (buffer : Bytes) : Bytes := buffer.takeWhile (· ≠ 0)

theorem cString_append {front : Bytes} (h : 0 ∉ front) (text : Bytes) :
    cString (front ++ text) = front ++ cString text := by
  apply List.takeWhile_append_of_pos
  intro c hc
  rw [decide_eq_true_eq]
  rintro rfl
  exact h hc

theorem cString_of_not_mem {buffer : Bytes} (h : 0 ∉ buffer) :
    cString buffer = buffer := by
  simpa [cString] using cString_append h []

theorem not_mem_cString (buffer : Bytes) : 0 ∉ cString buffer := fun h =>
  absurd (List.mem_takeWhile_imp h) (by decide)

theorem cString_length_lt {buffer : Bytes} (h : 0 ∈ buffer) :
    (cString buffer).length < buffer.length := by
  have hprefix := @List.takeWhile_prefix _ buffer (fun c => decide (c ≠ 0))
  refine Nat.lt_of_le_of_ne hprefix.length_le fun hlen => ?_
  rw [← hprefix.eq_of_length hlen] at h
  exact not_mem_cString buffer h

theorem prefix_cString_iff {front buffer : Bytes} :
    front <+: cString buffer ↔ front <+: buffer ∧ 0 ∉ front := by
  constructor
  · intro h
    exact ⟨h.trans (List.takeWhile_prefix _),
      fun hmem => not_mem_cString buffer (h.subset hmem)⟩
  · rintro ⟨⟨rest, rfl⟩, hfront⟩
    rw [cString_append hfront]
    exact List.prefix_append _ _

/-- Conversion of a `size_t` to `int`. -/
def toInt (n : Nat) : Int := Int.bmod n (2 ^ 32)

/-! ## Numbers -/

def splitSign : Bytes → Bool × Bytes
  | [] => (false, [])
  | c :: text =>
      if c = 45 then (true, text)
      else if c = 43 then (false, text)
      else (false, c :: text)

/--
`strtoull` in base ten: the value and the text from `endptr` on.  Blanks and
one sign are skipped, `-` negates modulo 2^64, and a value of 2^64 or more
becomes `ULLONG_MAX`.  Without a digit nothing is consumed.
-/
def strtoull (text : Bytes) : UInt64 × Bytes :=
  let (negative, number) := splitSign (text.dropWhile isSpace)
  let digits := number.takeWhile isDigit
  if digits = [] then (0, text)
  else
    let n := decimalValue digits
    if 2 ^ 64 ≤ n then (UInt64.ofNat (2 ^ 64 - 1), number.dropWhile isDigit)
    else (if negative then -UInt64.ofNat n else UInt64.ofNat n,
      number.dropWhile isDigit)

private theorem splitSign_of_isDigit {c : UInt8} (h : isDigit c)
    (text : Bytes) : splitSign (c :: text) = (false, c :: text) := by
  have h45 : c ≠ 45 := by
    rintro rfl
    exact absurd h (by decide)
  have h43 : c ≠ 43 := by
    rintro rfl
    exact absurd h (by decide)
  simp [splitSign, h45, h43]

theorem strtoull_decimal {n : Nat} (hn : n < 2 ^ 64) {rest : Bytes}
    (hrest : ∀ c ∈ rest.head?, isDigit c = false) :
    strtoull (decimal n ++ rest) = (UInt64.ofNat n, rest) := by
  obtain ⟨c, digits, hdigits⟩ := List.exists_cons_of_ne_nil (decimal_ne_nil n)
  have hall : ∀ d ∈ decimal n, isDigit d := fun d => decimal_isDigit
  have hc : isDigit c := hall c (by simp [hdigits])
  have hspace : (decimal n ++ rest).dropWhile isSpace = decimal n ++ rest := by
    rw [hdigits, List.cons_append,
      List.dropWhile_cons_of_neg (by simp [not_isSpace_of_isDigit hc])]
  have hsign : splitSign (decimal n ++ rest) = (false, decimal n ++ rest) := by
    rw [hdigits, List.cons_append, splitSign_of_isDigit hc]
  have hhead : rest.takeWhile isDigit = [] ∧ rest.dropWhile isDigit = rest := by
    cases rest with
    | nil => simp
    | cons d rest => simp [hrest d (by simp)]
  have htake : (decimal n ++ rest).takeWhile isDigit = decimal n := by
    rw [List.takeWhile_append_of_pos hall, hhead.1, List.append_nil]
  have hdrop : (decimal n ++ rest).dropWhile isDigit = rest := by
    rw [List.dropWhile_append_of_pos hall, hhead.2]
  simp only [strtoull, hspace, hsign, htake, hdrop, decimal_ne_nil,
    decimalValue_decimal, if_false, if_neg (Nat.not_le.mpr hn)]
  rfl

/-! ## Directives of `scanf` -/

def scanLu (text : Bytes) : Option UInt64 :=
  let (n, rest) := strtoull text
  if rest = text then none else some n

def scanS (width : Nat) (text : Bytes) : Option Bytes :=
  let word := ((text.dropWhile isSpace).takeWhile (! isSpace ·)).take width
  if word = [] then none else some word

def scanLiteral (literal text : Bytes) : Option Bytes :=
  if literal <+: text then some (text.drop literal.length) else none

/--
`%2x`, stored in a byte.  The directive skips blanks, accepts a sign, and
converts as few as one digit; the zero of `0x` is such a digit, since the
width ends behind the `x`.
-/
def scanHexByte (text : Bytes) : Option UInt8 :=
  match text.dropWhile isSpace with
  | [] => none
  | c :: rest =>
      if c = 45 then (rest.head?.bind hexValue).map fun n => -UInt8.ofNat n
      else if c = 43 then (rest.head?.bind hexValue).map UInt8.ofNat
      else do
        let high ← hexValue c
        match rest.head?.bind hexValue with
        | some low => some (UInt8.ofNat (16 * high + low))
        | none => some (UInt8.ofNat high)

theorem scanHexByte_hexByte (b : UInt8) (rest : Bytes) :
    scanHexByte (hexByte b ++ rest) = some b := by
  have hb := b.toNat_lt
  have hhigh : b.toNat / 16 < 16 := by omega
  have hlow : b.toNat % 16 < 16 := by omega
  have h45 : hexDigit (b.toNat / 16) ≠ 45 := by
    intro h
    have := hexValue_hexDigit hhigh
    rw [h] at this
    exact absurd this (by simp [hexValue])
  have h43 : hexDigit (b.toNat / 16) ≠ 43 := by
    intro h
    have := hexValue_hexDigit hhigh
    rw [h] at this
    exact absurd this (by simp [hexValue])
  simp only [scanHexByte, hexByte, List.cons_append, List.nil_append]
  rw [List.dropWhile_cons_of_neg (by simp [not_isSpace_hexDigit hhigh])]
  simp only [h45, h43, if_false, hexValue_hexDigit hhigh,
    List.head?_cons, hexValue_hexDigit hlow, byte_eq_of_nibbles,
    Option.bind_eq_bind, Option.bind_some]

/-! ## Reading lines -/

private def fgetsFrom (limit : Nat) (current : Bytes) : Bytes → List Bytes
  | [] => if current = [] then [] else [current]
  | c :: file =>
      if c = 10 ∨ current.length + 1 = limit then
        (current ++ [c]) :: fgetsFrom limit [] file
      else fgetsFrom limit (current ++ [c]) file

/-- The C strings that repeated `fgets` calls leave in a buffer of `size`. -/
def fgetsLines (size : Nat) (file : Bytes) : List Bytes :=
  (fgetsFrom (size - 1) [] file).map cString

private theorem fgetsFrom_line {limit : Nat} (current text : Bytes)
    (htext : 10 ∉ text) (hlen : current.length + text.length < limit)
    (file : Bytes) :
    fgetsFrom limit current (text ++ 10 :: file) =
      (current ++ text ++ [10]) :: fgetsFrom limit [] file := by
  induction text generalizing current with
  | nil => simp [fgetsFrom]
  | cons c text ih =>
      simp only [List.mem_cons, not_or] at htext
      simp only [List.length_cons] at hlen
      rw [List.cons_append, fgetsFrom, if_neg (by
        rintro (h | h)
        · exact htext.1 h.symm
        · omega)]
      rw [ih (current ++ [c]) htext.2 (by simp; omega)]
      simp

private def fgetsCallsFrom (limit : Nat) (current start : Bytes) :
    Bytes → List (Bytes × Bytes)
  | [] => if current = [] then [] else [(current, start)]
  | c :: file =>
      if c = 10 ∨ current.length + 1 = limit then
        (current ++ [c], start) :: fgetsCallsFrom limit [] file file
      else fgetsCallsFrom limit (current ++ [c]) start file

def fgetsCalls (size : Nat) (file : Bytes) : List (Bytes × Bytes) :=
  (fgetsCallsFrom (size - 1) [] file file).map fun call =>
    (cString call.1, call.2)

theorem fgetsCalls_fst (size : Nat) (file : Bytes) :
    (fgetsCalls size file).map Prod.fst = fgetsLines size file := by
  have hlines : ∀ current start file,
      (fgetsCallsFrom (size - 1) current start file).map Prod.fst =
        fgetsFrom (size - 1) current file := by
    intro current start file
    induction file generalizing current start with
    | nil =>
        unfold fgetsCallsFrom fgetsFrom
        split_ifs <;> rfl
    | cons c file ih =>
        unfold fgetsCallsFrom fgetsFrom
        split_ifs
        · rw [List.map_cons, ih]
        · exact ih _ _
  rw [fgetsLines, ← hlines [] file file, fgetsCalls, List.map_map,
    List.map_map]
  rfl

theorem fgetsLines_line {size : Nat} {text : Bytes} (htext : 10 ∉ text)
    (hnul : 0 ∉ text) (hlen : text.length + 1 < size) (file : Bytes) :
    fgetsLines size (text ++ 10 :: file) =
      (text ++ [10]) :: fgetsLines size file := by
  rw [fgetsLines, fgetsFrom_line [] text htext (by simp; omega),
    List.map_cons]
  congr 1
  rw [List.nil_append, cString, List.takeWhile_append_of_pos]
  · rfl
  · intro c hc
    simp only [decide_eq_true_eq]
    rintro rfl
    exact hnul hc

end MmHashChainSigs.Common
