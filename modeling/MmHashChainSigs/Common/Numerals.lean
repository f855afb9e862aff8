import MmHashChainSigs.Common.RoundTrip

/-!
# Reading sequence numbers

`sd_extract_uint64` leaves the text of `q`, `qf` and `qt` to `strtoull` and
tests its length and where the conversion stopped.  Blanks, a sign, a NUL byte
and values out of range pass that test, and the result for `qf` and `qt` is
not looked at.
-/

namespace MmHashChainSigs.Common

open MmHashChainSigs.Foundation

variable {ossl : OpenSSL}

/-! ## The three fields -/

inductive NumberField where
  | seq
  | seqFrom
  | seqTo
  deriving DecidableEq, Repr

def NumberField.key : NumberField → String
  | .seq => "q"
  | .seqFrom => "qf"
  | .seqTo => "qt"

def NumberField.get : NumberField → HcsSdRecord → UInt64
  | .seq => HcsSdRecord.seq
  | .seqFrom => HcsSdRecord.seqFrom
  | .seqTo => HcsSdRecord.seqTo

def IsNumeral (v : Bytes) (n : UInt64) : Prop :=
  v ≠ [] ∧ (∀ c ∈ v, isDigit c) ∧ decimalValue v = n.toNat

/-- Up to its first NUL the text is empty, or blanks, a sign and digits. -/
def Converts (v : Bytes) : Prop :=
  cString v = [] ∨
    let number := (splitSign ((cString v).dropWhile isSpace)).2
    number ≠ [] ∧ ∀ c ∈ number, isDigit c

/-! ## One conversion -/

def convertUint64 (v : Bytes) : Bool × UInt64 :=
  if v.length = 0 ∨ 20 < v.length then (false, 0)
  else ((strtoull (cString v)).2 = [], (strtoull (cString v)).1)

theorem sdExtractUint64_of_some {body v : Bytes} {key : String}
    (h : sdGetParam body key = some v) :
    sdExtractUint64 body key 0 = convertUint64 v := by
  unfold sdExtractUint64 convertUint64
  rw [h]

theorem dropWhile_isDigit_eq_nil {text : Bytes} :
    text.dropWhile isDigit = [] ↔ ∀ c ∈ text, isDigit c := by
  rw [List.dropWhile_eq_nil_iff]

theorem takeWhile_isDigit_eq_nil {c : UInt8} {text : Bytes}
    (h : (c :: text).takeWhile isDigit = []) : isDigit c = false := by
  rw [List.takeWhile_cons] at h
  split_ifs at h with hc
  exact Bool.eq_false_iff.mpr hc

theorem strtoull_rest_iff (v : Bytes) :
    (strtoull (cString v)).2 = [] ↔ Converts v := by
  unfold Converts strtoull
  generalize hnumber : splitSign ((cString v).dropWhile isSpace) = number
  obtain ⟨negative, number⟩ := number
  simp only
  by_cases hdigits : number.takeWhile isDigit = []
  · -- Nothing is converted, and the rest is the whole text.
    rw [if_pos hdigits]
    constructor
    · exact Or.inl
    · rintro (hnil | ⟨hne, hall⟩)
      · exact hnil
      · obtain ⟨c, rest, rfl⟩ := List.exists_cons_of_ne_nil hne
        have hc := takeWhile_isDigit_eq_nil hdigits
        rw [hall c (by simp)] at hc
        cases hc
  · rw [if_neg hdigits]
    have hne : number ≠ [] := by
      rintro rfl
      exact hdigits rfl
    have hcstring : cString v ≠ [] := by
      intro hnil
      rw [hnil] at hnumber
      cases hnumber
      exact hne rfl
    have hrest : number.dropWhile isDigit = [] ↔
        cString v = [] ∨ number ≠ [] ∧ ∀ c ∈ number, isDigit c := by
      rw [dropWhile_isDigit_eq_nil]
      simp [hcstring, hne]
    split_ifs <;> exact hrest

theorem convertUint64_fst_iff (v : Bytes) :
    (convertUint64 v).1 = true ↔
      v ≠ [] ∧ v.length ≤ 20 ∧ Converts v := by
  unfold convertUint64
  rw [← strtoull_rest_iff, ← List.length_pos_iff]
  split_ifs with hlen
  · simp only [false_iff, not_and]
    omega
  · simp only [decide_eq_true_eq]
    constructor
    · exact fun h => ⟨by omega, by omega, h⟩
    · exact fun h => h.2.2

theorem isDigit_ne {c : UInt8} (h : isDigit c) : c ≠ 0 ∧ c ≠ 45 ∧ c ≠ 43 := by
  refine ⟨?_, ?_, ?_⟩ <;>
    · rintro rfl
      exact absurd h (by decide)

theorem cString_digits {v : Bytes} (h : ∀ c ∈ v, isDigit c) :
    cString v = v := by
  unfold cString
  rw [List.takeWhile_eq_self_iff]
  intro c hc
  simpa using (isDigit_ne (h c hc)).1

theorem strtoull_digits {v : Bytes} (hne : v ≠ [])
    (h : ∀ c ∈ v, isDigit c) (hlt : decimalValue v < 2 ^ 64) :
    strtoull v = (UInt64.ofNat (decimalValue v), []) := by
  obtain ⟨c, rest, rfl⟩ := List.exists_cons_of_ne_nil hne
  have hc : isDigit c := h c (by simp)
  have hspace : (c :: rest).dropWhile isSpace = c :: rest :=
    List.dropWhile_cons_of_neg (by simp [not_isSpace_of_isDigit hc])
  have hsign : splitSign (c :: rest) = (false, c :: rest) := by
    simp [splitSign, (isDigit_ne hc).2]
  have htake : (c :: rest).takeWhile isDigit = c :: rest :=
    List.takeWhile_eq_self_iff.mpr h
  have hdrop : (c :: rest).dropWhile isDigit = [] :=
    dropWhile_isDigit_eq_nil.mpr h
  simp only [strtoull, hspace, hsign, htake, hdrop, reduceCtorEq, if_false,
    if_neg (Nat.not_le.mpr hlt), Bool.false_eq_true]

theorem IsNumeral.convert {v : Bytes} {n : UInt64} (h : IsNumeral v n)
    (hlen : v.length ≤ 20) : convertUint64 v = (true, n) := by
  obtain ⟨hne, hdigits, hvalue⟩ := h
  have hlt : decimalValue v < 2 ^ 64 := by
    rw [hvalue]
    exact n.toNat_lt
  have hpos := List.length_pos_iff.mpr hne
  unfold convertUint64
  rw [if_neg (by omega), cString_digits hdigits,
    strtoull_digits hne hdigits hlt, hvalue, UInt64.ofNat_toNat]
  rfl

theorem convertUint64_long {v : Bytes} (h : 20 < v.length) :
    convertUint64 v = (false, 0) := if_pos (.inr h)

/-! ## The record -/

def SignatureDecodes (ossl : OpenSSL) (body : Bytes) : Prop :=
  ∀ s ∈ sdGetParam body "s",
    s.length < Limits.hcsB64SigLen + 4 ∧ hcsB64Decode ossl s ≠ none

theorem sdParseBody_ne_none_iff (body : Bytes) :
    sdParseBody ossl body ≠ none ↔ (sdExtractUint64 body "q" 0).1 = true ∧
      sdExtractChainHash body ≠ none ∧ SignatureDecodes ossl body := by
  unfold sdParseBody SignatureDecodes
  cases hq : sdExtractUint64 body "q" 0 with
  | mk found seq =>
    cases found with
    | false => simp
    | true =>
      cases hhash : sdExtractChainHash body with
      | none => simp
      | some hash =>
        cases hs : sdGetParam body "s" with
        | none => simp
        | some s =>
          by_cases hlen : Limits.hcsB64SigLen + 4 ≤ s.length
          · simp [if_pos hlen, Nat.not_lt.mpr hlen]
          · simp only [Nat.not_le] at hlen
            cases hdecode : hcsB64Decode ossl s <;>
              simp [hlen, Nat.not_le.mpr hlen, hdecode]

theorem sdParseBody_get {body : Bytes} {record : HcsSdRecord}
    (h : sdParseBody ossl body = some record) (field : NumberField) :
    field.get record = (sdExtractUint64 body field.key 0).2 := by
  revert h
  unfold sdParseBody
  cases hq : sdExtractUint64 body "q" 0 with
  | mk found seq =>
    cases found with
    | false => simp
    | true =>
      cases sdExtractChainHash body with
      | none => simp
      | some hash =>
        cases sdGetParam body "s" with
        | none =>
            intro h
            simp only [not_true_eq_false, if_false, Option.bind_eq_bind,
              Option.bind_some, Option.some.injEq] at h
            cases h
            cases field <;> simp [NumberField.get, NumberField.key, hq]
        | some s =>
            intro h
            simp only [not_true_eq_false, if_false, Option.bind_eq_bind,
              Option.bind_some] at h
            split_ifs at h
            obtain ⟨⟨written, len⟩, -, hrecord⟩ :=
              Option.bind_eq_some_iff.mp h
            cases hrecord
            cases field <;> simp [NumberField.get, NumberField.key, hq]

def recordText (body : Bytes) : Bytes :=
  sdPrefix hcsSdId ++ (body ++ [bracketByte])

/-- Nothing but the text of the field may have the record rejected. -/
def SoundBeside (ossl : OpenSSL) (body : Bytes) (field : NumberField) : Prop :=
  sdExtractChainHash body ≠ none ∧ SignatureDecodes ossl body ∧
    (field ≠ .seq → (sdExtractUint64 body "q" 0).1 = true)

/--
The number a text spells is stored, and a text that spells none has the
record rejected.
-/
structure ReadsNumeral (ossl : OpenSSL) (body : Bytes) (field : NumberField)
    (v : Bytes) : Prop where
  stores : ∀ n, IsNumeral v n → SoundBeside ossl body field →
    ∃ record, hcsParseSd ossl (recordText body) = some record ∧
      field.get record = n
  only : ∀ record, hcsParseSd ossl (recordText body) = some record →
    IsNumeral v (field.get record)

/--
The text of `q` is a numeral of at most 20 digits, or no numeral and too long,
empty or not convertible to its end; the text of `qf` and `qt` is a numeral,
of more than 20 digits only if these are zeros.
-/
def NumeralOrRefused (v : Bytes) : NumberField → Prop
  | .seq => (∃ n, IsNumeral v n ∧ v.length ≤ 20) ∨
      (∀ n, ¬ IsNumeral v n) ∧ (v = [] ∨ 20 < v.length ∨ ¬ Converts v)
  | _ => ∃ n, IsNumeral v n ∧ (v.length ≤ 20 ∨ n = 0)

theorem IsNumeral.unique {v : Bytes} {n n' : UInt64} (h : IsNumeral v n)
    (h' : IsNumeral v n') : n = n' := by
  rw [← UInt64.toNat_inj, ← h.2.2, h'.2.2]

theorem accepted_iff {body v : Bytes} {field : NumberField}
    (h : sdGetParam body field.key = some v) :
    hcsParseSd ossl (recordText body) ≠ none ↔ SoundBeside ossl body field ∧
      (field = .seq → (convertUint64 v).1 = true) := by
  unfold recordText SoundBeside
  rw [hcsParseSd_body, sdParseBody_ne_none_iff]
  cases field with
  | seq =>
      rw [← sdExtractUint64_of_some h]
      simp [NumberField.key, and_comm]
  | seqFrom | seqTo =>
      simp only [ne_eq, reduceCtorEq, not_false_eq_true, true_implies,
        false_implies, and_true]
      tauto

theorem accepted_get {body v : Bytes} {field : NumberField}
    (h : sdGetParam body field.key = some v) {record : HcsSdRecord}
    (hrecord : hcsParseSd ossl (recordText body) = some record) :
    field.get record = (convertUint64 v).2 := by
  unfold recordText at hrecord
  rw [hcsParseSd_body] at hrecord
  rw [sdParseBody_get hrecord, sdExtractUint64_of_some h]

theorem readsNumeral_iff_convert {body v : Bytes} {field : NumberField}
    (h : sdGetParam body field.key = some v) :
    ReadsNumeral ossl body field v ↔ (SoundBeside ossl body field →
      ((∃ n, IsNumeral v n) ∨ (field = .seq ∧ (convertUint64 v).1 = false)) ∧
      ∀ n, IsNumeral v n → (field = .seq → (convertUint64 v).1 = true) ∧
        (convertUint64 v).2 = n) := by
  constructor
  · intro hreads hsound
    constructor
    · by_cases hrefused : field = .seq ∧ (convertUint64 v).1 = false
      · exact .inr hrefused
      · have haccepted : hcsParseSd ossl (recordText body) ≠ none := by
          rw [accepted_iff h]
          refine ⟨hsound, ?_⟩
          intro hseq
          simpa [hseq] using hrefused
        obtain ⟨record, hrecord⟩ := Option.ne_none_iff_exists'.mp haccepted
        exact .inl ⟨_, hreads.only record hrecord⟩
    · intro n hn
      obtain ⟨record, hrecord, hget⟩ := hreads.stores n hn hsound
      refine ⟨?_, by rw [← accepted_get h hrecord, hget]⟩
      exact ((accepted_iff h).mp (by rw [hrecord]; exact nofun)).2
  · intro hconvert
    constructor
    · intro n hn hsound
      obtain ⟨hfound, hvalue⟩ := (hconvert hsound).2 n hn
      obtain ⟨record, hrecord⟩ := Option.ne_none_iff_exists'.mp
        ((@accepted_iff ossl _ _ _ h).mpr ⟨hsound, hfound⟩)
      exact ⟨record, hrecord, by rw [accepted_get h hrecord, hvalue]⟩
    · intro record hrecord
      obtain ⟨hsound, hfound⟩ :=
        (accepted_iff h).mp (by rw [hrecord]; exact nofun)
      obtain ⟨hnumeral | ⟨hseq, hrefused⟩, hvalue⟩ := hconvert hsound
      · obtain ⟨n, hn⟩ := hnumeral
        rw [accepted_get h hrecord, (hvalue n hn).2]
        exact hn
      · rw [hfound hseq] at hrefused
        cases hrefused

theorem numeralOrRefused_iff (v : Bytes) (field : NumberField) :
    NumeralOrRefused v field ↔
      ((∃ n, IsNumeral v n) ∨ (field = .seq ∧ (convertUint64 v).1 = false)) ∧
      ∀ n, IsNumeral v n → (field = .seq → (convertUint64 v).1 = true) ∧
        (convertUint64 v).2 = n := by
  have hrefused : (convertUint64 v).1 = false ↔
      v = [] ∨ 20 < v.length ∨ ¬ Converts v := by
    rw [← Bool.not_eq_true, convertUint64_fst_iff, not_and_or, not_and_or,
      not_not, Nat.not_le]
  have hsmall : ∀ n, IsNumeral v n → v.length ≤ 20 →
      convertUint64 v = (true, n) := fun n hn hlen => hn.convert hlen
  cases field with
  | seq =>
      simp only [NumeralOrRefused, ← hrefused, true_and, forall_const]
      constructor
      · rintro (⟨n, hn, hlen⟩ | ⟨hnone, hfalse⟩)
        · refine ⟨.inl ⟨n, hn⟩, ?_⟩
          intro n' hn'
          rw [hsmall n' hn' hlen]
          exact ⟨rfl, rfl⟩
        · exact ⟨.inr hfalse, fun n hn => absurd hn (hnone n)⟩
      · rintro ⟨hfirst, hvalue⟩
        by_cases hnumeral : ∃ n, IsNumeral v n
        · obtain ⟨n, hn⟩ := hnumeral
          left
          refine ⟨n, hn, ?_⟩
          by_contra hlong
          have hfound := (hvalue n hn).1
          rw [convertUint64_long (Nat.lt_of_not_le hlong)] at hfound
          cases hfound
        · right
          exact ⟨not_exists.mp hnumeral, hfirst.resolve_left hnumeral⟩
  | seqFrom | seqTo =>
      simp only [NumeralOrRefused, reduceCtorEq, false_and, or_false,
        false_implies, true_and]
      constructor
      · rintro ⟨n, hn, hlen⟩
        refine ⟨⟨n, hn⟩, ?_⟩
        intro n' hn'
        rw [hn.unique hn'] at hlen
        by_cases hshort : v.length ≤ 20
        · rw [hsmall n' hn' hshort]
        · rw [convertUint64_long (Nat.lt_of_not_le hshort),
            hlen.resolve_left hshort]
      · rintro ⟨⟨n, hn⟩, hvalue⟩
        refine ⟨n, hn, ?_⟩
        by_cases hshort : v.length ≤ 20
        · exact .inl hshort
        · right
          rw [← hvalue n hn, convertUint64_long (Nat.lt_of_not_le hshort)]

/--
`hcs_parse_sd` reads the number as it should exactly when the text of the
field is a numeral or refused, or something else has the record rejected.
-/
theorem readsNumeral_iff (ossl : OpenSSL) (body : Bytes) (field : NumberField)
    (v : Bytes) (h : sdGetParam body field.key = some v) :
    ReadsNumeral ossl body field v ↔
      (SoundBeside ossl body field → NumeralOrRefused v field) := by
  rw [readsNumeral_iff_convert h, numeralOrRefused_iff]

def bodyWithSeq (q : String) : Bytes :=
  ascii "q=\"" ++ ascii q ++ ascii "\" h=\"" ++ List.replicate 64 48 ++
    ascii "\""

theorem readsNumeral_iff_sample :
    ReadsNumeral sampleOpenSSL (bodyWithSeq "12") .seq (ascii "12") := by
  rw [readsNumeral_iff sampleOpenSSL (bodyWithSeq "12") .seq (ascii "12")
    (by decide +kernel)]
  intro _
  left
  exact ⟨12, ⟨by decide, by decide +kernel, by decide⟩, by decide⟩

theorem negative_seq_accepted :
    sdGetParam (bodyWithSeq "-1") "q" = some (ascii "-1") ∧
      ((hcsParseSd sampleOpenSSL (recordText (bodyWithSeq "-1"))).map
        HcsSdRecord.seq) = some (UInt64.ofNat (2 ^ 64 - 1)) ∧
      ¬ ReadsNumeral sampleOpenSSL (bodyWithSeq "-1") .seq (ascii "-1") := by
  have hseq : (hcsParseSd sampleOpenSSL (recordText (bodyWithSeq "-1"))).map
      HcsSdRecord.seq = some (UInt64.ofNat (2 ^ 64 - 1)) := by
    decide +kernel
  refine ⟨by decide +kernel, hseq, ?_⟩
  intro h
  obtain ⟨record, hrecord, -⟩ := Option.map_eq_some_iff.mp hseq
  exact absurd ((h.only record hrecord).2.1 45 (by decide)) (by decide)

end MmHashChainSigs.Common
