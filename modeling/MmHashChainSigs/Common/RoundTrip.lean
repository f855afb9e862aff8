import Mathlib
import MmHashChainSigs.Common.Format

/-!
# Decoding undoes encoding

Every element the format functions write is a list of parameters whose values
are digits, hexadecimal text or base64.  Such a text is searched and scanned
parameter by parameter, which gives the round trip of the four record shapes
next to arbitrary surrounding text.
-/

namespace MmHashChainSigs.Common

open MmHashChainSigs.Foundation

/-! ## Plain parameters -/

/-- No byte of the text ends a value, an element or a parameter. -/
def Plain (text : Bytes) : Prop :=
  ∀ c ∈ text, c ≠ quoteByte ∧ c ≠ backslashByte ∧ c ≠ bracketByte ∧ c ≠ 32

def PlainName (name : Bytes) : Prop := Plain name ∧ 61 ∉ name

instance (text : Bytes) : Decidable (Plain text) :=
  decidable_of_iff (text.all fun c => decide
    (c ≠ quoteByte ∧ c ≠ backslashByte ∧ c ≠ bracketByte ∧ c ≠ 32))
    (by simp only [List.all_eq_true, decide_eq_true_eq, Plain])

instance (name : Bytes) : Decidable (PlainName name) :=
  inferInstanceAs (Decidable (_ ∧ _))

theorem Plain.of_cons {c : UInt8} {text : Bytes} (h : Plain (c :: text)) :
    Plain text := fun d hd => h d (by simp [hd])

theorem plain_decimal (n : Nat) : Plain (decimal n) := by
  intro c hc
  have hdigit := decimal_isDigit hc
  refine ⟨?_, ?_, ?_, ?_⟩ <;>
    · rintro rfl
      exact absurd hdigit (by decide)

theorem plain_hexText (bytes : Bytes) : Plain (hexText bytes) := by
  intro c hc
  obtain ⟨n, hn, rfl⟩ := mem_hexText hc
  interval_cases n <;> decide

theorem plain_encode (bytes : Bytes) : Plain (Base64.encode bytes) := by
  intro c hc
  rcases Base64.mem_encode hc with rfl | ⟨n, hn, rfl⟩
  · decide
  · interval_cases n <;> decide

def sdParam (name value : Bytes) : Bytes :=
  name ++ ascii "=\"" ++ value ++ [quoteByte]

def sdParams : List (Bytes × Bytes) → Bytes
  | [] => []
  | [param] => sdParam param.1 param.2
  | param :: params => sdParam param.1 param.2 ++ 32 :: sdParams params

/-! ## Searching parameters -/

theorem sdParamValue_plain {value : Bytes} (h : Plain value) (rest : Bytes) :
    sdParamValue (value ++ quoteByte :: rest) = some (value, rest) := by
  induction value with
  | nil => simp
  | cons c value ih =>
      obtain ⟨hquote, hback, -, -⟩ := h c (by simp)
      rw [List.cons_append, sdParamValue_cons hquote hback, ih h.of_cons]
      rfl

theorem name_eq_of_start {key name tail tail' : Bytes}
    (hkey : 61 ∉ key) (hname : 61 ∉ name)
    (h : key ++ 61 :: tail <+: name ++ 61 :: tail') : key = name := by
  induction key generalizing name with
  | nil =>
      cases name with
      | nil => rfl
      | cons c name =>
          have := (List.cons_prefix_cons.mp h).1
          simp [← this] at hname
  | cons c key ih =>
      cases name with
      | nil =>
          have := (List.cons_prefix_cons.mp h).1
          simp [this] at hkey
      | cons d name =>
          simp only [List.mem_cons, not_or] at hkey hname
          obtain ⟨rfl, htail⟩ := List.cons_prefix_cons.mp h
          rw [ih hkey.2 hname.2 htail]

theorem sdGetParamFrom_skip (key : Bytes) {text : Bytes}
    (h : ∀ c ∈ text, c ≠ 32) (rest : Bytes) :
    sdGetParamFrom key false (text ++ rest) =
      sdGetParamFrom key false rest := by
  induction text with
  | nil => rfl
  | cons c text ih =>
      have hc : c ≠ 32 := h c (by simp)
      simp only [List.cons_append, sdGetParamFrom, Bool.false_eq_true,
        false_and, if_false, hc, decide_false]
      exact ih fun d hd => h d (by simp [hd])

private theorem sdParam_ne_blank {name value : Bytes} (hname : Plain name)
    (hvalue : Plain value) : ∀ c ∈ sdParam name value, c ≠ 32 := by
  intro c hc
  simp only [sdParam, List.mem_append, List.mem_singleton] at hc
  rcases hc with ((hc | hc) | hc) | rfl
  · exact (hname c hc).2.2.2
  · rintro rfl
    exact absurd hc (by decide)
  · exact (hvalue c hc).2.2.2
  · decide

theorem sdGetParamFrom_hit {name value : Bytes} (hvalue : Plain value)
    (rest : Bytes) :
    sdGetParamFrom name true (sdParam name value ++ rest) = some value := by
  have htext : sdParam name value ++ rest =
      (name ++ ascii "=\"") ++ (value ++ quoteByte :: rest) := by
    simp [sdParam]
  have hdrop : (sdParam name value ++ rest).drop (name.length + 2) =
      value ++ quoteByte :: rest := by
    rw [htext, List.drop_left' (by simp [ascii])]
  have hprefix : name ++ ascii "=\"" <+: sdParam name value ++ rest := by
    rw [htext]
    exact List.prefix_append _ _
  cases hcons : sdParam name value ++ rest with
  | nil => simp [sdParam] at hcons
  | cons c text =>
      rw [hcons] at hdrop hprefix
      rw [sdGetParamFrom, if_pos ⟨rfl, hprefix⟩, hdrop,
        sdParamValue_plain hvalue]
      rfl

theorem sdGetParamFrom_miss {key name value : Bytes} (hkey : 61 ∉ key)
    (hname : PlainName name) (hvalue : Plain value) (hne : key ≠ name)
    (rest : Bytes) :
    sdGetParamFrom key true (sdParam name value ++ rest) =
      sdGetParamFrom key false rest := by
  have hblank := sdParam_ne_blank hname.1 hvalue
  have hprefix : ¬ key ++ ascii "=\"" <+: sdParam name value ++ rest := by
    intro h
    apply hne
    apply name_eq_of_start hkey hname.2
    simpa [sdParam, ascii] using h
  cases hcons : sdParam name value with
  | nil => simp [sdParam] at hcons
  | cons c text =>
      rw [hcons] at hblank hprefix
      have hc : c ≠ 32 := hblank c (by simp)
      rw [List.cons_append] at hprefix
      rw [List.cons_append, sdGetParamFrom, if_neg (fun h => hprefix h.2)]
      simp only [hc, decide_false]
      exact sdGetParamFrom_skip key (fun d hd => hblank d (by simp [hd])) rest

theorem sdGetParamFrom_sdParams {key : Bytes} (hkey : 61 ∉ key)
    {params : List (Bytes × Bytes)}
    (h : ∀ param ∈ params, PlainName param.1 ∧ Plain param.2) :
    sdGetParamFrom key true (sdParams params) =
      (params.find? (·.1 = key)).map (·.2) := by
  induction params with
  | nil => rfl
  | cons param params ih =>
      obtain ⟨hname, hvalue⟩ := h param (by simp)
      have htext : ∃ rest, sdParams (param :: params) =
          sdParam param.1 param.2 ++ rest ∧
          sdGetParamFrom key false rest =
            sdGetParamFrom key true (sdParams params) := by
        cases params with
        | nil => exact ⟨[], by simp [sdParams], rfl⟩
        | cons next params =>
            exact ⟨_, rfl, by simp [sdGetParamFrom]⟩
      obtain ⟨rest, htext, hrest⟩ := htext
      by_cases heq : param.1 = key
      · rw [htext, ← heq, sdGetParamFrom_hit hvalue]
        simp
      · rw [htext, sdGetParamFrom_miss hkey hname hvalue (Ne.symm heq), hrest,
          ih fun p hp => h p (by simp [hp])]
        simp [heq]

/-! ## Scanning parameters -/

private theorem sdScanLine_name {text : Bytes} (h : Plain text)
    (rest : Bytes) : sdScanLine false (text ++ rest) = sdScanLine false rest := by
  induction text with
  | nil => rfl
  | cons c text ih =>
      obtain ⟨hquote, -, hbracket, -⟩ := h c (by simp)
      simp [sdScanLine, hquote, hbracket, ih h.of_cons]

private theorem sdScanLine_value {text : Bytes} (h : Plain text)
    (rest : Bytes) :
    sdScanLine true (text ++ quoteByte :: rest) = sdScanLine false rest := by
  induction text with
  | nil => simp
  | cons c text ih =>
      obtain ⟨hquote, hback, -, -⟩ := h c (by simp)
      rw [List.cons_append, sdScanLine_quoted hquote hback, ih h.of_cons]

theorem sdScanLine_sdParam {name value : Bytes} (hname : Plain name)
    (hvalue : Plain value) (rest : Bytes) :
    sdScanLine false (sdParam name value ++ rest) = sdScanLine false rest := by
  have htext : sdParam name value ++ rest =
      name ++ 61 :: quoteByte :: (value ++ quoteByte :: rest) := by
    simp [sdParam, ascii, quoteByte]
  rw [htext, sdScanLine_name hname]
  simp only [sdScanLine, if_true]
  rw [if_neg (by decide), if_neg (by decide), sdScanLine_value hvalue]

theorem sdScanLine_sdParams {params : List (Bytes × Bytes)}
    (h : ∀ param ∈ params, Plain param.1 ∧ Plain param.2) (rest : Bytes) :
    sdScanLine false (sdParams params ++ bracketByte :: rest) = some rest := by
  induction params with
  | nil =>
      simp only [sdParams, List.nil_append, sdScanLine, if_true]
      rw [if_neg (by decide)]
  | cons param params ih =>
      obtain ⟨hname, hvalue⟩ := h param (by simp)
      have hrest := ih fun p hp => h p (by simp [hp])
      cases params with
      | nil =>
          rw [sdParams, sdScanLine_sdParam hname hvalue]
          simpa [sdParams] using hrest
      | cons next params =>
          rw [sdParams, List.append_assoc, sdScanLine_sdParam hname hvalue,
            List.cons_append, sdScanLine, if_neg (by decide),
            if_neg (by decide)]
          · exact hrest
          · simp

/-! ## Values -/

private theorem cString_of_nonzero {text : Bytes} (h : ∀ c ∈ text, c ≠ 0) :
    cString text = text := by
  rw [cString, List.takeWhile_eq_self_iff]
  intro c hc
  simpa using h c hc

private theorem hexDigit_ne_zero {n : Nat} (h : n < 16) : hexDigit n ≠ 0 := by
  interval_cases n <;> decide

private theorem cString_hexText (bytes : Bytes) :
    cString (hexText bytes) = hexText bytes := by
  apply cString_of_nonzero
  intro c hc
  obtain ⟨n, hn, rfl⟩ := mem_hexText hc
  exact hexDigit_ne_zero hn

private theorem hexPairs_hexText (bytes : Bytes) :
    hexPairs bytes.length (hexText bytes) = some bytes := by
  induction bytes with
  | nil => rfl
  | cons b bytes ih =>
      have htext : hexText (b :: bytes) = hexByte b ++ hexText bytes := rfl
      rw [List.length_cons, hexPairs, cString_hexText, htext,
        scanHexByte_hexByte]
      simp only [Option.bind_eq_bind, Option.bind_some]
      rw [List.drop_left' (by rfl), ih]
      rfl

@[simp] theorem hcsHexDecode_hexText {bytes : Bytes} {outLen : Nat}
    (h : bytes.length ≤ outLen) :
    hcsHexDecode (hexText bytes) outLen = some bytes := by
  have hhalf : (hexText bytes).length / 2 = bytes.length := by
    rw [hexText_length]
    omega
  rw [hcsHexDecode, hhalf, if_neg (by rw [hexText_length]; omega)]
  exact hexPairs_hexText bytes

theorem hexWritten_of_hexPairs {n : Nat} {text bytes : Bytes}
    (h : hexPairs n text = some bytes) : hexWritten n text = bytes := by
  induction n generalizing text bytes with
  | zero =>
      cases h
      rfl
  | succ n ih =>
      simp only [hexPairs, Option.bind_eq_bind, Option.bind_eq_some_iff,
        Option.some.injEq] at h
      obtain ⟨b, hb, rest, hrest, rfl⟩ := h
      simp only [hexWritten, hb, ih hrest]

theorem hexWritten_hexText (bytes : Bytes) :
    hexWritten bytes.length (hexText bytes) = bytes :=
  hexWritten_of_hexPairs (hexPairs_hexText bytes)

@[simp] theorem hcsB64Decode_encode (ossl : OpenSSL) (bytes : Bytes) :
    hcsB64Decode ossl (Base64.encode bytes) =
      some (bytes ++ List.replicate (Base64.padLength bytes.length) 0,
        bytes.length) := by
  simp [hcsB64Decode, ossl.decodeBlock_encode, Base64.trailingPad_encode]

theorem sdNumber_length (n : UInt64) :
    0 < (sdNumber n).length ∧ (sdNumber n).length ≤ 20 := by
  refine ⟨decimal_length_pos _, decimal_length_le (by decide) ?_⟩
  have := n.toNat_lt
  omega

theorem sdExtractUint64_of_number {body : Bytes} {key : String} {n : UInt64}
    (h : sdGetParam body key = some (sdNumber n)) (out : UInt64) :
    sdExtractUint64 body key out = (true, n) := by
  obtain ⟨hpos, hlen⟩ := sdNumber_length n
  have hnul : cString (sdNumber n) = sdNumber n := by
    apply cString_of_nonzero
    rintro c hc rfl
    exact absurd (decimal_isDigit hc) (by decide)
  have hread := @strtoull_decimal n.toNat n.toNat_lt [] (by simp)
  rw [List.append_nil] at hread
  simp only [sdExtractUint64, h, hnul]
  rw [if_neg (by omega)]
  simp [sdNumber, hread]

theorem sdExtractUint64_of_absent {body : Bytes} {key : String}
    (h : sdGetParam body key = none) (out : UInt64) :
    sdExtractUint64 body key out = (false, out) := by
  simp [sdExtractUint64, h]

theorem sdExtractChainHash_of_hex {body hash : Bytes} {alg : HcsHashAlg}
    (h : sdGetParam body "h" = some (hexText hash))
    (hlen : hash.length = hcsHashLen alg) :
    sdExtractChainHash body = some hash := by
  have hbound := hcsHashLen_le alg
  have htext : (hexText hash).length = hcsHashLen alg * 2 := by
    rw [hexText_length, hlen, Nat.mul_comm]
  simp only [sdExtractChainHash, h, Option.bind_eq_bind, Option.bind_some,
    htext, hcsHashAlgFromHexLen_hcsHashLen]
  rw [if_neg (by omega)]
  exact hcsHexDecode_hexText (Nat.le_of_eq hlen)

theorem sdExtractHex_of_hex {body fp : Bytes} {key : String}
    (h : sdGetParam body key = some (hexText fp))
    (hlen : fp.length = Limits.hcsHashLen) {out : Bytes}
    (hout : out.length = Limits.hcsHashLen) :
    sdExtractHex body key Limits.hcsHashLen out = (true, fp) := by
  have htext : (hexText fp).length = Limits.hcsHashLen * 2 := by
    rw [hexText_length, hlen, Nat.mul_comm]
  have hwritten : hexWritten Limits.hcsHashLen (hexText fp) = fp := by
    rw [← hlen]
    exact hexWritten_hexText fp
  unfold sdExtractHex
  rw [h]
  dsimp only
  rw [if_neg (by rw [htext]; decide), hwritten,
    hcsHexDecode_hexText (Nat.le_of_eq hlen), overlay_of_length (by rw [hlen, hout])]
  rfl

/-! ## The elements as parameter lists -/

def elementText (params : List (Bytes × Bytes)) : Bytes :=
  sdPrefix hcsSdId ++ (sdParams params ++ [bracketByte])

def initParams (letter : String) (seq : UInt64) (chainHash fp : Bytes) :
    List (Bytes × Bytes) :=
  [(ascii "t", ascii letter), (ascii "q", sdNumber seq),
   (ascii "h", hexText chainHash), (ascii "f", hexText fp)]

def msgParams (seq : UInt64) (chainHash : Bytes) : List (Bytes × Bytes) :=
  [(ascii "q", sdNumber seq), (ascii "h", hexText chainHash)]

def sigParams (seq : UInt64) (chainHash : Bytes) (seqFrom seqTo : UInt64)
    (sig : Bytes) : List (Bytes × Bytes) :=
  [(ascii "t", ascii "S"), (ascii "q", sdNumber seq),
   (ascii "h", hexText chainHash), (ascii "qf", sdNumber seqFrom),
   (ascii "qt", sdNumber seqTo), (ascii "s", Base64.encode sig)]

theorem sdInitText_eq (letter : String) (seq : UInt64)
    (chainHash fp : Bytes) :
    sdInitText letter seq chainHash fp =
      elementText (initParams letter seq chainHash fp) := by
  simp only [sdInitText, elementText, initParams, sdParams, sdParam,
    hcsHexEncode, List.append_assoc, List.cons_append]
  rfl

theorem sdMsgText_eq (seq : UInt64) (chainHash : Bytes) :
    sdMsgText seq chainHash = elementText (msgParams seq chainHash) := by
  simp only [sdMsgText, elementText, msgParams, sdParams, sdParam,
    hcsHexEncode, List.append_assoc, List.cons_append]
  rfl

theorem sdSigText_eq (seq : UInt64) (chainHash : Bytes)
    (seqFrom seqTo : UInt64) (sig : Bytes) :
    sdSigText seq chainHash seqFrom seqTo (Base64.encode sig) =
      elementText (sigParams seq chainHash seqFrom seqTo sig) := by
  simp only [sdSigText, elementText, sigParams, sdParams, sdParam,
    hcsHexEncode, List.append_assoc, List.cons_append]
  rfl

theorem sdGetParam_sdParams {params : List (Bytes × Bytes)}
    (h : ∀ param ∈ params, PlainName param.1 ∧ Plain param.2) (key : String)
    (hkey : 61 ∉ ascii key) :
    sdGetParam (sdParams params) key =
      (params.find? (·.1 = ascii key)).map (·.2) :=
  sdGetParamFrom_sdParams hkey h

theorem initParams_plain (letter : String) (hletter : Plain (ascii letter))
    (seq : UInt64) (chainHash fp : Bytes) :
    ∀ param ∈ initParams letter seq chainHash fp,
      PlainName param.1 ∧ Plain param.2 := by
  simp only [initParams, List.forall_mem_cons]
  refine ⟨⟨by decide +kernel, hletter⟩, ⟨by decide +kernel, plain_decimal _⟩,
    ⟨by decide +kernel, plain_hexText _⟩, ⟨by decide +kernel, plain_hexText _⟩,
    by simp⟩

theorem msgParams_plain (seq : UInt64) (chainHash : Bytes) :
    ∀ param ∈ msgParams seq chainHash, PlainName param.1 ∧ Plain param.2 := by
  simp only [msgParams, List.forall_mem_cons]
  exact ⟨⟨by decide +kernel, plain_decimal _⟩,
    ⟨by decide +kernel, plain_hexText _⟩, by simp⟩

theorem sigParams_plain (seq : UInt64) (chainHash : Bytes)
    (seqFrom seqTo : UInt64) (sig : Bytes) :
    ∀ param ∈ sigParams seq chainHash seqFrom seqTo sig,
      PlainName param.1 ∧ Plain param.2 := by
  simp only [sigParams, List.forall_mem_cons]
  refine ⟨⟨by decide +kernel, by decide +kernel⟩,
    ⟨by decide +kernel, plain_decimal _⟩, ⟨by decide +kernel, plain_hexText _⟩,
    ⟨by decide +kernel, plain_decimal _⟩, ⟨by decide +kernel, plain_decimal _⟩,
    ⟨by decide +kernel, plain_encode _⟩, by simp⟩

/-! ## Parsing what was written -/

def initRecord (type : HcsSdType) (seq : UInt64) (chainHash fp : Bytes) :
    HcsSdRecord :=
  { type := type, seq := seq, chainHash := chainHash
    chainHashLen := chainHash.length, pubkeyFp := fp, hasPubkeyFp := true }

def msgRecord (seq : UInt64) (chainHash : Bytes) : HcsSdRecord :=
  { type := .msg, seq := seq, chainHash := chainHash
    chainHashLen := chainHash.length }

/-- The decoder completes the signature with zero bytes, which do not count. -/
def sigRecord (seq : UInt64) (chainHash : Bytes) (seqFrom seqTo : UInt64)
    (sig : Bytes) : HcsSdRecord :=
  { type := .sig, seq := seq, chainHash := chainHash
    chainHashLen := chainHash.length, seqFrom := seqFrom, seqTo := seqTo
    signature := sig ++ List.replicate (Base64.padLength sig.length) 0
    sigLen := sig.length, hasSignature := true }

@[simp] theorem sigRecord_signature_take (seq : UInt64) (chainHash : Bytes)
    (seqFrom seqTo : UInt64) (sig : Bytes) :
    (sigRecord seq chainHash seqFrom seqTo sig).signature.take
      (sigRecord seq chainHash seqFrom seqTo sig).sigLen = sig := by
  simp [sigRecord]

theorem hcsParseSd_body (ossl : OpenSSL) (body : Bytes) :
    hcsParseSd ossl (sdPrefix hcsSdId ++ (body ++ [bracketByte])) =
      sdParseBody ossl body := by
  have hlast : (sdPrefix hcsSdId ++ (body ++ [bracketByte])).getLast? =
      some bracketByte := by
    rw [← List.append_assoc, List.getLast?_concat]
  have hlen : (sdPrefix hcsSdId).length + 1 ≤
      (sdPrefix hcsSdId ++ (body ++ [bracketByte])).length := by
    simp
  rw [hcsParseSd, if_neg (by
    rintro (h | h | h)
    · omega
    · exact h (List.prefix_append _ _)
    · exact h hlast)]
  rw [List.drop_left, List.dropLast_concat]

theorem hcsParseSd_elementText (ossl : OpenSSL)
    (params : List (Bytes × Bytes)) :
    hcsParseSd ossl (elementText params) =
      sdParseBody ossl (sdParams params) :=
  hcsParseSd_body ossl _

theorem hcsParseSd_some {ossl : OpenSSL} {sd : Bytes} {record : HcsSdRecord}
    (h : hcsParseSd ossl sd = some record) :
    ∃ body, sd = sdPrefix hcsSdId ++ (body ++ [bracketByte]) ∧
      sdParseBody ossl body = some record := by
  have hparse := h
  unfold hcsParseSd at h
  split_ifs at h with hframe
  simp only [not_or, not_not] at hframe
  obtain ⟨hlen, ⟨rest, rfl⟩, hlast⟩ := hframe
  have hne : rest ≠ [] := by
    rintro rfl
    simp at hlen
  rw [List.getLast?_append_of_ne_nil _ hne] at hlast
  have hrest : rest = rest.dropLast ++ [bracketByte] := by
    obtain ⟨body, c, rfl⟩ := (List.eq_nil_or_concat' rest).resolve_left hne
    rw [List.getLast?_concat] at hlast
    rw [List.dropLast_concat, Option.some.inj hlast]
  rw [hrest, hcsParseSd_body] at hparse
  exact ⟨rest.dropLast, by rw [← hrest], hparse⟩

variable (ossl : OpenSSL)

theorem sdParseBody_init {letter : String} {code : UInt8}
    (hletter : ascii letter = [code]) (hplain : Plain [code])
    (seq : UInt64) {chainHash fp : Bytes} {alg : HcsHashAlg}
    (hhash : chainHash.length = hcsHashLen alg)
    (hfp : fp.length = Limits.hcsHashLen) :
    sdParseBody ossl (sdParams (initParams letter seq chainHash fp)) =
      some (initRecord (.ofByte code) seq chainHash fp) := by
  have hget := sdGetParam_sdParams
    (initParams_plain letter (hletter ▸ hplain) seq chainHash fp)
  have ht : sdGetParam (sdParams (initParams letter seq chainHash fp)) "t" =
      some [code] := (hget "t" (by decide)).trans (congrArg some hletter)
  have hs : sdGetParam (sdParams (initParams letter seq chainHash fp)) "s" =
      none := hget "s" (by decide)
  have hq := sdExtractUint64_of_number (hget "q" (by decide)) 0
  have hh := sdExtractChainHash_of_hex (hget "h" (by decide)) hhash
  have hf := sdExtractHex_of_hex (hget "f" (by decide)) hfp
    (List.length_replicate (a := (0 : UInt8)))
  have hqf := sdExtractUint64_of_absent (hget "qf" (by decide)) 0
  have hqt := sdExtractUint64_of_absent (hget "qt" (by decide)) 0
  simp [sdParseBody, sdType, ht, hq, hh, hf, hqf, hqt, hs, initRecord]

theorem sdParseBody_msg (seq : UInt64) {chainHash : Bytes} {alg : HcsHashAlg}
    (hhash : chainHash.length = hcsHashLen alg) :
    sdParseBody ossl (sdParams (msgParams seq chainHash)) =
      some (msgRecord seq chainHash) := by
  have hget := sdGetParam_sdParams (msgParams_plain seq chainHash)
  have ht : sdGetParam (sdParams (msgParams seq chainHash)) "t" = none :=
    hget "t" (by decide)
  have hf : sdGetParam (sdParams (msgParams seq chainHash)) "f" = none :=
    hget "f" (by decide)
  have hs : sdGetParam (sdParams (msgParams seq chainHash)) "s" = none :=
    hget "s" (by decide)
  have hq := sdExtractUint64_of_number (hget "q" (by decide)) 0
  have hh := sdExtractChainHash_of_hex (hget "h" (by decide)) hhash
  have hqf := sdExtractUint64_of_absent (hget "qf" (by decide)) 0
  have hqt := sdExtractUint64_of_absent (hget "qt" (by decide)) 0
  simp [sdParseBody, sdType, sdExtractHex, ht, hq, hh, hf, hqf, hqt, hs,
    msgRecord]

theorem sdParseBody_sig (seq : UInt64) {chainHash : Bytes} {alg : HcsHashAlg}
    (hhash : chainHash.length = hcsHashLen alg) (seqFrom seqTo : UInt64)
    {sig : Bytes} (hsig : sig.length ≤ Limits.hcsSigMaxLen) :
    sdParseBody ossl (sdParams (sigParams seq chainHash seqFrom seqTo sig)) =
      some (sigRecord seq chainHash seqFrom seqTo sig) := by
  have hget := sdGetParam_sdParams
    (sigParams_plain seq chainHash seqFrom seqTo sig)
  have ht : sdGetParam (sdParams (sigParams seq chainHash seqFrom seqTo sig))
      "t" = some [83] := hget "t" (by decide)
  have hf : sdGetParam (sdParams (sigParams seq chainHash seqFrom seqTo sig))
      "f" = none := hget "f" (by decide)
  have hs : sdGetParam (sdParams (sigParams seq chainHash seqFrom seqTo sig))
      "s" = some (Base64.encode sig) := hget "s" (by decide)
  have hq := sdExtractUint64_of_number (hget "q" (by decide)) 0
  have hh := sdExtractChainHash_of_hex (hget "h" (by decide)) hhash
  have hqf := sdExtractUint64_of_number (hget "qf" (by decide)) 0
  have hqt := sdExtractUint64_of_number (hget "qt" (by decide)) 0
  have hlen : ¬ Limits.hcsB64SigLen + 4 ≤ (Base64.encode sig).length := by
    rw [Base64.encode_length]
    simp only [Limits.hcsB64SigLen, Limits.hcsSigMaxLen] at *
    omega
  simp only [Base64.encode_length] at hlen
  simp [sdParseBody, sdType, sdExtractHex, ht, hq, hh, hf, hqf, hqt, hs, hlen,
    HcsSdType.ofByte, sigRecord]

/-! ## Finding the element in a line -/

theorem hcsStripSdFromLine_elementText {params : List (Bytes × Bytes)}
    (hparams : ∀ param ∈ params, PlainName param.1 ∧ Plain param.2)
    {record : HcsSdRecord}
    (hparse : sdParseBody ossl (sdParams params) = some record)
    {before after : Bytes} (hbefore : ¬ sdPrefix hcsSdId <:+: before)
    (next : UInt8) {cap : Nat} (hcap : before.length + after.length < cap) :
    hcsStripSdFromLine ossl (before ++ (elementText params ++ after)) next
        cap =
      .ok (toInt (before.length + after.length), before ++ after, record) := by
  have hline : elementText params ++ after =
      sdPrefix hcsSdId ++ (sdParams params ++ bracketByte :: after) := by
    simp [elementText]
  have hscan : sdScanLine false ((elementText params ++ after).drop
      (sdPrefix hcsSdId).length) = some after := by
    rw [hline, List.drop_left]
    exact sdScanLine_sdParams (fun p hp =>
      ⟨(hparams p hp).1.1, (hparams p hp).2⟩) after
  have htake : (elementText params ++ after).take
      ((elementText params ++ after).length - after.length) =
        elementText params := by
    rw [List.length_append, Nat.add_sub_cancel, List.take_left]
  have hfound : findSub (sdPrefix hcsSdId)
      (before ++ (elementText params ++ after)) =
        some (before, elementText params ++ after) := by
    rw [hline]
    exact findSub_sdPrefix (by decide) hbefore _
  simp only [hcsStripSdFromLine, stripSdFromLine, hfound, hscan, htake,
    hcsParseSd_elementText, hparse]
  rw [if_neg (by omega)]

/-! ## Lengths of the elements -/

private theorem sdParam_length (name value : Bytes) :
    (sdParam name value).length = name.length + value.length + 3 := by
  simp only [sdParam, ascii, List.length_append, List.length_singleton,
    List.length_map]
  change name.length + 2 + value.length + 1 = _
  omega

private theorem elementText_length (params : List (Bytes × Bytes)) :
    (elementText params).length = (sdParams params).length + 24 := by
  rw [elementText, List.length_append, List.length_append]
  change 23 + ((sdParams params).length + 1) = _
  omega

theorem sdInitText_length_lt {letter : String} {code : UInt8}
    (hletter : ascii letter = [code]) (seq : UInt64) {chainHash fp : Bytes}
    (hhash : chainHash.length ≤ Limits.hcsHashMaxLen)
    (hfp : fp.length = Limits.hcsHashLen) :
    (sdInitText letter seq chainHash fp).length < Limits.hcsSdMaxLen := by
  have hseq := (sdNumber_length seq).2
  have ht : (ascii "t").length = 1 := rfl
  have hq : (ascii "q").length = 1 := rfl
  have hh : (ascii "h").length = 1 := rfl
  have hf : (ascii "f").length = 1 := rfl
  simp only [sdInitText_eq, elementText_length, initParams, sdParams,
    List.length_append, List.length_cons, sdParam_length, hexText_length,
    hletter, ht, hq, hh, hf, hfp, List.length_nil]
  simp only [Limits.hcsHashMaxLen, Limits.hcsHashLen, Limits.hcsSdMaxLen] at *
  omega

theorem sdMsgText_length_lt (seq : UInt64) {chainHash : Bytes}
    (hhash : chainHash.length ≤ Limits.hcsHashMaxLen) :
    (sdMsgText seq chainHash).length < Limits.hcsSdMaxLen := by
  have hseq := (sdNumber_length seq).2
  have hq : (ascii "q").length = 1 := rfl
  have hh : (ascii "h").length = 1 := rfl
  simp only [sdMsgText_eq, elementText_length, msgParams, sdParams,
    List.length_append, List.length_cons, sdParam_length, hexText_length, hq,
    hh]
  simp only [Limits.hcsHashMaxLen, Limits.hcsSdMaxLen] at *
  omega

theorem sdSigText_length_lt (seq : UInt64) {chainHash : Bytes}
    (hhash : chainHash.length ≤ Limits.hcsHashMaxLen)
    (seqFrom seqTo : UInt64) {sig : Bytes}
    (hsig : sig.length ≤ Limits.hcsSigMaxLen) :
    (sdSigText seq chainHash seqFrom seqTo (Base64.encode sig)).length <
      Limits.hcsSdMaxLen := by
  have hseq := (sdNumber_length seq).2
  have hfrom := (sdNumber_length seqFrom).2
  have hto := (sdNumber_length seqTo).2
  have ht : (ascii "t").length = 1 := rfl
  have htype : (ascii "S").length = 1 := rfl
  have hq : (ascii "q").length = 1 := rfl
  have hh : (ascii "h").length = 1 := rfl
  have hqf : (ascii "qf").length = 2 := rfl
  have hqt : (ascii "qt").length = 2 := rfl
  have hs : (ascii "s").length = 1 := rfl
  simp only [sdSigText_eq, elementText_length, sigParams, sdParams,
    List.length_append, List.length_cons, sdParam_length, hexText_length,
    Base64.encode_length, ht, htype, hq, hh, hqf, hqt, hs]
  simp only [Limits.hcsHashMaxLen, Limits.hcsSigMaxLen,
    Limits.hcsSdMaxLen] at *
  omega

/-! ## Formatting succeeds -/

theorem hcsFormatSdInit_eq {seq : UInt64} {chainHash fp : Bytes} {cap : Nat}
    (hhash : chainHash.length ≤ Limits.hcsHashMaxLen)
    (hfp : fp.length = Limits.hcsHashLen) (hcap : Limits.hcsSdMaxLen ≤ cap) :
    hcsFormatSdInit seq chainHash fp cap =
      some (elementText (initParams "I" seq chainHash fp)) := by
  have hletter : ascii "I" = [73] := rfl
  have hlen := sdInitText_length_lt hletter seq hhash hfp
  rw [hcsFormatSdInit, if_neg (by omega), fits, if_pos (by omega),
    sdInitText_eq]

theorem hcsFormatSdContinue_eq {seq : UInt64} {chainHash fp : Bytes}
    {cap : Nat} (hhash : chainHash.length ≤ Limits.hcsHashMaxLen)
    (hfp : fp.length = Limits.hcsHashLen) (hcap : Limits.hcsSdMaxLen ≤ cap) :
    hcsFormatSdContinue seq chainHash fp cap =
      some (elementText (initParams "C" seq chainHash fp)) := by
  have hletter : ascii "C" = [67] := rfl
  have hlen := sdInitText_length_lt hletter seq hhash hfp
  rw [hcsFormatSdContinue, if_neg (by omega), fits, if_pos (by omega),
    sdInitText_eq]

theorem hcsFormatSdMsg_eq {seq : UInt64} {chainHash : Bytes} {cap : Nat}
    (hhash : chainHash.length ≤ Limits.hcsHashMaxLen)
    (hcap : Limits.hcsSdMaxLen ≤ cap) :
    hcsFormatSdMsg seq chainHash cap =
      some (elementText (msgParams seq chainHash)) := by
  have hlen := sdMsgText_length_lt seq hhash
  rw [hcsFormatSdMsg, if_neg (by omega), fits, if_pos (by omega),
    sdMsgText_eq]

theorem hcsB64Encode_signature {sig : Bytes}
    (hsig : sig.length ≤ Limits.hcsSigMaxLen) :
    hcsB64Encode sig (Limits.hcsB64SigLen + 4) =
      some (Base64.encode sig) := by
  rw [hcsB64Encode, fits, if_pos]
  rw [Base64.encode_length]
  simp only [Limits.hcsB64SigLen, Limits.hcsSigMaxLen] at *
  omega

theorem hcsFormatSdSig_eq {seq : UInt64} {chainHash : Bytes}
    {seqFrom seqTo : UInt64} {sig : Bytes} {cap : Nat}
    (hhash : chainHash.length ≤ Limits.hcsHashMaxLen)
    (hsig : sig.length ≤ Limits.hcsSigMaxLen)
    (hcap : Limits.hcsSdMaxLen ≤ cap) :
    hcsFormatSdSig seq chainHash seqFrom seqTo sig cap =
      some (elementText (sigParams seq chainHash seqFrom seqTo sig)) := by
  have hlen := sdSigText_length_lt seq hhash seqFrom seqTo hsig
  rw [hcsFormatSdSig, if_neg (by omega), hcsB64Encode_signature hsig]
  simp only [Option.bind_eq_bind, Option.bind_some]
  rw [fits, if_pos (by omega), sdSigText_eq]

/-! ## The round trip -/

/--
`written` is an element that parses to `record`, alone and between any texts,
of which the first does not hold an element of the same name.
-/
def RoundTrips (written : Option Bytes) (record : HcsSdRecord) : Prop :=
  ∃ element, written = some element ∧
    hcsParseSd ossl element = some record ∧
    ∀ (before after : Bytes) (next : UInt8) (cap : Nat),
      ¬ sdPrefix hcsSdId <:+: before →
      before.length + after.length < cap →
      hcsStripSdFromLine ossl (before ++ (element ++ after)) next cap =
        .ok (toInt (before.length + after.length), before ++ after, record)

variable {ossl}

theorem roundTrips_of_params {params : List (Bytes × Bytes)}
    (hparams : ∀ param ∈ params, PlainName param.1 ∧ Plain param.2)
    {record : HcsSdRecord}
    (hparse : sdParseBody ossl (sdParams params) = some record) :
    RoundTrips ossl (some (elementText params)) record := by
  refine ⟨_, rfl, ?_, fun before after next cap hbefore hcap => ?_⟩
  · rw [hcsParseSd_elementText, hparse]
  · exact hcsStripSdFromLine_elementText ossl hparams hparse hbefore next hcap

variable (ossl)

theorem format_round_trip (seq seqFrom seqTo : UInt64)
    (chainHash fp sig : Bytes)
    (hhash : chainHash.length = 32 ∨ chainHash.length = 48 ∨
      chainHash.length = 64)
    (hfp : fp.length = Limits.hcsHashLen)
    (hsig : sig.length ≤ Limits.hcsSigMaxLen) :
    RoundTrips ossl (hcsFormatSdInit seq chainHash fp Limits.hcsSdMaxLen)
        (initRecord .init seq chainHash fp) ∧
      RoundTrips ossl (hcsFormatSdMsg seq chainHash Limits.hcsSdMaxLen)
        (msgRecord seq chainHash) ∧
      RoundTrips ossl
        (hcsFormatSdSig seq chainHash seqFrom seqTo sig Limits.hcsSdMaxLen)
        (sigRecord seq chainHash seqFrom seqTo sig) ∧
      RoundTrips ossl (hcsFormatSdContinue seq chainHash fp Limits.hcsSdMaxLen)
        (initRecord .continue seq chainHash fp) := by
  obtain ⟨alg, halg⟩ : ∃ alg, chainHash.length = hcsHashLen alg := by
    rcases hhash with h | h | h
    · exact ⟨.sha256, h⟩
    · exact ⟨.sha384, h⟩
    · exact ⟨.sha512, h⟩
  have hmax : chainHash.length ≤ Limits.hcsHashMaxLen := by
    rw [halg]
    exact hcsHashLen_le alg
  rw [hcsFormatSdInit_eq hmax hfp (le_refl _),
    hcsFormatSdMsg_eq hmax (le_refl _),
    hcsFormatSdSig_eq hmax hsig (le_refl _),
    hcsFormatSdContinue_eq hmax hfp (le_refl _)]
  have hI : ascii "I" = [73] := rfl
  have hC : ascii "C" = [67] := rfl
  refine ⟨?_, ?_, ?_, ?_⟩
  · exact roundTrips_of_params (initParams_plain "I" (by decide +kernel) _ _ _)
      (sdParseBody_init ossl hI (by decide +kernel) seq halg hfp)
  · exact roundTrips_of_params (msgParams_plain _ _)
      (sdParseBody_msg ossl seq halg)
  · exact roundTrips_of_params (sigParams_plain _ _ _ _ _)
      (sdParseBody_sig ossl seq halg seqFrom seqTo hsig)
  · exact roundTrips_of_params (initParams_plain "C" (by decide +kernel) _ _ _)
      (sdParseBody_init ossl hC (by decide +kernel) seq halg hfp)

theorem format_round_trip_sample :
    RoundTrips sampleOpenSSL
      (hcsFormatSdMsg 7 (List.replicate 32 255) Limits.hcsSdMaxLen)
      (msgRecord 7 (List.replicate 32 255)) :=
  (format_round_trip sampleOpenSSL 7 1 7 (List.replicate 32 255)
    (List.replicate 32 1) (List.replicate 64 2) (by decide) (by decide)
    (by decide)).2.1

end MmHashChainSigs.Common
