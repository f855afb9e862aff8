import MmHashChainSigs.Common.CertElement
import MmHashChainSigs.Verify.Strip

/-!
# What the block decoder writes

`hcs_b64_decode` hands its buffer to the block decoder, which writes three
bytes for every four symbols and does not know how large the buffer is.  The
certificate and the signature of a line are decoded this way, so what is
written is bounded by the length of a text that the line brings along.
-/

namespace MmHashChainSigs.Verify

open MmHashChainSigs.Foundation
open MmHashChainSigs.Common

variable {ossl : OpenSSL}

/-! ## The block decoder -/

def isBlank (c : UInt8) : Bool := c = 32 || c = 9

def isTrailing (c : UInt8) : Bool := isBlank c || c = 10 || c = 13 || c = 45

def decodedSymbols (text : Bytes) : Bytes :=
  ((text.dropWhile isBlank).reverse.dropWhile isTrailing).reverse

/-- Three bytes are written for every four of the symbols. -/
def WritesBlocks (ossl : OpenSSL) : Prop :=
  ∀ text out, ossl.decodeBlock text = some out →
    out.length = 3 * ((decodedSymbols text).length / 4)

theorem value_isTrailing {c : UInt8} (h : isTrailing c = true) :
    Base64.value c = none := by
  simp only [isTrailing, isBlank, Bool.or_eq_true, decide_eq_true_eq] at h
  rcases h with (((rfl | rfl) | rfl) | rfl) | rfl <;> rfl

theorem decodeBlock_symbols {text out : Bytes}
    (h : Base64.decodeBlock text = some out) :
    ∀ c ∈ text, Base64.value c ≠ none := by
  induction text using Base64.decodeBlock.induct generalizing out with
  | case1 => simp
  | case2 a b c d rest ih =>
      simp only [Base64.decodeBlock, Option.bind_eq_bind,
        Option.bind_eq_some_iff] at h
      obtain ⟨_, ha, _, hb, _, hc, _, hd, tail, htail, -⟩ := h
      simp only [List.forall_mem_cons]
      exact ⟨by simp [ha], by simp [hb], by simp [hc], by simp [hd],
        ih htail⟩
  | case3 text hnil hcons =>
      rw [Base64.decodeBlock] at h
      · cases h
      · exact hnil
      · exact hcons

theorem dropWhile_of_symbols {p : UInt8 → Bool} {text : Bytes}
    (h : ∀ c ∈ text, p c = false) : text.dropWhile p = text := by
  cases text with
  | nil => rfl
  | cons c text =>
      rw [List.dropWhile_cons, if_neg (by simp [h c (by simp)])]

theorem decodedSymbols_of_decodes {text out : Bytes}
    (h : Base64.decodeBlock text = some out) : decodedSymbols text = text := by
  have hsymbols : ∀ c ∈ text, isTrailing c = false := by
    intro c hc
    rw [Bool.eq_false_iff]
    exact fun htrailing =>
      decodeBlock_symbols h c hc (value_isTrailing htrailing)
  have hblanks : ∀ c ∈ text, isBlank c = false := by
    intro c hc
    have := hsymbols c hc
    simp only [isTrailing, Bool.or_eq_false_iff] at this
    exact this.1.1.1
  unfold decodedSymbols
  rw [dropWhile_of_symbols hblanks, dropWhile_of_symbols, List.reverse_reverse]
  intro c hc
  exact hsymbols c (List.mem_reverse.mp hc)

theorem sample_writesBlocks : WritesBlocks sampleOpenSSL := by
  intro text out h
  rw [decodedSymbols_of_decodes h]
  exact (Base64.decodeBlock_length h).2

/-! ## The certificate of a line -/

def CertWithin (ossl : OpenSSL) (src : Bytes) (msgBufCap derCap : Nat) :
    Prop :=
  ∀ msg der derLen,
    hcsExtractAndStripCertSd ossl src msgBufCap = .stripped msg der derLen →
    der.length ≤ derCap ∧ derLen ≤ derCap

/--
The first certificate element of the source, if its value decodes and the rest
fits the message buffer, has few enough symbols for the capacity.
-/
def CertSymbolsFit (ossl : OpenSSL) (src : Bytes) (msgBufCap derCap : Nat) :
    Prop :=
  ∀ before value after, src = before ++ (sdCertText value ++ after) →
    ¬ sdPrefix hcsSdCertId <:+: before → Quoted value →
    (ossl.decodeBlock value).isSome →
    (before ++ after).length < msgBufCap →
    3 * ((decodedSymbols value).length / 4) ≤ derCap

theorem certWithin_iff_symbols (hblocks : WritesBlocks ossl)
    (src : Bytes) (msgBufCap derCap : Nat) :
    CertWithin ossl src msgBufCap derCap ↔
      CertSymbolsFit ossl src msgBufCap derCap := by
  constructor
  · intro h before value after hsrc hbefore hvalue hdecodes hcap
    obtain ⟨out, hout⟩ := Option.isSome_iff_exists.mp hdecodes
    have hdecode : hcsB64Decode ossl value =
        some (out, out.length - Base64.trailingPad value) := by
      unfold hcsB64Decode
      rw [hout]
      rfl
    rw [List.length_append] at hcap
    have hstrip := hcsExtractAndStripCertSd_value hbefore
      (hvalue.paramValue (bracketByte :: after)) hdecode hcap
    rw [← hblocks value out hout]
    rw [← hsrc] at hstrip
    exact (h _ _ _ hstrip).1
  · intro h msg der derLen hstrip
    have hspec := @hcsExtractAndStripCertSd_spec ossl src msgBufCap
    rw [hstrip] at hspec
    obtain ⟨before, value, after, hsrc, hbefore, hvalue, hdecode, rfl, hcap⟩ :=
      hspec
    unfold hcsB64Decode at hdecode
    obtain ⟨out, hout, hpair⟩ := Option.map_eq_some_iff.mp hdecode
    cases hpair
    have hfits := h before value after hsrc hbefore hvalue (by rw [hout]; rfl)
      hcap
    rw [← hblocks value _ hout] at hfits
    exact ⟨hfits, (Nat.sub_le _ _).trans hfits⟩

def LineCertWithin (ossl : OpenSSL) (line : Bytes) : Prop :=
  ∀ n msg sd,
    hcsStripSdFromLine ossl line 0 Limits.sdMsgBufLen = .ok (n, msg, sd) →
    CertWithin ossl msg Limits.sdMsgBufLen Common.Limits.hcsCertDerMax

/-- The line without its chain element, if that parses and the rest fits. -/
def LineSymbolsFit (ossl : OpenSSL) (line : Bytes) : Prop :=
  ∀ before element after, line = before ++ (element ++ after) →
    ¬ sdPrefix hcsSdId <:+: before → ChainElement element →
    (hcsParseSd ossl element).isSome →
    (before ++ after).length < Limits.sdMsgBufLen →
    CertSymbolsFit ossl (before ++ after) Limits.sdMsgBufLen
      Common.Limits.hcsCertDerMax

theorem hcsStripSdFromLine_chainElement {before element after : Bytes}
    (hbefore : ¬ sdPrefix hcsSdId <:+: before)
    (helement : ChainElement element) {record : HcsSdRecord}
    (hparse : hcsParseSd ossl element = some record) (next : UInt8)
    {cap : Nat} (hcap : (before ++ after).length < cap) :
    hcsStripSdFromLine ossl (before ++ (element ++ after)) next cap =
      .ok (toInt (before.length + after.length), before ++ after, record) := by
  obtain ⟨body, rfl, hbody⟩ := helement
  have hfound := findSub_sdPrefix (by decide) hbefore
    (body ++ [bracketByte] ++ after)
  rw [← List.append_assoc (sdPrefix hcsSdId) (body ++ [bracketByte]) after]
    at hfound
  have hscan : sdScanLine false ((sdPrefix hcsSdId ++ (body ++ [bracketByte])
      ++ after).drop (sdPrefix hcsSdId).length) = some after := by
    rw [List.append_assoc, List.drop_left]
    exact ClosesAt.scanLine ⟨by simp, hbody⟩
  have htake : (sdPrefix hcsSdId ++ (body ++ [bracketByte]) ++ after).take
      ((sdPrefix hcsSdId ++ (body ++ [bracketByte]) ++ after).length -
        after.length) = sdPrefix hcsSdId ++ (body ++ [bracketByte]) := by
    rw [List.length_append, Nat.add_sub_cancel, List.take_left]
  rw [List.length_append] at hcap
  simp only [hcsStripSdFromLine, stripSdFromLine, hfound, hscan, htake,
    hparse]
  rw [if_neg (by omega)]

theorem lineCertWithin_iff_symbols (hblocks : WritesBlocks ossl)
    (line : Bytes) : LineCertWithin ossl line ↔ LineSymbolsFit ossl line := by
  constructor
  · intro h before element after hline hbefore helement hparses hcap
    obtain ⟨record, hparse⟩ := Option.isSome_iff_exists.mp hparses
    have hstrip := hcsStripSdFromLine_chainElement hbefore helement hparse 0
      hcap
    rw [← hline] at hstrip
    exact (certWithin_iff_symbols hblocks _ _ _).mp (h _ _ _ hstrip)
  · intro h n msg sd hstrip
    obtain ⟨before, element, after, hline, hbefore, helement, hparse, rfl,
      hcap⟩ := hcsStripSdFromLine_ok hstrip
    apply (certWithin_iff_symbols hblocks _ _ _).mpr
    exact h before element after hline hbefore helement (by rw [hparse]; rfl)
      hcap

/-- Any source with any capacity, and the line of the verifier. -/
theorem certWithin_iff (ossl : OpenSSL) (hblocks : WritesBlocks ossl) :
    (∀ src msgBufCap derCap, CertWithin ossl src msgBufCap derCap ↔
      CertSymbolsFit ossl src msgBufCap derCap) ∧
    ∀ line, LineCertWithin ossl line ↔ LineSymbolsFit ossl line :=
  ⟨certWithin_iff_symbols hblocks, lineCertWithin_iff_symbols hblocks⟩

theorem certWithin_iff_sample :
    (∀ src msgBufCap derCap, CertWithin sampleOpenSSL src msgBufCap derCap ↔
      CertSymbolsFit sampleOpenSSL src msgBufCap derCap) ∧
    ∀ line, LineCertWithin sampleOpenSSL line ↔
      LineSymbolsFit sampleOpenSSL line :=
  certWithin_iff sampleOpenSSL sample_writesBlocks

def oversizedLine : Bytes :=
  sampleElement ++ sdCertText (Base64.encode
    (List.replicate (Common.Limits.hcsCertDerMax + 1) 0))

/-- One symbol group with no room at all, and 4098 bytes for 4096. -/
theorem certWithin_fails :
    ¬ CertWithin sampleOpenSSL (sdCertText (Base64.encode [1, 2, 3])) 100 0 ∧
      ¬ LineCertWithin sampleOpenSSL oversizedLine := by
  have hnil : ¬ sdPrefix hcsSdCertId <:+: ([] : Bytes) := by decide
  constructor
  · intro h
    have hstrip := hcsExtractAndStripCertSd_certText sampleOpenSSL [1, 2, 3]
      hnil [] (show ([] : Bytes).length + ([] : Bytes).length < 100 by decide)
    rw [List.nil_append, List.append_nil] at hstrip
    exact absurd (h _ _ _ hstrip).2 (by decide)
  · intro h
    have hcert : (sdCertText (Base64.encode (List.replicate
        (Common.Limits.hcsCertDerMax + 1) 0))).length = 5500 := by
      simp only [sdCertText, List.length_append, Base64.encode_length,
        List.length_replicate]
      decide
    have hline := hcsStripSdFromLine_elementText sampleOpenSSL
      (msgParams_plain 1 (List.replicate 32 0))
      (@sdParseBody_msg sampleOpenSSL 1 _ .sha256
        (List.length_replicate))
      (show ¬ sdPrefix hcsSdId <:+: ([] : Bytes) by decide) 0
      (show ([] : Bytes).length + (sdCertText (Base64.encode (List.replicate
        (Common.Limits.hcsCertDerMax + 1) 0))).length < Limits.sdMsgBufLen by
        rw [hcert]
        decide)
    have hstrip := hcsExtractAndStripCertSd_certText sampleOpenSSL
      (List.replicate (Common.Limits.hcsCertDerMax + 1) 0) hnil []
      (show ([] : Bytes).length + ([] : Bytes).length < Limits.sdMsgBufLen by
        decide)
    rw [List.nil_append, List.append_nil] at hstrip
    have hwithin := (h _ _ _ hline _ _ _ hstrip).2
    rw [List.length_replicate] at hwithin
    exact absurd hwithin (by decide)

/-! ## The signature of a record -/

theorem hexPairs_length {n : Nat} {text bytes : Bytes}
    (h : hexPairs n text = some bytes) : bytes.length = n := by
  induction n generalizing text bytes with
  | zero =>
      cases h
      rfl
  | succ n ih =>
      simp only [hexPairs, Option.bind_eq_bind, Option.bind_eq_some_iff,
        Option.some.injEq] at h
      obtain ⟨b, -, rest, hrest, rfl⟩ := h
      rw [List.length_cons, ih hrest]

theorem sdExtractChainHash_length {body hash : Bytes}
    (h : sdExtractChainHash body = some hash) :
    ∃ alg, hash.length = hcsHashLen alg := by
  simp only [sdExtractChainHash, Option.bind_eq_bind,
    Option.bind_eq_some_iff] at h
  obtain ⟨v, -, alg, halg, h⟩ := h
  have hwidth := hcsHashAlgFromHexLen_eq_some.mp halg
  split_ifs at h
  unfold hcsHexDecode at h
  split_ifs at h
  refine ⟨alg, ?_⟩
  rw [hexPairs_length h, hwidth]
  omega

structure Numbered (body : Bytes) : Prop where
  position : (sdExtractUint64 body "q" 0).1 = true
  hash : (sdExtractChainHash body).isSome

structure SignatureRead (ossl : OpenSSL) (body : Bytes)
    (record : HcsSdRecord) : Prop where
  numbered : Numbered body
  width : ∃ alg, record.chainHashLen = hcsHashLen alg
  signature : record.hasSignature = true → ∃ value out,
    sdGetParam body "s" = some value ∧
    value.length < Common.Limits.hcsB64SigLen + 4 ∧
    ossl.decodeBlock value = some out ∧ record.signature = out ∧
    record.sigLen ≤ out.length

theorem sdParseBody_read {body : Bytes} {record : HcsSdRecord}
    (h : sdParseBody ossl body = some record) :
    SignatureRead ossl body record := by
  cases hfound : (sdExtractUint64 body "q" 0).1 with
  | false => simp [sdParseBody, hfound] at h
  | true =>
      simp only [sdParseBody, hfound, not_true_eq_false, if_false,
        Option.bind_eq_bind, Option.bind_eq_some_iff] at h
      obtain ⟨hash, hhash, h⟩ := h
      have hnumbered : Numbered body := ⟨hfound, by rw [hhash]; rfl⟩
      have hwidth := sdExtractChainHash_length hhash
      cases hs : sdGetParam body "s" with
      | none =>
          rw [hs] at h
          cases h
          exact ⟨hnumbered, hwidth, fun hsigned => by cases hsigned⟩
      | some value =>
          rw [hs] at h
          simp only at h
          split_ifs at h with hlen
          simp only [hcsB64Decode, Option.bind_eq_some_iff,
            Option.map_eq_some_iff] at h
          obtain ⟨_, ⟨out, hout, rfl⟩, h⟩ := h
          cases h
          exact ⟨hnumbered, hwidth, fun _ =>
            ⟨value, out, hs, by omega, hout, rfl, Nat.sub_le _ _⟩⟩

theorem sdParseBody_signed {body value out : Bytes} (hnumbered : Numbered body)
    (hvalue : sdGetParam body "s" = some value)
    (hlen : value.length < Common.Limits.hcsB64SigLen + 4)
    (hout : ossl.decodeBlock value = some out) :
    ∃ record, sdParseBody ossl body = some record ∧
      record.hasSignature = true ∧ record.signature = out := by
  obtain ⟨hash, hhash⟩ := Option.isSome_iff_exists.mp hnumbered.hash
  simp only [sdParseBody, hnumbered.position, not_true_eq_false, if_false,
    hhash, hvalue, if_neg (Nat.not_le.mpr hlen), hcsB64Decode, hout,
    Option.bind_eq_bind, Option.bind_some, Option.map_some]
  exact ⟨_, rfl, rfl, rfl⟩

def RecordWithin (ossl : OpenSSL) (sd : Bytes) : Prop :=
  ∀ record, hcsParseSd ossl sd = some record →
    (record.chainHashLen = 32 ∨ record.chainHashLen = 48 ∨
      record.chainHashLen = 64) ∧
    (record.hasSignature = true →
      record.signature.length ≤ Common.Limits.hcsSigMaxLen ∧
      record.sigLen ≤ Common.Limits.hcsSigMaxLen)

/--
The signature field of an element that parses, if it is short enough for the
text buffer and decodes, has fewer symbols than 49 groups of four.
-/
def SignatureSymbolsFit (ossl : OpenSSL) (sd : Bytes) : Prop :=
  ∀ body value, sd = sdPrefix hcsSdId ++ (body ++ [bracketByte]) →
    Numbered body → sdGetParam body "s" = some value →
    value.length < Common.Limits.hcsB64SigLen + 4 →
    (ossl.decodeBlock value).isSome →
    (decodedSymbols value).length < 196

theorem recordWithin_iff (ossl : OpenSSL) (hblocks : WritesBlocks ossl)
    (sd : Bytes) : RecordWithin ossl sd ↔ SignatureSymbolsFit ossl sd := by
  have hgroups : ∀ n : Nat,
      3 * (n / 4) ≤ Common.Limits.hcsSigMaxLen ↔ n < 196 := by
    intro n
    simp only [Common.Limits.hcsSigMaxLen]
    omega
  constructor
  · rintro h body value rfl hnumbered hvalue hlen hdecodes
    obtain ⟨out, hout⟩ := Option.isSome_iff_exists.mp hdecodes
    obtain ⟨record, hparse, hhas, hsignature⟩ :=
      sdParseBody_signed hnumbered hvalue hlen hout
    rw [← hcsParseSd_body] at hparse
    have hwithin := ((h record hparse).2 hhas).1
    rw [hsignature, hblocks value out hout] at hwithin
    exact (hgroups _).mp hwithin
  · intro h record hparse
    obtain ⟨body, hsd, hbody⟩ := hcsParseSd_some hparse
    have hread := sdParseBody_read hbody
    constructor
    · obtain ⟨alg, halg⟩ := hread.width
      cases alg with
      | sha256 => exact .inl halg
      | sha384 => exact .inr (.inl halg)
      | sha512 => exact .inr (.inr halg)
    · intro hhas
      obtain ⟨value, out, hvalue, hlen, hout, hsignature, hle⟩ :=
        hread.signature hhas
      have hfits := (hgroups _).mpr
        (h body value hsd hread.numbered hvalue hlen (by rw [hout]; rfl))
      rw [← hblocks value out hout] at hfits
      exact ⟨by rwa [hsignature], hle.trans hfits⟩

def signedElement : Bytes :=
  elementText (sigParams 2 (List.replicate 32 0) 1 2 (List.replicate 64 0))

theorem recordWithin_iff_sample :
    (hcsParseSd sampleOpenSSL signedElement).any (·.hasSignature) = true ∧
      RecordWithin sampleOpenSSL signedElement ∧
      SignatureSymbolsFit sampleOpenSSL signedElement := by
  have hcheck : (hcsParseSd sampleOpenSSL signedElement).all (fun record =>
      record.chainHashLen == 32 &&
        decide (record.signature.length ≤ Common.Limits.hcsSigMaxLen) &&
        decide (record.sigLen ≤ Common.Limits.hcsSigMaxLen)) = true := by
    decide +kernel
  have hwithin : RecordWithin sampleOpenSSL signedElement := by
    intro record hrecord
    rw [hrecord] at hcheck
    simp only [Option.all_some, Bool.and_eq_true, beq_iff_eq,
      decide_eq_true_eq] at hcheck
    exact ⟨.inl hcheck.1.1, fun _ => ⟨hcheck.1.2, hcheck.2⟩⟩
  refine ⟨by decide +kernel, hwithin, ?_⟩
  exact (recordWithin_iff sampleOpenSSL sample_writesBlocks signedElement).mp
    hwithin

def longSignature : Bytes :=
  elementText [(ascii "q", ascii "1"), (ascii "h", List.replicate 64 48),
    (ascii "s", List.replicate 196 65)]

/-- The decoder writes 147 bytes for a field of 144. -/
theorem recordWithin_fails : ¬ RecordWithin sampleOpenSSL longSignature := by
  have hparse : ∃ record, hcsParseSd sampleOpenSSL longSignature =
      some record ∧ record.hasSignature = true ∧
      record.signature.length = 147 := by
    have hcheck : (hcsParseSd sampleOpenSSL longSignature).any (fun record =>
        record.hasSignature && record.signature.length == 147) = true := by
      decide +kernel
    obtain ⟨record, hrecord, hfields⟩ := (Option.any_eq_true _ _).mp hcheck
    simp only [Bool.and_eq_true, beq_iff_eq] at hfields
    exact ⟨record, hrecord, hfields⟩
  obtain ⟨record, hrecord, hhas, hlen⟩ := hparse
  intro h
  have hwithin := ((h record hrecord).2 hhas).1
  rw [hlen] at hwithin
  exact absurd hwithin (by decide)

end MmHashChainSigs.Verify
