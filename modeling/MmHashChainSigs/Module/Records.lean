import MmHashChainSigs.Module.Calls

/-!
# The record of an element

What the core writes is one chain element, with at most a certificate element
behind it, and parses to the record that it was written for.
-/

namespace MmHashChainSigs.Module

open MmHashChainSigs.Foundation
open MmHashChainSigs.Common

variable {ossl : OpenSSL}

def emittedRecord (ossl : OpenSSL) (sd : Bytes) : Option HcsSdRecord :=
  match hcsStripSdFromLine ossl sd 0 (sd.length + 1) with
  | .ok (_, _, record) => some record
  | .error _ => none

structure ParsesTo (ossl : OpenSSL) (params : List (Bytes × Bytes))
    (record : HcsSdRecord) : Prop where
  plain : ∀ param ∈ params, PlainName param.1 ∧ Plain param.2
  parse : sdParseBody ossl (sdParams params) = some record

theorem Element.parses {privkey : ossl.Pkey} {fp : Bytes}
    {next : HashchainCtx} {sigSeqFrom : UInt64} {sd : Bytes}
    {record : HcsSdRecord} (hfp : fp.length = Common.Limits.hcsHashLen)
    (h : Element ossl privkey fp next sigSeqFrom sd record) :
    ∃ params cert, sd = elementText params ++ cert ∧ CertSuffix cert ∧
      ParsesTo ossl params record := by
  have hwidth := next.current_length
  cases h with
  | @init cert hcert =>
      have hletter : ascii "I" = [73] := rfl
      exact ⟨_, cert, rfl, hcert,
        initParams_plain "I" (by decide +kernel) _ _ _,
        sdParseBody_init ossl hletter (by decide +kernel) _ hwidth hfp⟩
  | msg =>
      exact ⟨_, [], by simp, .inl rfl, msgParams_plain _ _,
        sdParseBody_msg ossl _ hwidth⟩
  | sig hsig =>
      exact ⟨_, [], by simp, .inl rfl, sigParams_plain _ _ _ _ _,
        sdParseBody_sig ossl _ hwidth _ _ (hcsSign_length ossl hsig)⟩

theorem Element.record {privkey : ossl.Pkey} {fp : Bytes}
    {next : HashchainCtx} {sigSeqFrom : UInt64} {sd : Bytes}
    {record : HcsSdRecord} (hfp : fp.length = Common.Limits.hcsHashLen)
    (h : Element ossl privkey fp next sigSeqFrom sd record) :
    emittedRecord ossl sd = some record := by
  obtain ⟨params, cert, rfl, -, hplain, hparse⟩ := Element.parses hfp h
  have hstrip := hcsStripSdFromLine_elementText ossl hplain hparse
    (show ¬ sdPrefix hcsSdId <:+: ([] : Bytes) by decide) 0
    (show ([] : Bytes).length + cert.length <
      (elementText params ++ cert).length + 1 by
      simp only [List.length_nil, List.length_append]
      omega)
  rw [List.nil_append] at hstrip
  unfold emittedRecord
  rw [hstrip]

/-! ## The bytes of an element -/

def Inner (text : Bytes) : Prop := ∀ c ∈ text, 32 ≤ c ∧ c ≠ 91

instance (text : Bytes) : Decidable (Inner text) :=
  decidable_of_iff (text.all fun c => decide (32 ≤ c ∧ c ≠ 91))
    (by simp only [List.all_eq_true, decide_eq_true_eq, Inner])

theorem Inner.append {text more : Bytes} (h : Inner text)
    (h' : Inner more) : Inner (text ++ more) := by
  intro c hc
  rcases List.mem_append.mp hc with hc | hc
  · exact h c hc
  · exact h' c hc

theorem inner_decimal (n : Nat) : Inner (decimal n) := by
  intro c hc
  have hdigit := decimal_isDigit hc
  simp only [isDigit, Bool.and_eq_true, decide_eq_true_eq] at hdigit
  refine ⟨UInt8.le_trans (show (32 : UInt8) ≤ 48 by decide) hdigit.1, ?_⟩
  rintro rfl
  exact absurd hdigit.2 (by decide)

theorem inner_hexText (bytes : Bytes) : Inner (hexText bytes) := by
  intro c hc
  obtain ⟨n, hn, rfl⟩ := mem_hexText hc
  interval_cases n <;> decide

theorem inner_encode (bytes : Bytes) : Inner (Base64.encode bytes) := by
  intro c hc
  rcases Base64.mem_encode hc with rfl | ⟨n, hn, rfl⟩
  · decide
  · interval_cases n <;> decide

theorem inner_sdParams {params : List (Bytes × Bytes)}
    (h : ∀ param ∈ params, Inner param.1 ∧ Inner param.2) :
    Inner (sdParams params) := by
  have hparam : ∀ param : Bytes × Bytes, Inner param.1 ∧ Inner param.2 →
      Inner (sdParam param.1 param.2) := by
    rintro param ⟨hname, hvalue⟩
    have hequals : Inner (ascii "=\"") := by decide +kernel
    have hquote : Inner [quoteByte] := by decide +kernel
    exact ((hname.append hequals).append hvalue).append hquote
  induction params with
  | nil => exact fun c hc => absurd hc List.not_mem_nil
  | cons param params ih =>
      rw [List.forall_mem_cons] at h
      cases params with
      | nil => exact hparam param h.1
      | cons next rest =>
          have hblank : Inner [32] := by decide +kernel
          exact (hparam param h.1).append (hblank.append (ih h.2))

theorem sdCertText_inner {b64 : Bytes} (h : Inner b64) :
    ∃ inside, sdCertText b64 =
        sdPrefix hcsSdCertId ++ (inside ++ [bracketByte]) ∧
      Inner inside := by
  have hkey : Inner (ascii "cert=\"") := by decide +kernel
  have hquote : Inner [quoteByte] := by decide +kernel
  refine ⟨ascii "cert=\"" ++ (b64 ++ [quoteByte]), ?_,
    hkey.append (h.append hquote)⟩
  simp [sdCertText, ascii, quoteByte, bracketByte]

theorem Element.inner {privkey : ossl.Pkey} {fp : Bytes}
    {next : HashchainCtx} {sigSeqFrom : UInt64} {sd : Bytes}
    {record : HcsSdRecord}
    (h : Element ossl privkey fp next sigSeqFrom sd record) :
    ∃ params cert, sd = elementText params ++ cert ∧
      Inner (sdParams params) ∧
      (cert = [] ∨ ∃ inside, Inner inside ∧
        cert = sdPrefix hcsSdCertId ++ (inside ++ [bracketByte])) := by
  cases h with
  | @init cert hcert =>
      refine ⟨_, cert, rfl, inner_sdParams ?_, ?_⟩
      · simp only [initParams, List.forall_mem_cons]
        exact ⟨⟨by decide +kernel, by decide +kernel⟩,
          ⟨by decide +kernel, inner_decimal _⟩,
          ⟨by decide +kernel, inner_hexText _⟩,
          ⟨by decide +kernel, inner_hexText _⟩, by simp⟩
      · rcases hcert with rfl | ⟨der, -, rfl⟩
        · exact .inl rfl
        · obtain ⟨inside, htext, hinside⟩ := sdCertText_inner (inner_encode der)
          exact .inr ⟨inside, hinside, htext⟩
  | msg =>
      refine ⟨_, [], (List.append_nil _).symm, inner_sdParams ?_, .inl rfl⟩
      simp only [msgParams, List.forall_mem_cons]
      exact ⟨⟨by decide +kernel, inner_decimal _⟩,
        ⟨by decide +kernel, inner_hexText _⟩, by simp⟩
  | sig hsig =>
      refine ⟨_, [], (List.append_nil _).symm, inner_sdParams ?_, .inl rfl⟩
      simp only [sigParams, List.forall_mem_cons]
      exact ⟨⟨by decide +kernel, by decide +kernel⟩,
        ⟨by decide +kernel, inner_decimal _⟩,
        ⟨by decide +kernel, inner_hexText _⟩,
        ⟨by decide +kernel, inner_decimal _⟩,
        ⟨by decide +kernel, inner_decimal _⟩,
        ⟨by decide +kernel, inner_encode _⟩, by simp⟩

theorem Element.printable {privkey : ossl.Pkey} {fp : Bytes}
    {next : HashchainCtx} {sigSeqFrom : UInt64} {sd : Bytes}
    {record : HcsSdRecord}
    (h : Element ossl privkey fp next sigSeqFrom sd record) :
    ∀ c ∈ sd, 32 ≤ c := by
  obtain ⟨params, cert, rfl, hparams, hcert⟩ := h.inner
  have hchain : (sdPrefix hcsSdId).all (32 ≤ ·) := by decide +kernel
  have hsuffix : (sdPrefix hcsSdCertId).all (32 ≤ ·) := by decide +kernel
  intro c hc
  simp only [elementText, List.mem_append, List.mem_singleton] at hc
  rcases hc with (hc | hc | rfl) | hc
  · simpa using List.all_eq_true.mp hchain c hc
  · exact (hparams c hc).1
  · decide
  · rcases hcert with rfl | ⟨inside, hinside, rfl⟩
    · cases hc
    · simp only [List.mem_append, List.mem_singleton] at hc
      rcases hc with hc | hc | rfl
      · simpa using List.all_eq_true.mp hsuffix c hc
      · exact (hinside c hc).1
      · decide

end MmHashChainSigs.Module
