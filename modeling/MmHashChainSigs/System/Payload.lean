import MmHashChainSigs.Common.CertElement
import MmHashChainSigs.System.Simulation
import MmHashChainSigs.Verify.Strip

/-!
# The payload of a stored line

The verifier takes the chain element and one certificate element out of a line
and hashes what is left.  This is the payload that was signed, unless the
payload itself brings the start of a certificate element, is too long, or lost
its end at a NUL byte.
-/

namespace MmHashChainSigs.System

open MmHashChainSigs.Foundation
open MmHashChainSigs.Common
open MmHashChainSigs.Module
open MmHashChainSigs.Verify

variable {ossl : OpenSSL}

/-- The two strip passes give the payload, and no error. -/
def Restores (ossl : OpenSSL) (line payload : Bytes) : Prop :=
  ∃ s, stripLine ossl line = some s ∧ s.malformed = false ∧ s.msg = payload

/-! ## The second pass -/

theorem sdCertText_ne_nil (b64 : Bytes) : sdCertText b64 ≠ [] := by
  simp [sdCertText, sdPrefix, ascii]

def CertStrip.left : CertStrip → Option Bytes
  | .failed => none
  | .absent msg => some msg
  | .stripped msg _ _ => some msg

theorem extract_plain_iff (ossl : OpenSSL) {payload : Bytes} {cap : Nat}
    (hcap : payload.length < cap) :
    CertStrip.left (hcsExtractAndStripCertSd ossl payload cap) =
        some payload ↔ ¬ sdPrefix hcsSdCertId <:+: payload := by
  constructor
  · intro h
    have hspec := @hcsExtractAndStripCertSd_spec ossl payload cap
    cases hstrip : hcsExtractAndStripCertSd ossl payload cap with
    | failed =>
        rw [hstrip] at h
        cases h
    | absent msg =>
        rw [hstrip] at hspec
        exact hspec.2
    | stripped msg der derLen =>
        rw [hstrip] at h hspec
        obtain ⟨before, value, after, hpayload, -, -, -, hmsg, -⟩ := hspec
        cases h
        rw [hmsg] at hpayload
        have hlength := congrArg List.length hpayload
        simp only [List.length_append] at hlength
        exact absurd (List.length_eq_zero_iff.mp (by omega))
          (sdCertText_ne_nil value)
  · intro habsent
    have hfind := (findSub_eq_none_iff _ _).mpr habsent
    simp only [hcsExtractAndStripCertSd, hfind]
    rw [if_neg (by omega)]
    rfl

/-- The signer's own certificate shields the payload behind it. -/
theorem extract_cert_iff (ossl : OpenSSL) {cert payload : Bytes}
    (hcert : CertSuffix cert) {cap : Nat}
    (hcap : cert.length + payload.length < cap) :
    CertStrip.left (hcsExtractAndStripCertSd ossl (cert ++ payload) cap) =
        some payload ↔
      cert ≠ [] ∨ ¬ sdPrefix hcsSdCertId <:+: payload := by
  rcases hcert with rfl | ⟨der, -, rfl⟩
  · rw [List.nil_append, extract_plain_iff ossl (by simpa using hcap)]
    simp
  · have hstrip := hcsExtractAndStripCertSd_certText ossl der
      (show ¬ sdPrefix hcsSdCertId <:+: ([] : Bytes) by decide) payload
      (show ([] : Bytes).length + payload.length < cap by
        simp only [List.length_nil]
        omega)
    rw [List.nil_append, List.nil_append] at hstrip
    rw [hstrip]
    exact iff_of_true rfl (.inl (sdCertText_ne_nil _))

theorem extract_cert_length {cert rest out : Bytes} (hcert : CertSuffix cert)
    {cap : Nat} (hcap : (cert ++ rest).length < cap)
    (h : CertStrip.left (hcsExtractAndStripCertSd ossl (cert ++ rest) cap) =
      some out) : out.length ≤ rest.length := by
  rcases hcert with rfl | ⟨der, -, rfl⟩
  · rw [List.nil_append] at h hcap
    have hspec := @hcsExtractAndStripCertSd_spec ossl rest cap
    cases hstrip : hcsExtractAndStripCertSd ossl rest cap with
    | failed =>
        rw [hstrip] at h
        cases h
    | absent msg =>
        rw [hstrip] at h hspec
        cases h
        rw [hspec.1]
    | stripped msg der derLen =>
        rw [hstrip] at h hspec
        obtain ⟨before, value, after, hrest, -, -, -, hmsg, -⟩ := hspec
        cases h
        rw [hmsg, hrest]
        simp only [List.length_append]
        omega
  · have hstrip := hcsExtractAndStripCertSd_certText ossl der
      (show ¬ sdPrefix hcsSdCertId <:+: ([] : Bytes) by decide) rest
      (show ([] : Bytes).length + rest.length < cap by
        rw [List.length_append] at hcap
        simp only [List.length_nil]
        omega)
    rw [List.nil_append, List.nil_append] at hstrip
    rw [hstrip] at h
    cases h
    exact Nat.le_refl _

/-! ## Both passes -/

section Line

variable {params : List (Bytes × Bytes)} {record : HcsSdRecord}

theorem stripLine_fits (hparams : ParsesTo ossl params record)
    {after : Bytes} {s : StrippedLine}
    (h : stripLine ossl (elementText params ++ after) = some s) :
    after.length < Limits.sdMsgBufLen := by
  unfold stripLine at h
  split at h
  · cases h
  next n msg sd hchain =>
    obtain ⟨before, element, after', hline, hbefore, helement, -, hmsg,
      hcap⟩ := hcsStripSdFromLine_ok hchain
    have hown : ChainElement (elementText params) :=
      chainElement_elementText fun param hparam =>
        ⟨(hparams.plain param hparam).1.1, (hparams.plain param hparam).2⟩
    obtain ⟨hnil, rfl⟩ := chainElement_unique
      (show ¬ sdPrefix hcsSdId <:+: ([] : Bytes) by decide) hbefore hown
      helement hline
    rw [hmsg, ← hnil] at hcap
    exact hcap

theorem restores_extract (hparams : ParsesTo ossl params record)
    {after : Bytes} (hlen : after.length < Limits.sdMsgBufLen)
    (payload : Bytes) :
    Restores ossl (elementText params ++ after) payload ↔
      CertStrip.left (hcsExtractAndStripCertSd ossl after
        Limits.sdMsgBufLen) = some payload := by
  have hchain := hcsStripSdFromLine_elementText ossl hparams.plain
    hparams.parse (show ¬ sdPrefix hcsSdId <:+: ([] : Bytes) by decide) 0
    (show ([] : Bytes).length + after.length < Limits.sdMsgBufLen by simpa)
  rw [List.nil_append, List.nil_append] at hchain
  unfold Restores stripLine
  simp only [hchain]
  cases hcsExtractAndStripCertSd ossl after Limits.sdMsgBufLen with
  | failed => simp [CertStrip.left]
  | absent msg => simp [CertStrip.left]
  | stripped msg der derLen => simp [CertStrip.left]

theorem Restores.fits (hparams : ParsesTo ossl params record)
    {after payload : Bytes}
    (h : Restores ossl (elementText params ++ after) payload) :
    after.length < Limits.sdMsgBufLen := by
  obtain ⟨s, hstrip, -⟩ := h
  exact stripLine_fits hparams hstrip

theorem restores_iff (hparams : ParsesTo ossl params record) {cert : Bytes}
    (hcert : CertSuffix cert) (payload : Bytes) :
    Restores ossl (elementText params ++ (cert ++ payload)) payload ↔
      cert.length + payload.length < Limits.sdMsgBufLen ∧
        (cert ≠ [] ∨ ¬ sdPrefix hcsSdCertId <:+: payload) := by
  constructor
  · intro h
    have hlen := h.fits hparams
    have hsum := hlen
    rw [List.length_append] at hsum
    refine ⟨hsum, ?_⟩
    rw [← extract_cert_iff ossl hcert hsum, ← restores_extract hparams hlen]
    exact h
  · rintro ⟨hsum, hshielded⟩
    rw [restores_extract hparams (by rwa [List.length_append]),
      extract_cert_iff ossl hcert hsum]
    exact hshielded

end Line

/-! ## Lines of an action -/

/-- The text that the signer wrote behind its chain element. -/
def certPart (sd : Bytes) : Bytes :=
  (sdScanLine false (sd.drop (sdPrefix hcsSdId).length)).getD []

theorem certPart_elementText {params : List (Bytes × Bytes)}
    {record : HcsSdRecord} (hparams : ParsesTo ossl params record)
    (cert : Bytes) : certPart (elementText params ++ cert) = cert := by
  have hscan := sdScanLine_sdParams (fun param hparam =>
    ⟨(hparams.plain param hparam).1.1, (hparams.plain param hparam).2⟩) cert
  have htext : elementText params ++ cert =
      sdPrefix hcsSdId ++ (sdParams params ++ bracketByte :: cert) := by
    simp [elementText]
  rw [certPart, htext, List.drop_left, hscan]
  rfl

theorem doAction_emission {faults : ActionFaults} {wrkr : Worker ossl}
    {stateFile : Option Bytes} {msg : SyslogMsg} {emission : Emission}
    (h : (doAction faults wrkr stateFile msg).emission = some emission) :
    ∃ newSd cleaned, (doAction faults wrkr stateFile msg).newSd = some newSd ∧
      cleanedSd faults msg = .ok cleaned ∧
      newSd = emission.sd ++ cString cleaned ∧
      emission.payload = cleaned ++ msg.msg ∧
      emission.line = storedLine newSd msg ∧
      ∃ privkey fp next sigSeqFrom record,
        fp.length = Common.Limits.hcsHashLen ∧
        Element ossl privkey fp next sigSeqFrom emission.sd record := by
  revert h
  unfold doAction
  cases cleanedSd faults msg with
  | error ret => exact nofun
  | ok cleaned =>
      simp only
      cases faults.payload with
      | true => exact nofun
      | false =>
        simp only [Bool.false_eq_true, if_false]
        cases hsd : (mmhashchainsigsProcessMsg faults.core wrkr stateFile
            (cleaned ++ msg.msg) Common.Limits.hcsSdWithCertMaxLen).1.sd with
        | none => exact nofun
        | some sd =>
            cases faults.newSd with
            | true => exact nofun
            | false =>
              intro h
              cases h
              obtain ⟨privkey, fp, next, sigSeqFrom, record, hfp, helement⟩ :=
                processMsg_some hsd
              have hsd : 0 ∉ sd := fun hmem =>
                absurd (helement.printable 0 hmem) (by decide)
              exact ⟨_, cleaned, rfl, rfl, cString_append hsd cleaned, rfl, rfl,
                privkey, fp, next, sigSeqFrom, record, hfp, helement⟩

/--
The verifier hashes the payload of an action exactly when the cleaned data has
no NUL byte, the certificate and the payload fit its buffer, and the payload,
unless the signer's certificate stands in front, does not bring the start of a
certificate element.
-/
theorem doAction_restores_iff (ossl : OpenSSL) (faults : ActionFaults)
    (wrkr : Worker ossl) (stateFile : Option Bytes) (msg : SyslogMsg)
    (emission : Emission)
    (h : (doAction faults wrkr stateFile msg).emission = some emission) :
    ∃ newSd cleaned, (doAction faults wrkr stateFile msg).newSd = some newSd ∧
      cleanedSd faults msg = .ok cleaned ∧
      (Restores ossl (storedLine newSd msg) emission.payload ↔
        0 ∉ cleaned ∧
          (certPart emission.sd).length + emission.payload.length <
            Limits.sdMsgBufLen ∧
          (certPart emission.sd ≠ [] ∨
            ¬ sdPrefix hcsSdCertId <:+: emission.payload)) := by
  obtain ⟨newSd, cleaned, hnewSd, hcleaned, hdata, hpayload, -, privkey, fp,
    next, sigSeqFrom, record, hfp, helement⟩ := doAction_emission h
  obtain ⟨params, cert, hsd, hcert, hparams⟩ := Element.parses hfp helement
  refine ⟨newSd, cleaned, hnewSd, hcleaned, ?_⟩
  have hline : storedLine newSd msg =
      elementText params ++ (cert ++ (cString cleaned ++ msg.msg)) := by
    rw [storedLine, hdata, hsd]
    simp only [List.append_assoc]
  rw [hline, hsd, certPart_elementText hparams]
  by_cases hnul : 0 ∈ cleaned
  · -- The stored line is too short to give the payload back.
    refine iff_of_false ?_ fun hall => hall.1 hnul
    intro hrestores
    have hlen := hrestores.fits hparams
    have hleft := (restores_extract hparams hlen _).mp hrestores
    have hshort := extract_cert_length hcert hlen hleft
    have hcut := cString_length_lt hnul
    rw [hpayload, List.length_append, List.length_append] at hshort
    omega
  · rw [cString_of_not_mem hnul, ← hpayload, and_iff_right hnul]
    exact restores_iff hparams hcert emission.payload

def sampleMsg (body : Bytes) : SyslogMsg where
  pri := 13
  ts := none
  host := none
  app := none
  procid := none
  msgid := none
  sd := none
  msg := body

def freshWorker : Worker sampleOpenSSL where
  inst := { privkeyPath := [7] }

theorem doAction_restores_iff_sample :
    ∃ emission : Emission, ∃ newSd cleaned,
      (doAction {} freshWorker none (sampleMsg [97])).newSd = some newSd ∧
      cleanedSd {} (sampleMsg [97]) = .ok cleaned ∧
      (Restores sampleOpenSSL (storedLine newSd (sampleMsg [97]))
          emission.payload ↔
        0 ∉ cleaned ∧
          (certPart emission.sd).length + emission.payload.length <
            Limits.sdMsgBufLen ∧
          (certPart emission.sd ≠ [] ∨
            ¬ sdPrefix hcsSdCertId <:+: emission.payload)) := by
  obtain ⟨emission, hemission⟩ := Option.isSome_iff_exists.mp
    (show (doAction {} freshWorker none (sampleMsg [97])).emission.isSome by
      decide +kernel)
  exact ⟨emission, doAction_restores_iff sampleOpenSSL {} freshWorker none
    (sampleMsg [97]) emission hemission⟩

def poisonedMsg : SyslogMsg := sampleMsg (sdPrefix hcsSdCertId)

/-- A line that was signed as it should be, and that the verifier rejects. -/
theorem poisoned_line_fails :
    ∃ emission : Emission, ∃ newSd,
      (doAction {} freshWorker none poisonedMsg).emission = some emission ∧
      (doAction {} freshWorker none poisonedMsg).newSd = some newSd ∧
      ¬ Restores sampleOpenSSL (storedLine newSd poisonedMsg)
        emission.payload ∧
      verifierPassed (verifierFinalize (feed (sampleCtx false)
        [{ line := storedLine newSd poisonedMsg }])) = false := by
  obtain ⟨emission, hemission⟩ := Option.isSome_iff_exists.mp
    (show (doAction {} freshWorker none poisonedMsg).emission.isSome by
      decide +kernel)
  obtain ⟨newSd, -, hnewSd, -⟩ := doAction_emission hemission
  have hline : ∀ newSd ∈ (doAction {} freshWorker none poisonedMsg).newSd,
      (∀ s ∈ stripLine sampleOpenSSL (storedLine newSd poisonedMsg),
        s.malformed = true) ∧
      verifierPassed (verifierFinalize (feed (sampleCtx false)
        [{ line := storedLine newSd poisonedMsg }])) = false := by
    decide +kernel
  obtain ⟨hmalformed, hfails⟩ := hline newSd hnewSd
  refine ⟨emission, newSd, hemission, hnewSd, ?_, hfails⟩
  rintro ⟨s, hstrip, hclean, -⟩
  rw [hmalformed s hstrip] at hclean
  cases hclean

end MmHashChainSigs.System
