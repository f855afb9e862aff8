import MmHashChainSigs.Common.RoundTrip
import MmHashChainSigs.Verify.Grammar

/-!
# CA-bundle mode

The certificate of an INIT line is looked at while no key is installed, that
is, on the first chain only.  A later INIT is judged by the installed key, so
the trust rule holds exactly while the later lines leave it nothing to decide.
-/

namespace MmHashChainSigs.Verify

open MmHashChainSigs.Foundation
open MmHashChainSigs.Common

variable {ossl : OpenSSL}

/-! ## The state behind an INIT record -/

def Opens (faults : VerifyFaults) (ctx : VerifierCtx ossl)
    (sd : HcsSdRecord) : Prop :=
  (∃ alg, sd.chainHashLen = hcsHashLen alg ∧
      (ctx.haveHashAlg = true → ctx.hashAlg = alg)) ∧
    faults.chainInit = false ∧ faults.hashChain = false

def Leaves (ctx : VerifierCtx ossl) (pubkey : Option ossl.Pkey)
    (fp : Bytes) : Prop :=
  ctx.state = .processing ∧ ctx.pubkey = pubkey ∧ ctx.pubkeyFp = fp

theorem initTail_frame (ctx : VerifierCtx ossl) (lineNum : UInt64) :
    (initTail ctx lineNum).pubkey = ctx.pubkey ∧
      (initTail ctx lineNum).pubkeyFp = ctx.pubkeyFp ∧
      (initTail ctx lineNum).haveHashAlg = ctx.haveHashAlg ∧
      (initTail ctx lineNum).hashAlg = ctx.hashAlg := by
  unfold initTail
  split_ifs
  · exact ⟨rfl, rfl, rfl, rfl⟩
  · exact ⟨rfl, rfl, rfl, rfl⟩

theorem initChain_of_opens {faults : VerifyFaults} {ctx : VerifierCtx ossl}
    {sd : HcsSdRecord} (h : Opens faults ctx sd) (msg : Bytes)
    (lineNum : UInt64) :
    Leaves (initChain faults ctx sd msg lineNum).1 ctx.pubkey ctx.pubkeyFp := by
  obtain ⟨⟨alg, hwidth, hlock⟩, hiv, hruns⟩ := h
  have hfree : ¬ (ctx.haveHashAlg = true ∧ ctx.hashAlg ≠ alg) := by
    rintro ⟨hhave, hne⟩
    exact hne (hlock hhave)
  simp only [initChain, hwidth, hcsHashAlgFromHexLen_hcsHashLen, if_neg hfree,
    hcsChainInitHash, hiv, Bool.false_eq_true, if_false, verifySdMsgHash,
    ne_eq, addErrorIf_hashLen, not_true_eq_false, hcsHashChain, hruns]
  exact ⟨rfl, rfl, rfl⟩

theorem initChain_of_not_opens {faults : VerifyFaults}
    {ctx : VerifierCtx ossl} {sd : HcsSdRecord} (h : ¬ Opens faults ctx sd)
    (msg : Bytes) (lineNum : UInt64) :
    (initChain faults ctx sd msg lineNum).1.state = .error := by
  unfold initChain
  split
  · rfl
  next alg halg =>
    have hwidth : sd.chainHashLen = hcsHashLen alg := by
      have := hcsHashAlgFromHexLen_eq_some.mp halg
      omega
    split_ifs with hlock
    · rfl
    · cases hiv : faults.chainInit with
      | true => rfl
      | false =>
          cases hruns : faults.hashChain with
          | true =>
              simp [hcsChainInitHash, verifySdMsgHash, hcsHashChain, hruns,
                hwidth, setError]
          | false =>
              refine absurd ⟨⟨alg, hwidth, fun hhave => ?_⟩, hiv, hruns⟩ h
              by_contra hne
              exact hlock ⟨hhave, hne⟩

structure KeyStage (faults : VerifyFaults) (ctx ctx' : VerifierCtx ossl)
    (sd : HcsSdRecord) (certDer : Bytes) : Prop where
  hasFp : sd.hasPubkeyFp = true
  trust : trusted faults ctx certDer = some ctx'
  havePubkey : ctx'.havePubkey = true
  fp : sd.pubkeyFp = ctx'.pubkeyFp

theorem handleSdInit_of_keyStage {faults : VerifyFaults}
    {ctx ctx' : VerifierCtx ossl} {sd : HcsSdRecord} {certDer : Bytes}
    (h : KeyStage faults ctx ctx' sd certDer) (msg : Bytes)
    (lineNum : UInt64) :
    handleSdInit faults ctx sd msg certDer lineNum =
      initChain faults (initTail ctx' lineNum) sd msg lineNum := by
  simp [handleSdInit, h.hasFp, initTrust_of_trusted h.trust, h.havePubkey,
    h.fp]

theorem handleSdInit_of_not_keyStage {faults : VerifyFaults}
    {ctx : VerifierCtx ossl} {sd : HcsSdRecord} {certDer : Bytes}
    (h : ∀ ctx', ¬ KeyStage faults ctx ctx' sd certDer) (msg : Bytes)
    (lineNum : UInt64) :
    (handleSdInit faults ctx sd msg certDer lineNum).1.state = .error := by
  unfold handleSdInit
  by_cases hfp : sd.hasPubkeyFp = true
  · rw [if_neg (not_not.mpr hfp)]
    cases htrust : trusted faults ctx certDer with
    | none =>
        have hrc := (initTrust_of_not_trusted htrust lineNum).1
        simp [hrc, setError]
    | some ctx' =>
        rw [initTrust_of_trusted htrust]
        by_cases hhave : ctx'.havePubkey = true
        · have hne : sd.pubkeyFp ≠ ctx'.pubkeyFp := fun heq =>
            h ctx' ⟨hfp, htrust, hhave, heq⟩
          simp [hhave, hne, setError]
        · simp [hhave, setError]
  · rw [if_pos hfp]
    rfl

theorem opens_initTail {faults : VerifyFaults} {ctx : VerifierCtx ossl}
    {sd : HcsSdRecord} (lineNum : UInt64) :
    Opens faults (initTail ctx lineNum) sd ↔ Opens faults ctx sd := by
  obtain ⟨-, -, hhave, halg⟩ := initTail_frame ctx lineNum
  unfold Opens
  rw [hhave, halg]

/-! ## An INIT line -/

def InitLine (ctx : VerifierCtx ossl) (call : VerifyCall)
    (s : StrippedLine) : Prop :=
  Live ctx ∧ stripLine ossl call.line = some s ∧ s.sd.type = .init

def CertifiedBy (store : ossl.Store) (call : VerifyCall) (s : StrippedLine)
    (key : ossl.Pkey × Bytes) : Prop :=
  s.certDer ≠ [] ∧ certifiedKey call.faults store s.certDer = some key

theorem processCall_initLine {ctx : VerifierCtx ossl} {call : VerifyCall}
    {s : StrippedLine} (h : InitLine ctx call s) :
    ∃ errors, processCall ctx call = handleSdInit call.faults
      { ctx with errors := errors } s.sd s.msg s.certDer call.lineNum := by
  obtain ⟨hlive, hstrip, htype⟩ := h
  refine ⟨(addErrorIf (s.malformed = true) ctx call.lineNum
    (ascii "malformed embedded cert SD element")).errors, ?_⟩
  simp only [processCall, verifierProcessLine, if_neg hlive.not_stopped,
    hstrip, htype, ne_eq, not_true_eq_false, and_false, if_false, handleSd]
  rfl

/-- The rule for one INIT line, with the trust store of the run. -/
structure InitTrusted (store : ossl.Store) (ctx : VerifierCtx ossl)
    (call : VerifyCall) (s : StrippedLine) : Prop where
  validated : (processCall ctx call).1.state = .processing →
    ∃ key, CertifiedBy store call s key ∧
      (processCall ctx call).1.pubkey = some key.1 ∧
      (processCall ctx call).1.pubkeyFp = key.2
  accepted : ∀ key, CertifiedBy store call s key → s.sd.hasPubkeyFp = true →
    s.sd.pubkeyFp = key.2 → Opens call.faults ctx s.sd →
    Leaves (processCall ctx call).1 (some key.1) key.2
  rejected : (∀ key, ¬ CertifiedBy store call s key) →
    (processCall ctx call).1.state = .error

/--
A line that meets an installed key: it repeats the fingerprint with the valid
certificate of that key, or its own fingerprint comes without a valid one.
-/
def KeyRepeats (store : ossl.Store) (ctx : VerifierCtx ossl)
    (call : VerifyCall) (s : StrippedLine) : Prop :=
  ctx.havePubkey = true → s.sd.hasPubkeyFp = true →
    Opens call.faults ctx s.sd →
    (s.sd.pubkeyFp = ctx.pubkeyFp → ∃ key, CertifiedBy store call s key ∧
      ctx.pubkey = some key.1 ∧ ctx.pubkeyFp = key.2) ∧
    (s.sd.pubkeyFp ≠ ctx.pubkeyFp →
      ¬ ∃ key, CertifiedBy store call s key ∧ s.sd.pubkeyFp = key.2)

theorem trusted_withErrors (faults : VerifyFaults) (ctx : VerifierCtx ossl)
    (errors : List VerifierError) (certDer : Bytes) :
    trusted faults { ctx with errors := errors } certDer =
      (trusted faults ctx certDer).map fun ctx' =>
        { ctx' with errors := errors } := by
  by_cases hkey : ctx.trustStore = none ∨ ctx.havePubkey = true
  · rw [(trusted_of_key hkey faults certDer 0).1]
    exact (@trusted_of_key ossl { ctx with errors := errors } hkey faults
      certDer 0).1
  · rw [not_or, Bool.not_eq_true] at hkey
    obtain ⟨store, hstore⟩ := Option.ne_none_iff_exists'.mp hkey.1
    rw [trusted_of_store hstore hkey.2,
      @trusted_of_store ossl { ctx with errors := errors } store hstore hkey.2]
    split_ifs
    · rfl
    · cases certifiedKey faults store certDer <;> rfl

theorem trusted_alg {faults : VerifyFaults} {ctx ctx' : VerifierCtx ossl}
    {certDer : Bytes} (h : trusted faults ctx certDer = some ctx') :
    ctx'.haveHashAlg = ctx.haveHashAlg ∧ ctx'.hashAlg = ctx.hashAlg := by
  rcases trusted_cases h with rfl | ⟨key, rfl⟩
  · exact ⟨rfl, rfl⟩
  · exact ⟨rfl, rfl⟩

theorem processCall_init_cases {ctx : VerifierCtx ossl} {call : VerifyCall}
    {s : StrippedLine} (h : InitLine ctx call s) :
    (∃ ctx', KeyStage call.faults ctx ctx' s.sd s.certDer ∧
      Opens call.faults ctx s.sd ∧
      Leaves (processCall ctx call).1 ctx'.pubkey ctx'.pubkeyFp) ∨
    (¬ (∃ ctx', KeyStage call.faults ctx ctx' s.sd s.certDer ∧
        Opens call.faults ctx s.sd) ∧
      (processCall ctx call).1.state = .error) := by
  obtain ⟨errors, hcall⟩ := processCall_initLine h
  rw [hcall]
  by_cases hstage : ∃ ctx', KeyStage call.faults ctx ctx' s.sd s.certDer
  · obtain ⟨ctx', hstage⟩ := hstage
    have hstage' : KeyStage call.faults { ctx with errors := errors }
        { ctx' with errors := errors } s.sd s.certDer := by
      refine ⟨hstage.hasFp, ?_, hstage.havePubkey, hstage.fp⟩
      rw [trusted_withErrors, hstage.trust]
      rfl
    obtain ⟨hhave, halg⟩ := trusted_alg hstage.trust
    have hopens : Opens call.faults (initTail { ctx' with errors := errors }
        call.lineNum) s.sd ↔ Opens call.faults ctx s.sd := by
      rw [opens_initTail]
      unfold Opens
      rw [hhave, halg]
    obtain ⟨hkey, hfp, -, -⟩ :=
      initTail_frame { ctx' with errors := errors } call.lineNum
    rw [handleSdInit_of_keyStage hstage']
    by_cases hopen : Opens call.faults ctx s.sd
    · left
      refine ⟨ctx', hstage, hopen, ?_⟩
      have hleaves := initChain_of_opens (hopens.mpr hopen) s.msg call.lineNum
      rwa [hkey, hfp] at hleaves
    · right
      refine ⟨fun h => ?_, initChain_of_not_opens (mt hopens.mp hopen) _ _⟩
      obtain ⟨-, -, hopen'⟩ := h
      exact hopen hopen'
  · right
    constructor
    · rintro ⟨ctx', hstage', -⟩
      exact hstage ⟨ctx', hstage'⟩
    · apply handleSdInit_of_not_keyStage
      rintro ctx' ⟨hasFp, htrust, hhave, hfp⟩
      rw [trusted_withErrors, Option.map_eq_some_iff] at htrust
      obtain ⟨ctx'', htrust, rfl⟩ := htrust
      exact hstage ⟨ctx'', hasFp, htrust, hhave, hfp⟩

/-! ## The rule on one line -/

theorem keyStage_of_key {faults : VerifyFaults} {ctx ctx' : VerifierCtx ossl}
    {sd : HcsSdRecord} {certDer : Bytes} (hhave : ctx.havePubkey = true) :
    KeyStage faults ctx ctx' sd certDer ↔
      ctx' = ctx ∧ sd.hasPubkeyFp = true ∧ sd.pubkeyFp = ctx.pubkeyFp := by
  have htrust := (trusted_of_key (.inr hhave) faults certDer 0).1
  constructor
  · rintro ⟨hasFp, htrust', -, hfp⟩
    obtain rfl := Option.some.inj (htrust'.symm.trans htrust)
    exact ⟨rfl, hasFp, hfp⟩
  · rintro ⟨rfl, hasFp, hfp⟩
    exact ⟨hasFp, htrust, hhave, hfp⟩

theorem keyStage_of_no_key {ctx ctx' : VerifierCtx ossl}
    {store : ossl.Store} {call : VerifyCall} {s : StrippedLine}
    (hstore : ctx.trustStore = some store) (hhave : ctx.havePubkey = false) :
    KeyStage call.faults ctx ctx' s.sd s.certDer ↔
      ∃ key, CertifiedBy store call s key ∧ ctx' = withCertKey ctx key ∧
        s.sd.hasPubkeyFp = true ∧ s.sd.pubkeyFp = key.2 := by
  have htrust := trusted_of_store hstore hhave call.faults s.certDer
  constructor
  · rintro ⟨hasFp, htrust', -, hfp⟩
    rw [htrust] at htrust'
    split_ifs at htrust' with hnil
    obtain ⟨key, hkey, rfl⟩ := Option.map_eq_some_iff.mp htrust'
    exact ⟨key, ⟨hnil, hkey⟩, rfl, hasFp, hfp⟩
  · rintro ⟨key, ⟨hnil, hkey⟩, rfl, hasFp, hfp⟩
    refine ⟨hasFp, ?_, rfl, hfp⟩
    rw [htrust, if_neg hnil, hkey]
    rfl

theorem CertifiedBy.unique {store : ossl.Store} {call : VerifyCall}
    {s : StrippedLine} {key key' : ossl.Pkey × Bytes}
    (h : CertifiedBy store call s key) (h' : CertifiedBy store call s key') :
    key = key' :=
  Option.some.inj (h.2.symm.trans h'.2)

theorem initTrusted_of_no_key {ctx : VerifierCtx ossl} {store : ossl.Store}
    {call : VerifyCall} {s : StrippedLine}
    (hstore : ctx.trustStore = some store) (hhave : ctx.havePubkey = false)
    (h : InitLine ctx call s) : InitTrusted store ctx call s := by
  rcases processCall_init_cases h with
    ⟨ctx', hstage, hopen, hleaves⟩ | ⟨hno, herror⟩
  · obtain ⟨key, hcert, rfl, -, -⟩ :=
      (keyStage_of_no_key hstore hhave).mp hstage
    constructor
    · intro _
      exact ⟨key, hcert, hleaves.2.1, hleaves.2.2⟩
    · intro key' hcert' _ _ _
      rw [← hcert.unique hcert']
      exact hleaves
    · intro hnone
      exact absurd hcert (hnone key)
  · constructor
    · intro hstate
      rw [herror] at hstate
      cases hstate
    · intro key hcert hasFp hfp hopen
      refine absurd ⟨withCertKey ctx key, ?_, hopen⟩ hno
      exact (keyStage_of_no_key hstore hhave).mpr
        ⟨key, hcert, rfl, hasFp, hfp⟩
    · intro _
      exact herror

theorem initTrusted_of_key {ctx : VerifierCtx ossl} {store : ossl.Store}
    {call : VerifyCall} {s : StrippedLine} (hhave : ctx.havePubkey = true)
    (h : InitLine ctx call s) :
    InitTrusted store ctx call s ↔ KeyRepeats store ctx call s := by
  rcases processCall_init_cases h with
    ⟨ctx', hstage, hopen, hleaves⟩ | ⟨hno, herror⟩
  · obtain ⟨rfl, hasFp, hfp⟩ := (keyStage_of_key hhave).mp hstage
    constructor
    · intro htrusted _ _ _
      refine ⟨fun _ => ?_, fun hne => absurd hfp hne⟩
      obtain ⟨key, hcert, hkey, hkeyFp⟩ := htrusted.validated hleaves.1
      exact ⟨key, hcert, hleaves.2.1.symm.trans hkey,
        hleaves.2.2.symm.trans hkeyFp⟩
    · intro hrepeats
      obtain ⟨key, hcert, hkey, hkeyFp⟩ := (hrepeats hhave hasFp hopen).1 hfp
      constructor
      · intro _
        exact ⟨key, hcert, hleaves.2.1.trans hkey, hleaves.2.2.trans hkeyFp⟩
      · intro key' hcert' _ _ _
        rw [← hcert.unique hcert', ← hkey, ← hkeyFp]
        exact hleaves
      · intro hnone
        exact absurd hcert (hnone key)
  · have hne : s.sd.hasPubkeyFp = true → Opens call.faults ctx s.sd →
        s.sd.pubkeyFp ≠ ctx.pubkeyFp := fun hasFp hopen hfp =>
      hno ⟨ctx, (keyStage_of_key hhave).mpr ⟨rfl, hasFp, hfp⟩, hopen⟩
    constructor
    · intro htrusted _ hasFp hopen
      refine ⟨fun hfp => absurd hfp (hne hasFp hopen), fun _ => ?_⟩
      rintro ⟨key, hcert, hfp⟩
      have hstate := (htrusted.accepted key hcert hasFp hfp hopen).1
      rw [herror] at hstate
      cases hstate
    · intro hrepeats
      constructor
      · intro hstate
        rw [herror] at hstate
        cases hstate
      · intro key hcert hasFp hfp hopen
        exact absurd ⟨key, hcert, hfp⟩
          ((hrepeats hhave hasFp hopen).2 (hne hasFp hopen))
      · intro _
        exact herror

theorem initTrusted_iff {ctx : VerifierCtx ossl} {store : ossl.Store}
    {call : VerifyCall} {s : StrippedLine}
    (hstore : ctx.trustStore = some store) (h : InitLine ctx call s) :
    InitTrusted store ctx call s ↔ KeyRepeats store ctx call s := by
  cases hhave : ctx.havePubkey with
  | true => exact initTrusted_of_key hhave h
  | false =>
      constructor
      · intro _ hkey
        rw [hhave] at hkey
        cases hkey
      · intro _
        exact initTrusted_of_no_key hstore hhave h

/-! ## Runs -/

def OnInitLines (rule : VerifierCtx ossl → VerifyCall → StrippedLine → Prop)
    (ctx : VerifierCtx ossl) (calls : List VerifyCall) : Prop :=
  Throughout (fun before call => ∀ s, InitLine (feed ctx before) call s →
    rule (feed ctx before) call s) calls

theorem initTrusted_run_iff (ossl : OpenSSL) (ctx : VerifierCtx ossl)
    (store : ossl.Store) (hstore : ctx.trustStore = some store)
    (calls : List VerifyCall) :
    OnInitLines (InitTrusted store) ctx calls ↔
      OnInitLines (KeyRepeats store) ctx calls := by
  have hstep : ∀ before call s, InitLine (feed ctx before) call s →
      (InitTrusted store (feed ctx before) call s ↔
        KeyRepeats store (feed ctx before) call s) := by
    intro before call s hline
    apply initTrusted_iff _ hline
    rw [(feed_keeps _ _).trustStore, hstore]
  constructor
  · intro htrusted before call after hcalls s hline
    exact (hstep before call s hline).mp
      (htrusted before call after hcalls s hline)
  · intro hrepeats before call after hcalls s hline
    exact (hstep before call s hline).mpr
      (hrepeats before call after hcalls s hline)

def chainStart (key : Bytes) (cert : Option Bytes) : VerifyCall where
  line := elementText (initParams "I" 1
      (payloadHash sampleOpenSSL .sha256 [[]]) (sampleDigest .sha256 key)) ++
    (cert.map fun der => sdCertText (Base64.encode der)).getD []

theorem initTrusted_run_iff_sample :
    OnInitLines (InitTrusted [[7], [8]])
      (@bundleCtx sampleOpenSSL false [[7], [8]])
      [chainStart [7] (some [7]), chainStart [7] (some [7])] := by
  apply (initTrusted_run_iff sampleOpenSSL _ _ rfl _).mpr
  intro before call after hcalls s hline hhave _ _
  rcases before with _ | ⟨first, _ | ⟨second, before⟩⟩
  · cases hhave
  · cases hcalls
    -- The second line meets the key of the first, and brings it again.
    obtain ⟨-, hstrip, -⟩ := hline
    have hstripped : stripLine sampleOpenSSL (chainStart [7] (some [7])).line =
        some ⟨initRecord .init 1 (payloadHash sampleOpenSSL .sha256 [[]])
          (sampleDigest .sha256 [7]), [], [7], false⟩ := by decide +kernel
    obtain rfl := Option.some.inj (hstripped.symm.trans hstrip)
    have hfp : (feed (@bundleCtx sampleOpenSSL false [[7], [8]])
        [chainStart [7] (some [7])]).pubkeyFp = sampleDigest .sha256 [7] := by
      decide +kernel
    have hseven : Option.any (fun key : Bytes => key == [7])
        (feed (@bundleCtx sampleOpenSSL false [[7], [8]])
          [chainStart [7] (some [7])]).pubkey = true := by decide +kernel
    obtain ⟨key, hkey, heq⟩ := (Option.any_eq_true _ _).mp hseven
    obtain rfl := eq_of_beq heq
    refine ⟨fun _ => ?_, fun hne => absurd hfp.symm hne⟩
    exact ⟨([7], sampleDigest .sha256 [7]), ⟨by decide, rfl⟩, hkey, hfp⟩
  · have hlength := congrArg List.length hcalls
    simp at hlength

/-- A second chain without its certificate, and one under a rotated key. -/
theorem bundle_rule_fails :
    verifierInit sampleOpenSSL false { caBundlePath := some [7, 8] } =
        some (bundleCtx false [[7], [8]]) ∧
      verifierPassed (verifierFinalize (feed
        (@bundleCtx sampleOpenSSL false [[7], [8]])
        [chainStart [7] (some [7]), chainStart [7] none])) = true ∧
      verifierPassed (verifierFinalize (feed
        (@bundleCtx sampleOpenSSL false [[7], [8]])
        [chainStart [7] (some [7]), chainStart [8] (some [8])])) = false ∧
      ¬ OnInitLines (InitTrusted [[7], [8]])
        (@bundleCtx sampleOpenSSL false [[7], [8]])
        [chainStart [7] (some [7]), chainStart [7] none] ∧
      ¬ OnInitLines (InitTrusted [[7], [8]])
        (@bundleCtx sampleOpenSSL false [[7], [8]])
        [chainStart [7] (some [7]), chainStart [8] (some [8])] := by
  refine ⟨rfl, by decide +kernel, by decide +kernel, fun h => ?_, fun h => ?_⟩
  · have hline := h [chainStart [7] (some [7])] (chainStart [7] none) [] rfl
      ⟨initRecord .init 1 (payloadHash sampleOpenSSL .sha256 [[]])
        (sampleDigest .sha256 [7]), [], [], false⟩
      ⟨.inr (by decide +kernel), by decide +kernel, rfl⟩
    obtain ⟨key, hcert, -⟩ := hline.validated (by decide +kernel)
    exact hcert.1 rfl
  · have hline := h [chainStart [7] (some [7])] (chainStart [8] (some [8])) []
      rfl ⟨initRecord .init 1 (payloadHash sampleOpenSSL .sha256 [[]])
        (sampleDigest .sha256 [8]), [], [8], false⟩
      ⟨.inr (by decide +kernel), by decide +kernel, rfl⟩
    have hleaves := hline.accepted ([8], sampleDigest .sha256 [8])
      ⟨by decide, rfl⟩ rfl rfl
      ⟨⟨.sha256, by decide +kernel, fun _ => by decide +kernel⟩, rfl, rfl⟩
    exact absurd hleaves.1 (by decide +kernel)

end MmHashChainSigs.Verify
