import MmHashChainSigs.Verify.Verifier

/-!
# What one line can do

A line either adds an error, or it is accepted, or a primitive failed on it
without a word.  The last two are stated here as conditions on the context and
the line, together with the context they lead to.
-/

namespace MmHashChainSigs.Verify

open MmHashChainSigs.Foundation
open MmHashChainSigs.Common

variable {ossl : OpenSSL}

/-! ## The chain entry -/

def nextHash (ctx : VerifierCtx ossl) (msg : Bytes) : Bytes :=
  ossl.digest ctx.hashAlg
    (ctx.chainHash.take (hcsHashLen ctx.hashAlg) ++ uint64ToBe ctx.nextSeq ++
      msg)

def Fits (ctx : VerifierCtx ossl) (sd : HcsSdRecord) : Prop :=
  sd.seq = ctx.nextSeq ∧ sd.chainHashLen = ctx.hashLen

structure HashAccepts (faults : VerifyFaults) (ctx : VerifierCtx ossl)
    (sd : HcsSdRecord) (msg : Bytes) : Prop where
  fits : Fits ctx sd
  runs : faults.hashChain = false
  hash : nextHash ctx msg = sd.chainHash

def HashSilent (faults : VerifyFaults) (ctx : VerifierCtx ossl)
    (sd : HcsSdRecord) : Prop :=
  Fits ctx sd ∧ faults.hashChain = true

def advance (ctx : VerifierCtx ossl) (sd : HcsSdRecord) : VerifierCtx ossl :=
  { ctx with chainHash := sd.chainHash, nextSeq := ctx.nextSeq + 1
             msgCount := ctx.msgCount + 1 }

theorem verifySdMsgHash_of_accepts {faults : VerifyFaults}
    {ctx : VerifierCtx ossl} {sd : HcsSdRecord} {msg : Bytes}
    (h : HashAccepts faults ctx sd msg) (lineNum : UInt64) :
    verifySdMsgHash faults ctx sd msg lineNum = (advance ctx sd, 0) := by
  have hhash := h.hash
  unfold nextHash at hhash
  simp only [verifySdMsgHash, addErrorIf_of_not (not_not.mpr h.fits.1),
    hcsHashChain, h.runs, h.fits.2, hhash]
  simp [addErrorIf_of_not, advance]

theorem verifySdMsgHash_of_silent {faults : VerifyFaults}
    {ctx : VerifierCtx ossl} {sd : HcsSdRecord}
    (h : HashSilent faults ctx sd) (msg : Bytes) (lineNum : UInt64) :
    verifySdMsgHash faults ctx sd msg lineNum = setError ctx := by
  simp [verifySdMsgHash, addErrorIf_of_not (not_not.mpr h.1.1), hcsHashChain,
    h.2, h.1.2]

theorem verifySdMsgHash_clean {faults : VerifyFaults}
    {ctx : VerifierCtx ossl} {sd : HcsSdRecord} {msg : Bytes}
    {lineNum : UInt64}
    (h : (verifySdMsgHash faults ctx sd msg lineNum).1.errors = []) :
    ctx.errors = [] ∧
      (HashAccepts faults ctx sd msg ∨ HashSilent faults ctx sd) := by
  simp only [verifySdMsgHash] at h
  split_ifs at h with hlen
  · simp [setError] at h
  · unfold hcsHashChain at h
    cases hfault : faults.hashChain with
    | true =>
        simp only [hfault, if_true, setError, addErrorIf_errors,
          not_not] at h
        exact ⟨h.2, .inr ⟨⟨h.1, not_not.mp hlen⟩, hfault⟩⟩
    | false =>
        simp only [hfault, Bool.false_eq_true, if_false, addErrorIf_errors,
          not_not] at h
        obtain ⟨hhash, hseq, herrors⟩ := h
        exact ⟨herrors, .inl ⟨⟨hseq, not_not.mp hlen⟩, hfault, hhash⟩⟩

def Returns (ctx : VerifierCtx ossl) (result : VerifierCtx ossl × Int) :
    Prop :=
  result.2 = 0 ∧
      (result.1.state = ctx.state ∨ result.1.state = .processing) ∨
    result.2 = -1 ∧ result.1.state = .error

theorem returns_setError (ctx ctx' : VerifierCtx ossl) :
    Returns ctx (setError ctx') := .inr ⟨rfl, rfl⟩

theorem verifySdMsgHash_returns (faults : VerifyFaults)
    (ctx : VerifierCtx ossl) (sd : HcsSdRecord) (msg : Bytes)
    (lineNum : UInt64) :
    Returns ctx (verifySdMsgHash faults ctx sd msg lineNum) := by
  simp only [verifySdMsgHash]
  split_ifs
  · exact returns_setError _ _
  · split
    · exact returns_setError _ _
    · exact .inl ⟨rfl, .inl rfl⟩

/-! ## The certificate of an INIT record -/

def validCert (faults : VerifyFaults) (store : ossl.Store)
    (certDer : Bytes) : Option ossl.X509 :=
  (x509FromDer faults certDer).filter fun cert =>
    !faults.storeCtxNew && !faults.storeCtxInit &&
      (x509VerifyCert faults store cert).isNone

def certifiedKey (faults : VerifyFaults) (store : ossl.Store)
    (certDer : Bytes) : Option (ossl.Pkey × Bytes) := do
  let cert ← validCert faults store certDer
  let pub ← x509GetPubkey faults cert
  let fp ← hcsPubkeyFingerprint ossl faults.fingerprint pub
  some (pub, fp)

def CertSilent (ossl : OpenSSL) (faults : VerifyFaults) (certDer : Bytes) :
    Prop :=
  (@x509FromDer ossl faults certDer).isSome ∧
    faults.storeCtxNew = true

def withCertKey (ctx : VerifierCtx ossl) (key : ossl.Pkey × Bytes) :
    VerifierCtx ossl :=
  { ctx with pubkey := some key.1, pubkeyFp := key.2, havePubkey := true }

theorem installPubkeyFromCert_of_certified {faults : VerifyFaults}
    {store : ossl.Store} {certDer : Bytes} {key : ossl.Pkey × Bytes}
    (h : certifiedKey faults store certDer = some key)
    (ctx : VerifierCtx ossl) (lineNum : UInt64) :
    installPubkeyFromCert faults store ctx certDer lineNum =
      (withCertKey ctx key, 0) := by
  simp only [certifiedKey, validCert, Option.bind_eq_bind,
    Option.bind_eq_some_iff, Option.filter_eq_some_iff, Bool.and_eq_true,
    Bool.not_eq_true', Option.isNone_iff_eq_none, Option.some.injEq] at h
  obtain ⟨cert, ⟨hparse, ⟨hnew, hinit⟩, hverify⟩, pub, hpub, fp, hfp, rfl⟩ := h
  simp only [installPubkeyFromCert, hparse, hnew, hinit, hverify, hpub, hfp,
    withCertKey, Bool.false_eq_true, if_false]

theorem installPubkeyFromCert_of_none {faults : VerifyFaults}
    {store : ossl.Store} {certDer : Bytes}
    (h : certifiedKey faults store certDer = none)
    (ctx : VerifierCtx ossl) (lineNum : UInt64) :
    (installPubkeyFromCert faults store ctx certDer lineNum).2 = -1 ∧
      ((installPubkeyFromCert faults store ctx certDer lineNum).1.errors = [] →
        ctx.errors = [] ∧ CertSilent ossl faults certDer) := by
  unfold installPubkeyFromCert
  split
  · simp
  next cert hparse =>
    split_ifs with hnew hinit
    · exact ⟨rfl, fun herrors => ⟨herrors, by simp [hparse], hnew⟩⟩
    · simp
    · split
      · simp
      next hverify =>
        have hvalid : validCert faults store certDer = some cert := by
          simp [validCert, hparse, hnew, hinit, hverify]
        split
        · simp
        next pub hpub =>
          split
          · simp
          next fp hfp =>
            simp [certifiedKey, hvalid, hpub, hfp] at h

def trusted (faults : VerifyFaults) (ctx : VerifierCtx ossl)
    (certDer : Bytes) : Option (VerifierCtx ossl) :=
  match ctx.trustStore, ctx.havePubkey with
  | some store, false =>
      if certDer = [] then none
      else (certifiedKey faults store certDer).map (withCertKey ctx)
  | _, _ => some ctx

def TrustSilent (faults : VerifyFaults) (ctx : VerifierCtx ossl)
    (certDer : Bytes) : Prop :=
  ctx.trustStore.isSome ∧ ctx.havePubkey = false ∧ certDer ≠ [] ∧
    CertSilent ossl faults certDer

theorem trusted_of_store {ctx : VerifierCtx ossl} {store : ossl.Store}
    (hstore : ctx.trustStore = some store) (hhave : ctx.havePubkey = false)
    (faults : VerifyFaults) (certDer : Bytes) :
    trusted faults ctx certDer =
      if certDer = [] then none
      else (certifiedKey faults store certDer).map (withCertKey ctx) := by
  simp only [trusted, hstore, hhave]

theorem trusted_of_key {ctx : VerifierCtx ossl}
    (h : ctx.trustStore = none ∨ ctx.havePubkey = true)
    (faults : VerifyFaults) (certDer : Bytes) (lineNum : UInt64) :
    trusted faults ctx certDer = some ctx ∧
      initTrust faults ctx certDer lineNum = (ctx, 0) := by
  unfold trusted initTrust
  cases hstore : ctx.trustStore with
  | none => simp
  | some store =>
      have hhave := h.resolve_left (by simp [hstore])
      simp [hhave]

theorem initTrust_of_trusted {faults : VerifyFaults}
    {ctx ctx' : VerifierCtx ossl} {certDer : Bytes}
    (h : trusted faults ctx certDer = some ctx') (lineNum : UInt64) :
    initTrust faults ctx certDer lineNum = (ctx', 0) := by
  by_cases hkey : ctx.trustStore = none ∨ ctx.havePubkey = true
  · obtain ⟨htrust, hinit⟩ := trusted_of_key hkey faults certDer lineNum
    rw [hinit, Option.some.inj (htrust.symm.trans h)]
  · rw [not_or, Bool.not_eq_true] at hkey
    obtain ⟨store, hstore⟩ := Option.ne_none_iff_exists'.mp hkey.1
    rw [trusted_of_store hstore hkey.2] at h
    by_cases hnil : certDer = []
    · simp [hnil] at h
    · rw [if_neg hnil, Option.map_eq_some_iff] at h
      obtain ⟨key, hcert, rfl⟩ := h
      simp only [initTrust, hstore, hkey.2, if_neg hnil]
      exact installPubkeyFromCert_of_certified hcert ctx lineNum

theorem initTrust_of_not_trusted {faults : VerifyFaults}
    {ctx : VerifierCtx ossl} {certDer : Bytes}
    (h : trusted faults ctx certDer = none) (lineNum : UInt64) :
    (initTrust faults ctx certDer lineNum).2 = -1 ∧
      ((initTrust faults ctx certDer lineNum).1.errors = [] →
        ctx.errors = [] ∧ TrustSilent faults ctx certDer) := by
  by_cases hkey : ctx.trustStore = none ∨ ctx.havePubkey = true
  · rw [(trusted_of_key hkey faults certDer lineNum).1] at h
    cases h
  · rw [not_or, Bool.not_eq_true] at hkey
    obtain ⟨store, hstore⟩ := Option.ne_none_iff_exists'.mp hkey.1
    rw [trusted_of_store hstore hkey.2] at h
    by_cases hnil : certDer = []
    · simp [initTrust, hstore, hkey.2, hnil]
    · rw [if_neg hnil, Option.map_eq_none_iff] at h
      obtain ⟨hrc, hclean⟩ := installPubkeyFromCert_of_none h ctx lineNum
      simp only [initTrust, hstore, hkey.2, if_neg hnil]
      refine ⟨hrc, fun herrors => ?_⟩
      obtain ⟨hctx, hsilent⟩ := hclean herrors
      exact ⟨hctx, by simp [hstore], hkey.2, hnil, hsilent⟩

theorem initTrust_of_silent {faults : VerifyFaults}
    {ctx : VerifierCtx ossl} {certDer : Bytes}
    (h : TrustSilent faults ctx certDer) (lineNum : UInt64) :
    initTrust faults ctx certDer lineNum = (ctx, -1) := by
  obtain ⟨hstore, hhave, hnil, hparse, hnew⟩ := h
  obtain ⟨store, hstore⟩ := Option.isSome_iff_exists.mp hstore
  obtain ⟨cert, hparse⟩ := Option.isSome_iff_exists.mp hparse
  simp [initTrust, hstore, hhave, hnil, installPubkeyFromCert, hparse, hnew]

/-! ## INIT records -/

def unsignedTail (ctx : VerifierCtx ossl) : UInt64 :=
  ctx.nextSeq - 1 - ctx.lastSignedSeq

structure InitReady (ctx : VerifierCtx ossl) (sd : HcsSdRecord)
    (alg : HcsHashAlg) : Prop where
  havePubkey : ctx.havePubkey = true
  fp : sd.pubkeyFp = ctx.pubkeyFp
  tail : ctx.state = .processing → ctx.strict = true → unsignedTail ctx = 0
  width : sd.chainHashLen = hcsHashLen alg
  lock : ctx.haveHashAlg = true → ctx.hashAlg = alg

def resetSigned (ctx : VerifierCtx ossl) : VerifierCtx ossl :=
  if ctx.state = .processing then { ctx with lastSignedSeq := 0 } else ctx

def lockAlg (ctx : VerifierCtx ossl) (alg : HcsHashAlg) : VerifierCtx ossl :=
  { ctx with hashAlg := alg, hashLen := hcsHashLen alg, haveHashAlg := true }

def segmentStart (ctx : VerifierCtx ossl) (alg : HcsHashAlg) :
    VerifierCtx ossl :=
  { lockAlg (resetSigned ctx) alg with
    chainHash := ossl.digest alg hcsChainIv, nextSeq := 1
    segmentCount := ctx.segmentCount + 1, state := .processing }

theorem initTail_of_ready {ctx : VerifierCtx ossl} {sd : HcsSdRecord}
    {alg : HcsHashAlg} (h : InitReady ctx sd alg) (lineNum : UInt64) :
    initTail ctx lineNum = resetSigned ctx := by
  unfold initTail resetSigned
  split_ifs with hstate
  · have hzero : ¬ (0 < ctx.nextSeq - 1 - ctx.lastSignedSeq ∧ ctx.strict) := by
      rintro ⟨hpos, hstrict⟩
      have htail := h.tail hstate hstrict
      unfold unsignedTail at htail
      rw [htail] at hpos
      exact absurd hpos (by decide)
    simp only [addErrorIf_of_not hzero]
  · rfl

theorem initTail_clean {ctx : VerifierCtx ossl} {lineNum : UInt64}
    (h : (initTail ctx lineNum).errors = []) :
    ctx.errors = [] ∧
      (ctx.state = .processing → ctx.strict = true → unsignedTail ctx = 0) := by
  unfold initTail at h
  split_ifs at h with hstate
  · simp only [addErrorIf_errors, not_and] at h
    refine ⟨h.2, fun _ hstrict => ?_⟩
    by_contra hne
    exact h.1 (UInt64.pos_iff_ne_zero.mpr hne) hstrict
  · exact ⟨h, fun hprocessing => absurd hprocessing hstate⟩

theorem handleSdInit_eq {faults : VerifyFaults} {ctx ctx' : VerifierCtx ossl}
    {sd : HcsSdRecord} {certDer : Bytes} {alg : HcsHashAlg}
    (hfp : sd.hasPubkeyFp = true)
    (htrust : trusted faults ctx certDer = some ctx')
    (hready : InitReady ctx' sd alg) (msg : Bytes) (lineNum : UInt64) :
    handleSdInit faults ctx sd msg certDer lineNum =
      if faults.chainInit then setError (lockAlg (resetSigned ctx') alg)
      else verifySdMsgHash faults (segmentStart ctx' alg) sd msg lineNum := by
  have hlock : ¬ ((resetSigned ctx').haveHashAlg = true ∧
      (resetSigned ctx').hashAlg ≠ alg) := by
    rintro ⟨hhave, hne⟩
    apply hne
    unfold resetSigned at hhave ⊢
    split_ifs at hhave ⊢ with hstate
    · exact hready.lock hhave
    · exact hready.lock hhave
  have hcount : (resetSigned ctx').segmentCount = ctx'.segmentCount := by
    unfold resetSigned
    split_ifs <;> rfl
  simp only [handleSdInit, hfp, initTrust_of_trusted htrust,
    hready.havePubkey, hready.fp, initTail_of_ready hready, initChain,
    hready.width, hcsHashAlgFromHexLen_hcsHashLen, if_neg hlock,
    hcsChainInitHash]
  cases faults.chainInit with
  | true => simp [lockAlg]
  | false => simp [segmentStart, lockAlg, hcount]

structure InitAccepts (faults : VerifyFaults) (ctx ctx' : VerifierCtx ossl)
    (s : StrippedLine) (alg : HcsHashAlg) : Prop where
  hasFp : s.sd.hasPubkeyFp = true
  trust : trusted faults ctx s.certDer = some ctx'
  ready : InitReady ctx' s.sd alg
  runs : faults.chainInit = false
  hash : HashAccepts faults (segmentStart ctx' alg) s.sd s.msg

theorem handleSdInit_of_accepts {faults : VerifyFaults}
    {ctx ctx' : VerifierCtx ossl} {s : StrippedLine} {alg : HcsHashAlg}
    (h : InitAccepts faults ctx ctx' s alg) (lineNum : UInt64) :
    handleSdInit faults ctx s.sd s.msg s.certDer lineNum =
      (advance (segmentStart ctx' alg) s.sd, 0) := by
  rw [handleSdInit_eq h.hasFp h.trust h.ready, h.runs,
    verifySdMsgHash_of_accepts h.hash]
  rfl

/-! ## Failures without a word -/

/--
The places where a primitive fails on a line and no error is recorded, with the
number of unsigned messages that are left in front of them.
-/
inductive Silent (faults : VerifyFaults) (ctx : VerifierCtx ossl)
    (s : StrippedLine) : UInt64 → Prop where
  | storeCtx (hinit : s.sd.type = .init) (hfp : s.sd.hasPubkeyFp = true)
      (htrust : TrustSilent faults ctx s.certDer) :
      Silent faults ctx s (unsignedTail ctx)
  | chainInit (hinit : s.sd.type = .init) (hfp : s.sd.hasPubkeyFp = true)
      {ctx' : VerifierCtx ossl} (htrust : trusted faults ctx s.certDer = some ctx')
      {alg : HcsHashAlg} (hready : InitReady ctx' s.sd alg)
      (hfault : faults.chainInit = true) :
      Silent faults ctx s (unsignedTail (resetSigned ctx'))
  | initHash (hinit : s.sd.type = .init) (hfp : s.sd.hasPubkeyFp = true)
      {ctx' : VerifierCtx ossl} (htrust : trusted faults ctx s.certDer = some ctx')
      {alg : HcsHashAlg} (hready : InitReady ctx' s.sd alg)
      (hruns : faults.chainInit = false)
      (hsilent : HashSilent faults (segmentStart ctx' alg) s.sd) :
      Silent faults ctx s (unsignedTail (segmentStart ctx' alg))
  | hash (htype : s.sd.type = .msg ∨ s.sd.type = .sig ∨
        s.sd.type = .continue ∧
          (s.sd.hasPubkeyFp = true → s.sd.pubkeyFp = ctx.pubkeyFp))
      (hstate : ctx.state = .processing) (hsilent : HashSilent faults ctx s.sd) :
      Silent faults ctx s (unsignedTail ctx)

theorem trusted_cases {faults : VerifyFaults} {ctx ctx' : VerifierCtx ossl}
    {certDer : Bytes} (h : trusted faults ctx certDer = some ctx') :
    ctx' = ctx ∨ ∃ key, ctx' = withCertKey ctx key := by
  by_cases hkey : ctx.trustStore = none ∨ ctx.havePubkey = true
  · rw [(trusted_of_key hkey faults certDer 0).1] at h
    exact .inl (Option.some.inj h).symm
  · rw [not_or, Bool.not_eq_true] at hkey
    obtain ⟨store, hstore⟩ := Option.ne_none_iff_exists'.mp hkey.1
    rw [trusted_of_store hstore hkey.2] at h
    split_ifs at h
    obtain ⟨key, -, rfl⟩ := Option.map_eq_some_iff.mp h
    exact .inr ⟨key, rfl⟩

theorem trusted_addErrorIf {condition : Prop} [Decidable condition]
    {faults : VerifyFaults} {ctx : VerifierCtx ossl} {certDer : Bytes}
    {lineNum : UInt64} {message : Bytes} (p : Bool → Bytes → Prop) :
    (∃ ctx', trusted faults (addErrorIf condition ctx lineNum message)
        certDer = some ctx' ∧ p ctx'.havePubkey ctx'.pubkeyFp) ↔
      ∃ ctx', trusted faults ctx certDer = some ctx' ∧
        p ctx'.havePubkey ctx'.pubkeyFp := by
  unfold trusted
  simp only [addErrorIf_trustStore, addErrorIf_havePubkey]
  split
  · split_ifs
    · rfl
    · simp [Option.map_eq_some_iff, withCertKey]
  · simp

theorem trusted_addErrorIf_none {condition : Prop} [Decidable condition]
    {faults : VerifyFaults} {ctx : VerifierCtx ossl} {certDer : Bytes}
    {lineNum : UInt64} {message : Bytes} :
    trusted faults (addErrorIf condition ctx lineNum message) certDer = none ↔
      trusted faults ctx certDer = none := by
  have hsome := @trusted_addErrorIf ossl condition _ faults ctx certDer
    lineNum message fun _ _ => True
  simp only [and_true] at hsome
  rw [← not_iff_not, ← Ne, ← Ne, Option.ne_none_iff_exists',
    Option.ne_none_iff_exists', hsome]

theorem trusted_errors {faults : VerifyFaults} {ctx ctx' : VerifierCtx ossl}
    {certDer : Bytes} (h : trusted faults ctx certDer = some ctx') :
    ctx'.errors = ctx.errors := by
  rcases trusted_cases h with rfl | ⟨key, rfl⟩ <;> rfl

theorem trusted_strict {faults : VerifyFaults} {ctx ctx' : VerifierCtx ossl}
    {certDer : Bytes} (h : trusted faults ctx certDer = some ctx') :
    ctx'.strict = ctx.strict := by
  rcases trusted_cases h with rfl | ⟨key, rfl⟩ <;> rfl

theorem resetSigned_errors (ctx : VerifierCtx ossl) :
    (resetSigned ctx).errors = ctx.errors := by
  unfold resetSigned
  split_ifs <;> rfl

theorem resetSigned_strict (ctx : VerifierCtx ossl) :
    (resetSigned ctx).strict = ctx.strict := by
  unfold resetSigned
  split_ifs <;> rfl

theorem initChain_clean {faults : VerifyFaults} {ctx : VerifierCtx ossl}
    {sd : HcsSdRecord} {msg : Bytes} {lineNum : UInt64}
    (h : (initChain faults ctx sd msg lineNum).1.errors = []) :
    ctx.errors = [] ∧ ∃ alg, sd.chainHashLen = hcsHashLen alg ∧
      (ctx.haveHashAlg = true → ctx.hashAlg = alg) := by
  unfold initChain at h
  split at h
  · simp [setError] at h
  next alg halg =>
    have hwidth := hcsHashAlgFromHexLen_eq_some.mp halg
    split_ifs at h with hlock
    · simp [setError] at h
    · refine ⟨?_, alg, by omega, fun hhave => ?_⟩
      · split at h
        · exact h
        · exact (verifySdMsgHash_clean h).1
      · by_contra hne
        exact hlock ⟨hhave, hne⟩

theorem handleSdInit_ready {faults : VerifyFaults}
    {ctx ctx' : VerifierCtx ossl} {sd : HcsSdRecord} {msg certDer : Bytes}
    {lineNum : UInt64} (hfp : sd.hasPubkeyFp = true)
    (htrust : trusted faults ctx certDer = some ctx')
    (h : (handleSdInit faults ctx sd msg certDer lineNum).1.errors = []) :
    ctx'.errors = [] ∧ ∃ alg, InitReady ctx' sd alg := by
  have hhave : ctx'.havePubkey = true := by
    by_contra hhave
    simp [handleSdInit, hfp, initTrust_of_trusted htrust, hhave,
      setError] at h
  have heq : sd.pubkeyFp = ctx'.pubkeyFp := by
    by_contra hne
    simp [handleSdInit, hfp, initTrust_of_trusted htrust, hhave, hne,
      setError] at h
  have hchain : (initChain faults (initTail ctx' lineNum) sd msg
      lineNum).1.errors = [] := by
    simpa [handleSdInit, hfp, initTrust_of_trusted htrust, hhave,
      heq] using h
  obtain ⟨htail, alg, hwidth, hlock⟩ := initChain_clean hchain
  obtain ⟨herrors, htail⟩ := initTail_clean htail
  refine ⟨herrors, alg, hhave, heq, htail, hwidth, ?_⟩
  unfold initTail at hlock
  split_ifs at hlock
  · exact hlock
  · exact hlock

theorem handleSdInit_clean {faults : VerifyFaults} {ctx : VerifierCtx ossl}
    {s : StrippedLine} {lineNum : UInt64} (htype : s.sd.type = .init)
    (h : (handleSdInit faults ctx s.sd s.msg s.certDer lineNum).1.errors =
      []) :
    ctx.errors = [] ∧
      ((∃ ctx' alg, InitAccepts faults ctx ctx' s alg) ∨
        ∃ tail, Silent faults ctx s tail) := by
  have hfp : s.sd.hasPubkeyFp = true := by
    by_contra hfp
    simp [handleSdInit, hfp, setError] at h
  cases htrust : trusted faults ctx s.certDer with
  | none =>
      obtain ⟨hrc, hclean⟩ := initTrust_of_not_trusted htrust lineNum
      have herrors :
          (initTrust faults ctx s.certDer lineNum).1.errors = [] := by
        simpa [handleSdInit, hfp, hrc, setError] using h
      obtain ⟨hctx, hsilent⟩ := hclean herrors
      exact ⟨hctx, .inr ⟨_, .storeCtx htype hfp hsilent⟩⟩
  | some ctx' =>
      obtain ⟨herrors, alg, hready⟩ := handleSdInit_ready hfp htrust h
      refine ⟨trusted_errors htrust ▸ herrors, ?_⟩
      rw [handleSdInit_eq hfp htrust hready] at h
      cases hruns : faults.chainInit with
      | true => exact .inr ⟨_, .chainInit htype hfp htrust hready hruns⟩
      | false =>
          simp only [hruns, Bool.false_eq_true, if_false] at h
          cases (verifySdMsgHash_clean h).2 with
          | inl haccepts =>
              exact .inl ⟨ctx', alg, hfp, htrust, hready, hruns, haccepts⟩
          | inr hsilent =>
              exact .inr ⟨_, .initHash htype hfp htrust hready hruns hsilent⟩

/-! ## The other records -/

structure SigAccepts (faults : VerifyFaults) (ctx : VerifierCtx ossl)
    (sd : HcsSdRecord) : Prop where
  hasSignature : sd.hasSignature = true
  from_eq : sd.seqFrom = ctx.lastSignedSeq + 1
  to_eq : sd.seqTo = ctx.nextSeq - 1
  valid : verifySig faults ctx sd = 0

def signed (ctx : VerifierCtx ossl) (sd : HcsSdRecord) : VerifierCtx ossl :=
  { ctx with lastSignedSeq := sd.seqTo, sigCount := ctx.sigCount + 1 }

theorem checkSig_of_accepts {faults : VerifyFaults} {ctx : VerifierCtx ossl}
    {sd : HcsSdRecord} (h : SigAccepts faults ctx sd) (lineNum : UInt64) :
    checkSig faults ctx sd lineNum = signed ctx sd := by
  simp [checkSig, addErrorIf_of_not, h.from_eq, h.to_eq, h.valid, signed]

theorem checkSig_clean {faults : VerifyFaults} {ctx : VerifierCtx ossl}
    {sd : HcsSdRecord} {lineNum : UInt64}
    (h : (checkSig faults ctx sd lineNum).errors = []) :
    ctx.errors = [] ∧ sd.seqFrom = ctx.lastSignedSeq + 1 ∧
      sd.seqTo = ctx.nextSeq - 1 ∧ verifySig faults ctx sd ≠ 1 ∧
      ¬ verifySig faults ctx sd < 0 := by
  have hclean : ∀ vr : Int, ∀ c : VerifierCtx ossl,
      (if vr = 0 then { c with lastSignedSeq := sd.seqTo
                               sigCount := c.sigCount + 1 }
        else c).errors = [] → c.errors = [] := by
    intro vr c hc
    split_ifs at hc <;> exact hc
  have hchecks := hclean _ _ h
  simp only [addErrorIf_errors, not_not] at hchecks
  obtain ⟨hneg, hone, hto, hfrom, herrors⟩ := hchecks
  exact ⟨herrors, hfrom, hto, hone, hneg⟩

theorem verifySig_cases (faults : VerifyFaults) (ctx : VerifierCtx ossl)
    (sd : HcsSdRecord) :
    verifySig faults ctx sd = 0 ∨ verifySig faults ctx sd = 1 ∨
      verifySig faults ctx sd = -1 := by
  unfold verifySig hcsVerify
  split
  · simp
  · split
    · simp
    · split_ifs <;> simp

/-! ## A whole line -/

def FpAgrees (ctx : VerifierCtx ossl) (sd : HcsSdRecord) : Prop :=
  sd.hasPubkeyFp = true → sd.pubkeyFp = ctx.pubkeyFp

def countSegment (ctx : VerifierCtx ossl) : VerifierCtx ossl :=
  { ctx with segmentCount := ctx.segmentCount + 1 }

inductive Accepts (faults : VerifyFaults) (ctx : VerifierCtx ossl)
    (s : StrippedLine) : VerifierCtx ossl → Prop where
  | init (htype : s.sd.type = .init) {ctx' : VerifierCtx ossl}
      {alg : HcsHashAlg} (h : InitAccepts faults ctx ctx' s alg) :
      Accepts faults ctx s (advance (segmentStart ctx' alg) s.sd)
  | msg (htype : s.sd.type = .msg) (hstate : ctx.state = .processing)
      (h : HashAccepts faults ctx s.sd s.msg) :
      Accepts faults ctx s (advance ctx s.sd)
  | sig (htype : s.sd.type = .sig) (hstate : ctx.state = .processing)
      (h : HashAccepts faults ctx s.sd s.msg)
      (hsig : SigAccepts faults (advance ctx s.sd) s.sd) :
      Accepts faults ctx s (signed (advance ctx s.sd) s.sd)
  | continue (htype : s.sd.type = .continue)
      (hstate : ctx.state = .processing) (hfp : FpAgrees ctx s.sd)
      (h : HashAccepts faults ctx s.sd s.msg) :
      Accepts faults ctx s (advance (countSegment ctx) s.sd)

def Live (ctx : VerifierCtx ossl) : Prop :=
  ctx.state = .expectInit ∨ ctx.state = .processing

theorem Live.not_stopped {ctx : VerifierCtx ossl} (h : Live ctx) :
    ¬ (ctx.state = .error ∨ ctx.state = .done) := by
  cases h with
  | inl h => simp [h]
  | inr h => simp [h]

theorem handleSd_of_accepts {faults : VerifyFaults}
    {ctx ctx' : VerifierCtx ossl} {s : StrippedLine}
    (h : Accepts faults ctx s ctx') (lineNum : UInt64) :
    handleSd faults ctx s lineNum = (ctx', 0) := by
  cases h with
  | init htype h =>
      simp only [handleSd, htype]
      exact handleSdInit_of_accepts h lineNum
  | msg htype hstate h =>
      simp [handleSd, htype, handleSdMsg, hstate,
        verifySdMsgHash_of_accepts h]
  | sig htype hstate h hsig =>
      simp [handleSd, htype, handleSdSig, hstate,
        verifySdMsgHash_of_accepts h, hsig.hasSignature,
        checkSig_of_accepts hsig]
  | «continue» htype hstate hfp h =>
      have hagrees : ¬ (s.sd.hasPubkeyFp = true ∧
          s.sd.pubkeyFp ≠ ctx.pubkeyFp) := by
        rintro ⟨hhas, hne⟩
        exact hne (hfp hhas)
      have haccepts : HashAccepts faults (countSegment ctx) s.sd s.msg :=
        ⟨h.fits, h.runs, h.hash⟩
      simp only [handleSd, htype, handleSdContinue]
      rw [if_neg (not_not.mpr hstate), if_neg hagrees]
      exact verifySdMsgHash_of_accepts haccepts lineNum

theorem processLine_of_accepts {faults : VerifyFaults}
    {ctx ctx' : VerifierCtx ossl} {line : Bytes} {s : StrippedLine}
    (hlive : Live ctx) (hstrip : stripLine ossl line = some s)
    (hmalformed : s.malformed = false) (h : Accepts faults ctx s ctx')
    (lineNum : UInt64) :
    verifierProcessLine faults ctx line lineNum = (ctx', 0) := by
  have hexpect : ¬ (ctx.state = .expectInit ∧ s.sd.type ≠ .init) := by
    rintro ⟨hstate, htype⟩
    cases h with
    | init hinit h => exact htype hinit
    | msg _ hprocessing => simp [hstate] at hprocessing
    | sig _ hprocessing => simp [hstate] at hprocessing
    | «continue» _ hprocessing => simp [hstate] at hprocessing
  have hclean : ¬ s.malformed = true := by simp [hmalformed]
  simp only [verifierProcessLine, if_neg hlive.not_stopped, hstrip,
    addErrorIf_of_not hclean, if_neg hexpect]
  exact handleSd_of_accepts h lineNum

theorem handleSd_clean {faults : VerifyFaults} {ctx : VerifierCtx ossl}
    {s : StrippedLine} {lineNum : UInt64}
    (h : (handleSd faults ctx s lineNum).1.errors = []) :
    ctx.errors = [] ∧ ((∃ ctx', Accepts faults ctx s ctx') ∨
      ∃ tail, Silent faults ctx s tail) := by
  cases htype : s.sd.type with
  | init =>
      simp only [handleSd, htype] at h
      obtain ⟨herrors, hcases⟩ := handleSdInit_clean htype h
      refine ⟨herrors, ?_⟩
      cases hcases with
      | inl haccepts =>
          obtain ⟨ctx', alg, haccepts⟩ := haccepts
          exact .inl ⟨_, .init htype haccepts⟩
      | inr hsilent => exact .inr hsilent
  | msg =>
      simp only [handleSd, htype, handleSdMsg] at h
      split_ifs at h with hstate
      · simp [setError] at h
      · obtain ⟨herrors, hcases⟩ := verifySdMsgHash_clean h
        refine ⟨herrors, ?_⟩
        cases hcases with
        | inl haccepts =>
            exact .inl ⟨_, .msg htype (not_not.mp hstate) haccepts⟩
        | inr hsilent =>
            exact .inr ⟨_, .hash (.inl htype) (not_not.mp hstate) hsilent⟩
  | sig =>
      simp only [handleSd, htype, handleSdSig] at h
      split_ifs at h with hstate hrc hsignature
      · simp at h
      · obtain ⟨herrors, hcases⟩ := verifySdMsgHash_clean h
        refine ⟨herrors, ?_⟩
        cases hcases with
        | inl haccepts =>
            rw [verifySdMsgHash_of_accepts haccepts] at hrc
            exact absurd rfl hrc
        | inr hsilent =>
            exact .inr ⟨_, .hash (.inr (.inl htype)) (not_not.mp hstate)
              hsilent⟩
      · obtain ⟨hclean, hfrom, hto, hone, hneg⟩ := checkSig_clean h
        obtain ⟨herrors, hcases⟩ := verifySdMsgHash_clean hclean
        refine ⟨herrors, ?_⟩
        cases hcases with
        | inl haccepts =>
            rw [verifySdMsgHash_of_accepts haccepts] at hfrom hto hone hneg
            have hvalid : verifySig faults (advance ctx s.sd) s.sd = 0 := by
              rcases verifySig_cases faults (advance ctx s.sd) s.sd with
                hvr | hvr | hvr
              · exact hvr
              · exact absurd hvr hone
              · rw [hvr] at hneg
                exact absurd hneg (by decide)
            exact .inl ⟨_, .sig htype (not_not.mp hstate) haccepts
              ⟨hsignature, hfrom, hto, hvalid⟩⟩
        | inr hsilent =>
            exact .inr ⟨_, .hash (.inr (.inl htype)) (not_not.mp hstate)
              hsilent⟩
      · simp at h
  | «continue» =>
      simp only [handleSd, htype, handleSdContinue] at h
      split_ifs at h with hstate hfp
      · simp at h
      · simp at h
      · have hagrees : FpAgrees ctx s.sd := by
          intro hhas
          by_contra hne
          exact hfp ⟨hhas, hne⟩
        obtain ⟨herrors, hcases⟩ := verifySdMsgHash_clean h
        refine ⟨herrors, ?_⟩
        cases hcases with
        | inl haccepts =>
            exact .inl ⟨_, .continue htype (not_not.mp hstate) hagrees
              ⟨haccepts.fits, haccepts.runs, haccepts.hash⟩⟩
        | inr hsilent =>
            exact .inr ⟨_, .hash (.inr (.inr ⟨htype, hagrees⟩))
              (not_not.mp hstate) hsilent⟩
  | other code => simp [handleSd, htype] at h

theorem processLine_clean {faults : VerifyFaults} {ctx : VerifierCtx ossl}
    {line : Bytes} {lineNum : UInt64} (hlive : Live ctx)
    (h : (verifierProcessLine faults ctx line lineNum).1.errors = []) :
    ctx.errors = [] ∧ ∃ s, stripLine ossl line = some s ∧
      s.malformed = false ∧ ((∃ ctx', Accepts faults ctx s ctx') ∨
        ∃ tail, Silent faults ctx s tail) := by
  simp only [verifierProcessLine, if_neg hlive.not_stopped] at h
  split at h
  · split_ifs at h <;> simp [setError] at h
  next s hstrip =>
    cases hmalformed : s.malformed with
    | true =>
        split_ifs at h
        · simp [setError] at h
        · simpa [hmalformed] using (handleSd_clean h).1
    | false =>
        have hclean : ¬ s.malformed = true := by simp [hmalformed]
        simp only [addErrorIf_of_not hclean] at h
        split_ifs at h
        · simp [setError] at h
        · obtain ⟨herrors, hcases⟩ := handleSd_clean h
          exact ⟨herrors, s, hstrip, hmalformed, hcases⟩

theorem handleSd_of_silent {faults : VerifyFaults} {ctx : VerifierCtx ossl}
    {s : StrippedLine} {tail : UInt64} (h : Silent faults ctx s tail)
    (lineNum : UInt64) :
    ∃ ctx', handleSd faults ctx s lineNum = setError ctx' ∧
      ctx'.errors = ctx.errors ∧ ctx'.strict = ctx.strict ∧
      unsignedTail ctx' = tail := by
  cases h with
  | storeCtx htype hfp htrust =>
      refine ⟨ctx, ?_, rfl, rfl, rfl⟩
      simp [handleSd, htype, handleSdInit, hfp, initTrust_of_silent htrust]
  | @chainInit htype hfp ctx' htrust alg hready hfault =>
      refine ⟨lockAlg (resetSigned ctx') alg, ?_, ?_, ?_, rfl⟩
      · simp only [handleSd, htype, handleSdInit_eq hfp htrust hready, hfault,
          if_true]
      · exact (resetSigned_errors _).trans (trusted_errors htrust)
      · exact (resetSigned_strict _).trans (trusted_strict htrust)
  | initHash htype hfp htrust hready hruns hsilent =>
      refine ⟨_, ?_, ?_, ?_, rfl⟩
      · simp only [handleSd, htype, handleSdInit_eq hfp htrust hready, hruns,
          Bool.false_eq_true, if_false, verifySdMsgHash_of_silent hsilent]
      · exact (resetSigned_errors _).trans (trusted_errors htrust)
      · exact (resetSigned_strict _).trans (trusted_strict htrust)
  | hash htype hstate hsilent =>
      rcases htype with htype | htype | ⟨htype, hagrees⟩
      · refine ⟨ctx, ?_, rfl, rfl, rfl⟩
        simp [handleSd, htype, handleSdMsg, hstate,
          verifySdMsgHash_of_silent hsilent]
      · refine ⟨ctx, ?_, rfl, rfl, rfl⟩
        simp [handleSd, htype, handleSdSig, hstate,
          verifySdMsgHash_of_silent hsilent, setError]
      · have hfp : ¬ (s.sd.hasPubkeyFp = true ∧
            s.sd.pubkeyFp ≠ ctx.pubkeyFp) := by
          rintro ⟨hhas, hne⟩
          exact hne (hagrees hhas)
        have hcounted : HashSilent faults (countSegment ctx) s.sd :=
          ⟨hsilent.1, hsilent.2⟩
        refine ⟨countSegment ctx, ?_, rfl, rfl, rfl⟩
        simp only [handleSd, htype, handleSdContinue]
        rw [if_neg (not_not.mpr hstate), if_neg hfp]
        exact verifySdMsgHash_of_silent hcounted s.msg lineNum

theorem initChain_returns (faults : VerifyFaults)
    (ctx ctx' : VerifierCtx ossl) (sd : HcsSdRecord) (msg : Bytes)
    (lineNum : UInt64) :
    Returns ctx (initChain faults ctx' sd msg lineNum) := by
  unfold initChain
  split
  · exact returns_setError _ _
  · split_ifs
    · exact returns_setError _ _
    · split
      · exact returns_setError _ _
      · rcases verifySdMsgHash_returns faults _ sd msg lineNum with
          ⟨hrc, hstate | hstate⟩ | hstop
        · exact .inl ⟨hrc, .inr hstate⟩
        · exact .inl ⟨hrc, .inr hstate⟩
        · exact .inr hstop

theorem handleSdInit_returns (faults : VerifyFaults)
    (ctx ctx' : VerifierCtx ossl) (sd : HcsSdRecord) (msg certDer : Bytes)
    (lineNum : UInt64) :
    Returns ctx (handleSdInit faults ctx' sd msg certDer lineNum) := by
  simp only [handleSdInit]
  split_ifs
  · exact returns_setError _ _
  · exact returns_setError _ _
  · exact initChain_returns _ _ _ _ _ _
  · exact returns_setError _ _
  · exact returns_setError _ _

theorem checkSig_state (faults : VerifyFaults) (ctx : VerifierCtx ossl)
    (sd : HcsSdRecord) (lineNum : UInt64) :
    (checkSig faults ctx sd lineNum).state = ctx.state := by
  simp only [checkSig]
  split_ifs <;> simp only [addErrorIf_state]

theorem handleSd_returns (faults : VerifyFaults) (ctx : VerifierCtx ossl)
    (s : StrippedLine) (lineNum : UInt64) :
    Returns ctx (handleSd faults ctx s lineNum) := by
  unfold handleSd
  cases s.sd.type with
  | init => exact handleSdInit_returns faults ctx ctx _ _ _ _
  | msg =>
      simp only [handleSdMsg]
      split_ifs
      · exact returns_setError _ _
      · exact verifySdMsgHash_returns _ _ _ _ _
  | sig =>
      have hreturns := verifySdMsgHash_returns faults ctx s.sd s.msg lineNum
      simp only [handleSdSig]
      split_ifs with hstate hrc
      · exact .inl ⟨rfl, .inl rfl⟩
      · exact .inr ⟨rfl, (hreturns.resolve_left fun h => hrc h.1).2⟩
      · have hgoes := hreturns.resolve_right fun h => hrc (by simp [h.1])
        refine .inl ⟨rfl, ?_⟩
        rw [checkSig_state]
        exact hgoes.2
      · have hgoes := hreturns.resolve_right fun h => hrc (by simp [h.1])
        exact .inl ⟨rfl, hgoes.2⟩
  | «continue» =>
      simp only [handleSdContinue]
      split_ifs
      · exact .inl ⟨rfl, .inl rfl⟩
      · exact .inl ⟨rfl, .inl rfl⟩
      · exact verifySdMsgHash_returns faults (countSegment ctx) _ _ _
  | other code => exact .inl ⟨rfl, .inl rfl⟩

theorem processLine_returns (faults : VerifyFaults) {ctx : VerifierCtx ossl}
    (hlive : Live ctx) (line : Bytes) (lineNum : UInt64) :
    Returns ctx (verifierProcessLine faults ctx line lineNum) := by
  simp only [verifierProcessLine, if_neg hlive.not_stopped]
  split
  · split_ifs
    · exact returns_setError _ _
    · exact .inl ⟨rfl, .inl rfl⟩
  · split_ifs
    · exact returns_setError _ _
    · exact handleSd_returns _ _ _ _

theorem processLine_begun (faults : VerifyFaults) (ctx : VerifierCtx ossl)
    (line : Bytes) (lineNum : UInt64) :
    (verifierProcessLine faults ctx line lineNum).1.state ≠ .expectInit := by
  by_cases hstate : ctx.state = .expectInit
  · simp only [verifierProcessLine, hstate, reduceCtorEq, or_self, if_false,
      addError_state, addErrorIf_state, if_true, true_and]
    split
    · simp [setError]
    · next s _ =>
      split_ifs with htype
      · simp [setError]
      · -- a live state stands in for the one the line started from
        have hreturns := @handleSdInit_returns ossl faults
          { ctx with state := .processing } (addErrorIf s.malformed ctx
            lineNum (ascii "malformed embedded cert SD element")) s.sd s.msg
          s.certDer lineNum
        rw [not_not] at htype
        simp only [handleSd, htype]
        rcases hreturns with ⟨-, hnext | hnext⟩ | ⟨-, hnext⟩
        · simp [hnext]
        · simp [hnext]
        · simp [hnext]
  · by_cases hlive : Live ctx
    · rcases processLine_returns faults hlive line lineNum with
        ⟨-, hnext | hnext⟩ | ⟨-, hnext⟩
      · rwa [hnext]
      · simp [hnext]
      · simp [hnext]
    · have hstopped : ctx.state = .error ∨ ctx.state = .done := by
        unfold Live at hlive
        cases hcase : ctx.state <;> simp_all
      rwa [verifierProcessLine, if_pos hstopped]

theorem Live.of_returns {ctx : VerifierCtx ossl}
    {result : VerifierCtx ossl × Int} (hlive : Live ctx)
    (h : Returns ctx result) (hrc : result.2 = 0) : Live result.1 := by
  rcases h with ⟨-, hstate | hstate⟩ | ⟨habandoned, -⟩
  · unfold Live
    rw [hstate]
    exact hlive
  · exact .inr hstate
  · rw [hrc] at habandoned
    exact absurd habandoned (by decide)

theorem processLine_of_silent {faults : VerifyFaults} {ctx : VerifierCtx ossl}
    {line : Bytes} {s : StrippedLine} {tail : UInt64} (hlive : Live ctx)
    (hstrip : stripLine ossl line = some s) (hmalformed : s.malformed = false)
    (h : Silent faults ctx s tail) (lineNum : UInt64) :
    ∃ ctx', verifierProcessLine faults ctx line lineNum = setError ctx' ∧
      ctx'.errors = ctx.errors ∧ ctx'.strict = ctx.strict ∧
      unsignedTail ctx' = tail := by
  have hexpect : ¬ (ctx.state = .expectInit ∧ s.sd.type ≠ .init) := by
    rintro ⟨hstate, htype⟩
    cases h with
    | storeCtx hinit => exact htype hinit
    | chainInit hinit => exact htype hinit
    | initHash hinit => exact htype hinit
    | hash _ hprocessing => simp [hstate] at hprocessing
  have hclean : ¬ s.malformed = true := by simp [hmalformed]
  simp only [verifierProcessLine, if_neg hlive.not_stopped, hstrip,
    addErrorIf_of_not hclean, if_neg hexpect]
  exact handleSd_of_silent h lineNum

/-! ## What stays -/

structure Keeps (ctx ctx' : VerifierCtx ossl) : Prop where
  strict : ctx'.strict = ctx.strict
  trustStore : ctx'.trustStore = ctx.trustStore
  key : ctx.trustStore = none → ctx'.pubkey = ctx.pubkey ∧
    ctx'.pubkeyFp = ctx.pubkeyFp ∧ ctx'.havePubkey = ctx.havePubkey
  lock : (ctx.state = .processing → ctx.haveHashAlg = true) →
    ctx'.state = .processing → ctx'.haveHashAlg = true

theorem Keeps.refl (ctx : VerifierCtx ossl) : Keeps ctx ctx where
  strict := rfl
  trustStore := rfl
  key := fun _ => ⟨rfl, rfl, rfl⟩
  lock := id

theorem Keeps.trans {ctx ctx' ctx'' : VerifierCtx ossl}
    (h : Keeps ctx ctx') (h' : Keeps ctx' ctx'') : Keeps ctx ctx'' where
  strict := h'.strict.trans h.strict
  trustStore := h'.trustStore.trans h.trustStore
  key := by
    intro hstore
    obtain ⟨hkey, hfp, hhave⟩ := h.key hstore
    obtain ⟨hkey', hfp', hhave'⟩ := h'.key (h.trustStore.trans hstore)
    exact ⟨hkey'.trans hkey, hfp'.trans hfp, hhave'.trans hhave⟩
  lock := fun hlock => h'.lock (h.lock hlock)

theorem Keeps.errors {ctx ctx' : VerifierCtx ossl} (h : Keeps ctx ctx')
    (errors : List VerifierError) :
    Keeps ctx { ctx' with errors := errors } where
  strict := h.strict
  trustStore := h.trustStore
  key := h.key
  lock := h.lock

theorem Keeps.setError {ctx ctx' : VerifierCtx ossl} (h : Keeps ctx ctx') :
    Keeps ctx (setError ctx').1 where
  strict := h.strict
  trustStore := h.trustStore
  key := h.key
  lock := fun _ => nofun

theorem verifySdMsgHash_keeps (faults : VerifyFaults) (ctx : VerifierCtx ossl)
    (sd : HcsSdRecord) (msg : Bytes) (lineNum : UInt64) :
    Keeps ctx (verifySdMsgHash faults ctx sd msg lineNum).1 := by
  simp only [verifySdMsgHash]
  split_ifs
  · exact ((Keeps.refl ctx).errors _).setError
  · split
    · exact ((Keeps.refl ctx).errors _).setError
    · exact ⟨rfl, rfl, fun _ => ⟨rfl, rfl, rfl⟩, fun hlock => hlock⟩

theorem installPubkeyFromCert_keeps {ctx : VerifierCtx ossl}
    {store : ossl.Store} (hstore : ctx.trustStore = some store)
    (faults : VerifyFaults) (certDer : Bytes) (lineNum : UInt64) :
    Keeps ctx (installPubkeyFromCert faults store ctx certDer lineNum).1 := by
  have hnone : ctx.trustStore ≠ none := by
    rw [hstore]
    exact nofun
  unfold installPubkeyFromCert
  repeat' split
  all_goals exact ⟨rfl, rfl, fun h => absurd h hnone, fun hlock => hlock⟩

theorem initTrust_keeps (faults : VerifyFaults) (ctx : VerifierCtx ossl)
    (certDer : Bytes) (lineNum : UInt64) :
    Keeps ctx (initTrust faults ctx certDer lineNum).1 := by
  unfold initTrust
  split
  next hstore _ =>
    split_ifs
    · exact (Keeps.refl ctx).errors _
    · exact installPubkeyFromCert_keeps hstore _ _ _
  next => exact .refl ctx

theorem initTail_keeps (ctx : VerifierCtx ossl) (lineNum : UInt64) :
    Keeps ctx (initTail ctx lineNum) := by
  unfold initTail
  split_ifs
  · exact ⟨rfl, rfl, fun _ => ⟨rfl, rfl, rfl⟩, fun hlock => hlock⟩
  · exact .refl ctx

theorem initChain_keeps (faults : VerifyFaults) (ctx : VerifierCtx ossl)
    (sd : HcsSdRecord) (msg : Bytes) (lineNum : UInt64) :
    Keeps ctx (initChain faults ctx sd msg lineNum).1 := by
  simp only [initChain]
  split
  · exact ((Keeps.refl ctx).errors _).setError
  · split_ifs
    · exact ((Keeps.refl ctx).errors _).setError
    · split
      · exact ⟨rfl, rfl, fun _ => ⟨rfl, rfl, rfl⟩, fun _ => nofun⟩
      · refine Keeps.trans ?_ (verifySdMsgHash_keeps _ _ _ _ _)
        exact ⟨rfl, rfl, fun _ => ⟨rfl, rfl, rfl⟩, fun _ _ => rfl⟩

theorem handleSdInit_keeps (faults : VerifyFaults) (ctx : VerifierCtx ossl)
    (sd : HcsSdRecord) (msg certDer : Bytes) (lineNum : UInt64) :
    Keeps ctx (handleSdInit faults ctx sd msg certDer lineNum).1 := by
  have htrust := initTrust_keeps faults ctx certDer lineNum
  simp only [handleSdInit]
  split_ifs
  · exact htrust.setError
  · exact (htrust.errors _).setError
  · exact (htrust.trans (initTail_keeps _ _)).trans (initChain_keeps _ _ _ _ _)
  · exact (htrust.errors _).setError
  · exact ((Keeps.refl ctx).errors _).setError

theorem checkSig_keeps (faults : VerifyFaults) (ctx : VerifierCtx ossl)
    (sd : HcsSdRecord) (lineNum : UInt64) :
    Keeps ctx (checkSig faults ctx sd lineNum) := by
  have hchecks : ∀ {ctx' : VerifierCtx ossl} (_ : Keeps ctx ctx')
      (condition : Prop) [Decidable condition] (message : Bytes),
      Keeps ctx (addErrorIf condition ctx' lineNum message) :=
    fun h _ _ _ => h.errors _
  have hsigned : ∀ {ctx' : VerifierCtx ossl} (_ : Keeps ctx ctx'),
      Keeps ctx { ctx' with
        lastSignedSeq := sd.seqTo, sigCount := ctx'.sigCount + 1 } :=
    fun h => ⟨h.strict, h.trustStore, h.key, h.lock⟩
  unfold checkSig
  extract_lets
  split_ifs
  · apply hsigned
    repeat apply hchecks
    exact .refl ctx
  · repeat apply hchecks
    exact .refl ctx

theorem handleSd_keeps (faults : VerifyFaults) (ctx : VerifierCtx ossl)
    (s : StrippedLine) (lineNum : UInt64) :
    Keeps ctx (handleSd faults ctx s lineNum).1 := by
  have hhash := verifySdMsgHash_keeps faults ctx s.sd s.msg lineNum
  unfold handleSd
  cases s.sd.type with
  | init => exact handleSdInit_keeps _ _ _ _ _ _
  | sig =>
      simp only [handleSdSig]
      split_ifs
      · exact (Keeps.refl ctx).errors _
      · exact hhash
      · exact hhash.trans (checkSig_keeps _ _ _ _)
      · exact hhash.errors _
  | «continue» =>
      simp only [handleSdContinue]
      split_ifs
      · exact (Keeps.refl ctx).errors _
      · exact (Keeps.refl ctx).errors _
      · refine Keeps.trans ?_ (verifySdMsgHash_keeps _ _ _ _ _)
        exact ⟨rfl, rfl, fun _ => ⟨rfl, rfl, rfl⟩, fun hlock => hlock⟩
  | msg =>
      simp only [handleSdMsg]
      split_ifs
      · exact ((Keeps.refl ctx).errors _).setError
      · exact hhash
  | other c => exact (Keeps.refl ctx).errors _

theorem processLine_keeps (faults : VerifyFaults) (ctx : VerifierCtx ossl)
    (line : Bytes) (lineNum : UInt64) :
    Keeps ctx (verifierProcessLine faults ctx line lineNum).1 := by
  unfold verifierProcessLine
  split_ifs
  · exact .refl ctx
  · cases stripLine ossl line with
    | none =>
        dsimp only
        split_ifs
        · exact ((Keeps.refl ctx).errors _).setError
        · exact (Keeps.refl ctx).errors _
    | some s =>
        have hmalformed := (Keeps.refl ctx).errors (addErrorIf s.malformed ctx
          lineNum (ascii "malformed embedded cert SD element")).errors
        dsimp only
        split_ifs
        · exact (hmalformed.errors _).setError
        · exact hmalformed.trans (handleSd_keeps _ _ _ _)

end MmHashChainSigs.Verify
