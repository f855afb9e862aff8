import MmHashChainSigs.Common.Format

/-!
# The verification engine

`verifier.c`.  A handler returns the context and the return code.  Which
primitive fails during a call is part of the call.
-/

namespace MmHashChainSigs.Verify

open MmHashChainSigs.Foundation
open MmHashChainSigs.Common

namespace Limits

def verifierMaxErrors : Nat := 64
def verifierMessageLen : Nat := 256
def sdMsgBufLen : Nat := 8192

end Limits

inductive VerifierState where
  | expectInit
  | processing
  | done
  | error
  deriving DecidableEq, Repr

structure VerifierError where
  lineNum : UInt64
  message : Bytes
  deriving DecidableEq, Repr

structure VerifierOpts where
  pubkeyPath : Option Bytes := none
  certPath : Option Bytes := none
  caBundlePath : Option Bytes := none
  crlFile : Option Bytes := none
  strict : Bool := false

/-- `chainHash` holds the first `hashLen` bytes of its buffer. -/
structure VerifierCtx (ossl : OpenSSL) where
  state : VerifierState := .expectInit
  pubkey : Option ossl.Pkey := none
  pubkeyFp : Bytes := List.replicate Common.Limits.hcsHashLen 0
  havePubkey : Bool := false
  trustStore : Option ossl.Store := none
  hashAlg : HcsHashAlg := .sha256
  hashLen : Nat := 0
  haveHashAlg : Bool := false
  chainHash : Bytes := []
  nextSeq : UInt64 := 1
  msgCount : UInt64 := 0
  sigCount : UInt64 := 0
  lastSignedSeq : UInt64 := 0
  segmentCount : UInt64 := 0
  strict : Bool := false
  errors : List VerifierError := []

/-- The primitives that fail; `verifyCert` is the error of a rejected chain. -/
structure VerifyFaults where
  x509FromDer : Bool := false
  storeCtxNew : Bool := false
  storeCtxInit : Bool := false
  verifyCert : Option Bytes := none
  x509GetPubkey : Bool := false
  fingerprint : Bool := false
  chainInit : Bool := false
  hashChain : Bool := false
  verify : Bool := false

variable {ossl : OpenSSL}

/-! ## Errors -/

def pushError (errors : List VerifierError) (lineNum : UInt64)
    (message : Bytes) : List VerifierError :=
  if Limits.verifierMaxErrors ≤ errors.length then errors
  else errors ++ [⟨lineNum, message.take (Limits.verifierMessageLen - 1)⟩]

@[simps state pubkey pubkeyFp havePubkey trustStore hashAlg hashLen haveHashAlg
  chainHash nextSeq msgCount sigCount lastSignedSeq segmentCount strict]
def addError (ctx : VerifierCtx ossl) (lineNum : UInt64) (message : Bytes) :
    VerifierCtx ossl :=
  { ctx with errors := pushError ctx.errors lineNum message }

@[simps state pubkey pubkeyFp havePubkey trustStore hashAlg hashLen haveHashAlg
  chainHash nextSeq msgCount sigCount lastSignedSeq segmentCount strict]
def addErrorIf (condition : Prop) [Decidable condition]
    (ctx : VerifierCtx ossl) (lineNum : UInt64) (message : Bytes) :
    VerifierCtx ossl :=
  { ctx with
    errors :=
      if condition then pushError ctx.errors lineNum message else ctx.errors }

theorem pushError_ne_nil (errors : List VerifierError) (lineNum : UInt64)
    (message : Bytes) : pushError errors lineNum message ≠ [] := by
  unfold pushError
  split_ifs with h
  · rintro rfl
    exact absurd h (by decide)
  · simp

@[simp] theorem addError_errors (ctx : VerifierCtx ossl) (lineNum : UInt64)
    (message : Bytes) : (addError ctx lineNum message).errors ≠ [] :=
  pushError_ne_nil _ _ _

@[simp] theorem addErrorIf_errors {condition : Prop} [Decidable condition]
    (ctx : VerifierCtx ossl) (lineNum : UInt64) (message : Bytes) :
    (addErrorIf condition ctx lineNum message).errors = [] ↔
      ¬ condition ∧ ctx.errors = [] := by
  unfold addErrorIf
  split_ifs with h <;> simp [h, pushError_ne_nil]

theorem addErrorIf_of_not {condition : Prop} [Decidable condition]
    (h : ¬ condition) (ctx : VerifierCtx ossl) (lineNum : UInt64)
    (message : Bytes) : addErrorIf condition ctx lineNum message = ctx := by
  unfold addErrorIf
  rw [if_neg h]

def setError (ctx : VerifierCtx ossl) : VerifierCtx ossl × Int :=
  ({ ctx with state := .error }, -1)

/-! ## Initialization -/

def loadPubkeyFromCertFile (ossl : OpenSSL) (path : Bytes) :
    Option ossl.Pkey :=
  (hcsLoadX509Cert ossl path).bind (hcsX509GetPubkey ossl)

def keyedCtx (strict : Bool) (key : ossl.Pkey) (fp : Bytes) :
    VerifierCtx ossl :=
  { strict := strict, pubkey := some key, pubkeyFp := fp, havePubkey := true }

def bundleCtx (strict : Bool) (store : ossl.Store) : VerifierCtx ossl :=
  { strict := strict, trustStore := some store }

def withPubkey (fingerprintFails strict : Bool) (key : Option ossl.Pkey) :
    Option (VerifierCtx ossl) := do
  let key ← key
  let fp ← hcsPubkeyFingerprint ossl fingerprintFails key
  some (keyedCtx strict key fp)

def verifierInit (ossl : OpenSSL) (fingerprintFails : Bool)
    (opts : VerifierOpts) : Option (VerifierCtx ossl) :=
  match opts.pubkeyPath, opts.certPath, opts.caBundlePath with
  | some path, none, none =>
      withPubkey fingerprintFails opts.strict (hcsLoadPublicKey ossl path)
  | none, some path, none =>
      withPubkey fingerprintFails opts.strict
        (loadPubkeyFromCertFile ossl path)
  | none, none, some path =>
      (ossl.readStore path opts.crlFile).map (bundleCtx opts.strict)
  | _, _, _ => none

/-! ## Handlers -/

def number (n : UInt64) : Bytes := decimal n.toNat

def x509FromDer (faults : VerifyFaults) (der : Bytes) : Option ossl.X509 :=
  if faults.x509FromDer then none else hcsX509FromDer ossl der

def x509GetPubkey (faults : VerifyFaults) (cert : ossl.X509) :
    Option ossl.Pkey :=
  if faults.x509GetPubkey then none else hcsX509GetPubkey ossl cert

/-- The error string of a certificate that does not chain to the store. -/
def x509VerifyCert (faults : VerifyFaults) (store : ossl.Store)
    (cert : ossl.X509) : Option Bytes :=
  faults.verifyCert.or (ossl.verifyCert store cert)

/-- A present store is the caller's guard, so `store` is an argument. -/
def installPubkeyFromCert (faults : VerifyFaults) (store : ossl.Store)
    (ctx : VerifierCtx ossl) (certDer : Bytes) (lineNum : UInt64) :
    VerifierCtx ossl × Int :=
  match x509FromDer faults certDer with
  | none =>
      (addError ctx lineNum (ascii "failed to parse embedded certificate"), -1)
  | some cert =>
      if faults.storeCtxNew then (ctx, -1)
      else if faults.storeCtxInit then
        (addError ctx lineNum (ascii "X509_STORE_CTX_init failed"), -1)
      else
        match x509VerifyCert faults store cert with
        | some err =>
            (addError ctx lineNum
              (ascii "certificate chain validation failed: " ++ err), -1)
        | none =>
            match x509GetPubkey faults cert with
            | none =>
                (addError ctx lineNum (ascii
                  "unsupported public key algorithm in certificate"), -1)
            | some pub =>
                match hcsPubkeyFingerprint ossl faults.fingerprint pub with
                | none =>
                    (addError { ctx with pubkey := none } lineNum (ascii
                      "failed to compute pubkey fingerprint from cert"), -1)
                | some fp =>
                    ({ ctx with pubkey := some pub, pubkeyFp := fp,
                                havePubkey := true }, 0)

def verifySdMsgHash (faults : VerifyFaults) (ctx : VerifierCtx ossl)
    (sd : HcsSdRecord) (msg : Bytes) (lineNum : UInt64) :
    VerifierCtx ossl × Int :=
  let ctx := addErrorIf (sd.seq ≠ ctx.nextSeq) ctx lineNum
    (ascii "SD seq=" ++ number sd.seq ++ ascii ", expected " ++
      number ctx.nextSeq)
  if sd.chainHashLen ≠ ctx.hashLen then
    setError (addError ctx lineNum
      (ascii "chain hash length changed mid-chain (got " ++
        decimal sd.chainHashLen ++ ascii ", expected " ++
        decimal ctx.hashLen ++ ascii ")"))
  else
    match hcsHashChain ossl faults.hashChain ctx.hashAlg ctx.chainHash
      ctx.nextSeq msg with
    | none => setError ctx
    | some next =>
        let ctx := { ctx with chainHash := next }
        let ctx := addErrorIf (ctx.chainHash ≠ sd.chainHash) ctx lineNum
          (ascii "chain hash mismatch at seq " ++ number sd.seq)
        ({ ctx with nextSeq := ctx.nextSeq + 1
                    msgCount := ctx.msgCount + 1 }, 0)

def initTrust (faults : VerifyFaults) (ctx : VerifierCtx ossl)
    (certDer : Bytes) (lineNum : UInt64) : VerifierCtx ossl × Int :=
  match ctx.trustStore, ctx.havePubkey with
  | some store, false =>
      if certDer = [] then
        (addError ctx lineNum
          (ascii "CA-bundle mode requires an embedded certificate" ++
            ascii " on INIT (configure embedcert=on at the signer)"), -1)
      else installPubkeyFromCert faults store ctx certDer lineNum
  | _, _ => (ctx, 0)

def initTail (ctx : VerifierCtx ossl) (lineNum : UInt64) : VerifierCtx ossl :=
  if ctx.state = .processing then
    let unsignedTail := ctx.nextSeq - 1 - ctx.lastSignedSeq
    let ctx := addErrorIf (0 < unsignedTail ∧ ctx.strict) ctx lineNum
      (number unsignedTail ++ ascii " messages unsigned before new segment")
    { ctx with lastSignedSeq := 0 }
  else ctx

def initChain (faults : VerifyFaults) (ctx : VerifierCtx ossl)
    (sd : HcsSdRecord) (msg : Bytes) (lineNum : UInt64) :
    VerifierCtx ossl × Int :=
  match hcsHashAlgFromHexLen (sd.chainHashLen * 2) with
  | none =>
      setError (addError ctx lineNum
        (ascii "INIT chain hash has unsupported length " ++
          decimal sd.chainHashLen))
  | some alg =>
      if ctx.haveHashAlg ∧ ctx.hashAlg ≠ alg then
        setError (addError ctx lineNum
          (ascii "hash algorithm changed mid-file (was " ++
            hcsHashName ctx.hashAlg ++ ascii ", INIT now " ++
            hcsHashName alg ++ ascii ")"))
      else
        let ctx := { ctx with hashAlg := alg, hashLen := hcsHashLen alg
                              haveHashAlg := true }
        match hcsChainInitHash ossl faults.chainInit alg with
        | none => setError ctx
        | some iv =>
            verifySdMsgHash faults
              { ctx with chainHash := iv, nextSeq := 1
                         segmentCount := ctx.segmentCount + 1
                         state := .processing }
              sd msg lineNum

def handleSdInit (faults : VerifyFaults) (ctx : VerifierCtx ossl)
    (sd : HcsSdRecord) (msg certDer : Bytes) (lineNum : UInt64) :
    VerifierCtx ossl × Int :=
  if ¬ sd.hasPubkeyFp then
    setError (addError ctx lineNum (ascii "INIT SD missing fingerprint"))
  else
    let (ctx, rc) := initTrust faults ctx certDer lineNum
    if rc ≠ 0 then setError ctx
    else if ¬ ctx.havePubkey then
      setError (addError ctx lineNum
        (ascii "no public key available to verify INIT"))
    else if sd.pubkeyFp ≠ ctx.pubkeyFp then
      setError (addError ctx lineNum (ascii "INIT fingerprint mismatch"))
    else initChain faults (initTail ctx lineNum) sd msg lineNum

def handleSdMsg (faults : VerifyFaults) (ctx : VerifierCtx ossl)
    (sd : HcsSdRecord) (msg : Bytes) (lineNum : UInt64) :
    VerifierCtx ossl × Int :=
  if ctx.state ≠ .processing then
    setError (addError ctx lineNum (ascii "message before INIT"))
  else verifySdMsgHash faults ctx sd msg lineNum

/-- The signature part of `handle_sd_sig`; without a key no call can succeed. -/
def verifySig (faults : VerifyFaults) (ctx : VerifierCtx ossl)
    (sd : HcsSdRecord) : Int :=
  match ctx.pubkey with
  | none => -1
  | some key =>
      hcsVerify ossl faults.verify key ctx.chainHash
        (sd.signature.take sd.sigLen)

def checkSig (faults : VerifyFaults) (ctx : VerifierCtx ossl)
    (sd : HcsSdRecord) (lineNum : UInt64) : VerifierCtx ossl :=
  let expFrom := ctx.lastSignedSeq + 1
  let expTo := ctx.nextSeq - 1
  let range := number sd.seqFrom ++ ascii "-" ++ number sd.seqTo
  let vr := verifySig faults ctx sd
  let ctx := addErrorIf (sd.seqFrom ≠ expFrom) ctx lineNum
    (ascii "SIG qf=" ++ number sd.seqFrom ++ ascii ", expected " ++
      number expFrom)
  let ctx := addErrorIf (sd.seqTo ≠ expTo) ctx lineNum
    (ascii "SIG qt=" ++ number sd.seqTo ++ ascii ", expected " ++
      number expTo)
  let ctx := addErrorIf (vr = 1) ctx lineNum
    (ascii "invalid signature at seq " ++ range)
  let ctx := addErrorIf (vr < 0) ctx lineNum
    (ascii "signature verification error at seq " ++ range)
  if vr = 0 then
    { ctx with lastSignedSeq := sd.seqTo, sigCount := ctx.sigCount + 1 }
  else ctx

def handleSdSig (faults : VerifyFaults) (ctx : VerifierCtx ossl)
    (sd : HcsSdRecord) (msg : Bytes) (lineNum : UInt64) :
    VerifierCtx ossl × Int :=
  if ctx.state ≠ .processing then
    (addError ctx lineNum (ascii "SIG before INIT"), 0)
  else
    let (ctx, rc) := verifySdMsgHash faults ctx sd msg lineNum
    if rc ≠ 0 then (ctx, -1)
    else if ¬ sd.hasSignature then
      (addError ctx lineNum (ascii "SIG SD missing signature"), 0)
    else (checkSig faults ctx sd lineNum, 0)

def handleSdContinue (faults : VerifyFaults) (ctx : VerifierCtx ossl)
    (sd : HcsSdRecord) (msg : Bytes) (lineNum : UInt64) :
    VerifierCtx ossl × Int :=
  if ctx.state ≠ .processing then
    (addError ctx lineNum (ascii "CONTINUE before INIT"), 0)
  else if sd.hasPubkeyFp ∧ sd.pubkeyFp ≠ ctx.pubkeyFp then
    (addError ctx lineNum (ascii "CONTINUE fingerprint mismatch"), 0)
  else
    verifySdMsgHash faults { ctx with segmentCount := ctx.segmentCount + 1 }
      sd msg lineNum

/-! ## Lines -/

structure StrippedLine where
  sd : HcsSdRecord
  msg : Bytes
  certDer : Bytes
  malformed : Bool
  deriving DecidableEq, Repr

/--
The two strip passes of `verifier_process_line`.  Behind a line stands a NUL or
a line terminator, so an element that runs past the line is never accepted.  A
certificate is kept whole, also where it does not fit `cert_der`.
-/
def stripLine (ossl : OpenSSL) (line : Bytes) : Option StrippedLine :=
  match hcsStripSdFromLine ossl line 0 Limits.sdMsgBufLen with
  | .error _ => none
  | .ok (_, msg, sd) =>
      match hcsExtractAndStripCertSd ossl msg Limits.sdMsgBufLen with
      | .failed => some ⟨sd, msg, [], true⟩
      | .absent msg => some ⟨sd, msg, [], false⟩
      | .stripped msg der derLen => some ⟨sd, msg, der.take derLen, false⟩

def handleSd (faults : VerifyFaults) (ctx : VerifierCtx ossl)
    (stripped : StrippedLine) (lineNum : UInt64) : VerifierCtx ossl × Int :=
  match stripped.sd.type with
  | .init =>
      handleSdInit faults ctx stripped.sd stripped.msg stripped.certDer lineNum
  | .sig => handleSdSig faults ctx stripped.sd stripped.msg lineNum
  | .continue => handleSdContinue faults ctx stripped.sd stripped.msg lineNum
  | .msg => handleSdMsg faults ctx stripped.sd stripped.msg lineNum
  | .other _ => (addError ctx lineNum (ascii "unknown SD type"), 0)

def verifierProcessLine (faults : VerifyFaults) (ctx : VerifierCtx ossl)
    (line : Bytes) (lineNum : UInt64) : VerifierCtx ossl × Int :=
  if ctx.state = .error ∨ ctx.state = .done then (ctx, -1)
  else
    match stripLine ossl line with
    | none =>
        let ctx := addError ctx lineNum
          (ascii "missing mmhashchainsigs SD element")
        if ctx.state = .expectInit then setError ctx else (ctx, 0)
    | some stripped =>
        let ctx := addErrorIf stripped.malformed ctx lineNum
          (ascii "malformed embedded cert SD element")
        if ctx.state = .expectInit ∧ stripped.sd.type ≠ .init then
          setError (addError ctx lineNum (ascii "expected INIT SD record"))
        else handleSd faults ctx stripped lineNum

def verifierFinalize (ctx : VerifierCtx ossl) : VerifierCtx ossl :=
  let ctx := addErrorIf (ctx.state = .expectInit) ctx 0
    (ascii "empty file: no INIT record found")
  let unsignedCount := ctx.nextSeq - 1 - ctx.lastSignedSeq
  let ctx := addErrorIf (ctx.strict ∧ 0 < unsignedCount) ctx 0
    (number unsignedCount ++ ascii " messages at tail are unsigned")
  { ctx with state := .done }

def verifierPassed (ctx : VerifierCtx ossl) : Bool := ctx.errors.isEmpty

end MmHashChainSigs.Verify
