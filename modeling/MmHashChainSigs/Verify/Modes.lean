import MmHashChainSigs.Verify.Main

/-!
# What a mode changes

The errors are read nowhere, the strict mode and the trust store at one place
each.  A context is put under other ones, and the handlers go the same way.
-/

namespace MmHashChainSigs.Verify

open MmHashChainSigs.Foundation
open MmHashChainSigs.Common

variable {ossl : OpenSSL}

/-! ## Settings -/

structure Setting (ossl : OpenSSL) where
  errors : List VerifierError
  strict : Bool
  trustStore : Option ossl.Store

def keepFirst (errors more : List VerifierError) : List VerifierError :=
  (errors ++ more).take Limits.verifierMaxErrors

@[simps state pubkey pubkeyFp havePubkey hashAlg hashLen haveHashAlg chainHash
  nextSeq msgCount sigCount lastSignedSeq segmentCount strict trustStore]
def under (setting : Setting ossl) (ctx : VerifierCtx ossl) :
    VerifierCtx ossl :=
  { ctx with
    errors := keepFirst setting.errors ctx.errors
    strict := setting.strict
    trustStore := setting.trustStore }

def underCall (setting : Setting ossl) (result : VerifierCtx ossl × Int) :
    VerifierCtx ossl × Int := (under setting result.1, result.2)

theorem pushError_keepFirst (errors more : List VerifierError)
    (lineNum : UInt64) (message : Bytes) :
    pushError (keepFirst errors more) lineNum message =
      keepFirst errors (pushError more lineNum message) := by
  unfold pushError keepFirst
  by_cases hfull : Limits.verifierMaxErrors ≤ errors.length + more.length
  · have hlength : Limits.verifierMaxErrors ≤
        ((errors ++ more).take Limits.verifierMaxErrors).length := by
      rw [List.length_take, List.length_append]
      omega
    have hcut : Limits.verifierMaxErrors ≤ (errors ++ more).length := by
      rw [List.length_append]
      exact hfull
    rw [if_pos hlength]
    split_ifs
    · rfl
    · rw [← List.append_assoc, List.take_append_of_le_length hcut]
  · have hshort : (errors ++ more).length < Limits.verifierMaxErrors := by
      rw [List.length_append]
      omega
    have hlonger : ∀ e : VerifierError,
        (errors ++ (more ++ [e])).length ≤ Limits.verifierMaxErrors := by
      intro e
      rw [← List.append_assoc, List.length_append]
      exact hshort
    rw [List.take_of_length_le (Nat.le_of_lt hshort),
      if_neg (Nat.not_le.mpr hshort), if_neg (by omega),
      List.take_of_length_le (hlonger _), List.append_assoc]

section Handlers

variable (setting : Setting ossl) (ctx : VerifierCtx ossl)

theorem addError_under (lineNum : UInt64) (message : Bytes) :
    addError (under setting ctx) lineNum message =
      under setting (addError ctx lineNum message) := by
  simp only [addError, under, pushError_keepFirst]

theorem addErrorIf_under (condition : Prop) [Decidable condition]
    (lineNum : UInt64) (message : Bytes) :
    addErrorIf condition (under setting ctx) lineNum message =
      under setting (addErrorIf condition ctx lineNum message) := by
  unfold addErrorIf
  split_ifs
  · simp only [under, pushError_keepFirst]
  · rfl

theorem setError_under :
    setError (under setting ctx) = underCall setting (setError ctx) := rfl

theorem verifySdMsgHash_under (faults : VerifyFaults) (sd : HcsSdRecord)
    (msg : Bytes) (lineNum : UInt64) :
    verifySdMsgHash faults (under setting ctx) sd msg lineNum =
      underCall setting (verifySdMsgHash faults ctx sd msg lineNum) := by
  unfold verifySdMsgHash
  simp only [under_nextSeq, addErrorIf_under]
  generalize addErrorIf (sd.seq ≠ ctx.nextSeq) ctx lineNum _ = next
  rw [under_hashLen]
  split_ifs
  · rw [addError_under, setError_under]
  · rw [under_hashAlg, under_chainHash, under_nextSeq]
    cases hcsHashChain ossl faults.hashChain next.hashAlg next.chainHash
      next.nextSeq msg with
    | none => rfl
    | some hash =>
        have hcompared := addErrorIf_under setting
          { next with chainHash := hash } (hash ≠ sd.chainHash) lineNum
          (ascii "chain hash mismatch at seq " ++ number sd.seq)
        simp only [underCall, Prod.mk.injEq, and_true]
        exact congrArg (fun ctx => { ctx with
          nextSeq := ctx.nextSeq + 1, msgCount := ctx.msgCount + 1 }) hcompared

theorem checkSig_under (faults : VerifyFaults) (sd : HcsSdRecord)
    (lineNum : UInt64) :
    checkSig faults (under setting ctx) sd lineNum =
      under setting (checkSig faults ctx sd lineNum) := by
  have hverify : verifySig faults (under setting ctx) sd =
      verifySig faults ctx sd := rfl
  unfold checkSig
  simp only [hverify, under_lastSignedSeq, under_nextSeq, addErrorIf_under]
  split_ifs
  · rfl
  · rfl

theorem handleSdMsg_under (faults : VerifyFaults) (sd : HcsSdRecord)
    (msg : Bytes) (lineNum : UInt64) :
    handleSdMsg faults (under setting ctx) sd msg lineNum =
      underCall setting (handleSdMsg faults ctx sd msg lineNum) := by
  unfold handleSdMsg
  rw [under_state]
  split_ifs
  · rw [addError_under, setError_under]
  · exact verifySdMsgHash_under _ _ _ _ _ _

theorem handleSdSig_under (faults : VerifyFaults) (sd : HcsSdRecord)
    (msg : Bytes) (lineNum : UInt64) :
    handleSdSig faults (under setting ctx) sd msg lineNum =
      underCall setting (handleSdSig faults ctx sd msg lineNum) := by
  unfold handleSdSig
  rw [under_state, verifySdMsgHash_under]
  simp only [underCall, addError_under, checkSig_under]
  split_ifs <;> rfl

theorem handleSdContinue_under (faults : VerifyFaults) (sd : HcsSdRecord)
    (msg : Bytes) (lineNum : UInt64) :
    handleSdContinue faults (under setting ctx) sd msg lineNum =
      underCall setting (handleSdContinue faults ctx sd msg lineNum) := by
  unfold handleSdContinue
  rw [under_state, under_pubkeyFp]
  split_ifs
  · rw [addError_under]
    rfl
  · rw [addError_under]
    rfl
  · exact verifySdMsgHash_under setting (countSegment ctx) _ _ _ _

theorem installPubkeyFromCert_under (faults : VerifyFaults)
    (store : ossl.Store) (certDer : Bytes) (lineNum : UInt64) :
    installPubkeyFromCert faults store (under setting ctx) certDer lineNum =
      underCall setting
        (installPubkeyFromCert faults store ctx certDer lineNum) := by
  unfold installPubkeyFromCert
  simp only [addError_under]
  split
  · rfl
  · split_ifs
    · rfl
    · rfl
    · split
      · rfl
      · split
        · rfl
        · split
          · exact congrArg (fun ctx => (ctx, (-1 : Int)))
              (addError_under setting { ctx with pubkey := none } _ _)
          · rfl

theorem initChain_under (faults : VerifyFaults) (sd : HcsSdRecord)
    (msg : Bytes) (lineNum : UInt64) :
    initChain faults (under setting ctx) sd msg lineNum =
      underCall setting (initChain faults ctx sd msg lineNum) := by
  unfold initChain
  simp only [under_haveHashAlg, under_hashAlg, addError_under]
  split
  · rfl
  · split_ifs
    · rfl
    · split
      · rfl
      next alg _ _ _ iv _ =>
        exact verifySdMsgHash_under setting { ctx with
          hashAlg := alg, hashLen := hcsHashLen alg, haveHashAlg := true
          chainHash := iv, nextSeq := 1, segmentCount := ctx.segmentCount + 1
          state := .processing } _ _ _ _

variable {setting ctx}

theorem initTail_under (hstrict : setting.strict = ctx.strict)
    (lineNum : UInt64) :
    initTail (under setting ctx) lineNum =
      under setting (initTail ctx lineNum) := by
  unfold initTail
  rw [under_state, under_nextSeq, under_lastSignedSeq, under_strict, hstrict]
  split_ifs
  · dsimp only
    rw [addErrorIf_under]
    rfl
  · rfl

theorem initTrust_under
    (hstore : setting.trustStore = ctx.trustStore ∨ ctx.havePubkey = true)
    (faults : VerifyFaults) (certDer : Bytes) (lineNum : UInt64) :
    initTrust faults (under setting ctx) certDer lineNum =
      underCall setting (initTrust faults ctx certDer lineNum) := by
  by_cases hhave : ctx.havePubkey = true
  · rw [(trusted_of_key (.inr hhave) faults certDer lineNum).2,
      (@trusted_of_key _ (under setting ctx) (.inr hhave) faults certDer
        lineNum).2]
    rfl
  · rw [Bool.not_eq_true] at hhave
    have hsame := hstore.resolve_right (by simp [hhave])
    unfold initTrust
    rw [under_trustStore, under_havePubkey, hsame, hhave]
    cases ctx.trustStore with
    | none => rfl
    | some store =>
        dsimp only
        split_ifs
        · rw [addError_under]
          rfl
        · exact installPubkeyFromCert_under _ _ _ _ _ _

structure Unseen (setting : Setting ossl) (ctx : VerifierCtx ossl) : Prop where
  strict : setting.strict = ctx.strict
  store : setting.trustStore = ctx.trustStore ∨ ctx.havePubkey = true

theorem handleSdInit_under (h : Unseen setting ctx) (faults : VerifyFaults)
    (sd : HcsSdRecord) (msg certDer : Bytes) (lineNum : UInt64) :
    handleSdInit faults (under setting ctx) sd msg certDer lineNum =
      underCall setting
        (handleSdInit faults ctx sd msg certDer lineNum) := by
  have hkeeps := initTrust_keeps faults ctx certDer lineNum
  unfold handleSdInit
  rw [initTrust_under h.store]
  generalize initTrust faults ctx certDer lineNum = result at hkeeps ⊢
  have hstrict : setting.strict = result.1.strict :=
    h.strict.trans hkeeps.strict.symm
  simp only [underCall, addError_under, under_havePubkey, under_pubkeyFp,
    setError_under, initTail_under hstrict, initChain_under]
  split_ifs <;> rfl

theorem handleSd_under (h : Unseen setting ctx) (faults : VerifyFaults)
    (s : StrippedLine) (lineNum : UInt64) :
    handleSd faults (under setting ctx) s lineNum =
      underCall setting (handleSd faults ctx s lineNum) := by
  unfold handleSd
  cases s.sd.type with
  | init => exact handleSdInit_under h _ _ _ _ _
  | sig => exact handleSdSig_under _ _ _ _ _ _
  | «continue» => exact handleSdContinue_under _ _ _ _ _ _
  | msg => exact handleSdMsg_under _ _ _ _ _ _
  | other code =>
      dsimp only
      rw [addError_under]
      rfl

theorem processCall_under (h : Unseen setting ctx) (call : VerifyCall) :
    processCall (under setting ctx) call =
      underCall setting (processCall ctx call) := by
  unfold processCall verifierProcessLine
  rw [under_state]
  split_ifs
  · rfl
  · cases stripLine ossl call.line with
    | none =>
        dsimp only
        rw [addError_under, under_state]
        split_ifs
        · rfl
        · rfl
    | some s =>
        dsimp only
        rw [addErrorIf_under, under_state]
        split_ifs
        · rw [addError_under]
          rfl
        · have hmarked : Unseen setting (addErrorIf (s.malformed = true) ctx
              call.lineNum (ascii "malformed embedded cert SD element")) :=
            ⟨h.strict, h.store⟩
          exact handleSd_under hmarked _ _ _

theorem processCall_havePubkey (h : ctx.havePubkey = true)
    (call : VerifyCall) : (processCall ctx call).1.havePubkey = true := by
  -- without the store the key is one that stays
  let setting : Setting ossl := ⟨[], ctx.strict, none⟩
  have hunder := @processCall_under _ setting ctx ⟨rfl, .inr h⟩ call
  have hkey := (processCall_keeps (under setting ctx) call).key rfl
  rw [hunder] at hkey
  exact hkey.2.2.trans h

theorem Unseen.processCall (h : Unseen setting ctx) (call : VerifyCall) :
    Unseen setting (processCall ctx call).1 := by
  have hkeeps := processCall_keeps ctx call
  constructor
  · exact h.strict.trans hkeeps.strict.symm
  · rcases h.store with hstore | hhave
    · exact .inl (hstore.trans hkeeps.trustStore.symm)
    · exact .inr (processCall_havePubkey hhave call)

theorem verifierFinalize_under (hstrict : setting.strict = ctx.strict) :
    verifierFinalize (under setting ctx) =
      under setting (verifierFinalize ctx) := by
  obtain ⟨errors, strict, trustStore⟩ := setting
  cases hstrict
  unfold verifierFinalize
  simp only [addErrorIf_under, under_state, under_nextSeq, under_lastSignedSeq,
    addErrorIf_nextSeq, addErrorIf_lastSignedSeq, addErrorIf_strict,
    under_strict]
  rfl

theorem feed_under (h : Unseen setting ctx) (calls : List VerifyCall) :
    feed (under setting ctx) calls = under setting (feed ctx calls) := by
  induction calls generalizing ctx with
  | nil => rfl
  | cons call calls ih =>
      rw [feed_cons, feed_cons, processCall_under h]
      exact ih (h.processCall call)

end Handlers

end MmHashChainSigs.Verify
