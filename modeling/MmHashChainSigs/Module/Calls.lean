import MmHashChainSigs.Common.RoundTrip
import MmHashChainSigs.Module.Action

/-!
# What one call can do

The signing core writes three kinds of elements.  Each is stated with the
chain entry it belongs to and the worker it leaves behind; the calls are then
told apart by the kind they write and by the step that failed.
-/

namespace MmHashChainSigs.Module

open MmHashChainSigs.Foundation
open MmHashChainSigs.Common

variable {ossl : OpenSSL}

/-! ## The chain -/

variable (ossl) in
def rootChain (alg : HcsHashAlg) : HashchainCtx where
  alg := alg
  current := ossl.digest alg hcsChainIv
  seq := 1
  msgCount := 0
  current_length := ossl.digest_length _ _

variable (ossl) in
def absorb (chain : HashchainCtx) (payload : Bytes) : HashchainCtx where
  alg := chain.alg
  current := ossl.digest chain.alg (chainHashInput chain payload)
  seq := chain.seq + 1
  msgCount := chain.msgCount + 1
  current_length := ossl.digest_length _ _

theorem hashchainInit_eq (fails : Bool) (alg : HcsHashAlg) :
    hashchainInit ossl fails alg =
      if fails then ({ alg := alg, seq := 1 }, false)
      else (rootChain ossl alg, true) := by
  cases fails <;> rfl

theorem hashchainUpdate_eq (fails : Bool) (chain : HashchainCtx)
    (payload : Bytes) :
    hashchainUpdate ossl fails chain payload =
      if fails then none else some (absorb ossl chain payload) := by
  cases fails with
  | true => rfl
  | false =>
      have hcurrent : chain.current.take (hcsHashLen chain.alg) =
          chain.current := by
        rw [← chain.current_length, List.take_length]
      have hnext : hcsHashChain ossl false chain.alg chain.current chain.seq
          payload =
          some (ossl.digest chain.alg (chainHashInput chain payload)) := by
        simp only [hcsHashChain, hcurrent, chainHashInput, Bool.false_eq_true,
          if_false]
      simp only [hashchainUpdate, Bool.false_eq_true, if_false]
      rw [Option.map_eq_some_iff]
      refine ⟨⟨_, hnext⟩, ?_, rfl⟩
      rw [Option.attach_eq_some_iff]
      exact hnext

/-! ## Elements -/

theorem hcsFormatSdInit_some {seq : UInt64} {hash fp sd : Bytes} {cap : Nat}
    (h : hcsFormatSdInit seq hash fp cap = some sd) :
    sd = elementText (initParams "I" seq hash fp) := by
  unfold hcsFormatSdInit at h
  split_ifs at h
  rw [(fits_eq_some.mp h).2, sdInitText_eq]

theorem hcsFormatSdMsg_some {seq : UInt64} {hash sd : Bytes} {cap : Nat}
    (h : hcsFormatSdMsg seq hash cap = some sd) :
    sd = elementText (msgParams seq hash) := by
  unfold hcsFormatSdMsg at h
  split_ifs at h
  rw [(fits_eq_some.mp h).2, sdMsgText_eq]

theorem hcsFormatSdSig_some {seq seqFrom seqTo : UInt64} {hash sig sd : Bytes}
    {cap : Nat}
    (h : hcsFormatSdSig seq hash seqFrom seqTo sig cap = some sd) :
    sd = elementText (sigParams seq hash seqFrom seqTo sig) := by
  unfold hcsFormatSdSig at h
  split_ifs at h
  simp only [Option.bind_eq_bind, Option.bind_eq_some_iff, hcsB64Encode] at h
  obtain ⟨s, hs, htext⟩ := h
  rw [(fits_eq_some.mp htext).2, (fits_eq_some.mp hs).2, sdSigText_eq]

def CertSuffix (text : Bytes) : Prop :=
  text = [] ∨ ∃ der, der.length ≤ Common.Limits.hcsCertDerMax ∧
    text = sdCertText (Base64.encode der)

/--
The text of an element for the chain entry `next`, with the first position
that a signature would cover, and the record it stands for.
-/
inductive Element (ossl : OpenSSL) (privkey : ossl.Pkey) (fp : Bytes)
    (next : HashchainCtx) (sigSeqFrom : UInt64) :
    Bytes → HcsSdRecord → Prop where
  | init {cert : Bytes} (hcert : CertSuffix cert) :
      Element ossl privkey fp next sigSeqFrom
        (elementText (initParams "I" (next.seq - 1) next.current fp) ++ cert)
        (initRecord .init (next.seq - 1) next.current fp)
  | msg :
      Element ossl privkey fp next sigSeqFrom
        (elementText (msgParams (next.seq - 1) next.current))
        (msgRecord (next.seq - 1) next.current)
  | sig {nonce : Nat} {sig : Bytes}
      (hsig : hcsSign ossl false nonce privkey next.current = some sig) :
      Element ossl privkey fp next sigSeqFrom
        (elementText (sigParams (next.seq - 1) next.current sigSeqFrom
          (next.seq - 1) sig))
        (sigRecord (next.seq - 1) next.current sigSeqFrom (next.seq - 1) sig)

/-! ## An entry of the worker's chain -/

theorem seq_of_position (n : UInt64) : n - 1 + 1 = n := by
  simp

theorem absorb_seq_sub (chain : HashchainCtx) (payload : Bytes) :
    (absorb ossl chain payload).seq - 1 = chain.seq :=
  UInt64.add_sub_cancel _ _

def SameSigner (signer signer' : SignerCtx ossl) : Prop :=
  signer'.privkey = signer.privkey ∧ signer'.pubkeyFp = signer.pubkeyFp

structure Entered (wrkr : Worker ossl) (signer : SignerCtx ossl)
    (next : HashchainCtx) (record : HcsSdRecord) (wrkr' : Worker ossl) :
    Prop where
  inst : wrkr'.inst = wrkr.inst
  pendingState : wrkr'.pendingState = wrkr.pendingState
  signer : ∃ signer', wrkr'.signer = some signer' ∧ SameSigner signer signer'
  isFirst : wrkr'.isFirst = false
  opens : record.type = .init ↔ wrkr.isFirst = true
  due : record.type = .sig ↔ wrkr.isFirst = false ∧
    wrkr.inst.signInterval.toUInt64 ≤ next.msgCount
  chain : wrkr'.chain =
    if record.type = .sig then hashchainResetCount next else next
  sigSeqFrom : wrkr'.sigSeqFrom =
    if record.type = .sig then next.seq else wrkr.sigSeqFrom

theorem hcsFormatSdCert_suffix (fails : Bool) (der : Bytes) (cap : Nat) :
    CertSuffix ((hcsFormatSdCert fails der cap).getD []) := by
  cases h : hcsFormatSdCert fails der cap with
  | none => exact .inl rfl
  | some text =>
      unfold hcsFormatSdCert at h
      split_ifs at h with hlen
      simp only [Option.bind_eq_bind, Option.bind_eq_some_iff,
        hcsB64Encode] at h
      obtain ⟨b64, hb64, htext⟩ := h
      right
      refine ⟨der, by omega, ?_⟩
      rw [Option.getD_some, (fits_eq_some.mp htext).2,
        (fits_eq_some.mp hb64).2]

theorem signerGetCertDer_same {fails : Bool} {signer signer' : SignerCtx ossl}
    {der : Bytes} (h : signerGetCertDer fails signer = some (der, signer')) :
    SameSigner signer signer' := by
  simp only [signerGetCertDer, Option.bind_eq_some_iff] at h
  obtain ⟨cert, -, h⟩ := h
  split at h
  · cases h
    exact ⟨rfl, rfl⟩
  · split_ifs at h
    cases h
    exact ⟨rfl, rfl⟩

theorem appendCert_frame {wrkr : Worker ossl} {signer : SignerCtx ossl}
    (hsigner : wrkr.signer = some signer) (faults : SignFaults) (sd : Bytes)
    (bufLen : Nat) :
    ∃ cert signer', CertSuffix cert ∧ SameSigner signer signer' ∧
      appendCert faults wrkr signer sd bufLen =
        ({ wrkr with signer := some signer' }, sd ++ cert) := by
  have hsame : wrkr = { wrkr with signer := some signer } := by
    rw [← hsigner]
  unfold appendCert
  by_cases hembed : wrkr.inst.embedcert = true
  · rw [if_neg (not_not.mpr hembed)]
    cases hder : signerGetCertDer faults.certDer signer with
    | none =>
        refine ⟨[], signer, .inl rfl, ⟨rfl, rfl⟩, ?_⟩
        rw [← hsame, List.append_nil]
    | some out =>
        exact ⟨_, out.2, hcsFormatSdCert_suffix _ _ _,
          signerGetCertDer_same hder, rfl⟩
  · rw [if_pos hembed]
    refine ⟨[], signer, .inl rfl, ⟨rfl, rfl⟩, ?_⟩
    rw [← hsame, List.append_nil]

theorem hcsSign_unfailing {fails : Bool} {nonce : Nat} {key : ossl.Pkey}
    {data sig : Bytes} (h : hcsSign ossl fails nonce key data = some sig) :
    hcsSign ossl false nonce key data = some sig := by
  unfold hcsSign at h ⊢
  split at h
  · cases h
  · split_ifs at h
    exact h

theorem processEntry_some {faults : SignFaults} {wrkr : Worker ossl}
    {signer : SignerCtx ossl} (hsigner : wrkr.signer = some signer)
    {payload sd : Bytes} {bufLen : Nat}
    (h : (processEntry faults wrkr signer payload bufLen).sd = some sd) :
    ∃ record, Element ossl signer.privkey signer.pubkeyFp
        (absorb ossl wrkr.chain payload) wrkr.sigSeqFrom sd record ∧
      Entered wrkr signer (absorb ossl wrkr.chain payload) record
        (processEntry faults wrkr signer payload bufLen).wrkr := by
  revert h
  unfold processEntry
  rw [hashchainUpdate_eq]
  cases faults.hashChain with
  | true =>
      intro h
      cases h
  | false =>
      simp only [Bool.false_eq_true, if_false]
      by_cases hfirst : wrkr.isFirst = true
      · simp only [hfirst, if_true]
        cases htext : hcsFormatSdInit _ _ _ bufLen with
        | none =>
            intro h
            cases h
        | some text =>
            obtain ⟨cert, signer', hcert, hsame, happend⟩ :=
              @appendCert_frame _ { wrkr with
                chain := absorb ossl wrkr.chain payload, isFirst := false }
                signer hsigner faults text bufLen
            simp only [happend]
            intro h
            obtain rfl := hcsFormatSdInit_some htext
            cases h
            exact ⟨_, .init hcert, rfl, rfl, ⟨signer', rfl, hsame⟩, rfl,
              by simp [initRecord, hfirst], by simp [initRecord, hfirst], rfl,
              rfl⟩
      · simp only [hfirst, Bool.false_eq_true, if_false]
        split_ifs with hdue
        · cases hsig : hcsSign _ _ _ _ _ with
          | none =>
              intro h
              cases h
          | some sig =>
              intro h
              obtain rfl := hcsFormatSdSig_some h
              exact ⟨_, .sig (hcsSign_unfailing hsig), rfl, rfl,
                ⟨signer, hsigner, rfl, rfl⟩, rfl, by simp [sigRecord, hfirst],
                by simp [sigRecord, hfirst, hdue], rfl, seq_of_position _⟩
        · intro h
          obtain rfl := hcsFormatSdMsg_some h
          exact ⟨_, .msg, rfl, rfl, ⟨signer, hsigner, rfl, rfl⟩, rfl,
            by simp [msgRecord, hfirst], by simp [msgRecord, hdue], rfl, rfl⟩

def SameHead (chain chain' : HashchainCtx) : Prop :=
  chain'.alg = chain.alg ∧ chain'.current = chain.current ∧
    chain'.seq = chain.seq

inductive ChainEffect (ossl : OpenSSL) (chain : HashchainCtx)
    (payload : Bytes) : HashchainCtx → List ChainStep → Prop where
  | kept : ChainEffect ossl chain payload chain []
  | absorbed {chain' : HashchainCtx}
      (hhead : SameHead (absorb ossl chain payload) chain') :
      ChainEffect ossl chain payload chain' [updateStep chain payload]
  | signed {chain' : HashchainCtx}
      (hhead : SameHead (absorb ossl chain payload) chain') :
      ChainEffect ossl chain payload chain'
        [updateStep chain payload, signStep (absorb ossl chain payload)]

structure Advanced (wrkr : Worker ossl) (payload : Bytes)
    (call : SignCall ossl) : Prop where
  seq : call.wrkr.chain.seq = wrkr.chain.seq + 1
  pendingState : call.wrkr.pendingState = wrkr.pendingState
  effect : ChainEffect ossl wrkr.chain payload call.wrkr.chain call.steps

theorem processEntry_cases {wrkr : Worker ossl} {signer : SignerCtx ossl}
    (hsigner : wrkr.signer = some signer) (faults : SignFaults)
    (payload : Bytes) (bufLen : Nat) :
    (faults.hashChain = true ∧
      processEntry faults wrkr signer payload bufLen = ⟨wrkr, none, []⟩) ∨
    (faults.hashChain = false ∧
      Advanced wrkr payload
        (processEntry faults wrkr signer payload bufLen)) := by
  unfold processEntry
  rw [hashchainUpdate_eq]
  cases faults.hashChain with
  | true => exact .inl ⟨rfl, rfl⟩
  | false =>
      refine .inr ⟨rfl, ?_⟩
      simp only [Bool.false_eq_true, if_false]
      by_cases hfirst : wrkr.isFirst = true
      · simp only [hfirst, if_true]
        cases htext : hcsFormatSdInit _ _ _ bufLen with
        | none => exact ⟨rfl, rfl, .absorbed ⟨rfl, rfl, rfl⟩⟩
        | some text =>
            obtain ⟨cert, signer', -, -, happend⟩ :=
              @appendCert_frame _ { wrkr with
                chain := absorb ossl wrkr.chain payload, isFirst := false }
                signer hsigner faults text bufLen
            simp only [happend]
            exact ⟨rfl, rfl, .absorbed ⟨rfl, rfl, rfl⟩⟩
      · simp only [hfirst, Bool.false_eq_true, if_false]
        split_ifs with hdue
        · cases hsig : hcsSign _ _ _ _ _ with
          | none => exact ⟨rfl, rfl, .signed ⟨rfl, rfl, rfl⟩⟩
          | some sig => exact ⟨rfl, rfl, .signed ⟨rfl, rfl, rfl⟩⟩
        · exact ⟨rfl, rfl, .absorbed ⟨rfl, rfl, rfl⟩⟩

/-! ## The final signature of a restored chain -/

def Restorable (wrkr : Worker ossl) (signer : SignerCtx ossl)
    (state : SavedState) : Prop :=
  signer.pubkeyFp = state.pubkeyFp ∧ state.hashAlg = wrkr.inst.hashAlg

theorem processFinal_of_not_restorable {wrkr : Worker ossl}
    {signer : SignerCtx ossl} {state : SavedState}
    (h : ¬ Restorable wrkr signer state) (faults : SignFaults)
    (payload : Bytes) (bufLen : Nat) :
    mmhashchainsigsProcessFinal faults wrkr signer state payload bufLen =
      ⟨wrkr, .error .keyMismatch, []⟩ := by
  unfold mmhashchainsigsProcessFinal
  by_cases hfp : signer.pubkeyFp = state.pubkeyFp
  · rw [if_neg (not_not.mpr hfp), if_pos fun halg => h ⟨hfp, halg⟩]
  · rw [if_pos hfp]

theorem processFinal_ok {faults : SignFaults} {wrkr : Worker ossl}
    {signer : SignerCtx ossl} {state : SavedState} {payload sd : Bytes}
    {bufLen : Nat}
    (h : (mmhashchainsigsProcessFinal faults wrkr signer state payload
      bufLen).ret = .ok sd) :
    Restorable wrkr signer state ∧
      (∃ nonce sig, hcsSign ossl false nonce signer.privkey
          (absorb ossl (restoredChain state) payload).current = some sig ∧
        sd = elementText (sigParams
          ((absorb ossl (restoredChain state) payload).seq - 1)
          (absorb ossl (restoredChain state) payload).current state.sigSeqFrom
          ((absorb ossl (restoredChain state) payload).seq - 1) sig)) ∧
      (mmhashchainsigsProcessFinal faults wrkr signer state payload
        bufLen).wrkr =
        { wrkr with
          chain := (hashchainInit ossl faults.finalReset
            wrkr.inst.hashAlg).1
          isFirst := true, sigSeqFrom := 1 } := by
  by_cases hrestore : Restorable wrkr signer state
  · refine ⟨hrestore, ?_⟩
    revert h
    unfold mmhashchainsigsProcessFinal
    rw [if_neg (not_not.mpr hrestore.1), if_neg (not_not.mpr hrestore.2)]
    simp only [hashchainInit_eq faults.finalInit, hashchainUpdate_eq]
    cases faults.finalInit with
    | true =>
        intro h
        cases h
    | false =>
        cases faults.finalHash with
        | true =>
            intro h
            cases h
        | false =>
            simp only [Bool.false_eq_true, if_false]
            cases hsig : hcsSign _ _ _ _ _ with
            | none =>
                intro h
                cases h
            | some sig =>
                simp only
                cases htext : hcsFormatSdSig _ _ _ _ _ bufLen with
                | none =>
                    intro h
                    cases h
                | some text =>
                    intro h
                    cases h
                    exact ⟨⟨_, sig, hcsSign_unfailing hsig,
                      hcsFormatSdSig_some htext⟩, rfl⟩
  · rw [processFinal_of_not_restorable hrestore] at h
    cases h

inductive FinalEffect (ossl : OpenSSL) (chain : HashchainCtx)
    (state : SavedState) (payload : Bytes) :
    HashchainCtx → List ChainStep → Prop where
  | kept : FinalEffect ossl chain state payload chain []
  | reset {chain' : HashchainCtx} (hseq : chain'.seq = 1) :
      FinalEffect ossl chain state payload chain' [.init]
  | restored {chain' : HashchainCtx} (hseq : chain'.seq = 1) :
      FinalEffect ossl chain state payload chain' [.init, .restore, .init]
  | signed {chain' : HashchainCtx} (hseq : chain'.seq = 1) :
      FinalEffect ossl chain state payload chain'
        [.init, .restore, updateStep (restoredChain state) payload,
          signStep (absorb ossl (restoredChain state) payload), .init]

theorem hashchainInit_seq (fails : Bool) (alg : HcsHashAlg) :
    (hashchainInit ossl fails alg).1.seq = 1 := by
  cases fails <;> rfl

theorem processFinal_effect (faults : SignFaults) (wrkr : Worker ossl)
    (signer : SignerCtx ossl) (state : SavedState) (payload : Bytes)
    (bufLen : Nat) :
    FinalEffect ossl wrkr.chain state payload
      (mmhashchainsigsProcessFinal faults wrkr signer state payload
        bufLen).wrkr.chain
      (mmhashchainsigsProcessFinal faults wrkr signer state payload
        bufLen).steps := by
  by_cases hrestore : Restorable wrkr signer state
  · unfold mmhashchainsigsProcessFinal
    rw [if_neg (not_not.mpr hrestore.1), if_neg (not_not.mpr hrestore.2)]
    simp only [hashchainInit_eq faults.finalInit, hashchainUpdate_eq]
    have hseq := @hashchainInit_seq ossl faults.finalReset wrkr.inst.hashAlg
    cases faults.finalInit with
    | true => exact .reset rfl
    | false =>
        cases faults.finalHash with
        | true => exact .restored hseq
        | false =>
            simp only [Bool.false_eq_true, if_false]
            cases hcsSign ossl faults.finalSign faults.finalNonce
              signer.privkey _ with
            | none => exact .signed hseq
            | some sig =>
                simp only
                cases hcsFormatSdSig _ _ _ _ _ bufLen with
                | none => exact .signed hseq
                | some text => exact .signed hseq
  · rw [processFinal_of_not_restorable hrestore]
    exact .kept

theorem processFinal_frame (faults : SignFaults) (wrkr : Worker ossl)
    (signer : SignerCtx ossl) (state : SavedState) (payload : Bytes)
    (bufLen : Nat) :
    let wrkr' := (mmhashchainsigsProcessFinal faults wrkr signer state
      payload bufLen).wrkr
    wrkr'.inst = wrkr.inst ∧ wrkr'.signer = wrkr.signer ∧
      wrkr'.pendingState = wrkr.pendingState := by
  unfold mmhashchainsigsProcessFinal
  split_ifs
  · exact ⟨rfl, rfl, rfl⟩
  · exact ⟨rfl, rfl, rfl⟩
  · simp only [hashchainInit_eq faults.finalInit, hashchainUpdate_eq]
    cases faults.finalInit with
    | true => exact ⟨rfl, rfl, rfl⟩
    | false =>
        cases faults.finalHash with
        | true => exact ⟨rfl, rfl, rfl⟩
        | false =>
            simp only [Bool.false_eq_true, if_false]
            cases hcsSign ossl faults.finalSign faults.finalNonce
              signer.privkey _ with
            | none => exact ⟨rfl, rfl, rfl⟩
            | some sig =>
                simp only
                cases hcsFormatSdSig _ _ _ _ _ bufLen with
                | none => exact ⟨rfl, rfl, rfl⟩
                | some text => exact ⟨rfl, rfl, rfl⟩

/-! ## A whole message -/

theorem processMsg_of_no_signer {faults : SignFaults} {wrkr : Worker ossl}
    (h : (readyWorker faults wrkr).1.signer = none)
    (stateFile : Option Bytes) (payload : Bytes) (bufLen : Nat) :
    mmhashchainsigsProcessMsg faults wrkr stateFile payload bufLen =
      (⟨(readyWorker faults wrkr).1, none, (readyWorker faults wrkr).2⟩,
        stateFile) := by
  simp only [mmhashchainsigsProcessMsg, h]

theorem processMsg_of_open {faults : SignFaults} {wrkr : Worker ossl}
    {signer : SignerCtx ossl}
    (hsigner : (readyWorker faults wrkr).1.signer = some signer)
    (hpending : (readyWorker faults wrkr).1.pendingState = none)
    (stateFile : Option Bytes) (payload : Bytes) (bufLen : Nat) :
    mmhashchainsigsProcessMsg faults wrkr stateFile payload bufLen =
      let entry := processEntry faults (readyWorker faults wrkr).1 signer
        payload bufLen
      ({ entry with steps := (readyWorker faults wrkr).2 ++ entry.steps },
        stateFile) := by
  simp only [mmhashchainsigsProcessMsg, hsigner, hpending]

theorem processMsg_of_final_ok {faults : SignFaults} {wrkr : Worker ossl}
    {signer : SignerCtx ossl} {state : SavedState} {payload sd : Bytes}
    {bufLen : Nat}
    (hsigner : (readyWorker faults wrkr).1.signer = some signer)
    (hpending : (readyWorker faults wrkr).1.pendingState = some state)
    (h : (finalCall faults (readyWorker faults wrkr).1 signer state payload
      bufLen).ret = .ok sd) (stateFile : Option Bytes) :
    mmhashchainsigsProcessMsg faults wrkr stateFile payload bufLen =
      let final := finalCall faults (readyWorker faults wrkr).1 signer state
        payload bufLen
      (⟨final.wrkr, some sd, (readyWorker faults wrkr).2 ++ final.steps⟩,
        deleteState faults final.wrkr stateFile) := by
  simp only [mmhashchainsigsProcessMsg, hsigner, hpending, h]

theorem processMsg_of_final_error {faults : SignFaults} {wrkr : Worker ossl}
    {signer : SignerCtx ossl} {state : SavedState} {payload : Bytes}
    {bufLen : Nat} {e : FinalError}
    (hsigner : (readyWorker faults wrkr).1.signer = some signer)
    (hpending : (readyWorker faults wrkr).1.pendingState = some state)
    (h : (finalCall faults (readyWorker faults wrkr).1 signer state payload
      bufLen).ret = .error e) (stateFile : Option Bytes) :
    mmhashchainsigsProcessMsg faults wrkr stateFile payload bufLen =
      let final := finalCall faults (readyWorker faults wrkr).1 signer state
        payload bufLen
      let entry := processEntry faults final.wrkr signer payload bufLen
      ({ entry with
          steps := (readyWorker faults wrkr).2 ++ final.steps ++ entry.steps },
        deleteState faults final.wrkr stateFile) := by
  simp only [mmhashchainsigsProcessMsg, hsigner, hpending, h]

theorem elementText_ne_nil (params : List (Bytes × Bytes)) :
    elementText params ≠ [] := by
  simp [elementText]

theorem Element.ne_nil {privkey : ossl.Pkey} {fp : Bytes}
    {next : HashchainCtx} {sigSeqFrom : UInt64} {sd : Bytes}
    {record : HcsSdRecord}
    (h : Element ossl privkey fp next sigSeqFrom sd record) : sd ≠ [] := by
  cases h with
  | init hcert =>
      intro hnil
      exact elementText_ne_nil _ (List.append_eq_nil_iff.mp hnil).1
  | msg => exact elementText_ne_nil _
  | sig hsig => exact elementText_ne_nil _

theorem processMsg_some {faults : SignFaults} {wrkr : Worker ossl}
    {stateFile : Option Bytes} {payload sd : Bytes} {bufLen : Nat}
    (h : (mmhashchainsigsProcessMsg faults wrkr stateFile payload
      bufLen).1.sd = some sd) :
    ∃ privkey fp next sigSeqFrom record,
      fp.length = Common.Limits.hcsHashLen ∧
      Element ossl privkey fp next sigSeqFrom sd record := by
  cases hsigner : (readyWorker faults wrkr).1.signer with
  | none =>
      rw [processMsg_of_no_signer hsigner] at h
      cases h
  | some signer =>
      cases hpending : (readyWorker faults wrkr).1.pendingState with
      | none =>
          rw [processMsg_of_open hsigner hpending] at h
          obtain ⟨record, helement, -⟩ := processEntry_some hsigner h
          exact ⟨_, _, _, _, record, signer.pubkeyFp_length, helement⟩
      | some state =>
          cases hret : (finalCall faults (readyWorker faults wrkr).1 signer
            state payload bufLen).ret with
          | ok text =>
              rw [processMsg_of_final_ok hsigner hpending hret] at h
              cases h
              obtain ⟨-, ⟨nonce, sig, hsig, rfl⟩, -⟩ := processFinal_ok hret
              exact ⟨_, _, _, _, _, signer.pubkeyFp_length, .sig hsig⟩
          | error e =>
              rw [processMsg_of_final_error hsigner hpending hret] at h
              have hframe := processFinal_frame faults
                { (readyWorker faults wrkr).1 with pendingState := none }
                signer state payload bufLen
              obtain ⟨record, helement, -⟩ :=
                processEntry_some (hframe.2.1.trans hsigner) h
              exact ⟨_, _, _, _, record, signer.pubkeyFp_length, helement⟩

/-! ## The final signature of an open chain -/

theorem finalSign_of_silent {wrkr : Worker ossl}
    (h : wrkr.signer = none ∨ wrkr.chain.msgCount = 0) (faults : SignFaults)
    (bufLen : Nat) :
    mmhashchainsigsFinalSign faults wrkr bufLen = ⟨wrkr, some [], []⟩ := by
  unfold mmhashchainsigsFinalSign
  cases hsigner : wrkr.signer with
  | none => rfl
  | some signer =>
      have hcount := h.resolve_left (by simp [hsigner])
      simp only [if_pos hcount]

theorem finalSign_cases {wrkr : Worker ossl} {signer : SignerCtx ossl}
    (hsigner : wrkr.signer = some signer) (hcount : wrkr.chain.msgCount ≠ 0)
    (faults : SignFaults) (bufLen : Nat) :
    (faults.hashChain = true ∧
      mmhashchainsigsFinalSign faults wrkr bufLen = ⟨wrkr, none, []⟩) ∨
    (faults.hashChain = false ∧
      Advanced wrkr [] (mmhashchainsigsFinalSign faults wrkr bufLen)) := by
  unfold mmhashchainsigsFinalSign
  simp only [hsigner, if_neg hcount, hashchainUpdate_eq]
  cases faults.hashChain with
  | true => exact .inl ⟨rfl, rfl⟩
  | false =>
      refine .inr ⟨rfl, ?_⟩
      simp only [Bool.false_eq_true, if_false]
      cases hcsSign ossl faults.sign faults.nonce signer.privkey _ with
      | none => exact ⟨rfl, rfl, .signed ⟨rfl, rfl, rfl⟩⟩
      | some sig =>
          simp only
          cases hcsFormatSdSig _ _ _ _ _ bufLen with
          | none => exact ⟨rfl, rfl, .signed ⟨rfl, rfl, rfl⟩⟩
          | some text => exact ⟨rfl, rfl, .signed ⟨rfl, rfl, rfl⟩⟩

theorem finalSign_some {faults : SignFaults} {wrkr : Worker ossl}
    {signer : SignerCtx ossl} (hsigner : wrkr.signer = some signer)
    (hcount : wrkr.chain.msgCount ≠ 0) {sd : Bytes} {bufLen : Nat}
    (h : (mmhashchainsigsFinalSign faults wrkr bufLen).sd = some sd) :
    ∃ record, record.type = .sig ∧
      Element ossl signer.privkey signer.pubkeyFp (absorb ossl wrkr.chain [])
        wrkr.sigSeqFrom sd record ∧
      (mmhashchainsigsFinalSign faults wrkr bufLen).wrkr =
        { wrkr with
          chain := hashchainResetCount (absorb ossl wrkr.chain [])
          sigSeqFrom := (absorb ossl wrkr.chain []).seq } := by
  revert h
  unfold mmhashchainsigsFinalSign
  simp only [hsigner, if_neg hcount, hashchainUpdate_eq]
  cases faults.hashChain with
  | true =>
      intro h
      cases h
  | false =>
      simp only [Bool.false_eq_true, if_false]
      cases hsig : hcsSign ossl faults.sign faults.nonce signer.privkey _ with
      | none =>
          intro h
          cases h
      | some sig =>
          simp only
          cases htext : hcsFormatSdSig _ _ _ _ _ bufLen with
          | none =>
              intro h
              cases h
          | some text =>
              intro h
              cases h
              obtain rfl := hcsFormatSdSig_some htext
              refine ⟨_, rfl, .sig (hcsSign_unfailing hsig), ?_⟩
              simp only [seq_of_position]

/-! ## Initialization -/

structure Loaded (inst : Instance) (signer : SignerCtx ossl) : Prop where
  privkey : hcsLoadPrivateKey ossl inst.privkeyPath = some signer.privkey
  fingerprint : hcsPubkeyFingerprint ossl false signer.privkey =
    some signer.pubkeyFp

theorem Loaded.congr {inst : Instance} {signer signer' : SignerCtx ossl}
    (h : Loaded inst signer) (hsame : SameSigner signer signer') :
    Loaded inst signer' :=
  ⟨h.privkey.trans (congrArg some hsame.1.symm), by
    rw [hsame.1, hsame.2]
    exact h.fingerprint⟩

theorem hcsPubkeyFingerprint_unfailing {fails : Bool} {key : ossl.Pkey}
    {fp : Bytes} (h : hcsPubkeyFingerprint ossl fails key = some fp) :
    hcsPubkeyFingerprint ossl false key = some fp := by
  cases fails with
  | true => cases h
  | false => exact h

theorem signerInit_loaded {fails : Bool} {inst : Instance}
    {signer : SignerCtx ossl}
    (h : signerInit ossl fails inst.privkeyPath = some signer) :
    Loaded inst signer := by
  unfold signerInit at h
  split_ifs at h
  simp only [Option.bind_eq_bind, Option.bind_eq_some_iff] at h
  obtain ⟨privkey, hload, fp, -, h⟩ := h
  cases h
  exact ⟨hload, hcsPubkeyFingerprint_unfailing fp.2⟩

theorem signerInitX509_loaded {fails : Bool} {inst : Instance}
    {certPath : Bytes} {signer : SignerCtx ossl}
    (h : signerInitX509 ossl fails inst.privkeyPath certPath = some signer) :
    Loaded inst signer := by
  unfold signerInitX509 at h
  split_ifs at h
  simp only [Option.bind_eq_bind, Option.bind_eq_some_iff] at h
  obtain ⟨privkey, hload, cert, -, pub, -, h⟩ := h
  split_ifs at h
  simp only [Option.bind_eq_some_iff] at h
  obtain ⟨fp, -, h⟩ := h
  cases h
  exact ⟨hload, hcsPubkeyFingerprint_unfailing fp.2⟩

theorem loadSigner_loaded {fails : Bool} {inst : Instance}
    {signer : SignerCtx ossl} (h : loadSigner ossl fails inst = some signer) :
    Loaded inst signer := by
  unfold loadSigner at h
  cases hpath : inst.certPath with
  | none =>
      rw [hpath] at h
      exact signerInit_loaded h
  | some certPath =>
      rw [hpath] at h
      exact signerInitX509_loaded h

def startedWorker (wrkr : Worker ossl) (signer : SignerCtx ossl) :
    Worker ossl :=
  { wrkr with chain := rootChain ossl wrkr.inst.hashAlg, signer := some signer
              sigSeqFrom := 1, isFirst := true }

theorem mmhashchainsigsInit_cases {wrkr : Worker ossl}
    (hnone : wrkr.signer = none) (faults : SignFaults) :
    ((mmhashchainsigsInit faults wrkr).1.signer = none ∧
      (mmhashchainsigsInit faults wrkr).1.inst = wrkr.inst ∧
      (mmhashchainsigsInit faults wrkr).1.pendingState = wrkr.pendingState ∧
      ((mmhashchainsigsInit faults wrkr).2 = [] ∨
        (mmhashchainsigsInit faults wrkr).2 = [.init])) ∨
    ∃ signer, Loaded wrkr.inst signer ∧ mmhashchainsigsInit faults wrkr =
      (startedWorker wrkr signer, [.init]) := by
  unfold mmhashchainsigsInit
  cases hsigner : loadSigner ossl faults.signerInit wrkr.inst with
  | none => exact .inl ⟨hnone, rfl, rfl, .inl rfl⟩
  | some signer =>
      simp only [hashchainInit_eq]
      cases faults.chainInit with
      | true => exact .inl ⟨hnone, rfl, rfl, .inr rfl⟩
      | false => exact .inr ⟨signer, loadSigner_loaded hsigner, rfl⟩

theorem readyWorker_pending (faults : SignFaults) (wrkr : Worker ossl) :
    (readyWorker faults wrkr).1.pendingState = wrkr.pendingState := by
  unfold readyWorker
  split_ifs with hsome
  · rfl
  · rw [Option.not_isSome_iff_eq_none] at hsome
    rcases mmhashchainsigsInit_cases hsome faults with
      ⟨-, -, hpending, -⟩ | ⟨signer, -, hinit⟩
    · exact hpending
    · rw [hinit]
      rfl

theorem readyWorker_of_signer {wrkr : Worker ossl} {signer : SignerCtx ossl}
    (h : wrkr.signer = some signer) (faults : SignFaults) :
    readyWorker faults wrkr = (wrkr, []) := by
  unfold readyWorker
  rw [if_pos (by rw [h]; rfl)]

/-! ## Calls that succeed -/

theorem ecCurveBits_cases (key : ossl.Pkey) :
    ecCurveBits ossl key = 0 ∨ ecCurveBits ossl key = 256 ∨
      ecCurveBits ossl key = 384 ∨ ecCurveBits ossl key = 521 := by
  unfold ecCurveBits
  split
  · exact .inl rfl
  · split_ifs
    · exact .inr (.inl rfl)
    · exact .inr (.inr (.inl rfl))
    · exact .inr (.inr (.inr rfl))
    · exact .inl rfl

theorem hcsSign_supported {key : ossl.Pkey} (hkey : keyIsSupported ossl key)
    (nonce : Nat) (data : Bytes) :
    ∃ sig, hcsSign ossl false nonce key data = some sig := by
  have hmd : ∃ md, pickMd ossl key = some md := by
    unfold keyIsSupported at hkey
    unfold pickMd
    cases hid : ossl.pkeyId key with
    | ed25519 => exact ⟨_, rfl⟩
    | ec =>
        rw [hid] at hkey
        rcases ecCurveBits_cases key with hbits | hbits | hbits | hbits
        · simp [hbits] at hkey
        · exact ⟨some .sha256, by simp [hbits]⟩
        · exact ⟨some .sha384, by simp [hbits]⟩
        · exact ⟨some .sha512, by simp [hbits]⟩
    | other => simp [hid] at hkey
  obtain ⟨md, hmd⟩ := hmd
  exact ⟨_, by simp only [hcsSign, hmd, Bool.false_eq_true, if_false]; rfl⟩

theorem Loaded.supported {inst : Instance} {signer : SignerCtx ossl}
    (h : Loaded inst signer) : keyIsSupported ossl signer.privkey := by
  have hload := h.privkey
  unfold hcsLoadPrivateKey at hload
  exact (Option.filter_eq_some_iff.mp hload).2

/-- The buffer has the documented size, and signing does not fail. -/
structure Signable (fails : Bool) (signer : SignerCtx ossl) (bufLen : Nat) :
    Prop where
  signs : fails = false
  supported : keyIsSupported ossl signer.privkey = true
  room : Common.Limits.hcsSdMaxLen ≤ bufLen

theorem Loaded.signable {inst : Instance} {signer : SignerCtx ossl}
    (h : Loaded inst signer) {fails : Bool} (hsigns : fails = false)
    {bufLen : Nat} (hroom : Common.Limits.hcsSdMaxLen ≤ bufLen) :
    Signable fails signer bufLen :=
  ⟨hsigns, h.supported, hroom⟩

theorem hcsFormatSdSig_succeeds (chain : HashchainCtx) {sig : Bytes}
    {bufLen : Nat} (hsig : sig.length ≤ Common.Limits.hcsSigMaxLen)
    (hroom : Common.Limits.hcsSdMaxLen ≤ bufLen)
    (seq seqFrom seqTo : UInt64) :
    ∃ sd, hcsFormatSdSig seq chain.current seqFrom seqTo sig bufLen =
      some sd := by
  have hwidth : chain.current.length ≤ Common.Limits.hcsHashMaxLen := by
    rw [chain.current_length]
    exact hcsHashLen_le _
  exact ⟨_, hcsFormatSdSig_eq hwidth hsig hroom⟩

theorem processEntry_succeeds {faults : SignFaults} {wrkr : Worker ossl}
    {signer : SignerCtx ossl} {bufLen : Nat}
    (h : Signable faults.sign signer bufLen)
    (hhash : faults.hashChain = false) (payload : Bytes) :
    ∃ sd, (processEntry faults wrkr signer payload bufLen).sd = some sd := by
  have hwidth : (absorb ossl wrkr.chain payload).current.length ≤
      Common.Limits.hcsHashMaxLen := by
    rw [(absorb ossl wrkr.chain payload).current_length]
    exact hcsHashLen_le _
  unfold processEntry
  rw [hashchainUpdate_eq, hhash, h.signs]
  simp only [Bool.false_eq_true, if_false]
  by_cases hfirst : wrkr.isFirst = true
  · simp only [hfirst, if_true,
      hcsFormatSdInit_eq hwidth signer.pubkeyFp_length h.room]
    exact ⟨_, rfl⟩
  · simp only [hfirst, Bool.false_eq_true, if_false]
    split_ifs
    · obtain ⟨sig, hsig⟩ := hcsSign_supported h.supported faults.nonce
        (absorb ossl wrkr.chain payload).current
      simp only [hsig]
      exact hcsFormatSdSig_succeeds (absorb ossl wrkr.chain payload)
        (hcsSign_length ossl hsig) h.room _ _ _
    · exact ⟨_, hcsFormatSdMsg_eq hwidth h.room⟩

theorem finalSign_succeeds {faults : SignFaults} {wrkr : Worker ossl}
    {signer : SignerCtx ossl} (hsigner : wrkr.signer = some signer)
    {bufLen : Nat} (h : Signable faults.sign signer bufLen)
    (hhash : faults.hashChain = false) :
    ∃ sd, (mmhashchainsigsFinalSign faults wrkr bufLen).sd = some sd := by
  unfold mmhashchainsigsFinalSign
  simp only [hsigner, hashchainUpdate_eq, hhash, h.signs, Bool.false_eq_true,
    if_false]
  split_ifs
  · exact ⟨_, rfl⟩
  · obtain ⟨sig, hsig⟩ := hcsSign_supported h.supported faults.nonce
      (absorb ossl wrkr.chain []).current
    obtain ⟨sd, hsd⟩ := hcsFormatSdSig_succeeds (absorb ossl wrkr.chain [])
      (hcsSign_length ossl hsig) h.room
      ((absorb ossl wrkr.chain []).seq - 1) wrkr.sigSeqFrom
      ((absorb ossl wrkr.chain []).seq - 1)
    simp only [hsig, hsd]
    exact ⟨sd, rfl⟩

theorem processFinal_succeeds {faults : SignFaults} {wrkr : Worker ossl}
    {signer : SignerCtx ossl} {state : SavedState} {bufLen : Nat}
    (h : Signable faults.finalSign signer bufLen)
    (hinit : faults.finalInit = false) (hhash : faults.finalHash = false)
    (hrestore : Restorable wrkr signer state) (payload : Bytes) :
    ∃ sd, (mmhashchainsigsProcessFinal faults wrkr signer state payload
      bufLen).ret = .ok sd := by
  unfold mmhashchainsigsProcessFinal
  rw [if_neg (not_not.mpr hrestore.1), if_neg (not_not.mpr hrestore.2)]
  simp only [hashchainUpdate_eq, hinit, hhash, h.signs, Bool.false_eq_true,
    if_false]
  obtain ⟨sig, hsig⟩ := hcsSign_supported h.supported faults.finalNonce
    (absorb ossl (restoredChain state) payload).current
  obtain ⟨sd, hsd⟩ := hcsFormatSdSig_succeeds
    (absorb ossl (restoredChain state) payload) (hcsSign_length ossl hsig)
    h.room ((absorb ossl (restoredChain state) payload).seq - 1)
    state.sigSeqFrom ((absorb ossl (restoredChain state) payload).seq - 1)
  simp only [hsig, hsd]
  exact ⟨sd, rfl⟩

end MmHashChainSigs.Module
