import MmHashChainSigs.Module.Records
import MmHashChainSigs.Module.State

/-!
# What a failed call leaves behind

A call can fail at the chain hash, at the signature or at the buffer.  Whether
the element that is due can be written depends on its length only, which is
that of the element with a hash of zero bytes.
-/

namespace MmHashChainSigs.Module

open MmHashChainSigs.Foundation
open MmHashChainSigs.Common

variable {ossl : OpenSSL}

/-! ## Room for an element -/

def zeroHash (alg : HcsHashAlg) : Bytes := List.replicate (hcsHashLen alg) 0

theorem zeroHash_length (chain : HashchainCtx) :
    (zeroHash chain.alg).length = chain.current.length := by
  rw [zeroHash, List.length_replicate, chain.current_length]

theorem sdInitText_length_congr {hash hash' : Bytes}
    (h : hash.length = hash'.length) (seq : UInt64) (fp : Bytes) :
    (sdInitText "I" seq hash fp).length =
      (sdInitText "I" seq hash' fp).length := by
  simp only [sdInitText, hcsHexEncode, List.length_append, hexText_length, h]

theorem sdMsgText_length_congr {hash hash' : Bytes}
    (h : hash.length = hash'.length) (seq : UInt64) :
    (sdMsgText seq hash).length = (sdMsgText seq hash').length := by
  simp only [sdMsgText, hcsHexEncode, List.length_append, hexText_length, h]

theorem sdSigText_length_congr {hash hash' : Bytes}
    (h : hash.length = hash'.length) (seq seqFrom seqTo : UInt64)
    (s : Bytes) :
    (sdSigText seq hash seqFrom seqTo s).length =
      (sdSigText seq hash' seqFrom seqTo s).length := by
  simp only [sdSigText, hcsHexEncode, List.length_append, hexText_length, h]

def SigWrites (ossl : OpenSSL) (fails : Bool) (nonce : Nat)
    (privkey : ossl.Pkey) (chain : HashchainCtx) (sigSeqFrom : UInt64)
    (payload : Bytes) (bufLen : Nat) : Prop :=
  ∃ sig, hcsSign ossl fails nonce privkey
      (absorb ossl chain payload).current = some sig ∧
    (sdSigText chain.seq (zeroHash chain.alg) sigSeqFrom chain.seq
      (Base64.encode sig)).length < bufLen

def EntryWrites (faults : SignFaults) (wrkr : Worker ossl)
    (signer : SignerCtx ossl) (payload : Bytes) (bufLen : Nat) : Prop :=
  if wrkr.isFirst then
    (sdInitText "I" wrkr.chain.seq (zeroHash wrkr.chain.alg)
      signer.pubkeyFp).length < bufLen
  else if wrkr.inst.signInterval.toUInt64 ≤ wrkr.chain.msgCount + 1 then
    SigWrites ossl faults.sign faults.nonce signer.privkey wrkr.chain
      wrkr.sigSeqFrom payload bufLen
  else
    (sdMsgText wrkr.chain.seq (zeroHash wrkr.chain.alg)).length < bufLen

def FinalWrites (faults : SignFaults) (signer : SignerCtx ossl)
    (state : SavedState) (payload : Bytes) (bufLen : Nat) : Prop :=
  faults.finalInit = false ∧ faults.finalHash = false ∧
    SigWrites ossl faults.finalSign faults.finalNonce signer.privkey
      (restoredChain state) state.sigSeqFrom payload bufLen

theorem zeroHash_absorb (chain : HashchainCtx) (payload : Bytes) :
    (absorb ossl chain payload).current.length =
      (zeroHash chain.alg).length :=
  (zeroHash_length (absorb ossl chain payload)).symm

theorem absorb_fits (chain : HashchainCtx) (payload : Bytes) :
    ¬ Common.Limits.hcsHashMaxLen <
      (absorb ossl chain payload).current.length := by
  rw [(absorb ossl chain payload).current_length]
  exact Nat.not_lt.mpr (hcsHashLen_le _)

theorem hcsFormatSdInit_isSome (chain : HashchainCtx) (payload fp : Bytes)
    (bufLen : Nat) :
    (hcsFormatSdInit ((absorb ossl chain payload).seq - 1)
        (absorb ossl chain payload).current fp bufLen).isSome ↔
      (sdInitText "I" chain.seq (zeroHash chain.alg) fp).length < bufLen := by
  rw [hcsFormatSdInit, if_neg (absorb_fits chain payload), absorb_seq_sub,
    ← sdInitText_length_congr (@zeroHash_absorb ossl chain payload)]
  unfold fits
  split_ifs with h <;> simp [h]

theorem hcsFormatSdMsg_isSome (chain : HashchainCtx) (payload : Bytes)
    (bufLen : Nat) :
    (hcsFormatSdMsg ((absorb ossl chain payload).seq - 1)
        (absorb ossl chain payload).current bufLen).isSome ↔
      (sdMsgText chain.seq (zeroHash chain.alg)).length < bufLen := by
  rw [hcsFormatSdMsg, if_neg (absorb_fits chain payload), absorb_seq_sub,
    ← sdMsgText_length_congr (@zeroHash_absorb ossl chain payload)]
  unfold fits
  split_ifs with h <;> simp [h]

theorem hcsFormatSdSig_isSome (chain : HashchainCtx) (payload : Bytes)
    (sigSeqFrom : UInt64) {sig : Bytes}
    (hsig : sig.length ≤ Common.Limits.hcsSigMaxLen) (bufLen : Nat) :
    (hcsFormatSdSig ((absorb ossl chain payload).seq - 1)
        (absorb ossl chain payload).current sigSeqFrom
        ((absorb ossl chain payload).seq - 1) sig bufLen).isSome ↔
      (sdSigText chain.seq (zeroHash chain.alg) sigSeqFrom chain.seq
        (Base64.encode sig)).length < bufLen := by
  rw [hcsFormatSdSig, if_neg (absorb_fits chain payload),
    hcsB64Encode_signature hsig, absorb_seq_sub, ← sdSigText_length_congr (@zeroHash_absorb ossl chain payload)]
  simp only [Option.bind_eq_bind, Option.bind_some]
  unfold fits
  split_ifs with h <;> simp [h]

theorem sigWrites_iff (fails : Bool) (nonce : Nat) (privkey : ossl.Pkey)
    (chain : HashchainCtx) (sigSeqFrom : UInt64) (payload : Bytes)
    (bufLen : Nat) :
    ((hcsSign ossl fails nonce privkey
        (absorb ossl chain payload).current).bind fun sig =>
      hcsFormatSdSig ((absorb ossl chain payload).seq - 1)
        (absorb ossl chain payload).current sigSeqFrom
        ((absorb ossl chain payload).seq - 1) sig bufLen).isSome ↔
      SigWrites ossl fails nonce privkey chain sigSeqFrom payload bufLen := by
  unfold SigWrites
  cases hsig : hcsSign ossl fails nonce privkey
      (absorb ossl chain payload).current with
  | none => simp
  | some sig =>
      rw [Option.bind_some,
        hcsFormatSdSig_isSome chain payload sigSeqFrom
          (hcsSign_length ossl hsig)]
      simp

/-! ## Whether a call writes its element -/

theorem processEntry_writes_iff {faults : SignFaults}
    (hhash : faults.hashChain = false) (wrkr : Worker ossl)
    (signer : SignerCtx ossl) (payload : Bytes) (bufLen : Nat) :
    (processEntry faults wrkr signer payload bufLen).sd.isSome ↔
      EntryWrites faults wrkr signer payload bufLen := by
  unfold processEntry EntryWrites
  rw [hashchainUpdate_eq, hhash]
  simp only [Bool.false_eq_true, if_false]
  by_cases hfirst : wrkr.isFirst = true
  · simp only [hfirst, if_true]
    rw [← @hcsFormatSdInit_isSome ossl wrkr.chain payload]
    cases hcsFormatSdInit _ _ _ bufLen with
    | none => simp
    | some sd => simp
  · simp only [hfirst, Bool.false_eq_true, if_false]
    by_cases hdue : wrkr.inst.signInterval.toUInt64 ≤ wrkr.chain.msgCount + 1
    · rw [if_pos (show wrkr.inst.signInterval.toUInt64 ≤
        (absorb ossl wrkr.chain payload).msgCount from hdue), if_pos hdue,
        ← sigWrites_iff]
      cases hcsSign ossl faults.sign faults.nonce signer.privkey
        (absorb ossl wrkr.chain payload).current with
      | none => simp
      | some sig => rfl
    · rw [if_neg (show ¬ wrkr.inst.signInterval.toUInt64 ≤
        (absorb ossl wrkr.chain payload).msgCount from hdue), if_neg hdue]
      exact hcsFormatSdMsg_isSome wrkr.chain payload bufLen

theorem finalSign_writes_iff {wrkr : Worker ossl} {signer : SignerCtx ossl}
    (hsigner : wrkr.signer = some signer) (hcount : wrkr.chain.msgCount ≠ 0)
    {faults : SignFaults} (hhash : faults.hashChain = false) (bufLen : Nat) :
    (mmhashchainsigsFinalSign faults wrkr bufLen).sd.isSome ↔
      SigWrites ossl faults.sign faults.nonce signer.privkey wrkr.chain
        wrkr.sigSeqFrom [] bufLen := by
  unfold mmhashchainsigsFinalSign
  simp only [hsigner, if_neg hcount, hashchainUpdate_eq, hhash,
    Bool.false_eq_true, if_false]
  rw [← sigWrites_iff]
  cases hcsSign ossl faults.sign faults.nonce signer.privkey
    (absorb ossl wrkr.chain []).current with
  | none => simp
  | some sig =>
      simp only [Option.bind_some]
      cases hcsFormatSdSig _ _ _ _ sig bufLen with
      | none => simp
      | some sd => simp

theorem processFinal_writes_iff {wrkr : Worker ossl}
    {signer : SignerCtx ossl} {state : SavedState}
    (hrestore : Restorable wrkr signer state) (faults : SignFaults)
    (payload : Bytes) (bufLen : Nat) :
    (∃ sd, (mmhashchainsigsProcessFinal faults wrkr signer state payload
      bufLen).ret = .ok sd) ↔
      FinalWrites faults signer state payload bufLen := by
  unfold mmhashchainsigsProcessFinal FinalWrites
  rw [if_neg (not_not.mpr hrestore.1), if_neg (not_not.mpr hrestore.2),
    ← sigWrites_iff]
  simp only [hashchainInit_eq faults.finalInit, hashchainUpdate_eq]
  cases faults.finalInit with
  | true => simp
  | false =>
      cases faults.finalHash with
      | true => simp
      | false =>
          simp only [Bool.false_eq_true, if_false, true_and]
          cases hcsSign ossl faults.finalSign faults.finalNonce
            signer.privkey _ with
          | none => simp
          | some sig =>
              simp only [Option.bind_some]
              cases hcsFormatSdSig _ _ _ _ sig bufLen with
              | none => simp
              | some sd => simp

/-! ## The saved tail -/

theorem processEntry_pending {wrkr : Worker ossl} {signer : SignerCtx ossl}
    (hsigner : wrkr.signer = some signer) (faults : SignFaults)
    (payload : Bytes) (bufLen : Nat) :
    (processEntry faults wrkr signer payload bufLen).wrkr.pendingState =
      wrkr.pendingState := by
  rcases processEntry_cases hsigner faults payload bufLen with
    ⟨-, hkept⟩ | ⟨-, hadvanced⟩
  · rw [hkept]
  · exact hadvanced.pendingState

def SignsTail (ossl : OpenSSL) (state : SavedState) (sd : Bytes) : Prop :=
  ∃ record, emittedRecord ossl sd = some record ∧ record.type = .sig ∧
    record.seqFrom = state.sigSeqFrom

/--
The tail is signed, or the call fails and the saved state is still in memory
and on disk.
-/
def TailKept (faults : SignFaults) (wrkr : Worker ossl) (state : SavedState)
    (stateFile : Option Bytes) (payload : Bytes) (bufLen : Nat) : Prop :=
  let (call, stateFile') :=
    mmhashchainsigsProcessMsg faults wrkr stateFile payload bufLen
  (∃ sd, call.sd = some sd ∧ SignsTail ossl state sd) ∨
    (call.sd = none ∧ call.wrkr.pendingState = some state ∧
      stateFile' = stateFile)

/--
The entry of a worker that has a chain open is a due signature from the saved
position on.
-/
def EntrySignsFrom (faults : SignFaults) (wrkr : Worker ossl)
    (signer : SignerCtx ossl) (state : SavedState) (payload : Bytes)
    (bufLen : Nat) : Prop :=
  faults.hashChain = false ∧ wrkr.isFirst = false ∧
    wrkr.inst.signInterval.toUInt64 ≤ wrkr.chain.msgCount + 1 ∧
    EntryWrites faults wrkr signer payload bufLen ∧
    wrkr.sigSeqFrom = state.sigSeqFrom

theorem processEntry_signsTail_iff {faults : SignFaults} {wrkr : Worker ossl}
    {signer : SignerCtx ossl} (hsigner : wrkr.signer = some signer)
    (state : SavedState) (payload : Bytes) (bufLen : Nat) :
    (∃ sd, (processEntry faults wrkr signer payload bufLen).sd = some sd ∧
      SignsTail ossl state sd) ↔
      EntrySignsFrom faults wrkr signer state payload bufLen := by
  constructor
  · rintro ⟨sd, hsd, record, hrecord, htype, hfrom⟩
    obtain ⟨record', helement, hentered⟩ := processEntry_some hsigner hsd
    obtain rfl : record = record' := Option.some.inj
      (hrecord.symm.trans (Element.record signer.pubkeyFp_length helement))
    have hdue := hentered.due.mp htype
    have hsome : (processEntry faults wrkr signer payload bufLen).sd.isSome :=
      Option.isSome_iff_exists.mpr ⟨sd, hsd⟩
    have hhash : faults.hashChain = false := by
      rcases processEntry_cases hsigner faults payload bufLen with
        ⟨-, hkept⟩ | ⟨hhash, -⟩
      · rw [hkept] at hsd
        cases hsd
      · exact hhash
    refine ⟨hhash, hdue.1, hdue.2,
      (processEntry_writes_iff hhash wrkr signer payload bufLen).mp hsome, ?_⟩
    cases helement with
    | init => cases htype
    | msg => cases htype
    | sig => exact hfrom
  · rintro ⟨hhash, hfirst, hdue, hwrites, hfrom⟩
    obtain ⟨sd, hsd⟩ := Option.isSome_iff_exists.mp
      ((processEntry_writes_iff hhash wrkr signer payload bufLen).mpr hwrites)
    obtain ⟨record, helement, hentered⟩ := processEntry_some hsigner hsd
    have htype := hentered.due.mpr ⟨hfirst, hdue⟩
    refine ⟨sd, hsd, record, Element.record signer.pubkeyFp_length helement,
      htype, ?_⟩
    cases helement with
    | init => cases htype
    | msg => cases htype
    | sig => exact hfrom

def FinalUnsigned (faults : SignFaults) (signer : SignerCtx ossl)
    (state : SavedState) (payload : Bytes) : Prop :=
  faults.finalInit = true ∨ faults.finalHash = true ∨
    hcsSign ossl faults.finalSign faults.finalNonce signer.privkey
      (absorb ossl (restoredChain state) payload).current = none

def chainBehindFinal (ossl : OpenSSL) (faults : SignFaults)
    (alg : HcsHashAlg) : HashchainCtx :=
  (hashchainInit ossl (faults.finalInit || faults.finalReset) alg).1

theorem finalCall_of_unsigned {faults : SignFaults} {wrkr : Worker ossl}
    {signer : SignerCtx ossl} {state : SavedState}
    (hrestore : Restorable wrkr signer state) {payload : Bytes}
    (h : FinalUnsigned faults signer state payload) (bufLen : Nat) :
    (finalCall faults wrkr signer state payload bufLen).wrkr =
      { wrkr with
        pendingState := none
        chain := chainBehindFinal ossl faults wrkr.inst.hashAlg } := by
  unfold finalCall mmhashchainsigsProcessFinal chainBehindFinal
  rw [if_neg (not_not.mpr hrestore.1), if_neg (not_not.mpr hrestore.2)]
  simp only [hashchainInit_eq faults.finalInit, hashchainUpdate_eq]
  cases hinit : faults.finalInit with
  | true =>
      rw [Bool.true_or, hashchainInit_eq, hrestore.2]
      rfl
  | false =>
      cases hhash : faults.finalHash with
      | true => rfl
      | false =>
          have hsign := (h.resolve_left (by simp [hinit])).resolve_left
            (by simp [hhash])
          simp only [Bool.false_eq_true, if_false, Bool.false_or, hsign]

theorem finalCall_of_no_room {faults : SignFaults} {wrkr : Worker ossl}
    {signer : SignerCtx ossl} {state : SavedState}
    (hrestore : Restorable wrkr signer state) {payload : Bytes}
    (h : ¬ FinalUnsigned faults signer state payload) (bufLen : Nat) :
    (finalCall faults wrkr signer state payload bufLen).wrkr.isFirst =
      true := by
  unfold FinalUnsigned at h
  rw [not_or, not_or, Bool.not_eq_true, Bool.not_eq_true] at h
  obtain ⟨hinit, hhash, hsign⟩ := h
  obtain ⟨sig, hsig⟩ := Option.ne_none_iff_exists'.mp hsign
  unfold finalCall mmhashchainsigsProcessFinal
  rw [if_neg (not_not.mpr hrestore.1), if_neg (not_not.mpr hrestore.2)]
  simp only [hashchainInit_eq faults.finalInit, hashchainUpdate_eq]
  simp only [hinit, hhash, Bool.false_eq_true, if_false, hsig]
  split
  · rfl
  · rfl

/--
The saved chain is not signed, and the worker is not at the start of a chain: it
signs its next message, from the position where the saved tail begins.
-/
structure SameStart (faults : SignFaults) (wrkr : Worker ossl)
    (signer : SignerCtx ossl) (state : SavedState) (payload : Bytes)
    (bufLen : Nat) : Prop where
  hashes : faults.hashChain = false
  isOpen : wrkr.isFirst = false
  due : wrkr.inst.signInterval.toUInt64 ≤ 1
  from_eq : wrkr.sigSeqFrom = state.sigSeqFrom
  unsigned : FinalUnsigned faults signer state payload
  writes : SigWrites ossl faults.sign faults.nonce signer.privkey
    (chainBehindFinal ossl faults wrkr.inst.hashAlg) wrkr.sigSeqFrom payload
    bufLen

theorem entrySignsFrom_final_iff {faults : SignFaults} {wrkr : Worker ossl}
    {signer : SignerCtx ossl} {state : SavedState}
    (hrestore : Restorable wrkr signer state) (payload : Bytes)
    (bufLen : Nat) :
    EntrySignsFrom faults (finalCall faults wrkr signer state payload
        bufLen).wrkr signer state payload bufLen ↔
      SameStart faults wrkr signer state payload bufLen := by
  by_cases hunsigned : FinalUnsigned faults signer state payload
  · rw [finalCall_of_unsigned hrestore hunsigned]
    have hcount : (chainBehindFinal ossl faults
        wrkr.inst.hashAlg).msgCount + 1 = 1 := by
      unfold chainBehindFinal
      rw [hashchainInit_eq]
      split_ifs <;> rfl
    unfold EntrySignsFrom EntryWrites
    dsimp only
    rw [hcount]
    constructor
    · rintro ⟨hhash, hfirst, hdue, hwrites, hfrom⟩
      rw [hfirst, if_neg Bool.false_ne_true, if_pos hdue] at hwrites
      exact ⟨hhash, hfirst, hdue, hfrom, hunsigned, hwrites⟩
    · intro h
      refine ⟨h.hashes, h.isOpen, h.due, ?_, h.from_eq⟩
      rw [h.isOpen, if_neg Bool.false_ne_true, if_pos h.due]
      exact h.writes
  · constructor
    · rintro ⟨-, hfirst, -⟩
      rw [finalCall_of_no_room hrestore hunsigned] at hfirst
      cases hfirst
    · exact fun h => absurd h.unsigned hunsigned

/-- A call with a pending state of its own key and algorithm. -/
theorem tailKept_iff (ossl : OpenSSL) (faults : SignFaults)
    (wrkr : Worker ossl) (state : SavedState) (stateFile : Option Bytes)
    (payload : Bytes) (bufLen : Nat)
    (hpending : wrkr.pendingState = some state)
    (hmatches : ∀ signer, (readyWorker faults wrkr).1.signer = some signer →
      Restorable (readyWorker faults wrkr).1 signer state) :
    TailKept faults wrkr state stateFile payload bufLen ↔
      ∀ signer, (readyWorker faults wrkr).1.signer = some signer →
        FinalWrites faults signer state payload bufLen ∨
          SameStart faults (readyWorker faults wrkr).1 signer state payload
            bufLen := by
  have hready := (readyWorker_pending faults wrkr).trans hpending
  unfold TailKept
  cases hsigner : (readyWorker faults wrkr).1.signer with
  | none =>
      rw [processMsg_of_no_signer hsigner]
      exact iff_of_true (.inr ⟨rfl, hready, rfl⟩) nofun
  | some signer =>
      have hwrites := processFinal_writes_iff
        (show Restorable { (readyWorker faults wrkr).1 with
          pendingState := none } signer state from hmatches signer hsigner)
        faults payload bufLen
      cases hret : (finalCall faults (readyWorker faults wrkr).1 signer state
          payload bufLen).ret with
      | ok sd =>
          have hfinal := hwrites.mp ⟨sd, hret⟩
          rw [processMsg_of_final_ok hsigner hready hret]
          refine iff_of_true (.inl ⟨sd, rfl, ?_⟩) fun signer' hsigner' => ?_
          · obtain ⟨-, ⟨nonce, sig, hsig, rfl⟩, -⟩ := processFinal_ok hret
            exact ⟨_, Element.record signer.pubkeyFp_length (.sig hsig), rfl,
              rfl⟩
          · cases hsigner'
            exact .inl hfinal
      | error e =>
          have hfinal : ¬ FinalWrites faults signer state payload bufLen := by
            intro hfinal
            obtain ⟨sd, hok⟩ := hwrites.mpr hfinal
            unfold finalCall at hret
            rw [hok] at hret
            cases hret
          have hframe := processFinal_frame faults
            { (readyWorker faults wrkr).1 with pendingState := none } signer
            state payload bufLen
          rw [processMsg_of_final_error hsigner hready hret]
          have hentry := @processEntry_signsTail_iff ossl faults
            (finalCall faults (readyWorker faults wrkr).1 signer state payload
              bufLen).wrkr signer (hframe.2.1.trans hsigner) state payload
              bufLen
          rw [entrySignsFrom_final_iff (hmatches signer hsigner)] at hentry
          have hdropped := (processEntry_pending (hframe.2.1.trans hsigner)
            faults payload bufLen).trans hframe.2.2
          constructor
          · rintro (hsigns | ⟨-, hkept, -⟩) signer' hsigner'
            · cases hsigner'
              exact .inr (hentry.mp hsigns)
            · exact absurd (hkept.symm.trans hdropped) (by simp)
          · intro h
            exact .inl (hentry.mpr ((h signer rfl).resolve_left hfinal))

def sampleState : SavedState :=
  savedState (absorb sampleOpenSSL (rootChain sampleOpenSSL .sha256) []) 1
    (sampleDigest .sha256 [7])

def sampleRestarted : Worker sampleOpenSSL where
  inst := { privkeyPath := [7], statefiledir := true }
  pendingState := some sampleState

theorem tailKept_iff_sample :
    TailKept {} sampleRestarted sampleState (some []) [] 512 ↔
      ∀ signer, (readyWorker {} sampleRestarted).1.signer = some signer →
        FinalWrites {} signer sampleState [] 512 ∨
          SameStart {} (readyWorker {} sampleRestarted).1 signer sampleState
            [] 512 :=
  tailKept_iff sampleOpenSSL {} sampleRestarted sampleState (some []) [] 512
    rfl (by
      intro signer hsigner
      cases hsigner
      exact ⟨rfl, rfl⟩)

/-- The final signature fails: an INIT line goes out, and the tail is gone. -/
theorem tail_discarded :
    ¬ TailKept { finalSign := true } sampleRestarted sampleState (some [])
        [] 512 ∧
      (mmhashchainsigsProcessMsg { finalSign := true } sampleRestarted
        (some []) [] 512).2 = none ∧
      (mmhashchainsigsProcessMsg { finalSign := true } sampleRestarted
        (some []) [] 512).1.wrkr.pendingState = none ∧
      (mmhashchainsigsProcessMsg { finalSign := true } sampleRestarted
        (some []) [] 512).1.sd ≠ none := by
  have hinit : ∀ sd ∈ (mmhashchainsigsProcessMsg { finalSign := true }
      sampleRestarted (some []) [] 512).1.sd,
      ∀ record ∈ emittedRecord sampleOpenSSL sd, record.type = .init := by
    decide +kernel
  refine ⟨?_, by decide +kernel, by decide +kernel, by decide +kernel⟩
  rintro (⟨sd, hsd, record, hrecord, htype, -⟩ | ⟨hnone, -⟩)
  · rw [hinit sd hsd record hrecord] at htype
    cases htype
  · revert hnone
    decide +kernel

end MmHashChainSigs.Module
