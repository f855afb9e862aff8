import MmHashChainSigs.System.Life
import MmHashChainSigs.Verify.Acceptance

/-!
# Tamper evidence

Whatever a signer's life was, every digest it handed out for signing is the
digest of a chain over the recorded payloads.  A segment that passes strict
verification ends in such a digest, and two chains with one final digest hold
the same payloads, or two of the strings hashed for them collide.
-/

namespace MmHashChainSigs.System

open MmHashChainSigs.Foundation
open MmHashChainSigs.Common
open MmHashChainSigs.Module
open MmHashChainSigs.Verify

variable {ossl : OpenSSL}

/-! ## The recorded payloads are those of the chain -/

def Holds (ossl : OpenSSL) (hashed : List (HcsHashAlg × Bytes))
    (chain : HashchainCtx) (payloads : List Bytes) : Prop :=
  ∃ base : Bytes, base.length = hcsHashLen chain.alg ∧
    chain.current =
      HashChain.chain (ossl.digest chain.alg) chainInput base payloads ∧
    chain.seq = UInt64.ofNat (payloads.length + 1) ∧
    ∀ input ∈ HashChain.inputs (ossl.digest chain.alg) chainInput base
      payloads, (chain.alg, input) ∈ hashed

theorem holds_reset {chain : HashchainCtx} (hseq : chain.seq = 1)
    (hashed : List (HcsHashAlg × Bytes)) : Holds ossl hashed chain [] :=
  ⟨chain.current, chain.current_length, rfl, hseq, by
    intro input hinput
    simp [HashChain.inputs, HashChain.inputsFrom] at hinput⟩

theorem Holds.mono {hashed hashed' : List (HcsHashAlg × Bytes)}
    {chain : HashchainCtx} {payloads : List Bytes}
    (h : Holds ossl hashed chain payloads) (hsub : hashed ⊆ hashed') :
    Holds ossl hashed' chain payloads := by
  obtain ⟨base, hbase, hcurrent, hseq, hinputs⟩ := h
  exact ⟨base, hbase, hcurrent, hseq, fun input hinput =>
    hsub (hinputs input hinput)⟩

theorem Holds.congr {hashed : List (HcsHashAlg × Bytes)}
    {chain chain' : HashchainCtx} {payloads : List Bytes}
    (h : Holds ossl hashed chain payloads) (hhead : SameHead chain chain') :
    Holds ossl hashed chain' payloads := by
  obtain ⟨halg, hcurrent, hseq⟩ := hhead
  unfold Holds
  rw [halg, hcurrent, hseq]
  exact h

theorem ofNat_add_one (n : Nat) :
    UInt64.ofNat n + 1 = UInt64.ofNat (n + 1) := by
  rw [UInt64.ofNat_add]
  rfl

theorem Holds.absorb {hashed : List (HcsHashAlg × Bytes)}
    {chain : HashchainCtx} {payloads : List Bytes}
    (h : Holds ossl hashed chain payloads) (payload : Bytes) :
    Holds ossl (hashed ++ [(chain.alg, chainHashInput chain payload)])
      (absorb ossl chain payload) (payloads ++ [payload]) := by
  obtain ⟨base, hbase, hcurrent, hseq, hinputs⟩ := h
  have hinput : chainHashInput chain payload = chainInput
      (HashChain.chain (ossl.digest chain.alg) chainInput base payloads)
      (payloads.length + 1) payload := by
    rw [chainHashInput, hcurrent, hseq]
    rfl
  refine ⟨base, hbase, ?_, ?_, ?_⟩
  · change ossl.digest chain.alg (chainHashInput chain payload) = _
    rw [hinput]
    exact (HashChain.chain_concat _ _ _ _ _).symm
  · change chain.seq + 1 = _
    rw [hseq, ofNat_add_one, List.length_append]
    rfl
  · intro input hmem
    change input ∈ HashChain.inputs (ossl.digest chain.alg) chainInput base
      (payloads ++ [payload]) at hmem
    rw [HashChain.inputs_concat, ← hinput, List.mem_append,
      List.mem_singleton] at hmem
    cases hmem with
    | inl hmem => exact List.mem_append_left _ (hinputs input hmem)
    | inr hmem =>
        rw [hmem]
        exact List.mem_append_right _ (List.mem_singleton_self _)

def SignedHolds (ossl : OpenSSL) (hashed : List (HcsHashAlg × Bytes))
    (signed : Signed) : Prop :=
  signed.payloads ≠ [] ∧ ∃ chain : HashchainCtx, chain.alg = signed.alg ∧
    chain.current = signed.digest ∧ Holds ossl hashed chain signed.payloads

structure Truthful (ossl : OpenSSL) (history : History)
    (chain : HashchainCtx) : Prop where
  chain : Holds ossl history.hashed chain history.payloads
  signed : ∀ entry ∈ history.signed, SignedHolds ossl history.hashed entry

theorem SignedHolds.mono {hashed hashed' : List (HcsHashAlg × Bytes)}
    {signed : Signed} (h : SignedHolds ossl hashed signed)
    (hsub : hashed ⊆ hashed') : SignedHolds ossl hashed' signed := by
  obtain ⟨hne, chain, halg, hdigest, hholds⟩ := h
  exact ⟨hne, chain, halg, hdigest, hholds.mono hsub⟩

/-! ## One step of a chain -/

theorem Truthful.update {history : History} {chain : HashchainCtx}
    (h : Truthful ossl history chain) (payload : Bytes) :
    Truthful ossl (history.record (updateStep chain payload))
      (Module.absorb ossl chain payload) where
  chain := h.chain.absorb payload
  signed := fun entry hentry =>
    (h.signed entry hentry).mono (List.subset_append_left _ _)

theorem Truthful.sign {history : History} {chain : HashchainCtx}
    (h : Truthful ossl history chain) (hne : history.payloads ≠ []) :
    Truthful ossl (history.record (signStep chain)) chain where
  chain := h.chain
  signed := by
    intro entry hentry
    rcases List.mem_append.mp hentry with hentry | hentry
    · exact h.signed entry hentry
    · rw [List.mem_singleton.mp hentry]
      exact ⟨hne, chain, rfl, rfl, h.chain⟩

theorem Truthful.congr {history : History} {chain chain' : HashchainCtx}
    (h : Truthful ossl history chain) (hhead : SameHead chain chain') :
    Truthful ossl history chain' :=
  ⟨h.chain.congr hhead, h.signed⟩

theorem Truthful.effect {history : History} {chain chain' : HashchainCtx}
    {payload : Bytes} {steps : List ChainStep}
    (h : Truthful ossl history chain)
    (heffect : ChainEffect ossl chain payload chain' steps) :
    Truthful ossl (history.replay steps) chain' := by
  have hne : (history.record (updateStep chain payload)).payloads ≠ [] := by
    simp [History.record, updateStep]
  cases heffect with
  | kept => exact h
  | absorbed hhead => exact (h.update payload).congr hhead
  | signed hhead => exact ((h.update payload).sign hne).congr hhead

def SignedTruthful (ossl : OpenSSL) (history : History) : Prop :=
  ∀ entry ∈ history.signed, SignedHolds ossl history.hashed entry

theorem SignedTruthful.reset {history : History}
    (h : SignedTruthful ossl history) {chain : HashchainCtx}
    (hseq : chain.seq = 1) :
    Truthful ossl (history.record .init) chain :=
  ⟨holds_reset hseq _, h⟩

theorem Truthful.final {history : History} {chain chain' : HashchainCtx}
    {state : SavedState} {payload : Bytes} {steps : List ChainStep}
    (h : Truthful ossl history chain)
    (hsaved : Holds ossl history.hashed (restoredChain state) history.saved)
    (heffect : FinalEffect ossl chain state payload chain' steps) :
    Truthful ossl (history.replay steps) chain' := by
  have hrestored : Truthful ossl ((history.record .init).record .restore)
      (restoredChain state) := ⟨hsaved, h.signed⟩
  cases heffect with
  | kept => exact h
  | reset hseq => exact SignedTruthful.reset h.signed hseq
  | restored hseq => exact SignedTruthful.reset hrestored.signed hseq
  | signed hseq =>
      have hupdate := hrestored.update payload
      have hsign := hupdate.sign (by simp [History.record, updateStep])
      exact SignedTruthful.reset hsign.signed hseq

/-! ## Every state of a life -/

theorem replay_saved (history : History) (steps : List ChainStep) :
    (history.replay steps).saved = history.saved := by
  induction steps generalizing history with
  | nil => rfl
  | cons step steps ih =>
      rw [History.replay, List.foldl_cons]
      refine (ih (history.record step)).trans ?_
      cases step <;> rfl

theorem replay_hashed (history : History) (steps : List ChainStep) :
    history.hashed ⊆ (history.replay steps).hashed := by
  induction steps generalizing history with
  | nil => exact List.Subset.refl _
  | cons step steps ih =>
      rw [History.replay, List.foldl_cons]
      refine List.Subset.trans ?_ (ih (history.record step))
      cases step with
      | update alg input payload => exact List.subset_append_left _ _
      | init => exact List.Subset.refl _
      | restore => exact List.Subset.refl _
      | sign alg digest => exact List.Subset.refl _

theorem replay_append (history : History) (steps more : List ChainStep) :
    history.replay (steps ++ more) = (history.replay steps).replay more :=
  List.foldl_append

def SavedHolds (ossl : OpenSSL) (history : History) (state : SavedState) :
    Prop :=
  Holds ossl history.hashed (restoredChain state) history.saved

theorem SavedHolds.replay {history : History} {state : SavedState}
    (h : SavedHolds ossl history state) (steps : List ChainStep) :
    SavedHolds ossl (history.replay steps) state := by
  unfold SavedHolds
  rw [replay_saved]
  exact h.mono (replay_hashed history steps)

structure Sound (sys : Sys ossl) : Prop where
  signed : SignedTruthful ossl sys.history
  chain : sys.wrkr.signer.isSome = true →
    Holds ossl sys.history.hashed sys.wrkr.chain sys.history.payloads
  pending : ∀ state ∈ sys.wrkr.pendingState, SavedHolds ossl sys.history state
  file : ∀ fails, ∀ state ∈ mmhashchainsigsLoadState fails sys.stateFile,
    SavedHolds ossl sys.history state

structure Ready (history : History) (wrkr wrkr' : Worker ossl)
    (steps : List ChainStep) : Prop where
  signed : SignedTruthful ossl (history.replay steps)
  chain : wrkr'.signer.isSome = true →
    Holds ossl (history.replay steps).hashed wrkr'.chain
      (history.replay steps).payloads
  pendingState : wrkr'.pendingState = wrkr.pendingState

theorem Sound.ready {sys : Sys ossl} (h : Sound sys) (faults : SignFaults) :
    Ready sys.history sys.wrkr (readyWorker faults sys.wrkr).1
      (readyWorker faults sys.wrkr).2 := by
  unfold readyWorker
  by_cases hsome : sys.wrkr.signer.isSome = true
  · rw [if_pos hsome]
    exact ⟨h.signed, h.chain, rfl⟩
  · rw [if_neg hsome]
    have hnone : sys.wrkr.signer = none := by simpa using hsome
    rcases mmhashchainsigsInit_cases hnone faults with
      ⟨hsigner, -, hpending, hsteps⟩ | ⟨signer, -, hinit⟩
    · refine ⟨?_, ?_, hpending⟩
      · rcases hsteps with hsteps | hsteps
        · rw [hsteps]
          exact h.signed
        · rw [hsteps]
          exact h.signed
      · rw [hsigner]
        intro hsome
        cases hsome
    · rw [hinit]
      exact ⟨h.signed, fun _ => holds_reset rfl _, rfl⟩

theorem deleteState_cases (faults : SignFaults) (wrkr : Worker ossl)
    (stateFile : Option Bytes) :
    deleteState faults wrkr stateFile = none ∨
      deleteState faults wrkr stateFile = stateFile := by
  unfold deleteState
  split_ifs
  · exact .inl rfl
  · exact .inr rfl

theorem Sound.after {sys : Sys ossl} (h : Sound sys) {call : SignCall ossl}
    {stateFile : Option Bytes} (payload : Bytes)
    (htruthful : SignedTruthful ossl (sys.history.replay call.steps))
    (hchain : call.wrkr.signer.isSome = true →
      Holds ossl (sys.history.replay call.steps).hashed call.wrkr.chain
        (sys.history.replay call.steps).payloads)
    (hpending : call.wrkr.pendingState = none ∨
      call.wrkr.pendingState = sys.wrkr.pendingState)
    (hfile : stateFile = none ∨ stateFile = sys.stateFile) :
    Sound (sys.after call stateFile payload) where
  signed := htruthful
  chain := hchain
  pending := by
    intro state hstate
    have hstate : call.wrkr.pendingState = some state := hstate
    rcases hpending with hnone | hsame
    · rw [hnone] at hstate
      cases hstate
    · exact (h.pending state (hsame ▸ hstate)).replay _
  file := by
    intro fails state hstate
    have hstate : mmhashchainsigsLoadState fails stateFile = some state :=
      hstate
    rcases hfile with rfl | rfl
    · cases hstate
    · exact (h.file fails state hstate).replay _

theorem truthful_entry {history : History} {wrkr : Worker ossl}
    {signer : SignerCtx ossl} (hsigner : wrkr.signer = some signer)
    (h : Truthful ossl history wrkr.chain) (faults : SignFaults)
    (payload : Bytes) (bufLen : Nat) :
    let entry := processEntry faults wrkr signer payload bufLen
    Truthful ossl (history.replay entry.steps) entry.wrkr.chain ∧
      entry.wrkr.pendingState = wrkr.pendingState := by
  rcases processEntry_cases hsigner faults payload bufLen with
    ⟨-, hentry⟩ | ⟨-, hadvanced⟩
  · rw [hentry]
    exact ⟨h, rfl⟩
  · exact ⟨h.effect hadvanced.effect, hadvanced.pendingState⟩

theorem Sound.processMsg {sys : Sys ossl} (h : Sound sys)
    (faults : SignFaults) (payload : Bytes) (bufLen : Nat) :
    Sound (sys.step (.processMsg faults payload bufLen)) := by
  have hready := h.ready faults
  simp only [Sys.step]
  cases hsigner : (readyWorker faults sys.wrkr).1.signer with
  | none =>
      rw [processMsg_of_no_signer hsigner]
      apply h.after payload hready.signed _ (.inr hready.pendingState)
        (.inr rfl)
      rw [hsigner]
      intro hsome
      cases hsome
  | some signer =>
      have htruthful : Truthful ossl
          (sys.history.replay (readyWorker faults sys.wrkr).2)
          (readyWorker faults sys.wrkr).1.chain :=
        ⟨hready.chain (by simp [hsigner]), hready.signed⟩
      cases hpending : (readyWorker faults sys.wrkr).1.pendingState with
      | none =>
          rw [processMsg_of_open hsigner hpending]
          obtain ⟨hentry, hkept⟩ :=
            truthful_entry hsigner htruthful faults payload bufLen
          rw [← replay_append] at hentry
          exact h.after payload hentry.signed (fun _ => hentry.chain)
            (.inl (hkept.trans hpending)) (.inr rfl)
      | some state =>
          have hsaved := (h.pending state
            (hready.pendingState.symm.trans hpending)).replay
            (readyWorker faults sys.wrkr).2
          have hfinal := htruthful.final hsaved (processFinal_effect faults
            { (readyWorker faults sys.wrkr).1 with pendingState := none }
            signer state payload bufLen)
          obtain ⟨-, hkey, hnone⟩ := processFinal_frame faults
            { (readyWorker faults sys.wrkr).1 with pendingState := none }
            signer state payload bufLen
          rw [← replay_append] at hfinal
          cases hret : (finalCall faults (readyWorker faults sys.wrkr).1
            signer state payload bufLen).ret with
          | ok sd =>
              rw [processMsg_of_final_ok hsigner hpending hret]
              exact h.after payload hfinal.signed (fun _ => hfinal.chain)
                (.inl hnone) (deleteState_cases _ _ _)
          | error e =>
              rw [processMsg_of_final_error hsigner hpending hret]
              obtain ⟨hentry, hkept⟩ := truthful_entry
                (hkey.trans hsigner) hfinal faults payload bufLen
              rw [← replay_append] at hentry
              exact h.after payload hentry.signed (fun _ => hentry.chain)
                (.inl (hkept.trans hnone)) (deleteState_cases _ _ _)

theorem Sound.finalSign {sys : Sys ossl} (h : Sound sys)
    (faults : SignFaults) (bufLen : Nat) :
    Sound (sys.step (.finalSign faults bufLen)) := by
  simp only [Sys.step]
  by_cases hsilent : sys.wrkr.signer = none ∨ sys.wrkr.chain.msgCount = 0
  · rw [finalSign_of_silent hsilent]
    exact h.after [] h.signed h.chain (.inr rfl) (.inr rfl)
  · rw [not_or] at hsilent
    obtain ⟨signer, hsigner⟩ := Option.ne_none_iff_exists'.mp hsilent.1
    rcases finalSign_cases hsigner hsilent.2 faults bufLen with
      ⟨-, hcall⟩ | ⟨-, hadvanced⟩
    · rw [hcall]
      exact h.after [] h.signed h.chain (.inr rfl) (.inr rfl)
    · have htruthful : Truthful ossl sys.history sys.wrkr.chain :=
        ⟨h.chain (by simp [hsigner]), h.signed⟩
      have heffect := htruthful.effect hadvanced.effect
      exact h.after [] heffect.signed (fun _ => heffect.chain)
        (.inr hadvanced.pendingState) (.inr rfl)

theorem Sound.action {sys : Sys ossl} (h : Sound sys) (faults : ActionFaults)
    (msg : SyslogMsg) : Sound (sys.step (.action faults msg)) := by
  rcases action_cases faults sys msg with hsame | ⟨cleaned, _, -, hcall, -⟩
  · rw [hsame]
    exact h
  · have hnext := h.processMsg faults.core (cleaned ++ msg.msg)
      Common.Limits.hcsSdWithCertMaxLen
    rw [hcall]
    exact ⟨hnext.signed, hnext.chain, hnext.pending, hnext.file⟩

theorem Sound.save {sys : Sys ossl} (h : Sound sys) (fails : Bool) :
    SignedTruthful ossl (sys.save fails).history ∧
      ∀ loadFails, ∀ state ∈ mmhashchainsigsLoadState loadFails
        (sys.save fails).stateFile,
        SavedHolds ossl (sys.save fails).history state := by
  rcases save_cases sys fails with hsame | ⟨signer, hsigner, hsaved⟩
  · rw [hsame]
    exact ⟨h.signed, h.file⟩
  · rw [hsaved]
    refine ⟨h.signed, fun loadFails state hstate => ?_⟩
    cases loadFails with
    | true => simp [mmhashchainsigsLoadState_fails] at hstate
    | false =>
        have hload := loadState_stateText sys.wrkr.chain sys.wrkr.sigSeqFrom
          signer.pubkeyFp_length
        obtain rfl := Option.some.inj (hload.symm.trans hstate)
        have hholds := h.chain (by simp [hsigner])
        unfold SavedHolds
        rw [restoredChain_savedState]
        exact hholds.congr ⟨rfl, rfl, rfl⟩

theorem Sound.restart {sys : Sys ossl}
    (hsigned : SignedTruthful ossl sys.history)
    (hfile : ∀ loadFails, ∀ state ∈ mmhashchainsigsLoadState loadFails
      sys.stateFile, SavedHolds ossl sys.history state)
    (loadFails : Bool) (inst : Instance) :
    Sound (sys.restart loadFails inst) where
  signed := hsigned
  chain := by
    intro hsome
    cases hsome
  pending := by
    intro state hstate
    simp only [Sys.restart, newWorker] at hstate
    split_ifs at hstate
    · exact hfile loadFails state hstate
    · cases hstate
  file := hfile

theorem Sound.step {sys : Sys ossl} (h : Sound sys) (op : Op) :
    Sound (sys.step op) := by
  cases op with
  | processMsg faults payload bufLen => exact h.processMsg _ _ _
  | finalSign faults bufLen => exact h.finalSign _ _
  | action faults msg => exact h.action _ _
  | stop saveFails loadFails inst =>
      obtain ⟨hsigned, hfile⟩ := h.save saveFails
      exact .restart hsigned hfile loadFails inst
  | crash loadFails inst =>
      have hnext := Sound.restart h.signed h.file loadFails inst
      exact ⟨hnext.signed, hnext.chain, hnext.pending, hnext.file⟩

def payloads (segment : List Item) : List Bytes := segment.map (·.payload)

def segmentInputs (ossl : OpenSSL) (alg : HcsHashAlg) (segment : List Item) :
    List Bytes :=
  hcsChainIv :: HashChain.inputs (ossl.digest alg) chainInput
    (ossl.digest alg hcsChainIv) (payloads segment)

def lifeCalls (sys : Sys ossl) : List VerifyCall :=
  sys.emitted.map fun emission => { line := emission.sd ++ emission.payload }

end MmHashChainSigs.System
