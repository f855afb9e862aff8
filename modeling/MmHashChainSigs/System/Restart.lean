import MmHashChainSigs.Module.Coverage
import MmHashChainSigs.System.Life

/-!
# A graceful restart

A worker that ends leaves its open chain in the state file.  The next worker
with the same key and configuration finishes that chain with its first message,
and is then as if there had been no file.
-/

namespace MmHashChainSigs.System

open MmHashChainSigs.Foundation
open MmHashChainSigs.Common
open MmHashChainSigs.Module

variable {ossl : OpenSSL}

/-! ## Workers that are reached -/

def Loads (inst : Instance) (signer : SignerCtx ossl) : Prop :=
  ∃ loaded, loadSigner ossl false inst = some loaded ∧
    SameSigner loaded signer

theorem Loads.congr {inst : Instance} {signer signer' : SignerCtx ossl}
    (h : Loads inst signer) (hsame : SameSigner signer signer') :
    Loads inst signer' := by
  obtain ⟨loaded, hload, hprivkey, hfp⟩ := h
  exact ⟨loaded, hload, hsame.1.trans hprivkey, hsame.2.trans hfp⟩

theorem loadSigner_unfailing {fails : Bool} {inst : Instance}
    {signer : SignerCtx ossl} (h : loadSigner ossl fails inst = some signer) :
    loadSigner ossl false inst = some signer := by
  cases fails with
  | false => exact h
  | true =>
      have hnone : ∀ {key : ossl.Pkey} {fp : Bytes},
          hcsPubkeyFingerprint ossl true key ≠ some fp := nofun
      unfold loadSigner signerInit signerInitX509 at h
      split at h
      · split_ifs at h
        simp only [Option.bind_eq_bind, Option.bind_eq_some_iff] at h
        obtain ⟨privkey, -, cert, -, pub, -, h⟩ := h
        split_ifs at h
        simp only [Option.bind_eq_some_iff] at h
        obtain ⟨fp, -, -⟩ := h
        exact absurd fp.2 hnone
      · split_ifs at h
        simp only [Option.bind_eq_bind, Option.bind_eq_some_iff] at h
        obtain ⟨privkey, -, fp, -, -⟩ := h
        exact absurd fp.2 hnone

structure Opened (wrkr : Worker ossl) (signer : SignerCtx ossl) : Prop where
  signer_eq : wrkr.signer = some signer
  loads : Loads wrkr.inst signer
  alg : wrkr.chain.alg = wrkr.inst.hashAlg
  begun : wrkr.chain.msgCount ≠ 0 → wrkr.isFirst = false

def Established (wrkr : Worker ossl) : Prop :=
  ∀ signer, wrkr.signer = some signer →
    Opened wrkr signer ∧ wrkr.pendingState = none

theorem readyWorker_opened {wrkr : Worker ossl} (h : Established wrkr)
    {faults : SignFaults} {signer : SignerCtx ossl}
    (hsigner : (readyWorker faults wrkr).1.signer = some signer) :
    Opened (readyWorker faults wrkr).1 signer := by
  unfold readyWorker at hsigner ⊢
  split_ifs at hsigner ⊢ with hsome
  · exact (h signer hsigner).1
  · rw [Option.not_isSome_iff_eq_none] at hsome
    unfold mmhashchainsigsInit at hsigner ⊢
    cases hload : loadSigner ossl faults.signerInit wrkr.inst with
    | none =>
        simp only [hload, hsome] at hsigner
        cases hsigner
    | some loaded =>
        cases hfails : faults.chainInit with
        | true =>
            simp only [hload, hashchainInit_eq, hfails, if_true, hsome]
              at hsigner
            cases hsigner
        | false =>
            simp only [hload, hashchainInit_eq, hfails, Bool.false_eq_true,
              if_false, Option.some.injEq] at hsigner ⊢
            subst hsigner
            exact ⟨rfl, ⟨loaded, loadSigner_unfailing hload, rfl, rfl⟩, rfl,
              fun hne => absurd rfl hne⟩

section Calls

variable {wrkr : Worker ossl} {signer : SignerCtx ossl}

theorem Opened.entry (h : Opened wrkr signer) (faults : SignFaults)
    (payload : Bytes) (bufLen : Nat) :
    ∃ signer', Opened (processEntry faults wrkr signer payload bufLen).wrkr
      signer' := by
  unfold processEntry
  rw [hashchainUpdate_eq]
  cases faults.hashChain with
  | true => exact ⟨signer, h⟩
  | false =>
      simp only [Bool.false_eq_true, if_false]
      by_cases hfirst : wrkr.isFirst = true
      · simp only [hfirst, if_true]
        cases hcsFormatSdInit _ _ _ bufLen with
        | none => exact ⟨signer, h.signer_eq, h.loads, h.alg, fun _ => rfl⟩
        | some text =>
            obtain ⟨cert, signer', -, hsame, happend⟩ :=
              @appendCert_frame _ { wrkr with
                chain := absorb ossl wrkr.chain payload, isFirst := false }
                signer h.signer_eq faults text bufLen
            simp only [happend]
            exact ⟨signer', rfl, h.loads.congr hsame, h.alg, fun _ => rfl⟩
      · rw [Bool.not_eq_true] at hfirst
        simp only [hfirst, Bool.false_eq_true, if_false]
        split_ifs
        · cases hcsSign ossl faults.sign faults.nonce signer.privkey _ with
          | none => exact ⟨signer, h.signer_eq, h.loads, h.alg, fun _ => rfl⟩
          | some sig =>
              exact ⟨signer, h.signer_eq, h.loads, h.alg, fun _ => rfl⟩
        · exact ⟨signer, h.signer_eq, h.loads, h.alg, fun _ => rfl⟩

theorem Opened.finalSign (h : Opened wrkr signer) (faults : SignFaults)
    (bufLen : Nat) :
    Opened (mmhashchainsigsFinalSign faults wrkr bufLen).wrkr signer ∧
      (mmhashchainsigsFinalSign faults wrkr bufLen).wrkr.pendingState =
        wrkr.pendingState := by
  by_cases hcount : wrkr.chain.msgCount = 0
  · rw [finalSign_of_silent (.inr hcount)]
    exact ⟨h, rfl⟩
  · have hfirst := h.begun hcount
    unfold mmhashchainsigsFinalSign
    simp only [h.signer_eq, if_neg hcount, hashchainUpdate_eq]
    cases faults.hashChain with
    | true => exact ⟨h, rfl⟩
    | false =>
        simp only [Bool.false_eq_true, if_false]
        cases hcsSign ossl faults.sign faults.nonce signer.privkey _ with
        | none => exact ⟨⟨rfl, h.loads, h.alg, fun _ => hfirst⟩, rfl⟩
        | some sig =>
            simp only
            cases hcsFormatSdSig _ _ _ _ _ bufLen with
            | none => exact ⟨⟨rfl, h.loads, h.alg, fun _ => hfirst⟩, rfl⟩
            | some text => exact ⟨⟨rfl, h.loads, h.alg, fun _ => hfirst⟩, rfl⟩

theorem Opened.processFinal (h : Opened wrkr signer) (faults : SignFaults)
    (state : SavedState) (payload : Bytes) (bufLen : Nat) :
    Opened (mmhashchainsigsProcessFinal faults wrkr signer state payload
      bufLen).wrkr signer := by
  have hreset : ∀ fails, Opened { wrkr with
      chain := (hashchainInit ossl fails wrkr.inst.hashAlg).1 } signer := by
    intro fails
    refine ⟨h.signer_eq, h.loads, ?_, fun hne => ?_⟩
    · cases fails <;> rfl
    · exact absurd (hashchainInit_msgCount _ _) hne
  have hfresh : ∀ fails, Opened { wrkr with
      chain := (hashchainInit ossl fails wrkr.inst.hashAlg).1
      isFirst := true, sigSeqFrom := 1 } signer := fun fails =>
    ⟨h.signer_eq, h.loads, (hreset fails).alg, fun hne =>
      absurd (hashchainInit_msgCount _ _) hne⟩
  by_cases hrestore : Restorable wrkr signer state
  · unfold mmhashchainsigsProcessFinal
    rw [if_neg (not_not.mpr hrestore.1), if_neg (not_not.mpr hrestore.2)]
    simp only [hashchainInit_eq faults.finalInit, hashchainUpdate_eq]
    cases faults.finalInit with
    | true =>
        exact ⟨h.signer_eq, h.loads, hrestore.2, fun hne => absurd rfl hne⟩
    | false =>
        cases faults.finalHash with
        | true => exact hreset _
        | false =>
            simp only [Bool.false_eq_true, if_false]
            cases hcsSign ossl faults.finalSign faults.finalNonce
              signer.privkey _ with
            | none => exact hreset _
            | some sig =>
                simp only
                cases hcsFormatSdSig _ _ _ _ _ bufLen with
                | none => exact hfresh _
                | some text => exact hfresh _
  · rw [processFinal_of_not_restorable hrestore]
    exact h

theorem Opened.established (h : Opened wrkr signer)
    (hpending : wrkr.pendingState = none) : Established wrkr := by
  intro signer' hsigner'
  have hsame : signer' = signer :=
    Option.some.inj (hsigner'.symm.trans h.signer_eq)
  rw [hsame]
  exact ⟨h, hpending⟩

theorem Established.processMsg (h : Established wrkr) (faults : SignFaults)
    (stateFile : Option Bytes) (payload : Bytes) (bufLen : Nat) :
    Established (mmhashchainsigsProcessMsg faults wrkr stateFile payload
      bufLen).1.wrkr := by
  have hentry : ∀ {wrkr : Worker ossl} {signer : SignerCtx ossl},
      Opened wrkr signer → wrkr.pendingState = none →
      Established (processEntry faults wrkr signer payload bufLen).wrkr := by
    intro wrkr signer hopened hpending
    obtain ⟨signer', hnext⟩ := hopened.entry faults payload bufLen
    apply hnext.established
    rcases processEntry_cases hopened.signer_eq faults payload bufLen with
      ⟨-, hkept⟩ | ⟨-, hadvanced⟩
    · rw [hkept]
      exact hpending
    · exact hadvanced.pendingState.trans hpending
  cases hsigner : (readyWorker faults wrkr).1.signer with
  | none =>
      rw [processMsg_of_no_signer hsigner]
      intro signer hsome
      rw [hsigner] at hsome
      cases hsome
  | some signer =>
      have hready := readyWorker_opened h hsigner
      cases hpending : (readyWorker faults wrkr).1.pendingState with
      | none =>
          rw [processMsg_of_open hsigner hpending]
          exact hentry hready hpending
      | some state =>
          have hdropped : Opened { (readyWorker faults wrkr).1 with
              pendingState := none } signer :=
            ⟨hready.signer_eq, hready.loads, hready.alg, hready.begun⟩
          have hfinal := hdropped.processFinal faults state payload bufLen
          have hframe := processFinal_frame faults
            { (readyWorker faults wrkr).1 with pendingState := none } signer
            state payload bufLen
          cases hret : (finalCall faults (readyWorker faults wrkr).1 signer
              state payload bufLen).ret with
          | ok text =>
              rw [processMsg_of_final_ok hsigner hpending hret]
              exact hfinal.established hframe.2.2
          | error e =>
              rw [processMsg_of_final_error hsigner hpending hret]
              exact hentry hfinal hframe.2.2

theorem Established.finalSign (h : Established wrkr) (faults : SignFaults)
    (bufLen : Nat) :
    Established (mmhashchainsigsFinalSign faults wrkr bufLen).wrkr := by
  cases hsigner : wrkr.signer with
  | none =>
      rw [finalSign_of_silent (.inl hsigner)]
      exact h
  | some signer =>
      obtain ⟨hopened, hpending⟩ := h signer hsigner
      obtain ⟨hnext, hkept⟩ := hopened.finalSign faults bufLen
      exact hnext.established (hkept.trans hpending)

end Calls

theorem established_newWorker (loadFails : Bool) (inst : Instance)
    (stateFile : Option Bytes) :
    Established (newWorker ossl loadFails inst stateFile) := nofun

theorem established_step (sys : Sys ossl) (op : Op) (h : Established sys.wrkr) :
    Established (sys.step op).wrkr := by
  cases op with
  | processMsg faults payload bufLen =>
      exact h.processMsg faults sys.stateFile payload bufLen
  | finalSign faults bufLen => exact h.finalSign faults bufLen
  | action faults msg =>
      rcases action_cases faults sys msg with hkept | ⟨cleaned, _, -, hstep, -⟩
      · rw [hkept]
        exact h
      · rw [hstep]
        exact h.processMsg faults.core sys.stateFile _ _
  | stop saveFails loadFails inst => exact established_newWorker _ _ _
  | crash loadFails inst => exact established_newWorker _ _ _

theorem established_run (inst : Instance) (ops : List Op) :
    Established ((Sys.start ossl inst).run ops).wrkr := by
  have hstart : Established (Sys.start ossl inst).wrkr := nofun
  have hstep : ∀ (sys : Sys ossl) op, Established sys.wrkr → True →
      Established (sys.step op).wrkr :=
    fun sys op h _ => established_step sys op h
  exact Sys.run_induction hstart hstep fun _ _ => trivial

/-! ## Signatures at the same place -/

def signings (steps : List ChainStep) : List (HcsHashAlg × Bytes) :=
  steps.filterMap fun
    | .sign alg digest => some (alg, digest)
    | _ => none

structure SignsOnce (call : SignCall ossl) (record : HcsSdRecord)
    (signing : HcsHashAlg × Bytes) : Prop where
  emitted : ∃ sd, call.sd = some sd ∧ emittedRecord ossl sd = some record
  type : record.type = .sig
  signs : signings call.steps = [signing]

def SameSignature (call call' : SignCall ossl) : Prop :=
  ∃ record record' signing, SignsOnce call record signing ∧
    SignsOnce call' record' signing ∧ record.seq = record'.seq ∧
    record.chainHash = record'.chainHash ∧
    record.seqFrom = record'.seqFrom ∧ record.seqTo = record'.seqTo

def signedRecord (next : HashchainCtx) (sigSeqFrom : UInt64) (sig : Bytes) :
    HcsSdRecord :=
  sigRecord (next.seq - 1) next.current sigSeqFrom (next.seq - 1) sig

theorem sameSignature_of_head {call call' : SignCall ossl}
    {chain chain' : HashchainCtx} {sigSeqFrom : UInt64}
    {signing : HcsHashAlg × Bytes} {sig sig' : Bytes}
    (h : SignsOnce call (signedRecord chain sigSeqFrom sig) signing)
    (h' : SignsOnce call' (signedRecord chain' sigSeqFrom sig') signing)
    (hhead : SameHead chain chain') : SameSignature call call' := by
  obtain ⟨-, hcurrent, hseq⟩ := hhead
  refine ⟨_, _, signing, h, h', ?_, hcurrent.symm, rfl, ?_⟩
  · simp only [signedRecord, sigRecord, hseq]
  · simp only [signedRecord, sigRecord, hseq]

/-- The worker as if a signature were due with every message. -/
def dueWorker (wrkr : Worker ossl) : Worker ossl :=
  { wrkr with inst := { wrkr.inst with signInterval := 0 } }

theorem processMsg_due {wrkr : Worker ossl} {signer : SignerCtx ossl}
    (h : Opened wrkr signer) (hpending : wrkr.pendingState = none)
    (hfirst : wrkr.isFirst = false) (nonce : Nat)
    (stateFile : Option Bytes) (payload : Bytes) {bufLen : Nat}
    (hroom : Common.Limits.hcsSdMaxLen ≤ bufLen) :
    ∃ sig, SignsOnce (mmhashchainsigsProcessMsg { nonce := nonce }
        (dueWorker wrkr) stateFile payload bufLen).1
      (signedRecord (absorb ossl wrkr.chain payload) wrkr.sigSeqFrom sig)
      (wrkr.chain.alg, (absorb ossl wrkr.chain payload).current) := by
  have hsigner : (dueWorker wrkr).signer = some signer := h.signer_eq
  have hready := readyWorker_of_signer hsigner { nonce := nonce }
  obtain ⟨loaded, hload, hsame⟩ := h.loads
  have hsupported := ((loadSigner_loaded hload).congr hsame).supported
  obtain ⟨sig, hsig⟩ := hcsSign_supported hsupported nonce
    (absorb ossl wrkr.chain payload).current
  obtain ⟨sd, hsd⟩ := hcsFormatSdSig_succeeds (absorb ossl wrkr.chain payload)
    (hcsSign_length ossl hsig) hroom ((absorb ossl wrkr.chain payload).seq - 1)
    wrkr.sigSeqFrom ((absorb ossl wrkr.chain payload).seq - 1)
  have hdue : (dueWorker wrkr).inst.signInterval.toUInt64 ≤
      (absorb ossl (dueWorker wrkr).chain payload).msgCount :=
    UInt64.zero_le
  have hcall : mmhashchainsigsProcessMsg { nonce := nonce } (dueWorker wrkr)
      stateFile payload bufLen = (⟨{ dueWorker wrkr with
        sigSeqFrom := (absorb ossl wrkr.chain payload).seq - 1 + 1
        chain := hashchainResetCount (absorb ossl wrkr.chain payload) },
        some sd, [updateStep wrkr.chain payload,
          signStep (absorb ossl wrkr.chain payload)]⟩, stateFile) := by
    rw [processMsg_of_open (by rw [hready]; exact hsigner)
      (by rw [hready]; exact hpending), hready]
    unfold processEntry
    rw [hashchainUpdate_eq]
    simp only [Bool.false_eq_true, if_false]
    rw [if_neg (show ¬ (dueWorker wrkr).isFirst = true by
      rw [show (dueWorker wrkr).isFirst = false from hfirst]
      decide), if_pos hdue]
    simp only [dueWorker, hsig, hsd, List.nil_append]
  rw [hcall]
  obtain rfl := hcsFormatSdSig_some hsd
  refine ⟨sig, ⟨_, rfl, ?_⟩, rfl, rfl⟩
  exact Element.record signer.pubkeyFp_length
    (@Element.sig ossl signer.privkey signer.pubkeyFp _ wrkr.sigSeqFrom _ _
      hsig)

/-! ## The next worker -/

theorem readyWorker_loads {inst : Instance} {loaded : SignerCtx ossl}
    (hload : loadSigner ossl false inst = some loaded) {faults : SignFaults}
    (hsigner : faults.signerInit = false) (hchain : faults.chainInit = false)
    (pending : Option SavedState) :
    readyWorker faults (createdWorker ossl inst pending) =
      (startedWorker (createdWorker ossl inst pending) loaded, [.init]) := by
  have hnone : ¬ (createdWorker ossl inst pending).signer.isSome := nofun
  have hinst : loadSigner ossl faults.signerInit
      (createdWorker ossl inst pending).inst = some loaded := by
    rw [hsigner]
    exact hload
  unfold readyWorker mmhashchainsigsInit
  rw [if_neg hnone, hinst]
  simp only [hashchainInit_eq, hchain, Bool.false_eq_true, if_false]
  rfl

def OpensNext (wrkr : Worker ossl) : Prop :=
  ∀ (nonce : Nat) (stateFile : Option Bytes) (payload : Bytes) (bufLen : Nat),
    Common.Limits.hcsSdMaxLen ≤ bufLen → ∃ sd record,
      (mmhashchainsigsProcessMsg { nonce := nonce } wrkr stateFile payload
        bufLen).1.sd = some sd ∧
      emittedRecord ossl sd = some record ∧ record.type = .init ∧
      record.seq = 1

theorem opensNext_started {inst : Instance} {loaded : SignerCtx ossl}
    (hload : loadSigner ossl false inst = some loaded) :
    OpensNext (startedWorker (createdWorker ossl inst none) loaded) := by
  intro nonce stateFile payload bufLen hroom
  generalize hwrkr : startedWorker (createdWorker ossl inst none) loaded =
    wrkr
  have hsigner : wrkr.signer = some loaded := by rw [← hwrkr]; rfl
  have hfirst : wrkr.isFirst = true := by rw [← hwrkr]; rfl
  have hready := readyWorker_of_signer hsigner { nonce := nonce }
  have hsignable : Signable false loaded bufLen :=
    (loadSigner_loaded hload).signable rfl hroom
  obtain ⟨sd, hsd⟩ := @processEntry_succeeds _ { nonce := nonce } wrkr _ _
    hsignable rfl payload
  obtain ⟨record, helement, hentered⟩ := processEntry_some hsigner hsd
  have hinit := hentered.opens.mpr hfirst
  refine ⟨sd, record, ?_, helement.record loaded.pubkeyFp_length, hinit, ?_⟩
  · rw [processMsg_of_open (by rw [hready]; exact hsigner)
      (by rw [hready, ← hwrkr]; rfl), hready]
    exact hsd
  · have hseq : (absorb ossl wrkr.chain payload).seq - 1 = 1 := by
      rw [absorb_seq_sub, ← hwrkr]
      rfl
    cases helement with
    | init hcert => exact hseq
    | msg => cases hinit
    | sig hsig => cases hinit

structure StartsOver (inst : Instance) (call : SignCall ossl)
    (stateFile : Option Bytes) : Prop where
  pendingState : call.wrkr.pendingState = none
  stateFile : inst.statefiledir = true → stateFile = none
  fresh : call.wrkr = (readyWorker {} (createdWorker ossl inst none)).1
  opens : OpensNext call.wrkr

theorem processMsg_restored {inst : Instance} {loaded : SignerCtx ossl}
    (hload : loadSigner ossl false inst = some loaded) {state : SavedState}
    (hfp : loaded.pubkeyFp = state.pubkeyFp)
    (halg : state.hashAlg = inst.hashAlg) (nonce : Nat)
    (stateFile : Option Bytes) (payload : Bytes) {bufLen : Nat}
    (hroom : Common.Limits.hcsSdMaxLen ≤ bufLen) :
    (∃ sig, SignsOnce (mmhashchainsigsProcessMsg { finalNonce := nonce }
        (createdWorker ossl inst (some state)) stateFile payload bufLen).1
      (signedRecord (absorb ossl (restoredChain state) payload)
        state.sigSeqFrom sig)
      (state.hashAlg, (absorb ossl (restoredChain state) payload).current)) ∧
    StartsOver inst
      (mmhashchainsigsProcessMsg { finalNonce := nonce }
        (createdWorker ossl inst (some state)) stateFile payload bufLen).1
      (mmhashchainsigsProcessMsg { finalNonce := nonce }
        (createdWorker ossl inst (some state)) stateFile payload bufLen).2 := by
  have hready := @readyWorker_loads _ _ _ hload { finalNonce := nonce } rfl
    rfl (some state)
  have hfresh := @readyWorker_loads _ _ _ hload {} rfl rfl none
  obtain ⟨sig, hsig⟩ := hcsSign_supported (loadSigner_loaded hload).supported
    nonce (absorb ossl (restoredChain state) payload).current
  obtain ⟨sd, hsd⟩ := hcsFormatSdSig_succeeds
    (absorb ossl (restoredChain state) payload) (hcsSign_length ossl hsig)
    hroom ((absorb ossl (restoredChain state) payload).seq - 1)
    state.sigSeqFrom ((absorb ossl (restoredChain state) payload).seq - 1)
  have hfinal : finalCall { finalNonce := nonce }
      (startedWorker (createdWorker ossl inst (some state)) loaded) loaded
      state payload bufLen =
      ⟨startedWorker (createdWorker ossl inst none) loaded, .ok sd,
        [.init, .restore, updateStep (restoredChain state) payload,
          signStep (absorb ossl (restoredChain state) payload), .init]⟩ := by
    have hinst : ¬ state.hashAlg ≠ (startedWorker
        (createdWorker ossl inst (some state)) loaded).inst.hashAlg :=
      not_not.mpr halg
    unfold finalCall mmhashchainsigsProcessFinal
    rw [if_neg (not_not.mpr hfp), if_neg hinst]
    simp only [hashchainInit_eq, hashchainUpdate_eq, Bool.false_eq_true,
      if_false, hsig, hsd]
    rfl
  rw [processMsg_of_final_ok (by rw [hready]; rfl) (by rw [hready]; rfl)
    (by rw [hready, hfinal]), hready, hfinal]
  obtain rfl := hcsFormatSdSig_some hsd
  constructor
  · refine ⟨sig, ⟨_, rfl, ?_⟩, rfl, rfl⟩
    exact Element.record loaded.pubkeyFp_length
      (@Element.sig ossl loaded.privkey loaded.pubkeyFp _ state.sigSeqFrom _ _
        hsig)
  · constructor
    · rfl
    · intro hdir
      have hunlink : (startedWorker (createdWorker ossl inst none)
          loaded).inst.statefiledir = true ∧ ¬ false = true :=
        ⟨hdir, Bool.false_ne_true⟩
      exact if_pos hunlink
    · rw [hfresh]
    · exact opensNext_started hload

/-! ## Saving and loading -/

structure LoadsChain (wrkr : Worker ossl) (signer : SignerCtx ossl)
    (state : SavedState) : Prop where
  hashAlg : state.hashAlg = wrkr.chain.alg
  hash : state.chainHash.take state.hashLen = wrkr.chain.current
  seq : state.seq = wrkr.chain.seq
  sigSeqFrom : state.sigSeqFrom = wrkr.sigSeqFrom
  pubkeyFp : state.pubkeyFp = signer.pubkeyFp

/--
The new worker signs the message just as the old one would have, and starts
over.
-/
def CarriesOn (wrkr : Worker ossl) (state : SavedState) (text : Bytes) : Prop :=
  ∀ (nonce nonce' : Nat) (stateFile : Option Bytes) (payload : Bytes)
    (bufLen : Nat), Common.Limits.hcsSdMaxLen ≤ bufLen →
    let (call, stateFile') := mmhashchainsigsProcessMsg
      { finalNonce := nonce } (createdWorker ossl wrkr.inst (some state))
      (some text) payload bufLen
    SameSignature call (mmhashchainsigsProcessMsg { nonce := nonce' }
        (dueWorker wrkr) stateFile payload bufLen).1 ∧
      StartsOver wrkr.inst call stateFile'

theorem graceful_restart (ossl : OpenSSL) (inst : Instance) (ops : List Op)
    (signer : SignerCtx ossl)
    (hsigner : ((Sys.start ossl inst).run ops).wrkr.signer = some signer)
    (hcount : ((Sys.start ossl inst).run ops).wrkr.chain.msgCount ≠ 0)
    (stateFile : Option Bytes) :
    let wrkr := ((Sys.start ossl inst).run ops).wrkr
    ∃ text state,
      mmhashchainsigsSaveState false wrkr stateFile = (1, some text) ∧
      mmhashchainsigsLoadState false (some text) = some state ∧
      LoadsChain wrkr signer state ∧ CarriesOn wrkr state text := by
  obtain ⟨hopened, hpending⟩ := established_run inst ops signer hsigner
  generalize ((Sys.start ossl inst).run ops).wrkr = wrkr at *
  have hrestored := restoredChain_savedState wrkr.chain wrkr.sigSeqFrom
    signer.pubkeyFp
  refine ⟨stateText wrkr.chain wrkr.sigSeqFrom signer.pubkeyFp,
    savedState wrkr.chain wrkr.sigSeqFrom signer.pubkeyFp, ?_, ?_, ?_, ?_⟩
  · simp [mmhashchainsigsSaveState, hsigner, hcount]
  · exact loadState_stateText _ _ signer.pubkeyFp_length
  · refine ⟨rfl, ?_, rfl, rfl, rfl⟩
    exact congrArg HashchainCtx.current hrestored
  · intro nonce nonce' stateFile payload bufLen hroom
    obtain ⟨loaded, hload, hsame⟩ := hopened.loads
    obtain ⟨⟨sig, hnew⟩, hover⟩ := @processMsg_restored _ _ _ hload
      (savedState wrkr.chain wrkr.sigSeqFrom signer.pubkeyFp)
      hsame.2.symm hopened.alg nonce
      (some (stateText wrkr.chain wrkr.sigSeqFrom signer.pubkeyFp)) payload _
      hroom
    obtain ⟨sig', hold⟩ := processMsg_due hopened hpending
      (hopened.begun hcount) nonce' stateFile payload hroom
    rw [hrestored] at hnew
    exact ⟨sameSignature_of_head hnew hold ⟨rfl, rfl, rfl⟩, hover⟩

def interrupted : Sys sampleOpenSSL :=
  (Sys.start sampleOpenSSL { privkeyPath := [7], statefiledir := true }).run
    [.processMsg {} [97] Common.Limits.hcsSdMaxLen]

theorem graceful_restart_sample : ∃ signer text state,
    mmhashchainsigsSaveState false interrupted.wrkr none = (1, some text) ∧
    mmhashchainsigsLoadState false (some text) = some state ∧
    LoadsChain interrupted.wrkr signer state ∧
    CarriesOn interrupted.wrkr state text := by
  obtain ⟨signer, hsigner⟩ := Option.isSome_iff_exists.mp
    (show interrupted.wrkr.signer.isSome by decide +kernel)
  exact ⟨signer, graceful_restart sampleOpenSSL
    { privkeyPath := [7], statefiledir := true }
    [.processMsg {} [97] Common.Limits.hcsSdMaxLen] signer hsigner
    (by decide +kernel) none⟩

end MmHashChainSigs.System
