import MmHashChainSigs.Module.Retry
import MmHashChainSigs.System.EndToEnd

/-!
# The state file of another key

A worker that finds the state of another key or algorithm, or a file that it
cannot read, goes on as one that finds no file at all.  The log of a system
that changes its key is so the log of two systems, one after the other.
-/

namespace MmHashChainSigs.System

open MmHashChainSigs.Foundation
open MmHashChainSigs.Common
open MmHashChainSigs.Module
open MmHashChainSigs.Verify

variable {ossl : OpenSSL}

/-! ## Without the pending state -/

def forget (wrkr : Worker ossl) : Worker ossl :=
  { wrkr with pendingState := none }

theorem forget_of_none {wrkr : Worker ossl} (h : wrkr.pendingState = none) :
    forget wrkr = wrkr := by
  unfold forget
  rw [← h]

theorem readyWorker_forget (faults : SignFaults) (wrkr : Worker ossl) :
    readyWorker faults (forget wrkr) =
      (forget (readyWorker faults wrkr).1, (readyWorker faults wrkr).2) := by
  have hsigner : (forget wrkr).signer = wrkr.signer := rfl
  have hinst : (forget wrkr).inst = wrkr.inst := rfl
  unfold readyWorker
  rw [hsigner]
  split_ifs
  · rfl
  · unfold mmhashchainsigsInit
    rw [hinst]
    cases loadSigner ossl faults.signerInit wrkr.inst with
    | none => rfl
    | some signer =>
        dsimp only [forget]
        cases hashchainInit ossl faults.chainInit wrkr.inst.hashAlg with
        | mk chain ok =>
            cases ok with
            | true => rfl
            | false => rfl

theorem finalSign_pending (faults : SignFaults) (wrkr : Worker ossl)
    (bufLen : Nat) :
    (mmhashchainsigsFinalSign faults wrkr bufLen).wrkr.pendingState =
      wrkr.pendingState := by
  by_cases hsilent : wrkr.signer = none ∨ wrkr.chain.msgCount = 0
  · rw [finalSign_of_silent hsilent]
  · rw [not_or] at hsilent
    obtain ⟨signer, hsigner⟩ := Option.ne_none_iff_exists'.mp hsilent.1
    rcases finalSign_cases hsigner hsilent.2 faults bufLen with
      ⟨-, hkept⟩ | ⟨-, hadvanced⟩
    · rw [hkept]
    · exact hadvanced.pendingState

theorem processMsg_of_none {wrkr : Worker ossl}
    (h : wrkr.pendingState = none) (faults : SignFaults)
    (stateFile stateFile' : Option Bytes) (payload : Bytes) (bufLen : Nat) :
    let call := mmhashchainsigsProcessMsg faults wrkr stateFile payload bufLen
    mmhashchainsigsProcessMsg faults wrkr stateFile' payload bufLen =
        (call.1, stateFile') ∧
      call.2 = stateFile ∧ call.1.wrkr.pendingState = none := by
  have hpending := (readyWorker_pending faults wrkr).trans h
  intro call
  cases hsigner : (readyWorker faults wrkr).1.signer with
  | none =>
      simp only [call, processMsg_of_no_signer hsigner]
      exact ⟨trivial, trivial, hpending⟩
  | some signer =>
      simp only [call, processMsg_of_open hsigner hpending]
      exact ⟨trivial, trivial,
        (processEntry_pending hsigner _ _ _).trans hpending⟩

/-! ## A state of another key -/

section Foreign

variable {setup : Setup ossl}

def ForeignState (setup : Setup ossl) (state : SavedState) : Prop :=
  state.pubkeyFp ≠ setup.fp ∨ state.hashAlg ≠ setup.alg

def ForeignFile (setup : Setup ossl) (stateFile : Option Bytes) : Prop :=
  ∀ state ∈ mmhashchainsigsLoadState false stateFile, ForeignState setup state

/--
Two workers with their state files, of which the second one never found a file.
The file of the first one may wait for the first message, or be left over.
-/
inductive Beside (setup : Setup ossl) (wrkr : Worker ossl)
    (stateFile : Option Bytes) :
    Worker ossl → Option Bytes → Prop where
  | same : Beside setup wrkr stateFile wrkr stateFile
  | stale (hpending : wrkr.pendingState = none)
      (hforeign : ForeignFile setup stateFile) :
      Beside setup wrkr stateFile wrkr none
  | waiting {state : SavedState} (hsigner : wrkr.signer = none)
      (hpending : wrkr.pendingState = some state)
      (hstate : ForeignState setup state)
      (hforeign : ForeignFile setup stateFile)
      (hsame : SameKey setup wrkr.inst) :
      Beside setup wrkr stateFile (forget wrkr) none

theorem Beside.forget_eq {wrkr wrkr' : Worker ossl}
    {stateFile stateFile' : Option Bytes}
    (h : Beside setup wrkr stateFile wrkr' stateFile') :
    forget wrkr = forget wrkr' := by
  cases h with
  | same => rfl
  | stale => rfl
  | waiting => rfl

theorem not_restorable {wrkr : Worker ossl} {signer : SignerCtx ossl}
    {state : SavedState} (hsame : SameKey setup wrkr.inst)
    (hloaded : Loaded wrkr.inst signer) (hstate : ForeignState setup state) :
    ¬ Restorable wrkr signer state := by
  rintro ⟨hfp, halg⟩
  obtain ⟨-, hkey⟩ := hsame.loaded hloaded
  cases hstate with
  | inl hne => exact hne (hfp.symm.trans hkey)
  | inr hne => exact hne (halg.trans hsame.hashAlg)

theorem processMsg_waiting {wrkr : Worker ossl} {state : SavedState}
    {stateFile : Option Bytes} (hsigner : wrkr.signer = none)
    (hpending : wrkr.pendingState = some state)
    (hstate : ForeignState setup state)
    (hforeign : ForeignFile setup stateFile)
    (hsame : SameKey setup wrkr.inst) (faults : SignFaults) (payload : Bytes)
    (bufLen : Nat) :
    let call := mmhashchainsigsProcessMsg faults wrkr stateFile payload bufLen
    let call' := mmhashchainsigsProcessMsg faults (forget wrkr) none payload
      bufLen
    call.1.sd = call'.1.sd ∧
      Beside setup call.1.wrkr call.2 call'.1.wrkr call'.2 := by
  intro call call'
  have hready := readyWorker_pending faults wrkr
  have hinst := readyWorker_inst faults wrkr
  have hforget := readyWorker_forget faults wrkr
  have hnone : (readyWorker faults (forget wrkr)).1.pendingState = none := by
    rw [hforget]
    rfl
  cases hsome : (readyWorker faults wrkr).1.signer with
  | none =>
      have hsome' : (readyWorker faults (forget wrkr)).1.signer = none := by
        rw [hforget]
        exact hsome
      simp only [call, call', processMsg_of_no_signer hsome,
        processMsg_of_no_signer hsome', hforget]
      have hkept := hready.trans hpending
      refine ⟨trivial, .waiting hsome hkept hstate hforeign ?_⟩
      rw [hinst]
      exact hsame
  | some signer =>
      have hsome' : (readyWorker faults (forget wrkr)).1.signer =
          some signer := by
        rw [hforget]
        exact hsome
      have hloaded : Loaded (readyWorker faults wrkr).1.inst signer := by
        unfold readyWorker at hsome ⊢
        rw [if_neg (by simp [hsigner])] at hsome ⊢
        rcases mmhashchainsigsInit_cases hsigner faults with
          ⟨hfailed, -⟩ | ⟨signer', hloaded, hinit⟩
        · rw [hfailed] at hsome
          cases hsome
        · rw [hinit] at hsome ⊢
          cases hsome
          exact hloaded
      have hkept := processFinal_of_not_restorable
        (@not_restorable ossl setup (forget (readyWorker faults wrkr).1) signer
          state (by rw [← hinst] at hsame; exact hsame) hloaded hstate)
        faults payload bufLen
      have hfinal : finalCall faults (readyWorker faults wrkr).1 signer state
          payload bufLen = ⟨forget (readyWorker faults wrkr).1,
            .error .keyMismatch, []⟩ := hkept
      have hret := congrArg FinalCall.ret hfinal
      simp only [call, call', processMsg_of_final_error hsome
        (hready.trans hpending) hret, processMsg_of_open hsome' hnone, hforget,
        hfinal]
      refine ⟨trivial, ?_⟩
      have hpending' : (processEntry faults
          (forget (readyWorker faults wrkr).1) signer payload
          bufLen).wrkr.pendingState = none :=
        @processEntry_pending ossl (forget (readyWorker faults wrkr).1) signer
          hsome faults payload bufLen
      rcases deleteState_cases faults (forget (readyWorker faults wrkr).1)
        stateFile with hgone | hleft
      · rw [hgone]
        exact .same
      · rw [hleft]
        exact .stale hpending' hforeign

theorem Beside.processMsg {wrkr wrkr' : Worker ossl}
    {stateFile stateFile' : Option Bytes}
    (h : Beside setup wrkr stateFile wrkr' stateFile') (faults : SignFaults)
    (payload : Bytes) (bufLen : Nat) :
    let call := mmhashchainsigsProcessMsg faults wrkr stateFile payload bufLen
    let call' := mmhashchainsigsProcessMsg faults wrkr' stateFile' payload
      bufLen
    call.1.sd = call'.1.sd ∧
      Beside setup call.1.wrkr call.2 call'.1.wrkr call'.2 := by
  cases h with
  | same => exact ⟨rfl, .same⟩
  | stale hpending hforeign =>
      obtain ⟨hcall, hfile, hnone⟩ := processMsg_of_none hpending faults
        stateFile none payload bufLen
      dsimp only at hcall hfile hnone ⊢
      rw [hcall, hfile]
      exact ⟨rfl, .stale hnone hforeign⟩
  | waiting hsigner hpending hstate hforeign hsame =>
      exact processMsg_waiting hsigner hpending hstate hforeign hsame faults
        payload bufLen

theorem Beside.finalSign {wrkr wrkr' : Worker ossl}
    {stateFile stateFile' : Option Bytes}
    (h : Beside setup wrkr stateFile wrkr' stateFile') (faults : SignFaults)
    (bufLen : Nat) :
    let call := mmhashchainsigsFinalSign faults wrkr bufLen
    let call' := mmhashchainsigsFinalSign faults wrkr' bufLen
    call.sd = call'.sd ∧
      Beside setup call.wrkr stateFile call'.wrkr stateFile' := by
  cases h with
  | same => exact ⟨rfl, .same⟩
  | stale hpending hforeign =>
      have hkept := finalSign_pending faults wrkr bufLen
      exact ⟨rfl, .stale (hkept.trans hpending) hforeign⟩
  | waiting hsigner hpending hstate hforeign hsame =>
      rw [finalSign_of_silent (.inl hsigner),
        finalSign_of_silent (show (forget wrkr).signer = none ∨ _ from
          .inl hsigner)]
      exact ⟨rfl, .waiting hsigner hpending hstate hforeign hsame⟩

theorem Beside.action {wrkr wrkr' : Worker ossl}
    {stateFile stateFile' : Option Bytes}
    (h : Beside setup wrkr stateFile wrkr' stateFile')
    (faults : ActionFaults) (msg : SyslogMsg) :
    let call := doAction faults wrkr stateFile msg
    let call' := doAction faults wrkr' stateFile' msg
    call.emission = call'.emission ∧
      Beside setup call.wrkr call.stateFile call'.wrkr call'.stateFile := by
  intro call call'
  simp only [call, call']
  unfold doAction
  cases cleanedSd faults msg with
  | error ret => exact ⟨rfl, h⟩
  | ok cleaned =>
      dsimp only
      cases faults.payload with
      | true => exact ⟨rfl, h⟩
      | false =>
          obtain ⟨hsd, hbeside⟩ := h.processMsg faults.core
            (cleaned ++ msg.msg) Common.Limits.hcsSdWithCertMaxLen
          simp only [Bool.false_eq_true, if_false, hsd]
          split
          · exact ⟨rfl, hbeside⟩
          · split_ifs
            · exact ⟨rfl, hbeside⟩
            · exact ⟨rfl, hbeside⟩

theorem beside_newWorker {stateFile : Option Bytes} {inst : Instance}
    (hforeign : ForeignFile setup stateFile) (hsame : SameKey setup inst)
    (loadFails : Bool) :
    Beside setup (newWorker ossl loadFails inst stateFile) stateFile
      (newWorker ossl loadFails inst none) none := by
  have hfound : ∀ state ∈ (newWorker ossl loadFails inst
      stateFile).pendingState, ForeignState setup state := by
    intro state hstate
    unfold newWorker at hstate
    dsimp only at hstate
    split_ifs at hstate
    · cases loadFails with
      | true =>
          rw [mmhashchainsigsLoadState_fails] at hstate
          cases hstate
      | false => exact hforeign state hstate
    · cases hstate
  have hclean : newWorker ossl loadFails inst none =
      forget (newWorker ossl loadFails inst stateFile) := by
    unfold newWorker forget
    dsimp only
    split_ifs
    · rfl
    · rfl
  rw [hclean]
  cases hpending : (newWorker ossl loadFails inst stateFile).pendingState with
  | none =>
      rw [forget_of_none hpending]
      exact .stale hpending hforeign
  | some state =>
      exact .waiting rfl hpending (hfound state hpending) hforeign hsame

theorem saveState_cases (fails : Bool) (wrkr : Worker ossl) :
    (∀ stateFile, (mmhashchainsigsSaveState fails wrkr stateFile).2 =
      stateFile) ∨
    ∃ text, ∀ stateFile, (mmhashchainsigsSaveState fails wrkr stateFile).2 =
      some text := by
  unfold mmhashchainsigsSaveState
  cases wrkr.signer with
  | none => exact .inl fun _ => rfl
  | some signer =>
      dsimp only
      split_ifs
      · exact .inl fun _ => rfl
      · exact .inl fun _ => rfl
      · exact .inr ⟨_, fun _ => rfl⟩

end Foreign

/-! ## Runs -/

section Run

variable {setup : Setup ossl} {sys sys' : Sys ossl} {before : List Emission}
  {lost : Bool}

structure Behind (setup : Setup ossl) (before : List Emission) (lost : Bool)
    (sys sys' : Sys ossl) : Prop where
  beside : Beside setup sys.wrkr sys.stateFile sys'.wrkr sys'.stateFile
  emitted : sys.emitted = before ++ sys'.emitted
  lost : sys.lostTail = (lost || sys'.lostTail)

theorem Beside.frame {wrkr wrkr' : Worker ossl}
    {stateFile stateFile' : Option Bytes}
    (h : Beside setup wrkr stateFile wrkr' stateFile') :
    wrkr.inst = wrkr'.inst ∧ openTail wrkr = openTail wrkr' ∧
      ∀ fails file, (mmhashchainsigsSaveState fails wrkr file).2 =
        (mmhashchainsigsSaveState fails wrkr' file).2 := by
  cases h with
  | same => exact ⟨rfl, rfl, fun _ _ => rfl⟩
  | stale => exact ⟨rfl, rfl, fun _ _ => rfl⟩
  | waiting => exact ⟨rfl, rfl, fun _ _ => rfl⟩

theorem Beside.restart {wrkr wrkr' : Worker ossl}
    {stateFile stateFile' : Option Bytes}
    (h : Beside setup wrkr stateFile wrkr' stateFile') {inst : Instance}
    (hsame : SameKey setup inst) (loadFails : Bool) :
    Beside setup (newWorker ossl loadFails inst stateFile) stateFile
      (newWorker ossl loadFails inst stateFile') stateFile' := by
  cases h with
  | same => exact .same
  | stale _ hforeign => exact beside_newWorker hforeign hsame loadFails
  | waiting _ _ _ hforeign => exact beside_newWorker hforeign hsame loadFails

theorem Sys.save_file (sys : Sys ossl) (fails : Bool) :
    (sys.save fails).stateFile =
      if sys.wrkr.inst.statefiledir then
        (mmhashchainsigsSaveState fails sys.wrkr sys.stateFile).2
      else sys.stateFile := by
  unfold Sys.save
  split_ifs with h
  · rfl
  · rfl

theorem Beside.save (h : Beside setup sys.wrkr sys.stateFile sys'.wrkr
      sys'.stateFile) (fails : Bool) :
    (sys.save fails).stateFile = (sys'.save fails).stateFile ∨
      (sys.save fails).stateFile = sys.stateFile ∧
        (sys'.save fails).stateFile = sys'.stateFile := by
  obtain ⟨hinst, -, hsave⟩ := h.frame
  rw [Sys.save_file, Sys.save_file, ← hinst]
  split_ifs
  · rw [hsave]
    rcases saveState_cases fails sys'.wrkr with hkept | ⟨text, htext⟩
    · rw [hkept, hkept]
      exact .inr ⟨rfl, rfl⟩
    · rw [htext, htext]
      exact .inl rfl
  · exact .inr ⟨rfl, rfl⟩

theorem Behind.after (h : Behind setup before lost sys sys')
    {call call' : SignCall ossl} {stateFile stateFile' : Option Bytes}
    (hsd : call.sd = call'.sd)
    (hbeside : Beside setup call.wrkr stateFile call'.wrkr stateFile')
    (payload : Bytes) :
    Behind setup before lost (sys.after call stateFile payload)
      (sys'.after call' stateFile' payload) := by
  refine ⟨hbeside, ?_, h.lost⟩
  unfold Sys.after
  dsimp only
  rw [h.emitted, hsd, List.append_assoc]

theorem Behind.step (h : Behind setup before lost sys sys') {op : Op}
    (hkeeps : op.Uses (SameKey setup)) :
    Behind setup before lost (sys.step op) (sys'.step op) := by
  cases op with
  | processMsg faults payload bufLen =>
      obtain ⟨hsd, hbeside⟩ := h.beside.processMsg faults payload bufLen
      exact h.after hsd hbeside payload
  | finalSign faults bufLen =>
      obtain ⟨hsd, hbeside⟩ := h.beside.finalSign faults bufLen
      exact h.after hsd hbeside []
  | action faults msg =>
      obtain ⟨hemission, hbeside⟩ := h.beside.action faults msg
      refine ⟨hbeside, ?_, h.lost⟩
      simp only [Sys.step, Sys.afterAction]
      rw [h.emitted, hemission, List.append_assoc]
  | stop saveFails loadFails inst =>
      obtain ⟨hemitted, hlost⟩ := sys.save_emitted saveFails
      obtain ⟨hemitted', hlost'⟩ := sys'.save_emitted saveFails
      refine ⟨?_, ?_, ?_⟩
      · simp only [Sys.step, Sys.restart]
        rcases h.beside.save saveFails with hsaved | ⟨hkept, hkept'⟩
        · rw [hsaved]
          exact .same
        · rw [hkept, hkept']
          exact h.beside.restart hkeeps loadFails
      · simp only [Sys.step, Sys.restart]
        rw [hemitted, hemitted', h.emitted]
      · simp only [Sys.step, Sys.restart]
        rw [hlost, hlost', h.lost]
  | crash loadFails inst =>
      refine ⟨h.beside.restart hkeeps loadFails, h.emitted, ?_⟩
      simp only [Sys.step]
      rw [h.lost, h.beside.frame.2.1, Bool.or_assoc]

theorem Behind.run (h : Behind setup before lost sys sys') {ops : List Op}
    (hops : ∀ op ∈ ops, op.Uses (SameKey setup)) :
    Behind setup before lost (sys.run ops) (sys'.run ops) := by
  induction ops generalizing sys sys' with
  | nil => exact h
  | cons op ops ih =>
      apply ih (h.step (hops op List.mem_cons_self))
      exact fun op hop => hops op (List.mem_cons_of_mem _ hop)

end Run

theorem behind_restart {setup : Setup ossl} {inst : Instance}
    (hsame : SameKey setup inst) {sys : Sys ossl}
    (hforeign : ForeignFile setup sys.stateFile) (loadFails : Bool) :
    Behind setup sys.emitted sys.lostTail (sys.restart loadFails inst)
      (Sys.start ossl inst) := by
  have hstart : newWorker ossl loadFails inst none =
      (Sys.start ossl inst).wrkr := by
    unfold newWorker Sys.start
    dsimp only
    split_ifs
    · rfl
    · rfl
  refine ⟨?_, ?_, ?_⟩
  · rw [← hstart]
    exact beside_newWorker hforeign hsame loadFails
  · exact (List.append_nil _).symm
  · exact (Bool.or_false _).symm

/--
A worker that comes up beside the state of another key emits what it would have
emitted without the file, after what was there before.
-/
theorem foreign_state_forgotten (setup : Setup ossl) (inst : Instance)
    (hsame : SameKey setup inst) (sys : Sys ossl)
    (hforeign : ForeignFile setup sys.stateFile) (loadFails : Bool)
    (ops : List Op) (hops : ∀ op ∈ ops, op.Uses (SameKey setup)) :
    let later := (sys.restart loadFails inst).run ops
    let fresh := (Sys.start ossl inst).run ops
    later.emitted = sys.emitted ++ fresh.emitted ∧
      later.lostTail = (sys.lostTail || fresh.lostTail) ∧
      forget later.wrkr = forget fresh.wrkr := by
  intro later fresh
  have hbehind := (behind_restart hsame hforeign loadFails).run hops
  exact ⟨hbehind.emitted, hbehind.lost, hbehind.beside.forget_eq⟩

def renewedInstance : Instance :=
  { sampleInstance with privkeyPath := [8] }

def renewedSetup : Setup sampleOpenSSL where
  privkeyPath := [8]
  pubkeyPath := [8]
  alg := .sha256
  privkey := ([8] : Bytes)
  pubkey := ([8] : Bytes)
  fp := sampleDigest .sha256 [8]
  loadPrivate := rfl
  loadPublic := rfl
  privateFp := rfl
  publicFp := rfl
  verifies := sampleSetup.verifies

def unfinishedOps : List Op :=
  [.processMsg {} [1] 512, .processMsg {} [2] 512, .processMsg {} [3] 512]

theorem foreign_state_forgotten_sample :
    let sys := ((Sys.start sampleOpenSSL sampleInstance).run
      unfinishedOps).save false
    let later := (sys.restart false renewedInstance).run unfinishedOps
    let fresh := (Sys.start sampleOpenSSL renewedInstance).run unfinishedOps
    later.emitted = sys.emitted ++ fresh.emitted ∧
      later.lostTail = (sys.lostTail || fresh.lostTail) ∧
      forget later.wrkr = forget fresh.wrkr := by
  exact foreign_state_forgotten renewedSetup renewedInstance ⟨rfl, rfl⟩ _
    (by unfold ForeignFile ForeignState; decide +kernel) false unfinishedOps
    (by
      simp only [unfinishedOps, List.forall_mem_cons]
      exact ⟨trivial, trivial, trivial, by simp⟩)

/-! ## A log with two keys -/

section Change

variable {setup setup' : Setup ossl} {strict : Bool} {sys : Sys ossl}
  {ctx : VerifierCtx ossl}

theorem Phase.keyed {lost : Bool} {wrkr : Worker ossl}
    {stateFile : Option Bytes}
    (h : Phase setup strict lost wrkr stateFile ctx) :
    Keyed setup strict ctx := by
  cases h with
  | idle _ _ _ hkeyed => exact hkeyed
  | saved _ _ _ _ _ hstep => exact hstep.keyed
  | «open» _ _ _ _ _ _ hstep => exact hstep.keyed

theorem foreignFile_none : ForeignFile setup none := by
  intro state hstate
  cases hstate

theorem foreignFile_stateText (hother : setup.fp ≠ setup'.fp)
    (chain : HashchainCtx) (sigSeqFrom : UInt64) :
    ForeignFile setup' (some (stateText chain sigSeqFrom setup.fp)) := by
  intro state hstate
  rw [loadState_stateText _ _ setup.fp_length] at hstate
  cases hstate
  exact .inl hother

theorem InPhase.foreign (h : InPhase setup strict sys ctx)
    (hother : setup.fp ≠ setup'.fp) (saveFails : Bool) :
    ForeignFile setup' sys.stateFile ∧
      ForeignFile setup' (sys.save saveFails).stateFile := by
  cases h.phase with
  | idle hfresh _ hfile =>
      rw [save_of_signed hfresh.signed, hfile]
      exact ⟨foreignFile_none, foreignFile_none⟩
  | saved hfresh _ hfile =>
      have hforeign := foreignFile_stateText hother
      rw [save_of_signed hfresh.signed, hfile]
      exact ⟨hforeign _ _, hforeign _ _⟩
  | @«open» signer hsigner hloaded _ _ hfile =>
      obtain ⟨-, hfp⟩ := h.inst.sameKey.loaded hloaded
      rcases save_cases sys saveFails with hkept | ⟨signer', hsome, hsaved⟩
      · rw [hkept, hfile]
        exact ⟨foreignFile_none, foreignFile_none⟩
      · rw [hsigner] at hsome
        cases hsome
        rw [hsaved, hfile, Sys.saved, hfp]
        exact ⟨foreignFile_none, foreignFile_stateText hother _ _⟩

def Op.ChangesTo (inst : Instance) : Op → Prop
  | .stop _ _ next => next = inst
  | .crash _ next => next = inst
  | _ => False

theorem InPhase.behind_change (h : InPhase setup strict sys ctx)
    (hother : setup.fp ≠ setup'.fp) {inst : Instance}
    (hsame : SameKey setup' inst) {change : Op}
    (hchange : change.ChangesTo inst) :
    Behind setup' sys.emitted (sys.step change).lostTail (sys.step change)
      (Sys.start ossl inst) := by
  cases change with
  | stop saveFails loadFails next =>
      cases hchange
      have hbehind := behind_restart hsame (h.foreign hother saveFails).2
        loadFails
      rw [(sys.save_emitted saveFails).1] at hbehind
      exact hbehind
  | crash loadFails next =>
      cases hchange
      have hbehind := behind_restart hsame (h.foreign hother false).1 loadFails
      exact ⟨hbehind.beside, hbehind.emitted, (Bool.or_false _).symm⟩
  | processMsg => cases hchange
  | finalSign => cases hchange
  | action => cases hchange

theorem Op.Orderly.usesKey {op : Op} (h : op.Orderly setup) :
    op.Uses (SameKey setup) := by
  cases op with
  | stop => exact h.2.2.sameKey
  | crash => exact h.2.sameKey
  | processMsg => exact trivial
  | finalSign => exact trivial
  | action => exact trivial

theorem mixed_log {next : Sys ossl} (hother : setup.fp ≠ setup'.fp)
    (hfollows : ∀ strict, Follows setup strict sys)
    (hfollows' : ∀ strict, Follows setup' strict next)
    {before after : List VerifyCall}
    (hbefore : List.Forall₂ (StripsBack ossl) before sys.emitted)
    (hafter : List.Forall₂ (StripsBack ossl) after next.emitted)
    (hne : sys.emitted ≠ []) (hne' : next.emitted ≠ []) (strict : Bool) :
    let code := fun (setup : Setup ossl) =>
      exitCode (verifierFinalize (feed
        (keyedCtx strict setup.pubkey setup.fp) (before ++ after)))
    code setup' = 3 ∧ code setup ≠ 0 ∧
      (strict = false ∨ sys.lostTail = false → code setup = 3) := by
  intro code
  constructor
  · obtain ⟨call, calls, hlines, hfaults, hclean⟩ :=
      (hfollows false).head hbefore hne
    simp only [code, hlines]
    exact exitCode_other_key hfaults hother.symm hclean
  · obtain ⟨call, calls, hlines, hfaults, hclean⟩ :=
      (hfollows' false).head hafter hne'
    have hphase := (hfollows strict before hbefore).phase
    have hkeyed := hphase.keyed
    have hmismatch := processCall_other_key hkeyed.live hkeyed.store
      hkeyed.havePubkey (by rw [hkeyed.fp_eq]; exact hother) hfaults hclean
    obtain ⟨hzero, hthree⟩ := @exitCode_of_mismatch _ calls _ _ hmismatch
    simp only [code, hlines, feed_append]
    exact ⟨hzero, fun h => hthree (hphase.errors h)⟩

end Change

/--
The key is changed between two processes.  The log is then the one of the first
key followed by the one of the second key, and each part is judged by its own
key as if the other one were not there.  With both parts in it, the log passes
with neither key.
-/
theorem key_change (setup setup' : Setup ossl) (hother : setup.fp ≠ setup'.fp)
    (inst inst' : Instance) (hinst : SameInstance setup inst)
    (hinst' : SameInstance setup' inst') (ops ops' : List Op)
    (hops : ∀ op ∈ ops, op.Orderly setup)
    (hops' : ∀ op ∈ ops', op.Orderly setup') (change : Op)
    (hchange : change.ChangesTo inst')
    (hstorable : ∀ e ∈ ((Sys.start ossl inst).run ops).emitted, Storable e)
    (hstorable' : ∀ e ∈ ((Sys.start ossl inst').run ops').emitted, Storable e)
    (strict : Bool) :
    let first := (Sys.start ossl inst).run ops
    let next := (Sys.start ossl inst').run ops'
    let all := ((first.step change).run ops').emitted
    let code := fun (setup : Setup ossl) emissions =>
      verifierMain ossl false (setup.opts strict) (fun _ => {})
        (some (storedLog emissions))
    all = first.emitted ++ next.emitted ∧
    (code setup first.emitted = 0 ↔ first.emitted ≠ [] ∧ (strict = true →
      openTail first.wrkr + savedTail first.wrkr = 0 ∧
        first.lostTail = false)) ∧
    (code setup' next.emitted = 0 ↔ next.emitted ≠ [] ∧ (strict = true →
      openTail next.wrkr + savedTail next.wrkr = 0 ∧
        next.lostTail = false)) ∧
    (first.emitted ≠ [] → next.emitted ≠ [] → code setup' all = 3 ∧
      code setup all ≠ 0 ∧
      (strict = false ∨ first.lostTail = false → code setup all = 3)) := by
  intro first next all code
  have hwritten := @Sys.written ossl inst ops
  have hwritten' := @Sys.written ossl inst' ops'
  have hfollows : ∀ strict, Follows setup strict first :=
    fun strict => follows_run hinst hops
  have hfollows' : ∀ strict, Follows setup' strict next :=
    fun strict => follows_run hinst' hops'
  have hall : all = first.emitted ++ next.emitted := by
    have hphase := hfollows strict _
      (storedLog_stripsBack hwritten hstorable)
    have hbehind := hphase.behind_change hother hinst'.sameKey hchange
    exact (hbehind.run fun op hop => (hops' op hop).usesKey).emitted
  refine ⟨hall, (Follows.verdict hfollows hwritten hstorable strict).1,
    (Follows.verdict hfollows' hwritten' hstorable' strict).1, ?_⟩
  intro hfirst hnext
  have hcalls := storedLog_stripsBack
    (List.forall_mem_append.mpr ⟨hwritten, hwritten'⟩)
    (List.forall_mem_append.mpr ⟨hstorable, hstorable'⟩)
  have hcode : ∀ setup : Setup ossl, code setup all =
      exitCode (verifierFinalize (feed
        (keyedCtx strict setup.pubkey setup.fp) (fileCalls (fun _ => {})
          (storedLog (first.emitted ++ next.emitted))))) := by
    intro setup
    rw [← hall]
    exact verifierMain_setup setup strict _
  rw [hcode, hcode]
  obtain ⟨before, after, hlines, hbefore, hafter⟩ := forall₂_append_inv hcalls
  rw [hlines]
  exact mixed_log hother hfollows hfollows' hbefore hafter hfirst hnext strict

theorem key_change_sample :
    let first := (Sys.start sampleOpenSSL sampleInstance).run unfinishedOps
    let next := (Sys.start sampleOpenSSL renewedInstance).run unfinishedOps
    let all := ((first.step (.stop false false renewedInstance)).run
      unfinishedOps).emitted
    let code := fun (setup : Setup sampleOpenSSL) emissions =>
      verifierMain sampleOpenSSL false (setup.opts true) (fun _ => {})
        (some (storedLog emissions))
    all = first.emitted ++ next.emitted ∧
    (code sampleSetup first.emitted = 0 ↔ first.emitted ≠ [] ∧
      (true = true → openTail first.wrkr + savedTail first.wrkr = 0 ∧
        first.lostTail = false)) ∧
    (code renewedSetup next.emitted = 0 ↔ next.emitted ≠ [] ∧
      (true = true → openTail next.wrkr + savedTail next.wrkr = 0 ∧
        next.lostTail = false)) ∧
    (first.emitted ≠ [] → next.emitted ≠ [] → code renewedSetup all = 3 ∧
      code sampleSetup all ≠ 0 ∧
      (true = false ∨ first.lostTail = false →
        code sampleSetup all = 3)) := by
  have hs : Succeeds {} 512 := ⟨rfl, rfl, rfl, rfl, rfl, rfl, by decide⟩
  have horderly : ∀ setup : Setup sampleOpenSSL,
      ∀ op ∈ unfinishedOps, op.Orderly setup := by
    intro setup
    simp only [unfinishedOps, List.forall_mem_cons]
    exact ⟨hs, hs, hs, by simp⟩
  exact key_change sampleSetup renewedSetup (by decide +kernel) sampleInstance
    renewedInstance ⟨rfl, rfl, rfl⟩ ⟨rfl, rfl, rfl⟩ unfinishedOps unfinishedOps
    (horderly _) (horderly _) (.stop false false renewedInstance) rfl
    (by decide +kernel) (by decide +kernel) true

end MmHashChainSigs.System
