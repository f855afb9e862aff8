import MmHashChainSigs.Module.Calls
import MmHashChainSigs.Module.State

/-!
# The life of a signer

Workers follow one another on one state file.  The system keeps what went out
and, beside the state of the code, the history of its chains: which payloads
the worker's chain and the saved chain hold, what was hashed, and what was
signed.
-/

namespace MmHashChainSigs.System

open MmHashChainSigs.Foundation
open MmHashChainSigs.Common
open MmHashChainSigs.Module

variable {ossl : OpenSSL}

/-! ## History -/

structure Signed where
  alg : HcsHashAlg
  digest : Bytes
  payloads : List Bytes
  deriving DecidableEq, Repr

/-- `payloads` belongs to the worker's chain, `saved` to the state file. -/
structure History where
  payloads : List Bytes := []
  saved : List Bytes := []
  signed : List Signed := []
  hashed : List (HcsHashAlg × Bytes) := []
  deriving DecidableEq, Repr

def History.record (history : History) : ChainStep → History
  | .init => { history with payloads := [] }
  | .restore => { history with payloads := history.saved }
  | .update alg input payload =>
      { history with payloads := history.payloads ++ [payload]
                     hashed := history.hashed ++ [(alg, input)] }
  | .sign alg digest =>
      { history with
        signed := history.signed ++ [⟨alg, digest, history.payloads⟩] }

def History.replay (history : History) (steps : List ChainStep) : History :=
  steps.foldl History.record history

/-! ## Operations -/

/-- `lostTail` tells that a crash took unsigned messages with it. -/
structure Sys (ossl : OpenSSL) where
  wrkr : Worker ossl
  stateFile : Option Bytes := none
  emitted : List Emission := []
  history : History := {}
  lostTail : Bool := false

inductive Op where
  | processMsg (faults : SignFaults) (payload : Bytes) (bufLen : Nat)
  | finalSign (faults : SignFaults) (bufLen : Nat)
  | action (faults : ActionFaults) (msg : SyslogMsg)
  | stop (saveFails loadFails : Bool) (inst : Instance)
  | crash (loadFails : Bool) (inst : Instance)

def newWorker (ossl : OpenSSL) (loadFails : Bool) (inst : Instance)
    (stateFile : Option Bytes) : Worker ossl where
  inst := inst
  pendingState :=
    if inst.statefiledir then mmhashchainsigsLoadState loadFails stateFile
    else none

/-- The messages of the worker's chain that no signature covers. -/
def openTail (wrkr : Worker ossl) : UInt64 :=
  if wrkr.signer.isSome then wrkr.chain.msgCount else 0

def Sys.after (sys : Sys ossl) (call : SignCall ossl)
    (stateFile : Option Bytes) (payload : Bytes) : Sys ossl :=
  { sys with
    wrkr := call.wrkr
    stateFile := stateFile
    emitted := sys.emitted ++
      match call.sd with
      | none => []
      | some sd => if sd = [] then [] else [⟨sd, payload, sd ++ payload⟩]
    history := sys.history.replay call.steps }

def Sys.afterAction (sys : Sys ossl) (call : ActionCall ossl) : Sys ossl :=
  { sys with
    wrkr := call.wrkr
    stateFile := call.stateFile
    emitted := sys.emitted ++ call.emission.toList
    history := sys.history.replay call.steps }

/-- `freeWrkrInstance`, up to the release of the worker. -/
def Sys.save (fails : Bool) (sys : Sys ossl) : Sys ossl :=
  if ¬ sys.wrkr.inst.statefiledir then sys
  else
    let (rc, stateFile) :=
      mmhashchainsigsSaveState fails sys.wrkr sys.stateFile
    { sys with
      stateFile := stateFile
      history :=
        if rc = 1 then { sys.history with saved := sys.history.payloads }
        else sys.history }

def Sys.restart (loadFails : Bool) (inst : Instance) (sys : Sys ossl) :
    Sys ossl :=
  { sys with wrkr := newWorker ossl loadFails inst sys.stateFile }

def Sys.step (sys : Sys ossl) : Op → Sys ossl
  | .processMsg faults payload bufLen =>
      let (call, stateFile) := mmhashchainsigsProcessMsg faults sys.wrkr
        sys.stateFile payload bufLen
      sys.after call stateFile payload
  | .finalSign faults bufLen =>
      sys.after (mmhashchainsigsFinalSign faults sys.wrkr bufLen)
        sys.stateFile []
  | .action faults msg =>
      sys.afterAction (doAction faults sys.wrkr sys.stateFile msg)
  | .stop saveFails loadFails inst =>
      (sys.save saveFails).restart loadFails inst
  | .crash loadFails inst =>
      { sys.restart loadFails inst with
        lostTail := sys.lostTail || openTail sys.wrkr ≠ 0 }

def Sys.start (ossl : OpenSSL) (inst : Instance) : Sys ossl where
  wrkr := { inst := inst }

def Sys.run (sys : Sys ossl) (ops : List Op) : Sys ossl := ops.foldl Sys.step sys

@[simp] theorem Sys.run_nil (sys : Sys ossl) : sys.run [] = sys := rfl

theorem Sys.run_concat (sys : Sys ossl) (ops : List Op) (op : Op) :
    sys.run (ops ++ [op]) = (sys.run ops).step op := by
  simp [Sys.run]

theorem Sys.run_induction {inv : Sys ossl → Prop} {sys : Sys ossl}
    {allowed : Op → Prop} (hstart : inv sys)
    (hstep : ∀ sys op, inv sys → allowed op → inv (sys.step op))
    {ops : List Op} (hops : ∀ op ∈ ops, allowed op) : inv (sys.run ops) := by
  induction ops using List.reverseRecOn with
  | nil => exact hstart
  | append_singleton ops op ih =>
      rw [Sys.run_concat]
      apply hstep
      · exact ih fun op hop => hops op (by simp [hop])
      · exact hops op (by simp)

/-! ## Saving -/

def Sys.saved (sys : Sys ossl) (signer : SignerCtx ossl) : Sys ossl :=
  { sys with
    stateFile := some (stateText sys.wrkr.chain sys.wrkr.sigSeqFrom
      signer.pubkeyFp)
    history := { sys.history with saved := sys.history.payloads } }

theorem save_of_unsigned {sys : Sys ossl} {signer : SignerCtx ossl}
    (hdir : sys.wrkr.inst.statefiledir = true)
    (hsigner : sys.wrkr.signer = some signer)
    (hcount : sys.wrkr.chain.msgCount ≠ 0) :
    sys.save false = sys.saved signer := by
  simp [Sys.save, mmhashchainsigsSaveState, hdir, hsigner, hcount, Sys.saved]

theorem save_of_signed {sys : Sys ossl}
    (h : sys.wrkr.signer = none ∨ sys.wrkr.chain.msgCount = 0)
    (fails : Bool) : sys.save fails = sys := by
  cases hsigner : sys.wrkr.signer with
  | none => simp [Sys.save, mmhashchainsigsSaveState, hsigner]
  | some signer =>
      have hcount := h.resolve_left (by simp [hsigner])
      simp [Sys.save, mmhashchainsigsSaveState, hsigner, hcount]

theorem save_cases (sys : Sys ossl) (fails : Bool) :
    sys.save fails = sys ∨
      ∃ signer, sys.wrkr.signer = some signer ∧
        sys.save fails = sys.saved signer := by
  by_cases hdir : sys.wrkr.inst.statefiledir = true
  · by_cases hsigned :
        sys.wrkr.signer = none ∨ sys.wrkr.chain.msgCount = 0
    · exact .inl (save_of_signed hsigned fails)
    · rw [not_or] at hsigned
      obtain ⟨signer, hsigner⟩ := Option.ne_none_iff_exists'.mp hsigned.1
      cases fails with
      | true =>
          left
          simp [Sys.save, mmhashchainsigsSaveState, hdir, hsigner, hsigned.2]
      | false =>
          exact .inr ⟨signer, hsigner, save_of_unsigned hdir hsigner hsigned.2⟩
  · left
    simp [Sys.save, hdir]

/-! ## Actions are calls of the core -/

def SameSigned (emission emission' : Emission) : Prop :=
  emission'.sd = emission.sd ∧ emission'.payload = emission.payload

def ActionEmits (faults : ActionFaults) (sys next : Sys ossl)
    (emitted : List Emission) : Prop :=
  (faults.newSd = true ∧ emitted = sys.emitted) ∨
    (faults.newSd = false ∧ List.Forall₂ SameSigned next.emitted emitted)

theorem sameSigned_concat (emitted : List Emission) (sd payload line line' : Bytes) :
    List.Forall₂ SameSigned (emitted ++ [⟨sd, payload, line⟩])
      (emitted ++ [⟨sd, payload, line'⟩]) :=
  List.rel_append (List.forall₂_same.mpr fun _ _ => ⟨rfl, rfl⟩)
    (.cons ⟨rfl, rfl⟩ .nil)

/-- An action does nothing, or it is one call whose line may get lost. -/
theorem action_cases (faults : ActionFaults) (sys : Sys ossl)
    (msg : SyslogMsg) :
    sys.step (.action faults msg) = sys ∨
    ∃ cleaned emitted, cleanedSd faults msg = .ok cleaned ∧
      let next := sys.step (.processMsg faults.core (cleaned ++ msg.msg)
        Common.Limits.hcsSdWithCertMaxLen)
      sys.step (.action faults msg) = { next with emitted := emitted } ∧
        ActionEmits faults sys next emitted := by
  simp only [Sys.step, doAction]
  cases hcleaned : cleanedSd faults msg with
  | error ret =>
      left
      simp [Sys.afterAction, History.replay]
  | ok cleaned =>
      cases hpayload : faults.payload with
      | true =>
          left
          simp [Sys.afterAction, History.replay]
      | false =>
          right
          simp only [Bool.false_eq_true, if_false]
          cases hsd : (mmhashchainsigsProcessMsg faults.core sys.wrkr
              sys.stateFile (cleaned ++ msg.msg)
              Common.Limits.hcsSdWithCertMaxLen).1.sd with
          | none =>
              refine ⟨cleaned, sys.emitted, rfl, ?_, ?_⟩
              · simp [Sys.after, Sys.afterAction]
              · cases hnew : faults.newSd with
                | true => exact .inl ⟨hnew, rfl⟩
                | false =>
                    refine .inr ⟨hnew, ?_⟩
                    simp only [Sys.after, hsd, List.append_nil]
                    exact List.forall₂_same.mpr fun _ _ => ⟨rfl, rfl⟩
          | some sd =>
              obtain ⟨_, _, _, _, _, -, helement⟩ := processMsg_some hsd
              cases hnew : faults.newSd with
              | true =>
                  refine ⟨cleaned, sys.emitted, rfl, ?_, .inl ⟨hnew, rfl⟩⟩
                  simp [Sys.after, Sys.afterAction]
              | false =>
                  refine ⟨cleaned, sys.emitted ++ [⟨sd, cleaned ++ msg.msg,
                    storedLine (cString (sd ++ cleaned)) msg⟩], rfl, ?_,
                    .inr ⟨hnew, ?_⟩⟩
                  · simp [Sys.after, Sys.afterAction]
                  · simp only [Sys.after, hsd, helement.ne_nil, if_false]
                    exact sameSigned_concat _ _ _ _ _

theorem SameSigned.forall {good : Emission → Prop}
    (hgood : ∀ emission emission', SameSigned emission emission' →
      good emission → good emission') {emitted emitted' : List Emission}
    (hsame : List.Forall₂ SameSigned emitted emitted')
    (h : ∀ emission ∈ emitted, good emission) :
    ∀ emission ∈ emitted', good emission := by
  induction hsame with
  | nil => exact h
  | cons hfirst _ ih =>
      rw [List.forall_mem_cons] at h ⊢
      exact ⟨hgood _ _ hfirst h.1, ih h.2⟩

end MmHashChainSigs.System
