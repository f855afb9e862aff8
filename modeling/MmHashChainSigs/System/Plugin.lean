import MmHashChainSigs.Module.StateDir
import MmHashChainSigs.System.Life

/-!
# The plug-in

What rsyslog calls: the configuration of an action, its worker instances and
their number, and a process that can end at any moment.  The life of the signer
is what is left when the workers that were turned away are forgotten.
-/

namespace MmHashChainSigs.System

open MmHashChainSigs.Foundation
open MmHashChainSigs.Common
open MmHashChainSigs.Module

variable {ossl : OpenSSL}

/-! ## Configuration -/

structure ActionParams where
  privatekey : Bytes
  certificate : Option Bytes := none
  embedcert : Option Bool := none
  hashalgo : Option Bytes := none
  template : Option Bytes := none
  signinterval : Option Nat := none
  statefiledir : Option Bytes := none
  deriving DecidableEq, Repr

inductive CnfRet where
  | missingCnfparams
  | configError
  deriving DecidableEq, Repr

/--
`instanceData`.  The directory is there whenever `inst.statefiledir` says so.
-/
structure InstanceData where
  inst : Instance
  tplName : Option Bytes := none
  statefiledir : Bytes := []
  wrkrCount : UInt32 := 0
  deriving DecidableEq, Repr

/-- `newActInst`: the parameters that are used, in the order of the table. -/
def newActInst : Option ActionParams → Except CnfRet InstanceData
  | none => .error .missingCnfparams
  | some params =>
      let inst : Instance :=
        { privkeyPath := params.privatekey
          certPath := params.certificate
          embedcert := params.embedcert.getD false }
      match params.hashalgo.map hcsHashFromName with
      | some none => .error .configError
      | alg =>
          .ok
            { inst :=
                { inst with
                  hashAlg := alg.join.getD inst.hashAlg
                  signInterval :=
                    (params.signinterval.map UInt32.ofNat).getD
                      inst.signInterval
                  statefiledir := params.statefiledir.isSome }
              tplName := params.template
              statefiledir := params.statefiledir.getD [] }

/-! ## Workers -/

/--
A worker instance that is not freed: the worker, or `none` where
`createWrkrInstance` has turned it away and left it all zero.
-/
abbrev WrkrInstance (ossl : OpenSSL) := Option (Worker ossl)

def createWrkrInstance (ossl : OpenSSL) (loadFails : Bool)
    (data : InstanceData) (files : Files Bytes Bytes) :
    InstanceData × WrkrInstance ossl :=
  let data := { data with wrkrCount := data.wrkrCount + 1 }
  if 1 < data.wrkrCount then (data, none)
  else
    (data, some (newWorker ossl loadFails data.inst
      (files (statePath data.statefiledir))))

def freeEffects (faults : SaveFaults) (data : InstanceData)
    (wrkr : WrkrInstance ossl) : Int × List DirEffect :=
  match wrkr with
  | none => (0, [])
  | some wrkr =>
      if data.inst.statefiledir then
        saveStateEffects faults wrkr data.statefiledir
      else (0, [])

def released (data : InstanceData) : InstanceData :=
  if 0 < data.wrkrCount then { data with wrkrCount := data.wrkrCount - 1 }
  else data

/-! ## Calls -/

/--
One action of the configuration.  `lostTail` tells that unsigned messages went
with a worker whose chain was not saved.
-/
structure Plugin (ossl : OpenSSL) where
  data : InstanceData
  workers : List (WrkrInstance ossl) := []
  emitted : List Emission := []
  lostTail : Bool := false

/--
Worker `i` is the one at that place among those that are not freed; rsyslog does
not call `doAction` for one that was turned away.  With `start` the process ends
and a new one begins; with `cut` it ends inside of `freeWrkrInstance`, behind
the first `n` file operations.
-/
inductive PluginOp where
  | create (loadFails : Bool)
  | action (i : Nat) (faults : ActionFaults) (msg : SyslogMsg)
  | free (i : Nat) (faults : SaveFaults)
  | start (inst : Instance)
  | cut (i : Nat) (faults : SaveFaults) (n : Nat) (inst : Instance)

def dropsTail (wrkr : WrkrInstance ossl) : Bool :=
  wrkr.any fun wrkr => openTail wrkr ≠ 0

/-- The state directory is the same in the next process. -/
def Plugin.start (plugin : Plugin ossl) (inst : Instance) : Plugin ossl :=
  { plugin with
    data := { plugin.data with inst := inst, wrkrCount := 0 }
    workers := []
    lostTail := plugin.lostTail || plugin.workers.any dropsTail }

def Plugin.free (plugin : Plugin ossl) (i : Nat) (wrkr : WrkrInstance ossl)
    (rc : Int) : Plugin ossl :=
  { plugin with
    data := released plugin.data
    workers := plugin.workers.eraseIdx i
    lostTail := plugin.lostTail || (dropsTail wrkr && rc ≠ 1) }

def Plugin.action (plugin : Plugin ossl) (files : Files Bytes Bytes) (i : Nat)
    (wrkr : Worker ossl) (faults : ActionFaults) (msg : SyslogMsg) :
    Plugin ossl × Files Bytes Bytes :=
  let path := statePath plugin.data.statefiledir
  let call := doAction faults wrkr (files path) msg
  ({ plugin with
     workers := plugin.workers.set i (some call.wrkr)
     emitted := plugin.emitted ++ call.emission.toList },
    files.set path call.stateFile)

def Plugin.step (plugin : Plugin ossl) (files : Files Bytes Bytes) :
    PluginOp → Plugin ossl × Files Bytes Bytes
  | .create loadFails =>
      let (data, wrkr) := createWrkrInstance ossl loadFails plugin.data files
      ({ plugin with data := data, workers := plugin.workers ++ [wrkr] }, files)
  | .action i faults msg =>
      match plugin.workers[i]? with
      | some (some wrkr) => plugin.action files i wrkr faults msg
      | _ => (plugin, files)
  | .free i faults =>
      match plugin.workers[i]? with
      | none => (plugin, files)
      | some wrkr =>
          let (rc, effects) := freeEffects faults plugin.data wrkr
          (plugin.free i wrkr rc, files.after effects)
  | .start inst => (plugin.start inst, files)
  | .cut i faults n inst =>
      match plugin.workers[i]? with
      | none => (plugin.start inst, files)
      | some wrkr =>
          let (rc, effects) := freeEffects faults plugin.data wrkr
          if effects.length ≤ n then
            ((plugin.free i wrkr rc).start inst, files.after effects)
          else (plugin.start inst, files.after (effects.take n))

abbrev Plugin.run (state : Plugin ossl × Files Bytes Bytes)
    (ops : List PluginOp) : Plugin ossl × Files Bytes Bytes :=
  runPart Plugin.step state ops

/-! ## The configuration of a worker stays -/

theorem appendCert_inst (faults : SignFaults) (wrkr : Worker ossl)
    (signer : SignerCtx ossl) (sd : Bytes) (bufLen : Nat) :
    (appendCert faults wrkr signer sd bufLen).1.inst = wrkr.inst := by
  unfold appendCert
  split_ifs
  · split
    · rfl
    · rfl
  · rfl

theorem processEntry_inst (faults : SignFaults) (wrkr : Worker ossl)
    (signer : SignerCtx ossl) (payload : Bytes) (bufLen : Nat) :
    (processEntry faults wrkr signer payload bufLen).wrkr.inst =
      wrkr.inst := by
  unfold processEntry
  split
  · rfl
  · dsimp only
    split_ifs
    · split
      · rfl
      · exact appendCert_inst _ _ _ _ _
    · split
      · rfl
      · rfl
    · rfl

theorem readyWorker_inst (faults : SignFaults) (wrkr : Worker ossl) :
    (readyWorker faults wrkr).1.inst = wrkr.inst := by
  unfold readyWorker
  split_ifs with hsome
  · rfl
  · rw [Option.not_isSome_iff_eq_none] at hsome
    rcases mmhashchainsigsInit_cases hsome faults with
      ⟨-, hinst, -⟩ | ⟨signer, -, hinit⟩
    · exact hinst
    · rw [hinit]
      rfl

theorem processMsg_inst (faults : SignFaults) (wrkr : Worker ossl)
    (stateFile : Option Bytes) (payload : Bytes) (bufLen : Nat) :
    (mmhashchainsigsProcessMsg faults wrkr stateFile payload
      bufLen).1.wrkr.inst = wrkr.inst := by
  have hready := readyWorker_inst faults wrkr
  cases hsigner : (readyWorker faults wrkr).1.signer with
  | none =>
      rw [processMsg_of_no_signer hsigner]
      exact hready
  | some signer =>
      cases hpending : (readyWorker faults wrkr).1.pendingState with
      | none =>
          rw [processMsg_of_open hsigner hpending]
          exact (processEntry_inst _ _ _ _ _).trans hready
      | some state =>
          have hfinal : (finalCall faults (readyWorker faults wrkr).1 signer
              state payload bufLen).wrkr.inst = wrkr.inst :=
            (processFinal_frame _ _ _ _ _ _).1.trans hready
          cases hret : (finalCall faults (readyWorker faults wrkr).1 signer
              state payload bufLen).ret with
          | ok sd =>
              rw [processMsg_of_final_ok hsigner hpending hret]
              exact hfinal
          | error e =>
              rw [processMsg_of_final_error hsigner hpending hret]
              exact (processEntry_inst _ _ _ _ _).trans hfinal

theorem doAction_inst (faults : ActionFaults) (wrkr : Worker ossl)
    (stateFile : Option Bytes) (msg : SyslogMsg) :
    (doAction faults wrkr stateFile msg).wrkr.inst = wrkr.inst := by
  unfold doAction
  split
  · rfl
  · dsimp only
    split_ifs
    · rfl
    · split
      · exact processMsg_inst _ _ _ _ _
      · exact processMsg_inst _ _ _ _ _
    · split
      · exact processMsg_inst _ _ _ _ _
      · exact processMsg_inst _ _ _ _ _

/-! ## One worker -/

def Plugin.active (plugin : Plugin ossl) : Option (Worker ossl) :=
  plugin.workers.head?.join

structure Plugin.Counted (plugin : Plugin ossl) : Prop where
  count : plugin.data.wrkrCount.toNat = plugin.workers.length
  turned : ∀ wrkr ∈ plugin.workers.tail, wrkr = none
  inst : ∀ wrkr ∈ plugin.active, wrkr.inst = plugin.data.inst

section Counted

variable {plugin : Plugin ossl}

theorem Plugin.Counted.first (h : plugin.Counted) {i : Nat}
    {wrkr : Worker ossl} (hi : plugin.workers[i]? = some (some wrkr)) :
    i = 0 ∧ ∃ rest, plugin.workers = some wrkr :: rest ∧
      ∀ other ∈ rest, other = none := by
  have hturned := h.turned
  cases hworkers : plugin.workers with
  | nil => simp [hworkers] at hi
  | cons head rest =>
      rw [hworkers] at hi hturned
      cases i with
      | zero =>
          rw [List.getElem?_cons_zero, Option.some.injEq] at hi
          rw [hi]
          exact ⟨rfl, rest, rfl, hturned⟩
      | succ i =>
          rw [List.getElem?_cons_succ] at hi
          cases hturned _ (List.mem_of_getElem? hi)

theorem Plugin.active_eq_some {wrkr : Worker ossl} {rest}
    (h : plugin.workers = some wrkr :: rest) : plugin.active = some wrkr := by
  rw [Plugin.active, h]
  rfl

theorem Plugin.Counted.accepts_iff (h : plugin.Counted)
    (hroom : plugin.workers.length + 1 < 2 ^ 32) :
    ¬ 1 < plugin.data.wrkrCount + 1 ↔ plugin.workers = [] := by
  have hcount := h.count
  rw [← List.length_eq_zero_iff, ← hcount, UInt32.lt_iff_toNat_lt,
    UInt32.toNat_add, hcount]
  rw [Nat.mod_eq_of_lt (by simpa using hroom)]
  simp

theorem Plugin.Counted.create (h : plugin.Counted)
    (hroom : plugin.workers.length + 1 < 2 ^ 32) (files : Files Bytes Bytes)
    (loadFails : Bool) :
    (plugin.step files (.create loadFails)).1.Counted := by
  have haccepts := h.accepts_iff hroom
  have hcount : (plugin.data.wrkrCount + 1).toNat =
      plugin.workers.length + 1 := by
    rw [UInt32.toNat_add, h.count]
    exact Nat.mod_eq_of_lt hroom
  by_cases hempty : plugin.workers = []
  · have hnot := haccepts.mpr hempty
    simp only [Plugin.step, createWrkrInstance, if_neg hnot]
    constructor
    · simp [hcount]
    · simp [hempty]
    · simp [Plugin.active, hempty, newWorker]
  · have hturned := not_imp_comm.mp haccepts.mp hempty
    simp only [Plugin.step, createWrkrInstance, if_pos hturned]
    obtain ⟨head, rest, hworkers⟩ := List.exists_cons_of_ne_nil hempty
    constructor
    · simp [hcount]
    · intro wrkr hwrkr
      simp only [hworkers, List.cons_append, List.tail_cons, List.mem_append,
        List.mem_singleton] at hwrkr
      rcases hwrkr with hwrkr | hwrkr
      · exact h.turned wrkr (by simpa [hworkers] using hwrkr)
      · exact hwrkr
    · intro wrkr hwrkr
      apply h.inst wrkr
      simpa [Plugin.active, hworkers] using hwrkr

theorem Plugin.Counted.free (h : plugin.Counted) {i : Nat}
    {wrkr : WrkrInstance ossl} (hi : plugin.workers[i]? = some wrkr)
    (rc : Int) : (plugin.free i wrkr rc).Counted := by
  have hlt : i < plugin.workers.length := by
    rw [List.getElem?_eq_some_iff] at hi
    exact hi.1
  have hcount := h.count
  have hpos : 0 < plugin.data.wrkrCount := by
    rw [UInt32.lt_iff_toNat_lt, hcount]
    exact Nat.zero_lt_of_lt hlt
  have hreleased : (released plugin.data).wrkrCount.toNat =
      plugin.workers.length - 1 := by
    have hle : (1 : UInt32) ≤ plugin.data.wrkrCount := by
      rw [UInt32.le_iff_toNat_le, hcount]
      exact Nat.one_le_of_lt hlt
    simp only [released, if_pos hpos]
    rw [UInt32.toNat_sub_of_le _ _ hle, hcount]
    rfl
  have hinst : (released plugin.data).inst = plugin.data.inst := by
    unfold released
    rw [if_pos hpos]
  have hturned := h.turned
  have hold := h.inst
  cases hworkers : plugin.workers with
  | nil => simp [hworkers] at hlt
  | cons head rest =>
      rw [hworkers] at hturned
      constructor
      · simp only [Plugin.free, hreleased,
          List.length_eraseIdx_of_lt hlt]
      · intro other hother
        simp only [Plugin.free, hworkers] at hother
        cases i with
        | zero => exact hturned other (List.mem_of_mem_tail hother)
        | succ i => exact hturned other (List.mem_of_mem_eraseIdx hother)
      · intro worker hworker
        simp only [Plugin.active, Plugin.free, hworkers] at hworker
        simp only [Plugin.free, hinst]
        cases i with
        | zero =>
            cases hrest : rest with
            | nil => simp [hrest] at hworker
            | cons next rest' =>
                have hnone := hturned next (by simp [hrest])
                simp [hrest, hnone] at hworker
        | succ i =>
            apply hold worker
            simpa [Plugin.active, hworkers] using hworker

theorem Plugin.Counted.action (h : plugin.Counted) {i : Nat}
    {wrkr : Worker ossl} (hi : plugin.workers[i]? = some (some wrkr))
    (files : Files Bytes Bytes) (faults : ActionFaults) (msg : SyslogMsg) :
    (plugin.action files i wrkr faults msg).1.Counted := by
  obtain ⟨rfl, rest, hworkers, hrest⟩ := h.first hi
  have hcount := h.count
  simp only [Plugin.action, hworkers, List.set_cons_zero]
  constructor
  · rw [hcount, hworkers]
    rfl
  · exact hrest
  · intro worker hworker
    cases hworker
    rw [doAction_inst]
    exact h.inst wrkr (Plugin.active_eq_some hworkers)

theorem Plugin.counted_start (plugin : Plugin ossl) (inst : Instance) :
    (plugin.start inst).Counted := by
  constructor
  · rfl
  · exact fun wrkr hwrkr => by cases hwrkr
  · exact fun wrkr hwrkr => by cases hwrkr

theorem Plugin.Counted.step (h : plugin.Counted)
    (hroom : plugin.workers.length + 1 < 2 ^ 32) (files : Files Bytes Bytes)
    (op : PluginOp) : (plugin.step files op).1.Counted := by
  cases op with
  | create loadFails => exact h.create hroom files loadFails
  | action i faults msg =>
      simp only [Plugin.step]
      split
      next wrkr hi => exact h.action hi files faults msg
      next => exact h
  | free i faults =>
      simp only [Plugin.step]
      split
      next => exact h
      next wrkr hi => exact h.free hi _
  | start inst => exact Plugin.counted_start plugin inst
  | cut i faults n inst =>
      simp only [Plugin.step]
      split
      · exact Plugin.counted_start _ _
      · split_ifs
        · exact Plugin.counted_start _ _
        · exact Plugin.counted_start _ _

theorem Plugin.step_length (plugin : Plugin ossl) (files : Files Bytes Bytes)
    (op : PluginOp) : (plugin.step files op).1.workers.length ≤
      plugin.workers.length + 1 := by
  cases op with
  | create loadFails => simp [Plugin.step]
  | action i faults msg =>
      simp only [Plugin.step]
      split
      · simp [Plugin.action]
      · exact Nat.le_succ _
  | free i faults =>
      simp only [Plugin.step]
      split
      · exact Nat.le_succ _
      · exact (List.length_eraseIdx_le _ _).trans (Nat.le_succ _)
  | start inst => exact Nat.zero_le _
  | cut i faults n inst =>
      simp only [Plugin.step]
      split
      · exact Nat.zero_le _
      · split_ifs
        · exact Nat.zero_le _
        · exact Nat.zero_le _

end Counted

end MmHashChainSigs.System
