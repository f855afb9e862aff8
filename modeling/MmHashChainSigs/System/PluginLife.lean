import MmHashChainSigs.System.Plugin
import MmHashChainSigs.System.Tamper

/-!
# The life of a plug-in

The workers that were accepted follow one another as the life of a signer has
it.  A process that ends inside of a save is one that crashed before it, or
one that stopped and crashed behind it.
-/

namespace MmHashChainSigs.System

open MmHashChainSigs.Foundation
open MmHashChainSigs.Common
open MmHashChainSigs.Module

variable {ossl : OpenSSL}

/-! ## The life that is left -/

/-- The end of an accepted worker, which is a stop only if it was saved. -/
def Plugin.coarseFree (plugin : Plugin ossl) (i : Nat) (faults : SaveFaults) :
    List Op :=
  match plugin.workers[i]? with
  | some (some wrkr) =>
      if (freeEffects faults plugin.data (some wrkr)).1 = 1 then
        [.stop false false plugin.data.inst]
      else [.crash false plugin.data.inst]
  | _ => []

def Plugin.coarse (plugin : Plugin ossl) : PluginOp → List Op
  | .create loadFails =>
      if plugin.workers = [] then [.crash loadFails plugin.data.inst] else []
  | .action i faults msg =>
      match plugin.workers[i]? with
      | some (some _) => [.action faults msg]
      | _ => []
  | .free i faults => plugin.coarseFree i faults
  | .start inst => [.crash false inst]
  | .cut i faults n inst =>
      match plugin.workers[i]? with
      | none => [.crash false inst]
      | some wrkr =>
          if (freeEffects faults plugin.data wrkr).2.length ≤ n then
            plugin.coarseFree i faults ++ [.crash false inst]
          else [.crash false inst]

def Plugin.coarseRun (state : Plugin ossl × Files Bytes Bytes) :
    List PluginOp → List Op
  | [] => []
  | op :: ops =>
      state.1.coarse op ++ Plugin.coarseRun (state.1.step state.2 op) ops

structure Matches (plugin : Plugin ossl) (files : Files Bytes Bytes)
    (sys : Sys ossl) : Prop where
  counted : plugin.Counted
  file : sys.stateFile = files (statePath plugin.data.statefiledir)
  emitted : sys.emitted = plugin.emitted
  lost : sys.lostTail = plugin.lostTail
  active : ∀ wrkr ∈ plugin.active, sys.wrkr = wrkr
  idle : plugin.active = none → sys.wrkr.signer = none

/-- Cut off anywhere, a save has not begun or is complete. -/
theorem freeEffects_cut {data : InstanceData}
    (hdir : data.statefiledir.length < 510) {sys : Sys ossl}
    (hinst : sys.wrkr.inst = data.inst) (files : Files Bytes Bytes)
    (faults : SaveFaults) (n : Nat) :
    let call := freeEffects faults data (some sys.wrkr)
    files.after (call.2.take n) (statePath data.statefiledir) =
      if call.1 = 1 ∧ call.2.length ≤ n then (sys.save false).stateFile
      else files (statePath data.statefiledir) := by
  intro call
  have hquiet : call = (0, []) →
      files.after (call.2.take n) (statePath data.statefiledir) =
        if call.1 = 1 ∧ call.2.length ≤ n then (sys.save false).stateFile
        else files (statePath data.statefiledir) := by
    intro hcall
    rw [hcall]
    simp
  cases hflag : data.inst.statefiledir with
  | false =>
      apply hquiet
      simp [call, freeEffects, hflag]
  | true =>
      have hcall : call = saveStateEffects faults sys.wrkr
          data.statefiledir := by
        simp [call, freeEffects, hflag]
      by_cases hsigned : sys.wrkr.signer = none ∨ sys.wrkr.chain.msgCount = 0
      · apply hquiet
        rw [hcall, saveStateEffects]
        cases hsigner : sys.wrkr.signer with
        | none => rfl
        | some signer =>
            have hcount := hsigned.resolve_left (by simp [hsigner])
            simp [hcount]
      · rw [not_or] at hsigned
        obtain ⟨signer, hsigner⟩ := Option.ne_none_iff_exists'.mp hsigned.1
        have hsave : call = saveEffects faults data.statefiledir
            (stateText sys.wrkr.chain sys.wrkr.sigSeqFrom
              signer.pubkeyFp) := by
          simp [hcall, saveStateEffects, hsigner, hsigned.2]
        have hsaved := save_of_unsigned (hinst ▸ hflag) hsigner hsigned.2
        rw [hsaved, hsave]
        exact saveEffects_cut hdir files n

theorem Sys.save_emitted (sys : Sys ossl) (fails : Bool) :
    (sys.save fails).emitted = sys.emitted ∧
      (sys.save fails).lostTail = sys.lostTail := by
  rcases save_cases sys fails with hsave | ⟨signer, -, hsave⟩
  · rw [hsave]
    exact ⟨rfl, rfl⟩
  · rw [hsave]
    exact ⟨rfl, rfl⟩

section Step

variable {plugin : Plugin ossl} {files : Files Bytes Bytes} {sys : Sys ossl}

theorem Plugin.Counted.active_cases (h : plugin.Counted) :
    (∃ wrkr rest, plugin.workers = some wrkr :: rest ∧
      (∀ other ∈ rest, other = none) ∧ plugin.active = some wrkr) ∨
    (plugin.active = none ∧ ∀ wrkr ∈ plugin.workers, wrkr = none) := by
  have hturned := h.turned
  cases hworkers : plugin.workers with
  | nil => exact .inr ⟨by simp [Plugin.active, hworkers], by simp⟩
  | cons head rest =>
      rw [hworkers] at hturned
      cases head with
      | none =>
          refine .inr ⟨by simp [Plugin.active, hworkers], ?_⟩
          intro wrkr hwrkr
          rcases List.mem_cons.mp hwrkr with rfl | hmem
          · rfl
          · exact hturned wrkr hmem
      | some wrkr =>
          exact .inl ⟨wrkr, rest, rfl, hturned, Plugin.active_eq_some hworkers⟩

theorem Matches.drops (h : Matches plugin files sys) :
    plugin.workers.any dropsTail = decide (openTail sys.wrkr ≠ 0) := by
  have hnone : ∀ rest : List (WrkrInstance ossl),
      (∀ wrkr ∈ rest, wrkr = none) → rest.any dropsTail = false := by
    intro rest hrest
    rw [List.any_eq_false]
    intro wrkr hwrkr
    rw [hrest wrkr hwrkr]
    exact Bool.false_ne_true
  rcases h.counted.active_cases with
    ⟨wrkr, rest, hworkers, hrest, hactive⟩ | ⟨hactive, hall⟩
  · rw [hworkers, List.any_cons, hnone rest hrest, Bool.or_false,
      h.active wrkr hactive]
    rfl
  · rw [hnone _ hall, openTail, h.idle hactive]
    rfl

theorem Matches.start (h : Matches plugin files sys) (inst : Instance) :
    Matches (plugin.start inst) files (sys.step (.crash false inst)) where
  counted := plugin.counted_start inst
  file := h.file
  emitted := h.emitted
  lost := by
    simp only [Plugin.start, Sys.step, Sys.restart, h.drops, h.lost]
  active := fun wrkr hwrkr => by cases hwrkr
  idle := fun _ => rfl

theorem Matches.create (h : Matches plugin files sys)
    (hroom : plugin.workers.length + 1 < 2 ^ 32) (loadFails : Bool) :
    Matches (plugin.step files (.create loadFails)).1 files
      (sys.run (plugin.coarse (.create loadFails))) := by
  have hcounted := h.counted.create hroom files loadFails
  have haccepts := h.counted.accepts_iff hroom
  by_cases hempty : plugin.workers = []
  · have hactive : plugin.active = none := by simp [Plugin.active, hempty]
    have htail : openTail sys.wrkr = 0 := by
      rw [openTail, h.idle hactive]
      rfl
    have hnot := haccepts.mpr hempty
    simp only [Plugin.coarse, if_pos hempty]
    simp only [Plugin.step, createWrkrInstance, if_neg hnot] at hcounted ⊢
    refine ⟨hcounted, h.file, h.emitted, ?_, ?_, ?_⟩
    · simp only [Sys.run, List.foldl_cons, List.foldl_nil, Sys.step, Sys.restart,
        htail]
      simpa using h.lost
    · intro wrkr hwrkr
      simp only [Plugin.active, hempty, List.nil_append, List.head?_cons,
        Option.join_some, Option.mem_def, Option.some.injEq] at hwrkr
      rw [← hwrkr, ← h.file]
      rfl
    · intro hidle
      simp [Plugin.active, hempty] at hidle
  · have hturned := not_imp_comm.mp haccepts.mp hempty
    obtain ⟨head, rest, hworkers⟩ := List.exists_cons_of_ne_nil hempty
    have hsame : (plugin.step files (.create loadFails)).1.active =
        plugin.active := by
      simp [Plugin.step, createWrkrInstance, if_pos hturned, Plugin.active,
        hworkers]
    simp only [Plugin.coarse, if_neg hempty, Sys.run_nil]
    refine ⟨hcounted, ?_, h.emitted, h.lost, ?_, ?_⟩
    · simpa [Plugin.step, createWrkrInstance, if_pos hturned] using h.file
    · rw [hsame]
      exact h.active
    · rw [hsame]
      exact h.idle

theorem Matches.action (h : Matches plugin files sys) {i : Nat}
    {wrkr : Worker ossl} (hi : plugin.workers[i]? = some (some wrkr))
    (faults : ActionFaults) (msg : SyslogMsg) :
    let next := plugin.action files i wrkr faults msg
    Matches next.1 next.2 (sys.step (.action faults msg)) := by
  intro next
  obtain ⟨rfl, rest, hworkers, -⟩ := h.counted.first hi
  have hwrkr := h.active wrkr (Plugin.active_eq_some hworkers)
  have hnext : next.1.workers = some (doAction faults wrkr
      (files (statePath plugin.data.statefiledir)) msg).wrkr :: rest := by
    simp [next, Plugin.action, hworkers]
  have hactive := Plugin.active_eq_some hnext
  simp only [Sys.step, hwrkr, h.file]
  refine ⟨h.counted.action hi files faults msg, ?_, ?_, h.lost, ?_, ?_⟩
  · simp [Sys.afterAction, next, Plugin.action]
  · simp only [Sys.afterAction, next, Plugin.action, h.emitted]
  · intro worker hworker
    rw [hactive] at hworker
    cases hworker
    rfl
  · intro hidle
    rw [hactive] at hidle
    cases hidle

theorem released_statefiledir (data : InstanceData) :
    (released data).statefiledir = data.statefiledir := by
  unfold released
  split_ifs <;> rfl

theorem Matches.freeAccepted (h : Matches plugin files sys)
    (hdir : plugin.data.statefiledir.length < 510) {i : Nat}
    {wrkr : Worker ossl} (hi : plugin.workers[i]? = some (some wrkr))
    (faults : SaveFaults) :
    let call := freeEffects faults plugin.data (some wrkr)
    Matches (plugin.free i (some wrkr) call.1) (files.after call.2)
      (sys.run (plugin.coarseFree i faults)) := by
  intro call
  have hcounted := h.counted.free hi call.1
  have hcoarse : plugin.coarseFree i faults =
      if call.1 = 1 then [.stop false false plugin.data.inst]
      else [.crash false plugin.data.inst] := by
    simp only [Plugin.coarseFree, hi, call]
  obtain ⟨rfl, rest, hworkers, hrest⟩ := h.counted.first hi
  have hactive := Plugin.active_eq_some hworkers
  have hwrkr := h.active wrkr hactive
  have hgone : (plugin.free 0 (some wrkr) call.1).active = none := by
    simp only [Plugin.active, Plugin.free, hworkers, List.eraseIdx_cons_zero]
    cases hnext : rest with
    | nil => rfl
    | cons next rest' =>
        rw [hrest next (by simp [hnext])]
        rfl
  have hcut := @freeEffects_cut ossl plugin.data hdir sys
    (by rw [hwrkr]; exact h.counted.inst wrkr hactive) files faults
    call.2.length
  rw [hwrkr] at hcut
  simp only [call, List.take_length, le_refl, and_true] at hcut
  have hidle : ∀ sys' : Sys ossl, sys'.wrkr.signer = none →
      sys'.stateFile = files.after call.2 (statePath plugin.data.statefiledir) →
      sys'.emitted = plugin.emitted →
      sys'.lostTail = (plugin.free 0 (some wrkr) call.1).lostTail →
      Matches (plugin.free 0 (some wrkr) call.1) (files.after call.2)
        sys' := by
    intro sys' hsigner hfile hemitted hlost
    refine ⟨hcounted, ?_, hemitted, hlost, ?_, fun _ => hsigner⟩
    · simp only [Plugin.free, released_statefiledir]
      exact hfile
    · rw [hgone]
      exact fun worker hworker => by cases hworker
  rw [hcoarse]
  by_cases hrc : call.1 = 1
  · obtain ⟨hemitted, hlost⟩ := sys.save_emitted false
    rw [if_pos hrc]
    apply hidle
    · rfl
    · rw [hcut, if_pos hrc]
      rfl
    · exact hemitted.trans h.emitted
    · simp only [Plugin.free, hrc, ne_eq, not_true_eq_false, decide_false,
        Bool.and_false, Bool.or_false]
      exact hlost.trans h.lost
  · rw [if_neg hrc]
    apply hidle
    · rfl
    · rw [hcut, if_neg hrc]
      exact h.file
    · exact h.emitted
    · simp only [Sys.run, List.foldl_cons, List.foldl_nil, Sys.step,
        Sys.restart, Plugin.free, hwrkr, h.lost, ne_eq, hrc,
        not_false_eq_true, decide_true, Bool.and_true]
      rfl

theorem Matches.freeRejected (h : Matches plugin files sys) {i : Nat}
    (hi : plugin.workers[i]? = some none) (rc : Int) :
    Matches (plugin.free i none rc) files sys := by
  have hcounted := h.counted.free hi rc
  have hsame : (plugin.free i none rc).active = plugin.active := by
    have hturned := h.counted.turned
    cases hworkers : plugin.workers with
    | nil => simp [hworkers] at hi
    | cons head rest =>
        rw [hworkers] at hi hturned
        cases i with
        | succ i => simp [Plugin.active, Plugin.free, hworkers]
        | zero =>
            rw [List.getElem?_cons_zero, Option.some.injEq] at hi
            cases hrest : rest with
            | nil => simp [Plugin.active, Plugin.free, hworkers, hrest, hi]
            | cons next rest' =>
                have hnone := hturned next (by simp [hrest])
                simp [Plugin.active, Plugin.free, hworkers, hrest, hi, hnone]
  refine ⟨hcounted, ?_, h.emitted, ?_, ?_, ?_⟩
  · simp only [Plugin.free, released_statefiledir]
    exact h.file
  · simp only [Plugin.free, dropsTail, Option.any_none, Bool.false_and,
      Bool.or_false]
    exact h.lost
  · rw [hsame]
    exact h.active
  · rw [hsame]
    exact h.idle

theorem Matches.free (h : Matches plugin files sys)
    (hdir : plugin.data.statefiledir.length < 510) {i : Nat}
    {wrkr : WrkrInstance ossl} (hi : plugin.workers[i]? = some wrkr)
    (faults : SaveFaults) :
    let call := freeEffects faults plugin.data wrkr
    Matches (plugin.free i wrkr call.1) (files.after call.2)
      (sys.run (plugin.coarseFree i faults)) := by
  cases wrkr with
  | none =>
      simp only [Plugin.coarseFree, hi, Sys.run_nil]
      exact h.freeRejected hi _
  | some wrkr => exact h.freeAccepted hdir hi faults

theorem Matches.cutFile (h : Matches plugin files sys)
    (hdir : plugin.data.statefiledir.length < 510) {i : Nat}
    {wrkr : WrkrInstance ossl} (hi : plugin.workers[i]? = some wrkr)
    (faults : SaveFaults) {n : Nat}
    (hcut : ¬ (freeEffects faults plugin.data wrkr).2.length ≤ n) :
    files.after ((freeEffects faults plugin.data wrkr).2.take n)
        (statePath plugin.data.statefiledir) =
      files (statePath plugin.data.statefiledir) := by
  cases wrkr with
  | none => exact absurd (Nat.zero_le n) hcut
  | some wrkr =>
      obtain ⟨rfl, rest, hworkers, -⟩ := h.counted.first hi
      have hactive := Plugin.active_eq_some hworkers
      have hwrkr := h.active wrkr hactive
      have hfile := @freeEffects_cut ossl plugin.data hdir sys
        (by rw [hwrkr]; exact h.counted.inst wrkr hactive) files faults n
      rw [hwrkr] at hfile
      rw [hfile, if_neg fun hall => hcut hall.2]

theorem Sys.run_append (sys : Sys ossl) (ops more : List Op) :
    sys.run (ops ++ more) = (sys.run ops).run more := List.foldl_append

theorem Matches.step (h : Matches plugin files sys)
    (hdir : plugin.data.statefiledir.length < 510)
    (hroom : plugin.workers.length + 1 < 2 ^ 32) (op : PluginOp) :
    let next := plugin.step files op
    Matches next.1 next.2 (sys.run (plugin.coarse op)) := by
  cases op with
  | create loadFails => exact h.create hroom loadFails
  | action i faults msg =>
      cases hi : plugin.workers[i]? with
      | none =>
          simp only [Plugin.step, Plugin.coarse, hi]
          exact h
      | some wrkr =>
          simp only [Plugin.step, Plugin.coarse, hi]
          cases wrkr with
          | none => exact h
          | some wrkr => exact h.action hi faults msg
  | free i faults =>
      cases hi : plugin.workers[i]? with
      | none =>
          simp only [Plugin.step, Plugin.coarse, Plugin.coarseFree, hi]
          exact h
      | some wrkr =>
          simp only [Plugin.step, Plugin.coarse, hi]
          exact h.free hdir hi faults
  | start inst => exact h.start inst
  | cut i faults n inst =>
      cases hi : plugin.workers[i]? with
      | none =>
          simp only [Plugin.step, Plugin.coarse, hi]
          exact h.start inst
      | some wrkr =>
          simp only [Plugin.step, Plugin.coarse, hi]
          split_ifs with hall
          · rw [Sys.run_append]
            exact (h.free hdir hi faults).start inst
          · have hfile := h.cutFile hdir hi faults hall
            have hstart := h.start inst
            exact ⟨hstart.counted, hstart.file.trans hfile.symm,
              hstart.emitted, hstart.lost, hstart.active, hstart.idle⟩

theorem Plugin.step_statefiledir (plugin : Plugin ossl)
    (files : Files Bytes Bytes) (op : PluginOp) :
    (plugin.step files op).1.data.statefiledir = plugin.data.statefiledir := by
  cases op with
  | create loadFails =>
      simp only [Plugin.step, createWrkrInstance]
      split_ifs <;> rfl
  | action i faults msg =>
      simp only [Plugin.step]
      split <;> rfl
  | free i faults =>
      simp only [Plugin.step]
      split
      · rfl
      · exact released_statefiledir _
  | start inst => rfl
  | cut i faults n inst =>
      simp only [Plugin.step]
      split
      · rfl
      · split_ifs
        · exact released_statefiledir _
        · rfl

theorem Matches.run (ops : List PluginOp) {plugin : Plugin ossl}
    {files : Files Bytes Bytes} {sys : Sys ossl}
    (h : Matches plugin files sys)
    (hdir : plugin.data.statefiledir.length < 510)
    (hroom : plugin.workers.length + ops.length < 2 ^ 32) :
    let final := Plugin.run (plugin, files) ops
    Matches final.1 final.2 (sys.run (Plugin.coarseRun (plugin, files) ops)) := by
  induction ops generalizing plugin files sys with
  | nil => exact h
  | cons op ops ih =>
      rw [List.length_cons] at hroom
      have hlength := plugin.step_length files op
      have hnext := h.step hdir (by omega) op
      have hrest := ih hnext (by rwa [Plugin.step_statefiledir]) (by omega)
      rw [Plugin.coarseRun, Sys.run_append]
      exact hrest

end Step

/-! ## Every run -/

def Plugin.fresh (ossl : OpenSSL) (data : InstanceData) : Plugin ossl where
  data := { data with wrkrCount := 0 }

def Sys.found (ossl : OpenSSL) (inst : Instance) (stateFile : Option Bytes) :
    Sys ossl :=
  { Sys.start ossl inst with stateFile := stateFile }

theorem matches_fresh (data : InstanceData) (files : Files Bytes Bytes) :
    Matches (Plugin.fresh ossl data) files
      (Sys.found ossl data.inst (files (statePath data.statefiledir))) where
  counted := (Plugin.fresh ossl data).counted_start data.inst
  file := rfl
  emitted := rfl
  lost := rfl
  active := fun wrkr hwrkr => by cases hwrkr
  idle := fun _ => rfl

theorem Plugin.run_statefiledir (plugin : Plugin ossl)
    (files : Files Bytes Bytes) (ops : List PluginOp) :
    (Plugin.run (plugin, files) ops).1.data.statefiledir =
      plugin.data.statefiledir := by
  induction ops generalizing plugin files with
  | nil => rfl
  | cons op ops ih =>
      exact (ih _ _).trans (Plugin.step_statefiledir plugin files op)

theorem Plugin.run_concat (state : Plugin ossl × Files Bytes Bytes)
    (ops : List PluginOp) (op : PluginOp) :
    Plugin.run state (ops ++ [op]) =
      Plugin.step (Plugin.run state ops).1 (Plugin.run state ops).2 op := by
  simp [runPart]

theorem matches_run (ossl : OpenSSL) {data : InstanceData}
    (hdir : data.statefiledir.length < 510) (files : Files Bytes Bytes)
    {ops : List PluginOp} (hops : ops.length < 2 ^ 32) :
    let state := (Plugin.fresh ossl data, files)
    Matches (Plugin.run state ops).1 (Plugin.run state ops).2
      ((Sys.found ossl data.inst (files (statePath data.statefiledir))).run
        (Plugin.coarseRun state ops)) := by
  apply (matches_fresh data files).run ops hdir
  simpa [Plugin.fresh] using hops

/--
Workers in any order, failing files and processes that end at any moment are
the life of one signer: with the same lines, the same state file, and the
worker that is there.
-/
theorem plugin_refines (ossl : OpenSSL) (data : InstanceData)
    (hdir : data.statefiledir.length < 510) (files : Files Bytes Bytes)
    (ops : List PluginOp) (hops : ops.length < 2 ^ 32) :
    let state := (Plugin.fresh ossl data, files)
    let final := Plugin.run state ops
    let sys := (Sys.found ossl data.inst
      (files (statePath data.statefiledir))).run (Plugin.coarseRun state ops)
    sys.emitted = final.1.emitted ∧
    sys.stateFile = final.2 (statePath data.statefiledir) ∧
    sys.lostTail = final.1.lostTail ∧
    ∀ wrkr, some wrkr ∈ final.1.workers → sys.wrkr = wrkr := by
  intro state final sys
  have hmatches : Matches final.1 final.2 sys :=
    matches_run ossl hdir files hops
  refine ⟨hmatches.emitted, ?_, hmatches.lost, ?_⟩
  · rw [hmatches.file, Plugin.run_statefiledir]
    rfl
  · intro wrkr hwrkr
    obtain ⟨i, hi⟩ := List.getElem?_of_mem hwrkr
    obtain ⟨-, rest, hworkers, -⟩ := hmatches.counted.first hi
    exact hmatches.active wrkr (Plugin.active_eq_some hworkers)

def sampleData : InstanceData where
  inst := { privkeyPath := [7], statefiledir := true }
  statefiledir := [47]

def samplePluginMsg : SyslogMsg where
  pri := 13
  ts := none
  host := none
  app := none
  procid := none
  msgid := none
  sd := none
  msg := [97]

def noFiles : Files Bytes Bytes := fun _ => none

def samplePluginOps : List PluginOp :=
  [.create false, .create false, .action 0 {} samplePluginMsg, .free 0 {},
    .free 0 {}]

theorem plugin_refines_sample :
    let state := (Plugin.fresh sampleOpenSSL sampleData, noFiles)
    let final := Plugin.run state samplePluginOps
    let sys := (Sys.found sampleOpenSSL sampleData.inst
      (noFiles (statePath sampleData.statefiledir))).run
        (Plugin.coarseRun state samplePluginOps)
    sys.emitted = final.1.emitted ∧
    sys.stateFile = final.2 (statePath sampleData.statefiledir) ∧
    sys.lostTail = final.1.lostTail ∧
    ∀ wrkr, some wrkr ∈ final.1.workers → sys.wrkr = wrkr :=
  plugin_refines sampleOpenSSL sampleData (by decide) noFiles
    samplePluginOps (by decide)

/-! ## One worker at a time -/

theorem counted_run (ossl : OpenSSL) (data : InstanceData)
    (files : Files Bytes Bytes) {ops : List PluginOp}
    (hops : ops.length < 2 ^ 32) :
    let final := Plugin.run (Plugin.fresh ossl data, files) ops
    final.1.Counted ∧ final.1.workers.length ≤ ops.length := by
  induction ops using List.reverseRecOn with
  | nil => exact ⟨(Plugin.fresh ossl data).counted_start data.inst, Nat.le_refl _⟩
  | append_singleton ops op ih =>
      rw [List.length_append, List.length_singleton] at hops
      obtain ⟨hcounted, hlength⟩ := ih (by omega)
      rw [Plugin.run_concat]
      constructor
      · exact hcounted.step (by omega) _ op
      · rw [List.length_append, List.length_singleton]
        exact (Plugin.step_length _ _ op).trans (Nat.succ_le_succ hlength)

/--
Under any order of creating and freeing, at most one worker is accepted, the
count is right, and a worker is accepted exactly when no other instance, not
even one that was turned away, is left.
-/
theorem one_worker (ossl : OpenSSL) (data : InstanceData)
    (files : Files Bytes Bytes) (ops : List PluginOp)
    (hops : ops.length + 1 < 2 ^ 32) (loadFails : Bool) :
    let final := Plugin.run (Plugin.fresh ossl data, files) ops
    (final.1.workers.filter Option.isSome).length ≤ 1 ∧
    final.1.data.wrkrCount.toNat = final.1.workers.length ∧
    ((createWrkrInstance ossl loadFails final.1.data final.2).2.isSome ↔
      final.1.workers = []) := by
  intro final
  obtain ⟨hcounted, hlength⟩ := counted_run ossl data files
    (Nat.lt_of_succ_lt hops)
  have haccepts := hcounted.accepts_iff (Nat.lt_of_le_of_lt
    (Nat.succ_le_succ hlength) hops)
  refine ⟨?_, hcounted.count, ?_⟩
  · have hnone : ∀ rest : List (WrkrInstance ossl),
        (∀ wrkr ∈ rest, wrkr = none) → rest.filter Option.isSome = [] := by
      intro rest hrest
      rw [List.filter_eq_nil_iff]
      intro wrkr hwrkr
      simp [hrest wrkr hwrkr]
    rcases hcounted.active_cases with
      ⟨wrkr, rest, hworkers, hrest, -⟩ | ⟨-, hall⟩
    · rw [hworkers, List.filter_cons_of_pos rfl, hnone rest hrest]
      rfl
    · rw [hnone _ hall]
      exact Nat.zero_le _
  · rw [← haccepts]
    unfold createWrkrInstance
    dsimp only
    split_ifs with hmany
    · exact iff_of_false Bool.false_ne_true (not_not.mpr hmany)
    · exact iff_of_true rfl hmany

theorem one_worker_sample :
    let final := Plugin.run
      (Plugin.fresh sampleOpenSSL sampleData, noFiles) samplePluginOps
    (final.1.workers.filter Option.isSome).length ≤ 1 ∧
    final.1.data.wrkrCount.toNat = final.1.workers.length ∧
    ((createWrkrInstance sampleOpenSSL false final.1.data final.2).2.isSome ↔
      final.1.workers = []) :=
  one_worker sampleOpenSSL sampleData noFiles samplePluginOps
    (by simp [samplePluginOps]) false

/-! ## The state file is always whole -/

theorem processMsg_stateFile (faults : SignFaults) (wrkr : Worker ossl)
    (stateFile : Option Bytes) (payload : Bytes) (bufLen : Nat) :
    (mmhashchainsigsProcessMsg faults wrkr stateFile payload bufLen).2 =
        stateFile ∨
      (mmhashchainsigsProcessMsg faults wrkr stateFile payload bufLen).2 =
        none := by
  unfold mmhashchainsigsProcessMsg
  dsimp only
  split
  · exact .inl rfl
  · split
    · exact .inl rfl
    · split
      · exact (deleteState_cases _ _ _).symm
      · exact (deleteState_cases _ _ _).symm

theorem doAction_stateFile (faults : ActionFaults) (wrkr : Worker ossl)
    (stateFile : Option Bytes) (msg : SyslogMsg) :
    (doAction faults wrkr stateFile msg).stateFile = stateFile ∨
      (doAction faults wrkr stateFile msg).stateFile = none := by
  unfold doAction
  split
  · exact .inl rfl
  · dsimp only
    split_ifs
    · exact .inl rfl
    · split
      · exact processMsg_stateFile _ _ _ _ _
      · exact processMsg_stateFile _ _ _ _ _
    · split
      · exact processMsg_stateFile _ _ _ _ _
      · exact processMsg_stateFile _ _ _ _ _

def TailText (plugin : Plugin ossl) (text : Bytes) : Prop :=
  ∃ wrkr signer, plugin.active = some wrkr ∧ wrkr.signer = some signer ∧
    wrkr.chain.msgCount ≠ 0 ∧
    text = stateText wrkr.chain wrkr.sigSeqFrom signer.pubkeyFp

def PluginOp.Frees : PluginOp → Prop
  | .free _ _ => True
  | .cut _ _ _ _ => True
  | _ => False

section Step

variable {plugin : Plugin ossl} {files : Files Bytes Bytes} {sys : Sys ossl}

theorem Matches.freeFile (h : Matches plugin files sys)
    (hdir : plugin.data.statefiledir.length < 510) {i : Nat}
    {wrkr : WrkrInstance ossl} (hi : plugin.workers[i]? = some wrkr)
    (faults : SaveFaults) :
    let path := statePath plugin.data.statefiledir
    let after := files.after (freeEffects faults plugin.data wrkr).2
    after path = files path ∨
      ∃ text, after path = some text ∧ TailText plugin text := by
  intro path after
  cases wrkr with
  | none => exact .inl rfl
  | some wrkr =>
      obtain ⟨rfl, rest, hworkers, -⟩ := h.counted.first hi
      have hactive := Plugin.active_eq_some hworkers
      have hwrkr := h.active wrkr hactive
      have hcut := @freeEffects_cut ossl plugin.data hdir sys
        (by rw [hwrkr]; exact h.counted.inst wrkr hactive) files faults
        (freeEffects faults plugin.data (some wrkr)).2.length
      rw [hwrkr] at hcut
      simp only [List.take_length, le_refl, and_true] at hcut
      by_cases hrc : (freeEffects faults plugin.data (some wrkr)).1 = 1
      · rw [if_pos hrc] at hcut
        by_cases hcount : wrkr.chain.msgCount = 0
        · left
          rw [save_of_signed (.inr (hwrkr.symm ▸ hcount))] at hcut
          exact hcut.trans h.file
        · rcases save_cases sys false with hsave | ⟨signer, hsigner, hsave⟩
          · left
            rw [hsave] at hcut
            exact hcut.trans h.file
          · right
            rw [hsave] at hcut
            rw [hwrkr] at hsigner
            refine ⟨_, hcut, wrkr, signer, hactive, hsigner, hcount, ?_⟩
            rw [hwrkr]
      · rw [if_neg hrc] at hcut
        exact .inl hcut

theorem Matches.fileCases (h : Matches plugin files sys)
    (hdir : plugin.data.statefiledir.length < 510) (op : PluginOp) :
    let path := statePath plugin.data.statefiledir
    let after := (plugin.step files op).2
    after path = files path ∨ after path = none ∨
      op.Frees ∧ ∃ text, after path = some text ∧ TailText plugin text := by
  cases op with
  | create loadFails => exact .inl rfl
  | start inst => exact .inl rfl
  | action i faults msg =>
      cases hi : plugin.workers[i]? with
      | none =>
          simp only [Plugin.step, hi]
          exact .inl trivial
      | some wrkr =>
          cases wrkr with
          | none =>
              simp only [Plugin.step, hi]
              exact .inl trivial
          | some wrkr =>
              simp only [Plugin.step, hi, Plugin.action, Files.set_self]
              rcases doAction_stateFile faults wrkr
                (files (statePath plugin.data.statefiledir)) msg with
                hkept | hgone
              · exact .inl hkept
              · exact .inr (.inl hgone)
  | free i faults =>
      cases hi : plugin.workers[i]? with
      | none =>
          simp only [Plugin.step, hi]
          exact .inl trivial
      | some wrkr =>
          simp only [Plugin.step, hi]
          rcases h.freeFile hdir hi faults with hkept | hsaved
          · exact .inl hkept
          · exact .inr (.inr ⟨trivial, hsaved⟩)
  | cut i faults n inst =>
      cases hi : plugin.workers[i]? with
      | none =>
          simp only [Plugin.step, hi]
          exact .inl trivial
      | some wrkr =>
          simp only [Plugin.step, hi]
          split_ifs with hall
          · rcases h.freeFile hdir hi faults with hkept | hsaved
            · exact .inl hkept
            · exact .inr (.inr ⟨trivial, hsaved⟩)
          · exact .inl (h.cutFile hdir hi faults hall)

end Step

/--
Whenever a process ends, a state file that was not there at first is all of the
chain of a worker that was freed with unsigned messages, and the next worker
loads this chain.
-/
theorem state_file_whole (ossl : OpenSSL) (data : InstanceData)
    (hdir : data.statefiledir.length < 510) (files : Files Bytes Bytes)
    (ops : List PluginOp) (hops : ops.length < 2 ^ 32) (text : Bytes)
    (htext : (Plugin.run (Plugin.fresh ossl data, files) ops).2
      (statePath data.statefiledir) = some text) :
    files (statePath data.statefiledir) = some text ∨
    ∃ before op after wrkr signer, ops = before ++ op :: after ∧ op.Frees ∧
      (Plugin.run (Plugin.fresh ossl data, files) before).1.active =
        some wrkr ∧
      wrkr.signer = some signer ∧ openTail wrkr ≠ 0 ∧
      mmhashchainsigsLoadState false (some text) =
        some (savedState wrkr.chain wrkr.sigSeqFrom signer.pubkeyFp) := by
  induction ops using List.reverseRecOn with
  | nil => exact .inl htext
  | append_singleton ops op ih =>
      rw [List.length_append, List.length_singleton] at hops
      have hearlier := ih (by omega)
      have hmatches := matches_run ossl hdir files
        (show ops.length < 2 ^ 32 by omega)
      have hsame : (Plugin.run (Plugin.fresh ossl data, files)
          ops).1.data.statefiledir = data.statefiledir :=
        Plugin.run_statefiledir _ _ _
      have hcases := hmatches.fileCases (by rw [hsame]; exact hdir) op
      rw [Plugin.run_concat] at htext
      rw [hsame] at hcases
      rcases hcases with hkept | hgone | ⟨hfrees, text', hnext, htail⟩
      · rcases hearlier (hkept.symm.trans htext) with
          hfirst | ⟨before, other, after, wrkr, signer, hsplit, hrest⟩
        · exact .inl hfirst
        · refine .inr ⟨before, other, after ++ [op], wrkr, signer, ?_, hrest⟩
          rw [hsplit, List.append_assoc, List.cons_append]
      · rw [show _ = none from hgone] at htext
        cases htext
      · rw [show _ = some text' from hnext] at htext
        cases htext
        obtain ⟨wrkr, signer, hactive, hsigner, hcount, rfl⟩ := htail
        refine .inr ⟨ops, op, [], wrkr, signer, rfl, hfrees, hactive, hsigner,
          ?_, loadState_stateText _ _ signer.pubkeyFp_length⟩
        simpa [openTail, hsigner] using hcount

theorem state_file_whole_sample :
    ∃ text, (Plugin.run (Plugin.fresh sampleOpenSSL sampleData, noFiles)
        samplePluginOps).2 (statePath sampleData.statefiledir) = some text ∧
      (noFiles (statePath sampleData.statefiledir) = some text ∨
      ∃ before op after wrkr signer,
        samplePluginOps = before ++ op :: after ∧ op.Frees ∧
        (Plugin.run (Plugin.fresh sampleOpenSSL sampleData, noFiles)
          before).1.active = some wrkr ∧
        wrkr.signer = some signer ∧ openTail wrkr ≠ 0 ∧
        mmhashchainsigsLoadState false (some text) =
          some (savedState wrkr.chain wrkr.sigSeqFrom signer.pubkeyFp)) := by
  obtain ⟨text, htext⟩ := Option.isSome_iff_exists.mp
    (show ((Plugin.run (Plugin.fresh sampleOpenSSL sampleData, noFiles)
      samplePluginOps).2 (statePath sampleData.statefiledir)).isSome by
      decide +kernel)
  exact ⟨text, htext, state_file_whole sampleOpenSSL sampleData (by decide)
    noFiles samplePluginOps (by decide) text htext⟩

end MmHashChainSigs.System
