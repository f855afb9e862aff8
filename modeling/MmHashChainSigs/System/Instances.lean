import MmHashChainSigs.System.PluginLife

/-!
# Several actions

One rsyslog process runs several actions of the module, each with its own key
and state directory.  Their calls interleave in any way, and the process ends
for all of them at once.
-/

namespace MmHashChainSigs.System

open MmHashChainSigs.Foundation
open MmHashChainSigs.Common
open MmHashChainSigs.Module

variable {ossl : OpenSSL}

/-! ## One action among others -/

theorem freeEffects_names (faults : SaveFaults) (data : InstanceData)
    (wrkr : WrkrInstance ossl) :
    ∀ effect ∈ (freeEffects faults data wrkr).2,
      ∀ name ∈ effect.names, name ∈ ownPaths data.statefiledir := by
  unfold freeEffects
  split
  · exact fun effect heffect => by cases heffect
  · split_ifs
    · exact saveStateEffects_names _ _ _
    · exact fun effect heffect => by cases heffect

theorem after_freeEffects_frame {faults : SaveFaults} {data : InstanceData}
    {wrkr : WrkrInstance ossl} {effects : List DirEffect}
    (h : effects ⊆ (freeEffects faults data wrkr).2) {name : Bytes}
    (hname : name ∉ ownPaths data.statefiledir) (files : Files Bytes Bytes) :
    files.after effects name = files name := by
  apply Files.after_frame
  intro effect heffect hmem
  exact hname (freeEffects_names faults data wrkr effect (h heffect) name hmem)

theorem after_freeEffects_congr {faults : SaveFaults} {data : InstanceData}
    {wrkr : WrkrInstance ossl} {effects : List DirEffect}
    (h : effects ⊆ (freeEffects faults data wrkr).2)
    {files files' : Files Bytes Bytes}
    (hfiles : Set.EqOn files files' {name | name ∈ ownPaths data.statefiledir}) :
    Set.EqOn (files.after effects) (files'.after effects)
      {name | name ∈ ownPaths data.statefiledir} := by
  apply Files.after_congr _ hfiles
  intro effect heffect
  exact freeEffects_names faults data wrkr effect (h heffect)

theorem step_frame (plugin : Plugin ossl) (files : Files Bytes Bytes)
    (op : PluginOp) {name : Bytes}
    (hname : name ∉ ownPaths plugin.data.statefiledir) :
    (plugin.step files op).2 name = files name := by
  cases op with
  | create loadFails => rfl
  | start inst => rfl
  | action i faults msg =>
      simp only [Plugin.step]
      split
      · apply Files.set_of_ne
        rintro rfl
        exact hname (statePath_mem _)
      · rfl
  | free i faults =>
      simp only [Plugin.step]
      split
      · rfl
      · exact after_freeEffects_frame (List.Subset.refl _) hname files
  | cut i faults n inst =>
      simp only [Plugin.step]
      split
      · rfl
      · split_ifs
        · exact after_freeEffects_frame (List.Subset.refl _) hname files
        · exact after_freeEffects_frame (List.take_subset _ _) hname files

theorem step_congr (plugin : Plugin ossl) {files files' : Files Bytes Bytes}
    (op : PluginOp)
    (h : Set.EqOn files files' {name | name ∈ ownPaths plugin.data.statefiledir}) :
    (plugin.step files op).1 = (plugin.step files' op).1 ∧
      Set.EqOn (plugin.step files op).2 (plugin.step files' op).2
        {name | name ∈ ownPaths plugin.data.statefiledir} := by
  have hstate : files (statePath plugin.data.statefiledir) =
      files' (statePath plugin.data.statefiledir) := h (statePath_mem _)
  cases op with
  | create loadFails =>
      simp only [Plugin.step, createWrkrInstance, hstate]
      exact ⟨trivial, h⟩
  | start inst => exact ⟨rfl, h⟩
  | action i faults msg =>
      simp only [Plugin.step]
      split
      · simp only [Plugin.action, hstate]
        exact ⟨trivial, Files.set_congr h _ _⟩
      · exact ⟨rfl, h⟩
  | free i faults =>
      simp only [Plugin.step]
      split
      · exact ⟨rfl, h⟩
      · exact ⟨rfl, after_freeEffects_congr (List.Subset.refl _) h⟩
  | cut i faults n inst =>
      simp only [Plugin.step]
      split
      · exact ⟨rfl, h⟩
      · split_ifs
        · exact ⟨rfl, after_freeEffects_congr (List.Subset.refl _) h⟩
        · exact ⟨rfl, after_freeEffects_congr (List.take_subset _ _) h⟩

theorem step_local (ossl : OpenSSL) (dir : Bytes) :
    LocalTo (fun plugin : Plugin ossl => plugin.data.statefiledir = dir)
      {name | name ∈ ownPaths dir} Plugin.step where
  keeps := by
    rintro plugin files op rfl
    exact Plugin.step_statefiledir plugin files op
  frame := by
    rintro plugin files op name rfl hname
    exact step_frame plugin files op hname
  congr := by
    rintro plugin files files' op rfl hfiles
    exact step_congr plugin op hfiles

/-! ## Every interleaving -/

def Together {ι : Type} : PartEvent ι PluginOp → Prop
  | .one _ _ => True
  | .all op => ∀ i, ∃ inst, op i = .start inst

/--
Actions whose paths are names of different files do not influence each other:
whatever the others do in between, each emits the lines, keeps the workers and
leaves the state file that it does alone.
-/
theorem actions_independent (ossl : OpenSSL) {ι φ : Type} [DecidableEq ι]
    [DecidableEq φ] (data : ι → InstanceData) (resolve : Bytes → φ)
    (hpaths : ∀ i j, ∀ path ∈ ownPaths (data i).statefiledir,
      ∀ other ∈ ownPaths (data j).statefiledir,
      resolve path = resolve other → i = j ∧ path = other)
    (files : Files φ Bytes) (events : List (PartEvent ι PluginOp))
    (hevents : ∀ event ∈ events, Together event) (i : ι) :
    let parts := Parts.run
      (fun i => onFiles resolve (ownPaths (data i).statefiledir) Plugin.step)
      ⟨fun i => Plugin.fresh ossl (data i), files⟩ events
    let alone := Plugin.run (Plugin.fresh ossl (data i), files ∘ resolve)
      (events.filterMap (PartEvent.of i))
    parts.part i = alone.1 ∧
      parts.files (resolve (statePath (data i).statefiledir)) =
        alone.2 (statePath (data i).statefiledir) := by
  intro parts alone
  have hresolves : ∀ i, Resolves resolve (ownPaths (data i).statefiledir) :=
    fun i path hpath other hother hsame =>
      (hpaths i i path hpath other hother hsame).2
  have hlocal : ∀ i, LocalTo
      (fun plugin : Plugin ossl =>
        plugin.data.statefiledir = (data i).statefiledir)
      (resolve '' {path | path ∈ ownPaths (data i).statefiledir})
      (onFiles resolve (ownPaths (data i).statefiledir) Plugin.step) :=
    fun i => (step_local ossl (data i).statefiledir).onFiles (hresolves i)
  have hdisjoint : ∀ i j, i ≠ j →
      Disjoint (resolve '' {path | path ∈ ownPaths (data i).statefiledir})
        (resolve '' {path | path ∈ ownPaths (data j).statefiledir}) := by
    intro i j hne
    rw [Set.disjoint_left]
    rintro _ ⟨path, hpath, rfl⟩ ⟨other, hother, hsame⟩
    exact hne (hpaths j i other hother path hpath hsame).1.symm
  have hquiet : ∀ event ∈ events, Fileless
      (fun i => onFiles resolve (ownPaths (data i).statefiledir)
        (@Plugin.step ossl)) event := by
    intro event hevent
    have htogether := hevents event hevent
    cases event with
    | one j op => trivial
    | all op =>
        intro j plugin files
        obtain ⟨inst, hop⟩ := htogether j
        rw [hop]
        exact writeBack_self files
  have hsame := Parts.run_of hlocal hdisjoint
    (show ∀ j, (Parts.part ⟨fun i => Plugin.fresh ossl (data i), files⟩
      j).data.statefiledir = (data j).statefiledir from fun j => rfl) hquiet i
  obtain ⟨-, hpart, hfiles⟩ := runPart_onFiles
    (step_local ossl (data i).statefiledir) (hresolves i)
    (show (Plugin.fresh ossl (data i)).data.statefiledir = _ from rfl) files
    (events.filterMap (PartEvent.of i))
  constructor
  · exact hsame.part.trans hpart
  · have hpath := statePath_mem (data i).statefiledir
    exact (hsame.files ⟨_, hpath, rfl⟩).trans (hfiles hpath)

def sampleEvents : List (PartEvent Bool PluginOp) :=
  [.one true (.create false), .one false (.create false),
    .one true (.action 0 {} samplePluginMsg),
    .one false (.action 0 {} samplePluginMsg),
    .one true (.cut 0 {} 1 sampleData.inst),
    .all fun _ => .start sampleData.inst]

def samplePair (i : Bool) : InstanceData :=
  { sampleData with statefiledir := if i then [47] else [47, 97] }

/-- The paths name the same file if they differ in repeated slashes only. -/
def sampleResolve (path : Bytes) : Bytes :=
  path.destutter fun c d => ¬ (c = 47 ∧ d = 47)

theorem actions_independent_sample :
    let parts := Parts.run
      (fun i => onFiles sampleResolve (ownPaths (samplePair i).statefiledir)
        Plugin.step)
      ⟨fun i => Plugin.fresh sampleOpenSSL (samplePair i), noFiles⟩
      sampleEvents
    let alone := Plugin.run
      (Plugin.fresh sampleOpenSSL (samplePair false), noFiles ∘ sampleResolve)
      (sampleEvents.filterMap (PartEvent.of false))
    parts.part false = alone.1 ∧
      parts.files
          (sampleResolve (statePath (samplePair false).statefiledir)) =
        alone.2 (statePath (samplePair false).statefiledir) :=
  actions_independent sampleOpenSSL samplePair sampleResolve
    (by decide +kernel) noFiles sampleEvents
    (by
      intro event hevent
      simp only [sampleEvents, List.mem_cons, List.not_mem_nil, or_false]
        at hevent
      rcases hevent with rfl | rfl | rfl | rfl | rfl | rfl
      · trivial
      · trivial
      · trivial
      · trivial
      · trivial
      · exact fun i => ⟨_, rfl⟩)
    false

end MmHashChainSigs.System
