import MmHashChainSigs.Foundation.Files
import MmHashChainSigs.Module.State

/-!
# The state directory

The file operations of `mmhashchainsigs_save_state`, one by one: the text goes
to a temporary file, which is renamed.  A process can die between any two of
them, and what the kernel was told is kept.
-/

namespace MmHashChainSigs.Module

open MmHashChainSigs.Foundation
open MmHashChainSigs.Common

variable {ossl : OpenSSL}

/-! ## Paths -/

def pathSize : Nat := 512

def stateFileName : Bytes := ascii "mmhashchainsigs.state"

/-- `snprintf` into a path buffer, whose return value is not looked at. -/
def pathText (text : Bytes) : Bytes := text.take (pathSize - 1)

def statePath (dir : Bytes) : Bytes :=
  pathText (dir ++ (ascii "/" ++ stateFileName))

def tmpPath (dir : Bytes) : Bytes :=
  pathText (dir ++ (ascii "/." ++ (stateFileName ++ ascii ".tmp")))

theorem take_append_ne {dir : Bytes} {text text' : Bytes} {size n : Nat}
    (hn : dir.length + n ≤ size) (hne : text.take n ≠ text'.take n) :
    (dir ++ text).take size ≠ (dir ++ text').take size := by
  intro h
  apply hne
  have hcut := congrArg (List.take (dir.length + n)) h
  rw [List.take_take, List.take_take, Nat.min_eq_left hn,
    List.take_length_add_append, List.take_length_add_append] at hcut
  exact List.append_cancel_left hcut

/-- From 510 bytes on the names do not differ in what the buffers hold. -/
theorem tmpPath_ne_iff (dir : Bytes) :
    tmpPath dir ≠ statePath dir ↔ dir.length < 510 := by
  constructor
  · intro hne
    by_contra hlong
    apply hne
    have hsize : pathSize - 1 ≤ (dir ++ ascii "/").length := by
      rw [List.length_append]
      have : pathSize - 1 = 511 := rfl
      have : (ascii "/").length = 1 := rfl
      omega
    have hcut : ∀ rest, pathText (dir ++ (ascii "/" ++ rest)) =
        pathText (dir ++ ascii "/") := by
      intro rest
      rw [pathText, ← List.append_assoc, List.take_append_of_le_length hsize,
        pathText]
    have hsplit : ascii "/." = ascii "/" ++ ascii "." := by decide
    rw [tmpPath, statePath, hsplit, List.append_assoc (ascii "/"), hcut, hcut]
  · intro hlen
    apply @take_append_ne _ _ _ _ 2
    · have : pathSize - 1 = 511 := rfl
      omega
    · decide

def ownPaths (dir : Bytes) : List Bytes := [statePath dir, tmpPath dir]

@[simp] theorem statePath_mem (dir : Bytes) : statePath dir ∈ ownPaths dir :=
  List.mem_cons_self

@[simp] theorem tmpPath_mem (dir : Bytes) : tmpPath dir ∈ ownPaths dir :=
  List.mem_cons_of_mem _ List.mem_cons_self

/-! ## Saving -/

/--
The file operations that fail, and how much of the text has reached the file
each time that a part of it is written.
-/
structure SaveFaults where
  fopen : Bool := false
  flushed : List Nat := []
  fclose : Bool := false
  rename : Bool := false
  unlink : Bool := false

def SaveFaults.fails (faults : SaveFaults) : Bool :=
  faults.fopen || faults.fclose || faults.rename

abbrev DirEffect := FileEffect Bytes Bytes

def openEffects (faults : SaveFaults) (tmp text : Bytes) : List DirEffect :=
  .write tmp [] :: faults.flushed.map fun n => .write tmp (text.take n)

def unlinkEffects (faults : SaveFaults) (tmp : Bytes) : List DirEffect :=
  if faults.unlink then [] else [.unlink tmp]

/-- The return code, and what is done to the directory. -/
def saveEffects (faults : SaveFaults) (dir text : Bytes) :
    Int × List DirEffect :=
  let path := statePath dir
  let tmp := tmpPath dir
  if faults.fopen then (-1, [])
  else
    let opened := openEffects faults tmp text
    if faults.fclose then (-1, opened ++ unlinkEffects faults tmp)
    else if faults.rename then
      (-1, opened ++ .write tmp text :: unlinkEffects faults tmp)
    else (1, replaceFile opened tmp path text)

def saveStateEffects (faults : SaveFaults) (wrkr : Worker ossl)
    (dir : Bytes) : Int × List DirEffect :=
  match wrkr.signer with
  | none => (0, [])
  | some signer =>
      if wrkr.chain.msgCount = 0 then (0, [])
      else
        saveEffects faults dir
          (stateText wrkr.chain wrkr.sigSeqFrom signer.pubkeyFp)

/-! ## What is on disk -/

section Save

variable {faults : SaveFaults} {dir text : Bytes}

theorem onlyOn_openEffects (tmp : Bytes) :
    OnlyOn tmp (openEffects faults tmp text) := by
  intro effect heffect
  simp only [openEffects, List.mem_cons, List.mem_map] at heffect
  rcases heffect with rfl | ⟨n, -, rfl⟩
  · rfl
  · rfl

theorem onlyOn_unlinkEffects (tmp : Bytes) :
    OnlyOn tmp (unlinkEffects faults tmp) := by
  intro effect heffect
  unfold unlinkEffects at heffect
  split_ifs at heffect
  · cases heffect
  · rw [List.mem_singleton.mp heffect]
    rfl

theorem saveEffects_of_fails (h : faults.fails = true) (dir text : Bytes) :
    (saveEffects faults dir text).1 = -1 ∧
      OnlyOn (tmpPath dir) (saveEffects faults dir text).2 := by
  have hopened := @onlyOn_openEffects faults text (tmpPath dir)
  have hunlinked := @onlyOn_unlinkEffects faults (tmpPath dir)
  unfold saveEffects
  simp only
  split_ifs with hopen hclose hrename
  · exact ⟨rfl, fun effect heffect => by cases heffect⟩
  · refine ⟨rfl, fun effect heffect => ?_⟩
    rcases List.mem_append.mp heffect with hmem | hmem
    · exact hopened effect hmem
    · exact hunlinked effect hmem
  · refine ⟨rfl, fun effect heffect => ?_⟩
    rcases List.mem_append.mp heffect with hmem | hmem
    · exact hopened effect hmem
    · rcases List.mem_cons.mp hmem with rfl | hmem
      · rfl
      · exact hunlinked effect hmem
  · simp [SaveFaults.fails, hopen, hclose, hrename] at h

theorem saveEffects_of_not_fails (h : faults.fails = false) :
    saveEffects faults dir text =
      (1, replaceFile (openEffects faults (tmpPath dir) text) (tmpPath dir)
        (statePath dir) text) := by
  simp only [SaveFaults.fails, Bool.or_eq_false_iff] at h
  simp only [saveEffects, h.1.1, h.1.2, h.2, Bool.false_eq_true, if_false]

/--
The effects of one call, cut off after any number of them: the state file is
the old one, or all of the call was carried out and the file is the new one.
-/
theorem saveEffects_cut (hdir : dir.length < 510) (files : Files Bytes Bytes)
    (n : Nat) :
    let call := saveEffects faults dir text
    files.after (call.2.take n) (statePath dir) =
      if call.1 = 1 ∧ call.2.length ≤ n then some text
      else files (statePath dir) := by
  intro call
  have hne : statePath dir ≠ tmpPath dir := ((tmpPath_ne_iff dir).mpr hdir).symm
  cases hfails : faults.fails with
  | true =>
      obtain ⟨hrc, honly⟩ := saveEffects_of_fails hfails dir text
      have hnot : ¬ (call.1 = 1 ∧ call.2.length ≤ n) := by
        rintro ⟨hone, -⟩
        rw [hrc] at hone
        cases hone
      rw [if_neg hnot]
      apply OnlyOn.keeps _ hne
      intro effect heffect
      exact honly effect (List.mem_of_mem_take heffect)
  | false =>
      have hcall : call = _ := saveEffects_of_not_fails hfails
      rw [hcall]
      simp only [true_and]
      split_ifs with hall
      · rw [List.take_of_length_le hall]
        exact Files.after_replaceFile hne files text
      · exact Files.after_replaceFile_cut (onlyOn_openEffects _) hne files text
          (Nat.lt_of_not_le hall)

end Save

theorem saveStateEffects_names (faults : SaveFaults) (wrkr : Worker ossl)
    (dir : Bytes) :
    ∀ effect ∈ (saveStateEffects faults wrkr dir).2,
      ∀ name ∈ effect.names, name ∈ ownPaths dir := by
  have hdraft : ∀ effects : List DirEffect, OnlyOn (tmpPath dir) effects →
      ∀ effect ∈ effects, ∀ name ∈ effect.names, name ∈ ownPaths dir := by
    intro effects honly effect heffect name hname
    rw [honly effect heffect, List.mem_singleton] at hname
    rw [hname]
    exact tmpPath_mem dir
  unfold saveStateEffects
  split
  · exact fun effect heffect => by cases heffect
  next signer hsigner =>
    split_ifs
    · exact fun effect heffect => by cases heffect
    · cases hfails : faults.fails with
      | true => exact hdraft _ (saveEffects_of_fails hfails dir _).2
      | false =>
          intro effect heffect name hname
          rw [saveEffects_of_not_fails hfails] at heffect
          simp only [replaceFile, List.mem_append, List.mem_cons,
            List.not_mem_nil, or_false] at heffect
          rcases heffect with hopened | rfl | rfl
          · exact hdraft _ (onlyOn_openEffects _) effect hopened name hname
          · rw [List.mem_singleton.mp hname]
            exact tmpPath_mem dir
          · simp only [FileEffect.names, List.mem_cons, List.not_mem_nil,
              or_false] at hname
            rcases hname with rfl | rfl
            · exact tmpPath_mem dir
            · exact statePath_mem dir

theorem saveStateEffects_refines {dir : Bytes} (hdir : dir.length < 510)
    (faults : SaveFaults) (wrkr : Worker ossl) (files : Files Bytes Bytes) :
    let call := saveStateEffects faults wrkr dir
    (call.1, files.after call.2 (statePath dir)) =
      mmhashchainsigsSaveState faults.fails wrkr (files (statePath dir)) := by
  intro call
  unfold mmhashchainsigsSaveState
  cases hsigner : wrkr.signer with
  | none => simp [call, saveStateEffects, hsigner]
  | some signer =>
      by_cases hcount : wrkr.chain.msgCount = 0
      · simp [call, saveStateEffects, hsigner, hcount]
      · have hcall : call = saveEffects faults dir
            (stateText wrkr.chain wrkr.sigSeqFrom signer.pubkeyFp) := by
          simp [call, saveStateEffects, hsigner, hcount]
        have hcut := @saveEffects_cut faults dir
          (stateText wrkr.chain wrkr.sigSeqFrom signer.pubkeyFp) hdir files
          call.2.length
        rw [← hcall] at hcut
        simp only [List.take_length, le_refl, and_true] at hcut
        simp only [if_neg hcount]
        rw [hcut]
        cases hfails : faults.fails with
        | true =>
            obtain ⟨hrc, -⟩ := saveEffects_of_fails hfails dir
              (stateText wrkr.chain wrkr.sigSeqFrom signer.pubkeyFp)
            rw [← hcall] at hrc
            simp [hrc]
        | false =>
            rw [saveEffects_of_not_fails hfails] at hcall
            simp [hcall]

end MmHashChainSigs.Module
