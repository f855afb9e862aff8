import MmHashChainSigs.Verify.Main

/-!
# The lines of a file

A log file is a list of lines, each with its terminator.  The tool takes line
feeds and carriage returns off the end of a line, and does not mind a last line
without one.
-/

namespace MmHashChainSigs.Verify

open MmHashChainSigs.Foundation
open MmHashChainSigs.Common

variable {ossl : OpenSSL}

/-! ## Lines -/

theorem getlines_cons_line {line : Bytes} (h : (10 : UInt8) ∉ line)
    (rest : Bytes) :
    getlines (line ++ 10 :: rest) = (line ++ [10]) :: getlines rest := by
  induction line with
  | nil => simp [getlines]
  | cons c line ih =>
      rw [List.mem_cons, not_or] at h
      rw [List.cons_append, getlines, if_neg (Ne.symm h.1), ih h.2]
      rfl

def logFile (lines : List Bytes) : Bytes := lines.flatMap fun line =>
  line ++ [10]

@[simp] theorem logFile_nil : logFile [] = [] := rfl

theorem logFile_cons (line : Bytes) (lines : List Bytes) :
    logFile (line :: lines) = line ++ 10 :: logFile lines := by
  simp [logFile]

theorem getlines_logFile {lines : List Bytes}
    (h : ∀ line ∈ lines, (10 : UInt8) ∉ line) :
    getlines (logFile lines) = lines.map fun line => line ++ [10] := by
  induction lines with
  | nil => rfl
  | cons line lines ih =>
      rw [logFile_cons, getlines_cons_line (h line List.mem_cons_self),
        ih fun l hl => h l (List.mem_cons_of_mem _ hl)]
      rfl

def EndsLine (file : Bytes) : Prop := ∀ c ∈ file.getLast?, c = 10

theorem endsLine_of_cons {c : UInt8} {file : Bytes}
    (h : EndsLine (c :: file)) : EndsLine file := by
  cases file with
  | nil => exact fun _ h => by cases h
  | cons c' file => exact fun x hx => h x (by simpa using hx)

theorem getlines_eq_nil {file : Bytes} : getlines file = [] ↔ file = [] := by
  cases file with
  | nil => exact iff_of_true rfl rfl
  | cons c file =>
      refine iff_of_false ?_ (List.cons_ne_nil _ _)
      unfold getlines
      by_cases hc : c = 10
      · rw [if_pos hc]
        exact List.cons_ne_nil _ _
      · rw [if_neg hc]
        cases getlines file with
        | nil => exact List.cons_ne_nil _ _
        | cons line lines => exact List.cons_ne_nil _ _

theorem getlines_append {file : Bytes} (h : EndsLine file) (more : Bytes) :
    getlines (file ++ more) = getlines file ++ getlines more := by
  induction file with
  | nil => rfl
  | cons c file ih =>
      have hfile := ih (endsLine_of_cons h)
      rw [List.cons_append, getlines, getlines, hfile]
      by_cases hc : c = 10
      · rw [if_pos hc, if_pos hc]
        rfl
      · rw [if_neg hc, if_neg hc]
        cases hlines : getlines file with
        | nil =>
            rw [getlines_eq_nil.mp hlines] at h
            exact absurd (h c rfl) hc
        | cons line lines => rfl

/-! ## Terminators -/

theorem stripLineEnd_concat (line : Bytes) (c : UInt8) :
    stripLineEnd (line ++ [c]) =
      if c = 10 ∨ c = 13 then stripLineEnd line else line ++ [c] := by
  unfold stripLineEnd
  rw [List.rdropWhile_concat]
  simp only [Bool.or_eq_true, decide_eq_true_eq]

theorem stripLineEnd_append {line ends : Bytes}
    (h : ∀ c ∈ ends, c = 10 ∨ c = 13) :
    stripLineEnd (line ++ ends) = stripLineEnd line := by
  induction ends using List.reverseRecOn with
  | nil => rw [List.append_nil]
  | append_singleton ends c ih =>
      rw [← List.append_assoc, stripLineEnd_concat, if_pos (h c (by simp))]
      exact ih fun c hc => h c (by simp [hc])

theorem stripLineEnd_cons (c : UInt8) (line : Bytes) :
    stripLineEnd (c :: line) =
      if stripLineEnd line = [] then stripLineEnd [c]
      else c :: stripLineEnd line := by
  induction line using List.reverseRecOn with
  | nil => rfl
  | append_singleton line last ih =>
      rw [← List.cons_append, stripLineEnd_concat, stripLineEnd_concat]
      split_ifs with hlast hnil
      · rw [ih, if_pos hnil]
      · rw [ih, if_neg hnil]
      · simp_all
      · rfl

/-! ## Files that read alike -/

def logLines (file : Bytes) : List Bytes := (getlines file).map stripLineEnd

theorem fileCalls_length (faults : Nat → VerifyFaults) (file : Bytes) :
    (fileCalls faults file).length = (getlines file).length :=
  List.length_mapIdx

theorem fileCalls_eq (faults : Nat → VerifyFaults) (file : Bytes) :
    fileCalls faults file = (logLines file).mapIdx fun i line =>
      { line := line, lineNum := UInt64.ofNat (i + 1), faults := faults i } := by
  rw [fileCalls, logLines, List.mapIdx_eq_zipIdx_map,
    List.mapIdx_eq_zipIdx_map, List.zipIdx_map, List.map_map]
  rfl

theorem fileCalls_lines (faults : Nat → VerifyFaults) (file : Bytes) :
    (fileCalls faults file).map VerifyCall.line = logLines file := by
  rw [fileCalls_eq, List.mapIdx_eq_zipIdx_map, List.map_map]
  exact List.zipIdx_map_fst 0 (logLines file)

theorem fileCalls_congr {file file' : Bytes}
    (h : logLines file = logLines file') (faults : Nat → VerifyFaults) :
    fileCalls faults file = fileCalls faults file' := by
  rw [fileCalls_eq, fileCalls_eq, h]

theorem verifierMain_congr {file file' : Bytes}
    (h : logLines file = logLines file') (ossl : OpenSSL)
    (fingerprintFails : Bool) (opts : VerifierOpts)
    (faults : Nat → VerifyFaults) :
    verifierMain ossl fingerprintFails opts faults (some file) =
      verifierMain ossl fingerprintFails opts faults (some file') := by
  unfold verifierMain
  cases verifierInit ossl fingerprintFails opts with
  | none => rfl
  | some ctx =>
      dsimp only
      rw [fileCalls_congr h]

def toDos (file : Bytes) : Bytes :=
  file.flatMap fun c => if c = 10 then [13, 10] else [c]

theorem toDos_cons (c : UInt8) (file : Bytes) :
    toDos (c :: file) =
      if c = 10 then 13 :: 10 :: toDos file else c :: toDos file := by
  unfold toDos
  rw [List.flatMap_cons]
  split_ifs
  · rfl
  · rfl

theorem logLines_cons {c : UInt8} (hc : c ≠ 10) (file : Bytes) :
    logLines (c :: file) =
      match logLines file with
      | [] => [stripLineEnd [c]]
      | line :: lines =>
          (if line = [] then stripLineEnd [c] else c :: line) :: lines := by
  unfold logLines
  rw [getlines, if_neg hc]
  cases getlines file with
  | nil => rfl
  | cons line lines =>
      rw [List.map_cons, List.map_cons, stripLineEnd_cons]

theorem logLines_lineFeed (file : Bytes) :
    logLines (10 :: file) = [] :: logLines file := rfl

theorem logLines_toDos (file : Bytes) :
    logLines (toDos file) = logLines file := by
  induction file with
  | nil => rfl
  | cons c file ih =>
      rw [toDos_cons]
      by_cases hc : c = 10
      · rw [if_pos hc, hc, logLines_cons (by decide), logLines_lineFeed,
          logLines_lineFeed, ih]
        rfl
      · rw [if_neg hc, logLines_cons hc, logLines_cons hc, ih]

theorem logLines_concat {file : Bytes} (h : ¬ EndsLine file) :
    logLines (file ++ [10]) = logLines file := by
  induction file with
  | nil => exact absurd (fun c hc => by cases hc) h
  | cons c file ih =>
      rw [List.cons_append]
      by_cases hnil : file = []
      · subst hnil
        have hc : c ≠ 10 := by
          rintro rfl
          exact h fun x hx => (Option.mem_some.mp hx).symm
        rw [List.nil_append, logLines_cons hc, logLines_cons hc]
        rfl
      · have hlast : ¬ EndsLine file := fun hends => h fun x hx =>
          hends x (by rwa [List.getLast?_cons_of_ne_nil hnil] at hx)
        by_cases hc : c = 10
        · rw [hc, logLines_lineFeed, logLines_lineFeed, ih hlast]
        · rw [logLines_cons hc, logLines_cons hc, ih hlast]

/-- The verdict on a log does not depend on how its lines are ended. -/
theorem line_ends (ossl : OpenSSL) (fingerprintFails : Bool)
    (opts : VerifierOpts) (faults : Nat → VerifyFaults) (file : Bytes) :
    verifierMain ossl fingerprintFails opts faults (some (toDos file)) =
        verifierMain ossl fingerprintFails opts faults (some file) ∧
      (¬ EndsLine file →
        verifierMain ossl fingerprintFails opts faults (some (file ++ [10])) =
          verifierMain ossl fingerprintFails opts faults (some file)) :=
  ⟨verifierMain_congr (logLines_toDos file) _ _ _ _,
    fun h => verifierMain_congr (logLines_concat h) _ _ _ _⟩

end MmHashChainSigs.Verify
