import Mathlib
import MmHashChainSigs.Foundation.Segments
import MmHashChainSigs.Verify.Steps

/-!
# The command line tool

`mmhashchainsigs_verify.c`: the loop over the lines of a file, and the exit
code.  A call is a line together with what fails while it is processed.
-/

namespace MmHashChainSigs.Verify

open MmHashChainSigs.Foundation
open MmHashChainSigs.Common

variable {ossl : OpenSSL}

structure VerifyCall where
  line : Bytes
  lineNum : UInt64 := 0
  faults : VerifyFaults := {}

def processCall (ctx : VerifierCtx ossl) (call : VerifyCall) :
    VerifierCtx ossl × Int :=
  verifierProcessLine call.faults ctx call.line call.lineNum

def feed (ctx : VerifierCtx ossl) (calls : List VerifyCall) :
    VerifierCtx ossl :=
  calls.foldl (fun ctx call => (processCall ctx call).1) ctx

/-- The loop of `main`, and whether it read the file to its end. -/
def readLoop (ctx : VerifierCtx ossl) :
    List VerifyCall → VerifierCtx ossl × Bool
  | [] => (ctx, true)
  | call :: calls =>
      let (ctx, rc) := processCall ctx call
      if rc ≠ 0 then (ctx, false) else readLoop ctx calls

/-! ## Exit code -/

/-- The scan over the messages that follows a failed verification. -/
def errorCode : Nat → List VerifierError → Nat
  | code, [] => code
  | code, e :: errors =>
      if ascii "fingerprint mismatch" <:+: e.message then 3
      else if ascii "certificate" <:+: e.message ∨
        ascii "chain validation" <:+: e.message then errorCode 4 errors
      else errorCode code errors

def exitCode (ctx : VerifierCtx ossl) : Nat :=
  if verifierPassed ctx then 0 else errorCode 1 ctx.errors

/-- The lines `getline` returns, each with its terminator. -/
def getlines : Bytes → List Bytes
  | [] => []
  | c :: file =>
      if c = 10 then [c] :: getlines file
      else
        match getlines file with
        | [] => [[c]]
        | line :: lines => (c :: line) :: lines

def stripLineEnd (line : Bytes) : Bytes :=
  line.rdropWhile fun c => c = 10 || c = 13

def fileCalls (faults : Nat → VerifyFaults) (file : Bytes) : List VerifyCall :=
  (getlines file).mapIdx fun i line =>
    { line := stripLineEnd line, lineNum := UInt64.ofNat (i + 1)
      faults := faults i }

/-- The exit code for parsed options; an unreadable log file is `none`. -/
def verifierMain (ossl : OpenSSL) (fingerprintFails : Bool)
    (opts : VerifierOpts) (faults : Nat → VerifyFaults)
    (file : Option Bytes) : Nat :=
  let trust := [opts.pubkeyPath, opts.certPath, opts.caBundlePath]
  if (trust.filter Option.isSome).length ≠ 1 then 2
  else if opts.crlFile.isSome ∧ opts.caBundlePath = none then 2
  else
    match verifierInit ossl fingerprintFails opts, file with
    | some ctx, some file =>
        exitCode (verifierFinalize (readLoop ctx (fileCalls faults file)).1)
    | _, _ => 2

theorem errorCode_ne_zero {code : Nat} (h : code ≠ 0)
    (errors : List VerifierError) : errorCode code errors ≠ 0 := by
  induction errors generalizing code with
  | nil => exact h
  | cons e errors ih =>
      unfold errorCode
      split_ifs
      · decide
      · exact ih (by decide)
      · exact ih h

theorem exitCode_eq_zero_iff {ctx : VerifierCtx ossl} :
    exitCode ctx = 0 ↔ verifierPassed ctx = true := by
  unfold exitCode
  split_ifs with h
  · simp [h]
  · simp [h, errorCode_ne_zero]

@[simp] theorem verifierPassed_iff {ctx : VerifierCtx ossl} :
    verifierPassed ctx = true ↔ ctx.errors = [] := List.isEmpty_iff

/-! ## The first context -/

theorem withPubkey_cases {fingerprintFails strict : Bool}
    {key : Option ossl.Pkey} {ctx : VerifierCtx ossl}
    (h : withPubkey fingerprintFails strict key = some ctx) :
    ∃ pkey fp, ctx = keyedCtx strict pkey fp ∧
      hcsPubkeyFingerprint ossl fingerprintFails pkey = some fp := by
  simp only [withPubkey, Option.bind_eq_bind, Option.bind_eq_some_iff,
    Option.some.injEq] at h
  obtain ⟨pkey, -, fp, hfp, rfl⟩ := h
  exact ⟨pkey, fp, rfl, hfp⟩

theorem verifierInit_cases {fingerprintFails : Bool} {opts : VerifierOpts}
    {ctx : VerifierCtx ossl}
    (h : verifierInit ossl fingerprintFails opts = some ctx) :
    (opts.caBundlePath = none ∧
      ∃ pkey fp, ctx = keyedCtx opts.strict pkey fp ∧
        hcsPubkeyFingerprint ossl fingerprintFails pkey = some fp) ∨
    (opts.caBundlePath ≠ none ∧
      ∃ store, ctx = bundleCtx opts.strict store) := by
  unfold verifierInit at h
  split at h
  next hbundle => exact .inl ⟨hbundle, withPubkey_cases h⟩
  next hbundle => exact .inl ⟨hbundle, withPubkey_cases h⟩
  next hbundle =>
    obtain ⟨store, -, rfl⟩ := Option.map_eq_some_iff.mp h
    exact .inr ⟨by simp [hbundle], store, rfl⟩
  next => cases h

theorem verifierInit_live {fingerprintFails : Bool} {opts : VerifierOpts}
    {ctx : VerifierCtx ossl}
    (h : verifierInit ossl fingerprintFails opts = some ctx) : Live ctx := by
  rcases verifierInit_cases h with ⟨-, pkey, fp, rfl, -⟩ | ⟨-, store, rfl⟩
  · exact .inl rfl
  · exact .inl rfl

def sampleCtx (strict : Bool) : VerifierCtx sampleOpenSSL :=
  keyedCtx strict ([7] : Bytes) (sampleDigest .sha256 [7])

/-! ## Runs -/

@[simp] theorem feed_nil (ctx : VerifierCtx ossl) : feed ctx [] = ctx := rfl

theorem feed_cons (ctx : VerifierCtx ossl) (call : VerifyCall)
    (calls : List VerifyCall) :
    feed ctx (call :: calls) = feed (processCall ctx call).1 calls := rfl

theorem feed_append (ctx : VerifierCtx ossl) (calls more : List VerifyCall) :
    feed ctx (calls ++ more) = feed (feed ctx calls) more :=
  List.foldl_append

theorem feed_concat (ctx : VerifierCtx ossl) (calls : List VerifyCall)
    (call : VerifyCall) :
    feed ctx (calls ++ [call]) = (processCall (feed ctx calls) call).1 := by
  rw [feed_append]
  rfl

theorem processCall_of_not_live {ctx : VerifierCtx ossl} (h : ¬ Live ctx)
    (call : VerifyCall) : processCall ctx call = (ctx, -1) := by
  have hstopped : ctx.state = .error ∨ ctx.state = .done := by
    unfold Live at h
    cases hstate : ctx.state <;> simp_all
  rw [processCall, verifierProcessLine, if_pos hstopped]

theorem processCall_returns {ctx : VerifierCtx ossl} (h : Live ctx)
    (call : VerifyCall) : Returns ctx (processCall ctx call) :=
  processLine_returns call.faults h call.line call.lineNum

theorem not_live_of_error {ctx : VerifierCtx ossl} (h : ctx.state = .error) :
    ¬ Live ctx := by
  simp [Live, h]

theorem feed_of_not_live {ctx : VerifierCtx ossl} (h : ¬ Live ctx)
    (calls : List VerifyCall) : feed ctx calls = ctx := by
  induction calls with
  | nil => rfl
  | cons call calls ih => rw [feed_cons, processCall_of_not_live h, ih]

theorem feed_begun (ctx : VerifierCtx ossl) {calls : List VerifyCall}
    (hne : calls ≠ []) : (feed ctx calls).state ≠ .expectInit := by
  obtain ⟨before, call, rfl⟩ := (List.eq_nil_or_concat' calls).resolve_left hne
  rw [feed_concat]
  exact processLine_begun _ _ _ _

/-- Calls after an abandoned one change nothing, so the loop may stop there. -/
theorem readLoop_fst {ctx : VerifierCtx ossl} (h : Live ctx)
    (calls : List VerifyCall) : (readLoop ctx calls).1 = feed ctx calls := by
  induction calls generalizing ctx with
  | nil => rfl
  | cons call calls ih =>
      have hreturns := processCall_returns h call
      rw [feed_cons]
      simp only [readLoop]
      by_cases hrc : (processCall ctx call).2 = 0
      · rw [if_neg (not_not.mpr hrc)]
        exact ih (h.of_returns hreturns hrc)
      · have hstop := hreturns.resolve_left fun h => hrc h.1
        rw [if_pos hrc, feed_of_not_live (not_live_of_error hstop.2)]

theorem processCall_keeps (ctx : VerifierCtx ossl) (call : VerifyCall) :
    Keeps ctx (processCall ctx call).1 := processLine_keeps _ _ _ _

theorem feed_keeps (ctx : VerifierCtx ossl) (calls : List VerifyCall) :
    Keeps ctx (feed ctx calls) := by
  induction calls generalizing ctx with
  | nil => exact .refl ctx
  | cons call calls ih =>
      rw [feed_cons]
      exact (processCall_keeps _ _).trans (ih _)

/-! ## Errors stay -/

theorem processCall_errors {ctx : VerifierCtx ossl} {call : VerifyCall}
    (h : (processCall ctx call).1.errors = []) : ctx.errors = [] := by
  by_cases hlive : Live ctx
  · exact (processLine_clean hlive h).1
  · rwa [processCall_of_not_live hlive] at h

theorem feed_errors {ctx : VerifierCtx ossl} {calls : List VerifyCall}
    (h : (feed ctx calls).errors = []) : ctx.errors = [] := by
  induction calls generalizing ctx with
  | nil => exact h
  | cons call calls ih => exact processCall_errors (ih h)

theorem verifierFinalize_errors {ctx : VerifierCtx ossl} :
    (verifierFinalize ctx).errors = [] ↔
      ctx.errors = [] ∧ ctx.state ≠ .expectInit ∧
        (ctx.strict = true → unsignedTail ctx = 0) := by
  simp only [verifierFinalize, addErrorIf_errors, addErrorIf_strict,
    addErrorIf_nextSeq, addErrorIf_lastSignedSeq, UInt64.pos_iff_ne_zero,
    not_and, not_not]
  constructor
  · rintro ⟨htail, hstate, herrors⟩
    exact ⟨herrors, hstate, htail⟩
  · rintro ⟨herrors, hstate, htail⟩
    exact ⟨htail, hstate, herrors⟩

end MmHashChainSigs.Verify
