import MmHashChainSigs.Common.RoundTrip
import MmHashChainSigs.Verify.Main

/-!
# A log that was not read to its end

The loop abandons a file by a return code, while the verdict is the number of
recorded errors.  The two disagree exactly on the lines where a primitive
fails without a word and nothing else was found.
-/

namespace MmHashChainSigs.Verify

open MmHashChainSigs.Foundation
open MmHashChainSigs.Common

variable {ossl : OpenSSL}

/--
No error so far, the line strips, a primitive fails without a word, and the
strict check at the end of the file finds nothing unsigned.
-/
def FailsOpen (ctx : VerifierCtx ossl) (call : VerifyCall) : Prop :=
  Live ctx ∧ ctx.errors = [] ∧
    ∃ s tail, stripLine ossl call.line = some s ∧ s.malformed = false ∧
      Silent call.faults ctx s tail ∧ (ctx.strict = true → tail = 0)

/-- An abandoned file is reported as failed, with an exit code to match. -/
def FailsClosed (ctx : VerifierCtx ossl) (calls : List VerifyCall) : Prop :=
  (readLoop ctx calls).2 = false →
    verifierPassed (verifierFinalize (readLoop ctx calls).1) = false ∧
      exitCode (verifierFinalize (readLoop ctx calls).1) ≠ 0

theorem failsClosed_iff_errors {ctx : VerifierCtx ossl}
    {calls : List VerifyCall} :
    FailsClosed ctx calls ↔ ((readLoop ctx calls).2 = false →
      (verifierFinalize (readLoop ctx calls).1).errors ≠ []) := by
  unfold FailsClosed
  rw [Ne, exitCode_eq_zero_iff, ← Bool.not_eq_true (verifierPassed _),
    and_self, verifierPassed_iff]

theorem failsOpen_of_abandoned {ctx : VerifierCtx ossl} {call : VerifyCall}
    (hlive : Live ctx) (hrc : (processCall ctx call).2 ≠ 0)
    (h : (verifierFinalize (processCall ctx call).1).errors = []) :
    FailsOpen ctx call := by
  obtain ⟨herrors, -, htail⟩ := verifierFinalize_errors.mp h
  obtain ⟨hctx, s, hstrip, hmalformed, hcases⟩ := processLine_clean hlive herrors
  cases hcases with
  | inl haccepts =>
      obtain ⟨ctx', haccepts⟩ := haccepts
      rw [processCall, processLine_of_accepts hlive hstrip hmalformed
        haccepts] at hrc
      exact absurd rfl hrc
  | inr hsilent =>
      obtain ⟨tail, hsilent⟩ := hsilent
      obtain ⟨ctx', heq, -, hstrict, hleft⟩ :=
        processLine_of_silent hlive hstrip hmalformed hsilent call.lineNum
      rw [processCall, heq] at htail
      refine ⟨hlive, hctx, s, tail, hstrip, hmalformed, hsilent, fun h => ?_⟩
      rw [← hleft]
      exact htail (hstrict.trans h)

theorem abandoned_of_failsOpen {ctx : VerifierCtx ossl} {call : VerifyCall}
    (h : FailsOpen ctx call) :
    (processCall ctx call).2 ≠ 0 ∧
      (verifierFinalize (processCall ctx call).1).errors = [] := by
  obtain ⟨hlive, hctx, s, tail, hstrip, hmalformed, hsilent, htail⟩ := h
  obtain ⟨ctx', heq, herrors, hstrict, hleft⟩ :=
    processLine_of_silent hlive hstrip hmalformed hsilent call.lineNum
  rw [processCall, heq]
  refine ⟨by simp [setError], verifierFinalize_errors.mpr ⟨?_, ?_, ?_⟩⟩
  · exact herrors.trans hctx
  · simp [setError]
  · intro h
    exact hleft.trans (htail (hstrict.symm.trans h))

theorem not_failsClosed_of_failsOpen {ctx : VerifierCtx ossl}
    {call : VerifyCall} {before after : List VerifyCall}
    (h : FailsOpen (feed ctx before) call) :
    (readLoop ctx (before ++ call :: after)).2 = false ∧
      (verifierFinalize
        (readLoop ctx (before ++ call :: after)).1).errors = [] := by
  induction before generalizing ctx with
  | nil =>
      rw [feed_nil] at h
      obtain ⟨hrc, herrors⟩ := abandoned_of_failsOpen h
      simp only [List.nil_append, readLoop]
      rw [if_pos hrc]
      exact ⟨rfl, herrors⟩
  | cons first before ih =>
      have hlive : Live ctx := by
        by_contra hstopped
        rw [feed_of_not_live hstopped] at h
        exact hstopped h.1
      have hrc : (processCall ctx first).2 = 0 := by
        rcases processCall_returns hlive first with ⟨hrc, -⟩ | ⟨-, hstate⟩
        · exact hrc
        · have hstopped := not_live_of_error hstate
          rw [feed_cons, feed_of_not_live hstopped] at h
          exact absurd h.1 hstopped
      simpa [readLoop, hrc] using ih h

theorem failsClosed_of_throughout {ctx : VerifierCtx ossl}
    {calls : List VerifyCall} (hlive : Live ctx)
    (h : Throughout (fun before call => ¬ FailsOpen (feed ctx before) call)
      calls) :
    (readLoop ctx calls).2 = false →
      (verifierFinalize (readLoop ctx calls).1).errors ≠ [] := by
  induction calls generalizing ctx with
  | nil => simp [readLoop]
  | cons call calls ih =>
      intro hstop herrors
      have hhead : ¬ FailsOpen ctx call := h [] call calls rfl
      have hreturns := processCall_returns hlive call
      simp only [readLoop] at hstop herrors
      by_cases hrc : (processCall ctx call).2 = 0
      · rw [if_neg (not_not.mpr hrc)] at hstop herrors
        apply ih (hlive.of_returns hreturns hrc) _ hstop herrors
        intro before item after hcalls
        exact h (call :: before) item after (by rw [hcalls]; rfl)
      · rw [if_pos hrc] at herrors
        exact hhead (failsOpen_of_abandoned hlive hrc herrors)

theorem failsClosed_iff (ossl : OpenSSL) (fingerprintFails : Bool)
    (opts : VerifierOpts) (ctx : VerifierCtx ossl)
    (hinit : verifierInit ossl fingerprintFails opts = some ctx)
    (calls : List VerifyCall) :
    FailsClosed ctx calls ↔
      Throughout (fun before call => ¬ FailsOpen (feed ctx before) call)
        calls := by
  have hlive : Live ctx := verifierInit_live hinit
  rw [failsClosed_iff_errors]
  constructor
  · intro hclosed before call after hcalls hopen
    obtain ⟨hstop, herrors⟩ := not_failsClosed_of_failsOpen hopen
    rw [← hcalls] at hstop herrors
    exact hclosed hstop herrors
  · exact failsClosed_of_throughout hlive

def unhashedInit : VerifyCall where
  line := elementText (initParams "I" 1 (List.replicate 32 0)
    (sampleDigest .sha256 [7]))
  lineNum := 1
  faults := { hashChain := true }

theorem failsClosed_iff_sample :
    FailsClosed (sampleCtx true) [unhashedInit] ↔
      Throughout (fun before call =>
        ¬ FailsOpen (feed (sampleCtx true) before) call) [unhashedInit] :=
  failsClosed_iff sampleOpenSSL false
    { pubkeyPath := some [7], strict := true } _ rfl [unhashedInit]

theorem failsClosed_fails :
    verifierInit sampleOpenSSL false { pubkeyPath := some [7] } =
        some (sampleCtx false) ∧
      (readLoop (sampleCtx false) [unhashedInit]).2 = false ∧
      verifierPassed (verifierFinalize
        (readLoop (sampleCtx false) [unhashedInit]).1) = true ∧
      exitCode (verifierFinalize
        (readLoop (sampleCtx false) [unhashedInit]).1) = 0 := by
  refine ⟨rfl, ?_⟩
  decide +kernel

end MmHashChainSigs.Verify
