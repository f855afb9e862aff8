import MmHashChainSigs.Verify.Acceptance

/-!
# A log that brings its key with it

In the CA-bundle mode the first INIT record installs a key, and from there on
the verifier works as if that key had been pinned.  What passes with a bundle
passes with this key, so the grammar holds of it too.
-/

namespace MmHashChainSigs.Verify

open MmHashChainSigs.Foundation
open MmHashChainSigs.Common

variable {ossl : OpenSSL}

def pinned (ctx : VerifierCtx ossl) : VerifierCtx ossl :=
  { ctx with trustStore := none }

def PrimitivesRun (call : VerifyCall) : Prop :=
  HashRuns call ∧ call.faults.storeCtxNew = false

section Pinned

variable {ctx ctx' : VerifierCtx ossl} {s : StrippedLine}
  {faults : VerifyFaults}

theorem pinned_segmentStart (ctx : VerifierCtx ossl) (alg : HcsHashAlg) :
    pinned (segmentStart ctx alg) = segmentStart (pinned ctx) alg := by
  unfold segmentStart resetSigned
  by_cases hstate : ctx.state = .processing
  · rw [if_pos hstate, if_pos (show (pinned ctx).state = _ from hstate)]
    rfl
  · rw [if_neg hstate, if_neg (show ¬ (pinned ctx).state = _ from hstate)]
    rfl

theorem HashAccepts.pinned {record : HcsSdRecord} {msg : Bytes}
    (h : HashAccepts faults ctx record msg) :
    HashAccepts faults (pinned ctx) record msg :=
  ⟨h.fits, h.runs, h.hash⟩

theorem SigAccepts.pinned {record : HcsSdRecord}
    (h : SigAccepts faults ctx record) :
    SigAccepts faults (pinned ctx) record :=
  ⟨h.hasSignature, h.from_eq, h.to_eq, h.valid⟩

theorem accepts_pinned_init {alg : HcsHashAlg} (htype : s.sd.type = .init)
    (h : InitAccepts faults ctx ctx' s alg) :
    Accepts faults (pinned ctx') s
      (pinned (advance (segmentStart ctx' alg) s.sd)) := by
  have htrust : trusted faults (pinned ctx') s.certDer = some (pinned ctx') :=
    (trusted_of_key (.inl rfl) faults s.certDer 0).1
  have hready : InitReady (pinned ctx') s.sd alg :=
    ⟨h.ready.havePubkey, h.ready.fp, h.ready.tail, h.ready.width,
      h.ready.lock⟩
  have hhash := h.hash.pinned
  rw [pinned_segmentStart] at hhash
  have haccepts := Accepts.init htype
    ⟨h.hasFp, htrust, hready, h.runs, hhash⟩
  rw [← pinned_segmentStart] at haccepts
  exact haccepts

theorem Accepts.pinned (hhave : ctx.havePubkey = true)
    (h : Accepts faults ctx s ctx') :
    Accepts faults (pinned ctx) s (pinned ctx') ∧
      ctx'.havePubkey = true := by
  cases h with
  | @init htype ctx₁ alg hinit =>
      have htrust := (trusted_of_key (.inr hhave) faults s.certDer 0).1
      obtain rfl : ctx = ctx₁ := Option.some.inj (htrust.symm.trans hinit.trust)
      have hsame := sameTrust_segmentStart ctx alg
      exact ⟨accepts_pinned_init htype hinit, hsame.havePubkey.trans hhave⟩
  | msg htype hstate hhash => exact ⟨.msg htype hstate hhash.pinned, hhave⟩
  | sig htype hstate hhash hsig =>
      exact ⟨.sig htype hstate hhash.pinned hsig.pinned, hhave⟩
  | «continue» htype hstate hfp hhash =>
      exact ⟨.continue htype hstate hfp hhash.pinned, hhave⟩

theorem accepts_state (h : Accepts faults ctx s ctx') :
    ctx'.state = .processing := by
  cases h with
  | init => rfl
  | msg _ hstate => exact hstate
  | sig _ hstate => exact hstate
  | «continue» _ hstate => exact hstate

theorem not_silent_of_run {call : VerifyCall} (hruns : PrimitivesRun call)
    {tail : UInt64} : ¬ Silent call.faults ctx s tail := by
  intro hsilent
  cases hsilent with
  | storeCtx _ _ htrust =>
      have hfault := htrust.2.2.2.2
      rw [hruns.2] at hfault
      cases hfault
  | chainInit _ _ _ _ hfault => simp [hruns.1.2] at hfault
  | initHash _ _ _ _ _ hfault => simp [HashSilent, hruns.1.1] at hfault
  | hash _ _ hfault => simp [HashSilent, hruns.1.1] at hfault

end Pinned

/-! ## A bundle -/

section Bundle

variable {strict : Bool} {store : ossl.Store} {calls : List VerifyCall}

inductive PinsKey (strict : Bool) (store : ossl.Store)
    (calls : List VerifyCall) : Prop where
  | unread (hnil : calls = [])
  | installed (key : ossl.Pkey) (fp : Bytes)
      (hhave : (feed (bundleCtx strict store) calls).havePubkey = true)
      (hsame : feed (keyedCtx strict key fp) calls =
        pinned (feed (bundleCtx strict store) calls)) :
      PinsKey strict store calls

theorem PinsKey.accepts (h : PinsKey strict store calls) {call : VerifyCall}
    {s : StrippedLine} {ctx' : VerifierCtx ossl}
    (hlive : Live (feed (bundleCtx strict store) calls))
    (hstrip : stripLine ossl call.line = some s)
    (hmalformed : s.malformed = false)
    (haccepts : Accepts call.faults (feed (bundleCtx strict store) calls) s
      ctx') : PinsKey strict store (calls ++ [call]) := by
  have hstep : feed (bundleCtx strict store) (calls ++ [call]) = ctx' := by
    rw [feed_concat, processCall,
      processLine_of_accepts hlive hstrip hmalformed haccepts]
  cases h with
  | unread hnil =>
      subst hnil
      cases haccepts with
      | @init htype ctx₁ alg hinit =>
          have hkey : ∃ key, ctx₁ = withCertKey (bundleCtx strict store) key := by
            rcases trusted_cases hinit.trust with heq | hkey
            · have hnone := hinit.ready.havePubkey
              rw [heq] at hnone
              cases hnone
            · exact hkey
          obtain ⟨key, rfl⟩ := hkey
          have hpinned := accepts_pinned_init htype hinit
          refine .installed key.1 key.2 ?_ ?_
          · rw [hstep]
            exact (sameTrust_segmentStart (withCertKey _ key) alg).havePubkey
          · rw [hstep, feed_concat, processCall]
            have hprocess := processLine_of_accepts (.inl rfl) hstrip
              hmalformed hpinned call.lineNum
            exact congrArg Prod.fst hprocess
      | msg _ hstate => cases hstate
      | sig _ hstate => cases hstate
      | «continue» _ hstate => cases hstate
  | installed key fp hhave hsame =>
      obtain ⟨hpinned, hnext⟩ := haccepts.pinned hhave
      refine .installed key fp ?_ ?_
      · rw [hstep]
        exact hnext
      · have hlive' : Live (pinned (feed (bundleCtx strict store) calls)) :=
          hlive
        rw [hstep, feed_concat, hsame, processCall,
          processLine_of_accepts hlive' hstrip hmalformed hpinned]

theorem feed_pinsKey (calls : List VerifyCall)
    (hruns : ∀ call ∈ calls, PrimitivesRun call)
    (h : (feed (bundleCtx strict store) calls).errors = []) :
    Live (feed (bundleCtx strict store) calls) ∧
      PinsKey strict store calls := by
  induction calls using List.reverseRecOn with
  | nil => exact ⟨.inl rfl, .unread rfl⟩
  | append_singleton calls call ih =>
      rw [feed_concat] at h
      obtain ⟨hlive, hpins⟩ :=
        ih (fun c hc => hruns c (by simp [hc])) (processCall_errors h)
      obtain ⟨-, s, hstrip, hmalformed, hcases⟩ := processLine_clean hlive h
      cases hcases with
      | inl haccepts =>
          obtain ⟨ctx', haccepts⟩ := haccepts
          refine ⟨?_, hpins.accepts hlive hstrip hmalformed haccepts⟩
          right
          rw [feed_concat, processCall,
            processLine_of_accepts hlive hstrip hmalformed haccepts]
          exact accepts_state haccepts
      | inr hsilent =>
          obtain ⟨tail, hsilent⟩ := hsilent
          exact absurd hsilent (not_silent_of_run (hruns call (by simp)))

theorem passed_pinned (hruns : ∀ call ∈ calls, PrimitivesRun call)
    (hpassed : verifierPassed (verifierFinalize
      (feed (bundleCtx strict store) calls)) = true) :
    ∃ (key : ossl.Pkey) (fp : Bytes), verifierPassed (verifierFinalize
      (feed (keyedCtx strict key fp) calls)) = true := by
  have herrors := verifierFinalize_errors.mp (verifierPassed_iff.mp hpassed)
  obtain ⟨-, hpins⟩ := feed_pinsKey calls hruns herrors.1
  cases hpins with
  | unread hnil =>
      subst hnil
      exact absurd rfl herrors.2.1
  | installed key fp hhave hsame =>
      refine ⟨key, fp, ?_⟩
      rw [hsame, verifierPassed_iff, verifierFinalize_errors]
      exact herrors

end Bundle

theorem chainLog_of_passed {fingerprintFails : Bool} {opts : VerifierOpts}
    {ctx : VerifierCtx ossl}
    (hinit : verifierInit ossl fingerprintFails opts = some ctx)
    {calls : List VerifyCall} (hruns : ∀ call ∈ calls, PrimitivesRun call)
    (hlen : calls.length < 2 ^ 64)
    (hpassed : verifierPassed (verifierFinalize (feed ctx calls)) = true) :
    ∃ (key : ossl.Pkey) (fp : Bytes) (items : List Item),
      (ctx.trustStore = none → ctx = keyedCtx opts.strict key fp) ∧
      Strips ossl calls items ∧ ChainLog ossl key fp opts.strict items := by
  have hhash : ∀ call ∈ calls, HashRuns call :=
    fun call hcall => (hruns call hcall).1
  rcases verifierInit_cases hinit with ⟨-, key, fp, rfl, -⟩ | ⟨-, store, rfl⟩
  · obtain ⟨items, hlog⟩ := (passed_iff_chainLog hhash hlen).mp hpassed
    exact ⟨key, fp, items, fun _ => rfl, hlog⟩
  · obtain ⟨key, fp, hkeyed⟩ := passed_pinned hruns hpassed
    obtain ⟨items, hlog⟩ := (passed_iff_chainLog hhash hlen).mp hkeyed
    exact ⟨key, fp, items, nofun, hlog⟩

end MmHashChainSigs.Verify
