import MmHashChainSigs.Verify.ErrorList
import MmHashChainSigs.Verify.ExitCode
import MmHashChainSigs.Verify.TrustStore

/-!
# A bundle instead of a key

With a bundle the key comes from the certificate of the first INIT record.
From there on the run is the one with this key, error by error.
-/

namespace MmHashChainSigs.Verify

open MmHashChainSigs.Foundation
open MmHashChainSigs.Common

variable {ossl : OpenSSL}

def BringsKey (store : ossl.Store) (call : VerifyCall)
    (key : ossl.Pkey × Bytes) : Prop :=
  ∃ s, stripLine ossl call.line = some s ∧ s.sd.type = .init ∧
    s.sd.hasPubkeyFp = true ∧ CertifiedBy store call s key

section Bundle

variable {strict : Bool} {store : ossl.Store} {call : VerifyCall}
  {key : ossl.Pkey × Bytes}

def withStore (strict : Bool) (store : ossl.Store)
    (key : ossl.Pkey × Bytes) : VerifierCtx ossl :=
  under ⟨[], strict, some store⟩ (keyedCtx strict key.1 key.2)

theorem processCall_bringsKey (h : BringsKey store call key) :
    processCall (bundleCtx strict store) call =
      processCall (withStore strict store key) call := by
  obtain ⟨s, hstrip, htype, hfp, hnil, hcert⟩ := h
  have hlive : ∀ ctx : VerifierCtx ossl, ctx.state = .expectInit →
      processCall ctx call = handleSdInit call.faults
        (addErrorIf (s.malformed = true) ctx call.lineNum
          (ascii "malformed embedded cert SD element"))
        s.sd s.msg s.certDer call.lineNum := by
    intro ctx hstate
    simp only [processCall, verifierProcessLine, hstate, hstrip, htype,
      addErrorIf_state, handleSd, ne_eq, not_true_eq_false, and_false,
      if_false, reduceCtorEq, or_self]
  have hinstall : ∀ ctx : VerifierCtx ossl, ctx.trustStore = some store →
      ctx.havePubkey = false →
      initTrust call.faults ctx s.certDer call.lineNum =
        (withCertKey ctx key, 0) := by
    intro ctx hstore hhave
    apply initTrust_of_trusted
    rw [trusted_of_store hstore hhave, if_neg hnil, hcert]
    rfl
  rw [hlive _ rfl, hlive _ rfl]
  have htrust : initTrust call.faults
      (addErrorIf (s.malformed = true) (bundleCtx strict store) call.lineNum
        (ascii "malformed embedded cert SD element")) s.certDer
        call.lineNum =
      initTrust call.faults
        (addErrorIf (s.malformed = true) (withStore strict store key)
          call.lineNum (ascii "malformed embedded cert SD element"))
        s.certDer call.lineNum := by
    rw [hinstall _ rfl rfl, (trusted_of_key (.inr rfl) _ _ _).2]
    rfl
  unfold handleSdInit
  rw [if_neg (not_not.mpr hfp), if_neg (not_not.mpr hfp), htrust]

theorem feed_bringsKey (h : BringsKey store call key)
    (calls : List VerifyCall) :
    feed (bundleCtx strict store) (call :: calls) =
      under ⟨[], strict, some store⟩
        (feed (keyedCtx strict key.1 key.2) (call :: calls)) := by
  rw [feed_cons, processCall_bringsKey h, ← feed_cons]
  exact feed_under ⟨rfl, .inr rfl⟩ (call :: calls)

/-- The verdict and the category do not show where the key comes from. -/
theorem exitCode_bringsKey (h : BringsKey store call key)
    (calls : List VerifyCall) :
    exitCode (verifierFinalize
        (feed (bundleCtx strict store) (call :: calls))) =
      exitCode (verifierFinalize
        (feed (keyedCtx strict key.1 key.2) (call :: calls))) := by
  have hkeeps := feed_keeps (keyedCtx strict key.1 key.2) (call :: calls)
  have hroom := @finalize_recorded _ (keyedCtx strict key.1 key.2) rfl
    (call :: calls)
  rw [feed_bringsKey h, verifierFinalize_under hkeeps.strict.symm]
  have herrors : (under ⟨[], strict, some store⟩ (verifierFinalize
      (feed (keyedCtx strict key.1 key.2) (call :: calls)))).errors =
      (verifierFinalize
        (feed (keyedCtx strict key.1 key.2) (call :: calls))).errors := by
    change keepFirst [] _ = _
    rw [hroom, keepFirst, List.nil_append, List.take_take, Nat.min_self]
  unfold exitCode verifierPassed
  rw [herrors]

theorem bringsKey_of_clean (hruns : call.faults.storeCtxNew = false)
    (h : (processCall (bundleCtx strict store) call).1.errors = []) :
    ∃ key, BringsKey store call key := by
  have hexists : ∀ {s : StrippedLine} {ctx' : VerifierCtx ossl},
      trusted call.faults (bundleCtx strict store) s.certDer = some ctx' →
      ∃ key, CertifiedBy store call s key := by
    intro s ctx' htrust
    rw [trusted_of_store rfl rfl] at htrust
    split_ifs at htrust with hnil
    obtain ⟨key, hcert, -⟩ := Option.map_eq_some_iff.mp htrust
    exact ⟨key, hnil, hcert⟩
  obtain ⟨-, s, hstrip, -, hcases⟩ := processLine_clean (.inl rfl) h
  rcases hcases with ⟨ctx', haccepts⟩ | ⟨tail, hsilent⟩
  · cases haccepts with
    | init htype hinit =>
        obtain ⟨key, hkey⟩ := hexists hinit.trust
        exact ⟨key, s, hstrip, htype, hinit.hasFp, hkey⟩
    | msg _ hstate => cases hstate
    | sig _ hstate => cases hstate
    | «continue» _ hstate => cases hstate
  · cases hsilent with
    | storeCtx _ _ htrust =>
        have hfault := htrust.2.2.2.2
        rw [hruns] at hfault
        cases hfault
    | chainInit htype hfp htrust =>
        obtain ⟨key, hkey⟩ := hexists htrust
        exact ⟨key, s, hstrip, htype, hfp, hkey⟩
    | initHash htype hfp htrust =>
        obtain ⟨key, hkey⟩ := hexists htrust
        exact ⟨key, s, hstrip, htype, hfp, hkey⟩
    | hash _ hstate => cases hstate

theorem certifiedKey_fingerprint {faults : VerifyFaults} {certDer : Bytes}
    (h : certifiedKey faults store certDer = some key) :
    hcsPubkeyFingerprint ossl false key.1 = some key.2 := by
  unfold certifiedKey at h
  simp only [Option.bind_eq_bind, Option.bind_eq_some_iff,
    Option.some.injEq] at h
  obtain ⟨cert, -, pub, -, fp, hfp, rfl⟩ := h
  unfold hcsPubkeyFingerprint at hfp ⊢
  split_ifs at hfp
  exact hfp

end Bundle

/-! ## Files -/

def FileBringsKey (store : ossl.Store) (faults : Nat → VerifyFaults)
    (file : Bytes) (key : ossl.Pkey × Bytes) : Prop :=
  ∃ call calls, fileCalls faults file = call :: calls ∧
    BringsKey store call key

/-- A file goes with a bundle as it goes with the key it brings, and without
one it does not pass. -/
theorem bundle_is_key {opts : VerifierOpts} {path : Bytes}
    {store : ossl.Store} (hkey : opts.pubkeyPath = none)
    (hcert : opts.certPath = none) (hbundle : opts.caBundlePath = some path)
    (hstore : ossl.readStore path opts.crlFile = some store)
    (fingerprintFails : Bool) (faults : Nat → VerifyFaults) (file : Bytes) :
    (∀ key keyPath, FileBringsKey store faults file key →
      hcsLoadPublicKey ossl keyPath = some key.1 →
      verifierMain ossl fingerprintFails opts faults (some file) =
        verifierMain ossl false
          { pubkeyPath := some keyPath, strict := opts.strict } faults
          (some file)) ∧
    ((∀ i, (faults i).storeCtxNew = false) →
      verifierMain ossl fingerprintFails opts faults (some file) = 0 →
      ∃ key, FileBringsKey store faults file key) := by
  have hinit : verifierInit ossl fingerprintFails opts =
      some (bundleCtx opts.strict store) := by
    unfold verifierInit
    rw [hkey, hcert, hbundle]
    dsimp only
    rw [hstore]
    rfl
  have hmain := verifierMain_eq hinit (.inr (by simp [hbundle])) faults file
  rw [hmain]
  constructor
  · rintro key keyPath ⟨call, calls, hcalls, hbrings⟩ hload
    have hfp : hcsPubkeyFingerprint ossl false key.1 = some key.2 := by
      obtain ⟨s, -, -, -, -, hcertified⟩ := hbrings
      exact certifiedKey_fingerprint hcertified
    have hkeyed : verifierInit ossl false
        { pubkeyPath := some keyPath, strict := opts.strict } =
          some (keyedCtx opts.strict key.1 key.2) := by
      simp only [verifierInit, withPubkey, hload, hfp, Option.bind_eq_bind,
        Option.bind_some]
    rw [verifierMain_eq hkeyed (.inl rfl), hcalls]
    exact exitCode_bringsKey hbrings calls
  · intro hruns hpass
    rw [exitCode_eq_zero_iff, verifierPassed_iff, verifierFinalize_errors]
      at hpass
    cases hcalls : fileCalls faults file with
    | nil =>
        rw [hcalls] at hpass
        exact absurd rfl hpass.2.1
    | cons call calls =>
        rw [hcalls] at hpass
        have hmem : call ∈ fileCalls faults file :=
          hcalls ▸ List.mem_cons_self
        obtain ⟨i, hi⟩ := fileCalls_faults hmem
        obtain ⟨key, hbrings⟩ := bringsKey_of_clean (hi ▸ hruns i)
          (@feed_errors _ _ calls hpass.1)
        exact ⟨key, call, calls, hcalls, hbrings⟩

theorem bundle_is_key_sample :
    verifierMain sampleOpenSSL false { caBundlePath := some [7, 8] }
        (fun _ => {}) (some (chainStart [7] (some [7])).line) = 0 ∧
      ∃ key, @FileBringsKey sampleOpenSSL [[7], [8]] (fun _ => {})
        (chainStart [7] (some [7])).line key := by
  have hpass : verifierMain sampleOpenSSL false
      { caBundlePath := some [7, 8] } (fun _ => {})
      (some (chainStart [7] (some [7])).line) = 0 := by decide +kernel
  exact ⟨hpass, (@bundle_is_key sampleOpenSSL { caBundlePath := some [7, 8] }
    [7, 8] [[7], [8]] rfl rfl rfl rfl false (fun _ => {}) _).2
    (fun _ => rfl) hpass⟩

end MmHashChainSigs.Verify
