import MmHashChainSigs.System.Simulation
import MmHashChainSigs.System.Tamper

/-!
# Runs in lock step

Restarts keep the phase, so every run of calls and restarts does.  What the
verifier reports at the end is then read off the phase.
-/

namespace MmHashChainSigs.System

open MmHashChainSigs.Foundation
open MmHashChainSigs.Common
open MmHashChainSigs.Module
open MmHashChainSigs.Verify

variable {ossl : OpenSSL}

/-! ## Restarts -/

section Restart

variable {setup : Setup ossl} {strict : Bool} {ctx : VerifierCtx ossl}
  {sys : Sys ossl} {inst : Instance}

structure InPhase (setup : Setup ossl) (strict : Bool) (sys : Sys ossl)
    (ctx : VerifierCtx ossl) : Prop where
  inst : SameInstance setup sys.wrkr.inst
  phase : Phase setup strict sys.lostTail sys.wrkr sys.stateFile ctx

theorem newWorker_fresh (loadFails : Bool) (inst : Instance)
    (stateFile : Option Bytes) :
    Fresh setup (newWorker ossl loadFails inst stateFile) := by
  intro signer hsigner
  cases hsigner

theorem newWorker_pending (hinst : SameInstance setup inst)
    (stateFile : Option Bytes) :
    (newWorker ossl false inst stateFile).pendingState =
      mmhashchainsigsLoadState false stateFile := by
  simp [newWorker, hinst.statefiledir]

theorem Fresh.signed {wrkr : Worker ossl} (h : Fresh setup wrkr) :
    wrkr.signer = none ∨ wrkr.chain.msgCount = 0 := by
  cases hsigner : wrkr.signer with
  | none => exact .inl rfl
  | some signer =>
      obtain ⟨-, -, hchain, -⟩ := h signer hsigner
      right
      rw [hchain]
      rfl

theorem Fresh.openTail {wrkr : Worker ossl} (h : Fresh setup wrkr) :
    openTail wrkr = 0 := by
  unfold System.openTail
  cases h.signed with
  | inl hnone => simp [hnone]
  | inr hcount => simp [hcount]

theorem InPhase.restart_idle (hinst : SameInstance setup inst) (hfile : sys.stateFile = none)
    (hkeyed : Keyed setup strict ctx)
    (hsettled : Settled strict sys.lostTail ctx) :
    InPhase setup strict (sys.restart false inst) ctx where
  inst := hinst
  phase := by
    refine .idle (newWorker_fresh _ _ _) ?_ hfile hkeyed hsettled
    rw [Sys.restart, newWorker_pending hinst, hfile]
    rfl

theorem InPhase.restart_saved (hinst : SameInstance setup inst)
    {chain : HashchainCtx} {sigSeqFrom : UInt64}
    (hfile : sys.stateFile = some (stateText chain sigSeqFrom setup.fp))
    (hcounts : Counts chain sigSeqFrom) (hcount : chain.msgCount ≠ 0)
    (hstep : InStep setup strict sys.lostTail chain sigSeqFrom ctx) :
    InPhase setup strict (sys.restart false inst) ctx where
  inst := hinst
  phase := by
    refine .saved (newWorker_fresh _ _ _) ?_ hfile hcounts hcount hstep
    rw [Sys.restart, newWorker_pending hinst, hfile,
      loadState_stateText _ _ setup.fp_length]

theorem InPhase.stop (h : InPhase setup strict sys ctx)
    (hinst : SameInstance setup inst) :
    InPhase setup strict (sys.step (.stop false false inst)) ctx := by
  change InPhase setup strict ((sys.save false).restart false inst) ctx
  cases h.phase with
  | idle hfresh hpending hfile hkeyed hsettled =>
      rw [save_of_signed hfresh.signed]
      exact InPhase.restart_idle hinst hfile hkeyed hsettled
  | saved hfresh hpending hfile hcounts hcount hstep =>
      rw [save_of_signed hfresh.signed]
      exact .restart_saved hinst hfile hcounts hcount hstep
  | @«open» signer hsigner hloaded hfirst hpending hfile hcounts hstep =>
      by_cases hcount : sys.wrkr.chain.msgCount = 0
      · rw [save_of_signed (.inr hcount)]
        exact InPhase.restart_idle hinst hfile hstep.keyed
          (hstep.settled hcounts hcount)
      · rw [save_of_unsigned h.inst.statefiledir hsigner hcount]
        obtain ⟨-, hfp⟩ := h.inst.sameKey.loaded hloaded
        refine .restart_saved hinst ?_ hcounts hcount hstep
        rw [Sys.saved, hfp]

theorem InPhase.crash (h : InPhase setup strict sys ctx)
    (hinst : SameInstance setup inst) :
    InPhase setup strict (sys.step (.crash false inst)) ctx := by
  have hquiet : openTail sys.wrkr = 0 →
      InPhase setup strict (sys.restart false inst) ctx →
      InPhase setup strict (sys.step (.crash false inst)) ctx := by
    intro hzero hrestart
    have hlost : (sys.step (.crash false inst)).lostTail = sys.lostTail := by
      simp [Sys.step, hzero]
    refine ⟨hrestart.inst, ?_⟩
    rw [hlost]
    exact hrestart.phase
  cases h.phase with
  | idle hfresh hpending hfile hkeyed hsettled =>
      exact hquiet hfresh.openTail (InPhase.restart_idle hinst hfile hkeyed hsettled)
  | saved hfresh hpending hfile hcounts hcount hstep =>
      exact hquiet hfresh.openTail
        (.restart_saved hinst hfile hcounts hcount hstep)
  | @«open» signer hsigner hloaded hfirst hpending hfile hcounts hstep =>
      have htail : openTail sys.wrkr = sys.wrkr.chain.msgCount := by
        simp [openTail, hsigner]
      have hcrashed := hstep.crashed hcounts
      rw [← htail] at hcrashed
      refine ⟨hinst, .idle (newWorker_fresh _ _ _) ?_ hfile hstep.keyed
        hcrashed⟩
      rw [Sys.step, Sys.restart, newWorker_pending hinst, hfile]
      rfl

end Restart

/-! ## Runs -/

/-- One key, one algorithm, a state file, and no failure past a chain hash. -/
def Op.Orderly (setup : Setup ossl) : Op → Prop
  | .processMsg faults _ bufLen => Succeeds faults bufLen
  | .finalSign faults bufLen => Succeeds faults bufLen
  | .action faults _ => faults.newSd = false ∧
      Succeeds faults.core Common.Limits.hcsSdWithCertMaxLen
  | .stop saveFails loadFails inst =>
      saveFails = false ∧ loadFails = false ∧ SameInstance setup inst
  | .crash loadFails inst => loadFails = false ∧ SameInstance setup inst

/-- The phase that belongs to lines that strip back to what was emitted. -/
def Follows (setup : Setup ossl) (strict : Bool) (sys : Sys ossl) : Prop :=
  ∀ lines, List.Forall₂ (StripsBack ossl) lines sys.emitted →
    InPhase setup strict sys
      (feed (keyedCtx strict setup.pubkey setup.fp) lines)

section Run

variable {setup : Setup ossl} {strict : Bool} {sys : Sys ossl}

theorem forall₂_append_inv {lines : List VerifyCall}
    {emitted more : List Emission}
    (h : List.Forall₂ (StripsBack ossl) lines (emitted ++ more)) :
    ∃ before after, lines = before ++ after ∧
      List.Forall₂ (StripsBack ossl) before emitted ∧
      List.Forall₂ (StripsBack ossl) after more :=
  ⟨_, _, (List.take_append_drop emitted.length lines).symm,
    List.forall₂_take_append _ _ _ h, List.forall₂_drop_append _ _ _ h⟩

theorem Follows.start {inst : Instance} (hinst : SameInstance setup inst) :
    Follows setup strict (Sys.start ossl inst) := by
  intro lines hlines
  cases hlines
  refine ⟨hinst, .idle (fun signer hsigner => by cases hsigner) rfl rfl ?_ ?_⟩
  · exact ⟨.inl rfl, rfl, rfl, rfl, rfl, rfl, nofun, fun _ => rfl⟩
  · exact ⟨fun _ => rfl, fun _ => by simp [unsignedTail, keyedCtx], nofun⟩

theorem lines_after {call : SignCall ossl} {stateFile : Option Bytes}
    {payload : Bytes} {lines : List VerifyCall}
    (h : List.Forall₂ (StripsBack ossl) lines
      (sys.after call stateFile payload).emitted) :
    ((call.sd = none ∨ call.sd = some []) ∧
      List.Forall₂ (StripsBack ossl) lines sys.emitted) ∨
    ∃ before line sd, lines = before ++ [line] ∧
      List.Forall₂ (StripsBack ossl) before sys.emitted ∧
      call.sd = some sd ∧ sd ≠ [] ∧ StripsBack ossl line ⟨sd, payload, sd ++ payload⟩ := by
  have hsilent : call.sd = none ∨ call.sd = some [] →
      (sys.after call stateFile payload).emitted = sys.emitted := by
    rintro (hnone | hnil)
    · simp [Sys.after, hnone]
    · simp [Sys.after, hnil]
  cases hsd : call.sd with
  | none =>
      rw [hsilent (.inl hsd)] at h
      exact .inl ⟨.inl rfl, h⟩
  | some sd =>
      by_cases hnil : sd = []
      · rw [hnil] at hsd ⊢
        rw [hsilent (.inr hsd)] at h
        exact .inl ⟨.inr rfl, h⟩
      · have hone : (sys.after call stateFile payload).emitted =
            sys.emitted ++ [⟨sd, payload, sd ++ payload⟩] := by
          simp [Sys.after, hsd, hnil]
        rw [hone] at h
        obtain ⟨before, after, hlines, hbefore, hafter⟩ :=
          forall₂_append_inv h
        cases hafter with
        | cons hline hempty =>
            cases hempty
            exact .inr ⟨before, _, sd, hlines, hbefore, rfl, hnil, hline⟩

theorem Proceeds.feed {lost : Bool} {ctx : VerifierCtx ossl}
    {call : SignCall ossl} {stateFile : Option Bytes} {payload : Bytes}
    {lines : List VerifyCall}
    (hlines : List.Forall₂ (StripsBack ossl) lines
      (sys.after call stateFile payload).emitted)
    (h : ∀ before, List.Forall₂ (StripsBack ossl) before sys.emitted →
      Proceeds setup strict lost (Verify.feed ctx before) payload call
        stateFile) :
    Phase setup strict lost call.wrkr stateFile (Verify.feed ctx lines) := by
  rcases lines_after hlines with
    ⟨hsilent, hbefore⟩ | ⟨before, line, sd, rfl, hbefore, hsd, hne, hline⟩
  · rcases h lines hbefore with ⟨-, hphase⟩ | ⟨sd, hsd, hne, -⟩
    · exact hphase
    · rw [hsd] at hsilent
      simp [hne] at hsilent
  · rw [feed_append]
    rcases h before hbefore with ⟨hsilent, -⟩ | ⟨sd', hsd', -, hphase⟩
    · rw [hsd] at hsilent
      simp [hne] at hsilent
    · rw [hsd] at hsd'
      cases hsd'
      exact hphase line hline

theorem Follows.after (h : Follows setup strict sys) {call : SignCall ossl}
    {stateFile : Option Bytes} {payload : Bytes}
    (hcall : ∀ ctx, InPhase setup strict sys ctx →
      Continues setup strict sys.lostTail ctx payload call stateFile) :
    Follows setup strict (sys.after call stateFile payload) := by
  intro lines hlines
  have hbefore : ∃ before,
      List.Forall₂ (StripsBack ossl) before sys.emitted := by
    rcases lines_after hlines with ⟨-, hbefore⟩ | ⟨before, _, _, -, hbefore, -⟩
    · exact ⟨lines, hbefore⟩
    · exact ⟨before, hbefore⟩
  obtain ⟨before, hbefore⟩ := hbefore
  refine ⟨(hcall _ (h before hbefore)).inst, Proceeds.feed hlines ?_⟩
  exact fun before hbefore => (hcall _ (h before hbefore)).phase

theorem Follows.processMsg (h : Follows setup strict sys)
    {faults : SignFaults} {bufLen : Nat} (hs : Succeeds faults bufLen)
    (payload : Bytes) :
    Follows setup strict (sys.step (.processMsg faults payload bufLen)) :=
  h.after fun _ hphase => hphase.phase.processMsg hphase.inst hs payload

theorem Follows.step (h : Follows setup strict sys) {op : Op}
    (horderly : op.Orderly setup) : Follows setup strict (sys.step op) := by
  cases op with
  | processMsg faults payload bufLen => exact h.processMsg horderly payload
  | finalSign faults bufLen =>
      exact h.after fun _ hphase => hphase.phase.finalSign hphase.inst horderly
  | action faults msg =>
      rcases action_cases faults sys msg with
        hkept | ⟨cleaned, emitted, -, hcall, ⟨hlost, -⟩ | ⟨-, hsame⟩⟩
      · rw [hkept]
        exact h
      · rw [horderly.1] at hlost
        cases hlost
      · rw [hcall]
        intro lines hlines
        have hnext := h.processMsg horderly.2 (cleaned ++ msg.msg) lines
          (StripsBack.of_same hsame hlines)
        exact ⟨hnext.inst, hnext.phase⟩
  | stop saveFails loadFails inst =>
      obtain ⟨rfl, rfl, hinst⟩ := horderly
      intro lines hlines
      apply InPhase.stop _ hinst
      apply h
      have hemitted : (sys.save false).emitted = sys.emitted := by
        rcases save_cases sys false with hsave | ⟨signer, -, hsave⟩
        · rw [hsave]
        · rw [hsave]
          rfl
      rw [← hemitted]
      exact hlines
  | crash loadFails inst =>
      obtain ⟨rfl, hinst⟩ := horderly
      intro lines hlines
      exact (h lines hlines).crash hinst

theorem follows_run {inst : Instance} (hinst : SameInstance setup inst)
    {ops : List Op} (hops : ∀ op ∈ ops, op.Orderly setup) :
    Follows setup strict ((Sys.start ossl inst).run ops) :=
  Sys.run_induction (Follows.start hinst) (fun _ _ h horderly =>
    h.step horderly) hops

end Run

/-! ## What the verifier reports -/

def savedTail (wrkr : Worker ossl) : UInt64 :=
  match wrkr.pendingState with
  | none => 0
  | some state => state.seq - state.sigSeqFrom

def Agrees (wrkr : Worker ossl) (ctx : VerifierCtx ossl) : Prop :=
  wrkr.signer.isSome → wrkr.isFirst = false →
    ctx.chainHash = wrkr.chain.current ∧ ctx.nextSeq = wrkr.chain.seq ∧
      ctx.lastSignedSeq + 1 = wrkr.sigSeqFrom

section Report

variable {setup : Setup ossl} {strict : Bool} {sys : Sys ossl}
  {ctx : VerifierCtx ossl}

theorem Fresh.not_open {wrkr : Worker ossl} (h : Fresh setup wrkr) :
    ¬ (wrkr.signer.isSome ∧ wrkr.isFirst = false) := by
  rintro ⟨hsome, hfirst⟩
  obtain ⟨signer, hsigner⟩ := Option.isSome_iff_exists.mp hsome
  obtain ⟨-, htrue, -⟩ := h signer hsigner
  rw [hfirst] at htrue
  cases htrue

theorem InPhase.agrees (h : InPhase setup strict sys ctx) :
    Agrees sys.wrkr ctx := by
  intro hsome hfirst
  cases h.phase with
  | idle hfresh => exact (hfresh.not_open ⟨hsome, hfirst⟩).elim
  | saved hfresh => exact (hfresh.not_open ⟨hsome, hfirst⟩).elim
  | «open» _ _ _ _ _ _ hstep =>
      exact ⟨hstep.mirrors.hash, hstep.mirrors.next, hstep.mirrors.signed⟩

theorem Phase.errors {lost : Bool} {wrkr : Worker ossl}
    {stateFile : Option Bytes} (h : Phase setup strict lost wrkr stateFile ctx)
    (hclean : strict = false ∨ lost = false) : ctx.errors = [] := by
  have hnot : ¬ (strict = true ∧ lost = true) := by
    rintro ⟨hs, hl⟩
    cases hclean with
    | inl hstrict => simp [hstrict] at hs
    | inr hlost => simp [hlost] at hl
  cases h with
  | idle _ _ _ _ hsettled => exact hsettled.clean hnot
  | saved _ _ _ _ _ hstep => exact hstep.errors.mpr hnot
  | «open» _ _ _ _ _ _ hstep => exact hstep.errors.mpr hnot

theorem Phase.strict_eq {lost : Bool} {wrkr : Worker ossl}
    {stateFile : Option Bytes}
    (h : Phase setup strict lost wrkr stateFile ctx) : ctx.strict = strict := by
  cases h with
  | idle _ _ _ hkeyed => exact hkeyed.strict_eq
  | saved _ _ _ _ _ hstep => exact hstep.keyed.strict_eq
  | «open» _ _ _ _ _ _ hstep => exact hstep.keyed.strict_eq

theorem InStep.passes_iff {lost : Bool} {chain : HashchainCtx}
    {sigSeqFrom : UInt64} (h : InStep setup true lost chain sigSeqFrom ctx)
    (hcounts : Counts chain sigSeqFrom) :
    (verifierFinalize ctx).errors = [] ↔
      chain.msgCount = 0 ∧ lost = false := by
  rw [verifierFinalize_errors, h.errors, h.keyed.strict_eq,
    h.mirrors.tail hcounts]
  simp [h.mirrors.state, and_comm]

theorem Phase.passes_iff {lost : Bool} {wrkr : Worker ossl}
    {stateFile : Option Bytes} (h : Phase setup true lost wrkr stateFile ctx)
    (hstate : ctx.state ≠ .expectInit) :
    (verifierFinalize ctx).errors = [] ↔
      openTail wrkr + savedTail wrkr = 0 ∧ lost = false := by
  cases h with
  | idle hfresh hpending hfile hkeyed hsettled =>
      rw [hfresh.openTail, savedTail, hpending, verifierFinalize_errors]
      constructor
      · rintro ⟨herrors, -, htail⟩
        refine ⟨rfl, ?_⟩
        rw [Bool.eq_false_iff]
        intro hlost
        cases hsettled.lost rfl hlost with
        | inl hne => exact hne herrors
        | inr hunsigned => exact hunsigned.2 (htail hkeyed.strict_eq)
      · rintro ⟨-, hlost⟩
        refine ⟨hsettled.clean (by simp [hlost]), hstate, fun _ => ?_⟩
        exact hsettled.signed hlost
  | saved hfresh hpending hfile hcounts hcount hstep =>
      have hsaved : savedTail wrkr ≠ 0 := by
        rw [savedTail, hpending]
        simp only [savedState]
        rw [hcounts]
        intro hzero
        apply hcount
        grind
      rw [hstep.passes_iff hcounts, hfresh.openTail, UInt64.zero_add]
      simp [hcount, hsaved]
  | «open» hsigner _ _ hpending _ hcounts hstep =>
      rw [hstep.passes_iff hcounts, savedTail, hpending, openTail, hsigner]
      simp

end Report

/--
Signer and verifier run in lock step: without a lost tail or outside of strict
mode no line is an error, an open chain is mirrored, and strict mode passes
exactly when no message is left unsigned and none was lost.
-/
theorem signer_verifier_lock_step (setup : Setup ossl) (inst : Instance)
    (hinst : SameInstance setup inst) (ops : List Op)
    (hops : ∀ op ∈ ops, op.Orderly setup)
    (hemitted : ((Sys.start ossl inst).run ops).emitted ≠ [])
    (lines : List VerifyCall)
    (hlines : List.Forall₂ (StripsBack ossl) lines
      ((Sys.start ossl inst).run ops).emitted) (strict : Bool)
    (ctx : VerifierCtx ossl)
    (hctx : verifierInit ossl false (setup.opts strict) = some ctx) :
    let sys := (Sys.start ossl inst).run ops
    (strict = false ∨ sys.lostTail = false → (feed ctx lines).errors = []) ∧
    Agrees sys.wrkr (feed ctx lines) ∧
    (strict = true →
      (verifierPassed (verifierFinalize (feed ctx lines)) = true ↔
        openTail sys.wrkr + savedTail sys.wrkr = 0 ∧
          sys.lostTail = false)) := by
  rw [setup.verifierInit_eq] at hctx
  cases hctx
  have hphase := @follows_run ossl setup strict inst hinst ops hops lines
    hlines
  refine ⟨hphase.phase.errors, hphase.agrees, ?_⟩
  rintro rfl
  rw [verifierPassed_iff]
  apply hphase.phase.passes_iff
  apply feed_begun
  rintro rfl
  exact hemitted (List.forall₂_nil_left_iff.mp hlines)

def sampleSetup : Setup sampleOpenSSL where
  privkeyPath := [7]
  pubkeyPath := [7]
  alg := .sha256
  privkey := ([7] : Bytes)
  pubkey := ([7] : Bytes)
  fp := sampleDigest .sha256 [7]
  loadPrivate := rfl
  loadPublic := rfl
  privateFp := rfl
  publicFp := rfl
  verifies nonce data sig hlen hsign := by
    have htake : data.take Common.Limits.hcsSigMaxLen = data :=
      List.take_of_length_le (hlen.trans (by decide))
    cases hsign
    change (if (if data.take Common.Limits.hcsSigMaxLen = data then 1 else 0)
      = (1 : Int) then (0 : Int) else _) = 0
    rw [if_pos htake]
    rfl

def sampleInstance : Instance where
  privkeyPath := [7]
  statefiledir := true
  signInterval := 2

def sampleOps : List Op :=
  [.processMsg {} [1] 512, .stop false false sampleInstance,
    .processMsg {} [2] 512, .processMsg {} [3] 512,
    .crash false sampleInstance]

theorem lifeCalls_stripBack {sys : Sys ossl}
    (h : ∀ emission ∈ sys.emitted,
      (stripLine ossl (emission.sd ++ emission.payload)).map
        (fun s => (s.malformed, some s.sd, s.msg)) =
      some (false, emittedRecord ossl emission.sd, emission.payload)) :
    List.Forall₂ (StripsBack ossl) (lifeCalls sys) sys.emitted := by
  unfold lifeCalls
  rw [List.forall₂_map_left_iff, List.forall₂_same]
  intro emission hemission
  obtain ⟨s, hstrip, hs⟩ := Option.map_eq_some_iff.mp (h emission hemission)
  simp only [Prod.mk.injEq] at hs
  exact ⟨rfl, s, hstrip, hs.1, hs.2.1.symm, hs.2.2⟩

def signedOps : List Op :=
  [.processMsg {} [1] 512, .stop false false sampleInstance,
    .processMsg {} [2] 512, .processMsg {} [3] 512, .processMsg {} [4] 512]

theorem signer_verifier_lock_step_sample :
    let sys := (Sys.start sampleOpenSSL sampleInstance).run signedOps
    (feed (sampleCtx true) (lifeCalls sys)).errors = [] ∧
      Agrees sys.wrkr (feed (sampleCtx true) (lifeCalls sys)) ∧
      verifierPassed (verifierFinalize
        (feed (sampleCtx true) (lifeCalls sys))) = true := by
  intro sys
  have hinst : SameInstance sampleSetup sampleInstance := ⟨rfl, rfl, rfl⟩
  have hs : Succeeds {} 512 := ⟨rfl, rfl, rfl, rfl, rfl, rfl, by decide⟩
  have hnone : openTail sys.wrkr + savedTail sys.wrkr = 0 ∧
      sys.lostTail = false := by decide +kernel
  obtain ⟨herrors, hagrees, hpassed⟩ := signer_verifier_lock_step sampleSetup
    sampleInstance hinst signedOps
    (by
      intro op hop
      simp only [signedOps, List.mem_cons, List.not_mem_nil, or_false] at hop
      rcases hop with rfl | rfl | rfl | rfl | rfl
      · exact hs
      · exact ⟨rfl, rfl, hinst⟩
      · exact hs
      · exact hs
      · exact hs)
    (by decide +kernel) _ (lifeCalls_stripBack (by decide +kernel)) true _ rfl
  exact ⟨herrors (.inr hnone.2), hagrees, (hpassed rfl).mpr hnone⟩

end MmHashChainSigs.System
