import MmHashChainSigs.Verify.Bundle
import MmHashChainSigs.Verify.Pinned
import MmHashChainSigs.Verify.UnsignedTail

/-!
# The strict mode

A strict run goes through the states of a lax one.  It notes the messages
without a signature at the end of a segment, and nothing else.
-/

namespace MmHashChainSigs.Verify

open MmHashChainSigs.Foundation
open MmHashChainSigs.Common

variable {ossl : OpenSSL}

/-! ## Notes -/

def strictly (ctx : VerifierCtx ossl) : VerifierCtx ossl :=
  { ctx with strict := true }

def IsNote (e : VerifierError) : Prop :=
  ∃ n text, e.message = (number n ++ text).take
      (Limits.verifierMessageLen - 1) ∧
    (text = ascii " messages unsigned before new segment" ∨
      text = ascii " messages at tail are unsigned")

inductive Noted : List VerifierError → List VerifierError → Prop where
  | nil : Noted [] []
  | keep (e : VerifierError) {lax strict : List VerifierError}
      (h : Noted lax strict) : Noted (e :: lax) (e :: strict)
  | note {e : VerifierError} (hnote : IsNote e)
      {lax strict : List VerifierError} (h : Noted lax strict) :
      Noted lax (e :: strict)

section Noted

variable {lax strict more more' : List VerifierError}

theorem Noted.refl (errors : List VerifierError) : Noted errors errors := by
  induction errors with
  | nil => exact .nil
  | cons e errors ih => exact .keep e ih

theorem Noted.append (h : Noted lax strict) (h' : Noted more more') :
    Noted (lax ++ more) (strict ++ more') := by
  induction h with
  | nil => exact h'
  | keep e _ ih => exact .keep e ih
  | note hnote _ ih => exact .note hnote ih

theorem noted_notes {notes : List VerifierError} (h : ∀ e ∈ notes, IsNote e) :
    Noted [] notes := by
  induction notes with
  | nil => exact .nil
  | cons e notes ih =>
      exact .note (h e List.mem_cons_self)
        (ih fun e he => h e (List.mem_cons_of_mem _ he))

theorem Noted.length (h : Noted lax strict) : lax.length ≤ strict.length := by
  induction h with
  | nil => exact Nat.le_refl _
  | keep e _ ih => exact Nat.succ_le_succ ih
  | note _ _ ih => exact Nat.le_succ_of_le ih

theorem IsNote.unmarked {e : VerifierError} (h : IsNote e) :
    Unmarked e.message := by
  obtain ⟨n, text, hmessage, htext⟩ := h
  have hunmarked : Unmarked text := by
    rcases htext with rfl | rfl
    · decide +kernel
    · decide +kernel
  rw [hmessage]
  have hnumber := unmarked_number (show Unmarked [] by decide +kernel)
    hunmarked n
  exact Unmarked.take hnumber _

theorem Noted.errorCode (h : Noted lax strict) (code : Nat) :
    errorCode code strict = errorCode code lax := by
  induction h generalizing code with
  | nil => rfl
  | keep e _ ih =>
      unfold Verify.errorCode
      split_ifs
      · rfl
      · exact ih 4
      · exact ih code
  | note hnote _ ih =>
      have hplain := hnote.unmarked
      unfold Unmarked TellsMismatch TellsCertificate at hplain
      rw [Verify.errorCode, if_neg hplain.1, if_neg hplain.2]
      exact ih code

end Noted

/-! ## One line -/

structure Stricter (store : Option ossl.Store)
    (lax strict : VerifierCtx ossl × Int) : Prop where
  rc : strict.2 = lax.2
  ctx : strict.1 = { lax.1 with
    strict := true, trustStore := store, errors := strict.1.errors }
  errors : ∃ before notes after, lax.1.errors = before ++ after ∧
    strict.1.errors = before ++ notes ++ after ∧ ∀ e ∈ notes, IsNote e

theorem keepFirst_of_short {errors more : List VerifierError}
    (h : errors.length + more.length ≤ Limits.verifierMaxErrors) :
    keepFirst errors more = errors ++ more := by
  rw [keepFirst, List.take_of_length_le]
  rwa [List.length_append]

theorem stricter_under (store : Option ossl.Store)
    {lax : VerifierCtx ossl × Int}
    (h : lax.1.errors.length ≤ Limits.verifierMaxErrors) :
    Stricter store lax (underCall ⟨[], true, store⟩ lax) := by
  have herrors : keepFirst [] lax.1.errors = lax.1.errors :=
    keepFirst_of_short (by simpa using h)
  refine ⟨rfl, rfl, lax.1.errors, [], [], ?_, ?_, ?_⟩
  · rw [List.append_nil]
  · rw [List.append_nil, List.append_nil]
    exact herrors
  · exact fun e he => absurd he List.not_mem_nil

section Init

variable {ctx : VerifierCtx ossl} {faults : VerifyFaults} {sd : HcsSdRecord}

def segmentNote (ctx : VerifierCtx ossl) (lineNum : UInt64) :
    List VerifierError :=
  if ctx.state = .processing ∧ 0 < unsignedTail ctx then
    [⟨lineNum, (number (unsignedTail ctx) ++
      ascii " messages unsigned before new segment").take
        (Limits.verifierMessageLen - 1)⟩]
  else []

theorem isNote_segmentNote {lineNum : UInt64} {e : VerifierError}
    (h : e ∈ segmentNote ctx lineNum) : IsNote e := by
  unfold segmentNote at h
  split_ifs at h
  · rw [List.mem_singleton.mp h]
    exact ⟨_, _, rfl, .inl rfl⟩
  · cases h

theorem segmentNote_length (ctx : VerifierCtx ossl) (lineNum : UInt64) :
    (segmentNote ctx lineNum).length ≤ 1 := by
  unfold segmentNote
  split_ifs
  · exact Nat.le_refl 1
  · exact Nat.zero_le 1

theorem initTail_lax (h : ctx.strict = false) (lineNum : UInt64) :
    (initTail ctx lineNum).errors = ctx.errors ∧
      (initTail ctx lineNum).strict = false ∧
      (initTail ctx lineNum).trustStore = ctx.trustStore := by
  unfold initTail
  split_ifs
  · refine ⟨?_, h, rfl⟩
    dsimp only [addErrorIf]
    rw [if_neg]
    simp [h]
  · exact ⟨rfl, h, rfl⟩

theorem initTail_strictly
    (hroom : ctx.errors.length < Limits.verifierMaxErrors)
    (store : Option ossl.Store) (lineNum : UInt64) :
    initTail (under ⟨[], true, store⟩ ctx) lineNum =
      under ⟨ctx.errors ++ segmentNote ctx lineNum, true, store⟩
        (cleared (initTail ctx lineNum)) := by
  have herrors : keepFirst [] ctx.errors = ctx.errors :=
    keepFirst_of_short (by simpa using Nat.le_of_lt hroom)
  have hfits : (ctx.errors ++ segmentNote ctx lineNum).length ≤
      Limits.verifierMaxErrors := by
    have hnote := segmentNote_length ctx lineNum
    rw [List.length_append]
    omega
  unfold initTail
  rw [under_state, under_nextSeq, under_lastSignedSeq, under_strict]
  by_cases hstate : ctx.state = .processing
  · rw [if_pos hstate, if_pos hstate]
    dsimp only [addErrorIf, under, cleared]
    rw [keepFirst_nil hfits, herrors]
    by_cases htail : 0 < ctx.nextSeq - 1 - ctx.lastSignedSeq
    · rw [if_pos ⟨htail, rfl⟩, pushError, if_neg (Nat.not_le.mpr hroom),
        segmentNote, if_pos ⟨hstate, htail⟩]
      rfl
    · rw [if_neg (fun h => htail h.1), segmentNote,
        if_neg (fun h => htail h.2), List.append_nil]
  · rw [if_neg hstate, if_neg hstate, segmentNote,
      if_neg (fun h => hstate h.1), List.append_nil]
    dsimp only [under, cleared]
    rw [keepFirst_nil (Nat.le_of_lt hroom), herrors]

theorem stricter_initChain {store : Option ossl.Store}
    (hlax : ctx.strict = false) (hroom : ctx.errors.length ≤ 32)
    (msg : Bytes) (lineNum : UInt64) :
    Stricter store
      (initChain faults (initTail ctx lineNum) sd msg lineNum)
      (initChain faults (initTail (under ⟨[], true, store⟩ ctx) lineNum) sd
        msg lineNum) := by
  have hfew : ctx.errors.length < Limits.verifierMaxErrors :=
    Nat.lt_of_le_of_lt hroom (by decide)
  obtain ⟨herrors, hstrict, hstore⟩ := initTail_lax hlax lineNum
  have hself := @under_cleared _ (initTail ctx lineNum)
    (herrors ▸ Nat.le_of_lt hfew)
  have hrun : initChain faults (initTail ctx lineNum) sd msg lineNum =
      underCall ⟨ctx.errors, false, ctx.trustStore⟩
        (initChain faults (cleared (initTail ctx lineNum)) sd msg lineNum) := by
    rw [← initChain_under, ← herrors, ← hstrict, ← hstore, hself]
  have hadds := (initChain_adds (cleared (initTail ctx lineNum)) faults sd msg
    lineNum).length
  rw [initTail_strictly hfew, initChain_under, hrun]
  generalize initChain faults (cleared (initTail ctx lineNum)) sd msg lineNum =
    started at hadds
  have hnote := segmentNote_length ctx lineNum
  have hmax : Limits.verifierMaxErrors = 64 := rfl
  have hshort : started.1.errors.length ≤ 2 := by simpa [cleared] using hadds
  refine ⟨rfl, rfl, ctx.errors, segmentNote ctx lineNum, started.1.errors,
    ?_, ?_, fun e => isNote_segmentNote⟩
  · apply keepFirst_of_short
    dsimp only
    omega
  · apply keepFirst_of_short
    dsimp only
    rw [List.length_append]
    omega

theorem handleSdInit_under_of_not {s : StrippedLine}
    (h : ¬ KeyAccepted faults ctx s) (strict : Bool) (lineNum : UInt64) :
    handleSdInit faults (under ⟨[], strict, ctx.trustStore⟩ ctx) s.sd s.msg
        s.certDer lineNum =
      underCall ⟨[], strict, ctx.trustStore⟩
        (handleSdInit faults ctx s.sd s.msg s.certDer lineNum) := by
  unfold handleSdInit
  rw [initTrust_under (.inl rfl)]
  by_cases hfp : s.sd.hasPubkeyFp = true
  · rw [if_neg (not_not.mpr hfp), if_neg (not_not.mpr hfp)]
    cases htrust : trusted faults ctx s.certDer with
    | none =>
        have hrc := (initTrust_of_not_trusted htrust lineNum).1
        simp only [underCall, hrc]
        rfl
    | some ctx' =>
        simp only [initTrust_of_trusted htrust lineNum, underCall, ne_eq,
          not_true_eq_false, if_false, under_havePubkey, under_pubkeyFp,
          addError_under]
        by_cases hhave : ctx'.havePubkey = true
        · have hne : ¬ s.sd.pubkeyFp = ctx'.pubkeyFp :=
            fun heq => h ⟨hfp, ctx', htrust, hhave, heq⟩
          rw [if_neg (not_not.mpr hhave), if_pos hne,
            if_neg (not_not.mpr hhave), if_pos hne]
          rfl
        · rw [if_pos hhave, if_pos hhave]
          rfl
  · rw [if_pos hfp, if_pos hfp, addError_under]
    rfl

theorem stricter_handleSdInit {s : StrippedLine}
    (hlax : ctx.strict = false) (hroom : ctx.errors.length ≤ 1)
    (lineNum : UInt64) :
    Stricter ctx.trustStore
      (handleSdInit faults ctx s.sd s.msg s.certDer lineNum)
      (handleSdInit faults (under ⟨[], true, ctx.trustStore⟩ ctx) s.sd s.msg
        s.certDer lineNum) := by
  by_cases hkey : KeyAccepted faults ctx s
  · obtain ⟨hfp, ctx', htrust, hhave, heq⟩ := hkey
    have hsame : ctx'.strict = false ∧ ctx'.errors = ctx.errors := by
      rcases trusted_cases htrust with rfl | ⟨key, rfl⟩
      · exact ⟨hlax, rfl⟩
      · exact ⟨hlax, rfl⟩
    have hchain := @stricter_initChain _ ctx' faults s.sd ctx.trustStore
      hsame.1 (hsame.2 ▸ Nat.le_trans hroom (by decide)) s.msg lineNum
    have hunder := @initTrust_under _ ⟨[], true, ctx.trustStore⟩ ctx
      (.inl rfl) faults s.certDer lineNum
    rw [initTrust_of_trusted htrust] at hunder
    unfold handleSdInit
    simp only [hunder, initTrust_of_trusted htrust lineNum, underCall, hfp,
      hhave, heq, ne_eq, not_true_eq_false, if_false, under_havePubkey,
      under_pubkeyFp]
    exact hchain
  · rw [handleSdInit_under_of_not hkey]
    have hadds := (handleSdInit_adds ctx faults s.sd s.msg s.certDer
      lineNum).length
    apply stricter_under
    exact hadds.trans (Nat.le_trans (Nat.add_le_add_right hroom 4) (by decide))

theorem stricter_handleSd {s : StrippedLine} (hlax : ctx.strict = false)
    (hroom : ctx.errors.length ≤ 1) (lineNum : UInt64) :
    Stricter ctx.trustStore
      (handleSd faults ctx s lineNum)
      (handleSd faults (under ⟨[], true, ctx.trustStore⟩ ctx) s lineNum) := by
  by_cases htype : s.sd.type = .init
  · unfold handleSd
    rw [htype]
    exact stricter_handleSdInit hlax hroom lineNum
  · have hadds := (handleSd_adds ctx faults s lineNum).length
    have hunder : handleSd faults (under ⟨[], true, ctx.trustStore⟩ ctx) s
        lineNum = underCall ⟨[], true, ctx.trustStore⟩
          (handleSd faults ctx s lineNum) := by
      unfold handleSd
      cases hs : s.sd.type with
      | init => exact absurd hs htype
      | sig => exact handleSdSig_under _ _ _ _ _ _
      | «continue» => exact handleSdContinue_under _ _ _ _ _ _
      | msg => exact handleSdMsg_under _ _ _ _ _ _
      | other code =>
          dsimp only
          rw [addError_under]
          rfl
    rw [hunder]
    apply stricter_under
    exact hadds.trans (Nat.le_trans (Nat.add_le_add_right hroom 6) (by decide))

end Init

theorem stricter_processCall {ctx : VerifierCtx ossl}
    (hlax : ctx.strict = false) (hclean : ctx.errors = [])
    (call : VerifyCall) :
    Stricter ctx.trustStore (processCall ctx call)
      (processCall (strictly ctx) call) := by
  have hstrictly : strictly ctx = under ⟨[], true, ctx.trustStore⟩ ctx := by
    unfold strictly under keepFirst
    rw [hclean]
    rfl
  have hroom : (processCall ctx call).1.errors.length ≤
      Limits.verifierMaxErrors := by
    have hadds := (processCall_adds ctx call).length
    rw [hclean] at hadds
    exact hadds.trans (by decide)
  rw [hstrictly]
  by_cases hover : ctx.state = .error ∨ ctx.state = .done
  · have hsame : processCall (under ⟨[], true, ctx.trustStore⟩ ctx) call =
        underCall ⟨[], true, ctx.trustStore⟩ (processCall ctx call) := by
      unfold processCall verifierProcessLine
      rw [under_state, if_pos hover, if_pos hover]
      rfl
    rw [hsame]
    exact stricter_under _ hroom
  · cases hstrip : stripLine ossl call.line with
    | none =>
        have hsame : processCall (under ⟨[], true, ctx.trustStore⟩ ctx) call =
            underCall ⟨[], true, ctx.trustStore⟩ (processCall ctx call) := by
          unfold processCall verifierProcessLine
          rw [under_state, if_neg hover, if_neg hover, hstrip]
          dsimp only
          rw [addError_under, under_state]
          split_ifs
          · rfl
          · rfl
        rw [hsame]
        exact stricter_under _ hroom
    | some s =>
        by_cases hfirst : ctx.state = .expectInit ∧ s.sd.type ≠ .init
        · have hsame : processCall (under ⟨[], true, ctx.trustStore⟩ ctx)
              call = underCall ⟨[], true, ctx.trustStore⟩
                (processCall ctx call) := by
            unfold processCall verifierProcessLine
            rw [under_state, if_neg hover, if_neg hover, hstrip]
            dsimp only
            rw [addErrorIf_under, under_state, addErrorIf_state, if_pos hfirst,
              if_pos hfirst, addError_under]
            rfl
          rw [hsame]
          exact stricter_under _ hroom
        · have hmarked := (addErrorIf_adds ctx (s.malformed = true)
            call.lineNum (ascii "malformed embedded cert SD element")).length
          have hnone : ctx.errors.length + 1 = 1 := by rw [hclean]; rfl
          rw [hnone] at hmarked
          unfold processCall verifierProcessLine
          rw [under_state, if_neg hover, if_neg hover, hstrip]
          dsimp only
          rw [addErrorIf_under, under_state, addErrorIf_state, if_neg hfirst,
            if_neg hfirst]
          exact @stricter_handleSd _ (addErrorIf (s.malformed = true) ctx
            call.lineNum (ascii "malformed embedded cert SD element")) _ _
            hlax hmarked call.lineNum

/-! ## Runs -/

structure InStep (lax strict : VerifierCtx ossl) : Prop where
  off : lax.strict = false
  same : cleared strict = strictly (cleared lax)
  room : lax.errors.length ≤ Limits.verifierMaxErrors
  room' : strict.errors.length ≤ Limits.verifierMaxErrors

section Runs

variable {lax strict : VerifierCtx ossl}

theorem cleared_under {setting : Setting ossl} {ctx : VerifierCtx ossl}
    (hstrict : setting.strict = ctx.strict)
    (hstore : setting.trustStore = ctx.trustStore) :
    cleared (under setting ctx) = cleared ctx := by
  unfold cleared under
  dsimp only
  rw [hstrict, hstore]

theorem cleared_processCall {ctx : VerifierCtx ossl}
    (h : ctx.errors.length ≤ Limits.verifierMaxErrors) (call : VerifyCall) :
    cleared (processCall ctx call).1 =
      cleared (processCall (cleared ctx) call).1 := by
  have hunder := @processCall_under _
    ⟨ctx.errors, ctx.strict, ctx.trustStore⟩ (cleared ctx) ⟨rfl, .inl rfl⟩ call
  have hkeeps := processCall_keeps (cleared ctx) call
  rw [under_cleared h] at hunder
  rw [hunder]
  exact cleared_under hkeeps.strict.symm hkeeps.trustStore.symm

theorem processCall_room {ctx : VerifierCtx ossl}
    (h : ctx.errors.length ≤ Limits.verifierMaxErrors) (call : VerifyCall) :
    (processCall ctx call).1.errors.length ≤ Limits.verifierMaxErrors := by
  rw [processCall_recorded h]
  exact length_keepFirst _ _

theorem InStep.step (h : InStep lax strict) (call : VerifyCall) :
    InStep (processCall lax call).1 (processCall strict call).1 ∧
      Noted (raised lax call) (raised strict call) := by
  have hstep := @stricter_processCall _ (cleared lax) h.off rfl call
  rw [← h.same] at hstep
  obtain ⟨before, notes, after, hlax, hstrict, hnotes⟩ := hstep.errors
  have hraised : raised lax call = before ++ after := hlax
  have hraised' : raised strict call = before ++ notes ++ after := hstrict
  refine ⟨⟨?_, ?_, ?_, ?_⟩, ?_⟩
  · exact (processCall_keeps lax call).strict.trans h.off
  · rw [cleared_processCall h.room, cleared_processCall h.room', hstep.ctx]
    have hstore : (processCall (cleared lax) call).1.trustStore =
        lax.trustStore := (processCall_keeps (cleared lax) call).trustStore
    generalize (processCall (cleared lax) call).1 = ctx at hstore ⊢
    unfold strictly cleared
    dsimp only
    rw [hstore]
  · exact processCall_room h.room call
  · exact processCall_room h.room' call
  · rw [hraised, hraised', List.append_assoc]
    exact (Noted.refl before).append
      ((noted_notes hnotes).append (.refl after))

theorem InStep.run (h : InStep lax strict) (calls : List VerifyCall) :
    InStep (feed lax calls) (feed strict calls) ∧
      Noted (raisedRun lax calls) (raisedRun strict calls) := by
  induction calls generalizing lax strict with
  | nil => exact ⟨h, .nil⟩
  | cons call calls ih =>
      obtain ⟨hstep, hnoted⟩ := h.step call
      obtain ⟨hrun, hnoted'⟩ := ih hstep
      exact ⟨hrun, hnoted.append hnoted'⟩

theorem InStep.atEnd (h : InStep lax strict) :
    Noted (raisedAtEnd lax) (raisedAtEnd strict) := by
  have hstrict : raisedAtEnd strict =
      raisedAtEnd { lax with strict := true } := by
    unfold raisedAtEnd
    rw [h.same]
    rfl
  have hoff := h.off
  rw [hstrict]
  unfold raisedAtEnd verifierFinalize cleared
  dsimp only [addErrorIf]
  rw [if_neg (show ¬ (lax.strict = true ∧
    0 < lax.nextSeq - 1 - lax.lastSignedSeq) by simp [hoff])]
  have hshort : (if lax.state = .expectInit then pushError [] 0
      (ascii "empty file: no INIT record found") else []).length ≤ 1 := by
    split_ifs
    · exact Nat.le_refl 1
    · exact Nat.zero_le 1
  generalize (if lax.state = .expectInit then pushError [] 0
    (ascii "empty file: no INIT record found") else []) = errors at hshort ⊢
  by_cases htail : 0 < lax.nextSeq - 1 - lax.lastSignedSeq
  · rw [if_pos ⟨rfl, htail⟩, pushError,
      if_neg (Nat.not_le.mpr (Nat.lt_of_le_of_lt hshort (by decide)))]
    generalize lax.nextSeq - 1 - lax.lastSignedSeq = n
    have hnote : IsNote ⟨0, (number n ++
        ascii " messages at tail are unsigned").take
          (Limits.verifierMessageLen - 1)⟩ := ⟨n, _, rfl, .inr rfl⟩
    have happend := (Noted.refl errors).append (.note hnote .nil)
    rwa [List.append_nil] at happend
  · rw [if_neg (fun h => htail h.2)]
    exact .refl errors

end Runs

/-! ## Files -/

theorem verifierInit_strictly (ossl : OpenSSL) (fingerprintFails : Bool)
    (opts : VerifierOpts) :
    verifierInit ossl fingerprintFails { opts with strict := true } =
      (verifierInit ossl fingerprintFails opts).map strictly := by
  have hkey : ∀ key : Option ossl.Pkey,
      withPubkey fingerprintFails true key =
        (withPubkey fingerprintFails opts.strict key).map strictly := by
    intro key
    unfold withPubkey
    cases key with
    | none => rfl
    | some key =>
        dsimp only [Option.bind_eq_bind, Option.bind_some]
        cases hcsPubkeyFingerprint ossl fingerprintFails key with
        | none => rfl
        | some fp => rfl
  unfold verifierInit
  dsimp only
  split
  · exact hkey _
  · exact hkey _
  · rw [Option.map_map]
    rfl
  · rfl

theorem verifierInit_strict {fingerprintFails : Bool} {opts : VerifierOpts}
    {ctx : VerifierCtx ossl}
    (h : verifierInit ossl fingerprintFails opts = some ctx) :
    ctx.strict = opts.strict := by
  rcases verifierInit_cases h with ⟨-, pkey, fp, rfl, -⟩ | ⟨-, store, rfl⟩
  · rfl
  · rfl

theorem verifierMain_strictly (ossl : OpenSSL) (fingerprintFails : Bool)
    (opts : VerifierOpts) (faults : Nat → VerifyFaults) (file : Bytes) :
    (verifierMain ossl fingerprintFails opts faults (some file) = 2 ∧
      verifierMain ossl fingerprintFails { opts with strict := true } faults
        (some file) = 2) ∨
    ∃ ctx, verifierInit ossl fingerprintFails opts = some ctx ∧
      verifierMain ossl fingerprintFails opts faults (some file) =
        exitCode (verifierFinalize (feed ctx (fileCalls faults file))) ∧
      verifierMain ossl fingerprintFails { opts with strict := true } faults
          (some file) =
        exitCode (verifierFinalize
          (feed (strictly ctx) (fileCalls faults file))) := by
  unfold verifierMain
  rw [verifierInit_strictly]
  dsimp only
  split_ifs
  · exact .inl ⟨rfl, rfl⟩
  · exact .inl ⟨rfl, rfl⟩
  · cases hinit : verifierInit ossl fingerprintFails opts with
    | none => exact .inl ⟨rfl, rfl⟩
    | some ctx =>
        have hlive := verifierInit_live hinit
        have hlive' : Live (strictly ctx) := hlive
        refine .inr ⟨ctx, rfl, ?_, ?_⟩
        · dsimp only
          rw [readLoop_fst hlive]
        · dsimp only [Option.map_some]
          rw [readLoop_fst hlive']

theorem exitCode_finalize {ctx : VerifierCtx ossl} (h : ctx.errors = [])
    (calls : List VerifyCall) :
    exitCode (verifierFinalize (feed ctx calls)) =
      if raisedInAll ctx calls = [] then 0
      else errorCode 1 ((raisedInAll ctx calls).take
        Limits.verifierMaxErrors) := by
  unfold exitCode verifierPassed
  rw [finalize_recorded h]
  by_cases hnone : raisedInAll ctx calls = []
  · rw [hnone]
    rfl
  · have hsome : ¬ (raisedInAll ctx calls).take Limits.verifierMaxErrors =
        [] := by
      rw [List.take_eq_nil_iff, not_or]
      exact ⟨by decide, hnone⟩
    rw [if_neg hnone, if_neg]
    rwa [List.isEmpty_iff]

theorem exitCode_finalize_eq_zero {ctx : VerifierCtx ossl}
    (h : ctx.errors = []) (calls : List VerifyCall) :
    exitCode (verifierFinalize (feed ctx calls)) = 0 ↔
      raisedInAll ctx calls = [] := by
  rw [exitCode_finalize h]
  split_ifs with hnone
  · exact iff_of_true rfl hnone
  · exact iff_of_false (errorCode_ne_zero (by decide) _) hnone

theorem raisedInAll_strictly {ctx : VerifierCtx ossl}
    (hoff : ctx.strict = false) (hclean : ctx.errors = [])
    (calls : List VerifyCall) :
    Noted (raisedInAll ctx calls) (raisedInAll (strictly ctx) calls) := by
  have hroom : ctx.errors.length ≤ Limits.verifierMaxErrors := by
    rw [hclean]
    exact Nat.zero_le _
  have hstart : InStep ctx (strictly ctx) := ⟨hoff, rfl, hroom, hroom⟩
  obtain ⟨hrun, hnoted⟩ := hstart.run calls
  exact hnoted.append hrun.atEnd

theorem Noted.take {notes : List VerifierError} (h : Noted [] notes)
    (n : Nat) : Noted [] (notes.take n) := by
  induction notes generalizing n with
  | nil =>
      rw [List.take_nil]
      exact .nil
  | cons e notes ih =>
      cases h with
      | note hnote hrest =>
          cases n with
          | zero => exact .nil
          | succ n => exact .note hnote (ih hrest n)

/-- What passes in the lax mode has no category in the strict one. -/
theorem exitCode_strictly {ctx : VerifierCtx ossl} (hoff : ctx.strict = false)
    (hclean : ctx.errors = []) {calls : List VerifyCall}
    (hpass : exitCode (verifierFinalize (feed ctx calls)) = 0) :
    exitCode (verifierFinalize (feed (strictly ctx) calls)) = 0 ∨
      exitCode (verifierFinalize (feed (strictly ctx) calls)) = 1 := by
  have hclean' : (strictly ctx).errors = [] := hclean
  have hnoted := raisedInAll_strictly hoff hclean calls
  rw [exitCode_finalize_eq_zero hclean] at hpass
  rw [hpass] at hnoted
  have hcode := (hnoted.take Limits.verifierMaxErrors).errorCode 1
  rw [exitCode_finalize hclean']
  by_cases hnone : raisedInAll (strictly ctx) calls = []
  · exact .inl (if_pos hnone)
  · right
    rw [if_neg hnone]
    exact hcode

theorem exitCode_of_strictly {ctx : VerifierCtx ossl}
    (hoff : ctx.strict = false) (hclean : ctx.errors = [])
    {calls : List VerifyCall}
    (hpass : exitCode (verifierFinalize (feed (strictly ctx) calls)) = 0) :
    exitCode (verifierFinalize (feed ctx calls)) = 0 := by
  have hclean' : (strictly ctx).errors = [] := hclean
  have hnoted := raisedInAll_strictly hoff hclean calls
  rw [exitCode_finalize_eq_zero hclean'] at hpass
  rw [exitCode_finalize_eq_zero hclean]
  rw [hpass] at hnoted
  exact List.eq_nil_of_length_eq_zero (Nat.le_zero.mp hnoted.length)

/-- Notes that all fit the table do not push out what decides the category. -/
theorem exitCode_strictly_of_room {ctx : VerifierCtx ossl}
    (hoff : ctx.strict = false) (hclean : ctx.errors = [])
    {calls : List VerifyCall}
    (hfail : exitCode (verifierFinalize (feed ctx calls)) ≠ 0)
    (hroom : (raisedInAll (strictly ctx) calls).length ≤
      Limits.verifierMaxErrors) :
    exitCode (verifierFinalize (feed (strictly ctx) calls)) =
      exitCode (verifierFinalize (feed ctx calls)) := by
  have hclean' : (strictly ctx).errors = [] := hclean
  have hnoted := raisedInAll_strictly hoff hclean calls
  have hfail' := fun h => hfail (exitCode_of_strictly hoff hclean h)
  rw [Ne, exitCode_finalize_eq_zero hclean] at hfail
  rw [exitCode_finalize_eq_zero hclean'] at hfail'
  rw [exitCode_finalize hclean, exitCode_finalize hclean', if_neg hfail,
    if_neg hfail', List.take_of_length_le hroom,
    List.take_of_length_le (hnoted.length.trans hroom)]
  exact hnoted.errorCode 1

/-! ## Signed ends -/

/-- Every segment of the log ends with a SIG record. -/
def SignedToTheEnds (ossl : OpenSSL) (calls : List VerifyCall) : Prop :=
  ∃ items segments, Strips ossl calls items ∧
    Splits IsInit items segments ∧ ∀ segment ∈ segments, EndsSigned segment

theorem chainLog_strictly {key : ossl.Pkey} {fp : Bytes}
    {calls : List VerifyCall} :
    (∃ items, Strips ossl calls items ∧ ChainLog ossl key fp true items) ↔
      (∃ items, Strips ossl calls items ∧
        ChainLog ossl key fp false items) ∧ SignedToTheEnds ossl calls := by
  constructor
  · rintro ⟨items, hstrips, hne, alg, segments, hsplits, hall, hsigned⟩
    refine ⟨⟨items, hstrips, hne, alg, segments, hsplits, hall, nofun⟩, ?_⟩
    exact ⟨items, segments, hstrips, hsplits, hsigned rfl⟩
  · rintro ⟨⟨items, hstrips, hne, alg, segments, hsplits, hall, -⟩,
      items', segments', hstrips', hsplits', hsigned⟩
    obtain rfl := strips_unique hstrips hstrips'
    obtain rfl := hsplits.unique hsplits'
    exact ⟨items, hstrips, hne, alg, segments, hsplits, hall,
      fun _ => hsigned⟩

theorem keyed_strictly {key : ossl.Pkey} {fp : Bytes}
    {calls : List VerifyCall} (hruns : ∀ call ∈ calls, HashRuns call)
    (hlen : calls.length < 2 ^ 64) :
    exitCode (verifierFinalize (feed (keyedCtx true key fp) calls)) = 0 ↔
      exitCode (verifierFinalize (feed (keyedCtx false key fp) calls)) = 0 ∧
        SignedToTheEnds ossl calls := by
  rw [exitCode_eq_zero_iff, exitCode_eq_zero_iff,
    passed_iff_chainLog hruns hlen, passed_iff_chainLog hruns hlen]
  exact chainLog_strictly

theorem bundle_fails {strict : Bool} {store : ossl.Store} {call : VerifyCall}
    (hruns : call.faults.storeCtxNew = false)
    (hnone : ¬ ∃ key, BringsKey store call key) (calls : List VerifyCall) :
    exitCode (verifierFinalize
      (feed (bundleCtx strict store) (call :: calls))) ≠ 0 := by
  rw [Ne, exitCode_eq_zero_iff, verifierPassed_iff, verifierFinalize_errors]
  intro hpass
  exact hnone (bringsKey_of_clean hruns (@feed_errors _ _ calls hpass.1))

theorem bundle_strictly {store : ossl.Store} {calls : List VerifyCall}
    (hruns : ∀ call ∈ calls, PrimitivesRun call)
    (hlen : calls.length < 2 ^ 64) :
    exitCode (verifierFinalize (feed (bundleCtx true store) calls)) = 0 ↔
      exitCode (verifierFinalize (feed (bundleCtx false store) calls)) = 0 ∧
        SignedToTheEnds ossl calls := by
  cases calls with
  | nil =>
      have hempty : ∀ strict : Bool, exitCode (verifierFinalize
          (feed (bundleCtx strict store) [])) ≠ 0 := by
        intro strict
        rw [Ne, exitCode_eq_zero_iff, verifierPassed_iff,
          verifierFinalize_errors]
        exact fun hpass => hpass.2.1 rfl
      exact iff_of_false (hempty true) fun h => hempty false h.1
  | cons call calls =>
      have hfirst := hruns call List.mem_cons_self
      by_cases hbrings : ∃ key, BringsKey store call key
      · obtain ⟨key, hkey⟩ := hbrings
        rw [exitCode_bringsKey hkey, exitCode_bringsKey hkey]
        exact keyed_strictly (fun c hc => (hruns c hc).1) hlen
      · apply iff_of_false
        · exact bundle_fails hfirst.2 hbrings calls
        · exact fun h => bundle_fails hfirst.2 hbrings calls h.1

theorem exitCode_strictly_iff {fingerprintFails : Bool} {opts : VerifierOpts}
    {ctx : VerifierCtx ossl}
    (hinit : verifierInit ossl fingerprintFails opts = some ctx)
    (hoff : opts.strict = false) {calls : List VerifyCall}
    (hruns : ∀ call ∈ calls, PrimitivesRun call)
    (hlen : calls.length < 2 ^ 64) :
    exitCode (verifierFinalize (feed (strictly ctx) calls)) = 0 ↔
      exitCode (verifierFinalize (feed ctx calls)) = 0 ∧
        SignedToTheEnds ossl calls := by
  have hmode := verifierInit_strict hinit
  rw [hoff] at hmode
  rcases verifierInit_cases hinit with ⟨-, key, fp, rfl, -⟩ | ⟨-, store, rfl⟩
  · change opts.strict = false at hmode
    rw [hmode]
    exact keyed_strictly (fun c hc => (hruns c hc).1) hlen
  · change opts.strict = false at hmode
    rw [hmode]
    exact bundle_strictly hruns hlen

/-! ## The verdict -/

/-- What the strict mode passes the lax one does, and as long as no primitive
fails without an error it asks for signed ends and for nothing else.  The
category is the one of the lax mode as long as the notes leave room for its
errors. -/
theorem strict_exit (ossl : OpenSSL) (fingerprintFails : Bool)
    {opts : VerifierOpts} (hoff : opts.strict = false)
    (faults : Nat → VerifyFaults) (file : Bytes) :
    let lax := verifierMain ossl fingerprintFails opts faults (some file)
    let strict := verifierMain ossl fingerprintFails
      { opts with strict := true } faults (some file)
    let calls := fileCalls faults file
    ((∀ call ∈ calls, PrimitivesRun call) → calls.length < 2 ^ 64 →
      (strict = 0 ↔ lax = 0 ∧ SignedToTheEnds ossl calls)) ∧
    (strict = 0 → lax = 0) ∧
    (lax = 0 → strict = 0 ∨ strict = 1) ∧
    (lax ≠ 0 →
      (∀ ctx, verifierInit ossl fingerprintFails opts = some ctx →
        (raisedInAll (strictly ctx) calls).length ≤
          Limits.verifierMaxErrors) →
      strict = lax) := by
  intro lax strict calls
  rcases verifierMain_strictly ossl fingerprintFails opts faults file with
    ⟨hlax, hstrict⟩ | ⟨ctx, hinit, hlax, hstrict⟩
  · have hlax' : lax = 2 := hlax
    have hstrict' : strict = 2 := hstrict
    rw [hlax', hstrict']
    refine ⟨fun _ _ => iff_of_false (by decide) fun h => ?_, id, fun h => ?_,
      fun _ _ => rfl⟩
    · exact absurd h.1 (by decide)
    · exact absurd h (by decide)
  · have hmode : ctx.strict = false := (verifierInit_strict hinit).trans hoff
    have hclean := verifierInit_clean hinit
    have hends := @exitCode_strictly_iff _ _ _ _ hinit hoff calls
    rw [← hlax, ← hstrict] at hends
    refine ⟨hends, ?_, ?_, ?_⟩
    · intro hpass
      exact hlax.trans (exitCode_of_strictly hmode hclean
        (hstrict.symm.trans hpass))
    · intro hpass
      have hcode := exitCode_strictly hmode hclean (hlax.symm.trans hpass)
      rwa [← hstrict] at hcode
    · intro hfail hroom
      have hsame := exitCode_strictly_of_room hmode hclean
        (fun h => hfail (hlax.trans h)) (hroom ctx hinit)
      exact hstrict.trans (hsame.trans hlax.symm)

/-- A log that is signed to its end, and its first line. -/
theorem strict_exit_sample :
    SignedToTheEnds sampleOpenSSL (fileCalls (fun _ => {}) signedFile) ∧
      ¬ SignedToTheEnds sampleOpenSSL
        (fileCalls (fun _ => {}) (unsignedCall 0).line) ∧
      verifierMain sampleOpenSSL false
        { pubkeyPath := some [7], strict := true } (fun _ => {})
        (some (unsignedCall 0).line) = 1 := by
  have hexit := @strict_exit sampleOpenSSL false { pubkeyPath := some [7] } rfl
    (fun _ => {})
  obtain ⟨hsigned, -⟩ := hexit signedFile
  obtain ⟨hunsigned, -, hcodes, -⟩ := hexit (unsignedCall 0).line
  have hruns : ∀ file : Bytes, ∀ call ∈ fileCalls (fun _ => {}) file,
      PrimitivesRun call := by
    intro file call hcall
    obtain ⟨i, hi⟩ := fileCalls_faults hcall
    unfold PrimitivesRun HashRuns
    rw [hi]
    exact ⟨⟨rfl, rfl⟩, rfl⟩
  have hlax : verifierMain sampleOpenSSL false { pubkeyPath := some [7] }
      (fun _ => {}) (some (unsignedCall 0).line) = 0 := by decide +kernel
  have hstrict : verifierMain sampleOpenSSL false
      { pubkeyPath := some [7], strict := true } (fun _ => {})
      (some (unsignedCall 0).line) ≠ 0 := by decide +kernel
  refine ⟨?_, fun hends => ?_, (hcodes hlax).resolve_left hstrict⟩
  · refine ((hsigned (hruns _) (by decide +kernel)).mp ?_).2
    decide +kernel
  · exact hstrict ((hunsigned (hruns _) (by decide +kernel)).mpr ⟨hlax, hends⟩)

end MmHashChainSigs.Verify
