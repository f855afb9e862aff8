import MmHashChainSigs.System.LockStep
import MmHashChainSigs.System.Payload
import MmHashChainSigs.System.PluginLife
import MmHashChainSigs.Verify.LogFile
import MmHashChainSigs.Verify.Pinned
import MmHashChainSigs.Verify.Strictness

/-!
# From the signer to the exit code

What a life of workers emits is stored line by line, and the tool is run on the
file.  The exit code then tells what happened to the signer.
-/

namespace MmHashChainSigs.System

open MmHashChainSigs.Foundation
open MmHashChainSigs.Common
open MmHashChainSigs.Module
open MmHashChainSigs.Verify

variable {ossl : OpenSSL}

/-! ## What a life emits -/

def Written (ossl : OpenSSL) (emission : Emission) : Prop :=
  ∃ privkey fp next sigSeqFrom record,
    fp.length = Common.Limits.hcsHashLen ∧
    Element ossl privkey fp next sigSeqFrom emission.sd record

theorem emitted_after {good : Emission → Prop} {sys : Sys ossl}
    (h : ∀ emission ∈ sys.emitted, good emission)
    {call : SignCall ossl} {payload : Bytes}
    (hcall : ∀ sd, call.sd = some sd → sd ≠ [] → good ⟨sd, payload, sd ++ payload⟩)
    (stateFile : Option Bytes) :
    ∀ emission ∈ (sys.after call stateFile payload).emitted,
      good emission := by
  intro emission hemission
  rcases List.mem_append.mp hemission with hold | hnew
  · exact h emission hold
  · cases hsd : call.sd with
    | none =>
        rw [hsd] at hnew
        cases hnew
    | some sd =>
        rw [hsd] at hnew
        dsimp only at hnew
        split_ifs at hnew with hnil
        · cases hnew
        · rw [List.mem_singleton.mp hnew]
          exact hcall sd hsd hnil

theorem finalSign_written {faults : SignFaults} {wrkr : Worker ossl}
    {bufLen : Nat} {sd : Bytes}
    (h : (mmhashchainsigsFinalSign faults wrkr bufLen).sd = some sd)
    (hne : sd ≠ []) : Written ossl ⟨sd, [], sd ++ []⟩ := by
  by_cases hsilent : wrkr.signer = none ∨ wrkr.chain.msgCount = 0
  · rw [finalSign_of_silent hsilent] at h
    exact absurd (Option.some.inj h).symm hne
  · rw [not_or] at hsilent
    obtain ⟨signer, hsigner⟩ := Option.ne_none_iff_exists'.mp hsilent.1
    obtain ⟨record, -, helement, -⟩ := finalSign_some hsigner hsilent.2 h
    exact ⟨_, _, _, _, record, signer.pubkeyFp_length, helement⟩

theorem Sys.written (inst : Instance) (ops : List Op) :
    ∀ emission ∈ ((Sys.start ossl inst).run ops).emitted,
      Written ossl emission := by
  apply @Sys.run_induction ossl
    (fun sys => ∀ emission ∈ sys.emitted, Written ossl emission)
    (Sys.start ossl inst) (fun _ => True)
  · exact fun emission hemission => absurd hemission List.not_mem_nil
  · intro sys op h _
    have hmsg : ∀ faults payload bufLen, ∀ emission ∈
        (sys.step (.processMsg faults payload bufLen)).emitted,
          Written ossl emission := by
      intro faults payload bufLen
      exact emitted_after h (fun sd hsd _ => processMsg_some hsd) _
    cases op with
    | processMsg faults payload bufLen => exact hmsg faults payload bufLen
    | finalSign faults bufLen =>
        exact emitted_after h (fun sd hsd hne => finalSign_written hsd hne) _
    | action faults msg =>
        rcases action_cases faults sys msg with
          hkept | ⟨cleaned, emitted, -, hcall, hemits⟩
        · rw [hkept]
          exact h
        · rw [hcall]
          rcases hemits with ⟨-, rfl⟩ | ⟨-, hsame⟩
          · exact h
          · refine SameSigned.forall ?_ hsame (hmsg _ _ _)
            intro emission emission' hsigned hwritten
            unfold Written
            rwa [hsigned.1]
    | stop saveFails loadFails inst =>
        intro emission hemission
        apply h
        rw [← (sys.save_emitted saveFails).1]
        exact hemission
    | crash loadFails inst => exact h
  · exact fun _ _ => trivial

def Op.Uses (allowed : Instance → Prop) : Op → Prop
  | .stop _ _ inst => allowed inst
  | .crash _ inst => allowed inst
  | _ => True

/-! ## Stored lines -/

/--
The payload is stored whole, fits the verifier, is one line, does not lose a
carriage return at its end, and brings no certificate element that the verifier
would take for the one of the signer.
-/
structure Storable (emission : Emission) : Prop where
  whole : emission.line = emission.sd ++ emission.payload
  room : (certPart emission.sd).length + emission.payload.length <
    Limits.sdMsgBufLen
  plain : certPart emission.sd ≠ [] ∨
    ¬ sdPrefix hcsSdCertId <:+: emission.payload
  line : 10 ∉ emission.payload
  ends : emission.payload.getLast? ≠ some 13

instance (emission : Emission) : Decidable (Storable emission) :=
  decidable_of_iff
    (emission.line = emission.sd ++ emission.payload ∧
      (certPart emission.sd).length + emission.payload.length <
        Limits.sdMsgBufLen ∧
      (certPart emission.sd ≠ [] ∨
        ¬ sdPrefix hcsSdCertId <:+: emission.payload) ∧
      10 ∉ emission.payload ∧ emission.payload.getLast? ≠ some 13)
    ⟨fun ⟨whole, room, plain, line, ends⟩ => ⟨whole, room, plain, line, ends⟩,
      fun h => ⟨h.whole, h.room, h.plain, h.line, h.ends⟩⟩

theorem doAction_whole_iff {faults : ActionFaults} {wrkr : Worker ossl}
    {stateFile : Option Bytes} {msg : SyslogMsg} {emission : Emission}
    (h : (doAction faults wrkr stateFile msg).emission = some emission) :
    ∃ cleaned, cleanedSd faults msg = .ok cleaned ∧
      (emission.line = emission.sd ++ emission.payload ↔ 0 ∉ cleaned) := by
  obtain ⟨newSd, cleaned, -, hcleaned, hdata, hpayload, hline, -⟩ :=
    doAction_emission h
  refine ⟨cleaned, hcleaned, ?_⟩
  rw [hline, storedLine, hdata, hpayload, List.append_assoc,
    List.append_cancel_left_eq, List.append_cancel_right_eq]
  constructor
  · intro hsame hnul
    have hcut := cString_length_lt hnul
    rw [hsame] at hcut
    exact absurd hcut (Nat.lt_irrefl _)
  · exact cString_of_not_mem

theorem stripLine_record {params : List (Bytes × Bytes)} {record : HcsSdRecord}
    (hparams : ParsesTo ossl params record) {after : Bytes}
    {s : StrippedLine}
    (h : stripLine ossl (elementText params ++ after) = some s) :
    s.sd = record := by
  have hlen := stripLine_fits hparams h
  have hchain := hcsStripSdFromLine_elementText ossl hparams.plain
    hparams.parse (show ¬ sdPrefix hcsSdId <:+: ([] : Bytes) by decide) 0
    (show ([] : Bytes).length + after.length < Limits.sdMsgBufLen by simpa)
  rw [List.nil_append, List.nil_append] at hchain
  unfold stripLine at h
  simp only [hchain] at h
  split at h
  · cases h
    rfl
  · cases h
    rfl
  · cases h
    rfl

section Stored

variable {emission : Emission} {emissions : List Emission}

theorem Written.stripLineEnd (h : Written ossl emission)
    (hs : Storable emission) :
    stripLineEnd (emission.line ++ [10]) = emission.line := by
  obtain ⟨privkey, fp, next, sigSeqFrom, record, -, helement⟩ := h
  have hsd := helement.printable
  rw [stripLineEnd_append (by decide +kernel), hs.whole]
  unfold Verify.stripLineEnd
  rw [List.rdropWhile_eq_self_iff]
  intro hne
  have hlast : ∀ c ∈ (emission.sd ++ emission.payload).getLast?,
      c ≠ 10 ∧ c ≠ 13 := by
    intro c hc
    by_cases hnil : emission.payload = []
    · rw [hnil, List.append_nil] at hc
      have hprints := hsd c (List.mem_of_getLast? hc)
      constructor <;>
        · rintro rfl
          exact absurd hprints (by decide)
    · rw [List.getLast?_append_of_ne_nil _ hnil] at hc
      constructor
      · rintro rfl
        exact hs.line (List.mem_of_getLast? hc)
      · rintro rfl
        exact hs.ends hc
  obtain ⟨hfeed, hreturn⟩ := hlast _ (List.getLast?_eq_some_getLast hne)
  simp [hfeed, hreturn]

theorem Written.not_mem_text (h : Written ossl emission)
    (hs : Storable emission) : (10 : UInt8) ∉ emission.line := by
  obtain ⟨privkey, fp, next, sigSeqFrom, record, -, helement⟩ := h
  rw [hs.whole]
  intro hmem
  rcases List.mem_append.mp hmem with hsd | hpayload
  · exact absurd (helement.printable 10 hsd) (by decide)
  · exact hs.line hpayload

theorem Written.stripsBack (h : Written ossl emission)
    (hs : Storable emission) (lineNum : UInt64) :
    StripsBack ossl { line := emission.line, lineNum := lineNum }
      emission := by
  obtain ⟨privkey, fp, next, sigSeqFrom, record, hfp, helement⟩ := h
  obtain ⟨params, cert, hsd, hcert, hparams⟩ := Element.parses hfp helement
  have hrecord := Element.record hfp helement
  have hroom := hs.room
  have hplain := hs.plain
  rw [hsd, certPart_elementText hparams] at hroom hplain
  obtain ⟨s, hstrip, hmalformed, hmsg⟩ :=
    (restores_iff hparams hcert emission.payload).mpr ⟨hroom, hplain⟩
  have htext : emission.line =
      elementText params ++ (cert ++ emission.payload) := by
    rw [hs.whole, hsd, List.append_assoc]
  refine ⟨rfl, s, ?_, hmalformed, ?_, hmsg⟩
  · rw [← htext] at hstrip
    exact hstrip
  · rw [hrecord, stripLine_record hparams hstrip]

def storedLog (emissions : List Emission) : Bytes :=
  logFile (emissions.map Emission.line)

theorem logLines_storedLog (h : ∀ e ∈ emissions, Written ossl e)
    (hs : ∀ e ∈ emissions, Storable e) :
    logLines (storedLog emissions) = emissions.map Emission.line := by
  have hlines : ∀ line ∈ emissions.map Emission.line, (10 : UInt8) ∉ line := by
    intro line hline
    obtain ⟨e, he, rfl⟩ := List.mem_map.mp hline
    exact (h e he).not_mem_text (hs e he)
  rw [logLines, storedLog, getlines_logFile hlines, List.map_map, List.map_map]
  apply List.map_congr_left
  intro e he
  exact (h e he).stripLineEnd (hs e he)

theorem storedLog_stripsBack (h : ∀ e ∈ emissions, Written ossl e)
    (hs : ∀ e ∈ emissions, Storable e) :
    List.Forall₂ (StripsBack ossl)
      (fileCalls (fun _ => {}) (storedLog emissions)) emissions := by
  rw [fileCalls_eq, logLines_storedLog h hs, List.forall₂_iff_get]
  refine ⟨by simp, ?_⟩
  intro i hi hi'
  simp only [List.get_eq_getElem, List.getElem_mapIdx, List.getElem_map]
  have hmem := List.getElem_mem hi'
  exact (h _ hmem).stripsBack (hs _ hmem) _

end Stored

/-! ## The exit code -/

section Verdict

variable {setup : Setup ossl} {strict : Bool} {sys : Sys ossl}
  {calls : List VerifyCall}

theorem verifierMain_setup (setup : Setup ossl) (strict : Bool)
    (file : Bytes) :
    verifierMain ossl false (setup.opts strict) (fun _ => {}) (some file) =
      exitCode (verifierFinalize (feed
        (keyedCtx strict setup.pubkey setup.fp)
        (fileCalls (fun _ => {}) file))) :=
  verifierMain_eq (setup.verifierInit_eq strict) (.inl rfl) _ file

theorem exitCode_of_lax
    (hpass : exitCode (verifierFinalize (feed
      (keyedCtx false setup.pubkey setup.fp) calls)) = 0) :
    exitCode (verifierFinalize (feed
        (keyedCtx strict setup.pubkey setup.fp) calls)) = 0 ∨
      exitCode (verifierFinalize (feed
        (keyedCtx strict setup.pubkey setup.fp) calls)) = 1 := by
  cases strict with
  | false => exact .inl hpass
  | true =>
      have hclean : (keyedCtx false setup.pubkey setup.fp).errors = [] := rfl
      exact @exitCode_strictly ossl (keyedCtx false setup.pubkey setup.fp) rfl
        hclean _ hpass

theorem Follows.exitCode (h : ∀ strict, Follows setup strict sys)
    (hcalls : List.Forall₂ (StripsBack ossl) calls sys.emitted)
    (hne : sys.emitted ≠ []) (strict : Bool) :
    (exitCode (verifierFinalize (feed
        (keyedCtx strict setup.pubkey setup.fp) calls)) = 0 ↔
      (strict = true → openTail sys.wrkr + savedTail sys.wrkr = 0 ∧
        sys.lostTail = false)) ∧
    (exitCode (verifierFinalize (feed
        (keyedCtx strict setup.pubkey setup.fp) calls)) = 0 ∨
      exitCode (verifierFinalize (feed
        (keyedCtx strict setup.pubkey setup.fp) calls)) = 1) := by
  have hbegun : ∀ strict, (feed (keyedCtx strict setup.pubkey setup.fp)
      calls).state ≠ .expectInit := by
    intro strict
    apply feed_begun
    rintro rfl
    exact hne (List.forall₂_nil_left_iff.mp hcalls)
  have hlax : Verify.exitCode (verifierFinalize (feed
      (keyedCtx false setup.pubkey setup.fp) calls)) = 0 := by
    have hphase := (h false calls hcalls).phase
    rw [exitCode_eq_zero_iff, verifierPassed_iff, verifierFinalize_errors]
    refine ⟨hphase.errors (.inl rfl), hbegun false, fun hstrict => ?_⟩
    rw [hphase.strict_eq] at hstrict
    cases hstrict
  refine ⟨?_, exitCode_of_lax hlax⟩
  cases strict with
  | false => exact iff_of_true hlax (fun hstrict => by cases hstrict)
  | true =>
      rw [exitCode_eq_zero_iff, verifierPassed_iff,
        ((h true calls hcalls).phase.passes_iff (hbegun true))]
      exact ⟨fun h _ => h, fun h => h rfl⟩

theorem exitCode_unread {ctx : VerifierCtx ossl} (hclean : ctx.errors = [])
    (hstart : ctx.state = .expectInit) :
    exitCode (verifierFinalize ctx) = 1 := by
  have hnone : ∀ tells, ¬ Verify.Records tells ctx.errors := by
    rintro tells ⟨e, he, -⟩
    rw [hclean] at he
    cases he
  apply (exitCode_cases ctx).2.2 (hnone _) (hnone _)
  rw [Ne, verifierFinalize_errors]
  exact fun h => h.2.1 hstart

theorem keyAccepted_of_clean {ctx : VerifierCtx ossl} {call : VerifyCall}
    (hlive : Live ctx) (hstart : ctx.state = .expectInit)
    (hfaults : call.faults = {})
    (h : (processCall ctx call).1.errors = []) :
    ∃ s, stripLine ossl call.line = some s ∧ s.malformed = false ∧
      s.sd.type = .init ∧ KeyAccepted {} ctx s := by
  obtain ⟨-, s, hstrip, hmalformed, hcases⟩ := processLine_clean hlive h
  have hidle : ctx.state ≠ .processing := by
    rw [hstart]
    exact fun h => by cases h
  rcases hcases with ⟨ctx', haccepts⟩ | ⟨tail, hsilent⟩
  · rw [hfaults] at haccepts
    cases haccepts with
    | init htype hinit =>
        exact ⟨s, hstrip, hmalformed, htype, hinit.hasFp, _, hinit.trust,
          hinit.ready.havePubkey, hinit.ready.fp⟩
    | msg _ hstate => exact absurd hstate hidle
    | sig _ hstate => exact absurd hstate hidle
    | «continue» _ hstate => exact absurd hstate hidle
  · apply absurd hsilent
    apply not_silent_of_run
    unfold PrimitivesRun HashRuns
    rw [hfaults]
    exact ⟨⟨rfl, rfl⟩, rfl⟩

theorem processCall_other_key {ctx : VerifierCtx ossl} {call : VerifyCall}
    (hlive : Live ctx) (hstore : ctx.trustStore = none)
    (hhave : ctx.havePubkey = true) (hother : ctx.pubkeyFp ≠ setup.fp)
    (hfaults : call.faults = {})
    (h : (processCall (keyedCtx false setup.pubkey setup.fp)
      call).1.errors = []) :
    processCall ctx call = setError (addError ctx call.lineNum
      (ascii "INIT fingerprint mismatch")) := by
  obtain ⟨s, hstrip, hmalformed, htype, hhas, ctx', htrust, -, hfp⟩ :=
    keyAccepted_of_clean (.inl rfl) rfl hfaults h
  rw [(trusted_of_key (.inl rfl) {} s.certDer 0).1] at htrust
  cases htrust
  have hne : s.sd.pubkeyFp ≠ ctx.pubkeyFp :=
    fun heq => hother (heq.symm.trans hfp)
  have hclean : ¬ s.malformed = true := by simp [hmalformed]
  have htrust := (trusted_of_key (.inl hstore) call.faults s.certDer
    call.lineNum).2
  unfold processCall verifierProcessLine handleSd handleSdInit
  simp only [hstrip, addErrorIf_of_not hclean, htype, hhas, htrust,
    hlive.not_stopped, hhave, if_false, ne_eq, not_true_eq_false, and_false,
    if_pos hne]

theorem exitCode_of_mismatch {ctx : VerifierCtx ossl} {call : VerifyCall}
    (h : processCall ctx call = setError (addError ctx call.lineNum
      (ascii "INIT fingerprint mismatch"))) :
    exitCode (verifierFinalize (feed ctx (call :: calls))) ≠ 0 ∧
      (ctx.errors = [] →
        exitCode (verifierFinalize (feed ctx (call :: calls))) = 3) := by
  rw [feed_cons, h, feed_of_not_live (not_live_of_error rfl)]
  constructor
  · rw [Ne, exitCode_eq_zero_iff, verifierPassed_iff, verifierFinalize_errors]
    exact fun hpass => addError_errors _ _ _ hpass.1
  · intro hclean
    apply (exitCode_cases _).1
    refine ⟨⟨call.lineNum, (ascii "INIT fingerprint mismatch").take
      (Limits.verifierMessageLen - 1)⟩, ?_, ?_⟩
    · change _ ∈ pushError ctx.errors _ _
      rw [hclean]
      exact List.mem_singleton_self _
    · change TellsMismatch ((ascii "INIT fingerprint mismatch").take
        (Limits.verifierMessageLen - 1))
      decide +kernel

theorem exitCode_other_key {call : VerifyCall} {key : ossl.Pkey} {fp : Bytes}
    (hfaults : call.faults = {}) (hother : fp ≠ setup.fp)
    (h : (processCall (keyedCtx false setup.pubkey setup.fp)
      call).1.errors = []) :
    exitCode (verifierFinalize (feed (keyedCtx strict key fp)
      (call :: calls))) = 3 :=
  (exitCode_of_mismatch (@processCall_other_key _ setup
    (keyedCtx strict key fp) _ (.inl rfl) rfl rfl hother hfaults h)).2 rfl

theorem Follows.head (h : Follows setup false sys) {lines : List VerifyCall}
    (hlines : List.Forall₂ (StripsBack ossl) lines sys.emitted)
    (hne : sys.emitted ≠ []) :
    ∃ call calls, lines = call :: calls ∧ call.faults = {} ∧
      (processCall (keyedCtx false setup.pubkey setup.fp)
        call).1.errors = [] := by
  have hclean := (h lines hlines).phase.errors (.inl rfl)
  cases lines with
  | nil => exact absurd (List.forall₂_nil_left_iff.mp hlines) hne
  | cons call calls =>
      obtain ⟨emission, rest, hcall, -, -⟩ :=
        List.forall₂_cons_left_iff.mp hlines
      exact ⟨call, calls, rfl, hcall.1, feed_errors hclean⟩

theorem Follows.verdict (h : ∀ strict, Follows setup strict sys)
    (hwritten : ∀ e ∈ sys.emitted, Written ossl e)
    (hstorable : ∀ e ∈ sys.emitted, Storable e) (strict : Bool) :
    let code := verifierMain ossl false (setup.opts strict) (fun _ => {})
      (some (storedLog sys.emitted))
    (code = 0 ↔ sys.emitted ≠ [] ∧ (strict = true →
      openTail sys.wrkr + savedTail sys.wrkr = 0 ∧ sys.lostTail = false)) ∧
    (code = 0 ∨ code = 1) := by
  intro code
  have hcode : code = Verify.exitCode (verifierFinalize (feed
      (keyedCtx strict setup.pubkey setup.fp)
      (fileCalls (fun _ => {}) (storedLog sys.emitted)))) :=
    verifierMain_setup setup strict _
  rw [hcode]
  by_cases hnil : sys.emitted = []
  · have hcalls : fileCalls (fun _ => {}) (storedLog sys.emitted) = [] := by
      rw [hnil]
      rfl
    rw [hcalls, feed_nil, exitCode_unread rfl rfl, hnil]
    exact ⟨iff_of_false (by decide) fun h => h.1 rfl, .inr rfl⟩
  · have hcalls := storedLog_stripsBack hwritten hstorable
    obtain ⟨hzero, hone⟩ := Follows.exitCode h hcalls hnil strict
    exact ⟨hzero.trans (and_iff_right hnil).symm, hone⟩

end Verdict

/--
The verdict on the log of an orderly life: it fails when nothing was written
and, in the strict mode, exactly when messages are left without a signature or
a crash took some along.  It never tells of a wrong key or certificate.
-/
theorem stored_log_verdict (setup : Setup ossl) (inst : Instance)
    (hinst : SameInstance setup inst) (ops : List Op)
    (hops : ∀ op ∈ ops, op.Orderly setup)
    (hstorable : ∀ e ∈ ((Sys.start ossl inst).run ops).emitted, Storable e)
    (strict : Bool) :
    let sys := (Sys.start ossl inst).run ops
    let code := verifierMain ossl false (setup.opts strict) (fun _ => {})
      (some (storedLog sys.emitted))
    (code = 0 ↔ sys.emitted ≠ [] ∧ (strict = true →
      openTail sys.wrkr + savedTail sys.wrkr = 0 ∧ sys.lostTail = false)) ∧
    (code = 0 ∨ code = 1) := by
  apply Follows.verdict _ (Sys.written inst ops) hstorable
  exact fun strict => follows_run hinst hops

/-- A log that is verified with the key of another signer. -/
theorem stored_log_other_key (setup : Setup ossl) (inst : Instance)
    (hinst : SameInstance setup inst) (ops : List Op)
    (hops : ∀ op ∈ ops, op.Orderly setup)
    (hstorable : ∀ e ∈ ((Sys.start ossl inst).run ops).emitted, Storable e)
    (hemitted : ((Sys.start ossl inst).run ops).emitted ≠ [])
    (path : Bytes) (key : ossl.Pkey) (fp : Bytes)
    (hload : hcsLoadPublicKey ossl path = some key)
    (hkey : hcsPubkeyFingerprint ossl false key = some fp)
    (hother : fp ≠ setup.fp) (strict : Bool) :
    verifierMain ossl false { pubkeyPath := some path, strict := strict }
      (fun _ => {})
      (some (storedLog ((Sys.start ossl inst).run ops).emitted)) = 3 := by
  have hinit : verifierInit ossl false
      { pubkeyPath := some path, strict := strict } =
        some (keyedCtx strict key fp) := by
    simp [verifierInit, withPubkey, hload, hkey]
  have hcalls := storedLog_stripsBack (Sys.written inst ops) hstorable
  rw [verifierMain_eq hinit (.inl rfl)]
  obtain ⟨call, calls, hlines, hfaults, hclean⟩ :=
    (@follows_run ossl setup false inst hinst ops hops).head hcalls hemitted
  rw [hlines]
  exact exitCode_other_key hfaults hother hclean

/-! ## The plug-in -/

/--
One key and one algorithm, and nothing fails past a chain hash; a process may
end at any moment, and a save may fail in any way.
-/
def PluginOp.Orderly (setup : Setup ossl) : PluginOp → Prop
  | .create loadFails => loadFails = false
  | .action _ faults _ => faults.newSd = false ∧
      Succeeds faults.core Common.Limits.hcsSdWithCertMaxLen
  | .free _ _ => True
  | .start inst => SameInstance setup inst
  | .cut _ _ _ inst => SameInstance setup inst

section Plugin

variable {setup : Setup ossl} {plugin : Plugin ossl}
  {files : Files Bytes Bytes}

theorem coarseFree_orderly (hinst : SameInstance setup plugin.data.inst)
    (i : Nat) (faults : SaveFaults) :
    ∀ op ∈ plugin.coarseFree i faults, op.Orderly setup := by
  unfold Plugin.coarseFree
  intro op hop
  split at hop
  · split_ifs at hop
    · rw [List.mem_singleton.mp hop]
      exact ⟨rfl, rfl, hinst⟩
    · rw [List.mem_singleton.mp hop]
      exact ⟨rfl, hinst⟩
  · cases hop

theorem coarse_orderly (hinst : SameInstance setup plugin.data.inst)
    {op : PluginOp} (horderly : op.Orderly setup) :
    ∀ coarse ∈ plugin.coarse op, coarse.Orderly setup := by
  intro coarse hcoarse
  cases op with
  | create loadFails =>
      unfold Plugin.coarse at hcoarse
      dsimp only at hcoarse
      split_ifs at hcoarse
      · rw [List.mem_singleton.mp hcoarse]
        exact ⟨horderly, hinst⟩
      · cases hcoarse
  | action i faults msg =>
      unfold Plugin.coarse at hcoarse
      dsimp only at hcoarse
      split at hcoarse
      · rw [List.mem_singleton.mp hcoarse]
        exact horderly
      · cases hcoarse
  | free i faults => exact coarseFree_orderly hinst i faults coarse hcoarse
  | start inst =>
      rw [List.mem_singleton.mp hcoarse]
      exact ⟨rfl, horderly⟩
  | cut i faults n inst =>
      have hcrash : Op.Orderly setup (.crash false inst) := ⟨rfl, horderly⟩
      unfold Plugin.coarse at hcoarse
      dsimp only at hcoarse
      split at hcoarse
      · rw [List.mem_singleton.mp hcoarse]
        exact hcrash
      · split_ifs at hcoarse
        · rcases List.mem_append.mp hcoarse with hfree | hend
          · exact coarseFree_orderly hinst i faults coarse hfree
          · rw [List.mem_singleton.mp hend]
            exact hcrash
        · rw [List.mem_singleton.mp hcoarse]
          exact hcrash

theorem step_sameInstance (hinst : SameInstance setup plugin.data.inst)
    (files : Files Bytes Bytes) {op : PluginOp}
    (horderly : op.Orderly setup) :
    SameInstance setup (plugin.step files op).1.data.inst := by
  have hfree : ∀ i wrkr rc,
      SameInstance setup (plugin.free i wrkr rc).data.inst := by
    intro i wrkr rc
    unfold Plugin.free released
    dsimp only
    split_ifs
    · exact hinst
    · exact hinst
  cases op with
  | create loadFails =>
      simp only [Plugin.step, createWrkrInstance]
      split_ifs
      · exact hinst
      · exact hinst
  | action i faults msg =>
      simp only [Plugin.step]
      split
      · exact hinst
      · exact hinst
  | free i faults =>
      simp only [Plugin.step]
      split
      · exact hinst
      · exact hfree _ _ _
  | start inst => exact horderly
  | cut i faults n inst =>
      simp only [Plugin.step]
      split
      · exact horderly
      · split_ifs
        · exact horderly
        · exact horderly

theorem coarseRun_orderly (hinst : SameInstance setup plugin.data.inst)
    (files : Files Bytes Bytes) {ops : List PluginOp}
    (hops : ∀ op ∈ ops, op.Orderly setup) :
    ∀ op ∈ Plugin.coarseRun (plugin, files) ops, op.Orderly setup := by
  induction ops generalizing plugin files with
  | nil => exact fun op hop => absurd hop List.not_mem_nil
  | cons first ops ih =>
      have hfirst := hops first List.mem_cons_self
      intro op hop
      rcases List.mem_append.mp hop with hop | hop
      · exact coarse_orderly hinst hfirst op hop
      · exact ih (step_sameInstance hinst files hfirst) _
          (fun op hop => hops op (List.mem_cons_of_mem _ hop)) op hop

/-- The messages that a worker, or the state file for the next one, still owes
a signature. -/
def owed (plugin : Plugin ossl) (files : Files Bytes Bytes) : UInt64 :=
  match plugin.active with
  | some wrkr => openTail wrkr + savedTail wrkr
  | none =>
      match mmhashchainsigsLoadState false
          (files (statePath plugin.data.statefiledir)) with
      | none => 0
      | some state => state.seq - state.sigSeqFrom

theorem Matches.owed {sys : Sys ossl} {strict : Bool} {ctx : VerifierCtx ossl}
    (h : Matches plugin files sys) (hphase : InPhase setup strict sys ctx) :
    openTail sys.wrkr + savedTail sys.wrkr = owed plugin files := by
  unfold System.owed
  cases hactive : plugin.active with
  | some wrkr => rw [h.active wrkr hactive]
  | none =>
      have hsigner := h.idle hactive
      have hopen : openTail sys.wrkr = 0 := by
        unfold openTail
        rw [hsigner]
        rfl
      rw [hopen, UInt64.zero_add, ← h.file, savedTail]
      cases hphase.phase with
      | idle _ hpending hfile =>
          rw [hpending, hfile]
          rfl
      | saved _ hpending hfile =>
          rw [hpending, hfile, loadState_stateText _ _ setup.fp_length]
      | «open» hsome =>
          rw [hsigner] at hsome
          cases hsome

/--
The log of a plug-in whose process may be killed at any moment, also inside of
a save: the lax mode accepts it, and the strict mode as long as no message was
lost with a process and none is owed a signature.
-/
theorem plugin_log_verdict (setup : Setup ossl) (data : InstanceData)
    (hinst : SameInstance setup data.inst)
    (hdir : data.statefiledir.length < 510) (files : Files Bytes Bytes)
    (hfile : files (statePath data.statefiledir) = none)
    (ops : List PluginOp) (hlen : ops.length < 2 ^ 32)
    (hops : ∀ op ∈ ops, op.Orderly setup)
    (hstorable : ∀ e ∈ (Plugin.run (Plugin.fresh ossl data, files)
      ops).1.emitted, Storable e) (strict : Bool) :
    let final := Plugin.run (Plugin.fresh ossl data, files) ops
    let code := verifierMain ossl false (setup.opts strict) (fun _ => {})
      (some (storedLog final.1.emitted))
    (code = 0 ↔ final.1.emitted ≠ [] ∧ (strict = true →
      owed final.1 final.2 = 0 ∧ final.1.lostTail = false)) ∧
    (code = 0 ∨ code = 1) := by
  intro final code
  have hmatches := matches_run ossl hdir files hlen
  have horderly := @coarseRun_orderly ossl setup (Plugin.fresh ossl data) hinst
    files ops hops
  have hstart : Sys.found ossl data.inst
      (files (statePath data.statefiledir)) = Sys.start ossl data.inst := by
    rw [hfile]
    rfl
  rw [hstart] at hmatches
  have hfollows : ∀ strict, Follows setup strict _ :=
    fun strict => follows_run hinst horderly
  have hwritten := @Sys.written ossl data.inst
    (Plugin.coarseRun (Plugin.fresh ossl data, files) ops)
  obtain ⟨hzero, hone⟩ := Follows.verdict hfollows hwritten
    (by rw [hmatches.emitted]; exact hstorable) strict
  rw [hmatches.emitted] at hzero hone
  have hphase := hfollows strict _ (storedLog_stripsBack hwritten
    (by rw [hmatches.emitted]; exact hstorable))
  rw [hmatches.owed hphase, hmatches.lost] at hzero
  exact ⟨hzero, hone⟩

end Plugin

section Samples

theorem sampleOps_orderly : ∀ op ∈ sampleOps, op.Orderly sampleSetup := by
  have hinst : SameInstance sampleSetup sampleInstance := ⟨rfl, rfl, rfl⟩
  have hs : Succeeds {} 512 := ⟨rfl, rfl, rfl, rfl, rfl, rfl, by decide⟩
  simp only [sampleOps, List.forall_mem_cons]
  exact ⟨hs, ⟨rfl, rfl, hinst⟩, hs, hs, ⟨rfl, hinst⟩, by simp⟩

/-- The crash has left a message without a signature. -/
theorem stored_log_verdict_sample :
    let sys := (Sys.start sampleOpenSSL sampleInstance).run sampleOps
    let code := verifierMain sampleOpenSSL false (sampleSetup.opts true)
      (fun _ => {}) (some (storedLog sys.emitted))
    (code = 0 ↔ sys.emitted ≠ [] ∧ (true = true →
      openTail sys.wrkr + savedTail sys.wrkr = 0 ∧ sys.lostTail = false)) ∧
    (code = 0 ∨ code = 1) :=
  stored_log_verdict sampleSetup sampleInstance ⟨rfl, rfl, rfl⟩ sampleOps
    sampleOps_orderly (by decide +kernel) true

theorem stored_log_other_key_sample :
    verifierMain sampleOpenSSL false { pubkeyPath := some [8], strict := true }
      (fun _ => {}) (some (storedLog
        ((Sys.start sampleOpenSSL sampleInstance).run sampleOps).emitted)) =
      3 :=
  stored_log_other_key sampleSetup sampleInstance ⟨rfl, rfl, rfl⟩ sampleOps
    sampleOps_orderly (by decide +kernel) (by decide +kernel) [8]
    ([8] : Bytes) (sampleDigest .sha256 [8]) rfl rfl (by decide +kernel) true

def killedOps : List PluginOp :=
  [.create false, .action 0 {} samplePluginMsg, .cut 0 {} 1 sampleData.inst,
    .create false, .action 0 {} samplePluginMsg, .free 0 {}]

theorem plugin_log_verdict_sample :
    let final := Plugin.run (Plugin.fresh sampleOpenSSL sampleData, noFiles)
      killedOps
    let code := verifierMain sampleOpenSSL false (sampleSetup.opts true)
      (fun _ => {}) (some (storedLog final.1.emitted))
    (code = 0 ↔ final.1.emitted ≠ [] ∧ (true = true →
      owed final.1 final.2 = 0 ∧ final.1.lostTail = false)) ∧
    (code = 0 ∨ code = 1) := by
  have hinst : SameInstance sampleSetup sampleData.inst := ⟨rfl, rfl, rfl⟩
  have hs : Succeeds {} Common.Limits.hcsSdWithCertMaxLen :=
    ⟨rfl, rfl, rfl, rfl, rfl, rfl, by decide⟩
  have hops : ∀ op ∈ killedOps, op.Orderly sampleSetup := by
    simp only [killedOps, List.forall_mem_cons]
    exact ⟨rfl, ⟨rfl, hs⟩, hinst, rfl, ⟨rfl, hs⟩, trivial, by simp⟩
  exact plugin_log_verdict sampleSetup sampleData hinst (by decide) noFiles rfl
    killedOps (by decide) hops (by decide +kernel) true

end Samples

end MmHashChainSigs.System
