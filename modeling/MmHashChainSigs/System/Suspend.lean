import MmHashChainSigs.Module.Coverage
import MmHashChainSigs.System.LockStep
import MmHashChainSigs.System.Payload
import MmHashChainSigs.System.Restart

/-!
# Failed calls and their retry

A call that fails before its chain hash leaves the chain as it was.  One that
fails behind it does not: the record of the retry then stands one position
further than its line.
-/

namespace MmHashChainSigs.System

open MmHashChainSigs.Foundation
open MmHashChainSigs.Common
open MmHashChainSigs.Module
open MmHashChainSigs.Verify

variable {ossl : OpenSSL}

/-! ## One call -/

structure ChainKept (wrkr wrkr' : Worker ossl) : Prop where
  current : wrkr'.chain.current = wrkr.chain.current
  seq : wrkr'.chain.seq = wrkr.chain.seq
  msgCount : wrkr'.chain.msgCount = wrkr.chain.msgCount
  sigSeqFrom : wrkr'.sigSeqFrom = wrkr.sigSeqFrom
  isFirst : wrkr'.isFirst = wrkr.isFirst

/-- A call that fails can be made again as if it had not been made. -/
def RetrySafe (wrkr : Worker ossl) (call : SignCall ossl) : Prop :=
  call.sd = none → ChainKept wrkr call.wrkr

/-- The chain hash fails, or the element that is due can be written. -/
def EntryKept (faults : SignFaults) (wrkr : Worker ossl)
    (signer : SignerCtx ossl) (payload : Bytes) (bufLen : Nat) : Prop :=
  faults.hashChain = true ∨ EntryWrites faults wrkr signer payload bufLen

/-- Nothing is to be signed, the chain hash fails, or the signature fits. -/
def FinalKept (faults : SignFaults) (wrkr : Worker ossl)
    (signer : SignerCtx ossl) (bufLen : Nat) : Prop :=
  wrkr.chain.msgCount = 0 ∨ faults.hashChain = true ∨
    SigWrites ossl faults.sign faults.nonce signer.privkey wrkr.chain
      wrkr.sigSeqFrom [] bufLen

theorem ChainKept.refl (wrkr : Worker ossl) : ChainKept wrkr wrkr :=
  ⟨rfl, rfl, rfl, rfl, rfl⟩

theorem not_kept_of_advanced {wrkr : Worker ossl} {payload : Bytes}
    {call : SignCall ossl} (h : Advanced wrkr payload call) :
    ¬ ChainKept wrkr call.wrkr := by
  intro hkept
  have hseq := hkept.seq
  rw [h.seq] at hseq
  grind

/-- Behind the chain hash, the retry is safe exactly if nothing fails. -/
theorem retrySafe_iff_of_advanced {wrkr : Worker ossl} {payload : Bytes}
    {call : SignCall ossl} (h : Advanced wrkr payload call) :
    RetrySafe wrkr call ↔ call.sd.isSome := by
  unfold RetrySafe
  cases hsd : call.sd with
  | none => simp [not_kept_of_advanced h]
  | some sd => simp

theorem processEntry_retrySafe_iff {wrkr : Worker ossl}
    {signer : SignerCtx ossl} (hsigner : wrkr.signer = some signer)
    (faults : SignFaults) (payload : Bytes) (bufLen : Nat) :
    RetrySafe wrkr (processEntry faults wrkr signer payload bufLen) ↔
      EntryKept faults wrkr signer payload bufLen := by
  unfold EntryKept
  rcases processEntry_cases hsigner faults payload bufLen with
    ⟨hhash, hkept⟩ | ⟨hhash, hadvanced⟩
  · rw [hkept]
    exact iff_of_true (fun _ => .refl wrkr) (.inl hhash)
  · rw [retrySafe_iff_of_advanced hadvanced, processEntry_writes_iff hhash]
    simp [hhash]

theorem processMsg_retrySafe_iff {wrkr : Worker ossl}
    {signer : SignerCtx ossl} (hsigner : wrkr.signer = some signer)
    (hpending : wrkr.pendingState = none) (faults : SignFaults)
    (stateFile : Option Bytes) (payload : Bytes) (bufLen : Nat) :
    RetrySafe wrkr (mmhashchainsigsProcessMsg faults wrkr stateFile payload
      bufLen).1 ↔ EntryKept faults wrkr signer payload bufLen := by
  have hready := readyWorker_of_signer hsigner faults
  rw [← processEntry_retrySafe_iff hsigner,
    processMsg_of_open (by rw [hready]; exact hsigner)
      (by rw [hready]; exact hpending), hready]
  rfl

theorem finalSign_retrySafe_iff {wrkr : Worker ossl}
    {signer : SignerCtx ossl} (hsigner : wrkr.signer = some signer)
    (faults : SignFaults) (bufLen : Nat) :
    RetrySafe wrkr (mmhashchainsigsFinalSign faults wrkr bufLen) ↔
      FinalKept faults wrkr signer bufLen := by
  unfold FinalKept
  by_cases hcount : wrkr.chain.msgCount = 0
  · rw [finalSign_of_silent (.inr hcount)]
    exact iff_of_true (fun _ => .refl wrkr) (.inl hcount)
  · rcases finalSign_cases hsigner hcount faults bufLen with
      ⟨hhash, hkept⟩ | ⟨hhash, hadvanced⟩
    · rw [hkept]
      exact iff_of_true (fun _ => .refl wrkr) (.inr (.inl hhash))
    · rw [retrySafe_iff_of_advanced hadvanced, finalSign_writes_iff hsigner hcount hhash]
      simp [hcount, hhash]

/-! ## Runs of which every failed call is made again -/

def MsgKept (faults : SignFaults) (wrkr : Worker ossl) (payload : Bytes)
    (bufLen : Nat) : Prop :=
  ∀ signer, (readyWorker faults wrkr).1.signer = some signer →
    EntryKept faults (readyWorker faults wrkr).1 signer payload bufLen

/--
The states of a worker that no state file precedes.  Its calls meet their
conditions, and its actions succeed or are suspended.
-/
inductive SuspendRun (inst : Instance) : Sys ossl → Prop where
  | start : SuspendRun inst (Sys.start ossl inst)
  | processMsg {sys : Sys ossl} (h : SuspendRun inst sys)
      (faults : SignFaults) (payload : Bytes) (bufLen : Nat)
      (hkept : MsgKept faults sys.wrkr payload bufLen) :
      SuspendRun inst (sys.step (.processMsg faults payload bufLen))
  | finalSign {sys : Sys ossl} (h : SuspendRun inst sys)
      (faults : SignFaults) (bufLen : Nat)
      (hkept : ∀ signer, sys.wrkr.signer = some signer →
        FinalKept faults sys.wrkr signer bufLen) :
      SuspendRun inst (sys.step (.finalSign faults bufLen))
  | action {sys : Sys ossl} (h : SuspendRun inst sys)
      (faults : ActionFaults) (msg : SyslogMsg)
      (hret : (doAction faults sys.wrkr sys.stateFile msg).ret = .ok ∨
        (doAction faults sys.wrkr sys.stateFile msg).ret = .suspended)
      (hkept : ∀ cleaned, cleanedSd faults msg = .ok cleaned →
        MsgKept faults.core sys.wrkr (cleaned ++ msg.msg)
          Common.Limits.hcsSdWithCertMaxLen) :
      SuspendRun inst (sys.step (.action faults msg))

theorem action_suspends {faults : ActionFaults} {sys : Sys ossl}
    {msg : SyslogMsg}
    (hret : (doAction faults sys.wrkr sys.stateFile msg).ret = .ok ∨
      (doAction faults sys.wrkr sys.stateFile msg).ret = .suspended) :
    sys.step (.action faults msg) = sys ∨
    ∃ cleaned emitted, cleanedSd faults msg = .ok cleaned ∧
      let next := sys.step (.processMsg faults.core (cleaned ++ msg.msg)
        Common.Limits.hcsSdWithCertMaxLen)
      sys.step (.action faults msg) = { next with emitted := emitted } ∧
        List.Forall₂ SameSigned next.emitted emitted := by
  rcases action_cases faults sys msg with
    hkept | ⟨cleaned, emitted, hcleaned, hcall, ⟨hnew, rfl⟩ | ⟨-, hsame⟩⟩
  · exact .inl hkept
  · refine .inr ⟨cleaned, _, hcleaned, hcall, ?_⟩
    unfold doAction at hret
    simp only [hcleaned, hnew, if_true] at hret
    split_ifs at hret
    · simp at hret
    · cases hsd : (mmhashchainsigsProcessMsg faults.core sys.wrkr
          sys.stateFile (cleaned ++ msg.msg)
          Common.Limits.hcsSdWithCertMaxLen).1.sd with
      | none =>
          simp only [Sys.step, Sys.after, hsd, List.append_nil]
          exact List.forall₂_same.mpr fun _ _ => ⟨rfl, rfl⟩
      | some sd =>
          simp only [hsd] at hret
          simp at hret
  · exact .inr ⟨cleaned, emitted, hcleaned, hcall, hsame⟩

/-! ## The records of a run -/

def Begun (inst : Instance) (wrkr : Worker ossl)
    (records : List HcsSdRecord) : Prop :=
  (records = [] ∧ wrkr.signer = none ∧ wrkr.inst = inst ∧
    wrkr.pendingState = none) ∨ Tracks inst wrkr records

section Begun

variable {inst : Instance} {wrkr : Worker ossl} {records : List HcsSdRecord}

theorem Begun.inst_eq (h : Begun inst wrkr records) : wrkr.inst = inst := by
  rcases h with ⟨-, -, hinst, -⟩ | htracks
  · exact hinst
  · exact htracks.inst

theorem Begun.pendingState (h : Begun inst wrkr records) :
    wrkr.pendingState = none := by
  rcases h with ⟨-, -, -, hpending⟩ | htracks
  · exact hpending
  · exact htracks.pendingState

theorem Begun.tracks (h : Begun inst wrkr records) {signer : SignerCtx ossl}
    (hsigner : wrkr.signer = some signer) : Tracks inst wrkr records := by
  rcases h with ⟨-, hnone, -⟩ | htracks
  · rw [hnone] at hsigner
    cases hsigner
  · exact htracks

theorem Begun.ready (h : Begun inst wrkr records) (faults : SignFaults) :
    Begun inst (readyWorker faults wrkr).1 records := by
  unfold readyWorker
  split_ifs with hsome
  · exact h
  · rw [Option.not_isSome_iff_eq_none] at hsome
    have hnil : records = [] := by
      rcases h with ⟨hnil, -⟩ | htracks
      · exact hnil
      · obtain ⟨signer, hsigner, -⟩ := htracks.signer
        rw [hsome] at hsigner
        cases hsigner
    rcases mmhashchainsigsInit_cases hsome faults with
      ⟨hnone, hinst, hpending, -⟩ | ⟨signer, hloaded, hinit⟩
    · exact .inl ⟨hnil, hnone, hinst.trans h.inst_eq,
        hpending.trans h.pendingState⟩
    · right
      have hunopened : Unopened (startedWorker wrkr signer) :=
        ⟨rfl, rfl, rfl, rfl⟩
      have htracks := hunopened.tracks rfl hloaded h.pendingState
      rw [hinit, hnil, ← h.inst_eq]
      exact htracks

def Records (inst : Instance) (records : List HcsSdRecord)
    (call : SignCall ossl) : Prop :=
  ∃ more : List HcsSdRecord,
    (call.sd.elim [] written).map (emittedRecord ossl) = more.map some ∧
      Begun inst call.wrkr (records ++ more)

theorem Begun.silent (h : Begun inst wrkr records) {call : SignCall ossl}
    (hwrkr : call.wrkr = wrkr) (hsd : call.sd = none ∨ call.sd = some []) :
    Records inst records call := by
  refine ⟨[], ?_, by rwa [hwrkr, List.append_nil]⟩
  cases hsd with
  | inl hnone =>
      rw [hnone]
      rfl
  | inr hnil =>
      rw [hnil]
      rfl

theorem Begun.processMsg (h : Begun inst wrkr records) {faults : SignFaults}
    {payload : Bytes} {bufLen : Nat}
    (hkept : MsgKept faults wrkr payload bufLen)
    (stateFile : Option Bytes) :
    Records inst records (mmhashchainsigsProcessMsg faults wrkr stateFile
      payload bufLen).1 := by
  have hready := h.ready faults
  cases hsigner : (readyWorker faults wrkr).1.signer with
  | none =>
      rw [processMsg_of_no_signer hsigner]
      exact hready.silent rfl (.inl rfl)
  | some signer =>
      rw [processMsg_of_open hsigner hready.pendingState]
      rcases processEntry_cases hsigner faults payload bufLen with
        ⟨-, hsilent⟩ | ⟨hhash, -⟩
      · rw [hsilent]
        exact hready.silent rfl (.inl rfl)
      · have hwrites := (hkept signer hsigner).resolve_left (by simp [hhash])
        obtain ⟨sd, hsd⟩ := Option.isSome_iff_exists.mp
          ((processEntry_writes_iff hhash _ signer payload bufLen).mpr hwrites)
        obtain ⟨record, hwritten, htracks⟩ :=
          (hready.tracks hsigner).entry hsigner hsd
        refine ⟨[record], ?_, .inr htracks⟩
        simp only [hsd, Option.elim_some]
        exact hwritten

theorem Begun.finalSign (h : Begun inst wrkr records) {faults : SignFaults}
    {bufLen : Nat} (hkept : ∀ signer, wrkr.signer = some signer →
      FinalKept faults wrkr signer bufLen) :
    Records inst records (mmhashchainsigsFinalSign faults wrkr bufLen) := by
  cases hsigner : wrkr.signer with
  | none =>
      rw [finalSign_of_silent (.inl hsigner)]
      exact h.silent rfl (.inr rfl)
  | some signer =>
      have hsafe := (finalSign_retrySafe_iff hsigner faults bufLen).mpr
        (hkept signer hsigner)
      cases hsd : (mmhashchainsigsFinalSign faults wrkr bufLen).sd with
      | none =>
          have hcount : wrkr.chain.msgCount ≠ 0 := by
            intro hzero
            rw [finalSign_of_silent (.inr hzero)] at hsd
            cases hsd
          rcases finalSign_cases hsigner hcount faults bufLen with
            ⟨-, hsilent⟩ | ⟨-, hadvanced⟩
          · rw [hsilent]
            exact h.silent rfl (.inl rfl)
          · exact absurd (hsafe hsd) (not_kept_of_advanced hadvanced)
      | some sd =>
          obtain ⟨more, hwritten, htracks⟩ := (h.tracks hsigner).finalSign hsd
          refine ⟨more, ?_, .inr htracks⟩
          rw [hsd]
          exact hwritten

end Begun

theorem msgKept_of_isSome {faults : SignFaults} {wrkr : Worker ossl}
    {stateFile : Option Bytes} {payload : Bytes} {bufLen : Nat}
    (hpending : wrkr.pendingState = none)
    (hsome : (mmhashchainsigsProcessMsg faults wrkr stateFile payload
      bufLen).1.sd.isSome) : MsgKept faults wrkr payload bufLen := by
  intro signer hsigner
  rw [processMsg_of_open hsigner
    ((readyWorker_pending faults wrkr).trans hpending)] at hsome
  cases hhash : faults.hashChain with
  | true => exact .inl hhash
  | false => exact .inr ((processEntry_writes_iff hhash _ _ _ _).mp hsome)

theorem msgKept_of_ok {faults : ActionFaults} {wrkr : Worker ossl}
    {stateFile : Option Bytes} {msg : SyslogMsg}
    (hpending : wrkr.pendingState = none)
    (hret : (doAction faults wrkr stateFile msg).ret = .ok) {cleaned : Bytes}
    (hcleaned : cleanedSd faults msg = .ok cleaned) :
    MsgKept faults.core wrkr (cleaned ++ msg.msg)
      Common.Limits.hcsSdWithCertMaxLen := by
  apply @msgKept_of_isSome _ _ _ stateFile _ _ hpending
  unfold doAction at hret
  simp only [hcleaned] at hret
  cases hsd : (mmhashchainsigsProcessMsg faults.core wrkr stateFile
      (cleaned ++ msg.msg) Common.Limits.hcsSdWithCertMaxLen).1.sd with
  | none =>
      simp only [hsd] at hret
      split_ifs at hret
  | some sd => rfl

/-! ## The verifier of a run -/

section Verify

variable {setup : Setup ossl} {strict lost : Bool} {ctx : VerifierCtx ossl}
  {wrkr : Worker ossl} {stateFile : Option Bytes}

theorem Phase.keptMsg (h : Phase setup strict lost wrkr stateFile ctx)
    (hsame : SameKey setup wrkr.inst) (hpending : wrkr.pendingState = none)
    {faults : SignFaults} {payload : Bytes} {bufLen : Nat}
    (hkept : MsgKept faults wrkr payload bufLen) :
    Proceeds setup strict lost ctx payload
      (mmhashchainsigsProcessMsg faults wrkr stateFile payload bufLen).1
      (mmhashchainsigsProcessMsg faults wrkr stateFile payload bufLen).2 := by
  obtain ⟨hinst, hready⟩ := h.ready hsame faults
  have hnone := (readyWorker_pending faults wrkr).trans hpending
  cases hsigner : (readyWorker faults wrkr).1.signer with
  | none =>
      rw [processMsg_of_no_signer hsigner]
      exact .inl ⟨.inl rfl, hready⟩
  | some signer =>
      rw [processMsg_of_open hsigner hnone]
      have hentry := hready.entry (by rw [hinst]; exact hsame) hsigner hnone
        fun hhash => (hkept signer hsigner).resolve_left (by simp [hhash])
      exact hentry.2

theorem Phase.keptFinal (h : Phase setup strict lost wrkr stateFile ctx)
    (hsame : SameKey setup wrkr.inst) {faults : SignFaults} {bufLen : Nat}
    (hkept : ∀ signer, wrkr.signer = some signer →
      FinalKept faults wrkr signer bufLen) :
    Proceeds setup strict lost ctx []
      (mmhashchainsigsFinalSign faults wrkr bufLen) stateFile := by
  by_cases hsilent : wrkr.signer = none ∨ wrkr.chain.msgCount = 0
  · rw [finalSign_of_silent hsilent]
    exact .inl ⟨.inr rfl, h⟩
  · rw [not_or] at hsilent
    obtain ⟨signer, hsigner⟩ := Option.ne_none_iff_exists'.mp hsilent.1
    have hentry := h.finalEntry hsame hsigner hsilent.2 fun hhash =>
      ((hkept signer hsigner).resolve_left hsilent.2).resolve_left
        (by simp [hhash])
    exact hentry.2

end Verify

structure Upheld (setup : Setup ossl) (inst : Instance) (sys : Sys ossl) :
    Prop where
  records : ∃ records,
    sys.emitted.map (fun emission => emittedRecord ossl emission.sd) =
      records.map some ∧ Begun inst sys.wrkr records
  phase : ∀ strict lines, List.Forall₂ (StripsBack ossl) lines sys.emitted →
    Phase setup strict false sys.wrkr sys.stateFile
      (feed (keyedCtx strict setup.pubkey setup.fp) lines)

section Upheld

variable {setup : Setup ossl} {inst : Instance} {sys : Sys ossl}

theorem Upheld.start : Upheld setup inst (Sys.start ossl inst) where
  records := ⟨[], rfl, .inl ⟨rfl, rfl, rfl, rfl⟩⟩
  phase := by
    intro strict lines hlines
    cases hlines
    refine .idle (fun signer hsigner => by cases hsigner) rfl rfl ?_ ?_
    · exact ⟨.inl rfl, rfl, rfl, rfl, rfl, rfl, nofun, fun _ => rfl⟩
    · exact ⟨fun _ => rfl, fun _ => by simp [unsignedTail, keyedCtx], nofun⟩

theorem Upheld.after (h : Upheld setup inst sys) {call : SignCall ossl}
    {stateFile : Option Bytes} {payload : Bytes}
    (hrecords : ∀ records, Begun inst sys.wrkr records →
      Records inst records call)
    (hphase : ∀ strict ctx,
      Phase setup strict false sys.wrkr sys.stateFile ctx →
      Proceeds setup strict false ctx payload call stateFile) :
    Upheld setup inst (sys.after call stateFile payload) where
  records := by
    obtain ⟨records, hemitted, hbegun⟩ := h.records
    obtain ⟨more, hwritten, hnext⟩ := hrecords records hbegun
    refine ⟨records ++ more, ?_, hnext⟩
    rw [List.map_append, ← hemitted, ← hwritten]
    unfold Sys.after
    rw [List.map_append]
    congr 1
    cases call.sd with
    | none => rfl
    | some sd =>
        simp only [Option.elim_some, written]
        split_ifs <;> rfl
  phase := fun strict lines hlines => Proceeds.feed hlines
    fun before hbefore => hphase strict _ (h.phase strict before hbefore)

theorem Upheld.processMsg (h : Upheld setup inst sys)
    (hsame : SameKey setup inst) {faults : SignFaults} {payload : Bytes}
    {bufLen : Nat} (hkept : MsgKept faults sys.wrkr payload bufLen) :
    Upheld setup inst (sys.step (.processMsg faults payload bufLen)) := by
  obtain ⟨records, -, hbegun⟩ := h.records
  have hworker : SameKey setup sys.wrkr.inst := by
    rw [hbegun.inst_eq]
    exact hsame
  apply h.after
  · exact fun records hbegun => hbegun.processMsg hkept _
  · exact fun strict ctx hphase =>
      hphase.keptMsg hworker hbegun.pendingState hkept

theorem Upheld.finalSign (h : Upheld setup inst sys)
    (hsame : SameKey setup inst) {faults : SignFaults} {bufLen : Nat}
    (hkept : ∀ signer, sys.wrkr.signer = some signer →
      FinalKept faults sys.wrkr signer bufLen) :
    Upheld setup inst (sys.step (.finalSign faults bufLen)) := by
  obtain ⟨records, -, hbegun⟩ := h.records
  have hworker : SameKey setup sys.wrkr.inst := by
    rw [hbegun.inst_eq]
    exact hsame
  apply h.after
  · exact fun records hbegun => hbegun.finalSign hkept
  · exact fun strict ctx hphase => hphase.keptFinal hworker hkept

theorem records_of_same {emitted emitted' : List Emission}
    (hsame : List.Forall₂ SameSigned emitted emitted') :
    emitted'.map (fun emission => emittedRecord ossl emission.sd) =
      emitted.map fun emission => emittedRecord ossl emission.sd := by
  induction hsame with
  | nil => rfl
  | cons hfirst _ ih => rw [List.map_cons, List.map_cons, hfirst.1, ih]

theorem Upheld.relabel (h : Upheld setup inst sys) {emitted : List Emission}
    (hsame : List.Forall₂ SameSigned sys.emitted emitted) :
    Upheld setup inst { sys with emitted := emitted } where
  records := by
    obtain ⟨records, hemitted, hbegun⟩ := h.records
    refine ⟨records, ?_, hbegun⟩
    rw [← hemitted]
    exact records_of_same hsame
  phase := fun strict lines hlines =>
    h.phase strict lines (StripsBack.of_same hsame hlines)

theorem upheld_run (hsame : SameKey setup inst) (h : SuspendRun inst sys) :
    Upheld setup inst sys := by
  induction h with
  | start => exact .start
  | processMsg h faults payload bufLen hkept ih =>
      exact ih.processMsg hsame hkept
  | finalSign h faults bufLen hkept ih => exact ih.finalSign hsame hkept
  | action h faults msg hret hkept ih =>
      rcases action_suspends hret with
        hsilent | ⟨cleaned, emitted, hcleaned, hcall, hsigned⟩
      · rw [hsilent]
        exact ih
      · rw [hcall]
        exact (ih.processMsg hsame (hkept cleaned hcleaned)).relabel hsigned

theorem Upheld.chainRecords (h : Upheld setup inst sys)
    (hlen : sys.emitted.length < 2 ^ 64) : ∃ records,
      sys.emitted.map (fun emission => emittedRecord ossl emission.sd) =
        records.map some ∧ ChainRecords records := by
  obtain ⟨records, hemitted, hbegun⟩ := h.records
  refine ⟨records, hemitted, ?_⟩
  have hcount := congrArg List.length hemitted
  rw [List.length_map, List.length_map] at hcount
  rcases hbegun with ⟨rfl, -⟩ | htracks
  · exact ⟨nofun, nofun, partitions_nil⟩
  · exact htracks.chainRecords (by omega)

theorem Upheld.passes_iff (h : Upheld setup inst sys) {strict : Bool}
    {lines : List VerifyCall}
    (hlines : List.Forall₂ (StripsBack ossl) lines sys.emitted)
    (hemitted : sys.emitted ≠ []) :
    verifierPassed (verifierFinalize (feed (keyedCtx strict setup.pubkey
        setup.fp) lines)) = true ↔
      strict = false ∨ openTail sys.wrkr = 0 := by
  have hphase := h.phase strict lines hlines
  have hstate : (feed (keyedCtx strict setup.pubkey setup.fp) lines).state ≠
      .expectInit := by
    apply feed_begun
    rintro rfl
    exact hemitted (List.forall₂_nil_left_iff.mp hlines)
  rw [verifierPassed_iff]
  cases strict with
  | false =>
      rw [verifierFinalize_errors, hphase.strict_eq]
      simp [hphase.errors (.inl rfl), hstate]
  | true =>
      obtain ⟨records, -, hbegun⟩ := h.records
      rw [hphase.passes_iff hstate, savedTail, hbegun.pendingState]
      simp

end Upheld

/-! ## The retry of a failed call -/

/--
A call of an initialized worker is safe to retry exactly if it fails at the
chain hash or not at all, and a run of such calls is one chain that verifies.
-/
theorem suspend_iff (ossl : OpenSSL) :
    (∀ (inst : Instance) (ops : List Op) (signer : SignerCtx ossl),
      ((Sys.start ossl inst).run ops).wrkr.signer = some signer →
      ((Sys.start ossl inst).run ops).wrkr.pendingState = none) ∧
    (∀ (wrkr : Worker ossl) (signer : SignerCtx ossl),
      wrkr.signer = some signer → wrkr.pendingState = none →
      ∀ (faults : SignFaults) (stateFile : Option Bytes) (payload : Bytes)
        (bufLen : Nat),
      (RetrySafe wrkr (mmhashchainsigsProcessMsg faults wrkr stateFile payload
        bufLen).1 ↔ EntryKept faults wrkr signer payload bufLen) ∧
      (RetrySafe wrkr (mmhashchainsigsFinalSign faults wrkr bufLen) ↔
        FinalKept faults wrkr signer bufLen)) ∧
    ∀ (setup : Setup ossl) (inst : Instance), SameKey setup inst →
      ∀ sys : Sys ossl, SuspendRun inst sys →
      (sys.emitted.length < 2 ^ 64 → ∃ records,
        sys.emitted.map (fun emission => emittedRecord ossl emission.sd) =
          records.map some ∧ ChainRecords records) ∧
      ∀ (strict : Bool) (ctx : VerifierCtx ossl) (lines : List VerifyCall),
        verifierInit ossl false (setup.opts strict) = some ctx →
        List.Forall₂ (StripsBack ossl) lines sys.emitted →
        (feed ctx lines).errors = [] ∧
          (sys.emitted ≠ [] →
            (verifierPassed (verifierFinalize (feed ctx lines)) = true ↔
              strict = false ∨ openTail sys.wrkr = 0)) := by
  refine ⟨?_, ?_, ?_⟩
  · intro inst ops signer hsigner
    exact (established_run inst ops signer hsigner).2
  · intro wrkr signer hsigner hpending faults stateFile payload bufLen
    constructor
    · exact processMsg_retrySafe_iff hsigner hpending faults stateFile
        payload bufLen
    · exact finalSign_retrySafe_iff hsigner faults bufLen
  · intro setup inst hsame sys hrun
    have hupheld := upheld_run hsame hrun
    refine ⟨hupheld.chainRecords, ?_⟩
    intro strict ctx lines hctx hlines
    rw [setup.verifierInit_eq] at hctx
    cases hctx
    constructor
    · exact (hupheld.phase strict lines hlines).errors (.inr rfl)
    · exact hupheld.passes_iff hlines

def retryOps (faults : SignFaults) : List Op :=
  [.action {} (sampleMsg [1]), .action { core := faults } (sampleMsg [2]),
    .action {} (sampleMsg [2])]

def retryRun (faults : SignFaults) : Sys sampleOpenSSL :=
  (Sys.start sampleOpenSSL sampleInstance).run (retryOps faults)

theorem suspend_iff_sample :
    (∃ records, (retryRun { hashChain := true }).emitted.map
        (fun emission => emittedRecord sampleOpenSSL emission.sd) =
        records.map some ∧ ChainRecords records) ∧
      (feed (sampleCtx true) (lifeCalls (retryRun
        { hashChain := true }))).errors = [] := by
  have hsame : SameKey sampleSetup sampleInstance := ⟨rfl, rfl⟩
  have hopened : SuspendRun sampleInstance
      ((Sys.start sampleOpenSSL sampleInstance).run
        ((retryOps { hashChain := true }).take 1)) :=
    SuspendRun.start.action {} (sampleMsg [1]) (.inl (by decide +kernel))
      fun cleaned hcleaned =>
        @msgKept_of_ok _ _ _ none _ rfl (by decide +kernel) _ hcleaned
  have hfailed := hopened.action { core := { hashChain := true } }
    (sampleMsg [2]) (.inr (by decide +kernel)) fun _ _ _ _ => .inl rfl
  have hretried : SuspendRun sampleInstance (retryRun { hashChain := true }) :=
    hfailed.action {} (sampleMsg [2]) (.inl (by decide +kernel))
      fun cleaned hcleaned => @msgKept_of_ok _ _ _ none _
        (by decide +kernel) (by decide +kernel) _ hcleaned
  obtain ⟨hrecords, hverifies⟩ := (suspend_iff sampleOpenSSL).2.2 sampleSetup
    sampleInstance hsame _ hretried
  refine ⟨hrecords (by decide +kernel), ?_⟩
  exact (hverifies true _ _ rfl
    (lifeCalls_stripBack (by decide +kernel))).1

/-- The signature fails behind the chain hash: the retry leaves a gap. -/
theorem retry_leaves_gap :
    (∃ wrkr : Worker sampleOpenSSL, wrkr.signer.isSome ∧
      wrkr = ((Sys.start sampleOpenSSL sampleInstance).run
        ((retryOps {}).take 1)).wrkr ∧
      ¬ RetrySafe wrkr (mmhashchainsigsProcessMsg { sign := true } wrkr none
        [] Common.Limits.hcsSdWithCertMaxLen).1 ∧
      ¬ RetrySafe wrkr (mmhashchainsigsFinalSign { sign := true } wrkr
        Common.Limits.hcsSdMaxLen)) ∧
    (doAction { core := { sign := true } } ((Sys.start sampleOpenSSL
      sampleInstance).run ((retryOps {}).take 1)).wrkr none
      (sampleMsg [2])).ret = .suspended ∧
    (retryRun { sign := true }).emitted.map (fun emission =>
      (emittedRecord sampleOpenSSL emission.sd).map (·.seq)) =
      [some 1, some 3] ∧
    List.Forall₂ (StripsBack sampleOpenSSL)
      (lifeCalls (retryRun { sign := true }))
      (retryRun { sign := true }).emitted ∧
    (feed (sampleCtx false) (lifeCalls (retryRun
      { sign := true }))).errors ≠ [] := by
  refine ⟨⟨_, ?_, rfl, ?_, ?_⟩, ?_, ?_, ?_, ?_⟩
  · decide +kernel
  · intro hsafe
    have hseq := (hsafe (by decide +kernel)).seq
    revert hseq
    decide +kernel
  · intro hsafe
    have hseq := (hsafe (by decide +kernel)).seq
    revert hseq
    decide +kernel
  · decide +kernel
  · decide +kernel
  · exact lifeCalls_stripBack (by decide +kernel)
  · decide +kernel

end MmHashChainSigs.System
