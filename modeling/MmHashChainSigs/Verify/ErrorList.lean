import MmHashChainSigs.Verify.Independence
import MmHashChainSigs.Verify.LogFile
import MmHashChainSigs.Verify.Modes

/-!
# The list of errors

What a line raises does not depend on what is recorded already.  The list is
the beginning of all that is raised, line by line, with the end of the file
last.
-/

namespace MmHashChainSigs.Verify

open MmHashChainSigs.Foundation
open MmHashChainSigs.Common

variable {ossl : OpenSSL}

/-! ## What is raised -/

def cleared (ctx : VerifierCtx ossl) : VerifierCtx ossl :=
  { ctx with errors := [] }

/-- The errors of one line, whatever was recorded before it. -/
def raised (ctx : VerifierCtx ossl) (call : VerifyCall) :
    List VerifierError := (processCall (cleared ctx) call).1.errors

def raisedRun (ctx : VerifierCtx ossl) :
    List VerifyCall → List VerifierError
  | [] => []
  | call :: calls =>
      raised ctx call ++ raisedRun (processCall ctx call).1 calls

def raisedAtEnd (ctx : VerifierCtx ossl) : List VerifierError :=
  (verifierFinalize (cleared ctx)).errors

/-! ## One line -/

def Adds (lineNum : UInt64) (n : Nat) (errors errors' : List VerifierError) :
    Prop :=
  ∃ messages, messages.length ≤ n ∧
    errors' = recordAll lineNum errors messages

section Adds

variable {lineNum : UInt64} {n n' : Nat} {errors errors' : List VerifierError}

theorem Adds.refl (lineNum : UInt64) (errors : List VerifierError) :
    Adds lineNum n errors errors := ⟨[], Nat.zero_le n, rfl⟩

theorem Adds.push (lineNum : UInt64) (errors : List VerifierError)
    (message : Bytes) :
    Adds lineNum (n + 1) errors (pushError errors lineNum message) :=
  ⟨[message], Nat.le_add_left 1 n, rfl⟩

theorem Adds.trans {errors'' : List VerifierError}
    (h : Adds lineNum n errors errors')
    (h' : Adds lineNum n' errors' errors'') :
    Adds lineNum (n + n') errors errors'' := by
  obtain ⟨messages, hlength, rfl⟩ := h
  obtain ⟨more, hmore, rfl⟩ := h'
  refine ⟨messages ++ more, ?_, (recordAll_append _ _ _ _).symm⟩
  rw [List.length_append]
  exact Nat.add_le_add hlength hmore

theorem Adds.mono (h : Adds lineNum n errors errors') (hle : n ≤ n') :
    Adds lineNum n' errors errors' := by
  obtain ⟨messages, hlength, heq⟩ := h
  exact ⟨messages, hlength.trans hle, heq⟩

theorem Adds.thenPush (h : Adds lineNum n errors errors') (hlt : n < n')
    (message : Bytes) :
    Adds lineNum n' errors (pushError errors' lineNum message) :=
  (h.trans (@Adds.push 0 lineNum errors' message)).mono hlt

theorem Adds.length (h : Adds lineNum n errors errors') :
    errors'.length ≤ errors.length + n := by
  obtain ⟨messages, hlength, rfl⟩ := h
  induction messages generalizing errors n with
  | nil => exact Nat.le_add_right _ _
  | cons message messages ih =>
      have hrest := @ih messages.length (pushError errors lineNum message)
        (Nat.le_refl _)
      have hpush := (pushError_length errors lineNum message).2.1
      rw [List.length_cons] at hlength
      apply hrest.trans
      omega

theorem Adds.mem (h : Adds lineNum n errors errors') {e : VerifierError}
    (he : e ∈ errors') :
    e ∈ errors ∨
      e.lineNum = lineNum ∧ e.message.length < Limits.verifierMessageLen := by
  obtain ⟨messages, -, rfl⟩ := h
  induction messages generalizing errors with
  | nil => exact .inl he
  | cons message messages ih =>
      rcases ih he with hpushed | hnew
      · dsimp only [pushError] at hpushed
        split_ifs at hpushed
        · exact .inl hpushed
        · rcases List.mem_append.mp hpushed with hold | hlast
          · exact .inl hold
          · rw [List.mem_singleton.mp hlast]
            refine .inr ⟨rfl, ?_⟩
            have hcut := List.length_take_le
              (Limits.verifierMessageLen - 1) message
            exact Nat.lt_of_le_of_lt hcut (by decide)
      · exact .inr hnew

variable (ctx : VerifierCtx ossl)

theorem addErrorIf_adds (condition : Prop) [Decidable condition]
    (lineNum : UInt64) (message : Bytes) :
    Adds lineNum 1 ctx.errors
      (addErrorIf condition ctx lineNum message).errors := by
  unfold addErrorIf
  split_ifs
  · exact .push _ _ _
  · exact .refl _ _

theorem verifySdMsgHash_adds (faults : VerifyFaults) (sd : HcsSdRecord)
    (msg : Bytes) (lineNum : UInt64) :
    Adds lineNum 2 ctx.errors
      (verifySdMsgHash faults ctx sd msg lineNum).1.errors := by
  unfold verifySdMsgHash
  have hseq := addErrorIf_adds ctx (sd.seq ≠ ctx.nextSeq) lineNum
    (ascii "SD seq=" ++ number sd.seq ++ ascii ", expected " ++
      number ctx.nextSeq)
  generalize addErrorIf (sd.seq ≠ ctx.nextSeq) ctx lineNum _ = next at hseq ⊢
  dsimp only
  split_ifs
  · exact hseq.thenPush (by decide) _
  · split
    · exact hseq.mono (by decide)
    next hash _ =>
      exact hseq.trans (addErrorIf_adds { next with chainHash := hash } _ _ _)

theorem checkSig_adds (faults : VerifyFaults) (sd : HcsSdRecord)
    (lineNum : UInt64) :
    Adds lineNum 4 ctx.errors (checkSig faults ctx sd lineNum).errors := by
  unfold checkSig
  extract_lets expFrom expTo range vr first second third fourth
  have hfirst : Adds lineNum 1 ctx.errors first.errors :=
    addErrorIf_adds ctx _ lineNum _
  have hsecond : Adds lineNum 1 first.errors second.errors :=
    addErrorIf_adds first _ lineNum _
  have hthird : Adds lineNum 1 second.errors third.errors :=
    addErrorIf_adds second _ lineNum _
  have hfourth : Adds lineNum 1 third.errors fourth.errors :=
    addErrorIf_adds third _ lineNum _
  have hall := ((hfirst.trans hsecond).trans hthird).trans hfourth
  split_ifs
  · exact hall
  · exact hall

theorem handleSdSig_adds (faults : VerifyFaults) (sd : HcsSdRecord)
    (msg : Bytes) (lineNum : UInt64) :
    Adds lineNum 6 ctx.errors
      (handleSdSig faults ctx sd msg lineNum).1.errors := by
  have hhash := verifySdMsgHash_adds ctx faults sd msg lineNum
  unfold handleSdSig
  dsimp only
  split_ifs
  · exact Adds.push _ _ _
  · exact hhash.mono (by decide)
  · exact hhash.trans (checkSig_adds _ _ _ _)
  · exact hhash.thenPush (by decide) _

theorem installPubkeyFromCert_adds (faults : VerifyFaults)
    (store : ossl.Store) (certDer : Bytes) (lineNum : UInt64) :
    Adds lineNum 1 ctx.errors
      (installPubkeyFromCert faults store ctx certDer lineNum).1.errors := by
  unfold installPubkeyFromCert
  split
  · exact .push _ _ _
  · split_ifs
    · exact .refl _ _
    · exact .push _ _ _
    · split
      · exact .push _ _ _
      · split
        · exact .push _ _ _
        · split
          · exact .push _ _ _
          · exact .refl _ _

theorem initTrust_adds (faults : VerifyFaults) (certDer : Bytes)
    (lineNum : UInt64) :
    Adds lineNum 1 ctx.errors
      (initTrust faults ctx certDer lineNum).1.errors := by
  unfold initTrust
  split
  · split_ifs
    · exact .push _ _ _
    · exact installPubkeyFromCert_adds _ _ _ _ _
  · exact .refl _ _

theorem initTail_adds (lineNum : UInt64) :
    Adds lineNum 1 ctx.errors (initTail ctx lineNum).errors := by
  unfold initTail
  split_ifs
  · exact addErrorIf_adds _ _ _ _
  · exact .refl _ _

theorem initChain_adds (faults : VerifyFaults) (sd : HcsSdRecord)
    (msg : Bytes) (lineNum : UInt64) :
    Adds lineNum 2 ctx.errors
      (initChain faults ctx sd msg lineNum).1.errors := by
  unfold initChain
  split
  · exact Adds.push _ _ _
  · split_ifs
    · exact Adds.push _ _ _
    · dsimp only
      split
      · exact .refl _ _
      · exact verifySdMsgHash_adds _ _ _ _ _

theorem handleSdInit_adds (faults : VerifyFaults) (sd : HcsSdRecord)
    (msg certDer : Bytes) (lineNum : UInt64) :
    Adds lineNum 4 ctx.errors
      (handleSdInit faults ctx sd msg certDer lineNum).1.errors := by
  have htrust := initTrust_adds ctx faults certDer lineNum
  unfold handleSdInit
  generalize initTrust faults ctx certDer lineNum = result at htrust ⊢
  dsimp only
  split_ifs
  · exact htrust.mono (by decide)
  · exact htrust.thenPush (by decide) _
  · exact (htrust.trans (initTail_adds _ _)).trans (initChain_adds _ _ _ _ _)
  · exact htrust.thenPush (by decide) _
  · exact Adds.push lineNum _ _

theorem handleSd_adds (faults : VerifyFaults) (s : StrippedLine)
    (lineNum : UInt64) :
    Adds lineNum 6 ctx.errors (handleSd faults ctx s lineNum).1.errors := by
  unfold handleSd
  cases s.sd.type with
  | init => exact (handleSdInit_adds ctx _ _ _ _ _).mono (by decide)
  | sig => exact handleSdSig_adds _ _ _ _ _
  | «continue» =>
      unfold handleSdContinue
      dsimp only
      split_ifs
      · exact Adds.push lineNum _ _
      · exact Adds.push lineNum _ _
      · exact (verifySdMsgHash_adds (countSegment ctx) _ _ _ _).mono
          (by decide)
  | msg =>
      unfold handleSdMsg
      dsimp only
      split_ifs
      · exact Adds.push lineNum _ _
      · exact (verifySdMsgHash_adds ctx _ _ _ _).mono (by decide)
  | other code => exact Adds.push lineNum _ _

theorem processCall_adds (call : VerifyCall) :
    Adds call.lineNum 7 ctx.errors (processCall ctx call).1.errors := by
  unfold processCall verifierProcessLine
  split_ifs
  · exact .refl _ _
  · split
    · dsimp only
      split_ifs
      · exact Adds.push _ _ _
      · exact Adds.push _ _ _
    next s hstrip =>
      have hmarked := addErrorIf_adds ctx (s.malformed = true) call.lineNum
        (ascii "malformed embedded cert SD element")
      dsimp only
      split_ifs
      · exact hmarked.thenPush (by decide) _
      · exact hmarked.trans (handleSd_adds _ _ _ _)

end Adds

/-! ## Runs -/

theorem length_keepFirst (errors more : List VerifierError) :
    (keepFirst errors more).length ≤ Limits.verifierMaxErrors :=
  List.length_take_le _ _

theorem keepFirst_nil {errors : List VerifierError}
    (h : errors.length ≤ Limits.verifierMaxErrors) :
    keepFirst errors [] = errors := by
  rw [keepFirst, List.append_nil, List.take_of_length_le h]

theorem keepFirst_keepFirst (errors more rest : List VerifierError) :
    keepFirst (keepFirst errors more) rest =
      keepFirst errors (more ++ rest) := by
  unfold keepFirst
  rw [List.take_append, List.take_take, Nat.min_self, List.length_take,
    ← List.append_assoc, @List.take_append _ (errors ++ more)]
  congr 2
  omega

variable {ctx : VerifierCtx ossl}

theorem under_cleared (h : ctx.errors.length ≤ Limits.verifierMaxErrors) :
    under ⟨ctx.errors, ctx.strict, ctx.trustStore⟩ (cleared ctx) = ctx := by
  simp only [under, cleared, keepFirst_nil h]

theorem processCall_recorded
    (h : ctx.errors.length ≤ Limits.verifierMaxErrors) (call : VerifyCall) :
    (processCall ctx call).1.errors =
      keepFirst ctx.errors (raised ctx call) := by
  have hunder := @processCall_under _
    ⟨ctx.errors, ctx.strict, ctx.trustStore⟩ (cleared ctx) ⟨rfl, .inl rfl⟩ call
  rw [under_cleared h] at hunder
  rw [hunder]
  rfl

theorem feed_recorded (h : ctx.errors.length ≤ Limits.verifierMaxErrors)
    (calls : List VerifyCall) :
    (feed ctx calls).errors = keepFirst ctx.errors (raisedRun ctx calls) := by
  induction calls generalizing ctx with
  | nil => exact (keepFirst_nil h).symm
  | cons call calls ih =>
      have hcall := processCall_recorded h call
      rw [feed_cons, ih (hcall ▸ length_keepFirst _ _), hcall,
        keepFirst_keepFirst]
      rfl

theorem verifierFinalize_recorded
    (h : ctx.errors.length ≤ Limits.verifierMaxErrors) :
    (verifierFinalize ctx).errors =
      keepFirst ctx.errors (raisedAtEnd ctx) := by
  have hunder := @verifierFinalize_under _
    ⟨ctx.errors, ctx.strict, ctx.trustStore⟩ (cleared ctx) rfl
  rw [under_cleared h] at hunder
  rw [hunder]
  rfl

theorem raised_mem {call : VerifyCall} {e : VerifierError}
    (h : e ∈ raised ctx call) :
    e.lineNum = call.lineNum ∧
      e.message.length < Limits.verifierMessageLen := by
  have hadds := processCall_adds (cleared ctx) call
  exact (hadds.mem h).resolve_left List.not_mem_nil

theorem raisedAtEnd_adds (ctx : VerifierCtx ossl) :
    Adds 0 2 [] (raisedAtEnd ctx) :=
  (addErrorIf_adds (cleared ctx) _ 0 _).trans (addErrorIf_adds _ _ 0 _)

theorem raisedRun_mem {calls : List VerifyCall} {e : VerifierError}
    (h : e ∈ raisedRun ctx calls) :
    (∃ call ∈ calls, e.lineNum = call.lineNum) ∧
      e.message.length < Limits.verifierMessageLen := by
  induction calls generalizing ctx with
  | nil => cases h
  | cons call calls ih =>
      rcases List.mem_append.mp h with hhere | hlater
      · exact ⟨⟨call, List.mem_cons_self, (raised_mem hhere).1⟩,
          (raised_mem hhere).2⟩
      · obtain ⟨⟨at', hmem, hline⟩, hlength⟩ := ih hlater
        exact ⟨⟨at', List.mem_cons_of_mem _ hmem, hline⟩, hlength⟩

theorem raisedRun_sorted {calls : List VerifyCall}
    (h : calls.Pairwise fun call later => call.lineNum ≤ later.lineNum) :
    (raisedRun ctx calls).Pairwise fun e later =>
      e.lineNum ≤ later.lineNum := by
  induction calls generalizing ctx with
  | nil => exact .nil
  | cons call calls ih =>
      rw [List.pairwise_cons] at h
      apply List.pairwise_append.mpr
      refine ⟨?_, ih h.2, ?_⟩
      · apply List.Pairwise.imp_of_mem (R := fun _ _ => True)
        · intro e later he hlater _
          rw [(raised_mem he).1, (raised_mem hlater).1]
          exact UInt64.le_refl _
        · exact List.pairwise_of_forall fun _ _ => trivial
      · intro e he later hlater
        obtain ⟨⟨at', hmem, hline⟩, -⟩ := raisedRun_mem hlater
        rw [(raised_mem he).1, hline]
        exact h.1 at' hmem

/-! ## Files -/

theorem fileCalls_get {faults : Nat → VerifyFaults} {file : Bytes}
    (i : Nat) (h : i < (fileCalls faults file).length) :
    ((fileCalls faults file).get ⟨i, h⟩).lineNum = UInt64.ofNat (i + 1) := by
  simp [fileCalls]

theorem fileCalls_sorted {faults : Nat → VerifyFaults} {file : Bytes}
    (h : (getlines file).length < 2 ^ 64) :
    (fileCalls faults file).Pairwise fun call later =>
      call.lineNum ≤ later.lineNum := by
  apply List.pairwise_iff_get.mpr
  intro i j hij
  have hj : j.val < (getlines file).length :=
    Nat.lt_of_lt_of_eq j.isLt (fileCalls_length faults file)
  have hi : i.val < j.val := hij
  rw [fileCalls_get i.val i.isLt, fileCalls_get j.val j.isLt,
    UInt64.le_iff_toNat_le, UInt64.toNat_ofNat', UInt64.toNat_ofNat']
  omega

theorem fileCalls_lineNum {faults : Nat → VerifyFaults} {file : Bytes}
    (h : (getlines file).length < 2 ^ 64) {call : VerifyCall}
    (hmem : call ∈ fileCalls faults file) :
    0 < call.lineNum.toNat ∧
      call.lineNum.toNat ≤ (getlines file).length := by
  obtain ⟨i, hi, rfl⟩ := List.mem_mapIdx.mp hmem
  dsimp only
  rw [UInt64.toNat_ofNat']
  omega

/-- The line of an error, or none of them, and then no line comes after. -/
def InFileOrder (e later : VerifierError) : Prop :=
  later.lineNum = 0 ∨ e.lineNum ≠ 0 ∧ e.lineNum ≤ later.lineNum

theorem raised_in_file_order {faults : Nat → VerifyFaults} {file : Bytes}
    (h : (getlines file).length < 2 ^ 64) :
    (raisedRun ctx (fileCalls faults file) ++
      raisedAtEnd (feed ctx (fileCalls faults file))).Pairwise
        InFileOrder := by
  have hend : ∀ e ∈ raisedAtEnd (feed ctx (fileCalls faults file)),
      e.lineNum = 0 := fun e he =>
    (((raisedAtEnd_adds _).mem he).resolve_left List.not_mem_nil).1
  apply List.pairwise_append.mpr
  refine ⟨?_, ?_, fun e _ later hlater => .inl (hend later hlater)⟩
  · apply (raisedRun_sorted (fileCalls_sorted h)).imp_of_mem
    intro e later he _ hle
    refine .inr ⟨?_, hle⟩
    obtain ⟨⟨call, hmem, hline⟩, -⟩ := raisedRun_mem he
    have hpos := (fileCalls_lineNum h hmem).1
    rw [hline]
    intro hzero
    rw [hzero] at hpos
    exact absurd hpos (by decide)
  · apply List.Pairwise.imp_of_mem (R := fun _ _ => True)
    · exact fun _ hlater _ => .inl (hend _ hlater)
    · exact List.pairwise_of_forall fun _ _ => trivial

theorem feed_take_recorded
    (h : ctx.errors.length ≤ Limits.verifierMaxErrors)
    (calls : List VerifyCall) (n : Nat) :
    List.IsPrefix (feed ctx (calls.take n)).errors
      (feed ctx calls).errors := by
  have happend := feed_append ctx (calls.take n) (calls.drop n)
  rw [List.take_append_drop] at happend
  have hroom : (feed ctx (calls.take n)).errors.length ≤
      Limits.verifierMaxErrors := by
    rw [feed_recorded h]
    exact length_keepFirst _ _
  rw [happend, feed_recorded hroom, keepFirst, List.take_append,
    List.take_of_length_le hroom]
  exact List.prefix_append _ _

/-- The errors of a file, also the ones that do not fit the table. -/
def raisedInAll (ctx : VerifierCtx ossl) (calls : List VerifyCall) :
    List VerifierError :=
  raisedRun ctx calls ++ raisedAtEnd (feed ctx calls)

theorem verifierInit_clean {fingerprintFails : Bool} {opts : VerifierOpts}
    (h : verifierInit ossl fingerprintFails opts = some ctx) :
    ctx.errors = [] := by
  rcases verifierInit_cases h with ⟨-, pkey, fp, rfl, -⟩ | ⟨-, store, rfl⟩
  · rfl
  · rfl

theorem finalize_recorded (h : ctx.errors = []) (calls : List VerifyCall) :
    (verifierFinalize (feed ctx calls)).errors =
      (raisedInAll ctx calls).take Limits.verifierMaxErrors := by
  have hroom : ctx.errors.length ≤ Limits.verifierMaxErrors := by
    rw [h]
    exact Nat.zero_le _
  have hfeed := feed_recorded hroom calls
  rw [verifierFinalize_recorded (hfeed ▸ length_keepFirst _ _), hfeed,
    keepFirst_keepFirst, h, keepFirst, List.nil_append]
  rfl

def fileErrors (ctx : VerifierCtx ossl) (faults : Nat → VerifyFaults)
    (file : Bytes) : List VerifierError :=
  (verifierFinalize (readLoop ctx (fileCalls faults file)).1).errors

/-- The table is the beginning of all that is raised, in the order of the
lines, and what stands in it is not changed any more. -/
theorem errors_in_file_order {fingerprintFails : Bool} {opts : VerifierOpts}
    {ctx : VerifierCtx ossl}
    (hinit : verifierInit ossl fingerprintFails opts = some ctx)
    (faults : Nat → VerifyFaults) {file : Bytes}
    (hlines : (getlines file).length < 2 ^ 64) :
    fileErrors ctx faults file =
      (raisedInAll ctx (fileCalls faults file)).take
        Limits.verifierMaxErrors ∧
    (fileErrors ctx faults file).Pairwise InFileOrder ∧
    (∀ e ∈ fileErrors ctx faults file,
      e.message.length < Limits.verifierMessageLen ∧
      (e ∈ raisedRun ctx (fileCalls faults file) ∧ 0 < e.lineNum.toNat ∧
          e.lineNum.toNat ≤ (getlines file).length ∨
        e ∈ raisedAtEnd (feed ctx (fileCalls faults file)) ∧
          e.lineNum = 0)) ∧
    ∀ n, List.IsPrefix
      (readLoop ctx ((fileCalls faults file).take n)).1.errors
      (fileErrors ctx faults file) := by
  have hlive := verifierInit_live hinit
  have hclean := verifierInit_clean hinit
  have hroom : ctx.errors.length ≤ Limits.verifierMaxErrors := by
    rw [hclean]
    exact Nat.zero_le _
  have hall : fileErrors ctx faults file =
      (raisedInAll ctx (fileCalls faults file)).take
        Limits.verifierMaxErrors := by
    rw [fileErrors, readLoop_fst hlive, finalize_recorded hclean]
  refine ⟨hall, ?_, ?_, ?_⟩
  · rw [hall]
    exact (raised_in_file_order hlines).sublist (List.take_sublist _ _)
  · intro e he
    rw [hall] at he
    rcases List.mem_append.mp (List.mem_of_mem_take he) with hrun | hlast
    · obtain ⟨⟨call, hmem, hline⟩, hlength⟩ := raisedRun_mem hrun
      exact ⟨hlength, .inl ⟨hrun, hline ▸ fileCalls_lineNum hlines hmem⟩⟩
    · have hadded := ((raisedAtEnd_adds _).mem hlast).resolve_left
        List.not_mem_nil
      exact ⟨hadded.2, .inr ⟨hlast, hadded.1⟩⟩
  · intro n
    rw [fileErrors, readLoop_fst hlive, readLoop_fst hlive]
    apply (feed_take_recorded hroom (fileCalls faults file) n).trans
    have hfeed := feed_recorded hroom (fileCalls faults file)
    have hfed := hfeed ▸ length_keepFirst _ _
    rw [verifierFinalize_recorded hfed, keepFirst, List.take_append,
      List.take_of_length_le hfed]
    exact List.prefix_append _ _

theorem errors_in_file_order_sample :
    (getlines [97, 10, 98]).length < 2 ^ 64 ∧
      (fileErrors (sampleCtx true) (fun _ => {}) [97, 10, 98]).Pairwise
        InFileOrder :=
  ⟨by decide,
    (@errors_in_file_order _ false { pubkeyPath := some [7], strict := true }
      (sampleCtx true) rfl (fun _ => {}) [97, 10, 98] (by decide)).2.1⟩

end MmHashChainSigs.Verify
