import MmHashChainSigs.Foundation.Segments
import MmHashChainSigs.Verify.Acceptance

/-!
# The unsigned tail

The messages behind the last valid signature are counted as a difference of
`next_seq` and `last_signed_seq`.  The one is counted up line by line, the
other is taken from a record, so the difference is right as long as the
records agree with the count.
-/

namespace MmHashChainSigs.Verify

open MmHashChainSigs.Foundation
open MmHashChainSigs.Common

variable {ossl : OpenSSL}

/-! ## Counters -/

structure Counters where
  nextSeq : UInt64
  lastSignedSeq : UInt64
  deriving DecidableEq, Repr

def counters (ctx : VerifierCtx ossl) : Counters where
  nextSeq := ctx.nextSeq
  lastSignedSeq := ctx.lastSignedSeq

def Counters.message (c : Counters) : Counters :=
  { c with nextSeq := c.nextSeq + 1 }

def Counters.signature (c : Counters) (seqTo : UInt64) : Counters :=
  { c with lastSignedSeq := seqTo }

def resetCounters (ctx : VerifierCtx ossl) : Counters :=
  { counters ctx with
    lastSignedSeq :=
      if ctx.state = .processing then 0 else ctx.lastSignedSeq }

@[simp] theorem counters_addError (ctx : VerifierCtx ossl)
    (lineNum : UInt64) (message : Bytes) :
    counters (addError ctx lineNum message) = counters ctx := rfl

@[simp] theorem counters_addErrorIf (condition : Prop)
    [Decidable condition] (ctx : VerifierCtx ossl) (lineNum : UInt64)
    (message : Bytes) :
    counters (addErrorIf condition ctx lineNum message) = counters ctx := rfl

@[simp] theorem counters_setError (ctx : VerifierCtx ossl) :
    counters (setError ctx).1 = counters ctx := rfl

/-! ## What a record does to them -/

/-- The record is hashed into the chain, whatever its digest says. -/
def Hashes (faults : VerifyFaults) (ctx : VerifierCtx ossl)
    (sd : HcsSdRecord) : Prop :=
  sd.chainHashLen = ctx.hashLen ∧ faults.hashChain = false

def absorbed (ctx : VerifierCtx ossl) (msg : Bytes) : VerifierCtx ossl :=
  { ctx with chainHash := nextHash ctx msg }

theorem verifySig_congr {ctx ctx' : VerifierCtx ossl}
    (hkey : ctx.pubkey = ctx'.pubkey) (hhash : ctx.chainHash = ctx'.chainHash)
    (faults : VerifyFaults) (sd : HcsSdRecord) :
    verifySig faults ctx sd = verifySig faults ctx' sd := by
  unfold verifySig
  rw [hkey, hhash]

theorem verifySdMsgHash_counters {faults : VerifyFaults}
    {ctx : VerifierCtx ossl} {sd : HcsSdRecord}
    (h : Hashes faults ctx sd) (msg : Bytes) (lineNum : UInt64) :
    (verifySdMsgHash faults ctx sd msg lineNum).2 = 0 ∧
      counters (verifySdMsgHash faults ctx sd msg lineNum).1 =
        (counters ctx).message ∧
      ∀ sd', verifySig faults
          (verifySdMsgHash faults ctx sd msg lineNum).1 sd' =
        verifySig faults (absorbed ctx msg) sd' := by
  unfold verifySdMsgHash
  simp only [addErrorIf_hashLen, h.1, ne_eq, not_true_eq_false, if_false,
    hcsHashChain, h.2, Bool.false_eq_true]
  exact ⟨trivial, rfl, fun sd' => verifySig_congr rfl rfl faults sd'⟩

theorem verifySdMsgHash_counters_of_not {faults : VerifyFaults}
    {ctx : VerifierCtx ossl} {sd : HcsSdRecord}
    (h : ¬ Hashes faults ctx sd) (msg : Bytes) (lineNum : UInt64) :
    (verifySdMsgHash faults ctx sd msg lineNum).2 = -1 ∧
      counters (verifySdMsgHash faults ctx sd msg lineNum).1 =
        counters ctx := by
  unfold verifySdMsgHash
  by_cases hlen : sd.chainHashLen = ctx.hashLen
  · have hfault : faults.hashChain = true := by
      by_contra hruns
      exact h ⟨hlen, Bool.not_eq_true _ ▸ hruns⟩
    simp only [addErrorIf_hashLen, hlen, ne_eq, not_true_eq_false, if_false,
      hcsHashChain, hfault, if_true]
    exact ⟨rfl, rfl⟩
  · simp only [addErrorIf_hashLen, ne_eq, hlen, not_false_eq_true, if_true]
    exact ⟨rfl, rfl⟩

theorem checkSig_counters (faults : VerifyFaults) (ctx : VerifierCtx ossl)
    (sd : HcsSdRecord) (lineNum : UInt64) :
    counters (checkSig faults ctx sd lineNum) =
      if verifySig faults ctx sd = 0 then (counters ctx).signature sd.seqTo
      else counters ctx := by
  have hset : ∀ c : VerifierCtx ossl,
      counters { c with lastSignedSeq := sd.seqTo, sigCount := c.sigCount + 1 } =
        (counters c).signature sd.seqTo := fun _ => rfl
  unfold checkSig
  simp only
  split_ifs
  · rw [hset]
    simp only [counters_addErrorIf]
  · simp only [counters_addErrorIf]

/-! ### INIT records -/

/-- The key of the record is the one the context has or gets. -/
def KeyAccepted (faults : VerifyFaults) (ctx : VerifierCtx ossl)
    (s : StrippedLine) : Prop :=
  s.sd.hasPubkeyFp = true ∧ ∃ ctx', trusted faults ctx s.certDer = some ctx' ∧
    ctx'.havePubkey = true ∧ s.sd.pubkeyFp = ctx'.pubkeyFp

def ChainRefused (faults : VerifyFaults) (ctx : VerifierCtx ossl)
    (sd : HcsSdRecord) : Prop :=
  ∀ alg, hcsHashAlgFromHexLen (sd.chainHashLen * 2) = some alg →
    (ctx.haveHashAlg = true ∧ ctx.hashAlg ≠ alg) ∨ faults.chainInit = true

theorem initTail_counters (ctx : VerifierCtx ossl) (lineNum : UInt64) :
    counters (initTail ctx lineNum) = resetCounters ctx := by
  unfold initTail resetCounters
  split_ifs <;> rfl

theorem initTail_alg (ctx : VerifierCtx ossl) (lineNum : UInt64) :
    (initTail ctx lineNum).haveHashAlg = ctx.haveHashAlg ∧
      (initTail ctx lineNum).hashAlg = ctx.hashAlg := by
  unfold initTail
  split_ifs <;> exact ⟨rfl, rfl⟩

theorem initChain_counters_of_refused {faults : VerifyFaults}
    {ctx : VerifierCtx ossl} {sd : HcsSdRecord}
    (h : ChainRefused faults ctx sd) (msg : Bytes) (lineNum : UInt64) :
    counters (initChain faults ctx sd msg lineNum).1 = counters ctx := by
  unfold initChain
  split
  · rfl
  next alg halg =>
    by_cases hlock : ctx.haveHashAlg = true ∧ ctx.hashAlg ≠ alg
    · rw [if_pos hlock]
      rfl
    · rw [if_neg hlock]
      have hfault := (h alg halg).resolve_left hlock
      simp only [hcsChainInitHash, hfault, if_true]
      rfl

def Counters.begun (c : Counters) : Counters :=
  { c with nextSeq := 1 }

theorem initChain_counters {faults : VerifyFaults} {ctx : VerifierCtx ossl}
    {sd : HcsSdRecord} (h : ¬ ChainRefused faults ctx sd) (msg : Bytes)
    (lineNum : UInt64) :
    counters (initChain faults ctx sd msg lineNum).1 =
      if faults.hashChain then (counters ctx).begun
      else (counters ctx).begun.message := by
  unfold ChainRefused at h
  rw [not_forall] at h
  obtain ⟨alg, halg⟩ := h
  rw [Classical.not_imp, not_or, Bool.not_eq_true] at halg
  obtain ⟨halg, hlock, hruns⟩ := halg
  have hwidth : sd.chainHashLen = hcsHashLen alg := by
    have hdigits := hcsHashAlgFromHexLen_eq_some.mp halg
    omega
  unfold initChain
  simp only [halg, if_neg hlock, hcsChainInitHash, hruns, Bool.false_eq_true,
    if_false]
  generalize hctx : VerifierCtx.mk _ _ _ _ _ _ _ _ _ _ _ _ _ _ _ _ = next
  have hnext : counters next = (counters ctx).begun := by
    rw [← hctx]
    rfl
  have hhashes : Hashes faults next sd ↔ faults.hashChain = false := by
    rw [← hctx]
    exact and_iff_right hwidth
  rw [← hnext]
  by_cases hfault : faults.hashChain = true
  · rw [if_pos hfault]
    have hnot : ¬ Hashes faults next sd := by
      rw [hhashes, hfault]
      decide
    exact (verifySdMsgHash_counters_of_not hnot msg lineNum).2
  · rw [if_neg hfault]
    have hholds := hhashes.mpr (Bool.eq_false_of_not_eq_true hfault)
    exact (verifySdMsgHash_counters hholds msg lineNum).2.1

theorem initTrust_counters (faults : VerifyFaults) (ctx : VerifierCtx ossl)
    (certDer : Bytes) (lineNum : UInt64) :
    counters (initTrust faults ctx certDer lineNum).1 = counters ctx := by
  unfold initTrust
  split
  · split_ifs
    · rfl
    · unfold installPubkeyFromCert
      split
      · rfl
      · split_ifs
        · rfl
        · rfl
        · split
          · rfl
          · split
            · rfl
            · split <;> rfl
  · rfl

theorem trusted_counters {faults : VerifyFaults} {ctx ctx' : VerifierCtx ossl}
    {certDer : Bytes} (h : trusted faults ctx certDer = some ctx') :
    counters ctx' = counters ctx ∧ resetCounters ctx' = resetCounters ctx ∧
      ctx'.haveHashAlg = ctx.haveHashAlg ∧ ctx'.hashAlg = ctx.hashAlg := by
  rcases trusted_cases h with rfl | ⟨key, rfl⟩ <;> exact ⟨rfl, rfl, rfl, rfl⟩

theorem handleSdInit_counters_of_not {faults : VerifyFaults}
    {ctx : VerifierCtx ossl} {s : StrippedLine}
    (h : ¬ KeyAccepted faults ctx s) (lineNum : UInt64) :
    counters (handleSdInit faults ctx s.sd s.msg s.certDer lineNum).1 =
      counters ctx := by
  unfold handleSdInit
  by_cases hfp : s.sd.hasPubkeyFp = true
  · rw [if_neg (not_not.mpr hfp)]
    cases htrust : trusted faults ctx s.certDer with
    | none =>
        have hrc := (initTrust_of_not_trusted htrust lineNum).1
        simp only [hrc]
        exact initTrust_counters faults ctx s.certDer lineNum
    | some ctx' =>
        simp only [initTrust_of_trusted htrust lineNum, ne_eq,
          not_true_eq_false, if_false]
        by_cases hhave : ctx'.havePubkey = true
        · have hne : ¬ s.sd.pubkeyFp = ctx'.pubkeyFp :=
            fun heq => h ⟨hfp, ctx', htrust, hhave, heq⟩
          rw [if_neg (not_not.mpr hhave), if_pos hne]
          exact (trusted_counters htrust).1
        · rw [if_pos hhave]
          exact (trusted_counters htrust).1
  · rw [if_pos hfp]
    rfl

theorem handleSdInit_chain {faults : VerifyFaults} {ctx : VerifierCtx ossl}
    {s : StrippedLine} (h : KeyAccepted faults ctx s) (lineNum : UInt64) :
    ∃ ctx', counters ctx' = resetCounters ctx ∧
      (ChainRefused faults ctx' s.sd ↔ ChainRefused faults ctx s.sd) ∧
      handleSdInit faults ctx s.sd s.msg s.certDer lineNum =
        initChain faults ctx' s.sd s.msg lineNum := by
  obtain ⟨hfp, ctx', htrust, hhave, heq⟩ := h
  obtain ⟨-, hreset, hhaveAlg, halg⟩ := trusted_counters htrust
  obtain ⟨hhaveAlg', halg'⟩ := initTail_alg ctx' lineNum
  refine ⟨initTail ctx' lineNum, ?_, ?_, ?_⟩
  · rw [initTail_counters, hreset]
  · unfold ChainRefused
    rw [hhaveAlg', halg', hhaveAlg, halg]
  · unfold handleSdInit
    simp only [initTrust_of_trusted htrust lineNum, ne_eq, not_true_eq_false,
      if_false, hfp, hhave, heq]

theorem handleSdInit_counters {faults : VerifyFaults}
    {ctx : VerifierCtx ossl} {s : StrippedLine}
    (h : KeyAccepted faults ctx s) (lineNum : UInt64) :
    (ChainRefused faults ctx s.sd →
      counters (handleSdInit faults ctx s.sd s.msg s.certDer lineNum).1 =
        resetCounters ctx) ∧
    (¬ ChainRefused faults ctx s.sd →
      counters (handleSdInit faults ctx s.sd s.msg s.certDer lineNum).1 =
        if faults.hashChain then (resetCounters ctx).begun
        else (resetCounters ctx).begun.message) := by
  obtain ⟨ctx', hcounters, hrefused, hchain⟩ := handleSdInit_chain h lineNum
  rw [hchain, ← hrefused, ← hcounters]
  constructor
  · exact fun h => initChain_counters_of_refused h s.msg lineNum
  · exact fun h => initChain_counters h s.msg lineNum

/-! ### Every record -/

/-- The record is counted as a message of the segment in progress. -/
def Counted (faults : VerifyFaults) (ctx : VerifierCtx ossl)
    (sd : HcsSdRecord) : Prop :=
  ctx.state = .processing ∧ Hashes faults ctx sd ∧
    (sd.type = .msg ∨ sd.type = .sig ∨
      (sd.type = .continue ∧ FpAgrees ctx sd))

/-- The record has a signature, and it is one over the new digest. -/
def SignatureHolds (faults : VerifyFaults) (ctx : VerifierCtx ossl)
    (s : StrippedLine) : Prop :=
  s.sd.type = .sig ∧ s.sd.hasSignature = true ∧
    verifySig faults (absorbed ctx s.msg) s.sd = 0

inductive Moves (faults : VerifyFaults) (ctx : VerifierCtx ossl)
    (s : StrippedLine) : Counters → Prop where
  | stays (h : ¬ Counted faults ctx s.sd) :
      Moves faults ctx s (counters ctx)
  | message (h : Counted faults ctx s.sd)
      (hsig : ¬ SignatureHolds faults ctx s) :
      Moves faults ctx s (counters ctx).message
  | signature (h : Counted faults ctx s.sd)
      (hsig : SignatureHolds faults ctx s) :
      Moves faults ctx s ((counters ctx).message.signature s.sd.seqTo)

theorem handleSdMsg_moves {faults : VerifyFaults} {ctx : VerifierCtx ossl}
    {s : StrippedLine} (htype : s.sd.type = .msg) (lineNum : UInt64) :
    Moves faults ctx s
      (counters (handleSdMsg faults ctx s.sd s.msg lineNum).1) := by
  have hsig : ¬ SignatureHolds faults ctx s := by
    rintro ⟨hsig, -⟩
    rw [htype] at hsig
    cases hsig
  unfold handleSdMsg
  by_cases hstate : ctx.state = .processing
  · rw [if_neg (not_not.mpr hstate)]
    by_cases hhashes : Hashes faults ctx s.sd
    · rw [(verifySdMsgHash_counters hhashes s.msg lineNum).2.1]
      exact .message ⟨hstate, hhashes, .inl htype⟩ hsig
    · rw [(verifySdMsgHash_counters_of_not hhashes s.msg lineNum).2]
      exact .stays fun h => hhashes h.2.1
  · rw [if_pos hstate]
    exact .stays fun h => hstate h.1

theorem handleSdContinue_moves {faults : VerifyFaults}
    {ctx : VerifierCtx ossl} {s : StrippedLine}
    (htype : s.sd.type = .continue) (lineNum : UInt64) :
    Moves faults ctx s
      (counters (handleSdContinue faults ctx s.sd s.msg lineNum).1) := by
  have hsig : ¬ SignatureHolds faults ctx s := by
    rintro ⟨hsig, -⟩
    rw [htype] at hsig
    cases hsig
  unfold handleSdContinue
  by_cases hstate : ctx.state = .processing
  · rw [if_neg (not_not.mpr hstate)]
    by_cases hfp : s.sd.hasPubkeyFp = true ∧ s.sd.pubkeyFp ≠ ctx.pubkeyFp
    · rw [if_pos hfp]
      apply Moves.stays
      rintro ⟨-, -, hother | hother | ⟨-, hagrees⟩⟩
      · rw [htype] at hother
        cases hother
      · rw [htype] at hother
        cases hother
      · exact hfp.2 (hagrees hfp.1)
    · rw [if_neg hfp]
      have hagrees : FpAgrees ctx s.sd := by
        intro hhas
        by_contra hne
        exact hfp ⟨hhas, hne⟩
      by_cases hhashes : Hashes faults ctx s.sd
      · have hcounters := (verifySdMsgHash_counters
          (show Hashes faults (countSegment ctx) s.sd from hhashes) s.msg
          lineNum).2.1
        change Moves faults ctx s (counters (verifySdMsgHash faults
          (countSegment ctx) s.sd s.msg lineNum).1)
        rw [hcounters]
        exact .message ⟨hstate, hhashes, .inr (.inr ⟨htype, hagrees⟩)⟩ hsig
      · have hcounters := (verifySdMsgHash_counters_of_not
          (show ¬ Hashes faults (countSegment ctx) s.sd from hhashes) s.msg
          lineNum).2
        change Moves faults ctx s (counters (verifySdMsgHash faults
          (countSegment ctx) s.sd s.msg lineNum).1)
        rw [hcounters]
        exact .stays fun h => hhashes h.2.1
  · rw [if_pos hstate]
    exact .stays fun h => hstate h.1

theorem handleSdSig_moves {faults : VerifyFaults} {ctx : VerifierCtx ossl}
    {s : StrippedLine} (htype : s.sd.type = .sig) (lineNum : UInt64) :
    Moves faults ctx s
      (counters (handleSdSig faults ctx s.sd s.msg lineNum).1) := by
  unfold handleSdSig
  by_cases hstate : ctx.state = .processing
  · rw [if_neg (not_not.mpr hstate)]
    by_cases hhashes : Hashes faults ctx s.sd
    · have hcounted : Counted faults ctx s.sd :=
        ⟨hstate, hhashes, .inr (.inl htype)⟩
      obtain ⟨hrc, hcounters, hverify⟩ :=
        verifySdMsgHash_counters hhashes s.msg lineNum
      simp only [hrc, ne_eq, not_true_eq_false, if_false]
      by_cases hsignature : s.sd.hasSignature = true
      · rw [if_neg (not_not.mpr hsignature), checkSig_counters, hverify,
          hcounters]
        by_cases hvalid : verifySig faults (absorbed ctx s.msg) s.sd = 0
        · rw [if_pos hvalid]
          exact .signature hcounted ⟨htype, hsignature, hvalid⟩
        · rw [if_neg hvalid]
          exact .message hcounted fun h => hvalid h.2.2
      · rw [if_pos hsignature]
        change Moves faults ctx s
          (counters (verifySdMsgHash faults ctx s.sd s.msg lineNum).1)
        rw [hcounters]
        exact .message hcounted fun h => hsignature h.2.1
    · obtain ⟨hrc, hcounters⟩ :=
        verifySdMsgHash_counters_of_not hhashes s.msg lineNum
      simp only [hrc]
      change Moves faults ctx s
        (counters (verifySdMsgHash faults ctx s.sd s.msg lineNum).1)
      rw [hcounters]
      exact .stays fun h => hhashes h.2.1
  · rw [if_pos hstate]
    exact .stays fun h => hstate h.1

/-! ## The messages behind the last signature -/

def opens (ossl : OpenSSL) (line : Bytes) : Bool :=
  (stripLine ossl line).any fun s => s.sd.type = .init

/-- The INIT record begins a segment of its own. -/
def StartsChain (faults : VerifyFaults) (ctx : VerifierCtx ossl)
    (s : StrippedLine) : Prop :=
  Live ctx ∧ s.sd.type = .init ∧ KeyAccepted faults ctx s ∧
    ¬ ChainRefused faults ctx s.sd

instance (faults : VerifyFaults) (ctx : VerifierCtx ossl)
    (s : StrippedLine) : Decidable (KeyAccepted faults ctx s) :=
  decidable_of_iff
    (s.sd.hasPubkeyFp = true ∧
      (trusted faults ctx s.certDer).any
        (fun ctx' => ctx'.havePubkey && s.sd.pubkeyFp == ctx'.pubkeyFp) = true)
    (by simp [KeyAccepted, Option.any_eq_true])

instance (faults : VerifyFaults) (ctx : VerifierCtx ossl)
    (sd : HcsSdRecord) : Decidable (ChainRefused faults ctx sd) :=
  decidable_of_iff
    ((hcsHashAlgFromHexLen (sd.chainHashLen * 2)).all
      (fun alg => decide ((ctx.haveHashAlg = true ∧ ctx.hashAlg ≠ alg) ∨
        faults.chainInit = true)) = true)
    (by simp [ChainRefused, Option.all_eq_true])

instance (faults : VerifyFaults) (ctx : VerifierCtx ossl)
    (sd : HcsSdRecord) : Decidable (Counted faults ctx sd) :=
  inferInstanceAs (Decidable (_ ∧ (_ ∧ _) ∧ (_ ∨ _ ∨ (_ ∧ (_ → _)))))

instance (faults : VerifyFaults) (ctx : VerifierCtx ossl)
    (s : StrippedLine) : Decidable (SignatureHolds faults ctx s) :=
  inferInstanceAs (Decidable (_ ∧ _ ∧ _))

instance (faults : VerifyFaults) (ctx : VerifierCtx ossl)
    (s : StrippedLine) : Decidable (StartsChain faults ctx s) :=
  inferInstanceAs (Decidable ((_ ∨ _) ∧ _ ∧ _ ∧ _))

/--
The messages behind the last valid signature of the segment.  The record is read
for what it is, whatever the context counts on it.
-/
def tailBehind (faults : VerifyFaults) (ctx : VerifierCtx ossl)
    (s : StrippedLine) (tail : Nat) : Nat :=
  if StartsChain faults ctx s then if faults.hashChain then 0 else 1
  else if Counted faults ctx s.sd then
    if SignatureHolds faults ctx s then 0 else tail + 1
  else tail

def tailAfter (ctx : VerifierCtx ossl) (call : VerifyCall) (tail : Nat) :
    Nat :=
  match stripLine ossl call.line with
  | none => tail
  | some s => tailBehind call.faults ctx s tail

def tailOf (ctx : VerifierCtx ossl) (tail : Nat) : List VerifyCall → Nat
  | [] => tail
  | call :: calls =>
      tailOf (processCall ctx call).1 (tailAfter ctx call tail) calls

theorem tailOf_concat (ctx : VerifierCtx ossl) (tail : Nat)
    (calls : List VerifyCall) (call : VerifyCall) :
    tailOf ctx tail (calls ++ [call]) =
      tailAfter (feed ctx calls) call (tailOf ctx tail calls) := by
  induction calls generalizing ctx tail with
  | nil => rfl
  | cons first calls ih => exact ih _ _

def reportedTail (ctx : VerifierCtx ossl) : UInt64 :=
  (if 0 < ctx.nextSeq then ctx.nextSeq - 1 else 0) - ctx.lastSignedSeq

/-- The differences do not underflow, and they are the number of messages. -/
structure TailExact (ctx : VerifierCtx ossl) (tail : Nat) : Prop where
  le : ctx.lastSignedSeq ≤ ctx.nextSeq - 1
  computed : (unsignedTail ctx).toNat = tail
  reported : (reportedTail ctx).toNat = tail

def Counters.Agrees (c : Counters) (tail : Nat) : Prop :=
  c.lastSignedSeq.toNat + tail + 1 = c.nextSeq.toNat

theorem tailExact_iff {ctx : VerifierCtx ossl} {tail : Nat} :
    TailExact ctx tail ↔ (counters ctx).Agrees tail := by
  have hnext := ctx.nextSeq.toNat_lt
  have hsigned := ctx.lastSignedSeq.toNat_lt
  have hpos : 0 < ctx.nextSeq ↔ 0 < ctx.nextSeq.toNat := by
    rw [UInt64.lt_iff_toNat_lt, UInt64.toNat_zero]
  have hcomputed : (unsignedTail ctx).toNat =
      (2 ^ 64 - ctx.lastSignedSeq.toNat +
        (2 ^ 64 - 1 + ctx.nextSeq.toNat) % 2 ^ 64) % 2 ^ 64 := by
    rw [unsignedTail, UInt64.toNat_sub, UInt64.toNat_sub, UInt64.toNat_one]
  have hle : ctx.lastSignedSeq ≤ ctx.nextSeq - 1 ↔
      ctx.lastSignedSeq.toNat ≤
        (2 ^ 64 - 1 + ctx.nextSeq.toNat) % 2 ^ 64 := by
    rw [UInt64.le_iff_toNat_le, UInt64.toNat_sub, UInt64.toNat_one]
  show _ ↔ ctx.lastSignedSeq.toNat + tail + 1 = ctx.nextSeq.toNat
  constructor
  · intro h
    have hleft := hle.mp h.le
    have htail := hcomputed.symm.trans h.computed
    have hreported := h.reported
    unfold reportedTail at hreported
    split_ifs at hreported with hcounted
    · rw [hpos] at hcounted
      omega
    · rw [hpos] at hcounted
      rw [UInt64.toNat_sub, UInt64.toNat_zero] at hreported
      omega
  · intro h
    have hcounted := hpos.mpr (by omega)
    have htail : (unsignedTail ctx).toNat = tail := by
      rw [hcomputed]
      omega
    constructor
    · rw [hle]
      omega
    · exact htail
    · unfold reportedTail
      rw [if_pos hcounted]
      exact htail

/-! ## One line -/

structure RecordOk (faults : VerifyFaults) (ctx : VerifierCtx ossl)
    (s : StrippedLine) : Prop where
  room : Counted faults ctx s.sd → ctx.nextSeq.toNat + 1 < 2 ^ 64
  position : Counted faults ctx s.sd → SignatureHolds faults ctx s →
    s.sd.seqTo = ctx.nextSeq
  reset : s.sd.type = .init → ctx.state = .processing →
    KeyAccepted faults ctx s → ChainRefused faults ctx s.sd →
    ctx.lastSignedSeq = 0

def LineOk (ctx : VerifierCtx ossl) (call : VerifyCall) : Prop :=
  ∀ s, stripLine ossl call.line = some s → RecordOk call.faults ctx s

theorem succ_toNat (n : UInt64) :
    n.toNat + 1 < 2 ^ 64 ∧ (n + 1).toNat = n.toNat + 1 ∨
      ¬ n.toNat + 1 < 2 ^ 64 ∧ (n + 1).toNat = 0 := by
  have hlt := n.toNat_lt
  rw [UInt64.toNat_add, UInt64.toNat_one]
  omega

theorem Counted.not_init {faults : VerifyFaults} {ctx : VerifierCtx ossl}
    {sd : HcsSdRecord} (h : Counted faults ctx sd) : sd.type ≠ .init := by
  intro hinit
  obtain ⟨-, -, h | h | ⟨h, -⟩⟩ := h <;> rw [hinit] at h <;> cases h

theorem tailBehind_of_not {faults : VerifyFaults} {ctx : VerifierCtx ossl}
    {s : StrippedLine} (hbegins : ¬ StartsChain faults ctx s)
    (hcounted : ¬ Counted faults ctx s.sd) (tail : Nat) :
    tailBehind faults ctx s tail = tail := by
  unfold tailBehind
  rw [if_neg hbegins, if_neg hcounted]

theorem tailBehind_counted {faults : VerifyFaults} {ctx : VerifierCtx ossl}
    {s : StrippedLine} (h : Counted faults ctx s.sd) (tail : Nat) :
    tailBehind faults ctx s tail =
      if SignatureHolds faults ctx s then 0 else tail + 1 := by
  unfold tailBehind
  rw [if_neg fun hbegins => h.not_init hbegins.2.1, if_pos h]

theorem Counters.agrees_message {c : Counters} {tail : Nat}
    (h : c.Agrees tail) :
    c.message.Agrees (tail + 1) ↔ c.nextSeq.toNat + 1 < 2 ^ 64 := by
  unfold Counters.Agrees at h
  have hsucc := succ_toNat c.nextSeq
  show c.lastSignedSeq.toNat + (tail + 1) + 1 = (c.nextSeq + 1).toNat ↔ _
  omega

theorem Counters.agrees_signature (c : Counters) (seqTo : UInt64) :
    (c.message.signature seqTo).Agrees 0 ↔
      c.nextSeq.toNat + 1 < 2 ^ 64 ∧ seqTo = c.nextSeq := by
  have hsucc := succ_toNat c.nextSeq
  have hlt := seqTo.toNat_lt
  rw [← UInt64.toNat_inj]
  show seqTo.toNat + 0 + 1 = (c.nextSeq + 1).toNat ↔ _
  omega

theorem Moves.agrees {faults : VerifyFaults} {ctx : VerifierCtx ossl}
    {s : StrippedLine} {c : Counters} {tail : Nat} (h : Moves faults ctx s c)
    (htype : s.sd.type ≠ .init) (hexact : (counters ctx).Agrees tail) :
    c.Agrees (tailBehind faults ctx s tail) ↔ RecordOk faults ctx s := by
  have hreset : s.sd.type = .init → ctx.state = .processing →
      KeyAccepted faults ctx s → ChainRefused faults ctx s.sd →
      ctx.lastSignedSeq = 0 := fun hinit => absurd hinit htype
  cases h with
  | stays hcounted =>
      rw [tailBehind_of_not (fun h => htype h.2.1) hcounted]
      exact iff_of_true hexact
        ⟨fun h => absurd h hcounted, fun h => absurd h hcounted, hreset⟩
  | message hcounted hsig =>
      rw [tailBehind_counted hcounted, if_neg hsig,
        Counters.agrees_message hexact]
      constructor
      · exact fun h => ⟨fun _ => h, fun _ hholds => absurd hholds hsig, hreset⟩
      · exact fun h => h.room hcounted
  | signature hcounted hsig =>
      rw [tailBehind_counted hcounted, if_pos hsig, Counters.agrees_signature]
      constructor
      · rintro ⟨hroom, hposition⟩
        exact ⟨fun _ => hroom, fun _ _ => hposition, hreset⟩
      · exact fun h => ⟨h.room hcounted, h.position hcounted hsig⟩

theorem handleSd_moves {faults : VerifyFaults} {ctx : VerifierCtx ossl}
    {s : StrippedLine} (htype : s.sd.type ≠ .init) (lineNum : UInt64) :
    Moves faults ctx s (counters (handleSd faults ctx s lineNum).1) := by
  unfold handleSd
  cases hs : s.sd.type with
  | init => exact absurd hs htype
  | msg => exact handleSdMsg_moves hs lineNum
  | sig => exact handleSdSig_moves hs lineNum
  | «continue» => exact handleSdContinue_moves hs lineNum
  | other code =>
      apply Moves.stays
      rintro ⟨-, -, h | h | ⟨h, -⟩⟩ <;> rw [hs] at h <;> cases h

theorem Counters.agrees_begun {c : Counters} (h : c.lastSignedSeq = 0) :
    c.begun.Agrees 0 ∧ c.begun.message.Agrees 1 := by
  unfold Counters.Agrees Counters.message Counters.begun
  simp only [h]
  decide

theorem resetCounters_zero {ctx : VerifierCtx ossl} (hlive : Live ctx)
    (hfirst : ctx.state = .expectInit → ctx.lastSignedSeq = 0) :
    (resetCounters ctx).lastSignedSeq = 0 := by
  unfold resetCounters
  cases hlive with
  | inl hstate => exact (if_neg (by simp [hstate])).trans (hfirst hstate)
  | inr hstate => exact if_pos hstate

theorem handleSdInit_agrees {faults : VerifyFaults} {ctx : VerifierCtx ossl}
    {s : StrippedLine} {tail : Nat} (htype : s.sd.type = .init)
    (hlive : Live ctx) (hexact : (counters ctx).Agrees tail)
    (hfirst : ctx.state = .expectInit → ctx.lastSignedSeq = 0)
    (lineNum : UInt64) :
    (counters (handleSdInit faults ctx s.sd s.msg s.certDer lineNum).1).Agrees
        (tailBehind faults ctx s tail) ↔
      RecordOk faults ctx s := by
  have hcounted : ¬ Counted faults ctx s.sd := fun h => h.not_init htype
  have hok : RecordOk faults ctx s ↔ (ctx.state = .processing →
      KeyAccepted faults ctx s → ChainRefused faults ctx s.sd →
      ctx.lastSignedSeq = 0) := by
    constructor
    · exact fun h => h.reset htype
    · exact fun h => ⟨fun h => absurd h hcounted, fun h => absurd h hcounted,
        fun _ => h⟩
  rw [hok]
  by_cases hkey : KeyAccepted faults ctx s
  · obtain ⟨hrefused, hbegun⟩ := handleSdInit_counters hkey lineNum
    have hzero := resetCounters_zero hlive hfirst
    by_cases hchain : ChainRefused faults ctx s.sd
    · have hagrees : (resetCounters ctx).Agrees tail ↔
          ctx.lastSignedSeq = 0 := by
        unfold Counters.Agrees at hexact ⊢
        rw [hzero, ← UInt64.toNat_inj]
        have hnext : (resetCounters ctx).nextSeq = (counters ctx).nextSeq := rfl
        have hsigned : (counters ctx).lastSignedSeq = ctx.lastSignedSeq := rfl
        rw [hnext, ← hexact, hsigned, UInt64.toNat_zero]
        omega
      rw [tailBehind_of_not (fun h => h.2.2.2 hchain) hcounted,
        hrefused hchain, hagrees]
      constructor
      · exact fun h _ _ _ => h
      · intro h
        cases hlive with
        | inl hstate => exact hfirst hstate
        | inr hstate => exact h hstate hkey hchain
    · refine iff_of_true ?_ fun _ _ h => absurd h hchain
      have hbegins : StartsChain faults ctx s := ⟨hlive, htype, hkey, hchain⟩
      rw [hbegun hchain, tailBehind, if_pos hbegins]
      by_cases hfault : faults.hashChain = true
      · rw [if_pos hfault, if_pos hfault]
        exact (Counters.agrees_begun hzero).1
      · rw [if_neg hfault, if_neg hfault]
        exact (Counters.agrees_begun hzero).2
  · refine iff_of_true ?_ fun _ h => absurd h hkey
    rw [tailBehind_of_not (fun h => hkey h.2.2.1) hcounted,
      handleSdInit_counters_of_not hkey lineNum]
    exact hexact

/-! ## Every line -/

theorem keyAccepted_addErrorIf {condition : Prop} [Decidable condition]
    {faults : VerifyFaults} {ctx : VerifierCtx ossl} {s : StrippedLine}
    {lineNum : UInt64} {message : Bytes} :
    KeyAccepted faults (addErrorIf condition ctx lineNum message) s ↔
      KeyAccepted faults ctx s := by
  unfold KeyAccepted
  rw [trusted_addErrorIf fun hhave fp => hhave = true ∧ s.sd.pubkeyFp = fp]

theorem recordOk_addErrorIf {condition : Prop} [Decidable condition]
    {faults : VerifyFaults} {ctx : VerifierCtx ossl} {s : StrippedLine}
    {lineNum : UInt64} {message : Bytes} :
    RecordOk faults (addErrorIf condition ctx lineNum message) s ↔
      RecordOk faults ctx s := by
  constructor
  · intro h
    exact ⟨h.room, h.position, fun hinit hstate hkey =>
      h.reset hinit hstate (keyAccepted_addErrorIf.mpr hkey)⟩
  · intro h
    exact ⟨h.room, h.position, fun hinit hstate hkey =>
      h.reset hinit hstate (keyAccepted_addErrorIf.mp hkey)⟩

theorem tailBehind_addErrorIf {condition : Prop} [Decidable condition]
    {faults : VerifyFaults} {ctx : VerifierCtx ossl} {s : StrippedLine}
    {lineNum : UInt64} {message : Bytes} (tail : Nat) :
    tailBehind faults (addErrorIf condition ctx lineNum message) s tail =
      tailBehind faults ctx s tail := by
  have hbegins :
      StartsChain faults (addErrorIf condition ctx lineNum message) s ↔
        StartsChain faults ctx s :=
    and_congr_right' (and_congr_right' (and_congr_left'
      keyAccepted_addErrorIf))
  unfold tailBehind
  apply if_congr hbegins rfl
  exact if_congr Iff.rfl (if_congr Iff.rfl rfl rfl) rfl

theorem processCall_agrees {ctx : VerifierCtx ossl} {tail : Nat}
    (hlive : Live ctx) (hexact : (counters ctx).Agrees tail)
    (hfirst : ctx.state = .expectInit → ctx.lastSignedSeq = 0)
    (call : VerifyCall) :
    (counters (processCall ctx call).1).Agrees (tailAfter ctx call tail) ↔
      LineOk ctx call := by
  unfold LineOk tailAfter
  cases hstrip : stripLine ossl call.line with
  | none =>
      refine iff_of_true ?_ fun s hs => by cases hs
      have hsame : counters (processCall ctx call).1 = counters ctx := by
        unfold processCall
        simp only [verifierProcessLine, if_neg hlive.not_stopped, hstrip]
        split_ifs <;> rfl
      rw [hsame]
      exact hexact
  | some s =>
      have hall : (∀ s', some s = some s' → RecordOk call.faults ctx s') ↔
          RecordOk call.faults ctx s := by
        simp
      rw [hall]
      change Counters.Agrees _ (tailBehind call.faults ctx s tail) ↔ _
      generalize hmalformed : addErrorIf s.malformed ctx call.lineNum
        (ascii "malformed embedded cert SD element") = ctx'
      have hcounters : counters ctx' = counters ctx := by rw [← hmalformed]; rfl
      have hstate : ctx'.state = ctx.state := by rw [← hmalformed]; rfl
      have hsigned : ctx'.lastSignedSeq = ctx.lastSignedSeq := by
        rw [← hmalformed]
        rfl
      have hrecord : RecordOk call.faults ctx' s ↔ RecordOk call.faults ctx s := by
        rw [← hmalformed]
        exact recordOk_addErrorIf
      have htail : tailBehind call.faults ctx' s tail =
          tailBehind call.faults ctx s tail := by
        rw [← hmalformed]
        exact tailBehind_addErrorIf tail
      have hstep : processCall ctx call =
          if ctx'.state = .expectInit ∧ s.sd.type ≠ .init then
            setError (addError ctx' call.lineNum
              (ascii "expected INIT SD record"))
          else handleSd call.faults ctx' s call.lineNum := by
        rw [← hmalformed]
        unfold processCall
        simp only [verifierProcessLine, if_neg hlive.not_stopped, hstrip]
      rw [← hrecord, ← htail]
      rw [← hcounters] at hexact
      by_cases htype : s.sd.type = .init
      · have hinit : processCall ctx call = handleSdInit call.faults ctx' s.sd
            s.msg s.certDer call.lineNum := by
          rw [hstep, if_neg (fun h => h.2 htype)]
          simp only [handleSd, htype]
        rw [hinit]
        apply handleSdInit_agrees htype _ hexact
        · rw [hstate, hsigned]
          exact hfirst
        · unfold Live
          rw [hstate]
          exact hlive
      · have hmoves :
            Moves call.faults ctx' s (counters (processCall ctx call).1) := by
          rw [hstep]
          split_ifs with hexpect
          · apply Moves.stays
            intro h
            rw [h.1] at hexpect
            cases hexpect.1
          · exact handleSd_moves htype call.lineNum
        exact hmoves.agrees htype hexact

theorem tailAfter_of_not_live {ctx : VerifierCtx ossl} (h : ¬ Live ctx)
    (call : VerifyCall) (tail : Nat) : tailAfter ctx call tail = tail := by
  unfold tailAfter
  cases stripLine ossl call.line with
  | none => rfl
  | some s =>
      exact tailBehind_of_not (fun hbegins => h hbegins.1)
        (fun hcounted => h (.inr hcounted.1)) tail

theorem lineOk_of_not_live {ctx : VerifierCtx ossl} (h : ¬ Live ctx)
    (call : VerifyCall) : LineOk ctx call := by
  intro s _
  constructor
  · exact fun hcounted => absurd (.inr hcounted.1) h
  · exact fun hcounted => absurd (.inr hcounted.1) h
  · exact fun _ hstate => absurd (.inr hstate) h

/-! ## Every run -/

/-- In every state of the run, and when the run is over there. -/
def TailsExact (ctx : VerifierCtx ossl) (calls : List VerifyCall) : Prop :=
  ∀ before, before <+: calls →
    TailExact (feed ctx before) (tailOf ctx 0 before) ∧
      TailExact (verifierFinalize (feed ctx before)) (tailOf ctx 0 before)

theorem feed_agrees_iff {ctx : VerifierCtx ossl}
    (hexact : (counters ctx).Agrees 0)
    (hfirst : ctx.state = .expectInit → ctx.lastSignedSeq = 0)
    (calls : List VerifyCall) :
    (∀ before, before <+: calls →
        (counters (feed ctx before)).Agrees (tailOf ctx 0 before)) ↔
      Throughout (fun before call => LineOk (feed ctx before) call) calls := by
  induction calls using List.reverseRecOn with
  | nil =>
      refine iff_of_true ?_ (throughout_nil _)
      intro before hbefore
      rw [List.prefix_nil.mp hbefore]
      exact hexact
  | append_singleton calls call ih =>
      rw [throughout_concat, ← ih]
      have hlast : (∀ before, before <+: calls →
            (counters (feed ctx before)).Agrees (tailOf ctx 0 before)) →
          ((counters (feed ctx (calls ++ [call]))).Agrees
              (tailOf ctx 0 (calls ++ [call])) ↔
            LineOk (feed ctx calls) call) := by
        intro hall
        have hcalls := hall calls List.prefix_rfl
        rw [tailOf_concat, feed_concat]
        by_cases hstate : Live (feed ctx calls)
        · apply processCall_agrees hstate hcalls
          intro hexpect
          have hnil : calls = [] := by
            by_contra hne
            exact feed_begun ctx hne hexpect
          subst hnil
          exact hfirst hexpect
        · rw [processCall_of_not_live hstate, tailAfter_of_not_live hstate]
          exact iff_of_true hcalls (lineOk_of_not_live hstate call)
      constructor
      · intro hall
        have hbefore : ∀ before, before <+: calls →
            (counters (feed ctx before)).Agrees (tailOf ctx 0 before) :=
          fun before hb => hall before (hb.trans (List.prefix_append _ _))
        exact ⟨hbefore, (hlast hbefore).mp (hall _ List.prefix_rfl)⟩
      · rintro ⟨hbefore, hok⟩ before hprefix
        rcases List.prefix_concat_iff.mp hprefix with rfl | hb
        · exact (hlast hbefore).mpr hok
        · exact hbefore before hb

theorem tailsExact_iff (ossl : OpenSSL) (fingerprintFails : Bool)
    (opts : VerifierOpts) (ctx : VerifierCtx ossl)
    (hinit : verifierInit ossl fingerprintFails opts = some ctx)
    (calls : List VerifyCall) :
    TailsExact ctx calls ↔
      Throughout (fun before call => LineOk (feed ctx before) call) calls := by
  have hstart : (counters ctx).Agrees 0 ∧ ctx.lastSignedSeq = 0 := by
    rcases verifierInit_cases hinit with ⟨-, pkey, fp, rfl, -⟩ | ⟨-, store, rfl⟩
    · exact ⟨rfl, rfl⟩
    · exact ⟨rfl, rfl⟩
  rw [← feed_agrees_iff hstart.1 fun _ => hstart.2]
  have hfinal : ∀ (c : VerifierCtx ossl) (tail : Nat),
      TailExact (verifierFinalize c) tail ↔ TailExact c tail := by
    intro c tail
    rw [tailExact_iff, tailExact_iff]
    rfl
  unfold TailsExact
  constructor
  · intro h before hbefore
    exact tailExact_iff.mp (h before hbefore).1
  · intro h before hbefore
    have hexact := tailExact_iff.mpr (h before hbefore)
    exact ⟨hexact, (hfinal _ _).mpr hexact⟩

instance (faults : VerifyFaults) (ctx : VerifierCtx ossl)
    (s : StrippedLine) : Decidable (RecordOk faults ctx s) :=
  decidable_of_iff
    ((Counted faults ctx s.sd → ctx.nextSeq.toNat + 1 < 2 ^ 64) ∧
      (Counted faults ctx s.sd → SignatureHolds faults ctx s →
        s.sd.seqTo = ctx.nextSeq) ∧
      (s.sd.type = .init → ctx.state = .processing →
        KeyAccepted faults ctx s → ChainRefused faults ctx s.sd →
        ctx.lastSignedSeq = 0))
    ⟨fun ⟨room, position, reset⟩ => ⟨room, position, reset⟩,
      fun h => ⟨h.room, h.position, h.reset⟩⟩

instance (ctx : VerifierCtx ossl) (call : VerifyCall) :
    Decidable (LineOk ctx call) :=
  decidable_of_iff (∀ s ∈ stripLine ossl call.line,
    RecordOk call.faults ctx s) Iff.rfl

/-- A segment that is signed, and the first line of the next one. -/
theorem tailsExact_iff_sample :
    TailsExact (sampleCtx false)
        [unsignedCall 0, signingCall, unsignedCall 0] ∧
      tailOf (sampleCtx false) 0
        [unsignedCall 0, signingCall, unsignedCall 0] = 1 := by
  refine ⟨(tailsExact_iff sampleOpenSSL false { pubkeyPath := some [7] }
    (sampleCtx false) rfl _).mpr ?_, by decide +kernel⟩
  intro before call after hcalls
  rcases before with _ | ⟨first, _ | ⟨second, _ | ⟨third, before⟩⟩⟩
  · cases hcalls
    decide +kernel
  · cases hcalls
    decide +kernel
  · cases hcalls
    decide +kernel
  · have hlength := congrArg List.length hcalls
    simp at hlength

def misplacedSig : VerifyCall :=
  let hash := payloadHash sampleOpenSSL .sha256 [[], []]
  { line := elementText (sigParams 2 hash 1 9 hash), lineNum := 2 }

theorem tail_underflows :
    verifierInit sampleOpenSSL false { pubkeyPath := some [7] } =
        some (sampleCtx false) ∧
      (let ctx := feed (sampleCtx false) [unsignedCall 0, misplacedSig]
      ctx.sigCount = 1 ∧ ctx.nextSeq = 3 ∧ ctx.lastSignedSeq = 9 ∧
        unsignedTail ctx = 0 - 7 ∧ reportedTail ctx = 0 - 7) ∧
      tailOf (sampleCtx false) 0 [unsignedCall 0, misplacedSig] = 0 ∧
      ¬ TailsExact (sampleCtx false) [unsignedCall 0, misplacedSig] := by
  have hcounters :
      (let ctx := feed (sampleCtx false) [unsignedCall 0, misplacedSig]
      ctx.sigCount = 1 ∧ ctx.nextSeq = 3 ∧ ctx.lastSignedSeq = 9 ∧
        unsignedTail ctx = 0 - 7 ∧ reportedTail ctx = 0 - 7) := by
    decide +kernel
  refine ⟨rfl, hcounters, by decide +kernel, ?_⟩
  intro hexact
  have hle := (hexact _ List.prefix_rfl).1.le
  rw [hcounters.2.1, hcounters.2.2.1] at hle
  exact absurd hle (by decide)

end MmHashChainSigs.Verify
