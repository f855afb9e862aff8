import MmHashChainSigs.Common.RoundTrip
import MmHashChainSigs.Verify.Main

/-!
# Segments stand on their own

What a line adds to the errors, and the state it leaves, depend on a part of
the context only, and an INIT record sets most of that part anew.
-/

namespace MmHashChainSigs.Verify

open MmHashChainSigs.Foundation
open MmHashChainSigs.Common

variable {ossl : OpenSSL}

/-! ## Recorded messages -/

def recordAll (lineNum : UInt64) (errors : List VerifierError)
    (messages : List Bytes) : List VerifierError :=
  messages.foldl (fun errors message => pushError errors lineNum message)
    errors

theorem pushError_length (errors : List VerifierError) (lineNum : UInt64)
    (message : Bytes) :
    errors.length ≤ (pushError errors lineNum message).length ∧
      (pushError errors lineNum message).length ≤ errors.length + 1 ∧
      (errors.length < Limits.verifierMaxErrors →
        (pushError errors lineNum message).length = errors.length + 1) := by
  unfold pushError
  split_ifs with hfull
  · exact ⟨Nat.le_refl _, Nat.le_succ _, fun h => absurd h (by omega)⟩
  · simp

theorem recordAll_full {errors : List VerifierError} {messages : List Bytes}
    (h : Limits.verifierMaxErrors ≤ messages.length) (lineNum : UInt64) :
    Limits.verifierMaxErrors ≤
      (recordAll lineNum errors messages).length := by
  have hgrows : ∀ (messages : List Bytes) (errors : List VerifierError),
      min Limits.verifierMaxErrors (errors.length + messages.length) ≤
        (recordAll lineNum errors messages).length := by
    intro messages
    induction messages with
    | nil =>
        intro errors
        exact Nat.min_le_right _ _
    | cons message messages ih =>
        intro errors
        have hrest := ih (pushError errors lineNum message)
        have hpush := pushError_length errors lineNum message
        simp only [List.length_cons]
        have hcons : recordAll lineNum errors (message :: messages) =
            recordAll lineNum (pushError errors lineNum message) messages := rfl
        rw [hcons]
        omega
  have hall := hgrows messages errors
  omega

theorem pushError_take (errors : List VerifierError) (lineNum : UInt64)
    (message : Bytes) :
    pushError errors lineNum (message.take (Limits.verifierMessageLen - 1)) =
      pushError errors lineNum message := by
  unfold pushError
  rw [List.take_take, min_self]

theorem recordAll_push (lineNum : UInt64) (errors : List VerifierError)
    (own : List VerifierError) (lineNum' : UInt64) (message : Bytes) :
    recordAll lineNum errors
        ((pushError own lineNum' message).map VerifierError.message) =
      pushError (recordAll lineNum errors (own.map VerifierError.message))
        lineNum message := by
  have hlength : (own.map VerifierError.message).length = own.length :=
    List.length_map _
  by_cases hfull : Limits.verifierMaxErrors ≤ own.length
  · have hrecorded := @recordAll_full errors _ (hlength ▸ hfull) lineNum
    rw [pushError, if_pos hfull, pushError, if_pos hrecorded]
  · rw [← pushError_take (recordAll _ _ _)]
    nth_rewrite 1 [pushError]
    rw [if_neg hfull, List.map_append, recordAll, List.foldl_append]
    rfl

theorem recordAll_append (lineNum : UInt64) (errors : List VerifierError)
    (messages more : List Bytes) :
    recordAll lineNum errors (messages ++ more) =
      recordAll lineNum (recordAll lineNum errors messages) more :=
  List.foldl_append

theorem recordAll_recordAll (lineNum lineNum' : UInt64)
    (errors own : List VerifierError) (messages : List Bytes) :
    recordAll lineNum errors
        ((recordAll lineNum' own messages).map VerifierError.message) =
      recordAll lineNum
        (recordAll lineNum errors (own.map VerifierError.message))
        messages := by
  induction messages generalizing own with
  | nil => rfl
  | cons message messages ih =>
      have hrest := ih (pushError own lineNum' message)
      rw [recordAll_push] at hrest
      exact hrest

theorem recordAll_message (lineNum lineNum' : UInt64)
    (errors : List VerifierError) (messages : List Bytes) :
    (recordAll lineNum errors messages).map VerifierError.message =
      (recordAll lineNum' errors messages).map VerifierError.message := by
  have hpush : ∀ own own' : List VerifierError, ∀ message,
      own.map VerifierError.message = own'.map VerifierError.message →
      (pushError own lineNum message).map VerifierError.message =
        (pushError own' lineNum' message).map VerifierError.message := by
    intro own own' message h
    have hlength : own.length = own'.length := by
      simpa using congrArg List.length h
    unfold pushError
    rw [hlength]
    split_ifs
    · exact h
    · simp [h]
  have hall : ∀ own own' : List VerifierError,
      own.map VerifierError.message = own'.map VerifierError.message →
      (recordAll lineNum own messages).map VerifierError.message =
        (recordAll lineNum' own' messages).map VerifierError.message := by
    induction messages with
    | nil => exact fun _ _ h => h
    | cons message messages ih =>
        intro own own' h
        exact ih _ _ (hpush _ _ _ h)
  exact hall _ _ rfl

/-! ## What is read -/

def readPart (ctx : VerifierCtx ossl) : VerifierCtx ossl :=
  { ctx with errors := [], msgCount := 0, sigCount := 0, segmentCount := 0 }

/--
The two contexts are read alike.  The errors of the second one are those that
the first one has behind `errors`.
-/
structure Mirrors (lineNum : UInt64) (errors : List VerifierError)
    (ctx own : VerifierCtx ossl) : Prop where
  read : readPart ctx = readPart own
  errors : ctx.errors =
    recordAll lineNum errors (own.errors.map VerifierError.message)

section Handlers

variable {lineNum lineNum' : UInt64} {errors : List VerifierError}
  {ctx own : VerifierCtx ossl} {faults : VerifyFaults} {sd : HcsSdRecord}

theorem Mirrors.reads {α : Type} (h : Mirrors lineNum errors ctx own)
    (f : VerifierCtx ossl → α) : f (readPart ctx) = f (readPart own) :=
  congrArg f h.read

theorem Mirrors.state (h : Mirrors lineNum errors ctx own) :
    ctx.state = own.state := h.reads VerifierCtx.state

theorem Mirrors.nextSeq (h : Mirrors lineNum errors ctx own) :
    ctx.nextSeq = own.nextSeq := h.reads VerifierCtx.nextSeq

theorem Mirrors.lastSignedSeq (h : Mirrors lineNum errors ctx own) :
    ctx.lastSignedSeq = own.lastSignedSeq := h.reads VerifierCtx.lastSignedSeq

theorem Mirrors.hashLen (h : Mirrors lineNum errors ctx own) :
    ctx.hashLen = own.hashLen := h.reads VerifierCtx.hashLen

theorem Mirrors.hashAlg (h : Mirrors lineNum errors ctx own) :
    ctx.hashAlg = own.hashAlg := h.reads VerifierCtx.hashAlg

theorem Mirrors.chainHash (h : Mirrors lineNum errors ctx own) :
    ctx.chainHash = own.chainHash := h.reads VerifierCtx.chainHash

theorem Mirrors.pubkeyFp (h : Mirrors lineNum errors ctx own) :
    ctx.pubkeyFp = own.pubkeyFp := h.reads VerifierCtx.pubkeyFp

theorem Mirrors.exists_eq (h : Mirrors lineNum errors ctx own) :
    ∃ msgCount sigCount segmentCount, ctx =
      { own with
        msgCount := msgCount, sigCount := sigCount
        segmentCount := segmentCount
        errors :=
          recordAll lineNum errors (own.errors.map VerifierError.message) } := by
  refine ⟨ctx.msgCount, ctx.sigCount, ctx.segmentCount, ?_⟩
  rw [← h.errors]
  exact h.reads fun read => { read with
    msgCount := ctx.msgCount, sigCount := ctx.sigCount
    segmentCount := ctx.segmentCount, errors := ctx.errors }

theorem Mirrors.change (h : Mirrors lineNum errors ctx own)
    (f : VerifierCtx ossl → VerifierCtx ossl)
    (hread : ∀ ctx, readPart (f ctx) = readPart (f (readPart ctx)))
    (herrors : ∀ ctx, (f ctx).errors = ctx.errors) :
    Mirrors lineNum errors (f ctx) (f own) := by
  constructor
  · rw [hread ctx, hread own, h.read]
  · rw [herrors, herrors]
    exact h.errors

theorem mirrors_addError (h : Mirrors lineNum errors ctx own)
    (lineNum' : UInt64) (message : Bytes) :
    Mirrors lineNum errors (addError ctx lineNum message)
      (addError own lineNum' message) := by
  constructor
  · exact h.read
  · simp only [addError, recordAll_push, h.errors]

theorem mirrors_addErrorIf (h : Mirrors lineNum errors ctx own)
    (condition : Prop) [Decidable condition] (lineNum' : UInt64)
    (message : Bytes) :
    Mirrors lineNum errors (addErrorIf condition ctx lineNum message)
      (addErrorIf condition own lineNum' message) := by
  constructor
  · exact h.read
  · unfold addErrorIf
    split_ifs
    · simp only [recordAll_push, h.errors]
    · exact h.errors

def MirrorsCall (lineNum : UInt64) (errors : List VerifierError)
    (result own : VerifierCtx ossl × Int) : Prop :=
  result.2 = own.2 ∧ Mirrors lineNum errors result.1 own.1

theorem mirrors_setError (h : Mirrors lineNum errors ctx own) :
    MirrorsCall lineNum errors (setError ctx) (setError own) := by
  constructor
  · rfl
  · exact h.change (fun ctx => { ctx with state := .error }) (fun _ => rfl)
      (fun _ => rfl)

theorem mirrors_verifySdMsgHash (h : Mirrors lineNum errors ctx own)
    (faults : VerifyFaults) (sd : HcsSdRecord) (msg : Bytes)
    (lineNum' : UInt64) :
    MirrorsCall lineNum errors (verifySdMsgHash faults ctx sd msg lineNum)
      (verifySdMsgHash faults own sd msg lineNum') := by
  unfold verifySdMsgHash
  rw [h.nextSeq]
  have hseq := mirrors_addErrorIf h (sd.seq ≠ own.nextSeq) lineNum'
    (ascii "SD seq=" ++ number sd.seq ++ ascii ", expected " ++
      number own.nextSeq)
  generalize addErrorIf (sd.seq ≠ own.nextSeq) ctx lineNum _ = next
    at hseq ⊢
  generalize addErrorIf (sd.seq ≠ own.nextSeq) own lineNum' _ = next'
    at hseq ⊢
  obtain ⟨msgCount, sigCount, segmentCount, rfl⟩ := hseq.exists_eq
  dsimp only
  split_ifs
  · exact mirrors_setError (mirrors_addError hseq _ _)
  · cases hcsHashChain ossl faults.hashChain next'.hashAlg next'.chainHash
      next'.nextSeq msg with
    | none => exact mirrors_setError hseq
    | some hash =>
        have hnext := hseq.change (fun ctx => { ctx with chainHash := hash })
          (fun _ => rfl) (fun _ => rfl)
        have hcompared := mirrors_addErrorIf hnext (hash ≠ sd.chainHash)
          lineNum' (ascii "chain hash mismatch at seq " ++ number sd.seq)
        constructor
        · rfl
        · exact hcompared.change (fun ctx => { ctx with
            nextSeq := ctx.nextSeq + 1, msgCount := ctx.msgCount + 1 })
            (fun _ => rfl) (fun _ => rfl)

theorem mirrors_checkSig (h : Mirrors lineNum errors ctx own)
    (faults : VerifyFaults) (sd : HcsSdRecord) (lineNum' : UInt64) :
    Mirrors lineNum errors (checkSig faults ctx sd lineNum)
      (checkSig faults own sd lineNum') := by
  have hverify := h.reads fun ctx => verifySig faults ctx sd
  change verifySig faults ctx sd = verifySig faults own sd at hverify
  unfold checkSig
  rw [hverify]
  obtain ⟨msgCount, sigCount, segmentCount, rfl⟩ := h.exists_eq
  generalize verifySig faults own sd = vr
  have hfrom := mirrors_addErrorIf h (sd.seqFrom ≠ own.lastSignedSeq + 1)
    lineNum' (ascii "SIG qf=" ++ number sd.seqFrom ++ ascii ", expected " ++
      number (own.lastSignedSeq + 1))
  have hto := mirrors_addErrorIf hfrom (sd.seqTo ≠ own.nextSeq - 1)
    lineNum' (ascii "SIG qt=" ++ number sd.seqTo ++ ascii ", expected " ++
      number (own.nextSeq - 1))
  have hinvalid := mirrors_addErrorIf hto (vr = 1) lineNum'
    (ascii "invalid signature at seq " ++
      (number sd.seqFrom ++ ascii "-" ++ number sd.seqTo))
  have herror := mirrors_addErrorIf hinvalid (vr < 0) lineNum'
    (ascii "signature verification error at seq " ++
      (number sd.seqFrom ++ ascii "-" ++ number sd.seqTo))
  dsimp only
  by_cases hvr : vr = 0
  · rw [if_pos hvr, if_pos hvr]
    exact herror.change (fun ctx => { ctx with
      lastSignedSeq := sd.seqTo, sigCount := ctx.sigCount + 1 })
      (fun _ => rfl) (fun _ => rfl)
  · rw [if_neg hvr, if_neg hvr]
    exact herror

theorem mirrors_handleSdMsg (h : Mirrors lineNum errors ctx own)
    (faults : VerifyFaults) (sd : HcsSdRecord) (msg : Bytes)
    (lineNum' : UInt64) :
    MirrorsCall lineNum errors (handleSdMsg faults ctx sd msg lineNum)
      (handleSdMsg faults own sd msg lineNum') := by
  unfold handleSdMsg
  rw [h.state]
  split_ifs
  · exact mirrors_setError (mirrors_addError h _ _)
  · exact mirrors_verifySdMsgHash h _ _ _ _

theorem mirrors_handleSdSig (h : Mirrors lineNum errors ctx own)
    (faults : VerifyFaults) (sd : HcsSdRecord) (msg : Bytes)
    (lineNum' : UInt64) :
    MirrorsCall lineNum errors (handleSdSig faults ctx sd msg lineNum)
      (handleSdSig faults own sd msg lineNum') := by
  obtain ⟨hrc, hhash⟩ := mirrors_verifySdMsgHash h faults sd msg lineNum'
  unfold handleSdSig
  dsimp only
  rw [h.state, hrc]
  split_ifs
  · exact ⟨rfl, mirrors_addError h _ _⟩
  · exact ⟨rfl, hhash⟩
  · exact ⟨rfl, mirrors_checkSig hhash _ _ _⟩
  · exact ⟨rfl, mirrors_addError hhash _ _⟩

theorem mirrors_handleSdContinue (h : Mirrors lineNum errors ctx own)
    (faults : VerifyFaults) (sd : HcsSdRecord) (msg : Bytes)
    (lineNum' : UInt64) :
    MirrorsCall lineNum errors (handleSdContinue faults ctx sd msg lineNum)
      (handleSdContinue faults own sd msg lineNum') := by
  obtain ⟨msgCount, sigCount, segmentCount, rfl⟩ := h.exists_eq
  unfold handleSdContinue
  dsimp only
  split_ifs
  · exact ⟨rfl, mirrors_addError h _ _⟩
  · exact ⟨rfl, mirrors_addError h _ _⟩
  · apply mirrors_verifySdMsgHash
    exact h.change (fun ctx => { ctx with
      segmentCount := ctx.segmentCount + 1 }) (fun _ => rfl) (fun _ => rfl)

/-! ## INIT records -/

def chainPart (ctx : VerifierCtx ossl) : VerifierCtx ossl :=
  { readPart ctx with hashLen := 0, chainHash := [], nextSeq := 1 }

structure Begins (lineNum : UInt64) (errors : List VerifierError)
    (ctx own : VerifierCtx ossl) : Prop where
  read : chainPart ctx = chainPart own
  errors : ctx.errors =
    recordAll lineNum errors (own.errors.map VerifierError.message)

structure Agree (ctx own : VerifierCtx ossl) : Prop where
  state : ctx.state = own.state
  read : own.state ≠ .error → readPart ctx = readPart own

structure Follows (lineNum : UInt64) (errors : List VerifierError)
    (ctx own : VerifierCtx ossl) : Prop extends Agree ctx own where
  errors : ctx.errors =
    recordAll lineNum errors (own.errors.map VerifierError.message)

theorem Mirrors.begins (h : Mirrors lineNum errors ctx own) :
    Begins lineNum errors ctx own := by
  constructor
  · exact h.reads fun ctx =>
      { ctx with hashLen := 0, chainHash := [], nextSeq := 1 }
  · exact h.errors

theorem Mirrors.follows (h : Mirrors lineNum errors ctx own) :
    Follows lineNum errors ctx own where
  state := h.state
  read := fun _ => h.read
  errors := h.errors

theorem agree_abandoned (hstate : ctx.state = .error)
    (hown : own.state = .error) : Agree ctx own where
  state := by rw [hstate, hown]
  read := fun hne => absurd hown hne

theorem follows_initChain (h : Begins lineNum errors ctx own)
    (faults : VerifyFaults) (sd : HcsSdRecord) (msg : Bytes)
    (lineNum' : UInt64) :
    Follows lineNum errors (initChain faults ctx sd msg lineNum).1
      (initChain faults own sd msg lineNum').1 := by
  have hlocked : ctx.haveHashAlg = own.haveHashAlg := by
    simpa [chainPart, readPart] using congrArg VerifierCtx.haveHashAlg h.read
  have halg : ctx.hashAlg = own.hashAlg := by
    simpa [chainPart, readPart] using congrArg VerifierCtx.hashAlg h.read
  have hfailed : ∀ message, Follows lineNum errors
      (setError (addError ctx lineNum message)).1
      (setError (addError own lineNum' message)).1 := by
    intro message
    refine ⟨agree_abandoned rfl rfl, ?_⟩
    simp only [setError, addError, recordAll_push, h.errors]
  unfold initChain
  rw [hlocked, halg]
  cases hcsHashAlgFromHexLen (sd.chainHashLen * 2) with
  | none => exact hfailed _
  | some alg =>
      dsimp only
      split_ifs
      · exact hfailed _
      · cases hcsChainInitHash ossl faults.chainInit alg with
        | none => exact ⟨agree_abandoned rfl rfl, h.errors⟩
        | some iv =>
            apply Mirrors.follows
            refine (mirrors_verifySdMsgHash ?_ _ _ _ _).2
            constructor
            · exact congrArg (fun ctx => { ctx with
                hashAlg := alg, hashLen := hcsHashLen alg, haveHashAlg := true
                chainHash := iv, state := .processing }) h.read
            · exact h.errors

theorem mirrors_initTail (h : Mirrors lineNum errors ctx own)
    (lineNum' : UInt64) :
    Mirrors lineNum errors (initTail ctx lineNum) (initTail own lineNum') := by
  obtain ⟨msgCount, sigCount, segmentCount, rfl⟩ := h.exists_eq
  unfold initTail
  dsimp only
  split_ifs
  · have htail := mirrors_addErrorIf h
      (0 < own.nextSeq - 1 - own.lastSignedSeq ∧ own.strict) lineNum'
      (number (own.nextSeq - 1 - own.lastSignedSeq) ++
        ascii " messages unsigned before new segment")
    exact htail.change (fun ctx => { ctx with lastSignedSeq := 0 })
      (fun _ => rfl) (fun _ => rfl)
  · exact h

theorem handleSdInit_cases (hctx : ctx.trustStore = none)
    (hown : own.trustStore = none) (hhave : ctx.havePubkey = own.havePubkey)
    (hfp : ctx.pubkeyFp = own.pubkeyFp) (faults : VerifyFaults)
    (sd : HcsSdRecord) (msg certDer : Bytes) (lineNum lineNum' : UInt64) :
    (∃ message, handleSdInit faults ctx sd msg certDer lineNum =
        setError (addError ctx lineNum message) ∧
      handleSdInit faults own sd msg certDer lineNum' =
        setError (addError own lineNum' message)) ∨
    (handleSdInit faults ctx sd msg certDer lineNum =
        initChain faults (initTail ctx lineNum) sd msg lineNum ∧
      handleSdInit faults own sd msg certDer lineNum' =
        initChain faults (initTail own lineNum') sd msg lineNum') := by
  unfold handleSdInit
  rw [(trusted_of_key (.inl hctx) faults certDer lineNum).2,
    (trusted_of_key (.inl hown) faults certDer lineNum').2]
  simp only [hhave, hfp, ne_eq, not_true_eq_false, if_false]
  split_ifs
  · exact .inr ⟨rfl, rfl⟩
  · exact .inl ⟨_, rfl, rfl⟩
  · exact .inl ⟨_, rfl, rfl⟩
  · exact .inl ⟨_, rfl, rfl⟩

theorem follows_handleSdInit (h : Mirrors lineNum errors ctx own)
    (hstore : own.trustStore = none) (faults : VerifyFaults)
    (sd : HcsSdRecord) (msg certDer : Bytes) (lineNum' : UInt64) :
    Follows lineNum errors
      (handleSdInit faults ctx sd msg certDer lineNum).1
      (handleSdInit faults own sd msg certDer lineNum').1 := by
  have hctx : ctx.trustStore = none :=
    (h.reads VerifierCtx.trustStore).trans hstore
  have hhave : ctx.havePubkey = own.havePubkey :=
    h.reads VerifierCtx.havePubkey
  rcases handleSdInit_cases hctx hstore hhave h.pubkeyFp faults sd msg
      certDer lineNum lineNum' with ⟨message, heq, heq'⟩ | ⟨heq, heq'⟩
  · rw [heq, heq']
    exact (mirrors_setError (mirrors_addError h _ _)).2.follows
  · rw [heq, heq']
    exact follows_initChain (mirrors_initTail h _).begins _ _ _ _

/-! ## Lines -/

theorem follows_handleSd (h : Mirrors lineNum errors ctx own)
    (hstore : own.trustStore = none) (faults : VerifyFaults)
    (s : StrippedLine) (lineNum' : UInt64) :
    Follows lineNum errors (handleSd faults ctx s lineNum).1
      (handleSd faults own s lineNum').1 := by
  unfold handleSd
  cases s.sd.type with
  | init => exact follows_handleSdInit h hstore _ _ _ _ _
  | sig => exact (mirrors_handleSdSig h _ _ _ _).2.follows
  | «continue» => exact (mirrors_handleSdContinue h _ _ _ _).2.follows
  | msg => exact (mirrors_handleSdMsg h _ _ _ _).2.follows
  | other c => exact (mirrors_addError h _ _).follows

theorem follows_processLine (h : Mirrors lineNum errors ctx own)
    (hstore : own.trustStore = none) (faults : VerifyFaults) (line : Bytes)
    (lineNum' : UInt64) :
    Follows lineNum errors (verifierProcessLine faults ctx line lineNum).1
      (verifierProcessLine faults own line lineNum').1 := by
  unfold verifierProcessLine
  rw [h.state]
  split_ifs with hstopped
  · exact h.follows
  · cases stripLine ossl line with
    | none =>
        dsimp only
        rw [addError_state, addError_state, h.state]
        split_ifs
        · exact (mirrors_setError (mirrors_addError h _ _)).2.follows
        · exact (mirrors_addError h _ _).follows
    | some s =>
        have hmalformed := mirrors_addErrorIf h (s.malformed = true) lineNum'
          (ascii "malformed embedded cert SD element")
        dsimp only
        rw [addErrorIf_state, addErrorIf_state, h.state]
        split_ifs
        · exact (mirrors_setError (mirrors_addError hmalformed _ _)).2.follows
        · exact follows_handleSd hmalformed hstore _ _ _

end Handlers

/-! ## Runs -/

/-- The messages that a line adds, the limit on their number left aside. -/
def lineMessages (ctx : VerifierCtx ossl) (call : VerifyCall) : List Bytes :=
  (processCall { ctx with errors := [] } call).1.errors.map
    VerifierError.message

def runMessages (ctx : VerifierCtx ossl) :
    List VerifyCall → List (List Bytes)
  | [] => []
  | call :: calls =>
      lineMessages ctx call :: runMessages (processCall ctx call).1 calls

structure SameLine (call call' : VerifyCall) : Prop where
  line : call.line = call'.line
  faults : call.faults = call'.faults

theorem SameLine.refl (call : VerifyCall) : SameLine call call := ⟨rfl, rfl⟩

theorem Agree.symm {ctx own : VerifierCtx ossl} (h : Agree ctx own) :
    Agree own ctx := by
  constructor
  · exact h.state.symm
  · intro hne
    exact (h.read (h.state ▸ hne)).symm

theorem Agree.trans {ctx own final : VerifierCtx ossl} (h : Agree ctx own)
    (h' : Agree own final) : Agree ctx final := by
  constructor
  · exact h.state.trans h'.state
  · intro hne
    exact (h.read (h'.state ▸ hne)).trans (h'.read hne)

theorem agree_of_read {ctx own : VerifierCtx ossl}
    (h : readPart ctx = readPart own) : Agree ctx own := by
  have hstate := congrArg VerifierCtx.state h
  exact ⟨hstate, fun _ => h⟩

section Runs

variable {ctx own : VerifierCtx ossl} {call call' : VerifyCall}

theorem follows_processCall {errors : List VerifierError}
    (h : Mirrors call.lineNum errors ctx own)
    (hstore : own.trustStore = none) (hsame : SameLine call call') :
    Follows call.lineNum errors (processCall ctx call).1
      (processCall own call').1 := by
  unfold processCall
  rw [hsame.line, hsame.faults]
  exact follows_processLine h hstore _ _ _

/-- The errors of a context are the messages, up to the limit. -/
theorem processCall_messages (hstore : ctx.trustStore = none)
    (call : VerifyCall) :
    (processCall ctx call).1.errors =
      recordAll call.lineNum ctx.errors (lineMessages ctx call) := by
  have hcleared : Mirrors call.lineNum ctx.errors ctx
      { ctx with errors := [] } := ⟨rfl, rfl⟩
  exact (follows_processCall hcleared hstore (.refl call)).errors

theorem feed_messages (hstore : ctx.trustStore = none)
    (calls : List VerifyCall) :
    (feed ctx calls).errors =
      (calls.zip (runMessages ctx calls)).foldl
        (fun errors line => recordAll line.1.lineNum errors line.2)
        ctx.errors := by
  induction calls generalizing ctx with
  | nil => rfl
  | cons call calls ih =>
      have hkeeps := processCall_keeps ctx call
      rw [feed_cons, ih (hkeeps.trustStore.trans hstore), runMessages,
        List.zip_cons_cons, List.foldl_cons, processCall_messages hstore]

theorem lineMessages_congr (hread : readPart ctx = readPart own)
    (hstore : own.trustStore = none) (hsame : SameLine call call') :
    lineMessages ctx call = lineMessages own call' := by
  have hcleared : Mirrors call.lineNum [] { ctx with errors := [] }
      { own with errors := [] } := ⟨hread, rfl⟩
  have hfollows := (follows_processCall hcleared hstore hsame).errors
  have hown := @processCall_messages _ { own with errors := [] } hstore call'
  unfold lineMessages
  rw [hfollows, hown, recordAll_recordAll]
  exact recordAll_message _ _ _ _

theorem lineMessages_abandoned (h : ctx.state = .error) (call : VerifyCall) :
    lineMessages ctx call = [] := by
  have hcleared : ({ ctx with errors := [] } : VerifierCtx ossl).state =
      .error := h
  unfold lineMessages
  rw [processCall_of_not_live (not_live_of_error hcleared)]
  rfl

theorem agree_processCall (h : Agree ctx own) (hstore : own.trustStore = none)
    (hsame : SameLine call call') :
    lineMessages ctx call = lineMessages own call' ∧
      Agree (processCall ctx call).1 (processCall own call').1 := by
  by_cases hown : own.state = .error
  · have hctx := h.state.trans hown
    constructor
    · rw [lineMessages_abandoned hctx, lineMessages_abandoned hown]
    · rw [processCall_of_not_live (not_live_of_error hctx),
        processCall_of_not_live (not_live_of_error hown)]
      exact h
  · have hread := h.read hown
    constructor
    · exact lineMessages_congr hread hstore hsame
    · have hcleared : Mirrors call.lineNum ctx.errors ctx
          { own with errors := [] } := ⟨hread, rfl⟩
      have hself : Mirrors call'.lineNum own.errors own
          { own with errors := [] } := ⟨rfl, rfl⟩
      have hfollows := follows_processCall hcleared hstore hsame
      have hrefl := follows_processCall hself hstore (.refl call')
      exact hfollows.toAgree.trans hrefl.toAgree.symm

theorem agree_feed {calls calls' : List VerifyCall} (h : Agree ctx own)
    (hstore : own.trustStore = none)
    (hsame : List.Forall₂ SameLine calls calls') :
    runMessages ctx calls = runMessages own calls' ∧
      Agree (feed ctx calls) (feed own calls') := by
  induction hsame generalizing ctx own with
  | nil => exact ⟨rfl, h⟩
  | @cons call call' calls calls' hline _ ih =>
      obtain ⟨hmessages, hagree⟩ := agree_processCall h hstore hline
      have hkeeps := processCall_keeps own call'
      obtain ⟨hrest, hfinal⟩ := ih hagree (hkeeps.trustStore.trans hstore)
      constructor
      · simp only [runMessages, hmessages, hrest]
      · exact hfinal

end Runs

/-! ## The boundary -/

def tailMessage (ctx : VerifierCtx ossl) : Bytes :=
  (number (unsignedTail ctx) ++
    ascii " messages unsigned before new segment").take
      (Limits.verifierMessageLen - 1)

/--
The messages of an INIT line are those that it has behind a closed segment,
and one more for the unsigned tail if there is one.
-/
def AtBoundary (ctx : VerifierCtx ossl) (common messages : List Bytes) :
    Prop :=
  messages = common ∨
    ctx.strict = true ∧ 0 < unsignedTail ctx ∧ ∃ front back,
      common = front ++ back ∧ messages = front ++ tailMessage ctx :: back

def closed (ctx : VerifierCtx ossl) : VerifierCtx ossl :=
  { ctx with hashLen := 0, chainHash := [], nextSeq := 1, lastSignedSeq := 0 }

theorem verifySdMsgHash_errors_length (faults : VerifyFaults)
    (ctx : VerifierCtx ossl) (sd : HcsSdRecord) (msg : Bytes)
    (lineNum : UInt64) :
    (verifySdMsgHash faults ctx sd msg lineNum).1.errors.length ≤
      ctx.errors.length + 2 := by
  have hchecked : ∀ (condition : Prop) [Decidable condition] message
      (ctx : VerifierCtx ossl),
      (addErrorIf condition ctx lineNum message).errors.length ≤
        ctx.errors.length + 1 := by
    intro condition _ message ctx
    unfold addErrorIf
    split_ifs
    · exact (pushError_length _ _ _).2.1
    · exact Nat.le_succ _
  unfold verifySdMsgHash
  extract_lets next
  have hseq : next.errors.length ≤ ctx.errors.length + 1 := hchecked _ _ _
  split_ifs
  · exact (pushError_length _ _ _).2.1.trans (Nat.succ_le_succ hseq)
  · split
    · exact hseq.trans (Nat.le_succ _)
    · exact (hchecked _ _ _).trans (Nat.succ_le_succ hseq)

theorem initChain_errors_length (faults : VerifyFaults)
    (ctx : VerifierCtx ossl) (sd : HcsSdRecord) (msg : Bytes)
    (lineNum : UInt64) :
    (initChain faults ctx sd msg lineNum).1.errors.length ≤
      ctx.errors.length + 2 := by
  have hpush : ∀ message, (addError ctx lineNum message).errors.length ≤
      ctx.errors.length + 2 := by
    intro message
    exact (pushError_length _ _ _).2.1.trans (Nat.le_succ _)
  unfold initChain
  split
  · exact hpush _
  · split_ifs
    · exact hpush _
    · dsimp only
      split
      · exact Nat.le_add_right _ _
      · exact verifySdMsgHash_errors_length _ _ _ _ _

theorem recordAll_short {errors : List VerifierError} {messages : List Bytes}
    (h : errors.length + messages.length ≤ Limits.verifierMaxErrors)
    (lineNum : UInt64) :
    (recordAll lineNum errors messages).map VerifierError.message =
      errors.map VerifierError.message ++
        messages.map (List.take (Limits.verifierMessageLen - 1)) := by
  induction messages generalizing errors with
  | nil => simp [recordAll]
  | cons message messages ih =>
      simp only [List.length_cons] at h
      have hpush : pushError errors lineNum message =
          errors ++ [⟨lineNum, message.take
            (Limits.verifierMessageLen - 1)⟩] := by
        unfold pushError
        rw [if_neg (by omega)]
      have hrest := @ih (pushError errors lineNum message) (by
        rw [hpush, List.length_append, List.length_singleton]
        omega)
      rw [hpush] at hrest
      change (recordAll lineNum (pushError errors lineNum message)
        messages).map VerifierError.message = _
      rw [hpush, hrest]
      simp

section Boundary

variable {ctx : VerifierCtx ossl}

theorem initTail_closed (hstate : ctx.state = .processing)
    (lineNum : UInt64) :
    (initTail (closed ctx) lineNum).errors = ctx.errors := by
  have hzero : ¬ ((0 : UInt64) < 1 - 1 - 0 ∧ ctx.strict) := by
    rintro ⟨hpos, -⟩
    exact absurd hpos (by decide)
  unfold initTail closed
  simp only [hstate, if_true, addErrorIf, if_neg hzero]

theorem initTail_errors (hstate : ctx.state = .processing)
    (lineNum : UInt64) :
    (initTail ctx lineNum).errors = ctx.errors ∨
      ctx.strict = true ∧ 0 < unsignedTail ctx ∧
        (initTail ctx lineNum).errors = pushError ctx.errors lineNum
          (number (unsignedTail ctx) ++
            ascii " messages unsigned before new segment") := by
  unfold initTail
  rw [if_pos hstate]
  by_cases htail : 0 < ctx.nextSeq - 1 - ctx.lastSignedSeq ∧ ctx.strict = true
  · refine .inr ⟨htail.2, htail.1, ?_⟩
    simp only [addErrorIf, if_pos htail]
    rfl
  · simp only [addErrorIf, if_neg htail]
    exact .inl trivial

theorem chainPart_initTail (hstate : ctx.state = .processing)
    (lineNum : UInt64) :
    chainPart (initTail ctx lineNum) =
      chainPart (initTail (closed ctx) lineNum) := by
  have hclosed : (closed ctx).state = .processing := hstate
  unfold initTail
  rw [if_pos hstate, if_pos hclosed]
  simp only [chainPart, readPart, addErrorIf, closed]

theorem handleSdInit_boundary (hstate : ctx.state = .processing)
    (hstore : ctx.trustStore = none) (hshort : ctx.errors.length ≤ 1)
    (faults : VerifyFaults) (sd : HcsSdRecord) (msg certDer : Bytes)
    (lineNum : UInt64) :
    AtBoundary ctx
        ((handleSdInit faults (closed ctx) sd msg certDer
          lineNum).1.errors.map VerifierError.message)
        ((handleSdInit faults ctx sd msg certDer lineNum).1.errors.map
          VerifierError.message) ∧
      Agree (handleSdInit faults ctx sd msg certDer lineNum).1
        (handleSdInit faults (closed ctx) sd msg certDer lineNum).1 := by
  rcases @handleSdInit_cases _ ctx (closed ctx) hstore hstore rfl rfl faults
      sd msg certDer lineNum lineNum with ⟨message, heq, heq'⟩ | ⟨heq, heq'⟩
  · rw [heq, heq']
    exact ⟨.inl rfl, agree_abandoned rfl rfl⟩
  · rw [heq, heq']
    -- Both chains start as one whose errors are cleared.
    let start : VerifierCtx ossl := { initTail (closed ctx) lineNum with
      errors := [] }
    have hbegins : Begins lineNum (initTail ctx lineNum).errors
        (initTail ctx lineNum) start :=
      ⟨chainPart_initTail hstate lineNum, rfl⟩
    have hbegins' : Begins lineNum (initTail (closed ctx) lineNum).errors
        (initTail (closed ctx) lineNum) start := ⟨rfl, rfl⟩
    have hopen := follows_initChain hbegins faults sd msg lineNum
    have hclosed := follows_initChain hbegins' faults sd msg lineNum
    have hlength := initChain_errors_length faults start sd msg lineNum
    rw [hopen.errors, hclosed.errors, initTail_closed hstate]
    generalize (initChain faults start sd msg lineNum).1 = final at *
    have hfew : (final.errors.map VerifierError.message).length ≤ 2 := by
      rw [List.length_map]
      exact hlength
    refine ⟨?_, hopen.toAgree.trans hclosed.toAgree.symm⟩
    · rcases initTail_errors hstate lineNum with htail | ⟨hstrict, hpos, htail⟩
      · rw [htail]
        exact .inl rfl
      · have hmax : Limits.verifierMaxErrors = 64 := rfl
        have hpush : (initTail ctx lineNum).errors =
            ctx.errors ++ [⟨lineNum, tailMessage ctx⟩] := by
          rw [htail, pushError, if_neg (by omega)]
          rfl
        refine .inr ⟨hstrict, hpos, ctx.errors.map VerifierError.message, _,
          recordAll_short (by omega) lineNum, ?_⟩
        rw [hpush, recordAll_short (by
          rw [List.length_append, List.length_singleton]
          omega), List.map_append, List.append_assoc]
        rfl

theorem processCall_init {call : VerifyCall} {s : StrippedLine}
    (hstate : ctx.state = .processing)
    (hstrip : stripLine ossl call.line = some s)
    (htype : s.sd.type = .init) :
    processCall ctx call =
      handleSdInit call.faults (addErrorIf (s.malformed = true) ctx
        call.lineNum (ascii "malformed embedded cert SD element"))
        s.sd s.msg s.certDer call.lineNum := by
  unfold processCall verifierProcessLine
  simp only [hstate, hstrip, handleSd, htype, addErrorIf_state, reduceCtorEq,
    or_self, if_false, false_and]

theorem processCall_boundary {call : VerifyCall} {s : StrippedLine}
    (hstate : ctx.state = .processing) (hstore : ctx.trustStore = none)
    (hstrip : stripLine ossl call.line = some s)
    (htype : s.sd.type = .init) :
    AtBoundary ctx (lineMessages (closed ctx) call)
        (lineMessages ctx call) ∧
      Agree (processCall ctx call).1 (processCall (closed ctx) call).1 := by
  have hcleared : ∀ c : VerifierCtx ossl, c.trustStore = none →
      Agree (processCall c call).1
        (processCall { c with errors := [] } call).1 := by
    intro c hc
    have hread : readPart c = readPart { c with errors := [] } := rfl
    exact (agree_processCall (agree_of_read hread) hc (.refl call)).2
  let marked : VerifierCtx ossl := addErrorIf (s.malformed = true)
    { ctx with errors := [] } call.lineNum
    (ascii "malformed embedded cert SD element")
  have hshort : marked.errors.length ≤ 1 := by
    simp only [marked, addErrorIf]
    split_ifs
    · exact (pushError_length _ _ _).2.1
    · exact Nat.zero_le _
  have hopen := @processCall_init _ { ctx with errors := [] } _ _ hstate
    hstrip htype
  have hclosed := @processCall_init _ { closed ctx with errors := [] } _ _
    hstate hstrip htype
  obtain ⟨hmessages, hagree⟩ := @handleSdInit_boundary _ marked hstate hstore
    hshort call.faults s.sd s.msg s.certDer call.lineNum
  constructor
  · unfold lineMessages
    rw [hopen, hclosed]
    exact hmessages
  · apply (hcleared ctx hstore).trans
    apply Agree.trans _ (hcleared (closed ctx) hstore).symm
    rw [hopen, hclosed]
    exact hagree

end Boundary

/-- The first lines agree up to the unsigned tail, all other lines fully. -/
structure SameFindings (ctx ctx' : VerifierCtx ossl) (first first' : VerifyCall)
    (calls calls' : List VerifyCall) : Prop where
  boundary : ∃ common,
    AtBoundary ctx common (lineMessages ctx first) ∧
      AtBoundary ctx' common (lineMessages ctx' first')
  rest : runMessages (processCall ctx first).1 calls =
    runMessages (processCall ctx' first').1 calls'

structure SameChain (ctx ctx' : VerifierCtx ossl) : Prop where
  state : ctx.state = ctx'.state
  chain : ctx.state = .processing → ctx.chainHash = ctx'.chainHash ∧
    ctx.nextSeq = ctx'.nextSeq ∧ ctx.lastSignedSeq = ctx'.lastSignedSeq

theorem Agree.sameChain {ctx ctx' : VerifierCtx ossl} (h : Agree ctx ctx') :
    SameChain ctx ctx' := by
  constructor
  · exact h.state
  · intro hstate
    have hread := h.read (by
      rw [← h.state, hstate]
      exact nofun)
    have hmirrors : Mirrors 0 ctx.errors ctx { ctx' with errors := [] } :=
      ⟨hread, rfl⟩
    exact ⟨hmirrors.chainHash, hmirrors.nextSeq, hmirrors.lastSignedSeq⟩

theorem readPart_closed {ctx ctx' own : VerifierCtx ossl}
    (h : Keeps own ctx) (h' : Keeps own ctx') (hown : own.trustStore = none)
    (hnew : own.state ≠ .processing) (hstate : ctx.state = .processing)
    (hstate' : ctx'.state = .processing) (halg : ctx.hashAlg = ctx'.hashAlg) :
    readPart (closed ctx) = readPart (closed ctx') := by
  have hlock := h.lock (fun hopen => absurd hopen hnew) hstate
  have hlock' := h'.lock (fun hopen => absurd hopen hnew) hstate'
  obtain ⟨hkey, hfp, hhave⟩ := h.key hown
  obtain ⟨hkey', hfp', hhave'⟩ := h'.key hown
  simp only [readPart, closed, hstate, hstate', hkey, hkey', hfp, hfp', hhave,
    hhave', h.trustStore, h'.trustStore, halg, hlock, hlock', h.strict,
    h'.strict]

/-- What two histories leave behind makes no difference to a new segment. -/
theorem segment_independent (ossl : OpenSSL) (fingerprintFails : Bool)
    (opts : VerifierOpts) (ctx : VerifierCtx ossl)
    (hinit : verifierInit ossl fingerprintFails opts = some ctx)
    (hkey : opts.caBundlePath = none) (before before' : List VerifyCall)
    (hbefore : (feed ctx before).state = .processing)
    (hbefore' : (feed ctx before').state = .processing)
    (halg : (feed ctx before).hashAlg = (feed ctx before').hashAlg)
    (first first' : VerifyCall) (calls calls' : List VerifyCall)
    (hsame : List.Forall₂ SameLine (first :: calls) (first' :: calls'))
    (s : StrippedLine) (hstrip : stripLine ossl first.line = some s)
    (htype : s.sd.type = .init) :
    SameFindings (feed ctx before) (feed ctx before') first first' calls
        calls' ∧
      SameChain (feed ctx (before ++ first :: calls))
        (feed ctx (before' ++ first' :: calls')) := by
  obtain ⟨hstore, hnew⟩ : ctx.trustStore = none ∧ ctx.state ≠ .processing := by
    rcases verifierInit_cases hinit with ⟨-, pkey, fp, rfl, -⟩ | ⟨hbundle, -⟩
    · exact ⟨rfl, nofun⟩
    · exact absurd hkey hbundle
  have hkeeps := feed_keeps ctx before
  have hkeeps' := feed_keeps ctx before'
  have hread := readPart_closed hkeeps hkeeps' hstore hnew hbefore hbefore' halg
  rw [feed_append, feed_append, feed_cons, feed_cons]
  generalize feed ctx before = past at *
  generalize feed ctx before' = past' at *
  cases hsame with
  | cons hfirst hrest =>
      have hpast := hkeeps.trustStore.trans hstore
      have hpast' := hkeeps'.trustStore.trans hstore
      have hstrip' : stripLine ossl first'.line = some s := hfirst.line ▸ hstrip
      obtain ⟨hmessages, hagree⟩ :=
        processCall_boundary hbefore hpast hstrip htype
      obtain ⟨hmessages', hagree'⟩ :=
        processCall_boundary hbefore' hpast' hstrip' htype
      obtain ⟨hcommon, hclosed⟩ := agree_processCall (agree_of_read hread)
        (show (closed past').trustStore = none from hpast') hfirst
      have hbehind := (hagree.trans hclosed).trans hagree'.symm
      have hkept := (processCall_keeps past' first').trustStore
      obtain ⟨hrun, hfinal⟩ :=
        agree_feed hbehind (hkept.trans hpast') hrest
      constructor
      · refine ⟨⟨_, hmessages, ?_⟩, hrun⟩
        rw [hcommon]
        exact hmessages'
      · exact hfinal.sameChain

def damagedInit (lineNum : UInt64) : VerifyCall where
  line := elementText (initParams "I" 1 (List.replicate 32 0)
    (sampleDigest .sha256 [7]))
  lineNum := lineNum

def damagedMsg (lineNum : UInt64) : VerifyCall where
  line := elementText (msgParams 2 (List.replicate 32 0))
  lineNum := lineNum

theorem segment_independent_sample :
    SameFindings (feed (sampleCtx true) [damagedInit 1])
        (feed (sampleCtx true) [damagedInit 1, damagedMsg 2])
        (damagedInit 2) (damagedInit 3) [damagedMsg 3] [damagedMsg 4] ∧
      SameChain (feed (sampleCtx true) [damagedInit 1, damagedInit 2,
          damagedMsg 3])
        (feed (sampleCtx true) [damagedInit 1, damagedMsg 2, damagedInit 3,
          damagedMsg 4]) := by
  obtain ⟨s, hstrip⟩ := Option.isSome_iff_exists.mp
    (show (stripLine sampleOpenSSL (damagedInit 2).line).isSome by
      decide +kernel)
  have htype : ∀ s ∈ stripLine sampleOpenSSL (damagedInit 2).line,
      s.sd.type = .init := by
    decide +kernel
  exact segment_independent sampleOpenSSL false
    { pubkeyPath := some [7], strict := true } (sampleCtx true) rfl rfl
    [damagedInit 1] [damagedInit 1, damagedMsg 2] (by decide +kernel)
    (by decide +kernel) (by decide +kernel) (damagedInit 2) (damagedInit 3)
    [damagedMsg 3] [damagedMsg 4] (.cons ⟨rfl, rfl⟩ (.cons ⟨rfl, rfl⟩ .nil)) s
    hstrip (htype s hstrip)

end MmHashChainSigs.Verify
