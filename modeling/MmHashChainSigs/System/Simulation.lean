import MmHashChainSigs.Module.Retry
import MmHashChainSigs.System.Life
import MmHashChainSigs.Verify.Acceptance

/-!
# Signer and verifier in lock step

The verifier reads what a life of workers emitted.  While a chain is open its
context mirrors the chain; between chains nothing is expected but an INIT; a
saved chain is mirrored until the next worker finishes it.
-/

namespace MmHashChainSigs.System

open MmHashChainSigs.Foundation
open MmHashChainSigs.Common
open MmHashChainSigs.Module
open MmHashChainSigs.Verify

variable {ossl : OpenSSL}

/-! ## Lines and their records -/

/-- The line of a call gives back what was emitted, and nothing fails on it. -/
def StripsBack (ossl : OpenSSL) (call : VerifyCall) (emission : Emission) :
    Prop :=
  call.faults = {} ∧ ∃ s, stripLine ossl call.line = some s ∧
    s.malformed = false ∧ emittedRecord ossl emission.sd = some s.sd ∧
    s.msg = emission.payload

theorem StripsBack.of_same {lines : List VerifyCall}
    {emitted emitted' : List Emission}
    (hsame : List.Forall₂ SameSigned emitted emitted')
    (h : List.Forall₂ (StripsBack ossl) lines emitted') :
    List.Forall₂ (StripsBack ossl) lines emitted := by
  induction hsame generalizing lines with
  | nil => exact h
  | cons hfirst _ ih =>
      cases h with
      | cons hline hrest =>
          obtain ⟨hfaults, s, hstrip, hclean, hrecord, hmsg⟩ := hline
          rw [hfirst.1] at hrecord
          rw [hfirst.2] at hmsg
          exact .cons ⟨hfaults, s, hstrip, hclean, hrecord, hmsg⟩ (ih hrest)

/-! ## What signer and verifier share -/

/-- A key pair in the files of both sides, and the signer's algorithm. -/
structure Setup (ossl : OpenSSL) where
  privkeyPath : Bytes
  pubkeyPath : Bytes
  alg : HcsHashAlg
  privkey : ossl.Pkey
  pubkey : ossl.Pkey
  fp : Bytes
  loadPrivate : hcsLoadPrivateKey ossl privkeyPath = some privkey
  loadPublic : hcsLoadPublicKey ossl pubkeyPath = some pubkey
  privateFp : hcsPubkeyFingerprint ossl false privkey = some fp
  publicFp : hcsPubkeyFingerprint ossl false pubkey = some fp
  verifies : ∀ nonce data sig, data.length ≤ Common.Limits.hcsHashMaxLen →
    hcsSign ossl false nonce privkey data = some sig →
    hcsVerify ossl false pubkey data sig = 0

def Setup.opts (setup : Setup ossl) (strict : Bool) : VerifierOpts where
  pubkeyPath := some setup.pubkeyPath
  strict := strict

theorem Setup.verifierInit_eq (setup : Setup ossl) (strict : Bool) :
    verifierInit ossl false (setup.opts strict) =
      some (keyedCtx strict setup.pubkey setup.fp) := by
  simp [verifierInit, Setup.opts, withPubkey, setup.loadPublic,
    setup.publicFp]

theorem Setup.fp_length (setup : Setup ossl) :
    setup.fp.length = Common.Limits.hcsHashLen :=
  hcsPubkeyFingerprint_length ossl setup.privateFp

structure SameInstance (setup : Setup ossl) (inst : Instance) : Prop where
  privkeyPath : inst.privkeyPath = setup.privkeyPath
  hashAlg : inst.hashAlg = setup.alg
  statefiledir : inst.statefiledir = true

structure SameKey (setup : Setup ossl) (inst : Instance) : Prop where
  privkeyPath : inst.privkeyPath = setup.privkeyPath
  hashAlg : inst.hashAlg = setup.alg

theorem SameInstance.sameKey {setup : Setup ossl} {inst : Instance}
    (h : SameInstance setup inst) : SameKey setup inst :=
  ⟨h.privkeyPath, h.hashAlg⟩

theorem SameKey.loaded {setup : Setup ossl} {inst : Instance}
    (h : SameKey setup inst) {signer : SignerCtx ossl}
    (hloaded : Loaded inst signer) :
    signer.privkey = setup.privkey ∧ signer.pubkeyFp = setup.fp := by
  have hload := hloaded.privkey
  rw [h.privkeyPath, setup.loadPrivate] at hload
  have hkey := Option.some.inj hload
  have hfp := hloaded.fingerprint
  rw [← hkey, setup.privateFp] at hfp
  exact ⟨hkey.symm, (Option.some.inj hfp).symm⟩

/-! ## One line of the verifier -/

section Line

variable {setup : Setup ossl} {strict : Bool} {ctx : VerifierCtx ossl}
  {call : VerifyCall} {emission : Emission} {chain : HashchainCtx}
  {sigSeqFrom : UInt64}

structure Keyed (setup : Setup ossl) (strict : Bool)
    (ctx : VerifierCtx ossl) : Prop where
  live : Live ctx
  pubkey : ctx.pubkey = some setup.pubkey
  havePubkey : ctx.havePubkey = true
  fp_eq : ctx.pubkeyFp = setup.fp
  store : ctx.trustStore = none
  strict_eq : ctx.strict = strict
  lock : ctx.haveHashAlg = true → ctx.hashAlg = setup.alg
  fresh : ctx.state = .expectInit → ctx.lastSignedSeq = 0

structure Mirrors (ctx : VerifierCtx ossl) (chain : HashchainCtx)
    (sigSeqFrom : UInt64) : Prop where
  state : ctx.state = .processing
  alg : ctx.hashAlg = chain.alg
  width : ctx.hashLen = hcsHashLen chain.alg
  hash : ctx.chainHash = chain.current
  next : ctx.nextSeq = chain.seq
  signed : ctx.lastSignedSeq + 1 = sigSeqFrom

theorem Mirrors.nextHash (h : Mirrors ctx chain sigSeqFrom)
    (payload : Bytes) :
    nextHash ctx payload = (absorb ossl chain payload).current := by
  have htake : chain.current.take (hcsHashLen chain.alg) = chain.current := by
    rw [← chain.current_length, List.take_length]
  simp only [Verify.nextHash, h.alg, h.hash, h.next, htake]
  rfl

theorem Mirrors.hashAccepts (h : Mirrors ctx chain sigSeqFrom)
    {payload : Bytes} {record : HcsSdRecord} (hseq : record.seq = chain.seq)
    (hhash : record.chainHash = (absorb ossl chain payload).current)
    (hwidth : record.chainHashLen = record.chainHash.length) :
    HashAccepts {} ctx record payload where
  fits := by
    refine ⟨hseq.trans h.next.symm, ?_⟩
    rw [hwidth, hhash, h.width]
    exact (absorb ossl chain payload).current_length
  runs := rfl
  hash := (h.nextHash payload).trans hhash.symm

theorem Mirrors.tail (h : Mirrors ctx chain sigSeqFrom)
    (hcount : chain.seq = sigSeqFrom + chain.msgCount) :
    unsignedTail ctx = chain.msgCount := by
  rw [unsignedTail, h.next, hcount, ← h.signed]
  grind

theorem Keyed.follows (h : Keyed setup strict ctx)
    (hcall : StripsBack ossl call emission) {record : HcsSdRecord}
    (hrecord : emittedRecord ossl emission.sd = some record)
    (ctx' : VerifierCtx ossl)
    (haccepts : ∀ s : StrippedLine, s.sd = record → s.msg = emission.payload →
      Accepts {} ctx s ctx')
    (hstate : ctx'.state = .processing) (halg : ctx'.hashAlg = setup.alg) :
    (processCall ctx call).1 = ctx' ∧ Keyed setup strict ctx' ∧
      ctx'.errors = ctx.errors := by
  obtain ⟨hfaults, s, hstrip, hmalformed, hsd, hmsg⟩ := hcall
  have haccept := haccepts s
    (Option.some.inj (hsd.symm.trans hrecord)) hmsg
  have htrust := (trusted_of_key (.inl h.store) {} s.certDer 0).1
  have hsame := accepts_sameTrust htrust haccept
  refine ⟨?_, ⟨.inr hstate, ?_, ?_, ?_, ?_, ?_, fun _ => halg, ?_⟩,
    hsame.errors⟩
  · rw [processCall, hfaults,
      processLine_of_accepts h.live hstrip hmalformed haccept]
  · rw [hsame.pubkey, h.pubkey]
  · rw [hsame.havePubkey, h.havePubkey]
  · rw [hsame.fp_eq, h.fp_eq]
  · rw [hsame.store, h.store]
  · rw [hsame.strict_eq, h.strict_eq]
  · intro hexpect
    rw [hstate] at hexpect
    cases hexpect

theorem Mirrors.advance (h : Mirrors ctx chain sigSeqFrom)
    {payload : Bytes} {record : HcsSdRecord}
    (hhash : record.chainHash = (absorb ossl chain payload).current) :
    Mirrors (advance ctx record) (absorb ossl chain payload) sigSeqFrom where
  state := h.state
  alg := h.alg
  width := h.width
  hash := hhash
  next := congrArg (· + 1) h.next
  signed := h.signed

theorem Keyed.segmentStart (h : Keyed setup strict ctx) :
    Mirrors (segmentStart ctx setup.alg) (rootChain ossl setup.alg) 1 where
  state := rfl
  alg := rfl
  width := rfl
  hash := rfl
  next := rfl
  signed := by
    have hlast : (resetSigned ctx).lastSignedSeq = 0 := by
      unfold resetSigned
      split_ifs with hstate
      · rfl
      · exact h.fresh (h.live.resolve_right hstate)
    change (resetSigned ctx).lastSignedSeq + 1 = 1
    rw [hlast]
    rfl

def Quiet (ctx : VerifierCtx ossl) : Prop :=
  ctx.state = .processing → ctx.strict = true → unsignedTail ctx = 0

theorem Keyed.init_of_quiet (h : Keyed setup strict ctx) (hquiet : Quiet ctx)
    (hcall : StripsBack ossl call emission)
    (hrecord : emittedRecord ossl emission.sd = some (initRecord .init
      ((absorb ossl (rootChain ossl setup.alg) emission.payload).seq - 1)
      (absorb ossl (rootChain ossl setup.alg) emission.payload).current
      setup.fp)) :
    Keyed setup strict (processCall ctx call).1 ∧
      Mirrors (processCall ctx call).1
        (absorb ossl (rootChain ossl setup.alg) emission.payload) 1 ∧
      (processCall ctx call).1.errors = ctx.errors := by
  obtain ⟨heq, hkeyed, herrors⟩ := h.follows hcall hrecord
    (Verify.advance (Verify.segmentStart ctx setup.alg)
      (initRecord .init _ _ setup.fp))
    (by
      intro s hsd hmsg
      rw [← hsd]
      refine .init (by rw [hsd]; rfl)
        ⟨by rw [hsd]; rfl, (trusted_of_key (.inl h.store) {} s.certDer 0).1,
          ⟨h.havePubkey, ?_, hquiet, ?_, h.lock⟩, rfl, ?_⟩
      · rw [hsd, h.fp_eq]
        rfl
      · rw [hsd]
        exact (absorb ossl _ _).current_length
      · rw [hmsg]
        exact h.segmentStart.hashAccepts
          (by rw [hsd]; exact absorb_seq_sub _ _) (by rw [hsd]; rfl)
          (by rw [hsd]; rfl))
    rfl rfl
  rw [heq]
  exact ⟨hkeyed, h.segmentStart.advance rfl, herrors⟩

def reported (ctx : VerifierCtx ossl) (lineNum : UInt64) : VerifierCtx ossl :=
  { addErrorIf (0 < unsignedTail ctx ∧ ctx.strict) ctx lineNum
      (number (unsignedTail ctx) ++
        ascii " messages unsigned before new segment") with
    lastSignedSeq := ctx.nextSeq - 1 }

theorem reported_quiet (ctx : VerifierCtx ossl) (lineNum : UInt64) :
    Quiet (reported ctx lineNum) := by
  intro _ _
  exact UInt64.sub_self _

theorem initTail_reported {ctx : VerifierCtx ossl}
    (hstate : ctx.state = .processing) (lineNum : UInt64) :
    initTail (reported ctx lineNum) lineNum = initTail ctx lineNum := by
  have hzero : ¬ (0 < unsignedTail (reported ctx lineNum) ∧
      (reported ctx lineNum).strict) := by
    rintro ⟨hpos, -⟩
    rw [show unsignedTail (reported ctx lineNum) = 0 from
      UInt64.sub_self _] at hpos
    exact absurd hpos (by decide)
  unfold unsignedTail at hzero
  unfold initTail
  rw [if_pos hstate, if_pos (show (reported ctx lineNum).state = _ from
    hstate)]
  simp only [addErrorIf_of_not hzero]
  rfl

theorem processCall_reported (h : Keyed setup strict ctx)
    (hstate : ctx.state = .processing)
    (hcall : StripsBack ossl call emission) {record : HcsSdRecord}
    (hrecord : emittedRecord ossl emission.sd = some record)
    (htype : record.type = .init) (hhas : record.hasPubkeyFp = true)
    (hfp : record.pubkeyFp = setup.fp) :
    processCall (reported ctx call.lineNum) call = processCall ctx call := by
  obtain ⟨-, s, hstrip, hmalformed, hsd, hmsg⟩ := hcall
  obtain rfl : s.sd = record := Option.some.inj (hsd.symm.trans hrecord)
  have hclean : ¬ s.malformed = true := by simp [hmalformed]
  have hreported : (reported ctx call.lineNum).state = .processing := hstate
  have hinit : ∀ c : VerifierCtx ossl, c.state = .processing →
      c.trustStore = none → c.havePubkey = true → c.pubkeyFp = setup.fp →
      processCall c call = initChain call.faults (initTail c call.lineNum)
        s.sd s.msg call.lineNum := by
    intro c hc hstore hhave hcfp
    have htrust := (trusted_of_key (.inl hstore) call.faults s.certDer
      call.lineNum).2
    simp [processCall, verifierProcessLine, hc, hstrip,
      addErrorIf_of_not hclean, handleSd, htype, handleSdInit, hhas, htrust,
      hhave, hfp, hcfp]
  rw [hinit _ hreported h.store h.havePubkey h.fp_eq,
    hinit ctx hstate h.store h.havePubkey h.fp_eq,
    initTail_reported hstate]

theorem Keyed.reported (h : Keyed setup strict ctx)
    (hstate : ctx.state = .processing) (lineNum : UInt64) :
    Keyed setup strict (reported ctx lineNum) :=
  ⟨h.live, h.pubkey, h.havePubkey, h.fp_eq, h.store, h.strict_eq, h.lock, by
    intro hexpect
    change ctx.state = .expectInit at hexpect
    rw [hstate] at hexpect
    cases hexpect⟩

theorem Keyed.init (h : Keyed setup strict ctx)
    (hcall : StripsBack ossl call emission)
    (hrecord : emittedRecord ossl emission.sd = some (initRecord .init
      ((absorb ossl (rootChain ossl setup.alg) emission.payload).seq - 1)
      (absorb ossl (rootChain ossl setup.alg) emission.payload).current
      setup.fp)) :
    Keyed setup strict (processCall ctx call).1 ∧
      Mirrors (processCall ctx call).1
        (absorb ossl (rootChain ossl setup.alg) emission.payload) 1 ∧
      ((processCall ctx call).1.errors = [] ↔
        ctx.errors = [] ∧ Quiet ctx) := by
  by_cases hquiet : Quiet ctx
  · obtain ⟨hkeyed, hmirrors, herrors⟩ :=
      h.init_of_quiet hquiet hcall hrecord
    refine ⟨hkeyed, hmirrors, ?_⟩
    rw [herrors]
    exact (and_iff_left hquiet).symm
  · have hopen := hquiet
    simp only [Quiet, Classical.not_imp] at hopen
    obtain ⟨hstate, hstrict, htail⟩ := hopen
    obtain ⟨hkeyed, hmirrors, herrors⟩ :=
      (h.reported hstate call.lineNum).init_of_quiet (reported_quiet _ _)
        hcall hrecord
    rw [processCall_reported h hstate hcall hrecord rfl rfl rfl]
      at hkeyed hmirrors herrors
    refine ⟨hkeyed, hmirrors, ?_⟩
    have hreported : (System.reported ctx call.lineNum).errors ≠ [] := by
      intro hnil
      apply ((addErrorIf_errors _ _ _).mp hnil).1
      exact ⟨UInt64.pos_iff_ne_zero.mpr htail, hstrict⟩
    rw [herrors]
    exact iff_of_false hreported fun hboth => hquiet hboth.2

theorem Keyed.msg (h : Keyed setup strict ctx)
    (hmirrors : Mirrors ctx chain sigSeqFrom) (halg : chain.alg = setup.alg)
    (hcall : StripsBack ossl call emission)
    (hrecord : emittedRecord ossl emission.sd = some (msgRecord
      ((absorb ossl chain emission.payload).seq - 1)
      (absorb ossl chain emission.payload).current)) :
    Keyed setup strict (processCall ctx call).1 ∧
      Mirrors (processCall ctx call).1 (absorb ossl chain emission.payload)
        sigSeqFrom ∧
      (processCall ctx call).1.errors = ctx.errors := by
  obtain ⟨heq, hkeyed, herrors⟩ := h.follows hcall hrecord
    (Verify.advance ctx (msgRecord _ _))
    (by
      intro s hsd hmsg
      rw [← hsd]
      refine .msg (by rw [hsd]; rfl) hmirrors.state ?_
      rw [hmsg]
      exact hmirrors.hashAccepts (by rw [hsd]; exact absorb_seq_sub _ _)
        (by rw [hsd]; rfl) (by rw [hsd]; rfl))
    hmirrors.state (hmirrors.alg.trans halg)
  rw [heq]
  exact ⟨hkeyed, hmirrors.advance rfl, herrors⟩

theorem Keyed.sig (h : Keyed setup strict ctx)
    (hmirrors : Mirrors ctx chain sigSeqFrom) (halg : chain.alg = setup.alg)
    (hcall : StripsBack ossl call emission) {nonce : Nat} {sig : Bytes}
    (hsig : hcsSign ossl false nonce setup.privkey
      (absorb ossl chain emission.payload).current = some sig)
    (hrecord : emittedRecord ossl emission.sd = some (sigRecord
      ((absorb ossl chain emission.payload).seq - 1)
      (absorb ossl chain emission.payload).current sigSeqFrom
      ((absorb ossl chain emission.payload).seq - 1) sig)) :
    Keyed setup strict (processCall ctx call).1 ∧
      Mirrors (processCall ctx call).1
        (hashchainResetCount (absorb ossl chain emission.payload))
        (absorb ossl chain emission.payload).seq ∧
      (processCall ctx call).1.errors = ctx.errors := by
  have hadvance : Mirrors (Verify.advance ctx (sigRecord
      ((absorb ossl chain emission.payload).seq - 1)
      (absorb ossl chain emission.payload).current sigSeqFrom
      ((absorb ossl chain emission.payload).seq - 1) sig))
      (absorb ossl chain emission.payload) sigSeqFrom := hmirrors.advance rfl
  have hvalid := setup.verifies nonce _ sig
    (((absorb ossl chain emission.payload).current_length).trans_le
      (hcsHashLen_le _)) hsig
  obtain ⟨heq, hkeyed, herrors⟩ := h.follows hcall hrecord
    (Verify.signed (Verify.advance ctx (sigRecord _ _ _ _ _))
      (sigRecord _ _ _ _ _))
    (by
      intro s hsd hmsg
      rw [← hsd]
      refine .sig (by rw [hsd]; rfl) hmirrors.state ?_ ?_
      · rw [hmsg]
        exact hmirrors.hashAccepts (by rw [hsd]; exact absorb_seq_sub _ _)
          (by rw [hsd]; rfl) (by rw [hsd]; rfl)
      · rw [hsd]
        refine ⟨rfl, hmirrors.signed.symm, ?_, ?_⟩
        · rw [hadvance.next]
          rfl
        · simp only [verifySig, Verify.advance, h.pubkey,
            sigRecord_signature_take]
          exact hvalid)
    hmirrors.state (hmirrors.alg.trans halg)
  rw [heq]
  exact ⟨hkeyed, ⟨hadvance.state, hadvance.alg, hadvance.width, hadvance.hash,
    hadvance.next, seq_of_position _⟩, herrors⟩

end Line

/-! ## Phases of a life -/

def Fresh (setup : Setup ossl) (wrkr : Worker ossl) : Prop :=
  ∀ signer, wrkr.signer = some signer → Loaded wrkr.inst signer ∧
    wrkr.isFirst = true ∧ wrkr.chain = rootChain ossl setup.alg ∧
    wrkr.sigSeqFrom = 1

structure Settled (strict lost : Bool) (ctx : VerifierCtx ossl) : Prop where
  clean : ¬ (strict = true ∧ lost = true) → ctx.errors = []
  signed : lost = false → unsignedTail ctx = 0
  lost : strict = true → lost = true →
    ctx.errors ≠ [] ∨ (ctx.state = .processing ∧ unsignedTail ctx ≠ 0)

structure InStep (setup : Setup ossl) (strict lost : Bool)
    (chain : HashchainCtx) (sigSeqFrom : UInt64) (ctx : VerifierCtx ossl) :
    Prop where
  keyed : Keyed setup strict ctx
  mirrors : Mirrors ctx chain sigSeqFrom
  alg : chain.alg = setup.alg
  errors : ctx.errors = [] ↔ ¬ (strict = true ∧ lost = true)

def Counts (chain : HashchainCtx) (sigSeqFrom : UInt64) : Prop :=
  chain.seq = sigSeqFrom + chain.msgCount

inductive Phase (setup : Setup ossl) (strict lost : Bool)
    (wrkr : Worker ossl) (stateFile : Option Bytes)
    (ctx : VerifierCtx ossl) : Prop where
  | idle (hfresh : Fresh setup wrkr) (hpending : wrkr.pendingState = none)
      (hfile : stateFile = none)
      (hkeyed : Keyed setup strict ctx) (hsettled : Settled strict lost ctx)
  | «open» {signer : SignerCtx ossl} (hsigner : wrkr.signer = some signer)
      (hloaded : Loaded wrkr.inst signer) (hfirst : wrkr.isFirst = false)
      (hpending : wrkr.pendingState = none) (hfile : stateFile = none)
      (hcounts : Counts wrkr.chain wrkr.sigSeqFrom)
      (hstep : InStep setup strict lost wrkr.chain wrkr.sigSeqFrom ctx)
  | saved {chain : HashchainCtx} {sigSeqFrom : UInt64}
      (hfresh : Fresh setup wrkr)
      (hpending : wrkr.pendingState =
        some (savedState chain sigSeqFrom setup.fp))
      (hfile : stateFile = some (stateText chain sigSeqFrom setup.fp))
      (hcounts : Counts chain sigSeqFrom) (hcount : chain.msgCount ≠ 0)
      (hstep : InStep setup strict lost chain sigSeqFrom ctx)

section Step

variable {setup : Setup ossl} {strict lost : Bool} {ctx : VerifierCtx ossl}
  {wrkr : Worker ossl} {stateFile : Option Bytes}

theorem Settled.init_errors (h : Settled strict lost ctx)
    (hstrict : ctx.strict = strict) :
    ctx.errors = [] ∧ Quiet ctx ↔ ¬ (strict = true ∧ lost = true) := by
  constructor
  · rintro ⟨herrors, hquiet⟩ ⟨hs, hl⟩
    cases h.lost hs hl with
    | inl hne => exact hne herrors
    | inr htail => exact htail.2 (hquiet htail.1 (hstrict.trans hs))
  · intro hnot
    refine ⟨h.clean hnot, fun _ hs => h.signed ?_⟩
    rw [Bool.eq_false_iff]
    exact fun hl => hnot ⟨hstrict.symm.trans hs, hl⟩

theorem InStep.settled {chain : HashchainCtx} {sigSeqFrom : UInt64}
    (h : InStep setup strict lost chain sigSeqFrom ctx)
    (hcounts : Counts chain sigSeqFrom) (hcount : chain.msgCount = 0) :
    Settled strict lost ctx where
  clean := h.errors.mpr
  signed := fun _ => (h.mirrors.tail hcounts).trans hcount
  lost := fun hs hl => .inl fun hnil => h.errors.mp hnil ⟨hs, hl⟩

theorem InStep.crashed {chain : HashchainCtx} {sigSeqFrom : UInt64}
    (h : InStep setup strict lost chain sigSeqFrom ctx)
    (hcounts : Counts chain sigSeqFrom) :
    Settled strict (lost || chain.msgCount ≠ 0) ctx := by
  have htail := h.mirrors.tail hcounts
  by_cases hcount : chain.msgCount = 0
  · have hlost : (lost || decide (chain.msgCount ≠ 0)) = lost := by
      simp [hcount]
    rw [hlost]
    exact h.settled hcounts hcount
  · have hlost : (lost || decide (chain.msgCount ≠ 0)) = true := by
      simp [hcount]
    rw [hlost]
    refine ⟨fun hnot => h.errors.mpr fun hboth => hnot ⟨hboth.1, rfl⟩,
      by simp, fun _ _ => .inr ⟨h.mirrors.state, ?_⟩⟩
    rw [htail]
    exact hcount

/-! ## Calls -/

/--
The buffer has room for every element, and past the chain hash nothing fails.
The primitives are asked for: a final signature that fails costs the saved
tail, and the call still succeeds.
-/
structure Succeeds (faults : SignFaults) (bufLen : Nat) : Prop where
  finalInit : faults.finalInit = false
  finalHash : faults.finalHash = false
  finalSign : faults.finalSign = false
  finalReset : faults.finalReset = false
  unlink : faults.unlink = false
  sign : faults.sign = false
  room : Common.Limits.hcsSdMaxLen ≤ bufLen

/-- The phase is kept, with the line if the call wrote one. -/
def Proceeds (setup : Setup ossl) (strict lost : Bool)
    (ctx : VerifierCtx ossl) (payload : Bytes) (call : SignCall ossl)
    (stateFile : Option Bytes) : Prop :=
  ((call.sd = none ∨ call.sd = some []) ∧
      Phase setup strict lost call.wrkr stateFile ctx) ∨
    ∃ sd, call.sd = some sd ∧ sd ≠ [] ∧ ∀ line : VerifyCall,
      StripsBack ossl line ⟨sd, payload, sd ++ payload⟩ →
      Phase setup strict lost call.wrkr stateFile (processCall ctx line).1

structure Continues (setup : Setup ossl) (strict lost : Bool)
    (ctx : VerifierCtx ossl) (payload : Bytes) (call : SignCall ossl)
    (stateFile : Option Bytes) : Prop where
  inst : SameInstance setup call.wrkr.inst
  phase : ((call.sd = none ∨ call.sd = some []) ∧
      Phase setup strict lost call.wrkr stateFile ctx) ∨
    ∃ sd, call.sd = some sd ∧ sd ≠ [] ∧ ∀ line : VerifyCall,
      StripsBack ossl line ⟨sd, payload, sd ++ payload⟩ →
      Phase setup strict lost call.wrkr stateFile (processCall ctx line).1

theorem counts_root : Counts (rootChain ossl setup.alg) 1 := rfl

theorem Counts.absorb {chain : HashchainCtx} {sigSeqFrom : UInt64}
    (h : Counts chain sigSeqFrom) (payload : Bytes) :
    Counts (absorb ossl chain payload) sigSeqFrom := by
  unfold Counts at h ⊢
  change chain.seq + 1 = sigSeqFrom + (chain.msgCount + 1)
  rw [h, UInt64.add_assoc]

theorem counts_reset (chain : HashchainCtx) :
    Counts (hashchainResetCount chain) chain.seq :=
  (UInt64.add_zero _).symm

theorem opened {signer : SignerCtx ossl} (hfresh : Fresh setup wrkr)
    (hpending : wrkr.pendingState = none) (hfile : stateFile = none) (hkeyed : Keyed setup strict ctx)
    (hsettled : Settled strict lost ctx)
    (hsame : SameKey setup wrkr.inst)
    (hsigner : wrkr.signer = some signer) {payload sd : Bytes}
    {record : HcsSdRecord} {wrkr' : Worker ossl}
    (helement : Element ossl signer.privkey signer.pubkeyFp
      (absorb ossl wrkr.chain payload) wrkr.sigSeqFrom sd record)
    (hentered : Entered wrkr signer (absorb ossl wrkr.chain payload) record
      wrkr') (line : VerifyCall)
    (hline : StripsBack ossl line ⟨sd, payload, sd ++ payload⟩) :
    Phase setup strict lost wrkr' stateFile (processCall ctx line).1 := by
  obtain ⟨hloaded, hfirst, hchain, hfrom⟩ := hfresh signer hsigner
  obtain ⟨-, hfp⟩ := hsame.loaded hloaded
  obtain ⟨signer', hsigner', hcache⟩ := hentered.signer
  have hrecord := Element.record signer.pubkeyFp_length helement
  rw [hchain, hfrom, hfp] at helement
  have hinit := hentered.opens.mpr hfirst
  have hchain' := hentered.chain
  have hfrom' := hentered.sigSeqFrom
  rw [if_neg (by simp [hinit]), hchain] at hchain'
  rw [if_neg (by simp [hinit]), hfrom] at hfrom'
  cases helement with
  | msg => cases hinit
  | sig => cases hinit
  | init hcert =>
      obtain ⟨hkeyed', hmirrors, herrors⟩ := hkeyed.init hline hrecord
      refine .open hsigner' ?_ hentered.isFirst
        (hentered.pendingState.trans hpending) hfile ?_ ?_
      · rw [hentered.inst]
        exact hloaded.congr hcache
      · rw [hchain', hfrom']
        exact counts_root.absorb payload
      · rw [hchain', hfrom']
        exact ⟨hkeyed', hmirrors, rfl,
          herrors.trans (hsettled.init_errors hkeyed.strict_eq)⟩

theorem extended {signer : SignerCtx ossl}
    (hsame : SameKey setup wrkr.inst)
    (hloaded : Loaded wrkr.inst signer) (hfirst : wrkr.isFirst = false)
    (hpending : wrkr.pendingState = none) (hfile : stateFile = none)
    (hcounts : Counts wrkr.chain wrkr.sigSeqFrom)
    (hstep : InStep setup strict lost wrkr.chain wrkr.sigSeqFrom ctx)
    {payload sd : Bytes} {record : HcsSdRecord} {wrkr' : Worker ossl}
    (helement : Element ossl signer.privkey signer.pubkeyFp
      (absorb ossl wrkr.chain payload) wrkr.sigSeqFrom sd record)
    (hentered : Entered wrkr signer (absorb ossl wrkr.chain payload) record
      wrkr') (line : VerifyCall)
    (hline : StripsBack ossl line ⟨sd, payload, sd ++ payload⟩) :
    Phase setup strict lost wrkr' stateFile (processCall ctx line).1 := by
  obtain ⟨hkey, -⟩ := hsame.loaded hloaded
  obtain ⟨signer', hsigner', hcache⟩ := hentered.signer
  have hrecord := Element.record signer.pubkeyFp_length helement
  have hloaded' : Loaded wrkr'.inst signer' := by
    rw [hentered.inst]
    exact hloaded.congr hcache
  have hpending' := hentered.pendingState.trans hpending
  have hchain' := hentered.chain
  have hfrom' := hentered.sigSeqFrom
  cases helement with
  | init hcert =>
      have hopens := hentered.opens.mp rfl
      rw [hfirst] at hopens
      cases hopens
  | msg =>
      rw [if_neg (by simp [msgRecord])] at hchain' hfrom'
      obtain ⟨hkeyed, hmirrors, herrors⟩ :=
        hstep.keyed.msg hstep.mirrors hstep.alg hline hrecord
      refine .open hsigner' hloaded' hentered.isFirst hpending' hfile ?_ ?_
      · rw [hchain', hfrom']
        exact hcounts.absorb payload
      · rw [hchain', hfrom']
        exact ⟨hkeyed, hmirrors, hstep.alg, by rw [herrors, hstep.errors]⟩
  | sig hsig =>
      rw [hkey] at hsig
      rw [if_pos (by simp [sigRecord])] at hchain' hfrom'
      obtain ⟨hkeyed, hmirrors, herrors⟩ :=
        hstep.keyed.sig hstep.mirrors hstep.alg hline hsig hrecord
      refine .open hsigner' hloaded' hentered.isFirst hpending' hfile ?_ ?_
      · rw [hchain', hfrom']
        exact counts_reset _
      · rw [hchain', hfrom']
        exact ⟨hkeyed, hmirrors, hstep.alg, by rw [herrors, hstep.errors]⟩

theorem Phase.entry {signer : SignerCtx ossl}
    (h : Phase setup strict lost wrkr stateFile ctx)
    (hsame : SameKey setup wrkr.inst) (hsigner : wrkr.signer = some signer)
    (hpending : wrkr.pendingState = none) {faults : SignFaults}
    {payload : Bytes} {bufLen : Nat} (hwrites : faults.hashChain = false →
      EntryWrites faults wrkr signer payload bufLen) :
    (processEntry faults wrkr signer payload bufLen).wrkr.inst = wrkr.inst ∧
      Proceeds setup strict lost ctx payload
        (processEntry faults wrkr signer payload bufLen) stateFile := by
  rcases processEntry_cases hsigner faults payload bufLen with
    ⟨-, hkept⟩ | ⟨hhash, -⟩
  · rw [hkept]
    exact ⟨rfl, .inl ⟨.inl rfl, h⟩⟩
  · obtain ⟨sd, hsd⟩ := Option.isSome_iff_exists.mp
      ((processEntry_writes_iff hhash wrkr signer payload bufLen).mpr
        (hwrites hhash))
    obtain ⟨record, helement, hentered⟩ := processEntry_some hsigner hsd
    refine ⟨hentered.inst, .inr ⟨sd, hsd, helement.ne_nil,
      fun line hline => ?_⟩⟩
    cases h with
    | idle hfresh hpending hfile hkeyed hsettled =>
        exact opened hfresh hpending hfile hkeyed hsettled hsame hsigner
          helement hentered line hline
    | @«open» signer' hsigner' hloaded hfirst hpending hfile hcounts hstep =>
        rw [hsigner] at hsigner'
        cases hsigner'
        exact extended hsame hloaded hfirst hpending hfile hcounts
          hstep helement hentered line hline
    | saved _ hsaved =>
        rw [hpending] at hsaved
        cases hsaved

theorem Phase.loaded {signer : SignerCtx ossl}
    (h : Phase setup strict lost wrkr stateFile ctx)
    (hsigner : wrkr.signer = some signer) : Loaded wrkr.inst signer := by
  cases h with
  | idle hfresh => exact (hfresh signer hsigner).1
  | saved hfresh => exact (hfresh signer hsigner).1
  | @«open» signer' hsigner' hloaded =>
      rw [hsigner] at hsigner'
      cases hsigner'
      exact hloaded

theorem finished {signer : SignerCtx ossl} {chain : HashchainCtx}
    {sigSeqFrom : UInt64} (hsame : SameInstance setup wrkr.inst)
    (hsigner : wrkr.signer = some signer)
    (hloaded : Loaded wrkr.inst signer)
    (hstep : InStep setup strict lost chain sigSeqFrom ctx)
    {faults : SignFaults} {bufLen : Nat} (hs : Succeeds faults bufLen)
    (payload : Bytes) :
    ∃ sd, (finalCall faults wrkr signer
        (savedState chain sigSeqFrom setup.fp) payload bufLen).ret = .ok sd ∧
      SameInstance setup (finalCall faults wrkr signer
        (savedState chain sigSeqFrom setup.fp) payload bufLen).wrkr.inst ∧
      sd ≠ [] ∧ ∀ line : VerifyCall,
        StripsBack ossl line ⟨sd, payload, sd ++ payload⟩ →
        Phase setup strict lost (finalCall faults wrkr signer
          (savedState chain sigSeqFrom setup.fp) payload bufLen).wrkr none
          (processCall ctx line).1 := by
  obtain ⟨hkey, hfp⟩ := hsame.sameKey.loaded hloaded
  have hrestore : Restorable { wrkr with pendingState := none } signer
      (savedState chain sigSeqFrom setup.fp) :=
    ⟨hfp, hstep.alg.trans hsame.hashAlg.symm⟩
  obtain ⟨sd, hsd⟩ := processFinal_succeeds
    (hloaded.signable hs.finalSign hs.room) hs.finalInit hs.finalHash hrestore
    payload
  obtain ⟨-, ⟨nonce, sig, hsig, htext⟩, hwrkr⟩ := processFinal_ok hsd
  rw [restoredChain_savedState] at hsig htext
  subst htext
  have helement := @Element.sig ossl signer.privkey signer.pubkeyFp _
    sigSeqFrom _ _ hsig
  have hrecord := Element.record signer.pubkeyFp_length helement
  have hmirrors : Mirrors ctx (hashchainResetCount chain) sigSeqFrom :=
    ⟨hstep.mirrors.state, hstep.mirrors.alg, hstep.mirrors.width,
      hstep.mirrors.hash, hstep.mirrors.next, hstep.mirrors.signed⟩
  rw [hkey] at hsig
  refine ⟨_, hsd, ?_, helement.ne_nil, fun line hline => ?_⟩
  · unfold finalCall
    rw [hwrkr]
    exact hsame
  · obtain ⟨hkeyed, hnext, herrors⟩ :=
      hstep.keyed.sig hmirrors hstep.alg hline hsig hrecord
    have hafter : InStep setup strict lost
        (hashchainResetCount (absorb ossl (hashchainResetCount chain)
          payload)) _ (processCall ctx line).1 :=
      ⟨hkeyed, hnext, hstep.alg, by rw [herrors, hstep.errors]⟩
    unfold finalCall
    rw [hwrkr]
    refine .idle ?_ rfl rfl hkeyed (hafter.settled (counts_reset _) rfl)
    intro signer' hsigner'
    change wrkr.signer = some signer' at hsigner'
    rw [hsigner] at hsigner'
    cases hsigner'
    refine ⟨hloaded, rfl, ?_, rfl⟩
    rw [hashchainInit_eq, hs.finalReset, hsame.hashAlg]
    rfl

theorem Phase.ready (h : Phase setup strict lost wrkr stateFile ctx)
    (hsame : SameKey setup wrkr.inst) (faults : SignFaults) :
    (readyWorker faults wrkr).1.inst = wrkr.inst ∧
      Phase setup strict lost (readyWorker faults wrkr).1 stateFile ctx := by
  unfold readyWorker
  split_ifs with hsome
  · exact ⟨rfl, h⟩
  · rw [Option.not_isSome_iff_eq_none] at hsome
    have hready : (mmhashchainsigsInit faults wrkr).1.inst = wrkr.inst ∧
        (mmhashchainsigsInit faults wrkr).1.pendingState =
          wrkr.pendingState ∧
        Fresh setup (mmhashchainsigsInit faults wrkr).1 := by
      rcases mmhashchainsigsInit_cases hsome faults with
        ⟨hnone, hinst, hpending, -⟩ | ⟨signer, hloaded, hinit⟩
      · refine ⟨hinst, hpending, fun signer hsigner => ?_⟩
        rw [hnone] at hsigner
        cases hsigner
      · rw [hinit]
        refine ⟨rfl, rfl, fun signer' hsigner => ?_⟩
        cases hsigner
        refine ⟨hloaded, rfl, ?_, rfl⟩
        rw [← hsame.hashAlg]
        rfl
    obtain ⟨hinst, hpending, hfresh⟩ := hready
    refine ⟨hinst, ?_⟩
    cases h with
    | idle _ hpending' hfile hkeyed hsettled =>
        exact .idle hfresh (hpending.trans hpending') hfile hkeyed hsettled
    | «open» hsigner =>
        rw [hsome] at hsigner
        cases hsigner
    | saved _ hpending' hfile hcounts hcount hstep =>
        exact .saved hfresh (hpending.trans hpending') hfile hcounts hcount
          hstep

theorem Phase.processMsg (h : Phase setup strict lost wrkr stateFile ctx)
    (hsame : SameInstance setup wrkr.inst) {faults : SignFaults}
    {bufLen : Nat} (hs : Succeeds faults bufLen) (payload : Bytes) :
    Continues setup strict lost ctx payload
      (mmhashchainsigsProcessMsg faults wrkr stateFile payload bufLen).1
      (mmhashchainsigsProcessMsg faults wrkr stateFile payload bufLen).2 := by
  obtain ⟨hkept, hready⟩ := h.ready hsame.sameKey faults
  have hinst : SameInstance setup (readyWorker faults wrkr).1.inst := by
    rw [hkept]
    exact hsame
  cases hsigner : (readyWorker faults wrkr).1.signer with
  | none =>
      rw [processMsg_of_no_signer hsigner]
      exact ⟨hinst, .inl ⟨.inl rfl, hready⟩⟩
  | some signer =>
      cases hpending : (readyWorker faults wrkr).1.pendingState with
      | none =>
          rw [processMsg_of_open hsigner hpending]
          have hsignable := (hready.loaded hsigner).signable hs.sign hs.room
          obtain ⟨hinst', hphase⟩ := hready.entry hinst.sameKey hsigner
            hpending fun hhash => by
              apply (processEntry_writes_iff hhash _ signer payload bufLen).mp
              apply Option.isSome_iff_exists.mpr
              exact processEntry_succeeds hsignable hhash payload
          refine ⟨?_, hphase⟩
          rw [hinst']
          exact hinst
      | some state =>
          cases hready with
          | idle _ hnone =>
              rw [hpending] at hnone
              cases hnone
          | «open» _ _ _ hnone =>
              rw [hpending] at hnone
              cases hnone
          | @saved chain sigSeqFrom hfresh hsaved hfile hcounts hcount hstep =>
              rw [hpending] at hsaved
              cases hsaved
              obtain ⟨hloaded, -⟩ := hfresh signer hsigner
              obtain ⟨sd, hok, hinst', hne, hphase⟩ :=
                finished hinst hsigner hloaded hstep hs payload
              rw [processMsg_of_final_ok hsigner hpending hok]
              refine ⟨hinst', .inr ⟨sd, rfl, hne, ?_⟩⟩
              have hdeleted : deleteState faults (finalCall faults
                  (readyWorker faults wrkr).1 signer
                  (savedState chain sigSeqFrom setup.fp) payload bufLen).wrkr
                  stateFile = none := by
                unfold deleteState
                rw [if_pos ⟨hinst'.statefiledir, by simp [hs.unlink]⟩]
              simp only [hdeleted]
              exact hphase

theorem Phase.finalEntry {signer : SignerCtx ossl}
    (h : Phase setup strict lost wrkr stateFile ctx)
    (hsame : SameKey setup wrkr.inst) (hsigner : wrkr.signer = some signer)
    (hcount : wrkr.chain.msgCount ≠ 0) {faults : SignFaults} {bufLen : Nat}
    (hwrites : faults.hashChain = false →
      SigWrites ossl faults.sign faults.nonce signer.privkey wrkr.chain
        wrkr.sigSeqFrom [] bufLen) :
    (mmhashchainsigsFinalSign faults wrkr bufLen).wrkr.inst = wrkr.inst ∧
      Proceeds setup strict lost ctx []
        (mmhashchainsigsFinalSign faults wrkr bufLen) stateFile := by
  rcases finalSign_cases hsigner hcount faults bufLen with
    ⟨-, hkept⟩ | ⟨hhash, -⟩
  · rw [hkept]
    exact ⟨rfl, .inl ⟨.inl rfl, h⟩⟩
  · have hroot : Fresh setup wrkr → False := by
      intro hfresh
      obtain ⟨-, -, hchain, -⟩ := hfresh signer hsigner
      apply hcount
      rw [hchain]
      rfl
    cases h with
    | idle hfresh => exact (hroot hfresh).elim
    | saved hfresh => exact (hroot hfresh).elim
    | @«open» signer' hsigner' hloaded hfirst hpending hfile hcounts hstep =>
        rw [hsigner] at hsigner'
        cases hsigner'
        obtain ⟨hkey, -⟩ := hsame.loaded hloaded
        obtain ⟨sd, hsd⟩ := Option.isSome_iff_exists.mp
          ((finalSign_writes_iff hsigner hcount hhash bufLen).mpr
            (hwrites hhash))
        obtain ⟨record, htype, helement, hwrkr⟩ :=
          finalSign_some hsigner hcount hsd
        have hrecord := Element.record signer.pubkeyFp_length helement
        refine ⟨by rw [hwrkr], .inr ⟨sd, hsd, helement.ne_nil,
          fun line hline => ?_⟩⟩
        cases helement with
        | init => cases htype
        | msg => cases htype
        | sig hsig =>
            rw [hkey] at hsig
            obtain ⟨hkeyed, hmirrors, herrors⟩ :=
              hstep.keyed.sig hstep.mirrors hstep.alg hline hsig hrecord
            rw [hwrkr]
            exact .open hsigner hloaded hfirst hpending hfile
              (counts_reset _) ⟨hkeyed, hmirrors, hstep.alg, by
                rw [herrors, hstep.errors]⟩

theorem Phase.finalSign (h : Phase setup strict lost wrkr stateFile ctx)
    (hsame : SameInstance setup wrkr.inst) {faults : SignFaults}
    {bufLen : Nat} (hs : Succeeds faults bufLen) :
    Continues setup strict lost ctx []
      (mmhashchainsigsFinalSign faults wrkr bufLen) stateFile := by
  by_cases hsilent : wrkr.signer = none ∨ wrkr.chain.msgCount = 0
  · rw [finalSign_of_silent hsilent]
    exact ⟨hsame, .inl ⟨.inr rfl, h⟩⟩
  · rw [not_or] at hsilent
    obtain ⟨signer, hsigner⟩ := Option.ne_none_iff_exists'.mp hsilent.1
    have hsignable := (h.loaded hsigner).signable hs.sign hs.room
    obtain ⟨hinst, hphase⟩ := h.finalEntry hsame.sameKey hsigner hsilent.2
      fun hhash => by
        apply (finalSign_writes_iff hsigner hsilent.2 hhash bufLen).mp
        apply Option.isSome_iff_exists.mpr
        exact finalSign_succeeds hsigner hsignable hhash
    refine ⟨?_, hphase⟩
    rw [hinst]
    exact hsame

end Step

end MmHashChainSigs.System
