import MmHashChainSigs.System.EndToEnd
import MmHashChainSigs.Verify.Bundle

/-!
# Logs with certificates

An instance with `embedcert` puts the certificate of its key behind an INIT
element.  What the verifier takes out of such a line is this certificate, and
with a bundle it judges the log as with the key itself.
-/

namespace MmHashChainSigs.System

open MmHashChainSigs.Foundation
open MmHashChainSigs.Common
open MmHashChainSigs.Module
open MmHashChainSigs.Verify

variable {ossl : OpenSSL}

/-! ## The certificate of the signer -/

structure CertFor (inst : Instance) (cert : ossl.X509) (key : ossl.Pkey) :
    Prop where
  certPath : inst.certPath.bind (hcsLoadX509Cert ossl) = some cert
  privkey : hcsLoadPrivateKey ossl inst.privkeyPath = some key
  keypair : ossl.checkPrivateKey cert key = true

structure OwnCert (inst : Instance) (signer : SignerCtx ossl) : Prop where
  certFor : ∀ cert, signer.cert = some cert → CertFor inst cert signer.privkey
  cached : ∀ der, signer.certDer = some der →
    ∃ cert, signer.cert = some cert ∧ der = ossl.i2dX509 cert

def CertText (ossl : OpenSSL) (inst : Instance) (text : Bytes) : Prop :=
  inst.embedcert = true ∧ ∃ (cert : ossl.X509) (key : ossl.Pkey),
    CertFor inst cert key ∧
      text = sdCertText (Base64.encode (ossl.i2dX509 cert))

theorem signerInit_ownCert {fails : Bool} {inst : Instance}
    {signer : SignerCtx ossl}
    (h : signerInit ossl fails inst.privkeyPath = some signer) :
    OwnCert inst signer := by
  unfold signerInit at h
  split_ifs at h
  simp only [Option.bind_eq_bind, Option.bind_eq_some_iff] at h
  obtain ⟨privkey, -, fp, -, h⟩ := h
  cases h
  constructor
  · intro cert hcert
    cases hcert
  · intro der hder
    cases hder

theorem signerInitX509_ownCert {fails : Bool} {inst : Instance}
    {certPath : Bytes} {signer : SignerCtx ossl}
    (hpath : inst.certPath = some certPath)
    (h : signerInitX509 ossl fails inst.privkeyPath certPath = some signer) :
    OwnCert inst signer := by
  unfold signerInitX509 at h
  split_ifs at h
  simp only [Option.bind_eq_bind, Option.bind_eq_some_iff] at h
  obtain ⟨privkey, hload, cert, hcert, pub, -, h⟩ := h
  split_ifs at h with hpair
  simp only [Option.bind_eq_some_iff] at h
  obtain ⟨fp, -, h⟩ := h
  cases h
  constructor
  · intro own hown
    cases hown
    refine ⟨?_, hload, by simpa using hpair⟩
    rw [hpath]
    exact hcert
  · intro der hder
    cases hder

theorem loadSigner_ownCert {fails : Bool} {inst : Instance}
    {signer : SignerCtx ossl} (h : loadSigner ossl fails inst = some signer) :
    OwnCert inst signer := by
  unfold loadSigner at h
  cases hpath : inst.certPath with
  | none =>
      rw [hpath] at h
      exact signerInit_ownCert h
  | some certPath =>
      rw [hpath] at h
      exact signerInitX509_ownCert hpath h

theorem OwnCert.certDer {inst : Instance} {signer signer' : SignerCtx ossl}
    (h : OwnCert inst signer) {fails : Bool} {der : Bytes}
    (hder : signerGetCertDer fails signer = some (der, signer')) :
    OwnCert inst signer' ∧
      ∃ cert, CertFor inst cert signer.privkey ∧ der = ossl.i2dX509 cert := by
  simp only [signerGetCertDer, Option.bind_eq_some_iff] at hder
  obtain ⟨cert, hcert, hder⟩ := hder
  have hfor := h.certFor cert hcert
  split at hder
  next cached hcached =>
    cases hder
    obtain ⟨cert', hcert', rfl⟩ := h.cached _ hcached
    exact ⟨h, cert', h.certFor cert' hcert', rfl⟩
  · split_ifs at hder
    cases hder
    refine ⟨⟨h.certFor, ?_⟩, cert, hfor, rfl⟩
    intro der hsome
    cases hsome
    exact ⟨cert, hcert, rfl⟩

/-! ## Calls -/

def OwnSuffix (ossl : OpenSSL) (inst : Instance) (text : Bytes) : Prop :=
  text = [] ∨ CertText ossl inst text

theorem OwnCert.append {wrkr : Worker ossl} {signer : SignerCtx ossl}
    (hsigner : wrkr.signer = some signer) (h : OwnCert wrkr.inst signer)
    (faults : SignFaults) (sd : Bytes) (bufLen : Nat) :
    ∃ cert signer', OwnSuffix ossl wrkr.inst cert ∧
      OwnCert wrkr.inst signer' ∧
      appendCert faults wrkr signer sd bufLen =
        ({ wrkr with signer := some signer' }, sd ++ cert) := by
  have hsame : wrkr = { wrkr with signer := some signer } := by
    rw [← hsigner]
  unfold appendCert
  by_cases hembed : wrkr.inst.embedcert = true
  · rw [if_neg (not_not.mpr hembed)]
    cases hder : signerGetCertDer faults.certDer signer with
    | none =>
        refine ⟨[], signer, .inl rfl, h, ?_⟩
        rw [← hsame, List.append_nil]
    | some out =>
        obtain ⟨hown, cert, hfor, hout⟩ := h.certDer hder
        refine ⟨_, out.2, ?_, hown, rfl⟩
        cases htext : hcsFormatSdCert faults.certAlloc out.1
            (certRoom bufLen sd.length) with
        | none => exact .inl rfl
        | some text =>
            right
            refine ⟨hembed, cert, _, hfor, ?_⟩
            rw [Option.getD_some, hcsFormatSdCert_some htext, hout]
  · rw [if_pos hembed]
    refine ⟨[], signer, .inl rfl, h, ?_⟩
    rw [← hsame, List.append_nil]

structure CallOwns (inst : Instance) (call : SignCall ossl) : Prop where
  keeps : call.wrkr.inst = inst
  signer : ∀ signer, call.wrkr.signer = some signer → OwnCert inst signer
  suffix : ∀ sd, call.sd = some sd → OwnSuffix ossl inst (certPart sd)

theorem certPart_of_element {privkey : ossl.Pkey} {fp : Bytes}
    {next : HashchainCtx} {sigSeqFrom : UInt64} {sd : Bytes}
    {record : HcsSdRecord}
    (h : Element ossl privkey fp next sigSeqFrom sd record)
    (htype : record.type ≠ .init) : certPart sd = [] := by
  have hnil : ∀ {params : List (Bytes × Bytes)} {record : HcsSdRecord},
      ParsesTo ossl params record → certPart (elementText params) = [] := by
    intro params record hparams
    have hcert := certPart_elementText hparams []
    rw [List.append_nil] at hcert
    exact hcert
  cases h with
  | init => exact absurd rfl htype
  | msg =>
      exact hnil ⟨msgParams_plain _ _,
        sdParseBody_msg ossl _ next.current_length⟩
  | sig hsig =>
      exact hnil ⟨sigParams_plain _ _ _ _ _,
        sdParseBody_sig ossl _ next.current_length _ _
          (hcsSign_length ossl hsig)⟩

theorem certPart_init (ossl : OpenSSL) (seq : UInt64) (chain : HashchainCtx)
    {fp : Bytes} (hfp : fp.length = Common.Limits.hcsHashLen) (cert : Bytes) :
    certPart (elementText (initParams "I" seq chain.current fp) ++ cert) =
      cert := by
  have hletter : ascii "I" = [73] := rfl
  have hparams : ParsesTo ossl (initParams "I" seq chain.current fp) _ :=
    ⟨initParams_plain "I" (by decide +kernel) _ _ _,
      sdParseBody_init ossl hletter (by decide +kernel) _
        chain.current_length hfp⟩
  exact certPart_elementText hparams cert

theorem callOwns_of_kept {wrkr : Worker ossl}
    (h : ∀ signer, wrkr.signer = some signer → OwnCert wrkr.inst signer)
    {call : SignCall ossl} (hinst : call.wrkr.inst = wrkr.inst)
    (hsigner : call.wrkr.signer = wrkr.signer)
    (hsd : ∀ sd, call.sd = some sd → certPart sd = []) :
    CallOwns wrkr.inst call where
  keeps := hinst
  signer := by
    rw [hsigner]
    exact h
  suffix sd hsome := .inl (hsd sd hsome)

section Calls

variable {wrkr : Worker ossl}

def Owns (wrkr : Worker ossl) : Prop :=
  ∀ signer, wrkr.signer = some signer → OwnCert wrkr.inst signer

theorem Owns.entry (h : Owns wrkr) {signer : SignerCtx ossl}
    (hsigner : wrkr.signer = some signer) (faults : SignFaults)
    (payload : Bytes) (bufLen : Nat) :
    CallOwns wrkr.inst (processEntry faults wrkr signer payload bufLen) := by
  by_cases hfirst : wrkr.isFirst = true
  · unfold processEntry
    rw [hashchainUpdate_eq]
    cases faults.hashChain with
    | true => exact ⟨rfl, h, fun sd hsd => by cases hsd⟩
    | false =>
        simp only [Bool.false_eq_true, if_false, hfirst, if_true]
        cases htext : hcsFormatSdInit _ _ _ bufLen with
        | none => exact ⟨rfl, h, fun sd hsd => by cases hsd⟩
        | some text =>
            obtain ⟨cert, signer', hcert, hown, happend⟩ :=
              @OwnCert.append _ { wrkr with
                chain := absorb ossl wrkr.chain payload, isFirst := false }
                signer hsigner (h signer hsigner) faults text bufLen
            simp only [happend]
            refine ⟨rfl, fun own hsome => ?_, fun sd hsd => ?_⟩
            · cases hsome
              exact hown
            · cases hsd
              rw [hcsFormatSdInit_some htext,
                certPart_init ossl _ _ signer.pubkeyFp_length]
              exact hcert
  · have hkept : (processEntry faults wrkr signer payload bufLen).wrkr.inst =
          wrkr.inst ∧
        (processEntry faults wrkr signer payload bufLen).wrkr.signer =
          wrkr.signer := by
      unfold processEntry
      rw [hashchainUpdate_eq]
      cases faults.hashChain with
      | true => exact ⟨rfl, rfl⟩
      | false =>
          simp only [Bool.false_eq_true, if_false, hfirst]
          split_ifs
          · cases hcsSign ossl faults.sign faults.nonce signer.privkey _ with
            | none => exact ⟨rfl, rfl⟩
            | some sig => exact ⟨rfl, rfl⟩
          · exact ⟨rfl, rfl⟩
    apply callOwns_of_kept h hkept.1 hkept.2
    intro sd hsd
    obtain ⟨record, helement, hentered⟩ := processEntry_some hsigner hsd
    exact certPart_of_element helement (mt hentered.opens.mp hfirst)

theorem Owns.ready (h : Owns wrkr) (faults : SignFaults) :
    Owns (readyWorker faults wrkr).1 ∧
      (readyWorker faults wrkr).1.inst = wrkr.inst := by
  unfold readyWorker
  split_ifs
  · exact ⟨h, rfl⟩
  · unfold mmhashchainsigsInit
    cases hload : loadSigner ossl faults.signerInit wrkr.inst with
    | none => exact ⟨h, rfl⟩
    | some loaded =>
        simp only [hashchainInit_eq]
        cases faults.chainInit with
        | true => exact ⟨h, rfl⟩
        | false =>
            refine ⟨fun signer hsigner => ?_, rfl⟩
            cases hsigner
            exact loadSigner_ownCert hload

theorem Owns.processMsg (h : Owns wrkr) (faults : SignFaults)
    (stateFile : Option Bytes) (payload : Bytes) (bufLen : Nat) :
    CallOwns wrkr.inst (mmhashchainsigsProcessMsg faults wrkr stateFile
      payload bufLen).1 := by
  obtain ⟨hready, hinst⟩ := h.ready faults
  rw [← hinst]
  cases hsigner : (readyWorker faults wrkr).1.signer with
  | none =>
      rw [processMsg_of_no_signer hsigner]
      exact ⟨rfl, hready, fun sd hsd => by cases hsd⟩
  | some signer =>
      cases hpending : (readyWorker faults wrkr).1.pendingState with
      | none =>
          rw [processMsg_of_open hsigner hpending]
          have hentry := hready.entry hsigner faults payload bufLen
          exact ⟨hentry.keeps, hentry.signer, hentry.suffix⟩
      | some state =>
          obtain ⟨hkeeps, hkept, -⟩ := processFinal_frame faults
            { (readyWorker faults wrkr).1 with pendingState := none } signer
            state payload bufLen
          have hfinal : Owns (finalCall faults (readyWorker faults wrkr).1
              signer state payload bufLen).wrkr := by
            intro own hown
            rw [finalCall, hkept] at hown
            rw [finalCall, hkeeps]
            exact hready own hown
          cases hret : (finalCall faults (readyWorker faults wrkr).1 signer
              state payload bufLen).ret with
          | ok text =>
              rw [processMsg_of_final_ok hsigner hpending hret]
              obtain ⟨-, ⟨nonce, sig, hsig, rfl⟩, -⟩ := processFinal_ok hret
              apply callOwns_of_kept hready hkeeps hkept
              intro sd hsd
              cases hsd
              have helement : Element ossl signer.privkey signer.pubkeyFp _
                state.sigSeqFrom _ _ := .sig hsig
              exact certPart_of_element helement fun htype => by cases htype
          | error e =>
              rw [processMsg_of_final_error hsigner hpending hret]
              have hentry := hfinal.entry (hkept.trans hsigner) faults payload
                bufLen
              rw [finalCall, hkeeps] at hentry
              exact ⟨hentry.keeps, hentry.signer, hentry.suffix⟩

theorem Owns.finalSign (h : Owns wrkr) (faults : SignFaults) (bufLen : Nat) :
    CallOwns wrkr.inst (mmhashchainsigsFinalSign faults wrkr bufLen) := by
  by_cases hsilent : wrkr.signer = none ∨ wrkr.chain.msgCount = 0
  · rw [finalSign_of_silent hsilent]
    apply callOwns_of_kept h rfl rfl
    intro sd hsd
    cases hsd
    rfl
  · rw [not_or] at hsilent
    obtain ⟨signer, hsigner⟩ := Option.ne_none_iff_exists'.mp hsilent.1
    have hkept : (mmhashchainsigsFinalSign faults wrkr bufLen).wrkr.inst =
          wrkr.inst ∧
        (mmhashchainsigsFinalSign faults wrkr bufLen).wrkr.signer =
          wrkr.signer := by
      unfold mmhashchainsigsFinalSign
      simp only [hsigner, if_neg hsilent.2, hashchainUpdate_eq]
      cases faults.hashChain with
      | true => exact ⟨rfl, hsigner⟩
      | false =>
          simp only [Bool.false_eq_true, if_false]
          cases hcsSign ossl faults.sign faults.nonce signer.privkey _ with
          | none => exact ⟨rfl, rfl⟩
          | some sig =>
              simp only
              cases hcsFormatSdSig _ _ _ _ _ bufLen with
              | none => exact ⟨rfl, rfl⟩
              | some text => exact ⟨rfl, rfl⟩
    apply callOwns_of_kept h hkept.1 hkept.2
    intro sd hsd
    obtain ⟨record, htype, helement, -⟩ :=
      finalSign_some hsigner hsilent.2 hsd
    apply certPart_of_element helement
    rw [htype]
    exact fun h => by cases h

end Calls

/-! ## Lines and runs -/

theorem Written.certDer {emission : Emission} (h : Written ossl emission)
    (hs : Storable emission) {der : Bytes}
    (hder : certPart emission.sd = [] ∧ der = [] ∨
      certPart emission.sd = sdCertText (Base64.encode der)) :
    ∃ s, stripLine ossl emission.line = some s ∧ s.certDer = der := by
  obtain ⟨privkey, fp, next, sigSeqFrom, record, hfp, helement⟩ := h
  obtain ⟨params, cert, hsd, -, hparams⟩ := Element.parses hfp helement
  have hroom := hs.room
  have hplain := hs.plain
  have hpart : certPart emission.sd = cert := by
    rw [hsd, certPart_elementText hparams]
  have htext : emission.line =
      elementText params ++ (cert ++ emission.payload) := by
    rw [hs.whole, hsd, List.append_assoc]
  rw [hpart] at hroom hplain hder
  have hchain := hcsStripSdFromLine_elementText ossl hparams.plain
    hparams.parse (show ¬ sdPrefix hcsSdId <:+: ([] : Bytes) by decide) 0
    (show ([] : Bytes).length + (cert ++ emission.payload).length <
      Limits.sdMsgBufLen by simpa using hroom)
  rw [List.nil_append, List.nil_append] at hchain
  rw [htext]
  unfold stripLine
  simp only [hchain]
  rcases hder with ⟨rfl, rfl⟩ | rfl
  · have habsent := hplain.resolve_left (fun hne => hne rfl)
    have hfind := (findSub_eq_none_iff _ _).mpr habsent
    have hcap : ¬ Limits.sdMsgBufLen ≤ emission.payload.length := by
      rw [List.length_nil] at hroom
      omega
    rw [List.nil_append]
    simp only [hcsExtractAndStripCertSd, hfind, if_neg hcap]
    exact ⟨_, rfl, rfl⟩
  · have hstrip := hcsExtractAndStripCertSd_certText ossl der
      (show ¬ sdPrefix hcsSdCertId <:+: ([] : Bytes) by decide)
      emission.payload
      (show ([] : Bytes).length + emission.payload.length <
        Limits.sdMsgBufLen by
        rw [List.length_nil]
        omega)
    rw [List.nil_append, List.nil_append] at hstrip
    simp only [hstrip]
    exact ⟨_, rfl, List.take_left⟩

section Run

variable {allowed : Instance → Prop} {sys : Sys ossl}

structure Certified (allowed : Instance → Prop) (sys : Sys ossl) : Prop where
  owns : Owns sys.wrkr
  runs : allowed sys.wrkr.inst
  emitted : ∀ emission ∈ sys.emitted, certPart emission.sd = [] ∨
    ∃ inst, allowed inst ∧ CertText ossl inst (certPart emission.sd)

theorem Certified.after (h : Certified allowed sys) {call : SignCall ossl}
    (hcall : CallOwns sys.wrkr.inst call) (stateFile : Option Bytes)
    (payload : Bytes) :
    Certified allowed (sys.after call stateFile payload) := by
  refine ⟨?_, ?_, ?_⟩
  · intro signer hsigner
    have hown := hcall.signer signer hsigner
    rw [← hcall.keeps] at hown
    exact hown
  · have hruns := h.runs
    rw [← hcall.keeps] at hruns
    exact hruns
  · apply emitted_after h.emitted
    intro sd hsd _
    rcases hcall.suffix sd hsd with hnone | htext
    · exact .inl hnone
    · exact .inr ⟨_, h.runs, htext⟩

theorem Certified.step (h : Certified allowed sys) {op : Op}
    (hop : op.Uses allowed) : Certified allowed (sys.step op) := by
  have hmsg : ∀ faults payload bufLen, Certified allowed
      (sys.step (.processMsg faults payload bufLen)) := by
    intro faults payload bufLen
    exact h.after (h.owns.processMsg faults sys.stateFile payload bufLen) _ _
  cases op with
  | processMsg faults payload bufLen => exact hmsg faults payload bufLen
  | finalSign faults bufLen =>
      exact h.after (h.owns.finalSign faults bufLen) _ _
  | action faults msg =>
      rcases action_cases faults sys msg with
        hkept | ⟨cleaned, emitted, -, hcall, hemits⟩
      · rw [hkept]
        exact h
      · have hnext := hmsg faults.core (cleaned ++ msg.msg)
          Common.Limits.hcsSdWithCertMaxLen
        rw [hcall]
        refine ⟨hnext.owns, hnext.runs, ?_⟩
        rcases hemits with ⟨-, rfl⟩ | ⟨-, hsame⟩
        · exact h.emitted
        · refine SameSigned.forall ?_ hsame hnext.emitted
          intro emission emission' hsigned hcert
          rwa [hsigned.1]
  | stop saveFails loadFails inst =>
      refine ⟨fun signer hsigner => ?_, hop, fun emission hemission => ?_⟩
      · cases hsigner
      · apply h.emitted
        rw [← (sys.save_emitted saveFails).1]
        exact hemission
  | crash loadFails inst =>
      refine ⟨fun signer hsigner => ?_, hop, h.emitted⟩
      cases hsigner

theorem certified_run {inst : Instance} (hinst : allowed inst) {ops : List Op}
    (hops : ∀ op ∈ ops, op.Uses allowed) :
    Certified allowed ((Sys.start ossl inst).run ops) := by
  have hstart : Certified allowed (Sys.start ossl inst) := by
    refine ⟨?_, hinst, ?_⟩
    · intro signer hsigner
      cases hsigner
    · intro emission hemission
      cases hemission
  exact Sys.run_induction hstart (fun _ _ h hop => h.step hop) hops

end Run

/--
In every line, and with any failures, a certificate that the verifier reads is
the one in the files of an instance that ran with `embedcert`, and it was
checked against the key of this instance.
-/
theorem embedded_certificates (ossl : OpenSSL) (allowed : Instance → Prop)
    (inst : Instance) (hinst : allowed inst) (ops : List Op)
    (hops : ∀ op ∈ ops, op.Uses allowed)
    (hstorable : ∀ e ∈ ((Sys.start ossl inst).run ops).emitted,
      Storable e) :
    ∀ e ∈ ((Sys.start ossl inst).run ops).emitted,
      ∃ s, stripLine ossl e.line = some s ∧
        (s.certDer = [] ∨ ∃ (own : Instance) (cert : ossl.X509)
            (key : ossl.Pkey), allowed own ∧ own.embedcert = true ∧
          CertFor own cert key ∧ s.certDer = ossl.i2dX509 cert) := by
  intro e he
  have hwritten := Sys.written inst ops e he
  rcases (certified_run hinst hops).emitted e he with
    hnone | ⟨own, hown, hembeds, cert, key, hfor, htext⟩
  · obtain ⟨s, hstrip, hder⟩ :=
      hwritten.certDer (hstorable e he) (.inl ⟨hnone, rfl⟩)
    exact ⟨s, hstrip, .inl hder⟩
  · obtain ⟨s, hstrip, hder⟩ :=
      hwritten.certDer (hstorable e he) (.inr htext)
    exact ⟨s, hstrip, .inr ⟨own, cert, key, hown, hembeds, hfor, hder⟩⟩

def certifiedInstance : Instance :=
  { sampleInstance with certPath := some [7], embedcert := true }

def certifiedOps : List Op :=
  [.processMsg {} [1] 512, .stop false false certifiedInstance,
    .processMsg {} [2] 512, .processMsg {} [3] 512,
    .finalSign {} 512]

theorem embedded_certificates_sample :
    let emitted := ((Sys.start sampleOpenSSL certifiedInstance).run
      certifiedOps).emitted
    (∃ e ∈ emitted, certPart e.sd ≠ []) ∧
    ∀ e ∈ emitted, ∃ s, stripLine sampleOpenSSL e.line = some s ∧
      (s.certDer = [] ∨ ∃ (own : Instance) (cert : sampleOpenSSL.X509)
          (key : sampleOpenSSL.Pkey), own = certifiedInstance ∧
        own.embedcert = true ∧ CertFor own cert key ∧
        s.certDer = sampleOpenSSL.i2dX509 cert) := by
  refine ⟨by decide +kernel, ?_⟩
  exact embedded_certificates sampleOpenSSL (· = certifiedInstance)
    certifiedInstance rfl certifiedOps
    (by
      simp only [certifiedOps, List.forall_mem_cons]
      exact ⟨trivial, rfl, trivial, trivial, trivial, by simp⟩)
    (by decide +kernel)

/-! ## The verdict with a bundle -/

structure Issued (setup : Setup ossl) (store : ossl.Store)
    (cert : ossl.X509) : Prop where
  encodes : ossl.i2dX509 cert ≠ []
  parses : ossl.d2iX509 (ossl.i2dX509 cert) = some cert
  pubkey : ossl.x509GetPubkey cert = some setup.pubkey
  chains : ossl.verifyCert store cert = none

section Bundle

variable {setup : Setup ossl} {store : ossl.Store} {cert : ossl.X509}

theorem Issued.certifiedKey (h : Issued setup store cert) :
    Verify.certifiedKey {} store (ossl.i2dX509 cert) =
      some (setup.pubkey, setup.fp) := by
  have hload := setup.loadPublic
  unfold hcsLoadPublicKey at hload
  have hsupported := (Option.filter_eq_some_iff.mp hload).2
  have hvalid : validCert {} store (ossl.i2dX509 cert) = some cert := by
    unfold validCert x509FromDer hcsX509FromDer x509VerifyCert
    simp [h.parses, h.chains]
  have hpub : x509GetPubkey {} cert = some setup.pubkey := by
    unfold x509GetPubkey hcsX509GetPubkey
    simp [h.pubkey, hsupported]
  unfold Verify.certifiedKey
  simp [hvalid, hpub, setup.publicFp]

theorem Issued.bringsKey (h : Issued setup store cert) {certPath : Bytes}
    (hcert : hcsLoadX509Cert ossl certPath = some cert) {sys : Sys ossl}
    (hcertified : Certified (fun inst => inst.certPath = some certPath) sys)
    (hwritten : ∀ e ∈ sys.emitted, Written ossl e)
    (hstorable : ∀ e ∈ sys.emitted, Storable e)
    (hembeds : ∀ e ∈ sys.emitted.head?, certPart e.sd ≠ [])
    (hfollows : Follows setup false sys) (hne : sys.emitted ≠ []) :
    ∃ call calls, fileCalls (fun _ => {}) (storedLog sys.emitted) =
        call :: calls ∧
      BringsKey store call (setup.pubkey, setup.fp) := by
  obtain ⟨call, calls, hcalls, hfaults, hclean⟩ :=
    hfollows.head (storedLog_stripsBack hwritten hstorable) hne
  obtain ⟨e, rest, hemitted⟩ := List.exists_cons_of_ne_nil hne
  have hmem : e ∈ sys.emitted := hemitted ▸ List.mem_cons_self
  have hline : call.line = e.line := by
    have hlines := fileCalls_lines (fun _ => {}) (storedLog sys.emitted)
    rw [hcalls, logLines_storedLog hwritten hstorable, hemitted] at hlines
    exact (List.cons.inj hlines).1
  obtain ⟨s, hstrip, -, htype, hhas, -⟩ :=
    keyAccepted_of_clean (.inl rfl) rfl hfaults hclean
  have hpart : certPart e.sd = sdCertText (Base64.encode
      (ossl.i2dX509 cert)) := by
    rcases hcertified.emitted e hmem with
      hnone | ⟨inst, hpath, -, own, key, hfor, htext⟩
    · refine absurd hnone (hembeds e ?_)
      rw [hemitted]
      rfl
    · have hown := hfor.certPath
      rw [hpath, Option.bind_some, hcert] at hown
      cases hown
      exact htext
  obtain ⟨s', hstrip', hder⟩ :=
    (hwritten e hmem).certDer (hstorable e hmem) (.inr hpart)
  rw [hline, hstrip'] at hstrip
  cases hstrip
  refine ⟨call, calls, hcalls, s, ?_, htype, hhas, ?_, ?_⟩
  · rw [hline, hstrip']
  · rw [hder]
    exact h.encodes
  · rw [hfaults, hder]
    exact h.certifiedKey

end Bundle

/--
The verdict on the log of an orderly life with a bundle of certificates instead
of the key: as with the key, as long as the first line has the certificate.
-/
theorem certified_log_verdict (setup : Setup ossl) (store : ossl.Store)
    (cert : ossl.X509) (hissued : Issued setup store cert) (certPath : Bytes)
    (hcert : hcsLoadX509Cert ossl certPath = some cert) (bundle : Bytes)
    (crl : Option Bytes) (hstore : ossl.readStore bundle crl = some store)
    (inst : Instance) (hinst : SameInstance setup inst)
    (hpath : inst.certPath = some certPath) (ops : List Op)
    (hops : ∀ op ∈ ops, op.Orderly setup)
    (hpaths : ∀ op ∈ ops, op.Uses fun inst => inst.certPath = some certPath)
    (hstorable : ∀ e ∈ ((Sys.start ossl inst).run ops).emitted, Storable e)
    (hembeds : ∀ e ∈ ((Sys.start ossl inst).run ops).emitted.head?,
      certPart e.sd ≠ []) (strict : Bool) :
    let sys := (Sys.start ossl inst).run ops
    let code := verifierMain ossl false
      { caBundlePath := some bundle, crlFile := crl, strict := strict }
      (fun _ => {}) (some (storedLog sys.emitted))
    (code = 0 ↔ sys.emitted ≠ [] ∧ (strict = true →
      openTail sys.wrkr + savedTail sys.wrkr = 0 ∧ sys.lostTail = false)) ∧
    (code = 0 ∨ code = 1) := by
  intro sys code
  have hinit : verifierInit ossl false
      { caBundlePath := some bundle, crlFile := crl, strict := strict } =
        some (bundleCtx strict store) := by
    unfold verifierInit
    dsimp only
    rw [hstore]
    rfl
  have hcode : code = exitCode (verifierFinalize (feed
      (bundleCtx strict store)
      (fileCalls (fun _ => {}) (storedLog sys.emitted)))) :=
    verifierMain_eq hinit (.inr (by simp)) _ _
  rw [hcode]
  have hfollows : ∀ strict, Follows setup strict sys :=
    fun strict => follows_run hinst hops
  by_cases hnil : sys.emitted = []
  · have hcalls : fileCalls (fun _ => {}) (storedLog sys.emitted) = [] := by
      rw [hnil]
      rfl
    rw [hcalls, feed_nil, exitCode_unread rfl rfl, hnil]
    exact ⟨iff_of_false (by decide) fun h => h.1 rfl, .inr rfl⟩
  · have hwritten := @Sys.written ossl inst ops
    obtain ⟨call, calls, hcalls, hbrings⟩ := hissued.bringsKey hcert
      (certified_run hpath hpaths) hwritten hstorable hembeds
      (hfollows false) hnil
    have hstrips := storedLog_stripsBack hwritten hstorable
    obtain ⟨hzero, hone⟩ := Follows.exitCode hfollows hstrips hnil strict
    rw [hcalls] at hzero hone ⊢
    rw [exitCode_bringsKey hbrings]
    exact ⟨hzero.trans (and_iff_right hnil).symm, hone⟩

theorem certified_log_verdict_sample :
    let sys := (Sys.start sampleOpenSSL certifiedInstance).run certifiedOps
    let code := verifierMain sampleOpenSSL false
      { caBundlePath := some [7, 8], crlFile := none, strict := true }
      (fun _ => {}) (some (storedLog sys.emitted))
    (code = 0 ↔ sys.emitted ≠ [] ∧ (true = true →
      openTail sys.wrkr + savedTail sys.wrkr = 0 ∧ sys.lostTail = false)) ∧
    (code = 0 ∨ code = 1) := by
  have hinst : SameInstance sampleSetup certifiedInstance := ⟨rfl, rfl, rfl⟩
  have hs : Succeeds {} 512 := ⟨rfl, rfl, rfl, rfl, rfl, rfl, by decide⟩
  exact certified_log_verdict sampleSetup [[7], [8]] ([7] : Bytes)
    ⟨by decide, rfl, rfl, by decide +kernel⟩ [7] rfl [7, 8] none rfl
    certifiedInstance hinst rfl certifiedOps
    (by
      simp only [certifiedOps, List.forall_mem_cons]
      exact ⟨hs, ⟨rfl, rfl, hinst⟩, hs, hs, hs, by simp⟩)
    (by
      simp only [certifiedOps, List.forall_mem_cons]
      exact ⟨trivial, rfl, trivial, trivial, trivial, by simp⟩)
    (by decide +kernel) (by decide +kernel) true

end MmHashChainSigs.System
