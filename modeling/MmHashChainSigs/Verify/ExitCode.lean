import MmHashChainSigs.Verify.Acceptance
import MmHashChainSigs.Verify.FailClosed

/-!
# What the exit code tells

The exit code is read off the recorded messages, of which there are 64 at the
most.  It tells what went wrong as long as the deciding message was recorded.
-/

namespace MmHashChainSigs.Verify

open MmHashChainSigs.Foundation
open MmHashChainSigs.Common

variable {ossl : OpenSSL}

/-! ## Messages -/

def TellsMismatch (message : Bytes) : Prop :=
  ascii "fingerprint mismatch" <:+: message

def TellsCertificate (message : Bytes) : Prop :=
  ascii "certificate" <:+: message ∨ ascii "chain validation" <:+: message

instance (message : Bytes) : Decidable (TellsMismatch message) :=
  inferInstanceAs (Decidable (_ <:+: _))

instance (message : Bytes) : Decidable (TellsCertificate message) :=
  inferInstanceAs (Decidable (_ ∨ _))

def Unmarked (message : Bytes) : Prop :=
  ¬ TellsMismatch message ∧ ¬ TellsCertificate message

instance (message : Bytes) : Decidable (Unmarked message) :=
  inferInstanceAs (Decidable (_ ∧ _))

def categoryWords : List Bytes :=
  [ascii "fingerprint mismatch", ascii "certificate",
    ascii "chain validation"]

theorem unmarked_iff {message : Bytes} :
    Unmarked message ↔ ∀ word ∈ categoryWords, ¬ word <:+: message := by
  unfold Unmarked TellsMismatch TellsCertificate categoryWords
  simp only [List.mem_cons, List.not_mem_nil, or_false, forall_eq_or_imp,
    forall_eq, not_or]

theorem Unmarked.take {message : Bytes} (h : Unmarked message) (n : Nat) :
    Unmarked (message.take n) := by
  rw [unmarked_iff] at h ⊢
  intro word hword hsub
  exact h word hword (hsub.trans (List.take_prefix n message).isInfix)

theorem unmarked_decimal {front back : Bytes} (hfront : Unmarked front)
    (hback : Unmarked back) (n : Nat) :
    Unmarked (front ++ decimal n ++ back) := by
  rw [unmarked_iff] at hfront hback ⊢
  intro word hword hinfix
  have hletters : ∀ word ∈ categoryWords, ∀ c ∈ word, ¬ isDigit c := by
    decide +kernel
  have hfresh : ∀ c ∈ decimal n, c ∉ word := by
    intro c hc hmem
    exact hletters word hword c hmem (decimal_isDigit hc)
  rcases infix_of_infix_gap (decimal_ne_nil n) hfresh hinfix with h | h
  · exact hfront word hword h
  · exact hback word hword h

theorem unmarked_decimal_end {front : Bytes} (hfront : Unmarked front)
    (n : Nat) : Unmarked (front ++ decimal n) := by
  have h := unmarked_decimal hfront (show Unmarked [] by decide +kernel) n
  rwa [List.append_nil] at h

theorem unmarked_number {front back : Bytes} (hfront : Unmarked front)
    (hback : Unmarked back) (n : UInt64) :
    Unmarked (front ++ number n ++ back) :=
  unmarked_decimal hfront hback n.toNat

theorem unmarked_number_end {front : Bytes} (hfront : Unmarked front)
    (n : UInt64) : Unmarked (front ++ number n) :=
  unmarked_decimal_end hfront n.toNat

/-! ## The list of errors -/

def Records (tells : Bytes → Prop) (errors : List VerifierError) : Prop :=
  ∃ e ∈ errors, tells e.message

def Full (errors : List VerifierError) : Prop :=
  Limits.verifierMaxErrors ≤ errors.length

theorem pushError_of_full {errors : List VerifierError} (h : Full errors)
    (lineNum : UInt64) (message : Bytes) :
    pushError errors lineNum message = errors := if_pos h

theorem pushError_of_not_full {errors : List VerifierError}
    (h : ¬ Full errors) (lineNum : UInt64) (message : Bytes) :
    pushError errors lineNum message =
      errors ++ [⟨lineNum, message.take (Limits.verifierMessageLen - 1)⟩] :=
  if_neg h

theorem records_pushError {tells : Bytes → Prop} {errors : List VerifierError}
    {lineNum : UInt64} {message : Bytes} :
    Records tells (pushError errors lineNum message) ↔
      Records tells errors ∨ ¬ Full errors ∧
        tells (message.take (Limits.verifierMessageLen - 1)) := by
  by_cases hfull : Full errors
  · rw [pushError_of_full hfull]
    simp [hfull]
  · rw [pushError_of_not_full hfull]
    unfold Records
    constructor
    · rintro ⟨e, he, htells⟩
      rcases List.mem_append.mp he with he | he
      · exact .inl ⟨e, he, htells⟩
      · rw [List.mem_singleton.mp he] at htells
        exact .inr ⟨hfull, htells⟩
    · rintro (⟨e, he, htells⟩ | ⟨-, htells⟩)
      · exact ⟨e, List.mem_append_left _ he, htells⟩
      · exact ⟨_, List.mem_append_right _ (List.mem_singleton_self _), htells⟩

theorem errorCode_of_mismatch {errors : List VerifierError}
    (h : Records TellsMismatch errors) (code : Nat) :
    errorCode code errors = 3 := by
  induction errors generalizing code with
  | nil =>
      obtain ⟨e, he, -⟩ := h
      cases he
  | cons first errors ih =>
      unfold errorCode
      split_ifs with hfirst hcert
      · rfl
      · apply ih
        obtain ⟨e, he, htells⟩ := h
        cases he with
        | head => exact absurd htells hfirst
        | tail _ he => exact ⟨e, he, htells⟩
      · apply ih
        obtain ⟨e, he, htells⟩ := h
        cases he with
        | head => exact absurd htells hfirst
        | tail _ he => exact ⟨e, he, htells⟩

theorem errorCode_of_not_mismatch {errors : List VerifierError}
    (h : ¬ Records TellsMismatch errors) (code : Nat) :
    (Records TellsCertificate errors → errorCode code errors = 4) ∧
      (¬ Records TellsCertificate errors → errorCode code errors = code) := by
  induction errors generalizing code with
  | nil =>
      constructor
      · rintro ⟨e, he, -⟩
        cases he
      · intro _
        rfl
  | cons first errors ih =>
      have hfirst : ¬ TellsMismatch first.message :=
        fun htells => h ⟨first, List.mem_cons_self .., htells⟩
      have hrest : ¬ Records TellsMismatch errors := by
        rintro ⟨e, he, htells⟩
        exact h ⟨e, List.mem_cons_of_mem _ he, htells⟩
      have hcons : errorCode code (first :: errors) =
          if TellsCertificate first.message then errorCode 4 errors
          else errorCode code errors := if_neg hfirst
      rw [hcons]
      by_cases hcert : TellsCertificate first.message
      · rw [if_pos hcert]
        constructor
        · intro _
          by_cases hlater : Records TellsCertificate errors
          · exact (ih hrest 4).1 hlater
          · exact (ih hrest 4).2 hlater
        · exact fun hnone =>
            absurd ⟨first, List.mem_cons_self .., hcert⟩ hnone
      · rw [if_neg hcert]
        constructor
        · rintro ⟨e, he, htells⟩
          cases he with
          | head => exact absurd htells hcert
          | tail _ he => exact (ih hrest code).1 ⟨e, he, htells⟩
        · intro hnone
          apply (ih hrest code).2
          rintro ⟨e, he, htells⟩
          exact hnone ⟨e, List.mem_cons_of_mem _ he, htells⟩

inductive Grows (errors : List VerifierError) : List VerifierError → Prop where
  | refl : Grows errors errors
  | push {errors' : List VerifierError} (h : Grows errors errors')
      (lineNum : UInt64) {message : Bytes} (hmessage : Unmarked message) :
      Grows errors (pushError errors' lineNum message)

theorem Grows.trans {errors errors' errors'' : List VerifierError}
    (h : Grows errors errors') (h' : Grows errors' errors'') :
    Grows errors errors'' := by
  induction h' with
  | refl => exact h
  | push _ lineNum hmessage ih => exact .push ih lineNum hmessage

theorem Grows.full {errors errors' : List VerifierError}
    (h : Grows errors errors') (hfull : Full errors) : errors' = errors := by
  induction h with
  | refl => rfl
  | push _ lineNum hmessage ih =>
      subst ih
      exact pushError_of_full hfull lineNum _

theorem Grows.records {errors errors' : List VerifierError}
    (h : Grows errors errors') :
    (Records TellsMismatch errors' ↔ Records TellsMismatch errors) ∧
      (Records TellsCertificate errors' ↔
        Records TellsCertificate errors) := by
  induction h with
  | refl => exact ⟨.rfl, .rfl⟩
  | push _ lineNum hmessage ih =>
      obtain ⟨hmismatch, hcert⟩ :=
        hmessage.take (Limits.verifierMessageLen - 1)
      rw [records_pushError, records_pushError, ih.1, ih.2]
      constructor
      · exact or_iff_left fun h => hmismatch h.2
      · exact or_iff_left fun h => hcert h.2

theorem grows_addError {ctx : VerifierCtx ossl} {message : Bytes}
    (h : Unmarked message) (lineNum : UInt64) :
    Grows ctx.errors (addError ctx lineNum message).errors :=
  .push .refl lineNum h

theorem grows_addErrorIf {condition : Prop} [Decidable condition]
    {ctx : VerifierCtx ossl} {message : Bytes} (h : Unmarked message)
    (lineNum : UInt64) :
    Grows ctx.errors (addErrorIf condition ctx lineNum message).errors := by
  unfold addErrorIf
  split_ifs
  · exact .push .refl lineNum h
  · exact .refl

/-! ## Records without a category -/

theorem verifySdMsgHash_grows (faults : VerifyFaults)
    (ctx : VerifierCtx ossl) (sd : HcsSdRecord) (msg : Bytes)
    (lineNum : UInt64) :
    Grows ctx.errors
      (verifySdMsgHash faults ctx sd msg lineNum).1.errors := by
  have hseq : ∀ n n' : UInt64, Unmarked (ascii "SD seq=" ++ number n ++
      ascii ", expected " ++ number n') := by
    intro n n'
    apply unmarked_number_end
    exact unmarked_number (by decide +kernel) (by decide +kernel) n
  have hwidth : ∀ n n' : Nat, Unmarked (ascii
      "chain hash length changed mid-chain (got " ++ decimal n ++
        ascii ", expected " ++ decimal n' ++ ascii ")") := by
    intro n n'
    apply unmarked_decimal _ (by decide +kernel)
    exact unmarked_decimal (by decide +kernel) (by decide +kernel) n
  have hhash : ∀ n : UInt64,
      Unmarked (ascii "chain hash mismatch at seq " ++ number n) := by
    intro n
    exact unmarked_number_end (by decide +kernel) n
  unfold verifySdMsgHash
  extract_lets next
  have hnext : Grows ctx.errors next.errors :=
    grows_addErrorIf (hseq _ _) lineNum
  split_ifs
  · exact hnext.trans (grows_addError (hwidth _ _) lineNum)
  · split
    · exact hnext
    · exact hnext.trans (grows_addErrorIf (hhash _) lineNum)

theorem checkSig_grows (faults : VerifyFaults) (ctx : VerifierCtx ossl)
    (sd : HcsSdRecord) (lineNum : UInt64) :
    Grows ctx.errors (checkSig faults ctx sd lineNum).errors := by
  have hnumbers : ∀ front back : Bytes, Unmarked front → Unmarked back →
      ∀ n n' : UInt64, Unmarked (front ++ number n ++ back ++ number n') := by
    intro front back hfront hback n n'
    exact unmarked_number_end (unmarked_number hfront hback n) n'
  have hrange : ∀ front : Bytes, Unmarked front → ∀ n n' : UInt64,
      Unmarked (front ++ (number n ++ ascii "-" ++ number n')) := by
    intro front hfront n n'
    rw [← List.append_assoc, ← List.append_assoc]
    exact hnumbers front _ hfront (by decide +kernel) n n'
  unfold checkSig
  extract_lets expFrom expTo range vr first second third fourth
  have hfirst : Grows ctx.errors first.errors := grows_addErrorIf
    (hnumbers _ _ (by decide +kernel) (by decide +kernel) _ _) lineNum
  have hsecond : Grows first.errors second.errors := grows_addErrorIf
    (hnumbers _ _ (by decide +kernel) (by decide +kernel) _ _) lineNum
  have hthird : Grows second.errors third.errors :=
    grows_addErrorIf (hrange _ (by decide +kernel) _ _) lineNum
  have hfourth : Grows third.errors fourth.errors :=
    grows_addErrorIf (hrange _ (by decide +kernel) _ _) lineNum
  have hall := ((hfirst.trans hsecond).trans hthird).trans hfourth
  split_ifs
  · exact hall
  · exact hall

theorem handleSdMsg_grows (faults : VerifyFaults) (ctx : VerifierCtx ossl)
    (sd : HcsSdRecord) (msg : Bytes) (lineNum : UInt64) :
    Grows ctx.errors (handleSdMsg faults ctx sd msg lineNum).1.errors := by
  unfold handleSdMsg
  split_ifs
  · exact grows_addError (by decide +kernel) lineNum
  · exact verifySdMsgHash_grows faults ctx sd msg lineNum

theorem handleSdSig_grows (faults : VerifyFaults) (ctx : VerifierCtx ossl)
    (sd : HcsSdRecord) (msg : Bytes) (lineNum : UInt64) :
    Grows ctx.errors (handleSdSig faults ctx sd msg lineNum).1.errors := by
  have hhash := verifySdMsgHash_grows faults ctx sd msg lineNum
  unfold handleSdSig
  dsimp only
  split_ifs
  · exact grows_addError (by decide +kernel) lineNum
  · exact hhash
  · exact hhash.trans (checkSig_grows faults _ sd lineNum)
  · exact hhash.trans (grows_addError (by decide +kernel) lineNum)

theorem initTail_grows (ctx : VerifierCtx ossl) (lineNum : UInt64) :
    Grows ctx.errors (initTail ctx lineNum).errors := by
  have htail : ∀ n : UInt64, Unmarked (number n ++
      ascii " messages unsigned before new segment") := fun n =>
    unmarked_number (show Unmarked [] by decide +kernel) (by decide +kernel) n
  unfold initTail
  split_ifs
  · exact grows_addErrorIf (htail _) lineNum
  · exact .refl

theorem initChain_grows (faults : VerifyFaults) (ctx : VerifierCtx ossl)
    (sd : HcsSdRecord) (msg : Bytes) (lineNum : UInt64) :
    Grows ctx.errors (initChain faults ctx sd msg lineNum).1.errors := by
  have hlength : ∀ n : Nat, Unmarked (ascii
      "INIT chain hash has unsupported length " ++ decimal n) := by
    intro n
    exact unmarked_decimal_end (by decide +kernel) n
  have halgs : ∀ alg alg' : HcsHashAlg, Unmarked (ascii
      "hash algorithm changed mid-file (was " ++ hcsHashName alg ++
        ascii ", INIT now " ++ hcsHashName alg' ++ ascii ")") := by
    intro alg alg'
    cases alg <;> cases alg' <;> decide +kernel
  unfold initChain
  split
  · exact grows_addError (hlength _) lineNum
  · split_ifs
    · exact grows_addError (halgs _ _) lineNum
    · dsimp only
      split
      · exact .refl
      · generalize hctx : VerifierCtx.mk _ _ _ _ _ _ _ _ _ _ _ _ _ _ _ _ = next
        have herrors : next.errors = ctx.errors := by rw [← hctx]
        rw [← herrors]
        exact verifySdMsgHash_grows faults next sd msg lineNum

/-! ## Records with a category -/

inductive FpMismatch (faults : VerifyFaults) (ctx : VerifierCtx ossl)
    (s : StrippedLine) : Prop where
  | init (htype : s.sd.type = .init) (hfp : s.sd.hasPubkeyFp = true)
      (h : ∃ ctx', trusted faults ctx s.certDer = some ctx' ∧
        ctx'.havePubkey = true ∧ s.sd.pubkeyFp ≠ ctx'.pubkeyFp)
  | continue (htype : s.sd.type = .continue)
      (hstate : ctx.state = .processing) (h : ¬ FpAgrees ctx s.sd)

structure CertFails (faults : VerifyFaults) (ctx : VerifierCtx ossl)
    (s : StrippedLine) : Prop where
  init : s.sd.type = .init
  hasFp : s.sd.hasPubkeyFp = true
  untrusted : trusted faults ctx s.certDer = none

/--
The certificate is missing, does not parse, does not chain to the store or has
no usable key.  It is not the context of the store that fails, nor the
fingerprint of a good key.
-/
def CertAtFault (faults : VerifyFaults) (ctx : VerifierCtx ossl)
    (certDer : Bytes) : Prop :=
  certDer ≠ [] → ∀ cert, x509FromDer faults certDer = some cert →
    faults.storeCtxNew = false ∧ faults.storeCtxInit = false ∧
      ∀ store, ctx.trustStore = some store →
        x509VerifyCert faults store cert = none →
        x509GetPubkey faults cert = none

def LibraryTexts (ossl : OpenSSL) (faults : VerifyFaults) : Prop :=
  ∀ (store : ossl.Store) cert text,
    x509VerifyCert faults store cert = some text → ¬ TellsMismatch text

theorem not_tellsMismatch_chain {text : Bytes} (h : ¬ TellsMismatch text) :
    ¬ TellsMismatch
      (ascii "certificate chain validation failed: " ++ text) := by
  intro htells
  have hsplit : ascii "certificate chain validation failed: " ++ text =
      ascii "certificate chain validation failed" ++ ascii ":" ++
        32 :: text := by
    have hfront : ascii "certificate chain validation failed: " =
        ascii "certificate chain validation failed" ++ ascii ":" ++ [32] := by
      decide +kernel
    rw [hfront, List.append_assoc _ [32]]
    rfl
  unfold TellsMismatch at htells
  rw [hsplit] at htells
  rcases infix_of_infix_gap (by decide +kernel) (by decide +kernel) htells with
    hfront | hback
  · revert hfront
    decide +kernel
  · rcases List.infix_cons_iff.mp hback with hstart | htext
    · obtain ⟨rest, hrest⟩ := hstart
      have hhead : ascii "fingerprint mismatch" =
        102 :: ascii "ingerprint mismatch" := by decide +kernel
      rw [hhead] at hrest
      cases hrest
    · exact h htext

def ReportsCert (faults : VerifyFaults) (ctx : VerifierCtx ossl)
    (certDer : Bytes) (lineNum : UInt64) (errors : List VerifierError) :
    Prop :=
  (CertAtFault faults ctx certDer → ∃ message,
    errors = pushError ctx.errors lineNum message ∧
      TellsCertificate (message.take (Limits.verifierMessageLen - 1)) ∧
      ¬ TellsMismatch message) ∧
  (¬ CertAtFault faults ctx certDer → Grows ctx.errors errors)

section Certificate

variable {faults : VerifyFaults} {ctx : VerifierCtx ossl} {certDer : Bytes}
  {lineNum : UInt64} {message : Bytes}

theorem reportsCert_of_fault (h : CertAtFault faults ctx certDer)
    (hcert :
      TellsCertificate (message.take (Limits.verifierMessageLen - 1)))
    (hmismatch : ¬ TellsMismatch message) :
    ReportsCert faults ctx certDer lineNum
      (addError ctx lineNum message).errors :=
  ⟨fun _ => ⟨message, rfl, hcert, hmismatch⟩, fun hnot => absurd h hnot⟩

theorem reportsCert_of_grows {errors : List VerifierError}
    (h : ¬ CertAtFault faults ctx certDer) (hgrows : Grows ctx.errors errors) :
    ReportsCert faults ctx certDer lineNum errors :=
  ⟨fun hfault => absurd hfault h, fun _ => hgrows⟩

theorem tellsCertificate_chain (text : Bytes) :
    TellsCertificate
      ((ascii "certificate chain validation failed: " ++ text).take
        (Limits.verifierMessageLen - 1)) := by
  have hstart : ascii "certificate" <+:
      ascii "certificate chain validation failed: " := by decide +kernel
  have hfits : (ascii "certificate chain validation failed: ").length ≤
      Limits.verifierMessageLen - 1 := by decide +kernel
  left
  rw [List.take_append, List.take_of_length_le hfits]
  exact (hstart.trans (List.prefix_append _ _)).isInfix

theorem installPubkeyFromCert_reports {store : ossl.Store}
    (hlib : LibraryTexts ossl faults) (hstore : ctx.trustStore = some store)
    (hnil : certDer ≠ []) (h : certifiedKey faults store certDer = none)
    (lineNum : UInt64) :
    ReportsCert faults ctx certDer lineNum
      (installPubkeyFromCert faults store ctx certDer lineNum).1.errors := by
  unfold installPubkeyFromCert
  split
  next hparse =>
    apply reportsCert_of_fault _ (by decide +kernel) (by decide +kernel)
    intro _ cert hcert
    rw [hparse] at hcert
    cases hcert
  next cert hparse =>
    split_ifs with hnew hinit
    · apply reportsCert_of_grows _ .refl
      intro hfault
      exact Bool.false_ne_true ((hfault hnil cert hparse).1.symm.trans hnew)
    · apply reportsCert_of_grows _ (grows_addError (by decide +kernel) lineNum)
      intro hfault
      exact Bool.false_ne_true
        ((hfault hnil cert hparse).2.1.symm.trans hinit)
    · rw [Bool.not_eq_true] at hnew hinit
      split
      next err hverify =>
        apply reportsCert_of_fault _ (tellsCertificate_chain err)
          (not_tellsMismatch_chain (hlib store cert err hverify))
        intro _ cert' hcert'
        obtain rfl := Option.some.inj (hparse.symm.trans hcert')
        refine ⟨hnew, hinit, fun store' hstore' hvalid => ?_⟩
        obtain rfl := Option.some.inj (hstore.symm.trans hstore')
        rw [hverify] at hvalid
        cases hvalid
      next hverify =>
        split
        next hpub =>
          apply reportsCert_of_fault _ (by decide +kernel) (by decide +kernel)
          intro _ cert' hcert'
          obtain rfl := Option.some.inj (hparse.symm.trans hcert')
          exact ⟨hnew, hinit, fun _ _ _ => hpub⟩
        next pub hpub =>
          split
          · apply reportsCert_of_grows _
              (grows_addError (by decide +kernel) lineNum)
            intro hfault
            have hnone := (hfault hnil cert hparse).2.2 store hstore hverify
            rw [hpub] at hnone
            cases hnone
          next fp hfp =>
            have hvalid : validCert faults store certDer = some cert := by
              simp [validCert, hparse, hnew, hinit, hverify]
            simp [certifiedKey, hvalid, hpub, hfp] at h

theorem initTrust_reports (hlib : LibraryTexts ossl faults)
    (h : trusted faults ctx certDer = none) (lineNum : UInt64) :
    ReportsCert faults ctx certDer lineNum
      (initTrust faults ctx certDer lineNum).1.errors := by
  by_cases hkey : ctx.trustStore = none ∨ ctx.havePubkey = true
  · rw [(trusted_of_key hkey faults certDer lineNum).1] at h
    cases h
  · rw [not_or, Bool.not_eq_true] at hkey
    obtain ⟨store, hstore⟩ := Option.ne_none_iff_exists'.mp hkey.1
    rw [trusted_of_store hstore hkey.2] at h
    unfold initTrust
    simp only [hstore, hkey.2]
    by_cases hnil : certDer = []
    · rw [if_pos hnil]
      apply reportsCert_of_fault _ (by decide +kernel) (by decide +kernel)
      exact fun hne => absurd hnil hne
    · rw [if_neg hnil, Option.map_eq_none_iff] at h
      rw [if_neg hnil]
      exact installPubkeyFromCert_reports hlib hstore hnil h lineNum

end Certificate

def CertBlamed (faults : VerifyFaults) (ctx : VerifierCtx ossl)
    (s : StrippedLine) : Prop :=
  CertFails faults ctx s ∧ CertAtFault faults ctx s.certDer

inductive Reports (faults : VerifyFaults) (ctx : VerifierCtx ossl)
    (s : StrippedLine) : List VerifierError → Prop where
  | plain (hmismatch : ¬ FpMismatch faults ctx s)
      (hcert : ¬ CertBlamed faults ctx s) {errors : List VerifierError}
      (h : Grows ctx.errors errors) : Reports faults ctx s errors
  | mismatch (h : FpMismatch faults ctx s) (lineNum : UInt64)
      {message : Bytes}
      (htells : TellsMismatch (message.take (Limits.verifierMessageLen - 1)))
      (hcert : ¬ TellsCertificate
        (message.take (Limits.verifierMessageLen - 1))) :
      Reports faults ctx s (pushError ctx.errors lineNum message)
  | certificate (h : CertBlamed faults ctx s) (lineNum : UInt64)
      {message : Bytes}
      (htells :
        TellsCertificate (message.take (Limits.verifierMessageLen - 1)))
      (hmismatch : ¬ TellsMismatch message) :
      Reports faults ctx s (pushError ctx.errors lineNum message)

section Record

variable {faults : VerifyFaults} {ctx : VerifierCtx ossl} {s : StrippedLine}
  {errors : List VerifierError}

theorem fpMismatch_init_iff (htype : s.sd.type = .init) :
    FpMismatch faults ctx s ↔ s.sd.hasPubkeyFp = true ∧ ∃ ctx',
      trusted faults ctx s.certDer = some ctx' ∧ ctx'.havePubkey = true ∧
        s.sd.pubkeyFp ≠ ctx'.pubkeyFp := by
  constructor
  · intro h
    cases h with
    | init _ hfp h => exact ⟨hfp, h⟩
    | «continue» hother =>
        rw [htype] at hother
        cases hother
  · exact fun h => .init htype h.1 h.2

theorem fpMismatch_continue_iff (htype : s.sd.type = .continue) :
    FpMismatch faults ctx s ↔
      ctx.state = .processing ∧ ¬ FpAgrees ctx s.sd := by
  constructor
  · intro h
    cases h with
    | init hother =>
        rw [htype] at hother
        cases hother
    | «continue» _ hstate h => exact ⟨hstate, h⟩
  · exact fun h => .continue htype h.1 h.2

theorem CertFails.not_fpMismatch (h : CertFails faults ctx s) :
    ¬ FpMismatch faults ctx s := by
  rw [fpMismatch_init_iff h.init]
  rintro ⟨-, ctx', htrust, -⟩
  rw [h.untrusted] at htrust
  cases htrust

theorem not_certBlamed_of_type (htype : s.sd.type ≠ .init) :
    ¬ CertBlamed faults ctx s := fun h => htype h.1.init

theorem Reports.mismatches (h : Reports faults ctx s errors) :
    Records TellsMismatch errors ↔ Records TellsMismatch ctx.errors ∨
      FpMismatch faults ctx s ∧ ¬ Full ctx.errors := by
  cases h with
  | plain hmismatch hcert h =>
      rw [h.records.1]
      exact (or_iff_left fun h => hmismatch h.1).symm
  | mismatch h lineNum htells hcert =>
      rw [records_pushError]
      apply or_congr_right
      exact ⟨fun hroom => ⟨h, hroom.1⟩, fun hroom => ⟨hroom.2, htells⟩⟩
  | certificate h lineNum htells hmismatch =>
      rw [records_pushError]
      apply or_congr_right
      constructor
      · intro hroom
        exact absurd (hroom.2.trans (List.take_prefix _ _).isInfix) hmismatch
      · exact fun hroom => absurd hroom.1 h.1.not_fpMismatch

theorem Reports.certificates (h : Reports faults ctx s errors) :
    Records TellsCertificate errors ↔ Records TellsCertificate ctx.errors ∨
      CertBlamed faults ctx s ∧ ¬ Full ctx.errors := by
  cases h with
  | plain hmismatch hcert h =>
      rw [h.records.2]
      exact (or_iff_left fun h => hcert h.1).symm
  | mismatch h lineNum htells hcert =>
      rw [records_pushError]
      apply or_congr_right
      exact ⟨fun hroom => absurd hroom.2 hcert,
        fun hroom => absurd h hroom.1.1.not_fpMismatch⟩
  | certificate h lineNum htells hmismatch =>
      rw [records_pushError]
      apply or_congr_right
      exact ⟨fun hroom => ⟨h, hroom.1⟩, fun hroom => ⟨hroom.2, htells⟩⟩

theorem Reports.full (h : Reports faults ctx s errors)
    (hfull : Full ctx.errors) : errors = ctx.errors := by
  cases h with
  | plain hmismatch hcert h => exact h.full hfull
  | mismatch h lineNum => exact pushError_of_full hfull lineNum _
  | certificate h lineNum => exact pushError_of_full hfull lineNum _

theorem handleSdInit_reports (hlib : LibraryTexts ossl faults)
    (htype : s.sd.type = .init) (lineNum : UInt64) :
    Reports faults ctx s
      (handleSdInit faults ctx s.sd s.msg s.certDer lineNum).1.errors := by
  unfold handleSdInit
  by_cases hfp : s.sd.hasPubkeyFp = true
  · rw [if_neg (not_not.mpr hfp)]
    cases htrust : trusted faults ctx s.certDer with
    | none =>
        have hfails : CertFails faults ctx s := ⟨htype, hfp, htrust⟩
        obtain ⟨hblamed, hother⟩ := initTrust_reports hlib htrust lineNum
        simp only [(initTrust_of_not_trusted htrust lineNum).1, ne_eq,
          reduceCtorEq, not_false_eq_true, if_true]
        by_cases hfault : CertAtFault faults ctx s.certDer
        · obtain ⟨message, herrors, htells, hmessage⟩ := hblamed hfault
          have hsaid := Reports.certificate
            (show CertBlamed faults ctx s from ⟨hfails, hfault⟩)
            lineNum htells hmessage
          rw [← herrors] at hsaid
          exact hsaid
        · apply Reports.plain hfails.not_fpMismatch
          · exact fun h => hfault h.2
          · exact hother hfault
    | some ctx' =>
        have hblamed : ¬ CertBlamed faults ctx s := by
          rintro ⟨hfails, -⟩
          rw [hfails.untrusted] at htrust
          cases htrust
        have hmismatch : FpMismatch faults ctx s ↔
            ctx'.havePubkey = true ∧ s.sd.pubkeyFp ≠ ctx'.pubkeyFp := by
          rw [fpMismatch_init_iff htype, htrust]
          simp [hfp]
        have herrors := trusted_errors htrust
        simp only [initTrust_of_trusted htrust lineNum, ne_eq,
          not_true_eq_false, if_false]
        by_cases hhave : ctx'.havePubkey = true
        · rw [if_neg (not_not.mpr hhave)]
          by_cases heq : s.sd.pubkeyFp = ctx'.pubkeyFp
          · rw [if_neg (not_not.mpr heq)]
            apply Reports.plain (fun h => (hmismatch.mp h).2 heq) hblamed
            rw [← herrors]
            exact (initTail_grows ctx' lineNum).trans
              (initChain_grows faults _ s.sd s.msg lineNum)
          · rw [if_pos heq]
            have hsaid := Reports.mismatch (hmismatch.mpr ⟨hhave, heq⟩)
              lineNum
              (show TellsMismatch ((ascii "INIT fingerprint mismatch").take
                (Limits.verifierMessageLen - 1)) by decide +kernel)
              (by decide +kernel)
            rw [← herrors] at hsaid
            exact hsaid
        · rw [if_pos hhave]
          apply Reports.plain (fun h => hhave (hmismatch.mp h).1) hblamed
          rw [← herrors]
          exact grows_addError (by decide +kernel) lineNum
  · rw [if_pos hfp]
    apply Reports.plain
    · rw [fpMismatch_init_iff htype]
      exact fun h => hfp h.1
    · exact fun h => hfp h.1.hasFp
    · exact grows_addError (by decide +kernel) lineNum

theorem handleSdContinue_reports (htype : s.sd.type = .continue)
    (lineNum : UInt64) :
    Reports faults ctx s
      (handleSdContinue faults ctx s.sd s.msg lineNum).1.errors := by
  have hblamed : ¬ CertBlamed faults ctx s :=
    not_certBlamed_of_type (by simp [htype])
  have hmismatch := @fpMismatch_continue_iff _ faults ctx s htype
  unfold handleSdContinue
  by_cases hstate : ctx.state = .processing
  · rw [if_neg (not_not.mpr hstate)]
    by_cases hne : s.sd.hasPubkeyFp = true ∧ s.sd.pubkeyFp ≠ ctx.pubkeyFp
    · rw [if_pos hne]
      have hdiffers : ¬ FpAgrees ctx s.sd :=
        fun hagrees => hne.2 (hagrees hne.1)
      exact .mismatch (hmismatch.mpr ⟨hstate, hdiffers⟩) lineNum
        (by decide +kernel) (by decide +kernel)
    · rw [if_neg hne]
      have hagrees : FpAgrees ctx s.sd := by
        intro hhas
        by_contra hother
        exact hne ⟨hhas, hother⟩
      apply Reports.plain (fun h => (hmismatch.mp h).2 hagrees) hblamed
      exact verifySdMsgHash_grows faults (countSegment ctx) s.sd s.msg lineNum
  · rw [if_pos hstate]
    apply Reports.plain (fun h => hstate (hmismatch.mp h).1) hblamed
    exact grows_addError (by decide +kernel) lineNum

theorem handleSd_reports (hlib : LibraryTexts ossl faults)
    (lineNum : UInt64) :
    Reports faults ctx s (handleSd faults ctx s lineNum).1.errors := by
  have hplain : s.sd.type ≠ .init → s.sd.type ≠ .continue →
      ∀ errors, Grows ctx.errors errors → Reports faults ctx s errors := by
    intro hinit hcontinue errors h
    apply Reports.plain _ (not_certBlamed_of_type hinit) h
    intro hmismatch
    cases hmismatch with
    | init htype => exact hinit htype
    | «continue» htype => exact hcontinue htype
  unfold handleSd
  cases htype : s.sd.type with
  | init => exact handleSdInit_reports hlib htype lineNum
  | «continue» => exact handleSdContinue_reports htype lineNum
  | sig =>
      apply hplain (by simp [htype]) (by simp [htype])
      exact handleSdSig_grows faults ctx s.sd s.msg lineNum
  | msg =>
      apply hplain (by simp [htype]) (by simp [htype])
      exact handleSdMsg_grows faults ctx s.sd s.msg lineNum
  | other code =>
      apply hplain (by simp [htype]) (by simp [htype])
      exact grows_addError (by decide +kernel) lineNum

end Record

/-! ## Lines -/

def OnRecord
    (p : VerifyFaults → VerifierCtx ossl → StrippedLine → Prop)
    (ctx : VerifierCtx ossl) (call : VerifyCall) : Prop :=
  Live ctx ∧ ∃ s, stripLine ossl call.line = some s ∧ p call.faults ctx s

def MismatchAt (ctx : VerifierCtx ossl) (call : VerifyCall) : Prop :=
  OnRecord FpMismatch ctx call

def CertFailureAt (ctx : VerifierCtx ossl) (call : VerifyCall) : Prop :=
  OnRecord CertFails ctx call

def CertBlamedAt (ctx : VerifierCtx ossl) (call : VerifyCall) : Prop :=
  OnRecord CertBlamed ctx call

/-- There is room for one more error, also behind a malformed certificate. -/
def Room (ctx : VerifierCtx ossl) (call : VerifyCall) : Prop :=
  ∀ s, stripLine ossl call.line = some s →
    ctx.errors.length + (if s.malformed then 1 else 0) <
      Limits.verifierMaxErrors

theorem full_addErrorIf {condition : Prop} [Decidable condition]
    {ctx : VerifierCtx ossl} {lineNum : UInt64} {message : Bytes} :
    Full (addErrorIf condition ctx lineNum message).errors ↔
      Limits.verifierMaxErrors ≤
        ctx.errors.length + (if condition then 1 else 0) := by
  unfold addErrorIf
  by_cases hcondition : condition
  · by_cases hfull : Full ctx.errors
    · simp only [if_pos hcondition, pushError_of_full hfull]
      unfold Full at hfull ⊢
      omega
    · simp only [if_pos hcondition, pushError_of_not_full hfull]
      unfold Full
      rw [List.length_append, List.length_singleton]
  · simp only [if_neg hcondition]
    rfl

theorem fpMismatch_addErrorIf {condition : Prop} [Decidable condition]
    {faults : VerifyFaults} {ctx : VerifierCtx ossl} {s : StrippedLine}
    {lineNum : UInt64} {message : Bytes} :
    FpMismatch faults (addErrorIf condition ctx lineNum message) s ↔
      FpMismatch faults ctx s := by
  have htrust := @trusted_addErrorIf ossl condition _ faults ctx s.certDer
    lineNum message fun hhave fp => hhave = true ∧ s.sd.pubkeyFp ≠ fp
  constructor
  · intro h
    cases h with
    | init htype hfp h => exact .init htype hfp (htrust.mp h)
    | «continue» htype hstate h => exact .continue htype hstate h
  · intro h
    cases h with
    | init htype hfp h => exact .init htype hfp (htrust.mpr h)
    | «continue» htype hstate h => exact .continue htype hstate h

theorem certFails_addErrorIf {condition : Prop} [Decidable condition]
    {faults : VerifyFaults} {ctx : VerifierCtx ossl} {s : StrippedLine}
    {lineNum : UInt64} {message : Bytes} :
    CertFails faults (addErrorIf condition ctx lineNum message) s ↔
      CertFails faults ctx s := by
  constructor
  · intro h
    exact ⟨h.init, h.hasFp, trusted_addErrorIf_none.mp h.untrusted⟩
  · intro h
    exact ⟨h.init, h.hasFp, trusted_addErrorIf_none.mpr h.untrusted⟩

structure LineReports (ctx : VerifierCtx ossl) (call : VerifyCall)
    (errors : List VerifierError) : Prop where
  mismatches : Records TellsMismatch errors ↔
    Records TellsMismatch ctx.errors ∨ MismatchAt ctx call ∧ Room ctx call
  certificates : Records TellsCertificate errors ↔
    Records TellsCertificate ctx.errors ∨
      CertBlamedAt ctx call ∧ Room ctx call
  full : Full ctx.errors → errors = ctx.errors
  lost : MismatchAt ctx call → ¬ Room ctx call → Full errors

theorem onRecord_iff {ctx : VerifierCtx ossl} {call : VerifyCall}
    {s : StrippedLine} (hlive : Live ctx)
    (hstrip : stripLine ossl call.line = some s)
    (p : VerifyFaults → VerifierCtx ossl → StrippedLine → Prop) :
    OnRecord p ctx call ↔ p call.faults ctx s := by
  unfold OnRecord
  rw [hstrip]
  constructor
  · rintro ⟨-, s', hs', h⟩
    obtain rfl := Option.some.inj hs'
    exact h
  · exact fun h => ⟨hlive, s, rfl, h⟩

theorem processCall_record {ctx : VerifierCtx ossl} {call : VerifyCall}
    {s : StrippedLine} (hlib : LibraryTexts ossl call.faults)
    (hlive : Live ctx) (hstrip : stripLine ossl call.line = some s) :
    Reports call.faults (addErrorIf s.malformed ctx call.lineNum
        (ascii "malformed embedded cert SD element")) s
      (processCall ctx call).1.errors := by
  unfold processCall verifierProcessLine
  simp only [if_neg hlive.not_stopped, hstrip]
  split_ifs with hexpect
  · rw [addErrorIf_state] at hexpect
    apply Reports.plain
    · intro hmismatch
      cases hmismatch with
      | init htype => exact hexpect.2 htype
      | «continue» htype hstate =>
          rw [addErrorIf_state, hexpect.1] at hstate
          cases hstate
    · exact not_certBlamed_of_type hexpect.2
    · exact grows_addError (by decide +kernel) call.lineNum
  · exact handleSd_reports hlib call.lineNum

theorem lineReports_of_plain {ctx : VerifierCtx ossl} {call : VerifyCall}
    {errors : List VerifierError}
    (h : ∀ p : VerifyFaults → VerifierCtx ossl → StrippedLine → Prop,
      ¬ OnRecord p ctx call) (hgrows : Grows ctx.errors errors) :
    LineReports ctx call errors where
  mismatches := hgrows.records.1.trans
    (or_iff_left fun hmismatch => h _ hmismatch.1).symm
  certificates := hgrows.records.2.trans
    (or_iff_left fun hcert => h _ hcert.1).symm
  full := hgrows.full
  lost := fun hmismatch => absurd hmismatch (h _)

theorem processCall_reports (ctx : VerifierCtx ossl) {call : VerifyCall}
    (hlib : LibraryTexts ossl call.faults) :
    LineReports ctx call (processCall ctx call).1.errors := by
  by_cases hlive : Live ctx
  · cases hstrip : stripLine ossl call.line with
    | none =>
        apply lineReports_of_plain
        · rintro p ⟨-, s, hs, -⟩
          rw [hstrip] at hs
          cases hs
        · unfold processCall verifierProcessLine
          simp only [if_neg hlive.not_stopped, hstrip]
          split_ifs
          · exact grows_addError (by decide +kernel) call.lineNum
          · exact grows_addError (by decide +kernel) call.lineNum
    | some s =>
        have hreports := processCall_record hlib hlive hstrip
        have hmalformed : Grows ctx.errors (addErrorIf s.malformed ctx
            call.lineNum (ascii "malformed embedded cert SD element")).errors :=
          grows_addErrorIf (by decide +kernel) call.lineNum
        have hroom : Room ctx call ↔ ¬ Full (addErrorIf s.malformed ctx
            call.lineNum
            (ascii "malformed embedded cert SD element")).errors := by
          rw [full_addErrorIf, Nat.not_le]
          unfold Room
          rw [hstrip]
          constructor
          · exact fun h => h s rfl
          · rintro h s' hs'
            obtain rfl := Option.some.inj hs'
            exact h
        have hmismatch : MismatchAt ctx call ↔ FpMismatch call.faults
            (addErrorIf s.malformed ctx call.lineNum
              (ascii "malformed embedded cert SD element")) s :=
          (onRecord_iff hlive hstrip _).trans fpMismatch_addErrorIf.symm
        have hcert : CertBlamedAt ctx call ↔ CertBlamed call.faults
            (addErrorIf s.malformed ctx call.lineNum
              (ascii "malformed embedded cert SD element")) s :=
          (onRecord_iff hlive hstrip _).trans
            (and_congr_left' certFails_addErrorIf.symm)
        constructor
        · rw [hreports.mismatches, hmalformed.records.1, hmismatch, hroom]
        · rw [hreports.certificates, hmalformed.records.2, hcert, hroom]
        · intro hfull
          have hsame := hmalformed.full hfull
          rw [← hsame] at hfull
          rw [hreports.full hfull, hsame]
        · intro _ hnone
          rw [hroom, not_not] at hnone
          rwa [hreports.full hnone]
  · rw [processCall_of_not_live hlive]
    apply lineReports_of_plain
    · exact fun p h => hlive h.1
    · exact .refl

/-! ## Runs -/

def Occurs (p : VerifierCtx ossl → VerifyCall → Prop)
    (ctx : VerifierCtx ossl) (calls : List VerifyCall) : Prop :=
  ∃ before call after, calls = before ++ call :: after ∧
    p (feed ctx before) call

section Runs

variable {p : VerifierCtx ossl → VerifyCall → Prop} {ctx : VerifierCtx ossl}
  {calls : List VerifyCall}

theorem occurs_concat {call : VerifyCall} :
    Occurs p ctx (calls ++ [call]) ↔
      Occurs p ctx calls ∨ p (feed ctx calls) call := by
  have hnot : ∀ calls, Occurs p ctx calls ↔
      ¬ Throughout (fun before call => ¬ p (feed ctx before) call) calls := by
    intro calls
    unfold Occurs Throughout
    push Not
    rfl
  rw [hnot, hnot, throughout_concat, not_and_or, not_not]

theorem Occurs.append (h : Occurs p ctx calls) (more : List VerifyCall) :
    Occurs p ctx (calls ++ more) := by
  obtain ⟨before, call, after, rfl, h⟩ := h
  exact ⟨before, call, after ++ more, by simp, h⟩

theorem Occurs.imp {q : VerifierCtx ossl → VerifyCall → Prop}
    (h : Occurs p ctx calls) (hpq : ∀ ctx call, p ctx call → q ctx call) :
    Occurs q ctx calls := by
  obtain ⟨before, call, after, hcalls, h⟩ := h
  exact ⟨before, call, after, hcalls, hpq _ _ h⟩

theorem feed_records {tells : Bytes → Prop}
    (hstep : ∀ ctx, ∀ call ∈ calls,
      (Records tells (processCall ctx call).1.errors ↔
        Records tells ctx.errors ∨ p ctx call)) :
    Records tells (feed ctx calls).errors ↔
      Records tells ctx.errors ∨ Occurs p ctx calls := by
  induction calls using List.reverseRecOn with
  | nil =>
      refine (or_iff_left ?_).symm
      rintro ⟨before, call, after, h, -⟩
      simp at h
  | append_singleton calls call ih =>
      rw [feed_concat, hstep _ call (by simp),
        ih fun ctx c hc => hstep ctx c (by simp [hc]), occurs_concat, or_assoc]

theorem feed_mismatches (hlib : ∀ call ∈ calls, LibraryTexts ossl call.faults) :
    Records TellsMismatch (feed ctx calls).errors ↔
      Records TellsMismatch ctx.errors ∨
        Occurs (fun ctx call => MismatchAt ctx call ∧ Room ctx call) ctx
          calls :=
  feed_records fun ctx call hcall =>
    (processCall_reports ctx (hlib call hcall)).mismatches

theorem feed_certificates
    (hlib : ∀ call ∈ calls, LibraryTexts ossl call.faults) :
    Records TellsCertificate (feed ctx calls).errors ↔
      Records TellsCertificate ctx.errors ∨
        Occurs (fun ctx call => CertBlamedAt ctx call ∧ Room ctx call) ctx
          calls :=
  feed_records fun ctx call hcall =>
    (processCall_reports ctx (hlib call hcall)).certificates

theorem feed_full (hlib : ∀ call ∈ calls, LibraryTexts ossl call.faults)
    (hfull : Full ctx.errors) : (feed ctx calls).errors = ctx.errors := by
  induction calls generalizing ctx with
  | nil => rfl
  | cons call calls ih =>
      have hsame := (processCall_reports ctx (hlib call (by simp))).full hfull
      rw [feed_cons, ih (fun c hc => hlib c (by simp [hc])) (hsame ▸ hfull),
        hsame]

theorem feed_stops {before after : List VerifyCall} {call : VerifyCall}
    (h : (processCall (feed ctx before) call).1.state = .error) :
    feed ctx (before ++ call :: after) =
      (processCall (feed ctx before) call).1 := by
  rw [feed_append, feed_cons, feed_of_not_live (not_live_of_error h)]

theorem certFailureAt_stops {call : VerifyCall} (h : CertFailureAt ctx call) :
    (processCall ctx call).1.state = .error := by
  obtain ⟨hlive, s, hstrip, hfails⟩ := h
  unfold processCall verifierProcessLine
  simp only [if_neg hlive.not_stopped, hstrip]
  split_ifs
  · rfl
  · have hnone := (@certFails_addErrorIf ossl (s.malformed = true) _
      call.faults ctx s call.lineNum
      (ascii "malformed embedded cert SD element")).mpr hfails
    unfold handleSd handleSdInit
    simp only [hnone.init, hnone.hasFp, not_true_eq_false, if_false,
      (initTrust_of_not_trusted hnone.untrusted call.lineNum).1]
    rfl

theorem certFailureAt_last (h : Occurs CertFailureAt ctx calls) :
    ¬ Live (feed ctx calls) := by
  obtain ⟨before, call, after, rfl, h⟩ := h
  have hstops := certFailureAt_stops h
  rw [feed_stops hstops]
  exact not_live_of_error hstops

end Runs

/-! ## The exit code -/

def Accepted (ctx : VerifierCtx ossl) (call : VerifyCall) : Prop :=
  ∃ s ctx', stripLine ossl call.line = some s ∧ s.malformed = false ∧
    Accepts call.faults ctx s ctx'

def RejectedAt (ctx : VerifierCtx ossl) (call : VerifyCall) : Prop :=
  Live ctx ∧ ¬ Accepted ctx call

def Erroneous (ctx : VerifierCtx ossl) (calls : List VerifyCall) : Prop :=
  Occurs RejectedAt ctx calls ∨ (feed ctx calls).state = .expectInit ∨
    ((feed ctx calls).strict = true ∧ unsignedTail (feed ctx calls) ≠ 0)

structure Reflects (code : Nat) (ctx : VerifierCtx ossl)
    (calls : List VerifyCall) : Prop where
  mismatch : Occurs MismatchAt ctx calls → code = 3
  certificate : ¬ Occurs MismatchAt ctx calls →
    Occurs CertFailureAt ctx calls → code = 4
  other : ¬ Occurs MismatchAt ctx calls →
    ¬ Occurs CertFailureAt ctx calls → Erroneous ctx calls → code = 1
  clean : code = 0 → ¬ Erroneous ctx calls

/-- What goes wrong on the line is recorded, or outweighed by a record. -/
structure Reported (ctx : VerifierCtx ossl) (call : VerifyCall) : Prop where
  mismatch : MismatchAt ctx call →
    Room ctx call ∨ Records TellsMismatch ctx.errors
  certificate : CertFailureAt ctx call →
    (CertBlamedAt ctx call ∧ Room ctx call) ∨
      Records TellsMismatch ctx.errors
  silent : ¬ FailsOpen ctx call

theorem verifierFinalize_grows (ctx : VerifierCtx ossl) :
    Grows ctx.errors (verifierFinalize ctx).errors := by
  have htail : ∀ n : UInt64,
      Unmarked (number n ++ ascii " messages at tail are unsigned") := fun n =>
    unmarked_number (show Unmarked [] by decide +kernel) (by decide +kernel) n
  unfold verifierFinalize
  extract_lets first unsignedCount second
  have hfirst : Grows ctx.errors first.errors :=
    grows_addErrorIf (by decide +kernel) 0
  exact hfirst.trans (grows_addErrorIf (htail _) 0)

theorem exitCode_cases (ctx : VerifierCtx ossl) :
    (Records TellsMismatch ctx.errors →
      exitCode (verifierFinalize ctx) = 3) ∧
    (¬ Records TellsMismatch ctx.errors →
      Records TellsCertificate ctx.errors →
        exitCode (verifierFinalize ctx) = 4) ∧
    (¬ Records TellsMismatch ctx.errors →
      ¬ Records TellsCertificate ctx.errors →
        (verifierFinalize ctx).errors ≠ [] →
          exitCode (verifierFinalize ctx) = 1) := by
  obtain ⟨hmismatch, hcert⟩ := (verifierFinalize_grows ctx).records
  have hcode : (verifierFinalize ctx).errors ≠ [] →
      exitCode (verifierFinalize ctx) =
        errorCode 1 (verifierFinalize ctx).errors := by
    intro hne
    exact if_neg fun h => hne (verifierPassed_iff.mp h)
  have hrecords : ∀ tells, Records tells (verifierFinalize ctx).errors →
      (verifierFinalize ctx).errors ≠ [] := by
    rintro tells ⟨e, he, -⟩ hnil
    rw [hnil] at he
    cases he
  refine ⟨?_, ?_, ?_⟩
  · intro h
    rw [hcode (hrecords _ (hmismatch.mpr h))]
    exact errorCode_of_mismatch (hmismatch.mpr h) 1
  · intro hnot h
    rw [hcode (hrecords _ (hcert.mpr h))]
    exact (errorCode_of_not_mismatch (mt hmismatch.mp hnot) 1).1 (hcert.mpr h)
  · intro hnot hnone hne
    rw [hcode hne]
    exact (errorCode_of_not_mismatch (mt hmismatch.mp hnot) 1).2
      (mt hcert.mp hnone)

section Verdict

variable {ctx : VerifierCtx ossl} {calls : List VerifyCall}

theorem not_erroneous_of_passed
    (h : (verifierFinalize (feed ctx calls)).errors = [])
    (hclosed : Throughout (fun before call =>
      ¬ FailsOpen (feed ctx before) call) calls) :
    ¬ Erroneous ctx calls := by
  obtain ⟨herrors, hstate, htail⟩ := verifierFinalize_errors.mp h
  rintro (⟨before, call, after, rfl, hlive, hrejected⟩ | hexpect | hunsigned)
  · have hstep : (processCall (feed ctx before) call).1.errors = [] := by
      rw [feed_append, feed_cons] at herrors
      exact feed_errors herrors
    obtain ⟨-, s, hstrip, hmalformed, haccepts | hsilent⟩ :=
      processLine_clean hlive hstep
    · obtain ⟨ctx', haccepts⟩ := haccepts
      exact hrejected ⟨s, ctx', hstrip, hmalformed, haccepts⟩
    · obtain ⟨tail, hsilent⟩ := hsilent
      obtain ⟨ctx', heq, -⟩ :=
        processLine_of_silent hlive hstrip hmalformed hsilent call.lineNum
      have hcall : processCall (feed ctx before) call = setError ctx' := heq
      have hstop : (processCall (feed ctx before) call).1.state = .error := by
        rw [hcall]
        rfl
      rw [feed_stops hstop] at h
      apply hclosed before call after rfl
      apply failsOpen_of_abandoned hlive _ h
      rw [hcall]
      exact (by decide : (-1 : Int) ≠ 0)
  · exact hstate hexpect
  · exact hunsigned.2 (htail hunsigned.1)

theorem CertBlamedAt.fails {call : VerifyCall} (h : CertBlamedAt ctx call) :
    CertFailureAt ctx call := by
  obtain ⟨hlive, s, hstrip, hfails, -⟩ := h
  exact ⟨hlive, s, hstrip, hfails⟩

theorem feed_categories (hlib : ∀ call ∈ calls, LibraryTexts ossl call.faults)
    (hstart : ctx.errors = []) :
    (Records TellsMismatch (feed ctx calls).errors ↔
      Occurs (fun ctx call => MismatchAt ctx call ∧ Room ctx call) ctx
        calls) ∧
    (Records TellsCertificate (feed ctx calls).errors ↔
      Occurs (fun ctx call => CertBlamedAt ctx call ∧ Room ctx call) ctx
        calls) := by
  have hnone : ∀ tells, ¬ Records tells ctx.errors := by
    rintro tells ⟨e, he, -⟩
    rw [hstart] at he
    cases he
  constructor
  · exact (feed_mismatches hlib).trans (or_iff_right (hnone _))
  · exact (feed_certificates hlib).trans (or_iff_right (hnone _))

theorem reflects_of_reported (hlib : ∀ call ∈ calls,
      LibraryTexts ossl call.faults) (hstart : ctx.errors = [])
    (h : Throughout (fun before call => Reported (feed ctx before) call)
      calls) :
    Reflects (exitCode (verifierFinalize (feed ctx calls))) ctx calls := by
  obtain ⟨hmismatch, hcert⟩ := feed_categories hlib hstart
  obtain ⟨hthree, hfour, hone⟩ := exitCode_cases (feed ctx calls)
  have hclosed : Throughout (fun before call =>
      ¬ FailsOpen (feed ctx before) call) calls :=
    fun before call after hcalls => (h before call after hcalls).silent
  have hbefore : ∀ before more, calls = before ++ more →
      Records TellsMismatch (feed ctx before).errors →
      Occurs (fun ctx call => MismatchAt ctx call ∧ Room ctx call) ctx
        calls := by
    rintro before more rfl hrecords
    have hlib' : ∀ call ∈ before, LibraryTexts ossl call.faults :=
      fun call hcall => hlib call (List.mem_append_left _ hcall)
    exact ((feed_categories hlib' hstart).1.mp hrecords).append more
  have hrecorded : Occurs MismatchAt ctx calls →
      Records TellsMismatch (feed ctx calls).errors := by
    rintro ⟨before, call, after, hcalls, hat⟩
    rw [hmismatch]
    rcases (h before call after hcalls).mismatch hat with hroom | hrecords
    · exact ⟨before, call, after, hcalls, hat, hroom⟩
    · exact hbefore before _ hcalls hrecords
  have hnone : ¬ Occurs MismatchAt ctx calls →
      ¬ Records TellsMismatch (feed ctx calls).errors := by
    intro hnot hrecords
    exact hnot ((hmismatch.mp hrecords).imp fun _ _ hat => hat.1)
  constructor
  · exact fun hoccurs => hthree (hrecorded hoccurs)
  · rintro hnot ⟨before, call, after, hcalls, hat⟩
    apply hfour (hnone hnot)
    rw [hcert]
    rcases (h before call after hcalls).certificate hat with hblamed | hrecords
    · exact ⟨before, call, after, hcalls, hblamed⟩
    · have hoccurs := hbefore before _ hcalls hrecords
      exact absurd (hoccurs.imp fun _ _ hat => hat.1) hnot
  · intro hnot hnocert herroneous
    apply hone (hnone hnot)
    · intro hrecords
      exact hnocert ((hcert.mp hrecords).imp fun _ _ hat => hat.1.fails)
    · intro hnil
      exact not_erroneous_of_passed hnil hclosed herroneous
  · intro hzero
    apply not_erroneous_of_passed _ hclosed
    exact verifierPassed_iff.mp (exitCode_eq_zero_iff.mp hzero)

theorem not_mismatchAt_of_certFailureAt {call : VerifyCall}
    (h : CertFailureAt ctx call) : ¬ MismatchAt ctx call := by
  obtain ⟨hlive, s, hstrip, hfails⟩ := h
  unfold MismatchAt
  rw [onRecord_iff hlive hstrip]
  exact hfails.not_fpMismatch

theorem exitCode_eq_three {ctx : VerifierCtx ossl}
    (h : exitCode (verifierFinalize ctx) = 3) :
    Records TellsMismatch ctx.errors := by
  obtain ⟨-, hfour, hone⟩ := exitCode_cases ctx
  by_contra hnot
  by_cases hcert : Records TellsCertificate ctx.errors
  · rw [hfour hnot hcert] at h
    cases h
  · by_cases hnil : (verifierFinalize ctx).errors = []
    · have hzero := exitCode_eq_zero_iff.mpr (verifierPassed_iff.mpr hnil)
      rw [hzero] at h
      cases h
    · rw [hone hnot hcert hnil] at h
      cases h

theorem exitCode_eq_four {ctx : VerifierCtx ossl}
    (h : exitCode (verifierFinalize ctx) = 4) :
    Records TellsCertificate ctx.errors := by
  obtain ⟨hthree, -, hone⟩ := exitCode_cases ctx
  by_contra hcert
  by_cases hmismatch : Records TellsMismatch ctx.errors
  · rw [hthree hmismatch] at h
    cases h
  · by_cases hnil : (verifierFinalize ctx).errors = []
    · have hzero := exitCode_eq_zero_iff.mpr (verifierPassed_iff.mpr hnil)
      rw [hzero] at h
      cases h
    · rw [hone hmismatch hcert hnil] at h
      cases h

/-- A mismatch that finds no room is lost for good. -/
theorem mismatch_reported {before after : List VerifyCall} {call : VerifyCall}
    (hlib : ∀ c ∈ call :: after, LibraryTexts ossl c.faults)
    (hat : MismatchAt (feed ctx before) call)
    (hrecords : Records TellsMismatch
      (feed ctx (before ++ call :: after)).errors) :
    Room (feed ctx before) call ∨
      Records TellsMismatch (feed ctx before).errors := by
  have hstep := processCall_reports (feed ctx before)
    (hlib call (List.mem_cons_self ..))
  by_contra hnot
  rw [not_or] at hnot
  have hfull := hstep.lost hat hnot.1
  rw [feed_append, feed_cons, feed_full
    (fun c hc => hlib c (List.mem_cons_of_mem _ hc)) hfull] at hrecords
  rcases hstep.mismatches.mp hrecords with hbefore | hroom
  · exact hnot.2 hbefore
  · exact hnot.1 hroom.2

theorem certificate_reported {before after : List VerifyCall}
    {call : VerifyCall}
    (hlib : ∀ c ∈ before ++ call :: after, LibraryTexts ossl c.faults)
    (hstart : ctx.errors = []) (hat : CertFailureAt (feed ctx before) call)
    (h : Reflects (exitCode (verifierFinalize
      (feed ctx (before ++ call :: after)))) ctx (before ++ call :: after)) :
    (CertBlamedAt (feed ctx before) call ∧ Room (feed ctx before) call) ∨
      Records TellsMismatch (feed ctx before).errors := by
  have hstep := processCall_reports (feed ctx before)
    (hlib call (List.mem_append_right _ (List.mem_cons_self ..)))
  have hlast : feed ctx (before ++ call :: after) =
      (processCall (feed ctx before) call).1 :=
    feed_stops (certFailureAt_stops hat)
  by_cases hmismatch : Occurs MismatchAt ctx (before ++ call :: after)
  · have hrecords := exitCode_eq_three (h.mismatch hmismatch)
    rw [hlast] at hrecords
    rcases hstep.mismatches.mp hrecords with hbefore | hroom
    · exact .inr hbefore
    · exact absurd hroom.1 (not_mismatchAt_of_certFailureAt hat)
  · have hrecords := exitCode_eq_four
      (h.certificate hmismatch ⟨before, call, after, rfl, hat⟩)
    rw [hlast] at hrecords
    rcases hstep.certificates.mp hrecords with hbefore | hroom
    · have hlib' : ∀ c ∈ before, LibraryTexts ossl c.faults :=
        fun c hc => hlib c (List.mem_append_left _ hc)
      have hoccurs := (feed_categories hlib' hstart).2.mp hbefore
      exact absurd hat.1
        (certFailureAt_last (hoccurs.imp fun _ _ hat => hat.1.fails))
    · exact .inl hroom

theorem not_accepted_of_failsOpen {call : VerifyCall}
    (h : FailsOpen ctx call) : RejectedAt ctx call := by
  constructor
  · exact h.1
  · rintro ⟨s, ctx', hstrip, hmalformed, haccepts⟩
    apply (abandoned_of_failsOpen h).1
    unfold processCall
    rw [processLine_of_accepts h.1 hstrip hmalformed haccepts]

theorem reported_of_reflects (hlive : Live ctx) (hlib : ∀ call ∈ calls,
      LibraryTexts ossl call.faults) (hstart : ctx.errors = [])
    (h : Reflects (exitCode (verifierFinalize (feed ctx calls))) ctx calls) :
    Throughout (fun before call => Reported (feed ctx before) call) calls := by
  rintro before call after rfl
  constructor
  · intro hat
    apply mismatch_reported
      (fun c hc => hlib c (List.mem_append_right _ hc)) hat
    exact exitCode_eq_three (h.mismatch ⟨before, call, after, rfl, hat⟩)
  · intro hat
    exact certificate_reported hlib hstart hat h
  · intro hopen
    obtain ⟨-, hpassed⟩ :=
      @not_failsClosed_of_failsOpen ossl ctx call before after hopen
    rw [readLoop_fst hlive] at hpassed
    apply h.clean (exitCode_eq_zero_iff.mpr (verifierPassed_iff.mpr hpassed))
    exact .inl ⟨before, call, after, rfl, not_accepted_of_failsOpen hopen⟩

end Verdict

theorem fileCalls_faults {faults : Nat → VerifyFaults} {file : Bytes}
    {call : VerifyCall} (h : call ∈ fileCalls faults file) :
    ∃ i, call.faults = faults i := by
  obtain ⟨i, hi, rfl⟩ := List.mem_mapIdx.mp h
  exact ⟨i, rfl⟩

theorem verifierMain_eq {fingerprintFails : Bool} {opts : VerifierOpts}
    {ctx : VerifierCtx ossl}
    (hinit : verifierInit ossl fingerprintFails opts = some ctx)
    (hcrl : opts.crlFile = none ∨ opts.caBundlePath ≠ none)
    (faults : Nat → VerifyFaults) (file : Bytes) :
    verifierMain ossl fingerprintFails opts faults (some file) =
      exitCode (verifierFinalize (feed ctx (fileCalls faults file))) := by
  have htrust : ([opts.pubkeyPath, opts.certPath, opts.caBundlePath].filter
      Option.isSome).length = 1 := by
    unfold verifierInit at hinit
    split at hinit
    next hkey hcert hbundle => simp [hkey, hcert, hbundle]
    next hkey hcert hbundle => simp [hkey, hcert, hbundle]
    next hkey hcert hbundle => simp [hkey, hcert, hbundle]
    next => cases hinit
  have husage : ¬ (opts.crlFile.isSome ∧ opts.caBundlePath = none) := by
    rintro ⟨hcrlFile, hbundle⟩
    rcases hcrl with hnone | hsome
    · rw [hnone] at hcrlFile
      cases hcrlFile
    · exact hsome hbundle
  unfold verifierMain
  simp only [htrust, ne_eq, not_true_eq_false, if_false, if_neg husage, hinit,
    readLoop_fst (verifierInit_live hinit)]

theorem exit_reflects_iff (ossl : OpenSSL) (fingerprintFails : Bool)
    (opts : VerifierOpts) (ctx : VerifierCtx ossl)
    (hinit : verifierInit ossl fingerprintFails opts = some ctx)
    (hcrl : opts.crlFile = none ∨ opts.caBundlePath ≠ none)
    (faults : Nat → VerifyFaults) (hlib : ∀ i, LibraryTexts ossl (faults i))
    (file : Bytes) :
    Reflects (verifierMain ossl fingerprintFails opts faults (some file)) ctx
        (fileCalls faults file) ↔
      Throughout (fun before call => Reported (feed ctx before) call)
        (fileCalls faults file) := by
  have htexts : ∀ call ∈ fileCalls faults file,
      LibraryTexts ossl call.faults := by
    intro call hcall
    obtain ⟨i, hi⟩ := fileCalls_faults hcall
    rw [hi]
    exact hlib i
  have hstart : ctx.errors = [] := by
    rcases verifierInit_cases hinit with ⟨-, pkey, fp, rfl, -⟩ | ⟨-, store, rfl⟩
    · rfl
    · rfl
  rw [verifierMain_eq hinit hcrl]
  constructor
  · exact reported_of_reflects (verifierInit_live hinit) htexts hstart
  · exact reflects_of_reported htexts hstart

/-! ## A mismatch behind 64 errors -/

theorem libraryTexts_sample : LibraryTexts sampleOpenSSL {} := by
  intro store cert text h
  have htext : text = ascii "unable to get local issuer certificate" := by
    unfold x509VerifyCert sampleOpenSSL at h
    simp only [Option.none_or] at h
    split_ifs at h
    exact (Option.some.inj h).symm
  rw [htext]
  decide +kernel

def foreignContinue : Bytes :=
  elementText (initParams "C" 2 (List.replicate 32 0) (List.replicate 32 0))

def crowdedFile (n : Nat) : Bytes :=
  (unsignedCall 0).line ++ ascii "\n" ++
    (List.replicate n (ascii "x\n")).flatten ++ foreignContinue

theorem exit_reflects_iff_sample :
    Reflects (verifierMain sampleOpenSSL false { pubkeyPath := some [7] }
        (fun _ => {}) (some (crowdedFile 1))) (sampleCtx false)
        (fileCalls (fun _ => {}) (crowdedFile 1)) ↔
      Throughout (fun before call =>
          Reported (feed (sampleCtx false) before) call)
        (fileCalls (fun _ => {}) (crowdedFile 1)) :=
  exit_reflects_iff sampleOpenSSL false { pubkeyPath := some [7] }
    (sampleCtx false) rfl (.inl rfl) (fun _ => {})
    (fun _ => libraryTexts_sample) (crowdedFile 1)

theorem mismatchAt_foreignContinue {ctx : VerifierCtx sampleOpenSSL}
    {call : VerifyCall} (hline : call.line = foreignContinue)
    (hstate : ctx.state = .processing)
    (hfp : ctx.pubkeyFp ≠ List.replicate 32 0) : MismatchAt ctx call := by
  have hrecord : (stripLine sampleOpenSSL foreignContinue).map (fun s =>
      (s.sd.type, s.sd.hasPubkeyFp, s.sd.pubkeyFp)) =
        some (.continue, true, List.replicate 32 0) := by decide +kernel
  obtain ⟨s, hstrip, hs⟩ := Option.map_eq_some_iff.mp hrecord
  rw [Prod.mk.injEq, Prod.mk.injEq] at hs
  obtain ⟨htype, hhas, hzeros⟩ := hs
  refine ⟨.inr hstate, s, hline ▸ hstrip, .continue htype hstate ?_⟩
  intro hagrees
  exact hfp ((hagrees hhas).symm.trans hzeros)

theorem crowdedFile_mismatch :
    Occurs MismatchAt (sampleCtx false)
      (fileCalls (fun _ => {}) (crowdedFile 64)) := by
  have hlines : ((fileCalls (fun _ => {}) (crowdedFile 64)).drop 65).map
      VerifyCall.line = [foreignContinue] := by decide +kernel
  have hstate : (feed (sampleCtx false)
      ((fileCalls (fun _ => {}) (crowdedFile 64)).take 65)).state =
        .processing := by decide +kernel
  have hfp : (feed (sampleCtx false)
      ((fileCalls (fun _ => {}) (crowdedFile 64)).take 65)).pubkeyFp ≠
        List.replicate 32 0 := by decide +kernel
  generalize fileCalls (fun _ => {}) (crowdedFile 64) = calls at *
  obtain ⟨call, hcall, hline⟩ := List.map_eq_singleton_iff.mp hlines
  refine ⟨calls.take 65, call, [], ?_,
    mismatchAt_foreignContinue hline hstate hfp⟩
  rw [← hcall, List.take_append_drop]

/-- With one error less in front of it, the mismatch is reported. -/
theorem mismatch_crowded_out :
    verifierMain sampleOpenSSL false { pubkeyPath := some [7] }
        (fun _ => {}) (some (crowdedFile 63)) = 3 ∧
      verifierMain sampleOpenSSL false { pubkeyPath := some [7] }
        (fun _ => {}) (some (crowdedFile 64)) = 1 ∧
      Occurs MismatchAt (sampleCtx false)
        (fileCalls (fun _ => {}) (crowdedFile 64)) ∧
      ¬ Reflects (verifierMain sampleOpenSSL false { pubkeyPath := some [7] }
          (fun _ => {}) (some (crowdedFile 64))) (sampleCtx false)
        (fileCalls (fun _ => {}) (crowdedFile 64)) := by
  have hcode : verifierMain sampleOpenSSL false { pubkeyPath := some [7] }
      (fun _ => {}) (some (crowdedFile 64)) = 1 := by decide +kernel
  refine ⟨by decide +kernel, hcode, crowdedFile_mismatch, ?_⟩
  intro h
  have hthree := h.mismatch crowdedFile_mismatch
  rw [hcode] at hthree
  cases hthree

end MmHashChainSigs.Verify
