import MmHashChainSigs.Foundation.Chain
import MmHashChainSigs.Verify.Main
import MmHashChainSigs.Verify.Strip

/-!
# The grammar of an accepted log

A log is a sequence of items, the record and the payload of each line.  The
grammar cuts it in front of every INIT record and states the rule of a record
relative to the items of its segment before it.  The verifier computes exactly
this: its context is a function of the items, and one line extends both.
-/

namespace MmHashChainSigs.Verify

open MmHashChainSigs.Foundation
open MmHashChainSigs.Common

/-! ## Items -/

/-- `verifyFails` tells that the signature check cannot be made on the line. -/
structure Item where
  record : HcsSdRecord
  payload : Bytes
  verifyFails : Bool
  deriving DecidableEq, Repr

def itemOf (ossl : OpenSSL) (call : VerifyCall) : Option Item :=
  (stripLine ossl call.line).bind fun s =>
    if s.malformed then none else some ⟨s.sd, s.msg, call.faults.verify⟩

def Strips (ossl : OpenSSL) (calls : List VerifyCall) (items : List Item) :
    Prop :=
  calls.map (itemOf ossl) = items.map some

def IsInit (item : Item) : Prop := item.record.type = .init

def IsSig (item : Item) : Prop := item.record.type = .sig

def IsContinue (item : Item) : Prop := item.record.type = .continue

instance : DecidablePred IsInit := fun _ => inferInstanceAs (Decidable (_ = _))

instance : DecidablePred IsSig := fun _ => inferInstanceAs (Decidable (_ = _))

instance : DecidablePred IsContinue := fun _ => inferInstanceAs (Decidable (_ = _))

/-! ## The rule of one record -/

def chainInput (prev : Bytes) (position : Nat) (payload : Bytes) : Bytes :=
  prev ++ uint64ToBe (UInt64.ofNat position) ++ payload

/-- `h_0` is the digest of the chain root, `h_i` absorbs payload number `i`. -/
def payloadHash (ossl : OpenSSL) (alg : HcsHashAlg) (payloads : List Bytes) :
    Bytes :=
  HashChain.chain (ossl.digest alg) chainInput (ossl.digest alg hcsChainIv)
    payloads

def segmentHash (ossl : OpenSSL) (alg : HcsHashAlg) (items : List Item) :
    Bytes :=
  payloadHash ossl alg (items.map (·.payload))

def lastSig (items : List Item) : Nat :=
  (items.rdropWhile fun item => ¬ IsSig item).length

def EndsSigned (segment : List Item) : Prop :=
  ∃ before item, segment = before ++ [item] ∧ IsSig item

variable (ossl : OpenSSL)

structure SigOk (key : ossl.Pkey) (hash : Bytes) (before : List Item)
    (item : Item) : Prop where
  signature : item.record.hasSignature = true
  valid : hcsVerify ossl item.verifyFails key hash
    (item.record.signature.take item.record.sigLen) = 0
  from_eq : item.record.seqFrom.toNat = lastSig before + 1
  to_eq : item.record.seqTo.toNat = before.length + 1

def TypeOk (key : ossl.Pkey) (fp hash : Bytes) (before : List Item)
    (item : Item) : Prop :=
  match item.record.type with
  | .init => item.record.hasPubkeyFp = true ∧ item.record.pubkeyFp = fp
  | .continue => item.record.hasPubkeyFp = true → item.record.pubkeyFp = fp
  | .sig => SigOk ossl key hash before item
  | .msg => True
  | .other _ => False

structure ItemOk (key : ossl.Pkey) (fp : Bytes) (alg : HcsHashAlg)
    (before : List Item) (item : Item) : Prop where
  seq : item.record.seq.toNat = before.length + 1
  hash : item.record.chainHash = segmentHash ossl alg (before ++ [item])
  type : TypeOk ossl key fp (segmentHash ossl alg (before ++ [item])) before item

/-! ## Logs -/

/-- Every segment is well formed; with `strict`, all but the last are signed. -/
def LogPrefix (key : ossl.Pkey) (fp : Bytes) (strict : Bool) (alg : HcsHashAlg)
    (segments : List (List Item)) : Prop :=
  (∀ segment ∈ segments, Throughout (ItemOk ossl key fp alg) segment) ∧
    (strict = true → ∀ segment ∈ segments.dropLast, EndsSigned segment)

def ChainLog (key : ossl.Pkey) (fp : Bytes) (strict : Bool)
    (items : List Item) : Prop :=
  items ≠ [] ∧ ∃ alg segments, Splits IsInit items segments ∧
    (∀ segment ∈ segments, Throughout (ItemOk ossl key fp alg) segment) ∧
    (strict = true → ∀ segment ∈ segments, EndsSigned segment)

variable {ossl}

/-! ## Hashes and positions -/

theorem chainInput_inj {alg : HcsHashAlg} {prev prev' payload payload' : Bytes}
    {m n : Nat} (hprev : prev.length = hcsHashLen alg)
    (hprev' : prev'.length = hcsHashLen alg)
    (h : chainInput prev m payload = chainInput prev' n payload') :
    prev = prev' ∧ UInt64.ofNat m = UInt64.ofNat n ∧ payload = payload' := by
  simp only [chainInput, List.append_assoc] at h
  obtain ⟨hdigest, hrest⟩ := List.append_inj h (hprev.trans hprev'.symm)
  obtain ⟨hposition, hpayload⟩ := List.append_inj hrest rfl
  exact ⟨hdigest, uint64ToBe_injective hposition, hpayload⟩

theorem chainInput_ne_root {alg : HcsHashAlg} {prev : Bytes}
    (hprev : prev.length = hcsHashLen alg) (n : Nat) (payload : Bytes) :
    chainInput prev n payload ≠ hcsChainIv := by
  intro h
  have hlen := congrArg List.length h
  have hwidth : 32 ≤ hcsHashLen alg := by cases alg <;> decide
  have hroot : hcsChainIv.length = 29 := by decide
  simp only [chainInput, List.length_append, hprev, uint64ToBe_length,
    hroot] at hlen
  omega

theorem ofNat_ne_one {k : Nat} (hpos : 0 < k) (hlt : k < 2 ^ 64) :
    UInt64.ofNat (k + 1) ≠ UInt64.ofNat 1 := by
  intro h
  have hmod := congrArg UInt64.toNat h
  simp only [UInt64.toNat_ofNat'] at hmod
  omega

theorem payloadHash_length (alg : HcsHashAlg) (payloads : List Bytes) :
    (payloadHash ossl alg payloads).length = hcsHashLen alg :=
  @HashChain.chain_good _ _ _ _ _ (fun d : Bytes => d.length = hcsHashLen alg)
    (ossl.digest_length alg) _ (ossl.digest_length alg _) payloads

theorem segmentHash_concat (alg : HcsHashAlg) (items : List Item)
    (item : Item) :
    segmentHash ossl alg (items ++ [item]) =
      ossl.digest alg (segmentHash ossl alg items ++
        uint64ToBe (UInt64.ofNat (items.length + 1)) ++ item.payload) := by
  unfold segmentHash payloadHash
  rw [List.map_append, List.map_singleton, HashChain.chain_concat,
    List.length_map]
  rfl

@[simp] theorem lastSig_nil : lastSig [] = 0 := rfl

theorem lastSig_concat_of_sig {item : Item} (h : IsSig item)
    (items : List Item) : lastSig (items ++ [item]) = items.length + 1 := by
  unfold lastSig
  rw [List.rdropWhile_concat_neg _ _ _ (by simp [h]), List.length_append]
  rfl

theorem lastSig_concat_of_not_sig {item : Item} (h : ¬ IsSig item)
    (items : List Item) : lastSig (items ++ [item]) = lastSig items := by
  unfold lastSig
  rw [List.rdropWhile_concat_pos _ _ _ (by simp [h])]

theorem lastSig_le (items : List Item) : lastSig items ≤ items.length :=
  (List.rdropWhile_prefix _ _).length_le

theorem endsSigned_iff {segment : List Item} (hne : segment ≠ []) :
    EndsSigned segment ↔ lastSig segment = segment.length := by
  obtain ⟨before, item, rfl⟩ :=
    (List.eq_nil_or_concat' segment).resolve_left hne
  by_cases hsig : IsSig item
  · rw [lastSig_concat_of_sig hsig, List.length_append, List.length_singleton]
    simp only [iff_true]
    exact ⟨before, item, rfl, hsig⟩
  · rw [lastSig_concat_of_not_sig hsig, List.length_append,
      List.length_singleton]
    have hle := lastSig_le before
    constructor
    · rintro ⟨before', item', heq, hsig'⟩
      obtain ⟨-, hitem⟩ := List.append_inj' heq rfl
      simp only [List.cons.injEq, and_true] at hitem
      exact absurd (hitem ▸ hsig') hsig
    · omega

end MmHashChainSigs.Verify
